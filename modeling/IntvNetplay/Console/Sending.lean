import IntvNetplay.Console.Duo
import IntvNetplay.Console.Transfer

/-!
# What a console sends in a match

Once a match is on, and whatever the other side does short of another START, a console sends whole
frames of the types that a relay forwards and no others: INPUT, CRC, RESYNC and STATE.  A frame of the
last type only comes in a whole push, so that none of them is one that the other console turns down.
-/

namespace IntvNetplay.Console

open IntvNetplay.Machine

/-! ### What is turned down -/

/-- What `RS_ON_STATE` makes of the hold flag; `none`: it turns the frame down. -/
def heard (hold : Bool) (f : List ℕ) : Option Bool :=
  if f.getD 1 0 ≠ ftState then some hold
  else if f.getD 0 0 < 3 then none
  else if f.getD 3 0 = 0xFF then
    if f.getD 2 0 = 0 then (if f.getD 0 0 < 5 then none else some true)
    else if f.getD 2 0 ≠ 1 then some hold
    else some false
  else if hold = false ∨ f.getD 0 0 - 3 = 0 ∨ 4 ≤ f.getD 3 0 ∨
      imgTotal + 1 ≤ word (f.getD 2 0) (f.getD 3 0) + (f.getD 0 0 - 3) then none
  else some true

/-- Some frames in a row. -/
def hears (hold : Bool) (fs : List (List ℕ)) : Option Bool := fs.foldlM heard hold

/-- Frames none of which is turned down, whatever came before. -/
def Welcome (fs : List (List ℕ)) : Prop := ∀ hold, ∃ b, hears hold fs = some b

section heard

variable {hold b : Bool} {f : List ℕ} {fs gs : List (List ℕ)}

theorem hears_cons : hears hold (f :: fs) = (heard hold f).bind (hears · fs) := rfl

theorem hears_append : hears hold (fs ++ gs) = (hears hold fs).bind (hears · gs) :=
  List.foldlM_append

theorem Welcome.nil : Welcome [] := fun hold => ⟨hold, rfl⟩

theorem Welcome.append (h : Welcome fs) (h' : Welcome gs) : Welcome (fs ++ gs) := by
  intro hold
  obtain ⟨b, hb⟩ := h hold
  obtain ⟨c, hc⟩ := h' b
  exact ⟨c, by rw [hears_append, hb, Option.bind_some, hc]⟩

/-- What is heard from here on. -/
theorem Welcome.after (h : Welcome gs) (hb : hears hold fs = some b) :
    ∃ c, hears hold (fs ++ gs) = some c := by
  obtain ⟨c, hc⟩ := h b
  exact ⟨c, by rw [hears_append, hb, Option.bind_some, hc]⟩

theorem Welcome.of_type (h : ∀ f ∈ fs, f.getD 1 0 ≠ ftState) : Welcome fs := by
  intro hold
  refine ⟨hold, ?_⟩
  induction fs with
  | nil => rfl
  | cons f fs ih =>
    obtain ⟨hf, hfs⟩ := List.forall_mem_cons.1 h
    rw [hears_cons, heard, if_pos hf, Option.bind_some, ih hfs]

/-- A chunk between BEGIN and END. -/
theorem heard_chunkFrame (s : Cpu) {k : ℕ} (hk : k ≤ 8) : heard true (chunkFrame s k) = some true := by
  obtain ⟨h1, h2, h3⟩ := chunkPos_succ hk
  have hlen : (imgRange s (chunkPos k) (chunkPos (k + 1) - chunkPos k)).length =
      chunkPos (k + 1) - chunkPos k := length_imgRange _ _ _
  simp only [imgTotal] at h2
  have hword : word (chunkPos k % 256) (chunkPos k / 256) = chunkPos k := word_mod_div _
  simp only [heard, chunkFrame, stateFrame, List.getD_cons_zero, List.getD_cons_succ, hlen, hword, imgTotal]
  rw [if_neg (by simp), if_neg (by omega), if_neg (by omega), if_neg]
  simp only [Bool.true_eq_false, false_or, not_or]
  omega

/-- A whole push. -/
theorem welcome_pushFrames (s : Cpu) : Welcome (pushFrames s) := by
  have hchunks : ∀ ks : List ℕ, (∀ k ∈ ks, k ≤ 8) → hears true (ks.map (chunkFrame s)) = some true := by
    intro ks hks
    induction ks with
    | nil => rfl
    | cons k ks ih =>
      obtain ⟨hk, hks⟩ := List.forall_mem_cons.1 hks
      rw [List.map_cons, hears_cons, heard_chunkFrame s hk, Option.bind_some, ih hks]
  intro hold
  refine ⟨false, ?_⟩
  have hbegin : heard hold (stateFrame posBegin [resumeTick s % 256, resumeTick s / 256]) = some true := rfl
  have hend : heard true (stateFrame posEnd []) = some false := rfl
  rw [pushFrames, List.cons_append, hears_cons, hbegin, Option.bind_some, hears_append,
    hchunks _ (by decide), Option.bind_some, hears_cons, hend]
  rfl

end heard

/-- Frames of a match, every push a whole one. -/
def Sent (s t : Cpu) : Prop :=
  ∃ fs : List (List ℕ), (∀ f ∈ fs, Framed f ∧ Forwarded f) ∧ Welcome fs ∧ t.tx = s.tx ++ fs.flatten

namespace Sent

variable {s t u : Cpu}

theorem of_tx (h : t.tx = s.tx) : Sent s t :=
  ⟨[], fun _ hf => absurd hf List.not_mem_nil, .nil, by rw [h, List.flatten_nil, List.append_nil]⟩

theorem trans (h : Sent s t) (h' : Sent t u) : Sent s u := by
  obtain ⟨fs, hfs, hw, ht⟩ := h
  obtain ⟨gs, hgs, hw', hu⟩ := h'
  refine ⟨fs ++ gs, fun f hf => (List.mem_append.1 hf).elim (hfs f) (hgs f), hw.append hw', ?_⟩
  rw [hu, ht, List.flatten_append, List.append_assoc]

theorem of_asides (h : ∃ msgs : List (List ℕ), (∀ g ∈ msgs, Aside g) ∧ t.tx = s.tx ++ msgs.flatten) :
    Sent s t := by
  obtain ⟨msgs, hmsgs, htx⟩ := h
  refine ⟨msgs, fun g hg => ⟨(hmsgs g hg).framed, ?_⟩, .of_type fun g hg => ?_, htx⟩
  · exact (hmsgs g hg).type.elim (.inr ∘ .inl) (.inr ∘ .inr ∘ .inr)
  · rcases (hmsgs g hg).type with h | h <;> rw [h] <;> decide

theorem one {f : List ℕ} (hf : Framed f) (ht : f.getD 1 0 = ftInput ∨ f.getD 1 0 = ftCrc)
    (h : t.tx = s.tx ++ f) : Sent s t := by
  refine ⟨[f], fun g hg => ?_, .of_type fun g hg => ?_, by rw [h, List.flatten_singleton]⟩
  · rw [List.mem_singleton.1 hg]
    exact ⟨hf, ht.elim .inl (.inr ∘ .inl)⟩
  · rw [List.mem_singleton.1 hg]
    rcases ht with ht | ht <;> rw [ht] <;> decide

end Sent

/-! ### A frame -/

section frame

variable {s : Cpu}

theorem tx_onInput (s : Cpu) : (onInput s).tx = s.tx := by
  unfold onInput
  dsimp only
  split_ifs <;> rfl

theorem tx_rsOnReq (s : Cpu) : (rsOnReq s).tx = s.tx := by
  unfold rsOnReq
  split_ifs <;> rfl

theorem sent_rsOnCrc (s : Cpu) : Sent s (rsOnCrc s) := by
  unfold rsOnCrc
  dsimp only
  split_ifs
  · exact .of_tx rfl
  · exact .of_tx rfl
  · exact .of_tx rfl
  · exact .of_tx rfl
  · exact .of_tx rfl
  · exact .of_asides (asides_rsWant (s.emit (.crcIn (frameTick s) (frameCrc s))))

theorem tx_rsOnState (s : Cpu) : (rsOnState s).tx = s.tx := by
  have hchunk : (rsOnChunk s).tx = s.tx := by
    unfold rsOnChunk
    dsimp only
    split_ifs with h1 h2 h3 h4
    · exact (local_rsBad s).tx
    · exact (local_rsBad s).tx
    · exact (local_rsBad _).tx
    · exact (local_rsBad _).tx
    · have hle : s.rd16 (frmbuf + 2) (frmbuf + 3) + (s.rd frmbuf - 3) ≤ imgTotal :=
        Nat.lt_succ_iff.1 (Nat.not_le.1 h4)
      unfold rsApply
      dsimp only
      rw [Cpu.tx_st, Cpu.tx_st, Cpu.tx_st, (local_applyBytes _ hle).tx]
      rfl
  have hcontrol : (rsOnControl s).tx = s.tx := by
    unfold rsOnControl
    dsimp only
    split_ifs
    · exact (local_rsBad s).tx
    · rw [Cpu.tx_st, Cpu.tx_st, (local_rsEnterHold s).tx]
    · rfl
    · rfl
    · exact tx_rsRebase _
  unfold rsOnState
  split_ifs
  · exact (local_rsBad s).tx
  · exact hcontrol
  · exact hchunk

/-- What a frame of a match is answered with. -/
theorem sent_sesOnframe {f : List ℕ} (h1 : s.rd (frmbuf + 1) = f.getD 1 0) (hf : Forwarded f) :
    Sent s (sesOnframe s) := by
  rcases hf with hf | hf | hf | hf <;> rw [← h1] at hf
  · rw [sesOnframe_input hf]
    exact .of_tx (tx_onInput s)
  · rw [sesOnframe_crc hf]
    exact sent_rsOnCrc s
  · rw [sesOnframe_state hf]
    exact .of_tx (tx_rsOnState s)
  · rw [sesOnframe_resync hf]
    exact .of_tx (tx_rsOnReq s)

end frame

/-! ### A step -/

/-- A console in a match. -/
structure Engaged (s : Cpu) : Prop where
  seated : Seated s
  active : s.rd netActive ≠ 0

section step

variable {s t : Cpu} {W : World} {n n' : Node} {fs : List (List ℕ)} {unread : List ℕ}

theorem Engaged.of_within {P : ℕ → Prop} (h : Engaged s) (hw : Within P s t) (h1 : ¬ P netSeat)
    (h2 : ¬ P netCount) (h3 : ¬ P lobbyCnt) (h4 : ¬ P netActive) : Engaged t :=
  ⟨h.seated.of_within hw h1 h2 h3, by rw [hw.rd _ h4]; exact h.active⟩

/-- A console in a match with the frames to come. -/
def Taking (s t : Cpu) (fs : List (List ℕ)) : Prop := Engaged t ∧ Sent s t ∧ ∀ f ∈ fs, Forwarded f

theorem taking_frame {f : List ℕ} (h : Taking s t (f :: fs)) (hf : Framed f)
    (hbuf : InFrmbuf f (ppExtract f.length t)) :
    KeepsRx (ppExtract f.length t) ∧ Taking s (sesOnframe (ppExtract f.length t)) fs := by
  have hlen := hf.length_le
  have hl : Local PumpCell t (ppExtract f.length t) := local_ppExtract (by omega) t
  generalize ppExtract f.length t = v at *
  obtain ⟨heng, hsent, hfw⟩ := h
  have hv : Engaged v := heng.of_within hl.within (by decide) (by decide) (by decide) (by decide)
  have h1 : v.rd (frmbuf + 1) = f.getD 1 0 := hbuf.rd hf.two_le
  have hfw' := List.forall_mem_cons.1 hfw
  obtain ⟨hk, hs⟩ := keepsRx_forwarded hv.seated h1 hfw'.1
  exact ⟨hk, ⟨hs, active_sesOnframe hv.seated hv.active⟩,
    (hsent.trans (.of_tx hl.tx)).trans (sent_sesOnframe h1 hfw'.1), hfw'.2⟩

theorem taking_sesPump {p : Poll} (h : Engaged s) (hfw : ∀ f ∈ fs, Forwarded f)
    (hal : Aligned (delivered p s ++ unread) fs s) (hread : (delivered p s).length ≤ 64) :
    ∃ gs, Taking s (sesPump p s) gs ∧ Aligned unread gs (sesPump p s) := by
  have hfetch := local_sesFetch p s
  have hstart : Taking s (sesFetch p s) fs :=
    ⟨h.of_within hfetch.within (by decide) (by decide) (by decide) (by decide), .of_tx hfetch.tx, hfw⟩
  obtain ⟨-, gs, hp, hal'⟩ := sesPump_frames (P := fun _ t fs => Taking s t fs) hal hread hstart
    fun _ _ _ _ ht hf hin _ => taking_frame ht hf hin
  exact ⟨gs, hp, hal'⟩

/-- What follows a pump sends nothing. -/
theorem tx_afterPump {raw : ℕ} {ph : Phase} (h : Engaged s) (ha : afterPump raw ph s = some n) :
    n.cpu.tx = s.tx := by
  cases ph <;> simp only [afterPump, Option.some.injEq, reduceCtorEq] at ha <;> subst ha
  · rw [lobbyRound, if_neg h.active]
    exact (local_sesGo h.active h.seated.count).tx
  · exact (local_matchedRound s).tx
  · exact (countOrDrop_holdTail s).within.tx
  · rfl
  · exact (countOrDrop_stallTail s).within.tx

/-- Seven bytes with a seat. -/
theorem framed_seven {a b c d e ft : ℕ} (ht : flenOk 6 ft = true) (hft : ft < 256) (ha : a < 4) (hb : b < 256)
    (hc : c < 256) (hd : d < 256) (he : e < 256) : Framed [6, ft, a, b, c, d, e] := by
  refine ⟨rfl, ht, fun x hx => ?_⟩
  simp only [List.mem_cons, List.not_mem_nil, or_false] at hx
  omega

theorem sent_pushSent (s : Cpu) : Sent s (pushSent s) := by
  refine ⟨pushFrames s, fun f hf => ⟨framed_pushFrames s f hf, .inr (.inr (.inl ?_))⟩, welcome_pushFrames s,
    tx_pushSent s⟩
  simp only [pushFrames, List.cons_append, List.mem_cons, List.mem_append, List.mem_map,
    List.not_mem_nil, or_false] at hf
  rcases hf with rfl | ⟨k, -, rfl⟩ | rfl <;> rfl

theorem sent_runBody (hs : s.rd netSeat < 4) (C : Cart) : Sent s (runBody C s) := by
  have htx := tx_runBody s C
  split_ifs at htx with h
  · have h1 : s.rd tickLo < 256 := s.rd_lt_256 (by decide)
    have h2 : s.rd tickHi < 256 := s.rd_lt_256 (by decide)
    have hc : lsCksum (lsTick C s) < 65536 := lsCksum_lt _
    exact .one (framed_seven (by decide) (by decide) hs h1 h2 (by omega) (by omega)) (.inr rfl) htx
  · exact .of_tx (by rw [htx, List.append_nil])

theorem tx_lsReturn (s : Cpu) : (lsReturn s).tx = s.tx := rfl

theorem sent_advance {C : Cart} (h : Engaged n.cpu) (ha : advance C n = some n') : Sent n.cpu n'.cpu := by
  obtain ⟨ph, t⟩ := n
  cases ph <;> simp only [advance, Option.some.injEq, reduceCtorEq] at ha <;> subst ha
  · have hentry : Sent t (lsEntry t).cpu := by
      unfold lsEntry
      split_ifs
      · exact .of_tx (tx_lsReturn t)
      · exact .of_tx (local_lsGone t).tx
      · exact .of_tx ((local_lsFreeze t).tx)
      · exact .of_tx rfl
    exact hentry
  · have hd : dueTick t < 65536 := Nat.mod_lt _ (by decide)
    have hin : t.rd execInL < 256 := t.rd_lt_256 (by decide)
    have hkp : t.rd execKpL < 256 := t.rd_lt_256 (by decide)
    have hframed : Framed [6, ftInput, t.rd netSeat, dueTick t % 256, dueTick t / 256, t.rd execInL,
        t.rd execKpL] :=
      framed_seven (by decide) (by decide) h.seated.seat (by omega) (by omega) hin hkp
    exact .one hframed (.inl rfl) (tx_lsSend (s := t) h.seated.seat)
  · unfold lsGate
    split_ifs
    · have hrun : Sent t (lsRun C t) := by
        rw [lsRun_eq]
        refine (sent_runBody h.seated.seat C).trans ?_
        rcases rsPending_cases (runBody C t) with hl | ⟨-, -, -, u, hl, heq⟩
        · exact .of_tx hl.tx
        · rw [heq, rsPush_eq]
          exact ((Sent.of_tx hl.tx).trans (sent_pushSent u)).trans (.of_tx (tx_rsRebase _))
      exact hrun
    · exact .of_tx (local_lsFreeze t).tx

/-- Outside its pump a console leaves the receive buffer alone. -/
theorem not_rxCell_outer {a : ℕ} (h : RxCell a) : ¬ OuterCell a := by
  have hown := not_rxCell_own h
  have hbody := not_rxCell_body h
  have hstate := not_rxCell_state h
  simp only [OwnCell, EntryCell, not_or] at hown
  simp only [BodyCell, WrapCell, not_or] at hbody
  simp only [StateCell, ShortCell, BeginCell, ApplyCell, RebaseCell, RestartCell, not_or] at hstate
  obtain ⟨⟨hmail, ⟨hhold, hcrc, hlo, hhi⟩, -, -, htmp2, hplo, hphi⟩, hinst, -, -, hring, hwm, -⟩ := hstate
  have hcell : ∀ b ∈ [peerWhy, netDropped, lsTmpb, lsTmpb2, rsPtmo, rsGate, rsWaited], a ≠ b := by
    rintro b hb rfl
    simp only [RxCell, rxWr, rxRd, rxacc] at h
    simp only [List.mem_cons, List.not_mem_nil, or_false, peerWhy, netDropped, lsTmpb, lsTmpb2,
      rsPtmo, rsGate, rsWaited] at hb
    omega
  rintro (hp | hp)
  · rcases hp with hp | hp | hp | hp | hp | hp | hp | hp | hp | hp | hp
    · exact hown.1.1 hp
    · rcases hp with (hp | hp) | hp | hp | hp
      · exact hring hp
      · exact hwm hp
      · exact hcell _ (by simp) hp
      · exact hcell _ (by simp) hp
      · exact hhold (.inl hp)
    · rcases hp with hp | hp | hp
      · exact hring hp
      · exact hcell _ (by simp) hp
      · exact hcell _ (by simp) hp
    · exact hbody.1 hp
    · exact hbody.2.1 hp
    · exact hbody.2.2.1 hp
    · exact hbody.2.2.2 hp
    · rcases hp with hp | hp | hp
      · exact hcell _ (by simp) hp
      · exact hcell _ (by simp) hp
      · exact hcell _ (by simp) hp
    · rcases hp with (hp | hp | hp | hp | hp) | hp | hp | hp | hp
      · exact hmail hp
      · exact hplo hp
      · exact hphi hp
      · exact htmp2 hp
      · exact hcell _ (by simp) hp
      · exact hhold hp
      · exact hcrc hp
      · exact hlo hp
      · exact hhi hp
    · rcases hp with hp | hp
      · exact hinst hp
      · exact not_rxCell_state h (.inr (.inr hp))
    · exact hown.1.2.2 hp
  · exact hown.2 hp

/-- **What a step sends** in a match: whole frames of the types that a relay forwards, whatever frames of
these types come in. -/
theorem sent_step {p : Option Poll} (hs : Step W p n n') (h : Engaged n.cpu) (hfw : ∀ f ∈ fs, Forwarded f)
    (hal : Aligned (reads p n.cpu ++ unread) fs n.cpu) (hread : (reads p n.cpu).length ≤ 64) :
    Engaged n'.cpu ∧ Sent n.cpu n'.cpu ∧ ∃ gs, (∀ f ∈ gs, Forwarded f) ∧ Aligned unread gs n'.cpu := by
  have hrx : ∀ {P : ℕ → Prop} {t u : Cpu}, Within P t u → (∀ a, RxCell a → ¬ P a) → Aligned unread fs t →
      ∃ gs, (∀ f ∈ gs, Forwarded f) ∧ Aligned unread gs u := fun hw hP hal =>
    ⟨fs, hfw, hal.of_rx (rxBytes_local hw hP)⟩
  have hout : ∀ {t : Cpu} {m : Mem}, Engaged t → Aligned unread fs t →
      (∀ a, 0x8000 ≤ a → m.get a = t.mem.get a) → Engaged (t.call fun _ => m) ∧ Sent t (t.call fun _ => m) ∧
        ∃ gs, (∀ f ∈ gs, Forwarded f) ∧ Aligned unread gs (t.call fun _ => m) := by
    intro t m he hal hm
    have hl := local_outside (s := t) hm
    refine ⟨he.of_within hl.within (by decide) (by decide) (by decide) (by decide), .of_tx rfl,
      hrx hl.within (fun a ha => ?_) hal⟩
    simp only [RxCell, rxWr, rxRd, rxacc] at ha
    omega
  cases hs with
  | isr hm => exact hout h hal (W.isr_get hm)
  | native hm => exact hout h hal (W.native_get hm)
  | boot hm => exact hout h hal (W.boot_get hm)
  | own ha =>
    have hw := within_advance ha h.seated.seat
    exact ⟨h.of_within hw (by decide) (by decide) (by decide) (by decide), sent_advance h ha,
      hrx hw (fun a hx hp => not_rxCell_outer hx (.inl hp)) hal⟩
  | pump ha =>
    obtain ⟨gs, ⟨heng, hsent, hgs⟩, hal'⟩ := taking_sesPump h hfw hal hread
    have hw := within_afterPump ha heng.seated.lobby heng.seated.count
    exact ⟨heng.of_within hw (by decide) (by decide) (by decide) (by decide),
      hsent.trans (.of_tx (tx_afterPump heng ha)), gs, hgs,
      hal'.of_rx (rxBytes_local hw fun _ => not_rxCell_outer)⟩

end step

/-! ### Two consoles, whatever happens -/

/-- Both consoles are in the match, and what is on its way to them are whole frames of it. -/
def Duo.Flowing (D : Duo) : Prop :=
  ∀ i, Engaged (D.node i).cpu ∧ ∃ fs, (∀ f ∈ fs, Forwarded f) ∧ Aligned (D.wire i) fs (D.node i).cpu

section flowing

variable {W : Fin 2 → World} {D D' : Duo} {d : ℕ}

/-- What one console takes and sends in a step. -/
theorem Duo.Flowing.piece {i : Fin 2} {p : Option Poll} {n : Node} {rest sent : List ℕ} (h : D.Flowing)
    (hs : Step (W i) p (D.node i) n) (hread : (reads p (D.node i).cpu).length ≤ 64)
    (hwire : D.wire i = reads p (D.node i).cpu ++ rest) (htx : n.cpu.tx = (D.node i).cpu.tx ++ sent) :
    (∃ fs : List (List ℕ), (∀ f ∈ fs, Framed f ∧ Forwarded f) ∧ Welcome fs ∧ sent = fs.flatten) ∧
      Engaged n.cpu ∧ ∃ gs, (∀ f ∈ gs, Forwarded f) ∧ Aligned rest gs n.cpu := by
  obtain ⟨heng, fs, hfw, hal⟩ := h i
  rw [hwire] at hal
  obtain ⟨heng', ⟨gs, hgs, hw, hsent⟩, hflow⟩ := sent_step hs heng hfw hal hread
  exact ⟨⟨gs, hgs, hw, List.append_cancel_left (htx.symm.trans hsent)⟩, heng', hflow⟩

theorem flowing_step (h : D.Flowing) (hs : DuoStep W D D') : D'.Flowing := by
  cases hs with
  | @step i p n rest sent hs hread hwire htx =>
    obtain ⟨⟨fs, hfs, -, rfl⟩, heng, gs, hgs, hal⟩ := h.piece hs hread hwire htx
    intro j
    by_cases hj : j = i
    · subst hj
      simp only [Function.update_self, Function.update_of_ne (other_ne j).symm]
      exact ⟨heng, gs, hgs, hal⟩
    · obtain rfl := eq_other hj
      simp only [Function.update_self, Function.update_of_ne (other_ne i)]
      obtain ⟨hother, os, hos, hal'⟩ := h (1 - i)
      refine ⟨hother, os ++ fs, fun f hf => (List.mem_append.1 hf).elim (hos f) fun hf => (hfs f hf).2, ?_⟩
      exact hal'.extend fun f hf => (hfs f hf).1

theorem engaged_opening (h : D.Opening d) (i : Fin 2) :
    Engaged (D.node i).cpu ∧ Aligned (D.wire i) [] (D.node i).cpu := by
  obtain ⟨lo, hi, names, hstart⟩ := h.started
  obtain ⟨u, hnode, hbuf, hlobby, -, hrx⟩ := hstart i
  have h1 : u.rd (frmbuf + 1) = ftStart := hbuf.rd (by simp [startFrame])
  have hopen := opened_onStart hbuf
  have hcount := (within_onStart u).rd lobbyCnt (by decide)
  have hkeep : rxBytes (onStart u) = [] := by
    rw [← hrx]
    refine rxBytes_congr fun a ha => ?_
    rw [← sesOnframe_start h1]
    exact keepsRx_start h1 a ha
  rw [hnode, h.wire i]
  refine ⟨⟨⟨?_, ?_, ?_⟩, ?_⟩, fun _ hf => absurd hf List.not_mem_nil, by rw [hkeep]; rfl,
    fun f hf => absurd hf (by simp)⟩
  · rw [hopen.rdSeat]
    omega
  · rw [hopen.rdCount]
    decide
  · rw [hcount]
    exact hlobby
  · rw [hopen.rdActive]
    decide

theorem flowing_opening (h : D.Opening d) : D.Flowing := fun i =>
  ⟨(engaged_opening h i).1, [], fun _ hf => absurd hf List.not_mem_nil, (engaged_opening h i).2⟩

end flowing

end IntvNetplay.Console
