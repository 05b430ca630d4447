import IntvNetplay.Console.Relayed

/-!
# What the receiver counts

`DIAG_SLIP` counts the bytes that the parser drops to find a frame, `DIAG_REJ` the STATE frames that
`RS_ON_STATE` turns down; both are on the screen of a lost peer.  In a match that neither console gives
up they stand still, with any number of resyncs and whatever the relay does with the bytes.
-/

namespace IntvNetplay.Console

open IntvNetplay.Machine

/-! ### What a transaction counts -/

/-- Neither a counter of the receiver nor the hold flag. -/
def Still (a : ℕ) : Prop := a ∉ [diagSlip, diagRej, resyncHold]

instance : DecidablePred Still := fun a => by unfold Still; infer_instance

section mail

variable {s t : Cpu} {P : ℕ → Prop}

theorem still_of (h : ∀ b ∈ [diagSlip, diagRej, resyncHold], ¬ P b) (a : ℕ) (ha : P a) : Still a :=
  fun hm => h a hm ha

/-- Of the counters in reach of a transaction, it takes two others. -/
theorem still_mbTransact (r : Option Reply) (h : Local Still s t) : Local Still s (mbTransact r t) := by
  have hreq : Local Still s (mbRequest t) := by
    unfold mbRequest
    repeat refine Local.st ?_ (by decide)
    exact h
  cases r with
  | none => exact ((hreq.st (by decide)).st (by decide)).diagBump (by decide)
  | some r =>
    have hans : Local Still s (mbAnswer r (mbRequest t)) := by
      unfold mbAnswer
      repeat refine Local.poke ?_ (by decide)
      refine hreq.pokeAll fun x h1 _ hm => ?_
      simp only [fnRx] at h1
      simp only [List.mem_cons, List.not_mem_nil, or_false, diagSlip, diagRej, resyncHold] at hm
      omega
    rw [mbTransact]
    generalize mbAnswer r (mbRequest t) = u at hans ⊢
    have hpolls : Local Still s (notePolls r.polls u) := by
      unfold notePolls
      exact .ite (fun _ => hans) fun _ => (hans.st (by decide)).st (by decide)
    exact .ite (fun _ => hpolls.st (by decide)) fun _ =>
      ((hpolls.st (by decide)).st (by decide)).diagBump (by decide)

theorem still_netStatus (r : Option Reply) (h : Local Still s t) : Local Still s (netStatus r t) := by
  have hreq : Local Still s (statusRequest t) := by
    unfold statusRequest
    repeat refine Local.st ?_ (by decide)
    exact h
  have h' := still_mbTransact r hreq
  rw [netStatus]
  generalize mbTransact r (statusRequest t) = u at h' ⊢
  have hav : Local Still s ((u.st navailLo (u.rd fnRx)).st navailHi (u.rd (fnRx + 1))) :=
    (h'.st (by decide)).st (by decide)
  refine .ite (fun _ => (h'.st (by decide)).st (by decide)) fun _ => ?_
  exact .ite (fun _ => hav) fun _ => (hav.st (by decide)).st (by decide)

theorem still_netRead (r : Option Reply) (h : Local Still s t) : Local Still s (netRead r t) := by
  have hreq : Local Still s (readRequest t) := by
    unfold readRequest
    repeat refine Local.st ?_ (by decide)
    exact h
  have h' := still_mbTransact r hreq
  exact .ite (fun _ => (h'.st (by decide)).st (by decide)) fun _ => (h'.st (by decide)).st (by decide)

theorem still_sendFrame {bytes : List ℕ} (h : Within Still s t) : Within Still s (sendFrame bytes t) := by
  have hstage : Within Still s (stage bytes t) := by
    refine ((h.stAll fun x h1 _ hm => ?_).st (by decide)).st (by decide)
    simp only [fnTx] at h1
    simp only [List.mem_cons, List.not_mem_nil, or_false, diagSlip, diagRej, resyncHold] at hm
    omega
  rw [sendFrame, netWrite]
  generalize stage bytes t = u at hstage
  have hreq : Within Still s (writeRequest u) := by
    unfold writeRequest
    repeat refine Within.st ?_ (by decide)
    exact hstage
  have htx : Within Still s (transmit (writeRequest u)) := hreq.withTx
  exact htx.trans (still_mbTransact _ (.refl _)).within

/-- What comes in is put into the buffer. -/
theorem still_sesFetch (p : Poll) (s : Cpu) : Local Still s (sesFetch p s) := by
  have hst := still_netStatus p.status (.refl s)
  refine .ite (fun _ => hst) fun _ => ?_
  refine Local.foldl (fun t b => ?_) (still_netRead _ ((hst.st (by decide)).st (by decide))) _
  have hw : t.rd rxWr < 256 := t.rd_lt_256 (by decide)
  refine Local.st (Local.st (.refl t) fun hm => ?_) (by decide)
  simp only [List.mem_cons, List.not_mem_nil, or_false, rxacc, diagSlip, diagRej, resyncHold] at hm
  omega

end mail

/-! ### What a frame counts -/

/-- Is the console in the hold of a resync? -/
def holding (s : Cpu) : Bool := decide (s.rd resyncHold ≠ 0)

/-- Neither counter moves. -/
def Uncounted (s t : Cpu) : Prop := ∀ a ∈ [diagSlip, diagRej], t.rd a = s.rd a

section counts

variable {s t u : Cpu} {P : ℕ → Prop} {f : List ℕ} {b : Bool}

theorem Uncounted.refl (s : Cpu) : Uncounted s s := fun _ _ => rfl

theorem Uncounted.trans (h : Uncounted s t) (h' : Uncounted t u) : Uncounted s u := fun a ha =>
  (h' a ha).trans (h a ha)

theorem Uncounted.of_within (h : Within P s t) (hP : ∀ a ∈ [diagSlip, diagRej], ¬ P a) : Uncounted s t :=
  fun a ha => h.rd a (hP a ha)

theorem holding_congr (h : t.rd resyncHold = s.rd resyncHold) : holding t = holding s := by
  rw [holding, holding, h]

/-- Neither the counters nor the hold flag. -/
theorem still_kept (h : Within Still s t) : Uncounted s t ∧ holding t = holding s :=
  ⟨.of_within h (by decide), holding_congr (h.rd _ (by decide))⟩

theorem still_of_within (h : Within P s t) (hP : ∀ b ∈ [diagSlip, diagRej, resyncHold], ¬ P b) :
    Within Still s t := h.mono (still_of hP)

theorem still_rsOnCrc (s : Cpu) : Within Still s (rsOnCrc s) := by
  have h : Within Still s (s.emit (.crcIn (frameTick s) (frameCrc s))) := (Within.refl s).emit
  have hwant : ∀ v, Within Still v (rsWant v) := fun v => by
    have hv : Within Still v
        (((v.emit (.mismatch (frameTick v) (recordCrc v) (frameCrc v))).st rsPend 1).st rsPtmo 0) :=
      ((Within.refl v).emit.st (by decide)).st (by decide)
    exact .ite (fun _ => hv) fun _ => still_sendFrame hv
  unfold rsOnCrc
  refine .ite (fun _ => .refl s) fun _ => ?_
  refine .ite (fun _ => h) fun _ => ?_
  refine .ite (fun _ => h) fun _ => ?_
  refine .ite (fun _ => h) fun _ => ?_
  exact .ite (fun _ => h) fun _ => h.trans (hwant _)

theorem still_rsOnReq (s : Cpu) : Within Still s (rsOnReq s) :=
  .ite (fun _ => (Within.refl s).emit) fun _ => ((Within.refl s).emit.st (by decide)).st (by decide)

theorem holding_rsRebase (s : Cpu) : holding (rsRebase s) = false := by
  have h0 : (rsRebase s).rd resyncHold = 0 := by
    rw [rd_rsRebase, rsRestart, rd_rsReleaseHold_of_hold _ (.inl rfl)]
  rw [holding, h0]
  rfl

theorem uncounted_rsRebase (s : Cpu) : Uncounted s (rsRebase s) := .of_within (within_rsRebase s) (by decide)

theorem uncounted_rsOnControl (hlen : s.rd (frmbuf + 2) = 0 → 5 ≤ s.rd frmbuf)
    (hb : (if s.rd (frmbuf + 2) = 0 then true else if s.rd (frmbuf + 2) ≠ 1 then holding s else false) = b) :
    Uncounted s (rsOnControl s) ∧ holding (rsOnControl s) = b := by
  unfold rsOnControl
  dsimp only
  split_ifs with h1 h2 h3 h4
  · exact absurd (hlen h1) (by omega)
  · rw [if_pos h1] at hb
    refine ⟨.of_within (local_beginFrame s).within (by decide), ?_⟩
    have h0 : ∀ v w, (((rsEnterHold s).st rsRLo v).st rsRHi w).rd resyncHold = 1 := fun v w => by
      rw [Cpu.rd_st, if_neg (by decide), Cpu.rd_st, if_neg (by decide), rsEnterHold,
        (local_rsClrCrc _).rd _ (by decide)]
      simp [cellBits]
    rw [holding, h0, ← hb]
    rfl
  · rw [if_neg h1, if_pos h3] at hb
    exact ⟨.refl s, hb⟩
  · rw [if_neg h1, if_neg h3] at hb
    refine ⟨.refl s, ?_⟩
    rw [holding, h4, ← hb]
    rfl
  · rw [if_neg h1, if_neg h3] at hb
    exact ⟨uncounted_rsRebase s, by rw [holding_rsRebase, ← hb]⟩

/-- A STATE frame that is not turned down. -/
theorem uncounted_rsOnState (hf : Framed f) (hbuf : InFrmbuf f s) (ht : f.getD 1 0 = ftState)
    (hb : heard (holding s) f = some b) : Uncounted s (rsOnState s) ∧ holding (rsOnState s) = b := by
  rw [heard, if_neg (not_not.2 ht)] at hb
  have h3 : 3 ≤ f.getD 0 0 := by
    by_contra h
    rw [if_pos (by omega)] at hb
    cases hb
  have hlen := hf.length
  have h0 : s.rd frmbuf = f.getD 0 0 := hbuf.rd_zero (by omega)
  rw [← h0, ← hbuf.rd (i := 2) (by omega), ← hbuf.rd (i := 3) (by omega), if_neg (by omega)] at hb
  rw [rsOnState, if_neg (by omega)]
  by_cases hctl : s.rd (frmbuf + 3) = 0xFF
  · rw [if_pos hctl] at hb ⊢
    refine uncounted_rsOnControl (fun h2 => ?_) ?_
    · by_contra h
      rw [if_pos h2, if_pos (by omega)] at hb
      cases hb
    · split_ifs at hb ⊢ <;> exact Option.some.inj hb
  · rw [if_neg hctl] at hb ⊢
    split_ifs at hb with hbad
    · simp only [not_or, holding, decide_eq_false_iff_not, not_not] at hbad
      obtain ⟨h1, h2, h4, h5⟩ := hbad
      have hword : s.rd16 (frmbuf + 2) (frmbuf + 3) = word (s.rd (frmbuf + 2)) (s.rd (frmbuf + 3)) := rfl
      unfold rsOnChunk
      dsimp only
      rw [if_neg h1, if_neg h2, if_neg h4, hword, if_neg h5]
      have hw := within_rsApply s (Nat.lt_succ_iff.1 (Nat.not_le.1 h5))
      refine ⟨.of_within hw (by decide), ?_⟩
      rw [holding_congr (hw.rd _ (by decide)), holding, ← Option.some.inj hb]
      exact decide_eq_true h1

/-- **What a frame counts**: nothing, when `RS_ON_STATE` takes it. -/
theorem uncounted_sesOnframe (hs : Seated s) (hf : Framed f) (hbuf : InFrmbuf f s) (hfw : Forwarded f)
    (hb : heard (holding s) f = some b) : Uncounted s (sesOnframe s) ∧ holding (sesOnframe s) = b := by
  have h1 : s.rd (frmbuf + 1) = f.getD 1 0 := hbuf.rd hf.two_le
  have hkept : ∀ {v : Cpu}, f.getD 1 0 ≠ ftState → Within Still s v → Uncounted s v ∧ holding v = b := by
    intro v hne hv
    rw [heard, if_pos hne] at hb
    obtain ⟨hu, hh⟩ := still_kept hv
    exact ⟨hu, hh.trans (Option.some.inj hb)⟩
  rcases hfw with ht | ht | ht | ht
  · rw [sesOnframe_input (h1.trans ht)]
    exact hkept (by rw [ht]; decide) (still_of_within (within_onInput s hs.count) (by decide))
  · rw [sesOnframe_crc (h1.trans ht)]
    exact hkept (by rw [ht]; decide) (still_rsOnCrc s)
  · rw [sesOnframe_state (h1.trans ht)]
    exact uncounted_rsOnState hf hbuf ht hb
  · rw [sesOnframe_resync (h1.trans ht)]
    exact hkept (by rw [ht]; decide) (still_rsOnReq s)

end counts

/-! ### A step -/

section step

variable {s t : Cpu} {W : World} {n n' : Node} {fs : List (List ℕ)} {unread : List ℕ} {b : Bool}

theorem uncounted_pushSent (s : Cpu) : Uncounted s (pushSent s) := by
  have hhold : ∀ u, Uncounted u (rsEnterHold u) := fun u => by
    have h : Local BeginCell u (rsEnterHold u) :=
      ((((Local.refl u).st (by decide)).st (by decide)).st (by decide)).trans
        ((local_rsClrCrc _).mono fun _ h => Or.inr (Or.inl h))
    exact .of_within h.within (by decide)
  have hbegin : Uncounted s (pushBegin s) := by
    have hprep : Uncounted s (pushPrepare s) := by
      have h : ∀ u v w, Uncounted u (((rsEnterHold u).st rsRLo v).st rsRHi w) := fun u v w =>
        (hhold u).trans (still_kept (((Within.refl _).st (by decide)).st (by decide))).1
      exact h (s.emit (.push s.tick)) _ _
    rw [pushBegin_eq]
    generalize pushPrepare s = u at hprep
    exact hprep.trans (still_kept (((still_sendFrame (.refl u)).st (by decide)).st (by decide))).1
  have hchunk : ∀ u, Uncounted u (pushChunk u) := fun u => by
    simp only [pushChunk]
    exact (still_kept (still_sendFrame
      (((((Within.refl u).st (by decide)).st (by decide)).st (by decide)).st (by decide)))).1
  have hchunks : ∀ k u, Uncounted u (pushChunks k u) := by
    intro k
    induction k with
    | zero => exact fun u => .refl u
    | succ k ih =>
      intro u
      rw [pushChunks]
      split_ifs
      · exact .refl u
      · exact (hchunk u).trans (ih _)
  exact (hbegin.trans (hchunks 10 _)).trans (still_kept (still_sendFrame (.refl _))).1

theorem still_runBody (C : Cart) (s : Cpu) : Within Still s (runBody C s) := by
  have htick : Within Still s (lsTick C s) := still_of_within (within_lsTick s C) (by decide)
  have hreport : ∀ u, Within Still u (lsReport u) := fun u => by
    refine .ite (fun _ => .refl u) fun _ => still_sendFrame (Within.emit ?_)
    have hprep : Within Still u
        (((rsDisplayReset u).st lsTmpb (lsCksum (rsDisplayReset u))).st lsTmpb2
          (lsCksum (rsDisplayReset u) / 256)) :=
      ((still_of_within (local_rsDisplayReset u).within (by decide)).st (by decide)).st (by decide)
    exact hprep.trans (still_of_within (local_rsRecordCrc _).within (by decide))
  exact ((htick.trans (hreport _)).trans (still_of_within (within_tickUp _) (by decide))).trans
    (still_of_within (local_nameRow _).within (by decide))

/-- A console's own code; only a push holds, and it lets go before it is over. -/
theorem uncounted_advance {C : Cart} (hs : n.cpu.rd netSeat < 4) (ha : advance C n = some n') :
    Uncounted n.cpu n'.cpu ∧ holding n'.cpu = holding n.cpu := by
  obtain ⟨ph, t⟩ := n
  cases ph <;> simp only [advance, Option.some.injEq, reduceCtorEq] at ha <;> subst ha
  · exact still_kept (still_of_within (within_lsEntry t) (by decide))
  · have hcap := still_of_within (within_lsCapture (s := t) hs) (by decide)
    have hsend : Within Still t (lsSend t) := by
      simp only [lsSend]
      generalize lsCapture t = u at hcap ⊢
      generalize inputFrame (dueTick t) u = f
      exact still_sendFrame hcap
    dsimp only
    generalize lsSend t = u at hsend ⊢
    exact still_kept hsend
  · unfold lsGate
    split_ifs
    · have hbody := still_runBody C t
      have hrun : Uncounted t (lsRun C t) ∧ holding (lsRun C t) = holding t := by
        rw [lsRun_eq]
        rcases rsPending_cases (runBody C t) with hl | ⟨-, -, hh, u, hl, heq⟩
        · exact still_kept (hbody.trans (still_of_within hl.within (by decide)))
        · have hu := still_of_within hl.within (by decide)
          rw [heq, rsPush_eq]
          have hsent := (still_kept (hbody.trans hu)).1.trans (uncounted_pushSent u)
          refine ⟨hsent.trans (uncounted_rsRebase _), ?_⟩
          rw [holding_rsRebase, ← (still_kept hbody).2, holding, hh]
          rfl
      exact hrun
    · exact still_kept (still_of_within (local_lsFreeze t).within (by decide))

/-- What follows a pump, unless the console gives up. -/
theorem uncounted_afterPump {raw : ℕ} {ph : Phase} (h : Engaged s) (ha : afterPump raw ph s = some n)
    (hdrop : n.cpu.rd netDropped = 0) : Uncounted s n.cpu ∧ holding n.cpu = holding s := by
  have htail : ∀ {t : Cpu}, CountOrDrop s t → t.rd netDropped = 0 →
      Uncounted s t ∧ holding t = holding s := by
    intro t ht h0
    rcases ht with ht | ⟨-, h1⟩
    · exact still_kept (still_of_within ht.within (by decide))
    · omega
  cases ph <;> simp only [afterPump, Option.some.injEq, reduceCtorEq] at ha <;> subst ha
  · rw [lobbyRound, if_neg h.active]
    have hhead : Local Still s (uiPrint 0 "SOCCER NETPLAY" (uiCls s)) :=
      Local.uiPrint (still_of (by decide)) (Local.uiCls (still_of (by decide)) (.refl s)) (by decide)
    have hros : Local Still s (sesRoster (uiPrint 0 "SOCCER NETPLAY" (uiCls s))) :=
      hhead.trans ((local_sesRoster_any _).mono (still_of (by decide)))
    have hteam := Local.uiPrint (still_of (P := ScreenCell) (by decide)) (o := 180) (w := "YOU ARE TEAM")
      (hros.st (a := uiColor) (v := cWhite) (by decide)) (by decide)
    exact still_kept ((Local.uiPrint (still_of (by decide)) (hteam.st (by decide)) (by decide)).st
      (by decide)).within
  · have hround : Local Still s (s.st sesTmrLo ((s.rd sesTmrLo + 65535) % 65536)) :=
      (Local.refl s).st (by decide)
    simp only [matchedRound]
    split_ifs
    · exact still_kept ((hround.st (by decide)).st (by decide)).within
    · exact still_kept hround.within
  · have hhold := htail (countOrDrop_holdTail s) hdrop
    exact hhold
  · exact ⟨.refl s, rfl⟩
  · exact htail (countOrDrop_stallTail s) hdrop

/-- A console in the middle of a pump, with frames to come that it will take. -/
def Clear (s t : Cpu) (fs : List (List ℕ)) (b : Bool) : Prop :=
  Taking s t fs ∧ Uncounted s t ∧ hears (holding t) fs = some b

theorem clear_frame {f : List ℕ} (h : Clear s t (f :: fs) b) (hf : Framed f)
    (hbuf : InFrmbuf f (ppExtract f.length t)) :
    KeepsRx (ppExtract f.length t) ∧ Clear s (sesOnframe (ppExtract f.length t)) fs b := by
  obtain ⟨htake, hcount, hhear⟩ := h
  obtain ⟨hk, htake'⟩ := taking_frame htake hf hbuf
  have hlen := hf.length_le
  have hseat : Seated (ppExtract f.length t) := htake.1.seated.of_within
    (local_ppExtract (by omega) t).within (by decide) (by decide) (by decide)
  have hext : Local Still t (ppExtract f.length t) := by
    refine ((Local.refl t).stAll fun x h1 _ hm => ?_).st (by decide)
    simp only [frmbuf] at h1
    simp only [List.mem_cons, List.not_mem_nil, or_false, diagSlip, diagRej, resyncHold] at hm
    omega
  obtain ⟨hu, hh⟩ := still_kept hext.within
  rw [hears_cons, Option.bind_eq_some_iff] at hhear
  obtain ⟨c, hc, hrest⟩ := hhear
  obtain ⟨hu', hh'⟩ := uncounted_sesOnframe hseat hf hbuf (htake.2.2 f List.mem_cons_self)
    (by rw [hh]; exact hc)
  exact ⟨hk, htake', (hcount.trans hu).trans hu', by rw [hh']; exact hrest⟩

theorem clear_sesPump {p : Poll} (h : Engaged s) (hfw : ∀ f ∈ fs, Forwarded f)
    (hal : Aligned (delivered p s ++ unread) fs s) (hread : (delivered p s).length ≤ 64)
    (hb : hears (holding s) fs = some b) :
    ∃ gs, Clear s (sesPump p s) gs b ∧ Aligned unread gs (sesPump p s) := by
  have hfetch := local_sesFetch p s
  obtain ⟨hu, hh⟩ := still_kept (still_sesFetch p s).within
  have hstart : Clear s (sesFetch p s) fs b :=
    ⟨⟨h.of_within hfetch.within (by decide) (by decide) (by decide) (by decide), .of_tx hfetch.tx, hfw⟩, hu,
      by rw [hh]; exact hb⟩
  obtain ⟨-, gs, hp, hal'⟩ := sesPump_frames (P := fun _ t fs => Clear s t fs b) hal hread hstart
    fun _ _ _ _ ht hf hin _ => clear_frame ht hf hin
  exact ⟨gs, hp, hal'⟩

/-- **What a step counts**: nothing, unless the console gives up. -/
theorem uncounted_step {p : Option Poll} (hs : Step W p n n') (h : Engaged n.cpu)
    (hfw : ∀ f ∈ fs, Forwarded f) (hal : Aligned (reads p n.cpu ++ unread) fs n.cpu)
    (hread : (reads p n.cpu).length ≤ 64)
    (hb : hears (holding n.cpu) fs = some b) (hdrop : n'.cpu.rd netDropped = 0) :
    Uncounted n.cpu n'.cpu ∧ ∃ gs, (∀ f ∈ gs, Forwarded f) ∧ Aligned unread gs n'.cpu ∧
      hears (holding n'.cpu) gs = some b := by
  have hout : ∀ {t : Cpu} {m : Mem}, Aligned unread fs t → hears (holding t) fs = some b →
      (∀ a, 0x8000 ≤ a → m.get a = t.mem.get a) → Uncounted t (t.call fun _ => m) ∧
        ∃ gs, (∀ f ∈ gs, Forwarded f) ∧ Aligned unread gs (t.call fun _ => m) ∧
          hears (holding (t.call fun _ => m)) gs = some b := by
    intro t m hal hb hm
    have hl := local_outside (s := t) hm
    obtain ⟨hu, hh⟩ := still_kept (still_of_within hl.within (by decide))
    refine ⟨hu, fs, hfw, hal.of_rx (rxBytes_local hl.within fun a ha => ?_), by rw [hh]; exact hb⟩
    simp only [RxCell, rxWr, rxRd, rxacc] at ha
    omega
  cases hs with
  | isr hm => exact hout hal hb (W.isr_get hm)
  | native hm => exact hout hal hb (W.native_get hm)
  | boot hm => exact hout hal hb (W.boot_get hm)
  | own ha =>
    obtain ⟨hu, hh⟩ := uncounted_advance h.seated.seat ha
    have hw := within_advance ha h.seated.seat
    exact ⟨hu, fs, hfw, hal.of_rx (rxBytes_local hw fun a hx hp => not_rxCell_outer hx (.inl hp)),
      by rw [hh]; exact hb⟩
  | pump ha =>
    obtain ⟨gs, ⟨⟨heng, -, hgs⟩, hu, hb'⟩, hal'⟩ := clear_sesPump h hfw hal hread hb
    obtain ⟨hu', hh⟩ := uncounted_afterPump heng ha hdrop
    have hw := within_afterPump ha heng.seated.lobby heng.seated.count
    exact ⟨hu.trans hu', gs, hgs, hal'.of_rx (rxBytes_local hw fun _ => not_rxCell_outer),
      by rw [hh]; exact hb'⟩

end step

/-! ### Two consoles -/

/-- Neither console has given up. -/
def Duo.Whole (D : Duo) : Prop := ∀ i, (D.node i).cpu.rd netDropped = 0

/-- Both consoles are in the match, and each will take every frame that is on its way to it. -/
def Duo.Clear (D : Duo) : Prop :=
  ∀ i, Engaged (D.node i).cpu ∧ ∃ fs b, (∀ f ∈ fs, Forwarded f) ∧ Aligned (D.wire i) fs (D.node i).cpu ∧
    hears (holding (D.node i).cpu) fs = some b

section duo

variable {W : Fin 2 → World} {D D' : Duo} {d : ℕ}

theorem clear_step (h : D.Clear) (hs : DuoStep W D D') (hw : D'.Whole) :
    D'.Clear ∧ ∀ i, Uncounted (D.node i).cpu (D'.node i).cpu := by
  cases hs with
  | @step i p n rest sent hs hread hwire htx =>
    obtain ⟨heng, fs, b, hfw, hal, hb⟩ := h i
    rw [hwire] at hal
    have hdrop : n.cpu.rd netDropped = 0 := by
      have := hw i
      simp only [Function.update_self] at this
      exact this
    obtain ⟨hu, gs, hgs, hal', hb'⟩ := uncounted_step hs heng hfw hal hread hb hdrop
    obtain ⟨heng', ⟨ms, hms, hwel, hsent⟩, -⟩ := sent_step hs heng hfw hal hread
    obtain rfl : sent = ms.flatten := List.append_cancel_left (htx.symm.trans hsent)
    refine ⟨fun j => ?_, fun j => ?_⟩
    · by_cases hj : j = i
      · subst hj
        simp only [Function.update_self, Function.update_of_ne (other_ne j).symm]
        exact ⟨heng', gs, b, hgs, hal', hb'⟩
      · obtain rfl := eq_other hj
        simp only [Function.update_self, Function.update_of_ne (other_ne i)]
        obtain ⟨hother, os, c, hos, hal₂, hc⟩ := h (1 - i)
        -- what is sent joins what is on its way
        obtain ⟨c', hc'⟩ := hwel.after hc
        refine ⟨hother, os ++ ms, c', fun f hf => ?_, ?_, hc'⟩
        · exact (List.mem_append.1 hf).elim (hos f) fun hf => (hms f hf).2
        exact hal₂.extend fun f hf => (hms f hf).1
    · by_cases hj : j = i
      · subst hj
        simp only [Function.update_self]
        exact hu
      · simp only [Function.update_of_ne hj]
        exact .refl _

theorem clear_opening (h : D.Opening d) : D.Clear := by
  intro i
  obtain ⟨heng, hal⟩ := engaged_opening h i
  exact ⟨heng, [], _, fun _ hf => absurd hf List.not_mem_nil, hal, rfl⟩

/-- Two consoles count nothing. -/
theorem uncounted_duo (h : D.Opening d)
    (hr : Relation.ReflTransGen (fun D D' => DuoStep W D D' ∧ D'.Whole) D D') (i : Fin 2) :
    Uncounted (D.node i).cpu (D'.node i).cpu := by
  have hall : D'.Clear ∧ ∀ i, Uncounted (D.node i).cpu (D'.node i).cpu := by
    induction hr with
    | refl => exact ⟨clear_opening h, fun _ => .refl _⟩
    | tail _ hs ih =>
      obtain ⟨hclear, hu⟩ := ih
      obtain ⟨hclear', hu'⟩ := clear_step hclear hs.1 hs.2
      exact ⟨hclear', fun i => (hu i).trans (hu' i)⟩
  exact hall.2 i

end duo

/-! ### Through the relay -/

/-- **Nothing is turned down.**  In a match of two that the relay carries, with resyncs and without: as
long as the relay serves both and neither console gives up, neither drops a byte nor turns a STATE frame
down, in whatever order the consoles and the relay take their steps. -/
theorem nothing_turned_down {S : Relay.Setup} (hS : Relay.Program S) {c : Fin 2 → ℕ} {W : Fin 2 → World}
    {d : ℕ} {T T' : Trio} (h : T.Opening S c d) (hr : TrioRun S c W Duo.Whole T T') (i : Fin 2) :
    (T'.node i).cpu.rd diagSlip = (T.node i).cpu.rd diagSlip ∧
      (T'.node i).cpu.rd diagRej = (T.node i).cpu.rd diagRej := by
  have hrun := (relay_refines hS h hr).1
  have hu : Uncounted (T.node i).cpu (T'.node i).cpu := uncounted_duo h.duo hrun i
  exact ⟨hu _ (by decide), hu _ (by decide)⟩

/-- An INPUT comes through the relay in pieces, and the console takes it. -/
theorem nothing_turned_down_start : ∃ T' : Trio,
    TrioRun metRelay (fun i => i) (fun _ => padWorld) Duo.Whole trioStart T' ∧
      T'.relay = Relay.run metRelay (met ++ carried) ∧ T'.read 1 = trioStart.read 1 + 7 ∧ (T'.node 1).Due ∧
      (T'.node 1).cpu.mark.ran = 1 ∧ (T'.node 1).cpu.rd diagSlip = (trioStart.node 1).cpu.rd diagSlip ∧
      (T'.node 1).cpu.rd diagRej = (trioStart.node 1).cpu.rd diagRej := by
  obtain ⟨T', hrun, hrelay, hread, hdue, hran⟩ := trioStart_carried
  have hwhole : TrioRun metRelay (fun i => i) (fun _ => padWorld) Duo.Whole trioStart T' :=
    Relation.ReflTransGen.mono (fun _ _ hs => ⟨hs.1, hs.2.1, fun i => (hs.2.2 i).1⟩) _ _ hrun
  exact ⟨T', hwhole, hrelay, hread, hdue, hran,
    nothing_turned_down program_metRelay opening_trioStart hwhole 1⟩

end IntvNetplay.Console
