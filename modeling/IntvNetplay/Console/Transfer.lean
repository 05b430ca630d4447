import IntvNetplay.Console.Clamp
import IntvNetplay.Console.Detect
import IntvNetplay.Console.Gate
import IntvNetplay.Console.Cuts

/-!
# A push at its other end

A guest whose gate is shut takes the frames of a push in whatever reads the bytes arrive.  From BEGIN to
END it stays in the hold and runs nothing, each chunk puts its bytes where the host had them, and at END
it rebases to what the host rebased to.
-/

namespace IntvNetplay.Console

open IntvNetplay.Machine

/-! ### The frames of a push -/

section frames

variable {h s t : Cpu} {k : ℕ} {P : ℕ → Prop}

/-- The frames of a push from the `k`-th on: BEGIN, nine chunks, END. -/
def pushFrom (h : Cpu) (k : ℕ) : List (List ℕ) := (pushFrames h).drop k

@[simp] theorem length_pushFrames (h : Cpu) : (pushFrames h).length = 11 := by simp [pushFrames]

theorem pushFrom_lt (hk : k < 11) : ∃ f, pushFrom h k = f :: pushFrom h (k + 1) ∧
    (k = 0 ∧ f = stateFrame posBegin [resumeTick h % 256, resumeTick h / 256] ∨
      (0 < k ∧ k ≤ 9) ∧ f = chunkFrame h (k - 1) ∨ k = 10 ∧ f = stateFrame posEnd []) := by
  have hlen : k < (pushFrames h).length := by rw [length_pushFrames]; exact hk
  refine ⟨(pushFrames h)[k], (List.drop_eq_getElem_cons hlen), ?_⟩
  by_cases h0 : k = 0
  · subst h0
    exact .inl ⟨rfl, rfl⟩
  by_cases h9 : k ≤ 9
  · refine .inr (.inl ⟨⟨by omega, h9⟩, ?_⟩)
    obtain ⟨j, rfl⟩ : ∃ j, k = j + 1 := ⟨k - 1, by omega⟩
    simp only [pushFrames, List.cons_append, List.getElem_cons_succ]
    rw [List.getElem_append_left (by simp; omega)]
    simp
  · obtain rfl : k = 10 := by omega
    exact .inr (.inr ⟨rfl, rfl⟩)

theorem chunkPos_succ (hk : k ≤ 8) : chunkPos k < chunkPos (k + 1) ∧ chunkPos (k + 1) ≤ imgTotal ∧
    chunkPos (k + 1) ≤ chunkPos k + 96 := by
  simp only [chunkPos, imgTotal, rsChunk]
  omega

/-- What a console has after the first `k` frames of a push. -/
structure Taken (h : Cpu) (k : ℕ) (s : Cpu) : Prop where
  hold : 0 < k → s.rd resyncHold ≠ 0
  resume : 0 < k → s.rd16 rsRLo rsRHi = resumeTick h
  image : ∀ q < chunkPos (k - 1), imgGet s q = imgGet h q

/-- What `Taken` reads. -/
def TransferCell (a : ℕ) : Prop := ImgCell a ∨ a = resyncHold ∨ a = rsRLo ∨ a = rsRHi

instance : DecidablePred TransferCell := fun a => by unfold TransferCell; infer_instance

theorem taken_zero (h s : Cpu) : Taken h 0 s :=
  ⟨fun h0 => absurd h0 (Nat.lt_irrefl 0), fun h0 => absurd h0 (Nat.lt_irrefl 0), fun q hq => by
    simp [chunkPos] at hq⟩

theorem Taken.of_rd (ht : Taken h k s) (hr : ∀ a, TransferCell a → t.rd a = s.rd a) : Taken h k t where
  hold h0 := by rw [hr _ (.inr (.inl rfl))]; exact ht.hold h0
  resume h0 := by
    rw [Cpu.rd16, hr _ (.inr (.inr (.inl rfl))), hr _ (.inr (.inr (.inr rfl)))]
    exact ht.resume h0
  image q hq := by
    have hlt : q < imgTotal := by
      simp only [chunkPos] at hq
      omega
    rw [imgGet_congr (fun a ha => hr a (.inl ha)) hlt]
    exact ht.image q hq

theorem Taken.of_within (ht : Taken h k s) (hw : Within P s t) (hP : ∀ a, TransferCell a → ¬ P a) :
    Taken h k t := ht.of_rd fun a ha => hw.rd a (hP a ha)

/-- Cells that are not among what `Taken` reads. -/
theorem not_transferCell (hlow : ∀ a, 0x015D ≤ a → a < 0x035D → ¬ P a)
    (htail : ∀ a ∈ rsTailtbl ++ [resyncHold, rsRLo, rsRHi], ¬ P a) {a : ℕ} (ha : TransferCell a) : ¬ P a := by
  have hfin : a ∈ rsTailtbl ++ [resyncHold, rsRLo, rsRHi] → ¬ P a := htail a
  simp only [List.mem_append, List.mem_cons, List.not_mem_nil, or_false] at hfin
  simp only [TransferCell, ImgCell, gameScratch, backtab, objectTable] at ha
  rcases ha with (ha | ha | ha | ha) | ha
  · exact hlow a (by omega) (by omega)
  · exact hlow a (by omega) (by omega)
  · exact hlow a (by omega) (by omega)
  · exact hfin (.inl ha)
  · exact hfin (.inr ha)

end frames

/-! ### One frame -/

/-- An entry of a game tick or of a rebase. -/
def Ev.Runs : Ev → Prop
  | .gameTick _ | .rebase _ _ _ _ => True
  | _ => False

/-- The entries since `s` are of no game tick and of no rebase. -/
def Idles (s t : Cpu) : Prop := ∃ l, t.log = l ++ s.log ∧ ∀ e ∈ l, ¬ e.ev.Runs

/-- Two rebases to the same tick, image and checksum. -/
def Ev.SameBase : Ev → Ev → Prop
  | .rebase t im c _, .rebase t' im' c' _ => t = t' ∧ im = im' ∧ c = c'
  | _, _ => False

/-- The first game tick or rebase since `s` is a rebase to what the host rebases to after its push. -/
def Joins (h s t : Cpu) : Prop := ∃ l e l', t.log = l' ++ e :: (l ++ s.log) ∧
  (∀ x ∈ l, ¬ x.ev.Runs) ∧ ∃ b, (rsPush h).log.head? = some b ∧ e.ev.SameBase b.ev

section entries

variable {h s t u : Cpu}

theorem Idles.refl (s : Cpu) : Idles s s := ⟨[], rfl, by simp⟩

theorem Idles.of_log (hi : Idles s t) (hl : u.log = t.log) : Idles s u := by
  obtain ⟨l, hlog, hl'⟩ := hi
  exact ⟨l, hl.trans hlog, hl'⟩

theorem Idles.cons (hi : Idles s t) {e : Stamped} (hl : u.log = e :: t.log) (he : ¬ e.ev.Runs) :
    Idles s u := by
  obtain ⟨l, hlog, hl'⟩ := hi
  exact ⟨e :: l, by rw [hl, hlog, List.cons_append], List.forall_mem_cons.2 ⟨he, hl'⟩⟩

theorem Joins.grow (hj : Joins h s t) (hg : t.log <:+ u.log) : Joins h s u := by
  obtain ⟨l, e, l', hlog, hl, hev⟩ := hj
  obtain ⟨l'', hu⟩ := hg
  exact ⟨l, e, l'' ++ l', by rw [← hu, hlog, List.append_assoc], hl, hev⟩

end entries

section frame

variable {h s v : Cpu} {k : ℕ}

theorem image_pushSent (h : Cpu) : image (pushSent h) = image h :=
  image_eq_iff.2 fun _ hp =>
    imgGet_congr (fun _ ha => (within_pushSent h).rd _ (imgCell_not_push ha)) hp

theorem taken_begin (hbuf : InFrmbuf (stateFrame posBegin [resumeTick h % 256, resumeTick h / 256]) v) :
    Taken h 1 (sesOnframe v) where
  hold _ := by rw [hold_begin hbuf]; decide
  resume _ := by
    have hlt : resumeTick h < 65536 := Nat.mod_lt _ (by decide)
    rw [resume_begin hbuf (Nat.mod_lt _ (by decide)) (by omega)]
    exact word_mod_div _
  image q hq := by simp [chunkPos] at hq

theorem taken_chunk (hk : k ≤ 8) (hbuf : InFrmbuf (chunkFrame h k) v) (ht : Taken h (k + 1) v) :
    Taken h (k + 2) (sesOnframe v) ∧ Within ApplyCell v (sesOnframe v) ∧
      ∃ pos n, (sesOnframe v).log = v.mark.stamp (.chunk pos n) :: v.log := by
  obtain ⟨h1, h2, h3⟩ := chunkPos_succ hk
  have hlen : (imgRange h (chunkPos k) (chunkPos (k + 1) - chunkPos k)).length =
      chunkPos (k + 1) - chunkPos k := length_imgRange _ _ _
  have hhold := ht.hold (Nat.succ_pos k)
  have hp : chunkPos k + (imgRange h (chunkPos k) (chunkPos (k + 1) - chunkPos k)).length ≤ imgTotal := by
    omega
  have hw := within_chunk hbuf hp (by omega) hhold
  have hcell : ∀ a, a = resyncHold ∨ a = rsRLo ∨ a = rsRHi → (sesOnframe v).rd a = v.rd a := by
    intro a ha
    refine hw.rd a ?_
    rcases ha with rfl | rfl | rfl <;> decide
  refine ⟨⟨fun _ => ?_, fun _ => ?_, fun q hq => ?_⟩, hw, chunkPos k,
    (imgRange h (chunkPos k) (chunkPos (k + 1) - chunkPos k)).length, ?_⟩
  · rw [hcell _ (.inl rfl)]
    exact hhold
  · rw [Cpu.rd16, hcell _ (.inr (.inl rfl)), hcell _ (.inr (.inr rfl))]
    exact ht.resume (Nat.succ_pos k)
  · have hq' : q < chunkPos (k + 1) := hq
    rw [imgGet_chunk hbuf hp (by omega) hhold (by omega) (by omega)]
    split_ifs with hin
    · rw [List.getD_eq_getElem _ _ (by omega), getElem_imgRange]
      congr 1
      omega
    · exact ht.image q (by simp only [Nat.add_sub_cancel]; omega)
  · rw [onframe_chunk hbuf hp (by omega) hhold, log_rsApply v hp]

theorem joins_end (hbuf : InFrmbuf (stateFrame posEnd []) v) (ht : Taken h 10 v) (hi : Idles s v) :
    Joins h s (sesOnframe v) := by
  have hnine : chunkPos (10 - 1) = imgTotal := by decide
  have himg : image v = image h := image_eq_iff.2 fun q hq => ht.image q (by rw [hnine]; exact hq)
  have hck : lsCksum (rsRebase v) = lsCksum (rsRebase (pushSent h)) := by
    refine lsCksum_congr ?_
    rw [image_rsRebase, image_rsRebase, image_pushSent, himg]
  obtain ⟨l, hlog, hl⟩ := hi
  have hr := log_rsRebase v
  have hh := log_rsRebase (pushSent h)
  rw [ht.resume (by decide), himg, hck, hlog] at hr
  rw [resume_pushSent, image_pushSent] at hh
  rw [onframe_end hbuf (ht.hold (by decide))]
  have hhead := congrArg List.head? hh
  rw [← rsPush_eq, List.head?_cons] at hhead
  exact ⟨l, _, [], hr, hl, _, hhead, rfl, rfl, rfl⟩

end frame

/-! ### A pump -/

/-- A frame of a type that the relay forwards. -/
def Forwarded (f : List ℕ) : Prop :=
  f.getD 1 0 = ftInput ∨ f.getD 1 0 = ftCrc ∨ f.getD 1 0 = ftState ∨ f.getD 1 0 = ftResync

/-- A console in the middle of a pump, with the frames to come; `k₀` frames of the push were taken
before. -/
def Feeding (h s : Cpu) (k₀ : ℕ) (shut : Prop) (rest : List (List ℕ)) (t : Cpu)
    (fs : List (List ℕ)) : Prop :=
  Seated t ∧ ((∃ k, k₀ ≤ k ∧ k ≤ 10 ∧ Taken h k t ∧ Idles s t ∧ fs = pushFrom h k ++ rest ∧
    (shut → Closed t)) ∨ Joins h s t ∧ fs <:+ rest)

section pump

variable {h s t v : Cpu} {k₀ : ℕ} {shut : Prop} {rest fs : List (List ℕ)} {f : List ℕ}

theorem sesOnframe_resync (hf : v.rd (frmbuf + 1) = ftResync) : sesOnframe v = rsOnReq v := by
  simp only [sesOnframe, hf]
  rfl

theorem keepsRx_forwarded (hs : Seated v) (h1 : v.rd (frmbuf + 1) = f.getD 1 0) (hf : Forwarded f) :
    KeepsRx v ∧ Seated (sesOnframe v) := by
  have hwant : ∀ a, RxCell a → ¬ WantCell a := fun a ha hw => by
    simp only [RxCell, rxWr, rxRd, rxacc] at ha
    simp only [WantCell, MailCell, rsPend, rsPtmo] at hw
    omega
  rcases hf with hf | hf | hf | hf <;> rw [← h1] at hf
  · refine ⟨keepsRx_input hf hs.count, ?_⟩
    rw [sesOnframe_input hf]
    exact hs.of_within (within_onInput v hs.count) (by decide) (by decide) (by decide)
  · have hw := within_rsOnCrc v
    rw [← sesOnframe_crc hf] at hw
    exact ⟨fun a ha => hw.rd a (hwant a ha), hs.of_within hw (by decide) (by decide) (by decide)⟩
  · refine ⟨keepsRx_state hf, ?_⟩
    rw [sesOnframe_state hf]
    exact hs.of_within (within_rsOnState v) (by decide) (by decide) (by decide)
  · have hw := within_rsOnReq v
    rw [← sesOnframe_resync hf] at hw
    exact ⟨fun a ha => hw.rd a (hwant a ha), hs.of_within hw (by decide) (by decide) (by decide)⟩

theorem not_transferCell_pump {a : ℕ} (ha : TransferCell a) : ¬ PumpCell a :=
  not_transferCell (fun b h1 h2 hb => by
    simp only [PumpCell, MailCell, RxCell, rxWr, rxRd, rxacc, frmbuf] at hb
    omega) (by decide) ha

theorem Closed.pump (hc : Closed t) (hs : Seated t) (hl : Local PumpCell t v) : Closed v :=
  hc.of_rd hs.count fun a ha => hl.rd a fun hp => by
    simp only [GateCell, WmCell, seatWm, netDropped, netCount, netSeat, tickLo, tickHi] at ha
    simp only [PumpCell, MailCell, RxCell, rxWr, rxRd, rxacc, frmbuf] at hp
    omega

theorem Closed.began (hc : Closed t) (hs : Seated t) (hl : Local BeginCell t v) : Closed v :=
  hc.of_rd hs.count fun a ha => hl.rd a fun hp => by
    simp only [GateCell, WmCell, seatWm, netDropped, netCount, netSeat, tickLo, tickHi] at ha
    simp only [BeginCell, HoldCell, CrcCell, ownCrc, resyncHold, rsToLo, rsToHi, rsRLo, rsRHi] at hp
    omega

theorem Closed.applied (hc : Closed t) (hs : Seated t) (hw : Within ApplyCell t v) : Closed v := by
  have htail : ∀ b ∈ rsTailtbl, ¬ GateCell b := by decide
  refine hc.of_rd hs.count fun a ha => hw.rd a ?_
  rintro ((hp | hp | hp | hp) | hp)
  · simp only [GateCell, WmCell, seatWm, netDropped, netCount, netSeat, tickLo, tickHi] at ha
    simp only [gameScratch] at hp
    omega
  · simp only [GateCell, WmCell, seatWm, netDropped, netCount, netSeat, tickLo, tickHi] at ha
    simp only [backtab] at hp
    omega
  · simp only [GateCell, WmCell, seatWm, netDropped, netCount, netSeat, tickLo, tickHi] at ha
    simp only [objectTable] at hp
    omega
  · exact htail a hp ha
  · simp only [GateCell, WmCell, seatWm, netDropped, netCount, netSeat, tickLo, tickHi] at ha
    simp only [rsTmp, rsTmp2, rsPosLo, rsPosHi] at hp
    omega

/-- One frame of the stream. -/
theorem feeding_frame (hrest : ∀ g ∈ rest, Forwarded g)
    (hP : Feeding h s k₀ shut rest t (f :: fs)) (hf : Framed f)
    (hbuf : InFrmbuf f (ppExtract f.length t)) :
    KeepsRx (ppExtract f.length t) ∧ Feeding h s k₀ shut rest (sesOnframe (ppExtract f.length t)) fs := by
  have hlen := hf.length_le
  have hl : Local PumpCell t (ppExtract f.length t) := local_ppExtract (by omega) t
  generalize ppExtract f.length t = v at *
  obtain ⟨hs, hcase⟩ := hP
  have hsv : Seated v := hs.of_within hl.within (by decide) (by decide) (by decide)
  have h1 : v.rd (frmbuf + 1) = f.getD 1 0 := hbuf.rd hf.two_le
  rcases hcase with ⟨k, hk₀, hk, ht, hi, hfs, hc⟩ | ⟨hj, hfw⟩
  · have htv : Taken h k v := ht.of_within hl.within fun _ => not_transferCell_pump
    have hiv : Idles s v := hi.of_log hl.log
    have hcv : shut → Closed v := fun hsh => (hc hsh).pump hs hl
    obtain ⟨g, hg, hkind⟩ := pushFrom_lt (h := h) (k := k) (by omega)
    rw [hg, List.cons_append, List.cons.injEq] at hfs
    obtain ⟨rfl, rfl⟩ := hfs
    have hstate : f.getD 1 0 = ftState := by
      rcases hkind with ⟨-, rfl⟩ | ⟨-, rfl⟩ | ⟨-, rfl⟩ <;> rfl
    refine ⟨keepsRx_state (h1.trans hstate), ?_⟩
    rcases hkind with ⟨rfl, rfl⟩ | ⟨⟨hpos, h9⟩, rfl⟩ | ⟨rfl, rfl⟩
    · have hb := local_begin hbuf
      exact ⟨hsv.of_within hb.within (by decide) (by decide) (by decide), .inl ⟨1, by omega, by decide,
        taken_begin hbuf, hiv.of_log hb.log, rfl, fun hsh => (hcv hsh).began hsv hb⟩⟩
    · obtain ⟨j, rfl⟩ : ∃ j, k = j + 1 := ⟨k - 1, by omega⟩
      obtain ⟨ht', hw, pos, n, hlog⟩ := taken_chunk (by omega) hbuf htv
      exact ⟨hsv.of_within hw (by decide) (by decide) (by decide), .inl ⟨j + 2, by omega, by omega, ht',
        hiv.cons hlog id, rfl, fun hsh => (hcv hsh).applied hsv hw⟩⟩
    · refine ⟨?_, .inr ⟨joins_end hbuf htv hiv, ?_⟩⟩
      · rw [sesOnframe_state (h1.trans hstate)]
        exact hsv.of_within (within_rsOnState v) (by decide) (by decide) (by decide)
      · have hnil : pushFrom h (10 + 1) = [] := List.drop_eq_nil_of_le (by simp)
        rw [hnil, List.nil_append]
  · obtain ⟨hk, hs'⟩ := keepsRx_forwarded hsv h1 (hrest f (hfw.subset List.mem_cons_self))
    exact ⟨hk, hs', .inr ⟨hj.grow (by rw [← hl.log]; exact grows_sesOnframe v),
      (List.suffix_cons f fs).trans hfw⟩⟩

end pump

/-! ### A run -/

/-- The console's own code, or a step that leaves the cells of the image alone if the hold is on. -/
def Spared (C : Cart) (n n' : Node) : Prop :=
  advance C n = some n' ∨ (n.cpu.rd resyncHold ≠ 0 → ∀ a, ImgCell a → n'.cpu.rd a = n.cpu.rd a)

/-- A run without a drop in which the mailbox delivers the bytes, at most 64 of them in a read, and nothing
outside the engine writes a cell of the image while the hold is on. -/
inductive Reads (W : World) (n : Node) : List ℕ → Node → Prop where
  | refl : Reads W n [] n
  | own {bs : List ℕ} {n' n'' : Node} :
      Reads W n bs n' → Step W none n' n'' → Spared W.cart n' n'' → n''.cpu.rd netDropped = 0 →
        Reads W n bs n''
  | pump {bs : List ℕ} {p : Poll} {n' n'' : Node} :
      Reads W n bs n' → Step W (some p) n' n'' → (delivered p n'.cpu).length ≤ 64 →
        n''.cpu.rd netDropped = 0 → Reads W n (bs ++ delivered p n'.cpu) n''

/-- A pass beyond its hold test waits at a shut gate; the other phases are of the hold. -/
def Node.Stands (k : ℕ) (n : Node) : Prop :=
  (n.phase = .top ∨ n.phase = .send ∨ n.phase = .gate ∨ n.phase = .stall) ∧ Closed n.cpu ∨
    (n.phase = .hold ∨ n.phase = .idle ∨ n.phase = .entry) ∧ 0 < k

/-- A console of a run with the bytes to come, `k` frames of the push being taken. -/
structure Receives (h s : Cpu) (rest : List (List ℕ)) (k : ℕ) (bytes : List ℕ) (n : Node) : Prop where
  seated : Seated n.cpu
  frames : k ≤ 10
  taken : Taken h k n.cpu
  idles : Idles s n.cpu
  stands : n.Stands k
  aligned : Aligned bytes (pushFrom h k ++ rest) n.cpu

theorem Node.Stands.shut {k : ℕ} {ph : Phase} {u : Cpu}
    (hph : ph = .top ∨ ph = .send ∨ ph = .gate ∨ ph = .stall) (hc : Closed u) : Stands k ⟨ph, u⟩ :=
  .inl ⟨hph, hc⟩

section run

variable {W : World} {h s : Cpu} {rest : List (List ℕ)} {k : ℕ} {bytes : List ℕ} {n n' : Node}

theorem Aligned.of_rx {fs : List (List ℕ)} {t u : Cpu} (h : Aligned bytes fs t)
    (hr : rxBytes u = rxBytes t) : Aligned bytes fs u where
  framed := h.framed
  stream := by rw [hr]; exact h.stream
  waiting f hf := by
    rw [← length_rxBytes, hr, length_rxBytes]
    exact h.waiting f hf

/-- A step that leaves alone what was taken, the buffer and the seat. -/
theorem Receives.of_within {P : ℕ → Prop} {u : Cpu} {ph : Phase} (hr : Receives h s rest k bytes n)
    (hw : Within P n.cpu u) (hlow : ∀ a, 0x015D ≤ a → a < 0x035D → ¬ P a)
    (htail : ∀ a ∈ rsTailtbl ++ [resyncHold, rsRLo, rsRHi] ++ [netSeat, netCount, lobbyCnt], ¬ P a)
    (hrx : ∀ a, RxCell a → ¬ P a) (hi : Idles s u) (hst : Node.Stands k ⟨ph, u⟩) :
    Receives h s rest k bytes ⟨ph, u⟩ where
  seated := hr.seated.of_within hw (htail _ (by simp)) (htail _ (by simp)) (htail _ (by simp))
  frames := hr.frames
  taken := hr.taken.of_within hw fun _ =>
    not_transferCell hlow fun b hb => htail b (List.mem_append_left _ hb)
  idles := hi
  stands := hst
  aligned := hr.aligned.of_rx (rxBytes_local hw hrx)

theorem not_pace_low (a : ℕ) (h1 : 0x015D ≤ a) (h2 : a < 0x035D) : ¬ PaceCell a := by
  simp only [PaceCell, execPhase, lsFroze, lsSave102, lsWaitcLo, lsWaitcHi, rsToLo, rsToHi]
  omega

theorem not_rxCell_pace {a : ℕ} (h : RxCell a) : ¬ PaceCell a := by
  simp only [RxCell, rxWr, rxRd, rxacc] at h
  simp only [PaceCell, execPhase, lsFroze, lsSave102, lsWaitcLo, lsWaitcHi, rsToLo, rsToHi]
  omega

theorem Closed.paced {t u : Cpu} (hc : Closed t) (hs : Seated t) (hl : Local PaceCell t u) : Closed u :=
  hc.of_rd hs.count fun a ha => hl.rd a fun hp => by
    simp only [GateCell, WmCell, seatWm, netDropped, netCount, netSeat, tickLo, tickHi] at ha
    simp only [PaceCell, execPhase, lsFroze, lsSave102, lsWaitcLo, lsWaitcHi, rsToLo, rsToHi] at hp
    omega

/-- A step of the pace alone. -/
theorem Receives.paced (hr : Receives h s rest k bytes n) {u : Cpu} (hl : Local PaceCell n.cpu u)
    {ph : Phase} (hst : Node.Stands k ⟨ph, u⟩) : Receives h s rest k bytes ⟨ph, u⟩ :=
  hr.of_within hl.within not_pace_low (by decide) (fun _ => not_rxCell_pace)
    (hr.idles.of_log hl.log) hst

theorem Receives.marked (hr : Receives h s rest k bytes n) {u : Cpu} (hrd : ∀ a, u.rd a = n.cpu.rd a)
    (hlog : u.log = n.cpu.log) {ph : Phase} (hst : Node.Stands k ⟨ph, u⟩) :
    Receives h s rest k bytes ⟨ph, u⟩ where
  seated := ⟨(hrd _).symm ▸ hr.seated.seat, (hrd _).symm ▸ hr.seated.count, (hrd _).symm ▸ hr.seated.lobby⟩
  frames := hr.frames
  taken := hr.taken.of_rd fun a _ => hrd a
  idles := hr.idles.of_log hlog
  stands := hst
  aligned := hr.aligned.of_rx (rxBytes_congr fun a _ => hrd a)

/-- The world outside. -/
theorem Receives.outside (hr : Receives h s rest k bytes n) {m : Mem} {ph : Phase}
    (hm : ∀ a, 0x8000 ≤ a → m.get a = n.cpu.mem.get a)
    (himg : n.cpu.rd resyncHold ≠ 0 → ∀ a, ImgCell a → m.get a = n.cpu.mem.get a)
    (hst : Node.Stands k ⟨ph, n.cpu.call fun _ => m⟩) :
    Receives h s rest k bytes ⟨ph, n.cpu.call fun _ => m⟩ := by
  have hl := local_outside (s := n.cpu) hm
  refine ⟨hr.seated.of_within hl.within (by decide) (by decide) (by decide), hr.frames, ?_,
    hr.idles.of_log hl.log, hst, hr.aligned.of_rx (rxBytes_local hl.within fun a ha => ?_)⟩
  · rcases Nat.eq_zero_or_pos k with rfl | hk
    · exact taken_zero h _
    · refine hr.taken.of_rd fun a ha => ?_
      rcases ha with ha | ha
      · exact himg (hr.taken.hold hk) a ha
      · exact hm a (by simp only [resyncHold, rsRLo, rsRHi] at ha; omega)
  · simp only [RxCell, rxWr, rxRd, rxacc] at ha
    omega

theorem Closed.outside {t : Cpu} {m : Mem} (hc : Closed t) (hs : Seated t)
    (hm : ∀ a, 0x8000 ≤ a → m.get a = t.mem.get a) : Closed (t.call fun _ => m) :=
  hc.of_rd hs.count fun a ha => hm a (by
    simp only [GateCell, WmCell, seatWm, netDropped, netCount, netSeat, tickLo, tickHi] at ha
    omega)

/-- The console's own code in a phase that does not pump. -/
theorem Receives.advance {C : Cart} (hr : Receives h s rest k bytes n)
    (ha : advance C n = some n') (hd : n'.cpu.rd netDropped = 0) :
    Receives h s rest k bytes n' := by
  obtain ⟨ph, t⟩ := n
  have hst := hr.stands
  cases ph <;> simp only [Console.advance, Option.some.injEq, reduceCtorEq] at ha <;> subst ha
  · have hk : 0 < k := by
      rcases hst with ⟨h1, -⟩ | ⟨-, h2⟩
      · simp at h1
      · exact h2
    have hdrop : t.rd netDropped = 0 := by
      rwa [(within_lsEntry t).rd _ (by decide)] at hd
    have hhold := hr.taken.hold hk
    unfold lsEntry
    split_ifs with h1 h2
    · exact hr.marked (u := lsReturn t) (fun _ => rfl) rfl (.inr ⟨.inr (.inl rfl), hk⟩)
    · exact absurd hdrop h2
    · have hp : Receives h s rest k bytes ⟨.hold, lsFreeze t⟩ :=
        hr.paced (local_lsFreeze t) (.inr ⟨.inl rfl, hk⟩)
      exact hp.marked (u := lsHold t) (fun _ => rfl) rfl (.inr ⟨.inl rfl, hk⟩)
  · have hseat : Seated t := hr.seated
    have hc : Closed t := by
      rcases hst with ⟨-, h2⟩ | ⟨h1, -⟩
      · exact h2
      · simp at h1
    have hw := within_lsSend (s := t) hseat.seat
    have hlog := (log_lsSend (s := t)).trans (log_lsCapture hseat.seat)
    have hidle : Idles s (lsSend t) := Idles.cons hr.idles hlog not_false
    have hshut : Closed (lsSend t) := closed_lsSend hc hseat
    have hgate : Node.Stands k ⟨.gate, lsSend t⟩ := .shut (.inr (.inr (.inl rfl))) hshut
    refine hr.of_within hw (fun a h1 h2 ha => ?_) ?_ (fun a hx ha => ?_) hidle hgate
    · simp only [CaptureCell, RingCell, MailCell, seatRing, lsTmpb, lsTmpb2] at ha
      omega
    · decide
    · simp only [RxCell, rxWr, rxRd, rxacc] at hx
      simp only [CaptureCell, RingCell, MailCell, seatRing, lsTmpb, lsTmpb2] at ha
      omega
  · have hc : Closed t := by
      rcases hst with ⟨-, h2⟩ | ⟨h1, -⟩
      · exact h2
      · simp at h1
    have hseat : Seated t := hr.seated
    rw [lsGate, if_neg (by rw [not_gateOpen_of_closed hc]; decide)]
    have hl := local_lsFreeze t
    exact hr.paced hl (.inl ⟨.inr (.inr (.inr rfl)), hc.paced hseat hl⟩)

/-- What follows a pump after which the transfer still runs. -/
theorem Receives.after {t u : Cpu} {ph : Phase} {raw k' : ℕ} (hst : Node.Stands k ⟨ph, t⟩) (hk : k ≤ k')
    (hc : Closed t → Closed u) (hsu : Seated u)
    (hbase : ∀ ph', Node.Stands k' ⟨ph', u⟩ → Receives h s rest k' bytes ⟨ph', u⟩)
    (ha : afterPump raw ph u = some n') (hd : n'.cpu.rd netDropped = 0) :
    Receives h s rest k' bytes n' := by
  have hcount : ∀ {v : Cpu}, CountOrDrop u v → v.rd netDropped = 0 → Local PaceCell u v := fun hcd hd' => by
    rcases hcd with hl | ⟨-, h1⟩
    · exact hl
    · rw [h1] at hd'
      exact absurd hd' (by decide)
  cases ph <;> simp only [afterPump, Option.some.injEq, reduceCtorEq] at ha <;> subst ha
  · rcases hst with ⟨h1, -⟩ | ⟨h1, -⟩ <;> simp at h1
  · rcases hst with ⟨h1, -⟩ | ⟨h1, -⟩ <;> simp at h1
  · have hk0 : 0 < k' := by
      rcases hst with ⟨h1, -⟩ | ⟨-, h2⟩
      · simp at h1
      · exact Nat.lt_of_lt_of_le h2 hk
    have hl := hcount (countOrDrop_holdTail u) hd
    have hp : Receives h s rest k' bytes ⟨.hold, holdTail u⟩ :=
      (hbase .hold (.inr ⟨.inl rfl, hk0⟩)).paced hl (.inr ⟨.inl rfl, hk0⟩)
    exact hp.marked (u := lsReturn (holdTail u)) (fun _ => rfl) rfl (.inr ⟨.inr (.inl rfl), hk0⟩)
  · refine hbase .send (.inl ⟨.inr (.inl rfl), ?_⟩)
    rcases hst with ⟨-, h2⟩ | ⟨h1, -⟩
    · exact hc h2
    · simp at h1
  · have hl := hcount (countOrDrop_stallTail u) hd
    have hcl : Closed u := by
      rcases hst with ⟨-, h2⟩ | ⟨h1, -⟩
      · exact hc h2
      · simp at h1
    exact (hbase .stall (.inl ⟨.inr (.inr (.inr rfl)), hcl⟩)).paced hl
      (.inl ⟨.inr (.inr (.inl rfl)), hcl.paced hsu hl⟩)

/-- A pump and what follows it. -/
theorem Receives.pump {p : Poll} {raw : ℕ} (hrest : ∀ g ∈ rest, Forwarded g)
    (hr : Receives h s rest k (delivered p n.cpu ++ bytes) n) (hread : (delivered p n.cpu).length ≤ 64)
    (ha : afterPump raw n.phase (sesPump p n.cpu) = some n') (hd : n'.cpu.rd netDropped = 0) :
    (∃ k', Receives h s rest k' bytes n') ∨ Joins h s n'.cpu ∧ ∃ gs, gs <:+ rest ∧
      Aligned bytes gs (sesPump p n.cpu) := by
  obtain ⟨ph, t⟩ := n
  have hfetch := local_sesFetch p t
  have hsf : Seated (sesFetch p t) :=
    hr.seated.of_within hfetch.within (by decide) (by decide) (by decide)
  have hfeed : Feeding h s k (Closed t) rest (sesFetch p t) (pushFrom h k ++ rest) :=
    ⟨hsf, .inl ⟨k, le_rfl, hr.frames, hr.taken.of_within hfetch.within fun _ => not_transferCell_pump,
      hr.idles.of_log hfetch.log, rfl, fun hc => hc.pump hr.seated hfetch⟩⟩
  obtain ⟨j, gs, ⟨hsu, hu⟩, hal⟩ := sesPump_frames
    (P := fun _ u fs => Feeding h s k (Closed t) rest u fs) hr.aligned hread hfeed
    fun _ _ _ _ hP hf hbuf _ => feeding_frame hrest hP hf hbuf
  have hlog := log_afterPump ha
  rcases hu with ⟨k', hk, h10, ht, hi, hgs, hc⟩ | ⟨hj, hgs⟩
  · subst hgs
    exact .inl ⟨k', .after hr.stands hk hc hsu (fun ph' hst' => ⟨hsu, h10, ht, hi, hst', hal⟩) ha hd⟩
  · exact .inr ⟨hj.grow (by rw [hlog]), gs, hgs, hal⟩

theorem Receives.step {p : Option Poll} (hr : Receives h s rest k bytes n) (hs : Step W p n n')
    (hp : p = none) (hsp : Spared W.cart n n') (hd : n'.cpu.rd netDropped = 0) :
    Receives h s rest k bytes n' := by
  rcases hsp with ha | himg
  · exact hr.advance ha hd
  have hst := hr.stands
  cases hs with
  | @isr ph t m hm =>
    have hget := W.isr_get hm
    exact hr.outside hget himg (hst.imp_left fun hc => ⟨hc.1, hc.2.outside hr.seated hget⟩)
  | @native t m hm =>
    have hk : 0 < k := by
      rcases hst with ⟨h1, -⟩ | ⟨-, h2⟩
      · simp at h1
      · exact h2
    exact hr.outside (W.native_get hm) himg (.inr ⟨.inr (.inr rfl), hk⟩)
  | boot hm => rcases hst with ⟨h1, -⟩ | ⟨h1, -⟩ <;> simp at h1
  | own ha => exact hr.advance ha hd
  | pump ha => exact absurd hp (by simp)

/-- **A push arrives whole**, in whatever reads its bytes come, whenever the gate of the guest is shut
when BEGIN arrives and nothing outside the engine writes the image while the hold is on: up to END the
guest runs no game tick, having handled every frame that it has all of, and at END it rebases to the tick,
the image and the checksum that the host rebases to after the push. -/
theorem push_arrives {h : Cpu} {bs unread : List ℕ} (hs : Seated n.cpu)
    (hph : n.phase = .top ∨ n.phase = .send ∨ n.phase = .gate ∨ n.phase = .stall) (hc : Closed n.cpu)
    (hal : Aligned (bs ++ unread) (pushFrames h ++ rest) n.cpu) (hrest : ∀ g ∈ rest, Forwarded g)
    (hr : Reads W n bs n') :
    Joins h n.cpu n'.cpu ∨ Idles n.cpu n'.cpu ∧ ∃ k ≤ 10,
      rxBytes n'.cpu ++ unread = ((pushFrames h).drop k ++ rest).flatten ∧
      ∀ f ∈ ((pushFrames h).drop k ++ rest).head?, buffered n'.cpu < f.length := by
  have key : ∀ {bs n'}, Reads W n bs n' → ∀ unread, Aligned (bs ++ unread) (pushFrames h ++ rest) n.cpu →
      (∃ k, Receives h n.cpu rest k unread n') ∨ Joins h n.cpu n'.cpu := by
    intro bs n' hr
    induction hr with
    | refl =>
      exact fun unread hal => .inl ⟨0, hs, by decide, taken_zero h n.cpu, .refl _, .inl ⟨hph, hc⟩, hal⟩
    | own _ hstep hsp hd ih =>
      intro unread hal
      rcases ih unread hal with ⟨k, hk⟩ | hj
      · exact .inl ⟨k, hk.step hstep rfl hsp hd⟩
      · exact .inr (hj.grow (grows_step hstep))
    | @pump bs p n' n'' _ hstep hread hd ih =>
      intro unread hal
      rw [List.append_assoc] at hal
      rcases ih _ hal with ⟨k, hk⟩ | hj
      · cases hstep with
        | pump ha => exact (hk.pump hrest hread ha hd).imp_right And.left
      · exact .inr (hj.grow (grows_step hstep))
  rcases key hr unread hal with ⟨k, hk⟩ | hj
  · exact .inr ⟨hk.idles, k, hk.frames, hk.aligned.stream, hk.aligned.waiting⟩
  · exact .inl hj

/-! ### A guest that takes BEGIN -/

theorem framed_pushFrames (h : Cpu) : ∀ f ∈ pushFrames h, Framed f := by
  have hchunk : ∀ k ≤ 8, Framed (chunkFrame h k) := fun k hk => by
    obtain ⟨h1, -, h3⟩ := chunkPos_succ hk
    have hlen : (imgRange h (chunkPos k) (chunkPos (k + 1) - chunkPos k)).length =
        chunkPos (k + 1) - chunkPos k := length_imgRange _ _ _
    refine ⟨rfl, ?_, fun b hb => chunkFrame_lt h hb⟩
    simp only [chunkFrame, stateFrame, List.getD_cons_zero, List.getD_cons_succ, hlen, flenOk,
      decide_eq_true_eq]
    exact ⟨by decide, by decide, by simp [sesFlen], by simp [sesFlen]; omega⟩
  have hlt : resumeTick h < 65536 := Nat.mod_lt _ (by decide)
  intro f hf
  simp only [pushFrames, List.cons_append, List.mem_cons, List.mem_append, List.mem_map,
    List.mem_range'_1, List.not_mem_nil, or_false] at hf
  rcases hf with rfl | ⟨k, hk, rfl⟩ | rfl
  · refine ⟨rfl, show flenOk 5 8 = true by decide, fun b hb => ?_⟩
    simp only [stateFrame, posBegin, List.mem_cons, List.not_mem_nil, or_false, List.length_cons,
      List.length_nil, ftState] at hb
    omega
  · exact hchunk k (by omega)
  · exact ⟨by decide, by decide, by decide⟩

/-! ### A guest that takes a whole push -/

theorem Reads.trans {bs bs' : List ℕ} {n'' : Node} (h : Reads W n bs n') (h' : Reads W n' bs' n'') :
    Reads W n (bs ++ bs') n'' := by
  induction h' with
  | refl =>
    rw [List.append_nil]
    exact h
  | own _ hs hsp hd ih => exact ih.own hs hsp hd
  | pump _ hs hread hd ih =>
    rw [← List.append_assoc]
    exact ih.pump hs hread hd

theorem type_pushFrom {f : List ℕ} (h : Cpu) (k : ℕ) (hf : f ∈ pushFrom h k) : f.getD 1 0 = ftState := by
  have hmem := List.mem_of_mem_drop hf
  simp only [pushFrames, List.cons_append, List.mem_cons, List.mem_append, List.mem_map,
    List.not_mem_nil, or_false] at hmem
  rcases hmem with rfl | ⟨k, -, rfl⟩ | rfl <;> rfl

/-- What a frame of a push leaves of the count of stalled rounds. -/
theorem patient_state {v : Cpu} {w : ℕ} (hd : v.rd netDropped = 0) (hw : v.rd lsWaitcLo ≤ w) :
    (rsOnState v).rd netDropped = 0 ∧ (rsOnState v).rd lsWaitcLo ≤ w := by
  refine ⟨((within_rsOnState v).rd _ (by decide)).trans hd, ?_⟩
  rcases rsOnState_cases v with hs | hs
  · rw [hs.rd _ (by decide)]
    exact hw
  · have hzero : (rsRebase v).rd lsWaitcLo = 0 := by
      rw [rd_rsRebase]
      simp [rsRestart, rsReleaseHold]
    rw [hs, hzero]
    exact Nat.zero_le w

/-- A pump of a push does not give up. -/
theorem patient_pump {p : Poll} {w : ℕ} (hr : Receives h s [] k (delivered p n.cpu ++ bytes) n)
    (hread : (delivered p n.cpu).length ≤ 64) (hd : n.cpu.rd netDropped = 0)
    (hw : n.cpu.rd lsWaitcLo ≤ w) : (sesPump p n.cpu).rd netDropped = 0 ∧
      (sesPump p n.cpu).rd lsWaitcLo ≤ w := by
  have hfetch := local_sesFetch p n.cpu
  have hstart : (∀ f ∈ pushFrom h k ++ [], f.getD 1 0 = ftState) ∧
      (sesFetch p n.cpu).rd netDropped = 0 ∧ (sesFetch p n.cpu).rd lsWaitcLo ≤ w := by
    refine ⟨fun f hf => type_pushFrom h k ?_, (hfetch.rd _ (by decide)).trans hd,
      (hfetch.rd _ (by decide)).trans_le hw⟩
    rwa [List.append_nil] at hf
  obtain ⟨-, -, ⟨-, hd', hw'⟩, -⟩ := sesPump_frames
    (P := fun _ u fs => (∀ f ∈ fs, f.getD 1 0 = ftState) ∧ u.rd netDropped = 0 ∧ u.rd lsWaitcLo ≤ w)
    hr.aligned hread hstart fun _ t f fs hP hf hbuf _ => by
      obtain ⟨hstate, hd, hw⟩ := hP
      have hl : Local PumpCell t (ppExtract f.length t) := local_ppExtract (by have := hf.length_le; omega) t
      have h1 := (hbuf.rd hf.two_le).trans (hstate f List.mem_cons_self)
      rw [sesOnframe_state h1]
      exact ⟨keepsRx_state h1, fun g hg => hstate g (List.mem_cons_of_mem _ hg),
        patient_state ((hl.rd _ (by decide)).trans hd) ((hl.rd _ (by decide)).trans_le hw)⟩
  exact ⟨hd', hw'⟩

theorem Closed.undropped {t : Cpu} (h : Closed t) : t.rd netDropped = 0 := h.1

/-- A pump of a stalled guest whose count does not run over, and the gate behind it. -/
theorem stallTail_low {v : Cpu} (hlo : v.rd lsWaitcLo < 255) :
    stallTail v = v.st lsWaitcLo (v.rd lsWaitcLo + 1) := by
  simp only [stallTail]
  rw [if_pos (by omega)]

theorem waitc_lsFreeze (t : Cpu) : (lsFreeze t).rd lsWaitcLo = t.rd lsWaitcLo := by
  have hl : Local (fun a => a = lsFroze ∨ a = lsSave102 ∨ a = execPhase) t (lsFreeze t) :=
    Local.ite (fun _ => Local.refl t)
      fun _ => (((Local.refl t).st (by decide)).st (by decide)).st (by decide)
  exact hl.rd _ (by decide)

theorem Receives.closed {u : Cpu} {ph : Phase} (hr : Receives h s rest k bytes ⟨ph, u⟩)
    (hph : ph = .gate ∨ ph = .stall) : Closed u := by
  rcases hr.stands with ⟨-, hc⟩ | ⟨hst, -⟩
  · exact hc
  · rcases hph with rfl | rfl <;> simp at hst

/-- A round of the stall loop reads on, unless it has taken END. -/
theorem Receives.round {p : Poll} {u : Cpu}
    (hr : Receives h s [] k (delivered p u ++ bytes) ⟨.stall, u⟩)
    (hread : (delivered p u).length ≤ 64) (hw : u.rd lsWaitcLo < 255) :
    (∃ n', Reads W ⟨.stall, u⟩ (delivered p u) n' ∧ bytes = []) ∨
      ∃ u' k', Reads W ⟨.stall, u⟩ (delivered p u) ⟨.stall, u'⟩ ∧
        Receives h s [] k' bytes ⟨.stall, u'⟩ ∧ u'.rd lsWaitcLo ≤ u.rd lsWaitcLo + 1 := by
  have hclosed : Closed u := hr.closed (.inr rfl)
  obtain ⟨hdv, hwv⟩ := patient_pump (n := ⟨.stall, u⟩) (w := u.rd lsWaitcLo) hr hread
    hclosed.undropped le_rfl
  have hpump : afterPump 0 .stall (sesPump p u) = some ⟨.gate, stallTail (sesPump p u)⟩ := rfl
  have hlow := stallTail_low (v := sesPump p u) (by dsimp only at hwv; omega)
  have hd : (stallTail (sesPump p u)).rd netDropped = 0 := by
    rw [hlow, Cpu.rd_st, if_neg (by decide)]
    exact hdv
  have hcount : (stallTail (sesPump p u)).rd lsWaitcLo ≤ u.rd lsWaitcLo + 1 := by
    rw [hlow, Cpu.rd_st, if_pos rfl]
    exact (Nat.mod_le _ _).trans (Nat.succ_le_succ hwv)
  have hfirst : Step W (some p) ⟨.stall, u⟩ ⟨.gate, stallTail (sesPump p u)⟩ := .pump hpump
  have hreads := Reads.pump .refl hfirst hread hd
  rw [List.nil_append] at hreads
  have hcase := Receives.pump (n := ⟨.stall, u⟩) (p := p) (fun g hg => absurd hg List.not_mem_nil) hr hread
    hpump hd
  generalize stallTail (sesPump p u) = v at *
  rcases hcase with ⟨k', hk⟩ | ⟨-, gs, hgs, hal⟩
  · have hgate : Console.advance W.cart ⟨.gate, v⟩ = some ⟨.stall, lsFreeze v⟩ := by
      rw [advance_gate, lsGate, not_gateOpen_of_closed (hk.closed (.inl rfl))]
      rfl
    have hdf : (lsFreeze v).rd netDropped = 0 := ((local_lsFreeze v).rd _ (by decide)).trans hd
    have hstep : Step W none ⟨.gate, v⟩ ⟨.stall, lsFreeze v⟩ := .own hgate
    have hspared : Spared W.cart ⟨.gate, v⟩ ⟨.stall, lsFreeze v⟩ := .inl hgate
    have hnext := hk.advance hgate hdf
    rw [← waitc_lsFreeze v] at hcount
    exact .inr ⟨lsFreeze v, k', hreads.own hstep hspared hdf, hnext, hcount⟩
  · rw [List.suffix_nil.1 hgs] at hal
    exact .inl ⟨_, hreads, (List.append_eq_nil_iff.1 hal.stream).2⟩

/-- A stalled guest with rounds to spare takes a whole push, 64 bytes a round. -/
theorem reads_stalled {m : ℕ} : ∀ {u : Cpu} {k : ℕ} {bytes : List ℕ}, bytes.length ≤ 64 * m →
    u.rd lsWaitcLo + m < 256 → Receives h s [] k bytes ⟨.stall, u⟩ →
      ∃ n', Reads W ⟨.stall, u⟩ bytes n' := by
  induction m with
  | zero =>
    intro u k bytes hlen hm hr
    rw [List.length_eq_zero_iff.1 (by omega : bytes.length = 0)]
    exact ⟨_, .refl⟩
  | succ m ih =>
    intro u k bytes hlen hm hr
    by_cases hnil : bytes = []
    · rw [hnil]
      exact ⟨_, .refl⟩
    have hbyte : ∀ b ∈ bytes, b < 256 := fun b hb => by
      have hmem : b ∈ (pushFrom h k ++ []).flatten := by
        rw [← hr.aligned.stream]
        exact List.mem_append_right _ hb
      obtain ⟨f, hf, hbf⟩ := List.mem_flatten.1 hmem
      exact (hr.aligned.framed f hf).lt b hbf
    have hne : bytes.take 64 ≠ [] := fun he => hnil ((List.take_eq_nil_iff.1 he).resolve_left (by decide))
    have hdeliv : delivered (.gives (bytes.take 64)) u = bytes.take 64 :=
      delivered_gives hne (List.length_take_le 64 bytes) fun b hb => hbyte b (List.mem_of_mem_take hb)
    have hcut : delivered (.gives (bytes.take 64)) u ++ bytes.drop 64 = bytes := by
      rw [hdeliv, List.take_append_drop]
    have hread : (delivered (.gives (bytes.take 64)) u).length ≤ 64 := by
      rw [hdeliv]
      exact List.length_take_le 64 bytes
    rw [← hcut] at hr
    rcases hr.round hread (by omega) with ⟨n', hreads, hrest⟩ | ⟨u', k', hreads, hr', hw⟩
    · rw [hrest, List.append_nil] at hcut
      rw [← hcut]
      exact ⟨n', hreads⟩
    · obtain ⟨n', hn'⟩ := ih (by rw [List.length_drop]; omega) (by omega) hr'
      rw [← hcut]
      exact ⟨n', hreads.trans hn'⟩

/-- Seat 1 of two at tick 1, nothing having come from seat 0. -/
def lateGuest : Cpu := ((zeroCpu.st netSeat 1).st netCount 2).st tickLo 1

/-- A host at tick 0 with an object and a word of the game's scratch. -/
def lateHost : Cpu := ((zeroCpu.st objectTable 7).st (objectTable + 8) 0x1234).st gameScratch 9

theorem receives_lateGuest :
    Receives lateHost lateGuest [] 0 (pushFrames lateHost).flatten ⟨.stall, lateGuest⟩ := by
  have hclosed : Closed lateGuest := ⟨by decide +kernel, 0, by decide +kernel, by decide +kernel⟩
  refine ⟨⟨by decide +kernel, by decide +kernel, by decide +kernel⟩, by decide, taken_zero _ _, .refl _,
    .shut (.inr (.inr (.inr rfl))) hclosed, ?_, ?_, ?_⟩
  · rw [List.append_nil]
    exact framed_pushFrames lateHost
  · have hrx : rxBytes lateGuest = [] := by decide +kernel
    rw [hrx, List.nil_append, List.append_nil]
    rfl
  · have hb : buffered lateGuest = 0 := by decide +kernel
    intro f hf
    rw [List.append_nil] at hf
    have := (framed_pushFrames lateHost f (List.mem_of_mem_head? hf)).two_le
    dsimp only
    omega

/-- A guest in the stall loop takes the whole push and joins the host. -/
theorem push_arrives_end : ∃ n, Reads stillWorld ⟨.stall, lateGuest⟩ (pushFrames lateHost).flatten n ∧
    Joins lateHost lateGuest n.cpu := by
  have hr := receives_lateGuest
  have hlen : (pushFrames lateHost).flatten.length ≤ 64 * 13 := by decide +kernel
  obtain ⟨n, hn⟩ := reads_stalled (W := stillWorld) hlen (by decide +kernel) hr
  refine ⟨n, hn, ?_⟩
  have hal : Aligned ((pushFrames lateHost).flatten ++ []) (pushFrames lateHost ++ []) lateGuest := by
    rw [List.append_nil]
    exact hr.aligned
  rcases push_arrives hr.seated (.inr (.inr (.inr rfl))) (hr.closed (.inr rfl)) hal
    (fun g hg => absurd hg List.not_mem_nil) hn with
    hj | ⟨-, k, hk, hstream, hwait⟩
  · exact hj
  · -- Nothing is unread, so the frames to come would be in the buffer.
    obtain ⟨f, hf, -⟩ := pushFrom_lt (h := lateHost) (k := k) (by omega)
    rw [pushFrom] at hf
    rw [hf, List.append_nil, List.append_nil] at hstream
    rw [hf] at hwait
    have hlt := hwait f rfl
    have hle := congrArg List.length hstream
    rw [length_rxBytes, List.flatten_cons, List.length_append] at hle
    omega

end run

end IntvNetplay.Console
