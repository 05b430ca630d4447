import IntvNetplay.Console.Start

/-!
# What a received frame does

For each kind of frame that a console in a match sends: what the peer makes of it, given that the
frame is the one in `FRMBUF`.
-/

namespace IntvNetplay.Console

open IntvNetplay.Machine

/-! ### By type -/

section types

variable {s : Cpu}

theorem sesOnframe_state (h : s.rd (frmbuf + 1) = ftState) : sesOnframe s = rsOnState s := by
  simp only [sesOnframe, h]
  rfl

theorem not_rxCell_image {a : ℕ} (h : RxCell a) : ¬ ImgCell a := by
  have ht : ∀ a ∈ rsTailtbl, ¬ RxCell a := by decide
  intro hi
  simp only [ImgCell, gameScratch, backtab, objectTable] at hi
  rcases hi with hi | hi | hi | hi
  · simp only [RxCell, rxWr, rxRd, rxacc] at h; omega
  · simp only [RxCell, rxWr, rxRd, rxacc] at h; omega
  · simp only [RxCell, rxWr, rxRd, rxacc] at h; omega
  · exact ht a hi h

/-- Nothing that a STATE frame does touches the buffer. -/
theorem not_rxCell_state {a : ℕ} (h : RxCell a) : ¬ StateCell a := by
  have hi := not_rxCell_image h
  simp only [RxCell, rxWr, rxRd, rxacc] at h
  simp only [StateCell, ShortCell, BeginCell, ApplyCell, RebaseCell, InstallCell, RestartCell, MailCell,
    HoldCell, CrcCell, DisplayCell, VectorCell, HookCell, RingCell, WmCell, hi, ownCrc, resyncHold,
    rsToLo, rsToHi, rsRLo, rsRHi, rsTmp, rsTmp2, rsPosLo, rsPosHi, rsPend, rsPtmo, execIsr,
    scIsrSave, sbCnt2Lo, sbCnt2Hi, sbPhase, tickLo, tickHi, seatRing, seatWm, lsWaitcLo, lsWaitcHi,
    false_or]
  omega

theorem keepsRx_state (h : s.rd (frmbuf + 1) = ftState) : KeepsRx s := fun a ha => by
  rw [sesOnframe_state h]
  exact (within_rsOnState s).rd a (not_rxCell_state ha)

end types

/-! ### BEGIN -/

section begins

variable {s : Cpu} {lo hi : ℕ} (h : InFrmbuf (stateFrame posBegin [lo, hi]) s)
include h

/-- What BEGIN makes of the console. -/
theorem onframe_begin : sesOnframe s = ((rsEnterHold s).st rsRLo lo).st rsRHi hi := by
  have hd := local_rsEnterHold s
  have h4 : (rsEnterHold s).rd (frmbuf + 4) = lo := by
    rw [hd.rd _ (by decide)]
    exact h.rd (by simp)
  have h5 : (rsEnterHold s).rd (frmbuf + 5) = hi := by
    rw [hd.rd _ (by decide)]
    exact h.rd (by simp)
  have h0 : s.rd frmbuf = 5 := h.rd_zero (by simp)
  have h2 : s.rd (frmbuf + 2) = 0 := h.rd (by simp)
  have h3 : s.rd (frmbuf + 3) = 0xFF := h.rd (by simp)
  rw [sesOnframe_state (h.rd (by simp)), rsOnState, if_neg (by omega), if_pos h3, rsOnControl,
    if_pos h2, if_neg (by omega)]
  simp only [Cpu.rd_st, if_neg (show frmbuf + 5 ≠ rsRLo by decide), h4, h5]

theorem local_begin : Local BeginCell s (sesOnframe s) := by
  have hb : Local BeginCell s (rsEnterHold s) :=
    ((((Local.refl s).st (by decide)).st (by decide)).st (by decide)).trans
      ((local_rsClrCrc _).mono fun _ h => Or.inr (Or.inl h))
  rw [onframe_begin h]
  exact (hb.st (by decide)).st (by decide)

theorem hold_begin : (sesOnframe s).rd resyncHold = 1 := by
  rw [onframe_begin h, Cpu.rd_st, if_neg (by decide), Cpu.rd_st, if_neg (by decide), rsEnterHold,
    (local_rsClrCrc _).rd _ (by decide)]
  simp [cellBits]

/-- The resume tick that the rebase will take. -/
theorem resume_begin (hlo : lo < 256) (hhi : hi < 256) :
    (sesOnframe s).rd16 rsRLo rsRHi = word lo hi := by
  rw [onframe_begin h]
  simp [Cpu.rd16, cellBits, Nat.mod_eq_of_lt hlo, Nat.mod_eq_of_lt hhi]

end begins

/-! ### Chunks -/

section chunks

variable {s : Cpu}

theorem not_frmbuf_apply {i : ℕ} (hi : i < 128) : ¬ ApplyCell (frmbuf + i) := by
  have ht : ∀ a ∈ rsTailtbl, a < frmbuf := by decide
  rintro ((h | h | h | h) | h)
  · simp only [gameScratch, frmbuf] at h; omega
  · simp only [backtab, frmbuf] at h; omega
  · simp only [objectTable, frmbuf] at h; omega
  · have := ht _ h; omega
  · simp only [rsTmp, rsTmp2, rsPosLo, rsPosHi, frmbuf] at h; omega

theorem applyBytes_succ (pos n : ℕ) (s : Cpu) : applyBytes pos (n + 1) s =
    imgPut ((applyBytes pos n s).rd (frmbuf + 4 + n)) (pos + n) (applyBytes pos n s) := by
  rw [applyBytes, List.range_succ, List.foldl_append]
  rfl

/-- The bytes of the frame go to their positions, and every other position keeps its byte. -/
theorem imgGet_applyBytes {pos n : ℕ} (hp : pos + n ≤ imgTotal) (hn : n ≤ 96) {q : ℕ}
    (hq : q < imgTotal) : imgGet (applyBytes pos n s) q =
      if pos ≤ q ∧ q < pos + n then s.rd (frmbuf + 4 + (q - pos)) else imgGet s q := by
  induction n with
  | zero =>
    rw [if_neg (by omega)]
    rfl
  | succ n ih =>
    have hrd : (applyBytes pos n s).rd (frmbuf + 4 + n) = s.rd (frmbuf + 4 + n) := by
      rw [Nat.add_assoc]
      exact (local_applyBytes s (by omega)).rd _ (not_frmbuf_apply (by omega))
    have hlt : s.rd (frmbuf + 4 + n) < 256 :=
      s.rd_lt_256 (Or.inr ⟨by simp only [frmbuf]; omega, by simp only [frmbuf]; omega⟩)
    rw [applyBytes_succ, hrd, imgGet_imgPut hlt (by omega) hq, ih (by omega) (by omega)]
    by_cases h1 : q = pos + n
    · rw [if_pos h1, if_pos (by omega), h1, Nat.add_sub_cancel_left]
    · rw [if_neg h1]
      exact if_congr (by omega) rfl rfl

variable {pos : ℕ} {bytes : List ℕ} (h : InFrmbuf (stateFrame pos bytes) s)
  (hp : pos + bytes.length ≤ imgTotal) (hn : 0 < bytes.length) (hhold : s.rd resyncHold ≠ 0)
include h hp hn hhold

theorem onframe_chunk : sesOnframe s = rsApply pos bytes.length s := by
  have h0 : s.rd frmbuf = bytes.length + 3 := h.rd_zero (by simp)
  have h2 : s.rd (frmbuf + 2) = pos % 256 := h.rd (by simp)
  have h3 : s.rd (frmbuf + 3) = pos / 256 := h.rd (by simp)
  have hpos : s.rd16 (frmbuf + 2) (frmbuf + 3) = pos := by
    rw [Cpu.rd16, h2, h3, word_mod_div]
  simp only [imgTotal] at hp
  simp only [sesOnframe_state (h.rd (show 1 < _ by simp)), rsOnState, rsOnChunk, hpos, h0, h3,
    Nat.add_sub_cancel]
  rw [if_neg (by omega), if_neg (by omega), if_neg hhold, if_neg (by omega), if_neg (by omega),
    if_neg (by simp only [imgTotal]; omega)]

theorem within_chunk : Within ApplyCell s (sesOnframe s) := by
  rw [onframe_chunk h hp hn hhold]
  exact within_rsApply s hp

theorem imgGet_chunk (hlen : bytes.length ≤ 96) {q : ℕ} (hq : q < imgTotal) :
    imgGet (sesOnframe s) q =
      if pos ≤ q ∧ q < pos + bytes.length then bytes.getD (q - pos) 0 else imgGet s q := by
  have hpos : ∀ t : Cpu, ∀ v w x, imgGet (((t.st rsPosLo v).st rsPosHi w).st rsTmp2 x) q =
      imgGet t q := fun t v w x => imgGet_congr (fun a ha => by
    have hne : ∀ b ∈ [rsPosLo, rsPosHi, rsTmp2], ¬ ImgCell b := by decide
    rw [Cpu.rd_st, if_neg (fun he => hne _ (by simp) (he ▸ ha)), Cpu.rd_st,
      if_neg (fun he => hne _ (by simp) (he ▸ ha)), Cpu.rd_st,
      if_neg (fun he => hne _ (by simp) (he ▸ ha))]) hq
  have hbyte : ∀ i < bytes.length, s.rd (frmbuf + 4 + i) = bytes.getD i 0 := fun i hi => by
    rw [Nat.add_assoc, h.rd (by rw [length_stateFrame]; omega), Nat.add_comm 4 i]
    rfl
  rw [onframe_chunk h hp hn hhold]
  simp only [rsApply]
  rw [hpos, imgGet_applyBytes hp hlen hq]
  split_ifs with hin
  · exact hbyte _ (by omega)
  · rfl

end chunks

/-! ### END -/

section ends

variable {s : Cpu} (h : InFrmbuf (stateFrame posEnd []) s) (hhold : s.rd resyncHold ≠ 0)
include h hhold

theorem onframe_end : sesOnframe s = rsRebase s := by
  have h0 : s.rd frmbuf = 3 := h.rd_zero (by simp)
  have h2 : s.rd (frmbuf + 2) = 1 := h.rd (by simp)
  have h3 : s.rd (frmbuf + 3) = 0xFF := h.rd (by simp)
  rw [sesOnframe_state (h.rd (by simp)), rsOnState, if_neg (by omega), if_pos h3, rsOnControl,
    if_neg (by omega), if_neg (by omega), if_neg hhold]

end ends

end IntvNetplay.Console
