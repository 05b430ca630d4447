import IntvNetplay.Console.Delivery

/-!
# A match begins

What a START frame leaves in the cells that control a match.  It names the seat, the count and the
delay, and sets the tick counter, the watermarks, the rings and the checksum records; every other
cell keeps what it had.
-/

namespace IntvNetplay.Console

open IntvNetplay.Machine

section start

variable {s : Cpu}

/-- The rest of START after its header. -/
def StartTail (a : ℕ) : Prop :=
  NameCell a ∨ InputCell a ∨ CrcCell a ∨ a = tickLo ∨ a = tickHi ∨ a = netActive

instance : DecidablePred StartTail := fun a => by unfold StartTail; infer_instance

theorem local_start_rings : Local StartTail (startHeader s)
    (rsClrCrc (lsRingInit (sesCprGo (frmbuf + 7) (startHeader s)))) :=
  (((local_sesCprGo (startHeader s) (frmbuf + 7)).mono fun _ h => Or.inl h).trans
    ((local_lsRingInit _).mono fun _ h => Or.inr (Or.inl (Or.inl h)))).trans
      ((local_rsClrCrc _).mono fun _ h => Or.inr (Or.inr (Or.inl h)))

/-- The cells of the header are those of the frame. -/
theorem rd_takeStart_header {x : ℕ} (hx : ¬ StartTail x) :
    (takeStart s).rd x = (startHeader s).rd x := by
  have h1 := local_start_rings (s := s)
  simp only [StartTail, not_or] at hx
  simp only [takeStart]
  rw [Cpu.rd_st, if_neg hx.2.2.2.2.2, Cpu.rd_st, if_neg hx.2.2.2.2.1, Cpu.rd_st,
    if_neg hx.2.2.2.1, (local_setWms _ _ _).rd _ fun h => hx.2.1 (Or.inr h),
    h1.rd _ (by simp only [StartTail, not_or]; exact hx)]

theorem rd_netSeat_takeStart : (takeStart s).rd netSeat = s.rd (frmbuf + 2) := by
  have h : s.rd (frmbuf + 2) % 256 = s.rd (frmbuf + 2) := s.rd_mod_256 (by decide)
  rw [rd_takeStart_header (by decide)]
  simp only [frmbuf] at h
  simp [startHeader, cellBits, h]

theorem rd_netCount_takeStart : (takeStart s).rd netCount = s.rd (frmbuf + 3) := by
  have h : s.rd (frmbuf + 3) % 256 = s.rd (frmbuf + 3) := s.rd_mod_256 (by decide)
  rw [rd_takeStart_header (by decide)]
  simp only [frmbuf] at h
  simp [startHeader, cellBits, h]

theorem rd_netDelay_startHeader : (startHeader s).rd netDelay = s.rd (frmbuf + 6) := by
  have h : s.rd (frmbuf + 6) % 256 = s.rd (frmbuf + 6) := s.rd_mod_256 (by decide)
  simp only [frmbuf] at h
  simp [startHeader, cellBits, h]

theorem rd_netDelay_takeStart : (takeStart s).rd netDelay = s.rd (frmbuf + 6) := by
  rw [rd_takeStart_header (by decide), rd_netDelay_startHeader]

theorem rd_netActive_takeStart : (takeStart s).rd netActive = 1 := by
  have h : ∀ t : Cpu, (((t.st tickLo 0).st tickHi 0).st netActive 1).rd netActive = 1 :=
    fun t => by simp [cellBits]
  rw [takeStart]
  exact h _

theorem tick_takeStart : (takeStart s).tick = 0 := by
  have h : ∀ t : Cpu, (((t.st tickLo 0).st tickHi 0).st netActive 1).tick = 0 :=
    fun t => by simp [Cpu.tick, Cpu.rd16, word]
  rw [takeStart]
  exact h _

/-- The state just before the watermarks are set. -/
theorem rd_start_rings {x : ℕ} (hx : RingCell x ∨ CrcCell x) :
    (rsClrCrc (lsRingInit (sesCprGo (frmbuf + 7) (startHeader s)))).rd x =
      if x < seatKp then 0x40 else if x < ownCrc then 0 else 0xFF := by
  rcases hx with hx | hx
  · have hlt : x < ownCrc := by
      simp only [RingCell, seatRing, ownCrc] at *
      omega
    rw [(local_rsClrCrc _).rd x (by unfold CrcCell; omega), rd_lsRingInit _ hx]
    simp only [hlt, if_true]
  · have hge : ownCrc ≤ x := hx.1
    simp only [ownCrc] at hge
    rw [rd_rsClrCrc _ hx, if_neg (by simp only [seatKp]; omega),
      if_neg (by simp only [ownCrc]; omega)]

/-- The rings are idle and the records cleared. -/
theorem rd_takeStart_rings {x : ℕ} (hx : RingCell x ∨ CrcCell x) : (takeStart s).rd x =
    if x < seatKp then 0x40 else if x < ownCrc then 0 else 0xFF := by
  have hne : x ≠ netActive ∧ x ≠ tickHi ∧ x ≠ tickLo ∧ ¬ WmCell x := by
    simp only [RingCell, CrcCell, WmCell, seatRing, ownCrc, netActive, tickHi, tickLo, seatWm] at *
    omega
  simp only [takeStart]
  rw [Cpu.rd_st, if_neg hne.1, Cpu.rd_st, if_neg hne.2.1, Cpu.rd_st, if_neg hne.2.2.1,
    (local_setWms _ _ _).rd _ hne.2.2.2, rd_start_rings hx]

/-- All watermarks are one behind the delay. -/
theorem wm_takeStart {seat : ℕ} (hs : seat < 4) :
    (takeStart s).wm seat = (s.rd (frmbuf + 6) + 255) % 256 := by
  have hd : (rsClrCrc (lsRingInit (sesCprGo (frmbuf + 7) (startHeader s)))).rd netDelay =
      s.rd (frmbuf + 6) := by
    have h := local_start_rings (s := s)
    rw [(local_rsClrCrc _).rd _ (by decide), (local_lsRingInit _).rd _ (by decide),
      (local_sesCprGo _ _).rd _ (by decide), rd_netDelay_startHeader]
  have hcell : ∀ x, seatWm ≤ x → x < seatWm + 8 → x ≠ netActive ∧ x ≠ tickHi ∧ x ≠ tickLo :=
    fun x h1 h2 => by
      simp only [seatWm, netActive, tickHi, tickLo] at *
      omega
  have hrd : ∀ x, seatWm ≤ x → x < seatWm + 8 → (takeStart s).rd x =
      (setWms ((s.rd (frmbuf + 6) + 65535) % 65536) 0
        (rsClrCrc (lsRingInit (sesCprGo (frmbuf + 7) (startHeader s))))).rd x := fun x h1 h2 => by
    obtain ⟨n1, n2, n3⟩ := hcell x h1 h2
    simp only [takeStart, hd]
    rw [Cpu.rd_st, if_neg n1, Cpu.rd_st, if_neg n2, Cpu.rd_st, if_neg n3]
  have hwm := wm_setWms (rsClrCrc (lsRingInit (sesCprGo (frmbuf + 7) (startHeader s))))
    ((s.rd (frmbuf + 6) + 65535) % 65536) 0 hs
  rw [Cpu.wm_congr (hrd _ (by omega) (by omega)) (hrd _ (by omega) (by omega)), hwm, word]
  omega

end start

/-! ### Frames given as bytes -/

section bytes

variable {s : Cpu} {f : List ℕ}

theorem InFrmbuf.rd (h : InFrmbuf f s) {i : ℕ} (hi : i < f.length) :
    s.rd (frmbuf + i) = f.getD i 0 := h i hi

theorem InFrmbuf.rd_zero (h : InFrmbuf f s) (hi : 0 < f.length) : s.rd frmbuf = f.getD 0 0 :=
  h 0 hi

/-- A START frame: seat, count, seed, delay and the names of the four seats. -/
def startFrame (seat count seedLo seedHi delay : ℕ) (names : List ℕ) : List ℕ :=
  [38, ftStart, seat, count, seedLo, seedHi, delay] ++ names

/-- The match that a START frame opens. -/
structure Opened (seat count delay : ℕ) (s : Cpu) : Prop where
  rdSeat : s.rd netSeat = seat
  rdCount : s.rd netCount = count
  rdDelay : s.rd netDelay = delay
  rdActive : s.rd netActive = 1
  tick : s.tick = 0
  wm : ∀ i < 4, s.wm i = (delay + 255) % 256
  rings : ∀ x, RingCell x ∨ CrcCell x →
    s.rd x = if x < seatKp then 0x40 else if x < ownCrc then 0 else 0xFF

theorem opened_onStart {seat count lo hi delay : ℕ} {names : List ℕ}
    (hf : InFrmbuf (startFrame seat count lo hi delay names) s) :
    Opened seat count delay (onStart s) := by
  have hlen : 7 ≤ (startFrame seat count lo hi delay names).length := by
    rw [startFrame, List.length_append]
    exact Nat.le_add_right _ _
  have h0 : s.rd frmbuf = 38 := hf.rd_zero (by omega)
  have h2 : s.rd (frmbuf + 2) = seat := hf.rd (by omega)
  have h3 : s.rd (frmbuf + 3) = count := hf.rd (by omega)
  have h6 : s.rd (frmbuf + 6) = delay := hf.rd (by omega)
  have hrd : ∀ x, (onStart s).rd x = (takeStart s).rd x := fun x => by
    rw [onStart, if_neg (by omega), rd_noteStart]
  refine ⟨?_, ?_, ?_, ?_, ?_, fun i hi => ?_, fun x hx => ?_⟩
  · rw [hrd, rd_netSeat_takeStart, h2]
  · rw [hrd, rd_netCount_takeStart, h3]
  · rw [hrd, rd_netDelay_takeStart, h6]
  · rw [hrd, rd_netActive_takeStart]
  · rw [Cpu.tick_congr (hrd _) (hrd _)]
    exact tick_takeStart
  · rw [Cpu.wm_congr (hrd _) (hrd _), ← h6]
    exact wm_takeStart hi
  · rw [hrd, rd_takeStart_rings hx]

theorem sesOnframe_input (h : s.rd (frmbuf + 1) = ftInput) : sesOnframe s = onInput s := by
  simp only [sesOnframe]
  rw [if_pos h]

theorem sesOnframe_start (h : s.rd (frmbuf + 1) = ftStart) : sesOnframe s = onStart s := by
  simp only [sesOnframe]
  rw [if_neg (by rw [h]; decide), if_neg (by rw [h]; decide), if_pos h]

/-- A START leaves the buffer alone. -/
theorem keepsRx_start (h : s.rd (frmbuf + 1) = ftStart) : KeepsRx s := by
  intro a ha
  rw [sesOnframe_start h]
  refine (within_onStart s).rd a fun hs => ?_
  simp only [RxCell, rxWr, rxRd, rxacc] at ha
  simp only [StartCell, NameCell, InputCell, RingCell, WmCell, CrcCell, nameTbl, seatRing, seatWm,
    ownCrc, netSeat, netCount, rngLo, rngHi, netDelay, tickLo, tickHi, netActive] at hs
  omega

end bytes

end IntvNetplay.Console
