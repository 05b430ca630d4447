import IntvNetplay.Console.Start
import IntvNetplay.Machine.Window

/-!
# The slots of a seat

A seat's slot for a tick is a cell of its decoded page and one of its keypad page.  What a capture, an
accepted INPUT and a reset make of the slots and of the watermarks.
-/

namespace IntvNetplay.Console

open IntvNetplay.Machine

/-- Slot `r` of a seat: the decoded cell and the keypad cell. -/
def seatSlot (s : Cpu) (seat r : ℕ) : ℕ × ℕ :=
  (s.rd (seatRing + seat * 256 + r), s.rd (seatKp + seat * 256 + r))

/-- What `LS_RING_INIT` leaves in a slot. -/
def idleSlot : ℕ × ℕ := (0x40, 0)

section slots

variable {s t : Cpu} {seat r : ℕ}

theorem seatSlot_congr (h : ∀ x, RingCell x → t.rd x = s.rd x) (hs : seat < 4) (hr : r < 256) :
    seatSlot t seat r = seatSlot s seat r := by
  rw [seatSlot, h _ (ring_cell hs hr), h _ (kp_cell hs hr)]
  rfl

theorem seatSlot_within {P : ℕ → Prop} (h : Within P s t) (hP : ∀ x, RingCell x → ¬ P x)
    (hs : seat < 4) (hr : r < 256) : seatSlot t seat r = seatSlot s seat r :=
  seatSlot_congr (fun x hx => h.rd x (hP x hx)) hs hr

theorem ring_addr_eq {seat seat' r r' : ℕ} (hs : seat < 4) (hr : r < 256) (hs' : seat' < 4)
    (hr' : r' < 256) :
    (seatRing + seat * 256 + r = seatRing + seat' * 256 + r' ↔ seat = seat' ∧ r = r') ∧
      seatRing + seat * 256 + r ≠ seatKp + seat' * 256 + r' ∧
      (seatKp + seat * 256 + r = seatKp + seat' * 256 + r' ↔ seat = seat' ∧ r = r') ∧
      seatKp + seat * 256 + r ≠ seatRing + seat' * 256 + r' := by
  simp only [seatRing, seatKp]
  omega

/-- Two stores, one in each page of a seat. -/
theorem seatSlot_put {seat' r' v w : ℕ} (hv : v < 256) (hw : w < 256) (hs : seat < 4)
    (hr : r < 256) (hs' : seat' < 4) (hr' : r' < 256)
    (h : ∀ x, RingCell x → t.rd x =
      if x = seatKp + seat' * 256 + r' then w % 256
      else if x = seatRing + seat' * 256 + r' then v % 256 else s.rd x) :
    seatSlot t seat r = if seat = seat' ∧ r = r' then (v, w) else seatSlot s seat r := by
  obtain ⟨h1, h2, h3, h4⟩ := ring_addr_eq hs hr hs' hr'
  rw [seatSlot, h _ (ring_cell hs hr), h _ (kp_cell hs hr), if_neg h2, if_neg h4]
  by_cases hsame : seat = seat' ∧ r = r'
  · rw [if_pos (h1.2 hsame), if_pos (h3.2 hsame), if_pos hsame, Nat.mod_eq_of_lt hv,
      Nat.mod_eq_of_lt hw]
  · rw [if_neg fun h => hsame (h1.1 h), if_neg fun h => hsame (h3.1 h), if_neg hsame]
    rfl

/-- A capture fills the own slot of the due tick. -/
theorem seatSlot_lsCapture (hn : s.rd netSeat < 4) (hs : seat < 4) (hr : r < 256) :
    seatSlot (lsCapture s) seat r =
      if seat = s.rd netSeat ∧ r = dueTick s % 256 then (s.rd execInL, s.rd execKpL)
      else seatSlot s seat r := by
  refine seatSlot_put (s.rd_lt_256 (by decide)) (s.rd_lt_256 (by decide)) hs hr hn
    (Nat.mod_lt _ (by decide)) fun x hx => ?_
  rw [rd_lsCapture hn hx, Nat.mod_eq_of_lt (s.rd_lt_256 (by decide)),
    Nat.mod_eq_of_lt (s.rd_lt_256 (by decide))]
  rfl

theorem seatSlot_lsSend (hn : s.rd netSeat < 4) (hs : seat < 4) (hr : r < 256) :
    seatSlot (lsSend s) seat r =
      if seat = s.rd netSeat ∧ r = dueTick s % 256 then (s.rd execInL, s.rd execKpL)
      else seatSlot s seat r := by
  rw [← seatSlot_lsCapture hn hs hr]
  exact seatSlot_congr (fun x hx => rd_lsSend_ring hx) hs hr

/-! ### An accepted INPUT -/

/-- The pair that the INPUT frame in `FRMBUF` carries. -/
def framePair (s : Cpu) : ℕ × ℕ := (s.rd (frmbuf + 5), s.rd (frmbuf + 6))

variable (hf : s.rd (frmbuf + 2) < 4)
include hf

/-- An accepted INPUT as four stores. -/
theorem rd_takeInput (x : ℕ) : (takeInput s).rd x =
    if x = seatWm + 2 * s.rd (frmbuf + 2) + 1 then s.rd (frmbuf + 4)
    else if x = seatWm + 2 * s.rd (frmbuf + 2) then s.rd (frmbuf + 3)
    else if x = seatKp + s.rd (frmbuf + 2) * 256 + s.rd (frmbuf + 3) then s.rd (frmbuf + 6)
    else if x = seatRing + s.rd (frmbuf + 2) * 256 + s.rd (frmbuf + 3) then s.rd (frmbuf + 5)
    else s.rd x := by
  have h3 : s.rd (frmbuf + 3) < 256 := s.rd_lt_256 (by decide)
  have h4 : s.rd (frmbuf + 4) < 256 := s.rd_lt_256 (by decide)
  have h5 : s.rd (frmbuf + 5) < 256 := s.rd_lt_256 (by decide)
  have h6 : s.rd (frmbuf + 6) < 256 := s.rd_lt_256 (by decide)
  set seat := s.rd (frmbuf + 2) with hseat
  set slot := s.rd (frmbuf + 3) with hslot
  have hr := ring_cell hf h3
  have hk := kp_cell hf h3
  have hcell : ∀ a, RingCell a → cellBits a = 8 := fun a ha => by
    unfold RingCell at ha
    simp only [seatRing] at ha
    exact cellBits_cart (by omega) (by omega)
  have hwm : ∀ a, seatWm ≤ a → a < seatWm + 8 → cellBits a = 8 := fun a h1 h2 =>
    cellBits_cart (by simp only [seatWm] at h1; omega) (by simp only [seatWm] at h2; omega)
  have hne : ∀ i < 8, frmbuf + i ≠ seatRing + seat * 256 + slot ∧
      frmbuf + i ≠ seatKp + seat * 256 + slot ∧ frmbuf + i ≠ seatWm + 2 * seat := fun i hi => by
    simp only [frmbuf, seatRing, seatKp, seatWm]
    omega
  have hb : cellBits (seatWm + 2 * seat) = 8 := hwm _ (by omega) (by omega)
  have hb' : cellBits (seatWm + 2 * seat + 1) = 8 := hwm _ (by omega) (by omega)
  simp only [takeInput, ← hseat, ← hslot, ringAddr_lt hf h3, kpAddr_lt hf h3, Cpu.rd_emit,
    Cpu.rd_st, hcell _ hr, hcell _ hk, hb, hb', if_neg (hne 3 (by decide)).1,
    if_neg (hne 3 (by decide)).2.1, if_neg (hne 4 (by decide)).1, if_neg (hne 4 (by decide)).2.1,
    if_neg (hne 4 (by decide)).2.2, if_neg (hne 6 (by decide)).1,
    show (2 : ℕ) ^ 8 = 256 from rfl, Nat.mod_eq_of_lt h3, Nat.mod_eq_of_lt h4,
    Nat.mod_eq_of_lt h5, Nat.mod_eq_of_lt h6]

theorem seatSlot_takeInput (hs : seat < 4) (hr : r < 256) : seatSlot (takeInput s) seat r =
    if seat = s.rd (frmbuf + 2) ∧ r = s.rd (frmbuf + 3) then framePair s
    else seatSlot s seat r := by
  have h5 : s.rd (frmbuf + 5) < 256 := s.rd_lt_256 (by decide)
  have h6 : s.rd (frmbuf + 6) < 256 := s.rd_lt_256 (by decide)
  refine seatSlot_put h5 h6 hs hr hf (s.rd_lt_256 (by decide)) fun x hx => ?_
  have hne : x ≠ seatWm + 2 * s.rd (frmbuf + 2) ∧ x ≠ seatWm + 2 * s.rd (frmbuf + 2) + 1 := by
    unfold RingCell at hx
    simp only [seatRing, seatWm] at *
    omega
  rw [rd_takeInput hf, if_neg hne.2, if_neg hne.1, Nat.mod_eq_of_lt h5, Nat.mod_eq_of_lt h6]

/-- The watermark of the frame's seat becomes the frame's tick; the others stay. -/
theorem wm_takeInput (hs : seat < 4) : (takeInput s).wm seat =
    if seat = s.rd (frmbuf + 2) then frameTick s else s.wm seat := by
  have h3 : s.rd (frmbuf + 3) < 256 := s.rd_lt_256 (by decide)
  have hne : ∀ b, b < 2 → seatWm + 2 * seat + b ≠ seatRing + s.rd (frmbuf + 2) * 256 +
      s.rd (frmbuf + 3) ∧ seatWm + 2 * seat + b ≠ seatKp + s.rd (frmbuf + 2) * 256 +
        s.rd (frmbuf + 3) := fun b hb => by
    simp only [seatRing, seatKp, seatWm]
    omega
  have h0 := hne 0 (by decide)
  have h1 := hne 1 (by decide)
  rw [Nat.add_zero] at h0
  rw [Cpu.wm, Cpu.rd16, rd_takeInput hf, rd_takeInput hf, if_neg h0.1, if_neg h0.2, if_neg h1.1,
    if_neg h1.2]
  by_cases hseat : seat = s.rd (frmbuf + 2)
  · rw [← hseat, if_neg (by omega), if_pos rfl, if_pos rfl, if_pos rfl]
    rfl
  · rw [if_neg (by omega), if_neg (by omega), if_neg (by omega), if_neg (by omega), if_neg hseat]
    rfl

end slots

/-! ### Handling an INPUT -/

/-- An INPUT that is taken: logged, counted, stored. -/
def acceptInput (s : Cpu) : Cpu := takeInput (noteHeard (s.emit (inputEv s true)))

section input

variable {s : Cpu}

/-- An INPUT is dropped, or it is stored and moves the watermark. -/
theorem onInput_cases (s : Cpu) :
    (onInput s = s ∨ onInput s = s.emit (inputEv s false)) ∨
      s.rd (frmbuf + 2) ≠ s.rd netSeat ∧ s.rd (frmbuf + 2) < s.rd netCount ∧
        0 < inputDelta s ∧ inputDelta s < 32768 ∧ onInput s = acceptInput s := by
  simp only [onInput]
  split_ifs with h1 h2 h3 h4
  · exact Or.inl (Or.inl rfl)
  · exact Or.inl (Or.inl rfl)
  · exact Or.inl (Or.inl rfl)
  · exact Or.inl (Or.inr rfl)
  · simp only [minus, decide_eq_true_eq, not_or, not_le] at h4
    exact Or.inr ⟨h2, by omega, by omega, h4.1, rfl⟩

theorem log_takeInput (s : Cpu) :
    ∃ a a' w, (takeInput s).log = s.mark.stamp (.slot a a' w) :: s.log := ⟨_, _, _, rfl⟩

/-- Its log: the entry of the frame and that of its cells. -/
theorem log_acceptInput (s : Cpu) : ∃ m : Mark, ∃ a a' w, (acceptInput s).log =
    m.stamp (.slot a a' w) :: s.mark.stamp (inputEv s true) :: s.log :=
  ⟨_, log_takeInput (noteHeard (s.emit (inputEv s true)))⟩

theorem mark_acceptInput (s : Cpu) : (acceptInput s).mark = { s.mark with
    heard := Function.update s.mark.heard (s.rd (frmbuf + 2))
      (s.mark.heard (s.rd (frmbuf + 2)) + inputDelta s) } := rfl

theorem tx_acceptInput (s : Cpu) : (acceptInput s).tx = s.tx := rfl

section seat

variable (hf : s.rd (frmbuf + 2) < 4)
include hf

theorem within_acceptInput : Within InputCell s (acceptInput s) :=
  Within.trans (t := noteHeard (s.emit (inputEv s true))) (Within.refl s).emit.withMark
    (within_takeInput _ hf)

theorem seatSlot_acceptInput {seat r : ℕ} (hs : seat < 4) (hr : r < 256) :
    seatSlot (acceptInput s) seat r =
      if seat = s.rd (frmbuf + 2) ∧ r = frameTick s % 256 then framePair s
      else seatSlot s seat r := by
  have hlo : s.rd (frmbuf + 3) < 256 := s.rd_lt_256 (by decide)
  have h := seatSlot_takeInput (s := noteHeard (s.emit (inputEv s true))) hf hs hr
  rw [frameTick, Cpu.rd16, word_mod_256 hlo]
  exact h

theorem wm_acceptInput {seat : ℕ} (hs : seat < 4) : (acceptInput s).wm seat =
    if seat = s.rd (frmbuf + 2) then frameTick s else s.wm seat :=
  wm_takeInput (s := noteHeard (s.emit (inputEv s true))) hf hs

omit hf in
/-- The frame's tick, when the watermark is a serial number. -/
theorem frameTick_of_wm {n : ℕ} (h : s.wm (s.rd (frmbuf + 2)) = serial n) :
    frameTick s = serial (n + inputDelta s) := by
  have hlt : frameTick s < 65536 := word_lt (s.rd_lt_256 (by decide)) (s.rd_lt_256 (by decide))
  simp only [inputDelta, h, sub16, serial]
  omega

end seat

end input

end IntvNetplay.Console
