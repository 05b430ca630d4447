import IntvNetplay.Machine.Word
import Mathlib.Data.Set.Function
import Mathlib.Order.Interval.Set.Defs

/-!
# Checksums as chains of bijections

A checksum that folds a step over the cells in order tells two memories apart that differ in one cell, as
long as every step is injective in the accumulator and in the cell.  The step of a rotate-add checksum is
(`rotate`, `bijOn_rotAdd`).
-/

namespace IntvNetplay.Machine

/-! ### Folds of injective steps -/

section chains

variable {α β γ : Type} {f : α → β → α} {S : Set α} {T : Set β}

/-- The step takes accumulators to accumulators and loses nothing of them. -/
structure Steps (f : α → β → α) (S : Set α) (T : Set β) : Prop where
  bij : ∀ v ∈ T, Set.BijOn (fun a => f a v) S S
  cell : ∀ a ∈ S, Set.InjOn (f a) T

theorem Steps.bijOn_foldl (h : Steps f S T) {l : List β} (hl : ∀ v ∈ l, v ∈ T) :
    Set.BijOn (fun a => l.foldl f a) S S := by
  induction l with
  | nil => exact Set.bijOn_id S
  | cons v l ih =>
    have hv := h.bij v (hl v List.mem_cons_self)
    exact (ih fun w hw => hl w (List.mem_cons_of_mem v hw)).comp hv

/-- Two memories that differ in one cell have different checksums. -/
theorem Steps.foldl_ne (h : Steps f S T) {l : List γ} (hnd : l.Nodup) {g g' : γ → β}
    (hg : ∀ x ∈ l, g x ∈ T) (hg' : ∀ x ∈ l, g' x ∈ T) {x : γ} (hx : x ∈ l) (hne : g x ≠ g' x)
    (hsame : ∀ y ∈ l, y ≠ x → g y = g' y) {a : α} (ha : a ∈ S) :
    (l.map g).foldl f a ≠ (l.map g').foldl f a := by
  obtain ⟨before, after, rfl⟩ := List.append_of_mem hx
  have hnot : x ∉ before ∧ x ∉ after := by
    rw [List.nodup_append, List.nodup_cons] at hnd
    exact ⟨fun hb => hnd.2.2 x hb x List.mem_cons_self rfl, hnd.2.1.1⟩
  have hmem : ∀ y, y ∈ before ∨ y ∈ after → y ∈ before ++ x :: after := by
    intro y hy
    rw [List.mem_append, List.mem_cons]
    tauto
  have heq : ∀ y, y ∈ before ∨ y ∈ after → g y = g' y := by
    intro y hy
    refine hsame y (hmem y hy) fun hyx => ?_
    rw [hyx] at hy
    exact hy.elim hnot.1 hnot.2
  have hbefore : before.map g = before.map g' := List.map_congr_left fun y hy => heq y (.inl hy)
  have hafter : after.map g = after.map g' := List.map_congr_left fun y hy => heq y (.inr hy)
  have hacc : (before.map g').foldl f a ∈ S := by
    refine (h.bijOn_foldl fun v hv => ?_).mapsTo ha
    obtain ⟨y, hy, rfl⟩ := List.mem_map.1 hv
    exact hg' y (hmem y (.inl hy))
  have hrest : Set.InjOn (fun b => (after.map g').foldl f b) S := by
    refine (h.bijOn_foldl fun v hv => ?_).injOn
    obtain ⟨y, hy, rfl⟩ := List.mem_map.1 hv
    exact hg' y (hmem y (.inr hy))
  rw [List.map_append, List.map_append, List.map_cons, List.map_cons, List.foldl_append,
    List.foldl_append, List.foldl_cons, List.foldl_cons, hbefore, hafter]
  intro hend
  have hx' : g x ∈ T ∧ g' x ∈ T := ⟨hg x hx, hg' x hx⟩
  have hstep := hrest ((h.bij _ hx'.1).mapsTo hacc) ((h.bij _ hx'.2).mapsTo hacc) hend
  exact hne (h.cell _ hacc hx'.1 hx'.2 hstep)

end chains

/-! ### Rotate and add -/

/-- `SLLC R, 1`: the register, and the bit that went to the carry. -/
def sllc (x : ℕ) : ℕ × ℕ := (x * 2 % 65536, x / 32768 % 2)

/-- `ADCR R`. -/
def adcr (x carry : ℕ) : ℕ := (x + carry) % 65536

/-- The 16-bit rotation `SLLC` and `ADCR` make together. -/
def rotate (x : ℕ) : ℕ := adcr (sllc x).1 (sllc x).2

theorem rotate_eq {x : ℕ} (hx : x < 65536) : rotate x = x * 2 % 65536 + x / 32768 := by
  have hcarry : x / 32768 % 2 = x / 32768 := Nat.mod_eq_of_lt (by omega)
  have hroom : x * 2 % 65536 + x / 32768 < 65536 := by omega
  simp only [rotate, adcr, sllc]
  rw [hcarry, Nat.mod_eq_of_lt hroom]

theorem rotate_halves {x : ℕ} (hx : x < 65536) : rotate x = x % 32768 * 2 + x / 32768 := by
  have hlow : x * 2 % 65536 = x % 32768 * 2 := by omega
  rw [rotate_eq hx, hlow]

theorem rotate_lt (x : ℕ) : rotate x < 65536 := Nat.mod_lt _ (by decide)

theorem rotate_inj {x y : ℕ} (hx : x < 65536) (hy : y < 65536) (h : rotate x = rotate y) : x = y := by
  rw [rotate_halves hx, rotate_halves hy] at h
  have hqx : x / 32768 < 2 := Nat.div_lt_of_lt_mul hx
  have hqy : y / 32768 < 2 := Nat.div_lt_of_lt_mul hy
  have hq : x / 32768 = y / 32768 := by
    generalize x / 32768 = q at h hqx
    generalize y / 32768 = q' at h hqy
    omega
  have hr : x % 32768 = y % 32768 := by
    rw [hq] at h
    exact Nat.mul_right_cancel (by decide) (Nat.add_right_cancel h)
  rw [← Nat.div_add_mod x 32768, ← Nat.div_add_mod y 32768, hq, hr]

/-- Rotating back. -/
theorem rotate_surj {y : ℕ} (hy : y < 65536) : ∃ x < 65536, rotate x = y := by
  refine ⟨y % 2 * 32768 + y / 2, by omega, ?_⟩
  rw [rotate_halves (by omega)]
  omega

/-- A step of a rotate-add checksum. -/
def addCell (acc v : ℕ) : ℕ := (rotate acc + v) % 65536

theorem addCell_lt (acc v : ℕ) : addCell acc v < 65536 := Nat.mod_lt _ (by decide)

theorem add_mod_cancel {x y v : ℕ} (hx : x < 65536) (hy : y < 65536)
    (h : (x + v) % 65536 = (y + v) % 65536) : x = y := by
  omega

theorem steps_addCell : Steps addCell (Set.Iio 65536) (Set.Iio 65536) where
  bij v hv := by
    rw [Set.mem_Iio] at hv
    refine ⟨fun a _ => addCell_lt a v, fun a ha b hb hab => ?_, fun c hc => ?_⟩
    · exact rotate_inj ha hb (add_mod_cancel (rotate_lt a) (rotate_lt b) hab)
    · rw [Set.mem_Iio] at hc
      obtain ⟨x, hx, hrot⟩ := rotate_surj (y := (c + 65536 - v) % 65536) (Nat.mod_lt _ (by decide))
      refine ⟨x, hx, ?_⟩
      simp only [addCell]
      rw [hrot]
      omega
  cell a _ v hv w hw hvw := by
    have hcomm : (v + rotate a) % 65536 = (w + rotate a) % 65536 := by
      rw [Nat.add_comm v, Nat.add_comm w]
      exact hvw
    exact add_mod_cancel hv hw hcomm

end IntvNetplay.Machine
