import Mathlib.Algebra.Group.Nat.Defs
import Mathlib.Data.List.Basic
import Mathlib.Data.Nat.Notation
import Mathlib.Order.Nat
import Mathlib.Tactic.SplitIfs

/-!
# Addressed cells of fixed widths

A memory is a function from addresses to values, together with the width of the cell at every
address; a value never exceeds its cell, and storing truncates.  `Cells bits` carries the bound as
a field, so a value read back from a cell of `n` bits is below `2 ^ n` without a hypothesis on how
the memory came about.

* `set` stores one value, `setAll` a run of values at consecutive addresses;
* `get_setAll` reads a run back in one step, so a copy or fill loop is never unrolled.
-/

namespace IntvNetplay.Machine

/-- A memory whose cell at `a` has `bits a` bits. -/
structure Cells (bits : ℕ → ℕ) where
  get : ℕ → ℕ
  lt : ∀ a, get a < 2 ^ bits a

namespace Cells

variable {bits : ℕ → ℕ}

@[ext]
theorem ext {m m' : Cells bits} (h : ∀ a, m.get a = m'.get a) : m = m' := by
  obtain ⟨f, hf⟩ := m
  obtain ⟨g, hg⟩ := m'
  have : f = g := funext h
  subst this
  rfl

/-- Store `v` at `a`, truncated to the cell. -/
def set (m : Cells bits) (a v : ℕ) : Cells bits where
  get x := if x = a then v % 2 ^ bits a else m.get x
  lt x := by
    by_cases h : x = a
    · subst h; simpa using Nat.mod_lt _ (Nat.two_pow_pos _)
    · simpa [h] using m.lt x

theorem get_set (m : Cells bits) (a v x : ℕ) :
    (m.set a v).get x = if x = a then v % 2 ^ bits a else m.get x := rfl

/-- Store a run of values at `a`, `a + 1`, … -/
def setAll (m : Cells bits) (a : ℕ) : List ℕ → Cells bits
  | [] => m
  | v :: vs => (m.set a v).setAll (a + 1) vs

theorem get_setAll (m : Cells bits) (a : ℕ) (vs : List ℕ) (x : ℕ) :
    (m.setAll a vs).get x =
      if a ≤ x ∧ x < a + vs.length then vs.getD (x - a) 0 % 2 ^ bits x else m.get x := by
  induction vs generalizing m a with
  | nil =>
    rw [setAll, List.length_nil, if_neg (by omega)]
  | cons v vs ih =>
    rw [setAll, ih, get_set]
    by_cases hx : x = a
    · subst hx
      rw [if_neg (by omega), if_pos rfl, if_pos (by simp)]
      simp
    · by_cases hr : a + 1 ≤ x ∧ x < a + 1 + vs.length
      · have hr' : a ≤ x ∧ x < a + (v :: vs).length := by
          simp only [List.length_cons]; omega
        have hs : x - a = (x - (a + 1)) + 1 := by omega
        rw [if_pos hr, if_pos hr', hs, List.getD_cons_succ]
      · have hr' : ¬ (a ≤ x ∧ x < a + (v :: vs).length) := by
          simp only [List.length_cons]; omega
        rw [if_neg hr, if_neg hr', if_neg hx]

theorem get_setAll_of_not (m : Cells bits) {a x : ℕ} {vs : List ℕ}
    (h : x < a ∨ a + vs.length ≤ x) : (m.setAll a vs).get x = m.get x := by
  rw [get_setAll, if_neg (by omega)]

theorem get_setAll_replicate (m : Cells bits) (a n v x : ℕ) :
    (m.setAll a (List.replicate n v)).get x =
      if a ≤ x ∧ x < a + n then v % 2 ^ bits x else m.get x := by
  rw [get_setAll, List.length_replicate]
  by_cases h : a ≤ x ∧ x < a + n
  · have hi : x - a < n := by omega
    simp [h, hi]
  · simp [h]

end Cells

end IntvNetplay.Machine
