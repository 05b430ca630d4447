import Mathlib.Data.List.Basic

/-!
# Scanners of byte streams

A scanner looks at the head of what has arrived and either waits or takes an item of at least one byte.
What it took stays taken when more arrives (`stays`), so it finds the same items in a stream however the
stream is cut (`scan_append`).
-/

namespace IntvNetplay.Machine

/-- `head` finds an item and how many bytes it takes; `none`: not enough has arrived. -/
structure Scanner (α β : Type) where
  head : List α → Option (β × ℕ)
  takes : ∀ {l b n}, head l = some (b, n) → 0 < n ∧ n ≤ l.length
  stays : ∀ {l b n} (m : List α), head l = some (b, n) → head (l ++ m) = some (b, n)

namespace Scanner

variable {α β : Type} (P : Scanner α β)

theorem drop_lt {l : List α} {b : β} {n : ℕ} (h : P.head l = some (b, n)) :
    (l.drop n).length < l.length := by
  have hn := P.takes h
  rw [List.length_drop]
  omega

/-- The items of a stream, and what is left of it. -/
def scan (l : List α) : List β × List α :=
  match _h : P.head l with
  | none => ([], l)
  | some (b, n) => (b :: (scan (l.drop n)).1, (scan (l.drop n)).2)
termination_by l.length
decreasing_by all_goals exact P.drop_lt _h

variable {P}

theorem scan_none {l : List α} (h : P.head l = none) : P.scan l = ([], l) := by
  rw [scan]
  split
  · rfl
  · rename_i heq
    rw [h] at heq
    cases heq

theorem scan_some {l : List α} {b : β} {n : ℕ} (h : P.head l = some (b, n)) :
    P.scan l = (b :: (P.scan (l.drop n)).1, (P.scan (l.drop n)).2) := by
  rw [scan]
  split
  · rename_i heq
    rw [h] at heq
    cases heq
  · rename_i heq
    rw [h] at heq
    cases heq
    rfl

/-- Nothing is found in what is left. -/
theorem head_rest (l : List α) : P.head (P.scan l).2 = none := by
  induction hl : l.length using Nat.strongRecOn generalizing l with
  | ind k ih =>
    cases h : P.head l with
    | none =>
      rw [scan_none h]
      exact h
    | some x =>
      obtain ⟨b, n⟩ := x
      rw [scan_some h]
      exact ih _ (hl ▸ P.drop_lt h) _ rfl

/-- The stream may be cut anywhere. -/
theorem scan_append (l m : List α) : P.scan (l ++ m) =
    ((P.scan l).1 ++ (P.scan ((P.scan l).2 ++ m)).1, (P.scan ((P.scan l).2 ++ m)).2) := by
  induction hl : l.length using Nat.strongRecOn generalizing l with
  | ind k ih =>
    cases h : P.head l with
    | none =>
      rw [scan_none h]
      rfl
    | some x =>
      obtain ⟨b, n⟩ := x
      have hdrop : (l ++ m).drop n = l.drop n ++ m := List.drop_append_of_le_length (P.takes h).2
      rw [scan_some (P.stays m h), hdrop, ih _ (hl ▸ P.drop_lt h) (l.drop n) rfl, scan_some h]
      rfl

end Scanner

end IntvNetplay.Machine
