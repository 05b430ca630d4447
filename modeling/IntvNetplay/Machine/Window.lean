import Mathlib.Data.Nat.Notation
import Mathlib.Tactic.SplitIfs

/-!
# Windows on a circular table

A table of `n` slots holds the values of a counter at their residues.  `Window n read val lo hi`: for
every count from `lo` up to `hi`, its slot holds its value.  A store at a count that no count of the
window shares its slot with keeps the window, and may extend it at its upper end (`put`, `snoc`).
-/

namespace IntvNetplay.Machine

variable {α : Type} {n lo hi : ℕ} {read read' : ℕ → α} {val val' : ℕ → α}

/-- The slots of the counts from `lo` up to `hi` hold their values. -/
def Window (n : ℕ) (read val : ℕ → α) (lo hi : ℕ) : Prop :=
  ∀ x, lo ≤ x → x < hi → read (x % n) = val x

/-- Counts less than `n` apart have different slots. -/
theorem slot_ne {x y : ℕ} (h : x < y) (hn : y < x + n) : x % n ≠ y % n := by
  intro he
  have hd : n ∣ y - x := Nat.dvd_of_mod_eq_zero (Nat.sub_mod_eq_zero_of_mod_eq he.symm)
  have := Nat.le_of_dvd (by omega) hd
  omega

namespace Window

theorem empty (h : hi ≤ lo) : Window n read val lo hi := fun x h1 h2 => by omega

theorem mono (h : Window n read val lo hi) {lo' hi' : ℕ} (h1 : lo ≤ lo') (h2 : hi' ≤ hi) :
    Window n read val lo' hi' := fun x hx hx' => h x (by omega) (by omega)

theorem congr (h : Window n read val lo hi) (hn : 0 < n) (hr : ∀ r < n, read' r = read r)
    (hv : ∀ x, lo ≤ x → x < hi → val' x = val x) : Window n read' val' lo hi := fun x h1 h2 => by
  rw [hr _ (Nat.mod_lt _ hn), hv x h1 h2, h x h1 h2]

/-- A store next to a window, or in it, of the count's own value. -/
theorem put {y : ℕ} (h : Window n read val lo hi)
    (hr : ∀ r < n, read' r = if r = y % n then val y else read r)
    (hy : hi ≤ y + n) (hy' : y < lo + n) : Window n read' val lo hi := fun x h1 h2 => by
  rw [hr _ (Nat.mod_lt _ (by omega))]
  rcases Nat.lt_trichotomy x y with hx | rfl | hx
  · rw [if_neg (slot_ne hx (by omega)), h x h1 h2]
  · rw [if_pos rfl]
  · rw [if_neg (Ne.symm (slot_ne hx (by omega))), h x h1 h2]

/-- A store at the upper end extends the window. -/
theorem snoc (h : Window n read val lo hi)
    (hr : ∀ r < n, read' r = if r = hi % n then val hi else read r) (hn : hi < lo + n) :
    Window n read' val lo (hi + 1) := fun x h1 h2 => by
  rcases Nat.lt_or_ge x hi with hx | hx
  · exact h.put hr (by omega) hn x h1 hx
  · obtain rfl : x = hi := by omega
    rw [hr _ (Nat.mod_lt _ (by omega)), if_pos rfl]

/-- Two windows that meet make one. -/
theorem append {mid : ℕ} (h : Window n read val lo mid) (h' : Window n read val mid hi) :
    Window n read val lo hi := fun x h1 h2 =>
  (Nat.lt_or_ge x mid).elim (h x h1) fun hx => h' x hx h2

end Window

end IntvNetplay.Machine
