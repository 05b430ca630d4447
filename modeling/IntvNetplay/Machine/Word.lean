import Mathlib.Data.Nat.Notation
import Mathlib.Tactic.SplitIfs

/-!
# 16-bit words and serial numbers

The register arithmetic of a 16-bit machine on naturals below `2 ^ 16`: byte swap, wrapping
difference and the sign flag of a difference.  A counter of unbounded range that is kept modulo
`2 ^ 16` is a *serial number*; the sign of a wrapping difference of two serial numbers orders the
counters themselves as long as they are less than half the range apart (`minus_sub16_iff`).
-/

namespace IntvNetplay.Machine

/-- The 16-bit word with low byte `lo` and high byte `hi`. -/
def word (lo hi : ℕ) : ℕ := hi * 256 + lo

/-- The two bytes of a word, exchanged. -/
def swap (x : ℕ) : ℕ := x % 256 * 256 + x / 256 % 256

/-- The wrapping difference of two words. -/
def sub16 (x y : ℕ) : ℕ := (x + 65536 - y % 65536) % 65536

/-- The sign flag of a word. -/
def minus (x : ℕ) : Bool := decide (32768 ≤ x)

/-- The signed comparison `x < y` of two words. -/
def slt (x y : ℕ) : Bool := decide ((x + 32768) % 65536 < (y + 32768) % 65536)

/-- The serial number of a counter: what is left of it in 16 bits. -/
abbrev serial (n : ℕ) : ℕ := n % 65536

theorem word_lt {lo hi : ℕ} (hlo : lo < 256) (hhi : hi < 256) : word lo hi < 65536 := by
  unfold word; omega

theorem word_bytes (x : ℕ) : word (x % 256) (x / 256 % 256) = x % 65536 := by
  unfold word; omega

theorem word_mod_div (x : ℕ) : word (x % 256) (x / 256) = x := by
  unfold word; omega

theorem word_mod_256 {lo h : ℕ} (hlo : lo < 256) : word lo h % 256 = lo := by
  unfold word; omega

theorem word_inj {lo hi lo' hi' : ℕ} (h : lo < 256) (h' : lo' < 256)
    (e : word lo hi = word lo' hi') : lo = lo' ∧ hi = hi' := by
  unfold word at e; omega

theorem swap_mod_256 {x : ℕ} (hx : x < 65536) : swap x % 256 = x / 256 := by
  unfold swap; omega

/-- Words below `$8000` compare as naturals. -/
theorem slt_iff {x y : ℕ} (hx : x < 32768) (hy : y < 32768) : slt x y = true ↔ x < y := by
  unfold slt
  rw [decide_eq_true_eq]
  omega

/-- The wrapping difference of two serial numbers, the first counter being ahead. -/
theorem sub16_serial {x y : ℕ} (h : y ≤ x) (hd : x < y + 65536) :
    sub16 (serial x) (serial y) = x - y := by
  unfold sub16 serial; omega

/-- The sign of the wrapping difference orders counters less than half the range apart. -/
theorem minus_sub16_iff {x y : ℕ} (h₁ : x < y + 32768) (h₂ : y ≤ x + 32768) :
    minus (sub16 (serial x) (serial y)) = true ↔ x < y := by
  unfold minus sub16 serial
  rw [decide_eq_true_eq]
  omega

end IntvNetplay.Machine
