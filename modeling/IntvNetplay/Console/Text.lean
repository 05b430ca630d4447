import IntvNetplay.Console.Within

/-!
# BACKTAB text (`src/ui/text.asm`)

A character is written as the card word `(ascii - 32) << 3 | color`.  The routines store to the
BACKTAB from the given offset on and change nothing else but `UI_COLOR`; `UI_DISPLAY_NORMALIZE` also
writes the STIC display registers and the MOB shadow.
-/

namespace IntvNetplay.Console

open IntvNetplay.Machine

/-- The colours the source names that text is printed in. -/
@[simp] abbrev cBlack : ℕ := 0
@[simp] abbrev cYellow : ℕ := 6
@[simp] abbrev cWhite : ℕ := 7

/-- The character codes of a `STRING` directive. -/
def codes (str : String) : List ℕ := str.toList.map Char.toNat

/-- The card word of a character. -/
def card (color ch : ℕ) : ℕ := sub16 ch 32 * 8 % 65536 ^^^ color

/-- The card word of the marker `'>'`. -/
def cardMark : ℕ := (62 - 32) * 8 ||| cYellow

/-- `UI_CLS`. -/
def uiCls (s : Cpu) : Cpu := (s.st uiColor cWhite).stAll backtab (List.replicate 240 0)

/-- The characters of a field of `n` cells up to its NUL. -/
def field (s : Cpu) (ptr n : ℕ) : List ℕ := (s.rdAll ptr n).takeWhile (· ≠ 0)

/-- `UI_PRINT` and `UI_PRINTN` once the characters are fetched. -/
def uiPut (off : ℕ) (chars : List ℕ) (s : Cpu) : Cpu :=
  s.stAll (backtab + off) (chars.map (card (s.rd uiColor % 8)))

/-- `UI_PRINT` of a string in ROM. -/
def uiPrint (off : ℕ) (str : String) (s : Cpu) : Cpu := uiPut off (codes str) s

/-- `UI_PRINTN`: at most `n` characters of a field in RAM. -/
def uiPrintn (off ptr n : ℕ) (s : Cpu) : Cpu := uiPut off (field s ptr n) s

/-- The card word of a hexadecimal digit. -/
def cardHex (x : ℕ) : ℕ := ((if x < 10 then x else x + 7) + 16) * 8 ^^^ cYellow

/-- `UI_HEX2`. -/
def uiHex2 (x off : ℕ) (s : Cpu) : Cpu :=
  s.stAll (backtab + off) [cardHex (x / 16 % 16), cardHex (x % 16)]

/-- `UI_DISPLAY_NORMALIZE`. -/
def uiDisplayNormalize (s : Cpu) : Cpu :=
  let s := s.st 0x0032 (s.rd 0x500D)
  let s := s.st 0x0030 0
  let s := s.st 0x0031 0
  let s := s.stAll 0x0028 (List.replicate 5 0)
  s.stAll 0x0300 (List.replicate 0x18 0)

/-! ### Footprints -/

/-- The screen and the text colour. -/
def ScreenCell (a : ℕ) : Prop := backtab ≤ a ∧ a < backtab + 240 ∨ a = uiColor

instance : DecidablePred ScreenCell := fun a => by unfold ScreenCell; infer_instance

theorem field_length_le (s : Cpu) (ptr n : ℕ) : (field s ptr n).length ≤ n := by
  refine Nat.le_trans (List.takeWhile_prefix _).length_le (Nat.le_of_eq ?_)
  rw [Cpu.rdAll, List.length_map, List.length_range']

section footprint

variable {P : ℕ → Prop} {s t : Cpu}

theorem Local.uiPut {off : ℕ} {chars : List ℕ} (h : Local P s t)
    (hP : ∀ x, backtab + off ≤ x → x < backtab + off + chars.length → P x) :
    Local P s (uiPut off chars t) :=
  h.stAll fun x h1 h2 => hP x h1 (by rwa [List.length_map] at h2)

variable (hP : ∀ a, ScreenCell a → P a)
include hP

theorem Local.screen {a v : ℕ} (h : Local P s t) (ha : ScreenCell a) : Local P s (t.st a v) :=
  h.st (hP a ha)

theorem Local.screenAll {a : ℕ} {vs : List ℕ} (h : Local P s t) (ha : backtab ≤ a)
    (hn : a + vs.length ≤ backtab + 240) : Local P s (t.stAll a vs) :=
  h.stAll fun x h1 h2 => hP x (Or.inl ⟨by omega, by omega⟩)

theorem Local.uiCls (h : Local P s t) : Local P s (uiCls t) :=
  (h.screen hP (by decide)).screenAll hP (by decide) (by rw [List.length_replicate])

theorem Local.uiPrint {o : ℕ} {w : String} (h : Local P s t)
    (hn : o + (codes w).length ≤ 240) : Local P s (uiPrint o w t) :=
  h.uiPut fun x h1 h2 => hP x (Or.inl ⟨by omega, by omega⟩)

theorem Local.uiPrintn {o p n : ℕ} (h : Local P s t) (hn : o + n ≤ 240) :
    Local P s (uiPrintn o p n t) := by
  have hl := field_length_le t p n
  exact h.uiPut fun x h1 h2 => hP x (Or.inl ⟨by omega, by omega⟩)

end footprint

end IntvNetplay.Console
