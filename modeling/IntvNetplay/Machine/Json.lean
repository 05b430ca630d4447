import Mathlib.Data.Int.Notation
import Mathlib.Data.List.Basic
import Mathlib.Data.Nat.Notation
import Mathlib.Tactic.SplitIfs

/-!
# JSON texts

JSON values and the text of an encoder that writes printable ASCII only: one line, `", "` between items,
`": "` behind a key, and every other character escaped.  A text is a list of character codes.
-/

namespace IntvNetplay.Machine

/-- The character codes of a string. -/
def ascii (str : String) : List ℕ := str.toList.map Char.toNat

/-! ### Numbers -/

/-- The lowercase hexadecimal digit of a value below 16. -/
def hexDigit (d : ℕ) : ℕ := if d < 10 then 48 + d else 87 + d

/-- `%04x` of a value below `2 ^ 16`. -/
def hex4 (n : ℕ) : List ℕ :=
  [hexDigit (n / 4096 % 16), hexDigit (n / 256 % 16), hexDigit (n / 16 % 16), hexDigit (n % 16)]

/-- `%d`. -/
def decimal (z : ℤ) : List ℕ :=
  (if z < 0 then [45] else []) ++ (Nat.toDigits 10 z.natAbs).map Char.toNat

/-! ### Strings -/

/-- The escape of a 16-bit code. -/
def escapeCode (n : ℕ) : List ℕ := [92, 117] ++ hex4 n

/-- A character as the encoder writes it. -/
def escapeChar : ℕ → List ℕ
  | 34 => [92, 34]
  | 92 => [92, 92]
  | 8 => [92, 98]
  | 9 => [92, 116]
  | 10 => [92, 110]
  | 12 => [92, 102]
  | 13 => [92, 114]
  | c =>
    if 32 ≤ c ∧ c ≤ 126 then [c]
    else if c < 0x10000 then escapeCode c
    else
      -- A pair of surrogates.
      escapeCode (0xD800 + (c - 0x10000) / 0x400 % 0x400) ++ escapeCode (0xDC00 + (c - 0x10000) % 0x400)

/-- A string between its quotes. -/
def quoted (text : List ℕ) : List ℕ := 34 :: text.flatMap escapeChar ++ [34]

/-! ### Values -/

inductive Json where
  | str (text : List ℕ)
  | int (z : ℤ)
  | list (items : List Json)
  | dict (entries : List (List ℕ × Json))

mutual

/-- The text of a value. -/
def dumps : Json → List ℕ
  | .str text => quoted text
  | .int z => decimal z
  | .list items => 91 :: dumpsItems items ++ [93]
  | .dict entries => 123 :: dumpsEntries entries ++ [125]

def dumpsItems : List Json → List ℕ
  | [] => []
  | [v] => dumps v
  | v :: w :: items => dumps v ++ [44, 32] ++ dumpsItems (w :: items)

def dumpsEntries : List (List ℕ × Json) → List ℕ
  | [] => []
  | [e] => dumpsEntry e
  | e :: f :: entries => dumpsEntry e ++ [44, 32] ++ dumpsEntries (f :: entries)

def dumpsEntry : List ℕ × Json → List ℕ
  | (key, v) => quoted key ++ [58, 32] ++ dumps v

end

example : dumps (.dict [(ascii "a", .list [.int (-10), .str [9]]), (ascii "b", .int 0)]) =
    ascii "\x7b\"a\": [-10, \"\\t\"], \"b\": 0\x7d" := by decide

/-! ### The text is printable -/

/-- Printable ASCII. -/
def Printable (text : List ℕ) : Prop := ∀ c ∈ text, 32 ≤ c ∧ c ≤ 126

instance : DecidablePred Printable := fun l => by unfold Printable; infer_instance

section printable

variable {l l' : List ℕ}

theorem Printable.append (h : Printable l) (h' : Printable l') : Printable (l ++ l') :=
  List.forall_mem_append.2 ⟨h, h'⟩

theorem Printable.cons {c : ℕ} (hc : 32 ≤ c ∧ c ≤ 126) (h : Printable l) : Printable (c :: l) :=
  List.forall_mem_cons.2 ⟨hc, h⟩

theorem hexDigit_bounds {d : ℕ} (h : d < 16) : 32 ≤ hexDigit d ∧ hexDigit d ≤ 126 := by
  unfold hexDigit
  split_ifs <;> omega

theorem printable_escapeCode (n : ℕ) : Printable (escapeCode n) := by
  apply Printable.append (by decide)
  intro c hc
  simp only [hex4, List.mem_cons, List.not_mem_nil, or_false] at hc
  rcases hc with rfl | rfl | rfl | rfl
  all_goals
    apply hexDigit_bounds
    exact Nat.mod_lt _ (by decide)

theorem printable_escapeChar (c : ℕ) : Printable (escapeChar c) := by
  unfold escapeChar
  split
  iterate 7 decide
  split_ifs with h h'
  · exact Printable.cons h (by decide)
  · exact printable_escapeCode c
  · exact (printable_escapeCode _).append (printable_escapeCode _)

theorem printable_quoted (text : List ℕ) : Printable (quoted text) := by
  have hbody : Printable (text.flatMap escapeChar) := by
    intro c hc
    obtain ⟨a, -, ha⟩ := List.mem_flatMap.1 hc
    exact printable_escapeChar a c ha
  exact (Printable.cons (by decide) hbody).append (by decide)

theorem printable_decimal (z : ℤ) : Printable (decimal z) := by
  apply Printable.append
  · split_ifs <;> decide
  · intro c hc
    obtain ⟨d, hd, rfl⟩ := List.mem_map.1 hc
    have hdigit := Nat.isDigit_of_mem_toDigits (by decide) (by decide) hd
    simp only [Char.isDigit, Bool.and_eq_true, decide_eq_true_eq] at hdigit
    obtain ⟨h1, h2⟩ := hdigit
    have h1' : 48 ≤ d.toNat := h1
    have h2' : d.toNat ≤ 57 := h2
    omega

mutual

theorem printable_dumps : ∀ v : Json, Printable (dumps v)
  | .str text => printable_quoted text
  | .int z => printable_decimal z
  | .list items => (Printable.cons (by decide) (printable_dumpsItems items)).append (by decide)
  | .dict entries => (Printable.cons (by decide) (printable_dumpsEntries entries)).append (by decide)

theorem printable_dumpsItems : ∀ items : List Json, Printable (dumpsItems items)
  | [] => by decide
  | [v] => printable_dumps v
  | v :: w :: items =>
    ((printable_dumps v).append (by decide)).append (printable_dumpsItems (w :: items))

theorem printable_dumpsEntries : ∀ entries : List (List ℕ × Json), Printable (dumpsEntries entries)
  | [] => by decide
  | [e] => printable_dumpsEntry e
  | e :: f :: entries =>
    ((printable_dumpsEntry e).append (by decide)).append (printable_dumpsEntries (f :: entries))

theorem printable_dumpsEntry : ∀ e : List ℕ × Json, Printable (dumpsEntry e)
  | (key, v) => ((printable_quoted key).append (by decide)).append (printable_dumps v)

end

end printable

end IntvNetplay.Machine
