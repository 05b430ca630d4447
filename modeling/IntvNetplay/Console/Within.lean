import IntvNetplay.Console.Cpu
import Mathlib.Data.List.Infix

/-!
# Footprints

`Within P s t`: the console state `t` comes from `s` by stores to cells of `P` only, the log, the
marks and the sent bytes being free; the log only grows.  A routine's footprint lemma is a chain of these, one
link for each store; reading a cell outside the footprint of a routine gives what it held before
(`Within.rd`).
-/

namespace IntvNetplay.Console

open IntvNetplay.Machine

structure Within (P : ℕ → Prop) (s t : Cpu) : Prop where
  rd : ∀ x, ¬ P x → t.rd x = s.rd x
  rom : t.rom = s.rom
  stores : ∃ new, t.stores = new ++ s.stores ∧ ∀ a ∈ new, P a
  grows : s.log <:+ t.log

namespace Within

variable {P Q : ℕ → Prop} {s t u : Cpu}

theorem refl (s : Cpu) : Within P s s :=
  ⟨fun _ _ => rfl, rfl, ⟨[], rfl, by simp⟩, List.suffix_refl _⟩

theorem trans (h : Within P s t) (h' : Within P t u) : Within P s u := by
  obtain ⟨n, hn, hP⟩ := h.stores
  obtain ⟨n', hn', hP'⟩ := h'.stores
  refine ⟨fun x hx => (h'.rd x hx).trans (h.rd x hx), h'.rom.trans h.rom,
    ⟨n' ++ n, by rw [hn', hn, List.append_assoc], fun a ha => ?_⟩, h.grows.trans h'.grows⟩
  rcases List.mem_append.1 ha with ha | ha
  · exact hP' a ha
  · exact hP a ha

theorem mono (h : Within P s t) (hPQ : ∀ a, P a → Q a) : Within Q s t := by
  obtain ⟨n, hn, hP⟩ := h.stores
  exact ⟨fun x hx => h.rd x fun hp => hx (hPQ x hp), h.rom,
    ⟨n, hn, fun a ha => hPQ a (hP a ha)⟩, h.grows⟩

theorem st {a v : ℕ} (h : Within P s t) (ha : P a) : Within P s (t.st a v) := by
  refine h.trans ⟨fun x hx => ?_, rfl, ⟨[a], rfl, by simpa using ha⟩, List.suffix_refl _⟩
  rw [Cpu.rd_st, if_neg]
  rintro rfl
  exact hx ha

theorem stAll {a : ℕ} {vs : List ℕ} (h : Within P s t)
    (ha : ∀ x, a ≤ x → x < a + vs.length → P x) : Within P s (t.stAll a vs) := by
  refine h.trans ⟨fun x hx => ?_, rfl, ⟨List.range' a vs.length, rfl, fun x hx => ?_⟩,
    List.suffix_refl _⟩
  · refine Cpu.rd_stAll_of_not _ _ _ _ ?_
    by_contra hc
    exact hx (ha x (by omega) (by omega))
  · rw [List.mem_range'_1] at hx
    exact ha x hx.1 hx.2

theorem poke {a v : ℕ} (h : Within P s t) (ha : P a) : Within P s (t.poke a v) := by
  refine h.trans ⟨fun x hx => ?_, rfl, ⟨[], rfl, by simp⟩, List.suffix_refl _⟩
  rw [Cpu.rd_poke, if_neg]
  rintro rfl
  exact hx ha

theorem pokeAll {a : ℕ} {vs : List ℕ} (h : Within P s t)
    (ha : ∀ x, a ≤ x → x < a + vs.length → P x) : Within P s (t.pokeAll a vs) := by
  refine h.trans ⟨fun x hx => ?_, rfl, ⟨[], rfl, by simp⟩, List.suffix_refl _⟩
  refine Cpu.rd_pokeAll_of_not _ _ _ _ ?_
  by_contra hc
  exact hx (ha x (by omega) (by omega))

theorem emit {e : Ev} (h : Within P s t) : Within P s (t.emit e) :=
  ⟨h.rd, h.rom, h.stores, h.grows.trans (List.suffix_cons _ _)⟩

theorem newBase (h : Within P s t) : Within P s t.newBase := ⟨h.rd, h.rom, h.stores, h.grows⟩

theorem withTx {tx : List ℕ} (h : Within P s t) : Within P s { t with tx := tx } :=
  ⟨h.rd, h.rom, h.stores, h.grows⟩

theorem withMark {m : Mark} (h : Within P s t) : Within P s { t with mark := m } :=
  ⟨h.rd, h.rom, h.stores, h.grows⟩

theorem call {f : Mem → Mem} (h : Within P s t) (hf : ∀ m x, ¬ P x → (f m).get x = m.get x) :
    Within P s (t.call f) :=
  ⟨fun x hx => (hf t.mem x hx).trans (h.rd x hx), h.rom, h.stores, h.grows⟩

theorem ite {c : Prop} [Decidable c] (ht : c → Within P s t) (hu : ¬ c → Within P s u) :
    Within P s (if c then t else u) := by
  split
  · exact ht ‹_›
  · exact hu ‹_›

theorem foldl {α : Type} {f : Cpu → α → Cpu} (hf : ∀ t x, Within P t (f t x)) (h : Within P s t)
    (l : List α) : Within P s (l.foldl f t) := by
  induction l generalizing t with
  | nil => exact h
  | cons x l ih => exact ih (h.trans (hf t x))

end Within

/-- `t` comes from `s` by stores to cells of `P` alone: nothing is sent, logged or counted. -/
structure Local (P : ℕ → Prop) (s t : Cpu) : Prop extends Within P s t where
  tx : t.tx = s.tx
  log : t.log = s.log
  mark : t.mark = s.mark

namespace Local

variable {P Q : ℕ → Prop} {s t u : Cpu}

theorem within (h : Local P s t) : Within P s t := h.toWithin

theorem refl (s : Cpu) : Local P s s := ⟨Within.refl s, rfl, rfl, rfl⟩

theorem trans (h : Local P s t) (h' : Local P t u) : Local P s u :=
  ⟨h.within.trans h'.within, h'.tx.trans h.tx, h'.log.trans h.log, h'.mark.trans h.mark⟩

theorem mono (h : Local P s t) (hPQ : ∀ a, P a → Q a) : Local Q s t :=
  ⟨h.within.mono hPQ, h.tx, h.log, h.mark⟩

theorem st {a v : ℕ} (h : Local P s t) (ha : P a) : Local P s (t.st a v) :=
  ⟨h.within.st ha, h.tx, h.log, h.mark⟩

theorem stAll {a : ℕ} {v : List ℕ} (h : Local P s t)
    (ha : ∀ x, a ≤ x → x < a + v.length → P x) : Local P s (t.stAll a v) :=
  ⟨h.within.stAll ha, h.tx, h.log, h.mark⟩

theorem poke {a v : ℕ} (h : Local P s t) (ha : P a) : Local P s (t.poke a v) :=
  ⟨h.within.poke ha, h.tx, h.log, h.mark⟩

theorem pokeAll {a : ℕ} {vs : List ℕ} (h : Local P s t)
    (ha : ∀ x, a ≤ x → x < a + vs.length → P x) : Local P s (t.pokeAll a vs) :=
  ⟨h.within.pokeAll ha, h.tx, h.log, h.mark⟩

theorem call {f : Mem → Mem} (h : Local P s t) (hf : ∀ m x, ¬ P x → (f m).get x = m.get x) :
    Local P s (t.call f) :=
  ⟨h.within.call hf, h.tx, h.log, h.mark⟩

theorem ite {c : Prop} [Decidable c] (ht : c → Local P s t) (hu : ¬ c → Local P s u) :
    Local P s (if c then t else u) := by
  split
  · exact ht ‹_›
  · exact hu ‹_›

theorem foldl {α : Type} {f : Cpu → α → Cpu} (hf : ∀ t x, Local P t (f t x)) (h : Local P s t)
    (l : List α) : Local P s (l.foldl f t) := by
  induction l generalizing t with
  | nil => exact h
  | cons x l ih => exact ih (h.trans (hf t x))

end Local

end IntvNetplay.Console
