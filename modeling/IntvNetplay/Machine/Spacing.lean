import Mathlib.Data.List.Basic

/-!
# Logs with gaps

A log lists its events with the newest in front.  `Spaced p q` says that between any two events of kind
`p` there is one of kind `q`; a log that is `Rested` can take another `p` (`Spaced.cons`).
-/

namespace IntvNetplay.Machine

variable {α : Type} {p q : α → Prop} {log : List α} {e : α}

/-- Since the last `p` there has been a `q`. -/
def Rested (p q : α → Prop) (log : List α) : Prop :=
  ∀ l a l', log = l ++ a :: l' → p a → ∃ b ∈ l, q b

/-- Between any two `p` there is a `q`. -/
def Spaced (p q : α → Prop) (log : List α) : Prop :=
  ∀ l a l' b l'', log = l ++ a :: (l' ++ b :: l'') → p a → p b → ∃ c ∈ l', q c

theorem rested_nil : Rested p q [] := by
  intro l a l' h
  cases l <;> cases h

theorem spaced_nil : Spaced p q [] := by
  intro l a l' b l'' h
  cases l <;> cases h

/-- An event that is no `p` keeps what there is. -/
theorem Rested.cons (h : Rested p q log) (he : ¬ p e) : Rested p q (e :: log) := by
  intro l a l' hl ha
  rcases List.cons_eq_append_iff.1 hl with ⟨rfl, hl'⟩ | ⟨l₀, rfl, hlog⟩
  · rw [List.cons.injEq] at hl'
    exact absurd (hl'.1 ▸ ha) he
  · obtain ⟨b, hb, hq⟩ := h l₀ a l' hlog ha
    exact ⟨b, List.mem_cons_of_mem _ hb, hq⟩

theorem rested_of_gap (he : q e) (hp : ¬ p e) : Rested p q (e :: log) := by
  intro l a l' hl ha
  rcases List.cons_eq_append_iff.1 hl with ⟨rfl, hl'⟩ | ⟨l₀, rfl, -⟩
  · rw [List.cons.injEq] at hl'
    exact absurd (hl'.1 ▸ ha) hp
  · exact ⟨e, List.mem_cons_self .., he⟩

/-- The log can take an event as long as it is no `p` or there has been a `q` since the last one. -/
theorem Spaced.cons (h : Spaced p q log) (he : p e → Rested p q log) : Spaced p q (e :: log) := by
  intro l a l' b l'' hl ha hb
  rcases List.cons_eq_append_iff.1 hl with ⟨rfl, hl'⟩ | ⟨l₀, rfl, hlog⟩
  · rw [List.cons.injEq] at hl'
    obtain ⟨rfl, rfl⟩ := hl'
    exact he ha l' b l'' rfl hb
  · exact h l₀ a l' b l'' hlog ha hb

/-- A log that could take a `p` could do so before an event that is no `q`. -/
theorem Rested.of_cons (h : Rested p q (e :: log)) (he : ¬ q e) : Rested p q log := by
  intro l a l' hl ha
  obtain ⟨b, hb, hq⟩ := h (e :: l) a l' (congrArg (e :: ·) hl) ha
  rcases List.mem_cons.1 hb with rfl | hb
  · exact absurd hq he
  · exact ⟨b, hb, hq⟩

/-- A `p` that a log has taken found it rested. -/
theorem Spaced.rested (h : Spaced p q (e :: log)) (he : p e) : Rested p q log := by
  intro l a l' hl ha
  exact h [] e l a l' (congrArg (e :: ·) hl) he ha

theorem not_rested_of_head (he : p e) : ¬ Rested p q (e :: log) := by
  intro h
  obtain ⟨b, hb, -⟩ := h [] e log rfl he
  exact List.not_mem_nil hb

end IntvNetplay.Machine
