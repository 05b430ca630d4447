import Mathlib.Data.List.Induction
import Mathlib.Data.Nat.Notation
import Mathlib.Algebra.Order.Group.Nat
import Mathlib.Tactic.Push
import Mathlib.Tactic.SplitIfs

/-!
# Sessions over a pair of channels

A server opens and closes sessions of a client by messages in a channel; the client answers in a channel
of its own.  Every answer carries how many messages its sender had received by then.  `Fresh` is what
keeps the answers of one session out of the next.
-/

namespace IntvNetplay.Machine

section sessions

variable {α β : Type*} (opens closes : α → Bool)

/-- How many sessions the messages open. -/
def openings (l : List α) : ℕ := l.countP opens

/-- Is a session open after these messages? -/
def isOpen (l : List α) : Bool :=
  l.foldl (fun b m => if opens m then true else if closes m then false else b) false

variable {opens closes}

theorem openings_append (l l' : List α) :
    openings opens (l ++ l') = openings opens l + openings opens l' := List.countP_append

theorem openings_eq_zero {l : List α} : openings opens l = 0 ↔ ∀ m ∈ l, opens m = false := by
  rw [openings, List.countP_eq_zero]
  exact forall₂_congr fun m _ => Bool.not_eq_true _ ▸ Iff.rfl

/-- Only an opening opens. -/
theorem isOpen_append {l e : List α} (he : ∀ m ∈ e, opens m = false)
    (h : isOpen opens closes (l ++ e) = true) : isOpen opens closes l = true := by
  induction e using List.reverseRecOn with
  | nil => rwa [List.append_nil] at h
  | append_singleton e m ih =>
    refine ih (fun x hx => he x (List.mem_append_left _ hx)) ?_
    have hm := he m (List.mem_append_right _ (List.mem_singleton_self m))
    rw [← List.append_assoc, isOpen, List.foldl_append, List.foldl_cons, List.foldl_nil, hm,
      if_neg Bool.false_ne_true] at h
    split_ifs at h
    exact h

/-- After a point that has all the openings there are no more. -/
theorem no_opening {q : List α} {t t' : ℕ} (hle : t ≤ t')
    (heq : openings opens (q.take t) = openings opens q) :
    ∃ e, q.take t' = q.take t ++ e ∧ ∀ m ∈ e, opens m = false := by
  obtain ⟨k, rfl⟩ := Nat.exists_eq_add_of_le hle
  refine ⟨(q.drop t).take k, List.take_add, fun m hm => ?_⟩
  have hsplit : openings opens (q.take t) + openings opens (q.drop t) = openings opens q := by
    rw [← openings_append, List.take_append_drop]
  exact openings_eq_zero.1 (by omega) m (List.mem_of_mem_take hm)

variable (opens closes)

/-- A client that has been sent `q` and received `got` of it, with `up` on its way: `inside` says that
the server has it in a session, and `outside` that the server waits for it outside of one.  What it does
inside a session is `work`, and what it does outside is `ask`. -/
structure Fresh (work ask : β → Prop) (q : List α) (up : List (β × ℕ)) (got : ℕ)
    (inside outside : Prop) : Prop where
  ord : up.Pairwise fun a b => a.2 ≤ b.2
  le : ∀ e ∈ up, e.2 ≤ got
  got_le : got ≤ q.length
  work_open : ∀ e ∈ up, work e.1 → isOpen opens closes (q.take e.2) = true
  ask_closed : ∀ e ∈ up, ask e.1 → isOpen opens closes (q.take e.2) = false
  fresh : inside → ∀ t, (t ∈ up.map Prod.snd ∨ got ≤ t) → isOpen opens closes (q.take t) = true →
    openings opens (q.take t) = openings opens q
  idle : outside → ∀ t, (t ∈ up.map Prod.snd ∨ got ≤ t) → isOpen opens closes (q.take t) = false

namespace Fresh

variable {opens closes} {work ask : β → Prop} {q : List α} {up : List (β × ℕ)} {got : ℕ}
  {inside outside : Prop}

theorem init : Fresh opens closes work ask ([] : List α) [] 0 inside outside where
  ord := List.Pairwise.nil
  le e he := by cases he
  got_le := le_refl 0
  work_open e he := by cases he
  ask_closed e he := by cases he
  fresh _ t _ ht := by
    rw [List.take_nil] at ht
    cases ht
  idle _ t _ := by rw [List.take_nil]; rfl

theorem weaken (h : Fresh opens closes work ask q up got inside outside) {inside' outside' : Prop}
    (hi : inside' → inside) (ho : outside' → outside) :
    Fresh opens closes work ask q up got inside' outside' :=
  ⟨h.ord, h.le, h.got_le, h.work_open, h.ask_closed, fun hin => h.fresh (hi hin),
    fun hout => h.idle (ho hout)⟩

/-- The client sends. -/
theorem send (h : Fresh opens closes work ask q up got inside outside) {m : β}
    (hw : work m → isOpen opens closes (q.take got) = true)
    (ha : ask m → isOpen opens closes (q.take got) = false) :
    Fresh opens closes work ask q (up ++ [(m, got)]) got inside outside := by
  have hdue : ∀ t, (t ∈ (up ++ [(m, got)]).map Prod.snd ∨ got ≤ t) →
      t ∈ up.map Prod.snd ∨ got ≤ t := by
    intro t ht
    rw [List.map_append, List.mem_append] at ht
    obtain (ht | ht) | ht := ht
    · exact .inl ht
    · exact .inr (le_of_eq (List.mem_singleton.1 ht).symm)
    · exact .inr ht
  refine ⟨?_, fun e he => ?_, h.got_le, fun e he => ?_, fun e he => ?_,
    fun hin t ht => h.fresh hin t (hdue t ht), fun hout t ht => h.idle hout t (hdue t ht)⟩
  · rw [List.pairwise_append]
    refine ⟨h.ord, List.pairwise_singleton _ _, fun a ha b hb => ?_⟩
    rw [List.mem_singleton.1 hb]
    exact h.le a ha
  · obtain he | he := List.mem_append.1 he
    · exact h.le e he
    · exact le_of_eq (congrArg Prod.snd (List.mem_singleton.1 he))
  · obtain he | he := List.mem_append.1 he
    · exact h.work_open e he
    · rw [List.mem_singleton.1 he]
      exact hw
  · obtain he | he := List.mem_append.1 he
    · exact h.ask_closed e he
    · rw [List.mem_singleton.1 he]
      exact ha

/-- The client receives. -/
theorem receive (h : Fresh opens closes work ask q up got inside outside) (hlt : got < q.length) :
    Fresh opens closes work ask q up (got + 1) inside outside := by
  have hdue : ∀ t, (t ∈ up.map Prod.snd ∨ got + 1 ≤ t) → t ∈ up.map Prod.snd ∨ got ≤ t :=
    fun t ht => ht.imp id fun hle => by omega
  exact ⟨h.ord, fun e he => (h.le e he).trans (Nat.le_succ got), hlt, h.work_open, h.ask_closed,
    fun hin t ht => h.fresh hin t (hdue t ht), fun hout t ht => h.idle hout t (hdue t ht)⟩

/-- The server takes the next answer. -/
theorem tail {x : β × ℕ} (h : Fresh opens closes work ask q (x :: up) got inside outside) :
    Fresh opens closes work ask q up got inside outside := by
  have hdue : ∀ t, (t ∈ up.map Prod.snd ∨ got ≤ t) → t ∈ (x :: up).map Prod.snd ∨ got ≤ t :=
    fun t ht => ht.imp (List.mem_cons_of_mem _) id
  exact ⟨(List.pairwise_cons.1 h.ord).2, fun e he => h.le e (List.mem_cons_of_mem _ he), h.got_le,
    fun e he => h.work_open e (List.mem_cons_of_mem _ he),
    fun e he => h.ask_closed e (List.mem_cons_of_mem _ he),
    fun hin t ht => h.fresh hin t (hdue t ht), fun hout t ht => h.idle hout t (hdue t ht)⟩

/-- The client has asked knowing of every session so far: it is idle. -/
theorem asked {m : β} {t : ℕ} (h : Fresh opens closes work ask q ((m, t) :: up) got inside outside)
    (ha : ask m) (heq : openings opens (q.take t) = openings opens q) :
    Fresh opens closes work ask q up got inside True := by
  have htail := h.tail
  refine ⟨htail.ord, htail.le, htail.got_le, htail.work_open, htail.ask_closed, htail.fresh,
    fun _ t' ht' => ?_⟩
  have hle : t ≤ t' := by
    obtain ht' | ht' := ht'
    · obtain ⟨e, he, rfl⟩ := List.mem_map.1 ht'
      exact (List.pairwise_cons.1 h.ord).1 e he
    · exact (h.le _ List.mem_cons_self).trans ht'
  obtain ⟨e, he, hfree⟩ := no_opening hle heq
  rw [he]
  by_contra hopen
  rw [Bool.not_eq_false] at hopen
  have hclosed := h.ask_closed _ List.mem_cons_self ha
  rw [isOpen_append hfree hopen] at hclosed
  cases hclosed

/-- What an answer knew stays what it knew. -/
theorem take_sent (e : List α) {t : ℕ} (ht : t ≤ q.length) : (q ++ e).take t = q.take t :=
  List.take_append_of_le_length ht

/-- The server sends, and opens no session. -/
theorem more (h : Fresh opens closes work ask q up got inside outside) {e : List α}
    (he : ∀ m ∈ e, opens m = false) :
    Fresh opens closes work ask (q ++ e) up got inside outside := by
  have hlen : ∀ x ∈ up, x.2 ≤ q.length := fun x hx => (h.le x hx).trans h.got_le
  have hpart : ∀ t, (q ++ e).take t = q.take t ++ e.take (t - q.length) := fun t => List.take_append
  have hfree : ∀ t, ∀ m ∈ e.take (t - q.length), opens m = false := fun t m hm =>
    he m (List.mem_of_mem_take hm)
  refine ⟨h.ord, h.le, h.got_le.trans (by rw [List.length_append]; omega), fun x hx => ?_,
    fun x hx => ?_, fun hin t ht hopen => ?_, fun hout t ht => ?_⟩
  · rw [take_sent e (hlen x hx)]
    exact h.work_open x hx
  · rw [take_sent e (hlen x hx)]
    exact h.ask_closed x hx
  · rw [hpart] at hopen ⊢
    rw [openings_append, openings_append, openings_eq_zero.2 (hfree t), openings_eq_zero.2 he,
      h.fresh hin t ht (isOpen_append (hfree t) hopen)]
  · rw [hpart]
    by_contra hopen
    rw [Bool.not_eq_false] at hopen
    have hclosed := h.idle hout t ht
    rw [isOpen_append (hfree t) hopen] at hclosed
    cases hclosed

/-- The server sends to a client of which it expects nothing. -/
theorem grow (h : Fresh opens closes work ask q up got inside outside) (e : List α) :
    Fresh opens closes work ask (q ++ e) up got False False := by
  have hlen : ∀ x ∈ up, x.2 ≤ q.length := fun x hx => (h.le x hx).trans h.got_le
  refine ⟨h.ord, h.le, h.got_le.trans (by rw [List.length_append]; omega), fun x hx => ?_,
    fun x hx => ?_, fun hin => hin.elim, fun hout => hout.elim⟩
  · rw [take_sent e (hlen x hx)]
    exact h.work_open x hx
  · rw [take_sent e (hlen x hx)]
    exact h.ask_closed x hx

/-- The server opens a session of an idle client. -/
theorem opened (h : Fresh opens closes work ask q up got inside True) {m : α} {e : List α}
    (hm : opens m = true) (he : ∀ x ∈ e, opens x = false) :
    Fresh opens closes work ask (q ++ m :: e) up got True False := by
  have hlen : ∀ x ∈ up, x.2 ≤ q.length := fun x hx => (h.le x hx).trans h.got_le
  refine ⟨h.ord, h.le, h.got_le.trans (by rw [List.length_append]; omega), fun x hx => ?_,
    fun x hx => ?_, fun _ t ht hopen => ?_, fun hout => hout.elim⟩
  · rw [take_sent _ (hlen x hx)]
    exact h.work_open x hx
  · rw [take_sent _ (hlen x hx)]
    exact h.ask_closed x hx
  · have hidle := h.idle trivial t ht
    by_cases hle : t ≤ q.length
    · rw [take_sent _ hle, hidle] at hopen
      cases hopen
    · obtain ⟨k, hk⟩ : ∃ k, t - q.length = k + 1 := ⟨t - q.length - 1, by omega⟩
      have hcons : ∀ l : List α, openings opens (m :: l) = openings opens l + 1 := fun l =>
        List.countP_cons_of_pos hm
      rw [List.take_append, hk, List.take_succ_cons, List.take_of_length_le (by omega), openings_append,
        openings_append, hcons, hcons, openings_eq_zero.2 he,
        openings_eq_zero.2 fun x hx => he x (List.mem_of_mem_take hx)]

end Fresh

end sessions

end IntvNetplay.Machine
