import IntvNetplay.Relay.Invariant

/-!
# Frames out of chunks

What the C program makes of a chunk does not depend on the size of its buffer: what stays there is
always short of one frame.  So it is what the Python program makes of it with a buffer that grows.
-/

namespace IntvNetplay.Relay

/-- The bytes begin no frame that has arrived whole, and no bad one. -/
def Waits (b : List ℕ) : Prop :=
  ∀ len rest, b = len :: rest → 1 ≤ len ∧ len ≤ 200 ∧ rest.length < len

theorem waits_nil : Waits [] := fun _ _ h => by cases h

theorem Waits.length_le {b : List ℕ} (h : Waits b) : b.length ≤ 200 := by
  cases b with
  | nil => exact Nat.zero_le _
  | cons len rest =>
    have := h len rest rfl
    rw [List.length_cons]
    omega

section drains

variable {S : Setup} {ci : ℕ}

theorem drain_of_waits {b : List ℕ} (h : Waits b) (n : ℕ) (r : State) : drain S ci n r b = (r, b) := by
  cases n with
  | zero => rfl
  | succ n =>
    cases b with
    | nil => rfl
    | cons len rest =>
      obtain ⟨h1, h2, h3⟩ := h len rest rfl
      rw [drain, if_neg (by omega), if_pos h3]

/-- A round for each byte is enough. -/
theorem drain_fuel (n m : ℕ) {r : State} {b : List ℕ} (hn : b.length ≤ n) (hm : b.length ≤ m) :
    drain S ci n r b = drain S ci m r b := by
  induction n generalizing m r b with
  | zero =>
    obtain rfl := List.length_eq_zero_iff.1 (Nat.le_zero.1 hn)
    exact (drain_of_waits waits_nil m r).symm
  | succ n ih =>
    cases b with
    | nil => rw [drain_of_waits waits_nil, drain_of_waits waits_nil]
    | cons len rest =>
      obtain ⟨m, rfl⟩ : ∃ m', m = m' + 1 := ⟨m - 1, by rw [List.length_cons] at hm; omega⟩
      rw [List.length_cons] at hn hm
      rw [drain, drain]
      dsimp only
      have hlen : (rest.drop len).length ≤ rest.length := by
        rw [List.length_drop]
        omega
      rw [ih m (by omega) (by omega)]

variable (hS : S.Fit) (hre : S.rechecks = true)
include hS hre

/-- A whole frame is handled, and if its sender is still there it is served on. -/
theorem handled {r : State} (m : Msg) (h : Sound S ∅ ∅ r) (hl : r.Live ci)
    (hd : ((handle S ci m r).clients ci).dead = false) :
    Sound S ∅ ∅ (handle S ci m r) ∧ (handle S ci m r).Live ci := by
  have hk := handles_well hS m h hl (.inl hre)
  exact ⟨hk.1, Handled.keeps (fun _ => hl) hk hd⟩

theorem waits_drain (n : ℕ) {r : State} {b : List ℕ} (hn : b.length ≤ n) (h : Sound S ∅ ∅ r)
    (hl : r.Live ci) (hd : ((drain S ci n r b).1.clients ci).dead = false) :
    Waits (drain S ci n r b).2 := by
  induction n generalizing r b with
  | zero =>
    obtain rfl := List.length_eq_zero_iff.1 (Nat.le_zero.1 hn)
    exact waits_nil
  | succ n ih =>
    cases b with
    | nil => exact waits_nil
    | cons len rest =>
      rw [drain] at hd ⊢
      dsimp only at hd ⊢
      split_ifs at hd ⊢ with h1 h2 h3
      · rw [(after_drop hS.toOk h hl).2] at hd
        cases hd
      · intro len' rest' heq
        cases heq
        omega
      · rw [h3] at hd
        cases hd
      · obtain ⟨h', hl'⟩ := handled hS hre ⟨rest.headD 0, (rest.take len).tail⟩ h hl
          (Bool.not_eq_true _ ▸ h3)
        refine ih ?_ h' hl' hd
        rw [List.length_cons] at hn
        rw [List.length_drop]
        omega

/-- The frames of a stream may be drained in two parts. -/
theorem drain_append (n : ℕ) {r : State} {b : List ℕ} (c : List ℕ) (hn : b.length ≤ n)
    (h : Sound S ∅ ∅ r) (hl : r.Live ci) (m : ℕ) (hm : (b ++ c).length ≤ m) :
    (((drain S ci n r b).1.clients ci).dead = true →
      (drain S ci m r (b ++ c)).1 = (drain S ci n r b).1) ∧
    (((drain S ci n r b).1.clients ci).dead = false → ∀ k, (b ++ c).length ≤ k →
      drain S ci m r (b ++ c) = drain S ci k (drain S ci n r b).1 ((drain S ci n r b).2 ++ c)) := by
  have hlive : ∀ {P : Prop}, (r.clients ci).dead = true → P := fun hd => by
    rw [hl.2] at hd
    cases hd
  induction n generalizing r b m with
  | zero =>
    obtain rfl := List.length_eq_zero_iff.1 (Nat.le_zero.1 hn)
    exact ⟨hlive, fun _ k hk => drain_fuel m k hm hk⟩
  | succ n ih =>
    cases b with
    | nil => exact ⟨hlive, fun _ k hk => drain_fuel m k hm hk⟩
    | cons len rest =>
      rw [List.length_append, List.length_cons] at hm
      rw [List.length_cons] at hn
      obtain ⟨m, rfl⟩ : ∃ m', m = m' + 1 := ⟨m - 1, by omega⟩
      have hlong : drain S ci (m + 1) r (len :: rest ++ c) =
          if len < 1 ∨ 200 < len then (drop S r ci, len :: (rest ++ c))
          else if (rest ++ c).length < len then (r, len :: (rest ++ c))
          else
            let r := handle S ci ⟨(rest ++ c).headD 0, ((rest ++ c).take len).tail⟩ r
            if (r.clients ci).dead then (r, (rest ++ c).drop len)
            else drain S ci m r ((rest ++ c).drop len) := rfl
      rw [drain]
      dsimp only
      by_cases h1 : len < 1 ∨ 200 < len
      · rw [if_pos h1, hlong, if_pos h1]
        refine ⟨fun _ => rfl, fun hd => ?_⟩
        rw [(after_drop hS.toOk h hl).2] at hd
        cases hd
      by_cases h2 : rest.length < len
      · rw [if_neg h1, if_pos h2]
        refine ⟨hlive, fun _ k hk => drain_fuel _ k ?_ hk⟩
        rw [List.length_append, List.length_cons]
        exact hm
      have hhead : (rest ++ c).headD 0 = rest.headD 0 := by
        cases rest with
        | nil => simp at h2; omega
        | cons x rest => rfl
      have h2' : ¬ (rest ++ c).length < len := by
        rw [List.length_append]
        omega
      rw [hlong, if_neg h1, if_neg h1, if_neg h2, if_neg h2', hhead,
        List.take_append_of_le_length (by omega), List.drop_append_of_le_length (by omega)]
      dsimp only
      generalize hr' : handle S ci ⟨rest.headD 0, (rest.take len).tail⟩ r = r'
      cases hd : (r'.clients ci).dead with
      | true =>
        rw [if_pos rfl, if_pos rfl]
        refine ⟨fun _ => rfl, fun hd' => ?_⟩
        dsimp only at hd'
        rw [hd] at hd'
        cases hd'
      | false =>
        rw [if_neg Bool.false_ne_true, if_neg Bool.false_ne_true]
        obtain ⟨h', hl'⟩ := handled hS hre _ h hl (by rw [hr']; exact hd)
        rw [hr'] at h' hl'
        have hrest : (rest.drop len ++ c).length ≤ rest.length + c.length := by
          rw [List.length_append, List.length_drop]
          omega
        have hfuel : (rest.drop len).length ≤ n := by
          rw [List.length_drop]
          omega
        obtain ⟨hend, hon⟩ := ih hfuel h' hl' m (by omega) fun hx => by
          rw [hd] at hx
          cases hx
        refine ⟨hend, fun hx k hk => hon hx k ?_⟩
        rw [List.length_append, List.length_cons] at hk
        omega

/-- The buffer of 256 makes no difference. -/
theorem feedBuf_eq (n : ℕ) {r : State} {data b : List ℕ} (hn : data.length ≤ n) (hb : Waits b)
    (h : Sound S ∅ ∅ r) (hl : r.Live ci) :
    (feedBuf S ci n data r b).1 = (feedAll S ci data r b).1 ∧
      (((feedBuf S ci n data r b).1.clients ci).dead = false →
        (feedBuf S ci n data r b).2 = (feedAll S ci data r b).2) := by
  have hdone : data = [] → (r, b) = feedAll S ci data r b := by
    rintro rfl
    rw [feedAll, List.append_nil, drain_of_waits hb]
  induction n generalizing r data b with
  | zero =>
    rw [← hdone (List.length_eq_zero_iff.1 (Nat.le_zero.1 hn))]
    exact ⟨rfl, fun _ => rfl⟩
  | succ n ih =>
    rw [feedBuf]
    by_cases hdata : data = []
    · rw [if_pos hdata, ← hdone hdata]
      exact ⟨rfl, fun _ => rfl⟩
    have hlen := hb.length_le
    rw [if_neg hdata, if_neg (by omega)]
    dsimp only
    generalize hk : 256 - b.length = k
    generalize hx : drain S ci 256 r (b ++ data.take k) = x
    have hpart : (b ++ data.take k).length ≤ 256 := by
      rw [List.length_append, List.length_take]
      omega
    have hsplit : b ++ data.take k ++ data.drop k = b ++ data := by
      rw [List.append_assoc, List.take_append_drop]
    obtain ⟨hend, hon⟩ := drain_append hS hre 256 (data.drop k) hpart h hl (b ++ data).length
      (by rw [hsplit])
    rw [hsplit, hx] at hend hon
    cases hd : (x.1.clients ci).dead with
    | true =>
      rw [if_pos rfl]
      refine ⟨(hend hd).symm, fun hd' => ?_⟩
      rw [hd] at hd'
      cases hd'
    | false =>
      rw [if_neg Bool.false_ne_true]
      have hkeeps := keeps_drain hS ci 256 (b ++ data.take k) h hl (.inl hre)
      have hwaits := waits_drain hS hre 256 hpart h hl
      rw [hx] at hkeeps hwaits
      have hl' : x.1.Live ci := Handled.keeps (fun _ => hl) hkeeps hd
      have hrest : (data.drop k).length ≤ n := by
        rw [List.length_drop]
        omega
      have hwhole : feedAll S ci data r b = feedAll S ci (data.drop k) x.1 x.2 := by
        have hshort : (x.2 ++ data.drop k).length ≤ (b ++ data).length + (x.2 ++ data.drop k).length := by
          omega
        rw [feedAll, feedAll, hon hd _ (Nat.le_add_right _ (x.2 ++ data.drop k).length)]
        exact drain_fuel _ _ hshort (le_refl _)
      rw [hwhole]
      refine ih hrest (hwaits hd) hkeeps.1 hl' fun hnil => ?_
      rw [hnil, feedAll, List.append_nil, drain_of_waits (hwaits hd)]

end drains

end IntvNetplay.Relay
