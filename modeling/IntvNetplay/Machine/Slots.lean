import Mathlib.Data.Finmap
import Mathlib.Data.Nat.Notation

/-!
# Dictionaries kept in flagged slots

A fixed array of slots, each with a flag that says whether it is in use, keeps a dictionary: the keys
and values of the slots in use (`dict`).  As long as no two slots in use share a key (`Sole`),

* storing to the slot of a key, or to a free slot for a key that has none, is `Finmap.insert`;
* clearing the flag of a slot is `Finmap.erase`;
* the number of slots in use is the number of keys, so there is a free slot as long as there are fewer
  keys than slots;
* a scan for the lowest key in use finds the least key.
-/

namespace IntvNetplay.Machine

variable {α κ ν : Type}

/-- What a slot says. -/
structure Flagged (α κ ν : Type) where
  used : α → Bool
  key : α → κ
  val : α → ν

namespace Flagged

variable (F : Flagged α κ ν) (l : List α)

/-- The first free slot. -/
def free : Option ℕ := l.findIdx? fun a => !F.used a

/-- How many slots are in use. -/
def size : ℕ := l.countP F.used

/-- No two slots in use share a key. -/
def Sole : Prop := l.Pairwise fun a b => F.used a = true → F.used b = true → F.key a ≠ F.key b

section basics

variable {F l} {i j : ℕ} {a b : α}

theorem Sole.eq (h : F.Sole l) (hi : l[i]? = some a) (hj : l[j]? = some b) (ha : F.used a = true)
    (hb : F.used b = true) (hk : F.key a = F.key b) : i = j := by
  obtain ⟨hi', rfl⟩ := List.getElem?_eq_some_iff.mp hi
  obtain ⟨hj', rfl⟩ := List.getElem?_eq_some_iff.mp hj
  have hpair := List.pairwise_iff_getElem.mp h
  rcases Nat.lt_trichotomy i j with hlt | heq | hgt
  · exact absurd hk (hpair i j hi' hj' hlt ha hb)
  · exact heq
  · exact absurd hk.symm (hpair j i hj' hi' hgt hb ha)

theorem sole_of_eq (h : ∀ (i j : ℕ) (a b : α), l[i]? = some a → l[j]? = some b → F.used a = true →
    F.used b = true → F.key a = F.key b → i = j) : F.Sole l := by
  refine List.pairwise_iff_getElem.mpr fun i j hi hj hlt ha hb hk => ?_
  exact hlt.ne (h i j _ _ (List.getElem?_eq_getElem hi) (List.getElem?_eq_getElem hj) ha hb hk)

theorem free_eq_some (h : F.free l = some i) : ∃ a, l[i]? = some a ∧ F.used a = false := by
  obtain ⟨hi, ha, -⟩ := List.findIdx?_eq_some_iff_getElem.mp h
  exact ⟨l[i], List.getElem?_eq_getElem hi, by rwa [Bool.not_eq_true'] at ha⟩

/-- There is a free slot as long as fewer are in use than there are. -/
theorem free_ne_none (h : F.size l < l.length) : F.free l ≠ none := by
  intro hnone
  refine h.ne (List.countP_eq_length.mpr fun a ha => ?_)
  have hn := List.findIdx?_eq_none_iff.mp hnone a ha
  rwa [Bool.not_eq_false'] at hn

theorem getElem?_set_iff (hi : l[i]? = some a) {j : ℕ} {c : α} :
    (l.set i b)[j]? = some c ↔ j = i ∧ b = c ∨ j ≠ i ∧ l[j]? = some c := by
  obtain ⟨hlt, -⟩ := List.getElem?_eq_some_iff.mp hi
  rw [List.getElem?_set]
  by_cases h : i = j
  · subst h
    rw [if_pos rfl, if_pos hlt, Option.some.injEq]
    exact ⟨fun hc => .inl ⟨rfl, hc⟩, fun hc => hc.elim And.right fun hn => absurd rfl hn.1⟩
  · rw [if_neg h]
    exact ⟨fun hc => .inr ⟨Ne.symm h, hc⟩, fun hc => hc.elim (fun hn => absurd hn.1.symm h) And.right⟩

theorem modify_eq_set {f : α → α} (hi : l[i]? = some a) : l.modify i f = l.set i (f a) := by
  rw [List.modify_eq_set_getElem?, hi]
  rfl

/-- A slot keeps the keys apart if no other slot in use has its key. -/
theorem Sole.set (h : F.Sole l) (hi : l[i]? = some a)
    (hb : F.used b = true → ∀ (j : ℕ) (c : α), j ≠ i → l[j]? = some c → F.used c = true → F.key c ≠ F.key b) :
    F.Sole (l.set i b) := by
  refine sole_of_eq fun j m c d hj hm hc hd hk => ?_
  rcases (getElem?_set_iff hi).mp hj with ⟨rfl, rfl⟩ | ⟨hji, hj'⟩
  · rcases (getElem?_set_iff hi).mp hm with ⟨rfl, rfl⟩ | ⟨hmi, hm'⟩
    · rfl
    · exact absurd hk.symm (hb hc m d hmi hm' hd)
  · rcases (getElem?_set_iff hi).mp hm with ⟨rfl, rfl⟩ | ⟨hmi, hm'⟩
    · exact absurd hk (hb hd j c hji hj' hc)
    · exact h.eq hj' hm' hc hd hk

/-- Nothing but the slot `i` has the key `k`. -/
def Only (F : Flagged α κ ν) (l : List α) (i : ℕ) (k : κ) : Prop :=
  ∀ (j : ℕ) (c : α), l[j]? = some c → F.used c = true → F.key c = k → j = i

theorem only_of_used (h : F.Sole l) (hi : l[i]? = some a) (ha : F.used a = true) :
    F.Only l i (F.key a) := fun _ _ hj hc hk => h.eq hj hi hc ha hk

theorem sole_put (h : F.Sole l) (hi : l[i]? = some a) (honly : F.Only l i (F.key b)) :
    F.Sole (l.set i b) :=
  h.set hi fun _ j c hji hj hc hk => hji (honly j c hj hc hk)

theorem sole_clear (h : F.Sole l) (hi : l[i]? = some a) (hb : F.used b = false) :
    F.Sole (l.set i b) :=
  h.set hi fun hu => absurd (hb.symm.trans hu) Bool.false_ne_true

/-- The count after a store. -/
theorem size_set (hi : l[i]? = some a) :
    F.size (l.set i b) + (F.used a).toNat = F.size l + (F.used b).toNat := by
  obtain ⟨hlt, rfl⟩ := List.getElem?_eq_some_iff.mp hi
  have hpos : F.used l[i] = true → 0 < l.countP F.used := fun hu =>
    List.countP_pos_iff.mpr ⟨l[i], List.getElem_mem hlt, hu⟩
  rw [size, size, List.countP_set hlt]
  cases hu : F.used l[i] with
  | false => cases F.used b <;> simp
  | true =>
    have := hpos hu
    cases F.used b <;> simp <;> omega

end basics

/-! ### The dictionary -/

section dictionary

variable [DecidableEq κ]

/-- A slot in use for a key. -/
def holds (k : κ) (a : α) : Bool := F.used a && decide (F.key a = k)

/-- The first slot in use for a key. -/
def place (k : κ) : Option ℕ := l.findIdx? (F.holds k)

/-- What the slots keep. -/
def dict : Finmap fun _ : κ => ν :=
  ((l.filter F.used).map fun a => (⟨F.key a, F.val a⟩ : Σ _ : κ, ν)).toFinmap

variable {F l} {k : κ} {i : ℕ} {a b : α}

theorem holds_iff : F.holds k a = true ↔ F.used a = true ∧ F.key a = k := by
  rw [holds, Bool.and_eq_true, decide_eq_true_eq]

theorem lookup_dict : (F.dict l).lookup k = (l.find? (F.holds k)).map F.val := by
  rw [dict, Finmap.dlookup_list_toFinmap]
  induction l with
  | nil => rfl
  | cons a l ih =>
    rw [List.find?_cons, List.filter_cons]
    cases hu : F.used a with
    | false =>
      rw [if_neg Bool.false_ne_true, ih, holds, hu, Bool.false_and]
    | true =>
      rw [if_pos rfl, List.map_cons, holds, hu, Bool.true_and]
      by_cases hk : F.key a = k
      · subst hk
        rw [List.dlookup_cons_eq, decide_eq_true rfl]
        rfl
      · rw [List.dlookup_cons_ne _ _ (Ne.symm hk), ih, decide_eq_false hk]

/-- The slots in use for a key: at most one. -/
theorem filter_holds (h : F.Sole l) (k : κ) :
    (l.filter (F.holds k)).map F.val = ((F.dict l).lookup k).toList := by
  rw [lookup_dict]
  induction l with
  | nil => rfl
  | cons a l ih =>
    obtain ⟨ha, hl⟩ := List.pairwise_cons.mp h
    rw [List.filter_cons, List.find?_cons]
    cases hh : F.holds k a with
    | false =>
      rw [if_neg Bool.false_ne_true]
      exact ih hl
    | true =>
      obtain ⟨hu, hk⟩ := holds_iff.mp hh
      have hnil : l.filter (F.holds k) = [] := by
        refine List.filter_eq_nil_iff.mpr fun b hb hhb => ?_
        obtain ⟨hub, hkb⟩ := holds_iff.mp hhb
        exact ha b hb hu hub (hk.trans hkb.symm)
      rw [if_pos rfl, hnil]
      rfl

/-- What is kept for a key is what its slot says. -/
theorem lookup_eq_some (h : F.Sole l) {v : ν} : (F.dict l).lookup k = some v ↔
    ∃ (i : ℕ) (a : α), l[i]? = some a ∧ F.used a = true ∧ F.key a = k ∧ F.val a = v := by
  rw [lookup_dict, Option.map_eq_some_iff]
  constructor
  · rintro ⟨a, hfind, hv⟩
    obtain ⟨hu, hk⟩ := holds_iff.mp (List.find?_some hfind)
    obtain ⟨i, hi⟩ := List.getElem?_of_mem (List.mem_of_find?_eq_some hfind)
    exact ⟨i, a, hi, hu, hk, hv⟩
  · rintro ⟨i, a, hi, hu, hk, hv⟩
    cases hfind : l.find? (F.holds k) with
    | none =>
      exact absurd (holds_iff.mpr ⟨hu, hk⟩) (List.find?_eq_none.mp hfind a (List.mem_of_getElem? hi))
    | some b =>
      obtain ⟨hub, hkb⟩ := holds_iff.mp (List.find?_some hfind)
      obtain ⟨j, hj⟩ := List.getElem?_of_mem (List.mem_of_find?_eq_some hfind)
      obtain rfl := h.eq hi hj hu hub (hk.trans hkb.symm)
      exact ⟨b, rfl, by rw [← hv, Option.some.inj (hi.symm.trans hj)]⟩

theorem mem_dict (h : F.Sole l) :
    k ∈ F.dict l ↔ ∃ (i : ℕ) (a : α), l[i]? = some a ∧ F.used a = true ∧ F.key a = k := by
  rw [Finmap.mem_iff]
  constructor
  · rintro ⟨v, hv⟩
    obtain ⟨i, a, hi, hu, hk, -⟩ := (lookup_eq_some h).mp hv
    exact ⟨i, a, hi, hu, hk⟩
  · rintro ⟨i, a, hi, hu, hk⟩
    exact ⟨F.val a, (lookup_eq_some h).mpr ⟨i, a, hi, hu, hk, rfl⟩⟩

/-- The number of slots in use is the number of keys. -/
theorem card_dict (h : F.Sole l) : (F.dict l).keys.card = F.size l := by
  have hkeys : (F.dict l).keys = ((l.filter F.used).map F.key).toFinset := by
    ext k
    rw [Finmap.mem_keys, dict, Finmap.mem_list_toFinmap, List.mem_toFinset, List.mem_map]
    constructor
    · rintro ⟨v, hv⟩
      obtain ⟨a, ha, he⟩ := List.mem_map.mp hv
      exact ⟨a, ha, congrArg Sigma.fst he⟩
    · rintro ⟨a, ha, rfl⟩
      exact ⟨F.val a, List.mem_map.mpr ⟨a, ha, rfl⟩⟩
  have hnodup : ((l.filter F.used).map F.key).Nodup := by
    refine List.pairwise_map.mpr (List.pairwise_filter.mpr (List.Pairwise.imp ?_ h))
    intro a b hab ha hb
    exact hab ha hb
  rw [hkeys, List.toFinset_card_of_nodup hnodup, List.length_map, ← List.countP_eq_length_filter]
  rfl

theorem place_eq_some (h : F.place l k = some i) :
    ∃ a, l[i]? = some a ∧ F.used a = true ∧ F.key a = k := by
  obtain ⟨hi, ha, -⟩ := List.findIdx?_eq_some_iff_getElem.mp h
  exact ⟨l[i], List.getElem?_eq_getElem hi, holds_iff.mp ha⟩

theorem place_eq_none (hs : F.Sole l) : F.place l k = none ↔ k ∉ F.dict l := by
  rw [place, List.findIdx?_eq_none_iff, mem_dict hs]
  constructor
  · rintro h ⟨i, a, hi, ha⟩
    exact Bool.false_ne_true ((h a (List.mem_of_getElem? hi)).symm.trans (holds_iff.mpr ha))
  · intro h a ha
    obtain ⟨i, hi⟩ := List.getElem?_of_mem ha
    by_contra hne
    exact h ⟨i, a, hi, holds_iff.mp (Bool.not_eq_false _ ▸ hne)⟩

theorem only_of_not_mem (h : F.Sole l) (hk : k ∉ F.dict l) : F.Only l i k :=
  fun j c hj hc hkc => absurd ((mem_dict h).mpr ⟨j, c, hj, hc, hkc⟩) hk

/-- Storing to the slot of a key. -/
theorem dict_put (h : F.Sole l) (hi : l[i]? = some a) (ha : F.used a = true → F.key a = F.key b)
    (honly : F.Only l i (F.key b)) (hb : F.used b = true) :
    F.dict (l.set i b) = (F.dict l).insert (F.key b) (F.val b) := by
  have hs := sole_put h hi honly
  refine Finmap.ext_lookup fun x => Option.ext fun v => ?_
  by_cases hx : x = F.key b
  · subst hx
    rw [Finmap.lookup_insert, lookup_eq_some hs]
    constructor
    · rintro ⟨j, c, hj, hc, hk, hv⟩
      rcases (getElem?_set_iff hi).mp hj with ⟨rfl, rfl⟩ | ⟨hji, hj⟩
      · rw [hv]
      · exact absurd (honly j c hj hc hk) hji
    · intro hv
      exact ⟨i, b, (getElem?_set_iff hi).mpr (.inl ⟨rfl, rfl⟩), hb, rfl, Option.some.inj hv⟩
  · rw [Finmap.lookup_insert_of_ne _ hx, lookup_eq_some hs, lookup_eq_some h]
    constructor
    · rintro ⟨j, c, hj, hc, hk, hv⟩
      rcases (getElem?_set_iff hi).mp hj with ⟨rfl, rfl⟩ | ⟨-, hj⟩
      · exact absurd hk.symm hx
      · exact ⟨j, c, hj, hc, hk, hv⟩
    · rintro ⟨j, c, hj, hc, hk, hv⟩
      refine ⟨j, c, (getElem?_set_iff hi).mpr (.inr ⟨?_, hj⟩), hc, hk, hv⟩
      rintro rfl
      obtain rfl := Option.some.inj (hi.symm.trans hj)
      exact hx (hk.symm.trans (ha hc))

/-- Clearing the flag of a slot. -/
theorem dict_clear (h : F.Sole l) (hi : l[i]? = some a) (ha : F.used a = true)
    (hb : F.used b = false) : F.dict (l.set i b) = (F.dict l).erase (F.key a) := by
  have hs := sole_clear h hi hb
  refine Finmap.ext_lookup fun x => Option.ext fun v => ?_
  by_cases hx : x = F.key a
  · subst hx
    rw [Finmap.lookup_erase, lookup_eq_some hs]
    constructor
    · rintro ⟨j, c, hj, hc, hk, -⟩
      rcases (getElem?_set_iff hi).mp hj with ⟨rfl, rfl⟩ | ⟨hji, hj⟩
      · exact absurd (hb.symm.trans hc) Bool.false_ne_true
      · exact absurd (only_of_used h hi ha j c hj hc hk) hji
    · intro hv
      exact absurd hv (Option.some_ne_none v).symm
  · rw [Finmap.lookup_erase_ne hx, lookup_eq_some hs, lookup_eq_some h]
    constructor
    · rintro ⟨j, c, hj, hc, hk, hv⟩
      rcases (getElem?_set_iff hi).mp hj with ⟨rfl, rfl⟩ | ⟨-, hj⟩
      · exact absurd (hb.symm.trans hc) Bool.false_ne_true
      · exact ⟨j, c, hj, hc, hk, hv⟩
    · rintro ⟨j, c, hj, hc, hk, hv⟩
      refine ⟨j, c, (getElem?_set_iff hi).mpr (.inr ⟨?_, hj⟩), hc, hk, hv⟩
      rintro rfl
      obtain rfl := Option.some.inj (hi.symm.trans hj)
      exact hx hk.symm

end dictionary

/-! ### The lowest key -/

section lowest

variable {F : Flagged α ℕ ν} {l : List α}

/-- The scan for the lowest key in use: the slot numbers go up from `i`, `best` is the slot found so far
with its key. -/
def lowestFrom (F : Flagged α ℕ ν) : List α → ℕ → Option (ℕ × ℕ) → Option (ℕ × ℕ)
  | [], _, best => best
  | a :: l, i, best =>
    F.lowestFrom l (i + 1)
      (if F.used a && best.all (fun b => decide (F.key a < b.2)) then some (i, F.key a) else best)

/-- The slot in use with the lowest key. -/
def lowest (F : Flagged α ℕ ν) (l : List α) : Option ℕ := (F.lowestFrom l 0 none).map Prod.fst

/-- What the scan has found: the slot in use with the lowest key, if any is in use. -/
def Lowest (F : Flagged α ℕ ν) (l : List α) : Option ℕ → Prop
  | none => ∀ a ∈ l, F.used a = false
  | some i => ∃ a, l[i]? = some a ∧ F.used a = true ∧ ∀ b ∈ l, F.used b = true → F.key a ≤ F.key b

theorem lowestFrom_append (pre l : List α) {best : Option (ℕ × ℕ)}
    (hbest : F.Lowest pre (best.map Prod.fst))
    (hkey : ∀ b ∈ best, ∃ a, pre[b.1]? = some a ∧ b.2 = F.key a) :
    F.Lowest (pre ++ l) ((F.lowestFrom l pre.length best).map Prod.fst) := by
  induction l generalizing pre best with
  | nil => rwa [List.append_nil]
  | cons a l ih =>
    have hlast : (pre ++ [a])[pre.length]? = some a := by
      rw [List.getElem?_append_right (Nat.le_refl _), Nat.sub_self]
      rfl
    have hlen : (pre ++ [a]).length = pre.length + 1 := by
      rw [List.length_append]
      rfl
    have hmem : ∀ b ∈ pre ++ [a], b ∈ pre ∨ b = a := fun b hb =>
      (List.mem_append.mp hb).imp_right List.mem_singleton.mp
    have hearlier : ∀ {i : ℕ} {c : α}, pre[i]? = some c → (pre ++ [a])[i]? = some c := by
      intro i c hi
      obtain ⟨hlt, -⟩ := List.getElem?_eq_some_iff.mp hi
      rw [List.getElem?_append_left hlt, hi]
    rw [lowestFrom, List.append_cons, ← hlen]
    cases hu : F.used a with
    | false =>
      rw [Bool.false_and, if_neg Bool.false_ne_true]
      refine ih (pre ++ [a]) ?_ fun b hb => ?_
      · cases best with
        | none =>
          intro b hb
          rcases hmem b hb with h | rfl
          · exact hbest b h
          · exact hu
        | some p =>
          obtain ⟨c, hc, huc, hmin⟩ := hbest
          refine ⟨c, hearlier hc, huc, fun b hb hub => ?_⟩
          rcases hmem b hb with h | rfl
          · exact hmin b h hub
          · exact absurd (hu.symm.trans hub) Bool.false_ne_true
      · obtain ⟨c, hc, hk⟩ := hkey b hb
        exact ⟨c, hearlier hc, hk⟩
    | true =>
      rw [Bool.true_and]
      cases best with
      | none =>
        refine ih (pre ++ [a]) ⟨a, hlast, hu, fun b hb hub => ?_⟩ fun b hb => ?_
        · rcases hmem b hb with h | rfl
          · exact absurd ((hbest b h).symm.trans hub) Bool.false_ne_true
          · exact le_rfl
        · obtain rfl := Option.some.inj hb
          exact ⟨a, hlast, rfl⟩
      | some p =>
        obtain ⟨c, hc, huc, hmin⟩ := hbest
        obtain ⟨c', hc', hk⟩ := hkey p rfl
        obtain rfl := Option.some.inj (hc.symm.trans hc')
        rw [Option.all_some, hk]
        by_cases hlt : F.key a < F.key c
        · rw [decide_eq_true hlt, if_pos rfl]
          refine ih (pre ++ [a]) ⟨a, hlast, hu, fun b hb hub => ?_⟩ fun b hb => ?_
          · rcases hmem b hb with h | rfl
            · exact hlt.le.trans (hmin b h hub)
            · exact le_rfl
          · obtain rfl := Option.some.inj hb
            exact ⟨a, hlast, rfl⟩
        · rw [decide_eq_false hlt, if_neg Bool.false_ne_true]
          refine ih (pre ++ [a]) ⟨c, hearlier hc, huc, fun b hb hub => ?_⟩ fun b hb => ?_
          · rcases hmem b hb with h | rfl
            · exact hmin b h hub
            · exact Nat.le_of_not_lt hlt
          · obtain rfl := Option.some.inj hb
            exact ⟨c, hearlier hc, hk⟩

/-- The scan finds the lowest key in use. -/
theorem lowest_spec (F : Flagged α ℕ ν) (l : List α) : F.Lowest l (F.lowest l) :=
  lowestFrom_append [] l (fun _ h => absurd h List.not_mem_nil) fun _ h => absurd h (Option.not_mem_none _)

/-- Where a slot is in use the scan finds one, and its key is the least key of the dictionary. -/
theorem lowest_of_pos (hs : F.Sole l) (h : 0 < F.size l) : ∃ i a, F.lowest l = some i ∧
    l[i]? = some a ∧ F.used a = true ∧ ∀ k ∈ F.dict l, F.key a ≤ k := by
  have hspec := F.lowest_spec l
  cases hlow : F.lowest l with
  | none =>
    rw [hlow] at hspec
    obtain ⟨a, ha, hu⟩ := List.countP_pos_iff.mp h
    exact absurd ((hspec a ha).symm.trans hu) Bool.false_ne_true
  | some i =>
    rw [hlow] at hspec
    obtain ⟨a, hi, hu, hmin⟩ := hspec
    refine ⟨i, a, rfl, hi, hu, fun k hk => ?_⟩
    obtain ⟨j, c, hj, hc, rfl⟩ := (mem_dict hs).mp hk
    exact hmin c (List.mem_of_getElem? hj) hc

end lowest

end Flagged

end IntvNetplay.Machine
