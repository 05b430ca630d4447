import IntvNetplay.Relay.Drop
import Mathlib.Algebra.Order.BigOperators.Group.Finset

/-!
# Names and rooms

What `on_hello` does to the registry and what `on_join` does to the rooms, the branches that cannot be
reached among it: a table of 64 names and half as many rooms do for 64 clients.
-/

namespace IntvNetplay.Relay

/-! ### Names -/

section names

variable {S : Setup} {Z P : Set ℕ} {r : State} {ci : ℕ} {name : List ℕ}

theorem nameFind_eq_none : r.nameFind name = none ↔ ∀ e ∈ r.byName, e.1 ≠ name := by
  rw [State.nameFind, Option.map_eq_none_iff, List.find?_eq_none]
  simp

theorem mem_of_nameFind {c : ℕ} (h : r.nameFind name = some c) : (name, c) ∈ r.byName := by
  rw [State.nameFind, Option.map_eq_some_iff] at h
  obtain ⟨e, he, rfl⟩ := h
  have hname : e.1 = name := by simpa using List.find?_some he
  rw [← hname]
  exact List.mem_of_find?_eq_some he

theorem Sound.name_inj (h : Sound S Z P r) {e e' : List ℕ × ℕ} (he : e ∈ r.byName)
    (he' : e' ∈ r.byName) (heq : e.1 = e'.1) : e = e' :=
  List.inj_on_of_nodup_map h.names he he' heq

theorem Sound.owner_inj (h : Sound S Z P r) {e e' : List ℕ × ℕ} (he : e ∈ r.byName)
    (he' : e' ∈ r.byName) (heq : e.2 = e'.2) : e = e' :=
  List.inj_on_of_nodup_map h.owners he he' heq

theorem Sound.nameFind_of_mem (h : Sound S Z P r) {c : ℕ} (hm : (name, c) ∈ r.byName) :
    r.nameFind name = some c := by
  cases hf : r.nameFind name with
  | none => exact absurd rfl (nameFind_eq_none.1 hf _ hm)
  | some c' =>
    have := h.name_inj (mem_of_nameFind hf) hm rfl
    rw [(Prod.mk.inj this).2]

/-- The registry has room for one more client. -/
theorem Sound.length_others (h : Sound S Z P r) (hci : ci < maxClients) :
    (r.byName.filter fun e => e.2 != ci).length < maxClients := by
  have hnd : ((r.byName.filter fun e => e.2 != ci).map Prod.snd).Nodup :=
    h.owners.sublist (List.filter_sublist.map _)
  have hsub : ((r.byName.filter fun e => e.2 != ci).map Prod.snd).toFinset ⊆
      (Finset.range maxClients).erase ci := by
    intro c hc
    rw [List.mem_toFinset, List.mem_map] at hc
    obtain ⟨e, he, rfl⟩ := hc
    obtain ⟨hm, hne⟩ := List.mem_filter.1 he
    rw [Finset.mem_erase, Finset.mem_range]
    exact ⟨by simpa using hne, h.slots _ (h.entry e hm).1.1⟩
  have hcard := Finset.card_le_card hsub
  rw [List.toFinset_card_of_nodup hnd, List.length_map, Finset.card_erase_of_mem
    (Finset.mem_range.2 hci), Finset.card_range] at hcard
  have : 0 < maxClients := by decide
  omega

/-- Without its old name, the registry does not know a client. -/
theorem Sound.byName_unnamed (h : Sound S Z P r) (hl : r.Live ci) :
    (if (r.clients ci).name ≠ [] ∧ (r.clients ci).name ≠ name ∧
        r.nameFind (r.clients ci).name = some ci then r.nameDel (r.clients ci).name else r).byName =
      if (r.clients ci).name = name then r.byName else r.byName.filter fun e => e.2 != ci := by
  by_cases hsame : (r.clients ci).name = name
  · rw [if_pos hsame, if_neg]
    rintro ⟨-, hne, -⟩
    exact hne hsame
  · rw [if_neg hsame]
    by_cases hempty : (r.clients ci).name = []
    · rw [if_neg fun hc => hc.1 hempty]
      refine (List.filter_eq_self.2 fun e he => ?_).symm
      rw [bne_iff_ne]
      rintro rfl
      obtain ⟨-, hn, hne⟩ := h.entry e he
      exact hne (hn.symm.trans hempty)
    · have hmem := h.listed ci hl hempty
      rw [if_pos ⟨hempty, hsame, h.nameFind_of_mem hmem⟩]
      refine List.filter_congr fun e he => ?_
      have hiff : e.1 = (r.clients ci).name ↔ e.2 = ci := by
        constructor
        · intro heq
          exact congrArg Prod.snd (h.name_inj he hmem heq)
        · intro heq
          exact congrArg Prod.fst (h.owner_inj he hmem heq)
      rw [Bool.eq_iff_iff, bne_iff_ne, bne_iff_ne, Ne, Ne, hiff]

theorem clients_named (x : ℕ) : (rename S ci name r).clients x =
    if x = ci then { r.clients ci with name := name } else r.clients x := by
  have hdel : (if (r.clients ci).name ≠ [] ∧ (r.clients ci).name ≠ name ∧
      r.nameFind (r.clients ci).name = some ci then r.nameDel (r.clients ci).name
      else r).clients = r.clients := by
    split_ifs
    · rfl
    · rfl
  have hset : ∀ r' : State, (nameSet S name ci r').publish.clients = r'.clients := by
    intro r'
    rw [nameSet]
    split_ifs
    · rfl
    · rfl
    · rfl
  rw [rename, hset, State.clients_setClient, hdel]

theorem rooms_rename : (rename S ci name r).rooms = r.rooms := by
  have hset : ∀ r' : State, (nameSet S name ci r').publish.rooms = r'.rooms := by
    intro r'
    rw [nameSet]
    split_ifs
    · rfl
    · rfl
    · rfl
  rw [rename, hset]
  split_ifs
  · rfl
  · rfl

/-- The registry gives the name to the client, and nothing else changes. -/
theorem named_fields (h : Sound S Z P r) (hl : r.Live ci) (hname : name ≠ [])
    (hown : ∀ e ∈ r.byName, e.1 = name → e.2 = ci) :
    (rename S ci name r).rooms = r.rooms ∧ (rename S ci name r).nClients = r.nClients ∧
      (rename S ci name r).fault = r.fault ∧
        (rename S ci name r).byName = if (r.clients ci).name = name then r.byName
          else (r.byName.filter fun e => e.2 != ci) ++ [(name, ci)] := by
  have hbyName := @Sound.byName_unnamed S Z P r ci name h hl
  rw [rename]
  dsimp only
  generalize hr₁ : (if (r.clients ci).name ≠ [] ∧ (r.clients ci).name ≠ name ∧
    r.nameFind (r.clients ci).name = some ci then r.nameDel (r.clients ci).name else r) = r₁ at *
  have hsame : r₁.rooms = r.rooms ∧ r₁.nClients = r.nClients ∧ r₁.fault = r.fault := by
    rw [← hr₁]
    split_ifs
    · exact ⟨rfl, rfl, rfl⟩
    · exact ⟨rfl, rfl, rfl⟩
  obtain ⟨hrooms, hcount, hfault⟩ := hsame
  generalize hr₂ : r₁.setClient ci { r₁.clients ci with name := name } = r₂
  have hr₂' : r₂.rooms = r₁.rooms ∧ r₂.nClients = r₁.nClients ∧ r₂.fault = r₁.fault ∧
      r₂.byName = r₁.byName := by
    rw [← hr₂]
    exact ⟨rfl, rfl, rfl, rfl⟩
  obtain ⟨hrooms₂, hcount₂, hfault₂, hbyName₂⟩ := hr₂'
  rw [hrooms] at hrooms₂
  rw [hcount] at hcount₂
  rw [hfault] at hfault₂
  rw [hbyName] at hbyName₂
  by_cases hsame : (r.clients ci).name = name
  · rw [if_pos hsame] at hbyName₂ ⊢
    have hmem : (name, ci) ∈ r₂.byName := by
      have := h.listed ci hl (by rw [hsame]; exact hname)
      rw [hbyName₂]
      rwa [hsame] at this
    have hfound : (r₂.nameFind name).isSome := by
      cases hf : r₂.nameFind name with
      | none => exact absurd rfl (nameFind_eq_none.1 hf _ hmem)
      | some c => rfl
    rw [nameSet, if_pos hfound]
    refine ⟨hrooms₂, hcount₂, hfault₂, ?_⟩
    change r₂.byName.map _ = _
    rw [← hbyName₂]
    refine (List.map_congr_left fun e he => ?_).trans (List.map_id _)
    split_ifs with heq
    · rw [beq_iff_eq] at heq
      rw [hbyName₂] at he
      exact Prod.ext heq.symm (hown e he heq).symm
    · rfl
  · rw [if_neg hsame] at hbyName₂ ⊢
    have hnone : r₂.nameFind name = none := by
      refine nameFind_eq_none.2 fun e he heq => ?_
      rw [hbyName₂, List.mem_filter, bne_iff_ne] at he
      exact he.2 (hown e he.1 heq)
    have hfull := h.length_others (h.slots ci hl.1)
    rw [nameSet, if_neg (by rw [hnone]; decide), if_neg]
    · refine ⟨hrooms₂, hcount₂, hfault₂, ?_⟩
      change r₂.byName ++ _ = _
      rw [hbyName₂]
    · rw [hbyName₂, Bool.and_eq_true, decide_eq_true_eq]
      rintro ⟨-, hge⟩
      omega

/-- A client takes a name that nobody else has. -/
theorem sound_rename (h : Sound S Z P r) (hl : r.Live ci) (hok : nameOk name = true)
    (hown : ∀ e ∈ r.byName, e.1 = name → e.2 = ci) : Sound S Z P (rename S ci name r) := by
  have hname : name ≠ [] := by
    rintro rfl
    exact absurd hok (by decide)
  obtain ⟨hrooms, hcount, hfault, hbyName⟩ := named_fields h hl hname hown
  have hc : ∀ x, (rename S ci name r).clients x =
      if x = ci then { r.clients ci with name := name } else r.clients x := clients_named
  have hreg : ∀ x, ((rename S ci name r).clients x).inUse = (r.clients x).inUse ∧
      ((rename S ci name r).clients x).dead = (r.clients x).dead ∧
        ((rename S ci name r).clients x).room = (r.clients x).room := by
    intro x
    rw [hc]
    split_ifs with hx
    · rw [hx]
      exact ⟨rfl, rfl, rfl⟩
    · exact ⟨rfl, rfl, rfl⟩
  have hlive : ∀ x, (rename S ci name r).Live x ↔ r.Live x := by
    intro x
    rw [State.Live, State.Live, (hreg x).1, (hreg x).2.1]
  have hself : ((rename S ci name r).clients ci).name = name := by rw [hc, if_pos rfl]
  have hother : ∀ {x}, x ≠ ci → ((rename S ci name r).clients x).name = (r.clients x).name :=
    fun hx => by rw [hc, if_neg hx]
  have hmembers : ∀ ri, (rename S ci name r).members ri = r.members ri := fun ri => by
    rw [State.members, hrooms]
    rfl
  -- The entries of the others are what they were, and the client has one.
  have hmem : ∀ e, e ∈ (rename S ci name r).byName ↔
      e = (name, ci) ∨ e ∈ r.byName ∧ e.2 ≠ ci := by
    intro e
    rw [hbyName]
    split_ifs with hsame
    · have hin := h.listed ci hl (by rw [hsame]; exact hname)
      rw [hsame] at hin
      constructor
      · intro he
        by_cases heq : e.2 = ci
        · exact Or.inl (h.owner_inj he hin heq)
        · exact Or.inr ⟨he, heq⟩
      · rintro (rfl | ⟨he, -⟩)
        · exact hin
        · exact he
    · rw [List.mem_append, List.mem_filter, List.mem_singleton, bne_iff_ne, or_comm]
  constructor
  · rw [hbyName]
    split_ifs
    · exact h.names
    · rw [List.map_append, List.nodup_append]
      refine ⟨h.names.sublist (List.filter_sublist.map _), List.nodup_singleton _, ?_⟩
      rintro n hn m hm rfl
      obtain ⟨e, he, rfl⟩ := List.mem_map.1 hn
      rw [List.mem_filter, bne_iff_ne] at he
      exact he.2 (hown e he.1 (List.mem_singleton.1 hm))
  · rw [hbyName]
    split_ifs
    · exact h.owners
    · rw [List.map_append, List.nodup_append]
      refine ⟨h.owners.sublist (List.filter_sublist.map _), List.nodup_singleton _, ?_⟩
      rintro n hn m hm rfl
      obtain ⟨e, he, rfl⟩ := List.mem_map.1 hn
      rw [List.mem_filter, bne_iff_ne] at he
      exact he.2 (List.mem_singleton.1 hm)
  · intro e he
    rcases (hmem e).1 he with rfl | ⟨he, hne⟩
    · exact ⟨(hlive ci).2 hl, hself, hname⟩
    · obtain ⟨h1, h2, h3⟩ := h.entry e he
      exact ⟨(hlive _).2 h1, (hother hne).trans h2, h3⟩
  · intro c hcl hn
    by_cases hcc : c = ci
    · rw [hcc, hself]
      exact (hmem _).2 (Or.inl rfl)
    · rw [hother hcc] at hn ⊢
      exact (hmem _).2 (Or.inr ⟨h.listed c ((hlive c).1 hcl) hn, hcc⟩)
  · intro e he
    rcases (hmem e).1 he with rfl | ⟨he, -⟩
    · exact hok
    · exact h.proper e he
  · intro c ri hcl hcr
    rw [(hreg c).2.2] at hcr
    rw [hrooms, hmembers]
    exact h.room c ri ((hlive c).1 hcl) hcr
  · intro ri hu hz
    rw [hrooms] at hu
    rw [hmembers]
    obtain ⟨h2, hm, hnd, hall⟩ := h.seats ri hu hz
    refine ⟨h2, hm, hnd, fun m hmm => ?_⟩
    obtain ⟨k1, k2, k3⟩ := hall m hmm
    refine ⟨(hlive m).2 k1, (hreg m).2.2.trans k2, ?_⟩
    by_cases hmc : m = ci
    · rw [hmc, hself]
      exact hname
    · rw [hother hmc]
      exact k3
  · intro ri hu
    rw [hrooms] at hu
    rw [hmembers]
    exact h.unused ri hu
  · intro c hcu
    rw [(hreg c).1] at hcu
    exact h.slots c hcu
  · intro c hcu hcd
    rw [(hreg c).1] at hcu
    rw [(hreg c).2.1] at hcd
    exact h.dying c hcu hcd
  · rw [hcount, h.count]
    refine congrArg Finset.card (Finset.filter_congr fun c _ => ?_)
    rw [(hreg c).1]
  · rfl
  · rw [hfault]
    exact h.fault

end names

/-! ### Rooms -/

section rooms

variable {S : Setup} {Z P : Set ℕ} {r r' : State} {ci ri : ℕ}

/-- Clients without a room get into one. -/
theorem Sound.seat (h : Sound S Z P r) (ri : ℕ) (news : List ℕ) (st : Bool) (sd : ℕ)
    (hc : ∀ x, r'.clients x = if x ∈ news then { r.clients x with room := some ri } else r.clients x)
    (hr : ∀ rj, r'.rooms rj = if rj = ri then ⟨true, r.members ri ++ news, st, sd⟩ else r.rooms rj)
    (hsame : r'.byName = r.byName ∧ r'.nClients = r.nClients ∧ r'.published = r.published ∧
      r'.fault = r.fault)
    (hnew : ∀ c ∈ news, r.Live c ∧ (r.clients c).room = none ∧ (r.clients c).name ≠ [])
    (hnd : news.Nodup) (hz : ri ∉ Z)
    (hlen : 2 ≤ (r.members ri ++ news).length ∧ (r.members ri ++ news).length ≤ S.maxSeats) :
    Sound S Z P r' := by
  obtain ⟨hbyName, hcount, hpub, hfault⟩ := hsame
  have hreg : ∀ x, (r'.clients x).inUse = (r.clients x).inUse ∧
      (r'.clients x).dead = (r.clients x).dead ∧ (r'.clients x).name = (r.clients x).name := by
    intro x
    rw [hc]
    split_ifs with hx
    · exact ⟨rfl, rfl, rfl⟩
    · exact ⟨rfl, rfl, rfl⟩
  have hlive : ∀ x, r'.Live x ↔ r.Live x := by
    intro x
    rw [State.Live, State.Live, (hreg x).1, (hreg x).2.1]
  have hroom : ∀ {x}, x ∉ news → (r'.clients x).room = (r.clients x).room :=
    fun hx => by rw [hc, if_neg hx]
  have hmembers : ∀ rj, r'.members rj = if rj = ri then r.members ri ++ news else r.members rj := by
    intro rj
    rw [State.members, hr]
    split_ifs
    · rfl
    · rfl
  -- Who is in a room already is none of the newcomers.
  have hold : ∀ {rj m}, (r.rooms rj).used = true → rj ∉ Z → m ∈ r.members rj → m ∉ news := by
    intro rj m hu hzj hm hmn
    have h1 := ((h.seats rj hu hzj).2.2.2 m hm).2.1
    rw [(hnew m hmn).2.1] at h1
    cases h1
  constructor
  · rw [hbyName]
    exact h.names
  · rw [hbyName]
    exact h.owners
  · intro e he
    rw [hbyName] at he
    rw [hlive, (hreg _).2.2]
    exact h.entry e he
  · intro c hcl hn
    rw [(hreg c).2.2] at hn ⊢
    rw [hbyName]
    exact h.listed c ((hlive c).1 hcl) hn
  · rw [hbyName]
    exact h.proper
  · intro c rj hcl hcr
    by_cases hcn : c ∈ news
    · rw [hc, if_pos hcn] at hcr
      obtain rfl := Option.some.inj hcr
      rw [hr, if_pos rfl, hmembers, if_pos rfl]
      exact ⟨hz, rfl, List.mem_append_right _ hcn⟩
    · rw [hroom hcn] at hcr
      obtain ⟨h1, h2, h3⟩ := h.room c rj ((hlive c).1 hcl) hcr
      rw [hr, hmembers]
      split_ifs with hrj
      · rw [hrj] at h3
        exact ⟨h1, rfl, List.mem_append_left _ h3⟩
      · exact ⟨h1, h2, h3⟩
  · intro rj hu hzj
    rw [hmembers]
    rw [hr] at hu
    split_ifs with hrj
    · subst hrj
      have hmem : ∀ m ∈ r.members rj, r.Live m ∧ (r.clients m).room = some rj ∧
          (r.clients m).name ≠ [] ∧ m ∉ news := by
        intro m hm
        cases hus : (r.rooms rj).used with
        | false =>
          rw [h.unused rj hus] at hm
          cases hm
        | true =>
          obtain ⟨k1, k2, k3⟩ := (h.seats rj hus hzj).2.2.2 m hm
          exact ⟨k1, k2, k3, hold hus hzj hm⟩
      have hmnd : (r.members rj).Nodup := by
        cases hus : (r.rooms rj).used with
        | false =>
          rw [h.unused rj hus]
          exact List.nodup_nil
        | true => exact (h.seats rj hus hzj).2.2.1
      refine ⟨hlen.1, hlen.2, ?_, fun m hm => ?_⟩
      · rw [List.nodup_append]
        refine ⟨hmnd, hnd, ?_⟩
        rintro m hm c hcn rfl
        exact (hmem m hm).2.2.2 hcn
      · rw [hlive, (hreg m).2.2]
        rcases List.mem_append.1 hm with hm | hm
        · obtain ⟨k1, k2, k3, k4⟩ := hmem m hm
          exact ⟨k1, (hroom k4).trans k2, k3⟩
        · obtain ⟨k1, -, k3⟩ := hnew m hm
          refine ⟨k1, ?_, k3⟩
          rw [hc, if_pos hm]
    · rw [if_neg hrj] at hu
      obtain ⟨k2, km, knd, kall⟩ := h.seats rj hu hzj
      refine ⟨k2, km, knd, fun m hm => ?_⟩
      obtain ⟨k1, k3, k4⟩ := kall m hm
      rw [hlive, hroom (hold hu hzj hm), (hreg m).2.2]
      exact ⟨k1, k3, k4⟩
  · intro rj hu
    rw [hr] at hu
    rw [hmembers]
    split_ifs with hrj
    · rw [if_pos hrj] at hu
      cases hu
    · rw [if_neg hrj] at hu
      exact h.unused rj hu
  · intro c hcu
    rw [(hreg c).1] at hcu
    exact h.slots c hcu
  · intro c hcu hcd
    rw [(hreg c).1] at hcu
    rw [(hreg c).2.1] at hcd
    exact h.dying c hcu hcd
  · rw [hcount, h.count]
    refine congrArg Finset.card (Finset.filter_congr fun c _ => ?_)
    rw [(hreg c).1]
  · rw [hpub, hbyName]
    exact h.published
  · rw [hfault]
    exact h.fault

/-- The match of a room begins. -/
theorem sound_start (h : Sound S Z P r) (sd : ℕ) :
    Sound S Z P (r.setRoom ri { r.rooms ri with started := true, seed := sd }) := by
  have hsame : ∀ rj, ((r.setRoom ri { r.rooms ri with started := true, seed := sd }).rooms rj).used =
      (r.rooms rj).used ∧
      (r.setRoom ri { r.rooms ri with started := true, seed := sd }).members rj = r.members rj := by
    intro rj
    rw [State.members, State.rooms_setRoom]
    split_ifs with hrj
    · rw [hrj]
      exact ⟨rfl, rfl⟩
    · exact ⟨rfl, rfl⟩
  refine ⟨h.names, h.owners, h.entry, h.listed, h.proper, fun c rj hc hcr => ?_, fun rj hu hz => ?_,
    fun rj hu => ?_, h.slots, h.dying, h.count, h.published, h.fault⟩
  · rw [(hsame rj).1, (hsame rj).2]
    exact h.room c rj hc hcr
  · rw [(hsame rj).1] at hu
    rw [(hsame rj).2]
    exact h.seats rj hu hz
  · rw [(hsame rj).1] at hu
    rw [(hsame rj).2]
    exact h.unused rj hu

/-- As long as somebody has no room, a number is left for one more. -/
theorem roomAlloc_isSome (hS : S.Ok) (h : Sound S ∅ P r) (hl : r.Live ci)
    (hr : (r.clients ci).room = none) : ∃ rj, roomAlloc S r = some rj ∧ (r.rooms rj).used = false := by
  cases hf : roomAlloc S r with
  | some rj =>
    refine ⟨rj, rfl, ?_⟩
    simpa using List.find?_some hf
  | none =>
    exfalso
    have hused : ∀ rj < S.maxRooms, (r.rooms rj).used = true := by
      intro rj hrj
      rw [roomAlloc, List.find?_eq_none] at hf
      simpa using hf rj (List.mem_range.2 hrj)
    have hseats := fun rj hrj => h.seats rj (hused rj hrj) (Set.notMem_empty rj)
    have hdisjoint : ∀ i ∈ Finset.range S.maxRooms, ∀ j ∈ Finset.range S.maxRooms, i ≠ j →
        Disjoint (r.members i).toFinset (r.members j).toFinset := by
      intro i hi j hj hij
      rw [Finset.disjoint_left]
      intro m hm hm'
      rw [List.mem_toFinset] at hm hm'
      have h1 := ((hseats i (Finset.mem_range.1 hi)).2.2.2 m hm).2.1
      have h2 := ((hseats j (Finset.mem_range.1 hj)).2.2.2 m hm').2.1
      rw [h1] at h2
      exact hij (Option.some.inj h2)
    have hsub : (Finset.range S.maxRooms).biUnion (fun i => (r.members i).toFinset) ⊆
        (Finset.range maxClients).erase ci := by
      intro m hm
      rw [Finset.mem_biUnion] at hm
      obtain ⟨i, hi, hm⟩ := hm
      rw [List.mem_toFinset] at hm
      obtain ⟨k1, k2, -⟩ := (hseats i (Finset.mem_range.1 hi)).2.2.2 m hm
      rw [Finset.mem_erase, Finset.mem_range]
      refine ⟨?_, h.slots m k1.1⟩
      rintro rfl
      rw [hr] at k2
      cases k2
    have hcard := Finset.card_le_card hsub
    rw [Finset.card_biUnion hdisjoint, Finset.card_erase_of_mem
      (Finset.mem_range.2 (h.slots ci hl.1)), Finset.card_range] at hcard
    have hsum : S.maxRooms * 2 ≤ ∑ i ∈ Finset.range S.maxRooms, (r.members i).toFinset.card := by
      have := Finset.card_nsmul_le_sum (Finset.range S.maxRooms)
        (fun i => (r.members i).toFinset.card) 2 fun i hi => ?_
      · rwa [Finset.card_range, Nat.nsmul_eq_mul] at this
      · obtain ⟨h2, -, hnd, -⟩ := hseats i (Finset.mem_range.1 hi)
        rw [List.toFinset_card_of_nodup hnd]
        exact h2
    have hrooms := hS.rooms
    have : 0 < maxClients := by decide
    omega

end rooms

end IntvNetplay.Relay
