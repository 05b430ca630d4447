import IntvNetplay.Relay.Kept
import IntvNetplay.Relay.Registry

/-!
# The invariant between events

Every handler keeps `Sound` with no `drop` and no `dissolve` under way, for the client whose frame it is
may be dropped by the handler but is served otherwise.  The one exception is a HELLO to the Python
program whose `drop` of the holder of the name drops the client of the HELLO too.
-/

namespace IntvNetplay.Relay

/-- Nobody rises, and who is not dropped is served on. -/
structure Spares (r r' : State) : Prop where
  dead : ∀ c, (r.clients c).dead = true → (r'.clients c).dead = true
  spared : ∀ c, r.Live c → (r'.clients c).dead = false → r'.Live c
  live : ∀ c, r'.Live c → r.Live c

namespace Spares

variable {r r' r'' : State}

theorem refl (r : State) : Spares r r := ⟨fun _ => id, fun _ h _ => h, fun _ => id⟩

theorem trans (h : Spares r r') (h' : Spares r' r'') : Spares r r'' := by
  refine ⟨fun c hc => h'.dead c (h.dead c hc), fun c hl hd => h'.spared c (h.spared c hl ?_) hd,
    fun c hl => h.live c (h'.live c hl)⟩
  by_contra hdead
  rw [Bool.not_eq_false] at hdead
  rw [h'.dead c hdead] at hd
  cases hd

theorem of_reg (hr : ∀ c, (r'.clients c).inUse = (r.clients c).inUse ∧
    (r'.clients c).dead = (r.clients c).dead) : Spares r r' := by
  have hlive : ∀ c, r'.Live c ↔ r.Live c := fun c => by
    rw [State.Live, State.Live, (hr c).1, (hr c).2]
  exact ⟨fun c hc => (hr c).2.trans hc, fun c hl _ => (hlive c).2 hl, fun c => (hlive c).1⟩

end Spares

theorem Shrinks.spares {Z : Set ℕ} {r r' : State} (h : Shrinks Z r r') : Spares r r' :=
  ⟨fun _ hc => h.dead hc, h.spared, h.live⟩

/-- What a handler does. -/
def Keeps (S : Setup) (r r' : State) : Prop := Sound S ∅ ∅ r' ∧ Spares r r'

theorem Keeps.trans {S : Setup} {r r' r'' : State} (h : Keeps S r r') (h' : Keeps S r' r'') :
    Keeps S r r'' := ⟨h'.1, h.2.trans h'.2⟩

theorem After.keeps {S : Setup} {r r' : State} (h : After S ∅ ∅ r r') : Keeps S r r' :=
  ⟨h.1, h.2.spares⟩

theorem Keeps.of_same {S : Setup} {r r' : State} (h : Sound S ∅ ∅ r) (hs : SameReg r r') :
    Keeps S r r' := (After.of_same h hs).keeps

theorem Keeps.refl {S : Setup} {r : State} (h : Sound S ∅ ∅ r) : Keeps S r r := .of_same h (.refl r)

/-- The client whose frame is handled is served or has been dropped. -/
def Handled (r : State) (ci : ℕ) : Prop := (r.clients ci).dead = false → r.Live ci

theorem Handled.keeps {S : Setup} {r r' : State} {ci : ℕ} (h : Handled r ci) (hk : Keeps S r r') :
    Handled r' ci := by
  intro hd
  refine hk.2.spared ci (h ?_) hd
  by_contra hdead
  rw [Bool.not_eq_false] at hdead
  rw [hk.2.dead ci hdead] at hd
  cases hd

section handlers

variable {S : Setup} (hS : S.Ok) {r : State} {ci : ℕ}
include hS

theorem keeps_drop (h : Sound S ∅ ∅ r) (hu : Handled r ci) : Keeps S r (drop S r ci) := by
  cases hd : (r.clients ci).dead with
  | false => exact (after_drop hS h (hu hd)).1.keeps
  | true =>
    have : drop S r ci = r := by
      rw [drop, show maxClients = 63 + 1 from rfl, dropN, dropBody, if_pos hd]
    rw [this]
    exact .refl h

theorem keeps_sendRaw (m : Msg) (src : Option ℕ) (h : Sound S ∅ ∅ r) (hu : Handled r ci) :
    Keeps S r (sendRaw S (drop S) ci m src r) :=
  (after_sendRaw (drops_drop hS) ci m src h (liveCount_le_max r) hu).keeps

theorem keeps_onList (h : Sound S ∅ ∅ r) (hu : Handled r ci) : Keeps S r (onList S ci r) :=
  keeps_sendRaw hS _ _ h hu

theorem keeps_announce (ri : ℕ) (m : ℕ → Msg) (h : Sound S ∅ ∅ r) :
    Keeps S r (announce S (drop S) ri m r) :=
  (after_announce (drops_drop hS) ri m h (liveCount_le_max r) (Set.notMem_empty ri)).keeps

/-! ### HELLO -/

theorem keeps_evict (name : List ℕ) (h : Sound S ∅ ∅ r) :
    Keeps S r (evict S ci name r) ∧ ∀ e ∈ (evict S ci name r).byName, e.1 = name → e.2 = ci := by
  rw [evict]
  cases hf : r.nameFind name with
  | none => exact ⟨.refl h, fun e he heq => absurd heq (nameFind_eq_none.1 hf e he)⟩
  | some old =>
    have hmem := mem_of_nameFind hf
    dsimp only
    by_cases hold : old = ci
    · rw [if_pos hold]
      refine ⟨.refl h, fun e he heq => ?_⟩
      rw [h.name_inj he hmem heq]
      exact hold
    · rw [if_neg hold]
      have hrob : SameReg r (if robs S r ci old then r.rob else r) := by
        split_ifs
        · exact sameReg_rob r
        · exact .refl r
      have hl : r.Live old := (h.entry _ hmem).1
      have hdrop := after_drop hS (h.of_same hrob) ((hrob.live old).2 hl)
      have hall : After S ∅ ∅ r (drop S (if robs S r ci old then r.rob else r) old) :=
        (After.of_same h hrob).trans hdrop.1
      refine ⟨hall.keeps, fun e he heq => ?_⟩
      have hin := h.name_inj (hall.2.names.subset he) hmem heq
      have hlive := (hall.1.entry e he).1
      rw [hin] at hlive
      rw [hlive.2] at hdrop
      cases hdrop.2

theorem keeps_takeName {name : List ℕ} (hname : nameOk name = true) (h : Sound S ∅ ∅ r) (hl : r.Live ci)
    (hsafe : S.rechecks = true ∨ ((evict S ci name r).clients ci).dead = false) :
    Keeps S r (takeName S ci name r) := by
  obtain ⟨hk, hown⟩ : Keeps S r (evict S ci name r) ∧
      ∀ e ∈ (evict S ci name r).byName, e.1 = name → e.2 = ci := keeps_evict hS name h
  rw [takeName]
  split_ifs with hdead
  · exact hk
  · have hd : ((evict S ci name r).clients ci).dead = false := by
      rcases hsafe with hre | hd
      · rw [hre, Bool.true_and] at hdead
        simpa using hdead
      · exact hd
    have hl' := hk.2.spared ci hl hd
    have hren : Keeps S (evict S ci name r) (rename S ci name (evict S ci name r)) := by
      refine ⟨sound_rename hk.1 hl' hname hown, .of_reg fun c => ?_⟩
      rw [clients_named]
      split_ifs with hc
      · rw [hc]
        exact ⟨rfl, rfl⟩
      · exact ⟨rfl, rfl⟩
    have hall := hk.trans hren
    exact hall.trans (keeps_onList hS hall.1 (Handled.keeps (fun _ => hl) hall))

/-! ### JOIN and GO -/

theorem keeps_startRoom (ri : ℕ) (h : Sound S ∅ ∅ r) : Keeps S r (startRoom S ri r) := by
  have hseed : SameReg r { r with seeds := r.seeds + 1 } := ⟨fun _ => rfl, rfl, rfl, rfl, rfl, rfl⟩
  have hbegin : Keeps S r (({ r with seeds := r.seeds + 1 } : State).setRoom ri
      { r.rooms ri with started := true, seed := S.seed r.seeds }) :=
    ⟨sound_start (h.of_same hseed) _, .of_reg fun _ => ⟨rfl, rfl⟩⟩
  have hsend : ∀ r' : State, Sound S ∅ ∅ r' → Keeps S r' (announce S (drop S) ri
      (fun seat => startMsg r' ri (S.seed r.seeds) S.delay seat) r') :=
    fun r' h' => keeps_announce hS ri _ h'
  have hall := hbegin.trans (hsend _ hbegin.1)
  exact hall.trans (.of_same hall.1 (sameReg_publish hall.1.published))

theorem keeps_joined (ri : ℕ) (h : Sound S ∅ ∅ r) : Keeps S r (joined S ri r) := by
  have hcast : Keeps S r (roomBroadcast S (drop S) ri r) := keeps_announce hS ri _ h
  have hpub := hcast.trans (.of_same hcast.1 (sameReg_publish hcast.1.published))
  rw [joined]
  split_ifs
  · exact hpub.trans (keeps_startRoom hS ri hpub.1)
  · exact hpub

/-- What `on_join` knows of the client with the name. -/
structure Wanted (r : State) (ci target : ℕ) : Prop where
  live : r.Live target
  other : target ≠ ci
  named : (r.clients target).name ≠ []

theorem keeps_startPair {host : ℕ} (hp : S.proto1 = true) (h : Sound S ∅ ∅ r) (hl : r.Live ci)
    (hw : Wanted r ci host) (hn : (r.clients ci).name ≠ []) (hr : (r.clients ci).room = none)
    (hhr : (r.clients host).room = none) : Keeps S r (startPair S host ci r) := by
  have hseed : SameReg r { r with seeds := r.seeds + 1 } := ⟨fun _ => rfl, rfl, rfl, rfl, rfl, rfl⟩
  have h' := h.of_same hseed
  obtain ⟨ri, hri, hused⟩ := roomAlloc_isSome hS h' hl hr
  rw [startPair]
  dsimp only
  rw [hri]
  dsimp only
  generalize hr₁ : State.setClient _ ci _ = r₁
  have hne : ci ≠ host := fun heq => hw.other heq.symm
  have hempty : r.members ri = [] := h.unused ri hused
  have hc : ∀ x, r₁.clients x =
      if x ∈ [host, ci] then { r.clients x with room := some ri } else r.clients x := by
    intro x
    rw [← hr₁, State.clients_setClient, State.clients_setClient, State.clients_setClient,
      if_neg hne]
    by_cases hx : x = ci
    · rw [if_pos hx, if_pos (by rw [hx]; exact List.mem_cons_of_mem _ List.mem_cons_self), hx]
      rfl
    · rw [if_neg hx]
      by_cases hxh : x = host
      · rw [if_pos hxh, if_pos (by rw [hxh]; exact List.mem_cons_self), hxh]
        rfl
      · rw [if_neg hxh, if_neg]
        · rfl
        · rintro (_ | ⟨_, _ | ⟨_, hm⟩⟩)
          · exact hxh rfl
          · exact hx rfl
          · cases hm
  have hseat : Sound S ∅ ∅ r₁ := by
    refine Sound.seat h ri [host, ci] true (S.seed r.seeds) hc ?_ ?_ ?_ ?_ (Set.notMem_empty ri) ?_
    · intro rj
      rw [hempty, ← hr₁]
      exact State.rooms_setRoom _ _ _ _
    · rw [← hr₁]
      exact ⟨rfl, rfl, rfl, rfl⟩
    · rintro c (_ | ⟨_, _ | ⟨_, hm⟩⟩)
      · exact ⟨hw.live, hhr, hw.named⟩
      · exact ⟨hl, hr, hn⟩
      · cases hm
    · simpa using hw.other
    · rw [hempty, hS.pair hp]
      exact ⟨le_refl 2, le_refl 2⟩
  have hk : Keeps S r r₁ := by
    refine ⟨hseat, .of_reg fun c => ?_⟩
    rw [hc]
    split_ifs
    · exact ⟨rfl, rfl⟩
    · exact ⟨rfl, rfl⟩
  have hsend : ∀ {c : ℕ} {r' : State} (m : Msg), r.Live c → Keeps S r r' →
      Keeps S r (sendRaw S (drop S) c m none r') := fun m hc hk' =>
    hk'.trans (keeps_sendRaw hS m none hk'.1 (Handled.keeps (fun _ => hc) hk'))
  exact hsend _ hl (hsend _ hw.live hk)

omit hS in
theorem keeps_enter {ri : ℕ} (h : Sound S ∅ ∅ r) (hl : r.Live ci)
    (hn : (r.clients ci).name ≠ []) (hr : (r.clients ci).room = none) (hused : (r.rooms ri).used = true)
    (hroom : (r.members ri).length < S.maxSeats) : Keeps S r (enter ci ri r) := by
  have hc : ∀ x, (enter ci ri r).clients x =
      if x ∈ [ci] then { r.clients x with room := some ri } else r.clients x := by
    intro x
    rw [enter, State.clients_setClient, State.clients_setRoom]
    by_cases hx : x = ci
    · rw [if_pos hx, if_pos (List.mem_singleton.2 hx), hx]
    · rw [if_neg hx, if_neg fun hm => hx (List.mem_singleton.1 hm)]
  refine ⟨?_, .of_reg fun c => ?_⟩
  · refine Sound.seat h ri [ci] (r.rooms ri).started (r.rooms ri).seed hc (fun rj => ?_)
      ⟨rfl, rfl, rfl, rfl⟩ (fun c hc => ?_) (List.nodup_singleton ci) (Set.notMem_empty ri) ?_
    · rw [enter, State.rooms_setClient, State.rooms_setRoom]
      dsimp only
      rw [hused]
    · rw [List.mem_singleton.1 hc]
      exact ⟨hl, hr, hn⟩
    · have h2 := (h.seats ri hused (Set.notMem_empty ri)).1
      rw [List.length_append, List.length_singleton]
      omega
  · rw [hc]
    split_ifs
    · exact ⟨rfl, rfl⟩
    · exact ⟨rfl, rfl⟩

theorem keeps_open {target ri : ℕ} (h : Sound S ∅ ∅ r) (hl : r.Live ci) (hw : Wanted r ci target)
    (hn : (r.clients ci).name ≠ []) (hr : (r.clients ci).room = none)
    (htr : (r.clients target).room = none) (hused : (r.rooms ri).used = false) :
    Keeps S r (enter ci ri (openRoom ri target r)) := by
  have hne : ci ≠ target := fun heq => hw.other heq.symm
  have hempty : r.members ri = [] := h.unused ri hused
  have hc : ∀ x, (enter ci ri (openRoom ri target r)).clients x =
      if x ∈ [target, ci] then { r.clients x with room := some ri } else r.clients x := by
    intro x
    rw [enter, State.clients_setClient, State.clients_setRoom, openRoom, State.clients_setClient,
      State.clients_setRoom, State.clients_setClient, State.clients_setRoom]
    rw [if_neg hne]
    by_cases hx : x = ci
    · rw [if_pos hx, if_pos (by rw [hx]; exact List.mem_cons_of_mem _ List.mem_cons_self), hx]
    · rw [if_neg hx]
      by_cases hxh : x = target
      · rw [if_pos hxh, if_pos (by rw [hxh]; exact List.mem_cons_self), hxh]
      · rw [if_neg hxh, if_neg]
        rintro (_ | ⟨_, _ | ⟨_, hm⟩⟩)
        · exact hxh rfl
        · exact hx rfl
        · cases hm
  refine ⟨?_, .of_reg fun c => ?_⟩
  · refine Sound.seat h ri [target, ci] false 0 hc (fun rj => ?_)
      ⟨rfl, rfl, rfl, rfl⟩ ?_ ?_ (Set.notMem_empty ri) ?_
    · rw [hempty, enter, State.rooms_setClient, State.rooms_setRoom, openRoom, State.members,
        State.rooms_setClient, State.rooms_setRoom, State.rooms_setRoom, if_pos rfl]
      split_ifs
      · rfl
      · rfl
    · rintro c (_ | ⟨_, _ | ⟨_, hm⟩⟩)
      · exact ⟨hw.live, htr, hw.named⟩
      · exact ⟨hl, hr, hn⟩
      · cases hm
    · simpa using hw.other
    · rw [hempty]
      exact ⟨le_refl 2, hS.two_le⟩
  · rw [hc]
    split_ifs
    · exact ⟨rfl, rfl⟩
    · exact ⟨rfl, rfl⟩

theorem keeps_joinTarget {target : ℕ} (h : Sound S ∅ ∅ r) (hl : r.Live ci)
    (hn : (r.clients ci).name ≠ []) (hr : (r.clients ci).room = none) (ht : r.Live target) :
    Keeps S r (joinTarget S ci target r) := by
  have hlist : Keeps S r (onList S ci r) := keeps_onList hS h fun _ => hl
  rw [joinTarget]
  split_ifs with hself hp hhr
  · exact hlist
  · exact keeps_startPair hS hp h hl ⟨ht, fun heq => hself (.inl heq), fun heq => hself (.inr heq)⟩ hn
      hr hhr
  · exact hlist
  · have hw : Wanted r ci target :=
      ⟨ht, fun heq => hself (.inl heq), fun heq => hself (.inr heq)⟩
    cases htr : (r.clients target).room with
    | some ri =>
      dsimp only
      split_ifs with hshut
      · exact hlist
      · have hused := (h.room target ri ht htr).2.1
        rw [shut, Bool.or_eq_true, not_or, decide_eq_true_eq, not_le] at hshut
        have henter := keeps_enter h hl hn hr hused hshut.2
        exact henter.trans (keeps_joined hS ri henter.1)
    | none =>
      obtain ⟨ri, hri, hused⟩ := roomAlloc_isSome hS h hl hr
      rw [hri]
      have hopen := keeps_open hS h hl hw hn hr htr hused
      exact hopen.trans (keeps_joined hS ri hopen.1)

theorem keeps_onJoin (payload : List ℕ) (h : Sound S ∅ ∅ r) (hl : r.Live ci) :
    Keeps S r (onJoin S ci payload r) := by
  have hfind : ∀ r₁ : State, SameReg r r₁ → (r.clients ci).name ≠ [] → (r.clients ci).room = none →
      Keeps S r (findTarget S ci payload r₁) := by
    intro r₁ hs hn hr
    have h₁ := h.of_same hs
    have hl₁ := (hs.live ci).2 hl
    refine (Keeps.of_same h hs).trans ?_
    rw [findTarget]
    split_ifs
    · exact keeps_onList hS h₁ fun _ => hl₁
    · cases hf : r₁.nameFind (joinName S payload) with
      | none => exact keeps_onList hS h₁ fun _ => hl₁
      | some target =>
        have ht := (h₁.entry _ (mem_of_nameFind hf)).1
        exact keeps_joinTarget hS h₁ hl₁ (by rw [hs.name]; exact hn) ((hs.room ci).trans hr) ht
  rw [onJoin]
  split_ifs with hn hr
  · exact keeps_drop hS h fun _ => hl
  · exact .refl h
  · exact hfind _ ⟨fun _ => rfl, rfl, rfl, rfl, rfl, rfl⟩ hn (not_not.1 hr)
  · exact hfind _ (.refl r) hn (not_not.1 hr)

theorem keeps_onGo (h : Sound S ∅ ∅ r) : Keeps S r (onGo S ci r) := by
  rw [onGo]
  split
  · exact .refl h
  · split_ifs
    · exact .refl h
    · exact .refl h
    · exact keeps_startRoom hS _ h

/-! ### Relaying -/

theorem keeps_fanTo (m : Msg) (src : ℕ) (l : List ℕ) (h : Sound S ∅ ∅ r) (hl : Known r l) :
    Keeps S r (fanTo S ci m src l r) := by
  induction l generalizing r with
  | nil => exact .refl h
  | cons c l ih =>
    have hsend : Keeps S r (if c = ci then r else sendRaw S (drop S) c m (some src) r) := by
      split_ifs
      · exact .refl h
      · exact keeps_sendRaw hS m (some src) h (hl c List.mem_cons_self)
    exact hsend.trans (ih hsend.1 fun x hx => (Handled.keeps (hl x (List.mem_cons_of_mem _ hx)) hsend))

theorem keeps_fanLive (ri : ℕ) (m : Msg) (src n i : ℕ) (h : Sound S ∅ ∅ r) :
    Keeps S r (fanLive S ci ri m src n i r) := by
  induction n generalizing r i with
  | zero => exact .refl h
  | succ n ih =>
    unfold fanLive
    split
    · exact .refl h
    · rename_i c hc
      have hl := h.live_members (Set.notMem_empty ri) c (List.mem_of_getElem? hc)
      have hsend : Keeps S r (if c = ci then r else sendRaw S (drop S) c m (some src) r) := by
        split_ifs
        · exact .refl h
        · exact keeps_sendRaw hS m (some src) h fun _ => hl
      exact hsend.trans (ih _ hsend.1)

theorem keeps_relay (m : Msg) (h : Sound S ∅ ∅ r) : Keeps S r (relay S ci m r) := by
  have hhear : ∀ e, Keeps S r (r.hear e) := fun e =>
    .of_same h ⟨fun _ => rfl, rfl, rfl, rfl, rfl, rfl⟩
  rw [relay]
  split
  · exact .refl h
  · rename_i ri _
    split_ifs
    · exact (hhear _).trans (keeps_fanLive hS ri m _ _ _ (hhear _).1)
    · refine (hhear _).trans (keeps_fanTo hS m _ _ (hhear _).1 fun c hc _ => ?_)
      exact h.live_members (Set.notMem_empty ri) c hc
    · exact .refl h

/-- `handle` for all frames but HELLO. -/
theorem keeps_handle (m : Msg) (h : Sound S ∅ ∅ r) (hl : r.Live ci)
    (hello : relayed m.type = false → m.type ≠ tHello) : Keeps S r (handle S ci m r) := by
  have hdrop : Keeps S r (drop S r ci) := keeps_drop hS h fun _ => hl
  rw [handle]
  split_ifs with hrel hhello
  · exact keeps_relay hS m h
  · exact absurd hhello (hello (by simpa using hrel))
  · exact keeps_onList hS h fun _ => hl
  · exact keeps_onJoin hS m.payload h hl
  · exact hdrop
  · exact keeps_onGo hS h
  · exact hdrop
  · exact keeps_sendRaw hS _ none h fun _ => hl
  · exact hdrop

end handlers

/-! ### Connections -/

section connections

variable {S : Setup} {r : State}

/-- Between events only connected clients are referred to. -/
theorem vacant_iff (h : Sound S ∅ ∅ r) (i : ℕ) : vacant S r i = !(r.clients i).inUse := by
  rw [vacant]
  cases hu : (r.clients i).inUse with
  | true => rfl
  | false =>
    have hnot : ¬ r.Live i := fun hl => by
      rw [hl.1] at hu
      cases hu
    have hnames : (r.byName.any fun e => e.2 == i) = false := by
      rw [List.any_eq_false]
      intro e he heq
      rw [beq_iff_eq] at heq
      exact hnot (heq ▸ (h.entry e he).1)
    have hrooms : ((List.range S.maxRooms).all fun ri => !(r.members ri).contains i) = true := by
      rw [List.all_eq_true]
      intro ri _
      rw [Bool.not_eq_true', List.contains_eq_mem, decide_eq_false_iff_not]
      exact fun hm => hnot (h.live_members (Set.notMem_empty ri) i hm)
    rw [hnames, hrooms]
    simp

/-- A slot is left for a new client. -/
theorem clientAlloc_isSome (h : Sound S ∅ ∅ r) (hn : r.nClients < maxClients) :
    ∃ ci, clientAlloc S r = some ci ∧ (r.clients ci).inUse = false ∧ ci < maxClients := by
  obtain ⟨c, hc, hfree⟩ : ∃ c < maxClients, (r.clients c).inUse = false := by
    by_contra hall
    push Not at hall
    have hcount := h.count
    rw [Finset.filter_true_of_mem fun c hc => by simpa using hall c (Finset.mem_range.1 hc),
      Finset.card_range] at hcount
    omega
  have hvacant : vacant S r c = true := by rw [vacant_iff h, hfree]; rfl
  have hspan : c ∈ span S r := by
    rw [span, List.mem_range]
    split_ifs
    · exact hc
    · omega
  cases hf : clientAlloc S r with
  | none =>
    rw [clientAlloc, List.find?_eq_none] at hf
    exact absurd hvacant (hf c hspan)
  | some ci =>
    rw [clientAlloc, span, List.find?_range_eq_some] at hf
    obtain ⟨hv, -, hleast⟩ := hf
    rw [vacant_iff h, Bool.not_eq_true'] at hv
    refine ⟨ci, rfl, hv, ?_⟩
    by_contra hge
    have := hleast c (by omega)
    rw [hvacant] at this
    cases this

/-- A new client gets a slot of its own, or nothing happens. -/
theorem accept_cases (S : Setup) (ip now : ℕ) (r : State) :
    accept S ip now r = r ∨ accept S ip now r = r.bad ∨ ∃ ci, (r.clients ci).inUse = false ∧
      (∀ x, (accept S ip now r).clients x = if x = ci then
        { Client.empty with inUse := true, ip := ip, connectedAt := now, conn := r.conns }
        else r.clients x) ∧ (accept S ip now r).conns = r.conns + 1 := by
  unfold accept
  split_ifs
  · exact .inl rfl
  · exact .inl rfl
  · split
    · exact .inr (.inl rfl)
    · rename_i ci hci
      refine .inr (.inr ⟨ci, ?_, fun x => State.clients_setClient _ _ _ _, rfl⟩)
      have hv := List.find?_some hci
      rw [vacant, Bool.and_eq_true, Bool.not_eq_true'] at hv
      exact hv.1

theorem sound_accept (ip now : ℕ) (h : Sound S ∅ ∅ r) : Sound S ∅ ∅ (accept S ip now r) := by
  rw [accept]
  split_ifs with hfull
  · exact h
  · exact h
  · obtain ⟨ci, hci, hfree, hlt⟩ := clientAlloc_isSome h (by omega)
    rw [hci]
    dsimp only
    generalize hr₁ : ({ r.setClient ci _ with nClients := r.nClients + 1, conns := r.conns + 1 } :
      State) = r₁
    have hc : ∀ x, r₁.clients x = if x = ci then
        { Client.empty with inUse := true, ip := ip, connectedAt := now, conn := r.conns }
        else r.clients x := by
      intro x
      rw [← hr₁]
      exact State.clients_setClient _ _ _ _
    have hsame : r₁.rooms = r.rooms ∧ r₁.byName = r.byName ∧ r₁.published = r.published ∧
        r₁.fault = r.fault ∧ r₁.nClients = r.nClients + 1 := by
      rw [← hr₁]
      exact ⟨rfl, rfl, rfl, rfl, rfl⟩
    obtain ⟨hrooms, hbyName, hpub, hfault, hcount⟩ := hsame
    have hmembers : ∀ ri, r₁.members ri = r.members ri := fun ri => by
      rw [State.members, hrooms]
      rfl
    have hne : ∀ {x}, r.Live x → x ≠ ci := by
      rintro x hx rfl
      rw [hx.1] at hfree
      cases hfree
    have hold : ∀ {x}, x ≠ ci → r₁.clients x = r.clients x := fun hx => by rw [hc, if_neg hx]
    have hnew : r₁.clients ci =
        { Client.empty with inUse := true, ip := ip, connectedAt := now, conn := r.conns } := by
      rw [hc, if_pos rfl]
    have hlive : ∀ {x}, r.Live x → r₁.Live x := fun hx => by
      rw [State.Live, hold (hne hx)]
      exact hx
    have hlive' : ∀ {x}, x ≠ ci → r₁.Live x → r.Live x := fun hx hl => by
      rw [State.Live, hold hx] at hl
      exact hl
    constructor
    · rw [hbyName]
      exact h.names
    · rw [hbyName]
      exact h.owners
    · intro e he
      rw [hbyName] at he
      obtain ⟨h1, h2, h3⟩ := h.entry e he
      rw [hold (hne h1)]
      exact ⟨hlive h1, h2, h3⟩
    · intro c hl hn
      by_cases hcc : c = ci
      · rw [hcc, hnew] at hn
        exact absurd rfl hn
      · rw [hold hcc] at hn ⊢
        rw [hbyName]
        exact h.listed c (hlive' hcc hl) hn
    · rw [hbyName]
      exact h.proper
    · intro c ri hl hr
      by_cases hcc : c = ci
      · rw [hcc, hnew] at hr
        cases hr
      · rw [hold hcc] at hr
        rw [hrooms, hmembers]
        exact h.room c ri (hlive' hcc hl) hr
    · intro ri hu hz
      rw [hrooms] at hu
      rw [hmembers]
      obtain ⟨h2, hm, hnd, hall⟩ := h.seats ri hu hz
      refine ⟨h2, hm, hnd, fun m hmm => ?_⟩
      obtain ⟨k1, k2, k3⟩ := hall m hmm
      rw [hold (hne k1)]
      exact ⟨hlive k1, k2, k3⟩
    · intro ri hu
      rw [hrooms] at hu
      rw [hmembers]
      exact h.unused ri hu
    · intro c hu
      by_cases hcc : c = ci
      · rw [hcc]
        exact hlt
      · rw [hold hcc] at hu
        exact h.slots c hu
    · intro c hu hd
      by_cases hcc : c = ci
      · rw [hcc, hnew] at hd
        cases hd
      · rw [hold hcc] at hu hd
        exact h.dying c hu hd
    · rw [hcount, h.count]
      have hset : ((Finset.range maxClients).filter fun c => (r₁.clients c).inUse = true) =
          insert ci ((Finset.range maxClients).filter fun c => (r.clients c).inUse = true) := by
        ext c
        rw [Finset.mem_insert, Finset.mem_filter, Finset.mem_filter, hc]
        split_ifs with hcc
        · simp [hcc, hlt]
        · simp [hcc]
      rw [hset, Finset.card_insert_of_notMem]
      simp [hfree]
    · rw [hpub, hbyName]
      exact h.published
    · rw [hfault]
      exact h.fault

theorem keeps_sweep (hS : S.Ok) (now : ℕ) (h : Sound S ∅ ∅ r) : Keeps S r (sweep S now r) := by
  unfold sweep
  generalize span S r = l
  induction l generalizing r with
  | nil => exact .refl h
  | cons i l ih =>
    rw [List.foldl_cons]
    have hdrop : Keeps S r (if (r.clients i).inUse = true ∧ (r.clients i).dead = false ∧
        (r.clients i).name = [] ∧ helloTimeout < now - (r.clients i).connectedAt then drop S r i
        else r) := by
      split_ifs with hi
      · exact keeps_drop hS h fun _ => ⟨hi.1, hi.2.1⟩
      · exact .refl h
    exact hdrop.trans (ih hdrop.1)

theorem sound_init : Sound S ∅ ∅ State.init := by
  constructor
  · exact List.nodup_nil
  · exact List.nodup_nil
  · intro e he
    cases he
  · intro c hl
    cases hl.1
  · intro e he
    cases he
  · intro c ri hl
    cases hl.1
  · intro ri hu
    cases hu
  · intro ri _
    rfl
  · intro c hu
    cases hu
  · intro c hu
    cases hu
  · rfl
  · rfl
  · rfl

end connections

/-! ### A robbed room -/

section robbed

variable {S : Setup} {D : State → ℕ → State} {r : State} {ci : ℕ}

/-- A frame that is not refused leaves its recipient alone. -/
theorem dead_flushLoop (n : ℕ) (h : broken S n r.calls (r.clients ci).tx.length = false) :
    ((flushLoop S D ci n r).clients ci).dead = (r.clients ci).dead := by
  induction n generalizing r with
  | zero => rfl
  | succ n ih =>
    unfold broken at h
    unfold flushLoop
    by_cases htx : (r.clients ci).tx = []
    · rw [if_pos htx]
    · rw [if_neg fun hlen => htx (List.eq_nil_of_length_eq_zero hlen)] at h
      rw [if_neg htx]
      split
      · rename_i k hk
        rw [hk] at h
        dsimp only at h
        have hlen : ((r.called.wrote ci (k + 1)).clients ci).tx.length =
            (r.clients ci).tx.length - (k + 1) := by
          rw [State.wrote, State.clients_setClient, if_pos rfl]
          exact List.length_drop
        have hcalls : (r.called.wrote ci (k + 1)).calls = r.calls + 1 := rfl
        rw [ih (by rw [hlen, hcalls]; exact h), State.wrote, State.clients_setClient, if_pos rfl]
        rfl
      · rfl
      · rename_i hz
        rw [hz] at h
        cases h
      · rename_i he
        rw [he] at h
        cases h

theorem dead_sendRaw {m : Msg} {src : Option ℕ} (h : refused S r ci m = false) :
    ((sendRaw S D ci m src r).clients ci).dead = (r.clients ci).dead := by
  rw [refused, Bool.or_eq_false_iff, decide_eq_false_iff_not] at h
  rw [sendRaw]
  split_ifs with hd
  · rfl
  · exact absurd ‹_› h.1
  · have hlen : ((r.queue ci m src).clients ci).tx.length =
        (r.clients ci).tx.length + m.bytes.length := by
      rw [State.queue, State.clients_setClient, if_pos rfl]
      exact List.length_append
    rw [flush, dead_flushLoop]
    · rw [State.queue, State.clients_setClient, if_pos rfl]
    · rw [hlen]
      exact h.2

/-- A client in no room goes alone. -/
theorem clients_dropBody {p : ℕ} (hl : r.Live p) (hr : (r.clients p).room = none) (hne : ci ≠ p) :
    (dropBody S D r p).clients ci = r.clients ci := by
  have hu : ((r.gone p).clients p).inUse = true := (inUse_gone p).trans hl.1
  rw [dropBody_eq S D hl.2, hr]
  dsimp only
  rw [clients_free hu, if_neg hne, clients_gone, if_neg hne]

theorem clients_flushLoop {p : ℕ} (hD : ∀ r : State, r.Live p → (r.clients p).room = none →
      (D r p).clients ci = r.clients ci) (n : ℕ) (hl : r.Live p) (hr : (r.clients p).room = none)
    (hne : ci ≠ p) : (flushLoop S D p n r).clients ci = r.clients ci := by
  induction n generalizing r with
  | zero => rfl
  | succ n ih =>
    unfold flushLoop
    split
    · rfl
    · split
      · rename_i k _
        have hself : ((r.called.wrote p (k + 1)).clients p).reg = (r.clients p).reg :=
          (sameReg_wrote r.called p (k + 1)).clients p
        have hlive := ((sameReg_wrote r.called p (k + 1)).live p).2 hl
        have hroom := ((sameReg_wrote r.called p (k + 1)).room p).trans hr
        rw [ih hlive hroom, State.wrote, State.clients_setClient, if_neg hne]
        rfl
      · rfl
      · exact hD r.called.fail hl hr
      · exact hD r.called.fail hl hr

theorem clients_sendRaw {p : ℕ} {m : Msg} {src : Option ℕ} (hD : ∀ r : State, r.Live p →
      (r.clients p).room = none → (D r p).clients ci = r.clients ci) (hl : r.Live p)
    (hr : (r.clients p).room = none) (hne : ci ≠ p) :
    (sendRaw S D p m src r).clients ci = r.clients ci := by
  rw [sendRaw]
  split_ifs
  · rfl
  · exact hD r.fail hl hr
  · have hlive := ((sameReg_queue r p m src).live p).2 hl
    have hroom := ((sameReg_queue r p m src).room p).trans hr
    rw [flush, clients_flushLoop hD _ hlive hroom hne, State.queue, State.clients_setClient, if_neg hne]

theorem clients_free_ne {p : ℕ} (hne : ci ≠ p) : (r.free p).clients ci = r.clients ci := by
  rw [State.free]
  dsimp only
  rw [State.clients_setClient, if_neg hne]
  split_ifs
  · rfl
  · rfl

/-- The room of two that a client leaves behind: the other member is told and is on its own. -/
theorem exists_partner (hS : S.maxSeats = 2) {old ri : ℕ} (h : Sound S ∅ ∅ r) (hl : r.Live old)
    (hr : (r.clients old).room = some ri) : ∃ p, (r.members ri).erase old = [p] ∧ p ≠ old ∧ r.Live p ∧
      ∀ D : State → ℕ → State, ∃ r₂ : State,
        r₂.clients = ((r.out old ri).unroom ri).clients ∧ r₂.calls = r.calls ∧
        (dropSeat S D old ri ((r.members ri).idxOf old) (r.out old ri)).clients =
          (sendRaw S D p (notice r ri old) none r₂).clients := by
  obtain ⟨-, -, hm, -, hmax, hmin⟩ := h.seated hl hr
  obtain ⟨p, hp⟩ : ∃ p, (r.members ri).erase old = [p] := by
    have hlen := List.length_erase_of_mem hm
    exact List.length_eq_one_iff.1 (by omega)
  have hpm : p ∈ (r.members ri).erase old := by
    rw [hp]
    exact List.mem_singleton_self p
  obtain ⟨hpo, hpl, -⟩ := h.stay hl hr hpm
  refine ⟨p, hp, hpo, hpl, fun D => ?_⟩
  have hcalls : (r.out old ri).calls = r.calls := by
    rw [State.out, State.gone, State.unname]
    split_ifs
    · rfl
    · rfl
  have hstarted : ((r.out old ri).rooms ri).started = (r.rooms ri).started := by
    rw [rooms_out, if_pos rfl]
  rw [dropSeat, members_out, hp, hstarted, notice, name_out]
  by_cases hst : (r.rooms ri).started = true
  · rw [if_pos hst, if_pos hst]
    exact ⟨((r.out old ri).unroom ri).close ri, rfl, hcalls, rfl⟩
  · have hone : [p].length < 2 := Nat.one_lt_two
    rw [if_neg hst, if_neg hst, if_pos hone, ite_self]
    exact ⟨(r.out old ri).unroom ri, rfl, hcalls, rfl⟩

/-- In a relay for two, `drop` of a client spares everybody else but the one in its room whose notice
is refused. -/
theorem dead_drop (hS : S.maxSeats = 2) (hp : S.proto1 = false) {old : ℕ} (h : Sound S ∅ ∅ r)
    (hl : r.Live old) (hlc : r.Live ci) (hne : ci ≠ old) (hrob : robs S r ci old = false) :
    ((drop S r old).clients ci).dead = false := by
  rw [drop, show maxClients = 63 + 1 from rfl, dropN, dropBody_eq S _ hl.2]
  cases hr : (r.clients old).room with
  | none =>
    dsimp only
    rw [clients_free_ne hne, clients_gone, if_neg hne]
    exact hlc.2
  | some ri =>
    dsimp only
    rw [hp, if_neg (by decide), clients_free_ne hne]
    obtain ⟨p, hperase, hpo, hpl, hseat⟩ := exists_partner hS h hl hr
    obtain ⟨r₂, hclients, hcalls, heq⟩ := hseat (dropN S 63)
    change ((dropSeat S _ old ri _ _).clients ci).dead = false
    rw [heq]
    have hsolo : ∀ x, r₂.clients x = if x = p then { r.clients x with room := none } else
        (r.out old ri).clients x := by
      intro x
      rw [hclients, clients_unroom h hl hr, hperase]
      by_cases hx : x = p
      · rw [if_pos hx, if_pos (List.mem_singleton.2 hx)]
      · rw [if_neg hx, if_neg fun hm => hx (List.mem_singleton.1 hm)]
    by_cases hcp : ci = p
    · have hself : r₂.clients ci = { r.clients ci with room := none } := by rw [hsolo, if_pos hcp]
      have hmem : ci ∈ r.members ri := by
        have : ci ∈ (r.members ri).erase old := by
          rw [hperase, hcp]
          exact List.mem_singleton_self p
        exact List.mem_of_mem_erase this
      rw [robs, hr] at hrob
      dsimp only at hrob
      rw [decide_eq_true hmem, Bool.true_and] at hrob
      rw [← hcp, dead_sendRaw, hself]
      · exact hlc.2
      · rw [refused] at hrob ⊢
        rw [hself, hcalls]
        exact hrob
    · have hother : r₂.clients ci = r.clients ci := by
        rw [hsolo, if_neg hcp, clients_out, if_neg hne]
      have hpc : r₂.clients p = { r.clients p with room := none } := by rw [hsolo, if_pos rfl]
      have hlp : r₂.Live p := by
        rw [State.Live, hpc]
        exact hpl
      have hD : ∀ r' : State, r'.Live p → (r'.clients p).room = none →
          (dropN S 63 r' p).clients ci = r'.clients ci := fun r' hl' hr' =>
        clients_dropBody (D := dropN S 62) hl' hr' hcp
      rw [clients_sendRaw hD hlp (by rw [hpc]) hcp, hother]
      exact hlc.2

end robbed

/-! ### Whole runs -/

/-- The programs the results are about: `intv-relay.c`, which looks whether the client of a HELLO was
dropped, and a relay for two. -/
structure Setup.Fit (S : Setup) : Prop extends S.Ok where
  two : S.rechecks = true ∨ S.proto1 = false ∧ S.maxSeats = 2

/-- No HELLO has robbed its own room, where that matters. -/
def Fine (S : Setup) (r : State) : Prop := S.rechecks = true ∨ r.robbed = false

theorem passing_robbed (S : Setup) :
    Passing S fun r r' => r.heard <:+ r'.heard ∧ (r'.robbed = false → r.robbed = false) where
  trans h h' := ⟨h.1.trans h'.1, h.2 ∘ h'.2⟩
  quiet h := ⟨h.heard ▸ List.suffix_refl _, fun hf => h.robbed ▸ hf⟩
  heard h := h.1
  hear r e _ := ⟨List.suffix_cons e _, id⟩
  queue _ _ _ _ := ⟨List.suffix_refl _, id⟩
  pass _ _ _ _ := ⟨List.suffix_refl _, id⟩
  wrote _ _ _ := ⟨List.suffix_refl _, id⟩
  fail _ := ⟨List.suffix_refl _, id⟩
  tear _ := ⟨List.suffix_refl _, id⟩
  rob _ := by
    refine ⟨List.suffix_refl _, fun hr => ?_⟩
    cases hr
  snip _ := ⟨List.suffix_refl _, id⟩

section runs

variable {S : Setup} (hS : S.Fit)
include hS

/-- Where no HELLO robs its room, the client of a HELLO survives `evict`. -/
theorem dead_evict {r : State} {ci : ℕ} (name : List ℕ) (h : Sound S ∅ ∅ r) (hl : r.Live ci)
    (hok : Fine S (evict S ci name r)) :
    S.rechecks = true ∨ ((evict S ci name r).clients ci).dead = false := by
  obtain hre | ⟨hp, h2⟩ := hS.two
  · exact .inl hre
  refine hok.imp id fun hrob => ?_
  rw [evict] at hrob ⊢
  cases hf : r.nameFind name with
  | none => exact hl.2
  | some old =>
    rw [hf] at hrob
    dsimp only at hrob ⊢
    by_cases hold : old = ci
    · rw [if_pos hold]
      exact hl.2
    · rw [if_neg hold] at hrob ⊢
      by_cases hr : robs S r ci old = true
      · rw [if_pos hr] at hrob
        cases ((passing_robbed S).toClosed.drop r.rob old).2 hrob
      · rw [if_neg hr]
        exact dead_drop h2 hp h (h.entry _ (mem_of_nameFind hf)).1 hl (fun heq => hold heq.symm)
          (by simpa using hr)

theorem handles_well {r : State} {ci : ℕ} (m : Msg) (h : Sound S ∅ ∅ r) (hl : r.Live ci)
    (hok : Fine S (handle S ci m r)) : Keeps S r (handle S ci m r) := by
  by_cases hello : relayed m.type = false ∧ m.type = tHello
  · rw [handle, if_neg (by rw [hello.1]; decide), if_pos hello.2] at hok ⊢
    have hdrop : Keeps S r (drop S r ci) := keeps_drop hS.toOk h fun _ => hl
    rw [onHello] at hok ⊢
    dsimp only at hok ⊢
    split_ifs at hok ⊢ with hshort hver hname
    · exact hdrop
    · exact hdrop
    · refine keeps_takeName hS.toOk hname h hl (dead_evict hS _ h hl ?_)
      · refine hok.imp id fun hr => ?_
        rw [takeName] at hr
        split_ifs at hr
        · exact hr
        · exact ((passing_robbed S).toClosed.rename ci _ _).2 (((passing_robbed S).toClosed.onList ci _).2 hr)
    · exact hdrop
  · exact keeps_handle hS.toOk m h hl fun h1 h2 => absurd ⟨h1, h2⟩ hello

end runs

/-- A relation between states that the events respect, all being sound. -/
structure Respects (S : Setup) (K : State → State → Prop) : Prop where
  refl : ∀ r, K r r
  trans : ∀ {r r' r''}, K r r' → K r' r'' → K r r''
  handle : ∀ {r ci} m, Sound S ∅ ∅ r → r.Live ci → Fine S (handle S ci m r) → K r (handle S ci m r)
  drop : ∀ {r ci}, Sound S ∅ ∅ r → r.Live ci → K r (drop S r ci)
  flush : ∀ {r ci}, Sound S ∅ ∅ r → r.Live ci → K r (flush S (Relay.drop S) ci r)
  accept : ∀ {r} ip now, Sound S ∅ ∅ r → K r (accept S ip now r)

namespace Respects

variable {S : Setup} (hS : S.Fit) {K : State → State → Prop} (hK : Respects S K)
include hS hK

/-- A message leaves a sound state for the next one, so the two go by one induction. -/
theorem drain (ci n : ℕ) {r : State} (b : List ℕ) (h : Sound S ∅ ∅ r) (hl : r.Live ci)
    (hok : Fine S (drain S ci n r b).1) :
    Keeps S r (drain S ci n r b).1 ∧ K r (drain S ci n r b).1 := by
  induction n generalizing r b with
  | zero => exact ⟨.refl h, hK.refl r⟩
  | succ n ih =>
    cases b with
    | nil => exact ⟨.refl h, hK.refl r⟩
    | cons len rest =>
      unfold Relay.drain at hok ⊢
      dsimp only at hok ⊢
      split_ifs at hok ⊢ with h1 h2 h3
      · exact ⟨keeps_drop hS.toOk h fun _ => hl, hK.drop h hl⟩
      · exact ⟨.refl h, hK.refl r⟩
      · exact ⟨handles_well hS _ h hl hok, hK.handle _ h hl hok⟩
      · have hfine := hok.imp id ((passing_robbed S).drain _ _ _ _).2
        have hk := handles_well hS _ h hl hfine
        have hl' : (Relay.handle S ci ⟨rest.headD 0, (rest.take len).tail⟩ r).Live ci :=
          Handled.keeps (fun _ => hl) hk (by simpa using h3)
        obtain ⟨hkeeps, hrest⟩ := ih _ hk.1 hl' hok
        exact ⟨hk.trans hkeeps, hK.trans (hK.handle _ h hl hfine) hrest⟩

theorem feedBuf (ci n : ℕ) (data : List ℕ) {r : State} (b : List ℕ) (h : Sound S ∅ ∅ r)
    (hl : r.Live ci) (hok : Fine S (feedBuf S ci n data r b).1) :
    Keeps S r (feedBuf S ci n data r b).1 ∧ K r (feedBuf S ci n data r b).1 := by
  induction n generalizing r b data with
  | zero => exact ⟨.refl h, hK.refl r⟩
  | succ n ih =>
    unfold Relay.feedBuf at hok ⊢
    dsimp only at hok ⊢
    split_ifs at hok ⊢ with h1 h2 h3
    · exact ⟨.refl h, hK.refl r⟩
    · exact ⟨keeps_drop hS.toOk h fun _ => hl, hK.drop h hl⟩
    · exact hK.drain hS ci _ _ h hl hok
    · obtain ⟨hk, hread⟩ :=
        hK.drain hS ci _ _ h hl (hok.imp id ((passing_robbed S).feedBuf _ _ _ _ _).2)
      have hl' := Handled.keeps (fun _ => hl) hk (by simpa using h3)
      obtain ⟨hkeeps, hrest⟩ := ih _ _ hk.1 hl' hok
      exact ⟨hk.trans hkeeps, hK.trans hread hrest⟩

theorem feed (ci : ℕ) (data : List ℕ) {r : State} (b : List ℕ) (h : Sound S ∅ ∅ r)
    (hl : r.Live ci) (hok : Fine S (feed S ci data r b).1) :
    Keeps S r (feed S ci data r b).1 ∧ K r (feed S ci data r b).1 := by
  unfold Relay.feed at hok ⊢
  split_ifs at hok ⊢
  · exact hK.feedBuf hS ci _ data b h hl hok
  · exact hK.drain hS ci _ _ h hl hok

end Respects

theorem respects_true (S : Setup) : Respects S fun _ _ => True :=
  ⟨fun _ => trivial, fun _ _ => trivial, fun _ _ _ _ => trivial, fun _ _ => trivial,
    fun _ _ => trivial, fun _ _ _ => trivial⟩

section runs

variable {S : Setup} (hS : S.Fit)
include hS

theorem keeps_drain (ci n : ℕ) {r : State} (b : List ℕ) (h : Sound S ∅ ∅ r) (hl : r.Live ci)
    (hok : Fine S (drain S ci n r b).1) : Keeps S r (drain S ci n r b).1 :=
  ((respects_true S).drain hS ci n b h hl hok).1

theorem keeps_feed (ci : ℕ) (data : List ℕ) {r : State} (b : List ℕ) (h : Sound S ∅ ∅ r)
    (hl : r.Live ci) (hok : Fine S (feed S ci data r b).1) : Keeps S r (feed S ci data r b).1 :=
  ((respects_true S).feed hS ci data b h hl hok).1

/-- One event keeps the invariant. -/
theorem sound_step (e : Event) {v : Server} (h : Sound S ∅ ∅ v.st) (hok : Fine S (step S e v).st) :
    Sound S ∅ ∅ (step S e v).st := by
  cases e with
  | accept ip now => exact sound_accept ip now h
  | recv ci data =>
    unfold step at hok ⊢
    dsimp only at hok ⊢
    split_ifs at hok ⊢ with hl
    · exact (keeps_feed hS ci data _ h hl hok).1
    · exact h
  | closed ci =>
    unfold step
    dsimp only
    split_ifs with hl
    · exact (keeps_drop hS.toOk h fun _ => hl).1
    · exact h
  | writable ci =>
    unfold step
    dsimp only
    split_ifs with hl
    · exact (after_flushLoop (drops_drop hS.toOk) ci _ h (liveCount_le_max _) hl).1
    · exact h
  | sweep now =>
    unfold step
    dsimp only
    exact (keeps_sweep hS.toOk now h).1

end runs

theorem record_accept (S : Setup) (ip now : ℕ) (r : State) : (accept S ip now r).heard = r.heard ∧
    (accept S ip now r).robbed = r.robbed ∧ (accept S ip now r).failed = r.failed ∧
      (accept S ip now r).torn = r.torn := by
  unfold accept
  split_ifs
  · exact ⟨rfl, rfl, rfl, rfl⟩
  · exact ⟨rfl, rfl, rfl, rfl⟩
  · split
    · exact ⟨rfl, rfl, rfl, rfl⟩
    · exact ⟨rfl, rfl, rfl, rfl⟩

theorem rooms_accept (S : Setup) (ip now : ℕ) (r : State) : (accept S ip now r).rooms = r.rooms := by
  unfold accept
  split_ifs
  · rfl
  · rfl
  · split
    · rfl
    · rfl

theorem robbed_step (S : Setup) (e : Event) (v : Server) (h : (step S e v).st.robbed = false) :
    v.st.robbed = false := by
  refine ((passing_robbed S).step (fun ip now r => ?_) e v).2 h
  obtain ⟨hheard, hrobbed, -⟩ := record_accept S ip now r
  rw [hheard, hrobbed]
  exact ⟨List.suffix_refl _, id⟩

/-- The invariant holds at the end of every run in which no HELLO robs its room. -/
theorem sound_run {S : Setup} (hS : S.Fit) (es : List Event) (hok : Fine S (run S es).st) :
    Sound S ∅ ∅ (run S es).st := by
  induction es using List.reverseRecOn with
  | nil => exact sound_init
  | append_singleton es e ih =>
    rw [run, List.foldl_append] at hok ⊢
    exact sound_step hS e (ih (hok.imp id (robbed_step S e _))) hok

namespace Respects

variable {S : Setup} (hS : S.Fit) {K : State → State → Prop} (hK : Respects S K)
include hS hK

theorem sweep (now : ℕ) {r : State} (h : Sound S ∅ ∅ r) : K r (sweep S now r) := by
  unfold Relay.sweep
  generalize span S r = l
  induction l generalizing r with
  | nil => exact hK.refl r
  | cons i l ih =>
    rw [List.foldl_cons]
    dsimp only
    split_ifs with hi
    · have hl : r.Live i := ⟨hi.1, hi.2.1⟩
      exact hK.trans (hK.drop h hl) (ih (keeps_drop hS.toOk h fun _ => hl).1)
    · exact ih h

theorem step (e : Event) {v : Server} (h : Sound S ∅ ∅ v.st) (hok : Fine S (step S e v).st) :
    K v.st (step S e v).st := by
  cases e with
  | accept ip now => exact hK.accept ip now h
  | recv ci data =>
    unfold Relay.step at hok ⊢
    dsimp only at hok ⊢
    split_ifs at hok ⊢ with hl
    · exact (hK.feed hS ci data _ h hl hok).2
    · exact hK.refl _
  | closed ci =>
    unfold Relay.step
    dsimp only
    split_ifs with hl
    · exact hK.drop h hl
    · exact hK.refl _
  | writable ci =>
    unfold Relay.step
    dsimp only
    split_ifs with hl
    · exact hK.flush h hl
    · exact hK.refl _
  | sweep now =>
    unfold Relay.step
    dsimp only
    exact hK.sweep hS now h

theorem run (es : List Event) (hok : Fine S (run S es).st) : K State.init (run S es).st := by
  induction es using List.reverseRecOn with
  | nil => exact hK.refl _
  | append_singleton es e ih =>
    rw [Relay.run, List.foldl_append] at hok ⊢
    have hfine : Fine S (Relay.run S es).st := hok.imp id (robbed_step S e _)
    exact hK.trans (ih hfine) (hK.step hS e (sound_run hS es hfine) hok)

end Respects

/-! ### The registry and the rooms as they are between events -/

/-- What holds of the registry, the rooms and the slots between events. -/
structure Whole (S : Setup) (r : State) : Prop where
  names : (r.byName.map Prod.fst).Nodup
  /-- Nobody is registered twice. -/
  owners : (r.byName.map Prod.snd).Nodup
  entry : ∀ e ∈ r.byName, (r.clients e.2).inUse = true ∧ (r.clients e.2).name = e.1 ∧ e.1 ≠ []
  listed : ∀ c, (r.clients c).inUse = true → (r.clients c).name ≠ [] →
    ((r.clients c).name, c) ∈ r.byName
  seats : ∀ ri, (r.rooms ri).used = true → 2 ≤ (r.members ri).length ∧
    (r.members ri).length ≤ S.maxSeats ∧ (r.members ri).Nodup ∧ ∀ m ∈ r.members ri,
      (r.clients m).inUse = true ∧ (r.clients m).room = some ri ∧ (r.clients m).name ≠ []
  room : ∀ c ri, (r.clients c).inUse = true → (r.clients c).room = some ri →
    (r.rooms ri).used = true ∧ c ∈ r.members ri
  count : r.nClients = ((Finset.range maxClients).filter fun c => (r.clients c).inUse).card
  slots : ∀ c, (r.clients c).inUse = true → c < maxClients
  alive : ∀ c, (r.clients c).inUse = true → (r.clients c).dead = false
  published : r.published = r.byName.length

theorem Sound.whole {S : Setup} {r : State} (h : Sound S ∅ ∅ r) : Whole S r := by
  have hlive : ∀ {c}, (r.clients c).inUse = true → r.Live c := by
    intro c hc
    refine ⟨hc, ?_⟩
    by_contra hd
    rw [Bool.not_eq_false] at hd
    exact h.dying c hc hd
  constructor
  · exact h.names
  · exact h.owners
  · intro e he
    obtain ⟨h1, h2, h3⟩ := h.entry e he
    exact ⟨h1.1, h2, h3⟩
  · intro c hc hn
    exact h.listed c (hlive hc) hn
  · intro ri hu
    obtain ⟨h2, hm, hnd, hall⟩ := h.seats ri hu (Set.notMem_empty ri)
    exact ⟨h2, hm, hnd, fun m hmm => ⟨(hall m hmm).1.1, (hall m hmm).2⟩⟩
  · intro c ri hc hr
    exact (h.room c ri (hlive hc) hr).2
  · exact h.count
  · exact h.slots
  · intro c hc
    exact (hlive hc).2
  · exact h.published

theorem fit_cRelay {proto1 : Bool} {maxSeats : ℕ} (h2 : 2 ≤ maxSeats)
    (hp : proto1 = true → maxSeats = 2) (autoGo delay : ℕ) (send : ℕ → SendResult) (seed : ℕ → ℕ) :
    (cRelay proto1 maxSeats autoGo delay send seed).Fit :=
  ⟨⟨h2, hp, le_refl 64⟩, .inl rfl⟩

theorem fit_pyRelay (autoGo delay : ℕ) (send : ℕ → SendResult) (seed : ℕ → ℕ) :
    (pyRelay autoGo delay send seed).Fit :=
  ⟨⟨le_refl 2, fun h => absurd h Bool.false_ne_true, show 64 ≤ 2 * 64 by decide⟩, .inr ⟨rfl, rfl⟩⟩

/-- The representation invariant of `intv-relay.c`: between events its arrays are as they should be,
whatever its clients do and whichever sends fail; no branch that cannot be reached was, nobody was
freed twice, and `drop` never ran out of depth. -/
theorem whole_cRelay {proto1 : Bool} {maxSeats : ℕ} (h2 : 2 ≤ maxSeats)
    (hp : proto1 = true → maxSeats = 2) (autoGo delay : ℕ) (send : ℕ → SendResult) (seed : ℕ → ℕ)
    (es : List Event) :
    Whole (cRelay proto1 maxSeats autoGo delay send seed)
        (run (cRelay proto1 maxSeats autoGo delay send seed) es).st ∧
      (run (cRelay proto1 maxSeats autoGo delay send seed) es).st.fault = false := by
  have h := sound_run (fit_cRelay h2 hp autoGo delay send seed) es (.inl rfl)
  exact ⟨h.whole, h.fault⟩

/-- Three clients meet, and a send to the second one fails. -/
theorem whole_cRelay_three :
    let S := cRelay false 3 0 3 (fun n => if n = 7 then .error else .wrote 99) fun _ => 7
    let v := run S [.accept 1 0, .accept 2 0, .accept 3 0, .recv 0 [4, 1, 2, 65, 65],
      .recv 1 [4, 1, 2, 66, 66], .recv 2 [4, 1, 2, 67, 67], .recv 1 [3, 4, 65, 65],
      .recv 2 [3, 4, 65, 65]]
    v.st.failed = true ∧ Whole S v.st ∧ v.st.fault = false :=
  ⟨by decide +kernel, whole_cRelay (by decide) (fun h => absurd h Bool.false_ne_true) _ _ _ _ _⟩

/-- The registry of `intv_relay_server.py` has live clients only and its rooms are full ones, in every
run in which no client takes the name of its partner while it cannot be told that the partner is gone. -/
theorem whole_pyRelay (autoGo delay : ℕ) (send : ℕ → SendResult) (seed : ℕ → ℕ) (es : List Event)
    (hok : (run (pyRelay autoGo delay send seed) es).st.robbed = false) :
    Whole (pyRelay autoGo delay send seed) (run (pyRelay autoGo delay send seed) es).st :=
  (sound_run (fit_pyRelay autoGo delay send seed) es (.inr hok)).whole

/-- The partner takes the name of the host, and is told. -/
theorem whole_pyRelay_told :
    let S := pyRelay 0 3 (fun _ => .wrote 99) fun _ => 7
    Whole S (run S [.accept 1 0, .accept 2 0, .recv 0 [4, 1, 2, 65, 65], .recv 1 [4, 1, 2, 66, 66],
      .recv 1 [3, 4, 65, 65], .recv 1 [4, 1, 2, 65, 65]]).st :=
  whole_pyRelay _ _ _ _ _ (by decide +kernel)

/-- The partner takes the name of the host and cannot be told: the name stays with a client that is
gone. -/
theorem not_whole_pyRelay :
    let S := pyRelay 0 3 (fun n => if n = 4 then .error else .wrote 99) fun _ => 7
    ¬ Whole S (run S [.accept 1 0, .accept 2 0, .recv 0 [4, 1, 2, 65, 65],
      .recv 1 [4, 1, 2, 66, 66], .recv 1 [3, 4, 65, 65], .recv 1 [4, 1, 2, 65, 65]]).st := by
  intro S h
  have hin := (h.entry ([65, 65], 1) (by decide +kernel)).1
  exact absurd hin (by decide +kernel)

end IntvNetplay.Relay
