import IntvNetplay.Relay.Sound

/-!
# `drop`

The recursion of `drop` ends: the client it is called for is not served any more when the next call is
made.  So `Drops` holds of `dropN` at every depth, by induction, and the depth of 64 is enough.
-/

namespace IntvNetplay.Relay

/-- The options a relay starts with. -/
structure Setup.Ok (S : Setup) : Prop where
  two_le : 2 ≤ S.maxSeats
  pair : S.proto1 = true → S.maxSeats = 2
  rooms : maxClients ≤ 2 * S.maxRooms

theorem sameReg_publish {r : State} (h : r.published = r.byName.length) : SameReg r r.publish :=
  ⟨fun _ => rfl, rfl, rfl, rfl, h.symm, rfl⟩

section pieces

variable {S : Setup} {Z P : Set ℕ} {r r' : State} {ci ri : ℕ}

/-- What the pieces of `drop` up to its sends do to the others. -/
theorem shrinks_of_out (hl : r.Live ci)
    (hc : ∀ x, ¬ r.Live x → r'.clients x = r.clients x)
    (hname : ∀ x, (r'.clients x).name = (r.clients x).name)
    (hlive : ∀ x, r'.Live x ↔ r.Live x ∧ x ≠ ci) (hdead : (r'.clients ci).dead = true)
    (hb : r'.byName = (r.gone ci).byName) (hr : ∀ ri ∈ Z, r'.rooms ri = r.rooms ri)
    (hseats : ∀ c ri, (r'.clients c).room = some ri → (r.clients c).room = some ri) :
    Shrinks Z r r' := by
  refine ⟨fun x hx => ?_, hname, fun x hx => ((hlive x).1 hx).1, fun x hx hd => ?_, ?_, hr, hseats⟩
  · rw [hc x]
    rintro ⟨-, hd⟩
    rw [hx] at hd
    cases hd
  · refine (hlive x).2 ⟨hx, ?_⟩
    rintro rfl
    rw [hdead] at hd
    cases hd
  · rw [hb, byName_gone]
    exact List.filter_sublist

theorem shrinks_gone (hl : r.Live ci) : Shrinks Z r (r.gone ci) := by
  refine shrinks_of_out hl (fun x hx => ?_) name_gone live_gone ?_ rfl (fun ri _ => ?_)
    fun c _ hr => room_gone c ▸ hr
  · rw [clients_gone, if_neg]
    rintro rfl
    exact hx hl
  · rw [clients_gone, if_pos rfl]
  · rw [rooms_gone]

theorem shrinks_out (hl : r.Live ci) (hz : ri ∉ Z) : Shrinks Z r (r.out ci ri) := by
  refine shrinks_of_out hl (fun x hx => ?_) name_out live_out ?_ rfl (fun rj hrj => ?_)
    fun c rj hr => ?_
  · rw [clients_out, if_neg]
    rintro rfl
    exact hx hl
  · rw [clients_out, if_pos rfl]
  · rw [rooms_out, if_neg]
    rintro rfl
    exact hz hrj
  · rw [clients_out] at hr
    split_ifs at hr
    exact hr

theorem shrinks_unroom (h : Sound S Z P r) (hl : r.Live ci) (hr : (r.clients ci).room = some ri) :
    Shrinks Z r ((r.out ci ri).unroom ri) := by
  have hx : ∀ x, x ∉ (r.members ri).erase ci →
      ((r.out ci ri).unroom ri).clients x = (r.out ci ri).clients x := fun x hx => by
    rw [clients_unroom h hl hr, if_neg hx]
  have hself : ci ∉ (r.members ri).erase ci := fun hm => (h.stay hl hr hm).1 rfl
  refine shrinks_of_out hl (fun x hnl => ?_) (fun x => ?_) (live_unroom h hl hr) ?_ rfl
    (fun rj hrj => ?_) fun c rj hcr => ?_
  · rw [hx x fun hm => hnl (h.stay hl hr hm).2.1, clients_out, if_neg]
    rintro rfl
    exact hnl hl
  · rw [clients_unroom h hl hr]
    split_ifs
    · rfl
    · exact name_out x
  · rw [hx ci hself, clients_out, if_pos rfl]
  · have hne : rj ≠ ri := by
      rintro rfl
      exact (h.seated hl hr).1 hrj
    rw [State.unroom]
    dsimp only
    rw [rooms_out, if_neg hne]
  · rw [clients_unroom h hl hr, clients_out] at hcr
    split_ifs at hcr
    exact hcr

theorem shrinks_close (hz : ri ∉ Z) : Shrinks Z r (r.close ri) := by
  refine ⟨fun _ _ => rfl, fun _ => rfl, fun _ => id, fun _ hl _ => hl, List.Sublist.refl _,
    fun rj hrj => ?_, fun _ _ => id⟩
  rw [State.close, State.rooms_setRoom, if_neg]
  rintro rfl
  exact hz hrj

theorem clients_free (hu : (r.clients ci).inUse = true) (x : ℕ) : (r.free ci).clients x =
    if x = ci then { r.clients ci with inUse := false } else r.clients x := by
  rw [State.free, if_pos hu]
  exact State.clients_setClient _ _ _ _

/-- The client whose `drop` it is was served when it began. -/
theorem Shrinks.free (h : Shrinks Z r r') (hl : r.Live ci) (hu : (r'.clients ci).inUse = true)
    (hd : (r'.clients ci).dead = true) : Shrinks Z r (r'.free ci) := by
  have hne : ∀ {x}, x ≠ ci → (r'.free ci).clients x = r'.clients x := fun hx => by
    rw [clients_free hu, if_neg hx]
  have hself : (r'.free ci).clients ci = { r'.clients ci with inUse := false } := by
    rw [clients_free hu, if_pos rfl]
  refine ⟨fun x hx => ?_, fun x => ?_, fun x hx => ?_, fun x hx hxd => ?_, ?_, fun rj hrj => ?_,
    fun x rj hxr => ?_⟩
  · have hxc : x ≠ ci := by
      rintro rfl
      rw [hl.2] at hx
      cases hx
    rw [hne hxc]
    exact h.frozen x hx
  · by_cases hxc : x = ci
    · rw [hxc, hself]
      exact h.name ci
    · rw [hne hxc]
      exact h.name x
  · by_cases hxc : x = ci
    · rw [hxc]
      exact hl
    · rw [State.Live, hne hxc] at hx
      exact h.live x hx
  · have hxc : x ≠ ci := by
      rintro rfl
      rw [hself] at hxd
      rw [hd] at hxd
      cases hxd
    rw [State.Live, hne hxc]
    rw [hne hxc] at hxd
    exact h.spared x hx hxd
  · rw [State.free, if_pos hu]
    exact h.names
  · rw [State.free, if_pos hu]
    exact h.kept rj hrj
  · by_cases hxc : x = ci
    · rw [hxc, hself] at hxr
      rw [hxc]
      exact h.seats ci rj hxr
    · rw [hne hxc] at hxr
      exact h.seats x rj hxr

theorem liveCount_le_max (r : State) : r.liveCount ≤ maxClients := by
  have := Finset.card_filter_le (Finset.range maxClients) r.Live
  rwa [Finset.card_range] at this

/-- The end of a `drop`. -/
theorem after_free {r₁ : State} (hl : r.Live ci) (hs : Shrinks Z r r₁)
    (hu : (r₁.clients ci).inUse = true) (hd : (r₁.clients ci).dead = true)
    (h : After S Z (insert ci P) r₁ r') :
    After S Z P r (r'.free ci) ∧ ((r'.free ci).clients ci).dead = true := by
  have hreg := h.2.frozen ci hd
  have hu' : (r'.clients ci).inUse = true := (congrArg Prod.fst hreg).trans hu
  have hd' := h.2.dead hd
  refine ⟨⟨sound_free h.1 hu' hd', (hs.trans h.2).free hl hu' hd'⟩, ?_⟩
  rw [clients_free hu', if_pos rfl]
  exact hd'

end pieces

/-- A room of one is given up. -/
theorem close_pair {r : State} {ri partner : ℕ} (hmem : r.members ri = [partner]) :
    (r.close ri).setClient partner { (r.close ri).clients partner with room := none } =
      (r.unroom ri).close ri := by
  have hclients : Function.update r.clients partner { r.clients partner with room := none } =
      fun c => if c ∈ r.members ri then { r.clients c with room := none } else r.clients c := by
    funext c
    rw [Function.update_apply, hmem]
    by_cases hc : c = partner
    · rw [if_pos hc, if_pos (List.mem_singleton.2 hc), hc]
    · rw [if_neg hc, if_neg fun hm => hc (List.mem_singleton.1 hm)]
  rw [State.unroom, ← hclients]
  rfl

/-! ### A room without one of its members -/

section seated

variable {S : Setup} {Z P : Set ℕ} {D : State → ℕ → State} {k : ℕ} (hD : Drops S D k)
variable {r : State} {ci ri : ℕ} (h : Sound S Z P r) (hl : r.Live ci)
  (hr : (r.clients ci).room = some ri) (hk : r.liveCount ≤ k + 1)

section count
include h hl hk

/-- One client less is served. -/
theorem liveCount_rest {r' : State} (hlive : ∀ c, r'.Live c → r.Live c ∧ c ≠ ci) :
    r'.liveCount ≤ k := by
  have := liveCount_lt (fun c hc => (hlive c hc).1) (h.slots ci hl.1) hl
    fun hn => (hlive ci hn).2 rfl
  omega

end count

include h hl hr

theorem known_stay : Known ((r.out ci ri).unroom ri) ((r.members ri).erase ci) := by
  intro c hc _
  obtain ⟨hne, hlc, -⟩ := h.stay hl hr hc
  exact (live_unroom h hl hr c).2 ⟨hlc, hne⟩

include hD hk

theorem after_dissolve {notify : List ℕ} (hn : ∀ c ∈ notify, c ∈ (r.members ri).erase ci) :
    Sound S Z (insert ci P) (dissolve S D ri notify (r.out ci ri)) ∧
      Shrinks Z ((r.out ci ri).unroom ri) (dissolve S D ri notify (r.out ci ri)) := by
  have hz := (h.seated hl hr).1
  have hcount : ((r.out ci ri).unroom ri).liveCount ≤ k :=
    liveCount_rest h hl hk fun c hc => (live_unroom h hl hr c).1 hc
  obtain ⟨hsound, hshrinks⟩ := after_sendAll hD goneMsg notify (sound_unroom h hl hr) hcount
    fun c hc => known_stay h hl hr c (hn c hc)
  rw [dissolve]
  exact ⟨sound_close hz hsound, (hshrinks.mono (Set.subset_insert _ _)).trans (shrinks_close hz)⟩

theorem after_dropSeat (seat : ℕ) :
    ∃ r₁, Shrinks Z r r₁ ∧ (r₁.clients ci).inUse = true ∧ (r₁.clients ci).dead = true ∧
      After S Z (insert ci P) r₁ (dropSeat S D ci ri seat (r.out ci ri)) := by
  have hz := (h.seated hl hr).1
  have hself : ∀ {r₁ : State}, Shrinks Z (r.out ci ri) r₁ → (r₁.clients ci).inUse = true ∧
      (r₁.clients ci).dead = true := by
    intro r₁ hs
    have hdead : ((r.out ci ri).clients ci).dead = true := by rw [clients_out, if_pos rfl]
    have huse : ((r.out ci ri).clients ci).inUse = true := (inUse_out ci).trans hl.1
    exact ⟨(congrArg Prod.fst (hs.frozen ci hdead)).trans huse, hs.dead hdead⟩
  have hself' : (((r.out ci ri).unroom ri).clients ci).inUse = true ∧
      (((r.out ci ri).unroom ri).clients ci).dead = true := by
    rw [clients_unroom h hl hr, if_neg fun hm => (h.stay hl hr hm).1 rfl]
    exact hself (.refl _)
  have hgone := shrinks_unroom h hl hr
  have hall := @after_dissolve _ _ _ _ _ hD _ _ _ h hl hr hk ((r.members ri).erase ci) fun _ => id
  have hnone := @after_dissolve _ _ _ _ _ hD _ _ _ h hl hr hk [] (by simp)
  have hcount : ∀ {r₁ : State}, Shrinks Z ((r.out ci ri).unroom ri) r₁ → r₁.liveCount ≤ k :=
    fun hs => liveCount_rest h hl hk fun c hc => (live_unroom h hl hr c).1 (hs.live c hc)
  unfold dropSeat
  rw [members_out]
  split_ifs with hst hseat hfew
  · refine ⟨_, hgone, hself'.1, hself'.2, ?_⟩
    have hsend := after_sendAll hD (leftMsg seat ((r.out ci ri).clients ci).name)
      ((r.members ri).erase ci) hnone.1 (hcount hnone.2)
      ((known_stay h hl hr).shrinks hnone.2)
    exact ⟨hsend.1, hnone.2.trans hsend.2⟩
  · exact ⟨_, hgone, hself'.1, hself'.2, hall⟩
  · exact ⟨_, hgone, hself'.1, hself'.2, hall⟩
  · have hsound := sound_left h hl hr (by omega)
    exact ⟨_, shrinks_out hl hz, (hself (.refl _)).1, (hself (.refl _)).2,
      after_announce hD ri _ hsound (liveCount_rest h hl hk fun c hc => (live_out c).1 hc) hz⟩

theorem after_dropPair (h2 : S.maxSeats = 2) :
    ∃ r₁, Shrinks Z r r₁ ∧ (r₁.clients ci).inUse = true ∧ (r₁.clients ci).dead = true ∧
      After S Z (insert ci P) r₁ (dropPair S D ri (r.out ci ri)) := by
  obtain ⟨hz, hu, hci, hnd, hmax, hmin⟩ := h.seated hl hr
  obtain ⟨partner, hp⟩ : ∃ p, (r.members ri).erase ci = [p] := by
    have hlen := List.length_erase_of_mem hci
    exact List.length_eq_one_iff.1 (by omega)
  have hmem : (r.out ci ri).members ri = [partner] := by rw [members_out, hp]
  have hpm : partner ∈ (r.members ri).erase ci := by
    rw [hp]
    exact List.mem_singleton_self _
  have hstate := close_pair hmem
  have hsound := sound_close hz (sound_unroom h hl hr)
  have hshrinks : Shrinks Z ((r.out ci ri).unroom ri) (((r.out ci ri).unroom ri).close ri) :=
    shrinks_close hz
  have hcount : (((r.out ci ri).unroom ri).close ri).liveCount ≤ k :=
    liveCount_rest h hl hk fun c hc => (live_unroom h hl hr c).1 (hshrinks.live c hc)
  have hsend := after_sendRaw hD partner ⟨tPeerLeft, []⟩ none hsound hcount
    fun hd => ((known_stay h hl hr).shrinks hshrinks) partner hpm hd
  refine ⟨_, shrinks_unroom h hl hr, ?_, ?_, ?_⟩
  · rw [clients_unroom h hl hr, if_neg fun hm => (h.stay hl hr hm).1 rfl]
    exact (inUse_out ci).trans hl.1
  · rw [clients_unroom h hl hr, if_neg fun hm => (h.stay hl hr hm).1 rfl, clients_out, if_pos rfl]
  · rw [dropPair, hmem]
    dsimp only
    rw [hstate]
    exact ⟨hsend.1, hshrinks.trans hsend.2⟩

end seated

/-! ### The recursion -/

/-- `drop` of a client that is not dead. -/
theorem dropBody_eq (S : Setup) (D : State → ℕ → State) {r : State} {ci : ℕ}
    (hd : (r.clients ci).dead = false) :
    dropBody S D r ci = match (r.clients ci).room with
      | none => (r.gone ci).free ci
      | some ri =>
        if S.proto1 then (dropPair S D ri (r.out ci ri)).free ci
        else (dropSeat S D ci ri ((r.members ri).idxOf ci) (r.out ci ri)).publish.free ci := by
  rw [dropBody, if_neg (by rw [hd]; decide)]
  change (match ((r.gone ci).clients ci).room with
    | none => _
    | some ri => if S.proto1 then _ else
        (dropSeat S D ci ri (((r.gone ci).members ri).idxOf ci) _).publish.free ci) = _
  rw [room_gone]
  simp only [State.members, rooms_gone]
  rfl

section recursion

variable {S : Setup} (hS : S.Ok) {Z P : Set ℕ}
include hS

theorem drops_dropBody {D : State → ℕ → State} {k : ℕ} (hD : Drops S D k) :
    Drops S (dropBody S D) (k + 1) := by
  intro Z P r ci h hk hl
  rw [dropBody_eq S D hl.2]
  cases hr : (r.clients ci).room with
  | none =>
    have hgone := sound_solo h hl hr
    have hself : ((r.gone ci).clients ci).inUse = true ∧ ((r.gone ci).clients ci).dead = true := by
      rw [clients_gone, if_pos rfl]
      exact ⟨hl.1, rfl⟩
    exact after_free hl (shrinks_gone hl) hself.1 hself.2 (.of_same hgone (.refl _))
  | some ri =>
    dsimp only
    split_ifs with hp
    · obtain ⟨r₁, hs, hu, hd, hafter⟩ := after_dropPair hD h hl hr hk (hS.pair hp)
      exact after_free hl hs hu hd hafter
    · obtain ⟨r₁, hs, hu, hd, hafter⟩ := after_dropSeat hD h hl hr hk ((r.members ri).idxOf ci)
      exact after_free hl hs hu hd
        (hafter.trans (.of_same hafter.1 (sameReg_publish hafter.1.published)))

theorem drops_dropN (k : ℕ) : Drops S (dropN S k) k := by
  induction k with
  | zero =>
    intro Z P r ci h hk hl
    have hmem : ci ∈ (Finset.range maxClients).filter r.Live := by
      rw [Finset.mem_filter, Finset.mem_range]
      exact ⟨h.slots ci hl.1, hl⟩
    have := Finset.card_pos.2 ⟨ci, hmem⟩
    rw [State.liveCount] at hk
    omega
  | succ k ih => exact drops_dropBody hS ih

/-- `drop` of a client that is served. -/
theorem after_drop {r : State} {ci : ℕ} (h : Sound S Z P r) (hl : r.Live ci) :
    After S Z P r (drop S r ci) ∧ ((drop S r ci).clients ci).dead = true :=
  drops_dropN hS maxClients Z P r ci h (liveCount_le_max r) hl

theorem drops_drop : Drops S (drop S) maxClients := drops_dropN hS maxClients

end recursion

end IntvNetplay.Relay
