import IntvNetplay.Relay.Invariant

/-!
# Who is in which room

That the members of a room are those who refer to it holds in every run of either program, also where
the registry has gone wrong.  `Z` are the rooms that are being dissolved.
-/

namespace IntvNetplay.Relay

/-- The members of the rooms. -/
structure Seats (S : Setup) (Z : Set ℕ) (r : State) : Prop where
  mem : ∀ ri, ri ∉ Z → ∀ c, c ∈ r.members ri ↔ (r.clients c).room = some ri
  gone : ∀ ri ∈ Z, ∀ c, (r.clients c).room ≠ some ri
  nodup : ∀ ri, (r.members ri).Nodup
  few : ∀ ri, (r.members ri).length ≤ S.maxSeats
  unused : ∀ ri, (r.rooms ri).used = false → r.members ri = []
  numbers : ∀ ri, (r.rooms ri).used = true → ri < S.maxRooms

/-- Members part, nobody gets into a room, and who is not dropped is served on. -/
structure Parts (r r' : State) : Prop extends Spares r r' where
  rooms : ∀ c ri, (r'.clients c).room = some ri → (r.clients c).room = some ri
  sub : ∀ ri, (r'.members ri).Sublist (r.members ri)

theorem Parts.refl (r : State) : Parts r r := ⟨.refl r, fun _ _ => id, fun _ => List.Sublist.refl _⟩

theorem Parts.trans {r r' r'' : State} (h : Parts r r') (h' : Parts r' r'') : Parts r r'' :=
  ⟨h.toSpares.trans h'.toSpares, fun c ri hr => h.rooms c ri (h'.rooms c ri hr),
    fun ri => (h'.sub ri).trans (h.sub ri)⟩

section basics

variable {S : Setup} {Z : Set ℕ} {r r' : State} {ci ri : ℕ}

theorem Seats.of_rooms (h : Seats S Z r) (hc : ∀ c, (r'.clients c).room = (r.clients c).room)
    (hr : r'.rooms = r.rooms) : Seats S Z r' := by
  have hmem : ∀ ri, r'.members ri = r.members ri := fun ri => by
    rw [State.members, hr]
    rfl
  constructor
  · intro ri hz c
    rw [hmem, hc]
    exact h.mem ri hz c
  · intro ri hz c
    rw [hc]
    exact h.gone ri hz c
  · intro ri
    rw [hmem]
    exact h.nodup ri
  · intro ri
    rw [hmem]
    exact h.few ri
  · intro ri hu
    rw [hr] at hu
    rw [hmem]
    exact h.unused ri hu
  · intro ri hu
    rw [hr] at hu
    exact h.numbers ri hu

theorem Parts.of_same (h : SameReg r r') : Parts r r' := by
  refine ⟨.of_reg fun c => ⟨h.inUse c, h.dead c⟩, fun c ri hr => ?_, fun ri => ?_⟩
  · rw [h.room] at hr
    exact hr
  · rw [State.members, h.rooms]
    exact List.Sublist.refl _

/-- A piece of `drop`. -/
def Leaves (S : Setup) (Z : Set ℕ) (r r' : State) : Prop := Seats S Z r' ∧ Parts r r'

theorem Leaves.trans {r'' : State} (h : Leaves S Z r r') (h' : Leaves S Z r' r'') :
    Leaves S Z r r'' := ⟨h'.1, h.2.trans h'.2⟩

theorem Leaves.of_same (h : Seats S Z r) (hs : SameReg r r') : Leaves S Z r r' :=
  ⟨h.of_rooms hs.room hs.rooms, .of_same hs⟩

theorem Leaves.refl (h : Seats S Z r) : Leaves S Z r r := ⟨h, .refl r⟩

/-- The end of a `drop`. -/
theorem Parts.free (h : Parts r r') (hd : (r'.clients ci).dead = true) : Parts r (r'.free ci) := by
  have hother : ∀ {c}, c ≠ ci → (r'.free ci).clients c = r'.clients c := clients_free_ne
  have hself : (r'.free ci).clients ci = { r'.clients ci with inUse := false } := by
    rw [State.free]
    dsimp only
    rw [State.clients_setClient, if_pos rfl]
  have hrooms : (r'.free ci).rooms = r'.rooms := by
    rw [State.free]
    cases (r'.clients ci).inUse with
    | true => rfl
    | false => rfl
  refine ⟨⟨fun c hc => ?_, fun c hl hc => ?_, fun c hl => ?_⟩, fun c ri hr => ?_, fun ri => ?_⟩
  · by_cases heq : c = ci
    · rw [heq, hself]
      exact hd
    · rw [hother heq]
      exact h.dead c hc
  · by_cases heq : c = ci
    · rw [heq, hself] at hc
      rw [hd] at hc
      cases hc
    · rw [hother heq] at hc
      rw [State.Live, hother heq]
      exact h.spared c hl hc
  · by_cases heq : c = ci
    · rw [State.Live, heq, hself] at hl
      cases hl.1
    · rw [State.Live, hother heq] at hl
      exact h.live c hl
  · by_cases heq : c = ci
    · rw [heq, hself] at hr
      rw [heq]
      exact h.rooms ci ri hr
    · rw [hother heq] at hr
      exact h.rooms c ri hr
  · rw [State.members, hrooms]
    exact h.sub ri

theorem parts_gone : Parts r (r.gone ci) := by
  refine ⟨⟨fun c hc => ?_, fun c hl hc => ?_, fun c hl => ((live_gone c).1 hl).1⟩, fun c ri hr => ?_,
    fun ri => ?_⟩
  · rw [clients_gone]
    split_ifs
    · rfl
    · exact hc
  · refine (live_gone c).2 ⟨hl, ?_⟩
    rintro rfl
    rw [clients_gone, if_pos rfl] at hc
    cases hc
  · rwa [room_gone] at hr
  · rw [State.members, rooms_gone]
    exact List.Sublist.refl _

theorem parts_out : Parts r (r.out ci ri) := by
  refine ⟨⟨fun c hc => ?_, fun c hl hc => ?_, fun c hl => ((live_out c).1 hl).1⟩, fun c rj hr => ?_,
    fun rj => ?_⟩
  · rw [clients_out]
    split_ifs
    · rfl
    · exact hc
  · refine (live_out c).2 ⟨hl, ?_⟩
    rintro rfl
    rw [clients_out, if_pos rfl] at hc
    cases hc
  · rw [clients_out] at hr
    split_ifs at hr
    exact hr
  · rw [State.members, rooms_out]
    split_ifs with hrj
    · rw [hrj]
      exact List.erase_sublist
    · exact List.Sublist.refl _

theorem parts_unroom : Parts r (r.unroom ri) := by
  have hc : ∀ c, ((r.unroom ri).clients c).inUse = (r.clients c).inUse ∧
      ((r.unroom ri).clients c).dead = (r.clients c).dead := by
    intro c
    rw [State.unroom]
    dsimp only
    split_ifs
    · exact ⟨rfl, rfl⟩
    · exact ⟨rfl, rfl⟩
  refine ⟨.of_reg hc, fun c rj hr => ?_, fun rj => List.Sublist.refl _⟩
  rw [State.unroom] at hr
  dsimp only at hr
  split_ifs at hr
  exact hr

theorem parts_close : Parts r (r.close ri) := by
  refine ⟨.of_reg fun _ => ⟨rfl, rfl⟩, fun _ _ => id, fun rj => ?_⟩
  rw [State.close, State.members, State.rooms_setRoom]
  split_ifs
  · exact List.nil_sublist _
  · exact List.Sublist.refl _

theorem seats_out (h : Seats S Z r) (hr : (r.clients ci).room = some ri) :
    Seats S Z (r.out ci ri) := by
  have hz : ri ∉ Z := fun hz => h.gone ri hz ci hr
  have hmem : ∀ rj, (r.out ci ri).members rj =
      if rj = ri then (r.members ri).erase ci else r.members rj := by
    intro rj
    rw [State.members, rooms_out]
    split_ifs
    · rfl
    · rfl
  constructor
  · intro rj hzj c
    rw [hmem, clients_out]
    by_cases hc : c = ci
    · rw [if_pos hc, hc]
      split_ifs with hrj
      · exact iff_of_false (h.nodup ri).not_mem_erase (by simp)
      · refine iff_of_false (fun hm => ?_) (by simp)
        have := (h.mem rj hzj ci).1 hm
        rw [hr] at this
        exact hrj (Option.some.inj this).symm
    · rw [if_neg hc]
      split_ifs with hrj
      · rw [List.mem_erase_of_ne hc, hrj]
        exact h.mem ri hz c
      · exact h.mem rj hzj c
  · intro rj hzj c hcr
    exact h.gone rj hzj c (parts_out.rooms c rj hcr)
  · intro rj
    exact (h.nodup rj).sublist (parts_out.sub rj)
  · intro rj
    have hparts : Parts r (r.out ci ri) := parts_out
    exact (hparts.sub rj).length_le.trans (h.few rj)
  · intro rj hu
    rw [rooms_out] at hu
    rw [hmem]
    split_ifs at hu ⊢ with hrj
    · rw [h.unused ri hu]
      rfl
    · exact h.unused rj hu
  · intro rj hu
    rw [rooms_out] at hu
    split_ifs at hu with hrj
    · rw [hrj]
      exact h.numbers ri hu
    · exact h.numbers rj hu

theorem seats_unroom (h : Seats S Z r) (hz : ri ∉ Z) : Seats S (insert ri Z) (r.unroom ri) := by
  have hc : ∀ c, ((r.unroom ri).clients c).room =
      if c ∈ r.members ri then none else (r.clients c).room := by
    intro c
    rw [State.unroom]
    dsimp only
    split_ifs
    · rfl
    · rfl
  constructor
  · intro rj hzj c
    rw [hc]
    have hne : rj ≠ ri := fun heq => hzj (.inl heq)
    have hmem := h.mem rj (fun hin => hzj (.inr hin)) c
    by_cases hin : c ∈ r.members ri
    · rw [if_pos hin]
      refine iff_of_false (fun hm => ?_) (by simp)
      have h1 := hmem.1 hm
      rw [(h.mem ri hz c).1 hin] at h1
      exact hne (Option.some.inj h1).symm
    · rw [if_neg hin]
      exact hmem
  · intro rj hzj c hcr
    rw [hc] at hcr
    split_ifs at hcr with hin
    rcases hzj with heq | hzj
    · rw [heq] at hcr
      exact hin ((h.mem ri hz c).2 hcr)
    · exact h.gone rj hzj c hcr
  · exact h.nodup
  · exact h.few
  · exact h.unused
  · exact h.numbers

theorem seats_close (h : Seats S (insert ri Z) r) : Seats S Z (r.close ri) := by
  have hmem : ∀ rj, (r.close ri).members rj = if rj = ri then [] else r.members rj := by
    intro rj
    rw [State.close, State.members, State.rooms_setRoom]
    split_ifs
    · rfl
    · rfl
  constructor
  · intro rj hzj c
    rw [hmem]
    split_ifs with hrj
    · refine iff_of_false (by simp) ?_
      rw [hrj]
      exact h.gone ri (.inl rfl) c
    · exact h.mem rj (fun hin => hin.elim hrj hzj) c
  · intro rj hzj
    exact h.gone rj (.inr hzj)
  · intro rj
    rw [hmem]
    split_ifs
    · exact List.nodup_nil
    · exact h.nodup rj
  · intro rj
    rw [hmem]
    split_ifs
    · exact Nat.zero_le _
    · exact h.few rj
  · intro rj hu
    rw [hmem]
    split_ifs with hrj
    · rfl
    · rw [State.close, State.rooms_setRoom, if_neg hrj] at hu
      exact h.unused rj hu
  · intro rj hu
    rw [State.close, State.rooms_setRoom] at hu
    split_ifs at hu
    exact h.numbers rj hu

end basics

/-! ### `drop` -/

section nested

variable {S : Setup} {D : State → ℕ → State}
  (hD : ∀ Z r ci, Seats S Z r → Leaves S Z r (D r ci)) {Z : Set ℕ} {r : State}
include hD

theorem leaves_flushLoop (ci k : ℕ) (h : Seats S Z r) : Leaves S Z r (flushLoop S D ci k r) := by
  induction k generalizing r with
  | zero => exact .refl h
  | succ k ih =>
    have hcall := Leaves.of_same h (sameReg_called r)
    have hdrop : Leaves S Z r (D r.called.fail ci) :=
      (hcall.trans (.of_same hcall.1 (sameReg_fail r.called))).trans (hD Z _ ci (hcall.1.of_rooms
        (fun _ => rfl) rfl))
    unfold flushLoop
    split
    · exact .refl h
    · split
      · rename_i j _
        have hw := hcall.trans (.of_same hcall.1 (sameReg_wrote _ ci (j + 1)))
        exact hw.trans (ih hw.1)
      · exact hcall
      · exact hdrop
      · exact hdrop

theorem leaves_sendRaw (ci : ℕ) (m : Msg) (src : Option ℕ) (h : Seats S Z r) :
    Leaves S Z r (sendRaw S D ci m src r) := by
  rw [sendRaw]
  split_ifs
  · exact .refl h
  · have hf := Leaves.of_same h (sameReg_fail r)
    exact hf.trans (hD Z _ ci hf.1)
  · have hq := Leaves.of_same h (sameReg_queue r ci m src)
    exact hq.trans (leaves_flushLoop hD ci _ hq.1)

theorem leaves_sendAll (m : Msg) (l : List ℕ) (h : Seats S Z r) :
    Leaves S Z r (sendAll S D m l r) := by
  induction l generalizing r with
  | nil => exact .refl h
  | cons c l ih =>
    have hs := leaves_sendRaw (S := S) hD c m none h
    exact hs.trans (ih hs.1)

theorem leaves_announceTo (l : List (ℕ × Msg)) (h : Seats S Z r) :
    Leaves S Z r (announceTo S D l r) := by
  induction l generalizing r with
  | nil => exact .refl h
  | cons e l ih =>
    have hs := leaves_sendRaw (S := S) hD e.1 e.2 none h
    have hstep : ∀ b : Bool, Leaves S Z r
        (if b then (sendRaw S D e.1 e.2 none r).tear else sendRaw S D e.1 e.2 none r) := by
      intro b
      cases b with
      | false => exact hs
      | true => exact hs.trans (.of_same hs.1 (sameReg_tear _))
    simp only [announceTo]
    exact (hstep _).trans (ih (hstep _).1)

theorem leaves_announceLive (ri : ℕ) (m : ℕ → Msg) (k i : ℕ) (h : Seats S Z r) :
    Leaves S Z r (announceLive S D ri m k i r) := by
  induction k generalizing r i with
  | zero => exact .refl h
  | succ k ih =>
    unfold announceLive
    split
    · exact .refl h
    · rename_i c _
      have hs := leaves_sendRaw (S := S) hD c (m i) none h
      exact hs.trans (ih _ hs.1)

theorem leaves_announce (ri : ℕ) (m : ℕ → Msg) (h : Seats S Z r) :
    Leaves S Z r (announce S D ri m r) := by
  rw [announce]
  split_ifs
  · exact leaves_announceLive hD ri m _ _ h
  · exact leaves_announceTo hD _ h

theorem leaves_dissolve {ri : ℕ} (notify : List ℕ) (h : Seats S Z r) (hz : ri ∉ Z) :
    Leaves S Z r (dissolve S D ri notify r) := by
  have hs := leaves_sendAll (S := S) hD goneMsg notify (seats_unroom h hz)
  rw [dissolve]
  exact ⟨seats_close hs.1, (parts_unroom.trans hs.2).trans parts_close⟩

theorem leaves_dropSeat {ci ri : ℕ} (seat : ℕ) (h : Seats S Z r) (hz : ri ∉ Z) :
    Leaves S Z r (dropSeat S D ci ri seat r) := by
  rw [dropSeat]
  split_ifs
  · have hd : Leaves S Z r (dissolve S D ri [] r) := leaves_dissolve hD [] h hz
    exact hd.trans (leaves_sendAll hD _ _ hd.1)
  · exact leaves_dissolve hD _ h hz
  · exact leaves_dissolve hD _ h hz
  · exact leaves_announce hD ri _ h

theorem leaves_dropPair {ri : ℕ} (hn : (r.members ri).length < 2) (h : Seats S Z r)
    (hz : ri ∉ Z) : Leaves S Z r (dropPair S D ri r) := by
  rw [dropPair]
  cases hm : r.members ri with
  | nil =>
    have hun : r.unroom ri = r := by
      rw [State.unroom, hm]
      rfl
    have hc := seats_unroom h hz
    rw [hun] at hc
    exact ⟨seats_close hc, parts_close⟩
  | cons p l =>
    have hl : l = [] := by
      rw [hm, List.length_cons] at hn
      exact List.eq_nil_of_length_eq_zero (by omega)
    rw [hl] at hm
    dsimp only
    rw [close_pair hm]
    have hc : Leaves S Z r ((r.unroom ri).close ri) :=
      ⟨seats_close (seats_unroom h hz), parts_unroom.trans parts_close⟩
    exact hc.trans (leaves_sendRaw hD p _ none hc.1)

theorem leaves_dropBody (hp : S.proto1 = true → S.maxSeats = 2) (ci : ℕ) (h : Seats S Z r) :
    Leaves S Z r (dropBody S D r ci) ∧ ((dropBody S D r ci).clients ci).dead = true := by
  cases hd : (r.clients ci).dead with
  | true =>
    rw [dropBody, if_pos hd]
    exact ⟨.refl h, hd⟩
  | false =>
    rw [dropBody_eq S D hd]
    have hend : ∀ r' : State, Leaves S Z r r' → (r'.clients ci).dead = true →
        Leaves S Z r (r'.free ci) ∧ ((r'.free ci).clients ci).dead = true := by
      intro r' hl hdead
      have hparts := hl.2.free hdead
      have hroom : ∀ c, ((r'.free ci).clients c).room = (r'.clients c).room := by
        intro c
        by_cases hc : c = ci
        · rw [hc, State.free]
          dsimp only
          rw [State.clients_setClient, if_pos rfl]
        · rw [clients_free_ne hc]
      have hrooms : (r'.free ci).rooms = r'.rooms := by
        rw [State.free]
        cases (r'.clients ci).inUse with
        | true => rfl
        | false => rfl
      refine ⟨⟨hl.1.of_rooms hroom hrooms, hparts⟩, ?_⟩
      rw [State.free]
      dsimp only
      rw [State.clients_setClient, if_pos rfl]
      exact hdead
    cases hr : (r.clients ci).room with
    | none =>
      refine hend _ ⟨h.of_rooms room_gone rooms_gone, parts_gone⟩ ?_
      rw [clients_gone, if_pos rfl]
    | some ri =>
      have hz : ri ∉ Z := fun hz => h.gone ri hz ci hr
      have hout : Leaves S Z r (r.out ci ri) := ⟨seats_out h hr, parts_out⟩
      have hdead : ((r.out ci ri).clients ci).dead = true := by rw [clients_out, if_pos rfl]
      dsimp only
      split_ifs with hp1
      · have hlen : ((r.out ci ri).members ri).length < 2 := by
          have hci := (h.mem ri hz ci).2 hr
          have := List.length_erase_of_mem hci
          have := h.few ri
          have := List.length_pos_of_mem hci
          rw [members_out]
          have := hp hp1
          omega
        have hpair := leaves_dropPair (S := S) hD hlen hout.1 hz
        exact hend _ (hout.trans hpair) (hpair.2.dead ci hdead)
      · have hseat : Leaves S Z (r.out ci ri)
            (dropSeat S D ci ri ((r.members ri).idxOf ci) (r.out ci ri)) :=
          leaves_dropSeat hD _ hout.1 hz
        have hpub : ∀ r' : State, Leaves S Z r r' → Leaves S Z r r'.publish := fun r' hl =>
          ⟨hl.1.of_rooms (fun _ => rfl) rfl, hl.2.trans ⟨.of_reg fun _ => ⟨rfl, rfl⟩, fun _ _ => id,
            fun _ => List.Sublist.refl _⟩⟩
        exact hend _ (hpub _ (hout.trans hseat)) (hseat.2.dead ci hdead)

end nested

section recursion

variable {S : Setup} (hp : S.proto1 = true → S.maxSeats = 2)
include hp

theorem leaves_dropN (k : ℕ) (Z : Set ℕ) (r : State) (ci : ℕ) (h : Seats S Z r) :
    Leaves S Z r (dropN S k r ci) := by
  induction k generalizing Z r ci with
  | zero => exact ⟨h.of_rooms (fun _ => rfl) rfl, ⟨.of_reg fun _ => ⟨rfl, rfl⟩, fun _ _ => id,
      fun _ => List.Sublist.refl _⟩⟩
  | succ k ih => exact (leaves_dropBody ih hp ci h).1

theorem leaves_drop (Z : Set ℕ) (r : State) (ci : ℕ) (h : Seats S Z r) :
    Leaves S Z r (drop S r ci) := leaves_dropN hp maxClients Z r ci h

theorem dead_dropped {Z : Set ℕ} {r : State} (ci : ℕ) (h : Seats S Z r) :
    ((drop S r ci).clients ci).dead = true :=
  (leaves_dropBody (leaves_dropN hp 63) hp ci h).2

end recursion

/-! ### The protocol -/

/-- What a handler does. -/
def Stays (S : Setup) (r r' : State) : Prop := Seats S ∅ r' ∧ Spares r r'

section handlers

variable {S : Setup} {r r' r'' : State} {ci ri : ℕ}

theorem Stays.refl (h : Seats S ∅ r) : Stays S r r := ⟨h, .refl r⟩

theorem Stays.trans (h : Stays S r r') (h' : Stays S r' r'') : Stays S r r'' :=
  ⟨h'.1, h.2.trans h'.2⟩

theorem Leaves.stays (h : Leaves S ∅ r r') : Stays S r r' := ⟨h.1, h.2.toSpares⟩

/-- A change of neither the rooms nor who is served. -/
theorem Stays.of_rooms (h : Seats S ∅ r) (hc : ∀ c, (r'.clients c).room = (r.clients c).room ∧
    (r'.clients c).inUse = (r.clients c).inUse ∧ (r'.clients c).dead = (r.clients c).dead)
    (hr : r'.rooms = r.rooms) : Stays S r r' :=
  ⟨h.of_rooms (fun c => (hc c).1) hr, .of_reg fun c => (hc c).2⟩

theorem stays_start (h : Seats S ∅ r) (sd : ℕ) :
    Stays S r (r.setRoom ri { r.rooms ri with started := true, seed := sd }) := by
  have hsame : ∀ rj, ((r.setRoom ri { r.rooms ri with started := true, seed := sd }).rooms rj).used =
      (r.rooms rj).used ∧
      (r.setRoom ri { r.rooms ri with started := true, seed := sd }).members rj = r.members rj := by
    intro rj
    rw [State.members, State.rooms_setRoom]
    split_ifs with hrj
    · rw [hrj]
      exact ⟨rfl, rfl⟩
    · exact ⟨rfl, rfl⟩
  refine ⟨⟨fun rj hz c => ?_, fun rj hz => hz.elim, fun rj => ?_, fun rj => ?_, fun rj hu => ?_,
    fun rj hu => ?_⟩, .of_reg fun _ => ⟨rfl, rfl⟩⟩
  · rw [(hsame rj).2]
    exact h.mem rj hz c
  · rw [(hsame rj).2]
    exact h.nodup rj
  · rw [(hsame rj).2]
    exact h.few rj
  · rw [(hsame rj).1] at hu
    rw [(hsame rj).2]
    exact h.unused rj hu
  · rw [(hsame rj).1] at hu
    exact h.numbers rj hu

/-- Clients without a room get into one. -/
theorem Seats.seat (h : Seats S ∅ r) {l : List ℕ}
    (hc : ∀ x, (r'.clients x).room = if x ∈ l then some ri else (r.clients x).room)
    (hm : ∀ rj, r'.members rj = if rj = ri then r.members ri ++ l else r.members rj)
    (hu : ∀ rj, (r'.rooms rj).used = if rj = ri then true else (r.rooms rj).used)
    (hnew : ∀ c ∈ l, (r.clients c).room = none) (hnd : l.Nodup)
    (hlen : (r.members ri ++ l).length ≤ S.maxSeats) (hri : ri < S.maxRooms) : Seats S ∅ r' := by
  have hout : ∀ rj, ∀ c ∈ l, c ∉ r.members rj := by
    intro rj c hcl hcm
    have := (h.mem rj (Set.notMem_empty rj) c).1 hcm
    rw [hnew c hcl] at this
    cases this
  constructor
  · intro rj hz c
    rw [hm, hc]
    by_cases hcl : c ∈ l
    · rw [if_pos hcl]
      split_ifs with hrj
      · exact iff_of_true (List.mem_append_right _ hcl) (by rw [hrj])
      · exact iff_of_false (hout rj c hcl) fun heq => hrj (Option.some.inj heq).symm
    · rw [if_neg hcl]
      split_ifs with hrj
      · rw [hrj, List.mem_append, or_iff_left hcl]
        exact h.mem ri (Set.notMem_empty ri) c
      · exact h.mem rj hz c
  · intro rj hz
    exact hz.elim
  · intro rj
    rw [hm]
    split_ifs
    · rw [List.nodup_append]
      refine ⟨h.nodup ri, hnd, ?_⟩
      rintro c hcm c' hcl rfl
      exact hout ri c hcl hcm
    · exact h.nodup rj
  · intro rj
    rw [hm]
    split_ifs
    · exact hlen
    · exact h.few rj
  · intro rj hur
    rw [hu] at hur
    rw [hm]
    split_ifs at hur ⊢
    exact h.unused rj hur
  · intro rj hur
    rw [hu] at hur
    split_ifs at hur with hrj
    · rw [hrj]
      exact hri
    · exact h.numbers rj hur

section options

variable (hS : S.Ok)
include hS

theorem stays_drop (h : Seats S ∅ r) : Stays S r (drop S r ci) :=
  (leaves_drop hS.pair ∅ r ci h).stays

theorem stays_sendRaw (m : Msg) (src : Option ℕ) (h : Seats S ∅ r) :
    Stays S r (sendRaw S (drop S) ci m src r) :=
  (leaves_sendRaw (leaves_drop hS.pair) ci m src h).stays

theorem stays_onList (h : Seats S ∅ r) : Stays S r (onList S ci r) :=
  stays_sendRaw hS _ none h

theorem stays_announce (m : ℕ → Msg) (h : Seats S ∅ r) :
    Stays S r (announce S (drop S) ri m r) :=
  (leaves_announce (leaves_drop hS.pair) ri m h).stays

omit hS in
theorem stays_publish (h : Seats S ∅ r) : Stays S r r.publish :=
  .of_rooms h (fun _ => ⟨rfl, rfl, rfl⟩) rfl

theorem stays_takeName (name : List ℕ) (h : Seats S ∅ r) :
    Stays S r (takeName S ci name r) := by
  have hevict : Stays S r (evict S ci name r) := by
    rw [evict]
    split
    · split_ifs
      · exact .refl h
      · have hrob : Stays S r r.rob := .of_rooms h (fun _ => ⟨rfl, rfl, rfl⟩) rfl
        exact hrob.trans (stays_drop hS hrob.1)
      · exact stays_drop hS h
    · exact .refl h
  have hren : ∀ r₁ : State, Seats S ∅ r₁ → Stays S r₁ (rename S ci name r₁) := by
    intro r₁ h₁
    refine .of_rooms h₁ (fun c => ?_) ?_
    · rw [clients_named]
      split_ifs with hc
      · rw [hc]
        exact ⟨rfl, rfl, rfl⟩
      · exact ⟨rfl, rfl, rfl⟩
    · exact rooms_rename
  rw [takeName]
  split_ifs
  · exact hevict
  · have hall := hevict.trans (hren _ hevict.1)
    exact hall.trans (stays_onList hS hall.1)

theorem stays_startRoom (h : Seats S ∅ r) : Stays S r (startRoom S ri r) := by
  have hseed : Stays S r { r with seeds := r.seeds + 1 } :=
    .of_rooms h (fun _ => ⟨rfl, rfl, rfl⟩) rfl
  have hbegin : Stays S r (({ r with seeds := r.seeds + 1 } : State).setRoom ri
      { r.rooms ri with started := true, seed := S.seed r.seeds }) :=
    hseed.trans (stays_start hseed.1 (S.seed r.seeds))
  have hsend : ∀ r₁ : State, Stays S r r₁ → Stays S r (announce S (drop S) ri
      (fun seat => startMsg r₁ ri (S.seed r.seeds) S.delay seat) r₁) := fun r₁ h₁ =>
    h₁.trans (stays_announce hS _ h₁.1)
  have hall := hsend _ hbegin
  exact hall.trans (stays_publish hall.1)

theorem stays_joined (h : Seats S ∅ r) : Stays S r (joined S ri r) := by
  have hcast : Stays S r (roomBroadcast S (drop S) ri r) := stays_announce hS _ h
  have hpub := hcast.trans (stays_publish hcast.1)
  rw [joined]
  split_ifs
  · exact hpub.trans (stays_startRoom hS hpub.1)
  · exact hpub

omit hS in
theorem stays_enter (h : Seats S ∅ r) (hr : (r.clients ci).room = none)
    (hne : r.members ri ≠ []) (hroom : (r.members ri).length < S.maxSeats) :
    Stays S r (enter ci ri r) := by
  have hc : ∀ x, (enter ci ri r).clients x =
      if x = ci then { r.clients ci with room := some ri } else r.clients x := fun x => by
    rw [enter, State.clients_setClient, State.clients_setRoom]
  have hrooms : ∀ rj, (enter ci ri r).rooms rj =
      if rj = ri then { r.rooms ri with members := r.members ri ++ [ci] } else r.rooms rj := fun rj => by
    rw [enter, State.rooms_setClient, State.rooms_setRoom]
  have hused : (r.rooms ri).used = true := by
    by_contra hu
    rw [Bool.not_eq_true] at hu
    exact hne (h.unused ri hu)
  refine ⟨Seats.seat h (l := [ci]) (fun x => ?_) (fun rj => ?_) (fun rj => ?_)
    (fun c hcl => ?_) (List.nodup_singleton ci) ?_ (h.numbers ri hused), .of_reg fun x => ?_⟩
  · rw [hc]
    by_cases hx : x = ci
    · rw [if_pos hx, if_pos (List.mem_singleton.2 hx)]
    · rw [if_neg hx, if_neg fun hm => hx (List.mem_singleton.1 hm)]
  · rw [State.members, hrooms]
    split_ifs
    · rfl
    · rfl
  · rw [hrooms]
    split_ifs
    · exact hused
    · rfl
  · rw [List.mem_singleton.1 hcl]
    exact hr
  · rw [List.length_append, List.length_singleton]
    omega
  · rw [hc]
    split_ifs with hx
    · rw [hx]
      exact ⟨rfl, rfl⟩
    · exact ⟨rfl, rfl⟩

/-- Two clients get into a new room. -/
theorem stays_pair {a b : ℕ} (h : Seats S ∅ r) (hab : a ≠ b)
    (ha : (r.clients a).room = none) (hb : (r.clients b).room = none)
    (hu : (r.rooms ri).used = false) (hri : ri < S.maxRooms)
    (hc : ∀ x, (r'.clients x).room = if x = a ∨ x = b then some ri else (r.clients x).room)
    (hreg : ∀ x, (r'.clients x).inUse = (r.clients x).inUse ∧
      (r'.clients x).dead = (r.clients x).dead)
    (hr : ∀ rj, (r'.rooms rj).used = (if rj = ri then true else (r.rooms rj).used) ∧
      r'.members rj = if rj = ri then [a, b] else r.members rj) : Stays S r r' := by
  have hempty := h.unused ri hu
  refine ⟨Seats.seat h (l := [a, b]) (fun x => ?_) (fun rj => ?_) (fun rj => (hr rj).1)
    (fun c hcl => ?_) ?_ ?_ hri, .of_reg hreg⟩
  · rw [hc]
    refine if_congr ?_ rfl rfl
    simp
  · rw [hempty]
    exact (hr rj).2
  · rcases List.mem_cons.1 hcl with heq | hcl
    · rw [heq]
      exact ha
    · rw [List.mem_singleton.1 hcl]
      exact hb
  · simpa using hab
  · rw [hempty]
    exact hS.two_le

theorem stays_startPair {host : ℕ} (h : Seats S ∅ r) (hne : host ≠ ci)
    (hr : (r.clients ci).room = none) (hhr : (r.clients host).room = none) :
    Stays S r (startPair S host ci r) := by
  have hseed : Stays S r { r with seeds := r.seeds + 1 } :=
    .of_rooms h (fun _ => ⟨rfl, rfl, rfl⟩) rfl
  have hsend : ∀ (r₁ : State) (c : ℕ) (m : Msg), Stays S r r₁ →
      Stays S r (sendRaw S (drop S) c m none r₁) := fun r₁ c m h₁ =>
    h₁.trans (stays_sendRaw hS m none h₁.1)
  rw [startPair]
  cases hri : roomAlloc S { r with seeds := r.seeds + 1 } with
  | none =>
    have hbad : Stays S r ({ r with seeds := r.seeds + 1 } : State).bad :=
      .of_rooms h (fun _ => ⟨rfl, rfl, rfl⟩) rfl
    exact hbad.trans (stays_onList hS hbad.1)
  | some ri =>
    have hu : (r.rooms ri).used = false := by
      have := List.find?_some hri
      simpa using this
    have hlt : ri < S.maxRooms := List.mem_range.1 (List.mem_of_find?_eq_some hri)
    refine hsend _ _ _ (hsend _ _ _ (stays_pair (a := host) (b := ci) hS h hne hhr hr hu hlt
      (fun x => ?_) (fun x => ?_) fun rj => ?_))
    · rw [State.clients_setClient]
      by_cases hx : x = ci
      · rw [if_pos hx, if_pos (.inr hx)]
      · rw [if_neg hx, State.clients_setClient]
        by_cases hxh : x = host
        · rw [if_pos hxh, if_pos (.inl hxh)]
        · rw [if_neg hxh, if_neg fun hor => hor.elim hxh hx]
          rfl
    · rw [State.clients_setClient]
      split_ifs with hx
      · rw [hx, State.clients_setClient, if_neg fun heq => hne heq.symm]
        exact ⟨rfl, rfl⟩
      · rw [State.clients_setClient]
        split_ifs with hxh
        · rw [hxh]
          exact ⟨rfl, rfl⟩
        · exact ⟨rfl, rfl⟩
    · rw [State.members, State.rooms_setClient, State.rooms_setClient, State.rooms_setRoom]
      split_ifs
      · exact ⟨rfl, rfl⟩
      · exact ⟨rfl, rfl⟩

theorem stays_open {target : ℕ} (h : Seats S ∅ r) (hne : target ≠ ci)
    (hr : (r.clients ci).room = none) (htr : (r.clients target).room = none)
    (hu : (r.rooms ri).used = false) (hri : ri < S.maxRooms) :
    Stays S r (enter ci ri (openRoom ri target r)) := by
  refine stays_pair (a := target) (b := ci) hS h hne htr hr hu hri (fun x => ?_) (fun x => ?_)
    fun rj => ?_
  · rw [enter, State.clients_setClient]
    by_cases hx : x = ci
    · rw [if_pos hx, if_pos (.inr hx)]
    · rw [if_neg hx, State.clients_setRoom, openRoom, State.clients_setClient]
      by_cases hxh : x = target
      · rw [if_pos hxh, if_pos (.inl hxh)]
      · rw [if_neg hxh, if_neg fun hor => hor.elim hxh hx]
        rfl
  · have hopen : ∀ y, ((openRoom ri target r).clients y).inUse = (r.clients y).inUse ∧
        ((openRoom ri target r).clients y).dead = (r.clients y).dead := by
      intro y
      rw [openRoom, State.clients_setClient]
      split_ifs with hy
      · rw [hy]
        exact ⟨rfl, rfl⟩
      · exact ⟨rfl, rfl⟩
    rw [enter, State.clients_setClient]
    split_ifs with hx
    · rw [hx]
      exact hopen ci
    · exact hopen x
  · have hself : (openRoom ri target r).rooms ri = ⟨true, [target], false, 0⟩ := by
      rw [openRoom, State.rooms_setClient, State.rooms_setRoom, if_pos rfl]
    rw [State.members, enter, State.rooms_setClient, State.rooms_setRoom, State.members, hself]
    split_ifs with hrj
    · exact ⟨rfl, rfl⟩
    · rw [openRoom, State.rooms_setClient, State.rooms_setRoom, if_neg hrj]
      exact ⟨rfl, rfl⟩

theorem stays_joinTarget {target : ℕ} (h : Seats S ∅ r)
    (hr : (r.clients ci).room = none) : Stays S r (joinTarget S ci target r) := by
  have hlist : Stays S r (onList S ci r) := stays_onList hS h
  rw [joinTarget]
  split_ifs with hself hp hhr
  · exact hlist
  · exact stays_startPair hS h (fun heq => hself (.inl heq)) hr hhr
  · exact hlist
  · have hne : target ≠ ci := fun heq => hself (.inl heq)
    cases htr : (r.clients target).room with
    | some ri =>
      dsimp only
      split_ifs with hshut
      · exact hlist
      · have hin := (h.mem ri (Set.notMem_empty ri) target).2 htr
        rw [shut, Bool.or_eq_true, not_or, decide_eq_true_eq, not_le] at hshut
        have henter : Stays S r (enter ci ri r) := stays_enter h hr (List.ne_nil_of_mem hin) hshut.2
        exact henter.trans (stays_joined hS henter.1)
    | none =>
      cases hri : roomAlloc S r with
      | none =>
        have hbad : Stays S r r.bad := .of_rooms h (fun _ => ⟨rfl, rfl, rfl⟩) rfl
        exact hbad.trans (stays_onList hS hbad.1)
      | some ri =>
        have hu : (r.rooms ri).used = false := by
          have := List.find?_some hri
          simpa using this
        have hopen := stays_open hS h hne hr htr hu
          (List.mem_range.1 (List.mem_of_find?_eq_some hri))
        exact hopen.trans (stays_joined hS hopen.1)

/-- `handle` where nothing is forwarded. -/
theorem stays_handle {m : Msg} (hm : relayed m.type = false) (h : Seats S ∅ r) :
    Stays S r (handle S ci m r) := by
  have hdrop : Stays S r (drop S r ci) := stays_drop hS h
  have hlist : Stays S r (onList S ci r) := stays_onList hS h
  rw [handle, hm, if_neg Bool.false_ne_true]
  split_ifs
  · rw [onHello]
    dsimp only
    split_ifs
    · exact hdrop
    · exact hdrop
    · exact stays_takeName hS _ h
    · exact hdrop
  · exact hlist
  · rw [onJoin]
    have hfind : ∀ r₁ : State, Stays S r r₁ → (r₁.clients ci).room = none →
        Stays S r (findTarget S ci m.payload r₁) := by
      intro r₁ h₁ hr
      refine h₁.trans ?_
      rw [findTarget]
      split_ifs
      · exact stays_onList hS h₁.1
      · split
        · exact stays_onList hS h₁.1
        · exact stays_joinTarget hS h₁.1 hr
    split_ifs with _ hr
    · exact hdrop
    · exact .refl h
    · exact hfind _ (.of_rooms h (fun _ => ⟨rfl, rfl, rfl⟩) rfl) (not_not.1 hr)
    · exact hfind _ (.refl h) (not_not.1 hr)
  · exact hdrop
  · rw [onGo]
    split
    · exact .refl h
    · split_ifs
      · exact .refl h
      · exact .refl h
      · exact stays_startRoom hS h
  · exact hdrop
  · exact stays_sendRaw hS _ none h
  · exact hdrop

theorem stays_fanTo (m : Msg) (src : ℕ) (l : List ℕ) (h : Seats S ∅ r) :
    Stays S r (fanTo S ci m src l r) := by
  induction l generalizing r with
  | nil => exact .refl h
  | cons c l ih =>
    have hsend : Stays S r (if c = ci then r else sendRaw S (drop S) c m (some src) r) := by
      split_ifs
      · exact .refl h
      · exact stays_sendRaw hS m (some src) h
    exact hsend.trans (ih hsend.1)

/-- In a room of two the two loops come to the same. -/
theorem fanLive_eq {m : Msg} {src : ℕ} (h2 : S.maxSeats = 2) (h : Seats S ∅ r)
    (hr : (r.clients ci).room = some ri) :
    fanLive S ci ri m src (r.members ri).length 0 r = fanTo S ci m src (r.members ri) r := by
  have hmem := (h.mem ri (Set.notMem_empty ri) ci).2 hr
  have hfew := h.few ri
  cases hm : r.members ri with
  | nil => rfl
  | cons a l =>
    cases l with
    | nil =>
      rw [hm, List.mem_singleton] at hmem
      rw [List.length_singleton, fanLive, hm, List.getElem?_cons_zero]
      dsimp only
      rw [fanLive, fanTo, fanTo]
    | cons b l =>
      have hl : l = [] := by
        rw [hm, h2, List.length_cons, List.length_cons] at hfew
        exact List.eq_nil_of_length_eq_zero (by omega)
      rw [hl] at hm ⊢
      rw [hm] at hmem
      obtain ⟨r₁, hr₁⟩ : ∃ r₁, r₁ = if a = ci then r else sendRaw S (drop S) a m (some src) r :=
        ⟨_, rfl⟩
      have hone : fanLive S ci ri m src 2 0 r = (r₁.members ri)[1]?.elim r₁ fun c =>
          if c = ci then r₁ else sendRaw S (drop S) c m (some src) r₁ := by
        rw [fanLive, hm, List.getElem?_cons_zero]
        dsimp only
        rw [← hr₁, fanLive, show 0 + 1 = 1 from rfl]
        cases (r₁.members ri)[1]? with
        | none => rfl
        | some c => rfl
      have hsub : (r₁.members ri).Sublist [a, b] := by
        rw [← hm, hr₁]
        split_ifs
        · exact List.Sublist.refl _
        · exact (leaves_sendRaw (S := S) (leaves_drop hS.pair) a m (some src) h).2.sub ri
      rw [show [a, b].length = 2 from rfl, hone, fanTo, fanTo, fanTo, ← hr₁]
      by_cases ha : a = ci
      · rw [if_pos ha] at hr₁
        rw [hr₁, hm]
        rfl
      · have hb : b = ci := by
          rcases List.mem_cons.1 hmem with heq | hmem
          · exact absurd heq.symm ha
          · exact (List.mem_singleton.1 hmem).symm
        rw [if_pos hb]
        cases hget : (r₁.members ri)[1]? with
        | none => rfl
        | some c =>
          -- Nobody moves up: with two members left, they are the two.
          have hlen : 1 < (r₁.members ri).length := (List.getElem?_eq_some_iff.1 hget).1
          have hall := hsub.eq_of_length_le hlen
          rw [hall] at hget
          rw [Option.elim_some, if_pos ((Option.some.inj hget).symm.trans hb)]

end options

/-! ### Whole runs -/

/-- A property of states that the events keep. -/
structure Keeper (S : Setup) (I : State → Prop) : Prop where
  handle : ∀ {r ci} m, I r → r.Live ci → I (handle S ci m r) ∧ Spares r (handle S ci m r)
  drop : ∀ {r ci}, I r → r.Live ci → I (drop S r ci) ∧ Spares r (drop S r ci)
  flush : ∀ {r ci}, I r → r.Live ci → I (flush S (Relay.drop S) ci r)
  accept : ∀ {r} ip now, I r → I (accept S ip now r)

namespace Keeper

variable {I : State → Prop} (hI : Keeper S I)
include hI

theorem drain (k : ℕ) (b : List ℕ) (h : I r) (hl : r.Live ci) :
    I (drain S ci k r b).1 ∧ Spares r (drain S ci k r b).1 := by
  induction k generalizing r b with
  | zero => exact ⟨h, .refl r⟩
  | succ k ih =>
    cases b with
    | nil => exact ⟨h, .refl r⟩
    | cons len rest =>
      unfold Relay.drain
      dsimp only
      split_ifs with h1 h2 h3
      · exact hI.drop h hl
      · exact ⟨h, .refl r⟩
      · exact hI.handle _ h hl
      · obtain ⟨hi, hs⟩ := hI.handle ⟨rest.headD 0, (rest.take len).tail⟩ h hl
        have hl' := hs.spared ci hl (by simpa using h3)
        obtain ⟨hi', hs'⟩ := ih (rest.drop len) hi hl'
        exact ⟨hi', hs.trans hs'⟩

theorem feedBuf (k : ℕ) (data b : List ℕ) (h : I r) (hl : r.Live ci) :
    I (feedBuf S ci k data r b).1 := by
  induction k generalizing r b data with
  | zero => exact h
  | succ k ih =>
    unfold Relay.feedBuf
    dsimp only
    split_ifs with h1 h2 h3
    · exact h
    · exact (hI.drop h hl).1
    · exact (hI.drain 256 _ h hl).1
    · obtain ⟨hi, hs⟩ := hI.drain 256 (b ++ data.take (256 - b.length)) h hl
      exact ih _ _ hi (hs.spared ci hl (by simpa using h3))

theorem sweep (now : ℕ) (h : I r) : I (sweep S now r) := by
  unfold Relay.sweep
  generalize span S r = l
  induction l generalizing r with
  | nil => exact h
  | cons i l ih =>
    rw [List.foldl_cons]
    dsimp only
    split_ifs with hi
    · exact ih (hI.drop h ⟨hi.1, hi.2.1⟩).1
    · exact ih h

theorem step (e : Event) {v : Server} (h : I v.st) : I (step S e v).st := by
  cases e with
  | accept ip now => exact hI.accept ip now h
  | recv ci data =>
    unfold Relay.step
    dsimp only
    split_ifs with hl
    · unfold feed
      split_ifs
      · exact hI.feedBuf _ data _ h hl
      · exact (hI.drain _ _ h hl).1
    · exact h
  | closed ci =>
    unfold Relay.step
    dsimp only
    split_ifs with hl
    · exact (hI.drop h hl).1
    · exact h
  | writable ci =>
    unfold Relay.step
    dsimp only
    split_ifs with hl
    · exact hI.flush h hl
    · exact h
  | sweep now =>
    unfold Relay.step
    dsimp only
    exact hI.sweep now h

theorem run (es : List Event) (h : I State.init) : I (run S es).st := by
  induction es using List.reverseRecOn with
  | nil => exact h
  | append_singleton es e ih =>
    rw [Relay.run, List.foldl_append]
    exact hI.step e ih

end Keeper

end handlers

end IntvNetplay.Relay
