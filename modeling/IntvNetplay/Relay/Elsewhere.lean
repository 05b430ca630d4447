import IntvNetplay.Relay.Agree
import IntvNetplay.Relay.Pair

/-!
# A match that others leave alone

What the relay does for clients outside a started room, their drops and the drops nested in these
included, touches neither the room nor its members, unless it drops one of them.
-/

namespace IntvNetplay.Relay

/-- A started room, and its members in no other. -/
structure Walled (ri : ℕ) (r : State) : Prop where
  used : (r.rooms ri).used = true
  started : (r.rooms ri).started = true
  apart : ∀ rj, rj ≠ ri → ∀ c ∈ r.members rj, (r.clients c).room ≠ some ri

/-- The room and those in it stay as they are, and nobody else gets in. -/
structure Aloof (ri : ℕ) (r r' : State) : Prop where
  room : r'.rooms ri = r.rooms ri
  same : ∀ c, (r.clients c).room = some ri → r'.clients c = r.clients c
  out : ∀ c, (r.clients c).room ≠ some ri → (r'.clients c).room ≠ some ri
  apart : ∀ rj, rj ≠ ri → ∀ c ∈ r'.members rj, (r'.clients c).room ≠ some ri

section aloof

variable {ri rj x : ℕ} {r r' r'' : State}

theorem Walled.aloof (h : Walled ri r) (ha : Aloof ri r r') : Walled ri r' :=
  ⟨by rw [ha.room, h.used], by rw [ha.room, h.started], ha.apart⟩

namespace Aloof

theorem trans (h : Aloof ri r r') (h' : Aloof ri r' r'') : Aloof ri r r'' := by
  refine ⟨h'.room.trans h.room, fun c hc => ?_, fun c hc => h'.out c (h.out c hc), h'.apart⟩
  have hsame := h.same c hc
  rw [h'.same c (by rw [hsame, hc]), hsame]

/-- Clients outside the room change, and other rooms have none of its members. -/
theorem of (hr : r'.rooms ri = r.rooms ri)
    (hc : ∀ c, r'.clients c = r.clients c ∨ (r.clients c).room ≠ some ri ∧ (r'.clients c).room ≠ some ri)
    (hm : ∀ rj, rj ≠ ri → ∀ c ∈ r'.members rj, (r.clients c).room ≠ some ri) : Aloof ri r r' := by
  have hout : ∀ c, (r.clients c).room ≠ some ri → (r'.clients c).room ≠ some ri := fun c ho => by
    obtain heq | ⟨-, ho'⟩ := hc c
    · rwa [heq]
    · exact ho'
  refine ⟨hr, fun c hin => ?_, hout, fun rj hne c hcm => hout c (hm rj hne c hcm)⟩
  obtain heq | ⟨ho, -⟩ := hc c
  · exact heq
  · exact absurd hin ho

theorem of_eq (h : Walled ri r) (hc : r'.clients = r.clients) (hr : r'.rooms = r.rooms) : Aloof ri r r' := by
  refine of (by rw [hr]) (fun c => .inl (by rw [hc])) fun rj hne c hcm => ?_
  rw [State.members, hr] at hcm
  exact h.apart rj hne c hcm

theorem refl (h : Walled ri r) : Aloof ri r r := of_eq h rfl rfl

theorem setClient {y : Client} (h : Walled ri r) (hx : (r.clients x).room ≠ some ri) (hy : y.room ≠ some ri) :
    Aloof ri r (r.setClient x y) := by
  refine of rfl (fun c => ?_) h.apart
  rw [State.clients_setClient]
  split_ifs with hcx
  · rw [hcx]
    exact .inr ⟨hx, hy⟩
  · exact .inl rfl

theorem setRoom {y : Room} (h : Walled ri r) (hne : rj ≠ ri)
    (hy : ∀ c ∈ y.members, (r.clients c).room ≠ some ri) : Aloof ri r (r.setRoom rj y) := by
  refine of ?_ (fun _ => .inl rfl) fun rk hk c hcm => ?_
  · rw [State.rooms_setRoom, if_neg hne.symm]
  · rw [State.members, State.rooms_setRoom] at hcm
    split_ifs at hcm
    · exact hy c hcm
    · exact h.apart rk hk c hcm

theorem gone (h : Walled ri r) (hx : (r.clients x).room ≠ some ri) : Aloof ri r (r.gone x) := by
  refine of (by rw [rooms_gone]) (fun c => ?_) fun rj hne c hcm => ?_
  · rw [clients_gone]
    split_ifs with hcx
    · rw [hcx]
      exact .inr ⟨hx, hx⟩
    · exact .inl rfl
  · rw [State.members, rooms_gone] at hcm
    exact h.apart rj hne c hcm

theorem leaves (h : Walled ri r) (hx : (r.clients x).room ≠ some ri) (hne : rj ≠ ri) :
    Aloof ri r (r.out x rj) := by
  refine of (by rw [rooms_out, if_neg hne.symm]) (fun c => ?_) fun rk hk c hcm => ?_
  · rw [clients_out]
    split_ifs with hcx
    · rw [hcx]
      exact .inr ⟨hx, fun hn => by cases hn⟩
    · exact .inl rfl
  · rw [State.members, rooms_out] at hcm
    split_ifs at hcm with hkj
    · exact h.apart rj hne c (List.mem_of_mem_erase hcm)
    · exact h.apart rk hk c hcm

theorem unroom (h : Walled ri r) (hne : rj ≠ ri) : Aloof ri r (r.unroom rj) := by
  refine of rfl (fun c => ?_) h.apart
  rw [State.unroom]
  dsimp only
  split_ifs with hcm
  · exact .inr ⟨h.apart rj hne c hcm, fun hn => by cases hn⟩
  · exact .inl rfl

theorem close (h : Walled ri r) (hne : rj ≠ ri) : Aloof ri r (r.close rj) :=
  setRoom h hne fun _ hc => absurd hc List.not_mem_nil

theorem free (h : Walled ri r) (hx : (r.clients x).room ≠ some ri) : Aloof ri r (r.free x) := by
  refine of ?_ (fun c => ?_) fun rj hne c hcm => ?_
  · rw [State.free]
    cases (r.clients x).inUse <;> rfl
  · by_cases hcx : c = x
    · rw [hcx]
      refine .inr ⟨hx, ?_⟩
      rw [State.free]
      dsimp only
      rw [State.clients_setClient, if_pos rfl]
      exact hx
    · exact .inl (clients_free_ne hcx)
  · refine h.apart rj hne c ?_
    rw [State.free] at hcm
    cases hu : (r.clients x).inUse <;> rw [hu] at hcm <;> exact hcm

end Aloof

end aloof

/-! ### Sending and dropping -/

section nested

variable {S : Setup} {D : State → ℕ → State} {ri : ℕ} {r : State}
  (hD : ∀ {r x}, Walled ri r → (r.clients x).room ≠ some ri → Aloof ri r (D r x))
include hD

theorem aloof_flushLoop {x : ℕ} (n : ℕ) (h : Walled ri r) (hx : (r.clients x).room ≠ some ri) :
    Aloof ri r (flushLoop S D x n r) := by
  induction n generalizing r with
  | zero => exact .refl h
  | succ n ih =>
    have hcall : Aloof ri r r.called := .of_eq h rfl rfl
    have hfail : Aloof ri r r.called.fail := .of_eq h rfl rfl
    have hdrop := hfail.trans (hD (h.aloof hfail) hx)
    unfold flushLoop
    split_ifs
    · exact .refl h
    · cases S.send r.calls with
      | wrote k =>
        have hwrote : Aloof ri r (r.called.wrote x (k + 1)) := hcall.trans (.setClient (h.aloof hcall) hx hx)
        exact hwrote.trans (ih (h.aloof hwrote) (hwrote.out x hx))
      | again => exact hcall
      | zero => exact hdrop
      | error => exact hdrop

theorem aloof_sendRaw {x : ℕ} (m : Msg) (src : Option ℕ) (h : Walled ri r)
    (hx : (r.clients x).room ≠ some ri) : Aloof ri r (sendRaw S D x m src r) := by
  rw [sendRaw]
  split_ifs
  · exact .refl h
  · have hfail : Aloof ri r r.fail := .of_eq h rfl rfl
    exact hfail.trans (hD (h.aloof hfail) hx)
  · have hqueue : Aloof ri r (r.queue x m src) := .setClient h hx hx
    exact hqueue.trans (aloof_flushLoop hD _ (h.aloof hqueue) (hqueue.out x hx))

theorem aloof_sendAll (m : Msg) (l : List ℕ) (h : Walled ri r) (hl : ∀ c ∈ l, (r.clients c).room ≠ some ri) :
    Aloof ri r (sendAll S D m l r) := by
  induction l generalizing r with
  | nil => exact .refl h
  | cons c l ih =>
    have hsend := aloof_sendRaw (S := S) hD m none h (hl c List.mem_cons_self)
    exact hsend.trans (ih (h.aloof hsend) fun c' hc' => hsend.out c' (hl c' (List.mem_cons_of_mem _ hc')))

theorem aloof_announceTo (l : List (ℕ × Msg)) (h : Walled ri r)
    (hl : ∀ e ∈ l, (r.clients e.1).room ≠ some ri) : Aloof ri r (announceTo S D l r) := by
  induction l generalizing r with
  | nil => exact .refl h
  | cons e l ih =>
    have hsend := aloof_sendRaw (S := S) hD e.2 none h (hl e List.mem_cons_self)
    have hstep : ∀ b : Bool, Aloof ri r
        (if b then (sendRaw S D e.1 e.2 none r).tear else sendRaw S D e.1 e.2 none r) := fun b => by
      cases b with
      | false => exact hsend
      | true => exact hsend.trans (.of_eq (h.aloof hsend) rfl rfl)
    simp only [announceTo]
    exact (hstep _).trans (ih (h.aloof (hstep _)) fun e' he' =>
      (hstep _).out e'.1 (hl e' (List.mem_cons_of_mem _ he')))

theorem aloof_announceLive {rj : ℕ} (hne : rj ≠ ri) (m : ℕ → Msg) (n i : ℕ) (h : Walled ri r) :
    Aloof ri r (announceLive S D rj m n i r) := by
  induction n generalizing r i with
  | zero => exact .refl h
  | succ n ih =>
    unfold announceLive
    cases hc : (r.members rj)[i]? with
    | none => exact .refl h
    | some c =>
      have hsend := aloof_sendRaw (S := S) hD (m i) none h (h.apart rj hne c (List.mem_of_getElem? hc))
      exact hsend.trans (ih _ (h.aloof hsend))

/-- What the members of another room are told. -/
theorem aloof_announce {rj : ℕ} (hne : rj ≠ ri) (m : ℕ → Msg) (h : Walled ri r) :
    Aloof ri r (announce S D rj m r) := by
  rw [announce]
  split_ifs
  · exact aloof_announceLive hD hne m _ _ h
  · refine aloof_announceTo hD _ h fun e he => ?_
    obtain ⟨i, hi, rfl⟩ := List.mem_mapIdx.1 he
    exact h.apart rj hne _ (List.getElem_mem hi)

theorem aloof_dissolve {rj : ℕ} (hne : rj ≠ ri) (l : List ℕ) (h : Walled ri r)
    (hl : ∀ c ∈ l, (r.clients c).room ≠ some ri) : Aloof ri r (dissolve S D rj l r) := by
  have hun : Aloof ri r (r.unroom rj) := .unroom h hne
  have hsend := hun.trans (aloof_sendAll (S := S) hD goneMsg l (h.aloof hun) fun c hc => hun.out c (hl c hc))
  exact hsend.trans (.close (h.aloof hsend) hne)

theorem aloof_dropPair {rj : ℕ} (hne : rj ≠ ri) (h : Walled ri r) : Aloof ri r (dropPair S D rj r) := by
  have hclose : Aloof ri r (r.close rj) := .close h hne
  rw [dropPair]
  cases hm : r.members rj with
  | nil => exact hclose
  | cons c l =>
    have hc : (r.clients c).room ≠ some ri := h.apart rj hne c (by rw [hm]; exact List.mem_cons_self)
    have hset : Aloof ri r ((r.close rj).setClient c { (r.close rj).clients c with room := none }) :=
      hclose.trans (.setClient (h.aloof hclose) (hclose.out c hc) fun hn => by cases hn)
    exact hset.trans (aloof_sendRaw hD _ none (h.aloof hset) (hset.out c hc))

theorem aloof_dropSeat {x rj : ℕ} (hne : rj ≠ ri) (seat : ℕ) (h : Walled ri r) :
    Aloof ri r (dropSeat S D x rj seat r) := by
  have hall : ∀ c ∈ r.members rj, (r.clients c).room ≠ some ri := h.apart rj hne
  rw [dropSeat]
  split_ifs
  · have hdis := aloof_dissolve (S := S) hD hne [] h fun c hc => absurd hc List.not_mem_nil
    exact hdis.trans (aloof_sendAll hD _ _ (h.aloof hdis) fun c hc => hdis.out c (hall c hc))
  · exact aloof_dissolve hD hne _ h hall
  · exact aloof_dissolve hD hne _ h hall
  · exact aloof_announce hD hne _ h

theorem aloof_dropBody {x : ℕ} (h : Walled ri r) (hx : (r.clients x).room ≠ some ri) :
    Aloof ri r (dropBody S D r x) := by
  have hfree : ∀ {r'}, Aloof ri r r' → Aloof ri r (r'.free x) := fun ha =>
    ha.trans (.free (h.aloof ha) (ha.out x hx))
  cases hd : (r.clients x).dead with
  | true =>
    rw [dropBody, if_pos hd]
    exact .refl h
  | false =>
    rw [dropBody_eq S D hd]
    cases hr : (r.clients x).room with
    | none => exact hfree (.gone h hx)
    | some rj =>
      have hne : rj ≠ ri := fun heq => hx (by rw [hr, heq])
      have hout : Aloof ri r (r.out x rj) := .leaves h hx hne
      dsimp only
      split_ifs
      · exact hfree (hout.trans (aloof_dropPair hD hne (h.aloof hout)))
      · have hseat := hout.trans
          (aloof_dropSeat (S := S) (x := x) hD hne ((r.members rj).idxOf x) (h.aloof hout))
        exact hfree (hseat.trans (.of_eq (h.aloof hseat) rfl rfl))

end nested

section drop

variable {S : Setup} {ri x : ℕ} {r : State}

theorem aloof_dropN (k : ℕ) (h : Walled ri r) (hx : (r.clients x).room ≠ some ri) :
    Aloof ri r (dropN S k r x) := by
  induction k generalizing r x with
  | zero => exact .of_eq h rfl rfl
  | succ k ih => exact aloof_dropBody ih h hx

/-- A drop of a client outside the room. -/
theorem aloof_drop (h : Walled ri r) (hx : (r.clients x).room ≠ some ri) : Aloof ri r (drop S r x) :=
  aloof_dropN maxClients h hx

end drop

/-! ### The protocol -/

section handlers

variable {S : Setup} {ri ci rj : ℕ} {r : State}

theorem aloof_onList (h : Walled ri r) (hx : (r.clients ci).room ≠ some ri) : Aloof ri r (onList S ci r) :=
  aloof_sendRaw aloof_drop _ none h hx

theorem aloof_rename (name : List ℕ) (h : Walled ri r) (hx : (r.clients ci).room ≠ some ri) :
    Aloof ri r (rename S ci name r) := by
  refine .of (by rw [rooms_rename]) (fun c => ?_) fun rj hne c hcm => ?_
  · rw [clients_named]
    split_ifs with hcx
    · rw [hcx]
      exact .inr ⟨hx, hx⟩
    · exact .inl rfl
  · rw [State.members, rooms_rename] at hcm
    exact h.apart rj hne c hcm

theorem aloof_startRoom (h : Walled ri r) (hne : rj ≠ ri) : Aloof ri r (startRoom S rj r) := by
  have hbegin : Aloof ri r (({ r with seeds := r.seeds + 1 } : State).setRoom rj
      { r.rooms rj with started := true, seed := S.seed r.seeds }) :=
    .of (by rw [State.rooms_setRoom, if_neg hne.symm]) (fun _ => .inl rfl) fun rk hk c hcm => by
      rw [State.members, State.rooms_setRoom] at hcm
      split_ifs at hcm
      · exact h.apart rj hne c hcm
      · exact h.apart rk hk c hcm
  have hsend : ∀ r₁, Aloof ri r r₁ → Aloof ri r (announce S (drop S) rj
      (fun seat => startMsg r₁ rj (S.seed r.seeds) S.delay seat) r₁).publish := fun r₁ h₁ => by
    have hall : Aloof ri r (announce S (drop S) rj
        (fun seat => startMsg r₁ rj (S.seed r.seeds) S.delay seat) r₁) :=
      h₁.trans (aloof_announce aloof_drop hne _ (h.aloof h₁))
    exact hall.trans (.of_eq (h.aloof hall) rfl rfl)
  exact hsend _ hbegin

theorem aloof_joined (h : Walled ri r) (hne : rj ≠ ri) : Aloof ri r (joined S rj r) := by
  have hcast : Aloof ri r (roomBroadcast S (drop S) rj r) := aloof_announce aloof_drop hne _ h
  have hpub : Aloof ri r (roomBroadcast S (drop S) rj r).publish :=
    hcast.trans (.of_eq (h.aloof hcast) rfl rfl)
  rw [joined]
  split_ifs
  · exact hpub.trans (aloof_startRoom (h.aloof hpub) hne)
  · exact hpub

theorem aloof_enter (h : Walled ri r) (hne : rj ≠ ri) (hx : (r.clients ci).room ≠ some ri) :
    Aloof ri r (enter ci rj r) := by
  have hroom : Aloof ri r (r.setRoom rj { r.rooms rj with members := r.members rj ++ [ci] }) := by
    refine .setRoom h hne fun c hc => ?_
    obtain hc | hc := List.mem_append.1 hc
    · exact h.apart rj hne c hc
    · rwa [List.mem_singleton.1 hc]
  exact hroom.trans (.setClient (h.aloof hroom) (hroom.out ci hx) fun heq => hne (Option.some.inj heq))

/-- A room is opened in a slot that is not in use. -/
theorem Walled.ne_alloc (h : Walled ri r) (hj : roomAlloc S r = some rj) : rj ≠ ri := by
  rintro rfl
  have := List.find?_some hj
  rw [h.used] at this
  cases this

theorem aloof_startPair {host : ℕ} (h : Walled ri r) (hx : (r.clients ci).room ≠ some ri)
    (hhost : (r.clients host).room ≠ some ri) : Aloof ri r (startPair S host ci r) := by
  have hseed : Aloof ri r { r with seeds := r.seeds + 1 } := .of_eq h rfl rfl
  rw [startPair]
  cases hj : roomAlloc S { r with seeds := r.seeds + 1 } with
  | none =>
    have hbad : Aloof ri r ({ r with seeds := r.seeds + 1 } : State).bad := .of_eq h rfl rfl
    exact hbad.trans (aloof_onList (h.aloof hbad) hx)
  | some rj =>
    have hne : rj ≠ ri := (h.aloof hseed).ne_alloc hj
    have hin : some rj ≠ some ri := fun heq => hne (Option.some.inj heq)
    have hroom := hseed.trans (.setRoom (y := ⟨true, [host, ci], true, S.seed r.seeds⟩) (h.aloof hseed) hne
      fun c hc => by
        obtain rfl | hc := List.mem_cons.1 hc
        · exact hhost
        · rwa [List.mem_singleton.1 hc])
    have hsend : ∀ {r₁ : State} {c : ℕ} (m : Msg), (r.clients c).room ≠ some ri → Aloof ri r r₁ →
        Aloof ri r (sendRaw S (drop S) c m none r₁) := fun m hc h₁ =>
      h₁.trans (aloof_sendRaw aloof_drop m none (h.aloof h₁) (h₁.out _ hc))
    have hset : ∀ {r₁ : State} {c : ℕ} {y : Client}, (r.clients c).room ≠ some ri → y.room = some rj →
        Aloof ri r r₁ → Aloof ri r (r₁.setClient c y) := fun hc hy h₁ =>
      h₁.trans (.setClient (h.aloof h₁) (h₁.out _ hc) (by rw [hy]; exact hin))
    exact hsend _ hx (hsend _ hhost (hset hx rfl (hset hhost rfl hroom)))

theorem aloof_joinTarget {target : ℕ} (h : Walled ri r) (hx : (r.clients ci).room ≠ some ri) :
    Aloof ri r (joinTarget S ci target r) := by
  have hlist : Aloof ri r (onList S ci r) := aloof_onList h hx
  have hnone : (r.clients target).room = none → (r.clients target).room ≠ some ri := fun hn he => by
    rw [hn] at he
    cases he
  rw [joinTarget]
  split_ifs with hself hp hhr
  · exact hlist
  · exact aloof_startPair h hx (hnone hhr)
  · exact hlist
  · cases htr : (r.clients target).room with
    | some rj =>
      dsimp only
      split_ifs with hshut
      · exact hlist
      · -- a started room takes nobody in
        have hne : rj ≠ ri := by
          rintro rfl
          rw [shut, h.started] at hshut
          exact hshut rfl
        have henter := aloof_enter h hne hx
        exact henter.trans (aloof_joined (h.aloof henter) hne)
    | none =>
      cases hj : roomAlloc S r with
      | none =>
        have hbad : Aloof ri r r.bad := .of_eq h rfl rfl
        exact hbad.trans (aloof_onList (h.aloof hbad) hx)
      | some rj =>
        have hne := h.ne_alloc hj
        have hin : some rj ≠ some ri := fun heq => hne (Option.some.inj heq)
        have hroom : Aloof ri r (r.setRoom rj ⟨true, [target], false, 0⟩) := .setRoom h hne fun c hc => by
          rw [List.mem_singleton.1 hc]
          exact hnone htr
        have hopen : Aloof ri r (openRoom rj target r) :=
          hroom.trans (.setClient (h.aloof hroom) (hroom.out target (hnone htr)) hin)
        have henter := hopen.trans (aloof_enter (h.aloof hopen) hne (hopen.out ci hx))
        exact henter.trans (aloof_joined (h.aloof henter) hne)

theorem aloof_onJoin (payload : List ℕ) (h : Walled ri r) (hx : (r.clients ci).room ≠ some ri) :
    Aloof ri r (onJoin S ci payload r) := by
  have hfind : ∀ r₁ : State, Aloof ri r r₁ → Aloof ri r (findTarget S ci payload r₁) := fun r₁ h₁ => by
    refine h₁.trans ?_
    rw [findTarget]
    split_ifs
    · exact aloof_onList (h.aloof h₁) (h₁.out ci hx)
    · split
      · exact aloof_onList (h.aloof h₁) (h₁.out ci hx)
      · exact aloof_joinTarget (h.aloof h₁) (h₁.out ci hx)
  rw [onJoin]
  split_ifs
  · exact aloof_drop h hx
  · exact .refl h
  · exact hfind _ (.of_eq h rfl rfl)
  · exact hfind _ (.refl h)

theorem aloof_onGo (h : Walled ri r) (hx : (r.clients ci).room ≠ some ri) : Aloof ri r (onGo S ci r) := by
  rw [onGo]
  cases hr : (r.clients ci).room with
  | none => exact .refl h
  | some rj =>
    dsimp only
    split_ifs
    · exact .refl h
    · exact .refl h
    · exact aloof_startRoom h fun heq => hx (by rw [hr, heq])

theorem aloof_fanTo (m : Msg) (src : ℕ) (l : List ℕ) (h : Walled ri r)
    (hl : ∀ c ∈ l, (r.clients c).room ≠ some ri) : Aloof ri r (fanTo S ci m src l r) := by
  induction l generalizing r with
  | nil => exact .refl h
  | cons c l ih =>
    have hstep : Aloof ri r (if c = ci then r else sendRaw S (drop S) c m (some src) r) := by
      split_ifs
      · exact .refl h
      · exact aloof_sendRaw aloof_drop m _ h (hl c List.mem_cons_self)
    rw [fanTo]
    exact hstep.trans (ih (h.aloof hstep) fun c' hc' => hstep.out c' (hl c' (List.mem_cons_of_mem _ hc')))

theorem aloof_fanLive (m : Msg) (src n i : ℕ) (h : Walled ri r) (hne : rj ≠ ri) :
    Aloof ri r (fanLive S ci rj m src n i r) := by
  induction n generalizing r i with
  | zero => exact .refl h
  | succ n ih =>
    unfold fanLive
    cases hc : (r.members rj)[i]? with
    | none => exact .refl h
    | some c =>
      have hstep : Aloof ri r (if c = ci then r else sendRaw S (drop S) c m (some src) r) := by
        split_ifs
        · exact .refl h
        · exact aloof_sendRaw aloof_drop m _ h (h.apart rj hne c (List.mem_of_getElem? hc))
      exact hstep.trans (ih _ (h.aloof hstep))

theorem aloof_relay (m : Msg) (h : Walled ri r) (hx : (r.clients ci).room ≠ some ri) :
    Aloof ri r (relay S ci m r) := by
  rw [relay]
  cases hr : (r.clients ci).room with
  | none => exact .refl h
  | some rj =>
    have hne : rj ≠ ri := fun heq => hx (by rw [hr, heq])
    have hear : ∀ e : Heard, Aloof ri r (r.hear e) := fun e => .of_eq h rfl rfl
    dsimp only
    split_ifs
    · exact (hear _).trans (aloof_fanLive m _ _ _ (h.aloof (hear _)) hne)
    · exact (hear _).trans (aloof_fanTo m _ _ (h.aloof (hear _)) (h.apart rj hne))
    · exact .refl h

end handlers

/-- A member of the room is dropped. -/
def Bereft (ri : ℕ) (r r' : State) : Prop := ∃ c, (r.clients c).room = some ri ∧ (r'.clients c).dead = true

/-- The room is left alone, unless a member is dropped. -/
def Heeds (ri : ℕ) (r r' : State) : Prop := Aloof ri r r' ∨ Bereft ri r r'

theorem Heeds.trans {ri : ℕ} {r r' r'' : State} (h : Heeds ri r r') (hs : Spares r' r'')
    (h' : Aloof ri r r' → Heeds ri r' r'') : Heeds ri r r'' := by
  obtain ha | ⟨c, hc, hd⟩ := h
  · obtain ha' | ⟨c, hc, hd⟩ := h' ha
    · exact .inl (ha.trans ha')
    · exact .inr ⟨c, by_contra fun ho => ha.out c ho hc, hd⟩
  · exact .inr ⟨c, hc, hs.dead c hd⟩

section heeds

variable {S : Setup} {ri ci : ℕ} {r : State} (hS : Program S)
include hS

theorem heeds_drop (hk : Seats S ∅ r) (h : Walled ri r) (x : ℕ) : Heeds ri r (drop S r x) := by
  by_cases hx : (r.clients x).room = some ri
  · exact .inr ⟨x, hx, dead_dropped hS.fit.pair x hk⟩
  · exact .inl (aloof_drop h hx)

/-- HELLO: who says a member's name has it dropped. -/
theorem heeds_takeName (name : List ℕ) (hk : Seats S ∅ r) (h : Walled ri r)
    (hx : (r.clients ci).room ≠ some ri) : Heeds ri r (takeName S ci name r) := by
  have hevict : Heeds ri r (evict S ci name r) ∧ Seats S ∅ (evict S ci name r) := by
    have hstay : ∀ r₁ x, Aloof ri r r₁ → Seats S ∅ r₁ → Spares r r₁ →
        Heeds ri r (drop S r₁ x) ∧ Seats S ∅ (drop S r₁ x) := fun r₁ x ha hk₁ hs => by
      have hdrop : Stays S r₁ (drop S r₁ x) := stays_drop hS.fit.toOk hk₁
      exact ⟨Heeds.trans (.inl ha) hdrop.2 fun _ => heeds_drop hS hk₁ (h.aloof ha) x, hdrop.1⟩
    rw [evict]
    split
    · split_ifs
      · exact ⟨.inl (.refl h), hk⟩
      · exact hstay r.rob _ (.of_eq h rfl rfl) (hk.of_rooms (fun _ => rfl) rfl) (.of_reg fun _ => ⟨rfl, rfl⟩)
      · exact hstay r _ (.refl h) hk (.refl r)
    · exact ⟨.inl (.refl h), hk⟩
  rw [takeName]
  generalize evict S ci name r = r₁ at hevict
  obtain ⟨hheeds, hk₁⟩ := hevict
  split_ifs
  · exact hheeds
  · have hren : Stays S r₁ (rename S ci name r₁) := by
      refine .of_rooms hk₁ (fun c => ?_) rooms_rename
      rw [clients_named]
      split_ifs with hc
      · rw [hc]
        exact ⟨rfl, rfl, rfl⟩
      · exact ⟨rfl, rfl, rfl⟩
    have hlist : Stays S r₁ (onList S ci (rename S ci name r₁)) :=
      hren.trans (stays_onList hS.fit.toOk hren.1)
    refine hheeds.trans hlist.2 fun ha => .inl ?_
    have hname : Aloof ri r₁ (rename S ci name r₁) := aloof_rename name (h.aloof ha) (ha.out ci hx)
    exact hname.trans (aloof_onList ((h.aloof ha).aloof hname) (hname.out ci (ha.out ci hx)))

/-- A frame of a client outside the room. -/
theorem heeds_handle (m : Msg) (hk : Seats S ∅ r) (h : Walled ri r) (hx : (r.clients ci).room ≠ some ri) :
    Heeds ri r (handle S ci m r) := by
  have hdrop : Heeds ri r (drop S r ci) := .inl (aloof_drop h hx)
  rw [handle]
  split_ifs
  · exact .inl (aloof_relay m h hx)
  · rw [onHello]
    dsimp only
    split_ifs
    · exact hdrop
    · exact hdrop
    · exact heeds_takeName hS _ hk h hx
    · exact hdrop
  · exact .inl (aloof_onList h hx)
  · exact .inl (aloof_onJoin _ h hx)
  · exact hdrop
  · exact .inl (aloof_onGo h hx)
  · exact hdrop
  · exact .inl (aloof_sendRaw aloof_drop _ none h hx)
  · exact hdrop

theorem heeds_drain (n : ℕ) (b : List ℕ) (hk : Upheld S r) (hl : r.Live ci) (h : Walled ri r)
    (hx : (r.clients ci).room ≠ some ri) : Heeds ri r (drain S ci n r b).1 := by
  induction n generalizing r b with
  | zero => exact .inl (.refl h)
  | succ n ih =>
    cases b with
    | nil => exact .inl (.refl h)
    | cons len rest =>
      obtain ⟨hk', hs⟩ := (keeper_upheld hS).handle ⟨rest.headD 0, (rest.take len).tail⟩ hk hl
      have hhandle : Heeds ri r (handle S ci ⟨rest.headD 0, (rest.take len).tail⟩ r) :=
        heeds_handle hS _ hk.1.1 h hx
      unfold drain
      dsimp only
      split_ifs with h1 h2 h3
      · exact .inl (aloof_drop h hx)
      · exact .inl (.refl h)
      · exact hhandle
      · have hl' := hs.spared ci hl (by simpa using h3)
        have hrest := (keeper_upheld hS).drain n (rest.drop len) hk' hl'
        exact hhandle.trans hrest.2 fun ha => ih _ hk' hl' (h.aloof ha) (ha.out ci hx)

theorem heeds_feedBuf (n : ℕ) (data b : List ℕ) (hk : Upheld S r) (hl : r.Live ci) (h : Walled ri r)
    (hx : (r.clients ci).room ≠ some ri) : Heeds ri r (feedBuf S ci n data r b).1 := by
  induction n generalizing r data b with
  | zero => exact .inl (.refl h)
  | succ n ih =>
    have hdrain := heeds_drain hS 256 (b ++ data.take (256 - b.length)) hk hl h hx
    obtain ⟨hk', hs⟩ := (keeper_upheld hS).drain 256 (b ++ data.take (256 - b.length)) hk hl
    rw [feedBuf]
    dsimp only
    split_ifs with h1 h2 h3
    · exact .inl (.refl h)
    · exact .inl (aloof_drop h hx)
    · exact hdrain
    · have hl' := hs.spared ci hl (by simpa using h3)
      exact hdrain.trans (spares_feedBuf hS n _ _ hk' hl') fun ha =>
        ih _ _ hk' hl' (h.aloof ha) (ha.out ci hx)

theorem heeds_sweep (now : ℕ) (hk : Upheld S r) (h : Walled ri r) : Heeds ri r (sweep S now r) := by
  have hall : ∀ (l : List ℕ) (r : State), Upheld S r →
      Spares r (l.foldl (sweepOne S now) r) ∧ (Walled ri r → Heeds ri r (l.foldl (sweepOne S now) r)) := by
    intro l
    induction l with
    | nil => exact fun r _ => ⟨.refl r, fun h => .inl (.refl h)⟩
    | cons i l ih =>
      intro r hk
      rw [List.foldl_cons]
      have hone : Upheld S (sweepOne S now r i) ∧ Spares r (sweepOne S now r i) ∧
          (Walled ri r → Heeds ri r (sweepOne S now r i)) := by
        rw [sweepOne]
        split_ifs with hi
        · obtain ⟨hk', hs⟩ := (keeper_upheld hS).drop hk ⟨hi.1, hi.2.1⟩
          exact ⟨hk', hs, fun h => heeds_drop hS hk.1.1 h i⟩
        · exact ⟨hk, .refl r, fun h => .inl (.refl h)⟩
      obtain ⟨hk', hs, hheeds⟩ := hone
      obtain ⟨hs', hheeds'⟩ := ih _ hk'
      exact ⟨hs.trans hs', fun h => (hheeds h).trans hs' fun ha => hheeds' (h.aloof ha)⟩
  rw [sweep_foldl]
  exact (hall _ r hk).2 h

end heeds

/-! ### Whole runs -/

/-- Whose event it is. -/
def Event.client : Event → Option ℕ
  | .accept _ _ => none
  | .recv ci _ => some ci
  | .closed ci => some ci
  | .writable ci => some ci
  | .sweep _ => none

section run

variable {S : Setup} {ri : ℕ} {v : Server} (hS : Program S)
include hS

/-- An event that is no member's. -/
theorem aloof_step {e : Event} (hk : Upheld S v.st) (h : Walled ri v.st)
    (hl : ∀ c, (v.st.clients c).room = some ri → v.st.Live c)
    (he : ∀ c, e.client = some c → (v.st.clients c).room ≠ some ri)
    (hl' : ∀ c, (v.st.clients c).room = some ri → (step S e v).st.Live c) :
    Aloof ri v.st (step S e v).st ∧ ∀ c, (v.st.clients c).room = some ri → (step S e v).rx c = v.rx c := by
  have hheeds : ∀ {r'}, Heeds ri v.st r' → (∀ c, (v.st.clients c).room = some ri → r'.Live c) →
      Aloof ri v.st r' := fun hh hlive => by
    obtain ha | ⟨c, hc, hd⟩ := hh
    · exact ha
    · exact absurd ((hlive c hc).2.symm.trans hd) Bool.false_ne_true
  cases e with
  | accept ip now =>
    refine ⟨?_, fun c hc => if_pos (hl c hc).1⟩
    obtain heq | heq | ⟨ci, hfree, hc, -⟩ := accept_cases S ip now v.st
    · rw [step, heq]
      exact .refl h
    · rw [step, heq]
      exact .of_eq h rfl rfl
    · refine .of (by rw [step, rooms_accept]) (fun c => ?_) fun rj hne c hcm => ?_
      · rw [step, hc]
        split_ifs with hcx
        · refine .inr ⟨fun hin => ?_, fun hn => by cases hn⟩
          rw [hcx] at hin
          exact absurd (hfree.symm.trans (hl ci hin).1) Bool.false_ne_true
        · exact .inl rfl
      · rw [State.members, step, rooms_accept] at hcm
        exact h.apart rj hne c hcm
  | recv ci data =>
    have hx := he ci rfl
    rw [step] at hl' ⊢
    split_ifs at hl' ⊢ with hlive
    · refine ⟨hheeds ?_ hl', fun c hc => Function.update_of_ne (fun heq => hx (by rw [← heq, hc])) _ _⟩
      rw [feed]
      split_ifs
      · exact heeds_feedBuf hS _ _ _ hk hlive h hx
      · exact heeds_drain hS _ _ hk hlive h hx
    · exact ⟨.refl h, fun _ _ => rfl⟩
  | closed ci =>
    rw [step]
    split_ifs
    · exact ⟨aloof_drop h (he ci rfl), fun _ _ => rfl⟩
    · exact ⟨.refl h, fun _ _ => rfl⟩
  | writable ci =>
    rw [step]
    split_ifs
    · exact ⟨aloof_flushLoop aloof_drop _ h (he ci rfl), fun _ _ => rfl⟩
    · exact ⟨.refl h, fun _ _ => rfl⟩
  | sweep now => exact ⟨hheeds (heeds_sweep hS now hk h) hl', fun _ _ => rfl⟩

omit hS in
theorem walled_of (hk : Upheld S v.st) (hst : (v.st.rooms ri).started = true) (hm : v.st.members ri ≠ []) :
    Walled ri v.st := by
  obtain ⟨⟨hseats, -⟩, -⟩ := hk
  refine ⟨?_, hst, fun rj hne c hc hr => ?_⟩
  · cases hu : (v.st.rooms ri).used with
    | true => rfl
    | false => exact absurd (hseats.unused ri hu) hm
  · rw [(hseats.mem rj (Set.notMem_empty rj) c).1 hc] at hr
    exact hne (Option.some.inj hr)

end run

/-- **A match is left alone.**  From any state of any run on, whatever comes from clients outside a started
room and whoever connects or runs into the time limit, in any order: as long as no member is dropped, the room
is as it was, and so is everything that the relay has of the members, what it has received of them and what
it has written and is about to write to their sockets included. -/
theorem match_alone {S : Setup} (hS : Program S) (es es' : List Event) {ri : ℕ}
    (hst : ((run S es).st.rooms ri).started = true)
    (hothers : ∀ e ∈ es', ∀ c ∈ (run S es).st.members ri, e.client ≠ some c)
    (hlive : ∀ l, l <+: es' → ∀ c ∈ (run S es).st.members ri, (run S (es ++ l)).st.Live c) :
    ∀ c ∈ (run S es).st.members ri, (run S (es ++ es')).st.rooms ri = (run S es).st.rooms ri ∧
      (run S (es ++ es')).st.clients c = (run S es).st.clients c ∧
      (run S (es ++ es')).rx c = (run S es).rx c := by
  intro c hc
  have hk : Upheld S (run S es).st := upheld_run hS es
  have hin : ∀ x, x ∈ (run S es).st.members ri ↔ ((run S es).st.clients x).room = some ri :=
    hk.1.1.mem ri (Set.notMem_empty ri)
  have h : Walled ri (run S es).st := walled_of hk hst (List.ne_nil_of_mem hc)
  have hall : Aloof ri (run S es).st (run S (es ++ es')).st ∧
      ∀ x, ((run S es).st.clients x).room = some ri → (run S (es ++ es')).rx x = (run S es).rx x := by
    induction es' using List.reverseRecOn with
    | nil =>
      rw [List.append_nil]
      exact ⟨.refl h, fun _ _ => rfl⟩
    | append_singleton es' e ih =>
      obtain ⟨ha, hrx⟩ := ih (fun e' he' => hothers e' (List.mem_append_left _ he')) fun l hl =>
        hlive l (hl.trans (List.prefix_append _ _))
      have hback : ∀ x, ((run S (es ++ es')).st.clients x).room = some ri →
          ((run S es).st.clients x).room = some ri := fun x hx => by_contra fun ho => ha.out x ho hx
      have hrun : run S (es ++ (es' ++ [e])) = step S e (run S (es ++ es')) := by
        rw [run, run, ← List.append_assoc, List.foldl_append, List.foldl_cons, List.foldl_nil]
      have hend := hlive _ List.prefix_rfl
      rw [hrun] at hend ⊢
      obtain ⟨ha', hrx'⟩ := aloof_step (e := e) hS (upheld_run hS _) (h.aloof ha)
        (fun x hx => hlive es' (List.prefix_append _ _) x ((hin x).2 (hback x hx)))
        (fun x hex hx => hothers e (List.mem_append_right _ (List.mem_singleton.2 rfl)) x
          ((hin x).2 (hback x hx)) hex)
        fun x hx => hend x ((hin x).2 (hback x hx))
      refine ⟨ha.trans ha', fun x hx => ?_⟩
      rw [hrx' x (by rw [ha.same x hx, hx]), hrx x hx]
  have hroom := (hin c).1 hc
  exact ⟨hall.1.room, hall.1.same c hroom, hall.2 c hroom⟩

/-- Two play while a third connects, gives its name, asks to join them and is gone. -/
theorem match_alone_third :
    let S := cRelay false 2 0 3 (fun n => if n % 2 = 0 then .wrote 3 else .again) fun _ => 7
    let es : List Event := [.accept 1 0, .accept 2 0, .recv 0 [4, 1, 2, 65, 65],
      .recv 1 [4, 1, 2, 66, 66], .recv 1 [3, 4, 65, 65], .recv 0 [1, 15], .recv 1 [6, 6, 1]]
    let es' : List Event :=
      [.accept 3 5, .recv 2 [4, 1, 2, 67, 67], .recv 2 [3, 4, 65, 65], .sweep 90, .closed 2]
    (run S (es ++ es')).st.conns = 3 ∧ (run S (es ++ es')).rx 1 = [6, 6, 1] ∧
      (run S (es ++ es')).st.clients 1 = (run S es).st.clients 1 := by
  intro S es es'
  have hS : Program S := .c (le_refl 2) (by decide) (fun h => absurd h Bool.false_ne_true) _ _ _ _
  have hlive : ∀ l ∈ es'.inits, ∀ c ∈ (run S es).st.members 0, (run S (es ++ l)).st.Live c := by
    decide +kernel
  have hst : ((run S es).st.rooms 0).started = true := by decide +kernel
  obtain ⟨-, hsame, hrx⟩ := match_alone hS es es' hst (by decide +kernel)
    (fun l hl => hlive l ((List.mem_inits _ _).2 hl)) 1 (by decide +kernel)
  refine ⟨by decide +kernel, ?_, hsame⟩
  rw [hrx]
  decide +kernel

end IntvNetplay.Relay
