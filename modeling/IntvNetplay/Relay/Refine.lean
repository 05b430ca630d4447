import IntvNetplay.Relay.Seats

/-!
# The two programs agree

As long as no send fails, the two programs for rooms of two do the same: the loops they have differently
come to the same, and so do the bounds of tables that one of them has.
-/

namespace IntvNetplay.Relay

/-- `S` is the C program and `S'` the Python one, with the same options and in the same world. -/
structure Twins (S S' : Setup) : Prop where
  fit : S.Fit
  fit' : S'.Fit
  proto : S.proto1 = false
  proto' : S'.proto1 = false
  two : S.maxSeats = 2
  two' : S'.maxSeats = 2
  autoGo : S'.autoGo = S.autoGo
  delay : S'.delay = S.delay
  send : S'.send = S.send
  seed : S'.seed = S.seed
  copies : S.live = false
  live' : S'.live = true
  rechecks : S.rechecks = true
  ctable : S.ctable = true
  ctable' : S'.ctable = false
  rooms : S.maxRooms ≤ S'.maxRooms

theorem twins {autoGo : ℕ} (hauto : autoGo ≤ 2) (delay : ℕ) (send : ℕ → SendResult) (seed : ℕ → ℕ) :
    Twins (cRelay false 2 autoGo delay send seed) (pyRelay autoGo delay send seed) where
  fit := fit_cRelay (le_refl 2) (fun h => absurd h Bool.false_ne_true) _ _ _ _
  fit' := fit_pyRelay _ _ _ _
  proto := rfl
  proto' := rfl
  two := rfl
  two' := rfl
  autoGo := (min_eq_left hauto).symm
  delay := rfl
  send := rfl
  seed := rfl
  copies := rfl
  live' := rfl
  rechecks := rfl
  ctable := rfl
  ctable' := rfl
  rooms := show 32 ≤ 64 by decide

/-- A failure stays on record. -/
theorem passing_failed (S : Setup) : Passing S fun r r' =>
    r.heard <:+ r'.heard ∧ (r'.failed = false → r.failed = false) ∧
      (r'.cut = false → r.cut = false) where
  trans h h' := ⟨h.1.trans h'.1, h.2.1 ∘ h'.2.1, h.2.2 ∘ h'.2.2⟩
  quiet h := ⟨h.heard ▸ List.suffix_refl _, fun hf => h.failed ▸ hf, fun hc => h.cut ▸ hc⟩
  queue _ _ _ _ := ⟨List.suffix_refl _, id, id⟩
  wrote _ _ _ := ⟨List.suffix_refl _, id, id⟩
  fail _ := by
    refine ⟨List.suffix_refl _, fun hf => ?_, id⟩
    cases hf
  tear _ := ⟨List.suffix_refl _, id, id⟩
  rob _ := ⟨List.suffix_refl _, id, id⟩
  snip _ := by
    refine ⟨List.suffix_refl _, id, fun hc => ?_⟩
    cases hc
  heard h := h.1
  hear _ e _ := ⟨List.suffix_cons e _, id, id⟩
  pass _ _ _ _ := ⟨List.suffix_refl _, id, id⟩

theorem closed_failed (S : Setup) : Closed S fun r r' => r'.failed = false → r.failed = false where
  trans h h' := h ∘ h'
  quiet h hf := h.failed ▸ hf
  queue _ _ _ _ := id
  wrote _ _ _ := id
  fail _ hf := by cases hf
  tear _ := id
  rob _ := id
  snip _ := id

/-! ### Sends -/

section sends

variable {S S' : Setup} (hT : Twins S S') {D E : State → ℕ → State}
  (hD : ∀ r ci, (D r ci).failed = false → r.failed = false)
include hD

/-- A send that does not fail changes nothing of the registry. -/
theorem same_flushLoop (ci k : ℕ) {r : State} (h : (flushLoop S D ci k r).failed = false) :
    SameReg r (flushLoop S D ci k r) := by
  induction k generalizing r with
  | zero => exact .refl r
  | succ k ih =>
    unfold flushLoop at h ⊢
    by_cases htx : (r.clients ci).tx = []
    · rw [if_pos htx]
      exact .refl r
    · rw [if_neg htx] at h ⊢
      cases hs : S.send r.calls with
      | wrote j =>
        rw [hs] at h
        exact ((sameReg_called r).trans (sameReg_wrote _ ci (j + 1))).trans (ih h)
      | again => exact sameReg_called r
      | zero =>
        rw [hs] at h
        cases hD _ _ h
      | error =>
        rw [hs] at h
        cases hD _ _ h

theorem same_sendRaw {ci : ℕ} {m : Msg} {src : Option ℕ} {r : State}
    (h : (sendRaw S D ci m src r).failed = false) : SameReg r (sendRaw S D ci m src r) := by
  rw [sendRaw] at h ⊢
  split_ifs at h ⊢
  · exact .refl r
  · cases hD _ _ h
  · exact (sameReg_queue r ci m src).trans (same_flushLoop hD ci _ h)

include hT

theorem flushLoop_eq (ci k : ℕ) {r : State} (h : (flushLoop S D ci k r).failed = false) :
    flushLoop S' E ci k r = flushLoop S D ci k r := by
  induction k generalizing r with
  | zero => rfl
  | succ k ih =>
    unfold flushLoop at h ⊢
    by_cases htx : (r.clients ci).tx = []
    · rw [if_pos htx, if_pos htx]
    · rw [if_neg htx] at h ⊢
      rw [if_neg htx, hT.send]
      cases hs : S.send r.calls with
      | wrote j =>
        rw [hs] at h
        exact ih h
      | again => rfl
      | zero =>
        rw [hs] at h
        cases hD _ _ h
      | error =>
        rw [hs] at h
        cases hD _ _ h

theorem sendRaw_eq {ci : ℕ} {m : Msg} {src : Option ℕ} {r : State}
    (h : (sendRaw S D ci m src r).failed = false) :
    sendRaw S' E ci m src r = sendRaw S D ci m src r := by
  rw [sendRaw] at h ⊢
  rw [sendRaw]
  split_ifs at h ⊢
  · rfl
  · cases hD _ _ h
  · exact flushLoop_eq hT hD ci _ h

theorem sendAll_eq {m : Msg} (hm : Built S m) (l : List ℕ) {r : State}
    (h : (sendAll S D m l r).failed = false) :
    sendAll S' E m l r = sendAll S D m l r ∧ SameReg r (sendAll S D m l r) := by
  induction l generalizing r with
  | nil => exact ⟨rfl, .refl r⟩
  | cons c l ih =>
    have hmid := (closed_failed S).sendAll hD hm l _ h
    obtain ⟨heq, hsame⟩ := ih h
    refine ⟨?_, (same_sendRaw hD hmid).trans hsame⟩
    rw [sendAll, sendRaw_eq hT hD hmid]
    exact heq

/-- The loop over the members as they are and the loop over a copy come to the same. -/
theorem announceLive_eq {ri : ℕ} {m : ℕ → Msg} (hm : ∀ i, Built S (m i)) (l : List ℕ) (i : ℕ)
    {r : State} (hl : ∀ j, (r.members ri)[i + j]? = l[j]?)
    (h : (announceTo S D (l.mapIdx fun j c => (c, m (i + j))) r).failed = false) :
    announceLive S' E ri m l.length i r = announceTo S D (l.mapIdx fun j c => (c, m (i + j))) r ∧
      SameReg r (announceTo S D (l.mapIdx fun j c => (c, m (i + j))) r) := by
  induction l generalizing i r with
  | nil => exact ⟨rfl, .refl r⟩
  | cons c l ih =>
    have hshift : (fun (j : ℕ) (c : ℕ) => (c, m (i + (j + 1)))) = fun j c => (c, m (i + 1 + j)) := by
      funext j c
      rw [Nat.add_assoc, Nat.add_comm 1 j]
    rw [List.mapIdx_cons, hshift, Nat.add_zero] at h ⊢
    simp only [announceTo] at h ⊢
    have hbuilt : ∀ e ∈ l.mapIdx fun j c => (c, m (i + 1 + j)), Built S e.2 := by
      intro e he
      rw [List.mem_mapIdx] at he
      obtain ⟨j, -, rfl⟩ := he
      exact hm _
    have hmid := (closed_failed S).announceTo hD _ hbuilt _ h
    have hsend : (sendRaw S D c (m i) none r).failed = false := by
      split_ifs at hmid
      · exact hmid
      · exact hmid
    have hsame := same_sendRaw hD hsend
    -- Nobody is dropped, so nothing is torn.
    have htorn : (!(r.clients c).dead && ((sendRaw S D c (m i) none r).clients c).dead &&
        (l.mapIdx fun j c => (c, m (i + 1 + j))).any
          fun e => !((sendRaw S D c (m i) none r).clients e.1).dead) = false := by
      rw [hsame.dead]
      cases (r.clients c).dead with
      | true => rfl
      | false => rfl
    rw [htorn, if_neg Bool.false_ne_true] at h ⊢
    have hnext : ∀ j, ((sendRaw S D c (m i) none r).members ri)[i + 1 + j]? = l[j]? := by
      intro j
      rw [State.members, hsame.rooms, Nat.add_assoc, Nat.add_comm 1 j]
      exact hl (j + 1)
    obtain ⟨heq, hrest⟩ := ih (i + 1) hnext h
    refine ⟨?_, hsame.trans hrest⟩
    rw [List.length_cons, announceLive, show (r.members ri)[i]? = some c from hl 0]
    dsimp only
    rw [sendRaw_eq hT hD hsend]
    exact heq

theorem announce_eq {ri : ℕ} {m : ℕ → Msg} (hm : ∀ i, Built S (m i)) {r : State}
    (h : (announce S D ri m r).failed = false) :
    announce S' E ri m r = announce S D ri m r ∧ SameReg r (announce S D ri m r) := by
  have hzero : (fun (j : ℕ) (c : ℕ) => (c, m (0 + j))) = fun j c => (c, m j) := by
    funext j c
    rw [Nat.zero_add]
  have hloop := announceLive_eq hT hD hm (E := E) (r.members ri) 0 (r := r) fun j => by
    rw [Nat.zero_add]
  have hcopy : announce S D ri m r = announceTo S D ((r.members ri).mapIdx fun i c => (c, m i)) r := by
    rw [announce, hT.copies, if_neg Bool.false_ne_true]
  have hlive : announce S' E ri m r = announceLive S' E ri m (r.members ri).length 0 r := by
    rw [announce, hT.live', if_pos rfl]
  rw [hcopy] at h ⊢
  rw [hlive]
  rw [hzero] at hloop
  exact hloop h

theorem dissolve_eq {ri : ℕ} (notify : List ℕ) {r : State}
    (h : (dissolve S D ri notify r).failed = false) :
    dissolve S' E ri notify r = dissolve S D ri notify r ∧
      ∀ c, ((dissolve S D ri notify r).clients c).dead = (r.clients c).dead := by
  obtain ⟨heq, hsame⟩ := sendAll_eq (E := E) hT hD .gone notify (r := r.unroom ri) h
  refine ⟨?_, fun c => (hsame.dead c).trans ?_⟩
  · rw [dissolve, heq]
    rfl
  · rw [State.unroom]
    dsimp only
    split_ifs
    · rfl
    · rfl

theorem dropSeat_eq {ci ri seat : ℕ} {r : State} (h : (dropSeat S D ci ri seat r).failed = false) :
    dropSeat S' E ci ri seat r = dropSeat S D ci ri seat r ∧
      ∀ c, ((dropSeat S D ci ri seat r).clients c).dead = (r.clients c).dead := by
  rw [dropSeat] at h ⊢
  rw [dropSeat]
  split_ifs at h ⊢
  · have hmid := (closed_failed S).sendAll hD (.left _ _) _ _ h
    obtain ⟨heq, hdead⟩ := dissolve_eq hT hD (E := E) [] hmid
    obtain ⟨heq', hsame⟩ := sendAll_eq hT hD (E := E) (.left _ _) _ h
    refine ⟨?_, fun c => (hsame.dead c).trans (hdead c)⟩
    rw [heq, heq']
  · exact dissolve_eq hT hD _ h
  · exact dissolve_eq hT hD _ h
  · obtain ⟨heq, hsame⟩ := announce_eq hT hD (E := E) (fun _ => .room r ri) h
    exact ⟨heq, hsame.dead⟩

theorem dropBody_twins {ci : ℕ} {r : State} (h : (dropBody S D r ci).failed = false) :
    dropBody S' E r ci = dropBody S D r ci ∧
      ∀ c, c ≠ ci → ((dropBody S D r ci).clients c).dead = (r.clients c).dead := by
  cases hd : (r.clients ci).dead with
  | true =>
    rw [dropBody, if_pos hd, dropBody, if_pos hd]
    exact ⟨rfl, fun _ _ => rfl⟩
  | false =>
    rw [dropBody_eq S D hd] at h ⊢
    rw [dropBody_eq S' E hd]
    cases hr : (r.clients ci).room with
    | none =>
      refine ⟨rfl, fun c hc => ?_⟩
      dsimp only
      rw [clients_free_ne hc, clients_gone, if_neg hc]
    | some ri =>
      rw [hr, hT.proto] at h
      rw [hT.proto, hT.proto']
      dsimp only at h ⊢
      rw [if_neg Bool.false_ne_true] at h ⊢
      rw [if_neg Bool.false_ne_true]
      have hseat : (dropSeat S D ci ri ((r.members ri).idxOf ci) (r.out ci ri)).failed = false :=
        (closed_failed S).quiet ((Quiet.refl _).publish.free ci) h
      obtain ⟨heq, hdead⟩ := dropSeat_eq hT hD (E := E) hseat
      refine ⟨by rw [heq], fun c hc => ?_⟩
      rw [clients_free_ne hc]
      refine (hdead c).trans ?_
      rw [clients_out, if_neg hc]

end sends

/-! ### The protocol -/

section protocol

variable {S S' : Setup} (hT : Twins S S') {r : State} {ci : ℕ}
include hT

theorem drop_eq (h : (drop S r ci).failed = false) : drop S' r ci = drop S r ci ∧
    ∀ c, c ≠ ci → ((drop S r ci).clients c).dead = (r.clients c).dead :=
  dropBody_twins hT ((closed_failed S).dropN 63) h

theorem onList_eq (h : (onList S ci r).failed = false) : onList S' ci r = onList S ci r := by
  have hmsg : lobbyMsg S' r ci = lobbyMsg S r ci := by
    have hstatus : statusByte S' r = statusByte S r := by
      funext c
      rw [statusByte, statusByte, hT.proto, hT.proto', hT.two, hT.two']
    rw [lobbyMsg, lobbyMsg, hstatus]
  rw [onList, hmsg]
  exact sendRaw_eq hT (closed_failed S).drop h

/-- What one state of the C program is for the Python one. -/
theorem Sound.twin {Z P : Set ℕ} (h : Sound S Z P r) : Sound S' Z P r := by
  refine ⟨h.names, h.owners, h.entry, h.listed, h.proper, h.room, fun ri hu hz => ?_, h.unused, h.slots,
    h.dying, h.count, h.published, h.fault⟩
  have hseats := h.seats ri hu hz
  rw [hT.two] at hseats
  rw [hT.two']
  exact hseats

theorem robs_eq (old : ℕ) : robs S' r ci old = robs S r ci old := by
  have hbroken : ∀ k calls left, broken S' k calls left = broken S k calls left := by
    intro k
    induction k with
    | zero => exact fun _ _ => rfl
    | succ k ih =>
      intro calls left
      unfold broken
      rw [hT.send]
      split_ifs
      · rfl
      · cases S.send calls with
        | wrote j => exact ih _ _
        | again => rfl
        | zero => rfl
        | error => rfl
  have hrefused : ∀ m, refused S' r ci m = refused S r ci m := fun m => by
    rw [refused, refused, hbroken]
  rw [robs, robs]
  cases (r.clients old).room with
  | none => rfl
  | some ri => exact congrArg (decide (ci ∈ r.members ri) && ·) (hrefused _)

theorem evict_eq {name : List ℕ} (h : (evict S ci name r).failed = false) :
    evict S' ci name r = evict S ci name r ∧
      ((evict S ci name r).clients ci).dead = (r.clients ci).dead := by
  rw [evict] at h ⊢
  rw [evict]
  cases hf : r.nameFind name with
  | none => exact ⟨rfl, rfl⟩
  | some old =>
    rw [hf] at h
    dsimp only at h ⊢
    rw [robs_eq hT]
    by_cases hold : old = ci
    · rw [if_pos hold, if_pos hold]
      exact ⟨rfl, rfl⟩
    · rw [if_neg hold] at h
      rw [if_neg hold, if_neg hold]
      obtain ⟨heq, hdead⟩ := drop_eq hT h
      refine ⟨heq, (hdead ci fun hc => hold hc.symm).trans ?_⟩
      split_ifs
      · rfl
      · rfl

theorem rename_eq {name : List ℕ} (h : Sound S ∅ ∅ r) (hl : r.Live ci) (hok : nameOk name = true)
    (hown : ∀ e ∈ r.byName, e.1 = name → e.2 = ci) : rename S' ci name r = rename S ci name r := by
  have hname : name ≠ [] := by
    rintro rfl
    exact absurd hok (by decide)
  have hfault := (named_fields h hl hname hown).2.2.1
  rw [h.fault, rename] at hfault
  rw [rename, rename]
  dsimp only at hfault ⊢
  generalize State.setClient _ ci _ = r₁ at *
  have hset : nameSet S' name ci r₁ = nameSet S name ci r₁ := by
    rw [nameSet, nameSet, hT.ctable, hT.ctable', Bool.false_and, Bool.true_and, if_neg Bool.false_ne_true]
    rw [nameSet, hT.ctable, Bool.true_and] at hfault
    split_ifs at hfault ⊢
    · rfl
    · cases hfault
    · rfl
  rw [hset]

theorem takeName_eq {name : List ℕ} (hs : Sound S ∅ ∅ r) (hl : r.Live ci) (hok : nameOk name = true)
    (h : (takeName S ci name r).failed = false) : takeName S' ci name r = takeName S ci name r := by
  have hF := closed_failed S
  have hevict : (evict S ci name r).failed = false := by
    rw [takeName] at h
    split_ifs at h
    · exact h
    · exact hF.rename ci name _ (hF.onList ci _ h)
  obtain ⟨heq, hdead⟩ := evict_eq hT hevict
  obtain ⟨hk, hown⟩ := keeps_evict hT.fit.toOk (S := S) (r := r) name hs
  have hd : ((evict S ci name r).clients ci).dead = false := hdead.trans hl.2
  have hl' := hk.2.spared ci hl hd
  have hboth : ∀ T : Setup, takeName T ci name r = (if T.rechecks && ((evict T ci name r).clients ci).dead
      then evict T ci name r else onList T ci (rename T ci name (evict T ci name r))) := fun T => rfl
  rw [hboth S, hd, Bool.and_false, if_neg Bool.false_ne_true] at h
  rw [hboth S, hboth S', heq, hd, Bool.and_false, if_neg Bool.false_ne_true, Bool.and_false,
    if_neg Bool.false_ne_true, rename_eq hT hk.1 hl' hok hown]
  exact onList_eq hT h

theorem onHello_eq {payload : List ℕ} (hs : Sound S ∅ ∅ r) (hl : r.Live ci)
    (h : (onHello S ci payload r).failed = false) :
    onHello S' ci payload r = onHello S ci payload r := by
  rw [onHello] at h ⊢
  rw [onHello, hT.proto']
  rw [hT.proto] at h ⊢
  dsimp only at h ⊢
  split_ifs at h ⊢ with h1 h2 hok
  · exact (drop_eq hT h).1
  · exact (drop_eq hT h).1
  · exact takeName_eq hT hs hl hok h
  · exact (drop_eq hT h).1

theorem startRoom_eq {ri : ℕ} (h : (startRoom S ri r).failed = false) :
    startRoom S' ri r = startRoom S ri r := by
  have hsend : ∀ r₁ : State, (announce S (drop S) ri
      (fun seat => startMsg r₁ ri (S.seed r.seeds) S.delay seat) r₁).failed = false →
        announce S' (drop S') ri (fun seat => startMsg r₁ ri (S.seed r.seeds) S.delay seat) r₁ =
          announce S (drop S) ri (fun seat => startMsg r₁ ri (S.seed r.seeds) S.delay seat) r₁ :=
    fun r₁ h₁ => (announce_eq hT (closed_failed S).drop (fun _ => .start _ _ _ _ _) h₁).1
  rw [startRoom, startRoom, hT.seed, hT.delay]
  dsimp only
  rw [hsend _ h]

theorem joined_eq {ri : ℕ} (h : (joined S ri r).failed = false) : joined S' ri r = joined S ri r := by
  have hcast : (roomBroadcast S (drop S) ri r).failed = false := by
    rw [joined] at h
    split_ifs at h
    · exact (closed_failed S).publish _ ((closed_failed S).startRoom ri _ h)
    · exact h
  have heq : roomBroadcast S' (drop S') ri r = roomBroadcast S (drop S) ri r :=
    (announce_eq hT (closed_failed S).drop (fun _ => .room r ri) hcast).1
  rw [joined] at h ⊢
  rw [joined, heq, hT.autoGo]
  split_ifs at h ⊢
  · exact startRoom_eq hT h
  · rfl

theorem shut_eq (ri : ℕ) : shut S' r ri = shut S r ri := by
  rw [shut, shut, hT.two, hT.two']

theorem roomAlloc_eq (hs : Sound S ∅ ∅ r) (hl : r.Live ci) (hr : (r.clients ci).room = none) :
    roomAlloc S' r = roomAlloc S r := by
  obtain ⟨ri, hri, -⟩ := roomAlloc_isSome hT.fit.toOk hs hl hr
  rw [hri]
  rw [roomAlloc, List.find?_range_eq_some] at hri ⊢
  obtain ⟨hu, hlt, hleast⟩ := hri
  have := hT.rooms
  rw [List.mem_range] at hlt
  exact ⟨hu, List.mem_range.2 (by omega), hleast⟩

theorem joinTarget_eq {target : ℕ} (hs : Sound S ∅ ∅ r) (hl : r.Live ci)
    (hr : (r.clients ci).room = none) (h : (joinTarget S ci target r).failed = false) :
    joinTarget S' ci target r = joinTarget S ci target r := by
  rw [joinTarget_rooms S hT.proto] at h ⊢
  rw [joinTarget_rooms S' hT.proto', roomAlloc_eq hT hs hl hr]
  split_ifs at h ⊢
  · exact onList_eq hT h
  · cases htr : (r.clients target).room with
    | some ri =>
      rw [htr] at h
      dsimp only at h ⊢
      rw [shut_eq hT]
      split_ifs at h ⊢
      · exact onList_eq hT h
      · exact joined_eq hT h
    | none =>
      rw [htr] at h
      dsimp only at h ⊢
      cases hri : roomAlloc S r with
      | none =>
        rw [hri] at h
        exact onList_eq hT h
      | some ri =>
        rw [hri] at h
        exact joined_eq hT h

omit hT in
/-- A registered name has no NUL. -/
theorem Sound.nameFind_nul {Z P : Set ℕ} (h : Sound S Z P r) {name : List ℕ} (hn : 0 ∈ name) :
    r.nameFind name = none := by
  refine nameFind_eq_none.2 fun e he heq => ?_
  have hok := h.proper e he
  rw [heq, nameOk, Bool.and_eq_true, List.all_eq_true] at hok
  exact absurd (hok.2 0 hn) (by decide)

omit hT in
theorem Sound.nameFind_long {Z P : Set ℕ} (h : Sound S Z P r) {name : List ℕ} (hn : 8 < name.length) :
    r.nameFind name = none := by
  refine nameFind_eq_none.2 fun e he heq => ?_
  have hok := h.proper e he
  rw [heq, nameOk, Bool.and_eq_true, Bool.and_eq_true, decide_eq_true_eq, decide_eq_true_eq] at hok
  omega

omit hT in
/-- What does not stop at a NUL has one. -/
theorem mem_of_takeWhile_ne {l : List ℕ} (h : l.takeWhile (· != 0) ≠ l) : 0 ∈ l := by
  by_contra hn
  refine h (List.takeWhile_eq_self_iff.2 fun x hx => ?_)
  rw [bne_iff_ne]
  rintro rfl
  exact hn hx

theorem findTarget_eq {payload : List ℕ} (hs : Sound S ∅ ∅ r) (hl : r.Live ci)
    (hr : (r.clients ci).room = none) (hcut : cuts S r ci payload = false)
    (h : (findTarget S ci payload r).failed = false) :
    findTarget S' ci payload r = findTarget S ci payload r := by
  have hpy : findTarget S' ci payload r =
      (r.nameFind (rstrip payload)).elim (onList S' ci r) fun target => joinTarget S' ci target r := by
    have hname : joinName S' payload = rstrip payload := by
      rw [joinName, hT.ctable', if_neg Bool.false_ne_true]
    rw [findTarget, hname, if_neg fun hc => Bool.false_ne_true (hT.ctable'.symm.trans hc.1)]
    cases r.nameFind (rstrip payload) with
    | none => rfl
    | some target => rfl
  have hc : findTarget S ci payload r = if 8 < (rstrip payload).length then onList S ci r
      else (r.nameFind ((rstrip payload).takeWhile (· != 0))).elim (onList S ci r) fun target =>
        joinTarget S ci target r := by
    rw [findTarget, joinName, hT.ctable, if_pos rfl]
    refine if_congr (by simp) rfl ?_
    cases r.nameFind ((rstrip payload).takeWhile (· != 0)) with
    | none => rfl
    | some target => rfl
  rw [hc] at h ⊢
  rw [hpy]
  split_ifs at h ⊢ with hlong
  · rw [hs.nameFind_long hlong]
    exact onList_eq hT h
  · by_cases hnul : (rstrip payload).takeWhile (· != 0) = rstrip payload
    · rw [hnul] at h ⊢
      cases hf : r.nameFind (rstrip payload) with
      | none =>
        rw [hf] at h
        exact onList_eq hT h
      | some target =>
        rw [hf] at h
        exact joinTarget_eq hT hs hl hr h
    · -- The C program looks for what is before the NUL, and finds nobody to join.
      rw [hs.nameFind_nul (mem_of_takeWhile_ne hnul)]
      have hlist : ((r.nameFind ((rstrip payload).takeWhile (· != 0))).elim (onList S ci r) fun target =>
          joinTarget S ci target r) = onList S ci r := by
        rw [cuts] at hcut
        rw [bne_iff_ne.2 hnul, Bool.true_and, decide_eq_true (by omega), Bool.true_and] at hcut
        cases hf : r.nameFind ((rstrip payload).takeWhile (· != 0)) with
        | none => rfl
        | some target =>
          rw [hf] at hcut
          dsimp only at hcut
          rw [Option.elim_some, joinTarget_rooms S hT.proto]
          by_cases hself : target = ci
          · rw [if_pos (.inl hself)]
          · rw [bne_iff_ne.2 hself, Bool.true_and] at hcut
            cases htr : (r.clients target).room with
            | none =>
              rw [htr] at hcut
              cases hcut
            | some ri =>
              rw [htr] at hcut
              rw [Bool.not_eq_false'] at hcut
              dsimp only
              rw [if_pos hcut, ite_self]
      rw [hlist] at h ⊢
      exact onList_eq hT h

/-- The failure and the cut names of a part are on record at the end. -/
theorem onJoin_eq {payload : List ℕ} (hs : Sound S ∅ ∅ r) (hl : r.Live ci)
    (h : (onJoin S ci payload r).failed = false) (hcut : (onJoin S ci payload r).cut = false) :
    onJoin S' ci payload r = onJoin S ci payload r := by
  have hcuts : cuts S' r ci payload = cuts S r ci payload := by
    have hshut : shut S' r = shut S r := funext fun ri => shut_eq hT ri
    rw [cuts, cuts, hshut]
  rw [onJoin] at h hcut ⊢
  rw [onJoin, hcuts]
  split_ifs at h hcut ⊢ with hn hr hc
  · exact (drop_eq hT h).1
  · rfl
  · cases ((passing_failed S).toClosed.findTarget ci payload _).2.2 hcut
  · exact findTarget_eq hT hs hl (not_not.1 hr) (by simpa using hc) h

theorem onGo_eq (h : (onGo S ci r).failed = false) : onGo S' ci r = onGo S ci r := by
  rw [onGo] at h ⊢
  rw [onGo, hT.two']
  rw [hT.two] at h ⊢
  cases hr : (r.clients ci).room with
  | none => rfl
  | some ri =>
    rw [hr] at h
    dsimp only at h ⊢
    split_ifs at h ⊢
    · rfl
    · rfl
    · exact startRoom_eq hT h

/-! ### Relaying -/

theorem fanLive_fanTo {ri src : ℕ} {m : Msg} (l : List ℕ) (i : ℕ)
    (hl : ∀ j, (r.members ri)[i + j]? = l[j]?)
    (hF : ∀ (l : List ℕ) (r : State), (fanTo S ci m src l r).failed = false → r.failed = false)
    (h : (fanTo S ci m src l r).failed = false) :
    fanLive S' ci ri m src l.length i r = fanTo S ci m src l r := by
  induction l generalizing i r with
  | nil => rfl
  | cons c l ih =>
    rw [fanTo] at h ⊢
    have hmid := hF _ _ h
    have hone : (if c = ci then r else sendRaw S' (drop S') c m (some src) r) =
        (if c = ci then r else sendRaw S (drop S) c m (some src) r) ∧
          (if c = ci then r else sendRaw S (drop S) c m (some src) r).rooms = r.rooms := by
      split_ifs at hmid ⊢
      · exact ⟨rfl, rfl⟩
      · exact ⟨sendRaw_eq hT (closed_failed S).drop hmid,
          (same_sendRaw (closed_failed S).drop hmid).rooms⟩
    rw [List.length_cons, fanLive, show (r.members ri)[i]? = some c from hl 0]
    dsimp only
    rw [hone.1]
    refine ih (i + 1) (fun j => ?_) h
    rw [State.members, hone.2, Nat.add_assoc, Nat.add_comm 1 j]
    exact hl (j + 1)

theorem relay_eq {m : Msg} (h : (relay S ci m r).failed = false) : relay S' ci m r = relay S ci m r := by
  have hF : ∀ (src : ℕ) (l : List ℕ) (r : State), (fanTo S ci m src l r).failed = false →
      r.failed = false := by
    intro src l
    induction l with
    | nil => exact fun _ => id
    | cons c l ih =>
      intro r hr
      have hmid := ih _ hr
      split_ifs at hmid
      · exact hmid
      · exact (closed_failed S).sendRaw (closed_failed S).drop (fun hq => hq) hmid
  rw [relay] at h ⊢
  rw [relay, hT.live']
  rw [hT.copies] at h ⊢
  cases hr : (r.clients ci).room with
  | none => rfl
  | some ri =>
    rw [hr] at h
    dsimp only at h ⊢
    rw [if_pos rfl]
    rw [if_neg Bool.false_ne_true] at h ⊢
    split_ifs at h ⊢
    · refine fanLive_fanTo hT (r.members ri) 0 (fun j => ?_) (hF _) h
      rw [Nat.zero_add]
      rfl
    · rfl

theorem handle_eq {m : Msg} (hs : Sound S ∅ ∅ r) (hl : r.Live ci)
    (h : (handle S ci m r).failed = false) (hcut : (handle S ci m r).cut = false) :
    handle S' ci m r = handle S ci m r := by
  have hdrop : (drop S r ci).failed = false → drop S' r ci = drop S r ci := fun h => (drop_eq hT h).1
  rw [handle_rooms S hT.proto] at h hcut ⊢
  rw [handle_rooms S' hT.proto']
  by_cases h1 : relayed m.type = true
  · rw [if_pos h1] at h ⊢
    rw [if_pos h1]
    exact relay_eq hT h
  rw [if_neg h1] at h hcut ⊢
  rw [if_neg h1]
  by_cases h2 : m.type = tHello
  · rw [if_pos h2] at h ⊢
    rw [if_pos h2]
    exact onHello_eq hT hs hl h
  rw [if_neg h2] at h hcut ⊢
  rw [if_neg h2]
  by_cases h3 : m.type = tList
  · rw [if_pos h3] at h ⊢
    rw [if_pos h3]
    exact onList_eq hT h
  rw [if_neg h3] at h hcut ⊢
  rw [if_neg h3]
  by_cases h4 : m.type = tJoin
  · rw [if_pos h4] at h hcut ⊢
    rw [if_pos h4]
    exact onJoin_eq hT hs hl h hcut
  rw [if_neg h4] at h ⊢
  rw [if_neg h4]
  by_cases h5 : m.type = tGo
  · rw [if_pos h5] at h ⊢
    rw [if_pos h5]
    exact onGo_eq hT h
  rw [if_neg h5] at h ⊢
  rw [if_neg h5]
  split_ifs at h ⊢
  · exact hdrop h
  · exact sendRaw_eq hT (closed_failed S).drop h
  · exact hdrop h

end protocol

end IntvNetplay.Relay
