import IntvNetplay.Relay.Invariant

/-!
# What the clients know of their rooms

A client makes its view of its room from the frames it is sent.  Between events the view is what the
relay has, as long as no ROOM or START broadcast goes on from a copy of the members that a send inside it
made stale.
-/

namespace IntvNetplay.Relay

/-- Where a client is: on its own, in a room that forms, or in a match. -/
inductive View where
  | solo
  | forming (n : ℕ)
  | playing (seat count : ℕ)
  deriving DecidableEq

/-- What a frame makes of it. -/
def View.take (v : View) (m : Msg) : View :=
  if m.type = tRoom then
    if m.payload.headD 0 = 0 then .solo else .forming (m.payload.headD 0)
  else if m.type = tPeerLeft then .solo
  else if m.type = tStart then .playing (m.payload.getD 0 0) (m.payload.getD 1 0)
  else v

/-- Where the frames queued to a client put it. -/
def Client.view (c : Client) : View := c.queued.foldr (fun q v => v.take q.msg) .solo

/-- Where the relay has a client. -/
def place (r : State) (c : ℕ) : View :=
  match (r.clients c).room with
  | none => .solo
  | some ri =>
    if (r.rooms ri).started then .playing ((r.members ri).idxOf c) (r.members ri).length
    else .forming (r.members ri).length

/-- The views are right, those of some clients apart. -/
def SeenOff (Q : Set ℕ) (r : State) : Prop :=
  ∀ c, r.Live c → c ∉ Q → (r.clients c).view = place r c

theorem place_none {r : State} {c : ℕ} (h : (r.clients c).room = none) : place r c = .solo := by
  rw [place, h]

theorem place_congr {r r' : State} {c : ℕ} (hc : (r'.clients c).room = (r.clients c).room)
    (hr : ∀ ri, (r.clients c).room = some ri → r'.rooms ri = r.rooms ri) : place r' c = place r c := by
  rw [place, place, hc]
  cases h : (r.clients c).room with
  | none => rfl
  | some ri =>
    dsimp only
    rw [State.members, State.members, hr ri h]

theorem view_congr {c c' : Client} (h : c'.queued = c.queued) : c'.view = c.view := by
  rw [Client.view, Client.view, h]

namespace SeenOff

variable {Q : Set ℕ} {r r' : State}

theorem mono {Q' : Set ℕ} (h : SeenOff Q r) (hQ : Q ⊆ Q') : SeenOff Q' r :=
  fun c hl hn => h c hl fun hc => hn (hQ hc)

theorem of_same (h : SeenOff Q r) (hs : SameReg r r')
    (hq : ∀ c, (r'.clients c).queued = (r.clients c).queued) : SeenOff Q r' := by
  intro c hl hn
  rw [view_congr (hq c), place_congr (hs.room c) fun ri _ => congrFun hs.rooms ri]
  exact h c ((hs.live c).1 hl) hn

/-- A client that is gone has no view. -/
theorem of_dead {ci : ℕ} (h : SeenOff (insert ci Q) r) (hd : (r.clients ci).dead = true) :
    SeenOff Q r := by
  refine fun c hl hn => h c hl fun hc => ?_
  obtain rfl | hc := Set.mem_insert_iff.1 hc
  · rw [hl.2] at hd
    cases hd
  · exact hn hc

theorem queue {ci : ℕ} {m : Msg} {src : Option ℕ} (h : SeenOff (insert ci Q) r)
    (hm : (r.clients ci).view.take m = place r ci) : SeenOff Q (r.queue ci m src) := by
  have hs := sameReg_queue r ci m src
  intro c hl hn
  rw [place_congr (hs.room c) fun ri _ => congrFun hs.rooms ri]
  have hlive := (hs.live c).1 hl
  rw [State.queue, State.clients_setClient]
  by_cases hc : c = ci
  · rw [if_pos hc, hc]
    exact hm
  · rw [if_neg hc]
    refine h c hlive fun hin => ?_
    obtain rfl | hin := Set.mem_insert_iff.1 hin
    · exact hc rfl
    · exact hn hin

end SeenOff

/-- The frames that say nothing of the room. -/
def Mute (m : Msg) : Prop := m.type ≠ tRoom ∧ m.type ≠ tPeerLeft ∧ m.type ≠ tStart

theorem Mute.take {m : Msg} (h : Mute m) (v : View) : v.take m = v := by
  rw [View.take, if_neg h.1, if_neg h.2.1, if_neg h.2.2]

theorem mute_relayed {m : Msg} (h : relayed m.type = true) : Mute m := by
  refine ⟨fun heq => ?_, fun heq => ?_, fun heq => ?_⟩
  · rw [heq] at h
    exact absurd h (by decide)
  · rw [heq] at h
    exact absurd h (by decide)
  · rw [heq] at h
    exact absurd h (by decide)

theorem take_goneMsg (v : View) : v.take goneMsg = .solo := rfl

theorem take_leftMsg (v : View) (seat : ℕ) (name : List ℕ) : v.take (leftMsg seat name) = .solo := rfl

theorem take_roomMsg (v : View) {r : State} {ri : ℕ} (h : r.members ri ≠ []) :
    v.take (roomMsg r ri) = .forming (r.members ri).length :=
  if_neg fun h0 => h (List.length_eq_zero_iff.1 h0)

theorem take_startMsg (v : View) (r : State) (ri seed delay seat : ℕ) :
    v.take (startMsg r ri seed delay seat) = .playing seat (r.members ri).length := rfl

/-! ### Sends -/

/-- `D` is as `drop` with views for relays that serve at most `k` clients. -/
def Tells (S : Setup) (D : State → ℕ → State) (k : ℕ) : Prop :=
  ∀ Z P Q r ci, Sound S Z P r → r.liveCount ≤ k → r.Live ci → (D r ci).torn = false →
    SeenOff Q r → SeenOff Q (D r ci)

theorem closed_torn (S : Setup) : Closed S fun r r' => r'.torn = false → r.torn = false where
  trans h h' := h ∘ h'
  quiet h ht := h.torn ▸ ht
  queue _ _ _ _ := id
  wrote _ _ _ := id
  fail _ := id
  tear _ ht := by cases ht
  rob _ := id
  snip _ := id

/-- The members of a room that is not being dissolved. -/
theorem Sound.room_of_member {S : Setup} {Z P : Set ℕ} {r : State} (h : Sound S Z P r) {ri c : ℕ}
    (hz : ri ∉ Z) (hc : c ∈ r.members ri) : (r.clients c).room = some ri := by
  cases hu : (r.rooms ri).used with
  | false =>
    rw [h.unused ri hu] at hc
    cases hc
  | true => exact ((h.seats ri hu hz).2.2.2 c hc).2.1

theorem Sound.nodup_members {S : Setup} {Z P : Set ℕ} {r : State} (h : Sound S Z P r) {ri : ℕ}
    (hz : ri ∉ Z) : (r.members ri).Nodup := by
  cases hu : (r.rooms ri).used with
  | false =>
    rw [h.unused ri hu]
    exact List.nodup_nil
  | true => exact (h.seats ri hu hz).2.2.1

theorem passing_torn (S : Setup) : Passing S fun r r' =>
    r.heard <:+ r'.heard ∧ (r'.torn = false → r.torn = false) where
  trans h h' := ⟨h.1.trans h'.1, h.2 ∘ h'.2⟩
  quiet h := ⟨h.heard ▸ List.suffix_refl _, fun ht => h.torn ▸ ht⟩
  queue _ _ _ _ := ⟨List.suffix_refl _, id⟩
  wrote _ _ _ := ⟨List.suffix_refl _, id⟩
  fail _ := ⟨List.suffix_refl _, id⟩
  tear _ := by
    refine ⟨List.suffix_refl _, fun ht => ?_⟩
    cases ht
  rob _ := ⟨List.suffix_refl _, id⟩
  snip _ := ⟨List.suffix_refl _, id⟩
  heard h := h.1
  hear _ e _ := ⟨List.suffix_cons e _, id⟩
  pass _ _ _ _ := ⟨List.suffix_refl _, id⟩

section sends

variable {S : Setup} {Z P Q : Set ℕ} {D : State → ℕ → State} {k : ℕ}
  (hD : Drops S D k) (hV : Tells S D k) (hM : ∀ r ci, (D r ci).torn = false → r.torn = false)
include hD

/-- A send that leaves its recipient alone touches nothing else. -/
theorem same_flushLoop_of_alive (ci n : ℕ) {r : State} (h : Sound S Z P r) (hk : r.liveCount ≤ k)
    (hl : r.Live ci) (hd : ((flushLoop S D ci n r).clients ci).dead = false) :
    SameReg r (flushLoop S D ci n r) := by
  induction n generalizing r with
  | zero => exact .refl r
  | succ n ih =>
    have hcount : ∀ {r' : State}, SameReg r r' → r'.liveCount ≤ k := fun hs =>
      (liveCount_le fun c => (hs.live c).1).trans hk
    have hdrop : ((D r.called.fail ci).clients ci).dead = true := by
      have hs := (sameReg_called r).trans (sameReg_fail _)
      exact (hD Z P _ ci (h.of_same hs) (hcount hs) ((hs.live ci).2 hl)).2
    unfold flushLoop at hd ⊢
    split_ifs at hd ⊢
    · exact .refl r
    · cases hsend : S.send r.calls with
      | wrote j =>
        rw [hsend] at hd
        have hs := (sameReg_called r).trans (sameReg_wrote r.called ci (j + 1))
        exact hs.trans (ih (h.of_same hs) (hcount hs) ((hs.live ci).2 hl) hd)
      | again => exact sameReg_called r
      | zero =>
        rw [hsend] at hd
        rw [hdrop] at hd
        cases hd
      | error =>
        rw [hsend] at hd
        rw [hdrop] at hd
        cases hd

theorem same_sendRaw_of_alive {ci : ℕ} {m : Msg} {src : Option ℕ} {r : State} (h : Sound S Z P r)
    (hk : r.liveCount ≤ k) (hl : r.Live ci)
    (hd : ((sendRaw S D ci m src r).clients ci).dead = false) :
    SameReg r (sendRaw S D ci m src r) := by
  rw [sendRaw, if_neg (by rw [hl.2]; decide)] at hd ⊢
  split_ifs at hd ⊢
  · have hs := sameReg_fail r
    rw [(hD Z P _ ci (h.of_same hs) ((liveCount_le fun c => (hs.live c).1).trans hk)
      ((hs.live ci).2 hl)).2] at hd
    cases hd
  · have hs := sameReg_queue r ci m src
    exact hs.trans (same_flushLoop_of_alive hD ci _ (h.of_same hs)
      ((liveCount_le fun c => (hs.live c).1).trans hk) ((hs.live ci).2 hl) hd)

include hV

omit hD in
theorem seen_flushLoop (ci n : ℕ) {r : State} (h : Sound S Z P r) (hk : r.liveCount ≤ k)
    (hl : r.Live ci) (ht : (flushLoop S D ci n r).torn = false) (hq : SeenOff Q r) :
    SeenOff Q (flushLoop S D ci n r) := by
  induction n generalizing r with
  | zero => exact hq
  | succ n ih =>
    have hcount : ∀ {r' : State}, SameReg r r' → r'.liveCount ≤ k := fun hs =>
      (liveCount_le fun c => (hs.live c).1).trans hk
    have hdrop : (D r.called.fail ci).torn = false → SeenOff Q (D r.called.fail ci) := by
      have hs := (sameReg_called r).trans (sameReg_fail _)
      exact fun ht => hV Z P Q _ ci (h.of_same hs) (hcount hs) ((hs.live ci).2 hl) ht
        (hq.of_same hs fun _ => rfl)
    unfold flushLoop at ht ⊢
    split_ifs at ht ⊢
    · exact hq
    · cases hsend : S.send r.calls with
      | wrote j =>
        rw [hsend] at ht
        have hs := (sameReg_called r).trans (sameReg_wrote r.called ci (j + 1))
        refine ih (h.of_same hs) (hcount hs) ((hs.live ci).2 hl) ht (hq.of_same hs fun c => ?_)
        rw [State.wrote, State.clients_setClient]
        split_ifs with hc
        · rw [hc]
          rfl
        · rfl
      | again => exact hq.of_same (sameReg_called r) fun _ => rfl
      | zero =>
        rw [hsend] at ht
        exact hdrop ht
      | error =>
        rw [hsend] at ht
        exact hdrop ht

/-- The recipient of a frame has the view that the frame gives it, or is gone. -/
theorem seen_sendRaw {ci : ℕ} {m : Msg} {src : Option ℕ} {r : State} (h : Sound S Z P r)
    (hk : r.liveCount ≤ k) (hu : (r.clients ci).dead = false → r.Live ci)
    (ht : (sendRaw S D ci m src r).torn = false) (hq : SeenOff (insert ci Q) r)
    (hm : r.Live ci → (r.clients ci).view.take m = place r ci) :
    SeenOff Q (sendRaw S D ci m src r) := by
  cases hd : (r.clients ci).dead with
  | true =>
    rw [sendRaw, if_pos hd]
    exact hq.of_dead hd
  | false =>
    have hl := hu hd
    rw [sendRaw, if_neg (by rw [hd]; decide)] at ht ⊢
    split_ifs at ht ⊢
    · have hs := sameReg_fail r
      have hcount := (liveCount_le fun c => (hs.live c).1).trans hk
      refine SeenOff.of_dead (hV Z P _ _ ci (h.of_same hs) hcount ((hs.live ci).2 hl) ht
        (hq.of_same hs fun _ => rfl)) ?_
      exact (hD Z P _ ci (h.of_same hs) hcount ((hs.live ci).2 hl)).2
    · have hs := sameReg_queue r ci m src
      exact seen_flushLoop hV ci _ (h.of_same hs) ((liveCount_le fun c => (hs.live c).1).trans hk)
        ((hs.live ci).2 hl) ht (hq.queue (hm hl))

theorem seen_sendRaw_mute {ci : ℕ} {m : Msg} {src : Option ℕ} {r : State} (hmute : Mute m)
    (h : Sound S Z P r) (hk : r.liveCount ≤ k) (hu : (r.clients ci).dead = false → r.Live ci)
    (ht : (sendRaw S D ci m src r).torn = false) (hc : ci ∉ Q) (hq : SeenOff Q r) :
    SeenOff Q (sendRaw S D ci m src r) := by
  refine seen_sendRaw hD hV h hk hu ht (hq.mono (Set.subset_insert ci Q)) fun hl => ?_
  rw [hmute.take]
  exact hq ci hl hc

include hM

/-- Everybody in the list is on its own, and is told so. -/
theorem seen_sendAll {m : Msg} (hb : Built S m) (hm : ∀ v : View, v.take m = .solo) (l : List ℕ)
    {r : State} (h : Sound S Z P r) (hk : r.liveCount ≤ k) (hl : Known r l)
    (hroom : ∀ c ∈ l, (r.clients c).room = none) (ht : (sendAll S D m l r).torn = false)
    (hq : SeenOff (Q ∪ {c | c ∈ l}) r) : SeenOff Q (sendAll S D m l r) := by
  induction l generalizing r with
  | nil => exact hq.mono fun c hc => hc.resolve_right fun hnil => by cases hnil
  | cons c l ih =>
    have ha := after_sendRaw hD c m none h hk (hl c List.mem_cons_self)
    have htail : Known r l := fun x hx => hl x (List.mem_cons_of_mem _ hx)
    have ht₁ := (closed_torn S).sendAll hM hb l _ ht
    have hcons : SeenOff (insert c (Q ∪ {c | c ∈ l})) r := hq.mono fun x hx => by
      obtain hx | hx := hx
      · exact .inr (.inl hx)
      · exact (List.mem_cons.1 hx).imp id fun hx => .inr hx
    have hsent := seen_sendRaw hD hV h hk (hl c List.mem_cons_self) ht₁ hcons fun _ => by
      rw [hm, place_none (hroom c List.mem_cons_self)]
    refine ih ha.1 ((liveCount_le ha.2.live).trans hk) (htail.shrinks ha.2) (fun x hx => ?_) ht hsent
    cases hr : ((sendRaw S D c m none r).clients x).room with
    | none => rfl
    | some rj =>
      have := ha.2.seats x rj hr
      rw [hroom x (List.mem_cons_of_mem _ hx)] at this
      cases this

/-- The recipients are told where they are; if a send drops one of them, nobody is left to be told. -/
theorem seen_announceTo (l : List (ℕ × Msg)) {r : State} (hb : ∀ e ∈ l, Built S e.2)
    (h : Sound S Z P r) (hk : r.liveCount ≤ k) (hl : Known r (l.map Prod.fst))
    (hm : ∀ e ∈ l, r.Live e.1 → ∀ v : View, v.take e.2 = place r e.1)
    (ht : (announceTo S D l r).torn = false) (hq : SeenOff (Q ∪ {c | c ∈ l.map Prod.fst}) r) :
    SeenOff Q (announceTo S D l r) := by
  induction l generalizing r with
  | nil => exact hq.mono fun c hc => hc.resolve_right fun hnil => by cases hnil
  | cons e l ih =>
    obtain ⟨c, m⟩ := e
    have ha := after_sendRaw hD c m none h hk (hl c List.mem_cons_self)
    have htail : Known r (l.map Prod.fst) := fun x hx => hl x (List.mem_cons_of_mem _ hx)
    have hbt : ∀ e ∈ l, Built S e.2 := fun e he => hb e (List.mem_cons_of_mem _ he)
    rw [announceTo] at ht ⊢
    have ht₁ := (closed_torn S).announceTo hM l hbt _ ht
    split_ifs at ht ht₁ ⊢ with htorn
    · cases ht₁
    · have hcons : SeenOff (insert c (Q ∪ {c | c ∈ l.map Prod.fst})) r := hq.mono fun x hx => by
        obtain hx | hx := hx
        · exact .inr (.inl hx)
        · exact (List.mem_cons.1 hx).imp id fun hx => .inr hx
      have hsent := seen_sendRaw hD hV h hk (hl c List.mem_cons_self) ht₁ hcons fun hlc =>
        hm (c, m) List.mem_cons_self hlc _
      refine ih hbt ha.1 ((liveCount_le ha.2.live).trans hk) (htail.shrinks ha.2)
        (fun e he hle v => ?_) ht hsent
      rw [hm e (List.mem_cons_of_mem _ he) (ha.2.live _ hle) v]
      cases hd : (r.clients c).dead with
      | true => rw [sendRaw, if_pos hd]
      | false =>
        have hlc := hl c List.mem_cons_self hd
        cases hd' : ((sendRaw S D c m none r).clients c).dead with
        | true =>
          -- The rest of the list is dead.
          rw [hd, hd', Bool.not_false, Bool.true_and, Bool.true_and, Bool.not_eq_true,
            List.any_eq_false] at htorn
          have hde := htorn e he
          rw [hle.2] at hde
          exact absurd rfl hde
        | false =>
          have hs := same_sendRaw_of_alive hD h hk hlc hd'
          exact (place_congr (hs.room _) fun ri _ => congrFun hs.rooms ri).symm

/-- A broadcast to a room tells its members where they are. -/
theorem seen_announce (hcopy : S.live = false) {ri : ℕ} {m : ℕ → Msg} {r : State}
    (hb : ∀ i, Built S (m i)) (h : Sound S Z P r) (hk : r.liveCount ≤ k) (hz : ri ∉ Z)
    (hm : ∀ i c, (r.members ri)[i]? = some c → ∀ v : View, v.take (m i) = place r c)
    (ht : (announce S D ri m r).torn = false) (hq : SeenOff (Q ∪ {c | c ∈ r.members ri}) r) :
    SeenOff Q (announce S D ri m r) := by
  have hfst : ((r.members ri).mapIdx fun i ci => (ci, m i)).map Prod.fst = r.members ri := by
    exact List.ext_getElem (by simp) fun i h1 h2 => by simp
  have hin : ∀ e ∈ (r.members ri).mapIdx (fun i ci => (ci, m i)), ∃ i,
      (r.members ri)[i]? = some e.1 ∧ e.2 = m i := by
    intro e he
    obtain ⟨i, hi, rfl⟩ := List.mem_mapIdx.1 he
    exact ⟨i, List.getElem?_eq_getElem hi, rfl⟩
  rw [announce, hcopy, if_neg Bool.false_ne_true] at ht ⊢
  refine seen_announceTo hD hV hM _ (fun e he => ?_) h hk (fun c hc _ => ?_) (fun e he _ v => ?_) ht ?_
  · obtain ⟨i, -, heq⟩ := hin e he
    rw [heq]
    exact hb i
  · rw [hfst] at hc
    exact h.live_members hz c hc
  · obtain ⟨i, hi, heq⟩ := hin e he
    rw [heq]
    exact hm i e.1 hi v
  · rw [hfst]
    exact hq

/-- ROOM to a room that forms. -/
theorem seen_roomBroadcast (hcopy : S.live = false) {ri : ℕ} {r : State} (h : Sound S Z P r)
    (hk : r.liveCount ≤ k) (hz : ri ∉ Z) (hst : (r.rooms ri).started = false)
    (ht : (roomBroadcast S D ri r).torn = false) (hq : SeenOff (Q ∪ {c | c ∈ r.members ri}) r) :
    SeenOff Q (roomBroadcast S D ri r) := by
  refine seen_announce hD hV hM hcopy (fun _ => .room r ri) h hk hz (fun i c hc v => ?_) ht hq
  have hmem := List.mem_of_getElem? hc
  rw [take_roomMsg v (List.ne_nil_of_mem hmem), place, h.room_of_member hz hmem]
  dsimp only
  rw [hst, if_neg Bool.false_ne_true]

/-- START to a room that has been marked as started. -/
theorem seen_start (hcopy : S.live = false) {ri seed delay : ℕ} {r : State} (h : Sound S Z P r)
    (hk : r.liveCount ≤ k) (hz : ri ∉ Z) (hst : (r.rooms ri).started = true)
    (ht : (announce S D ri (fun seat => startMsg r ri seed delay seat) r).torn = false)
    (hq : SeenOff (Q ∪ {c | c ∈ r.members ri}) r) :
    SeenOff Q (announce S D ri (fun seat => startMsg r ri seed delay seat) r) := by
  refine seen_announce hD hV hM hcopy (fun _ => .start _ _ _ _ _) h hk hz (fun i c hc v => ?_) ht hq
  have hmem := List.mem_of_getElem? hc
  obtain ⟨hi, hget⟩ := List.getElem?_eq_some_iff.1 hc
  rw [take_startMsg, place, h.room_of_member hz hmem]
  dsimp only
  rw [if_pos hst, ← hget, List.Nodup.idxOf_getElem (h.nodup_members hz)]

end sends

/-! ### `drop` -/

section seated

variable {S : Setup} {Z P Q : Set ℕ} {D : State → ℕ → State} {k : ℕ}
  (hD : Drops S D k) (hV : Tells S D k) (hM : ∀ r ci, (D r ci).torn = false → r.torn = false)
variable {r : State} {ci ri : ℕ} (h : Sound S Z P r) (hl : r.Live ci)
  (hr : (r.clients ci).room = some ri) (hk : r.liveCount ≤ k + 1)

theorem queued_gone (x : ℕ) : ((r.gone ci).clients x).queued = (r.clients x).queued := by
  rw [clients_gone]
  split_ifs with hx
  · rw [hx]
  · rfl

theorem queued_out (x : ℕ) : ((r.out ci ri).clients x).queued = (r.clients x).queued := by
  rw [clients_out]
  split_ifs with hx
  · rw [hx]
  · rfl

include h hl hr

/-- A client that neither leaves nor is left. -/
theorem apart {c : ℕ} (hlc : r.Live c) (hne : c ≠ ci) (hnot : c ∉ (r.members ri).erase ci) :
    (r.clients c).room ≠ some ri := by
  intro hcr
  have hnd := (h.seated hl hr).2.2.2.1
  exact hnot (hnd.mem_erase_iff.2 ⟨hne, (h.room c ri hlc hcr).2.2⟩)

/-- Those who are left know nothing yet. -/
theorem seen_out (hq : SeenOff Q r) : SeenOff (Q ∪ {c | c ∈ (r.members ri).erase ci}) (r.out ci ri) := by
  intro c hc hn
  obtain ⟨hlc, hne⟩ := (live_out c).1 hc
  have hnr := apart h hl hr hlc hne fun hm => hn (.inr hm)
  rw [view_congr (queued_out c), place_congr (room_out hne) fun rj hrj => ?_]
  · exact hq c hlc fun hcq => hn (.inl hcq)
  · rw [rooms_out, if_neg]
    rintro rfl
    exact hnr hrj

theorem seen_unroom (hq : SeenOff Q r) :
    SeenOff (Q ∪ {c | c ∈ (r.members ri).erase ci}) ((r.out ci ri).unroom ri) := by
  intro c hc hn
  have hcl : ((r.out ci ri).unroom ri).clients c = (r.out ci ri).clients c := by
    rw [clients_unroom h hl hr]
    exact if_neg fun hm => hn (.inr hm)
  have hlive : (r.out ci ri).Live c := by
    rw [State.Live, ← hcl]
    exact hc
  rw [hcl, place_congr (congrArg Client.room hcl) fun _ _ => rfl]
  exact seen_out h hl hr hq c hlive hn

theorem room_unroom {c : ℕ} (hc : c ∈ (r.members ri).erase ci) :
    (((r.out ci ri).unroom ri).clients c).room = none := by
  rw [clients_unroom h hl hr, if_pos hc]

omit h hl hr in
/-- Nobody is in a room that is dissolved. -/
theorem seen_close {r : State} (h : Sound S (insert ri Z) P r) (hq : SeenOff Q r) :
    SeenOff Q (r.close ri) := by
  intro c hc hn
  have hplace : place (r.close ri) c = place r c := by
    refine place_congr rfl fun rj hrj => ?_
    rw [State.close, State.rooms_setRoom, if_neg]
    rintro rfl
    exact (h.room c rj hc hrj).1 (Set.mem_insert _ _)
  rw [hplace]
  exact hq c hc hn

include hD hV hM hk

theorem seen_dissolve (hq : SeenOff Q r)
    (ht : (dissolve S D ri ((r.members ri).erase ci) (r.out ci ri)).torn = false) :
    SeenOff Q (dissolve S D ri ((r.members ri).erase ci) (r.out ci ri)) := by
  have hcount : ((r.out ci ri).unroom ri).liveCount ≤ k :=
    liveCount_rest h hl hk fun c hc => (live_unroom h hl hr c).1 hc
  have hknown := known_stay h hl hr
  have hsound := sound_unroom h hl hr
  have hafter := after_sendAll hD goneMsg _ hsound hcount hknown
  rw [dissolve] at ht ⊢
  exact seen_close hafter.1 (seen_sendAll hD hV hM .gone take_goneMsg _ hsound hcount hknown
    (fun c hc => room_unroom h hl hr hc) ht (seen_unroom h hl hr hq))

/-- The other members are told. -/
theorem seen_dropSeat (hcopy : S.live = false) (seat : ℕ) (hq : SeenOff Q r)
    (ht : (dropSeat S D ci ri seat (r.out ci ri)).torn = false) :
    SeenOff Q (dropSeat S D ci ri seat (r.out ci ri)) := by
  have hz := (h.seated hl hr).1
  unfold dropSeat at ht ⊢
  rw [members_out] at ht ⊢
  split_ifs at ht ⊢ with hst hseat hfew
  · have hnone := @after_dissolve _ _ _ _ _ hD _ _ _ h hl hr hk [] (by simp)
    have hcount := liveCount_rest h hl hk fun c hc =>
      (live_unroom h hl hr c).1 (hnone.2.live c hc)
    refine seen_sendAll hD hV hM (.left _ _) (fun v => take_leftMsg v _ _) _ hnone.1 hcount
      ((known_stay h hl hr).shrinks hnone.2) (fun c hc => ?_) ht ?_
    · exact room_unroom h hl hr hc
    · exact seen_close (sound_unroom h hl hr) (seen_unroom h hl hr hq)
  · exact seen_dissolve hD hV hM h hl hr hk hq ht
  · exact seen_dissolve hD hV hM h hl hr hk hq ht
  · have hsound := sound_left h hl hr (by omega)
    have hcount : (r.out ci ri).liveCount ≤ k :=
      liveCount_rest h hl hk fun c hc => (live_out c).1 hc
    refine seen_roomBroadcast hD hV hM hcopy hsound hcount hz (by simpa using hst) ht ?_
    rw [members_out]
    exact seen_out h hl hr hq

end seated

section recursion

variable {S : Setup} (hS : S.Ok) (hcopy : S.live = false) (hp : S.proto1 = false)
include hcopy hp

theorem tells_dropBody {D : State → ℕ → State} {k : ℕ} (hD : Drops S D k) (hV : Tells S D k)
    (hM : ∀ r ci, (D r ci).torn = false → r.torn = false) : Tells S (dropBody S D) (k + 1) := by
  intro Z P Q r ci h hk hl ht hq
  -- The end of the `drop`: the client itself has no view any more.
  have hfree : ∀ {r' : State}, (r'.clients ci).dead = true → (r'.clients ci).inUse = true →
      SeenOff Q r' → SeenOff Q (r'.free ci) := by
    intro r' hd hu hq' c hc hn
    rw [State.Live, clients_free hu] at hc
    rw [clients_free hu]
    split_ifs at hc ⊢ with hx
    · dsimp only at hc
      cases hc.1
    · have hplace : place (r'.free ci) c = place r' c := by
        refine place_congr (by rw [clients_free hu, if_neg hx]) fun rj _ => ?_
        rw [State.free, if_pos hu]
        rfl
      rw [hplace]
      exact hq' c hc hn
  rw [dropBody_eq S D hl.2] at ht ⊢
  cases hr : (r.clients ci).room with
  | none =>
    have hself : (r.gone ci).clients ci = { r.clients ci with dead := true } := by
      rw [clients_gone, if_pos rfl]
    refine hfree (by rw [hself]) (by rw [hself]; exact hl.1) fun c hc hn => ?_
    obtain ⟨hlc, hne⟩ := (live_gone c).1 hc
    rw [view_congr (queued_gone c), place_congr (room_gone c) fun _ _ => congrFun rooms_gone _]
    exact hq c hlc hn
  | some ri =>
    rw [hr] at ht
    dsimp only at ht ⊢
    rw [hp, if_neg Bool.false_ne_true] at ht ⊢
    obtain ⟨r₁, -, hu, hd, hafter⟩ := after_dropSeat hD h hl hr hk ((r.members ri).idxOf ci)
    have hreg := hafter.2.frozen ci hd
    have ht' : (dropSeat S D ci ri ((r.members ri).idxOf ci) (r.out ci ri)).torn = false :=
      (closed_torn S).quiet ((Quiet.refl _).publish.free ci) ht
    have hseen := seen_dropSeat hD hV hM h hl hr hk hcopy _ hq ht'
    refine hfree (hafter.2.dead hd) ((congrArg Prod.fst hreg).trans hu) ?_
    exact hseen.of_same (sameReg_publish hafter.1.published) fun _ => rfl

include hS

theorem tells_dropN (k : ℕ) : Tells S (dropN S k) k := by
  induction k with
  | zero =>
    intro Z P Q r ci h hk hl
    have hmem : ci ∈ (Finset.range maxClients).filter r.Live := by
      rw [Finset.mem_filter, Finset.mem_range]
      exact ⟨h.slots ci hl.1, hl⟩
    have := Finset.card_pos.2 ⟨ci, hmem⟩
    rw [State.liveCount] at hk
    omega
  | succ k ih =>
    exact tells_dropBody hcopy hp (drops_dropN hS k) ih ((closed_torn S).dropN k)

theorem tells_drop : Tells S (drop S) maxClients := tells_dropN hS hcopy hp maxClients

end recursion

/-! ### The protocol -/

/-- Every view is right. -/
def Seen (r : State) : Prop := ∀ c, r.Live c → (r.clients c).view = place r c

theorem seen_iff {r : State} : SeenOff ∅ r ↔ Seen r :=
  ⟨fun h c hl => h c hl (Set.notMem_empty c), fun h c hl _ => h c hl⟩

section handlers

variable {S : Setup} (hS : S.Ok) (hcopy : S.live = false) (hp : S.proto1 = false)
  {r : State} {ci : ℕ}
include hS hcopy hp

theorem seen_drop (h : Sound S ∅ ∅ r) (hl : r.Live ci) (ht : (drop S r ci).torn = false)
    (hq : SeenOff ∅ r) : SeenOff ∅ (drop S r ci) :=
  tells_drop hS hcopy hp ∅ ∅ ∅ r ci h (liveCount_le_max r) hl ht hq

theorem seen_mute {m : Msg} {src : Option ℕ} (hm : Mute m) (h : Sound S ∅ ∅ r)
    (hu : (r.clients ci).dead = false → r.Live ci)
    (ht : (sendRaw S (drop S) ci m src r).torn = false) (hq : SeenOff ∅ r) :
    SeenOff ∅ (sendRaw S (drop S) ci m src r) :=
  seen_sendRaw_mute (drops_drop hS) (tells_drop hS hcopy hp) hm h (liveCount_le_max r) hu ht
    (Set.notMem_empty ci) hq

theorem seen_onList (h : Sound S ∅ ∅ r) (hu : (r.clients ci).dead = false → r.Live ci)
    (ht : (onList S ci r).torn = false) (hq : SeenOff ∅ r) : SeenOff ∅ (onList S ci r) :=
  seen_mute hS hcopy hp ⟨show tLobby ≠ tRoom by decide, show tLobby ≠ tPeerLeft by decide,
    show tLobby ≠ tStart by decide⟩ h hu ht hq

theorem seen_evict {name : List ℕ} (h : Sound S ∅ ∅ r) (ht : (evict S ci name r).torn = false)
    (hq : SeenOff ∅ r) : SeenOff ∅ (evict S ci name r) := by
  rw [evict] at ht ⊢
  cases hf : r.nameFind name with
  | none => exact hq
  | some old =>
    rw [hf] at ht
    dsimp only at ht ⊢
    have hl : r.Live old := (h.entry _ (mem_of_nameFind hf)).1
    have hrob : SameReg r (if robs S r ci old then r.rob else r) ∧
        ∀ c, ((if robs S r ci old then r.rob else r).clients c).queued = (r.clients c).queued := by
      split_ifs
      · exact ⟨sameReg_rob r, fun _ => rfl⟩
      · exact ⟨.refl r, fun _ => rfl⟩
    by_cases hold : old = ci
    · rw [if_pos hold]
      exact hq
    · rw [if_neg hold] at ht ⊢
      exact seen_drop hS hcopy hp (h.of_same hrob.1) ((hrob.1.live old).2 hl) ht
        (hq.of_same hrob.1 hrob.2)

omit hcopy hp hS in
/-- A name is nothing of a room. -/
theorem seen_rename {name : List ℕ} (h : Sound S ∅ ∅ r) (hl : r.Live ci) (hname : name ≠ [])
    (hown : ∀ e ∈ r.byName, e.1 = name → e.2 = ci) (hq : SeenOff ∅ r) :
    SeenOff ∅ (rename S ci name r) := by
  have hrooms := (named_fields h hl hname hown).1
  have hc : ∀ x, (rename S ci name r).clients x =
      if x = ci then { r.clients ci with name := name } else r.clients x := clients_named
  have hsame : ∀ x, ((rename S ci name r).Live x ↔ r.Live x) ∧
      ((rename S ci name r).clients x).room = (r.clients x).room ∧
        ((rename S ci name r).clients x).queued = (r.clients x).queued := by
    intro x
    rw [State.Live, State.Live, hc]
    split_ifs with hx
    · rw [hx]
      exact ⟨Iff.rfl, rfl, rfl⟩
    · exact ⟨Iff.rfl, rfl, rfl⟩
  intro c hlc hn
  obtain ⟨h1, h2, h3⟩ := hsame c
  rw [view_congr h3, place_congr h2 fun ri _ => congrFun hrooms ri]
  exact hq c (h1.1 hlc) hn

theorem seen_takeName {name : List ℕ} (hok : nameOk name = true) (hre : S.rechecks = true)
    (h : Sound S ∅ ∅ r) (hl : r.Live ci) (ht : (takeName S ci name r).torn = false)
    (hq : SeenOff ∅ r) : SeenOff ∅ (takeName S ci name r) := by
  obtain ⟨hk, hown⟩ : Keeps S r (evict S ci name r) ∧
      ∀ e ∈ (evict S ci name r).byName, e.1 = name → e.2 = ci := keeps_evict hS name h
  have hmono := closed_torn S
  rw [takeName, hre, Bool.true_and] at ht ⊢
  split_ifs at ht ⊢ with hd
  · exact seen_evict hS hcopy hp h ht hq
  · have hl' := hk.2.spared ci hl (Bool.not_eq_true _ ▸ hd)
    have hren := sound_rename hk.1 hl' hok hown
    have hrooms := hmono.rename ci name _ (hmono.onList ci _ ht)
    refine seen_onList hS hcopy hp hren (fun _ => ?_) ht ?_
    · rw [State.Live, clients_named, if_pos rfl]
      exact hl'
    · have hne : name ≠ [] := by
        rintro rfl
        exact absurd hok (by decide)
      exact seen_rename hk.1 hl' hne hown (seen_evict hS hcopy hp h hrooms hq)

omit hS hcopy hp in
/-- A change of one room, its members not being told yet. -/
theorem seen_changed {ri : ℕ} {r₁ : State} (h : Sound S ∅ ∅ r)
    (hsub : ∀ c ∈ r.members ri, c ∈ r₁.members ri)
    (hc : ∀ c, c ∉ r₁.members ri → r₁.clients c = r.clients c)
    (hrooms : ∀ rj, rj ≠ ri → r₁.rooms rj = r.rooms rj) (hq : SeenOff ∅ r) :
    SeenOff (∅ ∪ {c | c ∈ r₁.members ri}) r₁ := by
  intro c hl hn
  have hnot : c ∉ r₁.members ri := fun hm => hn (.inr hm)
  rw [State.Live, hc c hnot] at hl
  rw [hc c hnot, place_congr (congrArg Client.room (hc c hnot)) fun rj hrj => ?_]
  · exact hq c hl (Set.notMem_empty c)
  · refine hrooms rj ?_
    rintro rfl
    exact hnot (hsub c (h.room c rj hl hrj).2.2)

theorem seen_startRoom {ri : ℕ} (h : Sound S ∅ ∅ r) (ht : (startRoom S ri r).torn = false)
    (hq : SeenOff ∅ r) : SeenOff ∅ (startRoom S ri r) := by
  have hseed : SameReg r { r with seeds := r.seeds + 1 } := ⟨fun _ => rfl, rfl, rfl, rfl, rfl, rfl⟩
  have hstart : startRoom S ri r = (announce S (drop S) ri (fun seat =>
      startMsg (({ r with seeds := r.seeds + 1 } : State).setRoom ri
        { r.rooms ri with started := true, seed := S.seed r.seeds }) ri (S.seed r.seeds) S.delay seat)
      (({ r with seeds := r.seeds + 1 } : State).setRoom ri
        { r.rooms ri with started := true, seed := S.seed r.seeds })).publish := rfl
  generalize hr₁ : ({ r with seeds := r.seeds + 1 } : State).setRoom ri
    { r.rooms ri with started := true, seed := S.seed r.seeds } = r₁ at hstart
  have hsound : Sound S ∅ ∅ r₁ := hr₁ ▸ sound_start (h.of_same hseed) _
  have hrooms : ∀ rj, r₁.rooms rj =
      if rj = ri then { r.rooms ri with started := true, seed := S.seed r.seeds } else r.rooms rj := by
    intro rj
    rw [← hr₁]
    exact State.rooms_setRoom _ _ _ _
  have hmembers : r₁.members ri = r.members ri := by
    rw [State.members, hrooms, if_pos rfl]
    rfl
  have hmark : SeenOff (∅ ∪ {c | c ∈ r₁.members ri}) r₁ := by
    refine seen_changed h (fun c hc => ?_) (fun c _ => ?_) (fun rj hne => ?_) hq
    · rw [hmembers]
      exact hc
    · rw [← hr₁]
      rfl
    · rw [hrooms, if_neg hne]
  rw [hstart] at ht ⊢
  have hsent := seen_start (drops_drop hS) (tells_drop hS hcopy hp) (closed_torn S).drop hcopy hsound
    (liveCount_le_max r₁) (Set.notMem_empty ri) (by rw [hrooms, if_pos rfl])
    ((closed_torn S).publish _ ht) hmark
  exact hsent.of_same (sameReg_publish (keeps_announce hS ri _ hsound).1.published) fun _ => rfl

/-- A room somebody has come into. -/
theorem seen_joined {ri : ℕ} (h : Sound S ∅ ∅ r) (hst : (r.rooms ri).started = false)
    (ht : (joined S ri r).torn = false) (hq : SeenOff (∅ ∪ {c | c ∈ r.members ri}) r) :
    SeenOff ∅ (joined S ri r) := by
  have hcast : Keeps S r (roomBroadcast S (drop S) ri r) := keeps_announce hS ri _ h
  have hpub := hcast.trans (.of_same hcast.1 (sameReg_publish hcast.1.published))
  have hmono := closed_torn S
  have hseen : (roomBroadcast S (drop S) ri r).publish.torn = false →
      SeenOff ∅ (roomBroadcast S (drop S) ri r).publish := by
    intro ht
    have hsent := seen_roomBroadcast (drops_drop hS) (tells_drop hS hcopy hp) hmono.drop hcopy h
      (liveCount_le_max r) (Set.notMem_empty ri) hst (hmono.publish _ ht) hq
    exact hsent.of_same (sameReg_publish hcast.1.published) fun _ => rfl
  rw [joined] at ht ⊢
  split_ifs at ht ⊢
  · exact seen_startRoom hS hcopy hp hpub.1 ht (hseen (hmono.startRoom ri _ ht))
  · exact hseen ht

theorem seen_enter {ri : ℕ} (h : Sound S ∅ ∅ r) (hl : r.Live ci) (hn : (r.clients ci).name ≠ [])
    (hr : (r.clients ci).room = none) (hused : (r.rooms ri).used = true) (hshut : shut S r ri = false)
    (ht : (joined S ri (enter ci ri r)).torn = false) (hq : SeenOff ∅ r) :
    SeenOff ∅ (joined S ri (enter ci ri r)) := by
  rw [shut, Bool.or_eq_false_iff, decide_eq_false_iff_not, not_le] at hshut
  have henter := keeps_enter h hl hn hr hused hshut.2
  have hroom : ∀ rj, (enter ci ri r).rooms rj =
      if rj = ri then { r.rooms ri with members := r.members ri ++ [ci] } else r.rooms rj := by
    intro rj
    rw [enter, State.rooms_setClient, State.rooms_setRoom]
  have hmembers : (enter ci ri r).members ri = r.members ri ++ [ci] := by
    rw [State.members, hroom, if_pos rfl]
  refine seen_joined hS hcopy hp henter.1 ?_ ht (seen_changed h (fun c hc => ?_) (fun c hc => ?_)
    (fun rj hne => ?_) hq)
  · rw [hroom, if_pos rfl]
    exact hshut.1
  · rw [hmembers]
    exact List.mem_append_left _ hc
  · have hne : c ≠ ci := by
      rintro rfl
      rw [hmembers] at hc
      exact hc (List.mem_append_right _ (List.mem_singleton_self _))
    rw [enter, State.clients_setClient, if_neg hne, State.clients_setRoom]
  · rw [hroom, if_neg hne]

theorem seen_open {target ri : ℕ} (h : Sound S ∅ ∅ r) (hl : r.Live ci) (hw : Wanted r ci target)
    (hn : (r.clients ci).name ≠ []) (hr : (r.clients ci).room = none)
    (htr : (r.clients target).room = none) (hused : (r.rooms ri).used = false)
    (ht : (joined S ri (enter ci ri (openRoom ri target r))).torn = false) (hq : SeenOff ∅ r) :
    SeenOff ∅ (joined S ri (enter ci ri (openRoom ri target r))) := by
  have hopen := keeps_open hS h hl hw hn hr htr hused
  have hroom : ∀ rj, (enter ci ri (openRoom ri target r)).rooms rj =
      if rj = ri then ⟨true, [target, ci], false, 0⟩ else r.rooms rj := by
    intro rj
    rw [enter, State.rooms_setClient, State.rooms_setRoom, openRoom, State.members,
      State.rooms_setClient, State.rooms_setRoom, State.rooms_setRoom, if_pos rfl]
    split_ifs
    · rfl
    · rfl
  have hmembers : (enter ci ri (openRoom ri target r)).members ri = [target, ci] := by
    rw [State.members, hroom, if_pos rfl]
  refine seen_joined hS hcopy hp hopen.1 ?_ ht (seen_changed h (fun c hc => ?_) (fun c hc => ?_)
    (fun rj hne => ?_) hq)
  · rw [hroom, if_pos rfl]
  · rw [h.unused ri hused] at hc
    cases hc
  · rw [hmembers, List.mem_cons, List.mem_singleton, not_or] at hc
    rw [enter, State.clients_setClient, if_neg hc.2, State.clients_setRoom, openRoom,
      State.clients_setClient, if_neg hc.1, State.clients_setRoom]
  · rw [hroom, if_neg hne]

theorem seen_joinTarget {target : ℕ} (h : Sound S ∅ ∅ r) (hl : r.Live ci)
    (hn : (r.clients ci).name ≠ []) (hr : (r.clients ci).room = none) (htl : r.Live target)
    (ht : (joinTarget S ci target r).torn = false) (hq : SeenOff ∅ r) :
    SeenOff ∅ (joinTarget S ci target r) := by
  have hlist : (onList S ci r).torn = false → SeenOff ∅ (onList S ci r) := fun ht =>
    seen_onList hS hcopy hp h (fun _ => hl) ht hq
  rw [joinTarget_rooms S hp] at ht ⊢
  split_ifs at ht ⊢ with hself
  · exact hlist ht
  · have hw : Wanted r ci target :=
      ⟨htl, fun heq => hself (.inl heq), fun heq => hself (.inr heq)⟩
    cases htr : (r.clients target).room with
    | some ri =>
      rw [htr] at ht
      dsimp only at ht ⊢
      split_ifs at ht ⊢ with hshut
      · exact hlist ht
      · exact seen_enter hS hcopy hp h hl hn hr (h.room target ri htl htr).2.1
          (Bool.not_eq_true _ ▸ hshut) ht hq
    | none =>
      obtain ⟨ri, hri, hused⟩ := roomAlloc_isSome hS h hl hr
      rw [htr, hri] at ht
      dsimp only at ht ⊢
      rw [hri]
      exact seen_open hS hcopy hp h hl hw hn hr htr hused ht hq

theorem seen_onJoin {payload : List ℕ} (h : Sound S ∅ ∅ r) (hl : r.Live ci)
    (ht : (onJoin S ci payload r).torn = false) (hq : SeenOff ∅ r) :
    SeenOff ∅ (onJoin S ci payload r) := by
  have hfind : ∀ r₁ : State, SameReg r r₁ → (∀ c, (r₁.clients c).queued = (r.clients c).queued) →
      (r.clients ci).name ≠ [] → (r.clients ci).room = none →
        (findTarget S ci payload r₁).torn = false → SeenOff ∅ (findTarget S ci payload r₁) := by
    intro r₁ hs hsent hn hr ht
    have h₁ := h.of_same hs
    have hl₁ := (hs.live ci).2 hl
    have hq₁ := hq.of_same hs hsent
    rw [findTarget] at ht ⊢
    split_ifs at ht ⊢
    · exact seen_onList hS hcopy hp h₁ (fun _ => hl₁) ht hq₁
    · cases hf : r₁.nameFind (joinName S payload) with
      | none =>
        rw [hf] at ht
        exact seen_onList hS hcopy hp h₁ (fun _ => hl₁) ht hq₁
      | some target =>
        rw [hf] at ht
        have htl := (h₁.entry _ (mem_of_nameFind hf)).1
        exact seen_joinTarget hS hcopy hp h₁ hl₁ (by rw [hs.name]; exact hn) ((hs.room ci).trans hr) htl
          ht hq₁
  rw [onJoin] at ht ⊢
  split_ifs at ht ⊢ with hn hr
  · exact seen_drop hS hcopy hp h hl ht hq
  · exact hq
  · exact hfind _ ⟨fun _ => rfl, rfl, rfl, rfl, rfl, rfl⟩ (fun _ => rfl) hn (not_not.1 hr) ht
  · exact hfind _ (.refl r) (fun _ => rfl) hn (not_not.1 hr) ht

theorem seen_onGo (h : Sound S ∅ ∅ r) (ht : (onGo S ci r).torn = false) (hq : SeenOff ∅ r) :
    SeenOff ∅ (onGo S ci r) := by
  rw [onGo] at ht ⊢
  cases hr : (r.clients ci).room with
  | none => exact hq
  | some ri =>
    rw [hr] at ht
    dsimp only at ht ⊢
    split_ifs at ht ⊢
    · exact hq
    · exact hq
    · exact seen_startRoom hS hcopy hp h ht hq

theorem seen_fanTo {m : Msg} (hm : Mute m) (src : ℕ) (l : List ℕ) (h : Sound S ∅ ∅ r)
    (hl : Known r l) (hmono : ∀ (l : List ℕ) (r : State), (fanTo S ci m src l r).torn = false →
      r.torn = false) (ht : (fanTo S ci m src l r).torn = false) (hq : SeenOff ∅ r) :
    SeenOff ∅ (fanTo S ci m src l r) := by
  induction l generalizing r with
  | nil => exact hq
  | cons c l ih =>
    rw [fanTo] at ht ⊢
    have ht₁ := hmono l _ ht
    have hsend : Keeps S r (if c = ci then r else sendRaw S (drop S) c m (some src) r) := by
      split_ifs
      · exact .refl h
      · exact keeps_sendRaw hS m (some src) h (hl c List.mem_cons_self)
    have hseen : SeenOff ∅ (if c = ci then r else sendRaw S (drop S) c m (some src) r) := by
      split_ifs at ht₁ ⊢
      · exact hq
      · exact seen_mute hS hcopy hp hm h (hl c List.mem_cons_self) ht₁ hq
    exact ih hsend.1 (fun x hx => Handled.keeps (hl x (List.mem_cons_of_mem _ hx)) hsend) ht hseen

theorem seen_relay {m : Msg} (hrel : relayed m.type = true) (h : Sound S ∅ ∅ r)
    (ht : (relay S ci m r).torn = false) (hq : SeenOff ∅ r) : SeenOff ∅ (relay S ci m r) := by
  have hmono : ∀ (src : ℕ) (l : List ℕ) (r : State), (fanTo S ci m src l r).torn = false →
      r.torn = false := by
    intro src l
    induction l with
    | nil => exact fun _ => id
    | cons c l ih =>
      intro r hr
      have hmid := ih _ hr
      split_ifs at hmid
      · exact hmid
      · exact (closed_torn S).sendRaw (closed_torn S).drop (fun hq => hq) hmid
  have hhear : ∀ e, SameReg r (r.hear e) := fun _ => ⟨fun _ => rfl, rfl, rfl, rfl, rfl, rfl⟩
  rw [relay, hcopy] at ht ⊢
  cases hr : (r.clients ci).room with
  | none => exact hq
  | some ri =>
    rw [hr] at ht
    dsimp only at ht ⊢
    by_cases hst : (r.rooms ri).started = true
    · rw [if_pos hst, if_neg Bool.false_ne_true] at ht ⊢
      refine seen_fanTo hS hcopy hp (mute_relayed hrel) _ _ (h.of_same (hhear _)) (fun c hc _ => ?_)
        (hmono _) ht (hq.of_same (hhear _) fun _ => rfl)
      exact h.live_members (Set.notMem_empty ri) c hc
    · rw [if_neg hst]
      exact hq

theorem seen_handle (hre : S.rechecks = true) {m : Msg} (h : Sound S ∅ ∅ r) (hl : r.Live ci)
    (ht : (handle S ci m r).torn = false) (hq : SeenOff ∅ r) : SeenOff ∅ (handle S ci m r) := by
  have hdrop : (drop S r ci).torn = false → SeenOff ∅ (drop S r ci) := fun ht =>
    seen_drop hS hcopy hp h hl ht hq
  rw [handle_rooms S hp] at ht ⊢
  split_ifs at ht ⊢ with hrel
  · exact seen_relay hS hcopy hp hrel h ht hq
  · rw [onHello] at ht ⊢
    dsimp only at ht ⊢
    split_ifs at ht ⊢ with h1 h2 hok
    · exact hdrop ht
    · exact hdrop ht
    · exact seen_takeName hS hcopy hp hok hre h hl ht hq
    · exact hdrop ht
  · exact seen_onList hS hcopy hp h (fun _ => hl) ht hq
  · exact seen_onJoin hS hcopy hp h hl ht hq
  · exact seen_onGo hS hcopy hp h ht hq
  · exact hdrop ht
  · exact seen_mute hS hcopy hp ⟨show tPong ≠ tRoom by decide, show tPong ≠ tPeerLeft by decide,
      show tPong ≠ tStart by decide⟩ h (fun _ => hl) ht hq
  · exact hdrop ht

omit hS hcopy hp in
/-- A new client has been told nothing and is on its own. -/
theorem seen_accept (ip now : ℕ) (hq : SeenOff ∅ r) : SeenOff ∅ (accept S ip now r) := by
  have hrooms := rooms_accept S ip now r
  intro c hl hn
  obtain heq | heq | ⟨ci, -, hnew, -⟩ := accept_cases S ip now r
  · rw [heq] at hl ⊢
    exact hq c hl hn
  · rw [heq] at hl ⊢
    exact hq c hl hn
  · by_cases hc : c = ci
    · rw [hnew c, if_pos hc, place_none]
      · rfl
      · rw [hnew c, if_pos hc]
        rfl
    · rw [State.Live, hnew c, if_neg hc] at hl
      have hcl := hnew c
      rw [if_neg hc] at hcl
      rw [hcl, place_congr (congrArg Client.room hcl) fun ri _ => congrFun hrooms ri]
      exact hq c hl hn

end handlers

/-! ### Runs -/

/-- Without a stale broadcast the views stay right. -/
def Sees (r r' : State) : Prop := r'.torn = false → r.torn = false ∧ (SeenOff ∅ r → SeenOff ∅ r')

/-- What the events do to the record and to the views. -/
theorem respects_sees {S : Setup} (hS : S.Fit) (hcopy : S.live = false) (hp : S.proto1 = false)
    (hre : S.rechecks = true) : Respects S Sees where
  refl _ ht := ⟨ht, id⟩
  trans h h' ht := ⟨(h (h' ht).1).1, (h' ht).2 ∘ (h (h' ht).1).2⟩
  handle m h hl _ ht := ⟨((passing_torn S).handle _ m _).2 ht, seen_handle hS.toOk hcopy hp hre h hl ht⟩
  drop h hl ht := ⟨(closed_torn S).drop _ _ ht, seen_drop hS.toOk hcopy hp h hl ht⟩
  flush h hl ht := ⟨(closed_torn S).flushLoop (closed_torn S).drop _ _ _ ht,
    seen_flushLoop (tells_drop hS.toOk hcopy hp) _ _ h (liveCount_le_max _) hl ht⟩
  accept ip now _ ht := by
    rw [(record_accept S ip now _).2.2.2] at ht
    exact ⟨ht, seen_accept ip now⟩

/-- Between events every client of `intv-relay.c` has the view of its room that the relay has, as long as
no ROOM or START went to a client from a copy of the members that was stale by then. -/
theorem views_right {maxSeats : ℕ} (h2 : 2 ≤ maxSeats) (autoGo delay : ℕ) (send : ℕ → SendResult)
    (seed : ℕ → ℕ) (es : List Event)
    (hok : (run (cRelay false maxSeats autoGo delay send seed) es).st.torn = false) :
    Seen (run (cRelay false maxSeats autoGo delay send seed) es).st := by
  have hfit := fit_cRelay h2 (fun h => absurd h Bool.false_ne_true) autoGo delay send seed
  have hrun := (respects_sees hfit rfl rfl rfl).run hfit es (.inl rfl)
  refine seen_iff.1 ((hrun hok).2 fun c hl _ => ?_)
  cases hl.1

/-- Three consoles in a room, and the send to the last of them fails. -/
theorem views_right_three :
    let S := cRelay false 4 0 3 (fun n => if n = 7 then .error else .wrote 99) fun _ => 7
    let r := (run S [.accept 1 0, .accept 2 0, .accept 3 0, .recv 0 [4, 1, 2, 65, 65],
      .recv 1 [4, 1, 2, 66, 66], .recv 2 [4, 1, 2, 67, 67], .recv 1 [3, 4, 65, 65],
      .recv 2 [3, 4, 65, 65]]).st
    r.failed = true ∧ Seen r :=
  ⟨by decide +kernel, views_right (by decide) _ _ _ _ _ (by decide +kernel)⟩

/-- The guest is told that the room is gone, as the send to the host fails, and then that it is in a room
of two. -/
theorem not_views_right :
    let S := cRelay false 2 0 3 (fun n => if n = 2 then .error else .wrote 99) fun _ => 7
    let r := (run S [.accept 1 0, .accept 2 0, .recv 0 [4, 1, 2, 65, 65], .recv 1 [4, 1, 2, 66, 66],
      .recv 1 [3, 4, 65, 65]]).st
    (r.clients 1).view = .forming 2 ∧ place r 1 = .solo ∧ ¬ Seen r := by
  intro S r
  have hview : (r.clients 1).view = .forming 2 := by decide +kernel
  have hplace : place r 1 = .solo := by decide +kernel
  refine ⟨hview, hplace, fun h => ?_⟩
  have hsame := h 1 (by decide +kernel)
  rw [hview, hplace] at hsame
  cases hsame

end IntvNetplay.Relay
