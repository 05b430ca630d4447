import IntvNetplay.Relay.Fanout
import IntvNetplay.Relay.Views

/-!
# When matches begin

A START is queued, and a room starts, in `start_room` only.  Everything else, the nested drops in
particular, leaves that as it is: at most it ends a match or takes clients out of a room.
-/

namespace IntvNetplay.Relay

/-- Some frames were queued, none of them a START. -/
def More (c c' : Client) : Prop :=
  ∃ l : List Queued, c'.queued = l ++ c.queued ∧ ∀ q ∈ l, q.msg.type ≠ tStart

theorem More.refl (c : Client) : More c c := ⟨[], rfl, fun q hq => by cases hq⟩

theorem More.of_eq {c c' : Client} (h : c'.queued = c.queued) : More c c' :=
  ⟨[], h, fun q hq => by cases hq⟩

theorem More.trans {c c' c'' : Client} (h : More c c') (h' : More c' c'') : More c c'' := by
  obtain ⟨l, hl, hn⟩ := h
  obtain ⟨l', hl', hn'⟩ := h'
  refine ⟨l' ++ l, by rw [hl', hl, List.append_assoc], fun q hq => ?_⟩
  obtain hq | hq := List.mem_append.1 hq
  · exact hn' q hq
  · exact hn q hq

/-- No room starts and no START is queued. -/
structure Calm (r r' : State) : Prop where
  started : ∀ ri, (r'.rooms ri).started = (r.rooms ri).started
  more : ∀ c, More (r.clients c) (r'.clients c)

namespace Calm

variable {r r' r'' : State}

theorem refl (r : State) : Calm r r := ⟨fun _ => rfl, fun _ => .refl _⟩

theorem trans (h : Calm r r') (h' : Calm r' r'') : Calm r r'' :=
  ⟨fun ri => (h'.started ri).trans (h.started ri), fun c => (h.more c).trans (h'.more c)⟩

theorem of_queued (hq : ∀ c, (r'.clients c).queued = (r.clients c).queued)
    (hr : ∀ ri, (r'.rooms ri).started = (r.rooms ri).started) : Calm r r' :=
  ⟨hr, fun c => .of_eq (hq c)⟩

theorem setClient {ci : ℕ} {c : Client} (hq : c.queued = (r.clients ci).queued) :
    Calm r (r.setClient ci c) := by
  refine of_queued (fun x => ?_) fun _ => rfl
  rw [State.clients_setClient]
  split_ifs with hx
  · rw [hx, hq]
  · rfl

theorem queue {ci : ℕ} {m : Msg} {src : Option ℕ} (hm : m.type ≠ tStart) :
    Calm r (r.queue ci m src) := by
  refine ⟨fun _ => rfl, fun x => ?_⟩
  rw [State.queue, State.clients_setClient]
  split_ifs with hx
  · rw [hx]
    refine ⟨[⟨m, src⟩], rfl, fun q hq => ?_⟩
    rw [List.mem_singleton.1 hq]
    exact hm
  · exact .refl _

theorem wrote (ci k : ℕ) : Calm r (r.wrote ci k) := setClient rfl

theorem free (ci : ℕ) : Calm r (r.free ci) := by
  rw [State.free]
  have hset : ∀ r₁ : State, r₁.clients = r.clients → r₁.rooms = r.rooms → Calm r
      { r₁.setClient ci { r.clients ci with inUse := false } with nClients := r₁.nClients - 1 } := by
    intro r₁ hc hr
    refine of_queued (fun x => ?_) fun ri => congrArg Room.started (congrFun hr ri)
    show ((r₁.setClient ci _).clients x).queued = _
    rw [State.clients_setClient]
    split_ifs with hx
    · rw [hx]
    · rw [hc]
  split_ifs
  · exact hset r rfl rfl
  · exact hset r.bad rfl rfl

theorem gone (ci : ℕ) : Calm r (r.gone ci) := by
  refine of_queued (fun x => ?_) fun ri => by rw [rooms_gone]
  rw [clients_gone]
  split_ifs with hx
  · rw [hx]
  · rfl

theorem out (ci ri : ℕ) : Calm r (r.out ci ri) := by
  refine of_queued (fun x => ?_) fun rj => ?_
  · rw [clients_out]
    split_ifs with hx
    · rw [hx]
    · rfl
  · rw [rooms_out]
    split_ifs with hx
    · rw [hx]
    · rfl

theorem unroom (ri : ℕ) : Calm r (r.unroom ri) := by
  refine of_queued (fun x => ?_) fun _ => rfl
  rw [State.unroom]
  dsimp only
  split_ifs
  · rfl
  · rfl

theorem close (ri : ℕ) : Calm r (r.close ri) := by
  refine of_queued (fun _ => rfl) fun rj => ?_
  rw [State.close, State.rooms_setRoom]
  split_ifs with hx
  · rw [hx]
  · rfl

end Calm

section nested

variable {S : Setup} {D : State → ℕ → State} (hD : ∀ r ci, Calm r (D r ci))
include hD

theorem calm_flushLoop (ci k : ℕ) (r : State) : Calm r (flushLoop S D ci k r) := by
  induction k generalizing r with
  | zero => exact .refl r
  | succ k ih =>
    have hcall : Calm r r.called := .of_queued (fun _ => rfl) fun _ => rfl
    have hfail : Calm r r.called.fail := .of_queued (fun _ => rfl) fun _ => rfl
    have hdrop : Calm r (D r.called.fail ci) := hfail.trans (hD r.called.fail ci)
    unfold flushLoop
    split
    · exact .refl r
    · split
      · exact (hcall.trans (.wrote ci _)).trans (ih _)
      · exact hcall
      · exact hdrop
      · exact hdrop

theorem calm_sendRaw (ci : ℕ) {m : Msg} (hm : m.type ≠ tStart) (src : Option ℕ) (r : State) :
    Calm r (sendRaw S D ci m src r) := by
  rw [sendRaw]
  split_ifs
  · exact .refl r
  · have hf : Calm r r.fail := .of_queued (fun _ => rfl) fun _ => rfl
    exact hf.trans (hD _ ci)
  · have hq : Calm r (r.queue ci m src) := .queue hm
    exact hq.trans (calm_flushLoop hD ci _ _)

theorem calm_sendAll {m : Msg} (hm : m.type ≠ tStart) (l : List ℕ) (r : State) :
    Calm r (sendAll S D m l r) := by
  induction l generalizing r with
  | nil => exact .refl r
  | cons c l ih => exact (calm_sendRaw hD c hm none r).trans (ih _)

theorem calm_announceTo (l : List (ℕ × Msg)) (hl : ∀ e ∈ l, e.2.type ≠ tStart) (r : State) :
    Calm r (announceTo S D l r) := by
  induction l generalizing r with
  | nil => exact .refl r
  | cons e l ih =>
    have hs := calm_sendRaw (S := S) hD e.1 (hl e List.mem_cons_self) none r
    have hstep : ∀ b : Bool, Calm r
        (if b then (sendRaw S D e.1 e.2 none r).tear else sendRaw S D e.1 e.2 none r) := by
      intro b
      cases b with
      | false => exact hs
      | true => exact hs.trans (.of_queued (fun _ => rfl) fun _ => rfl)
    simp only [announceTo]
    exact (hstep _).trans (ih (fun e he => hl e (List.mem_cons_of_mem _ he)) _)

theorem calm_announceLive (ri : ℕ) {m : ℕ → Msg} (hm : ∀ i, (m i).type ≠ tStart) (k i : ℕ)
    (r : State) : Calm r (announceLive S D ri m k i r) := by
  induction k generalizing r i with
  | zero => exact .refl r
  | succ k ih =>
    unfold announceLive
    split
    · exact .refl r
    · exact (calm_sendRaw hD _ (hm i) none r).trans (ih _ _)

theorem calm_roomBroadcast (ri : ℕ) (r : State) : Calm r (roomBroadcast S D ri r) := by
  have hroom : (roomMsg r ri).type ≠ tStart := show tRoom ≠ tStart by decide
  rw [roomBroadcast, announce]
  split_ifs
  · exact calm_announceLive hD ri (fun _ => hroom) _ _ r
  · refine calm_announceTo hD _ (fun e he => ?_) r
    obtain ⟨i, hi, rfl⟩ := List.mem_mapIdx.1 he
    exact hroom

theorem calm_dissolve (ri : ℕ) (notify : List ℕ) (r : State) : Calm r (dissolve S D ri notify r) := by
  have hgone : goneMsg.type ≠ tStart := show tRoom ≠ tStart by decide
  rw [dissolve]
  exact ((Calm.unroom ri).trans (calm_sendAll hD hgone notify _)).trans (.close ri)

theorem calm_dropSeat (ci ri seat : ℕ) (r : State) : Calm r (dropSeat S D ci ri seat r) := by
  rw [dropSeat]
  split_ifs
  · exact (calm_dissolve hD ri [] r).trans (calm_sendAll hD (show tPeerLeft ≠ tStart by decide) _ _)
  · exact calm_dissolve hD ri _ r
  · exact calm_dissolve hD ri _ r
  · exact calm_roomBroadcast hD ri r

theorem calm_dropBody (hp : S.proto1 = false) (r : State) (ci : ℕ) : Calm r (dropBody S D r ci) := by
  cases hd : (r.clients ci).dead with
  | true =>
    rw [dropBody, if_pos hd]
    exact .refl r
  | false =>
    rw [dropBody_eq S D hd]
    cases (r.clients ci).room with
    | none => exact (Calm.gone ci).trans (.free ci)
    | some ri =>
      dsimp only
      rw [hp, if_neg Bool.false_ne_true]
      have hout : Calm r (r.out ci ri) := .out ci ri
      have hseat := calm_dropSeat (S := S) hD ci ri ((r.members ri).idxOf ci) (r.out ci ri)
      have hpub : ∀ r' : State, Calm r' r'.publish := fun _ => .of_queued (fun _ => rfl) fun _ => rfl
      exact ((hout.trans hseat).trans (hpub _)).trans (.free ci)

end nested

section recursion

variable {S : Setup} (hp : S.proto1 = false)
include hp

theorem calm_dropN (k : ℕ) (r : State) (ci : ℕ) : Calm r (dropN S k r ci) := by
  induction k generalizing r ci with
  | zero => exact .of_queued (fun _ => rfl) fun _ => rfl
  | succ k ih => exact calm_dropBody ih hp r ci

theorem calm_drop (r : State) (ci : ℕ) : Calm r (drop S r ci) := calm_dropN hp maxClients r ci

end recursion

/-! ### Who is where -/

/-- A client in a match. -/
def Playing (r : State) (c : ℕ) : Prop :=
  ∃ ri, (r.clients c).room = some ri ∧ (r.rooms ri).started = true

/-- A client in a room that forms, not as its host. -/
def Guest (r : State) (c : ℕ) : Prop :=
  ∃ ri, (r.clients c).room = some ri ∧ (r.rooms ri).started = false ∧ (r.members ri).idxOf c ≠ 0

/-- No match begins and nobody becomes a guest. -/
structure Mild (r r' : State) : Prop where
  live : ∀ c, r'.Live c → r.Live c
  playing : ∀ c, Playing r' c → Playing r c
  guest : ∀ c, Guest r' c → Guest r c
  more : ∀ c, More (r.clients c) (r'.clients c)

theorem Mild.refl (r : State) : Mild r r := ⟨fun _ => id, fun _ => id, fun _ => id, fun _ => .refl _⟩

theorem Mild.trans {r r' r'' : State} (h : Mild r r') (h' : Mild r' r'') : Mild r r'' :=
  ⟨fun c hc => h.live c (h'.live c hc), fun c hc => h.playing c (h'.playing c hc),
    fun c hc => h.guest c (h'.guest c hc), fun c => (h.more c).trans (h'.more c)⟩

/-- The first of a list stays the first as long as it stays. -/
theorem idxOf_sublist {l l' : List ℕ} {c : ℕ} (hs : l'.Sublist l) (hn : l.Nodup) (hc : c ∈ l')
    (h : l.idxOf c = 0) : l'.idxOf c = 0 := by
  cases hs with
  | slnil => cases hc
  | cons a hs =>
    rw [List.idxOf_cons] at h
    cases ha : a == c with
    | true =>
      rw [beq_iff_eq] at ha
      rw [ha] at hn
      exact absurd (hs.subset hc) (List.nodup_cons.1 hn).1
    | false =>
      rw [ha] at h
      cases h
  | cons_cons a hs =>
    rw [List.idxOf_cons] at h ⊢
    cases ha : a == c with
    | true => rfl
    | false =>
      rw [ha] at h
      cases h

/-- Where members part, nothing begins. -/
theorem Parts.mild {S : Setup} {r r' : State} (h : Parts r r') (hs : Seats S ∅ r)
    (hs' : Seats S ∅ r') (hc : Calm r r') : Mild r r' := by
  refine ⟨h.live, fun c hp => ?_, fun c hg => ?_, hc.more⟩
  · obtain ⟨ri, hr, hst⟩ := hp
    exact ⟨ri, h.rooms c ri hr, (hc.started ri).symm.trans hst⟩
  · obtain ⟨ri, hr, hst, hi⟩ := hg
    refine ⟨ri, h.rooms c ri hr, (hc.started ri).symm.trans hst, fun h0 => hi ?_⟩
    exact idxOf_sublist (h.sub ri) (hs.nodup ri) ((hs'.mem ri (Set.notMem_empty ri) c).2 hr) h0

/-! ### The broadcast of START -/

section begins

variable {S : Setup} (hS : S.Ok) (hp : S.proto1 = false) {r : State} {ri : ℕ}
include hS hp

/-- Whoever is dropped from a match takes everybody out of it. -/
theorem empty_drop (h : Seats S ∅ r) {c : ℕ} (hd : (r.clients c).dead = false)
    (hr : (r.clients c).room = some ri) (hst : (r.rooms ri).started = true) (y : ℕ) :
    ((drop S r c).clients y).room ≠ some ri := by
  have hz : ri ∉ (∅ : Set ℕ) := Set.notMem_empty ri
  have hout : Seats S ∅ (r.out c ri) := seats_out h hr
  have hgone : ∀ y, ((dissolve S (dropN S 63) ri [] (r.out c ri)).clients y).room ≠ some ri :=
    (seats_unroom hout hz).gone ri (Set.mem_insert _ _)
  have hleaves := leaves_sendAll (S := S) (leaves_dropN hS.pair 63)
    (leftMsg ((r.members ri).idxOf c) ((r.out c ri).clients c).name) ((r.out c ri).members ri)
    (leaves_dissolve (leaves_dropN hS.pair 63) [] hout hz).1
  have hbody : drop S r c = (dropSeat S (dropN S 63) c ri ((r.members ri).idxOf c)
      (r.out c ri)).publish.free c := by
    rw [drop, show maxClients = 63 + 1 from rfl, dropN, dropBody_eq S _ hd, hr]
    dsimp only
    rw [hp, if_neg Bool.false_ne_true]
  have hseat : dropSeat S (dropN S 63) c ri ((r.members ri).idxOf c) (r.out c ri) =
      sendAll S (dropN S 63) (leftMsg ((r.members ri).idxOf c) ((r.out c ri).clients c).name)
        ((r.out c ri).members ri) (dissolve S (dropN S 63) ri [] (r.out c ri)) := by
    rw [dropSeat, if_pos]
    rw [rooms_out, if_pos rfl]
    exact hst
  rw [hbody, hseat]
  intro hy
  refine hgone y (hleaves.2.rooms y ri ?_)
  by_cases hyc : y = c
  · rw [hyc, State.free] at hy
    dsimp only at hy
    rw [State.clients_setClient, if_pos rfl] at hy
    rw [hyc]
    exact hy
  · rw [clients_free_ne hyc] at hy
    exact hy

/-- A flush either leaves its client alone or empties its room. -/
theorem start_flushLoop (c n : ℕ) (h : Seats S ∅ r) (hd : (r.clients c).dead = false)
    (hr : (r.clients c).room = some ri) (hst : (r.rooms ri).started = true) :
    (∀ y, ((flushLoop S (drop S) c n r).clients y).room ≠ some ri) ∨
      SameReg r (flushLoop S (drop S) c n r) ∧
        ∀ x, ((flushLoop S (drop S) c n r).clients x).queued = (r.clients x).queued := by
  induction n generalizing r with
  | zero => exact .inr ⟨.refl r, fun _ => rfl⟩
  | succ n ih =>
    have hfail := (sameReg_called r).trans (sameReg_fail _)
    have hdrop := empty_drop hS hp (h.of_rooms hfail.room hfail.rooms) hd hr hst
    unfold flushLoop
    split_ifs
    · exact .inr ⟨.refl r, fun _ => rfl⟩
    · cases S.send r.calls with
      | wrote j =>
        have hs := (sameReg_called r).trans (sameReg_wrote r.called c (j + 1))
        have hq : ∀ x, ((r.called.wrote c (j + 1)).clients x).queued = (r.clients x).queued := by
          intro x
          rw [State.wrote, State.clients_setClient]
          split_ifs with hx
          · rw [hx]
            rfl
          · rfl
        refine (ih (h.of_rooms hs.room hs.rooms) ((hs.dead c).trans hd) ((hs.room c).trans hr)
          (hs.rooms ▸ hst)).imp id fun hrest => ⟨hs.trans hrest.1, fun x => (hrest.2 x).trans (hq x)⟩
      | again => exact .inr ⟨sameReg_called r, fun _ => rfl⟩
      | zero => exact .inl hdrop
      | error => exact .inl hdrop

/-- What the members of a room that is told of its match have been sent, unless it is empty by then. -/
structure Told (ri : ℕ) (l : List ℕ) (r r' : State) : Prop where
  same : SameReg r r'
  rest : ∀ x ∉ l, (r'.clients x).queued = (r.clients x).queued
  told : ∀ x ∈ l, (r.clients x).dead = false →
    ∃ q : Queued, q.msg.type = tStart ∧ (r'.clients x).queued = q :: (r.clients x).queued

theorem start_sendRaw {c : ℕ} {m : Msg} (hm : m.type = tStart) (h : Seats S ∅ r)
    (hr : (r.clients c).room = some ri) (hst : (r.rooms ri).started = true) :
    (∀ y, ((sendRaw S (drop S) c m none r).clients y).room ≠ some ri) ∨
      Told ri [c] r (sendRaw S (drop S) c m none r) := by
  cases hd : (r.clients c).dead with
  | true =>
    rw [sendRaw, if_pos hd]
    refine .inr ⟨.refl r, fun _ _ => rfl, fun x hx hdx => ?_⟩
    rw [List.mem_singleton.1 hx, hd] at hdx
    cases hdx
  | false =>
    rw [sendRaw, if_neg (by rw [hd]; decide)]
    split_ifs
    · have hs := sameReg_fail r
      exact .inl (empty_drop hS hp (h.of_rooms hs.room hs.rooms) hd hr hst)
    · have hs := sameReg_queue r c m none
      have hq : ∀ x, ((r.queue c m none).clients x).queued =
          if x = c then ⟨m, none⟩ :: (r.clients c).queued else (r.clients x).queued := by
        intro x
        rw [State.queue, State.clients_setClient]
        split_ifs
        · rfl
        · rfl
      refine (start_flushLoop hS hp c _ (h.of_rooms hs.room hs.rooms) ((hs.dead c).trans hd)
        ((hs.room c).trans hr) (hs.rooms ▸ hst)).imp id fun hrest => ⟨hs.trans hrest.1, ?_, ?_⟩
      · intro x hx
        rw [flush, hrest.2 x, hq, if_neg fun hxc => hx (List.mem_singleton.2 hxc)]
      · intro x hx _
        rw [flush, hrest.2 x, hq, if_pos (List.mem_singleton.1 hx), List.mem_singleton.1 hx]
        exact ⟨⟨m, none⟩, hm, rfl⟩

omit hS hp in
theorem Told.cons {c : ℕ} {l : List ℕ} {r' r'' : State} (hn : c ∉ l) (h : Told ri [c] r r')
    (h' : Told ri l r' r'') : Told ri (c :: l) r r'' := by
  refine ⟨h.same.trans h'.same, fun x hx => ?_, fun x hx hd => ?_⟩
  · obtain ⟨hxc, hxl⟩ := not_or.1 fun hor => hx (List.mem_cons.2 hor)
    exact (h'.rest x hxl).trans (h.rest x fun hm => hxc (List.mem_singleton.1 hm))
  · obtain rfl | hxl := List.mem_cons.1 hx
    · rw [h'.rest x hn]
      exact h.told x (List.mem_singleton_self x) hd
    · have hne : x ∉ [c] := fun hm => hn (List.mem_singleton.1 hm ▸ hxl)
      rw [← h.rest x hne]
      exact h'.told x hxl ((h.same.dead x).trans hd)

theorem start_announceTo (l : List (ℕ × Msg)) (hm : ∀ e ∈ l, e.2.type = tStart)
    (hn : (l.map Prod.fst).Nodup) (h : Seats S ∅ r)
    (hr : ∀ c ∈ l.map Prod.fst, (r.clients c).room = some ri) (hst : (r.rooms ri).started = true) :
    (∀ y, ((announceTo S (drop S) l r).clients y).room ≠ some ri) ∨
      Told ri (l.map Prod.fst) r (announceTo S (drop S) l r) := by
  induction l generalizing r with
  | nil => exact .inr ⟨.refl r, fun _ _ => rfl, fun x hx => by cases hx⟩
  | cons e l ih =>
    obtain ⟨c, m⟩ := e
    have hleaves := leaves_sendRaw (S := S) (leaves_drop hS.pair) c m none h
    have hsend := start_sendRaw hS hp (hm _ List.mem_cons_self) h (hr c List.mem_cons_self) hst
    have hstep : ∀ b : Bool, Seats S ∅
        (if b then (sendRaw S (drop S) c m none r).tear else sendRaw S (drop S) c m none r) ∧
        ((∀ y, ((if b then (sendRaw S (drop S) c m none r).tear
          else sendRaw S (drop S) c m none r).clients y).room ≠ some ri) ∨
            Told ri [c] r (if b then (sendRaw S (drop S) c m none r).tear
              else sendRaw S (drop S) c m none r)) := by
      intro b
      cases b with
      | false => exact ⟨hleaves.1, hsend⟩
      | true =>
        exact ⟨hleaves.1.of_rooms (fun _ => rfl) rfl, hsend.imp id fun ht =>
          ⟨ht.same.trans (sameReg_tear _), ht.rest, ht.told⟩⟩
    rw [announceTo]
    generalize hb : (!(r.clients c).dead && ((sendRaw S (drop S) c m none r).clients c).dead &&
      l.any fun e => !((sendRaw S (drop S) c m none r).clients e.1).dead) = b
    obtain ⟨hseats, hcase⟩ := hstep b
    generalize (if b then (sendRaw S (drop S) c m none r).tear
      else sendRaw S (drop S) c m none r) = r₁ at hseats hcase
    obtain hempty | htold := hcase
    · exact .inl fun y hy => hempty y
        ((leaves_announceTo (S := S) (leaves_drop hS.pair) l hseats).2.rooms y ri hy)
    · rw [List.map_cons, List.nodup_cons] at hn
      refine (ih (fun e he => hm e (List.mem_cons_of_mem _ he)) hn.2 hseats (fun x hx => ?_)
        (htold.same.rooms ▸ hst)).imp id fun hrest => htold.cons hn.1 hrest
      exact (htold.same.room x).trans (hr x (List.mem_cons_of_mem _ hx))

theorem start_announceLive {m : ℕ → Msg} (hm : ∀ i, (m i).type = tStart) (l : List ℕ) (i : ℕ)
    (hl : ∀ j, (r.members ri)[i + j]? = l[j]?) (hn : l.Nodup) (h : Seats S ∅ r)
    (hr : ∀ c ∈ l, (r.clients c).room = some ri) (hst : (r.rooms ri).started = true) :
    (∀ y, ((announceLive S (drop S) ri m l.length i r).clients y).room ≠ some ri) ∨
      Told ri l r (announceLive S (drop S) ri m l.length i r) := by
  induction l generalizing r i with
  | nil => exact .inr ⟨.refl r, fun _ _ => rfl, fun x hx => by cases hx⟩
  | cons c l ih =>
    have hleaves := leaves_sendRaw (S := S) (leaves_drop hS.pair) c (m i) none h
    have hsend := start_sendRaw hS hp (hm i) h (hr c List.mem_cons_self) hst
    rw [List.length_cons, announceLive, show (r.members ri)[i]? = some c from hl 0]
    dsimp only
    generalize sendRaw S (drop S) c (m i) none r = r₁ at hleaves hsend
    obtain hempty | htold := hsend
    · exact .inl fun y hy => hempty y
        ((leaves_announceLive (S := S) (leaves_drop hS.pair) ri m _ _ hleaves.1).2.rooms y ri hy)
    · rw [List.nodup_cons] at hn
      refine (ih (i + 1) (fun j => ?_) hn.2 hleaves.1 (fun x hx => ?_)
        (htold.same.rooms ▸ hst)).imp id fun hrest => htold.cons hn.1 hrest
      · rw [State.members, htold.same.rooms, Nat.add_assoc, Nat.add_comm 1 j]
        exact hl (j + 1)
      · exact (htold.same.room x).trans (hr x (List.mem_cons_of_mem _ hx))

/-- The broadcast reaches everybody, or nobody is in the room any more. -/
theorem start_announce {m : ℕ → Msg} (hm : ∀ i, (m i).type = tStart) (h : Seats S ∅ r)
    (hst : (r.rooms ri).started = true) :
    (∀ y, ((announce S (drop S) ri m r).clients y).room ≠ some ri) ∨
      Told ri (r.members ri) r (announce S (drop S) ri m r) := by
  have hroom : ∀ c ∈ r.members ri, (r.clients c).room = some ri := fun c hc =>
    (h.mem ri (Set.notMem_empty ri) c).1 hc
  have hfst : ((r.members ri).mapIdx fun i ci => (ci, m i)).map Prod.fst = r.members ri :=
    List.ext_getElem (by simp) fun i h1 h2 => by simp
  rw [announce]
  split_ifs
  · exact start_announceLive hS hp hm (r.members ri) 0 (fun j => by rw [Nat.zero_add]) (h.nodup ri) h
      hroom hst
  · have hall : ∀ e ∈ (r.members ri).mapIdx (fun i ci => (ci, m i)), e.2.type = tStart := by
      intro e he
      obtain ⟨i, hi, rfl⟩ := List.mem_mapIdx.1 he
      exact hm i
    have hto := start_announceTo hS hp _ hall (by rw [hfst]; exact h.nodup ri) h
      (by rw [hfst]; exact hroom) hst
    rw [hfst] at hto
    exact hto

end begins

/-! ### What the handlers begin -/

/-- A START was queued, and other frames before and after it. -/
def Once (c c' : Client) : Prop :=
  ∃ (l : List Queued) (q : Queued), q.msg.type = tStart ∧
    c'.queued = l ++ q :: c.queued ∧ ∀ x ∈ l, x.msg.type ≠ tStart

/-- A match may begin for the members of a room. -/
structure Begins (ri : ℕ) (r r' : State) : Prop where
  live : ∀ c, r'.Live c → r.Live c
  guest : ∀ c, Guest r' c → Guest r c ∧ c ∉ r.members ri
  playing : ∀ c, r'.Live c → Playing r' c → Playing r c ∧ c ∉ r.members ri ∨
    c ∈ r.members ri ∧ Once (r.clients c) (r'.clients c)
  more : ∀ c ∉ r.members ri, More (r.clients c) (r'.clients c)

section handlers

variable {S : Setup} (hS : S.Ok) (hp : S.proto1 = false) {r : State} {ci ri : ℕ}
include hS hp

omit hS in
theorem more_sendRaw {c x : ℕ} (hne : x ≠ c) (m : Msg) (src : Option ℕ) :
    More (r.clients x) ((sendRaw S (drop S) c m src r).clients x) := by
  have hcalm := calm_drop hp
  rw [sendRaw]
  split_ifs
  · exact .refl _
  · exact (hcalm r.fail c).more x
  · have hq : ((r.queue c m src).clients x) = r.clients x := by
      rw [State.queue, State.clients_setClient, if_neg hne]
    have hflush := (calm_flushLoop (S := S) hcalm c ((r.queue c m src).clients c).tx.length
      (r.queue c m src)).more x
    rw [hq] at hflush
    exact hflush

/-- A broadcast is for the members only. -/
theorem more_announce {m : ℕ → Msg} (h : Seats S ∅ r) {x : ℕ} (hx : x ∉ r.members ri) :
    More (r.clients x) ((announce S (drop S) ri m r).clients x) := by
  have hto : ∀ (l : List (ℕ × Msg)) (r : State), x ∉ l.map Prod.fst →
      More (r.clients x) ((announceTo S (drop S) l r).clients x) := by
    intro l
    induction l with
    | nil => exact fun r _ => .refl _
    | cons e l ih =>
      intro r hn
      obtain ⟨hne, hl⟩ := not_or.1 fun hor => hn (List.mem_cons.2 hor)
      have hsend : More (r.clients x) ((sendRaw S (drop S) e.1 e.2 none r).clients x) :=
        more_sendRaw hp hne e.2 none
      have hstep : ∀ b : Bool, More (r.clients x)
          ((if b then (sendRaw S (drop S) e.1 e.2 none r).tear
            else sendRaw S (drop S) e.1 e.2 none r).clients x) := by
        intro b
        cases b with
        | false => exact hsend
        | true => exact hsend
      simp only [announceTo]
      exact (hstep _).trans (ih _ hl)
  have hlive : ∀ (n i : ℕ) (r : State), Seats S ∅ r → x ∉ r.members ri →
      More (r.clients x) ((announceLive S (drop S) ri m n i r).clients x) := by
    intro n
    induction n with
    | zero => exact fun i r _ _ => .refl _
    | succ n ih =>
      intro i r h hn
      unfold announceLive
      split
      · exact .refl _
      · rename_i c hc
        have hne : x ≠ c := fun heq => hn (heq ▸ List.mem_of_getElem? hc)
        have hleaves := leaves_sendRaw (S := S) (leaves_drop hS.pair) c (m i) none h
        exact (more_sendRaw hp hne (m i) none).trans (ih _ _ hleaves.1 fun hin =>
          hn ((hleaves.2.sub ri).subset hin))
  rw [announce]
  split_ifs
  · exact hlive _ _ r h hx
  · refine hto _ r fun hin => hx ?_
    have hfst : ((r.members ri).mapIdx fun i ci => (ci, m i)).map Prod.fst = r.members ri :=
      List.ext_getElem (by simp) fun i h1 h2 => by simp
    rwa [hfst] at hin

omit hS in
theorem started_sendRaw (c : ℕ) (m : Msg) (src : Option ℕ) (rj : ℕ) :
    ((sendRaw S (drop S) c m src r).rooms rj).started = (r.rooms rj).started := by
  have hcalm := calm_drop hp
  rw [sendRaw]
  split_ifs
  · rfl
  · exact (hcalm r.fail c).started rj
  · exact (calm_flushLoop (S := S) hcalm c _ (r.queue c m src)).started rj

omit hS in
/-- No room starts in a broadcast. -/
theorem started_announce {m : ℕ → Msg} (rj : ℕ) :
    ((announce S (drop S) ri m r).rooms rj).started = (r.rooms rj).started := by
  have hto : ∀ (l : List (ℕ × Msg)) (r : State),
      ((announceTo S (drop S) l r).rooms rj).started = (r.rooms rj).started := by
    intro l
    induction l with
    | nil => exact fun _ => rfl
    | cons e l ih =>
      intro r
      have hsend : ((sendRaw S (drop S) e.1 e.2 none r).rooms rj).started = (r.rooms rj).started :=
        started_sendRaw hp e.1 e.2 none rj
      have hstep : ∀ b : Bool, ((if b then (sendRaw S (drop S) e.1 e.2 none r).tear
          else sendRaw S (drop S) e.1 e.2 none r).rooms rj).started = (r.rooms rj).started := by
        intro b
        cases b with
        | false => exact hsend
        | true => exact hsend
      simp only [announceTo]
      exact (ih _).trans (hstep _)
  have hlive : ∀ (n i : ℕ) (r : State),
      ((announceLive S (drop S) ri m n i r).rooms rj).started = (r.rooms rj).started := by
    intro n
    induction n with
    | zero => exact fun _ _ => rfl
    | succ n ih =>
      intro i r
      unfold announceLive
      split
      · rfl
      · exact (ih _ _).trans (started_sendRaw hp _ (m i) none rj)
  rw [announce]
  split_ifs
  · exact hlive _ _ r
  · exact hto _ r

theorem begins_startRoom (h : Seats S ∅ r) : Begins ri r (startRoom S ri r) := by
  have hstart : startRoom S ri r = (announce S (drop S) ri (fun seat =>
      startMsg (({ r with seeds := r.seeds + 1 } : State).setRoom ri
        { r.rooms ri with started := true, seed := S.seed r.seeds }) ri (S.seed r.seeds) S.delay seat)
      (({ r with seeds := r.seeds + 1 } : State).setRoom ri
        { r.rooms ri with started := true, seed := S.seed r.seeds })).publish := rfl
  generalize hr₁ : ({ r with seeds := r.seeds + 1 } : State).setRoom ri
    { r.rooms ri with started := true, seed := S.seed r.seeds } = r₁ at hstart
  have hclients : r₁.clients = r.clients := by
    rw [← hr₁]
    rfl
  have hrooms : ∀ rj, r₁.rooms rj =
      if rj = ri then { r.rooms ri with started := true, seed := S.seed r.seeds } else r.rooms rj := by
    intro rj
    rw [← hr₁]
    exact State.rooms_setRoom _ _ _ _
  have hmembers : ∀ rj, r₁.members rj = r.members rj := by
    intro rj
    rw [State.members, hrooms]
    split_ifs with hrj
    · rw [hrj]
      rfl
    · rfl
  have hst : (r₁.rooms ri).started = true := by rw [hrooms, if_pos rfl]
  have hseats : Seats S ∅ r₁ := by
    have hseed : Stays S r { r with seeds := r.seeds + 1 } :=
      .of_rooms h (fun _ => ⟨rfl, rfl, rfl⟩) rfl
    rw [← hr₁]
    exact (stays_start hseed.1 (S.seed r.seeds)).1
  generalize hr' : announce S (drop S) ri (fun seat => startMsg r₁ ri (S.seed r.seeds) S.delay seat) r₁
    = r' at hstart
  have hparts : Leaves S ∅ r₁ r' := hr' ▸ leaves_announce (leaves_drop hS.pair) ri _ hseats
  have hflags : ∀ rj, (r'.rooms rj).started = (r₁.rooms rj).started := hr' ▸ started_announce hp
  have hcast : (∀ y, (r'.clients y).room ≠ some ri) ∨ Told ri (r₁.members ri) r₁ r' :=
    hr' ▸ start_announce hS hp (fun _ => rfl) hseats hst
  have hmore : ∀ x ∉ r₁.members ri, More (r₁.clients x) (r'.clients x) := fun x hx =>
    hr' ▸ more_announce hS hp hseats hx
  rw [hstart]
  -- Where a client of a room is in the end, it was all along.
  have hroom : ∀ c rj, (r'.publish.clients c).room = some rj → (r.clients c).room = some rj := by
    intro c rj hc
    have := hparts.2.rooms c rj hc
    rwa [hclients] at this
  have hother : ∀ c rj, rj ≠ ri → (r.clients c).room = some rj → c ∉ r.members ri := by
    intro c rj hne hc hm
    have := (h.mem ri (Set.notMem_empty ri) c).1 hm
    rw [hc] at this
    exact hne (Option.some.inj this)
  have hsame : ∀ rj, rj ≠ ri → (r'.publish.rooms rj).started = (r.rooms rj).started := by
    intro rj hne
    have := hflags rj
    rw [hrooms, if_neg hne] at this
    exact this
  refine ⟨fun c hl => ?_, fun c hg => ?_, fun c hl hpl => ?_, fun c hc => ?_⟩
  · have := hparts.2.live c hl
    rwa [State.Live, hclients] at this
  · obtain ⟨rj, hr, hs, hi⟩ := hg
    have hne : rj ≠ ri := by
      rintro rfl
      have := hflags rj
      rw [hst] at this
      rw [show (r'.publish.rooms rj).started = true from this] at hs
      cases hs
    refine ⟨⟨rj, hroom c rj hr, (hsame rj hne).symm.trans hs, fun h0 => hi ?_⟩,
      hother c rj hne (hroom c rj hr)⟩
    have hsub := hparts.2.sub rj
    rw [hmembers] at hsub
    exact idxOf_sublist hsub (h.nodup rj) ((hparts.1.mem rj (Set.notMem_empty rj) c).2 hr) h0
  · obtain ⟨rj, hr, hs⟩ := hpl
    by_cases hne : rj = ri
    · rw [hne] at hr
      have hm : c ∈ r.members ri := (h.mem ri (Set.notMem_empty ri) c).2 (hroom c ri hr)
      refine .inr ⟨hm, ?_⟩
      obtain hempty | htold := hcast
      · exact absurd hr (hempty c)
      · have hlive := hparts.2.live c hl
        obtain ⟨q, hq, heq⟩ := htold.told c (by rw [hmembers]; exact hm) hlive.2
        rw [hclients] at heq
        exact ⟨[], q, hq, heq, fun x hx => by cases hx⟩
    · exact .inl ⟨⟨rj, hroom c rj hr, (hsame rj hne).symm.trans hs⟩, hother c rj hne (hroom c rj hr)⟩
  · have := hmore c (by rw [hmembers]; exact hc)
    rwa [hclients] at this

omit hS hp in
/-- A change of neither rooms nor queues nor who is served. -/
theorem Mild.of_same {r' : State} (hc : ∀ c, (r'.clients c).room = (r.clients c).room ∧
    (r'.clients c).inUse = (r.clients c).inUse ∧ (r'.clients c).dead = (r.clients c).dead ∧
      (r'.clients c).queued = (r.clients c).queued) (hr : r'.rooms = r.rooms) : Mild r r' := by
  refine ⟨fun c hl => ?_, fun c hpl => ?_, fun c hg => ?_, fun c => .of_eq (hc c).2.2.2⟩
  · rw [State.Live, (hc c).2.1, (hc c).2.2.1] at hl
    exact hl
  · rw [Playing, (hc c).1, hr] at hpl
    exact hpl
  · rw [Guest, (hc c).1, hr] at hg
    obtain ⟨ri, h1, h2, h3⟩ := hg
    rw [State.members, hr] at h3
    exact ⟨ri, h1, h2, h3⟩

omit hS hp in
theorem Leaves.mild {r' : State} (h : Leaves S ∅ r r') (hs : Seats S ∅ r) (hc : Calm r r') : Mild r r' :=
  h.2.mild hs h.1 hc

theorem mild_drop (h : Seats S ∅ r) : Mild r (drop S r ci) :=
  (leaves_drop hS.pair ∅ r ci h).mild h (calm_drop hp r ci)

theorem mild_sendRaw {m : Msg} (hm : m.type ≠ tStart) (src : Option ℕ) (h : Seats S ∅ r) :
    Mild r (sendRaw S (drop S) ci m src r) :=
  (leaves_sendRaw (leaves_drop hS.pair) ci m src h).mild h (calm_sendRaw (calm_drop hp) ci hm src r)

theorem mild_onList (h : Seats S ∅ r) : Mild r (onList S ci r) :=
  mild_sendRaw hS hp (show tLobby ≠ tStart by decide) none h

theorem mild_takeName (name : List ℕ) (h : Seats S ∅ r) : Mild r (takeName S ci name r) := by
  have hevict : Mild r (evict S ci name r) ∧ Seats S ∅ (evict S ci name r) := by
    rw [evict]
    split
    · have hrob : Mild r r.rob := .of_same (fun _ => ⟨rfl, rfl, rfl, rfl⟩) rfl
      have hseats : Seats S ∅ r.rob := h.of_rooms (fun _ => rfl) rfl
      split_ifs
      · exact ⟨.refl r, h⟩
      · exact ⟨hrob.trans (mild_drop hS hp hseats), (leaves_drop hS.pair ∅ _ _ hseats).1⟩
      · exact ⟨mild_drop hS hp h, (leaves_drop hS.pair ∅ _ _ h).1⟩
    · exact ⟨.refl r, h⟩
  have hren : ∀ r₁ : State, Seats S ∅ r₁ → Mild r₁ (rename S ci name r₁) ∧
      Seats S ∅ (rename S ci name r₁) := by
    intro r₁ h₁
    have hsame : ∀ c, ((rename S ci name r₁).clients c).room = (r₁.clients c).room ∧
        ((rename S ci name r₁).clients c).inUse = (r₁.clients c).inUse ∧
          ((rename S ci name r₁).clients c).dead = (r₁.clients c).dead ∧
            ((rename S ci name r₁).clients c).queued = (r₁.clients c).queued := by
      intro c
      rw [clients_named]
      split_ifs with hc
      · rw [hc]
        exact ⟨rfl, rfl, rfl, rfl⟩
      · exact ⟨rfl, rfl, rfl, rfl⟩
    exact ⟨.of_same hsame rooms_rename, h₁.of_rooms (fun c => (hsame c).1) rooms_rename⟩
  rw [takeName]
  split_ifs
  · exact hevict.1
  · obtain ⟨hmild, hseats⟩ := hren _ hevict.2
    exact (hevict.1.trans hmild).trans (mild_onList hS hp hseats)

theorem mild_fanTo {m : Msg} (hm : m.type ≠ tStart) (src : ℕ) (l : List ℕ) (h : Seats S ∅ r) :
    Mild r (fanTo S ci m src l r) := by
  induction l generalizing r with
  | nil => exact .refl r
  | cons c l ih =>
    rw [fanTo]
    split_ifs
    · exact ih h
    · have hl := leaves_sendRaw (S := S) (leaves_drop hS.pair) c m (some src) h
      exact (mild_sendRaw hS hp hm (some src) h).trans (ih hl.1)

theorem mild_fanLive {m : Msg} (hm : m.type ≠ tStart) (src k i : ℕ) (h : Seats S ∅ r) :
    Mild r (fanLive S ci ri m src k i r) := by
  induction k generalizing r i with
  | zero => exact .refl r
  | succ k ih =>
    unfold fanLive
    split
    · exact .refl r
    · rename_i c _
      split_ifs
      · exact ih _ h
      · have hl := leaves_sendRaw (S := S) (leaves_drop hS.pair) c m (some src) h
        exact (mild_sendRaw hS hp hm (some src) h).trans (ih _ hl.1)

theorem mild_relay {m : Msg} (hm : relayed m.type = true) (h : Seats S ∅ r) :
    Mild r (relay S ci m r) := by
  have hstart := (mute_relayed hm).2.2
  have hhear : ∀ e, Mild r (r.hear e) ∧ Seats S ∅ (r.hear e) := fun _ =>
    ⟨.of_same (fun _ => ⟨rfl, rfl, rfl, rfl⟩) rfl, h.of_rooms (fun _ => rfl) rfl⟩
  rw [relay]
  split
  · exact .refl r
  · split_ifs
    · exact (hhear _).1.trans (mild_fanLive hS hp hstart _ _ _ (hhear _).2)
    · exact (hhear _).1.trans (mild_fanTo hS hp hstart _ _ (hhear _).2)
    · exact .refl r

/-- Does `on_join` put its client into a room? -/
def joins (S : Setup) (r : State) (ci : ℕ) (payload : List ℕ) : Bool :=
  (r.clients ci).name != [] && (r.clients ci).room == none &&
    !(S.ctable && decide (8 < (rstrip payload).length)) &&
      match r.nameFind (joinName S payload) with
      | none => false
      | some target => target != ci && (r.clients target).name != [] &&
        match (r.clients target).room with
        | some ri => !shut S r ri
        | none => (roomAlloc S r).isSome

/-- Does `on_go` start the room of its client? -/
def goes (S : Setup) (r : State) (ci : ℕ) : Bool :=
  match (r.clients ci).room with
  | none => false
  | some ri => !(r.rooms ri).started && (r.members ri).idxOf ci == 0 &&
    decide (2 ≤ (r.members ri).length) && decide ((r.members ri).length ≤ S.maxSeats)

/-- Is a JOIN or a GO acted on? -/
def acts (S : Setup) (r : State) (ci : ℕ) (m : Msg) : Bool :=
  m.type == tJoin && joins S r ci m.payload || m.type == tGo && goes S r ci

/-- A client may become a guest. -/
structure Enters (ci : ℕ) (r r' : State) : Prop where
  live : ∀ c, r'.Live c → r.Live c
  playing : ∀ c, Playing r' c → Playing r c
  guest : ∀ c, Guest r' c → Guest r c ∨ c = ci
  more : ∀ c, More (r.clients c) (r'.clients c)

omit hS hp in
theorem Mild.enters {r' : State} (h : Mild r r') (ci : ℕ) : Enters ci r r' :=
  ⟨h.live, h.playing, fun c hg => .inl (h.guest c hg), h.more⟩

omit hS hp in
theorem Enters.trans {r' r'' : State} (h : Enters ci r r') (h' : Mild r' r'') : Enters ci r r'' :=
  ⟨fun c hl => h.live c (h'.live c hl), fun c hpl => h.playing c (h'.playing c hpl),
    fun c hg => h.guest c (h'.guest c hg), fun c => (h.more c).trans (h'.more c)⟩

omit hS hp in
/-- A room that forms, with the client at its end. -/
theorem enters_of (ri : ℕ) {r' : State}
    (hc : ∀ c, (r'.clients c).inUse = (r.clients c).inUse ∧ (r'.clients c).dead = (r.clients c).dead ∧
      (r'.clients c).queued = (r.clients c).queued)
    (hroom : ∀ c, (r'.clients c).room = some ri ∨ (r'.clients c).room = (r.clients c).room)
    (hrooms : ∀ rj, rj ≠ ri → r'.rooms rj = r.rooms rj) (hst : (r'.rooms ri).started = false)
    (hin : ∀ c, (r'.clients c).room = some ri → (r'.members ri).idxOf c ≠ 0 → c ≠ ci → Guest r c) :
    Enters ci r r' := by
  have hback : ∀ c rj, rj ≠ ri → (r'.clients c).room = some rj → (r.clients c).room = some rj := by
    intro c rj hne hc
    obtain heq | heq := hroom c
    · rw [heq] at hc
      exact absurd (Option.some.inj hc).symm hne
    · rw [← heq]
      exact hc
  refine ⟨fun c hl => ?_, fun c hpl => ?_, fun c hg => ?_, fun c => .of_eq (hc c).2.2⟩
  · rw [State.Live, (hc c).1, (hc c).2.1] at hl
    exact hl
  · obtain ⟨rj, hr, hs⟩ := hpl
    have hne : rj ≠ ri := by
      rintro rfl
      rw [hst] at hs
      cases hs
    rw [hrooms rj hne] at hs
    exact ⟨rj, hback c rj hne hr, hs⟩
  · obtain ⟨rj, hr, hs, hi⟩ := hg
    by_cases hne : rj = ri
    · rw [hne] at hr hi
      by_cases hcc : c = ci
      · exact .inr hcc
      · exact .inl (hin c hr hi hcc)
    · rw [hrooms rj hne] at hs
      rw [State.members, hrooms rj hne] at hi
      exact .inl ⟨rj, hback c rj hne hr, hs, hi⟩

omit hS hp in
theorem enters_enter (h : Seats S ∅ r) {target : ℕ} (htr : (r.clients target).room = some ri)
    (hshut : shut S r ri = false) : Enters ci r (enter ci ri r) := by
  rw [shut, Bool.or_eq_false_iff] at hshut
  have hrooms : ∀ rj, (enter ci ri r).rooms rj =
      if rj = ri then { r.rooms ri with members := r.members ri ++ [ci] } else r.rooms rj := fun rj => by
    rw [enter, State.rooms_setClient, State.rooms_setRoom]
  have hc : ∀ x, (enter ci ri r).clients x =
      if x = ci then { r.clients ci with room := some ri } else r.clients x := fun x => by
    rw [enter, State.clients_setClient, State.clients_setRoom]
  have hmem := (h.mem ri (Set.notMem_empty ri) target).2 htr
  refine enters_of ri (fun c => ?_) (fun c => ?_) (fun rj hne => ?_) ?_ fun c hr hi hne => ?_
  · rw [hc]
    split_ifs with hx
    · rw [hx]
      exact ⟨rfl, rfl, rfl⟩
    · exact ⟨rfl, rfl, rfl⟩
  · rw [hc]
    split_ifs
    · exact .inl rfl
    · exact .inr rfl
  · rw [hrooms, if_neg hne]
  · rw [hrooms, if_pos rfl]
    exact hshut.1
  · rw [hc, if_neg hne] at hr
    have hm := (h.mem ri (Set.notMem_empty ri) c).2 hr
    rw [State.members, hrooms, if_pos rfl] at hi
    dsimp only at hi
    rw [List.idxOf_append_of_mem hm] at hi
    exact ⟨ri, hr, hshut.1, hi⟩

omit hS hp in
theorem enters_open {target : ℕ} (h : Seats S ∅ r) (hu : (r.rooms ri).used = false) :
    Enters ci r (enter ci ri (openRoom ri target r)) := by
  have hroom : ∀ rj, (enter ci ri (openRoom ri target r)).rooms rj =
      if rj = ri then ⟨true, [target, ci], false, 0⟩ else r.rooms rj := by
    intro rj
    rw [enter, State.rooms_setClient, State.rooms_setRoom, openRoom, State.members,
      State.rooms_setClient, State.rooms_setRoom, State.rooms_setRoom, if_pos rfl]
    split_ifs
    · rfl
    · rfl
  have hopen : ∀ x, (openRoom ri target r).clients x =
      if x = target then { r.clients target with room := some ri } else r.clients x := fun x => by
    rw [openRoom, State.clients_setClient, State.clients_setRoom]
  have hc : ∀ x, (enter ci ri (openRoom ri target r)).clients x =
      if x = ci then { (openRoom ri target r).clients ci with room := some ri }
      else (openRoom ri target r).clients x := fun x => by
    rw [enter, State.clients_setClient, State.clients_setRoom]
  have hfields : ∀ x, ((openRoom ri target r).clients x).inUse = (r.clients x).inUse ∧
      ((openRoom ri target r).clients x).dead = (r.clients x).dead ∧
        ((openRoom ri target r).clients x).queued = (r.clients x).queued := by
    intro x
    rw [hopen]
    split_ifs with hx
    · rw [hx]
      exact ⟨rfl, rfl, rfl⟩
    · exact ⟨rfl, rfl, rfl⟩
  refine enters_of ri (fun c => ?_) (fun c => ?_) (fun rj hne => ?_) ?_ fun c hr hi hne => ?_
  · rw [hc]
    split_ifs with hx
    · rw [hx]
      exact hfields ci
    · exact hfields c
  · rw [hc]
    split_ifs
    · exact .inl rfl
    · rw [hopen]
      split_ifs
      · exact .inl rfl
      · exact .inr rfl
  · rw [hroom, if_neg hne]
  · rw [hroom, if_pos rfl]
  · -- The first member is the host.
    exfalso
    rw [hc, if_neg hne, hopen] at hr
    split_ifs at hr with hx
    · rw [State.members, hroom, if_pos rfl, hx] at hi
      exact hi (List.idxOf_cons_self ..)
    · have := (h.mem ri (Set.notMem_empty ri) c).2 hr
      rw [h.unused ri hu] at this
      cases this

theorem mild_joined (hauto : S.autoGo = 0) (h : Seats S ∅ r) : Mild r (joined S ri r) := by
  have hcast : Leaves S ∅ r (roomBroadcast S (drop S) ri r) :=
    leaves_announce (leaves_drop hS.pair) ri _ h
  have hpub : Mild (roomBroadcast S (drop S) ri r) (roomBroadcast S (drop S) ri r).publish :=
    .of_same (fun _ => ⟨rfl, rfl, rfl, rfl⟩) rfl
  rw [joined, hauto]
  exact (hcast.mild h (calm_roomBroadcast (calm_drop hp) ri r)).trans hpub

/-- A JOIN puts its client into a room, or nothing begins. -/
theorem findTarget_cases (hauto : S.autoGo = 0) {payload : List ℕ} (h : Seats S ∅ r)
    (hn : (r.clients ci).name ≠ []) (hr : (r.clients ci).room = none) :
    (joins S r ci payload = true → Enters ci r (findTarget S ci payload r)) ∧
      (joins S r ci payload = false → Mild r (findTarget S ci payload r)) := by
  have hlist : Mild r (onList S ci r) := mild_onList hS hp h
  have hno : Mild r (onList S ci r) → (joins S r ci payload = true → Enters ci r (onList S ci r)) ∧
      (joins S r ci payload = false → Mild r (onList S ci r)) :=
    fun hm => ⟨fun _ => hm.enters ci, fun _ => hm⟩
  rw [findTarget]
  split_ifs with hlong
  · exact hno hlist
  cases hf : r.nameFind (joinName S payload) with
  | none => exact hno hlist
  | some target =>
    dsimp only
    rw [joinTarget_rooms S hp]
    split_ifs with hself
    · exact hno hlist
    have hlong' : (S.ctable && decide (8 < (rstrip payload).length)) = false := by
      rw [Bool.and_eq_false_iff, decide_eq_false_iff_not]
      by_cases hct : S.ctable = true
      · exact .inr fun h8 => hlong ⟨hct, h8⟩
      · exact .inl (Bool.not_eq_true _ ▸ hct)
    obtain ⟨hne, hname⟩ := not_or.1 hself
    have hjoins : joins S r ci payload = match (r.clients target).room with
        | some ri => !shut S r ri
        | none => (roomAlloc S r).isSome := by
      rw [joins, hf, hlong', bne_iff_ne.2 hn, hr]
      dsimp only
      rw [bne_iff_ne.2 hne, bne_iff_ne.2 hname]
      rfl
    rw [hjoins]
    cases htr : (r.clients target).room with
    | some ri =>
      dsimp only
      cases hshut : shut S r ri with
      | true =>
        rw [if_pos rfl]
        exact ⟨fun _ => hlist.enters ci, fun _ => hlist⟩
      | false =>
        rw [if_neg Bool.false_ne_true]
        refine ⟨fun _ => ?_, fun hj => by cases hj⟩
        have hin := (h.mem ri (Set.notMem_empty ri) target).2 htr
        have hfull := hshut
        rw [shut, Bool.or_eq_false_iff, decide_eq_false_iff_not, not_le] at hfull
        have hseats := stays_enter h hr (List.ne_nil_of_mem hin) hfull.2
        exact (enters_enter h htr hshut).trans (mild_joined hS hp hauto hseats.1)
    | none =>
      dsimp only
      cases hri : roomAlloc S r with
      | none =>
        dsimp only
        have hbad : Mild r r.bad := .of_same (fun _ => ⟨rfl, rfl, rfl, rfl⟩) rfl
        have hall : Mild r (onList S ci r.bad) :=
          hbad.trans (mild_onList hS hp (h.of_rooms (fun _ => rfl) rfl))
        exact ⟨fun _ => hall.enters ci, fun _ => hall⟩
      | some ri =>
        dsimp only
        refine ⟨fun _ => ?_, fun hj => by cases hj⟩
        have hu : (r.rooms ri).used = false := by
          have := List.find?_some hri
          simpa using this
        have hseats := stays_open hS h hne hr htr hu
          (List.mem_range.1 (List.mem_of_find?_eq_some hri))
        exact (enters_open h hu).trans (mild_joined hS hp hauto hseats.1)

theorem onJoin_cases (hauto : S.autoGo = 0) {payload : List ℕ} (h : Seats S ∅ r) :
    (joins S r ci payload = true → Enters ci r (onJoin S ci payload r)) ∧
      (joins S r ci payload = false → Mild r (onJoin S ci payload r)) := by
  have hno : ∀ {r' : State}, Mild r r' → (joins S r ci payload = true → Enters ci r r') ∧
      (joins S r ci payload = false → Mild r r') := fun hm => ⟨fun _ => hm.enters ci, fun _ => hm⟩
  have hsnip : Mild r r.snip := .of_same (fun _ => ⟨rfl, rfl, rfl, rfl⟩) rfl
  rw [onJoin]
  split_ifs with hn hr
  · exact hno (mild_drop hS hp h)
  · exact hno (.refl r)
  · have hseats : Seats S ∅ r.snip := h.of_rooms (fun _ => rfl) rfl
    have hcases : (joins S r.snip ci payload = true → Enters ci r.snip (findTarget S ci payload r.snip)) ∧
        (joins S r.snip ci payload = false → Mild r.snip (findTarget S ci payload r.snip)) :=
      findTarget_cases hS hp hauto hseats hn (not_not.1 hr)
    obtain ⟨hyes, hmild⟩ := hcases
    refine ⟨fun hj => ?_, fun hj => hsnip.trans (hmild hj)⟩
    have henter := hyes hj
    exact ⟨henter.live, henter.playing, henter.guest, henter.more⟩
  · exact findTarget_cases hS hp hauto h hn (not_not.1 hr)

/-- A GO of the host starts the room, or nothing happens. -/
theorem onGo_cases (h : Seats S ∅ r) :
    (goes S r ci = true → ∃ ri, (∀ c ∈ r.members ri, c = ci ∨ Guest r c) ∧ ci ∈ r.members ri ∧
      Begins ri r (onGo S ci r)) ∧ (goes S r ci = false → onGo S ci r = r) := by
  rw [onGo, goes]
  cases hr : (r.clients ci).room with
  | none => exact ⟨fun hg => absurd hg Bool.false_ne_true, fun _ => rfl⟩
  | some ri =>
    dsimp only
    by_cases h1 : (r.rooms ri).started = true ∨ (r.members ri).idxOf ci ≠ 0
    · rw [if_pos h1]
      refine ⟨fun hg => ?_, fun _ => rfl⟩
      rw [Bool.and_eq_true, Bool.and_eq_true, Bool.and_eq_true, Bool.not_eq_true', beq_iff_eq] at hg
      obtain hst | hi := h1
      · rw [hst] at hg
        cases hg.1.1.1
      · exact absurd hg.1.1.2 hi
    rw [if_neg h1]
    obtain ⟨hst, hi⟩ := not_or.1 h1
    rw [not_not] at hi
    by_cases h2 : (r.members ri).length < 2 ∨ S.maxSeats < (r.members ri).length
    · rw [if_pos h2]
      refine ⟨fun hg => ?_, fun _ => rfl⟩
      rw [Bool.and_eq_true, Bool.and_eq_true, decide_eq_true_eq, decide_eq_true_eq] at hg
      omega
    · rw [if_neg h2]
      refine ⟨fun _ => ⟨ri, fun c hc => ?_, ?_, begins_startRoom hS hp h⟩, fun hg => ?_⟩
      · by_cases hcc : c = ci
        · exact .inl hcc
        · refine .inr ⟨ri, (h.mem ri (Set.notMem_empty ri) c).1 hc, Bool.not_eq_true _ ▸ hst, fun h0 => ?_⟩
          exact hcc ((List.idxOf_inj hc).1 (h0.trans hi.symm))
      · exact (h.mem ri (Set.notMem_empty ri) ci).2 hr
      · rw [Bool.not_eq_true] at hst
        rw [hst, hi, decide_eq_true (by omega), decide_eq_true (by omega)] at hg
        cases hg

/-- Nothing begins for a frame that is neither JOIN nor GO. -/
theorem mild_handle {m : Msg} (hj : m.type ≠ tJoin) (hg : m.type ≠ tGo) (h : Seats S ∅ r) :
    Mild r (handle S ci m r) := by
  rw [handle_rooms S hp]
  split_ifs with hrel
  · exact mild_relay hS hp hrel h
  · rw [onHello]
    dsimp only
    split_ifs
    · exact mild_drop hS hp h
    · exact mild_drop hS hp h
    · exact mild_takeName hS hp _ h
    · exact mild_drop hS hp h
  · exact mild_onList hS hp h
  · exact mild_drop hS hp h
  · exact mild_sendRaw hS hp (show tPong ≠ tStart by decide) none h
  · exact mild_drop hS hp h

end handlers

end IntvNetplay.Relay
