import IntvNetplay.Relay.Server

/-!
# What every function of the relay keeps

The functions touch queues, sockets and the record in a few ways only.  A relation between states that
these few respect (`Closed`) holds between the states before and after every function.
-/

namespace IntvNetplay.Relay

/-- The frames the relay makes itself. -/
inductive Built (S : Setup) : Msg → Prop
  | lobby (r : State) (ci : ℕ) : Built S (lobbyMsg S r ci)
  | room (r : State) (ri : ℕ) : Built S (roomMsg r ri)
  | gone : Built S goneMsg
  | left (seat : ℕ) (name : List ℕ) : Built S (leftMsg seat name)
  | leftPair (h : S.proto1 = true) : Built S ⟨tPeerLeft, []⟩
  | start (r : State) (ri seed delay seat : ℕ) : Built S (startMsg r ri seed delay seat)
  | startPair (h : S.proto1 = true) (role seed : ℕ) (name : List ℕ) : Built S
      ⟨tStart, role :: seed % 256 :: seed / 256 :: S.delay % 256 :: padName name⟩
  | pong : Built S ⟨tPong, []⟩

/-- What a client has of its connection. -/
def Client.io (c : Client) : List ℕ × List Queued × List ℕ × ℕ := (c.tx, c.queued, c.written, c.conn)

/-- A change of neither queues nor sockets nor the record. -/
structure Quiet (r r' : State) : Prop where
  io : ∀ c, (r'.clients c).io = (r.clients c).io
  heard : r'.heard = r.heard
  conns : r'.conns = r.conns
  failed : r'.failed = r.failed
  torn : r'.torn = r.torn
  robbed : r'.robbed = r.robbed
  cut : r'.cut = r.cut

namespace Quiet

variable {r r' r'' : State}

theorem refl (r : State) : Quiet r r := ⟨fun _ => rfl, rfl, rfl, rfl, rfl, rfl, rfl⟩

theorem trans (h : Quiet r r') (h' : Quiet r' r'') : Quiet r r'' :=
  ⟨fun c => (h'.io c).trans (h.io c), h'.heard.trans h.heard, h'.conns.trans h.conns,
    h'.failed.trans h.failed, h'.torn.trans h.torn, h'.robbed.trans h.robbed, h'.cut.trans h.cut⟩

theorem ite {p : Prop} [Decidable p] {r₁ r₂ : State} (h₁ : Quiet r r₁) (h₂ : Quiet r r₂) :
    Quiet r (if p then r₁ else r₂) := by
  split_ifs
  · exact h₁
  · exact h₂

theorem setClient {ci : ℕ} {c : Client} (h : Quiet r r') (hc : c.io = (r'.clients ci).io) :
    Quiet r (r'.setClient ci c) := by
  refine h.trans ⟨fun x => ?_, rfl, rfl, rfl, rfl, rfl, rfl⟩
  rw [State.clients_setClient]
  split_ifs with hx
  · rw [hx, hc]
  · rfl

theorem kill (h : Quiet r r') (ci : ℕ) : Quiet r (r'.kill ci) := h.setClient rfl

theorem setName (h : Quiet r r') (ci : ℕ) (name : List ℕ) :
    Quiet r (r'.setClient ci { r'.clients ci with name := name }) := h.setClient rfl

theorem seat (h : Quiet r r') (ci : ℕ) (x : Option ℕ) :
    Quiet r (r'.setClient ci { r'.clients ci with room := x }) := h.setClient rfl

theorem setRoom (h : Quiet r r') (ri : ℕ) (x : Room) : Quiet r (r'.setRoom ri x) :=
  h.trans ⟨fun _ => rfl, rfl, rfl, rfl, rfl, rfl, rfl⟩

theorem publish (h : Quiet r r') : Quiet r r'.publish := h.trans ⟨fun _ => rfl, rfl, rfl, rfl, rfl, rfl, rfl⟩

theorem unname (h : Quiet r r') (ci : ℕ) : Quiet r (r'.unname ci) := by
  unfold State.unname
  exact ite (h.trans ⟨fun _ => rfl, rfl, rfl, rfl, rfl, rfl, rfl⟩) h

theorem free (h : Quiet r r') (ci : ℕ) : Quiet r (r'.free ci) := by
  have hb : Quiet r (if (r'.clients ci).inUse then r' else r'.bad) :=
    ite h (h.trans ⟨fun _ => rfl, rfl, rfl, rfl, rfl, rfl, rfl⟩)
  have hc : (if (r'.clients ci).inUse then r' else r'.bad).clients ci = r'.clients ci := by
    split_ifs
    · rfl
    · rfl
  have hset := hb.setClient (c := { r'.clients ci with inUse := false }) (by rw [hc]; rfl)
  exact hset.trans ⟨fun _ => rfl, rfl, rfl, rfl, rfl, rfl, rfl⟩

theorem unroom (h : Quiet r r') (ri : ℕ) : Quiet r (r'.unroom ri) := by
  refine h.trans ⟨fun c => ?_, rfl, rfl, rfl, rfl, rfl, rfl⟩
  rw [State.unroom]
  dsimp only
  split_ifs
  · rfl
  · rfl

theorem nameSet (S : Setup) (h : Quiet r r') (name : List ℕ) (ci : ℕ) :
    Quiet r (nameSet S name ci r') := by
  unfold Relay.nameSet
  exact ite (h.trans ⟨fun _ => rfl, rfl, rfl, rfl, rfl, rfl, rfl⟩)
    (ite (h.trans ⟨fun _ => rfl, rfl, rfl, rfl, rfl, rfl, rfl⟩)
      (h.trans ⟨fun _ => rfl, rfl, rfl, rfl, rfl, rfl, rfl⟩))

end Quiet

/-- A relation that the ways to touch queues and sockets respect, forwarding apart. -/
structure Closed (S : Setup) (R : State → State → Prop) : Prop where
  trans : ∀ {r r' r''}, R r r' → R r' r'' → R r r''
  quiet : ∀ {r r'}, Quiet r r' → R r r'
  queue : ∀ r ci m, Built S m → R r (r.queue ci m none)
  wrote : ∀ r ci k, R r (r.wrote ci k)
  fail : ∀ r, R r r.fail
  tear : ∀ r, R r r.tear
  rob : ∀ r, R r r.rob
  snip : ∀ r, R r r.snip

/-- A frame goes on the record. -/
def State.hear (r : State) (e : Heard) : State := { r with heard := e :: r.heard }

/-- A relation that forwarding respects too. -/
structure Passing (S : Setup) (R : State → State → Prop) : Prop extends Closed S R where
  heard : ∀ {r r'}, R r r' → r.heard <:+ r'.heard
  hear : ∀ r e, relayed e.msg.type = true → R r (r.hear e)
  pass : ∀ r ci, ∀ e ∈ r.heard, R r (r.queue ci e.msg (some e.src))

namespace Closed

variable {S : Setup} {R : State → State → Prop} (hR : Closed S R)
include hR

theorem refl (r : State) : R r r := hR.quiet (.refl r)

theorem publish (r : State) : R r r.publish := hR.quiet (Quiet.refl r).publish

theorem bad (r : State) : R r r.bad := hR.quiet ⟨fun _ => rfl, rfl, rfl, rfl, rfl, rfl, rfl⟩

theorem called (r : State) : R r r.called := hR.quiet ⟨fun _ => rfl, rfl, rfl, rfl, rfl, rfl, rfl⟩

section nested

variable {D : State → ℕ → State} (hD : ∀ r ci, R r (D r ci))
include hD

theorem flushLoop (ci n : ℕ) (r : State) : R r (flushLoop S D ci n r) := by
  induction n generalizing r with
  | zero => exact hR.refl r
  | succ n ih =>
    have hdrop := hR.trans (hR.trans (hR.called r) (hR.fail _)) (hD r.called.fail ci)
    unfold Relay.flushLoop
    split
    · exact hR.refl r
    · split
      · exact hR.trans (hR.trans (hR.called r) (hR.wrote _ ci _)) (ih _)
      · exact hR.called r
      · exact hdrop
      · exact hdrop

theorem sendRaw {ci : ℕ} {m : Msg} {src : Option ℕ} {r : State} (hq : R r (r.queue ci m src)) :
    R r (sendRaw S D ci m src r) := by
  unfold Relay.sendRaw
  split_ifs
  · exact hR.refl r
  · exact hR.trans (hR.fail r) (hD _ ci)
  · exact hR.trans hq (hR.flushLoop hD ci _ _)

theorem sendAll {m : Msg} (hm : Built S m) (l : List ℕ) (r : State) : R r (sendAll S D m l r) := by
  induction l generalizing r with
  | nil => exact hR.refl r
  | cons c l ih => exact hR.trans (hR.sendRaw hD (hR.queue r c m hm)) (ih _)

theorem announceTo (l : List (ℕ × Msg)) (hl : ∀ e ∈ l, Built S e.2) (r : State) :
    R r (announceTo S D l r) := by
  induction l generalizing r with
  | nil => exact hR.refl r
  | cons e l ih =>
    obtain ⟨c, m⟩ := e
    have hs := hR.sendRaw hD (hR.queue r c m (hl _ List.mem_cons_self))
    simp only [Relay.announceTo]
    refine hR.trans ?_ (ih (fun e he => hl e (List.mem_cons_of_mem _ he)) _)
    split
    · exact hR.trans hs (hR.tear _)
    · exact hs

theorem announceLive (ri : ℕ) {m : ℕ → Msg} (hm : ∀ i, Built S (m i)) (n i : ℕ) (r : State) :
    R r (announceLive S D ri m n i r) := by
  induction n generalizing r i with
  | zero => exact hR.refl r
  | succ n ih =>
    unfold Relay.announceLive
    split
    · exact hR.refl r
    · exact hR.trans (hR.sendRaw hD (hR.queue r _ _ (hm i))) (ih _ _)

theorem announce (ri : ℕ) {m : ℕ → Msg} (hm : ∀ i, Built S (m i)) (r : State) :
    R r (announce S D ri m r) := by
  unfold Relay.announce
  split_ifs
  · exact hR.announceLive hD ri hm _ _ r
  · refine hR.announceTo hD _ (fun e he => ?_) r
    rw [List.mem_mapIdx] at he
    obtain ⟨i, -, rfl⟩ := he
    exact hm i

theorem roomBroadcast (ri : ℕ) (r : State) : R r (roomBroadcast S D ri r) :=
  hR.announce hD ri (fun _ => .room r ri) r

theorem dissolve (ri : ℕ) (notify : List ℕ) (r : State) : R r (dissolve S D ri notify r) := by
  have hs := hR.trans (hR.quiet ((Quiet.refl r).unroom ri)) (hR.sendAll hD .gone notify _)
  exact hR.trans hs (hR.quiet ((Quiet.refl _).setRoom ri _))

theorem dropPair (hp : S.proto1 = true) (ri : ℕ) (r : State) : R r (dropPair S D ri r) := by
  have hclose : Quiet r (r.close ri) := (Quiet.refl r).setRoom ri _
  unfold Relay.dropPair
  split
  · exact hR.quiet hclose
  · exact hR.trans (hR.quiet (hclose.seat _ none)) (hR.sendRaw hD (hR.queue _ _ _ (.leftPair hp)))

theorem dropSeat (ci ri seat : ℕ) (r : State) : R r (dropSeat S D ci ri seat r) := by
  unfold Relay.dropSeat
  split_ifs
  · exact hR.trans (hR.dissolve hD ri [] r) (hR.sendAll hD (.left _ _) _ _)
  · exact hR.dissolve hD ri _ r
  · exact hR.dissolve hD ri _ r
  · exact hR.roomBroadcast hD ri r

theorem dropBody (r : State) (ci : ℕ) : R r (dropBody S D r ci) := by
  have hgone : Quiet r ((r.kill ci).unname ci) := ((Quiet.refl r).kill ci).unname ci
  have hleave : ∀ ri, Quiet r (((r.kill ci).unname ci).leave ci ri) := fun ri =>
    (hgone.seat ci none).setRoom ri _
  have hfree : ∀ r' : State, R r' (r'.free ci) := fun r' => hR.quiet ((Quiet.refl r').free ci)
  have hpub : ∀ r' : State, R r' (r'.publish.free ci) := fun r' =>
    hR.quiet ((Quiet.refl r').publish.free ci)
  unfold Relay.dropBody
  split_ifs with hdead hp
  · exact hR.refl r
  · dsimp only
    split
    · exact hR.quiet (hgone.free ci)
    · exact hR.trans (hR.trans (hR.quiet (hleave _)) (hR.dropPair hD hp _ _)) (hfree _)
  · dsimp only
    split
    · exact hR.quiet (hgone.free ci)
    · exact hR.trans (hR.trans (hR.quiet (hleave _)) (hR.dropSeat hD _ _ _ _)) (hpub _)

end nested

theorem dropN (k : ℕ) (r : State) (ci : ℕ) : R r (dropN S k r ci) := by
  induction k generalizing r ci with
  | zero => exact hR.quiet ⟨fun _ => rfl, rfl, rfl, rfl, rfl, rfl, rfl⟩
  | succ k ih => exact hR.dropBody ih r ci

theorem drop (r : State) (ci : ℕ) : R r (drop S r ci) := hR.dropN maxClients r ci

/-! ### The protocol -/

theorem onList (ci : ℕ) (r : State) : R r (onList S ci r) :=
  hR.sendRaw hR.drop (hR.queue _ _ _ (.lobby r ci))

theorem evict (ci : ℕ) (name : List ℕ) (r : State) : R r (evict S ci name r) := by
  unfold Relay.evict
  split
  · split_ifs
    · exact hR.refl r
    · exact hR.trans (hR.rob r) (hR.drop _ _)
    · exact hR.drop _ _
  · exact hR.refl r

theorem rename (ci : ℕ) (name : List ℕ) (r : State) : R r (rename S ci name r) := by
  have hdel : Quiet r (if (r.clients ci).name ≠ [] ∧ (r.clients ci).name ≠ name ∧
      r.nameFind (r.clients ci).name = some ci then r.nameDel (r.clients ci).name else r) :=
    .ite ⟨fun _ => rfl, rfl, rfl, rfl, rfl, rfl, rfl⟩ (.refl r)
  exact hR.quiet ((hdel.setName ci name).nameSet S name ci).publish

theorem takeName (ci : ℕ) (name : List ℕ) (r : State) : R r (takeName S ci name r) := by
  have h := hR.evict ci name r
  unfold Relay.takeName
  dsimp only
  split_ifs
  · exact h
  · exact hR.trans h (hR.trans (hR.rename ci name _) (hR.onList ci _))

theorem onHello (ci : ℕ) (payload : List ℕ) (r : State) : R r (onHello S ci payload r) := by
  unfold Relay.onHello
  dsimp only
  split_ifs
  · exact hR.drop r ci
  · exact hR.drop r ci
  · exact hR.takeName ci _ r
  · exact hR.drop r ci

theorem startRoom (ri : ℕ) (r : State) : R r (startRoom S ri r) := by
  have hseed : Quiet r { r with seeds := r.seeds + 1 } := ⟨fun _ => rfl, rfl, rfl, rfl, rfl, rfl, rfl⟩
  have hsend : ∀ r' : State, R r' (Relay.announce S (Relay.drop S) ri
      (fun seat => startMsg r' ri (S.seed r.seeds) S.delay seat) r') := fun r' =>
    hR.announce hR.drop ri (fun seat => .start r' ri _ _ seat) r'
  exact hR.trans (hR.trans (hR.quiet (hseed.setRoom ri _)) (hsend _)) (hR.publish _)

theorem startPair (hp : S.proto1 = true) (host guest : ℕ) (r : State) :
    R r (startPair S host guest r) := by
  have hseed : Quiet r { r with seeds := r.seeds + 1 } := ⟨fun _ => rfl, rfl, rfl, rfl, rfl, rfl, rfl⟩
  unfold Relay.startPair
  dsimp only
  split
  · exact hR.trans (hR.trans (hR.quiet hseed) (hR.bad _)) (hR.onList _ _)
  · refine hR.trans (hR.trans (hR.quiet ?_) (hR.sendRaw hR.drop (hR.queue _ _ _ ?_)))
      (hR.sendRaw hR.drop (hR.queue _ _ _ ?_))
    · exact ((hseed.setRoom _ _).seat _ _).seat _ _
    · exact .startPair hp _ _ _
    · exact .startPair hp _ _ _

theorem joined (ri : ℕ) (r : State) : R r (joined S ri r) := by
  have h := hR.trans (hR.roomBroadcast hR.drop ri r) (hR.publish _)
  unfold Relay.joined
  dsimp only
  split_ifs
  · exact hR.trans h (hR.startRoom ri _)
  · exact h

theorem joinTarget (ci target : ℕ) (r : State) : R r (joinTarget S ci target r) := by
  unfold Relay.joinTarget
  split_ifs with _ hp
  · exact hR.onList ci r
  · exact hR.startPair hp _ _ r
  · exact hR.onList ci r
  · split
    · split_ifs
      · exact hR.onList ci r
      · exact hR.trans (hR.quiet (((Quiet.refl r).setRoom _ _).seat _ _)) (hR.joined _ _)
    · split
      · exact hR.trans (hR.bad r) (hR.onList ci _)
      · refine hR.trans (hR.quiet ?_) (hR.joined _ _)
        exact ((((Quiet.refl r).setRoom _ _).seat _ _).setRoom _ _).seat _ _

theorem findTarget (ci : ℕ) (payload : List ℕ) (r : State) :
    R r (findTarget S ci payload r) := by
  unfold Relay.findTarget
  split_ifs
  · exact hR.onList ci r
  · split
    · exact hR.onList ci r
    · exact hR.joinTarget ci _ r

theorem onJoin (ci : ℕ) (payload : List ℕ) (r : State) : R r (onJoin S ci payload r) := by
  unfold Relay.onJoin
  split_ifs
  · exact hR.drop r ci
  · exact hR.refl r
  · exact hR.trans (hR.snip r) (hR.findTarget ci payload _)
  · exact hR.findTarget ci payload r

theorem onGo (ci : ℕ) (r : State) : R r (onGo S ci r) := by
  unfold Relay.onGo
  split
  · exact hR.refl r
  · split_ifs
    · exact hR.refl r
    · exact hR.refl r
    · exact hR.startRoom _ r

/-- `handle` where nothing is forwarded. -/
theorem handle (ci : ℕ) {m : Msg} (hm : relayed m.type = false) (r : State) :
    R r (handle S ci m r) := by
  unfold Relay.handle
  rw [hm, if_neg Bool.false_ne_true]
  split_ifs
  · exact hR.onHello ci _ r
  · exact hR.onList ci r
  · exact hR.onJoin ci _ r
  · exact hR.drop r ci
  · exact hR.onGo ci r
  · exact hR.drop r ci
  · exact hR.sendRaw hR.drop (hR.queue _ _ _ .pong)
  · exact hR.drop r ci

theorem sweep (now : ℕ) (r : State) : R r (sweep S now r) := by
  unfold Relay.sweep
  generalize span S r = l
  induction l generalizing r with
  | nil => exact hR.refl r
  | cons i l ih =>
    rw [List.foldl_cons]
    refine hR.trans ?_ (ih _)
    dsimp only
    split_ifs
    · exact hR.drop r i
    · exact hR.refl r

end Closed

namespace Passing

variable {S : Setup} {R : State → State → Prop} (hR : Passing S R)
include hR

theorem fanTo (ci : ℕ) (e : Heard) (l : List ℕ) (r : State) (he : e ∈ r.heard) :
    R r (fanTo S ci e.msg e.src l r) := by
  induction l generalizing r with
  | nil => exact hR.toClosed.refl r
  | cons c l ih =>
    have hs : R r (if c = ci then r else Relay.sendRaw S (Relay.drop S) c e.msg (some e.src) r) := by
      split_ifs
      · exact hR.toClosed.refl r
      · exact hR.toClosed.sendRaw hR.toClosed.drop (hR.pass r c e he)
    exact hR.trans hs (ih _ ((hR.heard hs).subset he))

theorem fanLive (ci ri : ℕ) (e : Heard) (n i : ℕ) (r : State) (he : e ∈ r.heard) :
    R r (fanLive S ci ri e.msg e.src n i r) := by
  induction n generalizing r i with
  | zero => exact hR.toClosed.refl r
  | succ n ih =>
    unfold Relay.fanLive
    split
    · exact hR.toClosed.refl r
    · rename_i c _
      have hs : R r (if c = ci then r
          else Relay.sendRaw S (Relay.drop S) c e.msg (some e.src) r) := by
        split_ifs
        · exact hR.toClosed.refl r
        · exact hR.toClosed.sendRaw hR.toClosed.drop (hR.pass r c e he)
      exact hR.trans hs (ih _ _ ((hR.heard hs).subset he))

theorem relay (ci : ℕ) (m : Msg) (hm : relayed m.type = true) (r : State) :
    R r (relay S ci m r) := by
  unfold Relay.relay
  split
  · exact hR.toClosed.refl r
  · rename_i ri _
    split_ifs
    · exact hR.trans (hR.hear r ⟨(r.clients ci).conn, m, _⟩ hm)
        (hR.fanLive ci ri ⟨(r.clients ci).conn, m, _⟩ _ _ _ List.mem_cons_self)
    · exact hR.trans (hR.hear r ⟨(r.clients ci).conn, m, _⟩ hm)
        (hR.fanTo ci ⟨(r.clients ci).conn, m, _⟩ _ _ List.mem_cons_self)
    · exact hR.toClosed.refl r

theorem handle (ci : ℕ) (m : Msg) (r : State) : R r (handle S ci m r) := by
  by_cases hm : relayed m.type = true
  · unfold Relay.handle
    rw [if_pos hm]
    exact hR.relay ci m hm r
  · exact hR.toClosed.handle ci (by simpa using hm) r

/-! ### The byte stream -/

theorem drain (ci n : ℕ) (r : State) (b : List ℕ) : R r (drain S ci n r b).1 := by
  induction n generalizing r b with
  | zero => exact hR.toClosed.refl r
  | succ n ih =>
    cases b with
    | nil => exact hR.toClosed.refl r
    | cons len rest =>
      unfold Relay.drain
      dsimp only
      split_ifs
      · exact hR.toClosed.drop r ci
      · exact hR.toClosed.refl r
      · exact hR.handle ci _ r
      · exact hR.trans (hR.handle ci _ r) (ih _ _)

theorem feedBuf (ci n : ℕ) (data : List ℕ) (r : State) (b : List ℕ) :
    R r (feedBuf S ci n data r b).1 := by
  induction n generalizing r b data with
  | zero => exact hR.toClosed.refl r
  | succ n ih =>
    unfold Relay.feedBuf
    split_ifs
    · exact hR.toClosed.refl r
    · exact hR.toClosed.drop r ci
    · dsimp only
      split_ifs
      · exact hR.drain ci _ r _
      · exact hR.trans (hR.drain ci _ r _) (ih _ _ _)

theorem feed (ci : ℕ) (data : List ℕ) (r : State) (b : List ℕ) : R r (feed S ci data r b).1 := by
  unfold Relay.feed
  split_ifs
  · exact hR.feedBuf ci _ data r b
  · exact hR.drain ci _ r _

/-- Every event but a new connection. -/
theorem step (haccept : ∀ ip now r, R r (accept S ip now r)) (e : Event) (v : Server) :
    R v.st (step S e v).st := by
  cases e with
  | accept ip now => exact haccept ip now v.st
  | recv ci data =>
    unfold Relay.step
    dsimp only
    split_ifs
    · exact hR.feed ci data v.st _
    · exact hR.toClosed.refl _
  | closed ci =>
    unfold Relay.step
    dsimp only
    split_ifs
    · exact hR.toClosed.drop v.st ci
    · exact hR.toClosed.refl _
  | writable ci =>
    unfold Relay.step
    dsimp only
    split_ifs
    · exact hR.toClosed.flushLoop hR.toClosed.drop ci _ v.st
    · exact hR.toClosed.refl _
  | sweep now =>
    unfold Relay.step
    dsimp only
    exact hR.toClosed.sweep now v.st

theorem foldl (haccept : ∀ ip now r, R r (accept S ip now r)) (es : List Event) (v : Server) :
    R v.st (es.foldl (fun v e => Relay.step S e v) v).st := by
  induction es generalizing v with
  | nil => exact hR.toClosed.refl _
  | cons e es ih => exact hR.trans (hR.step haccept e v) (ih _)

end Passing

end IntvNetplay.Relay
