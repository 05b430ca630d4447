import IntvNetplay.Machine.Sessions
import IntvNetplay.Relay.Starts

/-!
# One match and the next

The relay between clients that keep to the protocol, with a channel each way for every client.  A relayed
frame does not say which match it is of.  What keeps the frames of a match out of the next one is the
order of the channel: the JOIN or the GO of the next match comes behind them.
-/

namespace IntvNetplay.Relay

open Machine

/-- The frames sent to a client, oldest first. -/
def sent (c : Client) : List Msg := (c.queued.map Queued.msg).reverse

def isStart (m : Msg) : Bool := m.type == tStart

def isLeft (m : Msg) : Bool := m.type == tPeerLeft

/-- A client that has received these frames is in a match. -/
def seated (l : List Msg) : Bool := isOpen isStart isLeft l

/-- How many matches these frames put a client into. -/
def rounds (l : List Msg) : ℕ := openings isStart l

/-- JOIN or GO. -/
def Request (m : Msg) : Prop := m.type = tJoin ∨ m.type = tGo

def Work (m : Msg) : Prop := relayed m.type = true

/-- A client in a started room. -/
def inRoom (r : State) (c : ℕ) : Bool :=
  match (r.clients c).room with
  | none => false
  | some ri => (r.rooms ri).started

theorem inRoom_iff {r : State} {c : ℕ} : inRoom r c = true ↔ Playing r c := by
  rw [inRoom, Playing]
  cases (r.clients c).room with
  | none =>
    refine ⟨fun h => absurd h Bool.false_ne_true, ?_⟩
    rintro ⟨ri, h, _⟩
    cases h
  | some ri =>
    refine ⟨fun h => ⟨ri, rfl, h⟩, ?_⟩
    rintro ⟨rj, h, hs⟩
    cases h
    exact hs

/-- The relay and its channels. -/
structure Net where
  st : State
  /-- What a client sent and the relay has not handled yet, each frame with the number of frames that its
  sender had received. -/
  up : ℕ → List (Msg × ℕ)
  /-- How many of the frames sent to it a client has received. -/
  got : ℕ → ℕ
  /-- A JOIN or a GO was acted on whose sender did not know of every match it had been put into. -/
  stale : Bool
  /-- A frame was forwarded in a match whose START its sender had not received when it sent it. -/
  leaked : Bool

def Net.init : Net := ⟨.init, fun _ => [], fun _ => 0, false, false⟩

/-- What a client had received when it had received `t` frames. -/
def Net.seen (n : Net) (ci t : ℕ) : List Msg := (sent (n.st.clients ci)).take t

/-- Had a client by then received every START that the relay sent it? -/
def Net.knows (n : Net) (ci t : ℕ) : Bool :=
  rounds (n.seen ci t) == rounds (sent (n.st.clients ci))

/-- The relay handles a frame. -/
def Net.handle (S : Setup) (n : Net) (ci : ℕ) (m : Msg) (t : ℕ) (rest : List (Msg × ℕ)) : Net where
  st := Relay.handle S ci m n.st
  up := Function.update n.up ci rest
  got := n.got
  stale := n.stale || acts S n.st ci m && !n.knows ci t
  leaked := n.leaked || relayed m.type && inRoom n.st ci && !n.knows ci t

/-- What the clients, the channels and the relay do. -/
inductive Act where
  /-- A client sends a frame. -/
  | send (ci : ℕ) (m : Msg)
  /-- A client receives its next frame. -/
  | receive (ci : ℕ)
  /-- The relay handles the next frame of a client. -/
  | handle (ci : ℕ)
  | accept (ip now : ℕ)
  | closed (ci : ℕ)
  | writable (ci : ℕ)
  | sweep (now : ℕ)

/-- A client sends relayed frames from START to PEER_LEFT, and JOIN and GO otherwise. -/
def Net.maySend (n : Net) (ci : ℕ) (m : Msg) : Bool :=
  if relayed m.type then seated (n.seen ci (n.got ci))
  else !((m.type == tJoin || m.type == tGo) && seated (n.seen ci (n.got ci)))

/-- One step; what cannot be done now does nothing.  A slot that is taken anew has new channels. -/
def Net.step (S : Setup) (a : Act) (n : Net) : Net :=
  match a with
  | .send ci m =>
    if n.st.Live ci ∧ n.maySend ci m then
      { n with up := Function.update n.up ci (n.up ci ++ [(m, n.got ci)]) }
    else n
  | .receive ci =>
    if n.st.Live ci ∧ n.got ci < (sent (n.st.clients ci)).length then
      { n with got := Function.update n.got ci (n.got ci + 1) }
    else n
  | .handle ci =>
    match n.up ci with
    | [] => n
    | (m, t) :: rest => if n.st.Live ci then n.handle S ci m t rest else n
  | .accept ip now => { n with
      st := Relay.accept S ip now n.st
      up := fun c => if (n.st.clients c).inUse then n.up c else []
      got := fun c => if (n.st.clients c).inUse then n.got c else 0 }
  | .closed ci => if n.st.Live ci then { n with st := drop S n.st ci } else n
  | .writable ci => if n.st.Live ci then { n with st := flush S (drop S) ci n.st } else n
  | .sweep now => { n with st := Relay.sweep S now n.st }

/-- Any interleaving. -/
def Net.run (S : Setup) (as : List Act) : Net := as.foldl (fun n a => n.step S a) .init

/-! ### The invariant -/

/-- The channels of a client that is served. -/
def Channels (n : Net) (c : ℕ) : Prop :=
  Fresh isStart isLeft Work Request (sent (n.st.clients c)) (n.up c) (n.got c) (Playing n.st c)
    (Guest n.st c)

/-- What holds of the registry and the rooms. -/
def Fair (S : Setup) (r : State) : Prop :=
  (Seats S ∅ r ∧ Exact r) ∧ (S.ctable = true → Sound S ∅ ∅ r)

theorem sent_more {c c' : Client} (h : More c c') :
    ∃ e, sent c' = sent c ++ e ∧ ∀ m ∈ e, isStart m = false := by
  obtain ⟨l, hl, hn⟩ := h
  refine ⟨(l.map Queued.msg).reverse, ?_, fun m hm => ?_⟩
  · rw [sent, hl, List.map_append, List.reverse_append]
    rfl
  · obtain ⟨q, hq, rfl⟩ := List.mem_map.1 (List.mem_reverse.1 hm)
    exact beq_eq_false_iff_ne.2 (hn q hq)

theorem sent_once {c c' : Client} (h : Once c c') :
    ∃ m e, sent c' = sent c ++ m :: e ∧ isStart m = true ∧ ∀ x ∈ e, isStart x = false := by
  obtain ⟨l, q, hq, hl, hn⟩ := h
  refine ⟨q.msg, (l.map Queued.msg).reverse, ?_, beq_iff_eq.2 hq, fun m hm => ?_⟩
  · rw [sent, hl, List.map_append, List.map_cons, List.reverse_append, List.reverse_cons,
      List.append_assoc]
    rfl
  · obtain ⟨q, hq, rfl⟩ := List.mem_map.1 (List.mem_reverse.1 hm)
    exact beq_eq_false_iff_ne.2 (hn q hq)

section steps

variable {n : Net} {r' : State} {c : ℕ} {up : List (Msg × ℕ)} {got : ℕ}

/-- A change in which no match begins and the client does not become a guest. -/
theorem Channels.mild (h : Fresh isStart isLeft Work Request (sent (n.st.clients c)) up got
      (Playing n.st c) (Guest n.st c)) (hm : Mild n.st r') :
    Fresh isStart isLeft Work Request (sent (r'.clients c)) up got (Playing r' c) (Guest r' c) := by
  obtain ⟨e, he, hfree⟩ := sent_more (hm.more c)
  rw [he]
  exact (h.more hfree).weaken (hm.playing c) (hm.guest c)

/-- The client of a JOIN that is acted on. -/
theorem Channels.enters {ci : ℕ} (h : Fresh isStart isLeft Work Request (sent (n.st.clients c)) up got
      (Playing n.st c) (Guest n.st c ∨ c = ci)) (hm : Enters ci n.st r') :
    Fresh isStart isLeft Work Request (sent (r'.clients c)) up got (Playing r' c) (Guest r' c) := by
  obtain ⟨e, he, hfree⟩ := sent_more (hm.more c)
  rw [he]
  exact (h.more hfree).weaken (hm.playing c) (hm.guest c)

/-- A member of a room that starts, and anybody else. -/
theorem Channels.begins {ri : ℕ} (hl : r'.Live c) (hm : Begins ri n.st r')
    (hgrows : ∃ l, (r'.clients c).queued = l ++ (n.st.clients c).queued)
    (h : Fresh isStart isLeft Work Request (sent (n.st.clients c)) up got (Playing n.st c)
      (Guest n.st c))
    (hidle : c ∈ n.st.members ri → Fresh isStart isLeft Work Request (sent (n.st.clients c)) up got
      (Playing n.st c) True) :
    Fresh isStart isLeft Work Request (sent (r'.clients c)) up got (Playing r' c) (Guest r' c) := by
  by_cases hc : c ∈ n.st.members ri
  · have hguest : ¬ Guest r' c := fun hg => (hm.guest c hg).2 hc
    by_cases hp : Playing r' c
    · obtain hold | ⟨-, honce⟩ := hm.playing c hl hp
      · exact absurd hc hold.2
      · obtain ⟨m, e, heq, hstart, hfree⟩ := sent_once honce
        rw [heq]
        exact ((hidle hc).opened hstart hfree).weaken (fun _ => trivial) hguest
    · -- The room is gone again.
      obtain ⟨l, hq⟩ := hgrows
      have heq : sent (r'.clients c) = sent (n.st.clients c) ++ (l.map Queued.msg).reverse := by
        rw [sent, hq, List.map_append, List.reverse_append]
        rfl
      rw [heq]
      exact (h.grow _).weaken hp hguest
  · obtain ⟨e, he, hfree⟩ := sent_more (hm.more c hc)
    rw [he]
    refine (h.more hfree).weaken (fun hp => ?_) fun hg => (hm.guest c hg).1
    obtain hold | hin := hm.playing c hl hp
    · exact hold.1
    · exact absurd hin.1 hc

end steps

/-- Queues grow. -/
theorem closed_grows (S : Setup) : Closed S fun r r' =>
    ∀ c, ∃ l, (r'.clients c).queued = l ++ (r.clients c).queued where
  trans h h' c := by
    obtain ⟨l, hl⟩ := h c
    obtain ⟨l', hl'⟩ := h' c
    exact ⟨l' ++ l, by rw [hl', hl, List.append_assoc]⟩
  quiet h c := ⟨[], congrArg (fun x => x.2.1) (h.io c)⟩
  queue r ci m _ c := by
    rw [State.queue, State.clients_setClient]
    split_ifs with hc
    · rw [hc]
      exact ⟨[⟨m, none⟩], rfl⟩
    · exact ⟨[], rfl⟩
  wrote r ci k c := by
    rw [State.wrote, State.clients_setClient]
    split_ifs with hc
    · rw [hc]
      exact ⟨[], rfl⟩
    · exact ⟨[], rfl⟩
  fail _ _ := ⟨[], rfl⟩
  tear _ _ := ⟨[], rfl⟩
  rob _ _ := ⟨[], rfl⟩
  snip _ _ := ⟨[], rfl⟩

section runs

variable {S : Setup} (hS : Program S) (hp : S.proto1 = false) (hauto : S.autoGo = 0) {n : Net}
include hS hp hauto

/-- What handling a frame does to the channels of a client, the frame being its own or another's. -/
theorem channels_handle {ci c t : ℕ} {m : Msg} {rest : List (Msg × ℕ)} (hf : Fair S n.st)
    (hl : n.st.Live ci) (hup : n.up ci = (m, t) :: rest) (hall : ∀ c, n.st.Live c → Channels n c)
    (hok : acts S n.st ci m = true → n.knows ci t = true)
    (hlc : (handle S ci m n.st).Live c) : Channels (n.handle S ci m t rest) c := by
  have hok' := hS.fit.toOk
  have hseats := hf.1.1
  -- The channels after the frame is taken, and idleness where it is a request.
  have htail : ∀ x, n.st.Live x → Fresh isStart isLeft Work Request (sent (n.st.clients x))
      (Function.update n.up ci rest x) (n.got x) (Playing n.st x) (Guest n.st x) := by
    intro x hx
    have h := hall x hx
    by_cases hxc : x = ci
    · rw [Channels, hxc, hup] at h
      rw [hxc, Function.update_self]
      exact h.tail
    · rw [Function.update_of_ne hxc]
      exact h
  have hidle : Request m → n.knows ci t = true → Fresh isStart isLeft Work Request
      (sent (n.st.clients ci)) (Function.update n.up ci rest ci) (n.got ci) (Playing n.st ci) True := by
    intro hr hk
    have h := hall ci hl
    rw [Channels, hup] at h
    rw [Function.update_self]
    exact h.asked hr (beq_iff_eq.1 hk)
  have hmild : ∀ r', r' = handle S ci m n.st → Mild n.st r' → Channels (n.handle S ci m t rest) c := by
    rintro r' rfl hm
    exact Channels.mild (htail c (hm.live c hlc)) hm
  by_cases hjoin : m.type = tJoin
  · have heq : handle S ci m n.st = onJoin S ci m.payload n.st := by
      rw [handle_rooms S hp, hjoin]
      rfl
    have hcases : (joins S n.st ci m.payload = true → Enters ci n.st (onJoin S ci m.payload n.st)) ∧
        (joins S n.st ci m.payload = false → Mild n.st (onJoin S ci m.payload n.st)) :=
      onJoin_cases hok' hp hauto hseats
    obtain ⟨hyes, hno⟩ := hcases
    cases hj : joins S n.st ci m.payload with
    | false => exact hmild _ heq.symm (hno hj)
    | true =>
      have henters := hyes hj
      have hknows : n.knows ci t = true := hok (by rw [acts, hjoin, hj]; rfl)
      rw [← heq] at henters
      refine Channels.enters ?_ henters
      by_cases hc : c = ci
      · rw [hc]
        exact (hidle (.inl hjoin) hknows).weaken id fun _ => trivial
      · exact (htail c (henters.live c hlc)).weaken id fun hg => hg.resolve_right hc
  by_cases hgo : m.type = tGo
  · have heq : handle S ci m n.st = onGo S ci n.st := by
      rw [handle_rooms S hp, hgo]
      rfl
    have hcases : (goes S n.st ci = true → ∃ ri, (∀ c ∈ n.st.members ri, c = ci ∨ Guest n.st c) ∧
        ci ∈ n.st.members ri ∧ Begins ri n.st (onGo S ci n.st)) ∧
        (goes S n.st ci = false → onGo S ci n.st = n.st) := onGo_cases hok' hp hseats
    obtain ⟨hyes, hno⟩ := hcases
    cases hg : goes S n.st ci with
    | false => exact hmild _ (heq.trans (hno hg)).symm (.refl _)
    | true =>
      obtain ⟨ri, hothers, -, hbegins⟩ := hyes hg
      have hknows : n.knows ci t = true := hok (by rw [acts, hgo, hg]; rfl)
      have hgrows := (closed_grows S).onGo ci n.st c
      rw [← heq] at hbegins hgrows
      have hold := htail c (hbegins.live c hlc)
      refine Channels.begins hlc hbegins hgrows hold fun hc => ?_
      obtain heqc | hguest := hothers c hc
      · rw [heqc]
        exact hidle (.inr hgo) hknows
      · exact hold.weaken id fun _ => hguest
  · exact hmild _ rfl (mild_handle hok' hp hjoin hgo hseats)

omit hp hauto in
theorem fair_handle {ci : ℕ} {m : Msg} (hf : Fair S n.st) (hl : n.st.Live ci) :
    Fair S (handle S ci m n.st) :=
  ((keeper_exact hS.fit hS.live hS.rechecks).handle m hf hl).1

omit hauto in
theorem mild_sweep (now : ℕ) {r : State} (hf : Fair S r) :
    Fair S (sweep S now r) ∧ Mild r (sweep S now r) := by
  have hkeep := keeper_exact hS.fit hS.live hS.rechecks
  unfold sweep
  generalize span S r = l
  induction l generalizing r with
  | nil => exact ⟨hf, .refl r⟩
  | cons i l ih =>
    rw [List.foldl_cons]
    dsimp only
    split_ifs with hi
    · obtain ⟨hf', hm⟩ := ih (hkeep.drop hf ⟨hi.1, hi.2.1⟩).1
      exact ⟨hf', (mild_drop hS.fit.toOk hp hf.1.1).trans hm⟩
    · exact ih hf

omit hS hp hauto in
/-- A new client has empty channels. -/
theorem channels_accept (ip now : ℕ) (hall : ∀ c, n.st.Live c → Channels n c) {c : ℕ}
    (hl : (accept S ip now n.st).Live c) : Channels { n with
      st := accept S ip now n.st
      up := fun c => if (n.st.clients c).inUse then n.up c else []
      got := fun c => if (n.st.clients c).inUse then n.got c else 0 } c := by
  have hrooms := rooms_accept S ip now n.st
  have hold : (accept S ip now n.st).clients c = n.st.clients c → Channels { n with
      st := accept S ip now n.st
      up := fun c => if (n.st.clients c).inUse then n.up c else []
      got := fun c => if (n.st.clients c).inUse then n.got c else 0 } c := by
    intro hsame
    rw [State.Live, hsame] at hl
    have h := hall c hl
    rw [Channels] at h ⊢
    dsimp only
    rw [hsame, if_pos hl.1, if_pos hl.1]
    refine h.weaken (fun hpl => ?_) fun hg => ?_
    · rw [Playing, hsame, hrooms] at hpl
      exact hpl
    · rw [Guest, hsame, hrooms] at hg
      obtain ⟨ri, h1, h2, h3⟩ := hg
      rw [State.members, hrooms] at h3
      exact ⟨ri, h1, h2, h3⟩
  obtain heq | heq | ⟨ci, hfree, hnew, -⟩ := accept_cases S ip now n.st
  · exact hold (by rw [heq])
  · exact hold (by rw [heq]; rfl)
  · by_cases hc : c = ci
    · have hun : (n.st.clients c).inUse = false := hc ▸ hfree
      rw [Channels]
      dsimp only
      rw [hun, if_neg Bool.false_ne_true, if_neg Bool.false_ne_true, hnew c, if_pos hc]
      exact .init
    · exact hold (by rw [hnew c, if_neg hc])

/-- What holds as long as no JOIN or GO is stale. -/
def Parted (S : Setup) (n : Net) : Prop :=
  Fair S n.st ∧ (n.stale = false → n.leaked = false ∧ ∀ c, n.st.Live c → Channels n c)

theorem parted_step (a : Act) (h : Parted S n) : Parted S (n.step S a) := by
  have hkeep := keeper_exact hS.fit hS.live hS.rechecks
  -- A change of the relay in which nothing begins.
  have hmild : ∀ r', Fair S r' → Mild n.st r' → Parted S { n with st := r' } := by
    intro r' hf' hm
    refine ⟨hf', fun hs => ⟨(h.2 hs).1, fun c hl => ?_⟩⟩
    exact Channels.mild ((h.2 hs).2 c (hm.live c hl)) hm
  have hf := h.1
  cases a with
  | send ci m =>
    rw [Net.step]
    split_ifs with hsend
    · refine ⟨hf, fun hs => ⟨(h.2 hs).1, fun c hlc => ?_⟩⟩
      have hch := (h.2 hs).2 c hlc
      by_cases hc : c = ci
      · rw [Channels, hc] at hch ⊢
        dsimp only
        rw [Function.update_self]
        have hmay := hsend.2
        rw [Net.maySend] at hmay
        refine hch.send (fun hw => ?_) fun hr => ?_
        · rw [if_pos (show relayed m.type = true from hw)] at hmay
          exact hmay
        · have hreq : (m.type == tJoin || m.type == tGo) = true := by
            rw [Bool.or_eq_true, beq_iff_eq, beq_iff_eq]
            exact hr
          have hrel : ¬ relayed m.type = true := by
            obtain heq | heq := hr
            · rw [heq]
              decide
            · rw [heq]
              decide
          rw [if_neg hrel, hreq, Bool.true_and, Bool.not_eq_true'] at hmay
          exact hmay
      · rw [Channels]
        dsimp only
        rw [Function.update_of_ne hc]
        exact hch
    · exact h
  | receive ci =>
    rw [Net.step]
    split_ifs with hget
    · refine ⟨hf, fun hs => ⟨(h.2 hs).1, fun c hlc => ?_⟩⟩
      have hch := (h.2 hs).2 c hlc
      by_cases hc : c = ci
      · rw [Channels, hc] at hch ⊢
        dsimp only
        rw [Function.update_self]
        exact hch.receive hget.2
      · rw [Channels]
        dsimp only
        rw [Function.update_of_ne hc]
        exact hch
    · exact h
  | handle ci =>
    rw [Net.step]
    cases hup : n.up ci with
    | nil => exact h
    | cons x rest =>
      obtain ⟨m, t⟩ := x
      dsimp only
      split_ifs with hl
      · refine ⟨fair_handle hS hf hl, fun hs => ?_⟩
        rw [Net.handle] at hs
        dsimp only at hs
        rw [Bool.or_eq_false_iff, Bool.and_eq_false_iff, Bool.not_eq_false'] at hs
        obtain ⟨hleak, hall⟩ := h.2 hs.1
        refine ⟨?_, fun c hlc => ?_⟩
        · rw [Net.handle]
          dsimp only
          rw [hleak, Bool.false_or, Bool.and_eq_false_iff, Bool.and_eq_false_iff, Bool.not_eq_false']
          cases hrel : relayed m.type with
          | false => exact .inl (.inl rfl)
          | true =>
            cases hin : inRoom n.st ci with
            | false => exact .inl (.inr rfl)
            | true =>
              -- The frame at the head of the channel is of the match.
              have hch := hall ci hl
              rw [Channels, hup] at hch
              exact .inr (beq_iff_eq.2 (hch.fresh (inRoom_iff.1 hin) t (.inl List.mem_cons_self)
                (hch.work_open _ List.mem_cons_self hrel)))
        · refine channels_handle hS hp hauto hf hl hup hall (fun ha => ?_) hlc
          refine hs.2.resolve_left fun hn => ?_
          rw [ha] at hn
          cases hn
      · exact h
  | accept ip now =>
    exact ⟨hkeep.accept ip now hf, fun hs => ⟨(h.2 hs).1, fun c hlc =>
      channels_accept ip now (h.2 hs).2 hlc⟩⟩
  | closed ci =>
    rw [Net.step]
    split_ifs with hl
    · exact hmild _ (hkeep.drop hf hl).1 (mild_drop hS.fit.toOk hp hf.1.1)
    · exact h
  | writable ci =>
    rw [Net.step]
    split_ifs with hl
    · refine hmild _ (hkeep.flush hf hl) ?_
      exact (leaves_flushLoop (leaves_drop hS.fit.pair) ci _ hf.1.1).mild hf.1.1
        (calm_flushLoop (calm_drop hp) ci _ _)
    · exact h
  | sweep now =>
    obtain ⟨hf', hm⟩ := mild_sweep hS hp now hf
    exact hmild _ hf' hm

omit hS hp hauto in
theorem parted_init : Parted S .init := by
  refine ⟨⟨⟨?_, ?_⟩, fun _ => sound_init⟩, fun _ => ⟨rfl, fun c hl => ?_⟩⟩
  · refine ⟨fun ri _ c => ?_, fun ri hz => hz.elim, fun ri => List.nodup_nil, fun ri => Nat.zero_le _,
      fun ri _ => rfl, fun ri hu => ?_⟩
    · exact iff_of_false List.not_mem_nil fun hr => by cases hr
    · cases hu
  · refine ⟨fun c hl => ?_, fun c _ hl => ?_, fun e he => ?_, fun y hl => ?_⟩
    · cases hl.1
    · cases hl.1
    · cases he
    · cases hl.1
  · cases hl.1

theorem parted_run (as : List Act) : Parted S (Net.run S as) := by
  induction as using List.reverseRecOn with
  | nil => exact parted_init
  | append_singleton as a ih =>
    rw [Net.run, List.foldl_append]
    exact parted_step hS hp hauto a ih

/-- Whatever the interleaving of clients, channels and relay, no frame is forwarded in a match whose START
its sender had not received when it sent it, as long as every JOIN and GO that was acted on was sent
after its sender had received the START of every match it had been put into. -/
theorem no_leak (as : List Act) (hok : (Net.run S as).stale = false) : (Net.run S as).leaked = false :=
  ((parted_run hS hp hauto as).2 hok).1

end runs

/-- Two consoles play, the guest leaves, and the host plays another one, all in one order of steps. -/
theorem no_leak_twice :
    let S := cRelay false 2 0 3 (fun n => if n % 3 = 0 then .again else .wrote 99) fun _ => 7
    let n := Net.run S [.accept 1 0, .accept 2 0, .accept 3 0, .send 0 ⟨tHello, [2, 65, 65]⟩,
      .send 1 ⟨tHello, [2, 66, 66]⟩, .send 2 ⟨tHello, [2, 67, 67]⟩, .send 1 ⟨tJoin, [65, 65]⟩,
      .handle 0, .handle 1, .handle 2, .handle 1, .receive 0, .receive 0, .send 0 ⟨tGo, []⟩, .handle 0,
      .writable 0, .receive 0, .send 0 ⟨tInput, [0, 1, 0, 0, 0]⟩, .closed 1,
      .send 2 ⟨tJoin, [65, 65]⟩, .handle 0, .handle 2, .receive 0, .receive 0, .send 0 ⟨tGo, []⟩,
      .handle 0, .receive 0, .send 0 ⟨tInput, [0, 1, 0, 5, 5]⟩, .handle 0]
    (n.st.clients 2).queued.head? = some ⟨⟨tInput, [0, 1, 0, 5, 5]⟩, some 0⟩ ∧ n.leaked = false := by
  intro S n
  have hS : Program S := .c (le_refl 2) (by decide) (fun h => absurd h Bool.false_ne_true) _ _ _ _
  exact ⟨by decide +kernel, no_leak hS rfl rfl _ (by decide +kernel)⟩

/-- The host sends GO twice before START reaches it, and the guest is gone when the relay handles the
second one: with the next guest it starts the next match, and the INPUT behind it is of the last. -/
theorem leak_of_second_go :
    let as : List Act := [.accept 1 0, .accept 2 0, .accept 3 0, .send 0 ⟨tHello, [2, 65, 65]⟩,
      .handle 0, .send 1 ⟨tHello, [2, 66, 66]⟩, .handle 1, .send 2 ⟨tHello, [2, 67, 67]⟩, .handle 2,
      .send 1 ⟨tJoin, [65, 65]⟩, .handle 1, .send 0 ⟨tGo, []⟩, .send 0 ⟨tGo, []⟩, .handle 0, .closed 1,
      .receive 0, .receive 0, .receive 0, .send 0 ⟨tInput, [0, 1, 0, 0, 0]⟩,
      .send 2 ⟨tJoin, [65, 65]⟩, .handle 2, .handle 0, .handle 0]
    (Net.run (cRelay false 2 0 3 (fun _ => .wrote 99) fun _ => 7) as).leaked = true ∧
      (Net.run (pyRelay 0 3 (fun _ => .wrote 99) fun _ => 7) as).leaked = true := by
  constructor
  · decide +kernel
  · decide +kernel

end IntvNetplay.Relay
