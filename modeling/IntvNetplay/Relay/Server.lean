import IntvNetplay.Relay.State

/-!
# The relay: what it does

The functions of the two programs under the names of `intv-relay.c`.  `drop`, `send_raw` and the loops
over a room call each other: each takes the `drop` that a failing send inside it runs, and `dropN`
ties the knot for a given depth.
-/

namespace IntvNetplay.Relay

/-! ### Payloads -/

/-- `pad_name` -/
def padName (name : List ℕ) : List ℕ := (name ++ List.replicate 8 0).take 8

/-- `room_roster` -/
def roster (r : State) (ri : ℕ) : List ℕ :=
  ((r.members ri).flatMap (fun m => padName (r.clients m).name) ++
    List.replicate (8 * rosterSlots) 0).take (8 * rosterSlots)

def roomMsg (r : State) (ri : ℕ) : Msg := ⟨tRoom, (r.members ri).length :: roster r ri⟩

/-- ROOM with count 0. -/
def goneMsg : Msg := ⟨tRoom, 0 :: List.replicate (8 * rosterSlots) 0⟩

def leftMsg (seat : ℕ) (name : List ℕ) : Msg := ⟨tPeerLeft, seat :: padName name⟩

def startMsg (r : State) (ri seed delay seat : ℕ) : Msg :=
  ⟨tStart, seat :: (r.members ri).length :: seed % 256 :: seed / 256 :: delay % 256 :: roster r ri⟩

/-- `rstrip_nul_space` -/
def rstrip (s : List ℕ) : List ℕ := s.rdropWhile fun b => b == 0 || b == 32

/-- A-Z, 0-9. -/
def nameChar (b : ℕ) : Bool := 65 ≤ b && b ≤ 90 || 48 ≤ b && b ≤ 57

def nameOk (name : List ℕ) : Bool := 2 ≤ name.length && name.length ≤ 8 && name.all nameChar

section server

variable (S : Setup)

/-- `status_byte` -/
def statusByte (r : State) (ci : ℕ) : ℕ :=
  match (r.clients ci).room with
  | none => if S.proto1 then 0 else 1
  | some ri =>
    if S.proto1 then 1
    else
      let n := (r.members ri).length
      if (r.rooms ri).started || S.maxSeats ≤ n then 0x80 ||| n else n

/-- The payload of LOBBY: the first eight others. -/
def lobbyMsg (r : State) (ci : ℕ) : Msg :=
  let others := ((r.byName.map Prod.snd).filter fun c =>
    c != ci && (r.clients c).name != []).take lobbyEntries
  ⟨tLobby, others.length :: others.flatMap fun c => padName (r.clients c).name ++ [statusByte S r c]⟩

/-! ### Sending -/

section nested

variable (D : State → ℕ → State)

/-- The loop of `flush`; every call that writes shortens `tx`. -/
def flushLoop (ci : ℕ) : ℕ → State → State
  | 0, r => r
  | n + 1, r =>
    if (r.clients ci).tx = [] then r
    else match S.send r.calls with
      | .wrote k => flushLoop ci n (r.called.wrote ci (k + 1))
      | .again => r.called
      | .zero => D r.called.fail ci
      | .error => D r.called.fail ci

def flush (ci : ℕ) (r : State) : State := flushLoop S D ci (r.clients ci).tx.length r

/-- `send_raw` -/
def sendRaw (ci : ℕ) (m : Msg) (src : Option ℕ) (r : State) : State :=
  if (r.clients ci).dead then r
  else if maxTxBacklog < (r.clients ci).tx.length + m.bytes.length then D r.fail ci
  else flush S D ci (r.queue ci m src)

/-- The same frame to everybody in a list. -/
def sendAll (m : Msg) : List ℕ → State → State
  | [], r => r
  | ci :: l, r => sendAll m l (sendRaw S D ci m none r)

/-- A loop over a copy of the members that announces the state of their room. -/
def announceTo : List (ℕ × Msg) → State → State
  | [], r => r
  | (ci, m) :: l, r =>
    let r' := sendRaw S D ci m none r
    let torn := !(r.clients ci).dead && (r'.clients ci).dead && l.any fun e => !(r'.clients e.1).dead
    announceTo l (if torn then r'.tear else r')

/-- The same loop over the members as they are at each round, from the `i`-th on. -/
def announceLive (ri : ℕ) (m : ℕ → Msg) : ℕ → ℕ → State → State
  | 0, _, r => r
  | n + 1, i, r =>
    match (r.members ri)[i]? with
    | none => r
    | some ci => announceLive ri m n (i + 1) (sendRaw S D ci (m i) none r)

def announce (ri : ℕ) (m : ℕ → Msg) (r : State) : State :=
  if S.live then announceLive S D ri m (r.members ri).length 0 r
  else announceTo S D ((r.members ri).mapIdx fun i ci => (ci, m i)) r

/-- `room_broadcast` -/
def roomBroadcast (ri : ℕ) (r : State) : State := announce S D ri (fun _ => roomMsg r ri) r

/-- `dissolve` -/
def dissolve (ri : ℕ) (notify : List ℕ) (r : State) : State :=
  (sendAll S D goneMsg notify (r.unroom ri)).close ri

/-- `drop` for `--proto 1`, the client having left its room. -/
def dropPair (ri : ℕ) (r : State) : State :=
  match r.members ri with
  | [] => r.close ri
  | partner :: _ =>
    let r := r.close ri
    let r := r.setClient partner { r.clients partner with room := none }
    sendRaw S D partner ⟨tPeerLeft, []⟩ none r

/-- `drop` for `--proto 2`, the client having left its room and its seat. -/
def dropSeat (ci ri seat : ℕ) (r : State) : State :=
  if (r.rooms ri).started then
    sendAll S D (leftMsg seat (r.clients ci).name) (r.members ri) (dissolve S D ri [] r)
  else if seat = 0 then dissolve S D ri (r.members ri) r
  else if (r.members ri).length < 2 then dissolve S D ri (r.members ri) r
  else roomBroadcast S D ri r

/-- `drop`.  The Python program takes the client out of `clients` at once; nothing looks there before
`drop` is done. -/
def dropBody (r : State) (ci : ℕ) : State :=
  if (r.clients ci).dead then r
  else
    let r := (r.kill ci).unname ci
    match (r.clients ci).room with
    | none => r.free ci
    | some ri =>
      let seat := (r.members ri).idxOf ci
      let r := r.leave ci ri
      if S.proto1 then (dropPair S D ri r).free ci
      else (dropSeat S D ci ri seat r).publish.free ci

end nested

/-- `drop` with nested drops up to a depth. -/
def dropN : ℕ → State → ℕ → State
  | 0 => fun r _ => r.bad
  | k + 1 => dropBody S (dropN k)

/-- `drop` -/
def drop : State → ℕ → State := dropN S maxClients

/-! ### The protocol -/

/-- `on_list` -/
def onList (ci : ℕ) (r : State) : State := sendRaw S (drop S) ci (lobbyMsg S r ci) none r

/-- `name_set`: in place, or at the end. -/
def nameSet (name : List ℕ) (ci : ℕ) (r : State) : State :=
  if (r.nameFind name).isSome then
    { r with byName := r.byName.map fun e => if e.1 == name then (name, ci) else e }
  else if S.ctable && maxClients ≤ r.byName.length then r.bad
  else { r with byName := r.byName ++ [(name, ci)] }

/-- Whether `flush` finds the socket broken, this many bytes being left at a call of `send`. -/
def broken : ℕ → ℕ → ℕ → Bool
  | 0, _, _ => false
  | n + 1, calls, left =>
    if left = 0 then false
    else match S.send calls with
      | .wrote k => broken n (calls + 1) (left - (k + 1))
      | .again => false
      | .zero => true
      | .error => true

/-- Whether `send_raw` of a frame would drop its recipient. -/
def refused (r : State) (ci : ℕ) (m : Msg) : Bool :=
  let left := (r.clients ci).tx.length + m.bytes.length
  maxTxBacklog < left || broken S left r.calls left

/-- What `drop` tells the other member of a room of two. -/
def notice (r : State) (ri ci : ℕ) : Msg :=
  if (r.rooms ri).started then leftMsg ((r.members ri).idxOf ci) (r.clients ci).name else goneMsg

/-- `drop` of the holder of a name drops the client that asks for it too: they share a room, and its
notice is refused. -/
def robs (r : State) (ci old : ℕ) : Bool :=
  match (r.clients old).room with
  | none => false
  | some ri => decide (ci ∈ r.members ri) && refused S r ci (notice r ri old)

/-- `on_hello`: another holder of the name is dropped. -/
def evict (ci : ℕ) (name : List ℕ) (r : State) : State :=
  match r.nameFind name with
  | some old => if old = ci then r else drop S (if robs S r ci old then r.rob else r) old
  | none => r

/-- `on_hello`: the name is the client's from here on. -/
def rename (ci : ℕ) (name : List ℕ) (r : State) : State :=
  let c := r.clients ci
  let r := if c.name ≠ [] ∧ c.name ≠ name ∧ r.nameFind c.name = some ci then r.nameDel c.name else r
  let r := r.setClient ci { r.clients ci with name := name }
  (nameSet S name ci r).publish

/-- `on_hello` from where the name is found good. -/
def takeName (ci : ℕ) (name : List ℕ) (r : State) : State :=
  let r := evict S ci name r
  if S.rechecks && (r.clients ci).dead then r else onList S ci (rename S ci name r)

/-- `on_hello` -/
def onHello (ci : ℕ) (payload : List ℕ) (r : State) : State :=
  if payload.length < 3 then drop S r ci
  else if !S.proto1 && payload.getD 0 0 != protoVer then drop S r ci
  else
    let name := rstrip (payload.drop 1)
    if nameOk name then takeName S ci name r else drop S r ci

/-- `room_alloc` -/
def roomAlloc (r : State) : Option ℕ := (List.range S.maxRooms).find? fun i => !(r.rooms i).used

/-- `start_room` -/
def startRoom (ri : ℕ) (r : State) : State :=
  let seed := S.seed r.seeds
  let r := { r with seeds := r.seeds + 1 }
  let r := r.setRoom ri { r.rooms ri with started := true, seed := seed }
  (announce S (drop S) ri (fun seat => startMsg r ri seed S.delay seat) r).publish

/-- `start_pair` -/
def startPair (host guest : ℕ) (r : State) : State :=
  let seed := S.seed r.seeds
  let r := { r with seeds := r.seeds + 1 }
  match roomAlloc S r with
  | none => onList S guest r.bad
  | some ri =>
    let r := r.setRoom ri ⟨true, [host, guest], true, seed⟩
    let r := r.setClient host { r.clients host with room := some ri }
    let r := r.setClient guest { r.clients guest with room := some ri }
    let msg := fun role peer =>
      (⟨tStart, role :: seed % 256 :: seed / 256 :: S.delay % 256 :: padName (r.clients peer).name⟩ : Msg)
    sendRaw S (drop S) guest (msg 1 host) none (sendRaw S (drop S) host (msg 0 guest) none r)

/-- A client enters a room. -/
def enter (ci ri : ℕ) (r : State) : State :=
  (r.setRoom ri { r.rooms ri with members := r.members ri ++ [ci] }).setClient ci
    { r.clients ci with room := some ri }

/-- A room with one member. -/
def openRoom (ri host : ℕ) (r : State) : State :=
  (r.setRoom ri ⟨true, [host], false, 0⟩).setClient host { r.clients host with room := some ri }

/-- `on_join` from where the joiner is in the room. -/
def joined (ri : ℕ) (r : State) : State :=
  let r := (roomBroadcast S (drop S) ri r).publish
  if 0 < S.autoGo ∧ S.autoGo ≤ (r.members ri).length then startRoom S ri r else r

/-- A room that cannot be joined. -/
def shut (r : State) (ri : ℕ) : Bool := (r.rooms ri).started || S.maxSeats ≤ (r.members ri).length

/-- `on_join` with the client that the name stands for. -/
def joinTarget (ci target : ℕ) (r : State) : State :=
  if target = ci ∨ (r.clients target).name = [] then onList S ci r
  else if S.proto1 then
    if (r.clients target).room = none then startPair S target ci r else onList S ci r
  else
    match (r.clients target).room with
    | some ri => if shut S r ri then onList S ci r else joined S ri (enter ci ri r)
    | none =>
      match roomAlloc S r with
      | none => onList S ci r.bad
      | some ri => joined S ri (enter ci ri (openRoom ri target r))

/-- The name in a JOIN as the registry is asked for it. -/
def joinName (payload : List ℕ) : List ℕ :=
  if S.ctable then (rstrip payload).takeWhile (· != 0) else rstrip payload

/-- Does the name of a JOIN go on behind a NUL, and would the part before it be joined? -/
def cuts (r : State) (ci : ℕ) (payload : List ℕ) : Bool :=
  let name := rstrip payload
  let short := name.takeWhile (· != 0)
  short != name && name.length ≤ 8 &&
    match r.nameFind short with
    | none => false
    | some target => target != ci && match (r.clients target).room with
      | none => true
      | some ri => !shut S r ri

/-- `on_join` from where the client is known to have no room. -/
def findTarget (ci : ℕ) (payload : List ℕ) (r : State) : State :=
  if S.ctable ∧ 8 < (rstrip payload).length then onList S ci r
  else
    match r.nameFind (joinName S payload) with
    | none => onList S ci r
    | some target => joinTarget S ci target r

/-- `on_join` -/
def onJoin (ci : ℕ) (payload : List ℕ) (r : State) : State :=
  if (r.clients ci).name = [] then drop S r ci
  else if (r.clients ci).room ≠ none then r
  else findTarget S ci payload (if cuts S r ci payload then r.snip else r)

/-- `on_go` -/
def onGo (ci : ℕ) (r : State) : State :=
  match (r.clients ci).room with
  | none => r
  | some ri =>
    if (r.rooms ri).started ∨ (r.members ri).idxOf ci ≠ 0 then r
    else if (r.members ri).length < 2 ∨ S.maxSeats < (r.members ri).length then r
    else startRoom S ri r

/-- The fan-out over a copy of the members. -/
def fanTo (ci : ℕ) (m : Msg) (src : ℕ) : List ℕ → State → State
  | [], r => r
  | c :: l, r => fanTo ci m src l (if c = ci then r else sendRaw S (drop S) c m (some src) r)

/-- The fan-out over the members as they are at each round. -/
def fanLive (ci ri : ℕ) (m : Msg) (src : ℕ) : ℕ → ℕ → State → State
  | 0, _, r => r
  | n + 1, i, r =>
    match (r.members ri)[i]? with
    | none => r
    | some c => fanLive ci ri m src n (i + 1)
        (if c = ci then r else sendRaw S (drop S) c m (some src) r)

/-- `handle` for a relay-type frame.  What `log_crc` keeps is not modelled. -/
def relay (ci : ℕ) (m : Msg) (r : State) : State :=
  match (r.clients ci).room with
  | none => r
  | some ri =>
    if (r.rooms ri).started then
      let src := (r.clients ci).conn
      let r := { r with
        heard := ⟨src, m, ((r.members ri).filter fun c => r.Live c).map fun c => (r.clients c).conn⟩ ::
          r.heard }
      if S.live then fanLive S ci ri m src (r.members ri).length 0 r
      else fanTo S ci m src (r.members ri) r
    else r

/-- `handle` -/
def handle (ci : ℕ) (m : Msg) (r : State) : State :=
  if relayed m.type then relay S ci m r
  else if m.type = tHello then onHello S ci m.payload r
  else if m.type = tList then onList S ci r
  else if m.type = tJoin then onJoin S ci m.payload r
  else if m.type = tGo then if S.proto1 then drop S r ci else onGo S ci r
  else if m.type = tBye then drop S r ci
  else if m.type = tPing then sendRaw S (drop S) ci ⟨tPong, []⟩ none r
  else drop S r ci

/-- `on_join` of the protocol with rooms, with the client that the name stands for. -/
theorem joinTarget_rooms (hp : S.proto1 = false) (ci target : ℕ) (r : State) :
    joinTarget S ci target r =
      if target = ci ∨ (r.clients target).name = [] then onList S ci r
      else match (r.clients target).room with
        | some ri => if shut S r ri then onList S ci r else joined S ri (enter ci ri r)
        | none =>
          match roomAlloc S r with
          | none => onList S ci r.bad
          | some ri => joined S ri (enter ci ri (openRoom ri target r)) := by
  rw [joinTarget, hp]
  rfl

/-- `handle` of the protocol with rooms. -/
theorem handle_rooms (hp : S.proto1 = false) (ci : ℕ) (m : Msg) (r : State) : handle S ci m r =
    if relayed m.type then relay S ci m r
    else if m.type = tHello then onHello S ci m.payload r
    else if m.type = tList then onList S ci r
    else if m.type = tJoin then onJoin S ci m.payload r
    else if m.type = tGo then onGo S ci r
    else if m.type = tBye then drop S r ci
    else if m.type = tPing then sendRaw S (drop S) ci ⟨tPong, []⟩ none r
    else drop S r ci := by
  rw [handle, hp]
  rfl

/-! ### Connections -/

/-- The numbers that clients go by: the slots, or more than there ever were clients. -/
def span (r : State) : List ℕ :=
  List.range (if S.ctable then maxClients else maxClients + r.conns)

/-- Does nothing refer to a client any more?  A `Client` object outlives its connection in `by_name` and
in a room. -/
def vacant (r : State) (i : ℕ) : Bool :=
  !(r.clients i).inUse && (S.ctable || !(r.byName.any fun e => e.2 == i) &&
    (List.range S.maxRooms).all fun ri => !(r.members ri).contains i)

/-- The slot of a new client. -/
def clientAlloc (r : State) : Option ℕ := (span S r).find? (vacant S r)

/-- `accept_client` -/
def accept (ip now : ℕ) (r : State) : State :=
  if maxClients ≤ r.nClients then r
  else if maxConnectionsPerIp ≤ (span S r).countP fun i =>
      (r.clients i).inUse && (r.clients i).ip == ip then r
  else
    match clientAlloc S r with
    | none => r.bad
    | some ci =>
      { r.setClient ci { Client.empty with inUse := true, ip := ip, connectedAt := now, conn := r.conns }
        with nClients := r.nClients + 1, conns := r.conns + 1 }

/-- `sweep` -/
def sweep (now : ℕ) (r : State) : State :=
  (span S r).foldl (fun r i =>
    let c := r.clients i
    if c.inUse ∧ c.dead = false ∧ c.name = [] ∧ helloTimeout < now - c.connectedAt then drop S r i
    else r) r

/-! ### The byte stream -/

/-- The relay with what it has received and not yet handled. -/
structure Server where
  st : State
  rx : ℕ → List ℕ

/-- The frames that have arrived whole; a frame takes two bytes at least. -/
def drain (ci : ℕ) : ℕ → State → List ℕ → State × List ℕ
  | 0, r, b => (r, b)
  | n + 1, r, b =>
    match b with
    | [] => (r, [])
    | len :: rest =>
      if len < 1 ∨ 200 < len then (drop S r ci, len :: rest)
      else if rest.length < len then (r, len :: rest)
      else
        let r := handle S ci ⟨rest.headD 0, (rest.take len).tail⟩ r
        if (r.clients ci).dead then (r, rest.drop len) else drain ci n r (rest.drop len)

/-- `service` of the Python program after its `recv`. -/
def feedAll (ci : ℕ) (data : List ℕ) (r : State) (b : List ℕ) : State × List ℕ :=
  drain S ci (b ++ data).length r (b ++ data)

/-- `feed`: the bytes go through a buffer of 256. -/
def feedBuf (ci : ℕ) : ℕ → List ℕ → State → List ℕ → State × List ℕ
  | 0, _, r, b => (r, b)
  | n + 1, data, r, b =>
    if data = [] then (r, b)
    else if 256 ≤ b.length then (drop S r ci, b)
    else
      let x := drain S ci 256 r (b ++ data.take (256 - b.length))
      if (x.1.clients ci).dead then x else feedBuf ci n (data.drop (256 - b.length)) x.1 x.2

def feed (ci : ℕ) (data : List ℕ) (r : State) (b : List ℕ) : State × List ℕ :=
  if S.ctable then feedBuf S ci data.length data r b else feedAll S ci data r b

/-- What the event loop serves. -/
inductive Event where
  | accept (ip now : ℕ)
  /-- `recv` returned these bytes. -/
  | recv (ci : ℕ) (data : List ℕ)
  /-- `recv` failed or returned nothing. -/
  | closed (ci : ℕ)
  | writable (ci : ℕ)
  | sweep (now : ℕ)

/-- One event.  An event of a client that is gone is stale and ignored. -/
def step (e : Event) (v : Server) : Server :=
  match e with
  | .accept ip now =>
    ⟨accept S ip now v.st, fun ci => if (v.st.clients ci).inUse then v.rx ci else []⟩
  | .recv ci data =>
    if v.st.Live ci then
      let x := feed S ci data v.st (v.rx ci)
      ⟨x.1, Function.update v.rx ci x.2⟩
    else v
  | .closed ci => if v.st.Live ci then ⟨drop S v.st ci, v.rx⟩ else v
  | .writable ci => if v.st.Live ci then ⟨flush S (drop S) ci v.st, v.rx⟩ else v
  | .sweep now => ⟨sweep S now v.st, v.rx⟩

def Server.init : Server := ⟨.init, fun _ => []⟩

/-- A run from the start. -/
def run (es : List Event) : Server := es.foldl (fun v e => step S e v) .init

end server

end IntvNetplay.Relay
