import Mathlib.Data.List.DropRight
import Mathlib.Data.Nat.Notation
import Mathlib.Logic.Function.Basic
import Mathlib.Tactic.SplitIfs

/-!
# The relay: what it keeps

Two programs run the same relay: `intv_relay_server.py` and `c/src/intv-relay.c`.  They share this
state.  A client is a number: its slot in the C program; a `Client` object of the Python one goes by the
least number that no other object in use has.  A room goes by the least number that no room in use has.
Some fields are bookkeeping that neither program reads: `conn`, `queued` and `written` of a client, and
from `calls` on those of the relay.
-/

namespace IntvNetplay.Relay

/-! ### Frames -/

abbrev tHello : ℕ := 0x01
abbrev tList : ℕ := 0x02
abbrev tLobby : ℕ := 0x03
abbrev tJoin : ℕ := 0x04
abbrev tStart : ℕ := 0x05
abbrev tInput : ℕ := 0x06
abbrev tCrc : ℕ := 0x07
abbrev tState : ℕ := 0x08
abbrev tResync : ℕ := 0x09
abbrev tBye : ℕ := 0x0A
abbrev tPeerLeft : ℕ := 0x0B
abbrev tPing : ℕ := 0x0C
abbrev tPong : ℕ := 0x0D
abbrev tRoom : ℕ := 0x0E
abbrev tGo : ℕ := 0x0F

/-- `RELAY_TYPES`. -/
def relayed (t : ℕ) : Bool := t == tInput || t == tCrc || t == tState || t == tResync

/-- The type of a frame and its payload. -/
structure Msg where
  type : ℕ
  payload : List ℕ
  deriving DecidableEq

/-- `frame`: the bytes on the wire. -/
def Msg.bytes (m : Msg) : List ℕ := (m.payload.length + 1) :: m.type :: m.payload

/-- `PROTO_VER` -/
def protoVer : ℕ := 2
/-- `ROSTER_SLOTS` -/
def rosterSlots : ℕ := 4
/-- `MAX_TX_BACKLOG` -/
def maxTxBacklog : ℕ := 65536
/-- `MAX_CLIENTS` -/
def maxClients : ℕ := 64
/-- `MAX_CONNECTIONS_PER_IP` -/
def maxConnectionsPerIp : ℕ := 8
/-- `HELLO_TIMEOUT` -/
def helloTimeout : ℕ := 60
/-- `LOBBY_ENTRIES` -/
def lobbyEntries : ℕ := 8

/-! ### State -/

/-- A frame in the queue of a client; `src` is the connection whose frame it forwards. -/
structure Queued where
  msg : Msg
  src : Option ℕ
  deriving DecidableEq

structure Client where
  inUse : Bool
  dead : Bool
  ip : ℕ
  connectedAt : ℕ
  tx : List ℕ
  /-- Empty until HELLO. -/
  name : List ℕ
  room : Option ℕ
  /-- The number of the connection. -/
  conn : ℕ
  /-- What was queued for the client, newest first. -/
  queued : List Queued
  /-- What its socket took. -/
  written : List ℕ
  deriving DecidableEq

/-- A client slot that was never used. -/
def Client.empty : Client := ⟨false, false, 0, 0, [], [], none, 0, [], []⟩

structure Room where
  used : Bool
  /-- In the order of joining, which is the order of the seats. -/
  members : List ℕ
  started : Bool
  seed : ℕ
  deriving DecidableEq

def Room.empty : Room := ⟨false, [], false, 0⟩

/-- A relay-type frame that was handled inside a match: from which connection, and which connections
that are served were members of the room. -/
structure Heard where
  src : ℕ
  msg : Msg
  members : List ℕ
  deriving DecidableEq

structure State where
  clients : ℕ → Client
  rooms : ℕ → Room
  /-- In the order of insertion. -/
  byName : List (List ℕ × ℕ)
  nClients : ℕ
  /-- The count last passed to `lobby_update`. -/
  published : ℕ
  /-- `send` system calls so far. -/
  calls : ℕ
  /-- Seeds drawn so far. -/
  seeds : ℕ
  /-- Connections accepted so far. -/
  conns : ℕ
  /-- Newest first. -/
  heard : List Heard
  /-- A `send` failed or a backlog overran. -/
  failed : Bool
  /-- In a ROOM or START broadcast a send dropped its recipient before a live one was sent to. -/
  torn : Bool
  /-- A HELLO took the name of the other member of its client's room, and the notice of that to its
  client was refused. -/
  robbed : Bool
  /-- A JOIN had a NUL in the name, and what is before it would have been joined. -/
  cut : Bool
  /-- A branch that cannot be reached was, or the recursion of `drop` ran out. -/
  fault : Bool

/-- The relay when it starts to listen. -/
def State.init : State :=
  ⟨fun _ => .empty, fun _ => .empty, [], 0, 0, 0, 0, 0, [], false, false, false, false, false⟩

/-- What a `send` call on a socket comes to; a call that is interrupted is made again and does not
show here. -/
inductive SendResult where
  /-- This many bytes and one more, as far as there are any. -/
  | wrote (k : ℕ)
  | again
  | zero
  | error

/-- One of the two programs with its options, and what the world answers. -/
structure Setup where
  /-- `--proto 1`. -/
  proto1 : Bool
  maxSeats : ℕ
  autoGo : ℕ
  delay : ℕ
  /-- `MAX_ROOMS` -/
  maxRooms : ℕ
  /-- A loop over the members of a room sees what a nested `drop` makes of them; else it works on a
  copy. -/
  live : Bool
  /-- `on_hello` looks whether its client is dead after it dropped the holder of the name. -/
  rechecks : Bool
  /-- Names are C strings in a table of 64. -/
  ctable : Bool
  send : ℕ → SendResult
  seed : ℕ → ℕ

/-- `intv-relay.c`.  Its `main` takes back `--auto-go` for `--proto 1`, and holds it to `--max-seats`. -/
def cRelay (proto1 : Bool) (maxSeats autoGo delay : ℕ) (send : ℕ → SendResult) (seed : ℕ → ℕ) :
    Setup :=
  ⟨proto1, maxSeats, if proto1 then 0 else min autoGo maxSeats, delay, 32, false, true, true, send, seed⟩

/-- `intv_relay_server.py`, for a delay that a byte holds: with a greater one `bytes` raises where a
START is built.  It has no bound on rooms: a `Room` lives while a client refers to it, so 64 numbers are
enough. -/
def pyRelay (autoGo delay : ℕ) (send : ℕ → SendResult) (seed : ℕ → ℕ) : Setup :=
  ⟨false, 2, autoGo, delay, 64, true, false, false, send, seed⟩

namespace State

variable (r : State)

def setClient (ci : ℕ) (c : Client) : State :=
  { r with clients := Function.update r.clients ci c }

def setRoom (ri : ℕ) (x : Room) : State := { r with rooms := Function.update r.rooms ri x }

/-- `send` was called. -/
def called : State := { r with calls := r.calls + 1 }

/-- A send failed. -/
def fail : State := { r with failed := true }

def tear : State := { r with torn := true }

def rob : State := { r with robbed := true }

def snip : State := { r with cut := true }

def bad : State := { r with fault := true }

/-- The members of a room. -/
def members (ri : ℕ) : List ℕ := (r.rooms ri).members

/-- A client that is served. -/
def Live (ci : ℕ) : Prop := (r.clients ci).inUse = true ∧ (r.clients ci).dead = false

instance (ci : ℕ) : Decidable (r.Live ci) := by unfold Live; infer_instance

/-- `c->tx` and its record take a frame. -/
def queue (ci : ℕ) (m : Msg) (src : Option ℕ) : State :=
  r.setClient ci { r.clients ci with
    tx := (r.clients ci).tx ++ m.bytes, queued := ⟨m, src⟩ :: (r.clients ci).queued }

/-- The socket of a client takes `k` bytes. -/
def wrote (ci k : ℕ) : State :=
  r.setClient ci { r.clients ci with
    tx := (r.clients ci).tx.drop k
    written := (r.clients ci).written ++ (r.clients ci).tx.take k }

/-- `lobby_update_count`. -/
def publish : State := { r with published := r.byName.length }

/-- `name_find`. -/
def nameFind (name : List ℕ) : Option ℕ := (r.byName.find? fun e => e.1 == name).map Prod.snd

/-- `del by_name[name]`. -/
def nameDel (name : List ℕ) : State := { r with byName := r.byName.filter fun e => e.1 != name }

/-- The names of a client leave the registry. -/
def unname (ci : ℕ) : State :=
  if r.byName.any fun e => e.2 == ci then
    publish { r with byName := r.byName.filter fun e => e.2 != ci }
  else r

/-- `client_free`. -/
def free (ci : ℕ) : State :=
  let c := r.clients ci
  let r := if c.inUse then r else r.bad
  { r.setClient ci { c with inUse := false } with nClients := r.nClients - 1 }

/-- `c->dead = 1`. -/
def kill (ci : ℕ) : State := r.setClient ci { r.clients ci with dead := true }

/-- A client leaves its room. -/
def leave (ci ri : ℕ) : State :=
  (r.setClient ci { r.clients ci with room := none }).setRoom ri
    { r.rooms ri with members := (r.members ri).erase ci }

/-- Every member of a room is on its own. -/
def unroom (ri : ℕ) : State :=
  { r with clients := fun c =>
      if c ∈ r.members ri then { r.clients c with room := none } else r.clients c }

/-- A room is given up. -/
def close (ri : ℕ) : State := r.setRoom ri { r.rooms ri with used := false, members := [] }

section simps

variable (ci x : ℕ) (c : Client) (y : Room)

@[simp] theorem clients_setClient :
    (r.setClient ci c).clients x = if x = ci then c else r.clients x :=
  Function.update_apply _ _ _ _

@[simp] theorem rooms_setClient : (r.setClient ci c).rooms = r.rooms := rfl
@[simp] theorem byName_setClient : (r.setClient ci c).byName = r.byName := rfl
@[simp] theorem clients_setRoom : (r.setRoom ci y).clients = r.clients := rfl
@[simp] theorem byName_setRoom : (r.setRoom ci y).byName = r.byName := rfl

@[simp] theorem rooms_setRoom : (r.setRoom ci y).rooms x = if x = ci then y else r.rooms x :=
  Function.update_apply _ _ _ _

end simps

end State

end IntvNetplay.Relay
