import IntvNetplay.Machine.Slots
import IntvNetplay.Machine.Word
import Mathlib.Data.Finset.Sort

/-!
# The checksum comparator of a started room (`log_crc`)

Both relays keep a table of the ticks for which some seats have reported and what they have reported.  A
report is entered, the lowest tick goes when the table has outgrown 64 ticks, and a tick for which as
many seats have reported as the room has members is taken out and compared.

The Python relay keeps a dictionary of dictionaries; nothing it does with them depends on their order.
The C relay keeps 65 flagged rows of eight flagged slots.
-/

namespace IntvNetplay.Relay

open IntvNetplay.Machine

/-- A CRC payload. -/
abbrev CrcPayload := Fin 5 → UInt8

def CrcPayload.seat (payload : CrcPayload) : ℕ := (payload 0).toNat
def CrcPayload.tick (payload : CrcPayload) : ℕ := word (payload 1).toNat (payload 2).toNat
def CrcPayload.crc (payload : CrcPayload) : ℕ := word (payload 3).toNat (payload 4).toNat

/-- What becomes of a complete round. -/
inductive Verdict where
  /-- `CRC MISMATCH tick …:` the seats in ascending order with their values. -/
  | mismatch (tick : ℕ) (vals : List (ℕ × ℕ))
  /-- An agreed round, and the counter after it. -/
  | agreed (tick count : ℕ)
  deriving DecidableEq

/-- The line that is logged: every fourth agreed round is. -/
def Verdict.line : Verdict → Option Verdict
  | .mismatch tick vals => some (.mismatch tick vals)
  | .agreed tick count => if count % 4 = 0 then some (.agreed tick count) else none

/-! ### The Python relay -/

/-- A dictionary of the Python relay. -/
abbrev Dict (ν : Type) := Finmap fun _ : ℕ => ν

structure PyRoom where
  crc : Dict (Dict ℕ)
  crcOk : ℕ

/-- `crc.pop(min(crc))`. -/
def popMin {ν : Type} (crc : Dict ν) : Dict ν :=
  if h : crc.keys.Nonempty then crc.erase (crc.keys.min' h) else crc

theorem popMin_of_least {ν : Type} {d : Dict ν} {t : ℕ} (h : t ∈ d) (hmin : ∀ k ∈ d, t ≤ k) :
    popMin d = d.erase t := by
  have hne : d.keys.Nonempty := ⟨t, Finmap.mem_keys.mpr h⟩
  have heq : d.keys.min' hne = t :=
    le_antisymm (Finset.min'_le _ _ (Finmap.mem_keys.mpr h))
      (Finset.le_min' _ _ _ fun k hk => hmin k (Finmap.mem_keys.mp hk))
  rw [popMin, dif_pos hne, heq]

/-- `sorted(entry.items())`. -/
def sortedItems (entry : Dict ℕ) : List (ℕ × ℕ) :=
  (entry.keys.sort).map fun seat => (seat, (entry.lookup seat).getD 0)

/-- `len(set(entry.values()))`. -/
def distinctValues (entry : Dict ℕ) : ℕ :=
  (entry.keys.image fun seat => (entry.lookup seat).getD 0).card

/-- The entry of a tick behind the insert. -/
def pyEntry (seat tick crc : ℕ) (t : Dict (Dict ℕ)) : Dict ℕ :=
  ((t.lookup tick).getD ∅).insert seat crc

/-- The table behind the insert and the eviction. -/
def pyInsert (seat tick crc : ℕ) (t : Dict (Dict ℕ)) : Dict (Dict ℕ) :=
  let t := t.insert tick (pyEntry seat tick crc t)
  if 64 < t.keys.card then popMin t else t

/-- `Server.log_crc` in a room of `members` members. -/
def pyLogCrc (members : ℕ) (payload : CrcPayload) (room : PyRoom) : PyRoom × Option Verdict :=
  let entry := pyEntry payload.seat payload.tick payload.crc room.crc
  let crc := pyInsert payload.seat payload.tick payload.crc room.crc
  if entry.keys.card < members then (⟨crc, room.crcOk⟩, none)
  else
    let crc := crc.erase payload.tick
    if distinctValues entry ≠ 1 then
      (⟨crc, room.crcOk⟩, some (.mismatch payload.tick (sortedItems entry)))
    else (⟨crc, room.crcOk + 1⟩, some (.agreed payload.tick (room.crcOk + 1)))

/-! ### The C relay -/

/-- `crcslot_t`. -/
structure CrcSlot where
  inUse : Bool
  seat : ℕ
  crc : ℕ
  deriving DecidableEq

def crcslots : Flagged CrcSlot ℕ ℕ := ⟨CrcSlot.inUse, CrcSlot.seat, CrcSlot.crc⟩

/-- `CRC_SEATS`. -/
@[simp] abbrev crcSeats : ℕ := 8

/-- `crcrow_t`. -/
structure CrcRow where
  inUse : Bool
  tick : ℕ
  nseats : ℤ
  s : List CrcSlot
  deriving DecidableEq

/-- The rows as a dictionary from ticks to what the seats have reported. -/
def crcrows : Flagged CrcRow ℕ (Dict ℕ) := ⟨CrcRow.inUse, CrcRow.tick, fun row => crcslots.dict row.s⟩

/-- What `room_t` keeps for the comparator. -/
structure CRoom where
  crc : List CrcRow
  ncrc : ℤ
  /-- A `uint32_t`. -/
  crcOk : ℕ

/-- A row of zeros. -/
def zeroRow : CrcRow := ⟨false, 0, 0, List.replicate crcSeats ⟨false, 0, 0⟩⟩

/-- `start_room`: the table is zeroed. -/
def CRoom.fresh : CRoom := ⟨List.replicate 65 zeroRow, 0, 0⟩

/-- The row of a tick, zeroed and claimed where there is none. -/
def findRow (tick : ℕ) (r : CRoom) : Option (ℕ × CRoom) :=
  match crcrows.place r.crc tick with
  | some i => some (i, r)
  | none => (crcrows.free r.crc).map fun i =>
    (i, { r with
      crc := r.crc.modify i fun _ => { zeroRow with inUse := true, tick := tick }
      ncrc := r.ncrc + 1 })

/-- The slot of a seat, claimed where there is none, and the store to it. -/
def putSeat (seat crc : ℕ) (row : CrcRow) : Option CrcRow :=
  match crcslots.place row.s seat with
  | some i => some { row with s := row.s.modify i fun e => { e with crc := crc } }
  | none => (crcslots.free row.s).map fun i =>
    { row with
      s := row.s.modify i fun e => { e with inUse := true, seat := seat, crc := crc }
      nseats := row.nseats + 1 }

/-- The eviction behind the insert. -/
def evictRow (r : CRoom) : CRoom :=
  if r.ncrc ≤ 64 then r
  else match crcrows.lowest r.crc with
    | none => r
    | some i => { r with
        crc := r.crc.modify i fun row => { row with inUse := false }
        ncrc := r.ncrc - 1 }

/-- The loop over the slots of a row: the first value, and whether the others are equal to it. -/
def agreeLoop (s : List CrcSlot) : Option ℕ × Bool :=
  s.foldl (fun (first, agree) e =>
    if !e.inUse then (first, agree)
    else match first with
      | none => (some e.crc, agree)
      | some v => (first, agree && decide (e.crc = v))) (none, true)

/-- The passes over the slots of a row, one for each seat byte, up to the last seat. -/
def seatPasses (row : CrcRow) : List (ℕ × ℕ) :=
  (List.range 256).foldl (fun out pass =>
    if (out.length : ℤ) < row.nseats then
      out ++ (row.s.filter fun e => e.inUse && decide (e.seat = pass)).map fun e => (e.seat, e.crc)
    else out) []

/-- How a call ends. -/
inductive CrcExit where
  /-- The return for a table without a free row. -/
  | noRow
  /-- The return for a row without a free slot. -/
  | noSlot
  | done
  deriving DecidableEq

/-- What a call does; `seats` is the number of seats of the row it has entered the report in. -/
structure CrcCall where
  room : CRoom
  verdict : Option Verdict
  exit : CrcExit
  seats : ℤ

/-- `log_crc` in a room of `members` members.  Eviction clears a row's flag and nothing else, so the row
the report went to can be read as it was before. -/
def cLogCrc (members : ℕ) (payload : CrcPayload) (r : CRoom) : CrcCall :=
  match findRow payload.tick r with
  | none => ⟨r, none, .noRow, 0⟩
  | some (i, r) =>
    match putSeat payload.seat payload.crc (r.crc.getD i zeroRow) with
    | none => ⟨r, none, .noSlot, (r.crc.getD i zeroRow).nseats⟩
    | some row =>
      let r := evictRow { r with crc := r.crc.set i row }
      if row.nseats < members then ⟨r, none, .done, row.nseats⟩
      else
        let r := if (r.crc.getD i row).inUse then { r with
            crc := r.crc.modify i fun row => { row with inUse := false }
            ncrc := r.ncrc - 1 }
          else r
        if (agreeLoop row.s).2 then
          let r := { r with crcOk := (r.crcOk + 1) % 2 ^ 32 }
          ⟨r, some (.agreed payload.tick r.crcOk), .done, row.nseats⟩
        else ⟨r, some (.mismatch payload.tick (seatPasses row)), .done, row.nseats⟩

end IntvNetplay.Relay
