import IntvNetplay.Console.Ram
import IntvNetplay.Machine.Word

/-!
# The console

`Cpu` is the memory of one console together with the bytes it has handed to the network.  Three more
fields are bookkeeping that no routine reads: the addresses stored to, a log of what the engine did,
and the counters that stamp its entries.  An entry of the log carries the number of the *base* the
console was on (how many START frames and rebases it had processed), how many game ticks it had run
since and how often `MASTER_TICK` had returned since.
-/

namespace IntvNetplay.Console

open IntvNetplay.Machine

/-- What the engine did, as far as the statements about it need to know. -/
inductive Ev where
  /-- A START frame was taken. -/
  | start (seat count delay : ℕ)
  /-- A ROOM frame was taken. -/
  | room (count : ℕ)
  /-- `LS_PASS` captured its own input and stored it at these two ring cells. -/
  | capture (dec kp ringAddr kpAddr : ℕ)
  /-- An INPUT frame was handled; `off` is its tick counted from the base. -/
  | input (seat tick dec kp off : ℕ) (taken : Bool)
  /-- The ring cells and the watermark an accepted INPUT frame was stored at. -/
  | slot (ringAddr kpAddr wmAddr : ℕ)
  /-- The gate let a tick through with this native countdown. -/
  | due (lo hi : ℕ)
  /-- `SHADOW_FROM_RINGS` produced these four cells. -/
  | shadow (l r kl kr : ℕ)
  /-- `LS_VDISPATCH` read these four ring cells for a seat. -/
  | dispatch (seat cur prev kp kpPrev : ℕ)
  /-- `SC_GAME_TICK` was entered with this `SB_PHASE`. -/
  | gameTick (phase : ℕ)
  /-- `SC_GAME_TICK` mirrored the native countdown. -/
  | mirror (lo hi : ℕ)
  /-- A checksum was recorded for the tick and sent. -/
  | report (tick crc : ℕ)
  /-- A peer's CRC frame was handled. -/
  | crcIn (tick crc : ℕ)
  /-- `RS_ON_CRC` set `RS_PEND`: own record against the peer's value. -/
  | mismatch (tick own peer : ℕ)
  /-- A RESYNC request was handled; `taken`: it set `RS_PEND`. -/
  | request (tick : ℕ) (taken : Bool)
  /-- `RS_PUSH` was entered with this tick counter. -/
  | push (tick : ℕ)
  /-- A STATE data chunk was applied. -/
  | chunk (pos n : ℕ)
  /-- `RS_REBASE` returned: the tick counter, the 769 image bytes and the checksum there; `held`: it
  was called from the hold path of `LS_PASS`. -/
  | rebase (tick : ℕ) (image : List ℕ) (crc : ℕ) (held : Bool)
  deriving DecidableEq

/-- A log entry and where the console stood. -/
structure Stamped where
  /-- START frames and rebases processed. -/
  epoch : ℕ
  /-- Game ticks run since the base. -/
  ran : ℕ
  /-- Returns of `MASTER_TICK` since the base. -/
  rets : ℕ
  /-- An image byte was applied and no `RS_REBASE` has run since. -/
  raw : Bool
  ev : Ev
  deriving DecidableEq

/-- Where the console stands: the counters that stamp the log. -/
structure Mark where
  epoch : ℕ
  ran : ℕ
  rets : ℕ
  raw : Bool
  /-- `LS_PASS` is in its hold path. -/
  held : Bool
  /-- The watermark of a seat, counted from the base. -/
  heard : ℕ → ℕ

/-- A log entry made here. -/
def Mark.stamp (m : Mark) (e : Ev) : Stamped := ⟨m.epoch, m.ran, m.rets, m.raw, e⟩

@[simp] theorem Mark.stamp_epoch (m : Mark) (e : Ev) : (m.stamp e).epoch = m.epoch := rfl
@[simp] theorem Mark.stamp_ran (m : Mark) (e : Ev) : (m.stamp e).ran = m.ran := rfl
@[simp] theorem Mark.stamp_rets (m : Mark) (e : Ev) : (m.stamp e).rets = m.rets := rfl
@[simp] theorem Mark.stamp_raw (m : Mark) (e : Ev) : (m.stamp e).raw = m.raw := rfl
@[simp] theorem Mark.stamp_ev (m : Mark) (e : Ev) : (m.stamp e).ev = e := rfl

/-- ROM words that the assembler places and no source line fixes. -/
structure Rom where
  /-- The words behind the two entries of `SEAT_CLR_TBL`. -/
  clrTail : ℕ → ℕ
  /-- The address `NET_NULL_TBL + 4`. -/
  nullTbl : ℕ

structure Cpu where
  mem : Mem
  rom : Rom
  /-- The bytes handed to the network by `NET_WRITE` since the last START frame, in order. -/
  tx : List ℕ
  /-- Addresses stored to, newest first. -/
  stores : List ℕ
  /-- Newest first. -/
  log : List Stamped
  mark : Mark

namespace Cpu

/-- `MVI a`. -/
def rd (s : Cpu) (a : ℕ) : ℕ := s.mem.get a

/-- `MVO v, a`. -/
def st (s : Cpu) (a v : ℕ) : Cpu := { s with mem := s.mem.set a v, stores := a :: s.stores }

/-- A run of `MVO@` stores through an auto-incremented pointer. -/
def stAll (s : Cpu) (a : ℕ) (vs : List ℕ) : Cpu :=
  { s with mem := s.mem.setAll a vs, stores := List.range' a vs.length ++ s.stores }

/-- The cells from `a` on, read through an auto-incremented pointer. -/
def rdAll (s : Cpu) (a n : ℕ) : List ℕ := (List.range' a n).map s.rd

/-- A cell changed by somebody else than the console's own code. -/
def poke (s : Cpu) (a v : ℕ) : Cpu := { s with mem := s.mem.set a v }

def pokeAll (s : Cpu) (a : ℕ) (vs : List ℕ) : Cpu := { s with mem := s.mem.setAll a vs }

def emit (s : Cpu) (e : Ev) : Cpu := { s with log := s.mark.stamp e :: s.log }

/-- Code of the cartridge runs. -/
def call (s : Cpu) (f : Mem → Mem) : Cpu := { s with mem := f s.mem }

/-- A 16-bit value kept in a low and a high cell. -/
def rd16 (s : Cpu) (lo hi : ℕ) : ℕ := word (s.rd lo) (s.rd hi)

/-- The tick counter. -/
def tick (s : Cpu) : ℕ := s.rd16 tickLo tickHi

theorem tick_congr {s t : Cpu} (hlo : t.rd tickLo = s.rd tickLo) (hhi : t.rd tickHi = s.rd tickHi) :
    t.tick = s.tick := by
  rw [tick, tick, rd16, rd16, hlo, hhi]

/-- The watermark of a seat. -/
def wm (s : Cpu) (seat : ℕ) : ℕ := s.rd16 (seatWm + 2 * seat) (seatWm + 2 * seat + 1)

theorem wm_congr {s t : Cpu} {seat : ℕ} (hlo : t.rd (seatWm + 2 * seat) = s.rd (seatWm + 2 * seat))
    (hhi : t.rd (seatWm + 2 * seat + 1) = s.rd (seatWm + 2 * seat + 1)) : t.wm seat = s.wm seat := by
  rw [wm, wm, rd16, rd16, hlo, hhi]

/-- The console starts counting from a new base. -/
def newBase (s : Cpu) : Cpu :=
  { s with mark := { s.mark with
      epoch := s.mark.epoch + 1, ran := 0, rets := 0, heard := fun _ => s.rd netDelay - 1 } }

section simps

variable (s : Cpu) (a v x n : ℕ) (vs : List ℕ) (e : Ev)

@[simp] theorem rd_st : (s.st a v).rd x = if x = a then v % 2 ^ cellBits a else s.rd x := rfl
@[simp] theorem rom_st : (s.st a v).rom = s.rom := rfl
@[simp] theorem tx_st : (s.st a v).tx = s.tx := rfl
@[simp] theorem log_st : (s.st a v).log = s.log := rfl
@[simp] theorem mark_st : (s.st a v).mark = s.mark := rfl
@[simp] theorem stores_st : (s.st a v).stores = a :: s.stores := rfl

theorem rd_stAll : (s.stAll a vs).rd x =
    if a ≤ x ∧ x < a + vs.length then vs.getD (x - a) 0 % 2 ^ cellBits x else s.rd x :=
  Cells.get_setAll _ _ _ _

@[simp] theorem rd_stAll_replicate : (s.stAll a (List.replicate n v)).rd x =
    if a ≤ x ∧ x < a + n then v % 2 ^ cellBits x else s.rd x :=
  Cells.get_setAll_replicate _ _ _ _ _

theorem rd_stAll_of_not (h : x < a ∨ a + vs.length ≤ x) : (s.stAll a vs).rd x = s.rd x :=
  Cells.get_setAll_of_not _ h

@[simp] theorem rom_stAll : (s.stAll a vs).rom = s.rom := rfl
@[simp] theorem tx_stAll : (s.stAll a vs).tx = s.tx := rfl
@[simp] theorem log_stAll : (s.stAll a vs).log = s.log := rfl
@[simp] theorem mark_stAll : (s.stAll a vs).mark = s.mark := rfl
@[simp] theorem stores_stAll :
    (s.stAll a vs).stores = List.range' a vs.length ++ s.stores := rfl

@[simp] theorem rd_poke : (s.poke a v).rd x = if x = a then v % 2 ^ cellBits a else s.rd x := rfl
@[simp] theorem rom_poke : (s.poke a v).rom = s.rom := rfl
@[simp] theorem tx_poke : (s.poke a v).tx = s.tx := rfl
@[simp] theorem log_poke : (s.poke a v).log = s.log := rfl
@[simp] theorem mark_poke : (s.poke a v).mark = s.mark := rfl
@[simp] theorem stores_poke : (s.poke a v).stores = s.stores := rfl

theorem rd_pokeAll : (s.pokeAll a vs).rd x =
    if a ≤ x ∧ x < a + vs.length then vs.getD (x - a) 0 % 2 ^ cellBits x else s.rd x :=
  Cells.get_setAll _ _ _ _

theorem rd_pokeAll_of_not (h : x < a ∨ a + vs.length ≤ x) : (s.pokeAll a vs).rd x = s.rd x :=
  Cells.get_setAll_of_not _ h

@[simp] theorem rom_pokeAll : (s.pokeAll a vs).rom = s.rom := rfl
@[simp] theorem tx_pokeAll : (s.pokeAll a vs).tx = s.tx := rfl
@[simp] theorem log_pokeAll : (s.pokeAll a vs).log = s.log := rfl
@[simp] theorem mark_pokeAll : (s.pokeAll a vs).mark = s.mark := rfl
@[simp] theorem stores_pokeAll : (s.pokeAll a vs).stores = s.stores := rfl

@[simp] theorem rd_emit : (s.emit e).rd x = s.rd x := rfl
@[simp] theorem rom_emit : (s.emit e).rom = s.rom := rfl
@[simp] theorem tx_emit : (s.emit e).tx = s.tx := rfl
@[simp] theorem log_emit : (s.emit e).log = s.mark.stamp e :: s.log := rfl
@[simp] theorem mark_emit : (s.emit e).mark = s.mark := rfl
@[simp] theorem stores_emit : (s.emit e).stores = s.stores := rfl

@[simp] theorem rd_call (f : Mem → Mem) : (s.call f).rd x = (f s.mem).get x := rfl
@[simp] theorem rom_call (f : Mem → Mem) : (s.call f).rom = s.rom := rfl
@[simp] theorem tx_call (f : Mem → Mem) : (s.call f).tx = s.tx := rfl
@[simp] theorem log_call (f : Mem → Mem) : (s.call f).log = s.log := rfl
@[simp] theorem mark_call (f : Mem → Mem) : (s.call f).mark = s.mark := rfl
@[simp] theorem stores_call (f : Mem → Mem) : (s.call f).stores = s.stores := rfl

@[simp] theorem rd_newBase : s.newBase.rd x = s.rd x := rfl
@[simp] theorem rom_newBase : s.newBase.rom = s.rom := rfl
@[simp] theorem tx_newBase : s.newBase.tx = s.tx := rfl
@[simp] theorem log_newBase : s.newBase.log = s.log := rfl
@[simp] theorem mark_newBase : s.newBase.mark = { s.mark with
    epoch := s.mark.epoch + 1, ran := 0, rets := 0, heard := fun _ => s.rd netDelay - 1 } := rfl
@[simp] theorem stores_newBase : s.newBase.stores = s.stores := rfl

end simps

theorem rd_lt (s : Cpu) (a : ℕ) : s.rd a < 2 ^ cellBits a := s.mem.lt a

theorem rd_lt_256 (s : Cpu) {a : ℕ}
    (h : 0x0100 ≤ a ∧ a < 0x0200 ∨ 0x8000 ≤ a ∧ a < 0xA000) : s.rd a < 256 := by
  have := s.rd_lt a
  rwa [cellBits_byte h] at this

theorem rd_mod_256 (s : Cpu) {a : ℕ}
    (h : 0x0100 ≤ a ∧ a < 0x0200 ∨ 0x8000 ≤ a ∧ a < 0xA000) : s.rd a % 256 = s.rd a :=
  Nat.mod_eq_of_lt (s.rd_lt_256 h)

theorem rd_lt_65536 (s : Cpu) (a : ℕ) : s.rd a < 65536 := by
  refine Nat.lt_of_lt_of_le (s.rd_lt a) ?_
  unfold cellBits
  split <;> decide

theorem tick_lt (s : Cpu) : s.tick < 65536 :=
  word_lt (s.rd_lt_256 (by decide)) (s.rd_lt_256 (by decide))

end Cpu

end IntvNetplay.Console
