import IntvNetplay.Console.Hook
import IntvNetplay.Console.Image
import IntvNetplay.Console.Mailbox

/-!
# Desync detection and resync (`src/netcode/resync.asm`)

Both consoles record a checksum every 64 ticks and compare the peer's against the record of the same
tick.  On a mismatch the guest asks for a push and the host pushes: BEGIN with the resume tick, the
image in chunks, END.  Both then rebase.
-/

namespace IntvNetplay.Console

open IntvNetplay.Machine

/-! ### Frame types -/

@[simp] abbrev ftHello : ℕ := 0x01
@[simp] abbrev ftList : ℕ := 0x02
@[simp] abbrev ftLobby : ℕ := 0x03
@[simp] abbrev ftJoin : ℕ := 0x04
@[simp] abbrev ftStart : ℕ := 0x05
@[simp] abbrev ftInput : ℕ := 0x06
@[simp] abbrev ftCrc : ℕ := 0x07
@[simp] abbrev ftState : ℕ := 0x08
@[simp] abbrev ftResync : ℕ := 0x09
@[simp] abbrev ftPeerLeft : ℕ := 0x0B
@[simp] abbrev ftRoom : ℕ := 0x0E
@[simp] abbrev ftGo : ℕ := 0x0F

/-! ### Checksum records -/

/-- The record of a tick in the ring `OWN_CRC`, by the low byte of the tick. -/
def crcSlot (lo : ℕ) : ℕ := ownCrc + lo / 64 % 8 * 4

/-- `RS_CLR_CRC`: the fill is not a checkpoint's low byte. -/
def rsClrCrc (s : Cpu) : Cpu := s.stAll ownCrc (List.replicate 32 0xFF)

/-- `RS_RECORD_CRC`. -/
def rsRecordCrc (s : Cpu) : Cpu :=
  s.stAll (crcSlot (s.rd tickLo)) [s.rd tickLo, s.rd tickHi, s.rd lsTmpb, s.rd lsTmpb2]

/-- The tick of the CRC or INPUT frame in `FRMBUF`. -/
def frameTick (s : Cpu) : ℕ := s.rd16 (frmbuf + 3) (frmbuf + 4)

/-- The checksum of the CRC frame in `FRMBUF`. -/
def frameCrc (s : Cpu) : ℕ := s.rd16 (frmbuf + 5) (frmbuf + 6)

/-- The record the CRC frame in `FRMBUF` is compared against: its address, tick and checksum. -/
def recordAt (s : Cpu) : ℕ := crcSlot (s.rd (frmbuf + 3))

def recordTick (s : Cpu) : ℕ := s.rd16 (recordAt s) (recordAt s + 1)

def recordCrc (s : Cpu) : ℕ := s.rd16 (recordAt s + 2) (recordAt s + 3)

/-- `RS_ON_CRC` at `@@rc_bad`: a resync is wanted, and the guest asks the host for one. -/
def rsWant (s : Cpu) : Cpu :=
  let s := s.emit (.mismatch (frameTick s) (recordCrc s) (frameCrc s))
  let s := s.st rsPend 1
  let s := s.st rsPtmo 0
  if s.rd netSeat = 0 then s
  else sendFrame [3, ftResync, s.rd (frmbuf + 3), s.rd (frmbuf + 4)] s

/-- `RS_ON_CRC`. -/
def rsOnCrc (s : Cpu) : Cpu :=
  if s.rd frmbuf < 6 then s
  else
    let s := s.emit (.crcIn (frameTick s) (frameCrc s))
    if s.rd resyncHold ≠ 0 then s
    else if s.rd rsPend ≠ 0 then s
    else if recordTick s ≠ frameTick s then s
    else if recordCrc s = frameCrc s then s
    else rsWant s

/-- `RS_ON_REQ`.  The tick in the frame is not looked at. -/
def rsOnReq (s : Cpu) : Cpu :=
  let tick := s.rd16 (frmbuf + 2) (frmbuf + 3)
  if s.rd netSeat ≠ 0 ∨ s.rd resyncHold ≠ 0 ∨ s.rd rsPend ≠ 0 then s.emit (.request tick false)
  else ((s.emit (.request tick true)).st rsPend 1).st rsPtmo 0

/-! ### Rebase -/

/-- `RS_DISPLAY_RESET`: the static half of the display state, from the cart header. -/
def rsDisplayReset (s : Cpu) : Cpu :=
  let s := s.st 0x0032 (s.rd 0x500D)
  s.stAll 0x0028 (s.rdAll 0x500F 5)

/-- `RS_CLAMP_ISR`. -/
def rsClampIsr (s : Cpu) : Cpu :=
  let s := s.st scIsrSave (execIsrDef % 256)
  let s := s.st execIsr (execIsrDef % 256)
  let s := s.st (scIsrSave + 1) (execIsrDef / 256)
  s.st (execIsr + 1) (execIsrDef / 256)

/-- All four watermarks. -/
def setWms (lo hi : ℕ) (s : Cpu) : Cpu := s.stAll seatWm [lo, hi, lo, hi, lo, hi, lo, hi]

/-- `RS_ENTER_HOLD`. -/
def rsEnterHold (s : Cpu) : Cpu := rsClrCrc (((s.st resyncHold 1).st rsToLo 0).st rsToHi 0)

/-- `R + d - 1`, the watermark of a rebase. -/
def rebaseWm (s : Cpu) : ℕ := (s.rd16 rsRLo rsRHi + s.rd netDelay + 65535) % 65536

/-- The flags and counters that `RS_REBASE` clears at its end. -/
def rsReleaseHold (s : Cpu) : Cpu :=
  let s := s.st resyncHold 0
  let s := s.st rsToLo 0
  let s := s.st rsToHi 0
  let s := s.st lsWaitcLo 0
  s.st lsWaitcHi 0

/-- `RS_REBASE` up to the tick counter: what it makes of the machine state. -/
def rsInstall (s : Cpu) : Cpu :=
  sbRebaseHook (rsClampIsr (rsDisplayReset ((s.st rsPend 0).st rsPtmo 0)))

/-- The tick counter takes the resume tick. -/
def loadTick (s : Cpu) : Cpu :=
  let s := s.st tickLo (s.rd rsRLo)
  s.st tickHi (s.rd rsRHi)

/-- `RS_REBASE` at `@@rb_wm`. -/
def pinWms (s : Cpu) : Cpu := setWms (rebaseWm s % 256) (rebaseWm s / 256) s

/-- `RS_REBASE` from the tick counter on. -/
def rsRestart (s : Cpu) : Cpu := rsReleaseHold (rsClrCrc (pinWms (lsRingInit (loadTick s))))

/-- The counters start again, and the log notes what the rebase left. -/
def noteRebase (s : Cpu) : Cpu :=
  let held := s.mark.held
  let s := s.newBase
  let s := { s with mark := { s.mark with raw := false } }
  s.emit (.rebase s.tick (image s) (lsCksum s) held)

/-- `RS_REBASE`. -/
def rsRebase (s : Cpu) : Cpu := noteRebase (rsRestart (rsInstall s))

/-! ### Push -/

def stateFrame (pos : ℕ) (bytes : List ℕ) : List ℕ :=
  (bytes.length + 3) :: ftState :: pos % 256 :: pos / 256 :: bytes

/-- The control positions BEGIN and END. -/
@[simp] abbrev posBegin : ℕ := 0xFF00
@[simp] abbrev posEnd : ℕ := 0xFF01

/-- `RS_PUSH` up to the chunks: hold, the resume tick, BEGIN. -/
def pushBegin (s : Cpu) : Cpu :=
  let s := s.emit (.push s.tick)
  let s := rsEnterHold s
  let r := (s.tick + 16) % 65536
  let s := s.st rsRLo r
  let s := s.st rsRHi (r / 256)
  let s := sendFrame (stateFrame posBegin [s.rd rsRLo, s.rd rsRHi]) s
  (s.st rsPosLo 0).st rsPosHi 0

/-- One round of `@@ps_chunk`. -/
def pushChunk (s : Cpu) : Cpu :=
  let pos := s.rd16 rsPosLo rsPosHi
  let n := if imgTotal - pos < rsChunk then imgTotal - pos else rsChunk
  let bytes := imgRange s pos n
  let s := s.st rsTmp2 0
  let s := s.st lsTmpb n
  let s := s.st rsPosLo (pos + n)
  let s := s.st rsPosHi ((pos + n) / 256)
  sendFrame (stateFrame pos bytes) s

/-- The chunk loop, in at most the given number of rounds. -/
def pushChunks : ℕ → Cpu → Cpu
  | 0, s => s
  | n + 1, s => if s.rd16 rsPosLo rsPosHi = imgTotal then s else pushChunks n (pushChunk s)

/-- `RS_PUSH`. -/
def rsPush (s : Cpu) : Cpu :=
  let s := pushChunks 10 (pushBegin s)
  rsRebase (sendFrame (stateFrame posEnd []) s)

@[simp] abbrev rsPendMax : ℕ := 60

/-- `RS_PENDING` at `@@rp_mark`. -/
def rsFire (gate : ℕ) (s : Cpu) : Cpu :=
  let s := s.st rsGate gate
  let s := s.st rsWaited (s.rd rsPtmo)
  rsPush s

/-- `RS_PENDING`. -/
def rsPending (s : Cpu) : Cpu :=
  if s.rd rsPend = 0 ∨ s.rd netSeat ≠ 0 ∨ s.rd resyncHold ≠ 0 then s
  else
    let s := s.st rsPtmo (s.rd rsPtmo + 1)
    if s.rd scPhase &&& scPhaseDead ≠ 0 then rsFire 1 s
    else if s.rd rsPtmo < rsPendMax then s
    else rsFire 2 s

/-! ### Apply -/

/-- `RS_ON_STATE` at `@@rs_bad`. -/
def rsBad (s : Cpu) : Cpu := diagBump diagRej s

/-- The loop `@@rs_dl`: `n` bytes of the frame to the positions from `pos` on. -/
def applyBytes (pos n : ℕ) (s : Cpu) : Cpu :=
  (List.range n).foldl (fun s i => imgPut (s.rd (frmbuf + 4 + i)) (pos + i) s) s

/-- A data chunk that passed its checks. -/
def rsApply (pos n : ℕ) (s : Cpu) : Cpu :=
  let s := s.emit (.chunk pos n)
  let s := { s with mark := { s.mark with raw := true } }
  let s := applyBytes pos n s
  let s := s.st rsPosLo (pos + n)
  let s := s.st rsPosHi ((pos + n) / 256)
  s.st rsTmp2 0

/-- `RS_ON_STATE`, a data chunk. -/
def rsOnChunk (s : Cpu) : Cpu :=
  let n := s.rd frmbuf - 3
  let pos := s.rd16 (frmbuf + 2) (frmbuf + 3)
  if s.rd resyncHold = 0 then rsBad s
  else if n = 0 then rsBad s
  else if 4 ≤ s.rd (frmbuf + 3) then rsBad (s.st rsTmp2 n)
  else if imgTotal + 1 ≤ pos + n then rsBad (s.st rsTmp2 n)
  else rsApply pos n s

/-- `RS_ON_STATE` at `@@rs_ctl`: BEGIN and END. -/
def rsOnControl (s : Cpu) : Cpu :=
  if s.rd (frmbuf + 2) = 0 then
    if s.rd frmbuf < 5 then rsBad s
    else
      let s := rsEnterHold s
      let s := s.st rsRLo (s.rd (frmbuf + 4))
      s.st rsRHi (s.rd (frmbuf + 5))
  else if s.rd (frmbuf + 2) ≠ 1 then s
  else if s.rd resyncHold = 0 then s
  else rsRebase s

/-- `RS_ON_STATE`. -/
def rsOnState (s : Cpu) : Cpu :=
  if s.rd frmbuf < 3 then rsBad s
  else if s.rd (frmbuf + 3) = 0xFF then rsOnControl s
  else rsOnChunk s

end IntvNetplay.Console
