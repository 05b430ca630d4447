import IntvNetplay.Console.Session

/-!
# The lockstep engine (`src/netcode/lockstep.asm`)

`LS_PASS` replaces the game tick while a match is on.  A pass is cut here where it pumps the mailbox
and where it sends: the entry tests, the hold path, the capture, the gate with its stall loop, and
the run of a tick up to the return.
-/

namespace IntvNetplay.Console

open IntvNetplay.Machine

/-- Freeze the ISR phase counter, once. -/
def lsFreeze (s : Cpu) : Cpu :=
  if s.rd lsFroze ≠ 0 then s
  else
    let s := s.st lsFroze 1
    let s := s.st lsSave102 (s.rd execPhase)
    s.st execPhase 0

/-- `@@ls_run` up to `@@ls_nf`: undo the freeze. -/
def lsUnfreeze (s : Cpu) : Cpu :=
  if s.rd lsFroze = 0 then s
  else
    let s := s.st lsFroze 0
    let s := s.st lsWaitcLo 0
    let s := s.st lsWaitcHi 0
    s.st execPhase (s.rd lsSave102)

/-- The match is over: idle inputs from here on. -/
def lsDrop (s : Cpu) : Cpu := (s.st peerWhy 0).st netDropped 1

@[simp] abbrev rsHoldTmo : ℕ := 0x0600
@[simp] abbrev lsTimeout : ℕ := 900

/-- The hold path after its pump: count the round, give up after `RS_HOLD_TMO`. -/
def holdTail (s : Cpu) : Cpu :=
  let lo := s.rd rsToLo + 1
  let s := s.st rsToLo lo
  if lo ≠ 0x100 then s
  else
    let hi := s.rd rsToHi + 1
    let s := s.st rsToHi hi
    if hi < rsHoldTmo / 256 then s else lsIdleRmt ((lsDrop s).st resyncHold 0)

/-- The stall loop after its pump: count the round, give up after `LS_TIMEOUT`. -/
def stallTail (s : Cpu) : Cpu :=
  let lo := s.rd lsWaitcLo + 1
  let s := s.st lsWaitcLo lo
  if lo ≠ 0x100 then s
  else
    let hi := s.rd lsWaitcHi + 1
    let s := s.st lsWaitcHi hi
    if hi < lsTimeout / 256 then s else lsIdleRmt (lsDrop s)

/-- `T + d`. -/
def dueTick (s : Cpu) : ℕ := (s.tick + s.rd netDelay) % 65536

/-- Capture the local input and store it in the own seat's pages. -/
def lsCapture (s : Cpu) : Cpu :=
  let a := (seatRing + s.rd netSeat * 256 + dueTick s % 256) % 65536
  let a' := (a + 0x400) % 65536
  let s := s.st lsTmpb (s.rd execInL)
  let s := s.st lsTmpb2 (s.rd execKpL)
  let s := s.st a (s.rd lsTmpb)
  let s := s.st a' (s.rd lsTmpb2)
  s.emit (.capture (s.rd lsTmpb) (s.rd lsTmpb2) a a')

/-- The INPUT frame of the capture for a tick. -/
def inputFrame (tick : ℕ) (s : Cpu) : List ℕ :=
  [6, ftInput, s.rd netSeat, tick % 256, tick / 256, s.rd lsTmpb, s.rd lsTmpb2]

/-- Capture and send. -/
def lsSend (s : Cpu) : Cpu :=
  let tick := dueTick s
  let s := lsCapture s
  sendFrame (inputFrame tick s) s

/-- Is the watermark of a remote seat behind the tick counter? -/
def seatBehind (s : Cpu) (seat : ℕ) : Bool :=
  decide (seat ≠ s.rd netSeat) && minus (sub16 (s.wm seat) s.tick)

/-- `@@ls_gate`.  The loop over the seats tests at its end. -/
def gateOpen (s : Cpu) : Bool :=
  decide (s.rd netDropped ≠ 0) ||
    (List.range (max 1 (s.rd netCount))).all fun seat => !seatBehind s seat

/-- The tick counter goes up. -/
def tickUp (s : Cpu) : Cpu :=
  let lo := s.rd tickLo + 1
  let s := { s with mark := { s.mark with ran := s.mark.ran + 1 } }
  let s := s.st tickLo lo
  if lo ≠ 0x100 then s else s.st tickHi (s.rd tickHi + 1)

/-- The CRC frame of the staged checksum. -/
def crcFrame (s : Cpu) : List ℕ :=
  [6, ftCrc, s.rd netSeat, s.rd tickLo, s.rd tickHi, s.rd lsTmpb, s.rd lsTmpb2]

/-- Reassert the display, stage the checksum, record it. -/
def reportPrepare (s : Cpu) : Cpu :=
  let s := rsDisplayReset s
  let c := lsCksum s
  rsRecordCrc ((s.st lsTmpb c).st lsTmpb2 (c / 256))

/-- The log notes the staged checksum. -/
def noteReport (s : Cpu) : Cpu := s.emit (.report s.tick (s.rd16 lsTmpb lsTmpb2))

/-- Report the staged checksum. -/
def sendReport (s : Cpu) : Cpu := sendFrame (crcFrame s) s

/-- The checksum report of every 64th tick. -/
def lsReport (s : Cpu) : Cpu :=
  if s.rd tickLo % 64 ≠ 0 then s else sendReport (noteReport (reportPrepare s))

/-- `NAME_DRAW`. -/
def nameDraw (s : Cpu) : Cpu :=
  let seat := s.rd arbSeat
  if 4 ≤ seat then s
  else
    let s := s.st uiColor (seatClr s seat)
    let s := s.stAll (backtab + 220) (List.replicate 11 0)
    let s := s.st (backtab + 220) (cardDigit (seat + 1) (s.rd uiColor))
    let s := uiPrintn 222 (nameTbl + 9 * seat) 8 s
    s.st uiColor cWhite

/-- `@@ls_run` up to the game tick: shadows, virtual dispatch, the game tick. -/
def lsTick (C : Cart) (s : Cpu) : Cpu :=
  let s := lsUnfreeze s
  let s := s.emit (.due (s.rd sbCnt2Lo) (s.rd sbCnt2Hi))
  let s := installTable (lsTblAdopt (updateShadow s))
  let s := shadowFromRings s
  let s := dispatchSeat C 1 (dispatchSeat C 0 s)
  let s := nullTable (lsTblAdopt s)
  nullTable (lsTblAdopt (scGameTick C s))

/-- `@@ls_run` up to the return. -/
def lsRun (C : Cart) (s : Cpu) : Cpu :=
  let s := tickUp (lsReport (lsTick C s))
  rsPending (if s.rd tickLo % 16 ≠ 0 then s else nameDraw s)

/-- `MASTER_TICK` returns to the dispatcher. -/
def lsReturn (s : Cpu) : Cpu :=
  { s with mark := { s.mark with rets := s.mark.rets + 1, held := false } }

/-- The hold path begins. -/
def lsHold (s : Cpu) : Cpu :=
  let s := lsFreeze s
  { s with mark := { s.mark with held := true } }

/-- `DANCE_SETTLE`, its wait being over. -/
def danceSettle (s : Cpu) : Cpu :=
  if s.rd (execIsr + 1) ≠ 0 then s
  else (s.st execIsr (execIsrDef % 256)).st (execIsr + 1) (execIsrDef / 256)

/-- `LS_PEER_LEFT`. -/
def lsPeerLeft (s : Cpu) : Cpu :=
  let s := uiCls (uiDisplayNormalize (danceSettle s))
  let s :=
    if s.rd peerWhy = 0 then uiPrint 82 "CONNECTION LOST" s else uiPrint 83 "PLAYER LEFT" s
  let s := uiPrintn 126 leftName 9 s
  let s := uiPrint 202 "SLIP REJ TMO ERR" (uiPrint 184 "PRESS RESET" s)
  let s := uiHex2 (s.rd diagRej) 227 (uiHex2 (s.rd diagSlip) 222 s)
  uiHex2 (s.rd diagErr) 235 (uiHex2 (s.rd diagTmo) 231 s)

/-- `@@ls_gone`: the terminal screen. -/
def lsGone (s : Cpu) : Cpu := (lsPeerLeft (lsFreeze s)).st peerScr 1

end IntvNetplay.Console
