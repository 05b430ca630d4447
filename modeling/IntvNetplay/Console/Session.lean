import IntvNetplay.Console.Resync
import IntvNetplay.Console.Text

/-!
# The session (`src/netcode/session.asm`)

`SES_PUMP` moves what the mailbox has into a circular buffer of 256 cells, extracts complete frames
and dispatches them; `SES_ONFRAME` and its handlers act on the frame in `FRMBUF`.  What the mailbox
answers to the two transactions of a pump is an argument.
-/

namespace IntvNetplay.Console

open IntvNetplay.Machine

/-- What the mailbox answers to the STATUS and the READ of one pump. -/
structure Poll where
  status : Option Reply
  read : Option Reply

/-! ### Screens -/

/-- `SEAT_CLR_TBL`: two entries, then whatever the assembler placed behind them. -/
def seatClr (s : Cpu) (seat : ℕ) : ℕ :=
  if seat = 0 then cYellow else if seat = 1 then cWhite else s.rom.clrTail (seat - 2)

/-- The digit card of `SES_ROSTER` and of the room screen. -/
def cardDigit (n color : ℕ) : ℕ := (n + 16) * 8 % 65536 ^^^ color

/-- One row of `SES_ROSTER` up to the name: colour, offset, digit. -/
def rosterDigit (seat : ℕ) (s : Cpu) : Cpu :=
  let s := s.st uiColor (seatClr s seat)
  let off := 20 * (3 + seat) + 4
  let s := s.st ppTmp off
  s.st (backtab - 2 + off) (cardDigit (seat + 1) (s.rd uiColor))

/-- One row of `SES_ROSTER` from the marker on. -/
def rosterMark (seat : ℕ) (s : Cpu) : Cpu :=
  if s.rd netActive ≠ 0 ∧ s.rd netSeat = seat then s.st (backtab - 4 + s.rd ppTmp) cardMark
  else s

/-- One row of `SES_ROSTER`. -/
def sesRosterRow (seat : ℕ) (s : Cpu) : Cpu :=
  let s := rosterDigit seat s
  rosterMark seat (uiPrintn (s.rd ppTmp) (nameTbl + seat * 9) 8 s)

/-- `SES_ROSTER`.  The loop tests at its end: one row is printed even for a count of 0. -/
def sesRoster (s : Cpu) : Cpu :=
  let count := if s.rd netActive = 0 then s.rd roomCnt else s.rd netCount
  ((List.range (max 1 count)).foldl (fun s seat => sesRosterRow seat s) s).st uiColor cWhite

/-- `SES_ROOMSCR`. -/
def sesRoomscr (s : Cpu) : Cpu :=
  let s := uiPrint 20 "WAITING ROOM   OF 2" (uiPrint 0 "SOCCER NETPLAY" (uiCls s))
  let s := s.st (backtab + 20 + 13) (cardDigit (s.rd roomCnt) cWhite)
  let s := sesRoster s
  if s.rd roomHost = 0 then uiPrint 180 "WAITING FOR HOST    " s
  else uiPrint 180 "ENTER = START GAME  " s

@[simp] abbrev rowPrompt : ℕ := 60
@[simp] abbrev rowList : ℕ := 4

/-- One row of `SES_RENDER` up to the name: offset, colour. -/
def renderStart (i status : ℕ) (s : Cpu) : Cpu :=
  let s := s.st ppTmp (20 * (rowList + i) + 2)
  s.st uiColor (if status.testBit 7 then cBlack else cWhite)

/-- The occupancy digit of a row. -/
def renderCount (status : ℕ) (s : Cpu) : Cpu :=
  if status % 8 < 2 then s
  else s.st (backtab + 9 + s.rd ppTmp) (cardDigit (status % 8) (s.rd uiColor))

/-- The cursor of a row. -/
def renderCursor (i : ℕ) (s : Cpu) : Cpu :=
  if s.rd menuSel = i then s.st (backtab + s.rd ppTmp - 2) cardMark else s

/-- One row of `SES_RENDER`. -/
def sesRenderRow (i : ℕ) (s : Cpu) : Cpu :=
  let ptr := lobbyCache + 1 + 9 * i
  let status := s.rd (ptr + 8)
  let s := renderStart i status s
  renderCursor i (renderCount status (uiPrintn (s.rd ppTmp) ptr 8 s))

/-- `SES_RENDER`. -/
def sesRender (s : Cpu) : Cpu :=
  let s := uiPrint rowPrompt "DISC/2/8  ENTER=PLAY" (s.st uiColor cWhite)
  let s := s.stAll (backtab + 20 * rowList) (List.replicate 160 0)
  ((List.range (s.rd lobbyCnt)).foldl (fun s i => sesRenderRow i s) s).st uiColor cWhite

/-! ### Frame handlers -/

/-- `LS_IDLE_RMT`: all rings idle, all watermarks far ahead. -/
def lsIdleRmt (s : Cpu) : Cpu :=
  let s := lsRingInit s
  setWms (s.rd tickLo) (s.rd tickHi + 0x40) s

/-- `SES_ONFRAME` at `@@of_input`, a frame that passed the checks. -/
def takeInput (s : Cpu) : Cpu :=
  let seat := s.rd (frmbuf + 2)
  let a := (seatRing + seat * 256 + s.rd (frmbuf + 3)) % 65536
  let a' := (a + 0x400) % 65536
  let wm := seatWm + 2 * seat
  let s := s.st a (s.rd (frmbuf + 5))
  let s := s.st a' (s.rd (frmbuf + 6))
  let s := s.st wm (s.rd (frmbuf + 3))
  let s := s.st (wm + 1) (s.rd (frmbuf + 4))
  s.emit (.slot a a' wm)

/-- The distance of the INPUT frame in `FRMBUF` from the watermark of its seat. -/
def inputDelta (s : Cpu) : ℕ := sub16 (frameTick s) (s.wm (s.rd (frmbuf + 2)))

/-- The INPUT frame in `FRMBUF` as the log keeps it. -/
def inputEv (s : Cpu) (taken : Bool) : Ev :=
  .input (s.rd (frmbuf + 2)) (frameTick s) (s.rd (frmbuf + 5)) (s.rd (frmbuf + 6))
    (s.mark.heard (s.rd (frmbuf + 2)) + inputDelta s) taken

/-- The seat of an INPUT frame is heard up to the frame's tick. -/
def noteHeard (s : Cpu) : Cpu :=
  let seat := s.rd (frmbuf + 2)
  { s with mark := { s.mark with
      heard := Function.update s.mark.heard seat (s.mark.heard seat + inputDelta s) } }

/-- `SES_ONFRAME` at `@@of_input`. -/
def onInput (s : Cpu) : Cpu :=
  let seat := s.rd (frmbuf + 2)
  if s.rd frmbuf < 6 then s
  else if seat = s.rd netSeat then s
  else if s.rd netCount ≤ seat then s
  else if minus (inputDelta s) ∨ inputDelta s = 0 then s.emit (inputEv s false)
  else takeInput (noteHeard (s.emit (inputEv s true)))

/-- The number of lobby entries a LOBBY frame names, clamped to 8. -/
def lobbyCount (s : Cpu) : ℕ := if s.rd (frmbuf + 2) < 8 then s.rd (frmbuf + 2) else 8

/-- `SES_ONFRAME` at `@@of_lobby`, a frame that passed the checks: cache the list. -/
def takeLobby (count : ℕ) (s : Cpu) : Cpu :=
  let s := s.st lobbyCnt count
  let s := if s.rd menuSel < count then s else s.st menuSel 0
  s.stAll lobbyCache (s.rdAll (frmbuf + 2) (9 * count + 1))

/-- `SES_ONFRAME` at `@@of_lobby`. -/
def onLobby (s : Cpu) : Cpu :=
  let count := lobbyCount s
  if s.rd netActive ≠ 0 then s
  else if s.rd frmbuf < 2 then s
  else if s.rd frmbuf < 9 * count + 2 then s
  else
    let s := takeLobby count s
    if 2 ≤ s.rd roomCnt then s else sesRender s

/-- One slot of `NAME_TBL`: eight characters and a NUL. -/
def cprSlot (src i : ℕ) (s : Cpu) : Cpu :=
  s.stAll (nameTbl + 9 * i) (s.rdAll (src + 8 * i) 8 ++ [0])

/-- `SES_CPR_GO`: the four names at `src` to `NAME_TBL`. -/
def sesCprGo (src : ℕ) (s : Cpu) : Cpu :=
  (List.range 4).foldl (fun s i => cprSlot src i s) s

/-- The counters start again with a match, and what was sent before belongs to the lobby. -/
def newMatch (s : Cpu) : Cpu := { s.newBase with tx := [] }

/-- The payload bytes of START that are stored as they are. -/
def startHeader (s : Cpu) : Cpu :=
  let s := s.st netSeat (s.rd (frmbuf + 2))
  let s := s.st netCount (s.rd (frmbuf + 3))
  let s := s.st rngLo (s.rd (frmbuf + 4))
  let s := s.st rngHi (s.rd (frmbuf + 5))
  s.st netDelay (s.rd (frmbuf + 6))

/-- `SES_ONFRAME` at `@@of_start`, a frame that passed the checks. -/
def takeStart (s : Cpu) : Cpu :=
  let s := sesCprGo (frmbuf + 7) (startHeader s)
  let s := rsClrCrc (lsRingInit s)
  let s := setWms ((s.rd netDelay + 65535) % 65536) 0 s
  let s := (s.st tickLo 0).st tickHi 0
  s.st netActive 1

/-- The log notes a START. -/
def noteStart (s : Cpu) : Cpu :=
  (newMatch s).emit (.start (s.rd netSeat) (s.rd netCount) (s.rd netDelay))

/-- `SES_ONFRAME` at `@@of_start`. -/
def onStart (s : Cpu) : Cpu := if s.rd frmbuf < 38 then s else noteStart (takeStart s)

/-- `SES_ONFRAME` at `@@of_hc`: is our name the one in roster slot 0? -/
def nameMatches (s : Cpu) : Bool := decide (field s nameTbl 9 = field s nameBuf 9)

/-- `SES_ONFRAME` at `@@of_room`: the room is dissolved. -/
def leaveRoom (s : Cpu) : Cpu :=
  let s := (s.st roomCnt 0).st roomHost 0
  sesRender (uiPrint 0 "SOCCER NETPLAY" (uiCls s))

/-- `SES_ONFRAME` at `@@of_rm2`: the waiting room. -/
def showRoom (s : Cpu) : Cpu :=
  let s := sesCprGo (frmbuf + 3) s
  sesRoomscr (s.st roomHost (if nameMatches s then 1 else 0))

/-- `SES_ONFRAME` at `@@of_room`. -/
def onRoom (s : Cpu) : Cpu :=
  if s.rd netActive ≠ 0 then s
  else if s.rd frmbuf < 34 then s
  else
    let s := s.emit (.room (s.rd (frmbuf + 2)))
    let s := s.st roomCnt (s.rd (frmbuf + 2))
    if s.rd roomCnt < 2 then leaveRoom s else showRoom s

/-- Who left. -/
def noteLeft (s : Cpu) : Cpu :=
  (s.st leftSeat (s.rd (frmbuf + 2))).stAll leftName (s.rdAll (frmbuf + 3) 8 ++ [0])

/-- `SES_ONFRAME` at `@@of_pl`. -/
def onPeerLeft (s : Cpu) : Cpu :=
  let s := if s.rd frmbuf < 10 then s else noteLeft s
  lsIdleRmt ((s.st peerWhy 1).st netDropped 1)

/-- `SES_ONFRAME`. -/
def sesOnframe (s : Cpu) : Cpu :=
  let type := s.rd (frmbuf + 1)
  if type = ftInput then onInput s
  else if type = ftLobby then onLobby s
  else if type = ftStart then onStart s
  else if type = ftPeerLeft then onPeerLeft s
  else if type = ftRoom then onRoom s
  else if type = ftCrc then rsOnCrc s
  else if type = ftState then rsOnState s
  else if type = ftResync then rsOnReq s
  else s

/-! ### The pump -/

/-- `SES_FLEN`: by frame type, `max << 8 | min` of the body length; 0 for a type that never
arrives. -/
def sesFlen : List ℕ :=
  [0x0000, 0x0000, 0x0000, 0x4A02, 0x0000, 0x2626, 0x0606, 0x0606,
    0x6303, 0x0303, 0x0000, 0x0A0A, 0x0000, 0x0101, 0x2222, 0x0000]

/-- Does the length byte suit the type byte? -/
def flenOk (len type : ℕ) : Bool :=
  let w := sesFlen.getD type 0
  decide (type < 0x10 ∧ w ≠ 0 ∧ w % 256 ≤ len ∧ len ≤ w / 256)

/-- The bytes in the circular buffer. -/
def buffered (s : Cpu) : ℕ := (s.rd rxWr + 256 - s.rd rxRd) % 256

/-- Byte `i` from the read index on. -/
def rxAt (s : Cpu) (i : ℕ) : ℕ := s.rd (rxacc + (s.rd rxRd + i) % 256)

/-- `SES_PUMP` at `@@pp_cp`: one byte into the circular buffer. -/
def rxPut (s : Cpu) (b : ℕ) : Cpu :=
  let s := s.st (rxacc + s.rd rxWr) b
  s.st rxWr ((s.rd rxWr + 1) % 256)

/-- The bytes asked for by a pump: what is available, at most 64. -/
def pumpRequest (s : Cpu) : ℕ :=
  if s.rd navailHi ≠ 0 then 64 else if s.rd navailLo < 64 then s.rd navailLo else 64

/-- `SES_PUMP` up to `@@pp_parse`. -/
def sesFetch (p : Poll) (s : Cpu) : Cpu :=
  let s := netStatus p.status s
  if s.rd mbOk = 0 ∨ pumpRequest s = 0 then s
  else
    let s := netRead p.read ((s.st nreqLo (pumpRequest s)).st nreqHi 0)
    (s.rdAll fnRx (s.rd ngotLo)).foldl rxPut s

/-- `SES_PUMP` at `@@pp_slip`: drop one byte. -/
def ppSlip (s : Cpu) : Cpu := diagBump diagSlip (s.st rxRd ((s.rd rxRd + 1) % 256))

/-- `SES_PUMP` at `@@pp_x`: `n` bytes to `FRMBUF`. -/
def ppExtract (n : ℕ) (s : Cpu) : Cpu :=
  (s.stAll frmbuf ((List.range n).map (rxAt s))).st rxRd ((s.rd rxRd + n) % 256)

/-- One round of `@@pp_parse`; `none`: the loop ends. -/
def ppParse (s : Cpu) : Option Cpu :=
  if buffered s < 2 then none
  else if flenOk (rxAt s 0) (rxAt s 1) = false then some (ppSlip s)
  else if buffered s < rxAt s 0 + 1 then none
  else some (sesOnframe (ppExtract (rxAt s 0 + 1) s))

/-- The loop `@@pp_parse`, in at most the given number of rounds. -/
def ppLoop : ℕ → Cpu → Cpu
  | 0, s => s
  | n + 1, s => match ppParse s with
    | none => s
    | some s => ppLoop n s

/-- `SES_PUMP`.  Every round of the loop takes a byte out of the buffer. -/
def sesPump (p : Poll) (s : Cpu) : Cpu := ppLoop 256 (sesFetch p s)

end IntvNetplay.Console
