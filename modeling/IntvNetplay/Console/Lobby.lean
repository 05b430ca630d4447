import IntvNetplay.Console.Session

/-!
# Before and after the lobby (`src/hook.asm`, `src/netcode/session.asm`)

`NET_START` clears the netcode RAM and enters `SES_MAIN`, which logs in, runs the lobby until a START
frame arrives and holds the matched screen up for 150 pumps.  The name and the raw controller bytes
are arguments; the transactions of the login and the pauses are not modelled.
-/

namespace IntvNetplay.Console

open IntvNetplay.Machine

/-- `NET_START` up to `SES_MAIN`. -/
def netStart (s : Cpu) : Cpu :=
  let s := s.stAll netRam (List.replicate netRamSize 0)
  let s := s.st delayEn 0
  s.st netCount 2

/-- `SES_MAIN` up to its lobby loop, the login having settled on `name`. -/
def sesLogin (name : List ℕ) (s : Cpu) : Cpu :=
  let s := s.st sesSave102 (s.rd execPhase)
  let s := s.st execPhase 0
  let s := s.st 0x0032 0
  let s := uiPrint 0 "SOCCER NETPLAY" (uiCls s)
  let s := s.stAll nameBuf (name.take 8 ++ [0])
  let s := s.st nameLen (name.take 8).length
  let s := uiPrintn 46 nameBuf 9 (uiPrint 40 "NAME: " s)
  let s := sendFrame ([(name.take 8).length + 2, ftHello, 2] ++ name.take 8) s
  uiPrint rowPrompt "DISC/2/8  ENTER=PLAY" s

/-- `@@ses_rr`: redraw the browser, unless the waiting room owns the display. -/
def sesRedraw (s : Cpu) : Cpu := if 2 ≤ s.rd roomCnt then s else sesRender s

/-- `@@ses_up`. -/
def sesUp (s : Cpu) : Cpu :=
  sesRedraw (if s.rd menuSel = 0 then s else s.st menuSel (s.rd menuSel - 1))

/-- `@@ses_dn`. -/
def sesDown (s : Cpu) : Cpu :=
  sesRedraw (if s.rd lobbyCnt ≤ s.rd menuSel + 1 then s else s.st menuSel (s.rd menuSel + 1))

/-- `@@ses_browse_join`: JOIN the selected entry, unless it is marked unjoinable. -/
def sesBrowseJoin (s : Cpu) : Cpu :=
  let ptr := lobbyCache + 1 + 9 * s.rd menuSel
  if s.rd lobbyCnt = 0 then s
  else if (s.rd (ptr + 8)).testBit 7 then
    sesRender (uiPrint rowPrompt "ALREADY IN A GAME   " s)
  else
    uiPrint rowPrompt "JOINING...          " (sendFrame ([9, ftJoin] ++ s.rdAll ptr 8) s)

/-- `@@ses_join`. -/
def sesJoin (s : Cpu) : Cpu :=
  if s.rd roomCnt < 2 then sesBrowseJoin s
  else if s.rd roomHost = 0 then s
  else sendFrame [1, ftGo] s

/-- The key that `@@ses_lobby` acts on; `raw` is the inverted port. -/
def sesKey (raw : ℕ) (s : Cpu) : Cpu :=
  if raw = 0 then s
  else if raw < 0x20 then
    if raw.testBit 2 then sesUp s else if raw.testBit 0 then sesDown s else s
  else if raw = 0x41 then sesUp s
  else if raw = 0x44 then sesDown s
  else if raw = 0x28 then sesJoin s
  else s

/-- `@@ses_pace`: ask for the list every 256 rounds. -/
def sesPace (s : Cpu) : Cpu :=
  let n := s.rd sesTmrLo + 1
  let s := s.st sesTmrLo n
  if n = 0x100 then sendFrame [1, ftList] s else s

/-- `@@ses_lobby` after its pump, while no START has arrived. -/
def sesMenu (raw : ℕ) (s : Cpu) : Cpu :=
  sesPace (if raw = s.rd menuPrev then s else sesKey raw (s.st menuPrev raw))

/-- `@@ses_go` up to the hold of the matched screen. -/
def sesGo (s : Cpu) : Cpu :=
  let s := sesRoster (uiPrint 0 "SOCCER NETPLAY" (uiCls s))
  let s := uiPrint 180 "YOU ARE TEAM" (s.st uiColor cWhite)
  let s := s.st (backtab + 195) (cardDigit (s.rd netSeat + 1) cWhite)
  let s := uiPrint 220 "KICK OFF" s
  s.st sesTmrLo 150

/-- `SES_EXIT`. -/
def sesExit (s : Cpu) : Cpu :=
  let s := s.st 0x0032 (s.rd 0x500D)
  s.st execPhase (s.rd sesSave102)

end IntvNetplay.Console
