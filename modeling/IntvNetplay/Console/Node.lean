import IntvNetplay.Console.Lobby
import IntvNetplay.Console.Pump
import IntvNetplay.Console.Tail
import Mathlib.Logic.Relation

/-!
# A console over a whole run

Where the console stands between two of its dealings with the world outside, and its steps: its own
code between two pumps, a pump with whatever the mailbox answers, and what the EXEC and the native
code of the cartridge do in between.  The outside is a parameter; it leaves the cart RAM alone.
-/

namespace IntvNetplay.Console

open IntvNetplay.Machine

/-- What runs beside the engine. -/
structure World where
  cart : Cart
  /-- Interrupts and controllers, at any time. -/
  isr : Mem → Mem → Prop
  /-- The dispatcher and the native code between a return of `MASTER_TICK` and the next call. -/
  native : Mem → Mem → Prop
  /-- The boot of the game after `SES_EXIT`, up to the first call of `MASTER_TICK`. -/
  boot : Mem → Mem → Prop
  isr_get : ∀ {m m' : Mem}, isr m m' → ∀ a, 0x8000 ≤ a → m'.get a = m.get a
  native_get : ∀ {m m' : Mem}, native m m' → ∀ a, 0x8000 ≤ a → m'.get a = m.get a
  boot_get : ∀ {m m' : Mem}, boot m m' → ∀ a, 0x8000 ≤ a → m'.get a = m.get a

/-- Where a console stands. -/
inductive Phase where
  /-- About to pump at `@@ses_lobby`. -/
  | lobby
  /-- About to pump at `SES_HOLD`, the matched screen being up. -/
  | matched
  /-- `SES_MAIN` has returned. -/
  | boot
  /-- `MASTER_TICK` has returned. -/
  | idle
  /-- `LS_PASS` is called. -/
  | entry
  /-- About to pump in the hold path. -/
  | hold
  /-- About to pump at `@@ls_go0`. -/
  | top
  /-- About to capture and send. -/
  | send
  /-- At `@@ls_gate`. -/
  | gate
  /-- About to pump in the stall loop. -/
  | stall
  /-- At `@@pl_park`. -/
  | parked
  deriving DecidableEq

structure Node where
  phase : Phase
  cpu : Cpu

/-- The entry tests of `LS_PASS`. -/
def lsEntry (s : Cpu) : Node :=
  if s.rd peerScr ≠ 0 then ⟨.idle, lsReturn s⟩
  else if s.rd netDropped ≠ 0 then ⟨.parked, lsGone s⟩
  else if s.rd resyncHold ≠ 0 then ⟨.hold, lsHold s⟩
  else ⟨.top, s⟩

/-- `@@ls_gate`: run the tick or stall. -/
def lsGate (C : Cart) (s : Cpu) : Node :=
  if gateOpen s then ⟨.idle, lsReturn (lsRun C s)⟩ else ⟨.stall, lsFreeze s⟩

/-- `@@ses_lobby` after its pump. -/
def lobbyRound (raw : ℕ) (s : Cpu) : Node :=
  if s.rd netActive = 0 then ⟨.lobby, sesMenu raw s⟩ else ⟨.matched, sesGo s⟩

/-- A round of `SES_HOLD` after its pump. -/
def matchedRound (s : Cpu) : Node :=
  let n := (s.rd sesTmrLo + 65535) % 65536
  let s := s.st sesTmrLo n
  if n = 0 then ⟨.boot, sesExit s⟩ else ⟨.matched, s⟩

/-- The console's own code in a phase that does not pump. -/
def advance (C : Cart) : Node → Option Node
  | ⟨.entry, s⟩ => some (lsEntry s)
  | ⟨.send, s⟩ => some ⟨.gate, lsSend s⟩
  | ⟨.gate, s⟩ => some (lsGate C s)
  | _ => none

/-- What follows the pump of a phase; `raw` is what the lobby reads from the controller port. -/
def afterPump (raw : ℕ) : Phase → Cpu → Option Node
  | .lobby, s => some (lobbyRound raw s)
  | .matched, s => some (matchedRound s)
  | .hold, s => some ⟨.idle, lsReturn (holdTail s)⟩
  | .top, s => some ⟨.send, s⟩
  | .stall, s => some ⟨.gate, stallTail s⟩
  | _, _ => none

/-- One step of a console; a step that pumps is labelled with what the mailbox answered. -/
inductive Step (W : World) : Option Poll → Node → Node → Prop where
  | isr {ph : Phase} {s : Cpu} {m : Mem} :
      W.isr s.mem m → Step W none ⟨ph, s⟩ ⟨ph, s.call fun _ => m⟩
  | native {s : Cpu} {m : Mem} :
      W.native s.mem m → Step W none ⟨.idle, s⟩ ⟨.entry, s.call fun _ => m⟩
  | boot {s : Cpu} {m : Mem} :
      W.boot s.mem m → Step W none ⟨.boot, s⟩ ⟨.entry, s.call fun _ => m⟩
  | own {n n' : Node} : advance W.cart n = some n' → Step W none n n'
  | pump {ph : Phase} {s : Cpu} {p : Poll} {r : ℕ} {n' : Node} :
      afterPump r ph (sesPump p s) = some n' → Step W (some p) ⟨ph, s⟩ n'

/-- A run of one console, whatever the mailbox delivers. -/
def Run (W : World) : Node → Node → Prop :=
  Relation.ReflTransGen fun n n' => ∃ p, Step W p n n'

/-- A console before `NET_START`: any memory, nothing sent, stored, logged or counted. -/
def powerOn (m : Mem) (rom : Rom) : Cpu :=
  ⟨m, rom, [], [], [], ⟨0, 0, 0, false, false, fun _ => 0⟩⟩

/-- A console that has just logged in. -/
def loggedIn (name : List ℕ) (m : Mem) (rom : Rom) : Node :=
  ⟨.lobby, sesLogin name (netStart (powerOn m rom))⟩

/-- A console that parks stays there: only interrupts go on, and it sends no more. -/
theorem parked_step {W : World} {p : Option Poll} {n n' : Node} (hs : Step W p n n')
    (h : n.phase = .parked) :
    n'.phase = .parked ∧ n'.cpu.tx = n.cpu.tx ∧ n'.cpu.log = n.cpu.log := by
  cases hs with
  | isr _ => exact ⟨h, rfl, rfl⟩
  | native _ => cases h
  | boot _ => cases h
  | own ha =>
    obtain ⟨ph, s⟩ := n
    obtain rfl : ph = .parked := h
    cases ha
  | pump ha =>
    obtain rfl : _ = Phase.parked := h
    cases ha

theorem parked_run {W : World} {n n' : Node} (hr : Run W n n') (h : n.phase = .parked) :
    n'.phase = .parked ∧ n'.cpu.tx = n.cpu.tx ∧ n'.cpu.log = n.cpu.log := by
  induction hr with
  | refl => exact ⟨h, rfl, rfl⟩
  | tail _ hs ih =>
    obtain ⟨p, hs⟩ := hs
    obtain ⟨hph, htx, hlog⟩ := parked_step hs ih.1
    exact ⟨hph, htx.trans ih.2.1, hlog.trans ih.2.2⟩

/-- A world in which nothing runs beside the engine. -/
def stillWorld : World where
  cart := ⟨id, fun _ _ _ => id, fun _ _ _ => rfl, fun _ _ _ _ _ _ => rfl⟩
  isr m m' := m' = m
  native m m' := m' = m
  boot m m' := m' = m
  isr_get h _ _ := by rw [h]
  native_get h _ _ := by rw [h]
  boot_get h _ _ := by rw [h]

/-- Whoever clears the phase leaves the cart RAM alone. -/
theorem get_clear_phase {m m' : Mem} (h : m' = m.set sbPhase 0) (a : ℕ) (ha : 0x8000 ≤ a) :
    m'.get a = m.get a := by
  rw [h, Cells.get_set, if_neg]
  rintro rfl
  exact absurd ha (by decide)

/-- A memory of zeros. -/
def blank : Mem := ⟨fun _ => 0, zero_lt_cell⟩

theorem advance_send (C : Cart) (s : Cpu) : advance C ⟨.send, s⟩ = some ⟨.gate, lsSend s⟩ := rfl
theorem advance_gate (C : Cart) (s : Cpu) : advance C ⟨.gate, s⟩ = some (lsGate C s) := rfl

/-- A property that every step keeps holds over a whole run. -/
theorem Run.induct {W : World} {P : Node → Prop} {n n' : Node} (hr : Run W n n') (h : P n)
    (hstep : ∀ {p n n'}, P n → Step W p n n' → P n') : P n' := by
  induction hr with
  | refl => exact h
  | tail _ hs ih =>
    obtain ⟨p, hs⟩ := hs
    exact hstep ih hs

/-! ### Footprints of the steps -/

/-- What a pass may change outside its pumps. -/
def PassCell (a : ℕ) : Prop :=
  PaceCell a ∨ DropCell a ∨ CaptureCell a ∨ TickCell a ∨ ReportCell a ∨ CounterCell a ∨
    ScreenCell a ∨ WaitCell a ∨ PushCell a ∨ RebaseCell a ∨ a = peerScr

/-- What the terminal screen may change. -/
def GoneCell (a : ℕ) : Prop := a < 0x0102 ∨ 0x0200 ≤ a ∧ a < 0x8000 ∨ a = uiColor

/-- What the entry tests may change. -/
def EntryCell (a : ℕ) : Prop := PaceCell a ∨ GoneCell a ∨ a = peerScr

/-- What the lobby may change outside its pumps. -/
def MenuCell (a : ℕ) : Prop :=
  RowCell a ∨ MailCell a ∨ a = menuSel ∨ a = menuPrev ∨ a = sesTmrLo ∨ a < 0x8000

/-- What a step may change outside its pump. -/
def OuterCell (a : ℕ) : Prop := PassCell a ∨ MenuCell a

instance : DecidablePred PassCell := fun a => by unfold PassCell; infer_instance
instance : DecidablePred GoneCell := fun a => by unfold GoneCell; infer_instance
instance : DecidablePred EntryCell := fun a => by unfold EntryCell; infer_instance
instance : DecidablePred MenuCell := fun a => by unfold MenuCell; infer_instance
instance : DecidablePred OuterCell := fun a => by unfold OuterCell; infer_instance

section footprint

variable {s t : Cpu}

theorem capture_pass (a : ℕ) (h : CaptureCell a) : PassCell a := by unfold PassCell; tauto
theorem tick_pass (a : ℕ) (h : TickCell a) : PassCell a := by unfold PassCell; tauto
theorem report_pass (a : ℕ) (h : ReportCell a) : PassCell a := by unfold PassCell; tauto
theorem counter_pass (a : ℕ) (h : CounterCell a) : PassCell a := by unfold PassCell; tauto
theorem screen_pass (a : ℕ) (h : ScreenCell a) : PassCell a := by unfold PassCell; tauto
theorem wait_pass (a : ℕ) (h : WaitCell a) : PassCell a := by unfold PassCell; tauto
theorem push_pass (a : ℕ) (h : PushCell a) : PassCell a := by unfold PassCell; tauto
theorem rebase_pass (a : ℕ) (h : RebaseCell a) : PassCell a := by unfold PassCell; tauto

theorem entry_pass (a : ℕ) (h : EntryCell a) : PassCell a := by
  rcases h with h | (h | h | h) | h
  · exact Or.inl h
  · exact tick_pass a (Or.inr (Or.inl (Or.inl (by omega))))
  · exact tick_pass a (Or.inr (Or.inl (Or.inl h.2)))
  · exact screen_pass a (Or.inr h)
  · unfold PassCell; tauto

/-- The EXEC and the cartridge leave the cart RAM alone. -/
theorem local_outside {m : Mem} (h : ∀ a, 0x8000 ≤ a → m.get a = s.mem.get a) :
    Local (· < 0x8000) s (s.call fun _ => m) :=
  ⟨⟨fun x hx => h x (by omega), rfl, ⟨[], rfl, by simp⟩, List.suffix_refl _⟩, rfl, rfl, rfl⟩

theorem within_rsPush (s : Cpu) : Within PassCell s (rsPush s) := by
  rw [rsPush_eq]
  exact ((within_pushSent s).mono push_pass).trans ((within_rsRebase _).mono rebase_pass)

theorem within_rsPending (s : Cpu) : Within PassCell s (rsPending s) := by
  rcases rsPending_cases s with h | ⟨-, -, -, t, ht, he⟩
  · exact h.within.mono wait_pass
  · rw [he]
    exact (ht.within.mono wait_pass).trans (within_rsPush t)

theorem body_pass (a : ℕ) (h : BodyCell a) : PassCell a := by
  rcases h with h | h | h | h
  · exact tick_pass a h
  · exact report_pass a h
  · exact counter_pass a h
  · exact screen_pass a h

theorem within_lsRun (C : Cart) (s : Cpu) : Within PassCell s (lsRun C s) := by
  rw [lsRun_eq]
  exact ((within_runBody s C).mono body_pass).trans (within_rsPending _)

theorem screen_gone (a : ℕ) (h : ScreenCell a) : GoneCell a := by
  simp only [ScreenCell, backtab] at h
  unfold GoneCell
  omega

/-- What the terminal screen writes to. -/
def CurtainCell (a : ℕ) : Prop :=
  ScreenCell a ∨ 0x0028 ≤ a ∧ a ≤ 0x0032 ∨ 0x0300 ≤ a ∧ a < 0x0318 ∨ a = execIsr ∨ a = execIsr + 1

instance : DecidablePred CurtainCell := fun a => by unfold CurtainCell; infer_instance

theorem screen_curtain (a : ℕ) (h : ScreenCell a) : CurtainCell a := Or.inl h

theorem local_lsPeerLeft_curtain (s : Cpu) : Local CurtainCell s (lsPeerLeft s) := by
  have hset : Local CurtainCell s (danceSettle s) :=
    Local.ite (fun _ => Local.refl s) fun _ => ((Local.refl s).st (by decide)).st (by decide)
  have hnorm : Local CurtainCell s (uiDisplayNormalize (danceSettle s)) := by
    refine (((hset.st (by decide)).st (by decide)).st (by decide)).stAll ?_ |>.stAll ?_
    all_goals
      intro x h1 h2
      rw [List.length_replicate] at h2
      unfold CurtainCell
      omega
  have hcls := Local.uiCls screen_curtain hnorm
  have hwhy : ∀ u : Cpu, Local CurtainCell u
      (if u.rd peerWhy = 0 then uiPrint 82 "CONNECTION LOST" u else uiPrint 83 "PLAYER LEFT" u) :=
    fun u => Local.ite (fun _ => Local.uiPrint screen_curtain (Local.refl u) (by decide))
      fun _ => Local.uiPrint screen_curtain (Local.refl u) (by decide)
  have hname := Local.uiPrintn screen_curtain (p := leftName) (n := 9) (o := 126)
    (hcls.trans (hwhy _)) (by decide)
  have hlegend := Local.uiPrint screen_curtain (o := 202) (w := "SLIP REJ TMO ERR")
    (Local.uiPrint screen_curtain (o := 184) (w := "PRESS RESET") hname (by decide)) (by decide)
  have hhex : ∀ (u : Cpu) (x off : ℕ), off + 2 ≤ 240 → Local CurtainCell u (uiHex2 x off u) :=
    fun u x off h => Local.screenAll screen_curtain (Local.refl u) (Nat.le_add_right _ _)
      (by simp only [List.length_cons, List.length_nil]; omega)
  rw [lsPeerLeft]
  refine Local.trans ?_ (hhex _ _ _ (by decide))
  refine Local.trans ?_ (hhex _ _ _ (by decide))
  refine Local.trans ?_ (hhex _ _ _ (by decide))
  exact hlegend.trans (hhex _ _ _ (by decide))

theorem curtain_gone (a : ℕ) (h : CurtainCell a) : GoneCell a := by
  rcases h with h | h
  · exact screen_gone a h
  · simp only [execIsr] at h
    unfold GoneCell
    omega

theorem local_lsPeerLeft (s : Cpu) : Local GoneCell s (lsPeerLeft s) :=
  (local_lsPeerLeft_curtain s).mono curtain_gone

theorem local_lsGone (s : Cpu) : Local EntryCell s (lsGone s) :=
  (((local_lsFreeze s).mono fun _ h => Or.inl h).trans
    ((local_lsPeerLeft _).mono fun _ h => Or.inr (Or.inl h))).st (by decide)

theorem within_lsEntry (s : Cpu) : Within EntryCell s (lsEntry s).cpu := by
  unfold lsEntry
  split_ifs
  · exact (Within.refl s).withMark
  · exact (local_lsGone s).within
  · exact ((local_lsFreeze s).within.mono fun _ h => Or.inl h).withMark
  · exact Within.refl s

theorem within_lsGate (C : Cart) (s : Cpu) : Within PassCell s (lsGate C s).cpu := by
  unfold lsGate
  split_ifs
  · exact (within_lsRun C s).withMark
  · exact (local_lsFreeze s).within.mono fun _ h => Or.inl h

theorem within_advance {C : Cart} {n n' : Node} (h : advance C n = some n')
    (hs : n.cpu.rd netSeat < 4) : Within PassCell n.cpu n'.cpu := by
  obtain ⟨ph, s⟩ := n
  have hsend : Within PassCell s (lsSend s) := (within_lsSend (s := s) hs).mono fun a =>
    Or.rec (capture_pass a) fun h => report_pass a (Or.inl h)
  cases ph <;> simp only [advance, Option.some.injEq, reduceCtorEq] at h <;> subst h
  · exact (within_lsEntry s).mono entry_pass
  · dsimp only
    exact hsend
  · exact within_lsGate C s

/-! ### The lobby -/

theorem row_menu (a : ℕ) (h : RowCell a) : MenuCell a := Or.inl h
theorem screen_menu (a : ℕ) (h : ScreenCell a) : MenuCell a := Or.inl (Or.inl h)
theorem mail_menu (a : ℕ) (h : MailCell a) : MenuCell a := Or.inr (Or.inl h)

section lobby

variable (hl : s.rd lobbyCnt ≤ 8)
include hl

theorem local_sesRedraw : Local MenuCell s (sesRedraw s) :=
  Local.ite (fun _ => Local.refl s) fun _ => (local_sesRender s hl).mono row_menu

theorem local_sesCursor (c : Prop) [Decidable c] (v : ℕ) :
    Local MenuCell s (sesRedraw (if c then s else s.st menuSel v)) := by
  have h : Local MenuCell s (if c then s else s.st menuSel v) :=
    Local.ite (fun _ => Local.refl s) fun _ => (Local.refl s).st (by decide)
  refine h.trans (local_sesRedraw ?_)
  split_ifs
  · exact hl
  · rw [Cpu.rd_st, if_neg (by decide)]
    exact hl

theorem within_sesBrowseJoin : Within MenuCell s (sesBrowseJoin s) := by
  have hbusy : Local ScreenCell s (uiPrint rowPrompt "ALREADY IN A GAME   " s) :=
    Local.uiPrint (fun _ h => h) (Local.refl s) (by decide)
  unfold sesBrowseJoin
  refine Within.ite (fun _ => Within.refl s) fun _ => Within.ite (fun _ => ?_) fun _ => ?_
  · refine (hbusy.mono screen_menu).within.trans ((local_sesRender _ ?_).mono row_menu).within
    rw [hbusy.rd _ (by decide)]
    exact hl
  · refine (Within.sendFrame mail_menu (Within.refl s) ?_).trans
      (Local.uiPrint screen_menu (Local.refl _) (by decide)).within
    rw [List.length_append, Cpu.rdAll, List.length_map, List.length_range']
    decide

theorem within_sesJoin : Within MenuCell s (sesJoin s) :=
  Within.ite (fun _ => within_sesBrowseJoin hl) fun _ => Within.ite (fun _ => Within.refl s)
    fun _ => Within.sendFrame mail_menu (Within.refl s) (by decide)

theorem within_sesKey (raw : ℕ) : Within MenuCell s (sesKey raw s) := by
  have hup : Within MenuCell s (sesUp s) := (local_sesCursor hl _ _).within
  have hdn : Within MenuCell s (sesDown s) := (local_sesCursor hl _ _).within
  unfold sesKey
  split_ifs
  · exact Within.refl s
  · exact hup
  · exact hdn
  · exact Within.refl s
  · exact hup
  · exact hdn
  · exact within_sesJoin hl
  · exact Within.refl s

theorem within_sesMenu (raw : ℕ) : Within MenuCell s (sesMenu raw s) := by
  have hpace : ∀ u, Within MenuCell u (sesPace u) := fun u =>
    Within.ite (fun _ => Within.sendFrame mail_menu ((Within.refl u).st (by decide)) (by decide))
      fun _ => (Within.refl u).st (by decide)
  refine Within.trans (Within.ite (fun _ => Within.refl s) fun _ => ?_) (hpace _)
  refine ((Within.refl s).st (by decide)).trans (within_sesKey ?_ raw)
  rw [Cpu.rd_st, if_neg (by decide)]
  exact hl

end lobby

theorem local_sesGo (hc : s.rd netActive ≠ 0) (hn : s.rd netCount ≤ 4) :
    Local MenuCell s (sesGo s) := by
  have hhead : Local ScreenCell s (uiPrint 0 "SOCCER NETPLAY" (uiCls s)) :=
    Local.uiPrint (fun _ h => h) (Local.uiCls (fun _ h => h) (Local.refl s)) (by decide)
  have hros : Local MenuCell s (sesRoster (uiPrint 0 "SOCCER NETPLAY" (uiCls s))) := by
    refine (hhead.mono screen_menu).trans ((local_sesRoster _ ?_ ?_).mono row_menu)
    · rw [hhead.rd _ (by decide)]
      exact fun h => absurd h hc
    · rw [hhead.rd netCount (by decide)]
      omega
  have hteam := Local.uiPrint screen_menu (o := 180) (w := "YOU ARE TEAM")
    (hros.st (a := uiColor) (v := cWhite) (by decide)) (by decide)
  exact (Local.uiPrint screen_menu (hteam.st (by decide)) (by decide)).st (by decide)

theorem local_sesExit (s : Cpu) : Local MenuCell s (sesExit s) :=
  ((Local.refl s).st (by decide)).st (by decide)

/-- What the login may change. -/
def LoginCell (a : ℕ) : Prop :=
  MenuCell a ∨ a = sesSave102 ∨ nameBuf ≤ a ∧ a ≤ nameLen

instance : DecidablePred LoginCell := fun a => by unfold LoginCell; infer_instance

/-- The screens of the login, then HELLO. -/
theorem sesLogin_cases (name : List ℕ) (s : Cpu) : ∃ t, Local LoginCell s t ∧
    sesLogin name s = uiPrint rowPrompt "DISC/2/8  ENTER=PLAY"
      (sendFrame ([(name.take 8).length + 2, ftHello, 2] ++ name.take 8) t) := by
  have hscr : ∀ a, ScreenCell a → LoginCell a := fun a h => Or.inl (screen_menu a h)
  have hlen : (name.take 8).length ≤ 8 := List.length_take_le _ _
  have h0 : Local LoginCell s (((s.st sesSave102 (s.rd execPhase)).st execPhase 0).st 0x0032 0) :=
    (((Local.refl s).st (by decide)).st (by decide)).st (by decide)
  have h1 := Local.uiPrint hscr (o := 0) (w := "SOCCER NETPLAY") (Local.uiCls hscr h0)
    (by decide)
  have h2 := (h1.stAll (a := nameBuf) (v := name.take 8 ++ [0]) fun x h1 h2 => by
    rw [List.length_append, List.length_singleton] at h2
    exact Or.inr (Or.inr ⟨h1, by simp only [nameBuf, nameLen] at *; omega⟩)).st
      (a := nameLen) (v := (name.take 8).length) (by decide)
  have h3 := Local.uiPrintn hscr (o := 46) (p := nameBuf) (n := 9)
    (Local.uiPrint hscr (o := 40) (w := "NAME: ") h2 (by decide)) (by decide)
  exact ⟨_, h3, rfl⟩

theorem within_sesLogin (name : List ℕ) (s : Cpu) : Within LoginCell s (sesLogin name s) := by
  obtain ⟨t, ht, he⟩ := sesLogin_cases name s
  have hlen : (name.take 8).length ≤ 8 := List.length_take_le _ _
  have hscr : ∀ a, ScreenCell a → LoginCell a := fun a h => Or.inl (screen_menu a h)
  have hsend := Within.sendFrame (fun a h => Or.inl (mail_menu a h)) ht.within
    (b := [(name.take 8).length + 2, ftHello, 2] ++ name.take 8)
    (by rw [List.length_append]; simp only [List.length_cons, List.length_nil]; omega)
  rw [he]
  exact hsend.trans (Local.uiPrint hscr (Local.refl _) (by decide)).within

theorem log_sesLogin (name : List ℕ) (s : Cpu) : (sesLogin name s).log = s.log := by
  obtain ⟨t, ht, he⟩ := sesLogin_cases name s
  rw [he, uiPrint, uiPut, Cpu.log_stAll, log_sendFrame, ht.log]

theorem local_netStart (s : Cpu) : Local (fun a => 0x8080 ≤ a ∧ a < 0x8200) s (netStart s) := by
  refine ((Local.stAll (Local.refl s) fun x h1 h2 => ?_).st (by decide)).st (by decide)
  rw [List.length_replicate] at h2
  exact ⟨h1, h2⟩

/-- The netcode RAM after `NET_START`. -/
theorem rd_netStart {s : Cpu} {x : ℕ} (h1 : 0x8080 ≤ x) (h2 : x < 0x8200) :
    (netStart s).rd x = if x = netCount then 2 else 0 := by
  have hw : cellBits x = 8 := cellBits_cart (by omega) (by omega)
  simp only [netStart, Cpu.rd_st, Cpu.rd_stAll_replicate, hw]
  simp only [netRam, netRamSize, netCount, delayEn]
  split_ifs <;> first | rfl | omega

/-- A cell of the netcode RAM that the login leaves alone. -/
theorem rd_loggedIn {name : List ℕ} {m : Mem} {rom : Rom} {x : ℕ} (h1 : 0x8080 ≤ x)
    (h2 : x < 0x8200) (h3 : ¬ LoginCell x) :
    (loggedIn name m rom).cpu.rd x = if x = netCount then 2 else 0 := by
  rw [loggedIn, (within_sesLogin name _).rd x h3, rd_netStart h1 h2]

theorem log_loggedIn (name : List ℕ) (m : Mem) (rom : Rom) :
    (loggedIn name m rom).cpu.log = [] := by
  rw [loggedIn, log_sesLogin, (local_netStart _).log]
  rfl

theorem mark_loggedIn (name : List ℕ) (m : Mem) (rom : Rom) :
    (loggedIn name m rom).cpu.mark = (powerOn m rom).mark := by
  obtain ⟨t, ht, he⟩ := sesLogin_cases name (netStart (powerOn m rom))
  rw [loggedIn, he, uiPrint, uiPut, Cpu.mark_stAll, mark_sendFrame, ht.mark, (local_netStart _).mark]

theorem within_lobbyRound (raw : ℕ) (hl : s.rd lobbyCnt ≤ 8) (hn : s.rd netCount ≤ 4) :
    Within MenuCell s (lobbyRound raw s).cpu := by
  unfold lobbyRound
  split_ifs with h
  · exact within_sesMenu hl raw
  · exact (local_sesGo h hn).within

theorem local_matchedRound (s : Cpu) : Local MenuCell s (matchedRound s).cpu := by
  have h : Local MenuCell s (s.st sesTmrLo ((s.rd sesTmrLo + 65535) % 65536)) :=
    (Local.refl s).st (by decide)
  simp only [matchedRound]
  split_ifs
  · exact h.trans (local_sesExit _)
  · exact h

theorem within_afterPump {raw : ℕ} {ph : Phase} {n : Node} (h : afterPump raw ph s = some n)
    (hl : s.rd lobbyCnt ≤ 8) (hn : s.rd netCount ≤ 4) : Within OuterCell s n.cpu := by
  cases ph <;> simp only [afterPump, Option.some.injEq, reduceCtorEq] at h <;> subst h
  · exact (within_lobbyRound raw hl hn).mono fun _ => Or.inr
  · exact (local_matchedRound s).within.mono fun _ => Or.inr
  · refine Within.withMark ((countOrDrop_holdTail s).within.within.mono fun _ h => Or.inl ?_)
    exact h.elim Or.inl fun h => Or.inr (Or.inl h)
  · exact Within.refl s
  · refine (countOrDrop_stallTail s).within.within.mono fun _ h => Or.inl ?_
    exact h.elim Or.inl fun h => Or.inr (Or.inl h)

end footprint

end IntvNetplay.Console
