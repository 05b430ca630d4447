import IntvNetplay.Console.Dispatch

/-!
# The cart hooks (`src/hook.asm`)

The game tick that the engine drives, and the hook that runs after a state image was applied.
-/

namespace IntvNetplay.Console

open IntvNetplay.Machine

/-- `SC_GAME_TICK`: the game's own tick, then the mirror of the native countdown and the
quiescence flag. -/
def scGameTick (C : Cart) (s : Cpu) : Cpu :=
  let s := s.emit (.gameTick (s.rd sbPhase))
  let s := s.call C.tick1
  let s := s.st scCnt2 (s.rd sbCnt2Lo)
  let s := s.st scCnt3 (s.rd sbCnt2Hi)
  let s := s.emit (.mirror (s.rd scCnt2) (s.rd scCnt3))
  s.st sbQuiescent (if s.rd sbPhase = 0 then 1 else 0)

/-- `SB_REBASE_HOOK`: restore the native countdown, clamp the phase. -/
def sbRebaseHook (s : Cpu) : Cpu :=
  let s := s.st sbCnt2Lo (s.rd scCnt2)
  let s := s.st sbCnt2Hi (s.rd scCnt3)
  if s.rd sbPhase ≤ 8 then s else s.st sbPhase 0

/-- What the game tick may change. -/
def GameCell (a : ℕ) : Prop := a < 0x8000 ∨ a = scCnt2 ∨ a = scCnt3 ∨ a = sbQuiescent

/-- What the rebase hook may change. -/
def HookCell (a : ℕ) : Prop := a = sbCnt2Lo ∨ a = sbCnt2Hi ∨ a = sbPhase

instance : DecidablePred GameCell := fun a => by unfold GameCell; infer_instance
instance : DecidablePred HookCell := fun a => by unfold HookCell; infer_instance

section specs

variable (C : Cart) (s : Cpu)

theorem within_scGameTick : Within GameCell s (scGameTick C s) := by
  have hcall : Within GameCell s ((s.emit (.gameTick (s.rd sbPhase))).call C.tick1) :=
    (Within.refl s).emit.call fun m x hx => C.tick1_get m x (by unfold GameCell at hx; omega)
  exact ((hcall.st (by decide)).st (by decide)).emit.st (by decide)

@[simp] theorem tx_scGameTick : (scGameTick C s).tx = s.tx := rfl
@[simp] theorem mark_scGameTick : (scGameTick C s).mark = s.mark := rfl

/-- The countdown that `SC_GAME_TICK` mirrors is the one the game's tick leaves. -/
theorem log_scGameTick : (scGameTick C s).log =
    s.mark.stamp (.mirror ((C.tick1 s.mem).get sbCnt2Lo) ((C.tick1 s.mem).get sbCnt2Hi)) ::
      s.mark.stamp (.gameTick (s.rd sbPhase)) :: s.log := by
  have h := fun a => (C.tick1 s.mem).lt a
  have hlo : (C.tick1 s.mem).get sbCnt2Lo % 256 = _ := Nat.mod_eq_of_lt (h sbCnt2Lo)
  have hhi : (C.tick1 s.mem).get sbCnt2Hi % 256 = _ := Nat.mod_eq_of_lt (h sbCnt2Hi)
  simp only [sbCnt2Lo, sbCnt2Hi] at hlo hhi
  simp [scGameTick, cellBits, Cpu.emit, Cpu.st, Cpu.call, Cpu.rd, Cells.get_set, hlo, hhi]

theorem local_sbRebaseHook : Local HookCell s (sbRebaseHook s) := by
  have h : Local HookCell s ((s.st sbCnt2Lo (s.rd scCnt2)).st sbCnt2Hi (s.rd scCnt3)) :=
    ((Local.refl s).st (by decide)).st (by decide)
  exact Local.ite (fun _ => h) fun _ => h.st (by decide)

/-- The clamp. -/
theorem rd_sbPhase_sbRebaseHook :
    (sbRebaseHook s).rd sbPhase = if s.rd sbPhase ≤ 8 then s.rd sbPhase else 0 := by
  simp only [sbRebaseHook]
  split_ifs with h h' h'
  all_goals simp_all

end specs

end IntvNetplay.Console
