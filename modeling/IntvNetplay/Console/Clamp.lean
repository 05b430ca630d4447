import IntvNetplay.Console.Kickoff
import IntvNetplay.Console.Receive

/-!
# Image bytes and the clamp of `SB_PHASE`

A chunk of a state image is applied as it arrives; its phase byte is clamped by `SB_REBASE_HOOK`,
when END arrives.  In between the engine must not run a game tick.  Passes that begin in between
take the hold path; a pass that was past that test when the chunk arrived must find the gate closed.
-/

namespace IntvNetplay.Console

open IntvNetplay.Machine

/-- The cartridge's own code keeps `SB_PHASE` in 0..8, and its boot sets it so. -/
structure World.Clamped (W : World) : Prop where
  tick1 : ∀ m, m.get sbPhase ≤ 8 → (W.cart.tick1 m).get sbPhase ≤ 8
  handler : ∀ p v c m, m.get sbPhase ≤ 8 → (W.cart.handler p v c m).get sbPhase ≤ 8
  isr : ∀ m m', W.isr m m' → m.get sbPhase ≤ 8 → m'.get sbPhase ≤ 8
  native : ∀ m m', W.native m m' → m.get sbPhase ≤ 8 → m'.get sbPhase ≤ 8
  boot : ∀ m m', W.boot m m' → m'.get sbPhase ≤ 8

/-- The match is on and a remote seat is behind the tick counter. -/
def Closed (s : Cpu) : Prop :=
  s.rd netDropped = 0 ∧ ∃ seat < max 1 (s.rd netCount), seatBehind s seat = true

/-- A pump that a pass makes after its hold test leaves image bytes applied and not rebased only if
the gate is closed behind it. -/
def MidPass (p : Option Poll) (n n' : Node) : Prop :=
  p.isSome = true → n.phase = .top ∨ n.phase = .stall → n'.cpu.mark.raw = true → Closed n'.cpu

theorem not_gateOpen_of_closed {s : Cpu} (h : Closed s) : gateOpen s = false := by
  obtain ⟨hd, seat, hs, hb⟩ := h
  simp only [gateOpen, hd, ne_eq, not_true_eq_false, decide_false, Bool.false_or,
    List.all_eq_false, List.mem_range]
  exact ⟨seat, hs, by rw [hb]; decide⟩

/-- The gate reads the watermarks, the tick counter and the match-control cells. -/
def GateCell (a : ℕ) : Prop :=
  a = netDropped ∨ a = netCount ∨ a = netSeat ∨ WmCell a ∨ a = tickLo ∨ a = tickHi

instance : DecidablePred GateCell := fun a => by unfold GateCell; infer_instance

theorem Closed.of_rd {s t : Cpu} (h : Closed s) (hc : s.rd netCount ≤ 4)
    (hr : ∀ a, GateCell a → t.rd a = s.rd a) : Closed t := by
  obtain ⟨hd, seat, hs, hb⟩ := h
  have hwm : t.wm seat = s.wm seat := by
    apply Cpu.wm_congr <;> apply hr
    all_goals exact Or.inr (Or.inr (Or.inr (Or.inl ⟨by omega, by simp only [seatWm]; omega⟩)))
  have htick : t.tick = s.tick := Cpu.tick_congr (hr _ (by decide)) (hr _ (by decide))
  refine ⟨by rw [hr _ (by decide), hd], seat, by rw [hr _ (by decide)]; exact hs, ?_⟩
  rw [seatBehind, hr _ (by decide), hwm, htick]
  exact hb

/-! ### The phase cell through a tick -/

section tick

variable {C : Cart} {Q : ℕ → Prop} {s : Cpu}
  (hC : ∀ p v c m, Q (m.get sbPhase) → Q ((C.handler p v c m).get sbPhase))
include hC

theorem phase_lsVcall (v : ℕ) (h : Q (s.rd sbPhase)) : Q ((lsVcall C v s).rd sbPhase) := by
  simp only [lsVcall]
  split
  · exact h
  · exact hC _ _ _ _ h

theorem phase_vdReplay (h : Q (s.rd sbPhase)) :
    Q ((vdDisc C (vdPress C (vdRelease C s))).rd sbPhase) := by
  have hcall : ∀ (t : Cpu) (k v : ℕ), Q (t.rd sbPhase) →
      Q ((lsVcall C v (t.st vdTmp k)).rd sbPhase) := fun t k v ht =>
    phase_lsVcall hC v (by rwa [Cpu.rd_st, if_neg (by decide)])
  have hrel : ∀ t : Cpu, Q (t.rd sbPhase) → Q ((vdRelease C t).rd sbPhase) := fun t ht => by
    simp only [vdRelease]
    split
    · exact ht
    · exact hcall t _ _ ht
  have hpress : ∀ t : Cpu, Q (t.rd sbPhase) → Q ((vdPress C t).rd sbPhase) := fun t ht => by
    simp only [vdPress]
    split
    · exact ht
    · exact hcall t _ _ ht
  have hdisc : ∀ t : Cpu, Q (t.rd sbPhase) → Q ((vdDisc C t).rd sbPhase) := fun t ht => by
    simp only [vdDisc]
    split
    · exact ht
    · split
      · split
        · exact ht
        · exact hcall t _ _ ht
      · exact hcall t _ _ ht
  exact hdisc _ (hpress _ (hrel _ h))

theorem phase_dispatchSeat (seat : ℕ) (h : Q (s.rd sbPhase)) :
    Q ((dispatchSeat C seat s).rd sbPhase) := by
  have hload : (vdLoad ((s.st vdSide seat).st vdCtrl seat)).rd sbPhase = s.rd sbPhase := by
    simp only [vdLoad, Cpu.rd_emit]
    simp (disch := decide) only [Cpu.rd_st, if_neg]
  rw [dispatchSeat, lsVdispatch]
  exact phase_vdReplay hC (by rwa [hload])

/-- What the game tick finds in the phase cell. -/
theorem phase_tickDispatch (h : Q (s.rd sbPhase)) : Q ((tickDispatch C s).rd sbPhase) := by
  have htbl : ∀ t : Cpu, (nullTable (lsTblAdopt t)).rd sbPhase = t.rd sbPhase := fun t => by
    simp only [nullTable, lsTblAdopt]
    split <;> simp (disch := decide) only [Cpu.rd_st, if_neg]
  have hins : ∀ t : Cpu, (installTable (lsTblAdopt t)).rd sbPhase = t.rd sbPhase := fun t => by
    simp only [installTable, lsTblAdopt]
    split_ifs <;> simp (disch := decide) only [Cpu.rd_st, if_neg]
  have hupd : ∀ t : Cpu, (updateShadow t).rd sbPhase = t.rd sbPhase := fun t => by
    simp only [updateShadow]
    simp (disch := decide) only [Cpu.rd_st, if_neg]
  have hsh : ∀ t : Cpu, (shadowFromRings t).rd sbPhase = t.rd sbPhase := fun t => by
    simp only [shadowFromRings, Cpu.rd_emit]
    simp (disch := decide) only [Cpu.rd_st, if_neg]
  have h0 : (shadowFromRings (tickShadow s)).rd sbPhase = s.rd sbPhase := by
    simp only [tickShadow]
    rw [hsh, hins, hupd, Cpu.rd_emit, (local_lsUnfreeze s).rd _ (by decide)]
  rw [tickDispatch, htbl]
  exact phase_dispatchSeat hC 1 (phase_dispatchSeat hC 0 (by rwa [h0]))

theorem phase_lsTick (ht : ∀ m, Q (m.get sbPhase) → Q ((C.tick1 m).get sbPhase))
    (h : Q (s.rd sbPhase)) : Q ((lsTick C s).rd sbPhase) := by
  have htbl : ∀ t : Cpu, (nullTable (lsTblAdopt t)).rd sbPhase = t.rd sbPhase := fun t => by
    simp only [nullTable, lsTblAdopt]
    split <;> simp (disch := decide) only [Cpu.rd_st, if_neg]
  have hgame : ∀ t : Cpu, (scGameTick C t).rd sbPhase = (C.tick1 t.mem).get sbPhase := fun t => by
    simp (disch := decide) only [scGameTick, Cpu.rd_st, Cpu.rd_emit, if_neg]
    rfl
  rw [lsTick_eq, htbl, ← tickDispatch, hgame]
  exact ht _ (phase_tickDispatch hC h)

end tick

/-! ### Applied bytes behind the hold -/

/-- The entry of a game tick that saw a phase in range, with no image byte waiting for the clamp. -/
def Stamped.Tame (e : Stamped) : Prop :=
  ∀ phase, e.ev = .gameTick phase → phase ≤ 8 ∧ e.raw = false

/-- No entry of a game tick. -/
def Ev.NoTick : Ev → Prop
  | .gameTick _ => False
  | _ => True

theorem noTick_noted (e : Ev) (h : e.Noted) : e.NoTick := by cases e <;> trivial

theorem Stamped.tame_of_noTick {e : Stamped} (h : e.ev.NoTick) : e.Tame := by
  intro phase hp
  rw [hp] at h
  exact h.elim

/-- Image bytes that wait for the clamp are behind a hold, or the match is over. -/
structure Veiled (booted : Prop) (s : Cpu) : Prop extends Seated s where
  phase : booted → s.mark.raw = false → s.rd sbPhase ≤ 8
  held : s.mark.raw = true → s.rd resyncHold ≠ 0 ∨ s.rd netDropped ≠ 0
  ticks : ∀ e ∈ s.log, e.Tame

namespace Veiled

variable {b : Prop} {s t : Cpu} {P : ℕ → Prop}

theorem ticks_of_adds (h : Veiled b s) (ha : Adds Ev.NoTick s t) : ∀ e ∈ t.log, e.Tame :=
  fun e he => (ha e he).elim (h.ticks e) Stamped.tame_of_noTick

theorem of_within (h : Veiled b s) (hs : Seated t) (hw : Within P s t) (h1 : ¬ P sbPhase)
    (h2 : ¬ P resyncHold) (h3 : ¬ P netDropped) (hm : t.mark.raw = s.mark.raw)
    (ha : Adds Ev.NoTick s t) : Veiled b t where
  toSeated := hs
  phase hb hr := by rw [hw.rd _ h1]; exact h.phase hb (hm ▸ hr)
  held hr := by rw [hw.rd _ h2, hw.rd _ h3]; exact h.held (hm ▸ hr)
  ticks := h.ticks_of_adds ha

theorem of_local (h : Veiled b s) (hw : Local P s t)
    (hp : ∀ a ∈ [sbPhase, resyncHold, netDropped, netSeat, netCount, lobbyCnt], ¬ P a) :
    Veiled b t :=
  h.of_within (h.toSeated.of_within hw.within (hp _ (by simp)) (hp _ (by simp)) (hp _ (by simp)))
    hw.within (hp _ (by simp)) (hp _ (by simp)) (hp _ (by simp)) (by rw [hw.mark])
    (Adds.of_log hw.log)

end Veiled

section frames

variable {b : Prop} {s : Cpu}

theorem raw_onInput : (onInput s).mark.raw = s.mark.raw := by
  simp only [onInput]
  split_ifs <;> rfl

theorem raw_onStart : (onStart s).mark.raw = s.mark.raw := by
  have h : ∀ t : Cpu, (noteStart t).mark.raw = t.mark.raw := fun _ => rfl
  unfold onStart
  split_ifs
  · rfl
  · rw [h, (local_takeStart s).mark]

/-- BEGIN opens the hold; END clamps and closes it. -/
theorem veiled_rsOnControl (h : Veiled b s) : Veiled b (rsOnControl s) := by
  have hbad : Local MailCell s (rsBad s) := Local.diagBump (Local.refl s) (by decide)
  unfold rsOnControl
  split_ifs with h1 h2 h3 h4
  · exact h.of_local hbad (by decide)
  · have hb := local_beginFrame s
    set t := ((rsEnterHold s).st rsRLo ((rsEnterHold s).rd (frmbuf + 4))).st rsRHi
      (((rsEnterHold s).st rsRLo ((rsEnterHold s).rd (frmbuf + 4))).rd (frmbuf + 5)) with ht
    have hhold : t.rd resyncHold = 1 := by
      rw [ht, Cpu.rd_st, if_neg (by decide), Cpu.rd_st, if_neg (by decide), rsEnterHold,
        (local_rsClrCrc _).rd _ (by decide)]
      simp [cellBits]
    exact ⟨h.toSeated.of_within hb.within (by decide) (by decide) (by decide),
      fun hb' hr => by rw [hb.rd _ (by decide)]; exact h.phase hb' (hb.mark ▸ hr),
      fun _ => Or.inl (by rw [hhold]; decide), h.ticks_of_adds (Adds.of_log hb.log)⟩
  · exact h
  · exact h
  · have hw := within_rsRebase s
    have hphase : (rsRebase s).rd sbPhase ≤ 8 := by
      rw [rd_rsRebase, (local_rsRestart _).rd _ (by decide), rd_sbPhase_rsInstall]
      split_ifs <;> omega
    refine ⟨h.toSeated.of_within hw (by decide) (by decide) (by decide), fun _ _ => hphase,
      fun hr => ?_, h.ticks_of_adds (Adds.cons (t := s) (Adds.of_log rfl) (log_rsRebase s) ?_)⟩
    · rw [mark_rsRebase] at hr
      exact Bool.noConfusion hr
    · exact noTick_noted _ trivial

/-- A chunk is applied inside a hold only. -/
theorem veiled_rsOnChunk (h : Veiled b s) : Veiled b (rsOnChunk s) := by
  have hbad : ∀ t : Cpu, Local MailCell t (rsBad t) := fun t =>
    Local.diagBump (Local.refl t) (by decide)
  have hbad' : ∀ v, Local (fun a => MailCell a ∨ a = rsTmp2) s (rsBad (s.st rsTmp2 v)) := fun v =>
    ((Local.refl s).st (Or.inr rfl)).trans ((hbad _).mono fun _ => Or.inl)
  simp only [rsOnChunk]
  split_ifs with h1 h2 h3 h4
  · exact h.of_local (hbad s) (by decide)
  · exact h.of_local (hbad s) (by decide)
  · exact h.of_local (hbad' _) (by decide)
  · exact h.of_local (hbad' _) (by decide)
  · have hn : s.rd16 (frmbuf + 2) (frmbuf + 3) + (s.rd frmbuf - 3) ≤ imgTotal := by
      simp only [imgTotal] at h4 ⊢
      omega
    have hw := within_rsApply s hn
    refine ⟨h.toSeated.of_within hw (by decide) (by decide) (by decide), fun _ hr => ?_,
      fun _ => Or.inl (by rw [hw.rd _ (by decide)]; exact h1),
      h.ticks_of_adds (Adds.cons (t := s) (Adds.of_log rfl) (log_rsApply s hn) ?_)⟩
    · rw [mark_rsApply s hn] at hr
      exact Bool.noConfusion hr
    · exact noTick_noted _ trivial

theorem veiled_sesOnframe (h : Veiled b s) (hg : seatsGuard.holds (sesOnframe s).log) :
    Veiled b (sesOnframe s) := by
  have hs := seated_sesOnframe h.toSeated hg
  have ha : Adds Ev.NoTick s (sesOnframe s) := by
    by_cases hi : s.rd (frmbuf + 1) = ftInput
    · rw [sesOnframe_input hi]
      refine adds_onInput s (fun _ => trivial) fun _ e he => ?_
      simp only [takeInput, Cpu.log_emit, List.head?_cons, Option.mem_def, Option.some.injEq] at he
      rw [← he]
      trivial
    · exact (adds_sesOnframe s hi).mono noTick_noted
  simp only [sesOnframe] at hs ha ⊢
  split_ifs at hs ha ⊢
  · exact h.of_within hs (within_onInput s h.count) (by decide) (by decide) (by decide)
      raw_onInput ha
  · exact h.of_within hs (local_onLobby s).within (by decide) (by decide) (by decide)
      (by rw [(local_onLobby s).mark]) ha
  · exact h.of_within hs (within_onStart s) (by decide) (by decide) (by decide) raw_onStart ha
  · have hw := local_onPeerLeft s
    have hd : (onPeerLeft s).rd netDropped = 1 := by
      rw [onPeerLeft, (local_lsIdleRmt _).rd _ (by decide)]
      simp [cellBits]
    exact ⟨hs, fun hb hr => by rw [hw.rd _ (by decide)]; exact h.phase hb (hw.mark ▸ hr),
      fun _ => Or.inr (by rw [hd]; decide), h.ticks_of_adds ha⟩
  · exact h.of_within hs (within_onRoom_any s h.lobby) (by decide) (by decide) (by decide)
      (congrArg Mark.raw (mark_onRoom s)) ha
  · exact h.of_within hs (within_rsOnCrc s) (by decide) (by decide) (by decide)
      (congrArg Mark.raw (mark_rsOnCrc s)) ha
  · unfold rsOnState
    split_ifs
    · exact h.of_local (Local.diagBump (P := MailCell) (Local.refl s) (by decide)) (by decide)
    · exact veiled_rsOnControl h
    · exact veiled_rsOnChunk h
  · exact h.of_within hs (within_rsOnReq s) (by decide) (by decide) (by decide)
      (congrArg Mark.raw (mark_rsOnReq s)) ha
  · exact h

theorem veiled_sesPump {p : Poll} (h : Veiled b s) (hg : seatsGuard.holds (sesPump p s).log) :
    Veiled b (sesPump p s) := by
  have hcells : ∀ a ∈ [sbPhase, resyncHold, netDropped, netSeat, netCount, lobbyCnt],
      ¬ PumpCell a := by decide
  refine sesPump_induct (P := fun t => seatsGuard.holds t.log → Veiled b t)
    (fun _ => h.of_local (local_sesFetch p s) hcells)
    (fun t ht hg => (ht (seatsGuard.suffix (local_ppSlip t).within.grows hg)).of_local
      (local_ppSlip t) hcells)
    (fun t ht hf _ hg => veiled_sesOnframe ((ht (seatsGuard.suffix (grows_frame t) hg)).of_local
      (local_ppExtract_frame hf) hcells) hg) hg

end frames

/-! ### A tick -/

section tick

variable {C : Cart} {s : Cpu}

theorem noTick_ofTail (e : Ev) (h : e.OfTail) : e.NoTick := by cases e <;> trivial

/-- The tail of a pass leaves the phase in range and nothing unclamped. -/
theorem veiled_rsPending {b : Prop} (h : Veiled b s) (hr : s.mark.raw = false) :
    Veiled b (rsPending s) ∧ (rsPending s).mark.raw = false := by
  have ha := (adds_rsPending s).mono noTick_ofTail
  rcases rsPending_cases s with hw | ⟨-, -, -, t, ht, he⟩
  · exact ⟨h.of_local hw (by decide), by rw [hw.mark, hr]⟩
  · have hraw : (rsPush t).mark.raw = false := by rw [rsPush_eq, mark_rsRebase]
    have hphase : (rsPush t).rd sbPhase ≤ 8 := by
      rw [rsPush_eq, rd_rsRebase, (local_rsRestart _).rd _ (by decide), rd_sbPhase_rsInstall]
      split_ifs <;> omega
    have hw := (ht.within.mono wait_pass).trans (within_rsPush t)
    rw [he] at ha ⊢
    refine ⟨⟨h.toSeated.of_within hw (by decide) (by decide) (by decide), fun _ _ => hphase,
      fun hr' => ?_, h.ticks_of_adds ha⟩, hraw⟩
    rw [hraw] at hr'
    exact Bool.noConfusion hr'

/-- The one game tick of a pass. -/
theorem tame_lsTick {b : Prop} (h : Veiled b s) (hp : (tickDispatch C s).rd sbPhase ≤ 8)
    (hr : s.mark.raw = false) : ∀ e ∈ (lsTick C s).log, e.Tame := by
  rw [log_lsTick]
  simp only [List.forall_mem_cons]
  refine ⟨Stamped.tame_of_noTick trivial, fun phase he => ?_, Stamped.tame_of_noTick trivial,
    Stamped.tame_of_noTick trivial, Stamped.tame_of_noTick trivial, Stamped.tame_of_noTick trivial,
    h.ticks⟩
  rw [Mark.stamp_ev, Ev.gameTick.injEq] at he
  exact ⟨he ▸ hp, hr⟩

/-- A tick that starts with the phase in range and nothing unclamped. -/
theorem veiled_lsRun {b : Prop} (hb : b)
    (ht : ∀ m, m.get sbPhase ≤ 8 → (C.tick1 m).get sbPhase ≤ 8)
    (hC : ∀ p v c m, m.get sbPhase ≤ 8 → (C.handler p v c m).get sbPhase ≤ 8)
    (h : Veiled b s) (hr : s.mark.raw = false) : Veiled b (lsRun C s) := by
  have hphase := h.phase hb hr
  have htick : Veiled b (lsTick C s) := by
    have hw := within_lsTick s C
    refine ⟨h.toSeated.of_within hw (by decide) (by decide) (by decide),
      fun _ _ => phase_lsTick (Q := (· ≤ 8)) hC ht hphase, fun hr' => ?_,
      tame_lsTick h (phase_tickDispatch (Q := (· ≤ 8)) hC hphase) hr⟩
    rw [mark_lsTick, hr] at hr'
    exact Bool.noConfusion hr'
  have hw := within_runBody_tick s C
  have hraw : (runBody C s).mark.raw = false := by rw [mark_runBody, hr]
  have hadd : Adds Ev.NoTick (lsTick C s) (runBody C s) := fun e he => by
    rw [log_runBody] at he
    split_ifs at he
    · exact (List.mem_cons.1 he).elim (fun h => Or.inr (h ▸ trivial)) Or.inl
    · exact Or.inl he
  have hbody : Veiled b (runBody C s) :=
    htick.of_within (htick.toSeated.of_within hw (by decide) (by decide) (by decide)) hw (by decide)
      (by decide) (by decide) (by rw [hraw, mark_lsTick, hr]) hadd
  rw [lsRun_eq]
  exact (veiled_rsPending hbody hraw).1

end tick

/-! ### Runs -/

/-- The game is running. -/
def Phase.Booted : Phase → Prop
  | .lobby | .matched | .boot => False
  | _ => True

/-- The console between two steps: past the hold test of a pass, an applied image byte finds the
gate closed. -/
structure Shut (n : Node) : Prop where
  veiled : Veiled n.phase.Booted n.cpu
  top : n.phase = .top → n.cpu.mark.raw = false
  closed : n.phase = .send ∨ n.phase = .gate → n.cpu.mark.raw = true → Closed n.cpu

section steps

variable {W : World} {s : Cpu}

/-- The other phases ask for nothing more. -/
theorem Shut.of_veiled {ph : Phase} (h : Veiled ph.Booted s)
    (hph : ph ≠ .top ∧ ph ≠ .send ∧ ph ≠ .gate) : Shut ⟨ph, s⟩ :=
  ⟨h, fun he => absurd he hph.1, fun he => absurd he (not_or.2 hph.2)⟩

/-- The EXEC and the native code. -/
theorem veiled_outside {b b' : Prop} (h : Veiled b s) {m : Mem}
    (hm : ∀ a, 0x8000 ≤ a → m.get a = s.mem.get a)
    (hp : b' → s.mark.raw = false → m.get sbPhase ≤ 8) : Veiled b' (s.call fun _ => m) where
  toSeated := h.toSeated.of_within (local_outside hm).within (by decide) (by decide) (by decide)
  phase := hp
  held hr := by
    rw [(local_outside hm).rd _ (by decide), (local_outside hm).rd _ (by decide)]
    exact h.held hr
  ticks := h.ticks

theorem veiled_lsReturn {b : Prop} (h : Veiled b s) : Veiled b (lsReturn s) :=
  ⟨⟨h.seat, h.count, h.lobby⟩, h.phase, h.held, h.ticks⟩

/-- A pass that passes the hold test has nothing that waits for the clamp. -/
theorem shut_lsEntry (h : Veiled True s) : Shut (lsEntry s) := by
  have hfreeze : Veiled True (lsFreeze s) := h.of_local (local_lsFreeze s) (by decide)
  unfold lsEntry
  split_ifs with h1 h2 h3
  · exact .of_veiled (veiled_lsReturn h) (by decide)
  · exact .of_veiled (h.of_local (local_lsGone s) (by decide)) (by decide)
  · refine .of_veiled ?_ (by decide)
    exact ⟨⟨hfreeze.seat, hfreeze.count, hfreeze.lobby⟩, hfreeze.phase, hfreeze.held,
      hfreeze.ticks⟩
  · refine ⟨h, fun _ => ?_, fun he => ?_⟩
    · by_contra hr
      exact (h.held (by simpa using hr)).elim h3 h2
    · rcases he with he | he <;> cases he

/-- The capture and the send do not move what the gate reads. -/
theorem closed_lsSend (h : Closed s) (hs : Seated s) : Closed (lsSend s) := by
  refine h.of_rd hs.count fun a ha => (within_lsSend hs.seat).rd a ?_
  simp only [GateCell, WmCell, seatWm, netDropped, netCount, netSeat, tickLo, tickHi] at ha
  simp only [CaptureCell, RingCell, MailCell, seatRing, lsTmpb, lsTmpb2]
  omega

theorem veiled_lsSend {b : Prop} (h : Veiled b s) : Veiled b (lsSend s) := by
  have hw := within_lsSend (s := s) h.seat
  refine h.of_within (h.toSeated.of_within hw (by decide) (by decide) (by decide)) hw
    (by decide) (by decide) (by decide) (by rw [mark_lsSend h.seat]) ?_
  exact (Adds.of_log (s := s) (t := s) rfl).cons (log_lsSend.trans (log_lsCapture h.seat)) trivial

theorem shut_lsSend (h : Shut ⟨.send, s⟩) : Shut ⟨.gate, lsSend s⟩ := by
  have hv : Veiled True s := h.veiled
  have hr := congrArg Mark.raw (mark_lsSend hv.seat)
  have hv' := veiled_lsSend hv
  have hc : (lsSend s).mark.raw = true → Closed (lsSend s) := fun hr' =>
    closed_lsSend (h.closed (Or.inl rfl) (hr ▸ hr')) hv.toSeated
  generalize lsSend s = t at hv' hc
  exact ⟨hv', fun he => Phase.noConfusion he, fun _ => hc⟩

/-- A gate that opens opens on clamped bytes. -/
theorem shut_lsGate (hW : W.Clamped) (h : Shut ⟨.gate, s⟩) : Shut (lsGate W.cart s) := by
  have hv : Veiled True s := h.veiled
  unfold lsGate
  split_ifs with ho
  · refine .of_veiled (veiled_lsReturn (veiled_lsRun trivial hW.tick1 hW.handler hv ?_)) (by decide)
    by_contra hr
    have hc := not_gateOpen_of_closed (h.closed (Or.inr rfl) (by simpa using hr))
    rw [hc] at ho
    exact Bool.noConfusion ho
  · exact .of_veiled (hv.of_local (local_lsFreeze s) (by decide)) (by decide)

theorem shut_advance (hW : W.Clamped) {n n' : Node} (h : Shut n)
    (ha : advance W.cart n = some n') : Shut n' := by
  obtain ⟨ph, s⟩ := n
  cases ph <;> simp only [advance, Option.some.injEq, reduceCtorEq] at ha <;> subst ha
  · exact shut_lsEntry h.veiled
  · exact shut_lsSend h
  · exact shut_lsGate hW h

/-- A round that counts, or gives up. -/
theorem veiled_countOrDrop {b : Prop} {t : Cpu} (h : Veiled b s) (ht : CountOrDrop s t) :
    Veiled b t := by
  rcases ht with ht | ⟨ht, hd⟩
  · exact h.of_local ht (by decide)
  · refine ⟨h.toSeated.of_within ht.within (by decide) (by decide) (by decide), fun hb hr => ?_,
      fun _ => Or.inr (by rw [hd]; decide), h.ticks_of_adds (Adds.of_log ht.log)⟩
    rw [ht.rd _ (by decide)]
    exact h.phase hb (ht.mark ▸ hr)

/-- The lobby leaves the hold alone. -/
theorem veiled_menu {b : Prop} {t : Cpu} (h : Veiled b s) (hw : Within MenuCell s t)
    (hs : Silent s t) : Veiled False t where
  toSeated := h.toSeated.of_within hw (by decide) (by decide) (by decide)
  phase := False.elim
  held hr := by
    rw [hw.rd _ (by decide), hw.rd _ (by decide)]
    exact h.held (hs.mark ▸ hr)
  ticks := h.ticks_of_adds (Adds.of_log hs.log)

theorem shut_afterPump {raw : ℕ} {ph : Phase} {n : Node} (h : Veiled ph.Booted s)
    (ha : afterPump raw ph s = some n)
    (hm : ph = .top ∨ ph = .stall → n.cpu.mark.raw = true → Closed n.cpu) : Shut n := by
  cases ph <;> simp only [afterPump, Option.some.injEq, reduceCtorEq] at ha <;> subst ha
  case lobby =>
    have hv := veiled_menu h (within_lobbyRound raw h.lobby h.count) (silent_lobbyRound raw s)
    unfold lobbyRound at hv ⊢
    split_ifs at hv ⊢
    · exact .of_veiled hv (by decide)
    · exact .of_veiled hv (by decide)
  case matched =>
    have hl := local_matchedRound s
    have hv := veiled_menu h hl.within ⟨hl.log, hl.mark⟩
    simp only [matchedRound] at hv ⊢
    split_ifs at hv ⊢
    · exact .of_veiled hv (by decide)
    · exact .of_veiled hv (by decide)
  case hold =>
    have hv := veiled_lsReturn (veiled_countOrDrop h (countOrDrop_holdTail s))
    exact .of_veiled hv (by decide)
  case top => exact ⟨h, fun he => Phase.noConfusion he, fun _ => hm (Or.inl rfl)⟩
  case stall =>
    have hv := veiled_countOrDrop h (countOrDrop_stallTail s)
    exact ⟨hv, fun he => Phase.noConfusion he, fun _ => hm (Or.inr rfl)⟩

theorem shut_step (hW : W.Clamped) {p : Option Poll} {n n' : Node} (h : Shut n)
    (hs : Step W p n n') (hm : MidPass p n n') (hg : seatsGuard.holds n'.cpu.log) : Shut n' := by
  have hcell : ∀ a, GateCell a → 0x8000 ≤ a := fun a ha => by
    simp only [GateCell, WmCell, seatWm, netDropped, netCount, netSeat, tickLo, tickHi] at ha
    omega
  cases hs with
  | @isr ph s m hi =>
    refine ⟨veiled_outside h.veiled (W.isr_get hi) fun hb hr => ?_, h.top, fun hp hr => ?_⟩
    · exact hW.isr _ _ hi (h.veiled.phase hb hr)
    · exact (h.closed hp hr).of_rd h.veiled.count fun a ha => W.isr_get hi a (hcell a ha)
  | native hn =>
    refine .of_veiled (veiled_outside h.veiled (W.native_get hn) fun _ hr => ?_) (by decide)
    exact hW.native _ _ hn (h.veiled.phase trivial hr)
  | boot hb =>
    exact .of_veiled (veiled_outside h.veiled (W.boot_get hb) fun _ _ => hW.boot _ _ hb) (by decide)
  | own ha => exact shut_advance hW h ha
  | pump ha => exact shut_afterPump (veiled_sesPump h.veiled (log_afterPump ha ▸ hg)) ha (hm rfl)

end steps

/-- A run in which image bytes that arrive in the middle of a pass find the gate closed. -/
def GuardedRun (W : World) : Node → Node → Prop :=
  Relation.ReflTransGen fun n n' => ∃ p, Step W p n n' ∧ MidPass p n n'

theorem shut_run {W : World} (hW : W.Clamped) {n n' : Node} (h : Shut n) (hr : GuardedRun W n n')
    (hg : seatsGuard.holds n'.cpu.log) : Shut n' := by
  induction hr with
  | refl => exact h
  | tail _ hs ih =>
    obtain ⟨p, hs, hm⟩ := hs
    exact shut_step hW (ih (seatsGuard.suffix (grows_step hs) hg)) hs hm hg

/-- **No unclamped phase runs**: in a run that takes no START out of range, and in which image bytes
that a pass applies after its hold test, and that wait for their rebase, find the gate closed, every
game tick is entered with `SB_PHASE` in 0..8 and with no image byte waiting for the clamp. -/
theorem clamped_before_tick {W : World} (hW : W.Clamped) (name : List ℕ) (m : Mem) (rom : Rom)
    {n : Node} (hr : GuardedRun W (loggedIn name m rom) n) (hg : seatsGuard.holds n.cpu.log) :
    ∀ e ∈ n.cpu.log, ∀ phase, e.ev = .gameTick phase → phase ≤ 8 ∧ e.raw = false := by
  have hraw : (loggedIn name m rom).cpu.mark.raw = false := by
    rw [mark_loggedIn]
    rfl
  have hv : Veiled False (loggedIn name m rom).cpu := by
    refine ⟨seated_loggedIn name m rom, False.elim, fun h => ?_, ?_⟩
    · exact Bool.noConfusion (hraw.symm.trans h)
    · rw [log_loggedIn]
      simp
  have hstart : Shut (loggedIn name m rom) := .of_veiled hv (by decide)
  exact (shut_run hW hstart hr hg).veiled.ticks

/-! ### A chunk in the middle of the first pass -/

/-- The boot clears the phase; nothing else runs beside the engine. -/
def bootWorld : World where
  cart := stillWorld.cart
  isr := stillWorld.isr
  native := stillWorld.native
  boot m m' := m' = m.set sbPhase 0
  isr_get := stillWorld.isr_get
  native_get := stillWorld.native_get
  boot_get := get_clear_phase

theorem clamped_bootWorld : bootWorld.Clamped where
  tick1 _ h := h
  handler _ _ _ _ h := h
  isr _ _ hm h := by rw [hm]; exact h
  native _ _ hm h := by rw [hm]; exact h
  boot m m' hm := by rw [hm, Cells.get_set, if_pos rfl]; decide

/-- A START for seat 1 of two, BEGIN, and a chunk of one byte at the position of `SB_PHASE`. -/
def startOfGuest : List ℕ := startFrame 1 2 0 0 1 (List.replicate 32 0)
def beginAt16 : List ℕ := stateFrame posBegin [16, 0]
def wildPhase : List ℕ := stateFrame 7 [255]

theorem framed_startOfGuest : Framed startOfGuest := ⟨by decide, by decide, by decide⟩
theorem framed_beginAt16 : Framed beginAt16 := ⟨by decide, by decide, by decide⟩
theorem framed_wildPhase : Framed wildPhase := ⟨by decide, by decide, by decide⟩

/-- The console that has just logged in, every cell that it does not clear being 0. -/
def guest : Node := loggedIn [] blank ⟨fun _ => 0, 0⟩

theorem log_guest : guest.cpu.log = [] := log_loggedIn _ _ _

theorem guest_reach_top : ∃ t, Relation.ReflTransGen (fun n n' =>
    (n.phase ≠ .top ∧ n.phase ≠ .stall) ∧ ∃ p, Step bootWorld p n n') guest ⟨.top, t⟩ ∧
      Kicked 1 2 1 guest.cpu t := by
  refine reach_top (rxBytes_loggedIn _ _ _) framed_startOfGuest (by decide) ?_ fun m => ⟨_, rfl⟩
  rintro a (rfl | rfl | rfl) <;>
    exact (rd_loggedIn (by decide) (by decide) (by decide)).trans (by decide)

/-- The gate of the first tick is open at once. -/
theorem gateOpen_first {s t : Cpu} (h : Opened 1 2 1 s)
    (hr : ∀ a ∈ [netSeat, netCount, tickLo, tickHi, seatWm, seatWm + 1], t.rd a = s.rd a) :
    gateOpen t = true := by
  have hseat : t.rd netSeat = 1 := by rw [hr _ (by simp), h.rdSeat]
  have hcount : t.rd netCount = 2 := by rw [hr _ (by simp), h.rdCount]
  have htick : t.tick = 0 := (Cpu.tick_congr (hr _ (by simp)) (hr _ (by simp))).trans h.tick
  have hwm : t.wm 0 = 0 := by
    rw [Cpu.wm_congr (hr (seatWm + 2 * 0) (by simp)) (hr (seatWm + 2 * 0 + 1) (by simp))]
    exact h.wm 0 (by decide)
  have hb : seatBehind t 0 = false ∧ seatBehind t 1 = false := by
    refine ⟨?_, ?_⟩
    · rw [seatBehind, hwm, htick]
      exact Bool.and_false _
    · rw [seatBehind, hseat]
      rfl
  rw [gateOpen, hcount, Bool.or_eq_true]
  right
  rw [List.all_eq_true]
  intro i hi
  rw [List.mem_range] at hi
  have : i = 0 ∨ i = 1 := by omega
  rcases this with rfl | rfl
  · rw [hb.1]; rfl
  · rw [hb.2]; rfl

/-- The game tick of a pass is in its log. -/
theorem mem_lsGate (C : Cart) {s : Cpu} (h : gateOpen s = true) :
    s.mark.stamp (.gameTick ((tickDispatch C s).rd sbPhase)) ∈ (lsGate C s).cpu.log := by
  have hgrow : (lsTick C s).log <:+ (lsRun C s).log :=
    (within_runBody_tick s C).grows.trans (within_rsPending _).grows
  rw [lsGate, if_pos h, log_lsReturn]
  refine hgrow.subset ?_
  rw [log_lsTick]
  exact List.mem_cons_of_mem _ List.mem_cons_self

/-- The first game tick of a guest runs on a received phase of 255: the chunk arrives with BEGIN at
the top of the pass, and no remote seat is behind. -/
theorem wild_phase_runs : bootWorld.Clamped ∧ ∃ n, Run bootWorld guest n ∧
    ∃ e ∈ n.cpu.log, e.ev = .gameTick 255 ∧ e.raw = true := by
  obtain ⟨t, hrun, hk⟩ := guest_reach_top
  have htype : ∀ {f : List ℕ} {u : Cpu}, InFrmbuf f u → 1 < f.length → f.getD 1 0 = ftState →
      KeepsRx u := fun hf hl h1 => keepsRx_state ((hf.rd hl).trans h1)
  obtain ⟨u, v, hu, hub, hv, hvb, hpump, -⟩ := sesPump_two (s := t) hk.rx framed_beginAt16
    framed_wildPhase (by decide) (fun u _ hf => htype hf (by decide) rfl)
    fun u v _ _ _ hf => htype hf (by decide) rfl
  have hbegin := local_begin hub
  have hhold : v.rd resyncHold ≠ 0 := by
    rw [hv.rd _ (by decide), hold_begin hub]
    decide
  have hw := within_chunk hvb (by decide) (by decide) hhold
  have hphase : (sesOnframe v).rd sbPhase = 255 := by
    rw [← imgGet_seven, imgGet_chunk hvb (by decide) (by decide) hhold (by decide) (by decide)]
    rfl
  have hraw : (sesOnframe v).mark.raw = true := by
    rw [onframe_chunk hvb (by decide) (by decide) hhold, mark_rsApply v (by decide)]
  have hcells : ∀ a ∈ [netSeat, netCount, tickLo, tickHi, seatWm, seatWm + 1],
      ¬ PumpCell a ∧ ¬ BeginCell a ∧ ¬ ApplyCell a ∧ ¬ (CaptureCell a ∨ MailCell a) := by decide
  have hpumped : ∀ a ∈ [netSeat, netCount, tickLo, tickHi, seatWm, seatWm + 1],
      (sesOnframe v).rd a = t.rd a := fun a ha => by
    obtain ⟨h1, h2, h3, -⟩ := hcells a ha
    rw [hw.rd a h3, hv.rd a h1, hbegin.rd a h2, hu.rd a h1]
  have hseat : (sesOnframe v).rd netSeat < 4 := by
    rw [hpumped _ (by simp), hk.rdSeat]
    decide
  have hsend := within_lsSend hseat
  have hopen : gateOpen (lsSend (sesOnframe v)) = true :=
    gateOpen_first hk.toOpened fun a ha => by rw [hsend.rd a (hcells a ha).2.2.2, hpumped a ha]
  have htop : Step bootWorld (some (.gives (beginAt16 ++ wildPhase))) ⟨.top, t⟩
      ⟨.send, sesOnframe v⟩ := .pump (r := 0) (by rw [hpump]; rfl)
  have hphase' : (tickDispatch bootWorld.cart (lsSend (sesOnframe v))).rd sbPhase = 255 :=
    phase_tickDispatch (Q := (· = 255)) (fun _ _ _ _ h => h)
      (by rw [hsend.rd _ (by decide), hphase])
  have hmem := mem_lsGate bootWorld.cart hopen
  rw [hphase', mark_lsSend hseat] at hmem
  refine ⟨clamped_bootWorld, lsGate bootWorld.cart (lsSend (sesOnframe v)), ?_, _, hmem, rfl, hraw⟩
  have hpre : Run bootWorld guest ⟨.top, t⟩ :=
    Relation.ReflTransGen.mono (p := fun n n' => ∃ p, Step bootWorld p n n')
      (fun _ _ h => h.2) _ _ hrun
  exact ((hpre.tail ⟨_, htop⟩).tail ⟨none, .own (advance_send _ _)⟩).tail
    ⟨none, .own (advance_gate _ _)⟩

theorem seats_ofPass (e : Ev) (h : e.OfPass) : e.Seats := by cases e <;> trivial

end IntvNetplay.Console
