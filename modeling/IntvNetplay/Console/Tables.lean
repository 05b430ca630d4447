import IntvNetplay.Console.Prematch

/-!
# Handler tables

The cartridge keeps the table of its input handlers in `$035D` and installs a new one whenever it likes,
also from a handler.  `LS_PASS` lets the real table in for its own dispatch and shows the EXEC a table
of nulls at all other times: before it overwrites `$035D` it adopts what it finds there.

`Tabled` runs the console with three things written down beside it: the table installed last, what every
`LS_VCALL` has found, and what `GAME_TBL` held whenever `$035D` was nulled.  The console itself is
unchanged (`cpu_tTick`, `TableStep.step`, `exists_tableStep`).
-/

namespace IntvNetplay.Console

open IntvNetplay.Machine

/-- A cartridge that says what it installs: the values it writes to `$035D`, in order.  Any may be 0;
none is the netcode's own table, whose words it cannot write either, as they are in ROM. -/
structure Installer (nullTbl : ℕ) where
  cart : Cart
  ticked : Mem → List ℕ
  handled : ℕ → ℕ → ℕ → Mem → List ℕ
  ticked_last : ∀ m, (cart.tick1 m).get execHtbl = (ticked m).getLast?.getD (m.get execHtbl)
  handled_last : ∀ p v c m,
    (cart.handler p v c m).get execHtbl = (handled p v c m).getLast?.getD (m.get execHtbl)
  ticked_ne : ∀ m, ∀ t ∈ ticked m, t ≠ nullTbl
  handled_ne : ∀ p v c m, ∀ t ∈ handled p v c m, t ≠ nullTbl
  ticked_rom : ∀ m, ∀ k < 10, (cart.tick1 m).get (nullTbl + k) = m.get (nullTbl + k)
  handled_rom : ∀ p v c m, ∀ k < 10,
    (cart.handler p v c m).get (nullTbl + k) = m.get (nullTbl + k)

/-- The handler in a slot of a table; a table of 0 has none. -/
def entryOf (table slot : ℕ) (m : Mem) : Option ℕ :=
  let a := (table + slot) % 65536
  let p := word (m.get a % 256) (m.get ((a + 1) % 65536) % 256)
  if table = 0 ∨ p = 0 then none else some p

/-- What an `LS_VCALL` has found: the handler it called, if any, and the table installed last. -/
structure TableCall where
  latest : ℕ
  slot : ℕ
  mem : Mem
  called : Option ℕ

/-- A console and what is written down beside it. -/
structure Tabled where
  cpu : Cpu
  /-- The table installed last. -/
  latest : ℕ
  calls : List TableCall
  /-- `GAME_TBL` and the table installed last, at every nulling of `$035D`. -/
  nulled : List (ℕ × ℕ)

/-! ### The pass, written down -/

section pass

variable {nullTbl : ℕ} (I : Installer nullTbl)

/-- The handler that `LS_VCALL` calls. -/
def vcallEntry (s : Cpu) : Option ℕ := entryOf (s.rd execHtbl) (s.rd vdTmp) s.mem

theorem lsVcall_eq (C : Cart) (v : ℕ) (s : Cpu) : lsVcall C v s =
    (vcallEntry s).elim s fun p => s.call (C.handler p v (s.rd vdCtrl)) := by
  unfold lsVcall vcallEntry entryOf
  dsimp only
  split_ifs with h h' h'
  · rfl
  · exact absurd h h'
  · exact absurd h' h
  · rfl

/-- `LS_VCALL`. -/
def tVcall (v : ℕ) (x : Tabled) : Tabled where
  cpu := lsVcall I.cart v x.cpu
  latest := (vcallEntry x.cpu).elim x.latest fun p =>
    (I.handled p v (x.cpu.rd vdCtrl) x.cpu.mem).getLast?.getD x.latest
  calls := ⟨x.latest, x.cpu.rd vdTmp, x.cpu.mem, vcallEntry x.cpu⟩ :: x.calls
  nulled := x.nulled

/-- The release of an action button, if there is one to dispatch. -/
def releaseCall (s : Cpu) : Option (ℕ × Cpu) :=
  let p := s.rd vdKppre
  if p = 0 ∨ 3 < p ∨ p = s.rd vdKp then none else some (0xFFFF, s.st vdTmp (p * 2 + 2))

def pressCall (s : Cpu) : Option (ℕ × Cpu) :=
  let k := s.rd vdKp
  if k = 0 ∨ 3 < k then none
  else some (if k = s.rd vdKppre then 0 else 1, s.st vdTmp (k * 2 + 2))

def discCall (s : Cpu) : Option (ℕ × Cpu) :=
  let cur := s.rd vdCur
  if cur = s.rd vdPrev then none
  else if cur.testBit 6 then
    if cur.testBit 7 then none else some (0xFFFF, s.st vdTmp 0)
  else some (cur % 128, s.st vdTmp (if cur.testBit 7 then 2 else 0))

/-- A dispatch, if there is one. -/
def tIf (f : Cpu → Option (ℕ × Cpu)) (x : Tabled) : Tabled :=
  match f x.cpu with
  | none => x
  | some (v, t) => tVcall I v { x with cpu := t }

/-- `LS_VDISPATCH` for a seat. -/
def tDispatch (seat : ℕ) (x : Tabled) : Tabled :=
  tIf I discCall (tIf I pressCall (tIf I releaseCall
    { x with cpu := vdLoad ((x.cpu.st vdSide seat).st vdCtrl seat) }))

/-- `LS_TBL_ADOPT`, then the null table. -/
def tNull (x : Tabled) : Tabled :=
  let s := lsTblAdopt x.cpu
  { x with cpu := nullTable s, nulled := (s.rd16 gameTblLo gameTblHi, x.latest) :: x.nulled }

/-- `SC_GAME_TICK`. -/
def tGame (x : Tabled) : Tabled :=
  { x with
    cpu := scGameTick I.cart x.cpu
    latest := (I.ticked x.cpu.mem).getLast?.getD x.latest }

/-- `@@ls_run` up to the game tick. -/
def tTick (x : Tabled) : Tabled :=
  tNull (tGame I (tNull (tDispatch I 1 (tDispatch I 0
    { x with cpu := shadowFromRings (tickShadow x.cpu) }))))

/-- `@@ls_run`, and `MASTER_TICK` returns. -/
def tRun (x : Tabled) : Tabled := { tTick I x with cpu := lsReturn (lsRun I.cart x.cpu) }

theorem cpu_tIf (f : Cpu → Option (ℕ × Cpu)) (x : Tabled) : (tIf I f x).cpu =
    (f x.cpu).elim x.cpu fun c => lsVcall I.cart c.1 c.2 := by
  unfold tIf
  cases f x.cpu with
  | none => rfl
  | some c => rfl

theorem vdRelease_eq (C : Cart) (s : Cpu) :
    vdRelease C s = (releaseCall s).elim s fun c => lsVcall C c.1 c.2 := by
  unfold vdRelease releaseCall
  dsimp only
  split_ifs <;> rfl

theorem vdPress_eq (C : Cart) (s : Cpu) :
    vdPress C s = (pressCall s).elim s fun c => lsVcall C c.1 c.2 := by
  unfold vdPress pressCall
  dsimp only
  split_ifs <;> rfl

theorem vdDisc_eq (C : Cart) (s : Cpu) :
    vdDisc C s = (discCall s).elim s fun c => lsVcall C c.1 c.2 := by
  unfold vdDisc discCall
  dsimp only
  split_ifs <;> rfl

theorem cpu_tDispatch (seat : ℕ) (x : Tabled) :
    (tDispatch I seat x).cpu = dispatchSeat I.cart seat x.cpu := by
  rw [tDispatch, cpu_tIf, cpu_tIf, cpu_tIf, dispatchSeat, lsVdispatch, vdDisc_eq, vdPress_eq,
    vdRelease_eq]

/-- Writing down changes nothing. -/
theorem cpu_tTick (x : Tabled) : (tTick I x).cpu = lsTick I.cart x.cpu := by
  rw [lsTick_eq]
  change nullTable (lsTblAdopt (scGameTick I.cart (nullTable (lsTblAdopt
    (tDispatch I 1 (tDispatch I 0 _)).cpu)))) = _
  rw [cpu_tDispatch, cpu_tDispatch]

end pass

/-! ### What every piece keeps -/

section keeps

variable {nullTbl : ℕ} {s t u : Cpu}

/-- The null table: where it stands in ROM, and its words. -/
structure NullRom (nullTbl : ℕ) (s : Cpu) : Prop where
  symbol : s.rom.nullTbl = nullTbl
  low : 0x5000 ≤ nullTbl
  high : nullTbl + 10 ≤ 0x8000
  words : ∀ k < 10, s.rd (nullTbl + k) = 0

/-- Neither `$035D` nor `GAME_TBL` nor the null table is written to. -/
structure SparesTables (nullTbl : ℕ) (s t : Cpu) : Prop where
  table : t.rd execHtbl = s.rd execHtbl
  game : t.rd16 gameTblLo gameTblHi = s.rd16 gameTblLo gameTblHi
  rom : t.rom = s.rom
  words : ∀ k < 10, t.rd (nullTbl + k) = s.rd (nullTbl + k)

theorem SparesTables.trans (h : SparesTables nullTbl s t) (h' : SparesTables nullTbl t u) :
    SparesTables nullTbl s u :=
  ⟨h'.table.trans h.table, h'.game.trans h.game, h'.rom.trans h.rom,
    fun k hk => (h'.words k hk).trans (h.words k hk)⟩

theorem NullRom.spares (h : NullRom nullTbl s) (hst : SparesTables nullTbl s t) : NullRom nullTbl t :=
  ⟨by rw [hst.rom, h.symbol], h.low, h.high, fun k hk => (hst.words k hk).trans (h.words k hk)⟩

/-- A cell that has nothing to do with the handler tables. -/
def OtherCell (a : ℕ) : Prop :=
  (a < 0x5000 ∨ 0x8000 ≤ a) ∧ a ≠ execHtbl ∧ a ≠ gameTblLo ∧ a ≠ gameTblHi

instance : DecidablePred OtherCell := fun a => by unfold OtherCell; infer_instance

theorem SparesTables.of_within {P : ℕ → Prop} (h : Within P s t) (hP : ∀ a, P a → OtherCell a)
    (hr : NullRom nullTbl s) : SparesTables nullTbl s t := by
  have hrd : ∀ a, ¬ OtherCell a → t.rd a = s.rd a := fun a ha => h.rd a fun hp => ha (hP a hp)
  have hlow := hr.low
  have hhigh := hr.high
  refine ⟨hrd _ fun hc => hc.2.1 rfl, ?_, h.rom, fun k hk => hrd _ fun hc => ?_⟩
  · rw [Cpu.rd16, Cpu.rd16, hrd _ fun hc => hc.2.2.1 rfl, hrd _ fun hc => hc.2.2.2 rfl]
  · have hrange := hc.1
    omega

/-- What the dispatch keeps of its own. -/
def ScratchCell (a : ℕ) : Prop :=
  0x80C2 ≤ a ∧ a ≤ 0x80C7 ∨ 0x8140 ≤ a ∧ a ≤ 0x8143 ∨ a = vdCtrl

instance : DecidablePred ScratchCell := fun a => by unfold ScratchCell; infer_instance

theorem scratch_other (a : ℕ) (h : ScratchCell a) : OtherCell a := by
  simp only [ScratchCell, vdCtrl] at h
  simp only [OtherCell, execHtbl, gameTblLo, gameTblHi]
  omega

theorem pace_other (a : ℕ) (h : PaceCell a) : OtherCell a := by
  simp only [PaceCell, execPhase, lsFroze, lsSave102, lsWaitcLo, lsWaitcHi, rsToLo, rsToHi] at h
  simp only [OtherCell, execHtbl, gameTblLo, gameTblHi]
  omega

theorem spares_updateShadow (hr : NullRom nullTbl s) : SparesTables nullTbl s (updateShadow s) :=
  SparesTables.of_within (P := ScratchCell) (((((Within.refl s).st (by decide)).st (by decide)).st
    (by decide)).st (by decide)) scratch_other hr

theorem spares_shadowFromRings (hr : NullRom nullTbl s) : SparesTables nullTbl s (shadowFromRings s) :=
  SparesTables.of_within (P := ScratchCell) ((((((Within.refl s).st (by decide)).st (by decide)).st
    (by decide)).st (by decide)).emit) scratch_other hr

theorem spares_vdLoad (hr : NullRom nullTbl s) (seat : ℕ) :
    SparesTables nullTbl s (vdLoad ((s.st vdSide seat).st vdCtrl seat)) := by
  refine SparesTables.of_within (P := ScratchCell) ?_ scratch_other hr
  exact ((((((((Within.refl s).st (by decide)).st (by decide)).st (by decide)).st (by decide)).st
    (by decide)).st (by decide)).emit)

theorem spares_vdTmp (hr : NullRom nullTbl s) (k : ℕ) : SparesTables nullTbl s (s.st vdTmp k) :=
  SparesTables.of_within (P := ScratchCell) ((Within.refl s).st (by decide)) scratch_other hr

end keeps

/-! ### Tables -/

section tables

variable {nullTbl : ℕ} {I : Installer nullTbl} {x : Tabled}

/-- Every call went through the table installed last, and every nulling found it in `GAME_TBL`. -/
structure Faithful (x : Tabled) : Prop where
  calls : ∀ c ∈ x.calls, c.called = entryOf c.latest c.slot c.mem
  nulled : ∀ g ∈ x.nulled, g.1 = g.2

/-- The table that is live is the one installed last; for one of 0 the null table may stand in. -/
structure Live (nullTbl : ℕ) (x : Tabled) : Prop where
  rom : NullRom nullTbl x.cpu
  faithful : Faithful x
  latest : x.latest ≠ nullTbl
  table : x.cpu.rd execHtbl = x.latest ∨
    x.cpu.rd execHtbl = nullTbl ∧ x.latest = 0 ∧ x.cpu.rd16 gameTblLo gameTblHi = 0

/-- The null table is live and `GAME_TBL` is the table installed last. -/
structure Parked (nullTbl : ℕ) (x : Tabled) : Prop where
  rom : NullRom nullTbl x.cpu
  faithful : Faithful x
  latest : x.latest ≠ nullTbl
  table : x.cpu.rd execHtbl = nullTbl
  game : x.cpu.rd16 gameTblLo gameTblHi = x.latest

theorem Live.spares (h : Live nullTbl x) {t : Cpu} (ht : SparesTables nullTbl x.cpu t) :
    Live nullTbl { x with cpu := t } := by
  refine ⟨h.rom.spares ht, ⟨h.faithful.calls, h.faithful.nulled⟩, h.latest, ?_⟩
  dsimp only
  rw [ht.table, ht.game]
  exact h.table

theorem Parked.spares (h : Parked nullTbl x) {t : Cpu} (ht : SparesTables nullTbl x.cpu t) :
    Parked nullTbl { x with cpu := t } :=
  ⟨h.rom.spares ht, ⟨h.faithful.calls, h.faithful.nulled⟩, h.latest, ht.table.trans h.table,
    ht.game.trans h.game⟩

/-- The null table has no handlers. -/
theorem entryOf_null {s : Cpu} (hr : NullRom nullTbl s) {slot : ℕ} (hs : slot ≤ 8) :
    entryOf nullTbl slot s.mem = none := by
  have hlow := hr.low
  have hhigh := hr.high
  have h0 : (nullTbl + slot) % 65536 = nullTbl + slot := Nat.mod_eq_of_lt (by omega)
  have h1 : (nullTbl + slot + 1) % 65536 = nullTbl + (slot + 1) := Nat.mod_eq_of_lt (by omega)
  have hw0 : s.mem.get (nullTbl + slot) = 0 := hr.words slot (by omega)
  have hw1 : s.mem.get (nullTbl + (slot + 1)) = 0 := hr.words (slot + 1) (by omega)
  unfold entryOf
  dsimp only
  rw [h0, h1, hw0, hw1]
  exact if_pos (.inr rfl)

theorem entryOf_zero (slot : ℕ) (m : Mem) : entryOf 0 slot m = none := by
  unfold entryOf
  dsimp only
  exact if_pos (Or.inl rfl)

/-- What `LS_VCALL` finds is what the table installed last has. -/
theorem vcallEntry_eq (h : Live nullTbl x) (hs : x.cpu.rd vdTmp ≤ 8) :
    vcallEntry x.cpu = entryOf x.latest (x.cpu.rd vdTmp) x.cpu.mem := by
  unfold vcallEntry
  rcases h.table with ht | ⟨ht, h0, -⟩
  · rw [ht]
  · rw [ht, h0, entryOf_null h.rom hs, entryOf_zero]

/-- The table after code that installs some, none of them the null table. -/
theorem getLast_ne {l : List ℕ} {t : ℕ} (hl : ∀ t ∈ l, t ≠ nullTbl) (ht : t ≠ nullTbl) :
    l.getLast?.getD t ≠ nullTbl := by
  cases hlast : l.getLast? with
  | none => exact ht
  | some t' => exact hl t' (List.mem_of_getLast? hlast)

theorem live_tVcall (h : Live nullTbl x) (v : ℕ) (hs : x.cpu.rd vdTmp ≤ 8) :
    Live nullTbl (tVcall I v x) := by
  have hcalled := vcallEntry_eq h hs
  have hfaithful : Faithful (tVcall I v x) := by
    refine ⟨fun c hc => ?_, h.faithful.nulled⟩
    rcases List.mem_cons.mp hc with rfl | hc
    · exact hcalled
    · exact h.faithful.calls c hc
  cases hentry : vcallEntry x.cpu with
  | none =>
    have hcpu : (tVcall I v x).cpu = x.cpu := by
      change lsVcall I.cart v x.cpu = x.cpu
      rw [lsVcall_eq, hentry]
      rfl
    have hlatest : (tVcall I v x).latest = x.latest := by
      change (vcallEntry x.cpu).elim x.latest _ = x.latest
      rw [hentry]
      rfl
    refine ⟨?_, hfaithful, ?_, ?_⟩
    · rw [hcpu]
      exact h.rom
    · rw [hlatest]
      exact h.latest
    · rw [hcpu, hlatest]
      exact h.table
  | some p =>
    obtain ⟨l, hl⟩ : ∃ l, I.handled p v (x.cpu.rd vdCtrl) x.cpu.mem = l := ⟨_, rfl⟩
    have hcpu : (tVcall I v x).cpu = x.cpu.call (I.cart.handler p v (x.cpu.rd vdCtrl)) := by
      change lsVcall I.cart v x.cpu = _
      rw [lsVcall_eq, hentry]
      rfl
    have hlatest : (tVcall I v x).latest = l.getLast?.getD x.latest := by
      change (vcallEntry x.cpu).elim x.latest _ = _
      rw [hentry, ← hl]
      rfl
    have htable : (tVcall I v x).cpu.rd execHtbl = l.getLast?.getD (x.cpu.rd execHtbl) := by
      rw [hcpu, Cpu.rd_call, I.handled_last, hl]
      rfl
    have hgame : (tVcall I v x).cpu.rd16 gameTblLo gameTblHi = x.cpu.rd16 gameTblLo gameTblHi := by
      rw [hcpu, Cpu.rd16, Cpu.rd_call, Cpu.rd_call, I.cart.handler_get _ _ _ _ _ (by decide),
        I.cart.handler_get _ _ _ _ _ (by decide)]
      rfl
    refine ⟨⟨?_, h.rom.low, h.rom.high, fun k hk => ?_⟩, hfaithful, ?_, ?_⟩
    · rw [hcpu]
      exact h.rom.symbol
    · rw [hcpu, Cpu.rd_call, I.handled_rom _ _ _ _ k hk]
      exact h.rom.words k hk
    · rw [hlatest]
      exact getLast_ne (by rw [← hl]; exact I.handled_ne _ _ _ _) h.latest
    · rw [htable, hlatest, hgame]
      cases l.getLast? with
      | none => exact h.table
      | some t => exact .inl rfl

/-- A dispatch stages a slot of a table. -/
def Stages (f : Cpu → Option (ℕ × Cpu)) : Prop :=
  ∀ s v t, f s = some (v, t) → ∃ k ≤ 8, t = s.st vdTmp k

theorem stages_release : Stages releaseCall := by
  intro s v t h
  unfold releaseCall at h
  dsimp only at h
  split_ifs at h with hc
  · obtain ⟨-, rfl⟩ := Prod.mk.inj (Option.some.inj h)
    exact ⟨_, by omega, rfl⟩

theorem stages_press : Stages pressCall := by
  intro s v t h
  unfold pressCall at h
  dsimp only at h
  split_ifs at h with hc hheld
  · obtain ⟨-, rfl⟩ := Prod.mk.inj (Option.some.inj h)
    exact ⟨_, by omega, rfl⟩
  · obtain ⟨-, rfl⟩ := Prod.mk.inj (Option.some.inj h)
    exact ⟨_, by omega, rfl⟩

theorem stages_disc : Stages discCall := by
  intro s v t h
  unfold discCall at h
  dsimp only at h
  split_ifs at h with h1 h2 h3 h4
  · obtain ⟨-, rfl⟩ := Prod.mk.inj (Option.some.inj h)
    exact ⟨0, by decide, rfl⟩
  · obtain ⟨-, rfl⟩ := Prod.mk.inj (Option.some.inj h)
    exact ⟨2, by decide, rfl⟩
  · obtain ⟨-, rfl⟩ := Prod.mk.inj (Option.some.inj h)
    exact ⟨0, by decide, rfl⟩

theorem live_tIf {f : Cpu → Option (ℕ × Cpu)} (hf : Stages f) (h : Live nullTbl x) :
    Live nullTbl (tIf I f x) := by
  unfold tIf
  cases hc : f x.cpu with
  | none => exact h
  | some c =>
    obtain ⟨v, t⟩ := c
    obtain ⟨k, hk, rfl⟩ := hf _ _ _ hc
    refine live_tVcall (h.spares (spares_vdTmp h.rom k)) v ?_
    have hk' : k % 256 = k := Nat.mod_eq_of_lt (by omega)
    simp [cellBits, hk', hk]

theorem live_tDispatch (h : Live nullTbl x) (seat : ℕ) : Live nullTbl (tDispatch I seat x) :=
  live_tIf stages_disc (live_tIf stages_press (live_tIf stages_release
    (h.spares (spares_vdLoad h.rom seat))))

/-- The table of a pointer that is split over two cells. -/
theorem game_lsTblAdopt {s : Cpu} (h : s.rd execHtbl ≠ s.rom.nullTbl) :
    (lsTblAdopt s).rd16 gameTblLo gameTblHi = s.rd execHtbl := by
  have hlt : s.rd execHtbl < 65536 := s.rd_lt_65536 _
  have hlo : (2 : ℕ) ^ cellBits gameTblLo = 256 := rfl
  have hhi : (2 : ℕ) ^ cellBits gameTblHi = 256 := rfl
  rw [lsTblAdopt, if_neg h, Cpu.rd16, Cpu.rd_st, if_neg (by decide), Cpu.rd_st, if_pos rfl,
    Cpu.rd_st, if_pos rfl, hlo, hhi, word_bytes]
  exact Nat.mod_eq_of_lt hlt

theorem within_lsTblAdopt (s : Cpu) : Within (fun a => a = gameTblLo ∨ a = gameTblHi) s (lsTblAdopt s) := by
  unfold lsTblAdopt
  split_ifs
  · exact Within.refl s
  · exact ((Within.refl s).st (.inl rfl)).st (.inr rfl)

/-- A store to the table's cells, of which the ROM sees nothing. -/
theorem NullRom.within {s t : Cpu} {P : ℕ → Prop} (h : NullRom nullTbl s) (hw : Within P s t)
    (hP : ∀ a, P a → a < 0x5000 ∨ 0x8000 ≤ a) : NullRom nullTbl t := by
  have hlow := h.low
  have hhigh := h.high
  refine ⟨by rw [hw.rom, h.symbol], h.low, h.high, fun k hk => ?_⟩
  rw [hw.rd _ fun hp => ?_, h.words k hk]
  have hrange := hP _ hp
  omega

theorem rom_lsTblAdopt {s : Cpu} (h : NullRom nullTbl s) : NullRom nullTbl (lsTblAdopt s) := by
  refine h.within (within_lsTblAdopt s) fun a ha => ?_
  simp only [gameTblLo, gameTblHi] at ha
  omega

theorem rom_st_execHtbl {s : Cpu} (h : NullRom nullTbl s) (v : ℕ) :
    NullRom nullTbl (s.st execHtbl v) := by
  refine h.within (P := fun a => a = execHtbl) ((Within.refl s).st rfl) fun a ha => ?_
  simp only [execHtbl] at ha
  omega

/-- What adopting finds, from a table that is live or parked. -/
theorem adopted (hr : NullRom nullTbl x.cpu) (hne : x.latest ≠ nullTbl)
    (h : x.cpu.rd execHtbl = x.latest ∨
      x.cpu.rd execHtbl = nullTbl ∧ x.cpu.rd16 gameTblLo gameTblHi = x.latest) :
    (lsTblAdopt x.cpu).rd16 gameTblLo gameTblHi = x.latest ∧
      (lsTblAdopt x.cpu).rd execHtbl = x.cpu.rd execHtbl := by
  refine ⟨?_, (within_lsTblAdopt x.cpu).rd _ (by decide)⟩
  rcases h with h | ⟨h, hg⟩
  · rw [game_lsTblAdopt, h]
    rw [h, hr.symbol]
    exact hne
  · rw [lsTblAdopt, if_pos (by rw [h, hr.symbol]), hg]

/-- Adopting and nulling parks the table installed last. -/
theorem parked_tNull (hr : NullRom nullTbl x.cpu) (hf : Faithful x) (hne : x.latest ≠ nullTbl)
    (h : x.cpu.rd execHtbl = x.latest ∨
      x.cpu.rd execHtbl = nullTbl ∧ x.cpu.rd16 gameTblLo gameTblHi = x.latest) :
    Parked nullTbl (tNull x) := by
  obtain ⟨hgame, -⟩ := adopted hr hne h
  have hhigh := hr.high
  have hrom : (lsTblAdopt x.cpu).rom.nullTbl = nullTbl := (rom_lsTblAdopt hr).symbol
  refine ⟨rom_st_execHtbl (rom_lsTblAdopt hr) _, ⟨hf.calls, fun g hg => ?_⟩, hne, ?_, ?_⟩
  · rcases List.mem_cons.mp hg with rfl | hg
    · exact hgame
    · exact hf.nulled g hg
  · change (nullTable (lsTblAdopt x.cpu)).rd execHtbl = nullTbl
    rw [nullTable, Cpu.rd_st, if_pos rfl, hrom]
    exact Nat.mod_eq_of_lt (by
      rw [show (2 : ℕ) ^ cellBits execHtbl = 65536 from rfl]
      omega)
  · change (nullTable (lsTblAdopt x.cpu)).rd16 gameTblLo gameTblHi = x.latest
    rw [← hgame, nullTable, Cpu.rd16, Cpu.rd_st, if_neg (by decide), Cpu.rd_st, if_neg (by decide)]
    rfl

theorem Live.parked (h : Live nullTbl x) : Parked nullTbl (tNull x) :=
  parked_tNull h.rom h.faithful h.latest (h.table.imp_right fun h => ⟨h.1, h.2.2.trans h.2.1.symm⟩)

/-- `LS_PASS` lets the table installed last in. -/
theorem live_install (hr : NullRom nullTbl x.cpu) (hf : Faithful x) (hne : x.latest ≠ nullTbl)
    (h : x.cpu.rd execHtbl = x.latest ∨
      x.cpu.rd execHtbl = nullTbl ∧ x.cpu.rd16 gameTblLo gameTblHi = x.latest) :
    Live nullTbl { x with cpu := installTable (lsTblAdopt x.cpu) } := by
  obtain ⟨hgame, htable⟩ := adopted hr hne h
  have hlt : x.latest < 65536 := by
    rw [← hgame]
    exact word_lt (Cpu.rd_lt_256 _ (by decide)) (Cpu.rd_lt_256 _ (by decide))
  unfold installTable
  split_ifs with hzero
  · rw [hgame] at hzero
    refine ⟨rom_lsTblAdopt hr, ⟨hf.calls, hf.nulled⟩, hne, ?_⟩
    dsimp only
    rw [htable, hgame]
    exact h.imp_right fun h => ⟨h.1, hzero, hzero⟩
  · refine ⟨rom_st_execHtbl (rom_lsTblAdopt hr) _, ⟨hf.calls, hf.nulled⟩, hne, .inl ?_⟩
    change ((lsTblAdopt x.cpu).st execHtbl _).rd execHtbl = x.latest
    rw [Cpu.rd_st, if_pos rfl, hgame]
    exact Nat.mod_eq_of_lt hlt

/-- The game tick finds the null table and leaves what it has installed, or the null table. -/
theorem parked_tGame (h : Parked nullTbl x) : Parked nullTbl (tNull (tGame I x)) := by
  obtain ⟨l, hl⟩ : ∃ l, I.ticked x.cpu.mem = l := ⟨_, rfl⟩
  have hne : l.getLast?.getD x.latest ≠ nullTbl := by
    refine getLast_ne ?_ h.latest
    rw [← hl]
    exact I.ticked_ne _
  have hlatest : (tGame I x).latest = l.getLast?.getD x.latest := by
    rw [← hl]
    rfl
  -- the rest of `SC_GAME_TICK` writes to three cells of the netcode
  have htick : Within (fun a => a = scCnt2 ∨ a = scCnt3 ∨ a = sbQuiescent)
      (x.cpu.call I.cart.tick1) (tGame I x).cpu :=
    ((((Within.refl _).emit.st (.inl rfl)).st (.inr (.inl rfl))).emit).st (.inr (.inr rfl))
  have hrom : NullRom nullTbl (x.cpu.call I.cart.tick1) :=
    ⟨h.rom.symbol, h.rom.low, h.rom.high, fun k hk => (I.ticked_rom _ k hk).trans (h.rom.words k hk)⟩
  have hother : ∀ a, a = scCnt2 ∨ a = scCnt3 ∨ a = sbQuiescent → OtherCell a := by
    intro a ha
    simp only [scCnt2, scCnt3, sbQuiescent] at ha
    simp only [OtherCell, execHtbl, gameTblLo, gameTblHi]
    omega
  have hspares := SparesTables.of_within htick hother hrom
  have htable : (tGame I x).cpu.rd execHtbl = l.getLast?.getD nullTbl := by
    rw [hspares.table, Cpu.rd_call, I.ticked_last, hl, ← h.table]
    rfl
  have hgame : (tGame I x).cpu.rd16 gameTblLo gameTblHi = x.latest := by
    rw [hspares.game, Cpu.rd16, Cpu.rd_call, Cpu.rd_call, I.cart.tick1_get _ _ (by decide),
      I.cart.tick1_get _ _ (by decide), ← h.game]
    rfl
  refine parked_tNull (hrom.spares hspares) ⟨h.faithful.calls, h.faithful.nulled⟩ ?_ ?_
  · rw [hlatest]
    exact hne
  · rw [htable, hlatest, hgame]
    cases l.getLast? with
    | none => exact .inr ⟨rfl, rfl⟩
    | some t => exact .inl rfl

/-- What holds between two ticks: the table installed last is live, or parked. -/
structure Poised (nullTbl : ℕ) (x : Tabled) : Prop where
  rom : NullRom nullTbl x.cpu
  faithful : Faithful x
  latest : x.latest ≠ nullTbl
  table : x.cpu.rd execHtbl = x.latest ∨
    x.cpu.rd execHtbl = nullTbl ∧ x.cpu.rd16 gameTblLo gameTblHi = x.latest

theorem Parked.poised (h : Parked nullTbl x) : Poised nullTbl x :=
  ⟨h.rom, h.faithful, h.latest, .inr ⟨h.table, h.game⟩⟩

theorem Poised.spares (h : Poised nullTbl x) {t : Cpu} (ht : SparesTables nullTbl x.cpu t) :
    Poised nullTbl { x with cpu := t } := by
  refine ⟨h.rom.spares ht, ⟨h.faithful.calls, h.faithful.nulled⟩, h.latest, ?_⟩
  dsimp only
  rw [ht.table, ht.game]
  exact h.table

theorem spares_dueEmit {s : Cpu} (hr : NullRom nullTbl s) : SparesTables nullTbl s ((lsUnfreeze s).emit
    (.due ((lsUnfreeze s).rd sbCnt2Lo) ((lsUnfreeze s).rd sbCnt2Hi))) :=
  SparesTables.of_within (local_lsUnfreeze s).within.emit pace_other hr

/-- The console once the gate has let a tick through. -/
theorem tickShadow_eq (s : Cpu) : ∃ u, tickShadow s = installTable (lsTblAdopt u) ∧
    (NullRom nullTbl s → SparesTables nullTbl s u) := by
  refine ⟨_, rfl, fun hr => ?_⟩
  have hdue := spares_dueEmit hr
  exact hdue.trans (spares_updateShadow (hr.spares hdue))

/-- `LS_PASS` up to the shadows lets the table in. -/
theorem live_tickShadow (h : Poised nullTbl x) :
    Live nullTbl { x with cpu := tickShadow x.cpu } := by
  obtain ⟨u, hu, hspares⟩ : ∃ u, tickShadow x.cpu = installTable (lsTblAdopt u) ∧
      (NullRom nullTbl x.cpu → SparesTables nullTbl x.cpu u) := tickShadow_eq x.cpu
  have hready := h.spares (hspares h.rom)
  rw [hu]
  exact live_install (x := { x with cpu := u }) hready.rom hready.faithful hready.latest hready.table

/-- The run of a tick up to its report parks the table installed last. -/
theorem parked_tTick (h : Poised nullTbl x) : Parked nullTbl (tTick I x) := by
  have hlive := live_tickShadow h
  have hrings := hlive.spares (spares_shadowFromRings hlive.rom)
  have hseats := live_tDispatch (I := I) (live_tDispatch (I := I) hrings 0) 1
  rw [tTick]
  exact parked_tGame hseats.parked

end tables

/-! ### The rest of a pass -/

section rest

variable {nullTbl : ℕ} {s t : Cpu}

/-- What the pass writes to, the run of a tick and the chunks of an image apart. -/
def RestCell (a : ℕ) : Prop :=
  PaceCell a ∨ DropCell a ∨ CaptureCell a ∨ WrapCell a ∨ WaitCell a ∨ PushCell a ∨ RebaseCell a ∨
    CurtainCell a ∨ a = peerScr

/-- What a frame writes to, and the pump, the chunks of an image apart. -/
def TakenCell (a : ℕ) : Prop :=
  PumpCell a ∨ InputCell a ∨ BoardCell a ∨ StartCell a ∨ LeftCell a ∨ WantCell a ∨ BeginCell a ∨
    RebaseCell a ∨ a = diagRej ∨ a = rsTmp2

instance : DecidablePred RestCell := fun a => by unfold RestCell; infer_instance
instance : DecidablePred TakenCell := fun a => by unfold TakenCell; infer_instance

theorem rest_other (a : ℕ) (h : RestCell a) : OtherCell a := by
  simp only [OtherCell, execHtbl, gameTblLo, gameTblHi]
  rcases h with h | h | h | h | h | h | h | h | rfl
  rotate_right
  · decide
  all_goals
    simp only [PaceCell, DropCell, CaptureCell, WrapCell, WaitCell, PushCell, RebaseCell, CurtainCell,
      ReportCell, CounterCell, ScreenCell, MailCell, DisplayCell, CrcCell, ChunkCell, HoldCell,
      InstallCell, RestartCell, VectorCell, HookCell, RingCell, WmCell, InputCell] at h
    simp only [execPhase, lsFroze, lsSave102, lsWaitcLo, lsWaitcHi, rsToLo, rsToHi, seatRing, seatWm,
      peerWhy, netDropped, resyncHold, lsTmpb, lsTmpb2, ownCrc, tickLo, tickHi, backtab, uiColor, rsPtmo,
      rsGate, rsWaited, rsPosLo, rsPosHi, rsTmp2, rsRLo, rsRHi, rsPend, execIsr, scIsrSave, sbCnt2Lo,
      sbCnt2Hi, sbPhase] at h
    omega

theorem taken_other (a : ℕ) (h : TakenCell a) : OtherCell a := by
  simp only [OtherCell, execHtbl, gameTblLo, gameTblHi]
  rcases h with h | h | h | h | h | h | h | h | rfl | rfl
  rotate_right 2
  · decide
  · decide
  all_goals
    simp only [PumpCell, RxCell, InputCell, BoardCell, StartCell, LeftCell, WantCell, BeginCell,
      RebaseCell, NameCell, ScreenCell, MailCell, DisplayCell, CrcCell, HoldCell,
      InstallCell, RestartCell, VectorCell, HookCell, RingCell, WmCell] at h
    simp only [lsWaitcLo, lsWaitcHi, rsToLo, rsToHi, seatRing, seatWm, peerWhy, netDropped, resyncHold,
      ownCrc, tickLo, tickHi, backtab, uiColor, rsPtmo, rsRLo, rsRHi, rsPend, execIsr, scIsrSave,
      sbCnt2Lo, sbCnt2Hi, sbPhase, rxWr, rxRd, rxacc, frmbuf, ppTmp, menuSel, lobbyCnt, roomCnt, leftSeat,
      leftName, nameTbl, lobbyCache, netSeat, netCount, rngLo, rngHi, netDelay, netActive] at h
    omega

theorem SparesTables.of_rest (h : Within RestCell s t) (hr : NullRom nullTbl s) :
    SparesTables nullTbl s t :=
  SparesTables.of_within h rest_other hr

theorem SparesTables.of_taken (h : Within TakenCell s t) (hr : NullRom nullTbl s) :
    SparesTables nullTbl s t :=
  SparesTables.of_within h taken_other hr

/-- The report, the counter, the screen and a push. -/
theorem within_lsRun_tick (C : Cart) : Within RestCell (lsTick C s) (lsRun C s) := by
  have hbody : Within RestCell (lsTick C s) (runBody C s) :=
    (within_runBody_tick s C).mono fun _ h => by unfold RestCell; tauto
  have hwait : ∀ {u : Cpu}, Local WaitCell (runBody C s) u → Within RestCell (runBody C s) u :=
    fun h => h.within.mono fun _ h => by unfold RestCell; tauto
  rw [lsRun_eq]
  rcases rsPending_cases (runBody C s) with h | ⟨-, -, -, u, hu, he⟩
  · exact hbody.trans (hwait h)
  · have hsent : Within RestCell u (pushSent u) :=
      (within_pushSent u).mono fun _ h => by unfold RestCell; tauto
    have hrebase : Within RestCell (pushSent u) (rsRebase (pushSent u)) :=
      (within_rsRebase _).mono fun _ h => by unfold RestCell; tauto
    rw [he, rsPush_eq]
    exact ((hbody.trans (hwait hu)).trans hsent).trans hrebase

theorem within_lsEntry_rest (s : Cpu) : Within RestCell s (lsEntry s).cpu := by
  have hfreeze : Local RestCell s (lsFreeze s) :=
    (local_lsFreeze s).mono fun _ h => by unfold RestCell; tauto
  have hcurtain : ∀ u : Cpu, Local RestCell u (lsPeerLeft u) := fun u =>
    (local_lsPeerLeft_curtain u).mono fun _ h => by unfold RestCell; tauto
  have hgone : Local RestCell s (lsGone s) := (hfreeze.trans (hcurtain _)).st (by decide)
  unfold lsEntry
  split_ifs
  · exact (Within.refl s).withMark
  · exact hgone.within
  · exact hfreeze.within.withMark
  · exact Within.refl s

theorem within_lsSend_rest (h : s.rd netSeat < 4) : Within RestCell s (lsSend s) :=
  (within_lsSend (s := s) h).mono fun a ha => by
    rcases ha with ha | ha
    · exact .inr (.inr (.inl ha))
    · exact .inr (.inr (.inr (.inl (.inl (.inl ha)))))

/-- No START is out of range, and no chunk of an image is applied. -/
def Ev.Plain : Ev → Prop
  | .start seat count _ => seat < 4 ∧ count ≤ 4
  | .chunk _ _ => False
  | _ => True

def plainGuard : Guard := Guard.all fun e => e.ev.Plain

theorem plainGuard.seats {l : List Stamped} (h : plainGuard.holds l) : seatsGuard.holds l := by
  intro e he
  have hplain := h e he
  cases hev : e.ev <;> simp only [hev, Ev.Plain, Ev.Seats] at hplain ⊢
  exact hplain

theorem within_rsOnControl_taken (s : Cpu) : Within TakenCell s (rsOnControl s) := by
  refine Within.ite (fun _ => ?_) fun _ => ?_
  · refine Within.ite (fun _ => ?_) fun _ => ?_
    · exact (local_rsBad_diag s).within.mono fun _ h => by unfold TakenCell; tauto
    · exact (local_beginFrame s).within.mono fun _ h => by unfold TakenCell; tauto
  · refine Within.ite (fun _ => Within.refl s) fun _ => Within.ite (fun _ => Within.refl s) fun _ => ?_
    exact (within_rsRebase s).mono fun _ h => by unfold TakenCell; tauto

/-- A chunk that is not applied. -/
theorem within_rsOnChunk_taken (hg : plainGuard.holds (rsOnChunk s).log) :
    Within TakenCell s (rsOnChunk s) := by
  have hbad : ∀ u : Cpu, Within TakenCell u (rsBad u) := fun u =>
    (local_rsBad_diag u).within.mono fun _ h => by unfold TakenCell; tauto
  have hcount : ∀ v, Within TakenCell s (s.st rsTmp2 v) := fun v => (Within.refl s).st (by decide)
  simp only [rsOnChunk] at hg ⊢
  split_ifs at hg ⊢ with h1 h2 h3 h4
  · exact hbad s
  · exact hbad s
  · exact (hcount _).trans (hbad _)
  · exact (hcount _).trans (hbad _)
  · rw [log_rsApply s (by simp only [imgTotal] at h4 ⊢; omega)] at hg
    exact absurd (hg _ List.mem_cons_self) id

theorem within_sesOnframe_taken (h : Seated s) (ha : s.rd netActive ≠ 0)
    (hg : plainGuard.holds (sesOnframe s).log) : Within TakenCell s (sesOnframe s) := by
  simp only [sesOnframe] at hg ⊢
  split_ifs at hg ⊢
  · exact (within_onInput s h.count).mono fun _ h => by unfold TakenCell; tauto
  · exact (local_onLobby s).within.mono fun _ h => by unfold TakenCell; tauto
  · exact (within_onStart s).mono fun _ h => by unfold TakenCell; tauto
  · exact (local_onPeerLeft s).within.mono fun _ h => by unfold TakenCell; tauto
  · rw [onRoom, if_pos ha]
    exact Within.refl s
  · exact (within_rsOnCrc s).mono fun _ h => by unfold TakenCell; tauto
  · unfold rsOnState at hg ⊢
    split_ifs at hg ⊢
    · exact (local_rsBad_diag s).within.mono fun _ h => by unfold TakenCell; tauto
    · exact within_rsOnControl_taken s
    · exact within_rsOnChunk_taken hg
  · exact (within_rsOnReq s).mono fun _ h => by unfold TakenCell; tauto
  · exact Within.refl s

/-- In a match, a pump that applies no chunk. -/
theorem within_sesPump_taken (W : World) (p : Poll) (h : Seated s) (ha : s.rd netActive ≠ 0)
    (hg : plainGuard.holds (sesPump p s).log) : Within TakenCell s (sesPump p s) := by
  have hpump : ∀ a, PumpCell a → TakenCell a := fun _ => Or.inl
  refine (sesPump_induct (P := fun t => plainGuard.holds t.log →
    (Seated t ∧ t.rd netActive ≠ 0) ∧ Within TakenCell s t) ?_ ?_ ?_ hg).2
  · exact fun _ => ⟨(kept_active W).fetch p s ⟨h, ha⟩, (local_sesFetch p s).within.mono hpump⟩
  · intro t ht hg
    obtain ⟨hact, hw⟩ := ht (plainGuard.suffix (local_ppSlip t).within.grows hg)
    exact ⟨(kept_active W).slip t hact, hw.trans ((local_ppSlip t).within.mono hpump)⟩
  · intro t ht hf hb hg
    obtain ⟨hact, hw⟩ := ht (plainGuard.suffix (grows_frame t) hg)
    have hmove := local_ppExtract_frame hf
    have hseat := hact.1.of_within hmove.within (by decide) (by decide) (by decide)
    have hactive : (ppExtract (rxAt t 0 + 1) t).rd netActive ≠ 0 := by
      rw [hmove.rd _ (by decide)]
      exact hact.2
    exact ⟨(kept_active W).frame t hact hf hb (plainGuard.seats hg),
      (hw.trans (hmove.within.mono hpump)).trans (within_sesOnframe_taken hseat hactive hg)⟩

end rest

/-! ### Runs -/

/-- The interrupts and the native code of the game leave `$035D` and the null table alone. -/
structure HandsOff (W : World) (nullTbl : ℕ) : Prop where
  isr_table : ∀ {m m' : Mem}, W.isr m m' → m'.get execHtbl = m.get execHtbl
  isr_rom : ∀ {m m' : Mem}, W.isr m m' → ∀ k < 10, m'.get (nullTbl + k) = m.get (nullTbl + k)
  native_table : ∀ {m m' : Mem}, W.native m m' → m'.get execHtbl = m.get execHtbl
  native_rom : ∀ {m m' : Mem}, W.native m m' → ∀ k < 10,
    m'.get (nullTbl + k) = m.get (nullTbl + k)

/-- Behind the boot of the game. -/
def Phase.InGame : Phase → Prop
  | .lobby | .matched | .boot => False
  | _ => True

/-- One step of a console, written down: `LS_PASS` runs a tick and returns, or anything else happens. -/
inductive TableStep {nullTbl : ℕ} (W : World) (I : Installer nullTbl) :
    Phase × Tabled → Phase × Tabled → Prop where
  | tick {x : Tabled} : gateOpen x.cpu = true → TableStep W I (.gate, x) (.idle, tRun I x)
  | other {p : Option Poll} {ph : Phase} {x : Tabled} {n : Node} : Step W p ⟨ph, x.cpu⟩ n →
      (ph = .gate → gateOpen x.cpu = true → n.phase = .gate) →
      TableStep W I (ph, x) (n.phase, { x with cpu := n.cpu })

def TableRun {nullTbl : ℕ} (W : World) (I : Installer nullTbl) :
    Phase × Tabled → Phase × Tabled → Prop :=
  Relation.ReflTransGen (TableStep W I)

section runs

variable {nullTbl : ℕ} {W : World} {I : Installer nullTbl} {a b : Phase × Tabled}

theorem lsGate_open {C : Cart} {s : Cpu} (h : gateOpen s = true) :
    lsGate C s = ⟨.idle, lsReturn (lsRun C s)⟩ := by
  rw [lsGate, if_pos h]

/-- What is written down is a step of the console. -/
theorem TableStep.step (hcart : W.cart = I.cart) (h : TableStep W I a b) :
    ∃ p, Step W p ⟨a.1, a.2.cpu⟩ ⟨b.1, b.2.cpu⟩ := by
  cases h with
  | tick hopen =>
    refine ⟨none, Step.own ?_⟩
    rw [advance_gate, lsGate_open hopen, hcart]
    rfl
  | other hs _ => exact ⟨_, hs⟩

/-- Every step of a console can be written down. -/
theorem exists_tableStep (hcart : W.cart = I.cart) {p : Option Poll} {ph : Phase} {x : Tabled} {n : Node}
    (h : Step W p ⟨ph, x.cpu⟩ n) :
    ∃ y : Tabled, y.cpu = n.cpu ∧ TableStep W I (ph, x) (n.phase, y) := by
  by_cases hother : ph = .gate → gateOpen x.cpu = true → n.phase = .gate
  · exact ⟨{ x with cpu := n.cpu }, rfl, .other h hother⟩
  · simp only [Classical.not_imp] at hother
    obtain ⟨rfl, hopen, hph⟩ := hother
    cases h with
    | isr _ => exact absurd rfl hph
    | own ha =>
      rw [advance_gate, lsGate_open hopen, Option.some.injEq] at ha
      subst ha
      exact ⟨tRun I x, by rw [hcart]; rfl, .tick hopen⟩
    | pump ha => simp only [afterPump, reduceCtorEq] at ha

/-- What holds at every step of a match. -/
structure Tended (nullTbl : ℕ) (a : Phase × Tabled) : Prop where
  phase : a.1.InGame
  seated : Seated a.2.cpu
  active : a.2.cpu.rd netActive ≠ 0
  poised : Poised nullTbl a.2
  /-- Behind the first tick the null table is live. -/
  parked : a.2.nulled ≠ [] → Parked nullTbl a.2

theorem spares_outside {s : Cpu} {m : Mem} (hget : ∀ a, 0x8000 ≤ a → m.get a = s.mem.get a)
    (htable : m.get execHtbl = s.mem.get execHtbl)
    (hwords : ∀ k < 10, m.get (nullTbl + k) = s.mem.get (nullTbl + k)) :
    SparesTables nullTbl s (s.call fun _ => m) := by
  refine ⟨htable, ?_, rfl, hwords⟩
  rw [Cpu.rd16, Cpu.rd16, Cpu.rd_call, Cpu.rd_call, hget _ (by decide), hget _ (by decide)]
  rfl

/-- A step that runs no tick and applies no chunk spares the tables. -/
theorem spares_step (hands : HandsOff W nullTbl) {p : Option Poll} {ph : Phase} {s : Cpu} {n : Node}
    (hph : ph.InGame) (hseat : Seated s) (ha : s.rd netActive ≠ 0) (hr : NullRom nullTbl s)
    (hs : Step W p ⟨ph, s⟩ n) (hother : ph = .gate → gateOpen s = true → n.phase = .gate)
    (hg : plainGuard.holds n.cpu.log) : n.phase.InGame ∧ SparesTables nullTbl s n.cpu := by
  have hcount : ∀ {u v : Cpu}, CountOrDrop u v → Within RestCell u v := fun h =>
    h.within.within.mono fun _ h => h.elim Or.inl fun h => Or.inr (Or.inl h)
  cases hs with
  | isr hm => exact ⟨hph, spares_outside (W.isr_get hm) (hands.isr_table hm) (hands.isr_rom hm)⟩
  | native hm =>
    exact ⟨trivial, spares_outside (W.native_get hm) (hands.native_table hm) (hands.native_rom hm)⟩
  | boot hm => exact absurd hph id
  | own hadv =>
    cases ph <;> simp only [advance, Option.some.injEq, reduceCtorEq] at hadv <;> subst hadv
    case entry =>
      refine ⟨?_, .of_rest (within_lsEntry_rest s) hr⟩
      unfold lsEntry
      split_ifs <;> trivial
    case send =>
      have hsend := SparesTables.of_rest (within_lsSend_rest hseat.seat) hr
      refine ⟨trivial, ?_⟩
      dsimp only
      exact hsend
    case gate =>
      by_cases hopen : gateOpen s = true
      · have hgate := hother rfl hopen
        rw [lsGate_open hopen] at hgate
        simp only [reduceCtorEq] at hgate
      · rw [lsGate, if_neg hopen]
        exact ⟨trivial, .of_rest ((local_lsFreeze s).within.mono fun _ => Or.inl) hr⟩
  | @pump _ _ p raw _ hafter =>
    rw [log_afterPump hafter] at hg
    have hpump : SparesTables nullTbl s (sesPump p s) := .of_taken (within_sesPump_taken W p hseat ha hg) hr
    have hrest : ∀ {u : Cpu}, Within RestCell (sesPump p s) u → SparesTables nullTbl s u := fun h =>
      hpump.trans (.of_rest h (hr.spares hpump))
    cases ph <;> simp only [afterPump, Option.some.injEq, reduceCtorEq] at hafter
    case lobby => exact absurd hph id
    case matched => exact absurd hph id
    all_goals subst hafter
    case hold => exact ⟨trivial, hrest (hcount (countOrDrop_holdTail _)).withMark⟩
    case top => exact ⟨trivial, hpump⟩
    case stall => exact ⟨trivial, hrest (hcount (countOrDrop_stallTail _))⟩

theorem parked_tRun {x : Tabled} (h : Poised nullTbl x) : Parked nullTbl (tRun I x) := by
  have htick := parked_tTick (I := I) h
  refine htick.spares (t := lsReturn (lsRun I.cart x.cpu)) ?_
  have hrun : Within RestCell (tTick I x).cpu (lsRun I.cart x.cpu) := by
    rw [cpu_tTick]
    exact within_lsRun_tick I.cart
  exact .of_rest hrun.withMark htick.rom

theorem tended_step (hcart : W.cart = I.cart) (hands : HandsOff W nullTbl) (h : Tended nullTbl a)
    (hs : TableStep W I a b) (hg : plainGuard.holds b.2.cpu.log) : Tended nullTbl b := by
  obtain ⟨p, hstep⟩ := hs.step hcart
  have hact := (kept_active W).step ⟨h.seated, h.active⟩ hstep (plainGuard.seats hg)
  cases hs with
  | tick hopen =>
    have hparked := parked_tRun (I := I) h.poised
    exact ⟨trivial, hact.1, hact.2, hparked.poised, fun _ => hparked⟩
  | other hs hother =>
    obtain ⟨hph, hspares⟩ :=
      spares_step hands h.phase h.seated h.active h.poised.rom hs hother hg
    exact ⟨hph, hact.1, hact.2, h.poised.spares hspares, fun hn => (h.parked hn).spares hspares⟩

theorem tended_run (hcart : W.cart = I.cart) (hands : HandsOff W nullTbl) (h : Tended nullTbl a)
    (hr : TableRun W I a b) (hg : plainGuard.holds b.2.cpu.log) : Tended nullTbl b := by
  induction hr with
  | refl => exact h
  | tail _ hs ih =>
    obtain ⟨p, hstep⟩ := hs.step hcart
    exact tended_step hcart hands (ih (plainGuard.suffix (grows_step hstep) hg)) hs hg

end runs

/-- A game with one handler, at `$5A00`, which installs the table at `$6200`. -/
def soleHandler : Installer 0x6000 where
  cart := ⟨id, fun p _ _ m => if p = 0x5A00 then m.set execHtbl 0x6200 else m, id_tick1_get,
    fun p _ _ m a ha => by
      split_ifs
      · rw [Cells.get_set, if_neg (by simp only [execHtbl]; omega)]
      · rfl⟩
  ticked _ := []
  handled p _ _ _ := if p = 0x5A00 then [0x6200] else []
  ticked_last _ := rfl
  handled_last p _ _ m := by
    dsimp only
    split_ifs
    · rw [Cells.get_set, if_pos rfl]
      rfl
    · rfl
  ticked_ne _ t ht := absurd ht List.not_mem_nil
  handled_ne p _ _ _ t ht := by
    split_ifs at ht
    · rw [List.mem_singleton.mp ht]
      decide
    · exact absurd ht List.not_mem_nil
  ticked_rom _ _ _ := rfl
  handled_rom p _ _ m k hk := by
    dsimp only
    split_ifs
    · rw [Cells.get_set, if_neg (by simp only [execHtbl]; omega)]
    · rfl

/-- Its console at the gate of a match: the table at `$5800` is installed and has the handler for the
disc, which seat 0 presses at tick 0. -/
def tableStart : Cpu :=
  ((((powerOn blank ⟨fun _ => 0, 0x6000⟩).st netActive 1).st execHtbl 0x5800).st seatRing 5).poke 0x5801 0x5A

end IntvNetplay.Console
