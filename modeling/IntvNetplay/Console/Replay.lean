import IntvNetplay.Machine.Registers
import IntvNetplay.Console.Lockstep

/-!
# Replaying a recording (`VIRT_CAPTURE` of a `SPIKE_REPLAY` build)

A recording is a table of four words a tick, placed in ROM by the assembler.  `VIRT_CAPTURE` fills the
ring slot of tick `T + d` from the row of that tick, and with the idle values once the table is
exhausted.  The routine is kept at the level of its registers: the branch of the table sets a pointer
for every page, the branch behind the table steps from one page to the next with
`ADDI #$100` and `DECR`, which supposes that the store has counted its pointer up.
-/

namespace IntvNetplay.Console

open IntvNetplay.Machine

/-! ### Recordings -/

/-- A table of `REPLAY_LEN` rows of four words and where it stands. -/
structure Recording where
  /-- `REPLAY_LEN`. -/
  len : ℕ
  /-- The words from `REPLAY_TBL` on. -/
  tbl : List ℕ
  /-- The address `REPLAY_TBL`. -/
  base : ℕ
  covers : 4 * len ≤ tbl.length
  byte : ∀ w ∈ tbl, w < 256
  fits : base + tbl.length ≤ 65536

namespace Recording

variable (R : Recording)

/-- The cell at an address, the table being in ROM. -/
def read (s : Cpu) (a : ℕ) : ℕ :=
  if R.base ≤ a ∧ a < R.base + R.tbl.length then R.tbl.getD (a - R.base) 0 else s.rd a

def bus : Bus Cpu := ⟨R.read, Cpu.st⟩

/-- Idle for both seats. -/
def idle : List ℕ := [0x40, 0x40, 0, 0]

/-- The row of a tick: left and right decoded, left and right keypad; idle behind the table. -/
def row (n : ℕ) : List ℕ := if n < R.len then (List.range 4).map fun i => R.tbl.getD (4 * n + i) 0 else idle

end Recording

/-- `REC_CAP`. -/
@[simp] abbrev recCap : ℕ := 768

/-- A row of the generated file, from the words of the dump. -/
def replayRow (mem : ℕ → Option ℕ) (t : ℕ) : List ℕ :=
  let slot := 0x9000 + t * 4
  [(mem slot).getD 0x40 % 256, (mem (slot + 1)).getD 0x40 % 256,
    (mem (slot + 2)).getD 0 % 256, (mem (slot + 3)).getD 0 % 256]

theorem length_replayRows (mem : ℕ → Option ℕ) (n : ℕ) :
    ((List.range n).flatMap (replayRow mem)).length = 4 * n := by
  induction n with
  | zero => rfl
  | succ n ih =>
    rw [List.range_succ, List.flatMap_append, List.length_append, ih]
    rfl

/-- `main` of `tools/mk_replay.py`: the recording it makes of a dump. -/
def mkReplay (mem : ℕ → Option ℕ) (base : ℕ) (h : base + 4 * recCap ≤ 65536) : Recording where
  len := min ((mem 0x8108).getD 0 ||| (mem 0x8109).getD 0 <<< 8) recCap
  tbl := (List.range recCap).flatMap (replayRow mem)
  base := base
  covers := by
    rw [length_replayRows]
    exact Nat.mul_le_mul_left 4 (Nat.min_le_right _ _)
  byte := by
    intro w hw
    obtain ⟨t, -, ht⟩ := List.mem_flatMap.mp hw
    have hmod : ∀ x, x % 256 < 256 := fun x => Nat.mod_lt x (by decide)
    simp only [replayRow, List.mem_cons, List.not_mem_nil, or_false] at ht
    rcases ht with rfl | rfl | rfl | rfl
    all_goals exact hmod _
  fits := by
    rw [length_replayRows]
    exact h

/-! ### The routine -/

section capture

variable (R : Recording) (s : Cpu)

/-- `T + d`, in a register. -/
def dueReg : ℕ := (s.tick + s.rd delayEn) % 65536

/-- `MVI@ R4, R0` and the store of `R0` to the slot's cell in a page. -/
def vrCell (page : ℕ) (c : Core Cpu) : Core Cpu :=
  (((c.mviAt R.bus 4 0).movr 1 3).addi page 3).mvoAt R.bus 0 3

/-- `@@vr_tbl`. -/
def vrTbl (c : Core Cpu) : Core Cpu :=
  let c := ((c.sll2 2).addi R.base 2).movr 2 4
  vrCell R (seatKp + 0x100) (vrCell R seatKp (vrCell R (seatRing + 0x100) (vrCell R seatRing c)))

/-- Idle cells: `R0` to the slot's cell in a page, and once more behind the step to the next page. -/
def vrPair (page idle : ℕ) (c : Core Cpu) : Core Cpu :=
  let c := (((c.mvii idle 0).movr 1 3).addi page 3).mvoAt R.bus 0 3
  ((c.addi 0x100 3).decr 3).mvoAt R.bus 0 3

/-- The branch behind the table. -/
def vrIdle (c : Core Cpu) : Core Cpu := vrPair R seatKp 0 (vrPair R seatRing 0x40 c)

/-- `VIRT_CAPTURE`; what the registers hold at its entry is not read. -/
def virtCapture : Cpu :=
  let c : Core Cpu := ⟨fun _ => 0, s⟩
  let c := ((c.set 1 (dueReg s)).movr 1 2).andiByte 1
  if slt (c.reg 2) R.len then (vrTbl R c).bus else (vrIdle R c).bus

/-- The four cells of a slot: the decoded cells of both seats, then their keypad cells. -/
def slotCells (slot : ℕ) : List ℕ :=
  [seatRing + slot, seatRing + 0x100 + slot, seatKp + slot, seatKp + 0x100 + slot]

/-- The four cells of a slot and no others are stored to, and hold a row. -/
structure RowFed (slot : ℕ) (row : List ℕ) (s t : Cpu) : Prop where
  stores : ∃ l, t.stores = l ++ s.stores ∧ ∀ a, a ∈ l ↔ a ∈ slotCells slot
  cells : (slotCells slot).map t.rd = row
  others : ∀ a, a ∉ slotCells slot → t.rd a = s.rd a

end capture

/-! ### What it does -/

section capture

variable {R : Recording} {s : Cpu}

theorem Recording.read_lt (R : Recording) (s : Cpu) (a : ℕ) : R.read s a < 65536 := by
  rw [Recording.read]
  split_ifs with h
  · have hlt : a - R.base < R.tbl.length := by omega
    rw [List.getD_eq_getElem?_getD, List.getElem?_eq_getElem hlt, Option.getD_some]
    exact (R.byte _ (List.getElem_mem hlt)).trans (by decide)
  · exact s.rd_lt_65536 a

/-- One word of the table branch. -/
structure Celled (R : Recording) (page : ℕ) (c c' : Core Cpu) : Prop where
  bus : c'.bus = c.bus.st (page + c.reg 1) (R.read c.bus (c.reg 4))
  slot : c'.reg 1 = c.reg 1
  pointer : c'.reg 4 = (c.reg 4 + 1) % 65536

theorem celled_vrCell {page : ℕ} {c : Core Cpu} (hc : c.reg 1 < 256) (hp : page < 0x9000) :
    Celled R page c (vrCell R page c) := by
  have hread : R.read c.bus (c.reg 4) % 65536 = R.read c.bus (c.reg 4) :=
    Nat.mod_eq_of_lt (R.read_lt _ _)
  have hcell : (c.reg 1 + page) % 65536 = page + c.reg 1 := by omega
  refine ⟨?_, ?_, ?_⟩
  · have hB : R.bus.read c.bus (c.reg 4) = R.read c.bus (c.reg 4) := rfl
    have hW : ∀ t a v, R.bus.write t a v = t.st a v := fun _ _ _ => rfl
    simp [vrCell, Core.mvoAt, Core.mviAt, Core.after, Core.addi, Core.movr, Core.reg_set, hcell, hB,
      hW, hread]
  · simp [vrCell, Core.mvoAt, Core.mviAt, Core.after, Core.addi, Core.movr, Core.reg_set]
  · simp [vrCell, Core.mvoAt, Core.mviAt, Core.after, Core.addi, Core.movr, Core.reg_set]

/-- A store through `R3` leaves it where it was: the second cell is `$FF` behind the first. -/
theorem bus_vrPair {page idle : ℕ} {c : Core Cpu} (hc : c.reg 1 < 256) (hp : page < 0x9000)
    (hi : idle < 256) : (vrPair R page idle c).bus =
      (c.bus.st (page + c.reg 1) idle).st (page + c.reg 1 + 0xFF) idle := by
  have h1 : (c.reg 1 + page) % 65536 = page + c.reg 1 := by omega
  have h2 : (page + c.reg 1 + 256 + 65535) % 65536 = page + c.reg 1 + 0xFF := by omega
  have h3 : idle % 65536 = idle := by omega
  have hW : ∀ t a v, R.bus.write t a v = t.st a v := fun _ _ _ => rfl
  simp [vrPair, Core.mvoAt, Core.after, Core.addi, Core.decr, Core.mvii, Core.movr, Core.reg_set, h1,
    h2, h3, hW]

theorem slot_vrPair {page idle : ℕ} {c : Core Cpu} : (vrPair R page idle c).reg 1 = c.reg 1 := by
  simp [vrPair, Core.mvoAt, Core.after, Core.addi, Core.decr, Core.mvii, Core.movr, Core.reg_set]

/-- The registers in front of the comparison. -/
def entry (s : Cpu) : Core Cpu :=
  (((⟨fun _ => 0, s⟩ : Core Cpu).set 1 (dueReg s)).movr 1 2).andiByte 1

theorem dueReg_lt (s : Cpu) : dueReg s < 65536 := Nat.mod_lt _ (by decide)

theorem due_entry : (entry s).reg 2 = dueReg s := by
  have h := dueReg_lt s
  simp [entry, Core.movr, Core.andiByte, Core.reg_set, Nat.mod_eq_of_lt h]

theorem slot_entry : (entry s).reg 1 = dueReg s % 256 := by
  have h := dueReg_lt s
  have h' : dueReg s % 256 < 65536 := by omega
  simp [entry, Core.movr, Core.andiByte, Core.reg_set, Nat.mod_eq_of_lt h, Nat.mod_eq_of_lt h']

/-- One word of the table branch: fetched from the row of `T + d` and stored to its cell. -/
def vrWord (R : Recording) (s : Cpu) (i : ℕ) (t : Cpu) : Cpu :=
  t.st ((slotCells (dueReg s % 256)).getD i 0) (R.read t ((dueReg s * 4 + R.base + i) % 65536))

/-- The branch of the table. -/
theorem virtCapture_tbl (h : slt (dueReg s) R.len = true) :
    virtCapture R s = vrWord R s 3 (vrWord R s 2 (vrWord R s 1 (vrWord R s 0 s))) := by
  have hslot : dueReg s % 256 < 256 := Nat.mod_lt _ (by decide)
  obtain ⟨c, hc⟩ : ∃ c, (((entry s).sll2 2).addi R.base 2).movr 2 4 = c := ⟨_, rfl⟩
  have hbus : c.bus = s := by
    rw [← hc]
    rfl
  have h1 : c.reg 1 = dueReg s % 256 := by
    rw [← hc, ← slot_entry]
    rfl
  have h4 : c.reg 4 = (dueReg s * 4 + R.base) % 65536 := by
    rw [← hc]
    simp [Core.movr, Core.addi, Core.sll2, Core.reg_set, due_entry]
  have w0 : Celled R seatRing c _ := celled_vrCell (by rw [h1]; exact hslot) (by decide)
  have w1 : Celled R (seatRing + 0x100) _ _ :=
    celled_vrCell (by rw [w0.slot, h1]; exact hslot) (by decide)
  have w2 : Celled R seatKp _ _ :=
    celled_vrCell (by rw [w1.slot, w0.slot, h1]; exact hslot) (by decide)
  have w3 : Celled R (seatKp + 0x100) _ _ :=
    celled_vrCell (by rw [w2.slot, w1.slot, w0.slot, h1]; exact hslot) (by decide)
  have hunfold : virtCapture R s = (vrCell R (seatKp + 0x100) (vrCell R seatKp
      (vrCell R (seatRing + 0x100) (vrCell R seatRing c)))).bus := by
    rw [← hc]
    change (if slt ((entry s).reg 2) R.len then (vrTbl R (entry s)).bus
      else (vrIdle R (entry s)).bus) = _
    rw [due_entry, if_pos h]
    rfl
  have p1 : (c.reg 4 + 1) % 65536 = (dueReg s * 4 + R.base + 1) % 65536 := by omega
  have p2 : ((c.reg 4 + 1) % 65536 + 1) % 65536 = (dueReg s * 4 + R.base + 2) % 65536 := by omega
  have p3 : (((c.reg 4 + 1) % 65536 + 1) % 65536 + 1) % 65536 =
      (dueReg s * 4 + R.base + 3) % 65536 := by omega
  rw [hunfold, w3.bus, w2.pointer, w1.pointer, w0.pointer, p3, w2.slot, w2.bus, w1.pointer,
    w0.pointer, p2, w1.slot, w1.bus, w0.pointer, p1, w0.slot, w0.bus, h1, h4, hbus]
  rfl

/-- The branch behind the table. -/
theorem virtCapture_idle (h : slt (dueReg s) R.len = false) :
    virtCapture R s = (((s.st (seatRing + dueReg s % 256) 0x40).st
      (seatRing + dueReg s % 256 + 0xFF) 0x40).st (seatKp + dueReg s % 256) 0).st
        (seatKp + dueReg s % 256 + 0xFF) 0 := by
  have hslot : dueReg s % 256 < 256 := Nat.mod_lt _ (by decide)
  have h1 : (entry s).reg 1 = dueReg s % 256 := slot_entry
  have hfirst : (vrPair R seatRing 0x40 (entry s)).reg 1 = dueReg s % 256 := by
    rw [slot_vrPair, h1]
  have hbus : (entry s).bus = s := rfl
  change (if slt ((entry s).reg 2) R.len then (vrTbl R (entry s)).bus
    else (vrIdle R (entry s)).bus) = _
  rw [due_entry, h, if_neg Bool.false_ne_true, vrIdle,
    bus_vrPair (by rw [hfirst]; exact hslot) (by decide) (by decide), hfirst,
    bus_vrPair (by rw [h1]; exact hslot) (by decide) (by decide), h1, hbus]

/-- The four words the table branch fetches, every one after the stores of those before it. -/
def fetched (R : Recording) (s : Cpu) : List ℕ :=
  let a := dueReg s * 4 + R.base
  let t0 := vrWord R s 0 s
  let t1 := vrWord R s 1 t0
  let t2 := vrWord R s 2 t1
  [R.read s (a % 65536), R.read t0 ((a + 1) % 65536), R.read t1 ((a + 2) % 65536),
    R.read t2 ((a + 3) % 65536)]

/-- The branch of the table stores to the cells of the slot, and to them alone. -/
theorem fed_tbl (h : slt (dueReg s) R.len = true) :
    RowFed (dueReg s % 256) ((fetched R s).map (· % 256)) s (virtCapture R s) := by
  have hslot : dueReg s % 256 < 256 := Nat.mod_lt _ (by decide)
  rw [virtCapture_tbl h]
  generalize hk : dueReg s % 256 = k at hslot
  have hbits : ∀ a, 0x8400 ≤ a → a < 0x9000 → cellBits a = 8 := fun a h1 h2 =>
    cellBits_cart (by omega) (by omega)
  refine ⟨⟨(slotCells k).reverse, ?_, fun a => List.mem_reverse⟩, ?_, ?_⟩
  · simp [vrWord, hk, slotCells]
  · have b0 := hbits (seatRing + k) (by simp only [seatRing]; omega) (by simp only [seatRing]; omega)
    have b1 := hbits (seatRing + 0x100 + k) (by simp only [seatRing]; omega)
      (by simp only [seatRing]; omega)
    have b2 := hbits (seatKp + k) (by simp only [seatKp]; omega) (by simp only [seatKp]; omega)
    have b3 := hbits (seatKp + 0x100 + k) (by simp only [seatKp]; omega)
      (by simp only [seatKp]; omega)
    simp only [seatRing, seatKp, Nat.reduceAdd] at b0 b1 b2 b3
    simp [fetched, vrWord, hk, slotCells, b0, b1, b2, b3]
  · intro a ha
    simp only [slotCells, List.mem_cons, List.not_mem_nil, or_false, not_or] at ha
    obtain ⟨h0, h1, h2, h3⟩ := ha
    simp only [vrWord, hk, slotCells, List.getD_cons_zero, List.getD_cons_succ]
    rw [Cpu.rd_st, if_neg h3, Cpu.rd_st, if_neg h2, Cpu.rd_st, if_neg h1, Cpu.rd_st, if_neg h0]

/-- Behind the table a cell of the slot is not stored to. -/
theorem not_fed_idle (h : slt (dueReg s) R.len = false) (row : List ℕ) :
    ¬ RowFed (dueReg s % 256) row s (virtCapture R s) := by
  intro hf
  obtain ⟨l, hl, hcells⟩ := hf.stores
  rw [virtCapture_idle h] at hl
  have happend : l ++ s.stores = [seatKp + dueReg s % 256 + 0xFF, seatKp + dueReg s % 256,
      seatRing + dueReg s % 256 + 0xFF, seatRing + dueReg s % 256] ++ s.stores := by
    rw [← hl]
    rfl
  have hlist := List.append_cancel_right happend
  have hmem := (hcells (seatRing + 0x100 + dueReg s % 256)).mpr
    (List.mem_cons_of_mem _ List.mem_cons_self)
  rw [hlist] at hmem
  simp only [seatRing, seatKp, List.mem_cons, List.not_mem_nil, or_false] at hmem
  omega

/-- What is fetched for a tick of the recording is its row. -/
theorem fetched_row (h : s.tick + s.rd delayEn < R.len) :
    (fetched R s).map (· % 256) = R.row (s.tick + s.rd delayEn) := by
  have hcov := R.covers
  have hfits := R.fits
  have hdue : dueReg s = s.tick + s.rd delayEn := Nat.mod_eq_of_lt (by omega)
  have hword : ∀ t i, i < 4 → R.read t ((dueReg s * 4 + R.base + i) % 65536) % 256 =
      R.tbl.getD (4 * (s.tick + s.rd delayEn) + i) 0 := by
    intro t i hi
    have ha : (dueReg s * 4 + R.base + i) % 65536 = R.base + (4 * (s.tick + s.rd delayEn) + i) := by
      rw [hdue, Nat.mod_eq_of_lt (by omega)]
      omega
    have hlt : 4 * (s.tick + s.rd delayEn) + i < R.tbl.length := by omega
    rw [ha, Recording.read, if_pos ⟨by omega, by omega⟩, Nat.add_sub_cancel_left]
    refine Nat.mod_eq_of_lt ?_
    rw [List.getD_eq_getElem?_getD, List.getElem?_eq_getElem hlt, Option.getD_some]
    exact R.byte _ (List.getElem_mem hlt)
  have h0 : R.read s ((dueReg s * 4 + R.base) % 65536) % 256 = _ := hword s 0 (by decide)
  rw [Recording.row, if_pos h, fetched]
  simp only [List.map_cons, List.map_nil, h0, hword _ 1 (by decide), hword _ 2 (by decide),
    hword _ 3 (by decide)]
  rfl

end capture

/-- When a call feeds the row of its tick: the tick is one of the recording; or the sum of the tick and
the delay has outgrown a signed word, and what lies where its row would be happens to be idle. -/
def Plays (R : Recording) (s : Cpu) : Prop :=
  s.tick + s.rd delayEn < R.len ∨
    32768 ≤ s.tick + s.rd delayEn ∧ slt (dueReg s) R.len = true ∧
      (fetched R s).map (· % 256) = Recording.idle

/-- A call feeds the row of its tick. -/
def Feeds (R : Recording) (s : Cpu) : Prop :=
  RowFed ((s.tick + s.rd delayEn) % 256) (R.row (s.tick + s.rd delayEn)) s (virtCapture R s)

theorem feeds_iff (R : Recording) (s : Cpu) : Feeds R s ↔ Plays R s := by
  have hslot : dueReg s % 256 = (s.tick + s.rd delayEn) % 256 := by
    unfold dueReg
    omega
  have hlen : R.len ≤ 16384 := by
    have h1 := R.covers
    have h2 := R.fits
    omega
  rw [Feeds, Plays, ← hslot]
  by_cases hin : s.tick + s.rd delayEn < R.len
  · have hlt : slt (dueReg s) R.len = true := by
      have hdue : dueReg s = s.tick + s.rd delayEn := Nat.mod_eq_of_lt (by omega)
      rw [slt_iff (by omega) (by omega), hdue]
      exact hin
    refine ⟨fun _ => .inl hin, fun _ => ?_⟩
    rw [← fetched_row hin]
    exact fed_tbl hlt
  · have hrow : R.row (s.tick + s.rd delayEn) = Recording.idle := if_neg hin
    rw [hrow]
    cases hlt : slt (dueReg s) R.len with
    | true =>
      have hbig : 32768 ≤ s.tick + s.rd delayEn := by
        by_contra hsmall
        have hdue : dueReg s = s.tick + s.rd delayEn := Nat.mod_eq_of_lt (by omega)
        rw [hdue, slt_iff (by omega) (by omega)] at hlt
        exact hin hlt
      have hfed := fed_tbl hlt
      constructor
      · intro hf
        exact .inr ⟨hbig, rfl, hfed.cells.symm.trans hf.cells⟩
      · rintro (h | ⟨-, -, h⟩)
        · exact absurd h hin
        · rw [← h]
          exact hfed
    | false =>
      constructor
      · intro hf
        exact absurd hf (not_fed_idle hlt _)
      · rintro (h | ⟨-, h, -⟩)
        · exact absurd h hin
        · exact absurd h Bool.false_ne_true

/-! ### Runs -/

/-- From behind one capture to the next: the tick counter goes up, and nobody else touches the rings
or the delay. -/
structure NextTick (s t : Cpu) : Prop where
  tick : t.tick = (s.tick + 1) % 65536
  delay : t.rd delayEn = s.rd delayEn
  rings : ∀ a, RingCell a → t.rd a = s.rd a

/-- `st k` is the console in front of the capture number `k`. -/
def ReplayRun (R : Recording) (n : ℕ) (st : ℕ → Cpu) : Prop :=
  ∀ k < n, NextTick (virtCapture R (st k)) (st (k + 1))

/-- What `SHADOW_FROM_RINGS` reads, the decoded cells of both seats and then their keypad cells. -/
def dispatched (s : Cpu) : List ℕ :=
  [vdCell seatRing s, vdCell (seatRing + 0x100) s, vdCell seatKp s, vdCell (seatKp + 0x100) s]

section run

variable {R : Recording} {n : ℕ} {st : ℕ → Cpu} {s t : Cpu}

theorem ringCell_of_mem {slot a : ℕ} (hs : slot < 256) (ha : a ∈ slotCells slot) : RingCell a := by
  simp only [slotCells, seatRing, seatKp, List.mem_cons, List.not_mem_nil, or_false] at ha
  unfold RingCell
  simp only [seatRing]
  omega

/-- The capture writes to the rings alone. -/
theorem rd_virtCapture {a : ℕ} (ha : ¬ RingCell a) : (virtCapture R s).rd a = s.rd a := by
  have hslot : dueReg s % 256 < 256 := Nat.mod_lt _ (by decide)
  cases hlt : slt (dueReg s) R.len with
  | true => exact (fed_tbl hlt).others a fun hmem => ha (ringCell_of_mem hslot hmem)
  | false =>
    unfold RingCell at ha
    simp only [seatRing] at ha
    have hne : ∀ b, 0x8400 ≤ b → b < 0x8C00 → a ≠ b := by
      rintro b h1 h2 rfl
      exact ha ⟨h1, h2⟩
    rw [virtCapture_idle hlt]
    simp only [seatRing, seatKp]
    rw [Cpu.rd_st, if_neg (hne _ (by omega) (by omega)), Cpu.rd_st,
      if_neg (hne _ (by omega) (by omega)), Cpu.rd_st, if_neg (hne _ (by omega) (by omega)),
      Cpu.rd_st, if_neg (hne _ (by omega) (by omega))]

theorem tick_virtCapture : (virtCapture R s).tick = s.tick :=
  Cpu.tick_congr (rd_virtCapture (by decide)) (rd_virtCapture (by decide))

theorem dispatched_eq (s : Cpu) : dispatched s = (slotCells (s.tick % 256)).map s.rd := by
  have hlo : s.rd tickLo < 256 := s.rd_lt_256 (by decide)
  have htick : s.tick % 256 = s.rd tickLo := word_mod_256 hlo
  rw [htick]
  rfl

theorem slotCells_ne {j k a : ℕ} (hj : j < 256) (hk : k < 256) (h : j ≠ k) (ha : a ∈ slotCells j) :
    a ∉ slotCells k := by
  simp only [slotCells, seatRing, seatKp, List.mem_cons, List.not_mem_nil, or_false] at ha ⊢
  omega

theorem tick_run (h : ReplayRun R n st) {k : ℕ} (hk : k ≤ n) :
    (st k).tick = ((st 0).tick + k) % 65536 ∧ (st k).rd delayEn = (st 0).rd delayEn := by
  induction k with
  | zero =>
    have hlt := (st 0).tick_lt
    rw [Nat.add_zero, Nat.mod_eq_of_lt hlt]
    exact ⟨rfl, rfl⟩
  | succ k ih =>
    obtain ⟨htick, hdelay⟩ := ih (by omega)
    have hnext := h k hk
    constructor
    · rw [hnext.tick, tick_virtCapture, htick]
      omega
    · rw [hnext.delay, rd_virtCapture (by decide), hdelay]

/-- A row that was fed stands in its slot for as long as the delay lasts. -/
theorem row_stands (h : ReplayRun R n st) (hfeeds : ∀ k < n, Feeds R (st k)) {j m : ℕ}
    (hm : m ≤ (st 0).rd delayEn) (hjm : j + m < n) :
    (slotCells (((st j).tick + (st 0).rd delayEn) % 256)).map (virtCapture R (st (j + m))).rd =
      R.row ((st j).tick + (st 0).rd delayEn) := by
  have hd : (st 0).rd delayEn < 256 := (st 0).rd_lt_256 (by decide)
  induction m with
  | zero =>
    have hfed := (hfeeds j hjm).cells
    rw [(tick_run h (show j ≤ n by omega)).2] at hfed
    exact hfed
  | succ m ih =>
    rw [← ih (by omega) (by omega)]
    refine List.map_congr_left fun a ha => ?_
    have hfed := (hfeeds (j + m + 1) (by omega)).others a
    have hslot : ((st j).tick + (st 0).rd delayEn) % 256 < 256 := Nat.mod_lt _ (by decide)
    rw [(tick_run h (show j + m + 1 ≤ n by omega)).2] at hfed
    have hne : ((st j).tick + (st 0).rd delayEn) % 256 ≠
        ((st (j + m + 1)).tick + (st 0).rd delayEn) % 256 := by
      rw [(tick_run h (show j ≤ n by omega)).1, (tick_run h (show j + m + 1 ≤ n by omega)).1]
      omega
    rw [← Nat.add_assoc,
      hfed (slotCells_ne hslot (Nat.mod_lt _ (by decide)) hne ha),
      (h (j + m) (by omega)).rings a (ringCell_of_mem hslot ha)]

end run

/-- **A replay feeds every tick's recorded input and idles afterwards** exactly where every one of its
captures does: each call writes the cells of its slot with the row of its tick, and from the depth of
the delay on every tick is dispatched as the row that was captured for it. -/
theorem replay_feeds (R : Recording) (n : ℕ) (st : ℕ → Cpu) (h : ReplayRun R n st) :
    ((∀ k < n, Feeds R (st k)) ∧ ∀ k < n, (st 0).rd delayEn ≤ k →
      dispatched (virtCapture R (st k)) =
        R.row ((st (k - (st 0).rd delayEn)).tick + (st 0).rd delayEn)) ↔
      ∀ k < n, Plays R (st k) := by
  constructor
  · intro hall k hk
    exact (feeds_iff R _).mp (hall.1 k hk)
  · intro hall
    have hfeeds : ∀ k < n, Feeds R (st k) := fun k hk => (feeds_iff R _).mpr (hall k hk)
    refine ⟨hfeeds, fun k hk hd => ?_⟩
    obtain ⟨j, rfl⟩ : ∃ j, k = j + (st 0).rd delayEn := ⟨k - (st 0).rd delayEn, by omega⟩
    have hslot : (st (j + (st 0).rd delayEn)).tick % 256 =
        ((st j).tick + (st 0).rd delayEn) % 256 := by
      rw [(tick_run h (show j ≤ n by omega)).1, (tick_run h hk.le).1]
      omega
    rw [Nat.add_sub_cancel, dispatched_eq, tick_virtCapture, hslot]
    exact row_stands h hfeeds le_rfl hk

/-- The dump of a session of `n` ticks, at one of which the right disc is held. -/
def heldAt (n t : ℕ) (a : ℕ) : Option ℕ :=
  if a = 0x8108 then some n else if a = 0x9000 + t * 4 + 1 then some 8 else none

/-- The recording of that session. -/
def heldRows (n t : ℕ) : Recording := mkReplay (heldAt n t) 0x7000 (by decide)

/-- The console at tick `k`, its rings holding what the captures before have left. -/
def atTick (k : ℕ) (s : Cpu) : Cpu := s.st tickLo k

/-- Idle rings and a delay of 1. -/
def idleRings : Cpu :=
  (lsRingInit ⟨⟨fun _ => 0, zero_lt_cell⟩, ⟨fun _ => 0, 0⟩, [], [], [],
    ⟨0, 0, 0, false, false, fun _ => 0⟩⟩).st delayEn 1

/-- Captures of a recording from there on. -/
def captures (R : Recording) : ℕ → Cpu
  | 0 => idleRings
  | k + 1 => atTick (k + 1) (virtCapture R (captures R k))

/-- The tick counter and the delay of these consoles. -/
theorem tick_captures (R : Recording) {k : ℕ} (h : k < 256) :
    (captures R k).tick = k ∧ (captures R k).rd delayEn = 1 := by
  have hcells : (captures R k).rd tickLo = k ∧ (captures R k).rd tickHi = 0 ∧
      (captures R k).rd delayEn = 1 := by
    induction k with
    | zero =>
      have hstart : idleRings.rd tickLo = 0 ∧ idleRings.rd tickHi = 0 ∧ idleRings.rd delayEn = 1 := by
        decide +kernel
      exact hstart
    | succ k ih =>
      obtain ⟨-, hhi, hdelay⟩ := ih (by omega)
      rw [captures, atTick, Cpu.rd_st, if_pos rfl, Cpu.rd_st, if_neg (by decide), Cpu.rd_st,
        if_neg (by decide), rd_virtCapture (by decide), rd_virtCapture (by decide), hhi, hdelay,
        cellBits_cart (by decide) (by decide)]
      exact ⟨Nat.mod_eq_of_lt h, rfl, rfl⟩
  obtain ⟨hlo, hhi, hdelay⟩ := hcells
  refine ⟨?_, hdelay⟩
  rw [Cpu.tick, Cpu.rd16, hlo, hhi, word, Nat.zero_mul, Nat.zero_add]

theorem run_captures (R : Recording) {n : ℕ} (hn : n < 256) : ReplayRun R n (captures R) := by
  intro k hk
  refine ⟨?_, ?_, fun a ha => ?_⟩
  · rw [tick_virtCapture, (tick_captures R (show k + 1 < 256 by omega)).1,
      (tick_captures R (show k < 256 by omega)).1]
    omega
  · rw [captures, atTick, Cpu.rd_st, if_neg (by decide)]
  · have hne : a ≠ tickLo := by
      rintro rfl
      exact absurd ha (by decide)
    rw [captures, atTick, Cpu.rd_st, if_neg hne]

/-- Three captures of a recording of four ticks: the third is behind the press, which is dispatched. -/
theorem replay_feeds_three :
    ReplayRun (heldRows 4 2) 3 (captures (heldRows 4 2)) ∧
      (∀ k < 3, Feeds (heldRows 4 2) (captures (heldRows 4 2) k)) ∧
        dispatched (virtCapture (heldRows 4 2) (captures (heldRows 4 2) 2)) = [0x40, 8, 0, 0] := by
  have hrun : ReplayRun (heldRows 4 2) 3 (captures (heldRows 4 2)) := run_captures _ (by decide)
  have hat : ∀ k < 3, (captures (heldRows 4 2) k).tick = k ∧
      (captures (heldRows 4 2) k).rd delayEn = 1 := fun k hk => tick_captures _ (by omega)
  have hlen : (heldRows 4 2).len = 4 := by decide +kernel
  obtain ⟨hfeeds, hrows⟩ := (replay_feeds (heldRows 4 2) 3 (captures (heldRows 4 2)) hrun).mpr
    fun k hk => .inl (by rw [(hat k hk).1, (hat k hk).2, hlen]; omega)
  refine ⟨hrun, hfeeds, ?_⟩
  have hrow := hrows 2 (by decide) (by rw [(hat 0 (by decide)).2]; decide)
  rw [(hat 0 (by decide)).2, (hat 1 (by decide)).1] at hrow
  rw [hrow]
  decide +kernel

/-- A row that is lost: with a delay of 1 the capture at the last recorded tick, which is to fill the
slot of the tick behind the recording, overwrites the right disc of the tick itself. -/
theorem replay_loses : ∃ R st, ReplayRun R 2 st ∧ ¬ Feeds R (st 1) ∧
    R.row (st 1).tick = [0x40, 8, 0, 0] ∧
      dispatched (virtCapture R (st 1)) = [0x40, 0x40, 0, 0] := by
  refine ⟨heldRows 2 1, captures _, run_captures _ (by decide), ?_, by decide +kernel, by decide +kernel⟩
  rw [feeds_iff]
  rintro (h | ⟨-, h, -⟩)
  · exact absurd h (by decide +kernel)
  · exact absurd h (by decide +kernel)

end IntvNetplay.Console
