import IntvNetplay.Console.Replay
import Mathlib.Tactic.IntervalCases

/-!
# A session recorded and replayed

`REC_CAPTURE` of a record build logs what the controllers give at every tick, `mk_replay.py` makes a
recording of the dump, and a replay of it gives the game the same at the same tick.
-/

namespace IntvNetplay.Console

open IntvNetplay.Machine

/-! ### The routine -/

/-- The log of a session. -/
def LogCell (a : ℕ) : Prop := 0x9000 ≤ a ∧ a < 0x9000 + 4 * recCap

/-- `MVI cell, R0` and `MVO@ R0, R4`. -/
def recWord (cell : ℕ) (c : Core Cpu) : Core Cpu := (c.set 0 (c.bus.rd cell)).mvoAt ⟨Cpu.rd, Cpu.st⟩ 0 4

/-- `REC_CAPTURE` -/
def recCapture (s : Cpu) : Cpu :=
  let c := (⟨fun _ => 0, s⟩ : Core Cpu).set 1 s.tick
  if slt (c.reg 1) recCap then
    (recWord execKpR (recWord execKpL (recWord execInR (recWord execInL
      (((c.sll2 1).addi 0x9000 1).movr 1 4))))).bus
  else s

/-- `MASTER_TICK` of a record build, up to the game's own tick. -/
def masterRecord (s : Cpu) : Cpu := recCapture (updateShadow s)

/-- `MASTER_TICK` of a replay build from `VIRT_CAPTURE` to the shadow cells. -/
def masterReplay (R : Recording) (s : Cpu) : Cpu :=
  shadowFromRings (installTable (lsTblAdopt (virtCapture R s)))

/-- What the game polls. -/
def polled (s : Cpu) : List ℕ := [s.rd shadowCtrl, s.rd shadowCtrlR, s.rd shadowKp, s.rd shadowKpR]

/-- What the controllers give: left and right decoded, left and right keypad. -/
def live (s : Cpu) : List ℕ := [s.rd execInL, s.rd execInR, s.rd execKpL, s.rd execKpR]

/-- The row of a tick in the log. -/
def logged (s : Cpu) (x : ℕ) : List ℕ := (List.range 4).map fun i => s.rd (0x9000 + 4 * x + i)

section routine

variable {s : Cpu}

theorem recWord_spec {cell : ℕ} {c : Core Cpu} :
    (recWord cell c).bus = c.bus.st (c.reg 4) (c.bus.rd cell) ∧
      (recWord cell c).reg 4 = (c.reg 4 + 1) % 65536 := by
  have hcell : c.bus.rd cell % 65536 = c.bus.rd cell := Nat.mod_eq_of_lt (c.bus.rd_lt_65536 cell)
  refine ⟨?_, ?_⟩
  · simp [recWord, Core.mvoAt, Core.reg_set, hcell]
  · simp [recWord, Core.mvoAt, Core.after, Core.addi, Core.reg_set]

/-- A row that is logged. -/
theorem recCapture_log (h : s.tick < recCap) : recCapture s =
    (((s.st (0x9000 + 4 * s.tick) (s.rd execInL)).st (0x9000 + 4 * s.tick + 1) (s.rd execInR)).st
      (0x9000 + 4 * s.tick + 2) (s.rd execKpL)).st (0x9000 + 4 * s.tick + 3) (s.rd execKpR) := by
  have hlt : slt s.tick recCap = true := by
    simp only [recCap] at h
    rw [slt, decide_eq_true_eq]
    simp only [recCap]
    omega
  simp only [recCap] at h
  obtain ⟨c, hc⟩ : ∃ c, ((((⟨fun _ => 0, s⟩ : Core Cpu).set 1 s.tick).sll2 1).addi 0x9000 1).movr 1 4 = c :=
    ⟨_, rfl⟩
  have hbus : c.bus = s := by
    rw [← hc]
    rfl
  have h4 : c.reg 4 = 0x9000 + 4 * s.tick := by
    rw [← hc]
    simp [Core.movr, Core.addi, Core.sll2, Core.reg_set]
    omega
  have hreg : ((⟨fun _ => 0, s⟩ : Core Cpu).set 1 s.tick).reg 1 = s.tick := by
    rw [Core.reg_set, if_pos rfl]
    omega
  have hunfold : recCapture s =
      (recWord execKpR (recWord execKpL (recWord execInR (recWord execInL c)))).bus := by
    rw [← hc, recCapture, hreg, if_pos hlt]
  have hne : ∀ (t : Cpu) (a v : ℕ), 0x9000 ≤ a → ∀ b < 0x9000, (t.st a v).rd b = t.rd b := by
    intro t a v ha b hb
    rw [Cpu.rd_st, if_neg (by omega)]
  have p1 : (0x9000 + 4 * s.tick + 1) % 65536 = 0x9000 + 4 * s.tick + 1 := by omega
  have p2 : (0x9000 + 4 * s.tick + 1 + 1) % 65536 = 0x9000 + 4 * s.tick + 1 + 1 := by omega
  have p3 : (0x9000 + 4 * s.tick + 1 + 1 + 1) % 65536 = 0x9000 + 4 * s.tick + 1 + 1 + 1 := by omega
  rw [hunfold, recWord_spec.1, recWord_spec.2, recWord_spec.1, recWord_spec.2, recWord_spec.1, recWord_spec.2,
    recWord_spec.1, h4, hbus, p1, p2, p3]
  simp only [hne _ _ _ (show 0x9000 ≤ 0x9000 + 4 * s.tick by omega) execInR (by decide),
    hne _ _ _ (show 0x9000 ≤ 0x9000 + 4 * s.tick by omega) execKpL (by decide),
    hne _ _ _ (show 0x9000 ≤ 0x9000 + 4 * s.tick by omega) execKpR (by decide),
    hne _ _ _ (show 0x9000 ≤ 0x9000 + 4 * s.tick + 1 by omega) execKpL (by decide),
    hne _ _ _ (show 0x9000 ≤ 0x9000 + 4 * s.tick + 1 by omega) execKpR (by decide),
    hne _ _ _ (show 0x9000 ≤ 0x9000 + 4 * s.tick + 1 + 1 by omega) execKpR (by decide)]

/-- The log is full. -/
theorem recCapture_full (h : recCap ≤ s.tick) (h' : s.tick < 32768) : recCapture s = s := by
  have hlt : slt s.tick recCap = false := by
    simp only [recCap] at h ⊢
    rw [slt, decide_eq_false_iff_not]
    omega
  have hreg : ((⟨fun _ => 0, s⟩ : Core Cpu).set 1 s.tick).reg 1 = s.tick := by
    rw [Core.reg_set, if_pos rfl]
    omega
  rw [recCapture, hreg, hlt, if_neg Bool.false_ne_true]

theorem rd_recCapture (h : s.tick < recCap) (a : ℕ) : (recCapture s).rd a =
    if 0x9000 + 4 * s.tick ≤ a ∧ a < 0x9000 + 4 * s.tick + 4 then (live s).getD (a - (0x9000 + 4 * s.tick)) 0
    else s.rd a := by
  have hbyte : ∀ {cell b : ℕ}, 0x0100 ≤ cell ∧ cell < 0x0200 → 0x9000 ≤ b ∧ b < 0xA000 →
      s.rd cell % 2 ^ cellBits b = s.rd cell := fun hcell hb => by
    rw [cellBits_cart (by omega) (by omega)]
    exact s.rd_mod_256 (.inl hcell)
  simp only [recCap] at h
  rw [recCapture_log (by simpa using h)]
  by_cases hin : 0x9000 + 4 * s.tick ≤ a ∧ a < 0x9000 + 4 * s.tick + 4
  · rw [if_pos hin]
    obtain ⟨i, rfl⟩ : ∃ i, a = 0x9000 + 4 * s.tick + i := ⟨a - (0x9000 + 4 * s.tick), by omega⟩
    have hi : i < 4 := by omega
    rw [Nat.add_sub_cancel_left]
    simp only [Cpu.rd_st]
    interval_cases i
    · rw [if_neg (by omega), if_neg (by omega), if_neg (by omega), if_pos (Nat.add_zero _),
        hbyte (by decide) (by omega)]
      rfl
    · rw [if_neg (by omega), if_neg (by omega), if_pos rfl, hbyte (by decide) (by omega)]
      rfl
    · rw [if_neg (by omega), if_pos rfl, hbyte (by decide) (by omega)]
      rfl
    · rw [if_pos rfl, hbyte (by decide) (by omega)]
      rfl
  · rw [if_neg hin]
    simp only [Cpu.rd_st]
    rw [if_neg (by omega), if_neg (by omega), if_neg (by omega), if_neg (by omega)]

/-- The row of its tick is logged, and the other rows stay. -/
theorem logged_recCapture (h : s.tick < recCap) (x : ℕ) :
    logged (recCapture s) x = if x = s.tick then live s else logged s x := by
  have hget : ∀ i < 4, (recCapture s).rd (0x9000 + 4 * x + i) =
      if x = s.tick then (live s).getD i 0 else s.rd (0x9000 + 4 * x + i) := fun i hi => by
    rw [rd_recCapture h]
    split_ifs with h1 h2 h2
    · rw [h2, Nat.add_sub_cancel_left]
    · omega
    · omega
    · rfl
  have hmap : logged (recCapture s) x = (List.range 4).map fun i =>
      if x = s.tick then (live s).getD i 0 else s.rd (0x9000 + 4 * x + i) :=
    List.map_congr_left fun i hi => hget i (List.mem_range.1 hi)
  rw [hmap]
  split_ifs
  · rfl
  · rfl

end routine

/-! ### What the game polls -/

section polled

variable {s t : Cpu}

theorem polled_updateShadow : polled (updateShadow s) = live s := by
  have hbyte : ∀ {cell b : ℕ}, 0x0100 ≤ cell ∧ cell < 0x0200 → 0x8000 ≤ b ∧ b < 0xA000 →
      s.rd cell % 2 ^ cellBits b = s.rd cell := fun hcell hb => by
    rw [cellBits_cart hb.1 hb.2]
    exact s.rd_mod_256 (.inl hcell)
  have h1 : s.rd execInL % 2 ^ cellBits shadowCtrl = s.rd execInL := hbyte (by decide) (by decide)
  have h2 : s.rd execInR % 2 ^ cellBits shadowCtrlR = s.rd execInR := hbyte (by decide) (by decide)
  have h3 : s.rd execKpL % 2 ^ cellBits shadowKp = s.rd execKpL := hbyte (by decide) (by decide)
  have h4 : s.rd execKpR % 2 ^ cellBits shadowKpR = s.rd execKpR := hbyte (by decide) (by decide)
  simp [polled, updateShadow, live, h1, h2, h3, h4]

theorem polled_recCapture (h : s.tick < 32768) : polled (recCapture s) = polled s := by
  have hrd : ∀ a < 0x9000, (recCapture s).rd a = s.rd a := fun a ha => by
    by_cases hlog : s.tick < recCap
    · rw [rd_recCapture hlog, if_neg (by omega)]
    · rw [recCapture_full (Nat.not_lt.1 hlog) h]
  rw [polled, polled, hrd _ (by decide), hrd _ (by decide), hrd _ (by decide), hrd _ (by decide)]

theorem live_updateShadow : live (updateShadow s) = live s := by
  simp [live, updateShadow]

theorem tick_updateShadow : (updateShadow s).tick = s.tick :=
  Cpu.tick_congr ((local_updateShadow s).rd _ (by decide)) ((local_updateShadow s).rd _ (by decide))

theorem polled_shadowFromRings : polled (shadowFromRings s) = dispatched s := by
  have h0 : vdCell seatRing s < 256 := vdCell_lt (by decide) (by decide)
  have h1 : vdCell (seatRing + 0x100) s < 256 := vdCell_lt (by decide) (by decide)
  have h2 : vdCell seatKp s < 256 := vdCell_lt (by decide) (by decide)
  have h3 : vdCell (seatKp + 0x100) s < 256 := vdCell_lt (by decide) (by decide)
  simp only [shadowFromRings, polled, Cpu.rd_emit, dispatched]
  rw [vdCell_st _ (by decide) (by decide), vdCell_st _ (by decide) (by decide),
    vdCell_st _ (by decide) (by decide), vdCell_st _ (by decide) (by decide),
    vdCell_st _ (by decide) (by decide), vdCell_st _ (by decide) (by decide)]
  simp [cellBits, Nat.mod_eq_of_lt h0, Nat.mod_eq_of_lt h1, Nat.mod_eq_of_lt h2,
    Nat.mod_eq_of_lt h3, -seatRing, -seatKp]

theorem polled_masterReplay (R : Recording) : polled (masterReplay R s) = dispatched (virtCapture R s) := by
  have htable := (local_lsTblAdopt (virtCapture R s)).trans (local_installTable _)
  have hrd : ∀ a, RingCell a ∨ a = tickLo → (installTable (lsTblAdopt (virtCapture R s))).rd a =
      (virtCapture R s).rd a := fun a ha => htable.rd a fun hd => by
    simp only [RingCell, DispatchCell, seatRing, tickLo, vdCtrl] at ha hd
    omega
  have hcell : ∀ page, seatRing ≤ page → page + 256 ≤ seatRing + 0x800 →
      vdCell page (installTable (lsTblAdopt (virtCapture R s))) = vdCell page (virtCapture R s) :=
    fun page h1 h2 => vdCell_congr (fun x hx hx' => hrd x (.inl ⟨by omega, by omega⟩)) (hrd tickLo (.inr rfl))
  rw [masterReplay, polled_shadowFromRings, dispatched, dispatched, hcell _ (by decide) (by decide),
    hcell _ (by decide) (by decide), hcell _ (by decide) (by decide), hcell _ (by decide) (by decide)]

end polled

/-! ### A session -/

/-- From one tick to the next: the counter goes up, and nobody else touches the log. -/
structure LoggedTick (s t : Cpu) : Prop where
  tick : t.tick = (s.tick + 1) % 65536
  log : ∀ a, LogCell a → t.rd a = s.rd a

/-- `st k` is the console in front of tick number `k`. -/
def Session (n : ℕ) (st : ℕ → Cpu) : Prop :=
  (st 0).tick = 0 ∧ ∀ k < n, LoggedTick (masterRecord (st k)) (st (k + 1))

/-- What the debugger dumps of a console (`m 8100 20` and `m 9000 C00`). -/
structure Dumped (mem : ℕ → Option ℕ) (s : Cpu) : Prop where
  lo : mem tickLo = some (s.rd tickLo)
  hi : mem tickHi = some (s.rd tickHi)
  log : ∀ a, LogCell a → mem a = some (s.rd a)

section session

variable {n : ℕ} {st : ℕ → Cpu} {mem : ℕ → Option ℕ} {base : ℕ}

theorem tick_recCapture {s : Cpu} (h : s.tick < 32768) : (recCapture s).tick = s.tick := by
  by_cases hlog : s.tick < recCap
  · refine Cpu.tick_congr ?_ ?_
    · rw [rd_recCapture hlog, if_neg (by simp only [tickLo]; omega)]
    · rw [rd_recCapture hlog, if_neg (by simp only [tickHi]; omega)]
  · rw [recCapture_full (Nat.not_lt.1 hlog) h]

theorem logged_congr {s t : Cpu} (h : ∀ a, LogCell a → t.rd a = s.rd a) {x : ℕ} (hx : x < recCap) :
    logged t x = logged s x := by
  refine List.map_congr_left fun i hi => h _ ?_
  have := List.mem_range.1 hi
  simp only [recCap] at hx
  simp only [LogCell, recCap]
  omega

/-- What the log holds in front of a capture. -/
theorem session_logged (h : Session n st) {k : ℕ} (hk : k ≤ n) (hn : n ≤ 32768) :
    (st k).tick = k % 65536 ∧ ∀ x < recCap, x < k → logged (st k) x = live (st x) := by
  induction k with
  | zero => exact ⟨h.1, fun x _ hx => absurd hx (Nat.not_lt_zero x)⟩
  | succ k ih =>
    obtain ⟨htick, hrows⟩ := ih (by omega)
    have hnext := h.2 k hk
    have hk' : (updateShadow (st k)).tick = k := by
      rw [tick_updateShadow]
      omega
    have hkept : logged (updateShadow (st k)) = logged (st k) := funext fun x =>
      List.map_congr_left fun i _ => (local_updateShadow (st k)).rd _ fun hd => by
        simp only [DispatchCell, vdCtrl] at hd
        omega
    have htick' : (masterRecord (st k)).tick = k := by
      rw [masterRecord, tick_recCapture (by omega), hk']
    refine ⟨by rw [hnext.tick, htick'], fun x hx hxk => ?_⟩
    rw [logged_congr hnext.log hx, masterRecord]
    by_cases hfull : k < recCap
    · rw [logged_recCapture (by rwa [hk']), hk', hkept, live_updateShadow]
      split_ifs with heq
      · rw [heq]
      · exact hrows x hx (by omega)
    · rw [recCapture_full (by rw [hk']; exact Nat.not_lt.1 hfull) (by omega), hkept]
      exact hrows x hx (by omega)

theorem getD_replayRows (n : ℕ) {x i : ℕ} (hx : x < n) (hi : i < 4) :
    ((List.range n).flatMap (replayRow mem)).getD (4 * x + i) 0 = (replayRow mem x).getD i 0 := by
  have hrow : ∀ y, (replayRow mem y).length = 4 := fun _ => rfl
  induction n with
  | zero => exact absurd hx (Nat.not_lt_zero x)
  | succ n ih =>
    rw [List.range_succ, List.flatMap_append, List.flatMap_singleton, List.getD_eq_getElem?_getD]
    by_cases hlt : x < n
    · rw [List.getElem?_append_left (by rw [length_replayRows]; omega), ← List.getD_eq_getElem?_getD, ih hlt]
    · obtain rfl : x = n := by omega
      rw [List.getElem?_append_right (by rw [length_replayRows]; omega), length_replayRows,
        Nat.add_sub_cancel_left, List.getD_eq_getElem?_getD]

/-- A row of the recording that is made of a dump. -/
theorem row_mkReplay {s : Cpu} (hmem : Dumped mem s) (hb : base + 4 * recCap ≤ 65536) {x : ℕ}
    (hx : x < (mkReplay mem base hb).len) : (mkReplay mem base hb).row x = logged s x := by
  have hcap : x < recCap := Nat.lt_of_lt_of_le hx (Nat.min_le_right _ _)
  have hcell : ∀ i < 4, mem (0x9000 + x * 4 + i) = some (s.rd (0x9000 + 4 * x + i)) := fun i hi => by
    rw [Nat.mul_comm x 4]
    refine hmem.log _ ?_
    simp only [recCap] at hcap
    simp only [LogCell, recCap]
    omega
  have hbyte : ∀ i < 4, s.rd (0x9000 + 4 * x + i) % 256 = s.rd (0x9000 + 4 * x + i) := fun i hi => by
    simp only [recCap] at hcap
    exact s.rd_mod_256 (.inr (by omega))
  rw [Recording.row, if_pos hx]
  refine List.map_congr_left fun i hi => ?_
  have hi4 := List.mem_range.1 hi
  have htbl : (mkReplay mem base hb).tbl = (List.range recCap).flatMap (replayRow mem) := by
    simp only [mkReplay]
  rw [htbl, getD_replayRows recCap hcap hi4]
  have h0 := hcell 0 (by decide)
  rw [Nat.add_zero] at h0
  have hrow : replayRow mem x = (List.range 4).map fun j => s.rd (0x9000 + 4 * x + j) := by
    rw [replayRow]
    simp only [h0, hcell 1 (by decide), hcell 2 (by decide), hcell 3 (by decide), Option.getD_some,
      hbyte 0 (by decide), hbyte 1 (by decide), hbyte 2 (by decide), hbyte 3 (by decide)]
    rfl
  rw [hrow, List.getD_eq_getElem?_getD, List.getElem?_map, List.getElem?_range hi4]
  rfl

/-- As many rows as ticks, up to the size of the log. -/
theorem len_mkReplay {s : Cpu} (hmem : Dumped mem s) (hb : base + 4 * recCap ≤ 65536) :
    (mkReplay mem base hb).len = min s.tick recCap := by
  have hlo : s.rd tickLo < 256 := s.rd_lt_256 (by decide)
  have hword : s.rd tickLo ||| s.rd tickHi <<< 8 = s.tick := by
    rw [Nat.or_comm, ← Nat.shiftLeft_add_eq_or_of_lt hlo, Nat.shiftLeft_eq]
    rw [Cpu.tick, Cpu.rd16, word]
  have hl := hmem.lo
  have hh := hmem.hi
  simp only [tickLo, tickHi] at hl hh hword
  rw [mkReplay]
  simp only [hl, hh, Option.getD_some, hword]

end session

/-- **A session comes back as it was played.**  What a record build logs in up to 32768 ticks, dumped and
converted, a replay gives the game again: as long as the captures stay within the recording, what is
polled at a tick is what was polled at that tick of the session. -/
theorem session_replayed {n : ℕ} {rc : ℕ → Cpu} (hrec : Session n rc) (hn : n ≤ 32768) {mem : ℕ → Option ℕ}
    (hmem : Dumped mem (rc n)) {base : ℕ} (hb : base + 4 * recCap ≤ 65536) {m : ℕ} {st : ℕ → Cpu}
    (hrun : ReplayRun (mkReplay mem base hb) m st) (hstart : (st 0).tick = 0)
    (hm : m + (st 0).rd delayEn ≤ min n recCap) {k : ℕ} (hk : k < m) (hd : (st 0).rd delayEn ≤ k) :
    polled (masterReplay (mkReplay mem base hb) (st k)) = polled (masterRecord (rc k)) := by
  obtain ⟨htick, hrows⟩ := session_logged hrec le_rfl hn
  have hlen : (mkReplay mem base hb).len = min n recCap := by
    rw [len_mkReplay hmem hb, htick, Nat.mod_eq_of_lt (by omega)]
  have hcap : min n recCap ≤ 768 := Nat.min_le_right _ _
  have hat : ∀ j ≤ m, (st j).tick = j ∧ (st j).rd delayEn = (st 0).rd delayEn := fun j hj => by
    obtain ⟨ht, hdel⟩ := tick_run hrun hj
    rw [hstart] at ht
    exact ⟨by omega, hdel⟩
  have hfeeds : ∀ j < m, Feeds (mkReplay mem base hb) (st j) := fun j hj => by
    obtain ⟨ht, hdel⟩ := hat j hj.le
    refine (feeds_iff _ _).2 (.inl ?_)
    rw [ht, hdel, hlen]
    omega
  obtain ⟨j, rfl⟩ : ∃ j, k = j + (st 0).rd delayEn := ⟨k - (st 0).rd delayEn, by omega⟩
  have hrow := row_stands hrun hfeeds le_rfl hk
  rw [(hat j (by omega)).1] at hrow
  have htick' := (session_logged hrec (show j + (st 0).rd delayEn ≤ n by omega) hn).1
  rw [polled_masterReplay, dispatched_eq, tick_virtCapture, (hat _ hk.le).1, hrow,
    row_mkReplay hmem hb (by omega), hrows _ (by simp only [recCap]; omega) (by omega), masterRecord,
    polled_recCapture (by rw [tick_updateShadow]; omega), polled_updateShadow]

/-- A session in which the left disc moves at every tick. -/
def discSession : ℕ → Cpu
  | 0 => ⟨⟨fun _ => 0, zero_lt_cell⟩, ⟨fun _ => 0, 0⟩, [], [], [], ⟨0, 0, 0, false, false, fun _ => 0⟩⟩
  | k + 1 => atTick (k + 1) ((masterRecord (discSession k)).st execInL (k + 5))

theorem session_disc : Session 3 discSession := by
  have hticks : ∀ k : Fin 3,
      (discSession (k + 1)).tick = ((masterRecord (discSession k)).tick + 1) % 65536 := by
    decide +kernel
  refine ⟨by decide, fun k hk => ⟨hticks ⟨k, hk⟩, fun a ha => ?_⟩⟩
  simp only [LogCell, recCap] at ha
  rw [discSession, atTick, Cpu.rd_st, if_neg (by simp only [tickLo]; omega), Cpu.rd_st,
    if_neg (by simp only [execInL]; omega)]

theorem disc_fits : 0x7000 + 4 * recCap ≤ 65536 := by decide

/-- The recording of three ticks of it. -/
def discRows : Recording := mkReplay (fun a => some ((discSession 3).rd a)) 0x7000 disc_fits

/-- A press of the session is polled again at the second of two captures, with a delay of 1. -/
theorem session_replayed_disc : polled (masterReplay discRows (captures discRows 1)) = [5, 0, 0, 0] := by
  have hmem : Dumped (fun a => some ((discSession 3).rd a)) (discSession 3) := ⟨rfl, rfl, fun _ _ => rfl⟩
  have hat : ∀ k < 2, (captures discRows k).tick = k ∧ (captures discRows k).rd delayEn = 1 :=
    fun k hk => tick_captures _ (by omega)
  have hsame := session_replayed session_disc (by decide) hmem (by decide)
    (run_captures discRows (show 2 < 256 by decide)) (hat 0 (by decide)).1
    (by rw [(hat 0 (by decide)).2]; decide) (show 1 < 2 by decide) (hat 0 (by decide)).2.le
  refine hsame.trans ?_
  decide +kernel

end IntvNetplay.Console
