import IntvNetplay.Console.Image
import IntvNetplay.Machine.Chain

/-!
# The checksum at the registers (`LS_CKSUM`, and `TRACE_TICK` of `src/debug.asm`)

`LS_CKSUM` mixes two loops with cells that are coded one by one; `TRACE_TICK` walks a table of address
ranges.  Both are modelled with their pointers and their signed end tests, and with the list of the
cells they visit.  Both visit `cksumCells` in order (`sum_lkRun`, `sum_traceSum`).
-/

namespace IntvNetplay.Console

open IntvNetplay.Machine

/-! ### The two routines -/

/-- `R0`, the cells added to it so far, and the pointer `R4`. -/
structure Sum where
  acc : ℕ
  visited : List ℕ
  ptr : ℕ
  deriving DecidableEq

def Sum.zero : Sum := ⟨0, [], 0⟩

/-- `SLLC`, `ADCR` and the `ADD` of a cell. -/
def Sum.add (s : Cpu) (a : ℕ) (x : Sum) : Sum := ⟨addCell x.acc (s.rd a), x.visited ++ [a], x.ptr⟩

/-- `ADD@ R4` after the rotation. -/
def Sum.next (s : Cpu) (x : Sum) : Sum :=
  let y := x.add s x.ptr
  { y with ptr := (x.ptr + 1) % 65536 }

/-- `MVII #a, R4`. -/
def Sum.at (x : Sum) (a : ℕ) : Sum := { x with ptr := a }

/-- A loop that adds cells and tests the pointer at its end: `CMP`, `BLT`. -/
def cellLoop (s : Cpu) (last : ℕ) : ℕ → Sum → Sum
  | 0, x => x
  | n + 1, x =>
    let x := x.next s
    if slt x.ptr last then cellLoop s last n x else x

/-- `LS_CKSUM` up to its return. -/
def lkRun (s : Cpu) : Sum :=
  let x := cellLoop s 0x01F0 65536 (Sum.zero.at 0x015D)
  let x := (x.add s rngLo).add s rngHi
  let x := (x.add s rsSpare0).add s rsSpare1
  let x := cellLoop s (rsSpare4 + 1) 65536 (x.at scCnt2)
  x.add s rsSpare5

/-- `TRACE_RANGES`. -/
def traceRanges : List ℕ :=
  [0x015D, 0x01F0, rngLo, rngHi + 1, rsSpare0, rsSpare0 + 1, rsSpare1, rsSpare1 + 1,
    scCnt2, rsSpare4 + 1, rsSpare5, rsSpare5 + 1, 0, 0]

/-- `TRACE_TICK` at `@@range`, with the part of the table that is left. -/
def rangeLoop (s : Cpu) : List ℕ → Sum → Sum
  | first :: last :: rest, x =>
    if first = 0 then x else rangeLoop s rest (cellLoop s last 65536 (x.at first))
  | _, x => x

/-- `TRACE_TICK` up to `@@store`. -/
def traceSum (s : Cpu) : Sum := rangeLoop s traceRanges .zero

abbrev firstcLo : ℕ := 0x8110
abbrev firstcHi : ℕ := 0x8111
abbrev rngpLo : ℕ := 0x8112
abbrev rngpHi : ℕ := 0x8113
abbrev traceRing : ℕ := 0x9000

/-- `TRACE_TICK` at `@@rng_chg`. -/
def rngChanged (s : Cpu) : Cpu :=
  let s := (s.st rngpLo (s.rd rngLo)).st rngpHi (s.rd rngHi)
  if s.rd firstcLo ≠ 0 ∨ s.rd firstcHi ≠ 0 then s
  else (s.st firstcLo (s.rd tickLo + 1)).st firstcHi (s.rd tickHi)

/-- `TRACE_TICK` from `@@store` to `@@rng_same`. -/
def noteRng (s : Cpu) : Cpu :=
  if s.rd rngLo = s.rd rngpLo ∧ s.rd rngHi = s.rd rngpHi then s else rngChanged s

/-- The ring cell of a tick. -/
def traceCell (lo : ℕ) : ℕ := traceRing + 2 * lo

/-- `TRACE_TICK` at `@@rng_same`: the checksum, low byte first. -/
def storeTrace (c : ℕ) (s : Cpu) : Cpu :=
  (s.st (traceCell (s.rd tickLo)) c).st (traceCell (s.rd tickLo) + 1) (swap c)

/-- `TRACE_TICK` up to `@@chk`: the tick counter goes up. -/
def traceTickUp (s : Cpu) : Cpu :=
  let lo := s.rd tickLo + 1
  let s := s.st tickLo lo
  if lo ≠ 0x100 then s else s.st tickHi (s.rd tickHi + 1)

/-- `TRACE_TICK`, and whether the CPU parks at `TRACE_DONE`. -/
def traceTick (traceStop : ℕ) (s : Cpu) : Cpu × Bool :=
  let s := traceTickUp (storeTrace (traceSum s).acc (noteRng s))
  (s, s.tick == traceStop)

/-! ### What a loop visits -/

section loops

variable {s : Cpu}

/-- A loop from `x.ptr` to `last` visits every cell in between once, in order. -/
theorem cellLoop_eq {last : ℕ} (n : ℕ) {k : ℕ} (hk : k < n) {x : Sum} (hlast : last = x.ptr + k + 1)
    (hhalf : last < 32768 ∨ 32768 ≤ x.ptr ∧ last < 65536) :
    cellLoop s last n x = ⟨((List.range' x.ptr (k + 1)).map s.rd).foldl addCell x.acc,
      x.visited ++ List.range' x.ptr (k + 1), last⟩ := by
  induction n generalizing k x with
  | zero => omega
  | succ n ih =>
    have hptr : (x.next s).ptr = x.ptr + 1 := Nat.mod_eq_of_lt (by omega)
    have hlt : slt (x.next s).ptr last = true ↔ x.ptr + 1 < last := by
      rw [hptr, slt, decide_eq_true_eq]
      omega
    rw [cellLoop]
    cases k with
    | zero =>
      rw [if_neg (by rw [hlt]; omega), Sum.next, hlast, Nat.mod_eq_of_lt (by omega)]
      rfl
    | succ k =>
      have hrest := ih (k := k) (by omega) (x := x.next s) (by rw [hptr]; omega) (by rw [hptr]; omega)
      rw [hptr] at hrest
      have hcells : List.range' x.ptr (k + 1 + 1) = x.ptr :: List.range' (x.ptr + 1) (k + 1) :=
        List.range'_succ
      rw [if_pos (hlt.2 (by omega)), hrest, hcells]
      simp only [Sum.next, Sum.add, List.map_cons, List.foldl_cons, List.append_assoc,
        List.cons_append, List.nil_append]

end loops

/-- `LS_CKSUM` adds the cells of `cksumCells` in order. -/
theorem sum_lkRun (s : Cpu) :
    (lkRun s).visited = cksumCells ∧ (lkRun s).acc = (cksumCells.map s.rd).foldl addCell 0 := by
  have h1 : cellLoop s 0x01F0 65536 (Sum.zero.at 0x015D) =
      ⟨((List.range' 0x015D (146 + 1)).map s.rd).foldl addCell 0, [] ++ List.range' 0x015D (146 + 1),
        0x01F0⟩ :=
    cellLoop_eq 65536 (k := 146) (by decide) rfl (.inl (by decide))
  have h2 : ∀ x : Sum, cellLoop s (rsSpare4 + 1) 65536 (x.at scCnt2) =
      ⟨((List.range' scCnt2 (5 + 1)).map s.rd).foldl addCell x.acc,
        x.visited ++ List.range' scCnt2 (5 + 1), rsSpare4 + 1⟩ := fun x =>
    cellLoop_eq 65536 (k := 5) (by decide) rfl
      (.inr ⟨show 32768 ≤ scCnt2 from by decide, show rsSpare4 + 1 < 65536 from by decide⟩)
  simp only [lkRun, h1, h2, Sum.add, cksumCells]
  constructor
  · simp only [List.nil_append, List.append_assoc, List.cons_append]
  · simp only [List.map_append, List.foldl_append]
    rfl

theorem sum_traceSum (s : Cpu) :
    (traceSum s).visited = cksumCells ∧ (traceSum s).acc = (cksumCells.map s.rd).foldl addCell 0 := by
  have hloop : ∀ (first k : ℕ) (x : Sum), k < 65536 →
      (first + k + 1 < 32768 ∨ 32768 ≤ first ∧ first + k + 1 < 65536) →
      cellLoop s (first + k + 1) 65536 (x.at first) =
        ⟨((List.range' first (k + 1)).map s.rd).foldl addCell x.acc,
          x.visited ++ List.range' first (k + 1), first + k + 1⟩ := fun first k x hk hhalf =>
    cellLoop_eq 65536 hk rfl hhalf
  have h1 := fun x => hloop 0x015D 146 x (by decide) (.inl (by decide))
  have h2 := fun x => hloop rngLo 1 x (by decide) (.inr ⟨by decide, by decide⟩)
  have h3 := fun x => hloop rsSpare0 0 x (by decide) (.inr ⟨by decide, by decide⟩)
  have h4 := fun x => hloop rsSpare1 0 x (by decide) (.inr ⟨by decide, by decide⟩)
  have h5 := fun x => hloop scCnt2 5 x (by decide) (.inr ⟨by decide, by decide⟩)
  have h6 := fun x => hloop rsSpare5 0 x (by decide) (.inr ⟨by decide, by decide⟩)
  rw [traceSum, traceRanges, rangeLoop, if_neg (by decide), h1, rangeLoop, if_neg (by decide), h2,
    rangeLoop, if_neg (by decide), h3, rangeLoop, if_neg (by decide), h4, rangeLoop,
    if_neg (by decide), h5, rangeLoop, if_neg (by decide), h6, rangeLoop, if_pos rfl]
  have hrng : List.range' rngLo (1 + 1) = [rngLo, rngHi] := rfl
  have hone : ∀ a, List.range' a (0 + 1) = [a] := fun _ => rfl
  rw [hrng, hone, hone, hone, Sum.zero]
  constructor
  · simp only [cksumCells, List.nil_append, List.append_assoc, List.cons_append]
  · simp only [cksumCells, List.map_append, List.foldl_append, List.map_cons, List.map_nil,
      List.foldl_cons, List.foldl_nil]

/-- The checksum of the model is the one at the registers. -/
theorem lsCksum_eq (s : Cpu) : lsCksum s = (lkRun s).acc := by
  rw [(sum_lkRun s).2, lsCksum]
  have hfold : ∀ (l : List ℕ) (a : ℕ), a < 65536 → l.foldl rotAdd a = l.foldl addCell a := by
    intro l
    induction l with
    | nil => exact fun a _ => rfl
    | cons v l ih =>
      intro a ha
      have hstep : rotAdd a v = addCell a v := by rw [rotAdd, addCell, rotate_eq ha]
      rw [List.foldl_cons, List.foldl_cons, hstep]
      exact ih _ (addCell_lt a v)
  exact hfold _ 0 (by decide)

/-! ### One cell -/

/-- The accumulator after the first `k` cells. -/
def lkAcc (s : Cpu) (k : ℕ) : ℕ := ((cksumCells.take k).map s.rd).foldl addCell 0

theorem nodup_cksumCells : cksumCells.Nodup := by
  have hpage : (List.range' gameScratch 147).Nodup := List.nodup_range'
  have hcart : ([rngLo, rngHi, rsSpare0, rsSpare1] ++ (List.range' scCnt2 6 ++ [rsSpare5])).Nodup := by
    decide
  rw [cksumCells, List.append_assoc, List.append_assoc, List.nodup_append]
  refine ⟨hpage, hcart, fun a ha b hb hab => ?_⟩
  have hlow : a < 0x01F0 := (List.mem_range'_1.1 ha).2
  have hhigh : ∀ c ∈ [rngLo, rngHi, rsSpare0, rsSpare1] ++ (List.range' scCnt2 6 ++ [rsSpare5]),
      0x01F0 ≤ c := by decide
  exact absurd (hhigh b hb) (by omega)

theorem rd_cell_lt (s : Cpu) (l : List ℕ) : ∀ v ∈ l.map s.rd, v ∈ Set.Iio 65536 := by
  intro v hv
  obtain ⟨a, -, rfl⟩ := List.mem_map.1 hv
  rw [Set.mem_Iio]
  have hlt := s.mem.lt a
  have hbits : cellBits a ≤ 16 := by
    unfold cellBits
    split <;> decide
  exact Nat.lt_of_lt_of_le hlt (Nat.pow_le_pow_right (by decide) hbits)

theorem lkRun_split (s : Cpu) (k : ℕ) :
    (lkRun s).acc = ((cksumCells.drop k).map s.rd).foldl addCell (lkAcc s k) := by
  rw [(sum_lkRun s).2, lkAcc, ← List.foldl_append, ← List.map_append, List.take_append_drop]

/-- **A checksum tells any two memories apart that differ in one of its cells**; every cell is added by a
bijection of the accumulator, so that equal sums over equal last cells come from equal accumulators. -/
theorem cksum_of_one_cell (s t : Cpu) :
    (∀ a ∈ cksumCells, s.rd a ≠ t.rd a → (∀ b ∈ cksumCells, b ≠ a → s.rd b = t.rd b) →
      (lkRun s).acc ≠ (lkRun t).acc) ∧
    (∀ a, Set.BijOn (fun acc => addCell acc (s.rd a)) (Set.Iio 65536) (Set.Iio 65536)) ∧
    ∀ k, (∀ a ∈ cksumCells.drop k, s.rd a = t.rd a) → (lkRun s).acc = (lkRun t).acc →
      lkAcc s k = lkAcc t k := by
  have hcell : ∀ (u : Cpu) a, u.rd a ∈ Set.Iio 65536 := fun u a =>
    rd_cell_lt u [a] _ (List.mem_map_of_mem List.mem_cons_self)
  refine ⟨fun a ha hne hsame => ?_, fun a => steps_addCell.bij _ (hcell s a), fun k hlast hsum => ?_⟩
  · rw [(sum_lkRun s).2, (sum_lkRun t).2]
    exact steps_addCell.foldl_ne nodup_cksumCells (fun x _ => hcell s x) (fun x _ => hcell t x) ha hne
      hsame (Set.mem_Iio.2 (by decide))
  · have hacc : ∀ u : Cpu, lkAcc u k ∈ Set.Iio 65536 := fun u =>
      (steps_addCell.bijOn_foldl (rd_cell_lt u _)).mapsTo (Set.mem_Iio.2 (by decide))
    rw [lkRun_split s k, lkRun_split t k, List.map_congr_left hlast] at hsum
    exact (steps_addCell.bijOn_foldl (rd_cell_lt t _)).injOn (hacc s) (hacc t) hsum

/-- A memory of zeros and one with a 5 in the scratch RAM. -/
theorem cksum_of_one_cell_scratch :
    let s : Cpu := ⟨⟨fun _ => 0, zero_lt_cell⟩, ⟨fun _ => 0, 0⟩, [], [], [],
      ⟨0, 0, 0, false, false, fun _ => 0⟩⟩
    (lkRun s).acc ≠ (lkRun (s.st 0x0160 5)).acc := by
  intro s
  have hmem : 0x0160 ∈ cksumCells := by decide
  refine (cksum_of_one_cell s (s.st 0x0160 5)).1 0x0160 hmem ?_ fun b _ hb => ?_
  · rw [Cpu.rd_st, if_pos rfl]
    decide
  · rw [Cpu.rd_st, if_neg hb]

/-! ### The two checksums -/

section trace

variable {s : Cpu}

theorem rd_noteRng {x : ℕ} (hx : x < firstcLo ∨ rngpHi < x) : (noteRng s).rd x = s.rd x := by
  have hne : x ≠ rngpLo ∧ x ≠ rngpHi ∧ x ≠ firstcLo ∧ x ≠ firstcHi := by
    simp only [firstcLo, firstcHi, rngpLo, rngpHi] at *
    omega
  have hpair : ∀ {t : Cpu} {a b v w : ℕ}, x ≠ a → x ≠ b → ((t.st a v).st b w).rd x = t.rd x := by
    intro t a b v w ha hb
    rw [Cpu.rd_st, if_neg hb, Cpu.rd_st, if_neg ha]
  unfold noteRng rngChanged
  dsimp only
  split_ifs
  · rfl
  · exact hpair hne.1 hne.2.1
  · rw [hpair hne.2.2.1 hne.2.2.2, hpair hne.1 hne.2.1]

theorem rd_traceTickUp {x : ℕ} (h : x ≠ tickLo) (h' : x ≠ tickHi) : (traceTickUp s).rd x = s.rd x := by
  simp only [traceTickUp]
  split_ifs
  · rw [Cpu.rd_st, if_neg h]
  · rw [Cpu.rd_st, if_neg h', Cpu.rd_st, if_neg h]

/-- What the trace ring holds of a checksum. -/
theorem rd16_storeTrace {c : ℕ} (hc : c < 65536) :
    (storeTrace c s).rd16 (traceCell (s.rd tickLo)) (traceCell (s.rd tickLo) + 1) = c := by
  have hlo : s.rd tickLo < 256 := s.rd_lt_256 (by decide)
  have hcell : ∀ a, traceCell (s.rd tickLo) ≤ a → a ≤ traceCell (s.rd tickLo) + 1 → cellBits a = 8 := by
    intro a h1 h2
    simp only [traceCell, traceRing] at h1 h2
    exact cellBits_cart (by omega) (by omega)
  have hne : traceCell (s.rd tickLo) ≠ traceCell (s.rd tickLo) + 1 := Nat.ne_of_lt (Nat.lt_succ_self _)
  rw [Cpu.rd16, storeTrace, Cpu.rd_st, if_neg hne, Cpu.rd_st, if_pos rfl, Cpu.rd_st, if_pos rfl,
    hcell _ (le_refl _) (Nat.le_succ _), hcell _ (Nat.le_succ _) (le_refl _),
    show 2 ^ 8 = 256 from rfl, swap_mod_256 hc]
  exact word_mod_div c

end trace

/-- **`LS_CKSUM` and `TRACE_TICK` compute one function**: they visit the same cells, each once and in the
same order, and what `TRACE_TICK` leaves in the ring is what `LS_CKSUM` returns. -/
theorem trace_eq_cksum (traceStop : ℕ) (s : Cpu) :
    (lkRun s).visited = cksumCells ∧ (traceSum s).visited = cksumCells ∧ cksumCells.Nodup ∧
    (traceSum s).acc = (lkRun s).acc ∧
    (traceTick traceStop s).1.rd16 (traceCell (s.rd tickLo)) (traceCell (s.rd tickLo) + 1) =
      (lkRun s).acc := by
  have hacc : (traceSum s).acc = (lkRun s).acc := by rw [(sum_traceSum s).2, (sum_lkRun s).2]
  refine ⟨(sum_lkRun s).1, (sum_traceSum s).1, nodup_cksumCells, hacc, ?_⟩
  have hlt : (traceSum s).acc < 65536 := by
    rw [(sum_traceSum s).2]
    exact (steps_addCell.bijOn_foldl (rd_cell_lt s _)).mapsTo (Set.mem_Iio.2 (by decide))
  have htick : (noteRng s).rd tickLo = s.rd tickLo := rd_noteRng (.inl (by decide))
  have hstored := rd16_storeTrace (s := noteRng s) hlt
  have hup : ∀ a, traceCell (s.rd tickLo) ≤ a →
      (traceTickUp (storeTrace (traceSum s).acc (noteRng s))).rd a =
        (storeTrace (traceSum s).acc (noteRng s)).rd a := by
    intro a ha
    simp only [traceCell, traceRing] at ha
    exact rd_traceTickUp (by simp only [tickLo]; omega) (by simp only [tickHi]; omega)
  rw [htick] at hstored
  rw [traceTick, Cpu.rd16, hup _ (le_refl _), hup _ (Nat.le_succ _), ← hacc]
  exact hstored

end IntvNetplay.Console
