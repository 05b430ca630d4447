import IntvNetplay.Console.Receive

/-!
# A chunk, byte by byte

`RS_ON_STATE` keeps the position of the next byte in two cells, and its bounds test compares signed words.
Here both are as the source has them, with a record of the `IMG_PUT` calls.  A chunk is applied whole or
not at all (`state_applied`), and the model of the protocol does the same with it (`rd_onData`).
-/

namespace IntvNetplay.Console

open IntvNetplay.Machine

/-- A call of `IMG_PUT`. -/
structure Put where
  pos : ℕ
  value : ℕ
  deriving DecidableEq

/-- `RS_ON_STATE` at `@@rs_dl`: the byte at the pointer `R3`. -/
def nextPut (ptr : ℕ) (s : Cpu) : Put := ⟨(swap (s.rd rsPosHi) + s.rd rsPosLo) % 65536, s.rd ptr⟩

/-- The position goes up, with a carry from one cell to the other. -/
def posUp (s : Cpu) : Cpu :=
  let lo := s.rd rsPosLo + 1
  let s := s.st rsPosLo lo
  if lo ≠ 0x100 then s else s.st rsPosHi (s.rd rsPosHi + 1)

/-- One round of `@@rs_dl`. -/
def dlRound (ptr : ℕ) (s : Cpu) : Cpu :=
  let s := posUp (imgPut (nextPut ptr s).value (nextPut ptr s).pos s)
  s.st rsTmp2 ((s.rd rsTmp2 + 65535) % 65536)

/-- `@@rs_dl`, in at most the given number of rounds: the calls of `IMG_PUT`, and the state. -/
def dlLoop : ℕ → ℕ → Cpu → List Put × Cpu
  | 0, _, s => ([], s)
  | n + 1, ptr, s =>
    let t := dlRound ptr s
    if t.rd rsTmp2 = 0 then ([nextPut ptr s], t)
    else (nextPut ptr s :: (dlLoop n (ptr + 1) t).1, (dlLoop n (ptr + 1) t).2)

/-- `RS_ON_STATE` from the bounds test on: `R0` is the count. -/
def onBounds (n : ℕ) (s : Cpu) : List Put × Cpu :=
  let hi := s.rd (frmbuf + 3)
  if slt hi 4 = false then ([], rsBad s)
  else
    let last := ((swap hi + s.rd (frmbuf + 2)) % 65536 + n) % 65536
    if slt last (imgTotal + 1) = false then ([], rsBad s)
    else
      let s := s.st rsPosLo (s.rd (frmbuf + 2))
      dlLoop 256 (frmbuf + 4) (s.st rsPosHi (s.rd (frmbuf + 3)))

/-- `RS_ON_STATE` for a data frame of at least three bytes. -/
def onData (s : Cpu) : List Put × Cpu :=
  if s.rd resyncHold = 0 then ([], rsBad s)
  else
    let n := sub16 (s.rd frmbuf) 3
    if slt 0 n = false then ([], rsBad s) else onBounds n (s.st rsTmp2 n)

/-- `RS_ON_STATE`: the calls of `IMG_PUT`, and the state. -/
def onState (s : Cpu) : List Put × Cpu :=
  if slt (s.rd frmbuf) 3 = true then ([], rsBad s)
  else if s.rd (frmbuf + 3) = 0xFF then ([], rsOnControl s)
  else onData s

/-! ### The loop -/

section loops

variable {s : Cpu}

theorem rd_frmbuf_apply {a : ℕ} (h1 : frmbuf ≤ a) (h2 : a < frmbuf + 256) : ¬ ApplyCell a := by
  have ht : ∀ b ∈ rsTailtbl, b < frmbuf := by decide
  rintro ((h | h | h | h) | h)
  · simp only [gameScratch, frmbuf] at *
    omega
  · simp only [backtab, frmbuf] at *
    omega
  · simp only [objectTable, frmbuf] at *
    omega
  · exact absurd (ht a h) (Nat.not_lt.2 h1)
  · simp only [rsTmp, rsTmp2, rsPosLo, rsPosHi, frmbuf] at *
    omega

theorem local_posUp (s : Cpu) : Local ApplyCell s (posUp s) :=
  Local.ite (fun _ => (Local.refl s).st (by decide)) fun _ => ((Local.refl s).st (by decide)).st (by decide)

theorem local_dlRound {ptr : ℕ} (hp : (nextPut ptr s).pos < imgTotal) :
    Local ApplyCell s (dlRound ptr s) := by
  have hput : Local ApplyCell s (imgPut (nextPut ptr s).value (nextPut ptr s).pos s) :=
    (local_imgPut hp).mono fun _ h => h.elim Or.inl fun h => Or.inr (Or.inl h)
  exact (hput.trans (local_posUp _)).st (by decide)

/-- The position in the cells. -/
def posOf (s : Cpu) : ℕ := s.rd16 rsPosLo rsPosHi

theorem swap_byte {x : ℕ} (hx : x < 256) : swap x = x * 256 := by
  unfold swap
  omega

theorem nextPut_pos (ptr : ℕ) (s : Cpu) : (nextPut ptr s).pos = posOf s := by
  have hlo : s.rd rsPosLo < 256 := s.rd_lt_256 (by decide)
  have hhi : s.rd rsPosHi < 256 := s.rd_lt_256 (by decide)
  simp only [nextPut, posOf, Cpu.rd16, word]
  rw [swap_byte hhi]
  omega

theorem posOf_posUp (h : posOf s < imgTotal) : posOf (posUp s) = posOf s + 1 := by
  have hlo : s.rd rsPosLo < 256 := s.rd_lt_256 (by decide)
  have hb : ∀ a, a = rsPosLo ∨ a = rsPosHi → cellBits a = 8 := by
    rintro a (rfl | rfl) <;> rfl
  have hne : rsPosHi ≠ rsPosLo := by decide
  simp only [posOf, Cpu.rd16, word, imgTotal] at h
  simp only [posOf, posUp, Cpu.rd16]
  split_ifs with hc
  · rw [Cpu.rd_st, if_pos rfl, Cpu.rd_st, if_neg hne, hb _ (.inl rfl), word, word]
    omega
  · rw [Cpu.rd_st, if_neg hne.symm, Cpu.rd_st, if_pos rfl, Cpu.rd_st, if_pos rfl, Cpu.rd_st,
      if_neg hne, hb _ (.inl rfl), hb _ (.inr rfl), word, word]
    omega

theorem rd_control_imgPut {v pos a : ℕ} (hp : pos < imgTotal)
    (ha : a = rsPosLo ∨ a = rsPosHi ∨ a = rsTmp2) : (imgPut v pos s).rd a = s.rd a := by
  refine (local_imgPut hp).rd a ?_
  rcases ha with rfl | rfl | rfl <;> decide

theorem rd_tmp2_posUp : (posUp s).rd rsTmp2 = s.rd rsTmp2 := by
  simp only [posUp]
  split_ifs
  · rw [Cpu.rd_st, if_neg (by decide)]
  · rw [Cpu.rd_st, if_neg (by decide), Cpu.rd_st, if_neg (by decide)]

theorem rd_tmp2_dlRound {ptr : ℕ} (hp : posOf s < imgTotal) (hn : 0 < s.rd rsTmp2) :
    (dlRound ptr s).rd rsTmp2 + 1 = s.rd rsTmp2 := by
  have hlt : s.rd rsTmp2 < 256 := s.rd_lt_256 (by decide)
  have hput : ∀ v, (posUp (imgPut v (posOf s) s)).rd rsTmp2 = s.rd rsTmp2 := fun v => by
    rw [rd_tmp2_posUp, rd_control_imgPut hp (.inr (.inr rfl))]
  rw [dlRound, nextPut_pos]
  rw [Cpu.rd_st, if_pos rfl, hput, show cellBits rsTmp2 = 8 from rfl]
  omega

theorem posOf_st {t : Cpu} {a v : ℕ} (h1 : a ≠ rsPosLo) (h2 : a ≠ rsPosHi) :
    posOf (t.st a v) = posOf t := by
  rw [posOf, Cpu.rd16, Cpu.rd_st, if_neg h1.symm, Cpu.rd_st, if_neg h2.symm]
  rfl

theorem posOf_dlRound {ptr : ℕ} (hp : posOf s < imgTotal) : posOf (dlRound ptr s) = posOf s + 1 := by
  have hput : ∀ v, posOf (imgPut v (posOf s) s) = posOf s := fun v => by
    rw [posOf, Cpu.rd16, rd_control_imgPut hp (.inl rfl), rd_control_imgPut hp (.inr (.inl rfl))]
    rfl
  rw [dlRound, nextPut_pos]
  rw [posOf_st (by decide) (by decide), posOf_posUp (by rw [hput]; exact hp), hput]

/-- A round puts one byte in its place. -/
theorem imgGet_dlRound {ptr : ℕ} (hp : posOf s < imgTotal) (hv : s.rd ptr < 256) {q : ℕ}
    (hq : q < imgTotal) :
    imgGet (dlRound ptr s) q = if q = posOf s then s.rd ptr else imgGet s q := by
  have hctl : ∀ t : Cpu, Local (fun a => a = rsPosLo ∨ a = rsPosHi ∨ a = rsTmp2) t
      ((posUp t).st rsTmp2 ((((posUp t).rd rsTmp2) + 65535) % 65536)) := by
    intro t
    refine Local.st ?_ (.inr (.inr rfl))
    exact Local.ite (fun _ => (Local.refl t).st (.inl rfl))
      fun _ => ((Local.refl t).st (.inl rfl)).st (.inr (.inl rfl))
  have himg : ∀ a, ImgCell a → ¬ (a = rsPosLo ∨ a = rsPosHi ∨ a = rsTmp2) := by
    have hnot : ∀ b ∈ [rsPosLo, rsPosHi, rsTmp2], ¬ ImgCell b := by decide
    rintro a ha (rfl | rfl | rfl)
    · exact hnot _ (by simp) ha
    · exact hnot _ (by simp) ha
    · exact hnot _ (by simp) ha
  rw [← imgGet_imgPut hv hp hq, dlRound, nextPut_pos]
  exact imgGet_congr (fun a ha => (hctl _).rd a (himg a ha)) hq

/-- What the loop makes of a chunk of `n + 1` bytes. -/
structure Applied (n ptr : ℕ) (s : Cpu) (r : List Put × Cpu) : Prop where
  puts : r.1 = (List.range (n + 1)).map fun i => ⟨posOf s + i, s.rd (ptr + i)⟩
  within : Local ApplyCell s r.2
  image : ∀ q < imgTotal, imgGet r.2 q =
    if posOf s ≤ q ∧ q < posOf s + (n + 1) then s.rd (ptr + (q - posOf s)) else imgGet s q

theorem applied_dlLoop (n : ℕ) {fuel ptr : ℕ} (hf : n < fuel) (hn : s.rd rsTmp2 = n + 1)
    (hp : posOf s + n < imgTotal) (h1 : frmbuf ≤ ptr) (h2 : ptr + n < frmbuf + 256) :
    Applied n ptr s (dlLoop fuel ptr s) := by
  induction n generalizing fuel ptr s with
  | zero =>
    obtain ⟨fuel, rfl⟩ : ∃ k, fuel = k + 1 := ⟨fuel - 1, by omega⟩
    have hp' : posOf s < imgTotal := by omega
    have hv : s.rd ptr < 256 := s.rd_lt_256 (.inr ⟨by simp only [frmbuf] at h1; omega, by
      simp only [frmbuf] at h2; omega⟩)
    have htmp : (dlRound ptr s).rd rsTmp2 + 1 = s.rd rsTmp2 := rd_tmp2_dlRound hp' (by omega)
    rw [dlLoop]
    rw [if_pos (by omega)]
    refine ⟨?_, local_dlRound (by rw [nextPut_pos]; exact hp'), fun q hq => ?_⟩
    · rw [List.range_one, List.map_cons, List.map_nil, ← nextPut_pos ptr s]
      rfl
    · rw [imgGet_dlRound hp' hv hq]
      by_cases h : q = posOf s
      · rw [if_pos h, if_pos (by omega), h, Nat.sub_self, Nat.add_zero]
      · rw [if_neg h, if_neg (by omega)]
  | succ n ih =>
    obtain ⟨fuel, rfl⟩ : ∃ k, fuel = k + 1 := ⟨fuel - 1, by omega⟩
    have hp' : posOf s < imgTotal := by omega
    have hv : s.rd ptr < 256 := s.rd_lt_256 (.inr ⟨by simp only [frmbuf] at h1; omega, by
      simp only [frmbuf] at h2; omega⟩)
    have htmp : (dlRound ptr s).rd rsTmp2 + 1 = s.rd rsTmp2 := rd_tmp2_dlRound hp' (by omega)
    have hpos : posOf (dlRound ptr s) = posOf s + 1 := posOf_dlRound hp'
    have hlocal : Local ApplyCell s (dlRound ptr s) := local_dlRound (by rw [nextPut_pos]; exact hp')
    have hrd : ∀ i ≤ n, (dlRound ptr s).rd (ptr + 1 + i) = s.rd (ptr + (i + 1)) := by
      intro i hi
      rw [Nat.add_assoc, Nat.add_comm 1 i]
      exact hlocal.rd _ (rd_frmbuf_apply (by omega) (by omega))
    have hrest : Applied n (ptr + 1) (dlRound ptr s) (dlLoop fuel (ptr + 1) (dlRound ptr s)) :=
      ih (by omega) (by omega) (by omega) (by omega) (by omega)
    obtain ⟨hputs, hwithin, himage⟩ := hrest
    rw [dlLoop]
    rw [if_neg (by omega)]
    refine ⟨?_, hlocal.trans hwithin, fun q hq => ?_⟩
    · change nextPut ptr s :: (dlLoop fuel (ptr + 1) (dlRound ptr s)).1 = _
      have hsplit : List.range (n + 1 + 1) = 0 :: (List.range (n + 1)).map Nat.succ :=
        List.range_succ_eq_map
      rw [hputs, hpos, hsplit, List.map_cons, List.map_map]
      have hhead : nextPut ptr s = ⟨posOf s + 0, s.rd (ptr + 0)⟩ := by
        rw [Nat.add_zero, ← nextPut_pos ptr s]
        rfl
      rw [hhead]
      refine congrArg (List.cons _) (List.map_congr_left fun i hi => ?_)
      rw [List.mem_range] at hi
      rw [Function.comp_apply, hrd i (by omega), Nat.add_assoc, Nat.add_comm 1 i]
    · dsimp only
      rw [himage q hq, hpos, imgGet_dlRound hp' hv hq]
      by_cases h : q = posOf s
      · rw [if_neg (by omega), if_pos h, if_pos (by omega), h, Nat.sub_self, Nat.add_zero]
      · rw [if_neg h]
        by_cases hin : posOf s + 1 ≤ q ∧ q < posOf s + 1 + (n + 1)
        · have hidx : q - (posOf s + 1) + 1 = q - posOf s := by omega
          rw [if_pos hin, if_pos (by omega), hrd _ (by omega), hidx]
        · rw [if_neg hin, if_neg (by omega)]

/-- A chunk that passes the checks: in a hold, not empty, and inside the image. -/
def Admitted (s : Cpu) : Prop :=
  s.rd resyncHold ≠ 0 ∧ 4 ≤ s.rd frmbuf ∧ s.rd (frmbuf + 3) < 4 ∧
    s.rd16 (frmbuf + 2) (frmbuf + 3) + (s.rd frmbuf - 3) ≤ imgTotal

instance (s : Cpu) : Decidable (Admitted s) := by unfold Admitted; infer_instance

/-- A refused chunk leaves everything but a counter and the scratch cell of the count. -/
structure Refused (s : Cpu) (r : List Put × Cpu) : Prop where
  puts : r.1 = []
  rd : ∀ a, a ≠ diagRej → a ≠ rsTmp2 → r.2.rd a = s.rd a
  counted : r.2.rd diagRej = min 0xFF (s.rd diagRej + 1)

theorem refused_rsBad {t : Cpu} (h : ∀ a, a ≠ rsTmp2 → t.rd a = s.rd a) : Refused s ([], rsBad t) := by
  have hrej : t.rd diagRej = s.rd diagRej := h _ (by decide)
  have hlt : s.rd diagRej < 256 := s.rd_lt_256 (by decide)
  refine ⟨rfl, fun a h1 h2 => ?_, ?_⟩
  · rw [rsBad, diagBump]
    split_ifs
    · exact h a h2
    · rw [Cpu.rd_st, if_neg h1]
      exact h a h2
  · rw [rsBad, diagBump]
    split_ifs with hc
    · rw [hrej] at hc ⊢
      rw [hc]
      rfl
    · rw [Cpu.rd_st, if_pos rfl, show cellBits diagRej = 8 from rfl, hrej]
      rw [hrej] at hc
      omega

/-- Below `$8000` the signed tests are those of the naturals. -/
theorem slt_false {x y : ℕ} (hx : x < 32768) (hy : y < 32768) : slt x y = false ↔ y ≤ x := by
  rw [← Bool.not_eq_true, slt_iff hx hy, Nat.not_lt]

/-- Where the bytes of an admitted chunk go. -/
structure Written (s : Cpu) (r : List Put × Cpu) : Prop where
  puts : r.1 = (List.range (s.rd frmbuf - 3)).map fun i =>
    ⟨s.rd16 (frmbuf + 2) (frmbuf + 3) + i, s.rd (frmbuf + 4 + i)⟩
  within : Local ApplyCell s r.2
  image : ∀ q < imgTotal, imgGet r.2 q =
    if s.rd16 (frmbuf + 2) (frmbuf + 3) ≤ q ∧
        q < s.rd16 (frmbuf + 2) (frmbuf + 3) + (s.rd frmbuf - 3) then
      s.rd (frmbuf + 4 + (q - s.rd16 (frmbuf + 2) (frmbuf + 3)))
    else imgGet s q

theorem onState_cases (hdata : s.rd (frmbuf + 3) ≠ 0xFF) :
    (Admitted s → Written s (onState s)) ∧ (¬ Admitted s → Refused s (onState s)) := by
  have hlen : s.rd frmbuf < 256 := s.rd_lt_256 (by decide)
  have hlo : s.rd (frmbuf + 2) < 256 := s.rd_lt_256 (by decide)
  have hhi : s.rd (frmbuf + 3) < 256 := s.rd_lt_256 (by decide)
  have hshort : slt (s.rd frmbuf) 3 = true ↔ s.rd frmbuf < 3 := slt_iff (by omega) (by decide)
  have hrefuse : ∀ {r : List Put × Cpu}, ¬ Admitted s → Refused s r →
      (Admitted s → Written s r) ∧ (¬ Admitted s → Refused s r) := fun hn hr =>
    ⟨fun h => absurd h hn, fun _ => hr⟩
  have htmp : ∀ v a, a ≠ rsTmp2 → (s.st rsTmp2 v).rd a = s.rd a := fun v a ha => by
    rw [Cpu.rd_st, if_neg ha]
  rw [onState]
  by_cases h1 : s.rd frmbuf < 3
  · rw [if_pos (hshort.2 h1)]
    exact hrefuse (fun h => by have := h.2.1; omega) (refused_rsBad fun _ _ => rfl)
  rw [if_neg (by rw [hshort]; exact h1), if_neg hdata, onData]
  by_cases h2 : s.rd resyncHold = 0
  · rw [if_pos h2]
    exact hrefuse (fun h => h.1 h2) (refused_rsBad fun _ _ => rfl)
  have hcount : sub16 (s.rd frmbuf) 3 = s.rd frmbuf - 3 := by
    unfold sub16
    omega
  rw [if_neg h2, hcount]
  dsimp only
  by_cases h3 : s.rd frmbuf < 4
  · rw [if_pos ((slt_false (by decide) (by omega)).2 (by omega))]
    exact hrefuse (fun h => by have := h.2.1; omega) (refused_rsBad fun _ _ => rfl)
  rw [if_neg (by rw [slt_false (by decide) (by omega)]; omega), onBounds]
  generalize hn : s.rd frmbuf - 3 = n
  rw [htmp n _ (by decide), htmp n _ (by decide), swap_byte hhi]
  dsimp only
  by_cases h4 : 4 ≤ s.rd (frmbuf + 3)
  · rw [if_pos ((slt_false (by omega) (by decide)).2 h4)]
    exact hrefuse (fun h => by have := h.2.2.1; omega) (refused_rsBad (htmp n))
  have hpos : s.rd16 (frmbuf + 2) (frmbuf + 3) = s.rd (frmbuf + 3) * 256 + s.rd (frmbuf + 2) := rfl
  have hlast : ((s.rd (frmbuf + 3) * 256 + s.rd (frmbuf + 2)) % 65536 + n) % 65536 =
      s.rd16 (frmbuf + 2) (frmbuf + 3) + n := by
    rw [hpos]
    omega
  rw [if_neg (by rw [slt_false (by omega) (by decide)]; exact h4), hlast]
  by_cases h5 : imgTotal + 1 ≤ s.rd16 (frmbuf + 2) (frmbuf + 3) + n
  · rw [if_pos ((slt_false (by omega) (by decide)).2 h5)]
    refine hrefuse (fun h => ?_) (refused_rsBad (htmp n))
    have := h.2.2.2
    omega
  rw [if_neg (by rw [slt_false (by omega) (by decide)]; exact h5)]
  refine ⟨fun _ => ?_, fun hno => absurd ⟨h2, by omega, by omega, by omega⟩ hno⟩
  -- The loop starts with the position of the frame.
  generalize ht : ((s.st rsTmp2 n).st rsPosLo (s.rd (frmbuf + 2))).st rsPosHi
    (((s.st rsTmp2 n).st rsPosLo (s.rd (frmbuf + 2))).rd (frmbuf + 3)) = t
  have hhold : Local ApplyCell s t := by
    rw [← ht]
    exact (((Local.refl s).st (by decide)).st (by decide)).st (by decide)
  have hbits : ∀ a, a = rsPosLo ∨ a = rsPosHi ∨ a = rsTmp2 → cellBits a = 8 := by
    rintro a (rfl | rfl | rfl) <;> rfl
  have hposOf : posOf t = s.rd16 (frmbuf + 2) (frmbuf + 3) := by
    rw [← ht, posOf, Cpu.rd16, Cpu.rd_st, if_neg (by decide), Cpu.rd_st, if_pos rfl, Cpu.rd_st,
      if_pos rfl, hbits _ (.inl rfl), hbits _ (.inr (.inl rfl)), Cpu.rd_st, if_neg (by decide),
      Cpu.rd_st, if_neg (by decide), Cpu.rd16, show 2 ^ 8 = 256 from rfl, Nat.mod_eq_of_lt hlo,
      Nat.mod_eq_of_lt hhi]
  have htmp2 : t.rd rsTmp2 = n := by
    rw [← ht, Cpu.rd_st, if_neg (by decide), Cpu.rd_st, if_neg (by decide), Cpu.rd_st, if_pos rfl,
      hbits _ (.inr (.inr rfl))]
    exact Nat.mod_eq_of_lt (by omega)
  obtain ⟨m, rfl⟩ : ∃ m, n = m + 1 := ⟨n - 1, by omega⟩
  have happlied : Applied m (frmbuf + 4) t (dlLoop 256 (frmbuf + 4) t) :=
    applied_dlLoop m (by omega) htmp2 (by rw [hposOf]; omega) (by simp only [frmbuf]; omega) (by
      simp only [frmbuf]
      omega)
  obtain ⟨hputs, hwithin, himage⟩ := happlied
  have hcell : ∀ i ≤ m, t.rd (frmbuf + 4 + i) = s.rd (frmbuf + 4 + i) := fun i hi =>
    hhold.rd _ (rd_frmbuf_apply (by simp only [frmbuf]; omega) (by simp only [frmbuf]; omega))
  have himg : ∀ q < imgTotal, imgGet t q = imgGet s q := by
    have hnot : ∀ b ∈ [rsPosLo, rsPosHi, rsTmp2], ¬ ImgCell b := by decide
    intro q hq
    refine imgGet_congr (fun a ha => ?_) hq
    have hne : a ≠ rsPosLo ∧ a ≠ rsPosHi ∧ a ≠ rsTmp2 := by
      refine ⟨?_, ?_, ?_⟩
      all_goals
        rintro rfl
        exact hnot _ (by simp) ha
    rw [← ht, Cpu.rd_st, if_neg hne.2.1, Cpu.rd_st, if_neg hne.1, Cpu.rd_st, if_neg hne.2.2]
  refine ⟨?_, hhold.trans hwithin, fun q hq => ?_⟩
  · rw [hputs, hposOf, hn]
    refine List.map_congr_left fun i hi => ?_
    rw [List.mem_range] at hi
    rw [hcell i (by omega)]
  · rw [himage q hq, hposOf, hn]
    split_ifs with hin
    · exact hcell _ (by omega)
    · exact himg q hq

end loops

/-- **A STATE data frame is applied exactly or not at all**: an admitted chunk goes to its positions, byte
by byte and in order, and any other leaves every cell but the counter of refusals and the scratch cell of
the count.  Every call of `IMG_PUT` names a position of the image, and changes that byte alone. -/
theorem state_applied (s : Cpu) (hdata : s.rd (frmbuf + 3) ≠ 0xFF) :
    (Admitted s → Written s (onState s)) ∧ (¬ Admitted s → Refused s (onState s)) ∧
    (∀ p ∈ (onState s).1, p.pos ≤ 768) ∧
    ∀ (t : Cpu) (p : Put), p.pos ≤ 768 → p.value < 256 → ∀ q ≤ 768,
      imgGet (imgPut p.value p.pos t) q = if q = p.pos then p.value else imgGet t q := by
  obtain ⟨hyes, hno⟩ := onState_cases hdata
  refine ⟨hyes, hno, fun p hp => ?_, fun t p hp hv q hq => ?_⟩
  · by_cases hadm : Admitted s
    · rw [(hyes hadm).puts, List.mem_map] at hp
      obtain ⟨i, hi, rfl⟩ := hp
      rw [List.mem_range] at hi
      have hfit := hadm.2.2.2
      simp only [imgTotal] at hfit
      dsimp only
      omega
    · rw [(hno hadm).puts] at hp
      cases hp
  · exact imgGet_imgPut hv (Nat.lt_succ_of_le hp) (Nat.lt_succ_of_le hq)

/-- Two bytes for the last word of the scratch RAM and the first of the screen. -/
theorem state_applied_two :
    let z : Cpu := ⟨⟨fun _ => 0, zero_lt_cell⟩, ⟨fun _ => 0, 0⟩, [], [], [],
      ⟨0, 0, 0, false, false, fun _ => 0⟩⟩
    let s := (z.st resyncHold 1).stAll frmbuf [5, ftState, 146, 0, 7, 9]
    (onState s).1 = [⟨146, 7⟩, ⟨147, 9⟩] ∧ imgGet (onState s).2 147 = 9 := by
  intro z s
  have hadm : Admitted s := by decide
  have hwritten := (state_applied s (by decide)).1 hadm
  refine ⟨hwritten.puts.trans (by decide), (hwritten.image 147 (by decide)).trans (by decide)⟩

/-- What the protocol's model makes of the image. -/
theorem imgGet_onState {s : Cpu} (hdata : s.rd (frmbuf + 3) ≠ 0xFF) (hlen : s.rd frmbuf ≤ 99) {q : ℕ}
    (hq : q < imgTotal) : imgGet (rsOnState s) q = imgGet (onState s).2 q := by
  obtain ⟨hyes, hno⟩ := onState_cases hdata
  have hbad : ∀ {t u : Cpu}, (∀ a, a ≠ diagRej → a ≠ rsTmp2 → t.rd a = u.rd a) →
      imgGet t q = imgGet u q := fun h => imgGet_congr (fun a ha => by
    have hnot : ¬ ImgCell diagRej ∧ ¬ ImgCell rsTmp2 := by decide
    refine h a ?_ ?_
    · rintro rfl
      exact hnot.1 ha
    · rintro rfl
      exact hnot.2 ha) hq
  have hrefused : ∀ t : Cpu, (∀ a, a ≠ rsTmp2 → t.rd a = s.rd a) → imgGet (rsBad t) q = imgGet s q :=
    fun t h => hbad (refused_rsBad h).rd
  have hkept : ∀ n : ℕ, ∀ a, a ≠ rsTmp2 → (s.st rsTmp2 n).rd a = s.rd a := fun n a ha => by
    rw [Cpu.rd_st, if_neg ha]
  by_cases hadm : Admitted s
  · obtain ⟨h1, h2, h3, h4⟩ := hadm
    have hpos : ∀ (t : Cpu) (v w x : ℕ),
        imgGet (((t.st rsPosLo v).st rsPosHi w).st rsTmp2 x) q = imgGet t q := fun t v w x =>
      imgGet_congr (fun a ha => by
        have hnot : ∀ b ∈ [rsPosLo, rsPosHi, rsTmp2], ¬ ImgCell b := by decide
        rw [Cpu.rd_st, if_neg (fun he => hnot _ (by simp) (he ▸ ha)), Cpu.rd_st,
          if_neg (fun he => hnot _ (by simp) (he ▸ ha)), Cpu.rd_st,
          if_neg (fun he => hnot _ (by simp) (he ▸ ha))]) hq
    have happly : rsOnState s = rsApply (s.rd16 (frmbuf + 2) (frmbuf + 3)) (s.rd frmbuf - 3) s := by
      simp only [rsOnState, rsOnChunk]
      rw [if_neg (by omega), if_neg hdata, if_neg h1, if_neg (by omega), if_neg (by omega),
        if_neg (by omega)]
    rw [happly, (hyes ⟨h1, h2, h3, h4⟩).image q hq]
    simp only [rsApply]
    rw [hpos, imgGet_applyBytes h4 (by omega) hq]
    rfl
  · have hrun : imgGet (onState s).2 q = imgGet s q := hbad (hno hadm).rd
    rw [hrun]
    simp only [rsOnState, rsOnChunk]
    split_ifs with h1 h2 h3 h4 h5
    · exact hrefused s fun _ _ => rfl
    · exact hrefused s fun _ _ => rfl
    · exact hrefused s fun _ _ => rfl
    · exact hrefused _ (hkept _)
    · exact hrefused _ (hkept _)
    · exact absurd ⟨h2, by omega, by omega, by omega⟩ hadm

end IntvNetplay.Console
