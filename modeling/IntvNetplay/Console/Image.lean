import IntvNetplay.Console.Within

/-!
# The state image and the checksum

A resync carries 769 bytes: the game scratch cells, the two bytes of every BACKTAB and object-table
word, and the cells that `RS_TAILTBL` points to.  `LS_CKSUM` is a rotate-add sum over a part of the
same cells.
-/

namespace IntvNetplay.Console

open IntvNetplay.Machine

@[simp] abbrev imgS1 : ℕ := 147
@[simp] abbrev imgS2 : ℕ := 627
@[simp] abbrev imgS3 : ℕ := 755
@[simp] abbrev imgTotal : ℕ := 769
@[simp] abbrev rsChunk : ℕ := 96

/-- `RS_TAILTBL`. -/
def rsTailtbl : List ℕ :=
  [rngLo, rngHi, rsSpare0, rsSpare1, scCnt2, scCnt3, scCnt4, rsSpare2, rsSpare3, rsSpare4,
    rsSpare5, scPasslen, gameTblLo, gameTblHi]

/-- An entry of `RS_TAILTBL`. -/
def tailCell (i : ℕ) : ℕ := rsTailtbl.getD i 0

/-- Byte `i` of a run of words, low bytes first. -/
def wordByte (s : Cpu) (base i : ℕ) : ℕ :=
  if i % 2 = 0 then s.rd (base + i / 2) % 256 else s.rd (base + i / 2) / 256 % 256

/-- `IMG_GET`. -/
def imgGet (s : Cpu) (pos : ℕ) : ℕ :=
  if pos < imgS1 then s.rd (gameScratch + pos)
  else if pos < imgS2 then wordByte s backtab (pos - imgS1)
  else if pos < imgS3 then wordByte s objectTable (pos - imgS2)
  else s.rd (tailCell (pos - imgS3))

/-- The read-modify-write of one byte of a word. -/
def putWordByte (base i v : ℕ) (s : Cpu) : Cpu :=
  let a := base + i / 2
  if i % 2 = 0 then s.st a (s.rd a / 256 * 256 + v) else s.st a (s.rd a % 256 + v * 256)

/-- `IMG_PUT`. -/
def imgPut (v pos : ℕ) (s : Cpu) : Cpu :=
  let s := s.st rsTmp v
  if pos < imgS1 then s.st (gameScratch + pos) (s.rd rsTmp)
  else if pos < imgS2 then putWordByte backtab (pos - imgS1) (s.rd rsTmp) s
  else if pos < imgS3 then putWordByte objectTable (pos - imgS2) (s.rd rsTmp) s
  else s.st (tailCell (pos - imgS3)) (s.rd rsTmp)

/-- The bytes of the image from a position on. -/
def imgRange (s : Cpu) (pos n : ℕ) : List ℕ := (List.range' pos n).map (imgGet s)

/-- The whole image. -/
def image (s : Cpu) : List ℕ := imgRange s 0 imgTotal

/-- One step of the checksum: rotate left by one, add. -/
def rotAdd (acc v : ℕ) : ℕ := (acc * 2 % 65536 + acc / 32768 + v) % 65536

/-- The cells `LS_CKSUM` sums, in its order. -/
def cksumCells : List ℕ :=
  List.range' gameScratch 147 ++ [rngLo, rngHi, rsSpare0, rsSpare1] ++
    List.range' scCnt2 6 ++ [rsSpare5]

/-- `LS_CKSUM`. -/
def lsCksum (s : Cpu) : ℕ := (cksumCells.map s.rd).foldl rotAdd 0

/-! ### The cells of the image -/

/-- The cells an image position lies in. -/
def ImgCell (a : ℕ) : Prop :=
  gameScratch ≤ a ∧ a < 0x01F0 ∨ backtab ≤ a ∧ a < 0x02F0 ∨ objectTable ≤ a ∧ a < 0x035D ∨
    a ∈ rsTailtbl

instance : DecidablePred ImgCell := fun a => by unfold ImgCell; infer_instance

theorem tailCell_mem {i : ℕ} (hi : i < 14) : tailCell i ∈ rsTailtbl := by
  have : ∀ i < 14, tailCell i ∈ rsTailtbl := by decide
  exact this i hi

theorem tailCell_inj {i j : ℕ} (hi : i < 14) (hj : j < 14) (h : tailCell i = tailCell j) :
    i = j := by
  have : ∀ i < 14, ∀ j < 14, tailCell i = tailCell j → i = j := by decide
  exact this i hi j hj h

theorem mem_rsTailtbl_bounds {a : ℕ} (h : a ∈ rsTailtbl) :
    a = 0x0103 ∨ 0x80C0 ≤ a ∧ a < 0x8200 := by
  have : ∀ a ∈ rsTailtbl, a = 0x0103 ∨ 0x80C0 ≤ a ∧ a < 0x8200 := by decide
  exact this a h

theorem cellBits_tail {i : ℕ} (hi : i < 14) : cellBits (tailCell i) = 8 := by
  have h := mem_rsTailtbl_bounds (tailCell_mem hi)
  exact cellBits_byte (by omega)

theorem wordByte_lt (s : Cpu) (base i : ℕ) : wordByte s base i < 256 := by
  unfold wordByte
  split <;> exact Nat.mod_lt _ (by decide)

theorem imgGet_lt (s : Cpu) {pos : ℕ} (h : pos < imgTotal) : imgGet s pos < 256 := by
  simp only [imgTotal] at h
  unfold imgGet
  split_ifs with h1 h2 h3
  · simp only [imgS1] at h1
    exact s.rd_lt_256 (by simp only [gameScratch]; omega)
  · exact wordByte_lt _ _ _
  · exact wordByte_lt _ _ _
  · simp only [imgS3] at h3 ⊢
    have := s.rd_lt (tailCell (pos - 755))
    rwa [cellBits_tail (by omega)] at this

theorem wordByte_congr {s t : Cpu} {base i : ℕ} (h : t.rd (base + i / 2) = s.rd (base + i / 2)) :
    wordByte t base i = wordByte s base i := by
  unfold wordByte
  rw [h]

/-- Equal cells make equal image bytes. -/
theorem imgGet_congr {s t : Cpu} (h : ∀ a, ImgCell a → t.rd a = s.rd a) {pos : ℕ}
    (hp : pos < imgTotal) : imgGet t pos = imgGet s pos := by
  simp only [imgTotal] at hp
  unfold imgGet
  simp only [imgS1, imgS2, imgS3]
  split_ifs with h1 h2 h3
  · exact h _ (Or.inl ⟨by simp, by simp only [gameScratch]; omega⟩)
  · exact wordByte_congr (h _ (Or.inr (Or.inl ⟨by simp, by simp only [backtab]; omega⟩)))
  · exact wordByte_congr
      (h _ (Or.inr (Or.inr (Or.inl ⟨by simp, by simp only [objectTable]; omega⟩))))
  · exact h _ (Or.inr (Or.inr (Or.inr (tailCell_mem (by omega)))))

theorem imgRange_congr {s t : Cpu} (h : ∀ a, ImgCell a → t.rd a = s.rd a) {pos n : ℕ}
    (hp : pos + n ≤ imgTotal) : imgRange t pos n = imgRange s pos n := by
  refine List.map_congr_left fun i hi => imgGet_congr h ?_
  rw [List.mem_range'_1] at hi
  omega

@[simp] theorem length_imgRange (s : Cpu) (pos n : ℕ) : (imgRange s pos n).length = n := by
  rw [imgRange, List.length_map, List.length_range']

theorem getElem_imgRange (s : Cpu) (pos n i : ℕ) (h : i < (imgRange s pos n).length) :
    (imgRange s pos n)[i] = imgGet s (pos + i) := by
  simp [imgRange]

@[simp] theorem length_image (s : Cpu) : (image s).length = imgTotal := length_imgRange _ _ _

theorem image_eq_iff {s t : Cpu} :
    image t = image s ↔ ∀ pos < imgTotal, imgGet t pos = imgGet s pos := by
  constructor
  · intro h pos hp
    have hs := getElem_imgRange s 0 imgTotal pos (by simpa using hp)
    have ht := getElem_imgRange t 0 imgTotal pos (by simpa using hp)
    rw [Nat.zero_add] at hs ht
    rw [← hs, ← ht]
    exact List.getElem_of_eq h _
  · intro h
    refine List.map_congr_left fun i hi => h i ?_
    rw [List.mem_range'_1] at hi
    omega

theorem imgGet_scratch (s : Cpu) {i : ℕ} (hi : i < imgS1) :
    imgGet s i = s.rd (gameScratch + i) := if_pos hi

theorem imgGet_tail (s : Cpu) (i : ℕ) : imgGet s (imgS3 + i) = s.rd (tailCell i) := by
  simp only [imgGet, imgS1, imgS2, imgS3]
  rw [if_neg (by omega), if_neg (by omega), if_neg (by omega), Nat.add_sub_cancel_left]

theorem exists_tailCell {a : ℕ} (h : a ∈ rsTailtbl) : ∃ i < 14, a = tailCell i := by
  have : ∀ a ∈ rsTailtbl, ∃ i < 14, a = tailCell i := by decide
  exact this a h

/-- Every cell that is summed is a byte of the image. -/
theorem cksumCells_cover {a : ℕ} (h : a ∈ cksumCells) :
    gameScratch ≤ a ∧ a < gameScratch + imgS1 ∨ a ∈ rsTailtbl := by
  simp only [cksumCells, List.mem_append, List.mem_range'_1] at h
  rcases h with ((h | h) | h) | h
  · exact Or.inl h
  · have : ∀ a ∈ [rngLo, rngHi, rsSpare0, rsSpare1], a ∈ rsTailtbl := by decide
    exact Or.inr (this a h)
  · have : ∀ a ∈ List.range' scCnt2 6, a ∈ rsTailtbl := by decide
    exact Or.inr (this a (List.mem_range'_1.2 h))
  · have : ∀ a ∈ [rsSpare5], a ∈ rsTailtbl := by decide
    exact Or.inr (this a h)

/-- The checksum is a function of the image. -/
theorem lsCksum_congr {s t : Cpu} (h : image t = image s) : lsCksum t = lsCksum s := by
  rw [image_eq_iff] at h
  have hcell : ∀ a ∈ cksumCells, t.rd a = s.rd a := by
    intro a ha
    rcases cksumCells_cover ha with ⟨h1, h2⟩ | ht
    · obtain ⟨i, rfl⟩ := Nat.exists_eq_add_of_le h1
      have hi : i < imgS1 := Nat.lt_of_add_lt_add_left h2
      rw [← imgGet_scratch t hi, ← imgGet_scratch s hi]
      exact h i (Nat.lt_trans hi (by decide))
    · obtain ⟨i, hi, rfl⟩ := exists_tailCell ht
      rw [← imgGet_tail, ← imgGet_tail]
      exact h _ (by simp only [imgS3, imgTotal]; omega)
  rw [lsCksum, lsCksum, List.map_congr_left hcell]

/-! ### Writing an image byte -/

section put

variable {s : Cpu} {v pos : ℕ}

theorem local_putWordByte (base i : ℕ) (v : ℕ) (s : Cpu) :
    Local (fun a => a = base + i / 2) s (putWordByte base i v s) := by
  unfold putWordByte
  exact Local.ite (fun _ => (Local.refl s).st rfl) fun _ => (Local.refl s).st rfl

theorem local_imgPut (hp : pos < imgTotal) :
    Local (fun a => ImgCell a ∨ a = rsTmp) s (imgPut v pos s) := by
  simp only [imgTotal] at hp
  have htmp : Local (fun a => ImgCell a ∨ a = rsTmp) s (s.st rsTmp v) :=
    (Local.refl s).st (Or.inr rfl)
  simp only [imgPut, imgS1, imgS2, imgS3]
  split_ifs with h1 h2 h3
  · exact htmp.st (Or.inl (Or.inl ⟨by simp, by simp only [gameScratch]; omega⟩))
  · refine htmp.trans ((local_putWordByte _ _ _ _).mono ?_)
    rintro a rfl
    exact Or.inl (Or.inr (Or.inl ⟨by simp, by simp only [backtab]; omega⟩))
  · refine htmp.trans ((local_putWordByte _ _ _ _).mono ?_)
    rintro a rfl
    exact Or.inl (Or.inr (Or.inr (Or.inl ⟨by simp, by simp only [objectTable]; omega⟩)))
  · exact htmp.st (Or.inl (Or.inr (Or.inr (Or.inr (tailCell_mem (by omega))))))

theorem wordByte_putWordByte (base i j : ℕ) (s : Cpu) (hv : v < 256)
    (hb : cellBits (base + i / 2) = 16) :
    wordByte (putWordByte base i v s) base j = if j = i then v else wordByte s base j := by
  have hlt : s.rd (base + i / 2) < 65536 := s.rd_lt_65536 _
  by_cases hij : j / 2 = i / 2
  · have hcell : base + j / 2 = base + i / 2 := by rw [hij]
    unfold wordByte putWordByte
    simp only [hcell]
    split_ifs with hj hi he he hi he
    all_goals
      simp only [Cpu.rd_st, if_true, hb]
      omega
  · have hne : base + j / 2 ≠ base + i / 2 := by omega
    rw [if_neg (by rintro rfl; exact hij rfl)]
    exact wordByte_congr ((local_putWordByte _ _ _ _).rd _ hne)

/-- The cell an image position lies in. -/
def imgAddr (pos : ℕ) : ℕ :=
  if pos < imgS1 then gameScratch + pos
  else if pos < imgS2 then backtab + (pos - imgS1) / 2
  else if pos < imgS3 then objectTable + (pos - imgS2) / 2
  else tailCell (pos - imgS3)

theorem imgGet_congr_at {t : Cpu} (h : t.rd (imgAddr pos) = s.rd (imgAddr pos)) :
    imgGet t pos = imgGet s pos := by
  unfold imgAddr at h
  unfold imgGet
  split_ifs at h ⊢ with h1 h2 h3
  · exact h
  · exact wordByte_congr h
  · exact wordByte_congr h
  · exact h

/-- The section an image position lies in. -/
def imgSection (pos : ℕ) : ℕ :=
  if pos < imgS1 then 0 else if pos < imgS2 then 1 else if pos < imgS3 then 2 else 3

theorem imgAddr_section {q : ℕ} (hp : pos < imgTotal) (hq : q < imgTotal)
    (h : imgAddr q = imgAddr pos) : imgSection q = imgSection pos := by
  have hb : ∀ i < 14, tailCell i = 0x0103 ∨ 0x80C0 ≤ tailCell i ∧ tailCell i < 0x8200 :=
    fun i hi => mem_rsTailtbl_bounds (tailCell_mem hi)
  have hbp := hb (pos - 755)
  have hbq := hb (q - 755)
  simp only [imgAddr, imgSection, imgS1, imgS2, imgS3, imgTotal, gameScratch, backtab,
    objectTable] at *
  split_ifs at h ⊢ <;> first | rfl | omega

theorem imgAddr_ne_rsTmp (hp : pos < imgTotal) : imgAddr pos ≠ rsTmp := by
  have hb := fun hi => mem_rsTailtbl_bounds (tailCell_mem (i := pos - 755) hi)
  simp only [imgAddr, imgS1, imgS2, imgS3, imgTotal, gameScratch, backtab, objectTable,
    rsTmp] at *
  split_ifs <;> omega

/-- The store of `IMG_PUT` goes to the cell of its position. -/
theorem rd_imgPut_of_ne (v : ℕ) {x : ℕ} (h1 : x ≠ imgAddr pos) (h2 : x ≠ rsTmp) :
    (imgPut v pos s).rd x = s.rd x := by
  unfold imgAddr at h1
  unfold imgPut
  split_ifs at h1 ⊢
  · rw [Cpu.rd_st, if_neg h1, Cpu.rd_st, if_neg h2]
  · rw [(local_putWordByte _ _ _ _).rd _ h1, Cpu.rd_st, if_neg h2]
  · rw [(local_putWordByte _ _ _ _).rd _ h1, Cpu.rd_st, if_neg h2]
  · rw [Cpu.rd_st, if_neg h1, Cpu.rd_st, if_neg h2]

theorem wordByte_st_rsTmp {base i : ℕ} (h : base + i / 2 < 0x8000) :
    wordByte (s.st rsTmp v) base i = wordByte s base i :=
  wordByte_congr (by rw [Cpu.rd_st, if_neg (by simp only [rsTmp]; omega)])

/-- `wordByte_putWordByte` for two positions of one section that starts at `lo`. -/
theorem imgPut_section {base lo q : ℕ} (hv : v < 256) (hp : lo ≤ pos) (hq : lo ≤ q)
    (hb : cellBits (base + (pos - lo) / 2) = 16) (hlow : base + (q - lo) / 2 < 0x8000) :
    wordByte (putWordByte base (pos - lo) v (s.st rsTmp v)) base (q - lo) =
      if q = pos then v else wordByte s base (q - lo) := by
  rw [wordByte_putWordByte _ _ _ _ hv hb, wordByte_st_rsTmp hlow]
  by_cases h : q = pos
  · rw [if_pos (by rw [h]), if_pos h]
  · rw [if_neg (by omega), if_neg h]

/-- A byte written is read back, and every other position is unchanged. -/
theorem imgGet_imgPut (hv : v < 256) (hp : pos < imgTotal) {q : ℕ} (hq : q < imgTotal) :
    imgGet (imgPut v pos s) q = if q = pos then v else imgGet s q := by
  have htmp : (s.st rsTmp v).rd rsTmp = v := by simp [cellBits, Nat.mod_eq_of_lt hv]
  by_cases hs : imgSection q = imgSection pos
  · unfold imgSection at hs
    simp only [imgPut, htmp]
    unfold imgGet
    simp only [imgS1, imgS2, imgS3, imgTotal] at *
    by_cases h1 : pos < 147
    · have hq1 : q < 147 := by split_ifs at hs; omega
      have hw : cellBits (gameScratch + pos) = 8 :=
        cellBits_byte (by simp only [gameScratch]; omega)
      have hne : gameScratch + q ≠ rsTmp := by simp only [gameScratch, rsTmp]; omega
      rw [if_pos h1, if_pos hq1, if_pos hq1, Cpu.rd_st, Cpu.rd_st, if_neg hne, hw,
        Nat.mod_eq_of_lt (show v < 2 ^ 8 from hv)]
      simp only [Nat.add_left_cancel_iff]
    by_cases h2 : pos < 627
    · have hq2 : ¬ q < 147 ∧ q < 627 := by split_ifs at hs <;> omega
      rw [if_neg h1, if_pos h2, if_neg hq2.1, if_pos hq2.2, if_neg hq2.1, if_pos hq2.2]
      refine imgPut_section hv (by omega) (by omega) ?_ (by simp only [backtab]; omega)
      exact if_neg (by simp only [backtab]; omega)
    by_cases h3 : pos < 755
    · have hq3 : ¬ q < 147 ∧ ¬ q < 627 ∧ q < 755 := by split_ifs at hs <;> omega
      rw [if_neg h1, if_neg h2, if_pos h3, if_neg hq3.1, if_neg hq3.2.1, if_pos hq3.2.2,
        if_neg hq3.1, if_neg hq3.2.1, if_pos hq3.2.2]
      refine imgPut_section hv (by omega) (by omega) ?_ (by simp only [objectTable]; omega)
      exact if_neg (by simp only [objectTable]; omega)
    · have hq4 : ¬ q < 147 ∧ ¬ q < 627 ∧ ¬ q < 755 := by split_ifs at hs <;> omega
      have hne : tailCell (q - 755) ≠ rsTmp := by
        have := mem_rsTailtbl_bounds (tailCell_mem (i := q - 755) (by omega))
        have h' : rsTmp ∉ rsTailtbl := by decide
        exact fun he => h' (he ▸ tailCell_mem (by omega))
      rw [if_neg h1, if_neg h2, if_neg h3, if_neg hq4.1, if_neg hq4.2.1, if_neg hq4.2.2,
        if_neg hq4.1, if_neg hq4.2.1, if_neg hq4.2.2, Cpu.rd_st, Cpu.rd_st, if_neg hne,
        cellBits_tail (by omega), Nat.mod_eq_of_lt (show v < 2 ^ 8 from hv)]
      by_cases h : q = pos
      · rw [if_pos h, if_pos (by rw [h])]
      · rw [if_neg h, if_neg fun he => h ?_]
        have := tailCell_inj (by omega) (by omega) he
        omega
  · rw [if_neg (by rintro rfl; exact hs rfl)]
    refine imgGet_congr_at (rd_imgPut_of_ne v (fun h => hs ?_) (imgAddr_ne_rsTmp hq))
    exact imgAddr_section hp hq h

end put

end IntvNetplay.Console
