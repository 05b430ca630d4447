import IntvNetplay.Console.Rebase

/-!
# What a push sends

`RS_PUSH` sends BEGIN with the resume tick, the image in nine chunks and END, and rebases; the image
it sends is the one the console had when it was entered.
-/

namespace IntvNetplay.Console

open IntvNetplay.Machine

/-! ### Footprints -/

/-- What the chunk loop may change. -/
def ChunkCell (a : ℕ) : Prop :=
  MailCell a ∨ a = rsPosLo ∨ a = rsPosHi ∨ a = rsTmp2 ∨ a = lsTmpb

/-- What a push may change besides the cells of its rebase. -/
def PushCell (a : ℕ) : Prop :=
  ChunkCell a ∨ HoldCell a ∨ CrcCell a ∨ a = rsRLo ∨ a = rsRHi

instance : DecidablePred ChunkCell := fun a => by unfold ChunkCell; infer_instance
instance : DecidablePred PushCell := fun a => by unfold PushCell; infer_instance

theorem imgCell_not_push {a : ℕ} (h : ImgCell a) : ¬ PushCell a := by
  have ht : ∀ a ∈ rsTailtbl, ¬ PushCell a := by decide
  have hlow : a < 0x8000 → ¬ PushCell a := by
    intro hl
    simp only [PushCell, ChunkCell, MailCell, HoldCell, CrcCell, ownCrc, resyncHold, rsToLo, rsToHi, rsRLo,
      rsRHi, rsPosLo, rsPosHi, rsTmp2, lsTmpb]
    omega
  rcases h with h | h | h | h
  · exact hlow (by omega)
  · exact hlow (by omega)
  · exact hlow (by omega)
  · exact ht a h

theorem imgRange_within {s t : Cpu} (h : Within PushCell s t) {pos n : ℕ}
    (hp : pos + n ≤ imgTotal) : imgRange t pos n = imgRange s pos n :=
  imgRange_congr (fun _ ha => h.rd _ (imgCell_not_push ha)) hp

@[simp] theorem length_stateFrame (pos : ℕ) (bytes : List ℕ) :
    (stateFrame pos bytes).length = bytes.length + 4 := rfl

theorem mail_chunk {a : ℕ} (h : MailCell a) : ChunkCell a := Or.inl h

theorem mail_push {a : ℕ} (h : MailCell a) : PushCell a := Or.inl (Or.inl h)

section push

variable (s : Cpu)

theorem local_rsEnterHold : Local PushCell s (rsEnterHold s) := by
  have h : Local PushCell s (((s.st resyncHold 1).st rsToLo 0).st rsToHi 0) :=
    (((Local.refl s).st (by decide)).st (by decide)).st (by decide)
  exact h.trans ((local_rsClrCrc _).mono fun _ h => Or.inr (Or.inr (Or.inl h)))

/-- The resume tick of a push. -/
def resumeTick : ℕ := (s.tick + 16) % 65536

/-- `pushBegin` before BEGIN is sent. -/
def pushPrepare : Cpu :=
  ((rsEnterHold (s.emit (.push s.tick))).st rsRLo (resumeTick s)).st rsRHi (resumeTick s / 256)

theorem tick_rsEnterHold : (rsEnterHold s).tick = s.tick :=
  Cpu.tick_congr ((local_rsEnterHold s).rd _ (by decide)) ((local_rsEnterHold s).rd _ (by decide))

theorem within_pushPrepare : Within PushCell s (pushPrepare s) :=
  (((Within.refl s).emit.trans (local_rsEnterHold _).within).st (by decide)).st (by decide)

theorem rd_pushPrepare_lo : (pushPrepare s).rd rsRLo = resumeTick s % 256 := by
  simp [pushPrepare, cellBits]

theorem rd_pushPrepare_hi : (pushPrepare s).rd rsRHi = resumeTick s / 256 := by
  have h : resumeTick s / 256 < 256 := by unfold resumeTick; omega
  simp [pushPrepare, cellBits, Nat.mod_eq_of_lt h]

theorem pushBegin_eq : pushBegin s =
    (((sendFrame (stateFrame posBegin [resumeTick s % 256, resumeTick s / 256])
      (pushPrepare s)).st rsPosLo 0).st rsPosHi 0) := by
  rw [← rd_pushPrepare_lo, ← rd_pushPrepare_hi]
  have htick : (rsEnterHold (s.emit (.push s.tick))).tick = s.tick := by
    rw [tick_rsEnterHold]
    rfl
  simp only [pushBegin, htick]
  rfl

theorem within_pushBegin : Within PushCell s (pushBegin s) := by
  rw [pushBegin_eq]
  have h := Within.sendFrame (fun _ => mail_push) (within_pushPrepare s)
    (b := stateFrame posBegin [resumeTick s % 256, resumeTick s / 256])
    (by simp)
  exact (h.st (by decide)).st (by decide)

theorem mark_pushBegin : (pushBegin s).mark = s.mark := by
  rw [pushBegin_eq, Cpu.mark_st, Cpu.mark_st, mark_sendFrame, pushPrepare, Cpu.mark_st,
    Cpu.mark_st, (local_rsEnterHold _).mark]
  rfl

theorem log_pushBegin : (pushBegin s).log = s.mark.stamp (.push s.tick) :: s.log := by
  rw [pushBegin_eq, Cpu.log_st, Cpu.log_st, log_sendFrame, pushPrepare, Cpu.log_st,
    Cpu.log_st, (local_rsEnterHold _).log]
  rfl

theorem tx_pushBegin : (pushBegin s).tx =
    s.tx ++ stateFrame posBegin [resumeTick s % 256, resumeTick s / 256] := by
  have hlt : resumeTick s < 65536 := Nat.mod_lt _ (by decide)
  rw [pushBegin_eq, Cpu.tx_st, Cpu.tx_st, tx_sendFrame, pushPrepare, Cpu.tx_st, Cpu.tx_st,
    (local_rsEnterHold _).tx]
  · rfl
  · simp
  · intro b hb
    simp only [stateFrame, List.mem_cons, List.not_mem_nil, or_false, List.length_cons,
      List.length_nil, ftState, posBegin] at hb
    rcases hb with rfl | rfl | rfl | rfl | rfl | rfl <;> omega

theorem pos_pushBegin : (pushBegin s).rd16 rsPosLo rsPosHi = 0 := by
  have h : ∀ t : Cpu, ((t.st rsPosLo 0).st rsPosHi 0).rd16 rsPosLo rsPosHi = 0 := fun t => by
    simp [Cpu.rd16, word]
  rw [pushBegin_eq, h]

theorem resume_pushBegin : (pushBegin s).rd16 rsRLo rsRHi = resumeTick s := by
  have hmail : ∀ x, ¬ MailCell x → x ≠ rsPosLo → x ≠ rsPosHi →
      (pushBegin s).rd x = (pushPrepare s).rd x := by
    intro x hx h1 h2
    rw [pushBegin_eq, Cpu.rd_st, if_neg h2, Cpu.rd_st, if_neg h1]
    exact (Within.sendFrame (fun _ h => h) (Within.refl _) (by simp)).rd x hx
  rw [Cpu.rd16, hmail _ (by decide) (by decide) (by decide),
    hmail _ (by decide) (by decide) (by decide), rd_pushPrepare_lo, rd_pushPrepare_hi]
  exact word_mod_div _

/-! ### The chunks -/

/-- The position at which round `k` of the chunk loop starts. -/
def chunkPos (k : ℕ) : ℕ := min imgTotal (rsChunk * k)

/-- The frame of round `k`. -/
def chunkFrame (k : ℕ) : List ℕ :=
  stateFrame (chunkPos k) (imgRange s (chunkPos k) (chunkPos (k + 1) - chunkPos k))

theorem chunkFrame_lt {k b : ℕ} (hb : b ∈ chunkFrame s k) : b < 256 := by
  have hpos : chunkPos k ≤ 769 ∧ chunkPos (k + 1) ≤ 769 ∧ chunkPos (k + 1) ≤ chunkPos k + 96 := by
    simp only [chunkPos, imgTotal, rsChunk]; omega
  simp only [chunkFrame, stateFrame, List.mem_cons, length_imgRange] at hb
  rcases hb with rfl | rfl | rfl | rfl | hb
  · omega
  · decide
  · omega
  · omega
  · rw [imgRange, List.mem_map] at hb
    obtain ⟨i, hi, rfl⟩ := hb
    rw [List.mem_range'_1] at hi
    exact imgGet_lt s (by simp only [imgTotal]; omega)

theorem length_chunkFrame (k : ℕ) : (chunkFrame s k).length ≤ 100 := by
  simp only [chunkFrame, stateFrame, List.length_cons, length_imgRange, chunkPos, imgTotal,
    rsChunk]
  omega

variable {s}

section round

variable {k : ℕ} (hk : k ≤ 8) (hpos : s.rd16 rsPosLo rsPosHi = chunkPos k)
include hk hpos

/-- `pushChunk` before its frame is sent. -/
theorem pushChunk_eq : pushChunk s = sendFrame (chunkFrame s k)
    ((((s.st rsTmp2 0).st lsTmpb (chunkPos (k + 1) - chunkPos k)).st rsPosLo
      (chunkPos (k + 1))).st rsPosHi (chunkPos (k + 1) / 256)) := by
  have hn : (if imgTotal - chunkPos k < rsChunk then imgTotal - chunkPos k else rsChunk) =
      chunkPos (k + 1) - chunkPos k := by
    split_ifs with h
    all_goals
      simp only [chunkPos, imgTotal, rsChunk] at h ⊢
      omega
  have hadd : chunkPos k + (chunkPos (k + 1) - chunkPos k) = chunkPos (k + 1) := by
    simp only [chunkPos, imgTotal, rsChunk]; omega
  simp only [pushChunk, hpos, hn, hadd]
  rfl

theorem within_pushChunk : Within ChunkCell s (pushChunk s) := by
  rw [pushChunk_eq hk hpos]
  refine Within.sendFrame (fun _ => mail_chunk) ?_ (Nat.le_trans (length_chunkFrame s k) (by decide))
  exact ((((Within.refl s).st (by decide)).st (by decide)).st (by decide)).st (by decide)

theorem mark_pushChunk : (pushChunk s).mark = s.mark := by
  rw [pushChunk_eq hk hpos, mark_sendFrame]
  rfl

theorem log_pushChunk : (pushChunk s).log = s.log := by
  rw [pushChunk_eq hk hpos, log_sendFrame]
  rfl

theorem tx_pushChunk : (pushChunk s).tx = s.tx ++ chunkFrame s k := by
  rw [pushChunk_eq hk hpos, tx_sendFrame _ (Nat.lt_of_le_of_lt (length_chunkFrame s k) (by decide))
    fun b hb => chunkFrame_lt s hb]
  rfl

theorem pos_pushChunk : (pushChunk s).rd16 rsPosLo rsPosHi = chunkPos (k + 1) := by
  have hb : chunkPos (k + 1) / 256 < 256 := by simp only [chunkPos, imgTotal, rsChunk]; omega
  have hmail : ∀ t : Cpu, ∀ x, ¬ MailCell x → (sendFrame (chunkFrame s k) t).rd x = t.rd x :=
    fun t x hx => (Within.sendFrame (fun _ h => h) (Within.refl t)
      (Nat.le_trans (length_chunkFrame s k) (by decide))).rd x hx
  rw [pushChunk_eq hk hpos, Cpu.rd16, hmail _ _ (by decide), hmail _ _ (by decide)]
  simp [cellBits, Nat.mod_eq_of_lt hb, word_mod_div]

end round

theorem chunkFrame_within {t : Cpu} (h : Within PushCell s t) (k : ℕ) :
    chunkFrame t k = chunkFrame s k := by
  rw [chunkFrame, imgRange_within h, ← chunkFrame]
  simp only [chunkPos, imgTotal, rsChunk]
  omega

/-- Round by round, the loop sends the frames that are still due. -/
theorem pushChunks_spec (j k : ℕ) (hk : k + j = 9) (hpos : s.rd16 rsPosLo rsPosHi = chunkPos k) :
    Within ChunkCell s (pushChunks (j + 1) s) ∧ (pushChunks (j + 1) s).mark = s.mark ∧
      (pushChunks (j + 1) s).log = s.log ∧
      (pushChunks (j + 1) s).tx = s.tx ++ ((List.range' k j).map (chunkFrame s)).flatten := by
  induction j generalizing k s with
  | zero =>
    obtain rfl : k = 9 := hk
    have : pushChunks (0 + 1) s = s := by
      rw [pushChunks, if_pos (hpos.trans (by decide))]
    rw [this]
    exact ⟨Within.refl s, rfl, rfl, by simp⟩
  | succ j ih =>
    have hk8 : k ≤ 8 := by omega
    have hne : s.rd16 rsPosLo rsPosHi ≠ imgTotal := by
      rw [hpos]
      simp only [chunkPos, imgTotal, rsChunk]
      omega
    have hw := within_pushChunk hk8 hpos
    obtain ⟨h1, h2, h3, h4⟩ := ih (s := pushChunk s) (k + 1) (by omega) (pos_pushChunk hk8 hpos)
    have hstep : pushChunks (j + 1 + 1) s = pushChunks (j + 1) (pushChunk s) := by
      rw [pushChunks, if_neg hne]
    rw [hstep]
    refine ⟨hw.trans h1, h2.trans (mark_pushChunk hk8 hpos), h3.trans (log_pushChunk hk8 hpos), ?_⟩
    have hframes : (List.range' (k + 1) j).map (chunkFrame (pushChunk s)) =
        (List.range' (k + 1) j).map (chunkFrame s) :=
      List.map_congr_left fun i _ => chunkFrame_within (hw.mono fun _ => Or.inl) i
    rw [h4, hframes, tx_pushChunk hk8 hpos, List.range'_succ, List.map_cons, List.flatten_cons,
      List.append_assoc]

variable (s)

/-- All the frames of a push. -/
def pushFrames : List (List ℕ) :=
  stateFrame posBegin [resumeTick s % 256, resumeTick s / 256] ::
    (List.range' 0 9).map (chunkFrame s) ++ [stateFrame posEnd []]

/-- `RS_PUSH` before its rebase. -/
def pushSent : Cpu := sendFrame (stateFrame posEnd []) (pushChunks 10 (pushBegin s))

theorem rsPush_eq : rsPush s = rsRebase (pushSent s) := rfl

theorem pushChunks_pushBegin :
    Within PushCell s (pushChunks 10 (pushBegin s)) ∧
      (pushChunks 10 (pushBegin s)).mark = s.mark ∧
      (pushChunks 10 (pushBegin s)).log = s.mark.stamp (.push s.tick) :: s.log ∧
      (pushChunks 10 (pushBegin s)).tx = s.tx ++
        stateFrame posBegin [resumeTick s % 256, resumeTick s / 256] ++
        ((List.range' 0 9).map (chunkFrame s)).flatten := by
  have hw := within_pushBegin s
  obtain ⟨h1, h2, h3, h4⟩ := pushChunks_spec (s := pushBegin s) 9 0 rfl (pos_pushBegin s)
  have hframes : (List.range' 0 9).map (chunkFrame (pushBegin s)) =
      (List.range' 0 9).map (chunkFrame s) :=
    List.map_congr_left fun i _ => chunkFrame_within hw i
  refine ⟨hw.trans (h1.mono fun _ => Or.inl), h2.trans (mark_pushBegin s),
    h3.trans (log_pushBegin s), ?_⟩
  rw [h4, hframes, tx_pushBegin]

theorem within_pushSent : Within PushCell s (pushSent s) :=
  Within.sendFrame (fun _ => mail_push) (pushChunks_pushBegin s).1 (by simp)

theorem mark_pushSent : (pushSent s).mark = s.mark :=
  (mark_sendFrame _ _).trans (pushChunks_pushBegin s).2.1

theorem log_pushSent : (pushSent s).log = s.mark.stamp (.push s.tick) :: s.log :=
  (log_sendFrame _ _).trans (pushChunks_pushBegin s).2.2.1

theorem tx_pushSent : (pushSent s).tx = s.tx ++ (pushFrames s).flatten := by
  rw [pushSent, tx_sendFrame _ (by simp) (by decide), (pushChunks_pushBegin s).2.2.2]
  simp [pushFrames, List.append_assoc]

theorem resume_pushSent : (pushSent s).rd16 rsRLo rsRHi = resumeTick s := by
  have h : Within ChunkCell (pushBegin s) (pushSent s) :=
    Within.sendFrame (fun _ => mail_chunk)
      (pushChunks_spec (s := pushBegin s) 9 0 rfl (pos_pushBegin s)).1 (by simp)
  rw [← resume_pushBegin, Cpu.rd16, Cpu.rd16, h.rd _ (by decide), h.rd _ (by decide)]

end push

end IntvNetplay.Console
