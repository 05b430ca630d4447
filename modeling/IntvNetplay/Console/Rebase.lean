import IntvNetplay.Console.Resync

/-!
# What a rebase does

`RS_REBASE` in two parts.  `rsInstall` touches the display, the interrupt vectors, the native
countdown and the phase cell; of the image it changes the phase byte only, which it clamps.
`rsRestart` writes netcode cells outside the image: the tick counter becomes `R`, every ring cell
idle, every watermark `R + d - 1`, every checksum record invalid, and the hold is over.
-/

namespace IntvNetplay.Console

open IntvNetplay.Machine

/-! ### Footprints of the pieces -/

def WmCell (a : ℕ) : Prop := seatWm ≤ a ∧ a < seatWm + 8

def CrcCell (a : ℕ) : Prop := ownCrc ≤ a ∧ a < ownCrc + 32

def DisplayCell (a : ℕ) : Prop := 0x0028 ≤ a ∧ a ≤ 0x002C ∨ a = 0x0032

def VectorCell (a : ℕ) : Prop :=
  a = execIsr ∨ a = execIsr + 1 ∨ a = scIsrSave ∨ a = scIsrSave + 1

instance : DecidablePred WmCell := fun a => by unfold WmCell; infer_instance
instance : DecidablePred CrcCell := fun a => by unfold CrcCell; infer_instance
instance : DecidablePred DisplayCell := fun a => by unfold DisplayCell; infer_instance
instance : DecidablePred VectorCell := fun a => by unfold VectorCell; infer_instance

section pieces

variable (s : Cpu)

theorem local_rsClrCrc : Local CrcCell s (rsClrCrc s) :=
  (Local.refl s).stAll fun x h1 h2 => ⟨h1, by rwa [List.length_replicate] at h2⟩

theorem rd_rsClrCrc {x : ℕ} (hx : CrcCell x) : (rsClrCrc s).rd x = 0xFF := by
  obtain ⟨h1, h2⟩ := hx
  have hw : cellBits x = 8 := by
    simp only [ownCrc] at h1 h2
    exact cellBits_cart (by omega) (by omega)
  rw [rsClrCrc, Cpu.rd_stAll_replicate, if_pos ⟨h1, h2⟩, hw]
  rfl

theorem local_setWms (lo hi : ℕ) : Local WmCell s (setWms lo hi s) :=
  (Local.refl s).stAll fun _ h1 h2 => ⟨h1, h2⟩

theorem wm_setWms (lo hi : ℕ) {seat : ℕ} (h : seat < 4) :
    (setWms lo hi s).wm seat = word (lo % 256) (hi % 256) := by
  have hs : seat = 0 ∨ seat = 1 ∨ seat = 2 ∨ seat = 3 := by omega
  rcases hs with rfl | rfl | rfl | rfl <;>
    simp [setWms, Cpu.wm, Cpu.rd16, Cpu.rd_stAll, cellBits]

theorem local_rsDisplayReset : Local DisplayCell s (rsDisplayReset s) := by
  refine ((Local.refl s).st (by decide)).stAll fun x h1 h2 => ?_
  rw [Cpu.rdAll, List.length_map, List.length_range'] at h2
  exact Or.inl ⟨h1, by omega⟩

theorem local_rsClampIsr : Local VectorCell s (rsClampIsr s) :=
  ((((Local.refl s).st (by decide)).st (by decide)).st (by decide)).st (by decide)

end pieces

/-! ### The two halves -/

/-- What `rsInstall` may change. -/
def InstallCell (a : ℕ) : Prop :=
  a = rsPend ∨ a = rsPtmo ∨ DisplayCell a ∨ VectorCell a ∨ HookCell a

def HoldCell (a : ℕ) : Prop := a = resyncHold ∨ a = rsToLo ∨ a = rsToHi

/-- What `rsRestart` may change. -/
def RestartCell (a : ℕ) : Prop :=
  a = tickLo ∨ a = tickHi ∨ RingCell a ∨ WmCell a ∨ CrcCell a ∨ HoldCell a ∨ a = lsWaitcLo ∨
    a = lsWaitcHi

instance : DecidablePred InstallCell := fun a => by unfold InstallCell; infer_instance
instance : DecidablePred HoldCell := fun a => by unfold HoldCell; infer_instance
instance : DecidablePred RestartCell := fun a => by unfold RestartCell; infer_instance

section halves

variable (s : Cpu)

theorem local_rsInstall : Local InstallCell s (rsInstall s) := by
  have h0 : Local InstallCell s ((s.st rsPend 0).st rsPtmo 0) :=
    ((Local.refl s).st (by decide)).st (by decide)
  have h1 := h0.trans ((local_rsDisplayReset _).mono fun _ h => Or.inr (Or.inr (Or.inl h)))
  have h2 := h1.trans
    ((local_rsClampIsr _).mono fun _ h => Or.inr (Or.inr (Or.inr (Or.inl h))))
  exact h2.trans ((local_sbRebaseHook _).mono fun _ h => Or.inr (Or.inr (Or.inr (Or.inr h))))

theorem local_rsReleaseHold : Local RestartCell s (rsReleaseHold s) := by
  unfold rsReleaseHold
  repeat refine Local.st ?_ (by decide)
  exact Local.refl s

theorem local_loadTick : Local RestartCell s (loadTick s) :=
  ((Local.refl s).st (by decide)).st (by decide)

theorem local_pinWms : Local WmCell s (pinWms s) := local_setWms _ _ _

theorem local_rsRestart : Local RestartCell s (rsRestart s) := by
  have h1 := (local_loadTick s).trans
    ((local_lsRingInit _).mono fun _ h => Or.inr (Or.inr (Or.inl h)))
  have h2 := h1.trans ((local_pinWms _).mono fun _ h => Or.inr (Or.inr (Or.inr (Or.inl h))))
  have h3 := h2.trans
    ((local_rsClrCrc _).mono fun _ h => Or.inr (Or.inr (Or.inr (Or.inr (Or.inl h)))))
  exact h3.trans (local_rsReleaseHold _)

/-! ### What the second half leaves -/

/-- The last step of `RS_REBASE` touches counters only. -/
theorem rd_rsReleaseHold {x : ℕ} (hx : ¬ HoldCell x) (h1 : x ≠ lsWaitcLo) (h2 : x ≠ lsWaitcHi) :
    (rsReleaseHold s).rd x = s.rd x := by
  unfold HoldCell at hx
  simp only [not_or] at hx
  simp only [rsReleaseHold, Cpu.rd_st]
  rw [if_neg h2, if_neg h1, if_neg hx.2.2, if_neg hx.2.1, if_neg hx.1]

theorem rd_rsReleaseHold_of_hold {x : ℕ} (hx : HoldCell x) : (rsReleaseHold s).rd x = 0 := by
  rcases hx with rfl | rfl | rfl <;> simp [rsReleaseHold]

theorem tick_rsRestart : (rsRestart s).tick = s.rd16 rsRLo rsRHi := by
  have hr : ∀ x, x = tickLo ∨ x = tickHi → (rsRestart s).rd x = (loadTick s).rd x := by
    intro x hx
    rw [rsRestart, rd_rsReleaseHold, (local_rsClrCrc _).rd, (local_pinWms _).rd,
      (local_lsRingInit _).rd]
    all_goals rcases hx with rfl | rfl <;> decide
  rw [Cpu.tick, Cpu.rd16, hr _ (Or.inl rfl), hr _ (Or.inr rfl), Cpu.rd16]
  have hlo := s.rd_mod_256 (a := rsRLo) (by decide)
  have hhi := s.rd_mod_256 (a := rsRHi) (by decide)
  simp only [rsRLo, rsRHi] at hlo hhi
  simp [loadTick, cellBits, hlo, hhi]

theorem rd_rsRestart_ring {x : ℕ} (hx : RingCell x) :
    (rsRestart s).rd x = if x < seatKp then 0x40 else 0 := by
  have h := hx
  unfold RingCell at h
  simp only [seatRing] at h
  rw [rsRestart, rd_rsReleaseHold, (local_rsClrCrc _).rd, (local_pinWms _).rd,
    rd_lsRingInit _ hx]
  · unfold WmCell; simp only [seatWm]; omega
  · unfold CrcCell; simp only [ownCrc]; omega
  · unfold HoldCell; simp only [resyncHold, rsToLo, rsToHi]; omega
  · simp only [lsWaitcLo]; omega
  · simp only [lsWaitcHi]; omega

theorem rd_rsRestart_crc {x : ℕ} (hx : CrcCell x) : (rsRestart s).rd x = 0xFF := by
  have h := hx
  unfold CrcCell at h
  simp only [ownCrc] at h
  rw [rsRestart, rd_rsReleaseHold, rd_rsClrCrc _ hx]
  · unfold HoldCell; simp only [resyncHold, rsToLo, rsToHi]; omega
  · simp only [lsWaitcLo]; omega
  · simp only [lsWaitcHi]; omega

theorem rd_rsRestart_hold {x : ℕ} (hx : HoldCell x) : (rsRestart s).rd x = 0 := by
  rw [rsRestart, rd_rsReleaseHold_of_hold _ hx]

/-- Every watermark becomes `R + d - 1`. -/
theorem wm_rsRestart {seat : ℕ} (h : seat < 4) :
    (rsRestart s).wm seat = (s.rd16 rsRLo rsRHi + s.rd netDelay + 65535) % 65536 := by
  have hr : ∀ x, WmCell x → (rsRestart s).rd x = (pinWms (lsRingInit (loadTick s))).rd x := by
    intro x hx
    unfold WmCell at hx
    simp only [seatWm] at hx
    rw [rsRestart, rd_rsReleaseHold, (local_rsClrCrc _).rd]
    · unfold CrcCell; simp only [ownCrc]; omega
    · unfold HoldCell; simp only [resyncHold, rsToLo, rsToHi]; omega
    · simp only [lsWaitcLo]; omega
    · simp only [lsWaitcHi]; omega
  have hsame : ∀ x, x = rsRLo ∨ x = rsRHi ∨ x = netDelay →
      (lsRingInit (loadTick s)).rd x = s.rd x := by
    intro x hx
    rw [(local_lsRingInit _).rd]
    · rcases hx with rfl | rfl | rfl <;> simp [loadTick]
    · rcases hx with rfl | rfl | rfl <;> decide
  rw [Cpu.wm_congr (hr _ ⟨by omega, by simp only [seatWm]; omega⟩)
    (hr _ ⟨by omega, by simp only [seatWm]; omega⟩)]
  have hpin := wm_setWms (lsRingInit (loadTick s)) (rebaseWm (lsRingInit (loadTick s)) % 256)
    (rebaseWm (lsRingInit (loadTick s)) / 256) h
  have hw : rebaseWm (lsRingInit (loadTick s)) =
      (s.rd16 rsRLo rsRHi + s.rd netDelay + 65535) % 65536 := by
    rw [rebaseWm, Cpu.rd16, hsame _ (Or.inl rfl), hsame _ (Or.inr (Or.inl rfl)),
      hsame _ (Or.inr (Or.inr rfl)), Cpu.rd16]
  rw [pinWms, hpin, Nat.mod_mod, word_bytes, hw, Nat.mod_mod]

end halves

/-! ### The image across a rebase -/

/-- The phase byte of an image, clamped. -/
def clampImage (img : List ℕ) : List ℕ := img.set 7 (if img.getD 7 0 ≤ 8 then img.getD 7 0 else 0)

theorem imgCell_not_restart {a : ℕ} (h : ImgCell a) : ¬ RestartCell a := by
  have ht : ∀ a ∈ rsTailtbl, ¬ RestartCell a := by decide
  rcases h with h | h | h | h
  · simp only [gameScratch] at h
    simp only [RestartCell, RingCell, WmCell, CrcCell, HoldCell, tickLo, tickHi, seatRing, seatWm,
      ownCrc, resyncHold, rsToLo, rsToHi, lsWaitcLo, lsWaitcHi]
    omega
  · simp only [backtab] at h
    simp only [RestartCell, RingCell, WmCell, CrcCell, HoldCell, tickLo, tickHi, seatRing, seatWm,
      ownCrc, resyncHold, rsToLo, rsToHi, lsWaitcLo, lsWaitcHi]
    omega
  · simp only [objectTable] at h
    simp only [RestartCell, RingCell, WmCell, CrcCell, HoldCell, tickLo, tickHi, seatRing, seatWm,
      ownCrc, resyncHold, rsToLo, rsToHi, lsWaitcLo, lsWaitcHi]
    omega
  · exact ht a h

theorem imgAddr_not_install {pos : ℕ} (hp : pos < imgTotal) (h7 : pos ≠ 7) :
    ¬ InstallCell (imgAddr pos) := by
  have ht : ∀ a ∈ rsTailtbl, ¬ InstallCell a := by decide
  simp only [imgTotal] at hp
  by_cases h4 : pos < imgS3
  · simp only [imgS3] at h4
    simp only [InstallCell, DisplayCell, VectorCell, HookCell, rsPend, rsPtmo, execIsr, scIsrSave,
      sbCnt2Lo, sbCnt2Hi, sbPhase, imgAddr, imgS1, imgS2, imgS3, gameScratch, backtab,
      objectTable]
    split_ifs <;> omega
  · simp only [imgS3] at h4
    have ha : imgAddr pos = tailCell (pos - 755) := by
      simp only [imgAddr, imgS1, imgS2, imgS3]
      rw [if_neg (by omega), if_neg (by omega), if_neg (by omega)]
    rw [ha]
    exact ht _ (tailCell_mem (by omega))

section rebase

variable (s : Cpu)

theorem imgGet_seven : imgGet s 7 = s.rd sbPhase := imgGet_scratch s (by decide)

theorem rd_sbPhase_rsInstall :
    (rsInstall s).rd sbPhase = if s.rd sbPhase ≤ 8 then s.rd sbPhase else 0 := by
  have h : (rsClampIsr (rsDisplayReset ((s.st rsPend 0).st rsPtmo 0))).rd sbPhase =
      s.rd sbPhase := by
    rw [(local_rsClampIsr _).rd _ (by decide), (local_rsDisplayReset _).rd _ (by decide)]
    simp
  rw [rsInstall, rd_sbPhase_sbRebaseHook, h]

/-- The part of a rebase that touches the machine clamps the phase byte and leaves the rest of the
image alone. -/
theorem image_rsInstall : image (rsInstall s) = clampImage (image s) := by
  refine List.ext_getElem (by simp [clampImage]) fun i hi hi' => ?_
  have hi'' : i < imgTotal := by simpa using hi
  have h7 : (image s).getD 7 0 = s.rd sbPhase := by
    rw [List.getD_eq_getElem?_getD, List.getElem?_eq_getElem (by simp), ← imgGet_seven]
    exact getElem_imgRange s 0 imgTotal 7 (by simp)
  have hget : ∀ t : Cpu, ∀ h : i < (image t).length, (image t)[i] = imgGet t i := fun t h => by
    have := getElem_imgRange t 0 imgTotal i h
    rwa [Nat.zero_add] at this
  simp only [clampImage, List.getElem_set, hget, h7]
  by_cases hi7 : 7 = i
  · subst hi7
    rw [if_pos rfl, imgGet_seven, rd_sbPhase_rsInstall]
  · rw [if_neg hi7]
    exact imgGet_congr_at ((local_rsInstall s).rd _ (imgAddr_not_install hi'' (Ne.symm hi7)))

theorem image_rsRestart : image (rsRestart s) = image s :=
  image_eq_iff.2 fun _ hp =>
    imgGet_congr (fun _ ha => (local_rsRestart s).rd _ (imgCell_not_restart ha)) hp

/-- What a rebase may change. -/
def RebaseCell (a : ℕ) : Prop := InstallCell a ∨ RestartCell a

instance : DecidablePred RebaseCell := fun a => by unfold RebaseCell; infer_instance

theorem local_restart_install : Local RebaseCell s (rsRestart (rsInstall s)) :=
  ((local_rsInstall s).mono fun _ => Or.inl).trans ((local_rsRestart _).mono fun _ => Or.inr)

theorem within_noteRebase : Within RebaseCell s (noteRebase s) := by
  unfold noteRebase
  exact (Within.refl s).newBase.withMark.emit

@[simp] theorem rd_noteRebase (x : ℕ) : (noteRebase s).rd x = s.rd x := by
  unfold noteRebase
  rw [Cpu.rd_emit]
  rfl

@[simp] theorem tx_noteRebase : (noteRebase s).tx = s.tx := by
  unfold noteRebase
  rw [Cpu.tx_emit]
  rfl

theorem mark_noteRebase : (noteRebase s).mark =
    { s.mark with
      epoch := s.mark.epoch + 1, ran := 0, rets := 0, raw := false,
      heard := fun _ => s.rd netDelay - 1 } := by
  unfold noteRebase
  rw [Cpu.mark_emit]
  rfl

theorem image_noteRebase : image (noteRebase s) = image s :=
  image_eq_iff.2 fun _ hp => imgGet_congr (fun a _ => rd_noteRebase s a) hp

theorem log_emit_rebase {s t : Cpu} (h : ∀ x, t.rd x = s.rd x) (held : Bool) :
    (t.emit (.rebase t.tick (image t) (lsCksum t) held)).log =
      t.mark.stamp (.rebase s.tick (image s) (lsCksum s) held) :: t.log := by
  have himg : image t = image s :=
    image_eq_iff.2 fun _ hp => imgGet_congr (fun a _ => h a) hp
  rw [Cpu.log_emit, himg, lsCksum_congr himg, Cpu.tick_congr (h _) (h _)]

theorem log_noteRebase : (noteRebase s).log =
    (noteRebase s).mark.stamp (.rebase s.tick (image s) (lsCksum s) s.mark.held) :: s.log := by
  unfold noteRebase
  exact log_emit_rebase (fun _ => rfl) _

theorem within_rsRebase : Within RebaseCell s (rsRebase s) :=
  (local_restart_install s).within.trans (within_noteRebase _)

theorem rd_rsRebase (x : ℕ) : (rsRebase s).rd x = (rsRestart (rsInstall s)).rd x := by
  rw [rsRebase, rd_noteRebase]

@[simp] theorem tx_rsRebase : (rsRebase s).tx = s.tx := by
  rw [rsRebase, tx_noteRebase, (local_restart_install s).tx]

/-- The marks after a rebase. -/
theorem mark_rsRebase : (rsRebase s).mark =
    { s.mark with
      epoch := s.mark.epoch + 1, ran := 0, rets := 0, raw := false,
      heard := fun _ => s.rd netDelay - 1 } := by
  rw [rsRebase, mark_noteRebase, (local_restart_install s).mark,
    (local_restart_install s).rd _ (by decide)]

theorem image_rsRebase : image (rsRebase s) = clampImage (image s) := by
  rw [rsRebase, image_noteRebase, image_rsRestart, image_rsInstall]

theorem tick_rsRestart_install :
    (rsRestart (rsInstall s)).tick = s.rd16 rsRLo rsRHi := by
  rw [tick_rsRestart, Cpu.rd16, Cpu.rd16, (local_rsInstall s).rd _ (by decide),
    (local_rsInstall s).rd _ (by decide)]

theorem tick_rsRebase : (rsRebase s).tick = s.rd16 rsRLo rsRHi := by
  rw [← tick_rsRestart_install]
  exact Cpu.tick_congr (rd_rsRebase _ _) (rd_rsRebase _ _)

theorem wm_rsRebase {seat : ℕ} (hs : seat < 4) :
    (rsRebase s).wm seat = (s.rd16 rsRLo rsRHi + s.rd netDelay + 65535) % 65536 := by
  have h := wm_rsRestart (rsInstall s) hs
  rw [Cpu.rd16, (local_rsInstall s).rd _ (by decide), (local_rsInstall s).rd _ (by decide),
    (local_rsInstall s).rd _ (by decide)] at h
  rw [Cpu.wm_congr (rd_rsRebase _ _) (rd_rsRebase _ _)]
  exact h

/-- The log entry of a rebase. -/
theorem log_rsRebase : (rsRebase s).log =
    (rsRebase s).mark.stamp (.rebase (s.rd16 rsRLo rsRHi) (clampImage (image s))
      (lsCksum (rsRebase s)) s.mark.held) :: s.log := by
  have hck : lsCksum (rsRebase s) = lsCksum (rsRestart (rsInstall s)) :=
    lsCksum_congr (image_noteRebase _)
  have himg : clampImage (image s) = image (rsRestart (rsInstall s)) := by
    rw [image_rsRestart, image_rsInstall]
  rw [hck, himg, ← tick_rsRestart_install, ← (local_restart_install s).log]
  conv_lhs => rw [rsRebase, log_noteRebase]
  rw [(local_restart_install s).mark, ← rsRebase]

end rebase

end IntvNetplay.Console
