import IntvNetplay.Console.Pass

/-!
# The tail of a pass

After the game tick: the checksum report of every 64th tick, the tick counter, the name row and, on
the host, a push that is due.
-/

namespace IntvNetplay.Console

open IntvNetplay.Machine

section report

variable (s : Cpu)

theorem lsReport_of_not (h : s.rd tickLo % 64 ≠ 0) : lsReport s = s := if_pos h

theorem crcSlot_bounds (lo : ℕ) : ownCrc ≤ crcSlot lo ∧ crcSlot lo + 4 ≤ ownCrc + 32 := by
  unfold crcSlot
  omega

theorem local_rsRecordCrc : Local CrcCell s (rsRecordCrc s) := by
  have hb := crcSlot_bounds (s.rd tickLo)
  refine (Local.refl s).stAll fun x h1 h2 => ⟨by omega, ?_⟩
  simp only [List.length_cons, List.length_nil] at h2
  omega

theorem lsCksum_lt : lsCksum s < 65536 := by
  have h : ∀ l : List ℕ, ∀ acc, acc < 65536 → l.foldl rotAdd acc < 65536 := by
    intro l
    induction l with
    | nil => exact fun acc h => h
    | cons v l ih => exact fun acc _ => ih _ (Nat.mod_lt _ (by decide))
  exact h _ 0 (by decide)

/-- The display reset does not reach the image. -/
theorem lsCksum_rsDisplayReset : lsCksum (rsDisplayReset s) = lsCksum s := by
  refine lsCksum_congr (image_eq_iff.2 fun _ hp => imgGet_congr (fun a ha => ?_) hp)
  refine (local_rsDisplayReset s).rd a ?_
  have ht : ∀ a ∈ rsTailtbl, ¬ DisplayCell a := by decide
  rcases ha with h | h | h | h
  · simp only [gameScratch] at h; unfold DisplayCell; omega
  · simp only [backtab] at h; unfold DisplayCell; omega
  · simp only [objectTable] at h; unfold DisplayCell; omega
  · exact ht a h

theorem local_reportPrepare : Local ReportCell s (reportPrepare s) := by
  have h := ((local_rsDisplayReset s).mono fun _ h => (Or.inr (Or.inl h) : ReportCell _))
  exact ((h.st (by decide)).st (by decide)).trans
    ((local_rsRecordCrc _).mono fun _ h => Or.inr (Or.inr (Or.inl h)))

theorem lsReport_of_checkpoint (h : s.rd tickLo % 64 = 0) : lsReport s =
    sendFrame [6, ftCrc, s.rd netSeat, s.rd tickLo, s.rd tickHi, lsCksum s % 256, lsCksum s / 256]
      ((reportPrepare s).emit (.report s.tick (lsCksum s))) := by
  have hp := local_reportPrepare s
  have hc : lsCksum s / 256 < 256 := by have := lsCksum_lt s; omega
  have hd := local_rsDisplayReset s
  have htmp : (reportPrepare s).rd lsTmpb = lsCksum s % 256 := by
    simp only [reportPrepare, lsCksum_rsDisplayReset]
    rw [(local_rsRecordCrc _).rd _ (by decide)]
    simp [cellBits]
  have htmp2 : (reportPrepare s).rd lsTmpb2 = lsCksum s / 256 := by
    simp only [reportPrepare, lsCksum_rsDisplayReset]
    rw [(local_rsRecordCrc _).rd _ (by decide)]
    simp [cellBits, Nat.mod_eq_of_lt hc]
  have htick : (reportPrepare s).tick = s.tick := Cpu.tick_congr (hp.rd _ (by decide)) (hp.rd _ (by decide))
  have hword : (reportPrepare s).rd16 lsTmpb lsTmpb2 = lsCksum s := by
    rw [Cpu.rd16, htmp, htmp2, word_mod_div]
  rw [lsReport, if_neg (not_not.2 h), noteReport, htick, hword, sendReport]
  simp only [crcFrame, Cpu.rd_emit]
  rw [htmp, htmp2, hp.rd _ (by decide), hp.rd _ (by decide), hp.rd _ (by decide)]

theorem within_lsReport : Within ReportCell s (lsReport s) := by
  by_cases h : s.rd tickLo % 64 = 0
  · rw [lsReport_of_checkpoint s h]
    exact Within.sendFrame (fun _ => Or.inl) (local_reportPrepare s).within.emit (by simp)
  · rw [lsReport_of_not s h]
    exact Within.refl s

theorem mark_lsReport : (lsReport s).mark = s.mark := by
  by_cases h : s.rd tickLo % 64 = 0
  · rw [lsReport_of_checkpoint s h, mark_sendFrame]
    exact (local_reportPrepare s).mark
  · rw [lsReport_of_not s h]

theorem log_lsReport : (lsReport s).log =
    if s.rd tickLo % 64 = 0 then s.mark.stamp (.report s.tick (lsCksum s)) :: s.log else s.log := by
  split_ifs with h
  · rw [lsReport_of_checkpoint s h, log_sendFrame, Cpu.log_emit, (local_reportPrepare s).mark,
      (local_reportPrepare s).log]
  · rw [lsReport_of_not s h]

theorem tx_lsReport (hs : s.rd tickLo % 64 = 0) : (lsReport s).tx = s.tx ++
    [6, ftCrc, s.rd netSeat, s.rd tickLo, s.rd tickHi, lsCksum s % 256, lsCksum s / 256] := by
  have hc : lsCksum s / 256 < 256 := by have := lsCksum_lt s; omega
  have h1 : s.rd netSeat < 256 := s.rd_lt_256 (by decide)
  have h2 : s.rd tickLo < 256 := s.rd_lt_256 (by decide)
  have h3 : s.rd tickHi < 256 := s.rd_lt_256 (by decide)
  rw [lsReport_of_checkpoint s hs, tx_sendFrame _ (by simp), Cpu.tx_emit,
    (local_reportPrepare s).tx]
  intro b hb
  simp only [List.mem_cons, List.not_mem_nil, or_false, ftCrc] at hb
  rcases hb with rfl | rfl | rfl | rfl | rfl | rfl | rfl <;> omega

/-- The record of a checkpoint: tick and checksum in their slot, the other records untouched. -/
theorem rd_lsReport_crc (h : s.rd tickLo % 64 = 0) {x : ℕ} (hx : CrcCell x) : (lsReport s).rd x =
    if crcSlot (s.rd tickLo) ≤ x ∧ x < crcSlot (s.rd tickLo) + 4 then
      [s.rd tickLo, s.rd tickHi, lsCksum s % 256, lsCksum s / 256].getD
        (x - crcSlot (s.rd tickLo)) 0
    else s.rd x := by
  have hc : lsCksum s / 256 < 256 := by have := lsCksum_lt s; omega
  have h2 : s.rd tickLo < 256 := s.rd_lt_256 (by decide)
  have h3 : s.rd tickHi < 256 := s.rd_lt_256 (by decide)
  have hcrc := hx
  unfold CrcCell at hcrc
  simp only [ownCrc] at hcrc
  have hw : cellBits x = 8 := cellBits_cart (by omega) (by omega)
  have hsend : (lsReport s).rd x = (reportPrepare s).rd x := by
    rw [lsReport_of_checkpoint s h, (Within.sendFrame (fun _ h => h) (Within.refl _)
      (by simp)).rd x (by unfold MailCell; omega), Cpu.rd_emit]
  have hd := local_rsDisplayReset s
  have hcell : ∀ y, y = tickLo ∨ y = tickHi →
      (((rsDisplayReset s).st lsTmpb (lsCksum s)).st lsTmpb2 (lsCksum s / 256)).rd y = s.rd y := by
    intro y hy
    rw [Cpu.rd_st, if_neg (by rcases hy with rfl | rfl <;> decide), Cpu.rd_st,
      if_neg (by rcases hy with rfl | rfl <;> decide),
      hd.rd _ (by rcases hy with rfl | rfl <;> decide)]
  have htmp : (((rsDisplayReset s).st lsTmpb (lsCksum s)).st lsTmpb2 (lsCksum s / 256)).rd lsTmpb =
      lsCksum s % 256 := by simp [cellBits]
  have htmp2 : (((rsDisplayReset s).st lsTmpb (lsCksum s)).st lsTmpb2
      (lsCksum s / 256)).rd lsTmpb2 = lsCksum s / 256 := by
    simp [cellBits, Nat.mod_eq_of_lt hc]
  rw [hsend]
  simp only [reportPrepare, lsCksum_rsDisplayReset, rsRecordCrc]
  rw [htmp, htmp2, hcell _ (Or.inl rfl), hcell _ (Or.inr rfl), Cpu.rd_stAll]
  simp only [List.length_cons, List.length_nil, hw]
  have hlen : 0 + 1 + 1 + 1 + 1 = 4 := rfl
  rw [hlen]
  split_ifs with hin
  · obtain ⟨i, hi⟩ := Nat.exists_eq_add_of_le hin.1
    have hi4 : i < 4 := by omega
    rw [hi, Nat.add_sub_cancel_left]
    refine Nat.mod_eq_of_lt ?_
    have hcases : i = 0 ∨ i = 1 ∨ i = 2 ∨ i = 3 := by omega
    rcases hcases with rfl | rfl | rfl | rfl
    · exact h2
    · exact h3
    · exact Nat.mod_lt _ (by decide)
    · exact hc
  · have hne : ∀ y, y < 0x8C00 → x ≠ y := fun y hy => by omega
    rw [Cpu.rd_st, if_neg (hne _ (by decide)), Cpu.rd_st, if_neg (hne _ (by decide)), hd.rd]
    unfold DisplayCell
    omega

end report

section tail

variable (s : Cpu)

/-! ### The tick counter -/

/-- The tick counter. -/
def CounterCell (a : ℕ) : Prop := a = tickLo ∨ a = tickHi

instance : DecidablePred CounterCell := fun a => by unfold CounterCell; infer_instance

theorem within_tickUp : Within CounterCell s (tickUp s) := by
  unfold tickUp
  have h : Within CounterCell s (Cpu.st { s with mark := { s.mark with ran := s.mark.ran + 1 } }
      tickLo (s.rd tickLo + 1)) := (Within.refl s).withMark.st (by decide)
  exact Within.ite (fun _ => h) fun _ => h.st (by decide)

theorem mark_tickUp : (tickUp s).mark = { s.mark with ran := s.mark.ran + 1 } := by
  simp only [tickUp]
  split_ifs <;> rfl

theorem log_tickUp : (tickUp s).log = s.log := by
  simp only [tickUp]
  split_ifs <;> rfl

theorem tx_tickUp : (tickUp s).tx = s.tx := by
  simp only [tickUp]
  split_ifs <;> rfl

/-- The 16-bit counter goes up by one and wraps. -/
theorem tick_tickUp : (tickUp s).tick = (s.tick + 1) % 65536 := by
  have hlo : s.rd tickLo < 256 := s.rd_lt_256 (by decide)
  have hhi : s.rd tickHi < 256 := s.rd_lt_256 (by decide)
  have hrd : ∀ x, Cpu.rd { s with mark := { s.mark with ran := s.mark.ran + 1 } } x = s.rd x :=
    fun _ => rfl
  simp only [tickUp, Cpu.tick, Cpu.rd16, word]
  split_ifs with h
  · have hlt : s.rd tickLo + 1 < 256 := by omega
    simp only [Cpu.rd_st, hrd, if_true, if_neg (show tickHi ≠ tickLo by decide),
      cellBits_byte (show _ ∨ 0x8000 ≤ tickLo ∧ tickLo < 0xA000 from Or.inr (by decide))]
    omega
  · have h256 : s.rd tickLo = 255 := by omega
    simp only [Cpu.rd_st, hrd, if_true, if_neg (show tickHi ≠ tickLo by decide),
      if_neg (show tickLo ≠ tickHi by decide),
      cellBits_byte (show _ ∨ 0x8000 ≤ tickLo ∧ tickLo < 0xA000 from Or.inr (by decide)),
      cellBits_byte (show _ ∨ 0x8000 ≤ tickHi ∧ tickHi < 0xA000 from Or.inr (by decide))]
    omega

/-! ### The name row -/

theorem local_nameDraw : Local ScreenCell s (nameDraw s) := by
  have hback : ∀ x, backtab + 220 ≤ x → x < backtab + 240 → ScreenCell x := fun x h1 h2 =>
    Or.inl ⟨by omega, h2⟩
  have h0 : Local ScreenCell s ((s.st uiColor (seatClr s (s.rd arbSeat))).stAll (backtab + 220)
      (List.replicate 11 0)) := by
    refine ((Local.refl s).st (by decide)).stAll fun x h1 h2 => hback x h1 ?_
    rw [List.length_replicate] at h2
    omega
  refine Local.ite (fun _ => Local.refl s) fun _ => Local.st ?_ (by decide)
  exact Local.uiPrintn (fun _ h => h) (h0.st (hback _ (by decide) (by decide))) (by decide)

theorem local_nameRow : Local ScreenCell s (if s.rd tickLo % 16 ≠ 0 then s else nameDraw s) :=
  Local.ite (fun _ => Local.refl s) fun _ => local_nameDraw s

/-! ### The run of a tick up to the push -/

variable (C : Cart)

/-- `@@ls_run` up to `RS_PENDING`. -/
def runBody (s : Cpu) : Cpu :=
  let s := tickUp (lsReport (lsTick C s))
  if s.rd tickLo % 16 ≠ 0 then s else nameDraw s

theorem lsRun_eq : lsRun C s = rsPending (runBody C s) := rfl

/-- What comes between the game tick and a push may change. -/
def WrapCell (a : ℕ) : Prop := ReportCell a ∨ CounterCell a ∨ ScreenCell a

/-- What the run of a tick may change before a push. -/
def BodyCell (a : ℕ) : Prop := TickCell a ∨ WrapCell a

instance : DecidablePred WrapCell := fun a => by unfold WrapCell; infer_instance
instance : DecidablePred BodyCell := fun a => by unfold BodyCell; infer_instance

theorem within_runBody_tick : Within WrapCell (lsTick C s) (runBody C s) :=
  (((within_lsReport _).mono fun _ => Or.inl).trans
    ((within_tickUp _).mono fun _ h => Or.inr (Or.inl h))).trans
      ((local_nameRow _).within.mono fun _ h => Or.inr (Or.inr h))

theorem within_runBody : Within BodyCell s (runBody C s) :=
  ((within_lsTick s C).mono fun _ => Or.inl).trans ((within_runBody_tick s C).mono fun _ => Or.inr)

theorem mark_runBody : (runBody C s).mark = { s.mark with ran := s.mark.ran + 1 } := by
  simp only [runBody]
  rw [(local_nameRow _).mark, mark_tickUp, mark_lsReport, mark_lsTick]

/-- The report is of the state that the game tick leaves. -/
theorem log_runBody : (runBody C s).log =
    if s.rd tickLo % 64 = 0 then
      s.mark.stamp (.report s.tick (lsCksum (lsTick C s))) :: (lsTick C s).log
    else (lsTick C s).log := by
  have hw := within_lsTick s C
  have htick : (lsTick C s).tick = s.tick := Cpu.tick_congr (hw.rd _ (by decide)) (hw.rd _ (by decide))
  simp only [runBody]
  rw [(local_nameRow _).log, log_tickUp, log_lsReport, hw.rd _ (by decide), mark_lsTick, htick]

theorem tick_runBody : (runBody C s).tick = (s.tick + 1) % 65536 := by
  have hcell : ∀ u : Cpu, (if u.rd tickLo % 16 ≠ 0 then u else nameDraw u).tick = u.tick := fun u =>
    Cpu.tick_congr ((local_nameRow u).rd _ (by decide)) ((local_nameRow u).rd _ (by decide))
  have hrep : (lsReport (lsTick C s)).tick = s.tick := by
    rw [Cpu.tick_congr ((within_lsReport _).rd _ (by decide)) ((within_lsReport _).rd _ (by decide)),
      Cpu.tick_congr ((within_lsTick s C).rd _ (by decide)) ((within_lsTick s C).rd _ (by decide))]
  simp only [runBody]
  rw [hcell, tick_tickUp, hrep]

theorem tx_runBody : (runBody C s).tx = s.tx ++
    if s.rd tickLo % 64 = 0 then
      [6, ftCrc, s.rd netSeat, s.rd tickLo, s.rd tickHi, lsCksum (lsTick C s) % 256,
        lsCksum (lsTick C s) / 256]
    else [] := by
  have hw := within_lsTick s C
  have hlo : (lsTick C s).rd tickLo = s.rd tickLo := hw.rd _ (by decide)
  simp only [runBody]
  rw [(local_nameRow _).tx, tx_tickUp]
  split_ifs with h
  · rw [tx_lsReport _ (by rw [hlo]; exact h), tx_lsTick, hlo, hw.rd _ (by decide),
      hw.rd _ (by decide)]
  · rw [lsReport_of_not _ (by rw [hlo]; exact h), tx_lsTick, List.append_nil]

/-! ### A push that is due -/

omit C

/-- What the wait for a push may change. -/
def WaitCell (a : ℕ) : Prop := a = rsPtmo ∨ a = rsGate ∨ a = rsWaited

instance : DecidablePred WaitCell := fun a => by unfold WaitCell; infer_instance

theorem rsPending_of_guest (h : s.rd netSeat ≠ 0) : rsPending s = s := by
  rw [rsPending, if_pos (Or.inr (Or.inl h))]

/-- Either nothing but a wait happens, or the host pushes. -/
theorem rsPending_cases : Local WaitCell s (rsPending s) ∨
    s.rd rsPend ≠ 0 ∧ s.rd netSeat = 0 ∧ s.rd resyncHold = 0 ∧
      ∃ t, Local WaitCell s t ∧ rsPending s = rsPush t := by
  have hfire : ∀ g u, Local WaitCell s u → ∃ t, Local WaitCell s t ∧ rsFire g u = rsPush t :=
    fun g u hu => ⟨_, (hu.st (by decide)).st (by decide), rfl⟩
  have h0 : Local WaitCell s (s.st rsPtmo (s.rd rsPtmo + 1)) := (Local.refl s).st (by decide)
  simp only [rsPending]
  split_ifs with h1 h2 h3
  · exact Or.inl (Local.refl s)
  · simp only [not_or, not_not] at h1
    exact Or.inr ⟨h1.1, h1.2.1, h1.2.2, hfire 1 _ h0⟩
  · exact Or.inl h0
  · simp only [not_or, not_not] at h1
    exact Or.inr ⟨h1.1, h1.2.1, h1.2.2, hfire 2 _ h0⟩

end tail

end IntvNetplay.Console
