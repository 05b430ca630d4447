import IntvNetplay.Console.Frames
import IntvNetplay.Console.Lockstep

/-!
# What a pass does

The pieces of `LS_PASS` between two pumps: what each may change, what it logs and what it sends.
The game tick, its virtual dispatch and the shadows read the rings at the current tick and change no
netcode cell but their own scratch (`log_lsTick`, `within_lsTick`); the tail may end in a push.
-/

namespace IntvNetplay.Console

open IntvNetplay.Machine

/-! ### Footprints -/

/-- The freeze of the ISR phase and the round counters. -/
def PaceCell (a : ℕ) : Prop :=
  a = execPhase ∨ a = lsFroze ∨ a = lsSave102 ∨ a = lsWaitcLo ∨ a = lsWaitcHi ∨ a = rsToLo ∨
    a = rsToHi

/-- What giving up changes besides the round counters. -/
def DropCell (a : ℕ) : Prop := InputCell a ∨ a = peerWhy ∨ a = netDropped ∨ a = resyncHold

/-- What the run of a tick may change before its report. -/
def TickCell (a : ℕ) : Prop := PaceCell a ∨ DispatchCell a ∨ GameCell a

/-- What the report may change. -/
def ReportCell (a : ℕ) : Prop :=
  MailCell a ∨ DisplayCell a ∨ CrcCell a ∨ a = lsTmpb ∨ a = lsTmpb2

instance : DecidablePred PaceCell := fun a => by unfold PaceCell; infer_instance
instance : DecidablePred DropCell := fun a => by unfold DropCell; infer_instance
instance : DecidablePred TickCell := fun a => by unfold TickCell; infer_instance
instance : DecidablePred ReportCell := fun a => by unfold ReportCell; infer_instance

section pieces

variable (s : Cpu)

theorem local_lsFreeze : Local PaceCell s (lsFreeze s) :=
  Local.ite (fun _ => Local.refl s)
    fun _ => (((Local.refl s).st (by decide)).st (by decide)).st (by decide)

theorem local_lsUnfreeze : Local PaceCell s (lsUnfreeze s) :=
  Local.ite (fun _ => Local.refl s)
    fun _ => ((((Local.refl s).st (by decide)).st (by decide)).st (by decide)).st (by decide)

/-- What giving up leaves. -/
theorem local_lsDrop : Local (fun a => PaceCell a ∨ DropCell a) s (lsIdleRmt (lsDrop s)) := by
  have h : Local (fun a => PaceCell a ∨ DropCell a) s (lsDrop s) :=
    ((Local.refl s).st (by decide)).st (by decide)
  exact h.trans ((local_lsIdleRmt _).mono fun _ h => Or.inr (Or.inl h))

theorem rd_netDropped_lsDrop : (lsIdleRmt (lsDrop s)).rd netDropped = 1 := by
  rw [(local_lsIdleRmt _).rd _ (by decide)]
  simp [lsDrop, cellBits]

/-- A round that counts, or gives up. -/
def CountOrDrop (t : Cpu) : Prop :=
  Local PaceCell s t ∨ Local (fun a => PaceCell a ∨ DropCell a) s t ∧ t.rd netDropped = 1

theorem CountOrDrop.within {s t : Cpu} (h : CountOrDrop s t) :
    Local (fun a => PaceCell a ∨ DropCell a) s t := by
  rcases h with h | h
  · exact h.mono fun _ => Or.inl
  · exact h.1

theorem countOrDrop_holdTail : CountOrDrop s (holdTail s) := by
  have h0 : Local PaceCell s (s.st rsToLo (s.rd rsToLo + 1)) := (Local.refl s).st (by decide)
  simp only [holdTail]
  split_ifs with h1 h2
  · exact Or.inl h0
  · exact Or.inl (h0.st (by decide))
  · right
    set u := (s.st rsToLo (s.rd rsToLo + 1)).st rsToHi
      ((s.st rsToLo (s.rd rsToLo + 1)).rd rsToHi + 1)
    have hu : Local (fun a => PaceCell a ∨ DropCell a) s u :=
      (h0.st (by decide)).mono fun _ => Or.inl
    have hd : Local (fun a => PaceCell a ∨ DropCell a) s ((lsDrop u).st resyncHold 0) :=
      ((hu.st (by decide)).st (by decide)).st (by decide)
    refine ⟨hd.trans ((local_lsIdleRmt _).mono fun _ h => Or.inr (Or.inl h)), ?_⟩
    rw [(local_lsIdleRmt _).rd _ (by decide)]
    simp [lsDrop, cellBits]

theorem countOrDrop_stallTail : CountOrDrop s (stallTail s) := by
  have h0 : Local PaceCell s (s.st lsWaitcLo (s.rd lsWaitcLo + 1)) := (Local.refl s).st (by decide)
  simp only [stallTail]
  split_ifs with h1 h2
  · exact Or.inl h0
  · exact Or.inl (h0.st (by decide))
  · right
    set u := (s.st lsWaitcLo (s.rd lsWaitcLo + 1)).st lsWaitcHi
      ((s.st lsWaitcLo (s.rd lsWaitcLo + 1)).rd lsWaitcHi + 1)
    have hu : Local (fun a => PaceCell a ∨ DropCell a) s u :=
      (h0.st (by decide)).mono fun _ => Or.inl
    exact ⟨hu.trans (local_lsDrop u), rd_netDropped_lsDrop u⟩

/-! ### Capture -/

/-- The cell of a seat's decoded page, and of its keypad page, for a tick. -/
def ringAt (seat tick : ℕ) : ℕ := seatRing + seat * 256 + tick % 256

def kpAt (seat tick : ℕ) : ℕ := seatKp + seat * 256 + tick % 256

/-- What a capture may change. -/
def CaptureCell (a : ℕ) : Prop := RingCell a ∨ a = lsTmpb ∨ a = lsTmpb2

instance : DecidablePred CaptureCell := fun a => by unfold CaptureCell; infer_instance

variable {s} in
/-- The state after a capture, for a seat that has pages. -/
theorem lsCapture_eq (hs : s.rd netSeat < 4) : lsCapture s =
    (((((s.st lsTmpb (s.rd execInL)).st lsTmpb2 (s.rd execKpL)).st
      (ringAt (s.rd netSeat) (dueTick s)) (s.rd execInL)).st
      (kpAt (s.rd netSeat) (dueTick s)) (s.rd execKpL)).emit
      (.capture (s.rd execInL) (s.rd execKpL) (ringAt (s.rd netSeat) (dueTick s))
        (kpAt (s.rd netSeat) (dueTick s)))) := by
  have hl : dueTick s % 256 < 256 := Nat.mod_lt _ (by decide)
  have hin : s.rd execInL % 256 = s.rd execInL := s.rd_mod_256 (by decide)
  have hkp : s.rd execKpL % 256 = s.rd execKpL := s.rd_mod_256 (by decide)
  have hr1 : lsTmpb2 ≠ ringAt (s.rd netSeat) (dueTick s) := by
    simp only [lsTmpb2, ringAt, seatRing]; omega
  have hr2 : lsTmpb ≠ ringAt (s.rd netSeat) (dueTick s) := by
    simp only [lsTmpb, ringAt, seatRing]; omega
  have hk1 : lsTmpb2 ≠ kpAt (s.rd netSeat) (dueTick s) := by
    simp only [lsTmpb2, kpAt, seatKp]; omega
  have hk2 : lsTmpb ≠ kpAt (s.rd netSeat) (dueTick s) := by
    simp only [lsTmpb, kpAt, seatKp]; omega
  simp only [lsCapture, ringAddr_lt hs hl, kpAddr_lt hs hl]
  rw [← ringAt, ← kpAt]
  simp only [Cpu.rd_st, if_neg hr1, if_neg hr2, if_neg hk1, if_neg hk2]
  simp [cellBits, hin, hkp]

section capture

variable {s} (hs : s.rd netSeat < 4)
include hs

theorem ringAt_cell (tick : ℕ) : RingCell (ringAt (s.rd netSeat) tick) :=
  ring_cell hs (Nat.mod_lt _ (by decide))

theorem kpAt_cell (tick : ℕ) : RingCell (kpAt (s.rd netSeat) tick) :=
  kp_cell hs (Nat.mod_lt _ (by decide))

theorem within_lsCapture : Within CaptureCell s (lsCapture s) := by
  rw [lsCapture_eq hs]
  refine Within.emit (Within.st (Within.st ?_ (Or.inl (ringAt_cell hs _)))
    (Or.inl (kpAt_cell hs _)))
  exact ((Within.refl s).st (by decide)).st (by decide)

/-- The two ring cells of the due tick take the captured pair; no other ring cell changes. -/
theorem rd_lsCapture {x : ℕ} (hx : RingCell x) : (lsCapture s).rd x =
    if x = kpAt (s.rd netSeat) (dueTick s) then s.rd execKpL
    else if x = ringAt (s.rd netSeat) (dueTick s) then s.rd execInL else s.rd x := by
  have hin : s.rd execInL % 256 = s.rd execInL := s.rd_mod_256 (by decide)
  have hkp : s.rd execKpL % 256 = s.rd execKpL := s.rd_mod_256 (by decide)
  have hcell : ∀ y, RingCell y → cellBits y = 8 := fun y hy => by
    unfold RingCell at hy
    simp only [seatRing] at hy
    exact cellBits_cart (by omega) (by omega)
  have h1 : x ≠ lsTmpb := fun h => by subst h; exact absurd hx (by decide)
  have h2 : x ≠ lsTmpb2 := fun h => by subst h; exact absurd hx (by decide)
  rw [lsCapture_eq hs]
  simp only [Cpu.rd_emit, Cpu.rd_st, hcell _ (kpAt_cell hs _), hcell _ (ringAt_cell hs _),
    if_neg h1, if_neg h2]
  simp only [show (2 : ℕ) ^ 8 = 256 from rfl, hin, hkp]

theorem log_lsCapture : (lsCapture s).log =
    s.mark.stamp (.capture (s.rd execInL) (s.rd execKpL) (ringAt (s.rd netSeat) (dueTick s))
      (kpAt (s.rd netSeat) (dueTick s))) :: s.log := by
  rw [lsCapture_eq hs]
  rfl

theorem mark_lsCapture : (lsCapture s).mark = s.mark := by
  rw [lsCapture_eq hs]
  rfl

theorem tx_lsCapture : (lsCapture s).tx = s.tx := by
  rw [lsCapture_eq hs]
  rfl

theorem inputFrame_lsCapture (tick : ℕ) : inputFrame tick (lsCapture s) =
    [6, ftInput, s.rd netSeat, tick % 256, tick / 256, s.rd execInL, s.rd execKpL] := by
  have hin : s.rd execInL % 256 = s.rd execInL := s.rd_mod_256 (by decide)
  have hkp : s.rd execKpL % 256 = s.rd execKpL := s.rd_mod_256 (by decide)
  have hr : ∀ x, x = lsTmpb ∨ x = lsTmpb2 → x ≠ ringAt (s.rd netSeat) (dueTick s) ∧
      x ≠ kpAt (s.rd netSeat) (dueTick s) := by
    rintro x (rfl | rfl) <;> simp only [lsTmpb, lsTmpb2, ringAt, kpAt, seatRing, seatKp] <;> omega
  have h1 := hr _ (Or.inl rfl)
  have h2 := hr _ (Or.inr rfl)
  have h3 : (lsCapture s).rd netSeat = s.rd netSeat := (within_lsCapture hs).rd _ (by decide)
  rw [inputFrame, h3, lsCapture_eq hs]
  simp only [Cpu.rd_emit, Cpu.rd_st, if_neg h1.1, if_neg h1.2, if_neg h2.1, if_neg h2.2]
  simp [cellBits, hin, hkp]

/-- What a send may change. -/
theorem within_lsSend : Within (fun a => CaptureCell a ∨ MailCell a) s (lsSend s) :=
  Within.sendFrame (fun _ => Or.inr) ((within_lsCapture hs).mono fun _ => Or.inl) (by simp [inputFrame])

omit hs in
theorem rd_lsSend_ring {x : ℕ} (hx : RingCell x) : (lsSend s).rd x = (lsCapture s).rd x := by
  refine (Within.sendFrame (fun _ h => h) (Within.refl (lsCapture s))
    (by simp [inputFrame])).rd x ?_
  unfold RingCell at hx
  simp only [seatRing] at hx
  unfold MailCell
  omega

omit hs in
theorem log_lsSend : (lsSend s).log = (lsCapture s).log := log_sendFrame _ _

theorem mark_lsSend : (lsSend s).mark = s.mark :=
  (mark_sendFrame _ _).trans (mark_lsCapture hs)

theorem tx_lsSend : (lsSend s).tx = s.tx ++ [6, ftInput, s.rd netSeat, dueTick s % 256,
    dueTick s / 256, s.rd execInL, s.rd execKpL] := by
  have hd : dueTick s < 65536 := Nat.mod_lt _ (by decide)
  have hin : s.rd execInL < 256 := s.rd_lt_256 (by decide)
  have hkp : s.rd execKpL < 256 := s.rd_lt_256 (by decide)
  have hframe := inputFrame_lsCapture hs (dueTick s)
  simp only [lsSend]
  rw [hframe, tx_sendFrame _ (by simp), tx_lsCapture hs]
  intro b hb
  simp only [List.mem_cons, List.not_mem_nil, or_false, ftInput] at hb
  rcases hb with rfl | rfl | rfl | rfl | rfl | rfl | rfl <;> omega

end capture

/-! ### The tick -/

/-- What the run of a tick leaves alone, as far as the rings and the counters go. -/
theorem not_tickCell_ring {x : ℕ} (hx : RingCell x) : ¬ TickCell x := by
  unfold RingCell at hx
  simp only [seatRing] at hx
  simp only [TickCell, PaceCell, DispatchCell, GameCell, execPhase, lsFroze, lsSave102, lsWaitcLo,
    lsWaitcHi, rsToLo, rsToHi, vdCtrl, scCnt2, scCnt3, sbQuiescent]
  omega

theorem shadowEv_congr {s t : Cpu} (hr : ∀ x, RingCell x → t.rd x = s.rd x)
    (ht : t.rd tickLo = s.rd tickLo) : shadowEv t = shadowEv s := by
  have h : ∀ p, seatRing ≤ p → p + 256 ≤ seatRing + 0x800 → vdCell p t = vdCell p s :=
    fun p h1 h2 => vdCell_congr (fun x hx hx' => hr x ⟨by omega, by omega⟩) ht
  rw [shadowEv, shadowEv, h _ (by decide) (by decide), h _ (by decide) (by decide),
    h _ (by decide) (by decide), h _ (by decide) (by decide)]

theorem dispatchEv_congr {s t : Cpu} {seat : ℕ} (hs : seat < 4)
    (hr : ∀ x, RingCell x → t.rd x = s.rd x)
    (ht : t.rd tickLo = s.rd tickLo) : dispatchEv seat t = dispatchEv seat s := by
  have h : ∀ p, seatRing ≤ p → p + 256 ≤ seatRing + 0x800 →
      vdCell p t = vdCell p s ∧ vdCellPrev p t = vdCellPrev p s :=
    fun p h1 h2 => ⟨vdCell_congr (fun x hx hx' => hr x ⟨by omega, by omega⟩) ht,
      vdCellPrev_congr (fun x hx hx' => hr x ⟨by omega, by omega⟩) ht⟩
  obtain ⟨h1, h2⟩ := h (seatRing + seat * 256) (by omega) (by omega)
  obtain ⟨h3, h4⟩ := h (seatRing + seat * 256 + 0x400) (by omega) (by omega)
  rw [dispatchEv, dispatchEv, h1, h2, h3, h4]

variable (C : Cart)

/-- `lsTick` up to the virtual dispatch. -/
def tickShadow (s : Cpu) : Cpu :=
  let s := lsUnfreeze s
  let s := s.emit (.due (s.rd sbCnt2Lo) (s.rd sbCnt2Hi))
  installTable (lsTblAdopt (updateShadow s))

theorem lsTick_eq : lsTick C s = nullTable (lsTblAdopt (scGameTick C (nullTable (lsTblAdopt
    (dispatchSeat C 1 (dispatchSeat C 0 (shadowFromRings (tickShadow s)))))))) := rfl

theorem dispatch_tick {a : ℕ} (h : DispatchCell a) : TickCell a := Or.inr (Or.inl h)

theorem within_tickShadow : Within TickCell s (tickShadow s) := by
  have h1 : Within TickCell s ((lsUnfreeze s).emit
      (.due ((lsUnfreeze s).rd sbCnt2Lo) ((lsUnfreeze s).rd sbCnt2Hi))) :=
    ((local_lsUnfreeze s).within.mono fun _ => Or.inl).emit
  have h2 := (local_updateShadow ((lsUnfreeze s).emit
    (.due ((lsUnfreeze s).rd sbCnt2Lo) ((lsUnfreeze s).rd sbCnt2Hi)))).trans
      ((local_lsTblAdopt _).trans (local_installTable _))
  exact h1.trans (h2.within.mono fun _ => dispatch_tick)

theorem log_tickShadow : (tickShadow s).log =
    s.mark.stamp (.due (s.rd sbCnt2Lo) (s.rd sbCnt2Hi)) :: s.log := by
  have hu := local_lsUnfreeze s
  simp only [tickShadow]
  rw [(local_installTable _).log, (local_lsTblAdopt _).log, (local_updateShadow _).log,
    Cpu.log_emit, hu.log, hu.mark, hu.rd _ (by decide), hu.rd _ (by decide)]

theorem mark_tickShadow : (tickShadow s).mark = s.mark := by
  simp only [tickShadow]
  rw [(local_installTable _).mark, (local_lsTblAdopt _).mark, (local_updateShadow _).mark,
    Cpu.mark_emit, (local_lsUnfreeze s).mark]

theorem tx_tickShadow : (tickShadow s).tx = s.tx := by
  simp only [tickShadow]
  rw [(local_installTable _).tx, (local_lsTblAdopt _).tx, (local_updateShadow _).tx,
    Cpu.tx_emit, (local_lsUnfreeze s).tx]

/-- `lsTick` up to the game tick. -/
def tickDispatch (s : Cpu) : Cpu :=
  nullTable (lsTblAdopt (dispatchSeat C 1 (dispatchSeat C 0 (shadowFromRings (tickShadow s)))))

theorem within_tickDispatch : Within TickCell s (tickDispatch C s) := by
  have h : Within DispatchCell (tickShadow s) (tickDispatch C s) :=
    ((within_shadowFromRings _).trans ((within_dispatchSeat _ C 0).trans
      (within_dispatchSeat _ C 1))).trans
        ((local_lsTblAdopt _).trans (local_nullTable _)).within
  exact (within_tickShadow s).trans (h.mono fun _ => dispatch_tick)

theorem mark_tickDispatch : (tickDispatch C s).mark = s.mark := by
  rw [tickDispatch, (local_nullTable _).mark, (local_lsTblAdopt _).mark, mark_dispatchSeat,
    mark_dispatchSeat]
  exact mark_tickShadow s

theorem tx_tickDispatch : (tickDispatch C s).tx = s.tx := by
  rw [tickDispatch, (local_nullTable _).tx, (local_lsTblAdopt _).tx, tx_dispatchSeat,
    tx_dispatchSeat]
  exact tx_tickShadow s

/-- The shadows and both dispatches read the rings of the state the tick started in. -/
theorem log_tickDispatch : (tickDispatch C s).log =
    s.mark.stamp (dispatchEv 1 s) :: s.mark.stamp (dispatchEv 0 s) ::
      s.mark.stamp (shadowEv s) ::
      s.mark.stamp (.due (s.rd sbCnt2Lo) (s.rd sbCnt2Hi)) :: s.log := by
  have h1 := within_tickShadow s
  have h2 := h1.trans ((within_shadowFromRings (tickShadow s)).mono fun _ => dispatch_tick)
  have h3 := h2.trans ((within_dispatchSeat _ C 0).mono fun _ => dispatch_tick)
  have hr : ∀ t, Within TickCell s t → ∀ x, RingCell x → t.rd x = s.rd x :=
    fun t ht x hx => ht.rd x (not_tickCell_ring hx)
  have hm : (shadowFromRings (tickShadow s)).mark = s.mark := mark_tickShadow s
  rw [tickDispatch, (local_nullTable _).log, (local_lsTblAdopt _).log,
    log_dispatchSeat _ C (by decide), log_dispatchSeat _ C (by decide), log_shadowFromRings,
    log_tickShadow, mark_dispatchSeat, hm, mark_tickShadow,
    dispatchEv_congr (by decide) (hr _ h3) (h3.rd _ (by decide)),
    dispatchEv_congr (by decide) (hr _ h2) (h2.rd _ (by decide)),
    shadowEv_congr (hr _ h1) (h1.rd _ (by decide))]

theorem within_lsTick : Within TickCell s (lsTick C s) := by
  have h := (within_tickDispatch s C).trans ((within_scGameTick C _).mono fun _ h => Or.inr (Or.inr h))
  exact h.trans (((local_lsTblAdopt _).trans (local_nullTable _)).within.mono fun _ => dispatch_tick)

theorem mark_lsTick : (lsTick C s).mark = s.mark := by
  rw [lsTick_eq, (local_nullTable _).mark, (local_lsTblAdopt _).mark, mark_scGameTick]
  exact mark_tickDispatch s C

theorem tx_lsTick : (lsTick C s).tx = s.tx := by
  rw [lsTick_eq, (local_nullTable _).tx, (local_lsTblAdopt _).tx, tx_scGameTick]
  exact tx_tickDispatch s C

theorem log_lsTick : (lsTick C s).log =
    s.mark.stamp (.mirror ((C.tick1 (tickDispatch C s).mem).get sbCnt2Lo)
      ((C.tick1 (tickDispatch C s).mem).get sbCnt2Hi)) ::
      s.mark.stamp (.gameTick ((tickDispatch C s).rd sbPhase)) ::
      s.mark.stamp (dispatchEv 1 s) :: s.mark.stamp (dispatchEv 0 s) ::
      s.mark.stamp (shadowEv s) ::
      s.mark.stamp (.due (s.rd sbCnt2Lo) (s.rd sbCnt2Hi)) :: s.log := by
  rw [lsTick_eq, (local_nullTable _).log, (local_lsTblAdopt _).log, ← tickDispatch,
    log_scGameTick, log_tickDispatch, mark_tickDispatch]

end pieces

end IntvNetplay.Console
