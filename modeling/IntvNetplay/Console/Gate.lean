import IntvNetplay.Console.Clamp
import IntvNetplay.Console.Rings

/-!
# What the gate stands for

The watermark of a seat is the highest tick that arrived.  The gate reads it as "every tick up to
here has arrived", which it is as long as the INPUT frames that are taken leave no captured tick out.
Under that condition the slot a pass runs on holds what the seat captured for the tick.
-/

namespace IntvNetplay.Console

open IntvNetplay.Machine

/-- What a seat captured for a tick, counted from the base of an epoch. -/
abbrev Captures := ℕ → ℕ → ℕ → Option (ℕ × ℕ)

/-- An INPUT of a seat for a tick was taken in an epoch. -/
def Stamped.Took (e : Stamped) (epoch seat off : ℕ) : Prop :=
  e.epoch = epoch ∧ ∃ tick dec kp, e.ev = .input seat tick dec kp off true

/-- A START that names one of four seats, at most four of them and a delay of at least one. -/
def Ev.Opens : Ev → Prop
  | .start seat count delay => seat < 4 ∧ count ≤ 4 ∧ 1 ≤ delay
  | _ => True

/-- An INPUT that is taken carries what its seat captured for its tick and is less than 256 ticks
ahead; every earlier tick since the base was taken before, or is one of the first 256 and the seat
captured nothing for it. -/
def Unbroken (cap : Captures) (e : Stamped) (older : List Stamped) : Prop :=
  ∀ seat tick dec kp off, e.ev = .input seat tick dec kp off true →
    cap e.epoch seat off = some (dec, kp) ∧ off < e.ran + 256 ∧
      ∀ x < off, (∃ e' ∈ older, e'.Took e.epoch seat x) ∨ cap e.epoch seat x = none ∧ x < 256

/-- Every START so far was in range and every INPUT taken so far unbroken. -/
def feedGuard (cap : Captures) : Guard where
  holds l := (∀ e ∈ l, e.ev.Opens) ∧ ∀ e older, e :: older <:+ l → Unbroken cap e older
  suffix h h' := ⟨fun e he => h'.1 e (h.subset he), fun e older ho => h'.2 e older (ho.trans h)⟩

theorem Ev.Opens.seats {e : Ev} (h : e.Opens) : e.Seats := by
  cases e <;> first | exact ⟨h.1, h.2.1⟩ | trivial

theorem feedGuard_seats {cap : Captures} {l : List Stamped} (h : (feedGuard cap).holds l) :
    seatsGuard.holds l := fun e he => (h.1 e he).seats

/-! ### The invariant -/

/-- The slots of a remote seat: those from the tick counter up to the watermark hold what the seat
captured, those of the first 256 ticks beyond the watermark are idle. -/
structure SeatFed (cap : Captures) (base seat : ℕ) (s : Cpu) : Prop where
  wm : s.wm seat = serial (base + s.mark.heard seat)
  near : s.mark.ran ≤ s.mark.heard seat + 1
  ahead : s.mark.heard seat < s.mark.ran + 256
  held : Window 256 (seatSlot s seat)
    (fun x => (cap s.mark.epoch seat (x - base)).getD idleSlot)
    (base + max s.mark.ran (s.rd netDelay)) (base + s.mark.heard seat + 1)
  fresh : Window 256 (seatSlot s seat) (fun _ => idleSlot) (base + s.mark.heard seat + 1) (base + 256)

/-- A match that goes on. -/
structure InMatch (cap : Captures) (s : Cpu) : Prop where
  delay : 1 ≤ s.rd netDelay
  seats : ∃ base, s.tick = serial (base + s.mark.ran) ∧
    ∀ i < s.rd netCount, i ≠ s.rd netSeat → SeatFed cap base i s

/-- What the log says of the epoch and the watermarks, and the slots while a match goes on. -/
structure Fed (cap : Captures) (s : Cpu) : Prop extends Seated s where
  past : ∀ e ∈ s.log, ∀ epoch seat off, e.Took epoch seat off →
    epoch ≤ s.mark.epoch ∧ (epoch = s.mark.epoch → off ≤ s.mark.heard seat)
  live : s.rd netActive ≠ 0 → s.rd netDropped = 0 → InMatch cap s

/-- No entry of an INPUT that was taken. -/
def Ev.NoInput : Ev → Prop
  | .input _ _ _ _ _ true => False
  | _ => True

theorem noInput_noted (e : Ev) (h : e.Noted) : e.NoInput := by cases e <;> trivial

theorem noInput_ofPass (e : Ev) (h : e.OfPass) : e.NoInput := by cases e <;> trivial

theorem Stamped.not_took {e : Stamped} (h : e.ev.NoInput) {epoch seat off : ℕ} :
    ¬ e.Took epoch seat off := by
  rintro ⟨-, tick, dec, kp, he⟩
  rw [he] at h
  exact h

/-- The cells that the invariant reads. -/
def FeedCell (a : ℕ) : Prop :=
  RingCell a ∨ WmCell a ∨ a = tickLo ∨ a = tickHi ∨ a = netSeat ∨ a = netCount ∨ a = netDelay ∨
    a = netActive ∨ a = netDropped

instance : DecidablePred FeedCell := fun a => by unfold FeedCell; infer_instance

/-- The counters that the invariant reads. -/
structure SameCount (s t : Cpu) : Prop where
  epoch : t.mark.epoch = s.mark.epoch
  ran : t.mark.ran = s.mark.ran
  heard : t.mark.heard = s.mark.heard

theorem SameCount.of_mark {s t : Cpu} (h : t.mark = s.mark) : SameCount s t :=
  ⟨by rw [h], by rw [h], by rw [h]⟩

theorem SameCount.trans {s t u : Cpu} (h : SameCount s t) (h' : SameCount t u) : SameCount s u :=
  ⟨h'.epoch.trans h.epoch, h'.ran.trans h.ran, h'.heard.trans h.heard⟩

section same

variable {cap : Captures} {s t : Cpu}

/-- A watermark is read from its two cells. -/
theorem wm_congr {i : ℕ} (h : ∀ b < 2, t.rd (seatWm + 2 * i + b) = s.rd (seatWm + 2 * i + b)) :
    t.wm i = s.wm i :=
  Cpu.wm_congr (h 0 (by decide)) (h 1 (by decide))

theorem wm_of_same (hr : ∀ a, FeedCell a → t.rd a = s.rd a) {i : ℕ} (hi : i < 4) :
    t.wm i = s.wm i := by
  apply wm_congr
  intro b hb
  exact hr _ (Or.inr (Or.inl ⟨by omega, by simp only [seatWm]; omega⟩))

theorem tick_of_same (hr : ∀ a, FeedCell a → t.rd a = s.rd a) : t.tick = s.tick :=
  Cpu.tick_congr (hr _ (by unfold FeedCell; simp)) (hr _ (by unfold FeedCell; simp))

/-- A seat's slots, watermark and counters are all that its part of the invariant reads. -/
theorem SeatFed.congr {base i : ℕ} (h : SeatFed cap base i s)
    (hslot : ∀ r < 256, seatSlot t i r = seatSlot s i r) (hwm : t.wm i = s.wm i)
    (hd : t.rd netDelay = s.rd netDelay) (hepoch : t.mark.epoch = s.mark.epoch)
    (hran : t.mark.ran = s.mark.ran) (hheard : t.mark.heard i = s.mark.heard i) :
    SeatFed cap base i t := by
  refine ⟨?_, ?_, ?_, ?_, ?_⟩
  · rw [hwm, hheard]
    exact h.wm
  · rw [hran, hheard]
    exact h.near
  · rw [hran, hheard]
    exact h.ahead
  · rw [hran, hheard, hepoch, hd]
    exact h.held.congr (by decide) hslot fun _ _ _ => rfl
  · rw [hheard]
    exact h.fresh.congr (by decide) hslot fun _ _ _ => rfl

theorem SeatFed.of_same {base i : ℕ} (h : SeatFed cap base i s) (hi : i < 4)
    (hr : ∀ a, FeedCell a → t.rd a = s.rd a) (hm : SameCount s t) : SeatFed cap base i t :=
  h.congr (fun _ hr' => seatSlot_congr (fun x hx => hr x (Or.inl hx)) hi hr') (wm_of_same hr hi)
    (hr _ (by unfold FeedCell; simp)) hm.epoch hm.ran (congrFun hm.heard i)

theorem InMatch.of_same (h : InMatch cap s) (hc : s.rd netCount ≤ 4)
    (hr : ∀ a, FeedCell a → t.rd a = s.rd a) (hm : SameCount s t) : InMatch cap t := by
  have hcell : ∀ a, a = netDelay ∨ a = netCount ∨ a = netSeat → t.rd a = s.rd a := fun a ha =>
    hr a (by unfold FeedCell; tauto)
  obtain ⟨base, htick, hseat⟩ := h.seats
  refine ⟨by rw [hcell _ (Or.inl rfl)]; exact h.delay, base, ?_, fun i hi hn => ?_⟩
  · rw [tick_of_same hr, hm.ran]
    exact htick
  · rw [hcell _ (Or.inr (Or.inl rfl))] at hi
    rw [hcell _ (Or.inr (Or.inr rfl))] at hn
    exact (hseat i hi hn).of_same (by omega) hr hm

/-- The entries of a piece that takes no INPUT keep what the log says. -/
theorem Fed.past_of_adds (h : Fed cap s) (ha : Adds Ev.NoInput s t)
    (hm : SameCount s t) : ∀ e ∈ t.log, ∀ epoch seat off, e.Took epoch seat off →
      epoch ≤ t.mark.epoch ∧ (epoch = t.mark.epoch → off ≤ t.mark.heard seat) := by
  intro e he epoch seat off ht
  rw [hm.epoch, hm.heard]
  rcases ha e he with he | he
  · exact h.past e he epoch seat off ht
  · exact absurd ht (Stamped.not_took he)

/-- A piece that leaves the invariant's cells and counters alone. -/
theorem Fed.of_same (h : Fed cap s) (hl : t.rd lobbyCnt ≤ 8)
    (hr : ∀ a, FeedCell a → t.rd a = s.rd a) (hm : SameCount s t) (ha : Adds Ev.NoInput s t) :
    Fed cap t where
  seat := by rw [hr _ (by unfold FeedCell; simp)]; exact h.seat
  count := by rw [hr _ (by unfold FeedCell; simp)]; exact h.count
  lobby := hl
  past := h.past_of_adds ha hm
  live h1 h2 := by
    rw [hr _ (by unfold FeedCell; simp)] at h1 h2
    exact (h.live h1 h2).of_same h.count hr hm

/-- The match is over. -/
theorem Fed.of_dropped (h : Fed cap s) (hs : Seated t) (hd : t.rd netDropped ≠ 0)
    (hm : SameCount s t) (ha : Adds Ev.NoInput s t) : Fed cap t where
  toSeated := hs
  past := h.past_of_adds ha hm
  live _ h2 := absurd h2 hd

/-- A new base: the entries so far belong to earlier epochs. -/
theorem Fed.past_of_base (h : Fed cap s) (ha : Adds Ev.NoInput s t)
    (hm : t.mark.epoch = s.mark.epoch + 1) : ∀ e ∈ t.log, ∀ epoch seat off,
      e.Took epoch seat off →
        epoch ≤ t.mark.epoch ∧ (epoch = t.mark.epoch → off ≤ t.mark.heard seat) := by
  intro e he epoch seat off ht
  rcases ha e he with he | he
  · have := (h.past e he epoch seat off ht).1
    exact ⟨by omega, fun heq => by omega⟩
  · exact absurd ht (Stamped.not_took he)

end same

/-! ### Pieces that leave the match alone -/

/-- What a step may change besides the match. -/
def QuietCell (a : ℕ) : Prop :=
  PumpCell a ∨ BoardCell a ∨ PaintCell a ∨ WantCell a ∨ BeginCell a ∨ ApplyCell a ∨ EntryCell a ∨
    TickCell a ∨ ReportCell a ∨ WaitCell a ∨ PushCell a ∨ MenuCell a

theorem not_quiet_feed {a : ℕ} (h : FeedCell a) : ¬ QuietCell a := by
  have hcells : ∀ b, b < 0x8000 ∨ 0x8C00 ≤ b ∨ ¬ FeedCell b → b ≠ a := by
    rintro b hb rfl
    simp only [FeedCell, RingCell, WmCell, seatRing, seatWm, tickLo, tickHi, netSeat, netCount,
      netDelay, netActive, netDropped] at h hb
    omega
  have htail : a ∉ rsTailtbl := fun hm =>
    (show ∀ b ∈ rsTailtbl, b < 0x8000 ∨ 0x8C00 ≤ b ∨ ¬ FeedCell b by decide) a hm |>
      fun hb => hcells a hb rfl
  simp only [FeedCell, RingCell, WmCell, seatRing, seatWm, tickLo, tickHi, netSeat, netCount,
    netDelay, netActive, netDropped] at h
  have h1 : ¬ (PumpCell a ∨ WantCell a ∨ BeginCell a) := by
    simp only [PumpCell, MailCell, RxCell, WantCell, BeginCell, HoldCell, CrcCell, rxWr, rxRd, rxacc,
      frmbuf, rsPend, rsPtmo, resyncHold, rsToLo, rsToHi, ownCrc, rsRLo, rsRHi]
    omega
  have h2 : ¬ (BoardCell a ∨ PaintCell a ∨ MenuCell a) := by
    simp only [BoardCell, PaintCell, RoomCell, RowCell, MenuCell, ScreenCell, NameCell, MailCell,
      backtab, uiColor, ppTmp, menuSel, lobbyCnt, roomCnt, roomHost, leftSeat, leftName, nameTbl,
      lobbyCache, menuPrev, sesTmrLo]
    omega
  have h3 : ¬ (ApplyCell a ∨ EntryCell a ∨ TickCell a) := by
    simp only [ApplyCell, ImgCell, htail, EntryCell, PaceCell, GoneCell, TickCell, DispatchCell,
      GameCell, gameScratch, backtab, objectTable, rsTmp, rsTmp2, rsPosLo, rsPosHi, execPhase, lsFroze,
      lsSave102, lsWaitcLo, lsWaitcHi, rsToLo, rsToHi, uiColor, peerScr, vdCtrl, scCnt2, scCnt3,
      sbQuiescent, or_false]
    omega
  have h4 : ¬ (ReportCell a ∨ WaitCell a ∨ PushCell a) := by
    simp only [ReportCell, MailCell, DisplayCell, CrcCell, WaitCell, PushCell, ChunkCell, HoldCell,
      ownCrc, lsTmpb, lsTmpb2, rsPtmo, rsGate, rsWaited, rsPosLo, rsPosHi, rsTmp2, resyncHold, rsToLo,
      rsToHi, rsRLo, rsRHi]
    omega
  unfold QuietCell
  tauto

section quiet

variable {cap : Captures} {s t : Cpu} {P : ℕ → Prop}

/-- Stores elsewhere. -/
theorem Fed.of_within (h : Fed cap s) (hw : Within P s t) (hP : ∀ a, P a → QuietCell a)
    (hl : t.rd lobbyCnt ≤ 8) (hm : SameCount s t) (ha : Adds Ev.NoInput s t) : Fed cap t :=
  h.of_same hl (fun a hf => hw.rd a fun hp => not_quiet_feed hf (hP a hp)) hm ha

theorem Fed.of_local (h : Fed cap s) (hw : Local P s t) (hP : ∀ a, P a → QuietCell a)
    (hl : ¬ P lobbyCnt) : Fed cap t :=
  h.of_within hw.within hP (by rw [hw.rd _ hl]; exact h.lobby) (.of_mark hw.mark)
    (Adds.of_log hw.log)

end quiet

/-! ### A new base -/

section base

variable {cap : Captures} {s t : Cpu}

/-- The rings idle, the watermarks one behind the delay, nothing run yet. -/
theorem SeatFed.of_base {base i : ℕ} (hi : i < 4)
    (hring : ∀ x, RingCell x → t.rd x = if x < seatKp then 0x40 else 0)
    (hwm : t.wm i = serial (base + (t.rd netDelay - 1))) (hd : 1 ≤ t.rd netDelay)
    (hran : t.mark.ran = 0) (hheard : t.mark.heard i = t.rd netDelay - 1) : SeatFed cap base i t := by
  have hlt : t.rd netDelay < 256 := t.rd_lt_256 (by decide)
  refine ⟨by rw [hheard, hwm], by omega, by omega, ?_, fun x _ _ => ?_⟩
  · exact Window.empty (by omega)
  · have hr : x % 256 < 256 := Nat.mod_lt _ (by decide)
    rw [seatSlot, hring _ (ring_cell hi hr), hring _ (kp_cell hi hr), if_pos, if_neg]
    · rfl
    · simp only [seatKp]; omega
    · simp only [seatRing, seatKp]; omega

theorem fed_onStart (h : Fed cap s) (hg : (feedGuard cap).holds (onStart s).log) :
    Fed cap (onStart s) := by
  have hs := seated_onStart h.toSeated (feedGuard_seats hg)
  by_cases hl : 38 ≤ s.rd frmbuf
  · have hlog := log_onStart hl
    have hmark := mark_onStart hl
    have hopen : 1 ≤ (takeStart s).rd netDelay :=
      (hg.1 ⟨_, _, _, _, .start _ _ _⟩ (hlog ▸ List.mem_cons_self)).2.2
    have hdelay := rd_netDelay_takeStart (s := s)
    have hadd : Adds Ev.NoInput s (onStart s) := (adds_onStart s).mono noInput_noted
    refine ⟨hs, h.past_of_base hadd (by rw [hmark]), fun _ _ => ⟨by rwa [rd_onStart hl], 0, ?_, ?_⟩⟩
    · rw [hmark, Cpu.tick_congr (rd_onStart hl _) (rd_onStart hl _)]
      exact tick_takeStart
    · intro i hi _
      have hi4 : i < 4 := Nat.lt_of_lt_of_le hi hs.count
      refine SeatFed.of_base hi4 (fun x hx => ?_) ?_ (by rwa [rd_onStart hl]) (by rw [hmark])
        (by rw [hmark, rd_onStart hl])
      · rw [rd_onStart hl, rd_takeStart_rings (Or.inl hx)]
        refine if_congr Iff.rfl rfl (if_pos ?_)
        simp only [RingCell, seatRing, ownCrc] at *
        omega
      · have hlt : s.rd (frmbuf + 6) < 256 := s.rd_lt_256 (by decide)
        have hwm : (onStart s).wm i = (takeStart s).wm i :=
          Cpu.wm_congr (rd_onStart hl _) (rd_onStart hl _)
        rw [hwm, wm_takeStart hi4, rd_onStart hl, hdelay]
        rw [hdelay] at hopen
        simp only [serial]
        omega
  · rw [onStart, if_pos (by omega)]
    exact h

theorem fed_rsRebase (h : Fed cap s) : Fed cap (rsRebase s) := by
  have hmark := mark_rsRebase s
  have hw := within_rsRebase s
  have hcell : ∀ a, a = netDelay ∨ a = netCount ∨ a = netSeat ∨ a = netActive ∨ a = netDropped →
      (rsRebase s).rd a = s.rd a := by
    rintro a (rfl | rfl | rfl | rfl | rfl) <;> exact hw.rd _ (by decide)
  have hadd : Adds Ev.NoInput s (rsRebase s) :=
    Adds.cons (t := s) (Adds.of_log rfl) (log_rsRebase s) trivial
  refine ⟨h.toSeated.of_within hw (by decide) (by decide) (by decide),
    h.past_of_base hadd (by rw [hmark]), fun h1 h2 => ?_⟩
  rw [hcell _ (by simp)] at h1 h2
  have hdelay := (h.live h1 h2).delay
  have hr : s.rd16 rsRLo rsRHi < 65536 :=
    word_lt (s.rd_lt_256 (by decide)) (s.rd_lt_256 (by decide))
  refine ⟨by rwa [hcell _ (by simp)], s.rd16 rsRLo rsRHi, ?_, fun i hi _ => ?_⟩
  · rw [tick_rsRebase, hmark, Nat.add_zero]
    exact (Nat.mod_eq_of_lt hr).symm
  · rw [hcell _ (by simp)] at hi
    have hi4 : i < 4 := Nat.lt_of_lt_of_le hi h.count
    refine SeatFed.of_base hi4 (fun x hx => ?_) ?_ (by rwa [hcell _ (by simp)]) (by rw [hmark])
      (by rw [hmark, hcell _ (by simp)])
    · rw [rd_rsRebase, rd_rsRestart_ring _ hx]
    · rw [wm_rsRebase s hi4, hcell _ (by simp)]
      simp only [serial]
      omega

end base

/-! ### Frames -/

section frames

variable {cap : Captures} {s : Cpu}

/-- The seat of an INPUT that is taken: the slots up to the frame's tick hold what was captured. -/
theorem SeatFed.take {base f off : ℕ} {t : Cpu} {p : ℕ × ℕ} (h : SeatFed cap base f s)
    (hcap : cap s.mark.epoch f off = some p) (hoff : s.mark.heard f < off)
    (hnear : off < s.mark.ran + 256)
    (hgap : ∀ x, s.mark.heard f < x → x < off → cap s.mark.epoch f x = none ∧ x < 256)
    (hslot : ∀ r < 256, seatSlot t f r = if r = (base + off) % 256 then p else seatSlot s f r)
    (hwm : t.wm f = serial (base + off)) (hd : t.rd netDelay = s.rd netDelay)
    (hepoch : t.mark.epoch = s.mark.epoch) (hran : t.mark.ran = s.mark.ran)
    (hheard : t.mark.heard f = off) : SeatFed cap base f t := by
  have hbefore := h.near
  refine ⟨by rw [hheard, hwm], by omega, by omega, ?_, fun x h1 h2 => ?_⟩
  · have hold : Window 256 (seatSlot s f) (fun x => (cap s.mark.epoch f (x - base)).getD idleSlot)
        (base + max s.mark.ran (s.rd netDelay)) (base + off) := by
      intro x h1 h2
      by_cases hx : x < base + s.mark.heard f + 1
      · exact h.held x h1 hx
      · -- a tick between the watermark and the frame: nothing was captured, the slot is idle
        obtain ⟨hnone, hlt⟩ := hgap (x - base) (by omega) (by omega)
        have hidle := h.fresh x (by omega) (by omega)
        dsimp only
        rw [hidle, hnone]
        rfl
    rw [hran, hheard, hepoch, hd]
    refine hold.snoc (fun r hr => ?_) (by omega)
    rw [hslot r hr, Nat.add_sub_cancel_left, hcap]
    rfl
  · rw [hheard] at h1
    rw [hslot _ (Nat.mod_lt _ (by decide)), if_neg (Ne.symm (slot_ne (by omega) (by omega)))]
    exact h.fresh x (by omega) h2

section accept

variable (h : Fed cap s) (hc : s.rd (frmbuf + 2) < s.rd netCount)
  (hg : (feedGuard cap).holds (acceptInput s).log)

include h in
/-- What the log says after an INPUT that is taken. -/
theorem past_acceptInput : ∀ e ∈ (acceptInput s).log, ∀ epoch seat off, e.Took epoch seat off →
    epoch ≤ (acceptInput s).mark.epoch ∧
      (epoch = (acceptInput s).mark.epoch → off ≤ (acceptInput s).mark.heard seat) := by
  intro e he epoch seat off htook
  obtain ⟨m, a, a', w, hlog⟩ := log_acceptInput s
  rw [hlog] at he
  rw [mark_acceptInput]
  dsimp only
  simp only [List.mem_cons] at he
  rcases he with rfl | rfl | he
  · exact absurd htook (Stamped.not_took (e := m.stamp (.slot a a' w)) trivial)
  · obtain ⟨hep, _, _, _, hev⟩ := htook
    simp only [Mark.stamp_ev, inputEv, Ev.input.injEq] at hev
    obtain ⟨rfl, -, -, -, rfl, -⟩ := hev
    exact ⟨Nat.le_of_eq hep.symm, fun _ => by rw [Function.update_self]⟩
  · obtain ⟨hle, hoff⟩ := h.past e he epoch seat off htook
    refine ⟨hle, fun heq => (hoff heq).trans ?_⟩
    by_cases hseat : seat = s.rd (frmbuf + 2)
    · rw [hseat, Function.update_self]
      omega
    · rw [Function.update_of_ne hseat]

include h hc hg in
/-- The seat of the frame. -/
theorem seatFed_acceptInput {base : ℕ} (hpos : 0 < inputDelta s)
    (hfed : SeatFed cap base (s.rd (frmbuf + 2)) s) :
    SeatFed cap base (s.rd (frmbuf + 2)) (acceptInput s) := by
  have hf4 : s.rd (frmbuf + 2) < 4 := Nat.lt_of_lt_of_le hc h.count
  obtain ⟨m, a, a', w, hlog⟩ := log_acceptInput s
  have hbroken : Unbroken cap (s.mark.stamp (inputEv s true)) s.log :=
    hg.2 _ _ (hlog ▸ List.suffix_cons _ _)
  obtain ⟨hcap, hnear, hgap⟩ := hbroken _ _ _ _ _ rfl
  have hft := frameTick_of_wm hfed.wm
  rw [Nat.add_assoc] at hft
  refine hfed.take (p := framePair s) hcap (Nat.lt_add_of_pos_right hpos) hnear
    (fun x hx hx' => ?_) (fun r hr => ?_) ?_ ((within_acceptInput hf4).rd _ (by decide)) rfl rfl ?_
  · rcases hgap x hx' with ⟨e, he, htook⟩ | hnone
    · have := (h.past e he _ _ _ htook).2 rfl
      omega
    · exact hnone
  · rw [seatSlot_acceptInput hf4 hf4 hr, hft]
    refine if_congr ?_ rfl rfl
    simp only [serial, true_and]
    omega
  · rw [wm_acceptInput hf4 hf4, if_pos rfl, hft]
  · rw [mark_acceptInput]
    exact Function.update_self _ _ _

include h hc hg in
theorem fed_acceptInput (hn : s.rd (frmbuf + 2) ≠ s.rd netSeat) (hpos : 0 < inputDelta s) :
    Fed cap (acceptInput s) := by
  have hf4 : s.rd (frmbuf + 2) < 4 := Nat.lt_of_lt_of_le hc h.count
  have hw := within_acceptInput hf4
  refine ⟨h.toSeated.of_within hw (by decide) (by decide) (by decide), past_acceptInput h,
    fun h1 h2 => ?_⟩
  rw [hw.rd _ (by decide)] at h1 h2
  obtain ⟨hd, base, htick, hseat⟩ := h.live h1 h2
  refine ⟨by rwa [hw.rd _ (by decide)], base, ?_, fun i hi hne => ?_⟩
  · rw [Cpu.tick_congr (hw.rd _ (by decide)) (hw.rd _ (by decide))]
    exact htick
  · rw [hw.rd _ (by decide)] at hi hne
    have hi4 : i < 4 := Nat.lt_of_lt_of_le hi h.count
    by_cases hif : i = s.rd (frmbuf + 2)
    · rw [hif]
      exact seatFed_acceptInput h hc hg hpos (hseat _ hc hn)
    · refine (hseat i hi hne).congr (fun r hr => ?_) ?_ (hw.rd _ (by decide)) rfl rfl ?_
      · rw [seatSlot_acceptInput hf4 hi4 hr, if_neg fun hc => hif hc.1]
      · rw [wm_acceptInput hf4 hi4, if_neg hif]
      · rw [mark_acceptInput]
        exact Function.update_of_ne hif _ _

end accept

theorem fed_onInput (h : Fed cap s) (hg : (feedGuard cap).holds (onInput s).log) :
    Fed cap (onInput s) := by
  rcases onInput_cases s with (he | he) | ⟨hn, hc, hpos, -, he⟩
  · rwa [he]
  · rw [he]
    exact h.of_same h.lobby (fun _ _ => rfl) (.of_mark rfl)
      (Adds.cons (t := s) (Adds.of_log rfl) (x := s.mark.stamp (inputEv s false)) rfl trivial)
  · rw [he] at hg ⊢
    exact fed_acceptInput h hc hg hn hpos

theorem fed_rsOnControl (h : Fed cap s) : Fed cap (rsOnControl s) := by
  unfold rsOnControl
  split_ifs
  · exact h.of_local (Local.diagBump (P := MailCell) (Local.refl s) (by decide))
      (fun _ hm => Or.inl (Or.inl hm)) (by decide)
  · exact h.of_local (local_beginFrame s) (fun _ hb => by unfold QuietCell; tauto) (by decide)
  · exact h
  · exact h
  · exact fed_rsRebase h

theorem fed_rsOnChunk (h : Fed cap s) : Fed cap (rsOnChunk s) := by
  have hbad : ∀ {t : Cpu}, Fed cap t → Fed cap (rsBad t) := fun {t} ht =>
    ht.of_local (Local.diagBump (P := MailCell) (Local.refl t) (by decide))
      (fun _ hm => Or.inl (Or.inl hm)) (by decide)
  have hbad' : ∀ v, Fed cap (rsBad (s.st rsTmp2 v)) := fun v => hbad
    (h.of_local (P := ApplyCell) ((Local.refl s).st (by decide)) (fun _ hb => by unfold QuietCell; tauto)
      (by decide))
  simp only [rsOnChunk]
  split_ifs with h1 h2 h3 h4
  · exact hbad h
  · exact hbad h
  · exact hbad' _
  · exact hbad' _
  · have hn : s.rd16 (frmbuf + 2) (frmbuf + 3) + (s.rd frmbuf - 3) ≤ imgTotal := by
      simp only [imgTotal] at h4 ⊢
      omega
    have hw := within_rsApply s hn
    refine h.of_within hw (fun _ hb => by unfold QuietCell; tauto)
      (by rw [hw.rd _ (by decide)]; exact h.lobby) ?_
      (Adds.cons (t := s) (Adds.of_log rfl) (log_rsApply s hn) trivial)
    have hm := mark_rsApply s hn
    exact ⟨by rw [hm], by rw [hm], by rw [hm]⟩

theorem fed_sesOnframe (h : Fed cap s) (hg : (feedGuard cap).holds (sesOnframe s).log) :
    Fed cap (sesOnframe s) := by
  have hs := seated_sesOnframe h.toSeated (feedGuard_seats hg)
  have ha : s.rd (frmbuf + 1) ≠ ftInput → Adds Ev.NoInput s (sesOnframe s) := fun hi =>
    (adds_sesOnframe s hi).mono noInput_noted
  simp only [sesOnframe] at hg hs ha ⊢
  split_ifs at hg hs ha ⊢ with hin
  · exact fed_onInput h hg
  · exact h.of_within (local_onLobby s).within (fun _ hb => by unfold QuietCell; tauto) hs.lobby
      (.of_mark (local_onLobby s).mark) (ha hin)
  · exact fed_onStart h hg
  · have hd : (onPeerLeft s).rd netDropped = 1 := by
      rw [onPeerLeft, (local_lsIdleRmt _).rd _ (by decide)]
      simp [cellBits]
    exact h.of_dropped hs (by rw [hd]; decide) (.of_mark (local_onPeerLeft s).mark) (ha hin)
  · exact h.of_within (within_onRoom_any s h.lobby) (fun _ hb => by unfold QuietCell; tauto) hs.lobby
      (.of_mark (mark_onRoom s)) (ha hin)
  · exact h.of_within (within_rsOnCrc s) (fun _ hb => by unfold QuietCell; tauto) hs.lobby
      (.of_mark (mark_rsOnCrc s)) (ha hin)
  · unfold rsOnState
    split_ifs
    · exact h.of_local (Local.diagBump (P := MailCell) (Local.refl s) (by decide))
        (fun _ hm => Or.inl (Or.inl hm)) (by decide)
    · exact fed_rsOnControl h
    · exact fed_rsOnChunk h
  · exact h.of_within (within_rsOnReq s) (fun _ hb => by unfold QuietCell; tauto) hs.lobby
      (.of_mark (mark_rsOnReq s)) (ha hin)
  · exact h

end frames

/-! ### A pass -/

section pass

variable {cap : Captures} {s t : Cpu}

theorem fed_countOrDrop (h : Fed cap s) (ht : CountOrDrop s t) : Fed cap t := by
  rcases ht with ht | ⟨ht, hd⟩
  · exact h.of_local ht (fun _ hb => by unfold QuietCell EntryCell; tauto) (by decide)
  · exact h.of_dropped (h.toSeated.of_within ht.within (by decide) (by decide) (by decide))
      (by rw [hd]; decide) (.of_mark ht.mark) (Adds.of_log ht.log)

theorem fed_lsReturn (h : Fed cap s) : Fed cap (lsReturn s) :=
  h.of_same h.lobby (fun _ _ => rfl) ⟨rfl, rfl, rfl⟩ (Adds.of_log rfl)

theorem fed_lsEntry (h : Fed cap s) : Fed cap (lsEntry s).cpu := by
  have hw := within_lsEntry s
  refine h.of_within hw (fun _ hb => by unfold QuietCell; tauto)
    (by rw [hw.rd _ (by decide)]; exact h.lobby) ?_ (Adds.of_log (log_lsEntry s))
  have hret : SameCount s (lsReturn s) := ⟨rfl, rfl, rfl⟩
  have hhold : SameCount (lsFreeze s) (lsHold s) := ⟨rfl, rfl, rfl⟩
  unfold lsEntry
  split_ifs
  · exact hret
  · exact .of_mark (local_lsGone s).mark
  · exact (SameCount.of_mark (local_lsFreeze s).mark).trans hhold
  · exact .of_mark rfl

/-- A capture leaves the watermarks alone. -/
theorem wm_lsSend (hs : s.rd netSeat < 4) {i : ℕ} (hi : i < 4) : (lsSend s).wm i = s.wm i := by
  apply wm_congr
  intro b hb
  apply (within_lsSend hs).rd
  simp only [CaptureCell, RingCell, MailCell, seatRing, seatWm, lsTmpb, lsTmpb2]
  omega

/-- A capture goes to the slots of the own seat. -/
theorem fed_lsSend (h : Fed cap s) : Fed cap (lsSend s) := by
  have hw := within_lsSend (s := s) h.seat
  have hmark := mark_lsSend (s := s) h.seat
  have hcell : ∀ a, ¬ (CaptureCell a ∨ MailCell a) → (lsSend s).rd a = s.rd a := hw.rd
  refine ⟨h.toSeated.of_within hw (by decide) (by decide) (by decide),
    h.past_of_adds ?_ (.of_mark hmark), fun h1 h2 => ?_⟩
  · exact (Adds.of_log (s := s) (t := s) rfl).cons (log_lsSend.trans (log_lsCapture h.seat)) trivial
  · rw [hcell _ (by decide)] at h1 h2
    obtain ⟨hd, base, htick, hseat⟩ := h.live h1 h2
    refine ⟨by rwa [hcell _ (by decide)], base, ?_, fun i hi hne => ?_⟩
    · rw [Cpu.tick_congr (hcell _ (by decide)) (hcell _ (by decide)), hmark]
      exact htick
    · rw [hcell _ (by decide)] at hi hne
      have hi4 : i < 4 := Nat.lt_of_lt_of_le hi h.count
      refine (hseat i hi hne).congr (fun r hr => ?_) (wm_lsSend h.seat hi4) (hcell _ (by decide))
        (by rw [hmark]) (by rw [hmark]) (by rw [hmark])
      rw [seatSlot_lsSend h.seat hi4 hr, if_neg fun hc => hne hc.1]

/-- An open gate: no remote seat is behind. -/
theorem due_of_gateOpen {base : ℕ} (htick : s.tick = serial (base + s.mark.ran))
    (hseat : ∀ i < s.rd netCount, i ≠ s.rd netSeat → SeatFed cap base i s)
    (hopen : gateOpen s = true) (hd : s.rd netDropped = 0) :
    ∀ i < s.rd netCount, i ≠ s.rd netSeat → s.mark.ran ≤ s.mark.heard i := by
  intro i hi hne
  have hfed := hseat i hi hne
  have hahead := hfed.ahead
  have hnear := hfed.near
  simp only [gateOpen, hd, ne_eq, not_true_eq_false, decide_false, Bool.false_or, List.all_eq_true,
    List.mem_range, Bool.not_eq_true', seatBehind, Bool.and_eq_false_iff, decide_eq_false_iff_not,
    not_not] at hopen
  rcases hopen i (by omega) with h | h
  · exact absurd h hne
  · rw [hfed.wm, htick, ← Bool.not_eq_true, minus_sub16_iff (by omega) (by omega)] at h
    omega

theorem fed_rsPending (h : Fed cap s) : Fed cap (rsPending s) := by
  rcases rsPending_cases s with hw | ⟨-, -, -, t, ht, he⟩
  · exact h.of_local hw (fun _ hb => by unfold QuietCell; tauto) (by decide)
  · have hwait : Fed cap t := h.of_local ht (fun _ hb => by unfold QuietCell; tauto) (by decide)
    have hsent : Fed cap (pushSent t) :=
      hwait.of_within (within_pushSent t) (fun _ hb => by unfold QuietCell; tauto)
        (by rw [(within_pushSent t).rd _ (by decide)]; exact hwait.lobby) (.of_mark (mark_pushSent t))
        (Adds.cons (t := t) (Adds.of_log rfl) (log_pushSent t) trivial)
    rw [he, rsPush_eq]
    exact fed_rsRebase hsent

/-- The run of a tick leaves the cells of the invariant alone, the tick counter apart. -/
theorem rd_runBody_feed (C : Cart) {a : ℕ} (ha : FeedCell a) (h1 : a ≠ tickLo) (h2 : a ≠ tickHi) :
    (runBody C s).rd a = s.rd a := by
  apply (within_runBody s C).rd
  rintro (hb | hb | hb | hb)
  · exact not_quiet_feed ha (by unfold QuietCell; tauto)
  · exact not_quiet_feed ha (by unfold QuietCell; tauto)
  · exact hb.elim h1 h2
  · exact not_quiet_feed ha (Or.inr (Or.inl (Or.inl hb)))

theorem seatSlot_runBody (C : Cart) {i r : ℕ} (hi : i < 4) (hr : r < 256) :
    seatSlot (runBody C s) i r = seatSlot s i r := by
  refine seatSlot_congr (fun x hx => ?_) hi hr
  apply rd_runBody_feed C (Or.inl hx)
  · simp only [RingCell, seatRing, tickLo] at *
    omega
  · simp only [RingCell, seatRing, tickHi] at *
    omega

theorem wm_runBody (C : Cart) {i : ℕ} (hi : i < 4) : (runBody C s).wm i = s.wm i := by
  apply wm_congr
  intro b hb
  have hc : WmCell (seatWm + 2 * i + b) ∧ seatWm + 2 * i + b ≠ tickLo ∧
      seatWm + 2 * i + b ≠ tickHi := by
    simp only [WmCell, seatWm, tickLo, tickHi]
    omega
  exact rd_runBody_feed C (Or.inr (Or.inl hc.1)) hc.2.1 hc.2.2

/-- The run of a tick moves the counter; the slots and the watermarks stay. -/
theorem fed_runBody (C : Cart) (h : Fed cap s) (hdue : s.rd netActive ≠ 0 → s.rd netDropped = 0 →
    ∀ i < s.rd netCount, i ≠ s.rd netSeat → s.mark.ran ≤ s.mark.heard i) :
    Fed cap (runBody C s) := by
  have hw := within_runBody s C
  have hmark := mark_runBody s C
  have hadd := (adds_runBody C s).mono noInput_ofPass
  refine ⟨h.toSeated.of_within hw (by decide) (by decide) (by decide), fun e he epoch seat off ht => ?_,
    fun h1 h2 => ?_⟩
  · rw [hmark]
    rcases hadd e he with he | he
    · exact h.past e he epoch seat off ht
    · exact absurd ht (Stamped.not_took he)
  · rw [hw.rd _ (by decide)] at h1 h2
    obtain ⟨hd, base, htick, hseat⟩ := h.live h1 h2
    refine ⟨by rwa [hw.rd _ (by decide)], base, ?_, fun i hi hne => ?_⟩
    · rw [tick_runBody, htick, hmark]
      simp only [serial]
      omega
    · rw [hw.rd _ (by decide)] at hi hne
      have hi4 : i < 4 := Nat.lt_of_lt_of_le hi h.count
      have hfed := hseat i hi hne
      have hnear := hdue h1 h2 i hi hne
      have hahead := hfed.ahead
      have hslot : ∀ r < 256, seatSlot (runBody C s) i r = seatSlot s i r := fun r hr =>
        seatSlot_runBody C hi4 hr
      refine ⟨by rw [wm_runBody C hi4, hmark]; exact hfed.wm, ?_, ?_, ?_, ?_⟩
      · rw [hmark]
        exact Nat.add_le_add_right hnear 1
      · rw [hmark]
        dsimp only
        omega
      · rw [hmark, hw.rd netDelay (by decide)]
        exact (hfed.held.mono (by dsimp only; omega) (Nat.le_refl _)).congr (by decide) hslot
          fun _ _ _ => rfl
      · rw [hmark]
        exact hfed.fresh.congr (by decide) hslot fun _ _ _ => rfl

theorem fed_lsGate (C : Cart) (h : Fed cap s) : Fed cap (lsGate C s).cpu := by
  unfold lsGate
  split_ifs with hopen
  · rw [lsRun_eq]
    refine fed_lsReturn (fed_rsPending (fed_runBody C h fun h1 h2 => ?_))
    obtain ⟨-, base, htick, hseat⟩ := h.live h1 h2
    exact due_of_gateOpen htick hseat hopen h2
  · exact h.of_local (local_lsFreeze s) (fun _ hb => by unfold QuietCell EntryCell; tauto) (by decide)

theorem fed_afterPump {raw : ℕ} {ph : Phase} {n : Node} (h : Fed cap s)
    (ha : afterPump raw ph s = some n) : Fed cap n.cpu := by
  have hmenu : ∀ {t}, Within MenuCell s t → Silent s t → Fed cap t := fun hw hs =>
    h.of_within hw (fun _ hb => by unfold QuietCell; tauto) (by rw [hw.rd _ (by decide)]; exact h.lobby)
      (.of_mark hs.mark) (Adds.of_log hs.log)
  cases ph <;> simp only [afterPump, Option.some.injEq, reduceCtorEq] at ha <;> subst ha
  · exact hmenu (within_lobbyRound raw h.lobby h.count) (silent_lobbyRound raw s)
  · have hl := local_matchedRound s
    exact hmenu hl.within ⟨hl.log, hl.mark⟩
  · exact fed_lsReturn (fed_countOrDrop h (countOrDrop_holdTail s))
  · exact h
  · exact fed_countOrDrop h (countOrDrop_stallTail s)

theorem fed_advance {C : Cart} {n n' : Node} (h : Fed cap n.cpu) (ha : advance C n = some n') :
    Fed cap n'.cpu := by
  obtain ⟨ph, s⟩ := n
  cases ph <;> simp only [advance, Option.some.injEq, reduceCtorEq] at ha <;> subst ha
  · exact fed_lsEntry h
  · dsimp only
    exact fed_lsSend h
  · exact fed_lsGate C h

theorem kept_fed (W : World) : Kept W (feedGuard cap) (Fed cap) where
  fetch p s h := h.of_local (local_sesFetch p s) (fun _ => Or.inl) (by decide)
  slip s h := h.of_local (local_ppSlip s) (fun _ => Or.inl) (by decide)
  frame s h hf _ hg :=
    fed_sesOnframe (h.of_local (local_ppExtract_frame hf) (fun _ => Or.inl) (by decide)) hg
  after raw ph s n h ha := fed_afterPump h ha
  own n n' h ha := fed_advance h ha
  outside s m h hm := h.of_local (local_outside hm)
    (fun _ hb => by unfold QuietCell MenuCell; tauto) (by decide)

end pass

/-! ### Runs -/

/-- What an open gate stands for: from the delay on, the slot of every remote seat for the tick holds
what the seat captured for it, or is idle when it captured nothing. -/
def GateFed (cap : Captures) (n : Node) : Prop :=
  n.phase = .gate → gateOpen n.cpu = true → n.cpu.rd netDropped = 0 →
    n.cpu.rd netDelay ≤ n.cpu.mark.ran → ∀ i < n.cpu.rd netCount, i ≠ n.cpu.rd netSeat →
      seatSlot n.cpu i (n.cpu.rd tickLo) =
        (cap n.cpu.mark.epoch i n.cpu.mark.ran).getD idleSlot

theorem fed_loggedIn (cap : Captures) (name : List ℕ) (m : Mem) (rom : Rom) :
    Fed cap (loggedIn name m rom).cpu where
  toSeated := seated_loggedIn name m rom
  past := by rw [log_loggedIn]; simp
  live h := by
    refine absurd ?_ h
    rw [rd_loggedIn (by decide) (by decide) (by decide)]
    decide

/-- **The gate never opens on a missing input**, in a run in which every START is in range and no INPUT
that is taken leaves a captured tick out: at every open gate of a match that was not dropped, the slot
of every remote seat holds what the seat captured for the tick. -/
theorem open_gate_fed {W : World} {cap : Captures} (name : List ℕ) (m : Mem) (rom : Rom) {n : Node}
    (hr : Run W (loggedIn name m rom) n) (hg : (feedGuard cap).holds n.cpu.log) : GateFed cap n := by
  have hfed := (kept_fed W).run (fed_loggedIn cap name m rom) hr hg
  intro hph hopen hdrop hdelay i hi hne
  have hact := active_of_run rfl (seated_loggedIn name m rom) hr (feedGuard_seats hg)
    (by rw [hph]; decide)
  obtain ⟨-, base, htick, hseat⟩ := hfed.live hact hdrop
  have hdue := due_of_gateOpen htick hseat hopen hdrop i hi hne
  have hheld := (hseat i hi hne).held (base + n.cpu.mark.ran) (by omega) (by omega)
  have hlo : n.cpu.rd tickLo = (base + n.cpu.mark.ran) % 256 := by
    have h256 : n.cpu.tick % 256 = n.cpu.rd tickLo := word_mod_256 (n.cpu.rd_lt_256 (by decide))
    rw [← h256, htick, serial]
    omega
  rw [hlo, hheld]
  dsimp only
  rw [Nat.add_sub_cancel_left]

/-! ### A guest whose host's first INPUT is lost -/

theorem Unbroken.of_noInput {cap : Captures} {e : Stamped} {older : List Stamped}
    (h : e.ev.NoInput) : Unbroken cap e older := by
  intro seat tick dec kp off he
  rw [he] at h
  exact h.elim

theorem feedGuard_cons {cap : Captures} {e : Stamped} {l : List Stamped}
    (h : (feedGuard cap).holds l) (ho : e.ev.Opens) (hu : Unbroken cap e l) :
    (feedGuard cap).holds (e :: l) := by
  refine ⟨List.forall_mem_cons.2 ⟨ho, h.1⟩, fun e' older hs => ?_⟩
  rcases List.suffix_cons_iff.1 hs with heq | hs
  · rw [List.cons.injEq] at heq
    rw [heq.1, heq.2]
    exact hu
  · exact h.2 e' older hs

/-- An entry that opens no match out of range and takes no INPUT. -/
def Ev.Calm (e : Ev) : Prop := e.NoInput ∧ e.Opens

theorem opens_ofPass (e : Ev) (h : e.OfPass) : e.Opens := by cases e <;> trivial

theorem calm_ofPass (e : Ev) (h : e.OfPass) : e.Calm := ⟨noInput_ofPass e h, opens_ofPass e h⟩

theorem feedGuard_of_calm {cap : Captures} {l : List Stamped} (h : ∀ e ∈ l, e.ev.Calm) :
    (feedGuard cap).holds l :=
  ⟨fun e he => (h e he).2, fun e _ hs => Unbroken.of_noInput (h e (hs.subset List.mem_cons_self)).1⟩

/-- The cells of a pass that the two passes below keep. -/
def GuestCell (a : ℕ) : Prop :=
  WmCell a ∨ EntryTest a ∨ a = netSeat ∨ a = netCount ∨ a = netDelay ∨ RxCell a

instance : DecidablePred EntryTest := fun a => by unfold EntryTest; infer_instance
instance : DecidablePred GuestCell := fun a => by unfold GuestCell; infer_instance

/-- The guest of two at the top of a pass, with nothing buffered and nothing heard. -/
structure Waiting (n : ℕ) (s : Cpu) : Prop where
  rdSeat : s.rd netSeat = 1
  rdCount : s.rd netCount = 2
  rdDelay : s.rd netDelay = 1
  entry : ∀ a, EntryTest a → s.rd a = 0
  rx : rxBytes s = []
  tick : s.tick = n
  wm : s.wm 0 = 0
  idle : seatSlot s 0 1 = idleSlot
  epoch : s.mark.epoch = 1
  ran : s.mark.ran = n
  heard : s.mark.heard 0 = 0
  raw : s.mark.raw = false
  calm : ∀ e ∈ s.log, e.ev.Calm

theorem Waiting.of_kicked {t : Cpu} (h : Kicked 1 2 1 guest.cpu t) : Waiting 0 t where
  rdSeat := h.rdSeat
  rdCount := h.rdCount
  rdDelay := h.rdDelay
  entry := h.entry
  rx := h.rx
  tick := h.toOpened.tick
  wm := h.wm 0 (by decide)
  idle := by
    rw [seatSlot, h.rings _ (Or.inl (ring_cell (by decide) (by decide))),
      h.rings _ (Or.inl (kp_cell (by decide) (by decide)))]
    rfl
  epoch := by rw [h.mark, guest, mark_loggedIn]; rfl
  ran := by rw [h.mark]
  heard := by rw [h.mark]
  raw := by rw [h.mark, guest, mark_loggedIn]; rfl
  calm := by
    rw [h.log, log_guest]
    simp only [List.mem_singleton, forall_eq]
    exact ⟨trivial, by decide, by decide, by decide⟩

/-- A watermark no lower than the tick leaves the gate open. -/
theorem gateOpen_two {s : Cpu} (hs : s.rd netSeat = 1) (hc : s.rd netCount = 2)
    (hw : minus (sub16 (s.wm 0) s.tick) = false) : gateOpen s = true := by
  have h0 : seatBehind s 0 = false := by rw [seatBehind, hw, Bool.and_false]
  have h1 : seatBehind s 1 = false := by rw [seatBehind, hs]; rfl
  rw [gateOpen, hc, Bool.or_eq_true, List.all_eq_true]
  right
  intro i hi
  rw [List.mem_range] at hi
  have : i = 0 ∨ i = 1 := by omega
  rcases this with rfl | rfl
  · rw [h0]; rfl
  · rw [h1]; rfl

theorem guest_bounds {a : ℕ} (h : GuestCell a) : ¬ MailCell a ∧ ¬ CaptureCell a ∧ ¬ BodyCell a := by
  have hcells : ∀ a ∈ [netDropped, resyncHold, peerScr, netSeat, netCount, netDelay, rxWr, rxRd] ++
      List.range' seatWm 8, ¬ MailCell a ∧ ¬ CaptureCell a ∧ ¬ BodyCell a := by decide
  have hacc : rxacc ≤ a → a < rxacc + 256 → ¬ MailCell a ∧ ¬ CaptureCell a ∧ ¬ BodyCell a := by
    intro h1 h2
    simp only [rxacc] at h1 h2
    simp only [MailCell, CaptureCell, RingCell, BodyCell, TickCell, WrapCell, PaceCell, DispatchCell,
      GameCell, ReportCell, DisplayCell, CrcCell, CounterCell, ScreenCell, seatRing, lsTmpb, lsTmpb2,
      execPhase, lsFroze, lsSave102, lsWaitcLo, lsWaitcHi, rsToLo, rsToHi, backtab, vdCtrl, scCnt2, scCnt3,
      sbQuiescent, ownCrc, tickLo, tickHi, uiColor]
    omega
  rcases h with ⟨h1, h2⟩ | (rfl | rfl | rfl) | rfl | rfl | rfl | rfl | rfl | ⟨h1, h2⟩
  · refine hcells a ?_
    rw [List.mem_append, List.mem_range'_1]
    exact Or.inr ⟨h1, h2⟩
  all_goals first | exact hacc h1 h2 | exact hcells _ (by decide)

theorem ring_mail (a : ℕ) (h : RingCell a) : ¬ MailCell a := by
  simp only [RingCell, seatRing] at h
  simp only [MailCell]
  omega

theorem wm_guest {s t : Cpu} (h : ∀ a, GuestCell a → t.rd a = s.rd a) : t.wm 0 = s.wm 0 :=
  Cpu.wm_congr (h _ (by decide)) (h _ (by decide))

/-- A capture of the guest and the run of its tick keep what the gate reads of seat 0. -/
theorem seatSlot_pass {s : Cpu} (hs : s.rd netSeat = 1) :
    seatSlot (lsSend s) 0 1 = seatSlot s 0 1 ∧
      seatSlot (runBody bootWorld.cart (lsSend s)) 0 1 = seatSlot s 0 1 := by
  have hsend : seatSlot (lsSend s) 0 1 = seatSlot s 0 1 := by
    rw [seatSlot_lsSend (by omega) (by decide) (by decide), if_neg (by rw [hs]; omega)]
  refine ⟨hsend, ?_⟩
  have hw := within_runBody (lsSend s) bootWorld.cart
  rw [← hsend, seatSlot, seatSlot, hw.rd _ (by decide), hw.rd _ (by decide)]

/-- One silent pass of the waiting guest. -/
theorem Waiting.pass {s : Cpu} (h : Waiting 0 s) :
    ∃ t, GuardedRun bootWorld ⟨.top, s⟩ ⟨.top, t⟩ ∧ Waiting 1 t := by
  have hp := (sesPump_silent h.rx).1
  obtain ⟨p, hpdef⟩ : ∃ p, p = sesPump .silent s := ⟨_, rfl⟩
  rw [← hpdef] at hp
  have hpseat : p.rd netSeat = 1 := by rw [hp.rd _ (by decide), h.rdSeat]
  have hsend := within_lsSend (s := p) (by omega)
  have hbody := within_runBody (lsSend p) bootWorld.cart
  have hpk : ∀ a, GuestCell a → p.rd a = s.rd a := fun a ha => hp.rd a (guest_bounds ha).1
  have hsk : ∀ a, GuestCell a → (lsSend p).rd a = s.rd a := fun a ha => by
    rw [hsend.rd a (not_or.2 ⟨(guest_bounds ha).2.1, (guest_bounds ha).1⟩), hpk a ha]
  have hkept : ∀ a, GuestCell a → (runBody bootWorld.cart (lsSend p)).rd a = s.rd a := fun a ha => by
    rw [hbody.rd a (guest_bounds ha).2.2, hsk a ha]
  have hwm : ∀ {t : Cpu}, (∀ a, GuestCell a → t.rd a = s.rd a) → t.wm 0 = 0 := fun ht =>
    (wm_guest ht).trans h.wm
  have hptick : (lsSend p).tick = 0 := by
    rw [← h.tick, Cpu.tick_congr (hsend.rd _ (by decide)) (hsend.rd _ (by decide)),
      Cpu.tick_congr (hp.rd _ (by decide)) (hp.rd _ (by decide))]
  have hopen : gateOpen (lsSend p) = true := by
    refine gateOpen_two ((hsk _ (by decide)).trans h.rdSeat) ((hsk _ (by decide)).trans h.rdCount) ?_
    rw [hwm hsk, hptick]
    decide
  have hgate : lsGate bootWorld.cart (lsSend p) =
      ⟨.idle, lsReturn (runBody bootWorld.cart (lsSend p))⟩ := by
    rw [lsGate, if_pos hopen, lsRun_eq, rsPending_of_guest _ (by rw [hkept _ (by decide), h.rdSeat]; decide)]
  have hslot := (seatSlot_pass hpseat).2
  have hmark : (runBody bootWorld.cart (lsSend p)).mark = { s.mark with ran := s.mark.ran + 1 } := by
    rw [mark_runBody, mark_lsSend (by omega), hp.mark]
  have htick : (runBody bootWorld.cart (lsSend p)).tick = 1 := by
    rw [tick_runBody, hptick]
  have hcalm : ∀ e ∈ (runBody bootWorld.cart (lsSend p)).log, e.ev.Calm := by
    intro e he
    rcases adds_runBody _ _ e he with he | he
    · rw [log_lsSend, log_lsCapture (by omega), List.mem_cons, hp.log] at he
      rcases he with rfl | he
      · exact ⟨trivial, trivial⟩
      · exact h.calm e he
    · exact calm_ofPass _ he
  generalize runBody bootWorld.cart (lsSend p) = r at hgate hkept hslot hmark htick hcalm
  have hret : ∀ a, (lsReturn r).rd a = r.rd a := fun _ => rfl
  have hcells : ∀ a, ((lsReturn r).call fun _ => (lsReturn r).mem).rd a = r.rd a := fun _ => rfl
  refine ⟨(lsReturn r).call fun _ => (lsReturn r).mem, ?_, ?_⟩
  · have hentry : advance bootWorld.cart ⟨.entry, (lsReturn r).call fun _ => (lsReturn r).mem⟩ =
        some ⟨.top, (lsReturn r).call fun _ => (lsReturn r).mem⟩ := by
      refine advance_entry_top fun a ha => ?_
      exact (hkept a (Or.inr (Or.inl ha))).trans (h.entry a ha)
    have hpump : Step bootWorld (some .silent) ⟨.top, s⟩ ⟨.send, p⟩ :=
      .pump (r := 0) (by rw [← hpdef, afterPump])
    have hrun : Step bootWorld none ⟨.gate, lsSend p⟩ ⟨.idle, lsReturn r⟩ :=
      .own (by rw [advance_gate, hgate])
    have hnative : Step bootWorld none ⟨.idle, lsReturn r⟩
        ⟨.entry, (lsReturn r).call fun _ => (lsReturn r).mem⟩ := .native (W := bootWorld) rfl
    have hmid : MidPass (some .silent) ⟨.top, s⟩ ⟨.send, p⟩ := fun _ _ hr => by
      dsimp only at hr
      rw [hp.mark, h.raw] at hr
      exact Bool.noConfusion hr
    have hquiet : ∀ {n n' : Node}, MidPass none n n' := fun hsome => Bool.noConfusion hsome
    exact .tail (.tail (.tail (.tail (.single ⟨_, hpump, hmid⟩) ⟨none, .own (advance_send _ _), hquiet⟩)
      ⟨none, hrun, hquiet⟩) ⟨none, hnative, hquiet⟩) ⟨none, .own hentry, hquiet⟩
  · refine ⟨?_, ?_, ?_, ?_, ?_, ?_, ?_, ?_, ?_, ?_, ?_, ?_, hcalm⟩
    · exact (hkept _ (by decide)).trans h.rdSeat
    · exact (hkept _ (by decide)).trans h.rdCount
    · exact (hkept _ (by decide)).trans h.rdDelay
    · exact fun a ha => (hkept a (Or.inr (Or.inl ha))).trans (h.entry a ha)
    · rw [← h.rx]
      exact rxBytes_congr fun a ha => hkept a
        (Or.inr (Or.inr (Or.inr (Or.inr (Or.inr ha)))))
    · exact htick
    · exact hwm hkept
    · exact hslot.trans ((seatSlot_within hp.within ring_mail (by decide) (by decide)).trans h.idle)
    · exact (congrArg Mark.epoch hmark).trans h.epoch
    · exact (congrArg Mark.ran hmark).trans (by rw [h.ran])
    · exact (congrFun (congrArg Mark.heard hmark) 0).trans h.heard
    · exact (congrArg Mark.raw hmark).trans h.raw

/-- The guest at the top of its second pass. -/
theorem guest_reach_second : ∃ t, GuardedRun bootWorld guest ⟨.top, t⟩ ∧ Waiting 1 t := by
  obtain ⟨t, hrun, hk⟩ := guest_reach_top
  obtain ⟨u, hpass, hu⟩ := (Waiting.of_kicked hk).pass
  have hpre : GuardedRun bootWorld guest ⟨.top, t⟩ :=
    Relation.ReflTransGen.mono (p := fun n n' => ∃ p, Step bootWorld p n n' ∧ MidPass p n n')
      (fun _ _ h => h.2.imp fun _ hs => ⟨hs, fun _ hph => absurd hph (not_or.2 h.1)⟩) _ _ hrun
  exact ⟨u, hpre.trans hpass, hu⟩

theorem run_of_guarded {W : World} {n n' : Node} (h : GuardedRun W n n') : Run W n n' :=
  Relation.ReflTransGen.mono (p := fun n n' => ∃ p, Step W p n n')
    (fun _ _ h => h.imp fun _ hs => hs.1) _ _ h

/-! ### A transfer that begins behind the hold test -/

def endOfPush : List ℕ := stateFrame posEnd []

theorem framed_endOfPush : Framed endOfPush := ⟨by decide, by decide, by decide⟩

/-- Seat 0 is behind. -/
theorem closed_of_behind {s : Cpu} (hs : s.rd netSeat = 1) (hc : s.rd netCount = 2)
    (hd : s.rd netDropped = 0) (hw : minus (sub16 (s.wm 0) s.tick) = true) : Closed s := by
  refine ⟨hd, 0, by rw [hc]; decide, ?_⟩
  rw [seatBehind, hs, hw]
  rfl

/-- The guest in a transfer that began behind its hold test. -/
structure Begun (s : Cpu) : Prop where
  rdSeat : s.rd netSeat = 1
  rdCount : s.rd netCount = 2
  rdDelay : s.rd netDelay = 1
  rdDropped : s.rd netDropped = 0
  hold : s.rd resyncHold ≠ 0
  resume : s.rd16 rsRLo rsRHi = 16
  rx : rxBytes s = []
  closed : Closed s
  epoch : s.mark.epoch = 1
  calm : ∀ e ∈ s.log, e.ev.Calm

theorem Begun.seated {s : Cpu} (h : Begun s) : s.rd netSeat < 4 := by
  rw [h.rdSeat]
  decide

theorem seats_ofOpens {e : Ev} (h : e.Opens) : e.Seats := by
  cases e
  case start => exact ⟨h.1, h.2.1⟩
  all_goals trivial

/-- BEGIN and a chunk arrive at the top of the pass. -/
theorem Waiting.begin {s : Cpu} (h : Waiting 1 s) :
    Begun (sesPump (.gives (beginAt16 ++ wildPhase)) s) ∧
      (sesPump (.gives (beginAt16 ++ wildPhase)) s).mark.raw = true ∧
        ∃ e ∈ (sesPump (.gives (beginAt16 ++ wildPhase)) s).log, e.ev = .chunk 7 1 := by
  have htype : ∀ {f : List ℕ} {u : Cpu}, InFrmbuf f u → 1 < f.length → f.getD 1 0 = ftState →
      KeepsRx u := fun hf hl h1 => keepsRx_state ((hf.rd hl).trans h1)
  obtain ⟨u, v, hu, hub, hv, hvb, hpump, hrx⟩ := sesPump_two (s := s) h.rx framed_beginAt16
    framed_wildPhase (by decide) (fun u _ hf => htype hf (by decide) rfl)
    fun u v _ _ _ hf => htype hf (by decide) rfl
  have hbegin := local_begin hub
  have hhold : v.rd resyncHold ≠ 0 := by
    rw [hv.rd _ (by decide), hold_begin hub]
    decide
  have hw := within_chunk hvb (by decide) (by decide) hhold
  have hchunk := onframe_chunk hvb (by decide) (by decide) hhold
  have hfar : ∀ {a}, ¬ PumpCell a → ¬ BeginCell a → ¬ ApplyCell a → (sesOnframe v).rd a = s.rd a :=
    fun h1 h2 h3 => by rw [hw.rd _ h3, hv.rd _ h1, hbegin.rd _ h2, hu.rd _ h1]
  have hseat : (sesOnframe v).rd netSeat = 1 :=
    (hfar (by decide) (by decide) (by decide)).trans h.rdSeat
  have hcount : (sesOnframe v).rd netCount = 2 :=
    (hfar (by decide) (by decide) (by decide)).trans h.rdCount
  have hdrop : (sesOnframe v).rd netDropped = 0 :=
    (hfar (by decide) (by decide) (by decide)).trans (h.entry _ (Or.inl rfl))
  have htick : (sesOnframe v).tick = 1 := (Cpu.tick_congr
    (hfar (by decide) (by decide) (by decide)) (hfar (by decide) (by decide) (by decide))).trans h.tick
  have hwm : (sesOnframe v).wm 0 = 0 := (Cpu.wm_congr
    (hfar (by decide) (by decide) (by decide)) (hfar (by decide) (by decide) (by decide))).trans h.wm
  rw [hpump]
  refine ⟨⟨hseat, hcount, (hfar (by decide) (by decide) (by decide)).trans h.rdDelay, hdrop, ?_, ?_, hrx,
    closed_of_behind hseat hcount hdrop (by rw [hwm, htick]; decide), ?_, fun e he => ?_⟩, ?_, ?_⟩
  · rw [hw.rd _ (by decide)]
    exact hhold
  · rw [Cpu.rd16, hw.rd _ (by decide), hw.rd _ (by decide), hv.rd _ (by decide), hv.rd _ (by decide),
      ← Cpu.rd16, resume_begin hub (by decide) (by decide)]
    rfl
  · rw [hchunk, mark_rsApply v (by decide), hv.mark, hbegin.mark, hu.mark]
    exact h.epoch
  · rw [hchunk, log_rsApply v (by decide), hv.log, hbegin.log, hu.log, List.mem_cons] at he
    rcases he with rfl | he
    · exact ⟨trivial, trivial⟩
    · exact h.calm e he
  · rw [hchunk, mark_rsApply v (by decide)]
  · rw [hchunk, log_rsApply v (by decide)]
    exact ⟨_, List.mem_cons_self, rfl⟩

/-- The rest of the pass, up to the stall loop. -/
theorem Begun.stall {s : Cpu} (h : Begun s) :
    lsGate bootWorld.cart (lsSend s) = ⟨.stall, lsFreeze (lsSend s)⟩ ∧ Begun (lsFreeze (lsSend s)) := by
  have hsend := within_lsSend h.seated
  have hfreeze := local_lsFreeze (lsSend s)
  have hfar : ∀ {a}, ¬ (CaptureCell a ∨ MailCell a) → ¬ PaceCell a →
      (lsFreeze (lsSend s)).rd a = s.rd a := fun h1 h2 => by rw [hfreeze.rd _ h2, hsend.rd _ h1]
  have hgate : ∀ a, GateCell a → ¬ (CaptureCell a ∨ MailCell a) ∧ ¬ PaceCell a := fun a ha => by
    simp only [GateCell, WmCell, seatWm, netDropped, netCount, netSeat, tickLo, tickHi] at ha
    simp only [CaptureCell, RingCell, MailCell, seatRing, lsTmpb, lsTmpb2, PaceCell, execPhase, lsFroze,
      lsSave102, lsWaitcLo, lsWaitcHi, rsToLo, rsToHi]
    omega
  have hcount : s.rd netCount ≤ 4 := by rw [h.rdCount]; decide
  have hsent : Closed (lsSend s) := h.closed.of_rd hcount fun a ha => hsend.rd a (hgate a ha).1
  have hrx : ∀ a, RxCell a → (lsFreeze (lsSend s)).rd a = s.rd a := fun a ha => by
    simp only [RxCell, rxWr, rxRd, rxacc] at ha
    refine hfar ?_ ?_
    · simp only [CaptureCell, RingCell, MailCell, seatRing, lsTmpb, lsTmpb2]
      omega
    · simp only [PaceCell, execPhase, lsFroze, lsSave102, lsWaitcLo, lsWaitcHi, rsToLo, rsToHi]
      omega
  refine ⟨by rw [lsGate, not_gateOpen_of_closed hsent]; rfl, ?_⟩
  refine ⟨(hfar (by decide) (by decide)).trans h.rdSeat, (hfar (by decide) (by decide)).trans h.rdCount,
    (hfar (by decide) (by decide)).trans h.rdDelay, (hfar (by decide) (by decide)).trans h.rdDropped,
    ?_, ?_, (rxBytes_congr hrx).trans h.rx,
    h.closed.of_rd hcount fun a ha => hfar (hgate a ha).1 (hgate a ha).2, ?_, fun e he => ?_⟩
  · rw [hfar (by decide) (by decide)]
    exact h.hold
  · rw [Cpu.rd16, hfar (by decide) (by decide), hfar (by decide) (by decide), ← Cpu.rd16]
    exact h.resume
  · rw [hfreeze.mark, mark_lsSend h.seated]
    exact h.epoch
  · rw [hfreeze.log, log_lsSend, log_lsCapture h.seated, List.mem_cons] at he
    rcases he with rfl | he
    · exact ⟨trivial, trivial⟩
    · exact h.calm e he

/-- END arrives in the stall loop: the rebase clamps, and the gate opens. -/
theorem Begun.end {s : Cpu} (h : Begun s) :
    gateOpen (stallTail (sesPump (.gives endOfPush) s)) = true ∧
      (sesPump (.gives endOfPush) s).mark.raw = false ∧
      (stallTail (sesPump (.gives endOfPush) s)).mark.epoch = 2 ∧
        ∀ e ∈ (stallTail (sesPump (.gives endOfPush) s)).log, e.ev.Calm := by
  obtain ⟨v, hv, hbuf, hpump, -⟩ := sesPump_one h.rx framed_endOfPush (by decide) fun t _ hbuf =>
    keepsRx_state (hbuf.rd (by decide))
  have hhold : v.rd resyncHold ≠ 0 := by
    rw [hv.rd _ (by decide)]
    exact h.hold
  have hresume : v.rd16 rsRLo rsRHi = 16 := by
    rw [Cpu.rd16, hv.rd _ (by decide), hv.rd _ (by decide), ← Cpu.rd16, h.resume]
  have hwait : (rsRebase v).rd lsWaitcLo = 0 := by
    rw [rd_rsRebase]
    simp [rsRestart, rsReleaseHold]
  have hdelay : v.rd netDelay = 1 := (hv.rd _ (by decide)).trans h.rdDelay
  have hwm := wm_rsRebase v (show 0 < 4 by decide)
  have htick := tick_rsRebase v
  have hreb := within_rsRebase v
  have htail : stallTail (rsRebase v) = (rsRebase v).st lsWaitcLo 1 := by
    simp only [stallTail, hwait]
    rfl
  rw [hpump, onframe_end hbuf hhold, htail]
  rw [hresume, hdelay] at hwm
  rw [hresume] at htick
  refine ⟨gateOpen_two ?_ ?_ ?_, ?_, ?_, fun e he => ?_⟩
  · rw [Cpu.rd_st, if_neg (by decide), hreb.rd _ (by decide), hv.rd _ (by decide), h.rdSeat]
  · rw [Cpu.rd_st, if_neg (by decide), hreb.rd _ (by decide), hv.rd _ (by decide), h.rdCount]
  · have hkeep : Local (· = lsWaitcLo) (rsRebase v) ((rsRebase v).st lsWaitcLo 1) :=
      (Local.refl _).st rfl
    rw [Cpu.wm_congr (hkeep.rd _ (by decide)) (hkeep.rd _ (by decide)),
      Cpu.tick_congr (hkeep.rd _ (by decide)) (hkeep.rd _ (by decide)), hwm, htick]
    decide
  · rw [mark_rsRebase]
  · have hmark : ((rsRebase v).st lsWaitcLo 1).mark = (rsRebase v).mark := rfl
    rw [hmark, mark_rsRebase, hv.mark]
    exact congrArg (· + 1) h.epoch
  · have hlog : ((rsRebase v).st lsWaitcLo 1).log = (rsRebase v).log := rfl
    rw [hlog, log_rsRebase, hv.log, List.mem_cons] at he
    rcases he with rfl | he
    · exact ⟨trivial, trivial⟩
    · exact h.calm e he

/-- The guest takes BEGIN and a chunk behind the hold test of its second pass, the host being a tick
behind; END comes in the stall loop, and the tick behind it runs on the clamped phase. -/
theorem clamped_before_tick_transfer : ∃ n, GuardedRun bootWorld guest n ∧
    (∃ e ∈ n.cpu.log, e.ev = .chunk 7 1) ∧
    (∃ e ∈ n.cpu.log, e.epoch = 2 ∧ ∃ phase, e.ev = .gameTick phase) ∧
      ∀ e ∈ n.cpu.log, ∀ phase, e.ev = .gameTick phase → phase ≤ 8 ∧ e.raw = false := by
  obtain ⟨t, hreach, ht⟩ := guest_reach_second
  obtain ⟨hb, -, e, he, hev⟩ := ht.begin
  generalize hu : sesPump (.gives (beginAt16 ++ wildPhase)) t = u at hb he
  have hpump : Step bootWorld (some (.gives (beginAt16 ++ wildPhase))) ⟨.top, t⟩ ⟨.send, u⟩ :=
    .pump (r := 0) (by rw [hu, afterPump])
  obtain ⟨hstall, hs⟩ := hb.stall
  have hwait : Step bootWorld none ⟨.gate, lsSend u⟩ ⟨.stall, lsFreeze (lsSend u)⟩ :=
    .own (by rw [advance_gate, hstall])
  obtain ⟨hopen, hraw, hepoch, hcalm⟩ := hs.end
  generalize lsFreeze (lsSend u) = v at hwait hopen hraw hepoch hcalm
  generalize hw : sesPump (.gives endOfPush) v = w at hopen hraw hepoch hcalm
  have hend : Step bootWorld (some (.gives endOfPush)) ⟨.stall, v⟩ ⟨.gate, stallTail w⟩ :=
    .pump (r := 0) (by rw [hw, afterPump])
  have hquiet : ∀ {n n' : Node}, MidPass none n n' := fun hsome => Bool.noConfusion hsome
  have hclean : MidPass (some (.gives endOfPush)) ⟨.stall, v⟩ ⟨.gate, stallTail w⟩ := fun _ _ hr => by
    have hsame : (stallTail w).mark.raw = w.mark.raw := by
      rcases countOrDrop_stallTail w with hl | ⟨hl, -⟩ <;> rw [hl.mark]
    dsimp only at hr
    rw [hsame, hraw] at hr
    exact Bool.noConfusion hr
  have hrest : GuardedRun bootWorld ⟨.send, u⟩ (lsGate bootWorld.cart (stallTail w)) :=
    .tail (.tail (.tail (.single ⟨none, .own (advance_send _ _), hquiet⟩) ⟨none, hwait, hquiet⟩)
      ⟨_, hend, hclean⟩) ⟨none, .own (advance_gate _ _), hquiet⟩
  have hrun : GuardedRun bootWorld guest (lsGate bootWorld.cart (stallTail w)) :=
    (hreach.tail ⟨_, hpump, fun _ _ _ => hb.closed⟩).trans hrest
  have hseats : seatsGuard.holds (lsGate bootWorld.cart (stallTail w)).cpu.log := by
    intro e he
    rcases adds_lsGate bootWorld.cart _ e he with he | he
    · exact seats_ofOpens (hcalm e he).2
    · exact seats_ofPass _ he
  exact ⟨_, hrun, ⟨e, (grows_run (run_of_guarded hrest)).subset he, hev⟩,
    ⟨_, mem_lsGate _ hopen, hepoch, _, rfl⟩,
    clamped_before_tick clamped_bootWorld [] blank ⟨fun _ => 0, 0⟩ hrun hseats⟩

/-- What the host of the waiting guest captured in its first match: the pair `(5, 6)` for the ticks 1
and 2. -/
def hostCapture : Captures := fun epoch seat off =>
  if epoch = 1 ∧ seat = 0 ∧ (off = 1 ∨ off = 2) then some (5, 6) else none

/-- The INPUT of the host for a tick. -/
def hostInput (tick : ℕ) : List ℕ := [6, ftInput, 0, tick, 0, 5, 6]

/-- An INPUT leaves the buffer alone. -/
theorem keepsRx_input {s : Cpu} (h : s.rd (frmbuf + 1) = ftInput) (hc : s.rd netCount ≤ 4) :
    KeepsRx s := fun a ha => by
  rw [sesOnframe_input h]
  refine (within_onInput s hc).rd a fun hi => ?_
  simp only [RxCell, rxWr, rxRd, rxacc] at ha
  simp only [InputCell, RingCell, WmCell, seatRing, seatWm] at hi
  omega

/-- The INPUT of the host for tick 1 or 2, taken by the waiting guest. -/
theorem Waiting.take {s v : Cpu} {n : ℕ} (h : Waiting 1 s) (h1 : 1 ≤ n) (h2 : n ≤ 2)
    (hv : Local PumpCell s v) (hbuf : InFrmbuf (hostInput n) v) :
    onInput v = acceptInput v ∧ inputDelta v = n ∧ frameTick v = n ∧ framePair v = (5, 6) := by
  have hcell : ∀ i < 7, v.rd (frmbuf + i) = (hostInput n).getD i 0 := fun i hi => hbuf i hi
  have h0 : v.rd frmbuf = 6 := hcell 0 (by decide)
  have hseat : v.rd (frmbuf + 2) = 0 := hcell 2 (by decide)
  have hlo : v.rd (frmbuf + 3) = n := hcell 3 (by decide)
  have hhi : v.rd (frmbuf + 4) = 0 := hcell 4 (by decide)
  have hdec : v.rd (frmbuf + 5) = 5 := hcell 5 (by decide)
  have hkp : v.rd (frmbuf + 6) = 6 := hcell 6 (by decide)
  have htick : frameTick v = n := by rw [frameTick, Cpu.rd16, hlo, hhi, word]; omega
  have hwm : v.wm 0 = 0 := (Cpu.wm_congr (hv.rd _ (by decide)) (hv.rd _ (by decide))).trans h.wm
  have hdelta : inputDelta v = n := by
    rw [inputDelta, htick, hseat, hwm, sub16]
    omega
  refine ⟨?_, hdelta, htick, by rw [framePair, hdec, hkp]⟩
  have hs : v.rd netSeat = 1 := by rw [hv.rd _ (by decide), h.rdSeat]
  have hc : v.rd netCount = 2 := by rw [hv.rd _ (by decide), h.rdCount]
  have hplus : ¬ (minus (inputDelta v) ∨ inputDelta v = 0) := by
    rw [hdelta, minus, decide_eq_true_eq]
    omega
  simp only [onInput]
  rw [if_neg (by omega), if_neg (by omega), if_neg (by omega), if_neg hplus]
  rfl

/-- The second gate of the guest, when the INPUT of the host for tick `n` is all that has arrived. -/
structure Second (n : ℕ) (s : Cpu) : Prop where
  opened : gateOpen s = true
  rdDropped : s.rd netDropped = 0
  rdDelay : s.rd netDelay = 1
  rdCount : s.rd netCount = 2
  rdSeat : s.rd netSeat = 1
  rdTickLo : s.rd tickLo = 1
  epoch : s.mark.epoch = 1
  ran : s.mark.ran = 1
  slot : seatSlot s 0 1 = if n = 1 then (5, 6) else idleSlot
  log : ∃ e₁ e₂ e : Stamped, ∃ older, s.log = e₁ :: e₂ :: e :: older ∧ e₁.ev.Calm ∧ e₂.ev.Calm ∧
    e.epoch = 1 ∧ e.ran = 1 ∧ e.ev = .input 0 n 5 6 n true ∧ ∀ e ∈ older, e.ev.Calm

theorem second_gate {n : ℕ} (h1 : 1 ≤ n) (h2 : n ≤ 2) :
    ∃ s : Cpu, Run bootWorld guest ⟨.gate, s⟩ ∧ Second n s := by
  obtain ⟨u, hreach, hu⟩ := guest_reach_second
  have hn : n = 1 ∨ n = 2 := by omega
  have hf : Framed (hostInput n) := by rcases hn with rfl | rfl <;> exact ⟨by decide, by decide, by decide⟩
  obtain ⟨v, hv, hbuf, hpump, -⟩ := sesPump_one hu.rx hf (by simp [hostInput]) fun t ht hbuf =>
    keepsRx_input (hbuf 1 (by simp [hostInput])) (by rw [ht.rd _ (by decide), hu.rdCount]; decide)
  obtain ⟨htake, hdelta, htick, hpair⟩ := hu.take h1 h2 hv hbuf
  have hseat : v.rd netSeat = 1 := by rw [hv.rd _ (by decide), hu.rdSeat]
  have hf0 : v.rd (frmbuf + 2) = 0 := hbuf 2 (by simp [hostInput])
  rw [sesOnframe_input (hbuf 1 (by simp [hostInput])), htake] at hpump
  have hin := within_acceptInput (s := v) (by omega)
  have haseat : (acceptInput v).rd netSeat = 1 := by rw [hin.rd _ (by decide), hseat]
  have hsend := within_lsSend (s := acceptInput v) (by omega)
  have hrd : ∀ a, ¬ PumpCell a → ¬ InputCell a → ¬ (CaptureCell a ∨ MailCell a) →
      (lsSend (acceptInput v)).rd a = u.rd a := fun a g1 g2 g3 => by
    rw [hsend.rd a g3, hin.rd a g2, hv.rd a g1]
  have hmark : (lsSend (acceptInput v)).mark = (acceptInput v).mark := mark_lsSend (by omega)
  have hslot : seatSlot (lsSend (acceptInput v)) 0 1 = if n = 1 then (5, 6) else idleSlot := by
    have hv1 : seatSlot v 0 1 = idleSlot := by
      rw [← hu.idle]
      exact seatSlot_within hv.within (fun x hx => by
        simp only [RingCell, seatRing] at hx
        simp only [PumpCell, MailCell, RxCell, rxWr, rxRd, rxacc, frmbuf]
        omega) (by decide) (by decide)
    rw [(seatSlot_pass haseat).1, seatSlot_acceptInput (by omega) (by decide) (by decide), hf0, htick,
      hpair, hv1]
    rcases hn with rfl | rfl <;> rfl
  have hwm : (lsSend (acceptInput v)).wm 0 = n := by
    rw [wm_guest (s := acceptInput v) fun a ha => hsend.rd a
      (not_or.2 ⟨(guest_bounds ha).2.1, (guest_bounds ha).1⟩), wm_acceptInput (by omega) (by decide),
      if_pos hf0.symm, htick]
  have hgtick : (lsSend (acceptInput v)).tick = 1 := by
    rw [Cpu.tick_congr (hrd _ (by decide) (by decide) (by decide))
      (hrd _ (by decide) (by decide) (by decide))]
    exact hu.tick
  have hlo : (lsSend (acceptInput v)).rd tickLo = 1 := by
    have h256 := word_mod_256 (h := (lsSend (acceptInput v)).rd tickHi)
      ((lsSend (acceptInput v)).rd_lt_256 (a := tickLo) (by decide))
    rw [← h256]
    exact congrArg (· % 256) hgtick
  have hopen : gateOpen (lsSend (acceptInput v)) = true := by
    refine gateOpen_two ((hrd _ (by decide) (by decide) (by decide)).trans hu.rdSeat)
      ((hrd _ (by decide) (by decide) (by decide)).trans hu.rdCount) ?_
    rw [hwm, hgtick]
    rcases hn with rfl | rfl <;> decide
  have hlog : ∃ e₁ e₂ e : Stamped, ∃ older, (lsSend (acceptInput v)).log = e₁ :: e₂ :: e :: older ∧
      e₁.ev.Calm ∧ e₂.ev.Calm ∧ e.epoch = 1 ∧ e.ran = 1 ∧ e.ev = .input 0 n 5 6 n true ∧
        ∀ e ∈ older, e.ev.Calm := by
    obtain ⟨m, a, a', w, hlog⟩ := log_acceptInput v
    have hev : inputEv v true = .input 0 n 5 6 n true := by
      have hh : v.mark.heard 0 = 0 := by rw [hv.mark, hu.heard]
      rw [framePair, Prod.mk.injEq] at hpair
      rw [inputEv, hf0, htick, hpair.1, hpair.2, hh, hdelta, Nat.zero_add]
    rw [log_lsSend, log_lsCapture (by omega), hlog, hev]
    refine ⟨_, _, _, _, rfl, ⟨trivial, trivial⟩, ⟨trivial, trivial⟩, ?_, ?_, rfl, ?_⟩
    · exact (congrArg Mark.epoch hv.mark).trans hu.epoch
    · exact (congrArg Mark.ran hv.mark).trans hu.ran
    · rw [hv.log]
      exact hu.calm
  have hstep : Step bootWorld (some (.gives (hostInput n))) ⟨.top, u⟩ ⟨.send, acceptInput v⟩ :=
    .pump (r := 0) (by rw [hpump, afterPump])
  refine ⟨_, ((run_of_guarded hreach).tail ⟨_, hstep⟩).tail ⟨none, .own (advance_send _ _)⟩, hopen,
    ?_, ?_, ?_, ?_, hlo, ?_, ?_, hslot, hlog⟩
  · exact (hrd _ (by decide) (by decide) (by decide)).trans (hu.entry _ (Or.inl rfl))
  · exact (hrd _ (by decide) (by decide) (by decide)).trans hu.rdDelay
  · exact (hrd _ (by decide) (by decide) (by decide)).trans hu.rdCount
  · exact (hrd _ (by decide) (by decide) (by decide)).trans hu.rdSeat
  · rw [hmark, mark_acceptInput, hv.mark]
    exact hu.epoch
  · rw [hmark, mark_acceptInput, hv.mark]
    exact hu.ran

/-- The INPUT of tick 1 arrives: the second gate opens on it. -/
theorem open_gate_fed_guest : ∃ n, Run bootWorld guest n ∧ n.phase = .gate ∧ gateOpen n.cpu = true ∧
    GateFed hostCapture n := by
  obtain ⟨s, hrun, hs⟩ := second_gate (n := 1) (by decide) (by decide)
  obtain ⟨e₁, e₂, e, older, hlog, h1, h2, hep, hran, hev, hold⟩ := hs.log
  refine ⟨_, hrun, rfl, hs.opened, open_gate_fed [] blank ⟨fun _ => 0, 0⟩ hrun ?_⟩
  dsimp only
  rw [hlog]
  refine feedGuard_cons (feedGuard_cons (feedGuard_cons (feedGuard_of_calm hold) ?_ ?_) h2.2
    (.of_noInput h2.1)) h1.2 (.of_noInput h1.1)
  · rw [hev]
    trivial
  · intro seat tick dec kp off he
    rw [hev, Ev.input.injEq] at he
    obtain ⟨rfl, -, rfl, rfl, rfl, -⟩ := he
    rw [hep, hran]
    exact ⟨rfl, by decide, fun x hx => Or.inr ⟨by rw [Nat.lt_one_iff.1 hx]; rfl, by omega⟩⟩

/-- The INPUT of tick 1 is lost and that of tick 2 arrives: the second gate opens, and the slot for
tick 1 still holds the idle pair. -/
theorem gate_past_lost_input : ∃ n, Run bootWorld guest n ∧
    (∀ e ∈ n.cpu.log, ∀ seat tick dec kp off, e.ev = .input seat tick dec kp off true →
      hostCapture e.epoch seat off = some (dec, kp)) ∧ ¬ GateFed hostCapture n := by
  obtain ⟨s, hrun, hs⟩ := second_gate (n := 2) (by decide) (by decide)
  obtain ⟨e₁, e₂, e, older, hlog, h1, h2, hep, hran, hev, hold⟩ := hs.log
  have hcalm : ∀ {e : Stamped} {seat tick dec kp off}, e.ev.Calm →
      e.ev ≠ .input seat tick dec kp off true := fun h he => by
    rw [he] at h
    exact h.1
  refine ⟨_, hrun, fun e' he' seat tick dec kp off hin => ?_, fun h => ?_⟩
  · dsimp only at he'
    rw [hlog] at he'
    simp only [List.mem_cons] at he'
    rcases he' with rfl | rfl | rfl | he'
    · exact absurd hin (hcalm h1)
    · exact absurd hin (hcalm h2)
    · rw [hev, Ev.input.injEq] at hin
      obtain ⟨rfl, -, rfl, rfl, rfl, -⟩ := hin
      rw [hep]
      rfl
    · exact absurd hin (hcalm (hold e' he'))
  · have hfed := h rfl hs.opened hs.rdDropped (by rw [hs.rdDelay, hs.ran]) 0 (by rw [hs.rdCount]; decide)
      (by rw [hs.rdSeat]; decide)
    rw [hs.rdTickLo, hs.slot, hs.epoch, hs.ran] at hfed
    exact absurd hfed (by decide)

end IntvNetplay.Console
