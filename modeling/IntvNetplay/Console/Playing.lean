import IntvNetplay.Console.Gate

/-!
# One console of two

What a console of two has captured and what it has taken from the other one, as lists of pairs, and
the slots of both seats as windows on these lists.  Ticks are counted from 256 there, so that the slot
of the tick before the first has a number.
-/

namespace IntvNetplay.Console

open IntvNetplay.Machine

/-! ### The pairs of a seat -/

/-- The pair of a seat at a count: idle below the delay, from there on what the seat captured. -/
def line (d : ℕ) (l : List (ℕ × ℕ)) (x : ℕ) : ℕ × ℕ :=
  if x < 256 + d then idleSlot else l.getD (x - (256 + d)) idleSlot

section line

variable {d x : ℕ} {l m : List (ℕ × ℕ)}

theorem line_append (h : x < 256 + d + l.length) : line d (l ++ m) x = line d l x := by
  unfold line
  split_ifs with hx
  · rfl
  · rw [List.getD_append _ _ _ _ (by omega)]

theorem line_next (pr : ℕ × ℕ) : line d (l ++ [pr]) (256 + d + l.length) = pr := by
  have hx : 256 + d + l.length - (256 + d) = l.length := by omega
  rw [line, if_neg (by omega), hx, List.getD_append_right _ _ _ _ (le_refl _), Nat.sub_self]
  rfl

end line

/-- A console at one of two seats, in a match with a delay: what it has captured, what it has taken. -/
structure Playing (me d : ℕ) (own got : List (ℕ × ℕ)) (s : Cpu) : Prop extends Seated s where
  mine : s.rd netSeat = me
  two : s.rd netCount = 2
  delay : s.rd netDelay = d
  active : s.rd netActive ≠ 0
  ticks : s.tick = serial s.mark.ran
  heard : s.wm (1 - me) = serial (d - 1 + got.length)
  near : s.mark.ran ≤ d + got.length
  far : d + got.length ≤ 255 + s.mark.ran
  ownSlots : Window 256 (seatSlot s me) (line d own) (255 + s.mark.ran) (256 + d + own.length)
  gotSlots : Window 256 (seatSlot s (1 - me)) (line d got) (255 + s.mark.ran)
    (256 + d + got.length)

section playing

variable {me d : ℕ} {own got : List (ℕ × ℕ)} {s t : Cpu} {P : ℕ → Prop}

theorem feed_netSeat : FeedCell netSeat := by decide
theorem feed_netCount : FeedCell netCount := by decide
theorem feed_netDelay : FeedCell netDelay := by decide
theorem feed_netActive : FeedCell netActive := by decide

/-- The cells that `FeedCell` names and the count of ticks are all that is read. -/
theorem Playing.of_same (h : Playing me d own got s) (hme : me < 2) (hl : t.rd lobbyCnt ≤ 8)
    (hr : ∀ a, FeedCell a → t.rd a = s.rd a) (hran : t.mark.ran = s.mark.ran) :
    Playing me d own got t := by
  have hslot : ∀ i < 2, ∀ r < 256, seatSlot t i r = seatSlot s i r := fun i hi r hr' =>
    seatSlot_congr (fun x hx => hr x (Or.inl hx)) (by omega) hr'
  refine ⟨⟨?_, ?_, hl⟩, ?_, ?_, ?_, ?_, ?_, ?_, ?_, ?_, ?_, ?_⟩
  · rw [hr _ feed_netSeat]
    exact h.seat
  · rw [hr _ feed_netCount]
    exact h.count
  · rw [hr _ feed_netSeat]
    exact h.mine
  · rw [hr _ feed_netCount]
    exact h.two
  · rw [hr _ feed_netDelay]
    exact h.delay
  · rw [hr _ feed_netActive]
    exact h.active
  · rw [tick_of_same hr, hran]
    exact h.ticks
  · rw [wm_of_same hr (by omega)]
    exact h.heard
  · rw [hran]
    exact h.near
  · rw [hran]
    exact h.far
  · rw [hran]
    exact h.ownSlots.congr (by decide) (hslot me hme) fun _ _ _ => rfl
  · rw [hran]
    exact h.gotSlots.congr (by decide) (hslot (1 - me) (by omega)) fun _ _ _ => rfl

theorem Playing.of_within (h : Playing me d own got s) (hme : me < 2) (hw : Within P s t)
    (hP : ∀ a, P a → QuietCell a) (hl : t.rd lobbyCnt ≤ 8) (hran : t.mark.ran = s.mark.ran) :
    Playing me d own got t :=
  h.of_same hme hl (fun a hf => hw.rd a fun hp => not_quiet_feed hf (hP a hp)) hran

/-! ### An INPUT of the other seat -/

/-- The other seat's next INPUT is taken and extends what was taken. -/
theorem Playing.input (h : Playing me d own got s) (hme : me < 2) (hd : 1 ≤ d) {pr : ℕ × ℕ}
    (hlen : 6 ≤ s.rd frmbuf) (hseat : s.rd (frmbuf + 2) = 1 - me)
    (htick : frameTick s = serial (d + got.length)) (hpair : framePair s = pr)
    (hroom : d + got.length < 255 + s.mark.ran) :
    onInput s = acceptInput s ∧ Playing me d own (got ++ [pr]) (acceptInput s) := by
  have hf : s.rd (frmbuf + 2) < 4 := by omega
  have hwm : s.wm (s.rd (frmbuf + 2)) = serial (d - 1 + got.length) := by
    rw [hseat]
    exact h.heard
  have hdelta : inputDelta s = 1 := by
    rw [inputDelta, hwm, htick, sub16_serial (by omega) (by omega)]
    omega
  have htaken : onInput s = acceptInput s := by
    have hmine := h.mine
    have htwo := h.two
    have hminus : minus 1 = false := by decide
    unfold onInput
    dsimp only
    rw [if_neg (by omega), if_neg (by omega), if_neg (by omega), hdelta, hminus, if_neg (by decide)]
    rfl
  have hmark := mark_acceptInput s
  have hw := within_acceptInput hf
  have hran : (acceptInput s).mark.ran = s.mark.ran := by rw [hmark]
  have hslot : ∀ q < 2, ∀ r < 256, seatSlot (acceptInput s) q r =
      if q = 1 - me ∧ r = (256 + d + got.length) % 256 then pr else seatSlot s q r := by
    intro q hq r hr
    rw [seatSlot_acceptInput hf (by omega) hr, hseat, htick, hpair]
    have hmod : serial (d + got.length) % 256 = (256 + d + got.length) % 256 := by
      simp only [serial]
      omega
    rw [hmod]
  refine ⟨htaken, ⟨h.toSeated.of_within hw (by decide) (by decide) (by decide), ?_, ?_, ?_, ?_, ?_, ?_,
    ?_, ?_, ?_, ?_⟩⟩
  · rw [hw.rd _ (by decide)]
    exact h.mine
  · rw [hw.rd _ (by decide)]
    exact h.two
  · rw [hw.rd _ (by decide)]
    exact h.delay
  · rw [hw.rd _ (by decide)]
    exact h.active
  · rw [Cpu.tick_congr (hw.rd _ (by decide)) (hw.rd _ (by decide)), hran]
    exact h.ticks
  · rw [wm_acceptInput hf (by omega), if_pos hseat.symm, htick, List.length_append,
      List.length_singleton]
    congr 1
    omega
  · rw [hran, List.length_append, List.length_singleton]
    have hnear := h.near
    omega
  · rw [hran, List.length_append, List.length_singleton]
    omega
  · rw [hran]
    refine h.ownSlots.congr (by decide) (fun r hr => ?_) fun _ _ _ => rfl
    rw [hslot me hme r hr, if_neg fun hc => by omega]
  · rw [hran, List.length_append, List.length_singleton]
    have hold : Window 256 (seatSlot s (1 - me)) (line d (got ++ [pr])) (255 + s.mark.ran)
        (256 + d + got.length) :=
      h.gotSlots.congr (by decide) (fun _ _ => rfl) fun x _ hx => line_append hx
    refine hold.snoc (fun r hr => ?_) (by omega)
    rw [hslot (1 - me) (by omega) r hr, line_next]
    exact if_congr (and_iff_right rfl) rfl rfl

/-! ### A capture -/

/-- The pair that a pass captures. -/
def capturePair (s : Cpu) : ℕ × ℕ := (s.rd execInL, s.rd execKpL)

/-- A capture extends what was captured. -/
theorem Playing.send (h : Playing me d own got s) (hme : me < 2) (hd : d ≤ 120)
    (hown : own.length = s.mark.ran) : Playing me d (own ++ [capturePair s]) got (lsSend s) := by
  have hw := within_lsSend (s := s) h.seat
  have hmark := mark_lsSend (s := s) h.seat
  have hran : (lsSend s).mark.ran = s.mark.ran := by rw [hmark]
  have hcell : ∀ a, ¬ (CaptureCell a ∨ MailCell a) → (lsSend s).rd a = s.rd a := hw.rd
  have hmine := h.mine
  have hwm : (lsSend s).wm (1 - me) = s.wm (1 - me) := wm_lsSend h.seat (by omega)
  have hdue : dueTick s % 256 = (256 + d + own.length) % 256 := by
    have hdelay := h.delay
    have hticks := h.ticks
    simp only [dueTick, hdelay, hticks, serial]
    omega
  have hslot : ∀ q < 2, ∀ r < 256, seatSlot (lsSend s) q r =
      if q = me ∧ r = (256 + d + own.length) % 256 then capturePair s else seatSlot s q r := by
    intro q hq r hr
    rw [seatSlot_lsSend h.seat (by omega) hr, hmine, hdue]
    rfl
  refine ⟨h.toSeated.of_within hw (by decide) (by decide) (by decide), ?_, ?_, ?_, ?_, ?_, ?_, ?_, ?_,
    ?_, ?_⟩
  · rw [hcell _ (by decide)]
    exact h.mine
  · rw [hcell _ (by decide)]
    exact h.two
  · rw [hcell _ (by decide)]
    exact h.delay
  · rw [hcell _ (by decide)]
    exact h.active
  · rw [Cpu.tick_congr (hcell _ (by decide)) (hcell _ (by decide)), hran]
    exact h.ticks
  · rw [hwm]
    exact h.heard
  · rw [hran]
    exact h.near
  · rw [hran]
    exact h.far
  · rw [hran, List.length_append, List.length_singleton]
    have hold : Window 256 (seatSlot s me) (line d (own ++ [capturePair s])) (255 + s.mark.ran)
        (256 + d + own.length) :=
      h.ownSlots.congr (by decide) (fun _ _ => rfl) fun x _ hx => line_append hx
    refine hold.snoc (fun r hr => ?_) (by omega)
    rw [hslot me hme r hr, line_next]
    exact if_congr (and_iff_right rfl) rfl rfl
  · rw [hran]
    refine h.gotSlots.congr (by decide) (fun r hr => ?_) fun _ _ _ => rfl
    rw [hslot (1 - me) (by omega) r hr, if_neg fun hc => by omega]

/-! ### The run of a tick -/

/-- An open gate: the other seat's pair for the tick has been taken. -/
theorem Playing.open (h : Playing me d own got s) (hme : me < 2) (hopen : gateOpen s = true)
    (hdrop : s.rd netDropped = 0) (hd : 1 ≤ d) : s.mark.ran < d + got.length := by
  have hnear := h.near
  have hfar := h.far
  have htwo := h.two
  have hmine := h.mine
  simp only [gateOpen, hdrop, ne_eq, not_true_eq_false, decide_false, Bool.false_or, List.all_eq_true,
    List.mem_range, Bool.not_eq_true', seatBehind, Bool.and_eq_false_iff, decide_eq_false_iff_not,
    not_not] at hopen
  rcases hopen (1 - me) (by omega) with hc | hc
  · omega
  · rw [h.heard, h.ticks, ← Bool.not_eq_true, minus_sub16_iff (by omega) (by omega)] at hc
    omega

/-- The run of a tick moves the counter and leaves the slots alone. -/
theorem Playing.body (h : Playing me d own got s) (hme : me < 2) (C : Cart)
    (hgot : s.mark.ran < d + got.length) : Playing me d own got (runBody C s) := by
  have hw := within_runBody s C
  have hmark := mark_runBody s C
  have hran : (runBody C s).mark.ran = s.mark.ran + 1 := by rw [hmark]
  have hslot : ∀ q < 2, ∀ r < 256, seatSlot (runBody C s) q r = seatSlot s q r :=
    fun q hq r hr => seatSlot_runBody C (by omega) hr
  have hwm : (runBody C s).wm (1 - me) = s.wm (1 - me) := wm_runBody C (by omega)
  refine ⟨h.toSeated.of_within hw (by decide) (by decide) (by decide), ?_, ?_, ?_, ?_, ?_, ?_, ?_, ?_,
    ?_, ?_⟩
  · rw [hw.rd _ (by decide)]
    exact h.mine
  · rw [hw.rd _ (by decide)]
    exact h.two
  · rw [hw.rd _ (by decide)]
    exact h.delay
  · rw [hw.rd _ (by decide)]
    exact h.active
  · rw [tick_runBody, h.ticks, hran]
    simp only [serial]
    omega
  · rw [hwm]
    exact h.heard
  · rw [hran]
    exact hgot
  · have hfar := h.far
    rw [hran]
    omega
  · rw [hran]
    exact (h.ownSlots.mono (by omega) (le_refl _)).congr (by decide) (hslot me hme) fun _ _ _ => rfl
  · rw [hran]
    exact (h.gotSlots.mono (by omega) (le_refl _)).congr (by decide) (hslot (1 - me) (by omega))
      fun _ _ _ => rfl

/-- The pair of one of the two seats at a count. -/
def seatLine (me d : ℕ) (own got : List (ℕ × ℕ)) (seat x : ℕ) : ℕ × ℕ :=
  line d (if seat = me then own else got) x

theorem Playing.slot (h : Playing me d own got s) (hme : me < 2) {seat x : ℕ} (hs : seat < 2)
    (hx : 255 + s.mark.ran ≤ x) (hown : x < 256 + d + own.length) (hgot : x < 256 + d + got.length) :
    seatSlot s seat (x % 256) = seatLine me d own got seat x := by
  unfold seatLine
  split_ifs with hseat
  · rw [hseat]
    exact h.ownSlots x hx hown
  · have hother : seat = 1 - me := by omega
    rw [hother]
    exact h.gotSlots x hx hgot

theorem Playing.rd_tickLo (h : Playing me d own got s) : s.rd tickLo = (256 + s.mark.ran) % 256 := by
  have h256 : s.tick % 256 = s.rd tickLo := word_mod_256 (s.rd_lt_256 (by decide))
  rw [← h256, h.ticks, serial]
  omega

/-- The four cells of the shadows. -/
theorem Playing.shadow (h : Playing me d own got s) (hme : me < 2)
    (hown : s.mark.ran < d + own.length) (hgot : s.mark.ran < d + got.length) :
    shadowEv s = .shadow (seatLine me d own got 0 (256 + s.mark.ran)).1
      (seatLine me d own got 1 (256 + s.mark.ran)).1 (seatLine me d own got 0 (256 + s.mark.ran)).2
      (seatLine me d own got 1 (256 + s.mark.ran)).2 := by
  have hslot : ∀ seat < 2, seatSlot s seat (s.rd tickLo) =
      seatLine me d own got seat (256 + s.mark.ran) := fun seat hs => by
    rw [h.rd_tickLo]
    exact h.slot hme hs (by omega) (by omega) (by omega)
  rw [← hslot 0 (by decide), ← hslot 1 (by decide)]
  rfl

/-- The cells of a seat that the dispatch reads. -/
theorem Playing.dispatch (h : Playing me d own got s) (hme : me < 2) {seat : ℕ} (hs : seat < 2)
    (hown : s.mark.ran < d + own.length) (hgot : s.mark.ran < d + got.length) :
    dispatchEv seat s = .dispatch seat (seatLine me d own got seat (256 + s.mark.ran)).1
      (seatLine me d own got seat (255 + s.mark.ran)).1
      (seatLine me d own got seat (256 + s.mark.ran)).2
      (seatLine me d own got seat (255 + s.mark.ran)).2 := by
  have hlo := h.rd_tickLo
  have hcur : seatSlot s seat (s.rd tickLo) = seatLine me d own got seat (256 + s.mark.ran) := by
    rw [hlo]
    exact h.slot hme hs (by omega) (by omega) (by omega)
  have hprev : seatSlot s seat ((255 + s.mark.ran) % 256) =
      seatLine me d own got seat (255 + s.mark.ran) :=
    h.slot hme hs (by omega) (by omega) (by omega)
  have hcell : ∀ page, vdCellPrev page s = s.rd (page + (255 + s.mark.ran) % 256) := by
    intro page
    unfold vdCellPrev
    split_ifs with h0
    · congr 2
      omega
    · congr 1
      omega
  have hkp : seatRing + seat * 256 + 0x400 = seatKp + seat * 256 := by
    simp only [seatRing, seatKp]
    omega
  rw [← hcur, ← hprev, dispatchEv, hcell, hcell, hkp]
  rfl

end playing

end IntvNetplay.Console
