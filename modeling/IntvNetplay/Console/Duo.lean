import IntvNetplay.Console.Mate
import IntvNetplay.Console.Prematch

/-!
# Two consoles

Two consoles in a match, each with the bytes that are on their way to it.  `Joined` is what holds
between them in a match without a resync and without a drop: what one has yet to take of the other is
on its way in frames.  From it the input that both consume at a tick is the same (`inputs_agree`).
-/

namespace IntvNetplay.Console

open IntvNetplay.Machine

/-! ### Two consoles -/

/-- Two consoles, and the bytes on their way to each. -/
structure Duo where
  node : Fin 2 → Node
  wire : Fin 2 → List ℕ

/-- What a step reads. -/
def reads : Option Poll → Cpu → List ℕ
  | none, _ => []
  | some p, s => delivered p s

/-- One of the consoles takes a step: it reads at most 64 of the bytes on their way to it, in order,
and what it sends is on its way to the other. -/
inductive DuoStep (W : Fin 2 → World) (D : Duo) : Duo → Prop where
  | step {i : Fin 2} {p : Option Poll} {n : Node} {rest sent : List ℕ} : Step (W i) p (D.node i) n →
      (reads p (D.node i).cpu).length ≤ 64 → D.wire i = reads p (D.node i).cpu ++ rest →
      n.cpu.tx = (D.node i).cpu.tx ++ sent →
      DuoStep W D ⟨Function.update D.node i n,
        Function.update (Function.update D.wire i rest) (1 - i) (D.wire (1 - i) ++ sent)⟩

/-- Nobody has pushed a state and nobody has given up. -/
def Duo.Calm (D : Duo) : Prop :=
  ∀ i, (D.node i).cpu.rd netDropped = 0 ∧ ∀ e ∈ (D.node i).cpu.log, e.ev.NoPush

/-- A run without a resync and without a drop. -/
def DuoRun (W : Fin 2 → World) : Duo → Duo → Prop :=
  Relation.ReflTransGen fun D D' => DuoStep W D D' ∧ D'.Calm

/-- Both consoles have just handled the START frame of the match, each with its own seat in it.  What the
same read has brought behind it comes with the next one. -/
structure Duo.Opening (d : ℕ) (D : Duo) : Prop where
  started : ∃ lo hi names, ∀ i : Fin 2, ∃ u : Cpu, D.node i = ⟨.lobby, onStart u⟩ ∧
    InFrmbuf (startFrame i 2 lo hi d names) u ∧ u.rd lobbyCnt ≤ 8 ∧ u.log = [] ∧ rxBytes u = []
  wire : ∀ i, D.wire i = []
  calm : D.Calm

/-- What joins the two: what a console has yet to take is what the other has captured since, and it is
on its way in frames. -/
structure Joined (d : ℕ) (own got : Fin 2 → List (ℕ × ℕ)) (D : Duo) : Prop where
  mate : ∀ i : Fin 2, Mate i d (own i) (got i) (D.node i)
  flow : ∀ i : Fin 2, ∃ l fs, own (1 - i) = got i ++ l ∧ Feed (1 - i : Fin 2) d (got i).length l fs ∧
    Aligned (D.wire i) fs (D.node i).cpu

section joined

variable {W : Fin 2 → World} {d : ℕ} {own got : Fin 2 → List (ℕ × ℕ)} {D D' : Duo}

theorem val_other (i : Fin 2) : ((1 - i : Fin 2) : ℕ) = 1 - (i : ℕ) := by
  revert i
  decide

theorem other_other (i : Fin 2) : 1 - (1 - i) = i := by
  revert i
  decide

theorem other_ne (i : Fin 2) : 1 - i ≠ i := by
  revert i
  decide

theorem eq_other {i j : Fin 2} (h : j ≠ i) : j = 1 - i := by
  revert i j
  decide

/-- How far ahead the other console can be. -/
theorem Joined.room (h : Joined d own got D) (hd : d ≤ 120) (i : Fin 2) :
    d + (own (1 - i)).length ≤ 255 + (D.node i).cpu.mark.ran := by
  have hi := (h.mate i).captured
  have hj := (h.mate (1 - i)).captured
  have hnear := (h.mate (1 - i)).playing.near
  obtain ⟨l, fs, hl, -⟩ := h.flow (1 - i)
  rw [other_other] at hl
  have hle : (got (1 - i)).length ≤ (own i).length := by
    rw [hl, List.length_append]
    exact Nat.le_add_right _ _
  split_ifs at hi hj <;> omega

/-- More frames behind those on their way. -/
theorem Aligned.extend {w : List ℕ} {fs msgs : List (List ℕ)} {s : Cpu} (h : Aligned w fs s)
    (hm : ∀ f ∈ msgs, Framed f) : Aligned (w ++ msgs.flatten) (fs ++ msgs) s := by
  refine ⟨fun f hf => (List.mem_append.1 hf).elim (h.framed f) (hm f), ?_, fun f hf => ?_⟩
  · rw [← List.append_assoc, h.stream, List.flatten_append]
  · cases fs with
    | cons g fs => exact h.waiting f hf
    | nil =>
      have hempty := (buf_nil_of_stream h.stream).1
      have hlen := (hm f (List.mem_of_mem_head? hf)).two_le
      rw [← length_rxBytes, hempty, List.length_nil]
      omega

/-- What one console takes, captures and sends in a step. -/
theorem Joined.piece (h : Joined d own got D) (hd : 1 ≤ d) (hd' : d ≤ 120) {i : Fin 2}
    {p : Option Poll} {n : Node} {rest : List ℕ} (hs : Step (W i) p (D.node i) n)
    (hread : (reads p (D.node i).cpu).length ≤ 64)
    (hwire : D.wire i = reads p (D.node i).cpu ++ rest) (hdrop : (D.node i).cpu.rd netDropped = 0)
    (hdrop' : n.cpu.rd netDropped = 0) (hcalm : ∀ e ∈ n.cpu.log, e.ev.NoPush) :
    ∃ taken l gs new msgs, own (1 - i) = got i ++ taken ++ l ∧
      Feed (1 - i : Fin 2) d (got i ++ taken).length l gs ∧ Aligned rest gs n.cpu ∧
      Feed i d (own i).length new msgs ∧ Mate i d (own i ++ new) (got i ++ taken) n ∧
      n.cpu.tx = (D.node i).cpu.tx ++ msgs.flatten := by
  obtain ⟨l, fs, hl, hfeed, hal⟩ := h.flow i
  rw [hwire] at hal
  cases p with
  | none =>
    obtain ⟨new, msgs, hnew, hmate, htx, hrx⟩ :=
      stepped_own (h.mate i) i.isLt hd hd' hs hdrop hcalm
    refine ⟨[], l, fs, new, msgs, ?_, ?_, ⟨hal.framed, ?_, ?_⟩, hnew, ?_, htx⟩
    · rw [List.append_nil]
      exact hl
    · rw [List.append_nil]
      exact hfeed
    · rw [hrx]
      exact hal.stream
    · rw [← length_rxBytes, hrx, length_rxBytes]
      exact hal.waiting
    · rw [List.append_nil]
      exact hmate
  | some q =>
    have hroom := h.room hd' i
    rw [hl, List.length_append, ← Nat.add_assoc] at hroom
    rw [val_other] at hfeed
    obtain ⟨taken, l', gs, hl', hf, hal', new, msgs, hnew, hmate, htx⟩ :=
      stepped_pump (h.mate i) i.isLt hd hs hdrop' hroom hfeed hal hread
    refine ⟨taken, l', gs, new, msgs, ?_, ?_, hal', hnew, hmate, htx⟩
    · rw [hl, hl', List.append_assoc]
    · rw [val_other, List.length_append]
      exact hf

/-- A step keeps the two joined. -/
theorem joined_step (h : Joined d own got D) (hd : 1 ≤ d) (hd' : d ≤ 120) (hc : D.Calm)
    (hs : DuoStep W D D') (hc' : D'.Calm) : ∃ own' got', Joined d own' got' D' := by
  cases hs with
  | @step i p n rest sent hstep hread hwire htx =>
    have hcalm := hc' i
    simp only [Function.update_self] at hcalm
    obtain ⟨taken, l, gs, new, msgs, hl, hfeed, hal, hnew, hmate, htx'⟩ :=
      h.piece hd hd' hstep hread hwire (hc i).1 hcalm.1 hcalm.2
    obtain rfl : sent = msgs.flatten := List.append_cancel_left (htx.symm.trans htx')
    have hother := other_ne i
    refine ⟨Function.update own i (own i ++ new), Function.update got i (got i ++ taken),
      fun j => ?_, fun j => ?_⟩
    · by_cases hj : j = i
      · subst hj
        simp only [Function.update_self]
        exact hmate
      · simp only [Function.update_of_ne hj]
        exact h.mate j
    · by_cases hj : j = i
      · subst hj
        simp only [Function.update_self, Function.update_of_ne hother, Function.update_of_ne hother.symm]
        exact ⟨l, gs, hl, hfeed, hal⟩
      · obtain rfl := eq_other hj
        obtain ⟨l', fs, hl', hfeed', hal'⟩ := h.flow (1 - i)
        rw [other_other] at hl' hfeed'
        simp only [other_other, Function.update_self, Function.update_of_ne hother]
        refine ⟨l' ++ new, fs ++ msgs, ?_, hfeed'.append ?_, hal'.extend (hnew.framed i.isLt)⟩
        · rw [hl', List.append_assoc]
        · rw [← List.length_append, ← hl']
          exact hnew

theorem joined_run (h : Joined d own got D) (hd : 1 ≤ d) (hd' : d ≤ 120) (hc : D.Calm)
    (hr : DuoRun W D D') : D'.Calm ∧ ∃ own' got', Joined d own' got' D' := by
  induction hr with
  | refl => exact ⟨hc, own, got, h⟩
  | tail _ hs ih =>
    obtain ⟨hcalm, own', got', hj⟩ := ih
    exact ⟨hs.2, joined_step hj hd hd' hcalm hs.1 hs.2⟩

theorem joined_opening (h : D.Opening d) (hd : 1 ≤ d) (hd' : d ≤ 120) :
    Joined d (fun _ => []) (fun _ => []) D := by
  obtain ⟨lo, hi, names, hstart⟩ := h.started
  refine ⟨fun i => ?_, fun i => ⟨[], [], rfl, .done, ?_⟩⟩
  · obtain ⟨u, hu, hf, hl, hlog, -⟩ := hstart i
    rw [hu]
    exact mate_onStart i.isLt hd hd' hf hl hlog
  · obtain ⟨u, hu, -, -, -, hrx⟩ := hstart i
    have hkeep : rxBytes (onStart u) = rxBytes u := by
      refine rxBytes_local (within_onStart u) fun a ha hc => ?_
      simp only [RxCell, rxWr, rxRd, rxacc] at ha
      simp only [StartCell, NameCell, InputCell, RingCell, WmCell, CrcCell, nameTbl, seatRing, seatWm,
        ownCrc, netSeat, netCount, rngLo, rngHi, netDelay, tickLo, tickHi, netActive] at hc
      omega
    refine ⟨fun f hf => absurd hf List.not_mem_nil, ?_, fun f hf => absurd hf (by simp)⟩
    rw [hu, h.wire i]
    dsimp only
    rw [hkeep, hrx]
    rfl

/-! ### Agreement -/

/-- The pair of a seat for a tick: idle below the delay, then what the seat captured when its own counter
was behind by the delay. -/
def Duo.Consumed (d : ℕ) (D : Duo) (seat : Fin 2) (tick : ℕ) (pr : ℕ × ℕ) : Prop :=
  if tick < d then pr = idleSlot
  else ∃ e ∈ (D.node seat).cpu.log, e.ran + d = tick ∧ ∃ a a', e.ev = .capture pr.1 pr.2 a a'

/-- The gate is open: the tick runs next. -/
def Node.Due (n : Node) : Prop := n.phase = .gate ∧ gateOpen n.cpu = true

/-- A console whose tick is due, behind the `SHADOW_FROM_RINGS` of the tick. -/
def Node.shadowed (n : Node) : Cpu := shadowFromRings (tickShadow n.cpu)

/-- The shadow cells of a seat. -/
def shadowPair (q : Fin 2) (s : Cpu) : ℕ × ℕ :=
  if q.val = 0 then (s.rd shadowCtrl, s.rd shadowKp) else (s.rd shadowCtrlR, s.rd shadowKpR)

/-- The ring cells of a seat at the tick. -/
def curCells (q : Fin 2) (s : Cpu) : ℕ × ℕ :=
  (vdCell (seatRing + q * 256) s, vdCell (seatRing + q * 256 + 0x400) s)

/-- The ring cells of a seat at the tick before. -/
def prevCells (q : Fin 2) (s : Cpu) : ℕ × ℕ :=
  (vdCellPrev (seatRing + q * 256) s, vdCellPrev (seatRing + q * 256 + 0x400) s)

/-- `SHADOW_FROM_RINGS` logs what it leaves in the four cells. -/
theorem shadow_cells (s : Cpu) : shadowEv s = .shadow ((shadowFromRings s).rd shadowCtrl)
    ((shadowFromRings s).rd shadowCtrlR) ((shadowFromRings s).rd shadowKp)
    ((shadowFromRings s).rd shadowKpR) := by
  have hlog := log_shadowFromRings s
  have hdef : ∃ m l, (shadowFromRings s).log = Mark.stamp m (.shadow ((shadowFromRings s).rd shadowCtrl)
      ((shadowFromRings s).rd shadowCtrlR) ((shadowFromRings s).rd shadowKp)
      ((shadowFromRings s).rd shadowKpR)) :: l := ⟨_, _, rfl⟩
  obtain ⟨m, l, hl⟩ := hdef
  rw [hl, List.cons.injEq] at hlog
  exact (congrArg Stamped.ev hlog.1).symm

theorem shadowEv_tickShadow (s : Cpu) : shadowEv (tickShadow s) = shadowEv s :=
  shadowEv_congr (fun _ hx => (within_tickShadow s).rd _ (not_tickCell_ring hx))
    ((within_tickShadow s).rd _ (by decide))

/-- The tick that is due goes on from there. -/
theorem lsTick_shadowed (C : Cart) (n : Node) : lsTick C n.cpu = nullTable (lsTblAdopt (scGameTick C
    (nullTable (lsTblAdopt (dispatchSeat C 1 (dispatchSeat C 0 n.shadowed)))))) := rfl

theorem grows_duoRun (hr : DuoRun W D D') (i : Fin 2) :
    (D.node i).cpu.log <:+ (D'.node i).cpu.log := by
  induction hr with
  | refl => exact List.suffix_refl _
  | tail _ hs ih =>
    refine ih.trans ?_
    obtain ⟨hs, -⟩ := hs
    cases hs with
    | @step j p n rest sent hstep _ _ _ =>
      by_cases hj : i = j
      · subst hj
        dsimp only
        rw [Function.update_self]
        exact grows_step hstep
      · dsimp only
        rw [Function.update_of_ne hj]

/-- A tick that a console has both pairs for is within what both have captured. -/
theorem Joined.reach (h : Joined d own got D) (i : Fin 2) {tick : ℕ}
    (h1 : tick < d + (own i).length) (h2 : tick < d + (got i).length) (q : Fin 2) :
    tick < d + (own q).length := by
  by_cases hq : q = i
  · rw [hq]
    exact h1
  · obtain ⟨l, fs, hl, -⟩ := h.flow i
    rw [eq_other hq, hl, List.length_append]
    omega

/-- Each console has the other seat's pairs from the other console. -/
theorem Joined.seatLine (h : Joined d own got D) (i q : Fin 2) {x : ℕ}
    (hx : x < 256 + d + (got i).length) : seatLine i d (own i) (got i) q x = line d (own q) x := by
  unfold Console.seatLine
  by_cases hq : q = i
  · subst hq
    rw [if_pos rfl]
  · obtain ⟨l, fs, hl, -⟩ := h.flow i
    rw [if_neg fun hv => hq (Fin.ext hv), eq_other hq, hl, line_append hx]

theorem Joined.consumed (h : Joined d own got D) (q : Fin 2) {tick : ℕ} {pr : ℕ × ℕ}
    (ht : tick < d + (own q).length) (hp : pr = line d (own q) (256 + tick)) :
    D.Consumed d q tick pr := by
  unfold Duo.Consumed
  split_ifs with hd
  · rw [hp, line, if_pos (by omega)]
  · have hlt : tick - d < (own q).length := by omega
    have hidx : 256 + tick - (256 + d) = tick - d := by omega
    have hget : (own q)[tick - d]? = some pr := by
      rw [hp, line, if_neg (by omega), hidx, List.getD_eq_getElem?_getD, List.getElem?_eq_getElem hlt,
        Option.getD_some]
    obtain ⟨e, he, hran, hev⟩ := (h.mate q).logged _ _ hget
    exact ⟨e, he, by omega, hev⟩

/-- What a shadow entry holds. -/
theorem Joined.shadow (h : Joined d own got D) (i : Fin 2) {e : Stamped}
    (he : e ∈ (D.node i).cpu.log) {l r kl kr : ℕ} (hev : e.ev = .shadow l r kl kr) :
    e.ran < d + (own 0).length ∧ e.ran < d + (own 1).length ∧
      (l, kl) = line d (own 0) (256 + e.ran) ∧ (r, kr) = line d (own 1) (256 + e.ran) := by
  have htold := (h.mate i).told e he
  unfold Told at htold
  simp only [hev] at htold
  obtain ⟨h1, h2, h3, h4⟩ := htold
  have hlen := h.reach i h1 h2
  rw [show (0 : ℕ) = ((0 : Fin 2) : ℕ) from rfl, h.seatLine i 0 (by omega)] at h3
  rw [show (1 : ℕ) = ((1 : Fin 2) : ℕ) from rfl, h.seatLine i 1 (by omega)] at h4
  exact ⟨hlen 0, hlen 1, h3, h4⟩

/-- What a dispatch entry holds. -/
theorem Joined.dispatch (h : Joined d own got D) (i : Fin 2) {e : Stamped}
    (he : e ∈ (D.node i).cpu.log) {seat cur prev kp kpPrev : ℕ}
    (hev : e.ev = .dispatch seat cur prev kp kpPrev) : ∃ q : Fin 2, seat = q ∧
      e.ran < d + (own q).length ∧ (cur, kp) = line d (own q) (256 + e.ran) ∧
        (prev, kpPrev) = line d (own q) (255 + e.ran) := by
  have htold := (h.mate i).told e he
  unfold Told at htold
  simp only [hev] at htold
  obtain ⟨hs, h1, h2, h3, h4⟩ := htold
  rw [show seat = ((⟨seat, hs⟩ : Fin 2) : ℕ) from rfl, h.seatLine i _ (by omega)] at h3 h4
  exact ⟨⟨seat, hs⟩, rfl, h.reach i h1 h2 _, h3, h4⟩

/-- A tick that is due has its captures. -/
theorem Joined.due (h : Joined d own got D) (hd : 1 ≤ d) (hc : D.Calm) {i : Fin 2}
    (hdue : (D.node i).Due) : (D.node i).cpu.mark.ran < d + (own i).length ∧
      (D.node i).cpu.mark.ran < d + (got i).length := by
  have hcap := (h.mate i).captured
  rw [if_pos (.inl hdue.1)] at hcap
  exact ⟨by omega, (h.mate i).playing.open i.isLt hdue.2 (hc i).1 hd⟩

/-- The shadows of a tick that is due, in their cells. -/
theorem Joined.shadowed (h : Joined d own got D) (hd : 1 ≤ d) (hc : D.Calm) {i : Fin 2}
    (hdue : (D.node i).Due) (q : Fin 2) :
    D.Consumed d q (D.node i).cpu.mark.ran (shadowPair q (D.node i).shadowed) := by
  obtain ⟨hown, hgot⟩ := h.due hd hc hdue
  have hlen := h.reach i hown hgot q
  have hev := (h.mate i).playing.shadow i.isLt hown hgot
  have h0 := h.seatLine i 0 (x := 256 + (D.node i).cpu.mark.ran) (by omega)
  have h1 := h.seatLine i 1 (x := 256 + (D.node i).cpu.mark.ran) (by omega)
  rw [show (((0 : Fin 2) : ℕ)) = 0 from rfl] at h0
  rw [show (((1 : Fin 2) : ℕ)) = 1 from rfl] at h1
  rw [h0, h1] at hev
  refine h.consumed q hlen ?_
  have hcells := shadow_cells (tickShadow (D.node i).cpu)
  have hsame := shadowEv_tickShadow (D.node i).cpu
  rw [hsame, hev, Ev.shadow.injEq] at hcells
  obtain ⟨hl, hr, hkl, hkr⟩ := hcells
  match q with
  | 0 => exact Prod.ext hl.symm hkl.symm
  | 1 => exact Prod.ext hr.symm hkr.symm

/-- The ring cells that the dispatch of a tick that is due reads, at the tick and at the one before. -/
theorem Joined.ringed (h : Joined d own got D) (hd : 1 ≤ d) (hc : D.Calm) {i : Fin 2}
    (hdue : (D.node i).Due) (q : Fin 2) :
    D.Consumed d q (D.node i).cpu.mark.ran (curCells q (D.node i).shadowed) ∧
      if (D.node i).cpu.mark.ran = 0 then prevCells q (D.node i).shadowed = idleSlot
      else D.Consumed d q ((D.node i).cpu.mark.ran - 1) (prevCells q (D.node i).shadowed) := by
  obtain ⟨hown, hgot⟩ := h.due hd hc hdue
  have hlen := h.reach i hown hgot q
  have hev := (h.mate i).playing.dispatch i.isLt q.isLt hown hgot
  rw [h.seatLine i q (by omega), h.seatLine i q (by omega)] at hev
  have hw := (within_tickShadow (D.node i).cpu).trans
    ((within_shadowFromRings (tickShadow (D.node i).cpu)).mono fun _ => dispatch_tick)
  have hsame : dispatchEv q (D.node i).shadowed = dispatchEv q (D.node i).cpu :=
    dispatchEv_congr (Nat.lt_trans q.isLt (by decide)) (fun x hx => hw.rd x (not_tickCell_ring hx))
      (hw.rd _ (by decide))
  rw [← hsame, dispatchEv, Ev.dispatch.injEq] at hev
  obtain ⟨-, hcur, hprev, hkp, hkpPrev⟩ := hev
  refine ⟨h.consumed q hlen (Prod.ext hcur hkp), ?_⟩
  have hp : prevCells q (D.node i).shadowed = line d (own q) (255 + (D.node i).cpu.mark.ran) :=
    Prod.ext hprev hkpPrev
  split_ifs with h0
  · rw [hp, h0, line, if_pos (by omega)]
  · refine h.consumed q (by omega) ?_
    rw [hp]
    congr 1
    omega

/-- A tick has one pair for each seat. -/
theorem Joined.unique (h : Joined d own got D) {q : Fin 2} {tick : ℕ} {pr pr' : ℕ × ℕ}
    (h1 : D.Consumed d q tick pr) (h2 : D.Consumed d q tick pr') : pr = pr' := by
  unfold Duo.Consumed at h1 h2
  split_ifs at h1 h2
  · rw [h1, h2]
  · obtain ⟨e, he, hran, a, a', hev⟩ := h1
    obtain ⟨e', he', hran', b, b', hev'⟩ := h2
    have ht := (h.mate q).told e he
    have ht' := (h.mate q).told e' he'
    unfold Told at ht ht'
    simp only [hev] at ht
    simp only [hev'] at ht'
    rw [show e.ran = e'.ran by omega, ht', Option.some.injEq] at ht
    exact ht.symm

/-- What has been consumed stays so. -/
theorem Duo.Consumed.grow {q : Fin 2} {tick : ℕ} {pr : ℕ × ℕ} (h : D.Consumed d q tick pr)
    (hr : DuoRun W D D') : D'.Consumed d q tick pr := by
  have hlog : (D.node q).cpu.log <:+ (D'.node q).cpu.log := grows_duoRun hr q
  unfold Duo.Consumed at h ⊢
  split_ifs at h ⊢ with hd
  · exact h
  · obtain ⟨e, he, hev⟩ := h
    exact ⟨e, hlog.subset he, hev⟩

end joined

/-! ### A pass alone -/

/-- A console that has pushed no state and has not given up. -/
def Node.Calm (n : Node) : Prop := n.cpu.rd netDropped = 0 ∧ ∀ e ∈ n.cpu.log, e.ev.NoPush

/-- A step of a console that reads nothing. -/
def Lone (W : World) (n n' : Node) : Prop :=
  (∃ p, Step W p n n' ∧ reads p n.cpu = []) ∧ (∃ sent, n'.cpu.tx = n.cpu.tx ++ sent) ∧ n'.Calm

section lone

variable {W : Fin 2 → World} {D : Duo} {V : World} {n n' : Node} {s : Cpu}

theorem Lone.of_local {P : ℕ → Prop} {p : Option Poll} (hs : Step V p n n')
    (hr : reads p n.cpu = []) (hl : Local P n.cpu n'.cpu) (hP : ¬ P netDropped) (h : n.Calm) :
    Lone V n n' := by
  refine ⟨⟨p, hs, hr⟩, ⟨[], ?_⟩, ?_, ?_⟩
  · rw [hl.tx, List.append_nil]
  · rw [hl.rd _ hP]
    exact h.1
  · rw [hl.log]
    exact h.2

theorem Lone.own {ph ph' : Phase} {s s' : Cpu} {sent : List ℕ}
    (ha : advance V.cart ⟨ph, s⟩ = some ⟨ph', s'⟩) (htx : s'.tx = s.tx ++ sent)
    (hd : s'.rd netDropped = 0) (hl : ∀ e ∈ s'.log, e.ev.NoPush) : Lone V ⟨ph, s⟩ ⟨ph', s'⟩ :=
  ⟨⟨none, .own ha, rfl⟩, ⟨sent, htx⟩, hd, hl⟩

/-- A step of one of the two, of which the bytes that it reads are on their way. -/
theorem duoRun_step {i : Fin 2} {p : Option Poll} {rest sent : List ℕ} (h : D.Calm)
    (hs : Step (W i) p (D.node i) n) (hread : (reads p (D.node i).cpu).length ≤ 64)
    (hwire : D.wire i = reads p (D.node i).cpu ++ rest) (htx : n.cpu.tx = (D.node i).cpu.tx ++ sent)
    (hc : n.Calm) : ∃ D', DuoRun W D D' ∧ D'.Calm ∧ D'.node i = n ∧
      D'.node (1 - i) = D.node (1 - i) ∧ D'.wire i = rest ∧
        D'.wire (1 - i) = D.wire (1 - i) ++ sent := by
  have hcalm : ∀ w, (⟨Function.update D.node i n, w⟩ : Duo).Calm := by
    intro w j
    by_cases hj : j = i
    · subst hj
      dsimp only
      rw [Function.update_self]
      exact hc
    · dsimp only
      rw [Function.update_of_ne hj]
      exact h j
  refine ⟨_, .single ⟨.step hs hread hwire htx, hcalm _⟩, hcalm _, ?_, ?_, ?_, ?_⟩
  · exact Function.update_self ..
  · exact Function.update_of_ne (other_ne i) ..
  · dsimp only
    rw [Function.update_of_ne (other_ne i).symm, Function.update_self]
  · exact Function.update_self ..

/-- What a console does alone is a run of the two, and what it sends is on its way to the other. -/
theorem duoRun_of_lone {i : Fin 2} (h : D.Calm)
    (hr : Relation.ReflTransGen (Lone (W i)) (D.node i) n) :
    ∃ D', DuoRun W D D' ∧ D'.Calm ∧ D'.node i = n ∧ D'.node (1 - i) = D.node (1 - i) ∧
      D'.wire i = D.wire i ∧
        ∃ sent, n.cpu.tx = (D.node i).cpu.tx ++ sent ∧ D'.wire (1 - i) = D.wire (1 - i) ++ sent := by
  induction hr with
  | refl => exact ⟨D, .refl, h, rfl, rfl, rfl, [], (List.append_nil _).symm, (List.append_nil _).symm⟩
  | @tail m m' _ hstep ih =>
    obtain ⟨D', hrun, hcalm, rfl, ho, hw, sent, htx, hw'⟩ := ih
    obtain ⟨⟨p, hs, hread⟩, ⟨sent', htx'⟩, hc⟩ := hstep
    obtain ⟨D'', hrun', hcalm', hn, ho', hw₂, hw₂'⟩ := duoRun_step hcalm hs
      (by rw [hread]; exact Nat.zero_le _)
      (show D'.wire i = _ ++ D'.wire i by rw [hread, List.nil_append]) htx' hc
    exact ⟨D'', hrun.trans hrun', hcalm', hn, ho'.trans ho, hw₂.trans hw, sent ++ sent',
      by rw [htx', htx, List.append_assoc], by rw [hw₂', hw', List.append_assoc]⟩

/-- An open gate for two seats stays open while what it reads of the counters stays. -/
theorem gateOpen_congr {s t : Cpu} (hcount : s.rd netCount = 2) (hopen : gateOpen s = true)
    (hr : ∀ a ∈ [netDropped, netCount, netSeat, tickLo, tickHi], t.rd a = s.rd a)
    (hwm : ∀ i < 2, t.wm i = s.wm i) : gateOpen t = true := by
  have htick : t.tick = s.tick := Cpu.tick_congr (hr _ (by simp)) (hr _ (by simp))
  have hbehind : ∀ i < 2, seatBehind t i = seatBehind s i := fun i hi => by
    rw [seatBehind, hr _ (by simp), hwm i hi, htick]
    rfl
  have hseats : List.range (max 1 2) = [0, 1] := rfl
  rw [gateOpen, hcount, hseats] at hopen
  rw [gateOpen, hr netDropped (by simp), hr netCount (by simp), hcount, hseats]
  simp only [List.all_cons, List.all_nil, hbehind 0 (by decide), hbehind 1 (by decide)] at hopen ⊢
  exact hopen

/-- The wait on the matched screen. -/
theorem lone_wait (h : n.Calm) (hr : Relation.ReflTransGen (fun n n' => n.phase = .matched ∧
    Step V (some .silent) n n' ∧ Local WaitingCell n.cpu n'.cpu) n n') :
    Relation.ReflTransGen (Lone V) n n' ∧ n'.Calm := by
  induction hr with
  | refl => exact ⟨.refl, h⟩
  | tail _ hstep ih =>
    obtain ⟨-, hs, hl⟩ := hstep
    have hlone : Lone V _ _ := .of_local hs (delivered_silent _) hl (by decide) ih.2
    exact ⟨ih.1.tail hlone, hlone.2.2⟩

/-- What a console may change up to the capture of its first pass. -/
def LeadCell (a : ℕ) : Prop := MailCell a ∨ MenuCell a ∨ WaitingCell a

instance : DecidablePred LeadCell := fun a => by unfold LeadCell; infer_instance

theorem wm_lead {t : Cpu} (h : Local LeadCell s t) {i : ℕ} (hi : i < 2) : t.wm i = s.wm i := by
  apply wm_congr
  intro b hb
  apply h.rd
  simp only [LeadCell, MailCell, MenuCell, RowCell, ScreenCell, WaitingCell, sesTmrLo, backtab,
    uiColor, ppTmp, menuSel, menuPrev, seatWm]
  omega

/-- A console whose lobby screen ends reaches the capture of its first pass. -/
theorem lone_send (hrx : rxBytes s = []) (hz : ∀ a ∈ [netDropped, resyncHold, peerScr], s.rd a = 0)
    (hact : s.rd netActive ≠ 0) (hcount : s.rd netCount = 2) (hlog : ∀ e ∈ s.log, e.ev.NoPush) :
    ∃ t, Relation.ReflTransGen (Lone stillWorld) ⟨.lobby, s⟩ ⟨.send, t⟩ ∧ Local LeadCell s t ∧
      rxBytes t = [] := by
  obtain ⟨hp, hrx1⟩ := sesPump_silent hrx
  have hl1 : Local LeadCell s (sesPump .silent s) := hp.mono fun _ => Or.inl
  have hact1 : (sesPump .silent s).rd netActive ≠ 0 := by
    rw [hp.rd _ (by decide)]
    exact hact
  have hgo := local_sesGo hact1 (by rw [hp.rd _ (by decide), hcount]; decide)
  have hl2 : Local LeadCell s (sesGo (sesPump .silent s)) :=
    hl1.trans (hgo.mono fun _ h => Or.inr (Or.inl h))
  obtain ⟨u, hrun, hu, hrx3⟩ := reach_go (W := stillWorld) hrx1 hact1
    (by rw [hp.rd _ (by decide), hcount]; decide)
  have hl3 : Local LeadCell s u := hl1.trans (hu.mono fun _ => Or.inr)
  obtain ⟨hq, hrx4⟩ := sesPump_silent hrx3
  have hl4 : Local LeadCell s (sesPump .silent u) := hl3.trans (hq.mono fun _ => Or.inl)
  have hcalm : ∀ {ph v}, Local LeadCell s v → Node.Calm ⟨ph, v⟩ := fun hv =>
    ⟨(hv.rd _ (by decide)).trans (hz _ (by simp)), by rw [hv.log]; exact hlog⟩
  have hfirst : Lone stillWorld ⟨.lobby, s⟩ ⟨.matched, sesGo (sesPump .silent s)⟩ := by
    refine .of_local (p := some .silent) (.pump (r := 0) ?_) (delivered_silent s) hl2 (by decide)
      (hcalm (.refl s))
    rw [afterPump, lobbyRound, if_neg hact1]
  have hwait : Relation.ReflTransGen (Lone stillWorld) ⟨.matched, sesGo (sesPump .silent s)⟩
      ⟨.boot, u⟩ := (lone_wait (hcalm hl2) hrun).1
  have hentry : advance stillWorld.cart ⟨.entry, u⟩ = some ⟨.top, u⟩ := by
    refine advance_entry_top fun a ha => ?_
    have hlead : ¬ LeadCell a := by rcases ha with rfl | rfl | rfl <;> decide
    exact (hl3.rd a hlead).trans (hz a (by simpa [EntryTest] using ha))
  have hboot : Lone stillWorld ⟨.boot, u⟩ ⟨.entry, u⟩ :=
    .of_local (p := none) (.boot rfl) rfl (Local.refl u (P := LeadCell)) (by decide) (hcalm hl3)
  have htop : Lone stillWorld ⟨.entry, u⟩ ⟨.top, u⟩ :=
    .of_local (p := none) (.own hentry) rfl (Local.refl u (P := LeadCell)) (by decide) (hcalm hl3)
  have hpump : Lone stillWorld ⟨.top, u⟩ ⟨.send, sesPump .silent u⟩ :=
    .of_local (p := some .silent) (.pump (r := 0) rfl) (delivered_silent u) hq (by decide) (hcalm hl3)
  exact ⟨_, .head hfirst (((hwait.tail hboot).tail htop).tail hpump), hl4, hrx4⟩

theorem noPush_cons {m : Mark} {ev : Ev} {l : List Stamped} (hev : ev.NoPush)
    (hl : ∀ e ∈ l, e.ev.NoPush) : ∀ e ∈ m.stamp ev :: l, e.ev.NoPush :=
  List.forall_mem_cons.2 ⟨hev, hl⟩

/-- Before its tail the run of a tick logs no push. -/
theorem noPush_runBody (C : Cart) (h : ∀ e ∈ s.log, e.ev.NoPush) :
    ∀ e ∈ (runBody C s).log, e.ev.NoPush := by
  have htick : ∀ e ∈ (lsTick C s).log, e.ev.NoPush := by
    rw [log_lsTick]
    apply noPush_cons ?_ (noPush_cons ?_ (noPush_cons ?_ (noPush_cons ?_ (noPush_cons ?_
      (noPush_cons ?_ h)))))
    all_goals trivial
  rw [log_runBody]
  split_ifs
  · exact noPush_cons (by trivial) htick
  · exact htick

theorem stamp_shadowEv (m : Mark) (s : Cpu) :
    ∃ l r kl kr, (m.stamp (shadowEv s)).ev = .shadow l r kl kr := ⟨_, _, _, _, rfl⟩

/-- The run of a tick logs its shadows. -/
theorem shadow_runBody (C : Cart) : s.mark.stamp (shadowEv s) ∈ (runBody C s).log := by
  have htick : s.mark.stamp (shadowEv s) ∈ (lsTick C s).log := by
    rw [log_lsTick]
    exact .tail _ (.tail _ (.tail _ (.tail _ (.head _))))
  rw [log_runBody]
  split_ifs
  · exact .tail _ htick
  · exact htick

/-- What a capture and the run of a tick leave as they are, and what they count. -/
structure Behind (t r : Cpu) : Prop where
  kept : ∀ a ∈ [netDropped, netCount, netSeat, rsPend, resyncHold, peerScr], r.rd a = t.rd a
  mark : r.mark = { t.mark with ran := t.mark.ran + 1 }
  tick : r.tick = (t.tick + 1) % 65536
  wm : ∀ i < 2, r.wm i = t.wm i
  rx : rxBytes r = rxBytes t

theorem behind_runBody (C : Cart) {t : Cpu} (hseat : t.rd netSeat < 4) :
    Behind t (runBody C (lsSend t)) := by
  have hsend := within_lsSend hseat
  have hbody := within_runBody (lsSend t) C
  have hcell : ∀ j < 2, ¬ BodyCell (seatWm + 2 * j) ∧ ¬ BodyCell (seatWm + 2 * j + 1) := by decide
  refine ⟨fun a ha => ?_, ?_, ?_, fun i hi => ?_, ?_⟩
  · exact (hbody.rd a (by revert a; decide)).trans (hsend.rd a (by revert a; decide))
  · rw [mark_runBody, mark_lsSend hseat]
  · rw [tick_runBody, Cpu.tick_congr (hsend.rd _ (by decide)) (hsend.rd _ (by decide))]
  · rw [← wm_lsSend hseat (show i < 4 by omega)]
    exact Cpu.wm_congr (hbody.rd _ (hcell i hi).1) (hbody.rd _ (hcell i hi).2)
  · exact (rxBytes_local hbody fun a => not_rxCell_body).trans (rxBytes_lsSend hseat)

/-- Behind its capture a console for two seats runs the tick that was due, and returns when no push is
pending. -/
theorem gate_runBody (C : Cart) {t : Cpu} (hseat : t.rd netSeat < 4) (hcount : t.rd netCount = 2)
    (hopen : gateOpen t = true) (hpend : t.rd rsPend = 0) :
    lsGate C (lsSend t) = ⟨.idle, lsReturn (runBody C (lsSend t))⟩ := by
  have hcells : ∀ a ∈ [netDropped, netCount, netSeat, tickLo, tickHi, rsPend, resyncHold, peerScr],
      (lsSend t).rd a = t.rd a := fun a ha => (within_lsSend hseat).rd a (by revert a; decide)
  have hstill : gateOpen (lsSend t) = true :=
    gateOpen_congr hcount hopen (fun a ha => hcells a (by revert a; decide))
      fun i hi => wm_lsSend hseat (by omega)
  have hkept := (behind_runBody C hseat).kept rsPend (by decide)
  rw [lsGate, if_pos hstill, lsRun_eq, rsPending, if_pos (Or.inl (hkept.trans hpend))]

/-- A console between two passes, with nothing buffered and nothing flagged. -/
structure Node.Resting (n : Node) : Prop where
  idle : n.phase = .idle
  seat : n.cpu.rd netSeat < 4
  flags : ∀ a ∈ [netDropped, resyncHold, peerScr], n.cpu.rd a = 0
  rx : rxBytes n.cpu = []

/-- What a console is after a tick that it captured and ran alone. -/
structure Ticked (t : Cpu) (n : Node) : Prop where
  resting : n.Resting
  ran : n.cpu.mark.ran = t.mark.ran + 1
  tick : n.cpu.tick = (t.tick + 1) % 65536
  wm : ∀ i < 2, n.cpu.wm i = t.wm i
  rdSeat : n.cpu.rd netSeat = t.rd netSeat
  rdCount : n.cpu.rd netCount = t.rd netCount
  shadow : ∃ e ∈ n.cpu.log, e.ran = t.mark.ran ∧ ∃ l r kl kr, e.ev = .shadow l r kl kr
  capture : ∃ e ∈ n.cpu.log, e.ran = t.mark.ran ∧
    ∃ a a', e.ev = .capture (t.rd execInL) (t.rd execKpL) a a'
  tx : ∃ more, n.cpu.tx =
    t.tx ++ (inputOf (t.rd netSeat) (dueTick t) (t.rd execInL, t.rd execKpL) ++ more)

/-- A console for two seats whose gate is open captures, sends and runs its tick. -/
theorem lone_tick {t : Cpu} (hrx : rxBytes t = [])
    (hz : ∀ a ∈ [netDropped, resyncHold, peerScr, rsPend], t.rd a = 0) (hcount : t.rd netCount = 2)
    (hseat : t.rd netSeat < 4) (hopen : gateOpen t = true) (hlog : ∀ e ∈ t.log, e.ev.NoPush) :
    ∃ n, Relation.ReflTransGen (Lone stillWorld) ⟨.send, t⟩ n ∧ Ticked t n := by
  have hb := behind_runBody stillWorld.cart hseat
  have hgate := gate_runBody stillWorld.cart hseat hcount hopen (hz _ (by decide))
  have hlog1 : ∀ e ∈ (lsSend t).log, e.ev.NoPush := by
    rw [log_lsSend, log_lsCapture hseat]
    exact List.forall_mem_cons.2 ⟨trivial, hlog⟩
  have hdrop : (lsSend t).rd netDropped = 0 :=
    ((within_lsSend hseat).rd _ (by decide)).trans (hz _ (by decide))
  have htx := tx_lsSend hseat
  have hcapture : t.mark.stamp (.capture (t.rd execInL) (t.rd execKpL)
      (ringAt (t.rd netSeat) (dueTick t)) (kpAt (t.rd netSeat) (dueTick t))) ∈ (lsSend t).log := by
    rw [log_lsSend, log_lsCapture hseat]
    exact List.mem_cons_self
  have hgrow := (within_runBody (lsSend t) stillWorld.cart).grows.subset hcapture
  have hsend : Lone stillWorld ⟨.send, t⟩ ⟨.gate, lsSend t⟩ :=
    .own (advance_send _ _) htx hdrop hlog1
  have htx2 := tx_runBody (lsSend t) stillWorld.cart
  rw [htx, List.append_assoc] at htx2
  have hstep := tx_runBody (lsSend t) stillWorld.cart
  have hlog2 := noPush_runBody stillWorld.cart hlog1
  have hshadow : ∃ e ∈ (runBody stillWorld.cart (lsSend t)).log, e.ran = t.mark.ran ∧
      ∃ l r kl kr, e.ev = .shadow l r kl kr := by
    refine ⟨_, shadow_runBody stillWorld.cart, ?_, stamp_shadowEv _ _⟩
    rw [mark_lsSend hseat]
    rfl
  have hcaptured : ∃ e ∈ (runBody stillWorld.cart (lsSend t)).log, e.ran = t.mark.ran ∧
      ∃ a a', e.ev = .capture (t.rd execInL) (t.rd execKpL) a a' := ⟨_, hgrow, rfl, _, _, rfl⟩
  generalize runBody stillWorld.cart (lsSend t) = v at *
  generalize lsSend t = u at *
  have hdrop2 : v.rd netDropped = 0 := (hb.kept _ (by decide)).trans (hz _ (by decide))
  have hnext : Lone stillWorld ⟨.gate, u⟩ ⟨.idle, lsReturn v⟩ :=
    .own ((advance_gate _ _).trans (congrArg some hgate)) hstep hdrop2 hlog2
  have hrest : Node.Resting ⟨.idle, lsReturn v⟩ := by
    refine ⟨rfl, ?_, fun a ha => ?_, hb.rx.trans hrx⟩
    · exact (hb.kept netSeat (by decide)).trans_lt hseat
    · exact (hb.kept a (by revert a; decide)).trans (hz a (by revert a; decide))
  exact ⟨_, .tail (.single hsend) hnext, hrest, congrArg Mark.ran hb.mark, hb.tick, hb.wm,
    hb.kept _ (by decide), hb.kept _ (by decide), hshadow, hcaptured, _, htx2⟩

/-- With its mailbox silent, a console for two seats whose gate is open gets from the lobby to its first
capture and through the tick, whatever the low memory is then. -/
theorem lone_pass (hrx : rxBytes s = [])
    (hz : ∀ a ∈ [netDropped, resyncHold, peerScr, rsPend], s.rd a = 0)
    (hact : s.rd netActive ≠ 0) (hcount : s.rd netCount = 2) (hseat : s.rd netSeat < 4)
    (hopen : gateOpen s = true) (hlog : ∀ e ∈ s.log, e.ev.NoPush) :
    ∃ t, Relation.ReflTransGen (Lone stillWorld) ⟨.lobby, s⟩ ⟨.send, t⟩ ∧
      ∀ u, Local (· < 0x8000) t u → Local LeadCell s u ∧
        ∃ n, Relation.ReflTransGen (Lone stillWorld) ⟨.send, u⟩ n ∧ Ticked u n := by
  obtain ⟨t, hrun, hl, hrx1⟩ := lone_send hrx (fun a ha => hz a (by simp at ha ⊢; tauto)) hact hcount hlog
  refine ⟨t, hrun, fun u hu => ?_⟩
  have hlu : Local LeadCell s u := hl.trans (hu.mono fun _ h => Or.inr (Or.inr (Or.inr (Or.inr h))))
  have hrxu : rxBytes u = [] := by
    rw [← hrx1]
    refine rxBytes_local hu.within fun a ha hlow => ?_
    simp only [RxCell, rxWr, rxRd, rxacc] at ha
    omega
  have hcells : ∀ a ∈ [netDropped, netCount, netSeat, tickLo, tickHi], u.rd a = s.rd a :=
    fun a ha => hlu.rd a (by revert a; decide)
  have hwm : ∀ i < 2, u.wm i = s.wm i := fun i hi => wm_lead hlu hi
  exact ⟨hlu, lone_tick hrxu (fun a ha => (hlu.rd a (by revert a; decide)).trans (hz a ha))
    ((hcells _ (by decide)).trans hcount) (by rw [hcells _ (by decide)]; exact hseat)
    (gateOpen_congr hcount hopen hcells hwm) (by rw [hlu.log]; exact hlog)⟩

/-- With the other seat's watermark not behind, the gate of a console of two is open. -/
theorem gateOpen_pair {i : Fin 2} (hs : s.rd netSeat = i) (hc : s.rd netCount = 2)
    (hw : minus (sub16 (s.wm (1 - i : Fin 2)) s.tick) = false) : gateOpen s = true := by
  have hseats : List.range (max 1 2) = [0, 1] := rfl
  have hbehind : ∀ j < 2, seatBehind s j = false := fun j hj => by
    by_cases hji : j = i
    · rw [seatBehind, hs, hji]
      simp
    · have : j = ((1 - i : Fin 2) : ℕ) := by rw [val_other]; omega
      rw [seatBehind, this, hw, Bool.and_false]
  rw [gateOpen, hc, hseats]
  simp only [List.all_cons, List.all_nil, hbehind 0 (by decide), hbehind 1 (by decide), Bool.not_false,
    Bool.and_true, Bool.or_true]

theorem framed_first (i : Fin 2) {a b : ℕ} (ha : a < 256) (hb : b < 256) :
    Framed (inputOf i 1 (a, b)) := by
  refine ⟨rfl, show flenOk 6 6 = true by decide, fun x hx => ?_⟩
  simp only [inputOf, ftInput, List.mem_cons, List.not_mem_nil, or_false] at hx
  omega

/-- The first INPUT of the other console is taken. -/
theorem accepts_first {i : Fin 2} {a b : ℕ} {v : Cpu}
    (hbuf : InFrmbuf (inputOf (1 - i : Fin 2) 1 (a, b)) v) (hs : v.rd netSeat = i)
    (hc : v.rd netCount = 2) (hwm : v.wm (1 - i : Fin 2) = 0) :
    sesOnframe v = acceptInput v ∧ frameTick v = 1 ∧ v.rd (frmbuf + 2) = (1 - i : Fin 2) := by
  have hother : ((1 - i : Fin 2) : ℕ) < 2 := (1 - i : Fin 2).isLt
  have hne : ((1 - i : Fin 2) : ℕ) ≠ i := fun he => other_ne i (Fin.ext he)
  have hcell : ∀ j < 7, v.rd (frmbuf + j) = (inputOf (1 - i : Fin 2) 1 (a, b)).getD j 0 :=
    fun j hj => hbuf j hj
  have h0 : v.rd frmbuf = 6 := hcell 0 (by decide)
  have hf : v.rd (frmbuf + 2) = (1 - i : Fin 2) := hcell 2 (by decide)
  have hft : frameTick v = 1 := by
    rw [frameTick, Cpu.rd16, hcell 3 (by decide), hcell 4 (by decide)]
    simp [inputOf, word]
  have hplus : ¬ (minus (inputDelta v) ∨ inputDelta v = 0) := by
    rw [inputDelta, hft, hf, hwm]
    decide
  refine ⟨?_, hft, hf⟩
  rw [sesOnframe_input (hcell 1 (by decide))]
  simp only [onInput]
  rw [if_neg (by omega), if_neg (by omega), if_neg (by omega), if_neg hplus]
  rfl

/-- A console that rests behind its first tick takes the INPUT for tick 1 in its next pass, and its gate is
open. -/
theorem rest_take {i : Fin 2} {a b : ℕ} (h : Node.Resting ⟨.idle, s⟩) (hs : s.rd netSeat = i)
    (hc : s.rd netCount = 2) (htick : s.tick = 1) (hwm : s.wm (1 - i : Fin 2) = 0) (ha : a < 256)
    (hb : b < 256) (hlog : ∀ e ∈ s.log, e.ev.NoPush) :
    ∃ t u, Relation.ReflTransGen (Lone stillWorld) ⟨.idle, s⟩ ⟨.top, s⟩ ∧
      Step stillWorld (some (.gives (inputOf (1 - i : Fin 2) 1 (a, b)))) ⟨.top, s⟩ ⟨.send, t⟩ ∧
      t.tx = s.tx ∧ Node.Calm ⟨.send, t⟩ ∧ Lone stillWorld ⟨.send, t⟩ ⟨.gate, u⟩ ∧
        gateOpen u = true ∧ u.mark.ran = s.mark.ran := by
  have hcalm : ∀ ph, Node.Calm ⟨ph, s⟩ := fun _ => ⟨h.flags _ (by simp), hlog⟩
  have hentry : advance stillWorld.cart ⟨.entry, s⟩ = some ⟨.top, s⟩ :=
    advance_entry_top fun a ha => h.flags a (by simpa [EntryTest] using ha)
  have hnative : Lone stillWorld ⟨.idle, s⟩ ⟨.entry, s⟩ :=
    .of_local (p := none) (.native rfl) rfl (Local.refl s (P := MailCell)) (by decide) (hcalm _)
  have htop : Lone stillWorld ⟨.entry, s⟩ ⟨.top, s⟩ :=
    .of_local (p := none) (.own hentry) rfl (Local.refl s (P := MailCell)) (by decide) (hcalm _)
  have hother : ((1 - i : Fin 2) : ℕ) < 2 := (1 - i : Fin 2).isLt
  obtain ⟨v, hv, hbuf, hpump, -⟩ := sesPump_one h.rx (framed_first (1 - i) ha hb) (by simp [inputOf])
    fun t ht hbuf => keepsRx_input (hbuf 1 (by simp [inputOf])) (by rw [ht.rd _ (by decide), hc]; decide)
  have hvwm : v.wm (1 - i : Fin 2) = 0 := by
    have hwmCell : ∀ j < 2, ¬ PumpCell (seatWm + 2 * j) ∧ ¬ PumpCell (seatWm + 2 * j + 1) := by decide
    rw [← hwm]
    exact Cpu.wm_congr (hv.rd _ (hwmCell _ hother).1) (hv.rd _ (hwmCell _ hother).2)
  obtain ⟨haccept, hft, hf⟩ := accepts_first hbuf ((hv.rd _ (by decide)).trans hs)
    ((hv.rd _ (by decide)).trans hc) hvwm
  rw [haccept] at hpump
  have hin := within_acceptInput (s := v) (by omega)
  have hfar : ∀ {x}, ¬ PumpCell x → ¬ InputCell x → (acceptInput v).rd x = s.rd x :=
    fun h1 h2 => (hin.rd _ h2).trans (hv.rd _ h1)
  have hseat : (acceptInput v).rd netSeat < 4 := by
    rw [hfar (by decide) (by decide), hs]
    omega
  have hw := within_lsSend hseat
  have hlog1 : ∀ e ∈ (acceptInput v).log, e.ev.NoPush := by
    obtain ⟨m, x, x', w, hl⟩ := log_acceptInput v
    rw [hl, hv.log]
    exact noPush_cons trivial (noPush_cons (by rw [inputEv]; trivial) hlog)
  have hdrop : (acceptInput v).rd netDropped = 0 :=
    (hfar (by decide) (by decide)).trans (h.flags _ (by simp))
  have hsend : Lone stillWorld ⟨.send, acceptInput v⟩ ⟨.gate, lsSend (acceptInput v)⟩ := by
    refine .own (advance_send _ _) (tx_lsSend hseat) ((hw.rd _ (by decide)).trans hdrop) ?_
    rw [log_lsSend, log_lsCapture hseat]
    exact noPush_cons trivial hlog1
  have hopen : gateOpen (lsSend (acceptInput v)) = true := by
    refine gateOpen_pair (i := i) ?_ ?_ ?_
    · rw [hw.rd _ (by decide), hfar (by decide) (by decide), hs]
    · rw [hw.rd _ (by decide), hfar (by decide) (by decide), hc]
    · have ht : (lsSend (acceptInput v)).tick = 1 := by
        rw [← htick]
        exact Cpu.tick_congr ((hw.rd _ (by decide)).trans (hfar (by decide) (by decide)))
          ((hw.rd _ (by decide)).trans (hfar (by decide) (by decide)))
      rw [wm_lsSend hseat (by omega), wm_acceptInput (by omega) (by omega), if_pos hf.symm, hft, ht]
      decide
  refine ⟨acceptInput v, lsSend (acceptInput v), .tail (.single hnative) htop,
    .pump (r := 0) (by rw [hpump, afterPump]), ?_, ⟨hdrop, hlog1⟩, hsend, hopen, ?_⟩
  · rw [tx_acceptInput, hv.tx]
  · have hran : (acceptInput v).mark.ran = v.mark.ran := rfl
    rw [mark_lsSend hseat, hran, hv.mark]

end lone

/-! ### Two fresh consoles -/

/-- A console that has just handled a START frame for two seats and a delay of 1, all else being 0. -/
def startedCpu (i : Fin 2) : Cpu :=
  (powerOn blank ⟨fun _ => 0, 0⟩).stAll frmbuf (startFrame i 2 0 0 1 (List.replicate 32 0))

/-- Two of them. -/
def duoStart : Duo := ⟨fun i => ⟨.lobby, onStart (startedCpu i)⟩, fun _ => []⟩

theorem framed_startOf (i : Fin 2) : Framed (startFrame i 2 0 0 1 (List.replicate 32 0)) := by
  match i with
  | 0 => exact ⟨by decide, by decide, by decide⟩
  | 1 => exact ⟨by decide, by decide, by decide⟩

theorem opening_duoStart : duoStart.Opening 1 := by
  refine ⟨⟨0, 0, List.replicate 32 0, fun i => ⟨startedCpu i, rfl, inFrmbuf_stAll (framed_startOf i), ?_, rfl,
    ?_⟩⟩, fun _ => rfl, fun i => ⟨?_, ?_⟩⟩
  · revert i
    decide +kernel
  · revert i
    decide +kernel
  · revert i
    decide +kernel
  · have h38 : 38 ≤ (startedCpu i).rd frmbuf := by
      revert i
      decide +kernel
    change ∀ e ∈ (onStart (startedCpu i)).log, e.ev.NoPush
    rw [log_onStart h38]
    exact List.forall_mem_cons.2 ⟨trivial, fun e he => absurd he List.not_mem_nil⟩

theorem duoStart_lone (i : Fin 2) : ∃ t,
    Relation.ReflTransGen (Lone stillWorld) (duoStart.node i) ⟨.send, t⟩ ∧
      ∀ u, Local (· < 0x8000) t u → Local LeadCell (onStart (startedCpu i)) u ∧
        ∃ n, Relation.ReflTransGen (Lone stillWorld) ⟨.send, u⟩ n ∧ Ticked u n :=
  lone_pass (s := onStart (startedCpu i))
    (by revert i; decide +kernel) (by revert i; decide +kernel) (by revert i; decide +kernel)
    (by revert i; decide +kernel) (by revert i; decide +kernel) (by revert i; decide +kernel)
    (opening_duoStart.calm i).2

/-- Either of them gets through its first tick alone and rests. -/
theorem duoStart_rest (i : Fin 2) : ∃ n, Relation.ReflTransGen (Lone stillWorld) (duoStart.node i) n ∧
    n.cpu.mark.ran = 1 ∧ n.Resting ∧
      ∃ e ∈ n.cpu.log, e.ran = 0 ∧ ∃ l r kl kr, e.ev = .shadow l r kl kr := by
  have hran : (onStart (startedCpu i)).mark.ran = 0 := by
    revert i
    decide +kernel
  obtain ⟨t, hrun, hnext⟩ := duoStart_lone i
  obtain ⟨hl, n, hrun', hn⟩ := hnext t (.refl t)
  have ht : t.mark.ran = 0 := by rw [hl.mark, hran]
  obtain ⟨e, he, hr, hev⟩ := hn.shadow
  exact ⟨n, hrun.trans hrun', by rw [hn.ran, ht], hn.resting, e, he, hr.trans ht, hev⟩

/-! ### The agreement -/

/-- **Lockstep input agreement**: in every run of two consoles that have taken the same START, without a
resync and without a drop, the four shadow cells behind the `SHADOW_FROM_RINGS` of a tick and the ring
cells that the dispatch reads at it are, on either console, what each seat captured when its own counter
was behind by the delay, or idle; so they are the same on both, whenever each of them comes to the tick.
The log of every tick that has run says the same. -/
theorem inputs_agree (W : Fin 2 → World) (d : ℕ) (hd : 1 ≤ d) (hd' : d ≤ 120) (D D' : Duo)
    (h : D.Opening d) (hr : DuoRun W D D') :
    (∀ i, (D'.node i).cpu.tick = (D'.node i).cpu.mark.ran % 65536) ∧
    (∀ i, ∀ e ∈ (D'.node i).cpu.log, ∀ l r kl kr, e.ev = .shadow l r kl kr →
      D'.Consumed d 0 e.ran (l, kl) ∧ D'.Consumed d 1 e.ran (r, kr)) ∧
    (∀ i, ∀ e ∈ (D'.node i).cpu.log, ∀ seat cur prev kp kpPrev,
      e.ev = .dispatch seat cur prev kp kpPrev → ∃ q : Fin 2, seat = q ∧
        D'.Consumed d q e.ran (cur, kp) ∧
          if e.ran = 0 then (prev, kpPrev) = idleSlot
          else D'.Consumed d q (e.ran - 1) (prev, kpPrev)) ∧
    (∀ e ∈ (D'.node 0).cpu.log, ∀ e' ∈ (D'.node 1).cpu.log, e.ran = e'.ran →
      (∀ l r kl kr l' r' kl' kr', e.ev = .shadow l r kl kr → e'.ev = .shadow l' r' kl' kr' →
        e.ev = e'.ev) ∧
      ∀ seat cur prev kp kpPrev cur' prev' kp' kpPrev', e.ev = .dispatch seat cur prev kp kpPrev →
        e'.ev = .dispatch seat cur' prev' kp' kpPrev' → e.ev = e'.ev) ∧
    (∀ i, (D'.node i).Due → ∀ q,
      D'.Consumed d q (D'.node i).cpu.mark.ran (shadowPair q (D'.node i).shadowed) ∧
      D'.Consumed d q (D'.node i).cpu.mark.ran (curCells q (D'.node i).shadowed) ∧
      if (D'.node i).cpu.mark.ran = 0 then prevCells q (D'.node i).shadowed = idleSlot
      else D'.Consumed d q ((D'.node i).cpu.mark.ran - 1) (prevCells q (D'.node i).shadowed)) ∧
    ∀ D'', DuoRun W D' D'' → ∀ i j, (D'.node i).Due → (D''.node j).Due →
      (D'.node i).cpu.mark.ran = (D''.node j).cpu.mark.ran → ∀ q,
        shadowPair q (D'.node i).shadowed = shadowPair q (D''.node j).shadowed ∧
          curCells q (D'.node i).shadowed = curCells q (D''.node j).shadowed ∧
            prevCells q (D'.node i).shadowed = prevCells q (D''.node j).shadowed := by
  obtain ⟨hcalm, own, got, hj⟩ := joined_run (joined_opening h hd hd') hd hd' h.calm hr
  refine ⟨fun i => (hj.mate i).playing.ticks, fun i e he l r kl kr hev => ?_,
    fun i e he seat cur prev kp kpPrev hev => ?_,
    fun e he e' he' hran => ⟨fun l r kl kr l' r' kl' kr' hev hev' => ?_,
      fun seat cur prev kp kpPrev cur' prev' kp' kpPrev' hev hev' => ?_⟩,
    fun i hdue q => ⟨hj.shadowed hd hcalm hdue q, hj.ringed hd hcalm hdue q⟩,
    fun D'' hr' i j hi hj' hran q => ?_⟩
  · obtain ⟨h0, h1, hl, hr⟩ := hj.shadow i he hev
    exact ⟨hj.consumed 0 h0 hl, hj.consumed 1 h1 hr⟩
  · obtain ⟨q, hq, hlt, hcur, hprev⟩ := hj.dispatch i he hev
    refine ⟨q, hq, hj.consumed q hlt hcur, ?_⟩
    split_ifs with h0
    · rw [hprev, h0, line, if_pos (by omega)]
    · refine hj.consumed q (by omega) ?_
      rw [hprev]
      congr 1
      omega
  · obtain ⟨-, -, hl, hr⟩ := hj.shadow 0 he hev
    obtain ⟨-, -, hl', hr'⟩ := hj.shadow 1 he' hev'
    rw [hran, ← hl', Prod.mk.injEq] at hl
    rw [hran, ← hr', Prod.mk.injEq] at hr
    rw [hev, hev', hl.1, hl.2, hr.1, hr.2]
  · obtain ⟨q, hq, -, hcur, hprev⟩ := hj.dispatch 0 he hev
    obtain ⟨q', hq', -, hcur', hprev'⟩ := hj.dispatch 1 he' hev'
    obtain rfl : q = q' := Fin.ext (hq.symm.trans hq')
    rw [hran, ← hcur', Prod.mk.injEq] at hcur
    rw [hran, ← hprev', Prod.mk.injEq] at hprev
    rw [hev, hev', hcur.1, hcur.2, hprev.1, hprev.2]
  · obtain ⟨hcalm', own', got', hjoin⟩ := joined_run hj hd hd' hcalm hr'
    have hs := (hj.shadowed hd hcalm hi q).grow hr'
    have hs' := hjoin.shadowed hd hcalm' hj' q
    obtain ⟨hc, hp⟩ := hj.ringed hd hcalm hi q
    obtain ⟨hc', hp'⟩ := hjoin.ringed hd hcalm' hj' q
    rw [← hran] at hs' hc' hp'
    refine ⟨hjoin.unique hs hs', hjoin.unique (hc.grow hr') hc', ?_⟩
    split_ifs at hp hp'
    · rw [hp, hp']
    · exact hjoin.unique (hp.grow hr') hp'

/-! ### Two consoles with pads -/

/-- Nothing runs beside the engine but the interrupt that reads the left controller. -/
def padWorld : World where
  cart := stillWorld.cart
  isr m m' := m' = m ∨ ∃ v k, m' = (m.set execInL v).set execKpL k
  native := stillWorld.native
  boot := stillWorld.boot
  isr_get h a ha := by
    rcases h with rfl | ⟨v, k, rfl⟩
    · rfl
    · rw [Cells.get_set, Cells.get_set, if_neg, if_neg]
      · rintro rfl
        exact absurd ha (by decide)
      · rintro rfl
        exact absurd ha (by decide)
  native_get := stillWorld.native_get
  boot_get := stillWorld.boot_get

theorem step_padWorld {p : Option Poll} {n n' : Node} (h : Step stillWorld p n n') :
    Step padWorld p n n' := by
  cases h with
  | isr h => exact .isr (.inl h)
  | native h => exact .native h
  | boot h => exact .boot h
  | own h => exact .own h
  | pump h => exact .pump h

theorem lone_padWorld {n n' : Node} (h : Relation.ReflTransGen (Lone stillWorld) n n') :
    Relation.ReflTransGen (Lone padWorld) n n' :=
  Relation.ReflTransGen.mono (p := Lone padWorld)
    (fun _ _ h => ⟨h.1.imp fun _ hs => ⟨step_padWorld hs.1, hs.2⟩, h.2⟩) _ _ h

/-- Either of the two gets through its first tick with a reading of its pad. -/
theorem duoStart_padded (i : Fin 2) {v k : ℕ} (hv : v < 256) (hk : k < 256) : ∃ u n,
    Relation.ReflTransGen (Lone padWorld) (duoStart.node i) n ∧ Ticked u n ∧
      Local LeadCell (onStart (startedCpu i)) u ∧ u.rd execInL = v ∧ u.rd execKpL = k := by
  obtain ⟨t, hrun, hnext⟩ := duoStart_lone i
  have hm : ∀ a, 0x8000 ≤ a → ((t.mem.set execInL v).set execKpL k).get a = t.mem.get a := fun a ha =>
    padWorld.isr_get (m := t.mem) (.inr ⟨v, k, rfl⟩) a ha
  have hl := local_outside (s := t) hm
  obtain ⟨hlead, n, hrun', hn⟩ := hnext _ hl
  have hstart := (hnext t (.refl t)).1
  have hcalm : Node.Calm ⟨.send, t⟩ := by
    refine ⟨(hstart.rd _ (by decide)).trans (opening_duoStart.calm i).1, ?_⟩
    rw [hstart.log]
    exact (opening_duoStart.calm i).2
  have hpad : Lone padWorld ⟨.send, t⟩ ⟨.send, t.call fun _ => (t.mem.set execInL v).set execKpL k⟩ :=
    .of_local (p := none) (.isr (.inr ⟨v, k, rfl⟩)) rfl hl (by decide) hcalm
  refine ⟨_, n, ((lone_padWorld hrun).tail hpad).trans (lone_padWorld hrun'), hn, hlead, ?_, ?_⟩
  · rw [Cpu.rd_call, Cells.get_set, if_neg (by decide), Cells.get_set, if_pos rfl]
    exact Nat.mod_eq_of_lt hv
  · rw [Cpu.rd_call, Cells.get_set, if_pos rfl]
    exact Nat.mod_eq_of_lt hk

/-- What the pads read while the two capture for the first time. -/
def pads (q : Fin 2) : ℕ × ℕ := (5 + q, 3 + q)

/-- A console that rests behind its first tick, for which it captured what its pad read. -/
structure Ahead (i : Fin 2) (n : Node) : Prop where
  resting : n.Resting
  ran : n.cpu.mark.ran = 1
  tick : n.cpu.tick = 1
  seat : n.cpu.rd netSeat = i
  count : n.cpu.rd netCount = 2
  wm : n.cpu.wm (1 - i : Fin 2) = 0
  captured : ∃ e ∈ n.cpu.log, e.ran = 0 ∧ ∃ a a', e.ev = .capture (pads i).1 (pads i).2 a a'

theorem duoStart_ahead (i : Fin 2) : ∃ n more,
    Relation.ReflTransGen (Lone padWorld) (duoStart.node i) n ∧ Ahead i n ∧
      n.cpu.tx = (duoStart.node i).cpu.tx ++ (inputOf i 1 (pads i) ++ more) := by
  obtain ⟨u, n, hrun, hn, hl, hin, hkp⟩ :=
    duoStart_padded i (v := (pads i).1) (k := (pads i).2) (by revert i; decide) (by revert i; decide)
  have hcell : ∀ a ∈ [netSeat, netCount, netDelay, tickLo, tickHi],
      u.rd a = (onStart (startedCpu i)).rd a := fun a ha => hl.rd a (by revert a; decide)
  have hstart : ∀ i : Fin 2, (onStart (startedCpu i)).rd netSeat = i ∧
      (onStart (startedCpu i)).rd netCount = 2 ∧ (onStart (startedCpu i)).rd netDelay = 1 ∧
      (onStart (startedCpu i)).tick = 0 ∧ (onStart (startedCpu i)).wm (1 - i : Fin 2) = 0 ∧
      (onStart (startedCpu i)).mark.ran = 0 := by decide +kernel
  obtain ⟨hseat, hcount, hdelay, htick, hwm, hran⟩ := hstart i
  have hut : u.tick = 0 := by
    rw [← htick]
    exact Cpu.tick_congr (hcell _ (by decide)) (hcell _ (by decide))
  have hus : u.rd netSeat = i := (hcell _ (by decide)).trans hseat
  have hud : dueTick u = 1 := by rw [dueTick, hut, hcell _ (by decide), hdelay]
  have huran : u.mark.ran = 0 := by rw [hl.mark, hran]
  have huwm : u.wm (1 - i : Fin 2) = 0 := (wm_lead hl (1 - i).isLt).trans hwm
  obtain ⟨e, he, her, a, a', hev⟩ := hn.capture
  rw [hin, hkp] at hev
  obtain ⟨more, htx⟩ := hn.tx
  refine ⟨n, more, hrun, ⟨hn.resting, ?_, ?_, ?_, ?_, ?_, e, he, her.trans huran, a, a', hev⟩, ?_⟩
  · rw [hn.ran, huran]
  · rw [hn.tick, hut]
  · rw [hn.rdSeat, hus]
  · rw [hn.rdCount, hcell _ (by decide), hcount]
  · rw [hn.wm _ (1 - i).isLt, huwm]
  · rw [htx, hl.tx, hus, hud, hin, hkp]
    rfl

/-- A console that rests behind its first tick comes to the next one with the other's INPUT. -/
theorem due_of_rest {D : Duo} {i : Fin 2} {rest : List ℕ} (h : D.Calm) (hn : Ahead i (D.node i))
    (hwire : D.wire i = inputOf (1 - i : Fin 2) 1 (pads (1 - i)) ++ rest) :
    ∃ D', DuoRun (fun _ => padWorld) D D' ∧ D'.Calm ∧ (D'.node i).Due ∧
      (D'.node i).cpu.mark.ran = 1 ∧ D'.node (1 - i) = D.node (1 - i) ∧
        ∃ sent, D'.wire (1 - i) = D.wire (1 - i) ++ sent := by
  obtain ⟨⟨ph, s⟩, hnode⟩ : ∃ n, D.node i = n := ⟨_, rfl⟩
  have hlog := (h i).2
  rw [hnode] at hn hlog
  obtain rfl : ph = .idle := hn.resting.idle
  have hpad : ∀ q : Fin 2, (pads q).1 < 256 ∧ (pads q).2 < 256 := by decide
  obtain ⟨t, u, htop, hstep, htx, hcalm, hsend, hopen, hran⟩ := rest_take (i := i) hn.resting hn.seat
    hn.count hn.tick hn.wm (hpad (1 - i)).1 (hpad (1 - i)).2 hlog
  obtain ⟨D₁, hD₁, hcalm₁, hn₁, ho₁, hw₁, s₁, -, hs₁⟩ := duoRun_of_lone (W := fun _ => padWorld)
    (n := ⟨.top, s⟩) h (by rw [hnode]; exact lone_padWorld htop)
  have hread : reads (some (.gives (inputOf (1 - i : Fin 2) 1 (pads (1 - i))))) (D₁.node i).cpu =
      inputOf (1 - i : Fin 2) 1 (pads (1 - i)) := by
    have hbyte : ∀ q : Fin 2, ∀ b ∈ inputOf q 1 (pads q), b < 256 := by decide
    rw [reads]
    exact delivered_gives (List.cons_ne_nil _ _) (by simp only [inputOf, List.length]; decide) (hbyte _)
  obtain ⟨D₂, hD₂, hcalm₂, hn₂, ho₂, -, hs₂⟩ := duoRun_step (W := fun _ => padWorld)
    (n := ⟨.send, t⟩) hcalm₁ (by rw [hn₁]; exact step_padWorld hstep)
    (by rw [hread]; simp [inputOf]) (by rw [hread, hw₁, hwire])
    (show t.tx = _ ++ [] by rw [hn₁, htx, List.append_nil]) hcalm
  obtain ⟨D₃, hD₃, hcalm₃, hn₃, ho₃, -, s₃, -, hs₃⟩ := duoRun_of_lone (W := fun _ => padWorld)
    (n := ⟨.gate, u⟩) hcalm₂ (by rw [hn₂]; exact lone_padWorld (.single hsend))
  refine ⟨D₃, (hD₁.trans hD₂).trans hD₃, hcalm₃, ?_, ?_, ho₃.trans (ho₂.trans ho₁), s₁ ++ s₃, ?_⟩
  · rw [hn₃]
    exact ⟨rfl, hopen⟩
  · rw [hn₃, ← hn.ran]
    exact hran
  · rw [hs₃, hs₂, hs₁, List.append_nil, List.append_assoc]

/-- Two consoles come to tick 1, the delay, with what both pads read at tick 0. -/
theorem inputs_agree_start : ∃ D' : Duo, DuoRun (fun _ => padWorld) duoStart D' ∧
    (∀ i, (D'.node i).Due ∧ (D'.node i).cpu.mark.ran = 1) ∧
    ∀ i q, shadowPair q (D'.node i).shadowed = pads q ∧ curCells q (D'.node i).shadowed = pads q := by
  obtain ⟨n₀, more₀, hrun₀, hn₀, htx₀⟩ := duoStart_ahead 0
  obtain ⟨n₁, more₁, hrun₁, hn₁, htx₁⟩ := duoStart_ahead 1
  -- Both run tick 0, and the INPUT of each is on its way.
  obtain ⟨D₁, hD₁, hcalm₁, h₁, ho₁, hw₁, sent₀, hsent₀, hs₀⟩ :=
    duoRun_of_lone (W := fun _ => padWorld) opening_duoStart.calm hrun₀
  have hnode₁ : D₁.node 1 = duoStart.node 1 := ho₁
  obtain ⟨D₂, hD₂, hcalm₂, h₂, ho₂, hw₂, sent₁, hsent₁, hs₁⟩ :=
    duoRun_of_lone (W := fun _ => padWorld) (i := 1) (n := n₁) hcalm₁ (by rw [hnode₁]; exact hrun₁)
  have hnode₂ : D₂.node 0 = n₀ := Eq.trans ho₂ h₁
  have hahead : ∀ q, Ahead q (D₂.node q) :=
    Fin.forall_fin_two.2 ⟨by rw [hnode₂]; exact hn₀, by rw [h₂]; exact hn₁⟩
  rw [htx₀, List.append_cancel_left_eq] at hsent₀
  rw [hnode₁, htx₁, List.append_cancel_left_eq] at hsent₁
  have hwire₁ : D₂.wire 1 = inputOf 0 1 (pads 0) ++ more₀ := by
    rw [hw₂, show D₁.wire 1 = duoStart.wire 1 ++ sent₀ from hs₀, ← hsent₀]
    rfl
  have hwire₀ : D₂.wire 0 = inputOf 1 1 (pads 1) ++ more₁ := by
    rw [show D₂.wire 0 = D₁.wire 0 ++ sent₁ from hs₁, hw₁, ← hsent₁]
    rfl
  -- Each takes the other's.
  obtain ⟨D₃, hD₃, hcalm₃, hdue₀, hran₀, ho₃, sent₃, hs₃⟩ := due_of_rest (i := 0) hcalm₂ (hahead 0) hwire₀
  have hnode₃ : D₃.node 1 = D₂.node 1 := ho₃
  obtain ⟨D₄, hD₄, -, hdue₁, hran₁, ho₄, -⟩ := due_of_rest (i := 1) hcalm₃
    (by rw [hnode₃]; exact hahead 1)
    (show D₃.wire 1 = inputOf 0 1 (pads 0) ++ (more₀ ++ sent₃) by
      rw [show D₃.wire 1 = D₂.wire 1 ++ sent₃ from hs₃, hwire₁, List.append_assoc])
  have hnode₄ : D₄.node 0 = D₃.node 0 := ho₄
  have hdue : ∀ i, (D₄.node i).Due ∧ (D₄.node i).cpu.mark.ran = 1 :=
    Fin.forall_fin_two.2 ⟨by rw [hnode₄]; exact ⟨hdue₀, hran₀⟩, hdue₁, hran₁⟩
  have hrun := ((hD₁.trans hD₂).trans hD₃).trans hD₄
  obtain ⟨-, -, -, -, hcells, -⟩ := inputs_agree (fun _ => padWorld) 1 (by decide) (by decide) duoStart D₄
    opening_duoStart hrun
  obtain ⟨-, own, got, hj⟩ := joined_run (joined_opening opening_duoStart (by decide) (by decide))
    (by decide) (by decide) opening_duoStart.calm hrun
  have hpads : ∀ q, D₄.Consumed 1 q 1 (pads q) := fun q => by
    obtain ⟨e, he, hran, a, a', hev⟩ := (hahead q).captured
    refine (if_neg (by decide)).mpr ⟨e, (grows_duoRun (hD₃.trans hD₄) q).subset he, ?_, a, a', hev⟩
    rw [hran]
  refine ⟨D₄, hrun, hdue, fun i q => ?_⟩
  obtain ⟨hshadow, hcur, -⟩ := hcells i (hdue i).1 q
  rw [(hdue i).2] at hshadow hcur
  exact ⟨hj.unique hshadow (hpads q), hj.unique hcur (hpads q)⟩

end IntvNetplay.Console
