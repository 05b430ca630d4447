import IntvNetplay.Console.Within

/-!
# Virtual input dispatch (`src/vdispatch.asm`)

Every seat owns one page of decoded cells and one page of keypad cells, indexed by the low byte of a
tick.  `LS_VDISPATCH` reads the cells of the current and of the previous tick of one seat and calls
the handlers of the cartridge as the controller scan of the EXEC would.

The cartridge is a parameter: its tick entry and its handlers are functions on memory that leave the
cart RAM of the netcode alone.
-/

namespace IntvNetplay.Console

open IntvNetplay.Machine

/-- The code of the cartridge that the engine calls. -/
structure Cart where
  /-- `SB_TICK1`. -/
  tick1 : Mem → Mem
  /-- An input handler, by its entry address, event value and controller index. -/
  handler : ℕ → ℕ → ℕ → Mem → Mem
  tick1_get : ∀ m a, 0x8000 ≤ a → (tick1 m).get a = m.get a
  handler_get : ∀ p v c m a, 0x8000 ≤ a → (handler p v c m).get a = m.get a

theorem id_tick1_get (m : Mem) (a : ℕ) (_ : 0x8000 ≤ a) : (id m).get a = m.get a := rfl

/-- `LS_RING_INIT`: all eight pages to idle. -/
def lsRingInit (s : Cpu) : Cpu :=
  (s.stAll seatRing (List.replicate 1024 0x40)).stAll seatKp (List.replicate 1024 0)

/-- `LS_TBL_ADOPT`: remember the handler table the game has installed. -/
def lsTblAdopt (s : Cpu) : Cpu :=
  if s.rd execHtbl = s.rom.nullTbl then s
  else (s.st gameTblLo (s.rd execHtbl)).st gameTblHi (s.rd execHtbl / 256)

/-- Null the handler table. -/
def nullTable (s : Cpu) : Cpu := s.st execHtbl s.rom.nullTbl

/-- Install the remembered handler table. -/
def installTable (s : Cpu) : Cpu :=
  if s.rd16 gameTblLo gameTblHi = 0 then s else s.st execHtbl (s.rd16 gameTblLo gameTblHi)

/-- `LS_VCALL`: the handler in slot `VD_TMP` of the live table, with event value `value`. -/
def lsVcall (C : Cart) (value : ℕ) (s : Cpu) : Cpu :=
  let a := (s.rd execHtbl + s.rd vdTmp) % 65536
  let p := word (s.rd a % 256) (s.rd ((a + 1) % 65536) % 256)
  if s.rd execHtbl = 0 ∨ p = 0 then s else s.call (C.handler p value (s.rd vdCtrl))

/-- The cell of the current tick in a page. -/
def vdCell (page : ℕ) (s : Cpu) : ℕ := s.rd (page + s.rd tickLo)

/-- The cell of the previous tick in a page; at slot 0 the page wraps. -/
def vdCellPrev (page : ℕ) (s : Cpu) : ℕ :=
  if s.rd tickLo = 0 then s.rd (page + 255) else s.rd (page + s.rd tickLo - 1)

/-- `LS_VDISPATCH` up to `VD_KPPRE`: the four cells of a seat. -/
def vdLoad (s : Cpu) : Cpu :=
  let page := seatRing + s.rd vdSide * 256
  let s := s.st vdCur (vdCell page s)
  let s := s.st vdPrev (vdCellPrev page s)
  let s := s.st vdKp (vdCell (page + 0x400) s)
  let s := s.st vdKppre (vdCellPrev (page + 0x400) s)
  s.emit (.dispatch (s.rd vdSide) (s.rd vdCur) (s.rd vdPrev) (s.rd vdKp) (s.rd vdKppre))

/-- Action-button release: slot `kp * 2 + 2` with -1. -/
def vdRelease (C : Cart) (s : Cpu) : Cpu :=
  let p := s.rd vdKppre
  if p = 0 ∨ 3 < p ∨ p = s.rd vdKp then s else lsVcall C 0xFFFF (s.st vdTmp (p * 2 + 2))

/-- Action-button press (1) or held re-fire (0). -/
def vdPress (C : Cart) (s : Cpu) : Cpu :=
  let k := s.rd vdKp
  if k = 0 ∨ 3 < k then s
  else lsVcall C (if k = s.rd vdKppre then 0 else 1) (s.st vdTmp (k * 2 + 2))

/-- Fresh `$011F` event, or the settle of the disc. -/
def vdDisc (C : Cart) (s : Cpu) : Cpu :=
  let cur := s.rd vdCur
  if cur = s.rd vdPrev then s
  else if cur.testBit 6 then
    if cur.testBit 7 then s else lsVcall C 0xFFFF (s.st vdTmp 0)
  else lsVcall C (cur % 128) (s.st vdTmp (if cur.testBit 7 then 2 else 0))

/-- `LS_VDISPATCH`. -/
def lsVdispatch (C : Cart) (s : Cpu) : Cpu := vdDisc C (vdPress C (vdRelease C (vdLoad s)))

/-- Replay the events of one seat. -/
def dispatchSeat (C : Cart) (seat : ℕ) (s : Cpu) : Cpu :=
  lsVdispatch C ((s.st vdSide seat).st vdCtrl seat)

/-- `UPDATE_SHADOW`. -/
def updateShadow (s : Cpu) : Cpu :=
  let s := s.st shadowCtrl (s.rd execInL)
  let s := s.st shadowCtrlR (s.rd execInR)
  let s := s.st shadowKp (s.rd execKpL)
  s.st shadowKpR (s.rd execKpR)

/-- `SHADOW_FROM_RINGS`. -/
def shadowFromRings (s : Cpu) : Cpu :=
  let s := s.st shadowCtrl (vdCell seatRing s)
  let s := s.st shadowCtrlR (vdCell (seatRing + 0x100) s)
  let s := s.st shadowKp (vdCell seatKp s)
  let s := s.st shadowKpR (vdCell (seatKp + 0x100) s)
  s.emit (.shadow (s.rd shadowCtrl) (s.rd shadowCtrlR) (s.rd shadowKp) (s.rd shadowKpR))

/-! ### Footprints -/

/-- The eight ring pages. -/
def RingCell (a : ℕ) : Prop := seatRing ≤ a ∧ a < seatRing + 0x800

/-- What the virtual dispatch may change: the console below the cart RAM, and its own scratch. -/
def DispatchCell (a : ℕ) : Prop :=
  a < 0x8000 ∨ 0x80C0 ≤ a ∧ a ≤ 0x80C7 ∨ 0x8140 ≤ a ∧ a ≤ 0x8143 ∨ a = vdCtrl

instance : DecidablePred RingCell := fun a => by unfold RingCell; infer_instance
instance : DecidablePred DispatchCell := fun a => by unfold DispatchCell; infer_instance

section footprint

variable (s : Cpu) (C : Cart)

theorem local_lsRingInit : Local RingCell s (lsRingInit s) := by
  refine ((Local.refl s).stAll fun x h1 h2 => ?_).stAll fun x h1 h2 => ?_
  all_goals
    rw [List.length_replicate] at h2
    simp only [seatRing, seatKp] at h1 h2
    unfold RingCell
    simp only [seatRing]
    omega

theorem rd_lsRingInit {x : ℕ} (hx : RingCell x) :
    (lsRingInit s).rd x = if x < seatKp then 0x40 else 0 := by
  obtain ⟨h1, h2⟩ := hx
  simp only [seatRing] at h1 h2
  have hw : cellBits x = 8 := cellBits_cart (by omega) (by omega)
  simp only [lsRingInit, Cpu.rd_stAll_replicate, hw]
  simp only [seatRing, seatKp]
  split_ifs <;> first | rfl | omega

theorem local_lsTblAdopt : Local DispatchCell s (lsTblAdopt s) :=
  Local.ite (fun _ => Local.refl s)
    fun _ => ((Local.refl s).st (by decide)).st (by decide)

theorem local_nullTable : Local DispatchCell s (nullTable s) := (Local.refl s).st (by decide)

theorem local_installTable : Local DispatchCell s (installTable s) :=
  Local.ite (fun _ => Local.refl s) fun _ => (Local.refl s).st (by decide)

theorem local_lsVcall (v : ℕ) : Local DispatchCell s (lsVcall C v s) :=
  Local.ite (fun _ => Local.refl s) fun _ => (Local.refl s).call fun m x hx =>
    C.handler_get _ _ _ m x (by unfold DispatchCell at hx; omega)

theorem local_vdRelease : Local DispatchCell s (vdRelease C s) :=
  Local.ite (fun _ => Local.refl s)
    fun _ => ((Local.refl s).st (by decide)).trans (local_lsVcall _ C _)

theorem local_vdPress : Local DispatchCell s (vdPress C s) :=
  Local.ite (fun _ => Local.refl s)
    fun _ => ((Local.refl s).st (by decide)).trans (local_lsVcall _ C _)

theorem local_vdDisc : Local DispatchCell s (vdDisc C s) := by
  have hcall : ∀ k v, Local DispatchCell s (lsVcall C v (s.st vdTmp k)) := fun k v =>
    ((Local.refl s).st (by decide)).trans (local_lsVcall _ C _)
  refine Local.ite (fun _ => Local.refl s) fun _ => ?_
  exact Local.ite (fun _ => Local.ite (fun _ => Local.refl s) fun _ => hcall _ _)
    fun _ => hcall _ _

theorem within_vdLoad : Within DispatchCell s (vdLoad s) :=
  (((((Within.refl s).st (by decide)).st (by decide)).st (by decide)).st (by decide)).emit

/-- The virtual dispatch after the cells are read. -/
theorem local_vdReplay : Local DispatchCell s (vdDisc C (vdPress C (vdRelease C s))) :=
  ((local_vdRelease s C).trans (local_vdPress _ C)).trans (local_vdDisc _ C)

theorem within_dispatchSeat (seat : ℕ) : Within DispatchCell s (dispatchSeat C seat s) :=
  ((((Within.refl s).st (by decide)).st (by decide)).trans (within_vdLoad _)).trans
    (local_vdReplay _ C).within

theorem tx_dispatchSeat (seat : ℕ) : (dispatchSeat C seat s).tx = s.tx :=
  (local_vdReplay _ C).tx

theorem mark_dispatchSeat (seat : ℕ) : (dispatchSeat C seat s).mark = s.mark :=
  (local_vdReplay _ C).mark

theorem within_shadowFromRings : Within DispatchCell s (shadowFromRings s) :=
  (((((Within.refl s).st (by decide)).st (by decide)).st (by decide)).st (by decide)).emit

theorem local_updateShadow : Local DispatchCell s (updateShadow s) :=
  ((((Local.refl s).st (by decide)).st (by decide)).st (by decide)).st (by decide)

end footprint

/-! ### What is read -/

section reads

variable (s : Cpu) (C : Cart)

theorem vdCell_congr {s t : Cpu} {page : ℕ} (h : ∀ x, page ≤ x → x < page + 256 → t.rd x = s.rd x)
    (ht : t.rd tickLo = s.rd tickLo) : vdCell page t = vdCell page s := by
  have hlo := s.rd_lt_256 (a := tickLo) (by decide)
  rw [vdCell, vdCell, ht]
  exact h _ (by omega) (by omega)

theorem vdCellPrev_congr {s t : Cpu} {page : ℕ}
    (h : ∀ x, page ≤ x → x < page + 256 → t.rd x = s.rd x)
    (ht : t.rd tickLo = s.rd tickLo) : vdCellPrev page t = vdCellPrev page s := by
  have hlo := s.rd_lt_256 (a := tickLo) (by decide)
  rw [vdCellPrev, vdCellPrev, ht]
  split
  · exact h _ (by omega) (by omega)
  · exact h _ (by omega) (by omega)

theorem vdCell_lt {s : Cpu} {page : ℕ} (h : 0x8000 ≤ page) (h' : page < 0x9000) :
    vdCell page s < 256 := by
  have hlo := s.rd_lt_256 (a := tickLo) (by decide)
  exact s.rd_lt_256 (Or.inr ⟨by omega, by omega⟩)

theorem vdCellPrev_lt {s : Cpu} {page : ℕ} (h : 0x8000 ≤ page) (h' : page < 0x9000) :
    vdCellPrev page s < 256 := by
  have hlo := s.rd_lt_256 (a := tickLo) (by decide)
  rw [vdCellPrev]
  split
  · exact s.rd_lt_256 (Or.inr ⟨by omega, by omega⟩)
  · exact s.rd_lt_256 (Or.inr ⟨by omega, by omega⟩)

theorem vdCell_st {a v page : ℕ} (ha : a < seatRing ∧ a ≠ tickLo) (hp : seatRing ≤ page) :
    vdCell page (s.st a v) = vdCell page s :=
  vdCell_congr (fun x h1 _ => by rw [Cpu.rd_st, if_neg (by omega)])
    (by rw [Cpu.rd_st, if_neg (Ne.symm ha.2)])

theorem vdCellPrev_st {a v page : ℕ} (ha : a < seatRing ∧ a ≠ tickLo) (hp : seatRing ≤ page) :
    vdCellPrev page (s.st a v) = vdCellPrev page s :=
  vdCellPrev_congr (fun x h1 _ => by rw [Cpu.rd_st, if_neg (by omega)])
    (by rw [Cpu.rd_st, if_neg (Ne.symm ha.2)])

/-- The event `LS_VDISPATCH` logs for a seat. -/
def dispatchEv (seat : ℕ) (s : Cpu) : Ev :=
  .dispatch seat (vdCell (seatRing + seat * 256) s) (vdCellPrev (seatRing + seat * 256) s)
    (vdCell (seatRing + seat * 256 + 0x400) s) (vdCellPrev (seatRing + seat * 256 + 0x400) s)

/-- The event `SHADOW_FROM_RINGS` logs. -/
def shadowEv (s : Cpu) : Ev :=
  .shadow (vdCell seatRing s) (vdCell (seatRing + 0x100) s) (vdCell seatKp s)
    (vdCell (seatKp + 0x100) s)

theorem log_shadowFromRings :
    (shadowFromRings s).log = s.mark.stamp (shadowEv s) :: s.log := by
  have h0 : vdCell seatRing s < 256 := vdCell_lt (by decide) (by decide)
  have h1 : vdCell (seatRing + 0x100) s < 256 := vdCell_lt (by decide) (by decide)
  have h2 : vdCell seatKp s < 256 := vdCell_lt (by decide) (by decide)
  have h3 : vdCell (seatKp + 0x100) s < 256 := vdCell_lt (by decide) (by decide)
  simp only [shadowFromRings, Cpu.log_emit, Cpu.mark_st, Cpu.log_st, shadowEv]
  rw [vdCell_st _ (by decide) (by decide), vdCell_st _ (by decide) (by decide),
    vdCell_st _ (by decide) (by decide), vdCell_st _ (by decide) (by decide),
    vdCell_st _ (by decide) (by decide), vdCell_st _ (by decide) (by decide)]
  simp [cellBits, Nat.mod_eq_of_lt h0, Nat.mod_eq_of_lt h1, Nat.mod_eq_of_lt h2,
    Nat.mod_eq_of_lt h3, -seatRing, -seatKp]

theorem log_dispatchSeat {seat : ℕ} (hs : seat < 4) :
    (dispatchSeat C seat s).log = s.mark.stamp (dispatchEv seat s) :: s.log := by
  have hp : seatRing ≤ seatRing + seat * 256 := Nat.le_add_right _ _
  have hp' : seatRing ≤ seatRing + seat * 256 + 0x400 := Nat.le_add_right_of_le hp
  have hlo : 0x8000 ≤ seatRing + seat * 256 := by simp only [seatRing]; omega
  have hhi : seatRing + seat * 256 + 0x400 < 0x9000 := by simp only [seatRing]; omega
  have h0 : vdCell (seatRing + seat * 256) s < 256 := vdCell_lt hlo (by omega)
  have h1 : vdCellPrev (seatRing + seat * 256) s < 256 := vdCellPrev_lt hlo (by omega)
  have h2 : vdCell (seatRing + seat * 256 + 0x400) s < 256 := vdCell_lt (by omega) hhi
  have h3 : vdCellPrev (seatRing + seat * 256 + 0x400) s < 256 := vdCellPrev_lt (by omega) hhi
  have hseat : seat % 256 = seat := Nat.mod_eq_of_lt (by omega)
  rw [dispatchSeat, lsVdispatch, (local_vdReplay _ C).log]
  have hside : ((s.st vdSide seat).st vdCtrl seat).rd vdSide = seat := by
    simp [cellBits, hseat]
  simp only [vdLoad, hside, Cpu.log_emit, Cpu.mark_st, Cpu.log_st, dispatchEv]
  simp (disch := first | assumption | decide) only [vdCell_st, vdCellPrev_st]
  simp [cellBits, hseat, Nat.mod_eq_of_lt h0, Nat.mod_eq_of_lt h1, Nat.mod_eq_of_lt h2,
    Nat.mod_eq_of_lt h3, -seatRing, -seatKp]

end reads

end IntvNetplay.Console
