import IntvNetplay.Console.Kickoff
import IntvNetplay.Console.Seated

/-!
# Wire values as addresses

Several handlers turn a byte of a frame into an address: INPUT its seat, ROOM its count, START the
seat that `LS_PASS` captures into and the count that bounds the seat of every later INPUT.  As long
as no START carries a seat or a count out of range and no ROOM a count the screen has no row for,
every store a received byte causes goes where it should (`Kept` for `Sized`).
-/

namespace IntvNetplay.Console

open IntvNetplay.Machine

/-- Where a store that a received byte causes may go: netcode RAM, the mailbox, the BACKTAB, the
image, and the fixed cells that `RS_REBASE` names. -/
def WireCell (a : ℕ) : Prop :=
  0x8080 ≤ a ∧ a ≤ 0x8C1F ∨ 0x9C00 ≤ a ∧ a < 0xA000 ∨ backtab ≤ a ∧ a < backtab + 240 ∨
    ImgCell a ∨ DisplayCell a ∨ VectorCell a ∨ HookCell a

instance : DecidablePred WireCell := fun a => by unfold WireCell; infer_instance

/-- A cell of one of the four decoded pages. -/
def DecPage (a : ℕ) : Prop := seatRing ≤ a ∧ a < seatRing + 0x400

/-- A cell of one of the four keypad pages. -/
def KpPage (a : ℕ) : Prop := seatKp ≤ a ∧ a < seatKp + 0x400

/-- Ring and watermark stores stay inside the pages and the watermarks. -/
def Ev.Paged : Ev → Prop
  | .capture _ _ a a' => DecPage a ∧ KpPage a'
  | .slot a a' w => DecPage a ∧ KpPage a' ∧ WmCell w ∧ WmCell (w + 1)
  | _ => True

/-- A START names a seat and a count that exist, a ROOM a count that the screen has rows for. -/
def Ev.InRange : Ev → Prop
  | .start seat count _ => seat < 4 ∧ count ≤ 4
  | .room count => count ≤ 9
  | _ => True

/-- Every START and every ROOM taken so far was in range. -/
def inRange : Guard := Guard.all fun e => e.ev.InRange

/-- The stored counts and the log, with nothing out of range. -/
structure Sized (s : Cpu) : Prop extends Seated s where
  paged : ∀ e ∈ s.log, e.ev.Paged

theorem Ev.InRange.seats {e : Ev} (h : e.InRange) : e.Seats := by
  cases e <;> first | exact h | trivial

theorem inRange_seats {l : List Stamped} (h : inRange.holds l) : seatsGuard.holds l :=
  fun e he => Ev.InRange.seats (h e he)

namespace Sized

variable {s t : Cpu} {P : ℕ → Prop}

/-- Stores elsewhere and entries that name no ring cell change nothing. -/
theorem of_within (h : Sized s) (hw : Within P s t) (h1 : ¬ P netSeat) (h2 : ¬ P netCount)
    (h3 : ¬ P lobbyCnt) (hlog : Adds Ev.Paged s t) : Sized t where
  toSeated := h.toSeated.of_within hw h1 h2 h3
  paged e he := (hlog e he).elim (h.paged e) id

theorem of_local (h : Sized s) (hw : Local P s t) (h1 : ¬ P netSeat) (h2 : ¬ P netCount)
    (h3 : ¬ P lobbyCnt) : Sized t :=
  h.of_within hw.within h1 h2 h3 (Adds.of_log hw.log)

end Sized

/-! ### Frames -/

section frames

variable {s : Cpu}

theorem paged_noted (e : Ev) (h : e.Noted) : e.Paged := by cases e <;> trivial

theorem paged_onInput (hc : s.rd netCount ≤ 4) : Adds Ev.Paged s (onInput s) := by
  refine adds_onInput s (fun _ => trivial) fun hs e he => ?_
  have hseat : (noteHeard (s.emit (inputEv s true))).rd (frmbuf + 2) = s.rd (frmbuf + 2) := by
    rw [rd_noteHeard, Cpu.rd_emit]
  have hl : (noteHeard (s.emit (inputEv s true))).rd (frmbuf + 3) < 256 :=
    Cpu.rd_lt_256 _ (by decide)
  have hs4 : (noteHeard (s.emit (inputEv s true))).rd (frmbuf + 2) < 4 := by omega
  simp only [takeInput, ringAddr_lt hs4 hl, kpAddr_lt hs4 hl, Cpu.log_emit, List.head?_cons,
    Option.mem_def, Option.some.injEq] at he
  rw [← he]
  simp only [Mark.stamp_ev, Ev.Paged, DecPage, KpPage, WmCell, seatRing, seatKp, seatWm]
  omega

theorem paged_sesOnframe (hc : s.rd netCount ≤ 4) : Adds Ev.Paged s (sesOnframe s) := by
  by_cases h : s.rd (frmbuf + 1) = ftInput
  · rw [sesOnframe_input h]
    exact paged_onInput hc
  · exact (adds_sesOnframe s h).mono paged_noted

/-! ### Footprints inside the wire cells -/

theorem mail_wire (a : ℕ) (h : MailCell a) : WireCell a := by
  unfold MailCell at h
  unfold WireCell
  omega

theorem input_wire (a : ℕ) (h : InputCell a) : WireCell a := by
  simp only [InputCell, RingCell, WmCell, seatRing, seatWm] at h
  unfold WireCell
  omega

theorem board_wire (a : ℕ) (h : BoardCell a) : WireCell a := by
  simp only [BoardCell, ScreenCell, uiColor, ppTmp, menuSel, lobbyCnt, roomCnt, leftSeat, leftName,
    nameTbl, lobbyCache, backtab] at h
  simp only [WireCell, backtab]
  omega

theorem start_wire (a : ℕ) (h : StartCell a) : WireCell a := by
  rcases h with h | h | h
  · exact board_wire a (name_board h)
  · exact input_wire a h
  · simp only [CrcCell, ownCrc, netSeat, netCount, rngLo, rngHi, netDelay, tickLo, tickHi,
      netActive] at h
    unfold WireCell
    omega

theorem left_wire (a : ℕ) (h : LeftCell a) : WireCell a := by
  rcases h with rfl | h | h | rfl | rfl
  · decide
  · simp only [leftName] at h
    exact Or.inl ⟨by omega, by omega⟩
  · exact input_wire a h
  · decide
  · decide

theorem want_wire (a : ℕ) (h : WantCell a) : WireCell a := by
  rcases h with h | rfl | rfl
  · exact mail_wire a h
  · decide
  · decide

theorem state_wire (a : ℕ) (h : StateCell a) : WireCell a := by
  have hin : InstallCell a → WireCell a := by
    rintro (rfl | rfl | h | h | h)
    · decide
    · decide
    · exact Or.inr (Or.inr (Or.inr (Or.inr (Or.inl h))))
    · exact Or.inr (Or.inr (Or.inr (Or.inr (Or.inr (Or.inl h)))))
    · exact Or.inr (Or.inr (Or.inr (Or.inr (Or.inr (Or.inr h)))))
  have hcart : 0x8080 ≤ a → a ≤ 0x8C1F → WireCell a := fun h1 h2 => Or.inl ⟨h1, h2⟩
  rcases h with (h | h | h | h) | h | h
  · exact mail_wire a h
  · simp only [BeginCell, HoldCell, CrcCell, ownCrc, resyncHold, rsToLo, rsToHi, rsRLo, rsRHi] at h
    exact hcart (by omega) (by omega)
  · exact Or.inr (Or.inr (Or.inr (Or.inl h)))
  · simp only [rsTmp, rsTmp2, rsPosLo, rsPosHi] at h
    exact hcart (by omega) (by omega)
  · exact hin h
  · simp only [RestartCell, HoldCell, RingCell, WmCell, CrcCell, seatRing, seatWm, ownCrc,
      resyncHold, rsToLo, rsToHi, tickLo, tickHi, lsWaitcLo, lsWaitcHi] at h
    exact hcart (by omega) (by omega)

theorem pump_wire (a : ℕ) (h : PumpCell a) : WireCell a := by
  rcases h with h | h | h
  · exact mail_wire a h
  · simp only [RxCell, rxWr, rxRd, rxacc] at h
    unfold WireCell
    omega
  · simp only [frmbuf] at h
    unfold WireCell
    omega

/-- A frame in range makes its stores where it should. -/
theorem wire_sesOnframe (h : Seated s) (hg : inRange.holds (sesOnframe s).log) :
    Within WireCell s (sesOnframe s) := by
  simp only [sesOnframe] at hg ⊢
  split_ifs at hg ⊢
  · exact (within_onInput s h.count).mono input_wire
  · exact (local_onLobby s).within.mono board_wire
  · exact (within_onStart s).mono start_wire
  · exact (local_onPeerLeft s).within.mono left_wire
  · refine (within_onRoom s (fun ha hl => ?_) h.lobby).mono fun a h => board_wire a (room_board a h)
    exact hg (s.mark.stamp (.room _)) (log_onRoom s ha hl ▸ List.mem_cons_self)
  · exact (within_rsOnCrc s).mono want_wire
  · exact (within_rsOnState s).mono state_wire
  · exact (within_rsOnReq s).mono want_wire
  · exact Within.refl s

/-- A frame that leaves everything in range makes its stores where it should. -/
theorem sized_sesOnframe (h : Sized s) (hg : inRange.holds (sesOnframe s).log) :
    Within WireCell s (sesOnframe s) ∧ Sized (sesOnframe s) :=
  ⟨wire_sesOnframe h.toSeated hg, seated_sesOnframe h.toSeated (inRange_seats hg),
    fun e he => (paged_sesOnframe h.count e he).elim (h.paged e) id⟩

end frames

/-! ### Runs -/

section runs

variable {s : Cpu}

theorem paged_lsSend (hs : s.rd netSeat < 4) : Adds Ev.Paged s (lsSend s) := by
  have hd : dueTick s % 256 < 256 := Nat.mod_lt _ (by decide)
  refine (Adds.of_log (s := s) (t := s) rfl).cons (log_lsSend.trans (log_lsCapture hs)) ?_
  simp only [Mark.stamp_ev, Ev.Paged, DecPage, KpPage, ringAt, kpAt, seatRing, seatKp]
  omega

theorem paged_ofPass (e : Ev) (h : e.OfPass) : e.Paged := by cases e <;> trivial

theorem paged_advance {C : Cart} {n n' : Node} (h : advance C n = some n')
    (hs : n.cpu.rd netSeat < 4) : Adds Ev.Paged n.cpu n'.cpu := by
  obtain ⟨ph, s⟩ := n
  have hsend := paged_lsSend (s := s) hs
  cases ph <;> simp only [advance, Option.some.injEq, reduceCtorEq] at h <;> subst h
  · exact Adds.of_log (log_lsEntry s)
  · dsimp only
    exact hsend
  · exact (adds_lsGate C s).mono paged_ofPass

theorem kept_sized (W : World) : Kept W inRange Sized where
  fetch p s h := h.of_local (local_sesFetch p s) (by decide) (by decide) (by decide)
  slip s h := h.of_local (local_ppSlip s) (by decide) (by decide) (by decide)
  frame s h hf _ hg := (sized_sesOnframe (h.of_local (local_ppExtract (by
    have := (flenOk_le hf).1
    omega) s) (by decide) (by decide) (by decide)) hg).2
  after raw ph s n h ha := h.of_within (within_afterPump ha h.lobby h.count) (by decide)
    (by decide) (by decide) (Adds.of_log (log_afterPump ha))
  own n n' h ha := h.of_within (within_advance ha h.seat) (by decide) (by decide) (by decide)
    (paged_advance ha h.seat)
  outside s m h hm := h.of_local (local_outside hm) (by decide) (by decide) (by decide)

theorem sized_loggedIn (name : List ℕ) (m : Mem) (rom : Rom) :
    Sized (loggedIn name m rom).cpu where
  toSeated := seated_loggedIn name m rom
  paged := by rw [log_loggedIn]; simp

/-- A pump from a state in range makes its stores where it should, and stays in range. -/
theorem wire_sesPump {p : Poll} (h : Sized s) (hg : inRange.holds (sesPump p s).log) :
    Within WireCell s (sesPump p s) := by
  have hext : ∀ {t : Cpu}, flenOk (rxAt t 0) (rxAt t 1) = true →
      Local PumpCell t (ppExtract (rxAt t 0 + 1) t) := fun hf =>
    local_ppExtract (by have := (flenOk_le hf).1; omega) _
  refine (sesPump_induct (P := fun t => inRange.holds t.log → Within WireCell s t ∧ Sized t)
    (fun _ => ⟨(local_sesFetch p s).within.mono pump_wire,
      h.of_local (local_sesFetch p s) (by decide) (by decide) (by decide)⟩)
    (fun t ht hg => ?_) (fun t ht hf hb hg => ?_) hg).1
  · have hl := local_ppSlip t
    obtain ⟨hw, hs⟩ := ht (inRange.suffix hl.within.grows hg)
    exact ⟨hw.trans (hl.within.mono pump_wire), hs.of_local hl (by decide) (by decide) (by decide)⟩
  · have hl := hext hf
    obtain ⟨hw, hs⟩ := ht (inRange.suffix (grows_frame t) hg)
    obtain ⟨hw', hs'⟩ := sized_sesOnframe
      (hs.of_local hl (by decide) (by decide) (by decide)) hg
    exact ⟨(hw.trans (hl.within.mono pump_wire)).trans hw', hs'⟩

/-- **Wire values index no memory writer out of range**: in a run that takes no START and no ROOM out
of range, every ring and watermark store stays inside its pages, and whatever the next pump receives,
its stores go to the wire cells as long as the frames in it are in range too. -/
theorem stores_in_range (W : World) (name : List ℕ) (m : Mem) (rom : Rom) (n : Node)
    (hr : Run W (loggedIn name m rom) n) :
    (inRange.holds n.cpu.log → ∀ e ∈ n.cpu.log, e.ev.Paged) ∧
      ∀ p, inRange.holds (sesPump p n.cpu).log →
        Within WireCell n.cpu (sesPump p n.cpu) ∧ ∀ e ∈ (sesPump p n.cpu).log, e.ev.Paged := by
  have hsized : inRange.holds n.cpu.log → Sized n.cpu :=
    (kept_sized W).run (sized_loggedIn name m rom) hr
  refine ⟨fun h => (hsized h).paged, fun p h => ?_⟩
  have hs := hsized (inRange.suffix (grows_sesPump _ p) h)
  exact ⟨wire_sesPump hs h, ((kept_sized W).pump p hs h).paged⟩

/-! ### A count of 255 -/

/-- A console that has just logged in, every cell it does not clear being 0. -/
def lobbyCpu : Cpu := (loggedIn [] blank ⟨fun _ => 0, 0⟩).cpu

/-- A START for seat 0 of 255, and an INPUT of seat 40. -/
def startOf255 : List ℕ := startFrame 0 255 0 0 2 (List.replicate 32 0)
def inputOf40 : List ℕ := [6, ftInput, 40, 1, 0, 0, 0]

theorem framed_startOf255 : Framed startOf255 := ⟨by decide, by decide, by decide⟩
theorem framed_inputOf40 : Framed inputOf40 := ⟨by decide, by decide, by decide⟩

/-- The state before the INPUT is taken. -/
theorem onInput_of_40 {t u : Cpu} (ht : Opened 0 255 2 t) (hz : t.rd (seatWm + 80) = 0)
    (hz' : t.rd (seatWm + 81) = 0) (hu : Local PumpCell t u) (hf : InFrmbuf inputOf40 u) :
    onInput u = takeInput (noteHeard (u.emit (inputEv u true))) := by
  have h0 : u.rd frmbuf = 6 := hf.rd_zero (by decide)
  have h2 : u.rd (frmbuf + 2) = 40 := hf.rd (by decide)
  have h3 : u.rd (frmbuf + 3) = 1 := hf.rd (by decide)
  have h4 : u.rd (frmbuf + 4) = 0 := hf.rd (by decide)
  have hseat : u.rd netSeat = 0 := by rw [hu.rd _ (by decide), ht.rdSeat]
  have hcount : u.rd netCount = 255 := by rw [hu.rd _ (by decide), ht.rdCount]
  have hwm : u.wm 40 = 0 := by
    rw [Cpu.wm, Cpu.rd16, hu.rd _ (by decide), hu.rd _ (by decide), hz, hz']
    rfl
  have hdelta : inputDelta u = 1 := by
    rw [inputDelta, frameTick, Cpu.rd16, h2, h3, h4, hwm]
    decide
  simp only [onInput]
  rw [if_neg (by omega), if_neg (by omega), if_neg (by omega), if_neg (by rw [hdelta]; decide)]

/-- Where that INPUT is stored. -/
def StrayCell (a : ℕ) : Prop := a = 0xAC01 ∨ a = 0xB001 ∨ a = 0x81F0 ∨ a = 0x81F1

theorem takeInput_of_40 {v : Cpu} (h2 : v.rd (frmbuf + 2) = 40) (h3 : v.rd (frmbuf + 3) = 1) :
    Within StrayCell v (takeInput v) ∧ 0xAC01 ∈ (takeInput v).stores ∧
      (takeInput v).log = v.mark.stamp (.slot 0xAC01 0xB001 0x81F0) :: v.log := by
  have ha : (seatRing + 40 * 256 + 1) % 65536 = 0xAC01 := by decide
  have ha' : (0xAC01 + 0x400) % 65536 = 0xB001 := by decide
  have hw : seatWm + 2 * 40 = 0x81F0 := by decide
  simp only [takeInput, h2, h3, ha, ha', hw]
  refine ⟨Within.emit (Within.st (Within.st (Within.st (Within.st (Within.refl v) ?_) ?_) ?_) ?_),
    by simp, rfl⟩
  all_goals unfold StrayCell; decide

theorem rd_lobbyCpu {x : ℕ} (h1 : 0x8080 ≤ x) (h2 : x < 0x8200) (h3 : ¬ LoginCell x) :
    lobbyCpu.rd x = if x = netCount then 2 else 0 := rd_loggedIn h1 h2 h3

/-- The pump that brings both frames. -/
theorem sesPump_of_255 : 0xAC01 ∈ (sesPump (.gives (startOf255 ++ inputOf40)) lobbyCpu).stores ∧
    ∃ m : Mark, m.stamp (.slot 0xAC01 0xB001 0x81F0) ∈
      (sesPump (.gives (startOf255 ++ inputOf40)) lobbyCpu).log := by
  have hopen : ∀ {t}, InFrmbuf startOf255 t → sesOnframe t = onStart t ∧ KeepsRx t := fun h => by
    have htype : Cpu.rd _ (frmbuf + 1) = ftStart := h.rd (by decide)
    exact ⟨sesOnframe_start htype, keepsRx_start htype⟩
  have htake : ∀ {t u}, Local PumpCell lobbyCpu t → InFrmbuf startOf255 t →
      Local PumpCell (sesOnframe t) u → InFrmbuf inputOf40 u →
      sesOnframe u = takeInput (noteHeard (u.emit (inputEv u true))) := by
    intro t u ht hf hu hg
    rw [(hopen hf).1] at hu
    have hz : ∀ x, x = seatWm + 80 ∨ x = seatWm + 81 → (onStart t).rd x = 0 := by
      intro x hx
      have hn : ¬ StartCell x ∧ ¬ PumpCell x ∧ ¬ LoginCell x ∧ x ≠ netCount := by
        rcases hx with rfl | rfl <;> decide
      rw [(within_onStart t).rd x hn.1, ht.rd x hn.2.1,
        rd_lobbyCpu (by rcases hx with rfl | rfl <;> decide)
          (by rcases hx with rfl | rfl <;> decide) hn.2.2.1, if_neg hn.2.2.2]
    rw [sesOnframe_input (hg.rd (by decide))]
    exact onInput_of_40 (opened_onStart hf) (hz _ (Or.inl rfl)) (hz _ (Or.inr rfl)) hu hg
  have hcells : ∀ {u}, InFrmbuf inputOf40 u →
      (noteHeard (u.emit (inputEv u true))).rd (frmbuf + 2) = 40 ∧
        (noteHeard (u.emit (inputEv u true))).rd (frmbuf + 3) = 1 := fun h =>
    ⟨h.rd (by decide), h.rd (by decide)⟩
  obtain ⟨t, u, ht, hf, hu, hg, hp, -⟩ := sesPump_two (rxBytes_loggedIn [] blank ⟨fun _ => 0, 0⟩)
    framed_startOf255 framed_inputOf40 (by decide) (fun t _ hf => (hopen hf).2)
    (fun t u ht hf hu hg a ha => by
      rw [htake ht hf hu hg, (takeInput_of_40 (hcells hg).1 (hcells hg).2).1.rd a (by
        simp only [RxCell, rxWr, rxRd, rxacc] at ha
        unfold StrayCell
        omega)]
      rfl)
  obtain ⟨-, hstore, hlog⟩ := takeInput_of_40 (hcells hg).1 (hcells hg).2
  rw [lobbyCpu, hp, htake ht hf hu hg]
  exact ⟨hstore, _, hlog ▸ List.mem_cons_self⟩

theorem stores_lobbyCpu {a : ℕ} (h : a ∈ lobbyCpu.stores) : a < 0xA000 := by
  obtain ⟨n, hn, hP⟩ := (within_sesLogin [] (netStart (powerOn blank ⟨fun _ => 0, 0⟩))).stores
  obtain ⟨n', hn', hP'⟩ := (local_netStart (powerOn blank ⟨fun _ => 0, 0⟩)).within.stores
  rw [lobbyCpu, loggedIn, hn, hn', List.mem_append, List.mem_append] at h
  rcases h with h | h | h
  · have := hP a h
    simp only [LoginCell, MenuCell, RowCell, ScreenCell, MailCell, backtab, uiColor, ppTmp, menuSel,
      menuPrev, sesTmrLo, sesSave102, nameBuf, nameLen] at this
    omega
  · have := hP' a h
    omega
  · cases h

/-- With a count of 255 an INPUT of seat 40 is stored outside the rings, at `$AC01` and `$B001`. -/
theorem stray_input : Run stillWorld (loggedIn [] blank ⟨fun _ => 0, 0⟩)
      (loggedIn [] blank ⟨fun _ => 0, 0⟩) ∧
    ¬ Within WireCell (loggedIn [] blank ⟨fun _ => 0, 0⟩).cpu
      (sesPump (.gives (startOf255 ++ inputOf40)) (loggedIn [] blank ⟨fun _ => 0, 0⟩).cpu) ∧
    ¬ ∀ e ∈ (sesPump (.gives (startOf255 ++ inputOf40))
      (loggedIn [] blank ⟨fun _ => 0, 0⟩).cpu).log, e.ev.Paged := by
  obtain ⟨hstore, m, hm⟩ := sesPump_of_255
  rw [lobbyCpu] at hstore hm
  refine ⟨.refl, fun h => ?_, fun h => ?_⟩
  · obtain ⟨new, hnew, hP⟩ := h.stores
    rw [hnew, List.mem_append] at hstore
    rcases hstore with h | h
    · exact absurd (hP _ h) (by decide)
    · exact absurd (stores_lobbyCpu h) (by decide)
  · have hpaged : Ev.Paged (.slot 0xAC01 0xB001 0x81F0) := h _ hm
    exact absurd hpaged.1.2 (by decide)

/-! ### A START for two seats -/

def startOf2 : List ℕ := startFrame 1 2 0 0 3 (List.replicate 32 0)

theorem framed_startOf2 : Framed startOf2 := ⟨by decide, by decide, by decide⟩

theorem inRange_startOf2 : inRange.holds (sesPump (.gives startOf2) lobbyCpu).log := by
  obtain ⟨t, ht, hf, hp, -⟩ := sesPump_start (rxBytes_loggedIn [] blank ⟨fun _ => 0, 0⟩)
    framed_startOf2
  have hopen := opened_onStart hf
  have hlen : t.rd frmbuf = 38 := hf.rd_zero (by decide)
  have hrd : ∀ x, (onStart t).rd x = (takeStart t).rd x := fun x => by
    rw [onStart, if_neg (by omega), rd_noteStart]
  rw [lobbyCpu, startOf2, hp, log_onStart (by omega), ht.log, log_loggedIn]
  intro e he
  rw [List.mem_singleton.1 he]
  exact ⟨by rw [← hrd, hopen.rdSeat]; decide, by rw [← hrd, hopen.rdCount]; decide⟩

/-- The pump that brings a START for two seats stores where it should. -/
theorem stores_in_range_startOf2 :
    Within WireCell lobbyCpu (sesPump (.gives startOf2) lobbyCpu) :=
  ((stores_in_range stillWorld [] blank ⟨fun _ => 0, 0⟩ (loggedIn [] blank ⟨fun _ => 0, 0⟩) .refl).2
    (.gives startOf2) inRange_startOf2).1

end runs

end IntvNetplay.Console
