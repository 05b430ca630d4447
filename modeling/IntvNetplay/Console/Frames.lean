import IntvNetplay.Console.Push
import IntvNetplay.Console.Screens

/-!
# What the frame handlers write

One footprint for each handler of `SES_ONFRAME`.  Two of them hold only for frames whose counts are
in range: INPUT for a seat below 4, ROOM for at most nine names.
-/

namespace IntvNetplay.Console

open IntvNetplay.Machine

/-! ### Footprints -/

/-- What an INPUT frame may change. -/
def InputCell (a : ℕ) : Prop := RingCell a ∨ WmCell a

/-- What a START frame may change. -/
def StartCell (a : ℕ) : Prop :=
  NameCell a ∨ InputCell a ∨ CrcCell a ∨ a = netSeat ∨ a = netCount ∨ a = rngLo ∨ a = rngHi ∨
    a = netDelay ∨ a = tickLo ∨ a = tickHi ∨ a = netActive

/-- What a ROOM frame may change. -/
def RoomCell (a : ℕ) : Prop := RowCell a ∨ NameCell a ∨ a = roomCnt ∨ a = roomHost

/-- What a PEER_LEFT frame may change. -/
def LeftCell (a : ℕ) : Prop :=
  a = leftSeat ∨ leftName ≤ a ∧ a ≤ leftName + 8 ∨ InputCell a ∨ a = peerWhy ∨ a = netDropped

/-- What a CRC frame or a RESYNC request may change. -/
def WantCell (a : ℕ) : Prop := MailCell a ∨ a = rsPend ∨ a = rsPtmo

/-- What BEGIN may change. -/
def BeginCell (a : ℕ) : Prop := HoldCell a ∨ CrcCell a ∨ a = rsRLo ∨ a = rsRHi

/-- What a data chunk may change. -/
def ApplyCell (a : ℕ) : Prop :=
  ImgCell a ∨ a = rsTmp ∨ a = rsTmp2 ∨ a = rsPosLo ∨ a = rsPosHi

/-- What a STATE frame other than END may change. -/
def ShortCell (a : ℕ) : Prop := MailCell a ∨ BeginCell a ∨ ApplyCell a

/-- What a STATE frame may change. -/
def StateCell (a : ℕ) : Prop := ShortCell a ∨ RebaseCell a

instance : DecidablePred InputCell := fun a => by unfold InputCell; infer_instance
instance : DecidablePred StartCell := fun a => by unfold StartCell; infer_instance
instance : DecidablePred RoomCell := fun a => by unfold RoomCell; infer_instance
instance : DecidablePred LeftCell := fun a => by unfold LeftCell; infer_instance
instance : DecidablePred WantCell := fun a => by unfold WantCell; infer_instance
instance : DecidablePred BeginCell := fun a => by unfold BeginCell; infer_instance
instance : DecidablePred ApplyCell := fun a => by unfold ApplyCell; infer_instance
instance : DecidablePred ShortCell := fun a => by unfold ShortCell; infer_instance
instance : DecidablePred StateCell := fun a => by unfold StateCell; infer_instance

section handlers

variable (s : Cpu)

/-! ### INPUT -/

theorem ringAddr_lt {seat slot : ℕ} (hs : seat < 4) (hl : slot < 256) :
    (seatRing + seat * 256 + slot) % 65536 = seatRing + seat * 256 + slot :=
  Nat.mod_eq_of_lt (by simp only [seatRing]; omega)

theorem kpAddr_lt {seat slot : ℕ} (hs : seat < 4) (hl : slot < 256) :
    (seatRing + seat * 256 + slot + 0x400) % 65536 = seatKp + seat * 256 + slot := by
  rw [Nat.mod_eq_of_lt (by simp only [seatRing]; omega)]
  simp only [seatRing, seatKp]
  omega

theorem ring_cell {seat slot : ℕ} (hs : seat < 4) (hl : slot < 256) :
    RingCell (seatRing + seat * 256 + slot) :=
  ⟨by simp only [seatRing]; omega, by simp only [seatRing]; omega⟩

theorem kp_cell {seat slot : ℕ} (hs : seat < 4) (hl : slot < 256) :
    RingCell (seatKp + seat * 256 + slot) :=
  ⟨by simp only [seatRing, seatKp]; omega, by simp only [seatRing, seatKp]; omega⟩

theorem within_takeInput (hs : s.rd (frmbuf + 2) < 4) : Within InputCell s (takeInput s) := by
  have hl : s.rd (frmbuf + 3) < 256 := s.rd_lt_256 (by decide)
  unfold takeInput
  simp only [ringAddr_lt hs hl, kpAddr_lt hs hl]
  refine Within.emit (Within.st (Within.st (Within.st (Within.st (Within.refl s) ?_) ?_) ?_) ?_)
  · exact Or.inl (ring_cell hs hl)
  · exact Or.inl (kp_cell hs hl)
  · exact Or.inr ⟨by omega, by simp only [seatWm]; omega⟩
  · exact Or.inr ⟨by omega, by simp only [seatWm]; omega⟩

@[simp] theorem rd_noteHeard (x : ℕ) : (noteHeard s).rd x = s.rd x := rfl

theorem within_onInput (hs : s.rd netCount ≤ 4) : Within InputCell s (onInput s) := by
  unfold onInput
  refine Within.ite (fun _ => Within.refl s) fun _ => ?_
  refine Within.ite (fun _ => Within.refl s) fun _ => ?_
  refine Within.ite (fun _ => Within.refl s) fun hc => ?_
  refine Within.ite (fun _ => (Within.refl s).emit) fun _ => ?_
  refine (Within.refl s).emit.withMark.trans (within_takeInput _ ?_)
  have hseat : (noteHeard (s.emit (inputEv s true))).rd (frmbuf + 2) = s.rd (frmbuf + 2) := by
    rw [rd_noteHeard, Cpu.rd_emit]
  exact hseat ▸ Nat.lt_of_lt_of_le (Nat.lt_of_not_le hc) hs

/-! ### The lobby's frames -/

theorem lobbyCount_le : lobbyCount s ≤ 8 := by
  unfold lobbyCount
  split <;> omega

theorem local_takeLobby {count : ℕ} (hc : count ≤ 8) : Local BoardCell s (takeLobby count s) := by
  have hsel : ∀ u, Local BoardCell u (if u.rd menuSel < count then u else u.st menuSel 0) :=
    fun u => Local.ite (fun _ => Local.refl u) fun _ => (Local.refl u).st (by decide)
  refine (((Local.refl s).st (by decide)).trans (hsel _)).stAll fun x h1 h2 => ?_
  rw [Cpu.rdAll, List.length_map, List.length_range'] at h2
  simp only [lobbyCache] at h1 h2
  simp only [BoardCell, lobbyCache]
  omega

theorem rd_lobbyCnt_takeLobby {count : ℕ} (hc : count ≤ 8) :
    (takeLobby count s).rd lobbyCnt = count := by
  have hlt : count % 256 = count := Nat.mod_eq_of_lt (by omega)
  simp only [takeLobby]
  rw [Cpu.rd_stAll_of_not _ _ _ _ (Or.inl (by decide))]
  split <;> simp [cellBits, hlt]

theorem local_onLobby : Local BoardCell s (onLobby s) := by
  have hc := lobbyCount_le s
  unfold onLobby
  refine Local.ite (fun _ => Local.refl s) fun _ => ?_
  refine Local.ite (fun _ => Local.refl s) fun _ => ?_
  refine Local.ite (fun _ => Local.refl s) fun _ => ?_
  have h := local_takeLobby s hc
  refine Local.ite (fun _ => h) fun _ => h.trans ((local_sesRender _ ?_).mono row_board)
  rw [rd_lobbyCnt_takeLobby s hc]
  exact hc

theorem row_room (a : ℕ) (h : RowCell a) : RoomCell a := Or.inl h

theorem name_room {a : ℕ} (h : NameCell a) : RoomCell a := Or.inr (Or.inl h)

theorem room_board (a : ℕ) (h : RoomCell a) : BoardCell a := by
  rcases h with h | h | h | h
  · exact row_board a h
  · exact name_board h
  · exact Or.inr (Or.inr (Or.inr (Or.inr (Or.inl (by simp only [roomCnt, leftSeat] at *; omega)))))
  · exact Or.inr (Or.inr (Or.inr (Or.inr (Or.inl (by simp only [roomHost, roomCnt, leftSeat] at *; omega)))))

theorem local_leaveRoom (hl : s.rd lobbyCnt ≤ 8) : Local RoomCell s (leaveRoom s) := by
  have h : Local RoomCell s (uiPrint 0 "SOCCER NETPLAY" (uiCls ((s.st roomCnt 0).st roomHost 0))) :=
    ((((Local.refl s).st (by decide)).st (by decide)).trans
      ((local_uiCls _).mono row_room)).trans ((local_uiPrint _ _ (by decide)).mono row_room)
  have hscr : Local (fun a => ScreenCell a ∨ a = roomCnt ∨ a = roomHost) s
      (uiPrint 0 "SOCCER NETPLAY" (uiCls ((s.st roomCnt 0).st roomHost 0))) := by
    refine Local.uiPrint (fun _ => Or.inl) ?_ (by decide)
    exact Local.uiCls (fun _ => Or.inl) (((Local.refl s).st (by decide)).st (by decide))
  refine h.trans ((local_sesRender _ ?_).mono row_room)
  rw [hscr.rd lobbyCnt (by decide)]
  exact hl

theorem local_showRoom (hr : s.rd roomCnt ≤ 9) (ha : s.rd netActive = 0) :
    Local RoomCell s (showRoom s) := by
  have hname := local_sesCprGo s (frmbuf + 3)
  have hhost : ∀ v, Local RoomCell s ((sesCprGo (frmbuf + 3) s).st roomHost v) := fun v =>
    (hname.mono fun _ => name_room).st (by decide)
  have hscr : ∀ v, Local RoomCell s (sesRoomscr ((sesCprGo (frmbuf + 3) s).st roomHost v)) := by
    intro v
    refine (hhost v).trans ((local_sesRoomscr _ ?_ ?_).mono row_room)
    · rw [Cpu.rd_st, if_neg (by decide), hname.rd _ (by decide)]
      exact hr
    · rw [Cpu.rd_st, if_neg (by decide), hname.rd _ (by decide)]
      exact ha
  unfold showRoom
  exact hscr _

theorem within_onRoom (hr : s.rd netActive = 0 → 34 ≤ s.rd frmbuf → s.rd (frmbuf + 2) ≤ 9)
    (hl : s.rd lobbyCnt ≤ 8) : Within RoomCell s (onRoom s) := by
  unfold onRoom
  refine Within.ite (fun _ => Within.refl s) fun ha => ?_
  refine Within.ite (fun _ => Within.refl s) fun hlen => ?_
  have h : Within RoomCell s
      ((s.emit (.room (s.rd (frmbuf + 2)))).st roomCnt (s.rd (frmbuf + 2))) :=
    (Within.refl s).emit.st (by decide)
  have ha0 : s.rd netActive = 0 := not_not.1 ha
  have hlt : s.rd (frmbuf + 2) % 256 = s.rd (frmbuf + 2) := s.rd_mod_256 (by decide)
  refine Within.ite (fun _ => h.trans (local_leaveRoom _ ?_).within)
    fun _ => h.trans (local_showRoom _ ?_ ?_).within
  · simpa using hl
  · have := hr ha0 (by omega)
    simp only [frmbuf] at hlt this
    simpa [cellBits, hlt] using this
  · simpa using ha0

theorem local_lsIdleRmt : Local InputCell s (lsIdleRmt s) :=
  ((local_lsRingInit s).mono fun _ => Or.inl).trans
    ((local_setWms _ _ _).mono fun _ => Or.inr)

theorem local_noteLeft : Local LeftCell s (noteLeft s) := by
  refine ((Local.refl s).st (by decide)).stAll fun x h1 h2 => ?_
  rw [Cpu.rdAll, List.length_append, List.length_map, List.length_range'] at h2
  simp only [List.length_cons, List.length_nil] at h2
  exact Or.inr (Or.inl ⟨h1, by omega⟩)

theorem local_onPeerLeft : Local LeftCell s (onPeerLeft s) := by
  have h : Local LeftCell s (if s.rd frmbuf < 10 then s else noteLeft s) :=
    Local.ite (fun _ => Local.refl s) fun _ => local_noteLeft s
  exact ((h.st (by decide)).st (by decide)).trans
    ((local_lsIdleRmt _).mono fun _ h => Or.inr (Or.inr (Or.inl h)))

/-! ### START -/

theorem local_startHeader : Local StartCell s (startHeader s) :=
  (((((Local.refl s).st (by decide)).st (by decide)).st (by decide)).st (by decide)).st (by decide)

theorem local_takeStart : Local StartCell s (takeStart s) := by
  have h1 := (local_startHeader s).trans
    ((local_sesCprGo (startHeader s) (frmbuf + 7)).mono fun _ h => Or.inl h)
  have h2 := h1.trans ((local_lsRingInit _).mono fun _ h => Or.inr (Or.inl (Or.inl h)))
  have h3 := h2.trans ((local_rsClrCrc _).mono fun _ h => Or.inr (Or.inr (Or.inl h)))
  have h4 := h3.trans ((local_setWms _ (((rsClrCrc (lsRingInit (sesCprGo (frmbuf + 7)
    (startHeader s)))).rd netDelay + 65535) % 65536) 0).mono fun _ h => Or.inr (Or.inl (Or.inr h)))
  exact ((h4.st (by decide)).st (by decide)).st (by decide)

@[simp] theorem rd_noteStart (x : ℕ) : (noteStart s).rd x = s.rd x := rfl

theorem log_noteStart : (noteStart s).log = ⟨s.mark.epoch + 1, 0, 0, s.mark.raw,
    .start (s.rd netSeat) (s.rd netCount) (s.rd netDelay)⟩ :: s.log := rfl

theorem within_noteStart : Within StartCell s (noteStart s) :=
  ((Within.refl s).newBase.withTx).emit

theorem within_onStart : Within StartCell s (onStart s) :=
  Within.ite (fun _ => Within.refl s)
    fun _ => (local_takeStart s).within.trans (within_noteStart _)

/-! ### Detection -/

theorem within_rsWant : Within WantCell s (rsWant s) := by
  have h : Within WantCell s
      (((s.emit (.mismatch (frameTick s) (recordCrc s) (frameCrc s))).st rsPend 1).st rsPtmo 0) :=
    ((Within.refl s).emit.st (by decide)).st (by decide)
  exact Within.ite (fun _ => h) fun _ => Within.sendFrame (fun _ => Or.inl) h (by simp)

theorem within_rsOnCrc : Within WantCell s (rsOnCrc s) := by
  have h : Within WantCell s (s.emit (.crcIn (frameTick s) (frameCrc s))) := (Within.refl s).emit
  unfold rsOnCrc
  refine Within.ite (fun _ => Within.refl s) fun _ => ?_
  refine Within.ite (fun _ => h) fun _ => ?_
  refine Within.ite (fun _ => h) fun _ => ?_
  refine Within.ite (fun _ => h) fun _ => ?_
  exact Within.ite (fun _ => h) fun _ => h.trans (within_rsWant _)

theorem within_rsOnReq : Within WantCell s (rsOnReq s) :=
  Within.ite (fun _ => (Within.refl s).emit)
    fun _ => ((Within.refl s).emit.st (by decide)).st (by decide)

theorem rd_rsPend_rsWant : (rsWant s).rd rsPend = 1 := by
  have hset : (((s.emit (.mismatch (frameTick s) (recordCrc s) (frameCrc s))).st rsPend 1).st
      rsPtmo 0).rd rsPend = 1 := by
    rw [Cpu.rd_st, if_neg (by decide)]
    simp [cellBits]
  simp only [rsWant]
  split_ifs
  · exact hset
  · rw [(Within.sendFrame (P := MailCell) (fun _ ha => ha) (Within.refl _) (by simp)).rd _ (by decide)]
    exact hset

/-- When a resync is wanted behind a CRC frame. -/
theorem rd_rsPend_rsOnCrc (hl : 6 ≤ s.rd frmbuf) : (rsOnCrc s).rd rsPend =
    if s.rd resyncHold = 0 ∧ s.rd rsPend = 0 ∧ recordTick s = frameTick s ∧
      recordCrc s ≠ frameCrc s then 1 else s.rd rsPend := by
  have hskip : ¬ s.rd frmbuf < 6 := by omega
  rw [rsOnCrc, if_neg hskip]
  dsimp only
  generalize hu : s.emit (.crcIn (frameTick s) (frameCrc s)) = u
  have hrd : ∀ x, u.rd x = s.rd x := fun x => by rw [← hu, Cpu.rd_emit]
  have htick : (recordTick u ≠ frameTick u) = (recordTick s ≠ frameTick s) := by rw [← hu]; rfl
  have hcrc : (recordCrc u = frameCrc u) = (recordCrc s = frameCrc s) := by rw [← hu]; rfl
  simp only [hrd, htick, hcrc]
  by_cases h1 : s.rd resyncHold = 0
  · by_cases h2 : s.rd rsPend = 0
    · by_cases h3 : recordTick s = frameTick s
      · by_cases h4 : recordCrc s = frameCrc s
        · simp [h1, h2, h3, h4, hrd]
        · simp [h1, h2, h3, h4, rd_rsPend_rsWant]
      · simp [h1, h2, h3, hrd]
    · simp [h1, h2, hrd]
  · simp [h1, hrd]

/-! ### STATE -/

theorem local_rsBad : Local ShortCell s (rsBad s) :=
  Local.diagBump (Local.refl s) (by decide)

theorem local_beginFrame : Local BeginCell s
    (((rsEnterHold s).st rsRLo ((rsEnterHold s).rd (frmbuf + 4))).st rsRHi
      (((rsEnterHold s).st rsRLo ((rsEnterHold s).rd (frmbuf + 4))).rd (frmbuf + 5))) := by
  have h : Local BeginCell s (rsEnterHold s) :=
    ((((Local.refl s).st (by decide)).st (by decide)).st (by decide)).trans
      ((local_rsClrCrc _).mono fun _ h => Or.inr (Or.inl h))
  exact (h.st (by decide)).st (by decide)

theorem rsOnControl_cases : Within ShortCell s (rsOnControl s) ∨ rsOnControl s = rsRebase s := by
  unfold rsOnControl
  split_ifs
  · exact .inl (local_rsBad s).within
  · exact .inl ((local_beginFrame s).mono fun _ h => Or.inr (Or.inl h)).within
  · exact .inl (Within.refl s)
  · exact .inl (Within.refl s)
  · exact .inr rfl

theorem local_applyBytes {pos n : ℕ} (h : pos + n ≤ imgTotal) :
    Local ApplyCell s (applyBytes pos n s) :=
  Local.rows (fun i hi t => (local_imgPut (by omega)).mono fun _ h => by
    rcases h with h | h
    · exact Or.inl h
    · exact Or.inr (Or.inl h)) (Local.refl s)

theorem within_rsApply {pos n : ℕ} (h : pos + n ≤ imgTotal) :
    Within ApplyCell s (rsApply pos n s) :=
  ((((Within.refl s).emit.withMark.trans (local_applyBytes _ h).within).st (by decide)).st
    (by decide)).st (by decide)

theorem within_rsOnChunk : Within ShortCell s (rsOnChunk s) := by
  have hbad : Within ShortCell s (rsBad s) := (local_rsBad s).within
  have hbad' : Within ShortCell s (rsBad (s.st rsTmp2 (s.rd frmbuf - 3))) :=
    ((Local.refl s).st (by decide)).within.trans (local_rsBad _).within
  unfold rsOnChunk
  refine Within.ite (fun _ => hbad) fun _ => ?_
  refine Within.ite (fun _ => hbad) fun _ => ?_
  refine Within.ite (fun _ => hbad') fun _ => ?_
  refine Within.ite (fun _ => hbad') fun h => ?_
  exact (within_rsApply s (by simp only [imgTotal] at h ⊢; omega)).mono
    fun _ h => Or.inr (Or.inr h)

theorem rsOnState_cases : Within ShortCell s (rsOnState s) ∨ rsOnState s = rsRebase s := by
  unfold rsOnState
  split_ifs
  · exact .inl (local_rsBad s).within
  · exact rsOnControl_cases s
  · exact .inl (within_rsOnChunk s)

theorem within_rsOnState : Within StateCell s (rsOnState s) := by
  rcases rsOnState_cases s with h | h
  · exact h.mono fun _ => Or.inl
  · rw [h]
    exact (within_rsRebase s).mono fun _ => Or.inr

end handlers

end IntvNetplay.Console
