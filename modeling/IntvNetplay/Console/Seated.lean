import IntvNetplay.Console.Growth
import IntvNetplay.Console.Start

/-!
# Seats and counts in range

What a START stores bounds where the captures and every later INPUT go.  As long as every START taken
so far names one of the four seats and at most four of them, the stored seat and count stay in range
over a whole run, whatever else arrives.
-/

namespace IntvNetplay.Console

open IntvNetplay.Machine

/-! ### A room of any size -/

/-- What painting a roster of any size may change. -/
def PaintCell (a : ℕ) : Prop := 0x01F0 ≤ a ∧ a < 0x8000 ∨ RoomCell a

instance : DecidablePred PaintCell := fun a => by unfold PaintCell; infer_instance

section paint

variable (s : Cpu)

theorem screen_paint (a : ℕ) (h : ScreenCell a) : PaintCell a := Or.inr (Or.inl (Or.inl h))

theorem local_sesRosterRow_any {seat : ℕ} (hs : seat < 256) :
    Local PaintCell s (sesRosterRow seat s) := by
  have hdig : Local PaintCell s (rosterDigit seat s) :=
    (((Local.refl s).st (a := uiColor) (by decide)).st (a := ppTmp) (by decide)).st
      (Or.inl ⟨by simp only [backtab]; omega, by simp only [backtab]; omega⟩)
  have hname : ∀ t : Cpu, Local PaintCell t (uiPrintn (t.rd ppTmp) (nameTbl + seat * 9) 8 t) := by
    intro t
    have hpp : t.rd ppTmp < 256 := t.rd_lt_256 (by decide)
    have hl := field_length_le t (nameTbl + seat * 9) 8
    exact (Local.refl t).uiPut fun x h1 h2 => by
      simp only [backtab] at h1 h2
      exact Or.inl ⟨by omega, by omega⟩
  have hmark : ∀ t : Cpu, Local PaintCell t (rosterMark seat t) := fun t => by
    have hpp : t.rd ppTmp < 256 := t.rd_lt_256 (by decide)
    refine Local.ite (fun _ => (Local.refl t).st (Or.inl ?_)) fun _ => Local.refl t
    simp only [backtab]
    omega
  exact (hdig.trans (hname _)).trans (hmark _)

theorem local_sesRoster_any : Local PaintCell s (sesRoster s) := by
  have h1 : s.rd roomCnt < 256 := s.rd_lt_256 (by decide)
  have h2 : s.rd netCount < 256 := s.rd_lt_256 (by decide)
  simp only [sesRoster]
  refine (Local.rows (fun i hi t => local_sesRosterRow_any t ?_) (Local.refl s)).st (by decide)
  split_ifs at hi <;> omega

theorem local_sesRoomscr_any : Local PaintCell s (sesRoomscr s) := by
  have hhead := Local.uiPrint screen_paint (o := 20) (w := "WAITING ROOM   OF 2")
    (Local.uiPrint screen_paint (o := 0) (w := "SOCCER NETPLAY")
      (Local.uiCls screen_paint (Local.refl s)) (by decide)) (by decide)
  have hrost : ∀ v, Local PaintCell s (sesRoster ((uiPrint 20 "WAITING ROOM   OF 2"
      (uiPrint 0 "SOCCER NETPLAY" (uiCls s))).st (backtab + 20 + 13) v)) := fun v =>
    (hhead.st (a := backtab + 20 + 13) (by decide)).trans (local_sesRoster_any _)
  have hlast : ∀ t : Cpu, Local PaintCell t (if t.rd roomHost = 0 then
      uiPrint 180 "WAITING FOR HOST    " t else uiPrint 180 "ENTER = START GAME  " t) := fun t =>
    Local.ite (fun _ => Local.uiPrint screen_paint (Local.refl t) (by decide))
      fun _ => Local.uiPrint screen_paint (Local.refl t) (by decide)
  simp only [sesRoomscr]
  exact (hrost _).trans (hlast _)

theorem local_showRoom_any : Local PaintCell s (showRoom s) := by
  have hname : Local PaintCell s (sesCprGo (frmbuf + 3) s) :=
    (local_sesCprGo s (frmbuf + 3)).mono fun _ h => Or.inr (name_room h)
  have hscr : ∀ v, Local PaintCell s (sesRoomscr ((sesCprGo (frmbuf + 3) s).st roomHost v)) :=
    fun v => (hname.st (by decide)).trans (local_sesRoomscr_any _)
  unfold showRoom
  exact hscr _

theorem within_onRoom_any (hl : s.rd lobbyCnt ≤ 8) : Within PaintCell s (onRoom s) := by
  have hbase : Within PaintCell s
      ((s.emit (.room (s.rd (frmbuf + 2)))).st roomCnt (s.rd (frmbuf + 2))) :=
    (Within.refl s).emit.st (by decide)
  unfold onRoom
  refine Within.ite (fun _ => Within.refl s) fun _ => ?_
  refine Within.ite (fun _ => Within.refl s) fun _ => ?_
  refine Within.ite (fun _ => hbase.trans ?_) fun _ => hbase.trans ?_
  · exact (local_leaveRoom _ (by simpa using hl)).within.mono fun _ => Or.inr
  · exact (local_showRoom_any _).within

end paint

/-! ### The stored seat and counts -/

/-- The stored seat and counts. -/
structure Seated (s : Cpu) : Prop where
  seat : s.rd netSeat < 4
  count : s.rd netCount ≤ 4
  lobby : s.rd lobbyCnt ≤ 8

/-- A START that names one of four seats and at most four of them. -/
def Ev.Seats : Ev → Prop
  | .start seat count _ => seat < 4 ∧ count ≤ 4
  | _ => True

/-- Every START taken so far was in range. -/
def seatsGuard : Guard := Guard.all fun e => e.ev.Seats

section frames

variable {s t : Cpu} {P : ℕ → Prop}

theorem Seated.of_within (h : Seated s) (hw : Within P s t) (h1 : ¬ P netSeat) (h2 : ¬ P netCount)
    (h3 : ¬ P lobbyCnt) : Seated t where
  seat := by rw [hw.rd _ h1]; exact h.seat
  count := by rw [hw.rd _ h2]; exact h.count
  lobby := by rw [hw.rd _ h3]; exact h.lobby

theorem rd_lobbyCnt_onLobby (h : s.rd lobbyCnt ≤ 8) : (onLobby s).rd lobbyCnt ≤ 8 := by
  have hc := lobbyCount_le s
  simp only [onLobby]
  split_ifs
  · exact h
  · exact h
  · exact h
  · rw [rd_lobbyCnt_takeLobby s hc]
    exact hc
  · rw [(local_sesRender _ (by rw [rd_lobbyCnt_takeLobby s hc]; exact hc)).rd _ (by decide),
      rd_lobbyCnt_takeLobby s hc]
    exact hc

theorem log_onStart (h : 38 ≤ s.rd frmbuf) : (onStart s).log =
    ⟨s.mark.epoch + 1, 0, 0, s.mark.raw, .start ((takeStart s).rd netSeat)
      ((takeStart s).rd netCount) ((takeStart s).rd netDelay)⟩ :: s.log := by
  rw [onStart, if_neg (by omega), log_noteStart, (local_takeStart s).log, (local_takeStart s).mark]

theorem rd_onStart (hl : 38 ≤ s.rd frmbuf) (x : ℕ) : (onStart s).rd x = (takeStart s).rd x := by
  rw [onStart, if_neg (by omega), rd_noteStart]

theorem seated_onStart (h : Seated s) (hg : seatsGuard.holds (onStart s).log) :
    Seated (onStart s) := by
  by_cases hl : 38 ≤ s.rd frmbuf
  · have hr : (takeStart s).rd netSeat < 4 ∧ (takeStart s).rd netCount ≤ 4 :=
      hg ⟨_, _, _, _, .start _ _ _⟩ (log_onStart hl ▸ List.mem_cons_self)
    refine ⟨by rw [rd_onStart hl]; exact hr.1, by rw [rd_onStart hl]; exact hr.2, ?_⟩
    rw [(within_onStart s).rd _ (by decide)]
    exact h.lobby
  · rw [onStart, if_pos (by omega)]
    exact h

theorem seated_sesOnframe (h : Seated s) (hg : seatsGuard.holds (sesOnframe s).log) :
    Seated (sesOnframe s) := by
  simp only [sesOnframe] at hg ⊢
  split_ifs at hg ⊢
  · exact h.of_within (within_onInput s h.count) (by decide) (by decide) (by decide)
  · have hw := (local_onLobby s).within
    refine ⟨?_, ?_, rd_lobbyCnt_onLobby h.lobby⟩
    · rw [hw.rd _ (by decide)]; exact h.seat
    · rw [hw.rd _ (by decide)]; exact h.count
  · exact seated_onStart h hg
  · exact h.of_within (local_onPeerLeft s).within (by decide) (by decide) (by decide)
  · exact h.of_within (within_onRoom_any s h.lobby) (by decide) (by decide) (by decide)
  · exact h.of_within (within_rsOnCrc s) (by decide) (by decide) (by decide)
  · exact h.of_within (within_rsOnState s) (by decide) (by decide) (by decide)
  · exact h.of_within (within_rsOnReq s) (by decide) (by decide) (by decide)
  · exact h

end frames

/-- A frame that has arrived whole is moved to `FRMBUF`. -/
theorem local_ppExtract_frame {s : Cpu} (h : flenOk (rxAt s 0) (rxAt s 1) = true) :
    Local PumpCell s (ppExtract (rxAt s 0 + 1) s) :=
  local_ppExtract (by have := (flenOk_le h).1; omega) s

theorem kept_seated (W : World) : Kept W seatsGuard Seated where
  fetch p s h := h.of_within (local_sesFetch p s).within (by decide) (by decide) (by decide)
  slip s h := h.of_within (local_ppSlip s).within (by decide) (by decide) (by decide)
  frame s h hf _ hg := seated_sesOnframe (h.of_within (local_ppExtract_frame hf).within (by decide)
    (by decide) (by decide)) hg
  after raw ph s n h ha := h.of_within (within_afterPump ha h.lobby h.count) (by decide)
    (by decide) (by decide)
  own n n' h ha := h.of_within (within_advance ha h.seat) (by decide) (by decide) (by decide)
  outside s m h hm := h.of_within (local_outside hm).within (by decide) (by decide) (by decide)

/-! ### A match that has begun -/

/-- No frame takes a console out of a match. -/
theorem active_sesOnframe {s : Cpu} (h : Seated s) (ha : s.rd netActive ≠ 0) :
    (sesOnframe s).rd netActive ≠ 0 := by
  have hkeep : ∀ {P : ℕ → Prop} {t : Cpu}, Within P s t → ¬ P netActive → t.rd netActive ≠ 0 :=
    fun hw hp => by rwa [hw.rd _ hp]
  simp only [sesOnframe]
  split_ifs
  · exact hkeep (within_onInput s h.count) (by decide)
  · exact hkeep (local_onLobby s).within (by decide)
  · by_cases hl : 38 ≤ s.rd frmbuf
    · rw [rd_onStart hl, rd_netActive_takeStart]
      decide
    · rwa [onStart, if_pos (by omega)]
  · exact hkeep (local_onPeerLeft s).within (by decide)
  · exact hkeep (within_onRoom_any s h.lobby) (by decide)
  · exact hkeep (within_rsOnCrc s) (by decide)
  · exact hkeep (within_rsOnState s) (by decide)
  · exact hkeep (within_rsOnReq s) (by decide)
  · exact ha

theorem kept_active (W : World) :
    Kept W seatsGuard fun s => Seated s ∧ s.rd netActive ≠ 0 where
  fetch p s h := ⟨(kept_seated W).fetch p s h.1, by
    rw [(local_sesFetch p s).rd _ (by decide)]
    exact h.2⟩
  slip s h := ⟨(kept_seated W).slip s h.1, by
    rw [(local_ppSlip s).rd _ (by decide)]
    exact h.2⟩
  frame s h hf hb hg := by
    have hl := local_ppExtract_frame hf
    have hs := h.1.of_within hl.within (by decide) (by decide) (by decide)
    refine ⟨(kept_seated W).frame s h.1 hf hb hg, active_sesOnframe hs ?_⟩
    rw [hl.rd _ (by decide)]
    exact h.2
  after raw ph s n h ha := ⟨(kept_seated W).after raw ph s n h.1 ha, by
    rw [(within_afterPump ha h.1.lobby h.1.count).rd _ (by decide)]
    exact h.2⟩
  own n n' h ha := ⟨(kept_seated W).own n n' h.1 ha, by
    rw [(within_advance ha h.1.seat).rd _ (by decide)]
    exact h.2⟩
  outside s m h hm := ⟨(kept_seated W).outside s m h.1 hm, by
    rw [(local_outside hm).rd _ (by decide)]
    exact h.2⟩

/-- Past the lobby, a match is on. -/
theorem active_of_run {W : World} {n n' : Node} (hn : n.phase = .lobby) (h : Seated n.cpu)
    (hr : Run W n n') (hg : seatsGuard.holds n'.cpu.log) (hp : n'.phase ≠ .lobby) :
    n'.cpu.rd netActive ≠ 0 := by
  refine (hr.induct (P := fun n => seatsGuard.holds n.cpu.log →
    Seated n.cpu ∧ (n.phase ≠ .lobby → n.cpu.rd netActive ≠ 0))
    (fun _ => ⟨h, fun hne => absurd hn hne⟩) ?_ hg).2 hp
  intro p n n' ih hs hg
  obtain ⟨hseat, hact⟩ := ih (seatsGuard.suffix (grows_step hs) hg)
  refine ⟨(kept_seated W).step hseat hs hg, fun hne => ?_⟩
  by_cases hph : n.phase = .lobby
  · obtain ⟨ph, s⟩ := n
    obtain rfl : ph = .lobby := hph
    cases hs with
    | isr _ => exact absurd rfl hne
    | own ha => simp only [advance, reduceCtorEq] at ha
    | @pump _ _ p raw _ ha =>
      rw [afterPump, Option.some.injEq] at ha
      subst ha
      have hsp := (kept_seated W).pump p hseat
        (by rwa [(silent_lobbyRound raw (sesPump p s)).log] at hg)
      rw [(within_lobbyRound raw hsp.lobby hsp.count).rd _ (by decide)]
      unfold lobbyRound at hne
      split_ifs at hne with h0
      · exact absurd rfl hne
      · exact h0
  · exact ((kept_active W).step ⟨hseat, hact hph⟩ hs hg).2

theorem seated_loggedIn (name : List ℕ) (m : Mem) (rom : Rom) :
    Seated (loggedIn name m rom).cpu where
  seat := by rw [rd_loggedIn (by decide) (by decide) (by decide)]; decide
  count := by rw [rd_loggedIn (by decide) (by decide) (by decide)]; decide
  lobby := by rw [rd_loggedIn (by decide) (by decide) (by decide)]; decide

end IntvNetplay.Console
