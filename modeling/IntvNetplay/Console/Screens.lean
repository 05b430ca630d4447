import IntvNetplay.Console.Session

/-!
# What the session screens write

The screens of the lobby and of the waiting room print at offsets computed from a row number.  Up to
nine rows of the roster and eight rows of the browser stay inside the BACKTAB.
-/

namespace IntvNetplay.Console

open IntvNetplay.Machine

/-- The cells of the session that no part of the match reads: the screen, the cursor, the room and
lobby lists and the names. -/
def BoardCell (a : ℕ) : Prop :=
  ScreenCell a ∨ a = ppTmp ∨ a = menuSel ∨ a = lobbyCnt ∨ roomCnt ≤ a ∧ a ≤ leftSeat ∨
    leftName ≤ a ∧ a ≤ leftName + 8 ∨ nameTbl ≤ a ∧ a < nameTbl + 36 ∨
    lobbyCache ≤ a ∧ a < lobbyCache + 73

instance : DecidablePred BoardCell := fun a => by unfold BoardCell; infer_instance

/-- What a painted row changes. -/
def RowCell (a : ℕ) : Prop := ScreenCell a ∨ a = ppTmp

instance : DecidablePred RowCell := fun a => by unfold RowCell; infer_instance

theorem row_board (a : ℕ) (h : RowCell a) : BoardCell a :=
  h.elim Or.inl fun h => Or.inr (Or.inl h)

theorem screen_row (a : ℕ) (h : ScreenCell a) : RowCell a := Or.inl h

/-- A cell of the BACKTAB. -/
theorem backtab_row {a : ℕ} (h1 : backtab ≤ a) (h2 : a < backtab + 240) : RowCell a :=
  Or.inl (Or.inl ⟨h1, h2⟩)

/-- The first `n` rows of a loop stay inside a footprint that each row stays inside. -/
theorem Local.rows {P : ℕ → Prop} {row : ℕ → Cpu → Cpu} {n : ℕ}
    (hrow : ∀ i < n, ∀ t, Local P t (row i t)) {s t : Cpu} (h : Local P s t) :
    Local P s ((List.range n).foldl (fun s i => row i s) t) := by
  induction n generalizing s t with
  | zero => exact h
  | succ n ih =>
    rw [List.range_succ, List.foldl_append]
    exact (ih (fun i hi => hrow i (by omega)) h).trans (hrow n (by omega) _)

section rows

variable (s : Cpu)

theorem rd_ppTmp_rosterDigit {seat : ℕ} (hs : seat < 9) :
    (rosterDigit seat s).rd ppTmp = 20 * (3 + seat) + 4 := by
  have hoff : 20 * (3 + seat) + 4 < 256 := by omega
  have hne : ppTmp ≠ backtab - 2 + (20 * (3 + seat) + 4) := by
    simp only [ppTmp, backtab]; omega
  simp only [rosterDigit]
  rw [Cpu.rd_st, if_neg hne]
  simp [cellBits, Nat.mod_eq_of_lt hoff]

theorem local_rosterDigit {seat : ℕ} (hs : seat < 9) :
    Local RowCell s (rosterDigit seat s) :=
  (((Local.refl s).st (by decide)).st (by decide)).st
    (backtab_row (by simp only [backtab]; omega) (by simp only [backtab]; omega))

theorem local_rosterMark {seat : ℕ} (hs : seat < 9) (hpp : s.rd ppTmp = 20 * (3 + seat) + 4) :
    Local RowCell s (rosterMark seat s) := by
  unfold rosterMark
  rw [hpp]
  refine Local.ite (fun _ => (Local.refl s).st ?_) fun _ => Local.refl s
  exact backtab_row (by simp only [backtab]; omega) (by simp only [backtab]; omega)

theorem local_sesRosterRow {seat : ℕ} (hs : seat < 9) :
    Local RowCell s (sesRosterRow seat s) := by
  have hpp := rd_ppTmp_rosterDigit s hs
  have hput : ∀ u, Local RowCell u (uiPrintn (20 * (3 + seat) + 4) (nameTbl + seat * 9) 8 u) :=
    fun u => Local.uiPrintn screen_row (Local.refl u) (by omega)
  have hpp' : ∀ u : Cpu, (uiPrintn (20 * (3 + seat) + 4) (nameTbl + seat * 9) 8 u).rd ppTmp =
      u.rd ppTmp := fun u => by
    refine (Local.uiPrintn (P := ScreenCell) (fun _ h => h) (Local.refl u) (by omega)).rd _ ?_
    decide
  rw [sesRosterRow, hpp]
  refine ((local_rosterDigit s hs).trans (hput _)).trans (local_rosterMark _ hs ?_)
  rw [hpp', hpp]

/-- The roster of a room of at most nine. -/
theorem local_sesRoster (hpre : s.rd netActive = 0 → s.rd roomCnt ≤ 9)
    (hact : s.rd netActive ≠ 0 → s.rd netCount ≤ 9) : Local RowCell s (sesRoster s) := by
  unfold sesRoster
  refine (Local.rows (fun i hi t => local_sesRosterRow t ?_) (Local.refl s)).st (by decide)
  by_cases h : s.rd netActive = 0
  · have := hpre h
    simp only [h, if_true] at hi
    omega
  · have := hact h
    simp only [h, if_false] at hi
    omega

theorem rd_ppTmp_renderStart {i : ℕ} (status : ℕ) (hi : i < 8) :
    (renderStart i status s).rd ppTmp = 20 * (4 + i) + 2 := by
  have hoff : 20 * (4 + i) + 2 < 256 := by omega
  simp [renderStart, cellBits, Nat.mod_eq_of_lt hoff]

theorem local_renderCount {i : ℕ} (status : ℕ) (hi : i < 8) (hpp : s.rd ppTmp = 20 * (4 + i) + 2) :
    Local RowCell s (renderCount status s) := by
  unfold renderCount
  rw [hpp]
  refine Local.ite (fun _ => Local.refl s) fun _ => (Local.refl s).st ?_
  exact backtab_row (by simp only [backtab]; omega) (by simp only [backtab]; omega)

theorem local_renderCursor {i : ℕ} (hi : i < 8) (hpp : s.rd ppTmp = 20 * (4 + i) + 2) :
    Local RowCell s (renderCursor i s) := by
  unfold renderCursor
  rw [hpp]
  refine Local.ite (fun _ => (Local.refl s).st ?_) fun _ => Local.refl s
  exact backtab_row (by simp only [backtab]; omega) (by simp only [backtab]; omega)

theorem rd_ppTmp_renderCount {i : ℕ} (status : ℕ) (hi : i < 8)
    (hpp : s.rd ppTmp = 20 * (4 + i) + 2) :
    (renderCount status s).rd ppTmp = 20 * (4 + i) + 2 := by
  unfold renderCount
  split
  · exact hpp
  · rw [Cpu.rd_st, hpp, if_neg]
    simp only [ppTmp, backtab]
    omega

theorem local_sesRenderRow {i : ℕ} (hi : i < 8) : Local RowCell s (sesRenderRow i s) := by
  have hput : ∀ u, Local RowCell u
      (uiPrintn (20 * (4 + i) + 2) (lobbyCache + 1 + 9 * i) 8 u) :=
    fun u => Local.uiPrintn screen_row (Local.refl u) (by omega)
  have hpp' : ∀ u : Cpu,
      (uiPrintn (20 * (4 + i) + 2) (lobbyCache + 1 + 9 * i) 8 u).rd ppTmp = u.rd ppTmp :=
    fun u => by
      refine (Local.uiPrintn (P := ScreenCell) (fun _ h => h) (Local.refl u) (by omega)).rd _ ?_
      decide
  simp only [sesRenderRow]
  set status := s.rd (lobbyCache + 1 + 9 * i + 8)
  have h0 : Local RowCell s (renderStart i status s) :=
    ((Local.refl s).st (by decide)).st (by decide)
  have hpp := rd_ppTmp_renderStart s status hi
  rw [hpp]
  have h1 := h0.trans (hput _)
  have hpp1 := (hpp' (renderStart i status s)).trans hpp
  have h2 := h1.trans (local_renderCount _ status hi hpp1)
  exact h2.trans (local_renderCursor _ hi (rd_ppTmp_renderCount _ status hi hpp1))

/-- The browser with at most eight entries. -/
theorem local_sesRender (h : s.rd lobbyCnt ≤ 8) : Local RowCell s (sesRender s) := by
  have hhead : Local ScreenCell s
      ((uiPrint rowPrompt "DISC/2/8  ENTER=PLAY" (s.st uiColor cWhite)).stAll
        (backtab + 20 * rowList) (List.replicate 160 0)) := by
    refine Local.screenAll (fun _ h => h) ?_ (by decide) (by rw [List.length_replicate]; decide)
    exact Local.uiPrint (fun _ h => h) ((Local.refl s).st (by decide)) (by decide)
  have hcnt := hhead.rd lobbyCnt (by decide)
  unfold sesRender
  refine (Local.rows (fun i hi t => local_sesRenderRow t ?_) (hhead.mono screen_row)).st
    (by decide)
  exact Nat.lt_of_lt_of_le (hcnt ▸ hi) h

theorem local_uiPrint {off : ℕ} (str : String) (hn : off + (codes str).length ≤ 240) :
    Local RowCell s (uiPrint off str s) :=
  Local.uiPrint screen_row (Local.refl s) hn

theorem local_uiCls : Local RowCell s (uiCls s) := Local.uiCls screen_row (Local.refl s)

/-- The waiting room of at most nine. -/
theorem local_sesRoomscr (h : s.rd roomCnt ≤ 9) (hpre : s.rd netActive = 0) :
    Local RowCell s (sesRoomscr s) := by
  have hhead : Local ScreenCell s
      ((uiPrint 20 "WAITING ROOM   OF 2" (uiPrint 0 "SOCCER NETPLAY" (uiCls s))).st
        (backtab + 20 + 13) (cardDigit ((uiPrint 20 "WAITING ROOM   OF 2"
          (uiPrint 0 "SOCCER NETPLAY" (uiCls s))).rd roomCnt) cWhite)) := by
    refine Local.st ?_ (by decide)
    refine Local.uiPrint (fun _ h => h) ?_ (by decide)
    refine Local.uiPrint (fun _ h => h) ?_ (by decide)
    exact Local.uiCls (fun _ h => h) (Local.refl s)
  have hroster := (hhead.mono screen_row).trans (local_sesRoster _
    (fun _ => by rw [hhead.rd roomCnt (by decide)]; exact h)
    fun hact => absurd ((hhead.rd netActive (by decide)).trans hpre) hact)
  unfold sesRoomscr
  exact Local.ite (fun _ => hroster.trans (local_uiPrint _ _ (by decide)))
    fun _ => hroster.trans (local_uiPrint _ _ (by decide))

/-- The roster. -/
def NameCell (a : ℕ) : Prop := nameTbl ≤ a ∧ a < nameTbl + 36

instance : DecidablePred NameCell := fun a => by unfold NameCell; infer_instance

theorem name_board {a : ℕ} (h : NameCell a) : BoardCell a := by
  unfold NameCell at h
  unfold BoardCell
  tauto

theorem local_cprSlot {src i : ℕ} (hi : i < 4) : Local NameCell s (cprSlot src i s) := by
  refine (Local.refl s).stAll fun x h1 h2 => ?_
  rw [Cpu.rdAll, List.length_append, List.length_map, List.length_range'] at h2
  simp only [List.length_cons, List.length_nil] at h1 h2
  exact ⟨by omega, by omega⟩

theorem local_sesCprGo (src : ℕ) : Local NameCell s (sesCprGo src s) :=
  Local.rows (fun _ hi t => local_cprSlot t hi) (Local.refl s)

end rows

end IntvNetplay.Console
