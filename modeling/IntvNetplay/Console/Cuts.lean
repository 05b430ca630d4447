import IntvNetplay.Console.Receive
import IntvNetplay.Console.Stores
import IntvNetplay.Machine.Scanner

/-!
# However the stream is cut

`SES_PUMP` is a scanner of the byte stream (`pumps_scan`): whatever reads the bytes arrive in, its slips and
its calls of `SES_ONFRAME` are those of the scanner `rounds` on the whole stream.  That needs the handlers
to leave the circular buffer alone, which an INPUT stored out of the rings does not (`Mannered`).
-/

namespace IntvNetplay.Console

open IntvNetplay.Machine

/-- What a round of the loop does: drop a byte, or call `SES_ONFRAME` on what is in `FRMBUF`. -/
inductive Round where
  | slip
  | frame (f : List ℕ)
  deriving DecidableEq

/-! ### The scanner -/

/-- What is at the head of the stream. -/
def roundHead : List ℕ → Option (Round × ℕ)
  | len :: type :: rest =>
    if flenOk len type = false then some (.slip, 1)
    else if rest.length + 2 < len + 1 then none
    else some (.frame ((len :: type :: rest).take (len + 1)), len + 1)
  | _ => none

def rounds : Scanner ℕ Round where
  head := roundHead
  takes {l b n} h := by
    match l with
    | [] => cases h
    | [_] => cases h
    | len :: type :: rest =>
      rw [roundHead] at h
      rw [List.length_cons, List.length_cons]
      split_ifs at h
      · cases h
        exact ⟨Nat.one_pos, by omega⟩
      · cases h
        exact ⟨Nat.succ_pos _, by omega⟩
  stays {l b n} m h := by
    match l with
    | [] => cases h
    | [_] => cases h
    | len :: type :: rest =>
      rw [roundHead] at h
      rw [List.cons_append, List.cons_append, roundHead]
      split_ifs at h with h1 h2
      · rw [if_pos h1]
        exact h
      · have htake : (len :: type :: (rest ++ m)).take (len + 1) =
            (len :: type :: rest).take (len + 1) := by
          have hlen : len + 1 ≤ (len :: type :: rest).length := by
            rw [List.length_cons, List.length_cons]
            omega
          exact List.take_append_of_le_length hlen
        rw [if_neg h1, if_neg (by rw [List.length_append]; omega), htake]
        exact h

/-- What waits is short of the longest frame. -/
theorem length_of_head_none {l : List ℕ} (h : rounds.head l = none) : l.length ≤ 99 := by
  match l with
  | [] => exact Nat.zero_le _
  | [_] => exact (by decide : 1 ≤ 99)
  | len :: type :: rest =>
    rw [show rounds.head (len :: type :: rest) = roundHead (len :: type :: rest) from rfl,
      roundHead] at h
    split_ifs at h with h1 h2
    have hle := (flenOk_le (Bool.not_eq_false _ ▸ h1)).1
    rw [List.length_cons, List.length_cons]
    omega

/-- A frame is found as such. -/
theorem roundHead_frame {f : List ℕ} (hf : Framed f) (rest : List ℕ) :
    roundHead (f ++ rest) = some (.frame f, f.length) := by
  have h2 := hf.two_le
  have hlen := hf.length
  have hok := hf.ok
  match f with
  | [] => exact absurd h2 (by decide)
  | [_] => exact absurd h2 (by decide : ¬ 2 ≤ 1)
  | len :: type :: f =>
    rw [List.length_cons, List.length_cons] at hlen
    simp only [List.getD_cons_zero, List.getD_cons_succ] at hlen hok
    have htake : (len :: type :: (f ++ rest)).take (len + 1) = len :: type :: f := by
      have hsame : len + 1 = (len :: type :: f).length := by
        rw [List.length_cons, List.length_cons]
        omega
      rw [hsame]
      exact List.take_left
    rw [List.cons_append, List.cons_append, roundHead, if_neg (by rw [hok]; decide),
      if_neg (by rw [List.length_append]; omega), htake]
    rw [List.length_cons, List.length_cons, hlen]

/-- The scanner on a sequence of frames and the beginning of another. -/
theorem scan_frames {fs : List (List ℕ)} (hf : ∀ f ∈ fs, Framed f) {l : List ℕ}
    (hl : rounds.head l = none) : rounds.scan (fs.flatten ++ l) = (fs.map .frame, l) := by
  induction fs with
  | nil => exact Scanner.scan_none hl
  | cons f fs ih =>
    have hhead : rounds.head ((f :: fs).flatten ++ l) = some (.frame f, f.length) := by
      rw [List.flatten_cons, List.append_assoc]
      exact roundHead_frame (hf f List.mem_cons_self) _
    have hdrop : ((f :: fs).flatten ++ l).drop f.length = fs.flatten ++ l := by
      rw [List.flatten_cons, List.append_assoc, List.drop_left]
    rw [Scanner.scan_some hhead, hdrop, ih fun g hg => hf g (List.mem_cons_of_mem f hg)]
    rfl

/-! ### What the console does -/

/-- The round that `@@pp_parse` makes here, with what is in `FRMBUF` at the call. -/
def roundOf (s : Cpu) : Round :=
  if flenOk (rxAt s 0) (rxAt s 1) = false then .slip
  else .frame ((ppExtract (rxAt s 0 + 1) s).rdAll frmbuf (rxAt s 0 + 1))

/-- The rounds of `ppLoop`. -/
def ppRounds : ℕ → Cpu → List Round
  | 0, _ => []
  | n + 1, s =>
    match ppParse s with
    | none => []
    | some t => roundOf s :: ppRounds n t

theorem ppRounds_some (n : ℕ) {s t : Cpu} (h : ppParse s = some t) :
    ppRounds (n + 1) s = roundOf s :: ppRounds n t := by
  rw [ppRounds, h]

/-- The rounds of one `SES_PUMP`. -/
def sesRounds (p : Poll) (s : Cpu) : List Round := ppRounds 256 (sesFetch p s)

/-! ### Frames that keep to the rings -/

/-- The seat, the count and whether a match is on, as far as frames change them. -/
structure Setting where
  seat : ℕ
  count : ℕ
  active : Bool

def setting (s : Cpu) : Setting := ⟨s.rd netSeat, s.rd netCount, decide (s.rd netActive ≠ 0)⟩

/-- A START sets all three. -/
def Setting.after (g : Setting) : Round → Setting
  | .slip => g
  | .frame f => if f.getD 1 0 = ftStart then ⟨f.getD 2 0, f.getD 3 0, true⟩ else g

/-- An INPUT names one of the four seats, or one that is not taken.  A ROOM that is shown has a row of the
screen for every name: behind the screen is the stack, which is no part of the model. -/
def Setting.Allows (g : Setting) : Round → Prop
  | .slip => True
  | .frame f =>
    (f.getD 1 0 = ftInput → f.getD 2 0 < 4 ∨ f.getD 2 0 = g.seat ∨ g.count ≤ f.getD 2 0) ∧
      (f.getD 1 0 = ftRoom → g.active = true ∨ f.getD 2 0 ≤ 9)

def Mannered : Setting → List Round → Prop
  | _, [] => True
  | g, r :: rs => g.Allows r ∧ Mannered (g.after r) rs

theorem mannered_append {g : Setting} {l m : List Round} :
    Mannered g (l ++ m) ↔ Mannered g l ∧ Mannered (l.foldl Setting.after g) m := by
  induction l generalizing g with
  | nil => exact (and_iff_right trivial).symm
  | cons r l ih =>
    rw [List.cons_append, Mannered, Mannered, ih, List.foldl_cons]
    exact and_assoc.symm

/-- What a frame other than START may change. -/
def CalmCell (a : ℕ) : Prop :=
  InputCell a ∨ BoardCell a ∨ LeftCell a ∨ PaintCell a ∨ WantCell a ∨ StateCell a

instance : DecidablePred CalmCell := fun a => by unfold CalmCell; infer_instance

theorem not_rxCell_calm {a : ℕ} (h : RxCell a) : ¬ CalmCell a := by
  have hstate := not_rxCell_state h
  simp only [RxCell, rxWr, rxRd, rxacc] at h
  simp only [CalmCell, hstate, or_false]
  simp only [InputCell, RingCell, WmCell, BoardCell, ScreenCell, LeftCell, PaintCell, RoomCell, RowCell,
    NameCell, WantCell, MailCell, backtab, uiColor, ppTmp, menuSel, lobbyCnt, roomCnt, roomHost,
    leftSeat, leftName, nameTbl, lobbyCache, seatRing, seatWm, peerWhy, netDropped, rsPend, rsPtmo]
  omega

section handlers

variable {s : Cpu}

/-- A row painted at any offset stays below the cart's RAM. -/
theorem local_sesRenderRow_any (i : ℕ) : Local PaintCell s (sesRenderRow i s) := by
  have hcell : ∀ {t : Cpu} {k : ℕ}, k ≤ 0x20 → PaintCell (backtab + t.rd ppTmp + k - 2) := by
    intro t k hk
    have hpp : t.rd ppTmp < 256 := t.rd_lt_256 (by decide)
    simp only [PaintCell, backtab]
    omega
  have hname : ∀ t : Cpu, Local PaintCell t (uiPrintn (t.rd ppTmp) (lobbyCache + 1 + 9 * i) 8 t) := by
    intro t
    have hpp : t.rd ppTmp < 256 := t.rd_lt_256 (by decide)
    have hl := field_length_le t (lobbyCache + 1 + 9 * i) 8
    exact (Local.refl t).uiPut fun x h1 h2 => by
      simp only [backtab] at h1 h2
      exact Or.inl ⟨by omega, by omega⟩
  have hcount : ∀ (t : Cpu) (status : ℕ), Local PaintCell t (renderCount status t) := fun t status => by
    have h := hcell (t := t) (k := 11) (by decide)
    refine Local.ite (fun _ => Local.refl t) fun _ => (Local.refl t).st ?_
    rw [Nat.add_right_comm]
    exact h
  have hcursor : ∀ t : Cpu, Local PaintCell t (renderCursor i t) := fun t => by
    have h := hcell (t := t) (k := 0) (by decide)
    exact Local.ite (fun _ => (Local.refl t).st h) fun _ => Local.refl t
  simp only [sesRenderRow]
  have hstart : ∀ status, Local PaintCell s (renderStart i status s) := fun status =>
    ((Local.refl s).st (by decide)).st (by decide)
  exact (((hstart _).trans (hname _)).trans (hcount _ _)).trans (hcursor _)

theorem local_sesRender_any : Local PaintCell s (sesRender s) := by
  have hhead : Local PaintCell s
      ((uiPrint rowPrompt "DISC/2/8  ENTER=PLAY" (s.st uiColor cWhite)).stAll
        (backtab + 20 * rowList) (List.replicate 160 0)) := by
    refine Local.screenAll screen_paint ?_ (by decide) (by rw [List.length_replicate]; decide)
    exact Local.uiPrint screen_paint ((Local.refl s).st (by decide)) (by decide)
  unfold sesRender
  exact (Local.rows (fun i _ t => local_sesRenderRow_any i) hhead).st (by decide)

theorem within_onInput_mannered (h : s.rd (frmbuf + 2) < 4 ∨ s.rd (frmbuf + 2) = s.rd netSeat ∨
    s.rd netCount ≤ s.rd (frmbuf + 2)) : Within InputCell s (onInput s) := by
  unfold onInput
  refine Within.ite (fun _ => Within.refl s) fun _ => ?_
  refine Within.ite (fun _ => Within.refl s) fun hown => ?_
  refine Within.ite (fun _ => Within.refl s) fun hc => ?_
  refine Within.ite (fun _ => (Within.refl s).emit) fun _ => ?_
  refine (Within.refl s).emit.withMark.trans (within_takeInput _ ?_)
  exact (h.resolve_right fun h' => h'.elim hown hc)

theorem within_onRoom_wide : Within PaintCell s (onRoom s) := by
  have hbase : Within PaintCell s
      ((s.emit (.room (s.rd (frmbuf + 2)))).st roomCnt (s.rd (frmbuf + 2))) :=
    (Within.refl s).emit.st (by decide)
  have hleave : ∀ t : Cpu, Local PaintCell t (leaveRoom t) := fun t => by
    have hclear : Local PaintCell t (uiPrint 0 "SOCCER NETPLAY" (uiCls ((t.st roomCnt 0).st roomHost 0))) :=
      Local.uiPrint screen_paint (Local.uiCls screen_paint
        (((Local.refl t).st (by decide)).st (by decide))) (by decide)
    exact hclear.trans local_sesRender_any
  unfold onRoom
  refine Within.ite (fun _ => Within.refl s) fun _ => ?_
  refine Within.ite (fun _ => Within.refl s) fun _ => ?_
  exact Within.ite (fun _ => hbase.trans (hleave _).within)
    fun _ => hbase.trans (local_showRoom_any _).within

/-- A frame other than START. -/
theorem within_calm {f : List ℕ} (h2 : s.rd (frmbuf + 1) = f.getD 1 0)
    (h3 : s.rd (frmbuf + 1) = ftInput → s.rd (frmbuf + 2) = f.getD 2 0)
    (ha : (setting s).Allows (.frame f)) (hne : f.getD 1 0 ≠ ftStart) :
    Within CalmCell s (sesOnframe s) := by
  have hinput : s.rd (frmbuf + 1) = ftInput → s.rd (frmbuf + 2) < 4 ∨
      s.rd (frmbuf + 2) = s.rd netSeat ∨ s.rd netCount ≤ s.rd (frmbuf + 2) := fun h => by
    rw [h3 h]
    exact ha.1 (h2 ▸ h)
  simp only [sesOnframe]
  split_ifs with h h h h h h h h
  · exact (within_onInput_mannered (hinput h)).mono fun _ => Or.inl
  · exact (local_onLobby s).within.mono fun _ h => Or.inr (Or.inl h)
  · exact absurd (h2 ▸ h) hne
  · exact (local_onPeerLeft s).within.mono fun _ h => Or.inr (Or.inr (Or.inl h))
  · exact within_onRoom_wide.mono fun _ h => Or.inr (Or.inr (Or.inr (Or.inl h)))
  · exact (within_rsOnCrc s).mono fun _ h => Or.inr (Or.inr (Or.inr (Or.inr (Or.inl h))))
  · exact (within_rsOnState s).mono fun _ h => Or.inr (Or.inr (Or.inr (Or.inr (Or.inr h))))
  · exact (within_rsOnReq s).mono fun _ h => Or.inr (Or.inr (Or.inr (Or.inr (Or.inl h))))
  · exact Within.refl s

/-- Handling an allowed frame leaves the buffer alone, and changes the setting as the frame says. -/
theorem calm_frame {f : List ℕ} (hframed : Framed f) (hf : InFrmbuf f s)
    (ha : (setting s).Allows (.frame f)) :
    KeepsRx s ∧ setting (sesOnframe s) = (setting s).after (.frame f) := by
  have h2 := hframed.two_le
  have hlen := hframed.length
  have hok := flenOk_le hframed.ok
  have htype : s.rd (frmbuf + 1) = f.getD 1 0 := hf 1 (by omega)
  by_cases hst : f.getD 1 0 = ftStart
  · -- Its length byte is 38.
    have hmin : 38 ≤ f.getD 0 0 := by
      have hle := hok.2.2.1
      rw [hst] at hle
      exact hle
    have hstart : s.rd (frmbuf + 1) = ftStart := htype.trans hst
    have h0 : s.rd frmbuf = f.getD 0 0 := hf 0 (by omega)
    refine ⟨keepsRx_start hstart, ?_⟩
    rw [Setting.after, if_pos hst, sesOnframe_start hstart]
    simp only [setting]
    rw [rd_onStart (by omega), rd_onStart (by omega), rd_onStart (by omega), rd_netSeat_takeStart,
      rd_netCount_takeStart, rd_netActive_takeStart, hf 2 (by omega), hf 3 (by omega)]
    rfl
  · have hwithin := within_calm htype (fun hin => hf 2 (by
      have hmin : 6 ≤ f.getD 0 0 := by
        have hle := hok.2.2.1
        rw [← htype, hin] at hle
        exact hle
      omega)) ha hst
    refine ⟨fun a hrx => hwithin.rd a (not_rxCell_calm hrx), ?_⟩
    rw [Setting.after, if_neg hst]
    simp only [setting]
    rw [hwithin.rd netSeat (by decide), hwithin.rd netCount (by decide),
      hwithin.rd netActive (by decide)]

end handlers

/-! ### A round -/

section rounds

variable {s : Cpu}

theorem rxBytes_cons (h : 2 ≤ buffered s) : ∃ rest, rxBytes s = rxAt s 0 :: rxAt s 1 :: rest ∧
    rest.length + 2 = buffered s := by
  obtain ⟨n, hn⟩ : ∃ n, buffered s = n + 2 := ⟨buffered s - 2, by omega⟩
  refine ⟨(List.range n).map fun i => rxAt s (i + 2), ?_, by rw [List.length_map, List.length_range, hn]⟩
  rw [rxBytes, hn, List.range_succ_eq_map, List.range_succ_eq_map]
  simp only [List.map_cons, List.map_map]
  rfl

/-- What waits makes the loop wait, and the other way round. -/
theorem ppParse_none : ppParse s = none ↔ rounds.head (rxBytes s) = none := by
  have hhead : rounds.head (rxBytes s) = roundHead (rxBytes s) := rfl
  rw [hhead, ppParse]
  by_cases h2 : buffered s < 2
  · have hlen : (rxBytes s).length < 2 := by
      rw [length_rxBytes]
      exact h2
    rw [if_pos h2]
    refine iff_of_true rfl ?_
    cases hb : rxBytes s with
    | nil => rfl
    | cons b l =>
      cases l with
      | nil => rfl
      | cons b' l =>
        rw [hb, List.length_cons, List.length_cons] at hlen
        omega
  · obtain ⟨rest, hrx, hrest⟩ := rxBytes_cons (Nat.le_of_not_lt h2)
    rw [if_neg h2, hrx, roundHead]
    by_cases hok : flenOk (rxAt s 0) (rxAt s 1) = false
    · rw [if_pos hok, if_pos hok]
      exact iff_of_false (by simp) (by simp)
    · rw [if_neg hok, if_neg hok, hrest]
      by_cases hl : buffered s < rxAt s 0 + 1
      · rw [if_pos hl, if_pos hl]
        exact iff_of_true rfl rfl
      · rw [if_neg hl, if_neg hl]
        exact iff_of_false (by simp) (by simp)

/-- A slip drops a byte of the stream. -/
theorem rxBytes_ppSlip (h : 1 ≤ buffered s) : rxBytes (ppSlip s) = (rxBytes s).drop 1 := by
  rw [← rxBytes_ppExtract s (by decide) h]
  refine rxBytes_congr fun a ha => ?_
  have hne : a ≠ diagSlip := by
    simp only [RxCell, rxWr, rxRd, rxacc, diagSlip] at *
    omega
  have hslip : (ppSlip s).rd a = (s.st rxRd ((s.rd rxRd + 1) % 256)).rd a := by
    rw [ppSlip, diagBump]
    split_ifs
    · rfl
    · rw [Cpu.rd_st, if_neg hne]
  rw [hslip, ppExtract, Cpu.rd_st, Cpu.rd_st, Cpu.rd_stAll_of_not]
  rw [List.length_map, List.length_range]
  simp only [RxCell, rxWr, rxRd, rxacc, frmbuf] at *
  omega

/-- What `FRMBUF` holds at the call of `SES_ONFRAME`. -/
theorem rdAll_ppExtract {n : ℕ} (hn : n ≤ 0x80) (hb : n ≤ buffered s) :
    (ppExtract n s).rdAll frmbuf n = (rxBytes s).take n := by
  refine List.ext_getElem (by simp [Cpu.rdAll, hb]) fun i h h' => ?_
  have hi : i < n := by simpa [Cpu.rdAll] using h
  rw [List.getElem_take, getElem_rxBytes, ← rd_frmbuf_ppExtract s hn hi]
  simp [Cpu.rdAll]

theorem setting_local {P : ℕ → Prop} {t : Cpu} (h : Local P s t) (h1 : ¬ P netSeat) (h2 : ¬ P netCount)
    (h3 : ¬ P netActive) : setting t = setting s := by
  rw [setting, setting, h.rd _ h1, h.rd _ h2, h.rd _ h3]

/-- A round of the loop is a step of the scanner. -/
theorem ppParse_some {t : Cpu} (h : ppParse s = some t) : ∃ k,
    rounds.head (rxBytes s) = some (roundOf s, k) ∧ ((setting s).Allows (roundOf s) →
      rxBytes t = (rxBytes s).drop k ∧ setting t = (setting s).after (roundOf s)) := by
  obtain ⟨h2, hcases⟩ := ppParse_cases h
  obtain ⟨rest, hrx, hrest⟩ := rxBytes_cons h2
  have hhead : rounds.head (rxBytes s) = roundHead (rxBytes s) := rfl
  obtain ⟨hno, rfl⟩ | ⟨hok, hl, rfl⟩ := hcases
  · have hround : roundOf s = .slip := by rw [roundOf, if_pos hno]
    refine ⟨1, ?_, fun _ => ⟨rxBytes_ppSlip (by omega), ?_⟩⟩
    · rw [hhead, hround, hrx, roundHead, if_pos hno]
    · rw [hround]
      exact setting_local (local_ppSlip s) (by decide) (by decide) (by decide)
  · have hle := (flenOk_le hok).1
    have hext := local_ppExtract_frame hok
    have hround : roundOf s = .frame ((rxBytes s).take (rxAt s 0 + 1)) := by
      rw [roundOf, if_neg (by rw [hok]; decide), rdAll_ppExtract (by omega) hl]
    have hset : setting (ppExtract (rxAt s 0 + 1) s) = setting s :=
      setting_local hext (by decide) (by decide) (by decide)
    -- What is in `FRMBUF` is a frame.
    have hget : ∀ i < rxAt s 0 + 1, ((rxBytes s).take (rxAt s 0 + 1)).getD i 0 = rxAt s i := by
      intro i hi
      rw [List.getD_eq_getElem _ _ (by rw [List.length_take, length_rxBytes]; omega), List.getElem_take,
        getElem_rxBytes]
    have hlen : ((rxBytes s).take (rxAt s 0 + 1)).length = rxAt s 0 + 1 := by
      rw [List.length_take, length_rxBytes]
      omega
    have hmin : ∀ t < 0x10, sesFlen.getD t 0 ≠ 0 → 1 ≤ sesFlen.getD t 0 % 256 := by decide
    have hpos : 1 ≤ rxAt s 0 := by
      have hflen := hok
      simp only [flenOk, decide_eq_true_eq] at hflen
      have := hmin _ hflen.1 hflen.2.1
      omega
    have hframed : Framed ((rxBytes s).take (rxAt s 0 + 1)) := by
      refine ⟨?_, ?_, fun b hb => mem_rxBytes_lt (List.mem_of_mem_take hb)⟩
      · rw [hlen, hget 0 (by omega)]
      · rw [hget 0 (by omega), hget 1 (by omega)]
        exact hok
    have hin : InFrmbuf ((rxBytes s).take (rxAt s 0 + 1)) (ppExtract (rxAt s 0 + 1) s) := by
      intro i hi
      rw [hlen] at hi
      rw [rd_frmbuf_ppExtract s (by omega) hi, hget i hi]
    refine ⟨rxAt s 0 + 1, ?_, fun ha => ?_⟩
    · rw [hhead, hround, hrx, roundHead, if_neg (by rw [hok]; decide), if_neg (by omega)]
    · rw [hround] at ha ⊢
      obtain ⟨hkeep, hset'⟩ := calm_frame hframed hin (hset ▸ ha)
      refine ⟨(rxBytes_congr hkeep).trans (rxBytes_ppExtract s (by omega) hl), ?_⟩
      rw [hset', hset]

end rounds

/-! ### A pump, and a run of pumps -/

/-- What the loop does to the bytes in the buffer. -/
structure Looped (s : Cpu) (rs : List Round) (t : Cpu) : Prop where
  rounds : rs = (rounds.scan (rxBytes s)).1
  rest : rxBytes t = (Console.rounds.scan (rxBytes s)).2
  setting : setting t = rs.foldl Setting.after (Console.setting s)

theorem looped_ppLoop (n : ℕ) {s : Cpu} (hn : buffered s ≤ n)
    (hm : Mannered (setting s) (rounds.scan (rxBytes s)).1) :
    Looped s (ppRounds n s) (ppLoop n s) := by
  induction n generalizing s with
  | zero =>
    have hnil : rxBytes s = [] := List.length_eq_zero_iff.1 (by rw [length_rxBytes]; omega)
    have hscan : rounds.scan [] = ([], []) := Scanner.scan_none rfl
    exact ⟨by rw [hnil, hscan]; rfl, by rw [ppLoop, hnil, hscan], rfl⟩
  | succ n ih =>
    rw [ppRounds, ppLoop]
    cases hp : ppParse s with
    | none =>
      have hscan := Scanner.scan_none (ppParse_none.1 hp)
      exact ⟨by rw [hscan], by rw [hscan], rfl⟩
    | some t =>
      obtain ⟨k, hhead, hnext⟩ := ppParse_some hp
      have hscan := Scanner.scan_some hhead
      rw [hscan, Mannered] at hm
      obtain ⟨hrx, hset⟩ := hnext hm.1
      have hk := rounds.takes hhead
      have hlen : buffered t ≤ n := by
        rw [← length_rxBytes, hrx, List.length_drop]
        rw [length_rxBytes] at hk ⊢
        omega
      obtain ⟨h1, h2, h3⟩ := ih hlen (by rw [hset, hrx]; exact hm.2)
      rw [hrx] at h1 h2
      dsimp only
      refine ⟨?_, ?_, ?_⟩
      · rw [h1, hscan]
      · rw [h2, hscan]
      · rw [h3, hset, List.foldl_cons]

/-- Code that leaves the buffer and the setting alone. -/
structure Spares (t u : Cpu) : Prop where
  rx : ∀ a, RxCell a → u.rd a = t.rd a
  setting : setting u = setting t

/-- Pumps from `s` on, and other code in between: the bytes that their reads returned, and their rounds. -/
inductive Pumps (s : Cpu) : List ℕ → List Round → Cpu → Prop
  | start : Pumps s [] [] s
  | pump {bs : List ℕ} {rs : List Round} {t : Cpu} (h : Pumps s bs rs t) (p : Poll)
      (hread : (delivered p t).length ≤ 64) :
      Pumps s (bs ++ delivered p t) (rs ++ sesRounds p t) (sesPump p t)
  | other {bs : List ℕ} {rs : List Round} {t : Cpu} (h : Pumps s bs rs t) (u : Cpu) (hu : Spares t u) :
      Pumps s bs rs u

/-- What the pumps have made of a stream. -/
structure Scanned (s : Cpu) (bs : List ℕ) (rs : List Round) (t : Cpu) : Prop where
  rounds : rs = (rounds.scan bs).1
  rest : rxBytes t = (Console.rounds.scan bs).2
  setting : setting t = rs.foldl Setting.after (Console.setting s)

section pumps

variable {s t : Cpu} {bs : List ℕ} {rs : List Round}

theorem Scanned.buffered_le (h : Scanned s bs rs t) : buffered t ≤ 99 := by
  rw [← length_rxBytes, h.rest]
  exact length_of_head_none (Scanner.head_rest bs)

theorem Scanned.fetched (h : Scanned s bs rs t) {p : Poll} (hread : (delivered p t).length ≤ 64) :
    rxBytes (sesFetch p t) = rxBytes t ++ delivered p t ∧ buffered (sesFetch p t) ≤ 163 := by
  have hb := h.buffered_le
  have hrx : rxBytes (sesFetch p t) = rxBytes t ++ delivered p t := rxBytes_sesFetch (by omega)
  refine ⟨hrx, ?_⟩
  rw [← length_rxBytes, hrx, List.length_append, length_rxBytes]
  omega

/-- The condition, where the loop begins. -/
theorem Scanned.mannered (h : Scanned s bs rs t) {p : Poll} (hread : (delivered p t).length ≤ 64)
    (hm : Mannered (Console.setting s) (Console.rounds.scan (bs ++ delivered p t)).1) :
    Mannered (Console.setting (sesFetch p t)) (Console.rounds.scan (rxBytes (sesFetch p t))).1 := by
  have hset : Console.setting (sesFetch p t) = rs.foldl Setting.after (Console.setting s) :=
    (setting_local (local_sesFetch p t) (by decide) (by decide) (by decide)).trans h.setting
  rw [Scanner.scan_append, mannered_append, ← h.rounds] at hm
  rw [hset, (h.fetched hread).1, h.rest]
  exact hm.2

/-- One more pump. -/
theorem Scanned.pump (h : Scanned s bs rs t) {p : Poll} (hread : (delivered p t).length ≤ 64)
    (hm : Mannered (Console.setting s) (Console.rounds.scan (bs ++ delivered p t)).1) :
    Looped (sesFetch p t) (sesRounds p t) (sesPump p t) ∧
      Scanned s (bs ++ delivered p t) (rs ++ sesRounds p t) (sesPump p t) := by
  obtain ⟨hrx, hb⟩ := h.fetched hread
  have hscan := Scanner.scan_append (P := Console.rounds) bs (delivered p t)
  have hset : Console.setting (sesFetch p t) = rs.foldl Setting.after (Console.setting s) :=
    (setting_local (local_sesFetch p t) (by decide) (by decide) (by decide)).trans h.setting
  have hloop : Looped (sesFetch p t) (sesRounds p t) (sesPump p t) :=
    looped_ppLoop 256 (by omega) (h.mannered hread hm)
  refine ⟨hloop, ?_, ?_, ?_⟩
  · rw [hloop.rounds, hscan, hrx, h.rest, ← h.rounds]
  · rw [hloop.rest, hscan, hrx, h.rest]
  · rw [hloop.setting, hset, List.foldl_append]

/-- Whatever the cuts, the pumps do what the scanner does. -/
theorem pumps_scan (h0 : buffered s = 0) (h : Pumps s bs rs t)
    (hm : Mannered (setting s) (rounds.scan bs).1) : Scanned s bs rs t := by
  induction h with
  | start =>
    have hscan : rounds.scan [] = ([], []) := Scanner.scan_none rfl
    have hnil : rxBytes s = [] := List.length_eq_zero_iff.1 (by rw [length_rxBytes, h0])
    exact ⟨by rw [hscan], by rw [hscan, hnil], rfl⟩
  | @pump bs rs t h p hread ih =>
    have hbefore := hm
    rw [Scanner.scan_append, mannered_append] at hbefore
    exact ((ih hbefore.1).pump hread hm).2
  | other h u hu ih =>
    have hs := ih hm
    exact ⟨hs.rounds, (rxBytes_congr hu.rx).trans hs.rest, hu.setting.trans hs.setting⟩

/-- Where a beginning of a sequence of frames ends. -/
theorem split_frames {fs : List (List ℕ)} {unread : List ℕ} (h : bs ++ unread = fs.flatten) :
    ∃ gs hs l, fs = gs ++ hs ∧ bs = gs.flatten ++ l ∧ l ++ unread = hs.flatten ∧
      ∀ f ∈ hs.head?, l.length < f.length := by
  induction fs generalizing bs with
  | nil =>
    exact ⟨[], [], bs, rfl, rfl, h, fun f hf => by cases hf⟩
  | cons f fs ih =>
    by_cases hl : f.length ≤ bs.length
    · obtain ⟨hsplit, hrest⟩ := head_of_stream h hl
      obtain ⟨gs, hs, l, hfs, hbs, hun, hhead⟩ := ih hrest
      refine ⟨f :: gs, hs, l, by rw [hfs]; rfl, ?_, hun, hhead⟩
      rw [hsplit, hbs, List.flatten_cons, List.append_assoc]
    · exact ⟨[], f :: fs, bs, rfl, rfl, h, fun g hg => by
        cases hg
        omega⟩

/-- The beginning of a frame waits. -/
theorem head_part {f l : List ℕ} (hf : Framed f) (hl : l.length < f.length) (hpre : l = f.take l.length) :
    rounds.head l = none := by
  have hlen := hf.length
  have hok := hf.ok
  match l, f, hpre with
  | [], _, _ => rfl
  | [_], _, _ => rfl
  | len :: type :: l, [], hpre => cases hpre
  | len :: type :: l, [_], hpre => exact absurd hl (by simp)
  | len :: type :: l, len' :: type' :: f, hpre =>
    simp only [List.length_cons, List.take_succ_cons, List.cons.injEq] at hpre hl hlen
    obtain ⟨rfl, rfl, -⟩ := hpre
    simp only [List.getD_cons_zero, List.getD_cons_succ] at hlen hok
    rw [show rounds.head (len :: type :: l) = roundHead (len :: type :: l) from rfl, roundHead,
      if_neg (by rw [hok]; decide), if_pos (by omega)]

/-- The loop only takes bytes out. -/
theorem buffered_ppLoop (n : ℕ) {u : Cpu} (hm : Mannered (setting u) (rounds.scan (rxBytes u)).1) :
    buffered (ppLoop n u) ≤ buffered u := by
  induction n generalizing u with
  | zero => exact le_refl _
  | succ n ih =>
    rw [ppLoop]
    cases hp : ppParse u with
    | none => exact le_refl _
    | some v =>
      obtain ⟨k, hhead, hnext⟩ := ppParse_some hp
      rw [Scanner.scan_some hhead, Mannered] at hm
      obtain ⟨hrx, hset⟩ := hnext hm.1
      refine (ih (by rw [hset, hrx]; exact hm.2)).trans ?_
      rw [← length_rxBytes, hrx, List.length_drop, length_rxBytes]
      exact Nat.sub_le _ _

theorem frame_le {u : Cpu} (n : ℕ) {f : List ℕ} (hf : Round.frame f ∈ ppRounds n u) : f.length ≤ 100 := by
  induction n generalizing u with
  | zero => cases hf
  | succ n ih =>
    rw [ppRounds] at hf
    cases hp : ppParse u with
    | none =>
      rw [hp] at hf
      cases hf
    | some v =>
      rw [hp] at hf
      obtain heq | hf := List.mem_cons.1 hf
      · rw [roundOf] at heq
        split_ifs at heq with hok
        cases heq
        have hle := (flenOk_le (Bool.not_eq_false _ ▸ hok)).1
        rw [Cpu.rdAll, List.length_map, List.length_range']
        omega
      · exact ih hf

theorem frame_le_pumps (h : Pumps s bs rs t) {f : List ℕ} (hf : Round.frame f ∈ rs) : f.length ≤ 100 := by
  induction h with
  | start => cases hf
  | pump h p hread ih =>
    obtain hf | hf := List.mem_append.1 hf
    · exact ih hf
    · exact frame_le 256 hf
  | other h u hu ih => exact ih hf

end pumps

/-- **Framing does not depend on the cuts.**  Pumps that find the buffer empty at first, and take a stream
in reads of any sizes up to 64: of a sequence of frames they handle those that have arrived whole, each once
and in order, and never slip.  Of any stream they keep at most 99 bytes, at most 163 while they work, copy at
most 100 at a time, and stop where nothing more is to be found. -/
theorem framing_of_cuts {s t : Cpu} {bs : List ℕ} {rs : List Round} (h0 : buffered s = 0)
    (h : Pumps s bs rs t) (hm : Mannered (setting s) (rounds.scan bs).1) :
    (∀ (fs : List (List ℕ)) (unread : List ℕ), (∀ f ∈ fs, Framed f) → bs ++ unread = fs.flatten →
      ∃ gs hs : List (List ℕ), fs = gs ++ hs ∧ rs = gs.map .frame ∧
        rxBytes t ++ unread = hs.flatten ∧ ∀ f ∈ hs.head?, buffered t < f.length) ∧
    rs = (rounds.scan bs).1 ∧ buffered t ≤ 99 ∧ (∀ f, .frame f ∈ rs → f.length ≤ 100) ∧
    ∀ p, (delivered p t).length ≤ 64 → Mannered (setting s) (rounds.scan (bs ++ delivered p t)).1 →
      rxBytes (sesFetch p t) = rxBytes t ++ delivered p t ∧
      (∀ k, buffered (((delivered p t).take k).foldl rxPut (sesRead p t)) ≤ 163) ∧
      (∀ k, buffered (ppLoop k (sesFetch p t)) ≤ 163) ∧ ppParse (sesPump p t) = none := by
  have hscanned := pumps_scan h0 h hm
  refine ⟨fun fs unread hf hstream => ?_, hscanned.rounds, hscanned.buffered_le,
    fun f hf => frame_le_pumps h hf, fun p hread hmore => ?_⟩
  · obtain ⟨gs, hs, l, hfs, hbs, hun, hhead⟩ := split_frames hstream
    have hwait : rounds.head l = none := by
      cases hs with
      | nil =>
        rw [List.flatten_nil, List.append_eq_nil_iff] at hun
        rw [hun.1]
        rfl
      | cons f hs =>
        have hlt := hhead f rfl
        exact head_part (hf f (by rw [hfs]; simp)) hlt (prefix_of_stream hun hlt)
    have hscan : rounds.scan bs = (gs.map .frame, l) := by
      rw [hbs]
      exact scan_frames (fun g hg => hf g (by rw [hfs]; exact List.mem_append_left _ hg)) hwait
    have hrest : rxBytes t = l := by rw [hscanned.rest, hscan]
    refine ⟨gs, hs, hfs, by rw [hscanned.rounds, hscan], by rw [hrest]; exact hun, fun f hf => ?_⟩
    rw [← length_rxBytes, hrest]
    exact hhead f hf
  · obtain ⟨hrx, hb⟩ := hscanned.fetched hread
    obtain ⟨hloop, hnext⟩ := hscanned.pump hread hmore
    refine ⟨hrx, fun k => ?_, fun k => ?_, ?_⟩
    · have hkept := hscanned.buffered_le
      have hempty : buffered (sesRead p t) = buffered t := by
        rw [← length_rxBytes, rxBytes_sesRead, length_rxBytes]
      have htake : ((delivered p t).take k).length ≤ 64 := by
        rw [List.length_take]
        omega
      rw [← length_rxBytes, rxBytes_foldl _ (fun b hb => delivered_lt (List.mem_of_mem_take hb)) (by omega),
        List.length_append, length_rxBytes]
      omega
    · exact (buffered_ppLoop k (hscanned.mannered hread hmore)).trans hb
    · rw [ppParse_none, hnext.rest]
      exact Scanner.head_rest _

/-- A memory of zeros. -/
def zeroCpu : Cpu := ⟨⟨fun _ => 0, zero_lt_cell⟩, ⟨fun _ => 0, 0⟩, [], [], [],
  ⟨0, 0, 0, false, false, fun _ => 0⟩⟩

def pong : List ℕ := [1, 0x0D]

theorem framed_pong : Framed pong := ⟨by decide, by decide, by decide⟩

/-- Two PONG frames in reads of three bytes and of one. -/
theorem framing_of_cuts_pong : ∃ rs t, Pumps zeroCpu [1, 0x0D, 1, 0x0D] rs t ∧
    rs = [.frame pong, .frame pong] := by
  have hone : ∀ {t : Cpu}, delivered (.gives [1, 0x0D, 1]) t = [1, 0x0D, 1] :=
    delivered_gives (by decide) (by decide) (by decide)
  have htwo : ∀ {t : Cpu}, delivered (.gives [0x0D]) t = [0x0D] :=
    delivered_gives (by decide) (by decide) (by decide)
  have hfirst : Pumps zeroCpu _ _ _ := .pump .start (.gives [1, 0x0D, 1]) (by rw [hone]; decide)
  have hrun : Pumps zeroCpu _ _ _ := .pump hfirst (.gives [0x0D]) (by rw [htwo]; decide)
  rw [hone, htwo] at hrun
  have hscan : rounds.scan ([pong, pong].flatten ++ []) = ([.frame pong, .frame pong], []) :=
    scan_frames (fun f hf => by simp at hf; exact hf ▸ framed_pong) rfl
  have hm : Mannered (setting zeroCpu) (rounds.scan [1, 0x0D, 1, 0x0D]).1 := by
    have heq : rounds.scan [1, 0x0D, 1, 0x0D] = ([.frame pong, .frame pong], []) := hscan
    have hallows : ∀ g : Setting, g.Allows (.frame pong) := fun g =>
      ⟨fun hin => absurd hin (by decide), fun hroom => absurd hroom (by decide)⟩
    rw [heq]
    exact ⟨hallows _, hallows _, trivial⟩
  have hcut := (framing_of_cuts (by decide) hrun hm).2.1
  exact ⟨_, _, hrun, hcut.trans (congrArg Prod.fst hscan)⟩

/-! ### An INPUT in the buffer -/

theorem rd_rxRd_sesFetch (p : Poll) (s : Cpu) : (sesFetch p s).rd rxRd = s.rd rxRd := by
  have hput : ∀ (l : List ℕ) (t : Cpu), (l.foldl rxPut t).rd rxRd = t.rd rxRd := by
    intro l
    induction l with
    | nil => exact fun t => rfl
    | cons b l ih =>
      intro t
      have hne : rxRd ≠ rxacc + t.rd rxWr := by
        simp only [rxRd, rxacc]
        omega
      rw [List.foldl_cons, ih, rxPut, Cpu.rd_st, if_neg (by decide), Cpu.rd_st, if_neg hne]
  rw [sesFetch_eq, hput]
  exact (local_sesRead p s).rd _ (by decide)

theorem rd_rxRd_ppExtract (n : ℕ) (s : Cpu) : (ppExtract n s).rd rxRd = (s.rd rxRd + n) % 256 := by
  rw [ppExtract, Cpu.rd_st, if_pos rfl]
  exact Nat.mod_mod _ _

/-- The buffer begins at 210 for the next frames. -/
def lateCpu : Cpu := (zeroCpu.st rxRd 210).st rxWr 210

/-- An INPUT of seat 48, whose watermark is the first two cells of the buffer. -/
def inputOf48 : List ℕ := [6, ftInput, 48, 2, 0x0D, 0, 0]

theorem framed_inputOf48 : Framed inputOf48 := ⟨by decide, by decide, by decide⟩

/-- Where the watermark of seat 48 is, the bytes of a PONG. -/
theorem onInput_of_48 {v : Cpu} (hseat : v.rd netSeat = 0) (hcount : v.rd netCount = 255)
    (h0 : v.rd rxacc = 1) (h1 : v.rd (rxacc + 1) = 0x0D) (hf : InFrmbuf inputOf48 v) :
    onInput v = takeInput (noteHeard (v.emit (inputEv v true))) := by
  have hlen : v.rd frmbuf = 6 := hf 0 (by decide)
  have h2 : v.rd (frmbuf + 2) = 48 := hf 2 (by decide)
  have h3 : v.rd (frmbuf + 3) = 2 := hf 3 (by decide)
  have h4 : v.rd (frmbuf + 4) = 0x0D := hf 4 (by decide)
  have hwm : v.wm 48 = word 1 0x0D := by
    rw [Cpu.wm, Cpu.rd16]
    exact congrArg₂ word h0 h1
  have hdelta : inputDelta v = 1 := by
    rw [inputDelta, frameTick, Cpu.rd16, h2, h3, h4, hwm]
    decide
  simp only [onInput]
  rw [if_neg (by omega), if_neg (by omega), if_neg (by omega), if_neg (by rw [hdelta]; decide)]

/-- What it stores there. -/
theorem stored_of_48 {w : Cpu} (h2 : w.rd (frmbuf + 2) = 48) (h3 : w.rd (frmbuf + 3) = 2)
    (h4 : w.rd (frmbuf + 4) = 0x0D) : (takeInput w).rd rxacc = 2 ∧ (takeInput w).rd (rxacc + 1) = 0x0D ∧
      (takeInput w).rd rxWr = w.rd rxWr ∧ (takeInput w).rd rxRd = w.rd rxRd := by
  simp only [frmbuf] at h2 h3 h4
  simp [takeInput, h2, h3, h4, cellBits]

/-- The frames are a START with a count of 255, the INPUT of seat 48 and a PONG, all of them well formed,
and the pump slips. -/
theorem slip_of_48 : buffered lateCpu = 0 ∧ (∀ f ∈ [startOf255, inputOf48, pong], Framed f) ∧
    delivered (.gives (startOf255 ++ inputOf48 ++ pong)) lateCpu = startOf255 ++ inputOf48 ++ pong ∧
    sesRounds (.gives (startOf255 ++ inputOf48 ++ pong)) lateCpu ≠
      [.frame startOf255, .frame inputOf48, .frame pong] := by
  have hd : delivered (.gives (startOf255 ++ inputOf48 ++ pong)) lateCpu =
      startOf255 ++ inputOf48 ++ pong := delivered_gives (by decide) (by decide) (by decide)
  have hempty : buffered lateCpu = 0 := by decide
  have hnil : rxBytes lateCpu = [] := List.length_eq_zero_iff.1 (by rw [length_rxBytes, hempty])
  refine ⟨hempty, ?_, hd, ?_⟩
  · intro f hf
    simp only [List.mem_cons, List.not_mem_nil, or_false] at hf
    rcases hf with rfl | rfl | rfl
    · exact framed_startOf255
    · exact framed_inputOf48
    · exact framed_pong
  -- The START.
  set p : Poll := .gives (startOf255 ++ inputOf48 ++ pong) with hp
  have hrx : rxBytes (sesFetch p lateCpu) = startOf255 ++ (inputOf48 ++ pong) := by
    rw [rxBytes_sesFetch (by rw [hempty, hd]; decide), hnil, hd]
    rfl
  obtain ⟨hparse, hbuf, hrest⟩ := ppParse_frame framed_startOf255 hrx
  have hrd : (ppExtract startOf255.length (sesFetch p lateCpu)).rd rxRd = 249 := by
    rw [rd_rxRd_ppExtract, rd_rxRd_sesFetch]
    decide
  generalize ppExtract startOf255.length (sesFetch p lateCpu) = t at hparse hbuf hrest hrd
  have htype : t.rd (frmbuf + 1) = ftStart := hbuf 1 (by decide)
  have hkeep := keepsRx_start htype
  have hopen : Opened 0 255 2 (sesOnframe t) := by
    rw [sesOnframe_start htype]
    exact opened_onStart hbuf
  have hrx1 : rxBytes (sesOnframe t) = inputOf48 ++ pong := (rxBytes_congr hkeep).trans hrest
  have hrd1 : (sesOnframe t).rd rxRd = 249 := (hkeep _ (.inr (.inl rfl))).trans hrd
  generalize sesOnframe t = t1 at hparse hopen hrx1 hrd1
  -- The INPUT.
  obtain ⟨hparse1, hbuf1, hrest1⟩ := ppParse_frame framed_inputOf48 hrx1
  have hext : Local PumpCell t1 (ppExtract inputOf48.length t1) := local_ppExtract (by decide) t1
  have hrd2 : (ppExtract inputOf48.length t1).rd rxRd = 0 := by
    rw [rd_rxRd_ppExtract, hrd1]
    decide
  have hseat : (ppExtract inputOf48.length t1).rd netSeat = 0 := by
    rw [hext.rd _ (by decide), hopen.rdSeat]
  have hcount : (ppExtract inputOf48.length t1).rd netCount = 255 := by
    rw [hext.rd _ (by decide), hopen.rdCount]
  generalize ppExtract inputOf48.length t1 = v at hparse1 hbuf1 hrest1 hrd2 hseat hcount
  have hbv : buffered v = 2 := by rw [← length_rxBytes, hrest1]; rfl
  have hat : ∀ i < 2, v.rd (rxacc + i) = pong.getD i 0 := by
    intro i hi
    have hget : rxAt v i = pong.getD i 0 := by
      rw [← getElem_rxBytes v i (by rw [length_rxBytes, hbv]; exact hi)]
      simp only [hrest1]
      exact (List.getD_eq_getElem _ _ hi).symm
    rw [rxAt, hrd2, Nat.zero_add, Nat.mod_eq_of_lt (by omega)] at hget
    exact hget
  have htake := onInput_of_48 hseat hcount (hat 0 (by decide)) (hat 1 (by decide)) hbuf1
  have hinput : sesOnframe v = onInput v := sesOnframe_input (hbuf1 1 (by decide))
  -- What it leaves in the buffer.
  have hnote : ∀ x, (noteHeard (v.emit (inputEv v true))).rd x = v.rd x := fun x => by
    rw [rd_noteHeard, Cpu.rd_emit]
  have hframe : ∀ i < 7, (noteHeard (v.emit (inputEv v true))).rd (frmbuf + i) = inputOf48.getD i 0 :=
    fun i hi => (hnote _).trans (hbuf1 i hi)
  have hstored := stored_of_48 (hframe 2 (by decide)) (hframe 3 (by decide)) (hframe 4 (by decide))
  rw [← htake, ← hinput, hnote, hnote] at hstored
  obtain ⟨h200, h201, hwr, hrd'⟩ := hstored
  have hb2 : buffered (sesOnframe v) = 2 := by
    rw [buffered, hwr, hrd', ← buffered, hbv]
  have hrd0 : (sesOnframe v).rd rxRd = 0 := hrd'.trans hrd2
  have hround : roundOf (sesOnframe v) = .slip := by
    have hzero : rxAt (sesOnframe v) 0 = 2 := by
      rw [rxAt, hrd0]
      exact h200
    have hone : rxAt (sesOnframe v) 1 = 0x0D := by
      rw [rxAt, hrd0]
      exact h201
    rw [roundOf, hzero, hone, if_pos (by decide)]
  have hsome : ∃ u, ppParse (sesOnframe v) = some u := by
    cases hp3 : ppParse (sesOnframe v) with
    | some u => exact ⟨u, rfl⟩
    | none =>
      have hzero : rxAt (sesOnframe v) 0 = 2 := by
        rw [rxAt, hrd0]
        exact h200
      have hone : rxAt (sesOnframe v) 1 = 0x0D := by
        rw [rxAt, hrd0]
        exact h201
      rw [ppParse, if_neg (by omega), hzero, hone, if_pos (by decide)] at hp3
      cases hp3
  obtain ⟨u, hu⟩ := hsome
  intro heq
  have hthird : (sesRounds p lateCpu)[2]? = some .slip := by
    rw [sesRounds, ppRounds_some 255 hparse, ppRounds_some 254 hparse1, ppRounds_some 253 hu, hround,
      List.getElem?_cons_succ, List.getElem?_cons_succ, List.getElem?_cons_zero]
  rw [heq] at hthird
  cases hthird

end IntvNetplay.Console
