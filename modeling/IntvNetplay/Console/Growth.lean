import IntvNetplay.Console.Node

/-!
# The log only grows

Whatever a frame contains, and wherever its handler stores, the log keeps what it had.  A condition
on the log that a longer log can only break (`Guard`) may therefore be assumed of every state a run
passes through once it is assumed of the last one.
-/

namespace IntvNetplay.Console

open IntvNetplay.Machine

/-- The entries of `t` that `s` does not have are all of a kind. -/
def Adds (q : Ev → Prop) (s t : Cpu) : Prop := ∀ e ∈ t.log, e ∈ s.log ∨ q e.ev

namespace Adds

variable {q : Ev → Prop} {s t u : Cpu}

theorem of_log (h : t.log = s.log) : Adds q s t := fun _ he => Or.inl (h ▸ he)

theorem trans (h : Adds q s t) (h' : Adds q t u) : Adds q s u := fun e he =>
  (h' e he).elim (h e) Or.inr

theorem cons {x : Stamped} (h : Adds q s t) (hl : u.log = x :: t.log) (hx : q x.ev) :
    Adds q s u := fun e he => by
  rcases List.mem_cons.1 (hl ▸ he) with rfl | he
  · exact Or.inr hx
  · exact h e he

theorem mono {q' : Ev → Prop} (h : Adds q s t) (hq : ∀ e, q e → q' e) : Adds q' s t :=
  fun e he => (h e he).imp_right (hq e.ev)

end Adds

/-- Nothing is logged or counted. -/
structure Silent (s t : Cpu) : Prop where
  log : t.log = s.log
  mark : t.mark = s.mark

namespace Silent

variable {s t u : Cpu}

theorem refl (s : Cpu) : Silent s s := ⟨rfl, rfl⟩

theorem trans (h : Silent s t) (h' : Silent t u) : Silent s u :=
  ⟨h'.log.trans h.log, h'.mark.trans h.mark⟩

theorem st {a v : ℕ} (h : Silent s t) : Silent s (t.st a v) := ⟨h.log, h.mark⟩

theorem stAll {a : ℕ} {vs : List ℕ} (h : Silent s t) : Silent s (t.stAll a vs) := ⟨h.log, h.mark⟩

theorem uiPrint {off : ℕ} {str : String} (h : Silent s t) : Silent s (uiPrint off str t) :=
  h.stAll

theorem uiCls (h : Silent s t) : Silent s (uiCls t) := h.st.stAll

theorem sendFrame (h : Silent s t) (bytes : List ℕ) : Silent s (sendFrame bytes t) :=
  ⟨(log_sendFrame _ _).trans h.log, (mark_sendFrame _ _).trans h.mark⟩

theorem ite {c : Prop} [Decidable c] (ht : Silent s t) (hu : Silent s u) :
    Silent s (if c then t else u) := by
  split
  · exact ht
  · exact hu

theorem foldl {α : Type} {f : Cpu → α → Cpu} (hf : ∀ t x, Silent t (f t x)) (l : List α)
    (t : Cpu) : Silent t (l.foldl f t) := by
  induction l generalizing t with
  | nil => exact refl t
  | cons x l ih => exact (hf t x).trans (ih _)

end Silent

section screens

variable (s : Cpu)

theorem silent_sesRosterRow (seat : ℕ) : Silent s (sesRosterRow seat s) := by
  simp only [sesRosterRow, rosterMark]
  exact Silent.ite ⟨rfl, rfl⟩ ⟨rfl, rfl⟩

theorem silent_sesRoster : Silent s (sesRoster s) := by
  unfold sesRoster
  exact (Silent.foldl (fun t x => silent_sesRosterRow t x) _ s).st

theorem silent_sesRoomscr : Silent s (sesRoomscr s) := by
  have h : ∀ u : Cpu, Silent u (if u.rd roomHost = 0 then uiPrint 180 "WAITING FOR HOST    " u
      else uiPrint 180 "ENTER = START GAME  " u) := fun u =>
    Silent.ite (Silent.refl u).uiPrint (Silent.refl u).uiPrint
  simp only [sesRoomscr]
  exact ((Silent.refl s).uiCls.uiPrint.uiPrint.st.trans (silent_sesRoster _)).trans (h _)

theorem silent_sesRenderRow (i : ℕ) : Silent s (sesRenderRow i s) := by
  simp only [sesRenderRow, renderCursor, renderCount]
  split <;> exact Silent.ite ⟨rfl, rfl⟩ ⟨rfl, rfl⟩

theorem silent_sesRender : Silent s (sesRender s) := by
  unfold sesRender
  exact ((Silent.refl s).st.uiPrint.stAll.trans
    (Silent.foldl (fun t i => silent_sesRenderRow t i) _ _)).st

end screens

/-! ### Frames -/

section frames

variable (s : Cpu)

theorem grows_onInput : s.log <:+ (onInput s).log := by
  simp only [onInput]
  split_ifs
  · exact List.suffix_refl _
  · exact List.suffix_refl _
  · exact List.suffix_refl _
  · exact List.suffix_cons _ _
  · exact (List.suffix_cons _ _).trans (List.suffix_cons _ _)

theorem silent_leaveRoom : Silent s (leaveRoom s) := by
  unfold leaveRoom
  exact (Silent.refl s).st.st.uiCls.uiPrint.trans (silent_sesRender _)

theorem silent_showRoom : Silent s (showRoom s) := by
  have h := local_sesCprGo s (frmbuf + 3)
  unfold showRoom
  exact (Silent.st ⟨h.log, h.mark⟩).trans (silent_sesRoomscr _)

/-- A ROOM frame that is taken leaves its count in the log. -/
theorem log_onRoom (ha : s.rd netActive = 0) (hl : 34 ≤ s.rd frmbuf) :
    (onRoom s).log = s.mark.stamp (.room (s.rd (frmbuf + 2))) :: s.log := by
  simp only [onRoom, ha, ne_eq, not_true, if_false, if_neg (Nat.not_lt.2 hl)]
  split
  · rw [(silent_leaveRoom _).log]
    rfl
  · rw [(silent_showRoom _).log]
    rfl

theorem mark_onRoom : (onRoom s).mark = s.mark := by
  simp only [onRoom]
  split_ifs
  · rfl
  · rfl
  · rw [(silent_leaveRoom _).mark]
    rfl
  · rw [(silent_showRoom _).mark]
    rfl

theorem mark_rsOnCrc : (rsOnCrc s).mark = s.mark := by
  have hwant : ∀ t : Cpu, (rsWant t).mark = t.mark := fun t => by
    simp only [rsWant]
    split
    · rfl
    · exact mark_sendFrame _ _
  simp only [rsOnCrc]
  split_ifs
  · rfl
  · rfl
  · rfl
  · rfl
  · rfl
  · rw [hwant]
    rfl

theorem mark_rsOnReq : (rsOnReq s).mark = s.mark := by
  simp only [rsOnReq]
  split_ifs <;> rfl

theorem grows_onRoom : s.log <:+ (onRoom s).log := by
  by_cases ha : s.rd netActive = 0
  · by_cases hl : 34 ≤ s.rd frmbuf
    · rw [log_onRoom s ha hl]
      exact List.suffix_cons _ _
    · rw [onRoom, if_neg (not_not.2 ha), if_pos (by omega)]
  · rw [onRoom, if_pos ha]

theorem grows_sesOnframe : s.log <:+ (sesOnframe s).log := by
  simp only [sesOnframe]
  split_ifs
  · exact grows_onInput s
  · exact (local_onLobby s).within.grows
  · exact (within_onStart s).grows
  · exact (local_onPeerLeft s).within.grows
  · exact grows_onRoom s
  · exact (within_rsOnCrc s).grows
  · exact (within_rsOnState s).grows
  · exact (within_rsOnReq s).grows
  · exact List.suffix_refl _

theorem grows_frame {n : ℕ} : s.log <:+ (sesOnframe (ppExtract n s)).log := by
  exact grows_sesOnframe (ppExtract n s)

theorem grows_sesPump (p : Poll) : s.log <:+ (sesPump p s).log := by
  refine sesPump_induct (P := fun t => s.log <:+ t.log) (local_sesFetch p s).within.grows
    (fun t h => h.trans (local_ppSlip t).within.grows) fun t h _ _ => h.trans (grows_frame t)

end frames

/-- An entry that handling a frame makes, INPUT apart. -/
def Ev.Noted : Ev → Prop
  | .start _ _ _ | .room _ | .crcIn _ _ | .mismatch _ _ _ => True
  | .request _ _ | .chunk _ _ | .rebase _ _ _ _ => True
  | _ => False

section entries

variable (s : Cpu)

theorem log_rsWant : (rsWant s).log =
    s.mark.stamp (.mismatch (frameTick s) (recordCrc s) (frameCrc s)) :: s.log := by
  simp only [rsWant]
  split
  · rfl
  · rw [log_sendFrame]
    rfl

theorem log_rsApply {pos n : ℕ} (h : pos + n ≤ imgTotal) :
    (rsApply pos n s).log = s.mark.stamp (.chunk pos n) :: s.log := by
  simp only [rsApply, Cpu.log_st]
  rw [(local_applyBytes _ h).log]
  rfl

theorem mark_rsApply {pos n : ℕ} (h : pos + n ≤ imgTotal) :
    (rsApply pos n s).mark = { s.mark with raw := true } := by
  simp only [rsApply, Cpu.mark_st]
  rw [(local_applyBytes _ h).mark]
  rfl

/-- An INPUT adds its own entry and, when it is taken, the cells it is stored at. -/
theorem adds_onInput {q : Ev → Prop} (hq : ∀ b, q (inputEv s b))
    (hslot : s.rd (frmbuf + 2) < s.rd netCount → ∀ e ∈ (takeInput (noteHeard
      (s.emit (inputEv s true)))).log.head?, q e.ev) : Adds q s (onInput s) := by
  have hself : Adds q s s := Adds.of_log rfl
  simp only [onInput]
  split_ifs with h1 h2 h3
  · exact hself
  · exact hself
  · exact hself
  · exact hself.cons (x := s.mark.stamp (inputEv s false)) rfl (hq _)
  · exact (hself.cons (u := noteHeard (s.emit (inputEv s true)))
      (x := s.mark.stamp (inputEv s true)) rfl (hq _)).cons rfl (hslot (by omega) _ rfl)

theorem adds_onRoom {Q : Ev → Prop} (hQ : ∀ n, Q (.room n)) : Adds Q s (onRoom s) := by
  have hself : Adds Q s s := Adds.of_log rfl
  by_cases ha : s.rd netActive = 0
  · by_cases hl : 34 ≤ s.rd frmbuf
    · exact hself.cons (log_onRoom s ha hl) (hQ _)
    · rw [onRoom, if_neg (not_not.2 ha), if_pos (by omega)]
      exact hself
  · rw [onRoom, if_pos ha]
    exact hself

theorem adds_onStart : Adds Ev.Noted s (onStart s) := by
  unfold onStart
  split_ifs
  · exact Adds.of_log rfl
  · exact (Adds.of_log (local_takeStart s).log).cons (log_noteStart _) trivial

theorem adds_rsOnCrc : Adds Ev.Noted s (rsOnCrc s) := by
  have hself : Adds Ev.Noted s s := Adds.of_log rfl
  have hin : Adds Ev.Noted s (s.emit (.crcIn (frameTick s) (frameCrc s))) :=
    hself.cons rfl trivial
  simp only [rsOnCrc]
  split_ifs
  · exact hself
  · exact hin
  · exact hin
  · exact hin
  · exact hin
  · exact hin.cons (log_rsWant _) trivial

theorem adds_rsOnReq : Adds Ev.Noted s (rsOnReq s) := by
  have hself : Adds Ev.Noted s s := Adds.of_log rfl
  simp only [rsOnReq]
  split_ifs
  · exact hself.cons rfl trivial
  · exact hself.cons rfl trivial

theorem adds_rsOnControl : Adds Ev.Noted s (rsOnControl s) := by
  unfold rsOnControl
  split_ifs
  · exact Adds.of_log (local_rsBad s).log
  · exact Adds.of_log (local_beginFrame s).log
  · exact Adds.of_log rfl
  · exact Adds.of_log rfl
  · exact Adds.cons (t := s) (Adds.of_log rfl) (log_rsRebase s) trivial

theorem adds_rsOnChunk : Adds Ev.Noted s (rsOnChunk s) := by
  have hbad : ∀ v, (rsBad (s.st rsTmp2 v)).log = s.log := fun v => (local_rsBad _).log
  simp only [rsOnChunk]
  split_ifs with h1 h2 h3 h4
  · exact Adds.of_log (local_rsBad s).log
  · exact Adds.of_log (local_rsBad s).log
  · exact Adds.of_log (hbad _)
  · exact Adds.of_log (hbad _)
  · exact Adds.cons (t := s) (Adds.of_log rfl)
      (log_rsApply s (by simp only [imgTotal] at h4 ⊢; omega)) trivial

/-- Every frame but INPUT adds such entries only. -/
theorem adds_sesOnframe (h : s.rd (frmbuf + 1) ≠ ftInput) : Adds Ev.Noted s (sesOnframe s) := by
  simp only [sesOnframe, if_neg h]
  split_ifs
  · exact Adds.of_log (local_onLobby s).log
  · exact adds_onStart s
  · exact Adds.of_log (local_onPeerLeft s).log
  · exact adds_onRoom s fun _ => trivial
  · exact adds_rsOnCrc s
  · unfold rsOnState
    split_ifs
    · exact Adds.of_log (local_rsBad s).log
    · exact adds_rsOnControl s
    · exact adds_rsOnChunk s
  · exact adds_rsOnReq s
  · exact Adds.of_log rfl

end entries

/-! ### Steps -/

section steps

variable {W : World} {n n' : Node}

theorem log_lsCapture_cons (s : Cpu) : ∃ e, (lsCapture s).log = s.mark.stamp e :: s.log := ⟨_, rfl⟩

theorem silent_sesGo (s : Cpu) : Silent s (sesGo s) := by
  unfold sesGo
  exact ((Silent.refl s).uiCls.uiPrint.trans (silent_sesRoster _)).st.uiPrint.st.uiPrint.st

theorem silent_sesKey (raw : ℕ) (s : Cpu) : Silent s (sesKey raw s) := by
  have hredraw : ∀ u : Cpu, Silent u (sesRedraw u) := fun u =>
    Silent.ite (Silent.refl u) (silent_sesRender u)
  have hup : Silent s (sesUp s) := by
    unfold sesUp
    exact (Silent.ite (Silent.refl s) (Silent.refl s).st).trans (hredraw _)
  have hdn : Silent s (sesDown s) := by
    unfold sesDown
    exact (Silent.ite (Silent.refl s) (Silent.refl s).st).trans (hredraw _)
  have hbrowse : Silent s (sesBrowseJoin s) := by
    unfold sesBrowseJoin
    refine Silent.ite (Silent.refl s) (Silent.ite ?_ ?_)
    · exact (Silent.refl s).uiPrint.trans (silent_sesRender _)
    · exact ((Silent.refl s).sendFrame _).uiPrint
  have hjoin : Silent s (sesJoin s) := by
    unfold sesJoin
    exact Silent.ite hbrowse (Silent.ite (Silent.refl s) ((Silent.refl s).sendFrame _))
  unfold sesKey
  split_ifs <;> first | exact Silent.refl s | assumption

theorem silent_sesMenu (raw : ℕ) (s : Cpu) : Silent s (sesMenu raw s) := by
  have hpace : ∀ u : Cpu, Silent u (sesPace u) := fun u => by
    unfold sesPace
    exact Silent.ite ((Silent.refl u).st.sendFrame _) (Silent.refl u).st
  unfold sesMenu
  refine Silent.trans (Silent.ite (Silent.refl s) ?_) (hpace _)
  exact (Silent.refl s).st.trans (silent_sesKey raw _)

theorem silent_lobbyRound (raw : ℕ) (s : Cpu) : Silent s (lobbyRound raw s).cpu := by
  unfold lobbyRound
  split
  · exact silent_sesMenu raw s
  · exact silent_sesGo s

theorem log_afterPump {raw : ℕ} {ph : Phase} {s : Cpu} (h : afterPump raw ph s = some n) :
    n.cpu.log = s.log := by
  cases ph <;> simp only [afterPump, Option.some.injEq, reduceCtorEq] at h <;> subst h
  · exact (silent_lobbyRound raw s).log
  · exact (local_matchedRound s).log
  · exact (countOrDrop_holdTail s).within.log
  · rfl
  · exact (countOrDrop_stallTail s).within.log

theorem log_lsReturn (s : Cpu) : (lsReturn s).log = s.log := rfl

theorem log_lsEntry (s : Cpu) : (lsEntry s).cpu.log = s.log := by
  unfold lsEntry
  split_ifs
  · rfl
  · exact (local_lsGone s).log
  · exact (local_lsFreeze s).log
  · rfl

theorem grows_advance {C : Cart} (h : advance C n = some n') : n.cpu.log <:+ n'.cpu.log := by
  obtain ⟨ph, s⟩ := n
  have hsend : s.log <:+ (lsSend s).log := by
    obtain ⟨e, he⟩ := log_lsCapture_cons s
    rw [log_lsSend, he]
    exact List.suffix_cons _ _
  cases ph <;> simp only [advance, Option.some.injEq, reduceCtorEq] at h <;> subst h
  · rw [log_lsEntry]
  · exact hsend
  · exact (within_lsGate C s).grows

/-- The entries of the tail of a pass. -/
def Ev.OfTail : Ev → Prop
  | .report _ _ | .push _ | .rebase _ _ _ _ => True
  | _ => False

/-- The entries of a pass from its gate on. -/
def Ev.OfPass : Ev → Prop
  | .due _ _ | .shadow _ _ _ _ | .dispatch _ _ _ _ _ | .gameTick _ | .mirror _ _ => True
  | .report _ _ | .push _ | .rebase _ _ _ _ => True
  | _ => False

theorem Ev.OfTail.ofPass {e : Ev} (h : e.OfTail) : e.OfPass := by cases e <;> trivial

theorem adds_lsTick (C : Cart) (s : Cpu) : Adds Ev.OfPass s (lsTick C s) := by
  intro e he
  simp only [log_lsTick, List.mem_cons] at he
  rcases he with rfl | rfl | rfl | rfl | rfl | rfl | he
  all_goals first | exact Or.inl he | exact Or.inr trivial

theorem adds_rsPending (s : Cpu) : Adds Ev.OfTail s (rsPending s) := by
  rcases rsPending_cases s with h | ⟨-, -, -, t, ht, he⟩
  · exact Adds.of_log h.log
  · rw [he, rsPush_eq]
    exact ((Adds.of_log ht.log).cons (log_pushSent t) trivial).cons (log_rsRebase _) trivial

theorem adds_runBody (C : Cart) (s : Cpu) : Adds Ev.OfPass s (runBody C s) := by
  intro e he
  rw [log_runBody] at he
  split_ifs at he
  · exact (List.mem_cons.1 he).elim (fun h => Or.inr (h ▸ trivial)) (adds_lsTick C s e)
  · exact adds_lsTick C s e he

theorem adds_lsRun (C : Cart) (s : Cpu) : Adds Ev.OfPass s (lsRun C s) := by
  rw [lsRun_eq]
  exact (adds_runBody C s).trans ((adds_rsPending _).mono fun _ => Ev.OfTail.ofPass)

theorem adds_lsGate (C : Cart) (s : Cpu) : Adds Ev.OfPass s (lsGate C s).cpu := by
  unfold lsGate
  split_ifs
  · exact adds_lsRun C s
  · exact Adds.of_log (local_lsFreeze s).log

theorem grows_step {p : Option Poll} (h : Step W p n n') : n.cpu.log <:+ n'.cpu.log := by
  cases h with
  | isr _ => exact List.suffix_refl _
  | native _ => exact List.suffix_refl _
  | boot _ => exact List.suffix_refl _
  | own h => exact grows_advance h
  | pump h =>
    rw [log_afterPump h]
    exact grows_sesPump _ _

theorem grows_run (h : Run W n n') : n.cpu.log <:+ n'.cpu.log := by
  induction h with
  | refl => exact List.suffix_refl _
  | tail _ hs ih =>
    obtain ⟨p, hs⟩ := hs
    exact ih.trans (grows_step hs)

end steps

/-! ### Guarded runs -/

/-- A condition on the log that holds of every earlier log when it holds of a later one. -/
structure Guard where
  holds : List Stamped → Prop
  suffix : ∀ {l l' : List Stamped}, l <:+ l' → holds l' → holds l

/-- A condition on every entry of the log is a guard. -/
def Guard.all (q : Stamped → Prop) : Guard where
  holds l := ∀ e ∈ l, q e
  suffix h h' e he := h' e (h.subset he)

/-- What it takes for a property to survive guarded runs: one obligation for each piece of a step. -/
structure Kept (W : World) (G : Guard) (I : Cpu → Prop) : Prop where
  fetch : ∀ p s, I s → I (sesFetch p s)
  slip : ∀ s, I s → I (ppSlip s)
  frame : ∀ s, I s → flenOk (rxAt s 0) (rxAt s 1) = true → rxAt s 0 + 1 ≤ buffered s →
    G.holds (sesOnframe (ppExtract (rxAt s 0 + 1) s)).log →
    I (sesOnframe (ppExtract (rxAt s 0 + 1) s))
  after : ∀ raw ph s n, I s → afterPump raw ph s = some n → I n.cpu
  own : ∀ n n', I n.cpu → advance W.cart n = some n' → I n'.cpu
  outside : ∀ s m, I s → (∀ a, 0x8000 ≤ a → m.get a = s.mem.get a) → I (s.call fun _ => m)

namespace Kept

variable {W : World} {G : Guard} {I : Cpu → Prop}

theorem pump (k : Kept W G I) (p : Poll) {s : Cpu} (h : I s) (hg : G.holds (sesPump p s).log) :
    I (sesPump p s) := by
  refine sesPump_induct (P := fun t => G.holds t.log → I t) (fun _ => k.fetch p s h)
    (fun t ht hg => k.slip t (ht (G.suffix (local_ppSlip t).within.grows hg)))
    (fun t ht h1 h2 hg => k.frame t (ht (G.suffix (grows_frame t) hg)) h1 h2 hg) hg

theorem step (k : Kept W G I) {p : Option Poll} {n n' : Node} (h : I n.cpu) (hs : Step W p n n')
    (hg : G.holds n'.cpu.log) : I n'.cpu := by
  cases hs with
  | isr hm => exact k.outside _ _ h (W.isr_get hm)
  | native hm => exact k.outside _ _ h (W.native_get hm)
  | boot hm => exact k.outside _ _ h (W.boot_get hm)
  | own ha => exact k.own _ _ h ha
  | pump ha => exact k.after _ _ _ _ (k.pump _ h (log_afterPump ha ▸ hg)) ha

/-- A property kept by every piece of a step holds at the end of a run, if it holds at the start and
the guard holds at the end. -/
theorem run (k : Kept W G I) {n n' : Node} (h : I n.cpu) (hr : Run W n n')
    (hg : G.holds n'.cpu.log) : I n'.cpu :=
  hr.induct (P := fun n => G.holds n.cpu.log → I n.cpu) (fun _ => h)
    (fun ih hs hg => k.step (ih (G.suffix (grows_step hs) hg)) hs hg) hg

end Kept

end IntvNetplay.Console
