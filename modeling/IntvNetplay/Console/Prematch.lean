import IntvNetplay.Console.Stores

/-!
# The lobby phase and the START that ends it

What the frames of the lobby phase leave in the cells that control a match, and what START makes of
it.  START resets the tick counter, the watermarks, the rings and the records, but neither
`NET_DROPPED` nor `RESYNC_HOLD` nor `RS_PEND`, which PEER_LEFT, BEGIN and RESYNC set whether or not a
match is on.
-/

namespace IntvNetplay.Console

open IntvNetplay.Machine

/-- The pump moves a frame to `FRMBUF` and handles it. -/
def handle (f : List ℕ) (s : Cpu) : Cpu := sesOnframe (s.stAll frmbuf f)

/-- The frames of a history, handled in order. -/
def handleAll (fs : List (List ℕ)) (s : Cpu) : Cpu := fs.foldl (fun s f => handle f s) s

/-- A frame that can arrive before the match: any but START. -/
structure Prematch (f : List ℕ) : Prop extends Framed f where
  noStart : f.getD 1 0 ≠ ftStart

/-- The cells that control a match. -/
def ControlCell (a : ℕ) : Prop :=
  a = netActive ∨ a = netDropped ∨ a = netSeat ∨ a = netCount ∨ a = netDelay ∨ a = tickLo ∨
    a = tickHi ∨ WmCell a ∨ RingCell a ∨ CrcCell a ∨ a = resyncHold ∨ a = rsPend ∨ a = rsPtmo ∨
    a = lsFroze ∨ a = lsWaitcLo ∨ a = lsWaitcHi ∨ a = peerWhy ∨ a = peerScr

instance : DecidablePred ControlCell := fun a => by unfold ControlCell; infer_instance

/-! ### Histories -/

/-- A PEER_LEFT frame. -/
def IsLeft (f : List ℕ) : Prop := f.getD 1 0 = ftPeerLeft

/-- A STATE frame at the control position BEGIN, long enough to be taken. -/
def IsBegin (f : List ℕ) : Prop :=
  f.getD 1 0 = ftState ∧ f.getD 3 0 = 0xFF ∧ f.getD 2 0 = 0 ∧ 5 ≤ f.getD 0 0

/-- A STATE frame at the control position END. -/
def IsEnd (f : List ℕ) : Prop := f.getD 1 0 = ftState ∧ f.getD 3 0 = 0xFF ∧ f.getD 2 0 = 1

instance : DecidablePred IsLeft := fun f => by unfold IsLeft; infer_instance
instance : DecidablePred IsBegin := fun f => by unfold IsBegin; infer_instance
instance : DecidablePred IsEnd := fun f => by unfold IsEnd; infer_instance

/-- What a frame makes of an open or closed transfer. -/
def holdStep (hold : Bool) (f : List ℕ) : Bool :=
  if IsBegin f then true else if IsEnd f then false else hold

/-- What a frame makes of whether the peer has left. -/
def leftStep (left : Bool) (f : List ℕ) : Bool := if IsLeft f then true else left

theorem holdStep_begin {hold : Bool} {f : List ℕ} (h : IsBegin f) : holdStep hold f = true :=
  if_pos h

theorem holdStep_end {hold : Bool} {f : List ℕ} (h : IsEnd f) : holdStep hold f = false := by
  rw [holdStep, if_neg (fun hb => by have h1 := hb.2.2.1; have h2 := h.2.2; omega), if_pos h]

theorem holdStep_other {hold : Bool} {f : List ℕ} (h1 : ¬ IsBegin f) (h2 : ¬ IsEnd f) :
    holdStep hold f = hold := by
  rw [holdStep, if_neg h1, if_neg h2]

/-- Is a transfer open at the end of a history? -/
def holdAfter (fs : List (List ℕ)) : Bool := fs.foldl holdStep false

/-- A request for a push. -/
def IsReq (f : List ℕ) : Prop := f.getD 1 0 = ftResync

/-- A CRC frame for the tick of the record it is compared against, with another checksum. -/
def Differs (records : ℕ → ℕ) (f : List ℕ) : Prop :=
  let a := crcSlot (f.getD 3 0)
  (records a = f.getD 3 0 ∧ records (a + 1) = f.getD 4 0) ∧
    ¬ (records (a + 2) = f.getD 5 0 ∧ records (a + 3) = f.getD 6 0)

instance : DecidablePred IsReq := fun f => by unfold IsReq; infer_instance
instance (records : ℕ → ℕ) : DecidablePred (Differs records) := fun f => by
  unfold Differs; infer_instance

/-- Is a transfer open, is a push wanted, and the cells of the checksum records. -/
structure Wish where
  hold : Bool
  pend : Bool
  records : ℕ → ℕ

/-- What a frame makes of these: BEGIN and the END of a transfer wipe the records, and the END drops the
wish; outside a transfer a request and a checksum that differs wish for a push. -/
def wishStep (w : Wish) (f : List ℕ) : Wish :=
  if IsBegin f then ⟨true, w.pend, fun _ => 0xFF⟩
  else if IsEnd f then if w.hold then ⟨false, false, fun _ => 0xFF⟩ else w
  else if w.hold = false ∧ (IsReq f ∨ f.getD 1 0 = ftCrc ∧ Differs w.records f) then
    { w with pend := true }
  else w

/-- Is a push wanted at the end of a history, by what the records held before it? -/
def pendAfter (records : ℕ → ℕ) (fs : List (List ℕ)) : Bool :=
  (fs.foldl wishStep ⟨false, false, records⟩).pend

/-- The controlling cells that no frame sets before the match, PEER_LEFT and STATE apart. -/
def LobbyCell (a : ℕ) : Prop :=
  a = netActive ∨ a = netSeat ∨ a = netCount ∨ a = peerScr ∨ a = lsFroze ∨ a = lsWaitcLo ∨
    a = lsWaitcHi ∨ a = rsPtmo ∨ a = netDropped ∨ a = peerWhy ∨ a = resyncHold

instance : DecidablePred LobbyCell := fun a => by unfold LobbyCell; infer_instance

/-- RS_PEND and the cells of the checksum records. -/
def AskCell (a : ℕ) : Prop := a = rsPend ∨ CrcCell a

/-- What they hold. -/
structure Asked (w : Wish) (s : Cpu) : Prop where
  pend : s.rd rsPend = w.pend.toNat
  records : ∀ a, CrcCell a → s.rd a = w.records a

/-- What they hold, by whether a PEER_LEFT arrived and whether a transfer is open. -/
def lobbyValue (left hold : Bool) (a : ℕ) : ℕ :=
  if a = netCount then 2
  else if a = netDropped ∨ a = peerWhy then left.toNat
  else if a = resyncHold then hold.toNat
  else 0

/-- A console in the lobby phase. -/
structure Lobby (left hold : Bool) (s : Cpu) : Prop where
  cells : ∀ a, LobbyCell a → s.rd a = lobbyValue left hold a
  lobby : s.rd lobbyCnt ≤ 8

theorem lobbyCell_iff {Q : ℕ → Prop} : (∀ a, LobbyCell a → Q a) ↔ Q netActive ∧ Q netSeat ∧
    Q netCount ∧ Q peerScr ∧ Q lsFroze ∧ Q lsWaitcLo ∧ Q lsWaitcHi ∧ Q rsPtmo ∧ Q netDropped ∧
    Q peerWhy ∧ Q resyncHold := by
  simp only [LobbyCell, forall_eq_or_imp, forall_eq]

section frames

variable {left hold : Bool} {s t : Cpu} {P : ℕ → Prop}

theorem Lobby.of_within (h : Lobby left hold s) (hw : Within P s t)
    (hP : ∀ a, LobbyCell a → ¬ P a) (hl : t.rd lobbyCnt ≤ 8) : Lobby left hold t :=
  ⟨fun a ha => (hw.rd a (hP a ha)).trans (h.cells a ha), hl⟩

theorem lobby_onPeerLeft (h : Lobby left hold s) : Lobby true hold (onPeerLeft s) := by
  have hw := (local_onPeerLeft s).within
  have hset : ∀ t : Cpu, ∀ a, a = netDropped ∨ a = peerWhy →
      (lsIdleRmt ((t.st peerWhy 1).st netDropped 1)).rd a = 1 := fun t a ha => by
    rw [(local_lsIdleRmt _).rd _ (by rcases ha with rfl | rfl <;> decide)]
    rcases ha with rfl | rfl <;> simp [cellBits]
  refine ⟨fun a ha => ?_, by rw [hw.rd _ (by decide)]; exact h.lobby⟩
  by_cases hd : a = netDropped ∨ a = peerWhy
  · rw [lobbyValue, if_neg (by rcases hd with rfl | rfl <;> decide), if_pos hd]
    exact hset _ a hd
  · have hsame : lobbyValue true hold a = lobbyValue left hold a := by
      simp only [lobbyValue, if_neg hd]
    have hleft : ∀ b, LobbyCell b → b = netDropped ∨ b = peerWhy ∨ ¬ LeftCell b := by
      rw [lobbyCell_iff]; decide
    have hn : ¬ LeftCell a := by
      rcases hleft a ha with h | h | h
      · exact absurd (Or.inl h) hd
      · exact absurd (Or.inr h) hd
      · exact h
    rw [hw.rd a hn, h.cells a ha, hsame]

/-- A request or a mismatch starts the wait for a push at 0. -/
theorem Lobby.of_want (h : Lobby left hold s) (hw : Within WantCell s t)
    (hp : t.rd rsPtmo = 0) : Lobby left hold t := by
  have hwant : ∀ b, LobbyCell b → b = rsPtmo ∨ ¬ WantCell b := by rw [lobbyCell_iff]; decide
  refine ⟨fun a ha => ?_, by rw [hw.rd _ (by decide)]; exact h.lobby⟩
  rcases hwant a ha with rfl | hn
  · exact hp
  · rw [hw.rd a hn, h.cells a ha]

theorem rd_rsPtmo_rsOnCrc (h : s.rd rsPtmo = 0) : (rsOnCrc s).rd rsPtmo = 0 := by
  have hwant : ∀ t : Cpu, (rsWant t).rd rsPtmo = 0 := fun t => by
    simp only [rsWant]
    split
    · simp
    · rw [(Within.sendFrame (fun _ h => h) (Within.refl _) (by simp)).rd _ (by decide)]
      simp
  simp only [rsOnCrc]
  split_ifs
  · exact h
  · exact h
  · exact h
  · exact h
  · exact h
  · exact hwant _

theorem rd_rsPtmo_rsOnReq (h : s.rd rsPtmo = 0) : (rsOnReq s).rd rsPtmo = 0 := by
  simp only [rsOnReq]
  split_ifs
  · exact h
  · simp

/-! ### STATE -/

/-- The controlling cells that a rebase clears. -/
theorem lobby_rsRebase (h : Lobby left hold s) : Lobby left false (rsRebase s) := by
  have hw := within_rsRebase s
  have hcell : ∀ b, LobbyCell b → b = resyncHold ∨ b = rsPtmo ∨ b = lsWaitcLo ∨ b = lsWaitcHi ∨
      ¬ RebaseCell b := by rw [lobbyCell_iff]; decide
  have hptmo : (rsInstall s).rd rsPtmo = 0 := by
    have hset : ∀ t : Cpu, Local (fun a => DisplayCell a ∨ VectorCell a ∨ HookCell a) t
        (sbRebaseHook (rsClampIsr (rsDisplayReset t))) := fun t =>
      (((local_rsDisplayReset t).mono fun _ => Or.inl).trans
        ((local_rsClampIsr _).mono fun _ h => Or.inr (Or.inl h))).trans
          ((local_sbRebaseHook _).mono fun _ h => Or.inr (Or.inr h))
    rw [rsInstall, (hset _).rd _ (by decide)]
    simp
  have hwait : ∀ t : Cpu, (rsReleaseHold t).rd lsWaitcLo = 0 ∧
      (rsReleaseHold t).rd lsWaitcHi = 0 := fun t => by simp [rsReleaseHold]
  refine ⟨fun a ha => ?_, by rw [hw.rd _ (by decide)]; exact h.lobby⟩
  rcases hcell a ha with rfl | rfl | rfl | rfl | hn
  · rw [rd_rsRebase, rd_rsRestart_hold _ (Or.inl rfl)]
    rfl
  · rw [rd_rsRebase, (local_rsRestart _).rd _ (by decide), hptmo]
    rfl
  · rw [rd_rsRebase]
    exact (hwait _).1
  · rw [rd_rsRebase]
    exact (hwait _).2
  · have hne : a ≠ resyncHold := fun he => hn (he ▸ by decide)
    rw [hw.rd a hn, h.cells a ha]
    simp only [lobbyValue, if_neg hne]

theorem local_rsBad_diag (s : Cpu) : Local (· = diagRej) s (rsBad s) :=
  Local.diagBump (Local.refl s) rfl

/-- BEGIN opens a transfer. -/
theorem lobby_begin (h : Lobby left hold s) : Lobby left true
    (((rsEnterHold s).st rsRLo ((rsEnterHold s).rd (frmbuf + 4))).st rsRHi
      (((rsEnterHold s).st rsRLo ((rsEnterHold s).rd (frmbuf + 4))).rd (frmbuf + 5))) := by
  have hw := local_beginFrame s
  have hcell : ∀ b, LobbyCell b → b = resyncHold ∨ ¬ BeginCell b := by
    rw [lobbyCell_iff]; decide
  have hset : ∀ v w, (((rsEnterHold s).st rsRLo v).st rsRHi w).rd resyncHold = 1 := fun v w => by
    rw [Cpu.rd_st, if_neg (by decide), Cpu.rd_st, if_neg (by decide), rsEnterHold,
      (local_rsClrCrc _).rd _ (by decide)]
    simp [cellBits]
  refine ⟨fun a ha => ?_, by rw [hw.rd _ (by decide)]; exact h.lobby⟩
  rcases hcell a ha with rfl | hn
  · rw [hset]
    rfl
  · have hne : a ≠ resyncHold := fun he => hn (he ▸ by decide)
    rw [hw.rd a hn, h.cells a ha]
    simp only [lobbyValue, if_neg hne]

theorem Lobby.of_quiet (h : Lobby left hold s) (hw : Within P s t)
    (hP : ∀ a, LobbyCell a → ¬ P a) (hl : ¬ P lobbyCnt) : Lobby left hold t :=
  h.of_within hw hP (by rw [hw.rd _ hl]; exact h.lobby)

theorem lobby_rsOnChunk (h : Lobby left hold s) : Lobby left hold (rsOnChunk s) := by
  have hbad : ∀ {u : Cpu}, Lobby left hold u → Lobby left hold (rsBad u) := fun hu =>
    hu.of_quiet (local_rsBad_diag _).within (by rw [lobbyCell_iff]; decide) (by decide)
  have htmp : Lobby left hold (s.st rsTmp2 (s.rd frmbuf - 3)) := by
    have hw : Local (· = rsTmp2) s (s.st rsTmp2 (s.rd frmbuf - 3)) := (Local.refl s).st (by rfl)
    exact h.of_quiet hw.within (by rw [lobbyCell_iff]; decide) (by decide)
  simp only [rsOnChunk]
  split_ifs with h1 h2 h3 h4
  · exact hbad h
  · exact hbad h
  · exact hbad htmp
  · exact hbad htmp
  · exact h.of_quiet (within_rsApply s (by simp only [imgTotal] at *; omega))
      (by rw [lobbyCell_iff]; decide) (by decide)

theorem lobby_rsOnState {f : List ℕ} (h : Lobby left hold s) (hf : InFrmbuf f s)
    (hl : 4 ≤ f.length) (htype : f.getD 1 0 = ftState) (hmin : 3 ≤ f.getD 0 0) :
    Lobby left (holdStep hold f) (rsOnState s) := by
  have hbad : ∀ {u : Cpu}, Lobby left hold u → Lobby left hold (rsBad u) := fun hu =>
    hu.of_quiet (local_rsBad_diag _).within (by rw [lobbyCell_iff]; decide) (by decide)
  have h0 : s.rd frmbuf = f.getD 0 0 := hf.rd_zero (by omega)
  have h2 : s.rd (frmbuf + 2) = f.getD 2 0 := hf.rd (by omega)
  have h3 : s.rd (frmbuf + 3) = f.getD 3 0 := hf.rd (by omega)
  rw [rsOnState, if_neg (by omega)]
  by_cases hctl : f.getD 3 0 = 0xFF
  · rw [if_pos (by rw [h3]; exact hctl)]
    by_cases hb : f.getD 2 0 = 0
    · by_cases h5 : f.getD 0 0 < 5
      · have hstep : holdStep hold f = hold :=
          holdStep_other (fun h => absurd h.2.2.2 (by omega)) fun h => absurd h.2.2 (by omega)
        rw [rsOnControl, if_pos (by rw [h2]; exact hb), if_pos (by rw [h0]; exact h5), hstep]
        exact hbad h
      · have hstep : holdStep hold f = true :=
          holdStep_begin ⟨htype, hctl, hb, Nat.le_of_not_lt h5⟩
        rw [rsOnControl, if_pos (by rw [h2]; exact hb), if_neg (by rw [h0]; exact h5), hstep]
        exact lobby_begin h
    · by_cases he : f.getD 2 0 = 1
      · have hstep : holdStep hold f = false := holdStep_end ⟨htype, hctl, he⟩
        rw [rsOnControl, if_neg (by rw [h2]; exact hb), if_neg (by rw [h2]; exact not_not.2 he),
          hstep]
        by_cases hh : s.rd resyncHold = 0
        · rw [if_pos hh]
          have hfalse : hold = false := by
            have := h.cells resyncHold (by decide)
            rw [hh] at this
            cases hold
            · rfl
            · cases left <;> exact absurd this (by decide)
          exact hfalse ▸ h
        · rw [if_neg hh]
          exact lobby_rsRebase h
      · have hstep : holdStep hold f = hold :=
          holdStep_other (fun h => hb h.2.2.1) fun h => he h.2.2
        rw [rsOnControl, if_neg (by rw [h2]; exact hb), if_pos (by rw [h2]; exact he), hstep]
        exact h
  · have hstep : holdStep hold f = hold :=
      holdStep_other (fun h => hctl h.2.1) fun h => hctl h.2.1
    rw [if_neg (by rw [h3]; exact hctl), hstep]
    exact lobby_rsOnChunk h

/-! ### A frame of the lobby phase -/

theorem inFrmbuf_stAll {f : List ℕ} (hf : Framed f) : InFrmbuf f (s.stAll frmbuf f) := by
  have hl := hf.length_le
  intro i hi
  have hw : cellBits (frmbuf + i) = 8 :=
    cellBits_cart (by simp only [frmbuf]; omega) (by simp only [frmbuf]; omega)
  rw [Cpu.rd_stAll, if_pos ⟨Nat.le_add_right _ _, by omega⟩, Nat.add_sub_cancel_left, hw,
    List.getD_eq_getElem _ _ hi]
  exact Nat.mod_eq_of_lt (hf.lt _ (List.getElem_mem hi))

theorem local_stAll_frmbuf {f : List ℕ} (hf : Framed f) : Local PumpCell s (s.stAll frmbuf f) :=
  (Local.refl s).stAll fun x h1 h2 => by
    have := hf.length_le
    exact Or.inr (Or.inr ⟨h1, by omega⟩)

theorem lobby_handle {f : List ℕ} (h : Lobby left hold s) (hf : Prematch f) :
    Lobby (leftStep left f) (holdStep hold f) (handle f s) := by
  have h2 := hf.two_le
  set t := s.stAll frmbuf f with ht
  have hbuf : InFrmbuf f t := inFrmbuf_stAll hf.toFramed
  have hlob : Lobby left hold t := h.of_quiet (local_stAll_frmbuf hf.toFramed).within
    (by rw [lobbyCell_iff]; decide) (by decide)
  have htype : t.rd (frmbuf + 1) = f.getD 1 0 := hbuf.rd (by omega)
  have hquiet : f.getD 1 0 ≠ ftPeerLeft → f.getD 1 0 ≠ ftState → ∀ {u : Cpu},
      Lobby left hold u → Lobby (leftStep left f) (holdStep hold f) u := fun h1 h2 u hu => by
    rw [holdStep_other (fun h => h2 h.1) fun h => h2 h.1, leftStep, if_neg (c := IsLeft f) h1]
    exact hu
  have hcount : t.rd netCount ≤ 4 := by
    rw [hlob.cells netCount (by decide), lobbyValue, if_pos rfl]
    decide
  rw [handle, ← ht]
  simp only [sesOnframe]
  rw [htype]
  split_ifs with c1 c2 c3 c4 c5 c6 c7 c8
  · exact hquiet (by rw [c1]; decide) (by rw [c1]; decide)
      (hlob.of_quiet (within_onInput t hcount) (by rw [lobbyCell_iff]; decide) (by decide))
  · exact hquiet (by rw [c2]; decide) (by rw [c2]; decide)
      (hlob.of_within (local_onLobby t).within (by rw [lobbyCell_iff]; decide)
        (rd_lobbyCnt_onLobby hlob.lobby))
  · exact absurd c3 hf.noStart
  · have hne : f.getD 1 0 ≠ ftState := by rw [c4]; decide
    rw [holdStep_other (fun h => hne h.1) fun h => hne h.1, leftStep, if_pos (c := IsLeft f) c4]
    exact lobby_onPeerLeft hlob
  · exact hquiet (by rw [c5]; decide) (by rw [c5]; decide)
      (hlob.of_quiet (within_onRoom_any t hlob.lobby) (by rw [lobbyCell_iff]; decide) (by decide))
  · exact hquiet (by rw [c6]; decide) (by rw [c6]; decide)
      (hlob.of_want (within_rsOnCrc t) (rd_rsPtmo_rsOnCrc (hlob.cells rsPtmo (by decide))))
  · have hmin : 3 ≤ f.getD 0 0 := by
      have := (flenOk_le hf.ok).2.2.1
      rw [c7] at this
      exact this
    have hne : ¬ IsLeft f := by
      unfold IsLeft
      rw [c7]
      decide
    rw [leftStep, if_neg hne]
    exact lobby_rsOnState hlob hbuf (by rw [hf.length]; omega) c7 hmin
  · exact hquiet (by rw [c8]; decide) (by rw [c8]; decide)
      (hlob.of_want (within_rsOnReq t) (rd_rsPtmo_rsOnReq (hlob.cells rsPtmo (by decide))))
  · exact hquiet c4 c7 hlob

theorem lobby_handleAll {l : List (List ℕ)} (h : Lobby left hold s) (hf : ∀ f ∈ l, Prematch f) :
    Lobby (l.foldl leftStep left) (l.foldl holdStep hold) (handleAll l s) := by
  induction l generalizing left hold s with
  | nil => exact h
  | cons f l ih =>
    exact ih (lobby_handle h (hf f (by simp))) fun g hg => hf g (by simp [hg])

theorem leftStep_foldl (fs : List (List ℕ)) :
    fs.foldl leftStep left = true ↔ left = true ∨ ∃ f ∈ fs, IsLeft f := by
  induction fs generalizing left with
  | nil => simp
  | cons f fs ih =>
    rw [List.foldl_cons, ih, leftStep]
    split_ifs with hl
    · simp [hl]
    · simp [hl]

/-! ### RS_PEND and the records -/

theorem askCell_iff {Q : ℕ → Prop} :
    (∀ a, AskCell a → Q a) ↔ Q rsPend ∧ ∀ i < 32, Q (ownCrc + i) := by
  constructor
  · exact fun h => ⟨h _ (Or.inl rfl), fun i hi => h _ (Or.inr ⟨by omega, by omega⟩)⟩
  · rintro ⟨hp, hc⟩ a (rfl | ⟨h1, h2⟩)
    · exact hp
    · have h := hc (a - ownCrc) (by omega)
      rwa [Nat.add_sub_cancel' h1] at h

theorem Asked.of_within {w : Wish} (h : Asked w s) (hw : Within P s t)
    (hP : ∀ a, AskCell a → ¬ P a) : Asked w t where
  pend := (hw.rd _ (hP _ (Or.inl rfl))).trans h.pend
  records a ha := (hw.rd _ (hP a (Or.inr ha))).trans (h.records a ha)

/-- What only starts the wish for a push leaves the records. -/
theorem Asked.of_want {w : Wish} (h : Asked w s) (hw : Within WantCell s t) (b : Bool)
    (hp : t.rd rsPend = b.toNat) : Asked { w with pend := b } t where
  pend := hp
  records a ha := by
    have hn : ∀ i < 32, ¬ WantCell (ownCrc + i) := by decide
    have h1 := hn (a - ownCrc) (by have := ha.2; omega)
    rw [Nat.add_sub_cancel' ha.1] at h1
    exact (hw.rd a h1).trans (h.records a ha)

/-- A record that is compared is one of the eight. -/
theorem crcCell_crcSlot (lo : ℕ) {i : ℕ} (hi : i < 4) : CrcCell (crcSlot lo + i) := by
  have h := Nat.mod_lt (lo / 64) (show 0 < 8 by decide)
  constructor <;> simp only [crcSlot] <;> omega

/-- The two tests of `RS_ON_CRC` against the record, from the frame and the records. -/
theorem Asked.differs {f : List ℕ} {w : Wish} (h : Asked w s) (hb : InFrmbuf f s)
    (hl : 7 ≤ f.length) :
    (recordTick s = frameTick s ∧ recordCrc s ≠ frameCrc s) ↔ Differs w.records f := by
  have hbyte : ∀ {x : ℕ}, 0x8000 ≤ x → x < 0xA000 → s.rd x < 256 := fun h1 h2 =>
    s.rd_lt_256 (Or.inr ⟨h1, h2⟩)
  have hrec : ∀ i < 4, s.rd (recordAt s + i) = w.records (crcSlot (f.getD 3 0) + i) ∧
      s.rd (recordAt s + i) < 256 := fun i hi => by
    have hc := crcCell_crcSlot (f.getD 3 0) hi
    have h3 : s.rd (frmbuf + 3) = f.getD 3 0 := hb.rd (by omega)
    rw [recordAt, h3]
    refine ⟨h.records _ hc, ?_⟩
    obtain ⟨h1, h2⟩ := hc
    simp only [ownCrc] at h1 h2
    exact hbyte (by omega) (by omega)
  have hfrm : ∀ i < 7, s.rd (frmbuf + i) = f.getD i 0 ∧ s.rd (frmbuf + i) < 256 := fun i hi =>
    ⟨hb.rd (by omega), hbyte (by simp only [frmbuf]; omega) (by simp only [frmbuf]; omega)⟩
  have hword : ∀ {a b c d : ℕ}, a < 256 → b < 256 → c < 256 → d < 256 →
      (word a b = word c d ↔ a = c ∧ b = d) := fun ha hb hc hd =>
    ⟨word_inj ha hc, fun h => by rw [h.1, h.2]⟩
  obtain ⟨r0, l0⟩ := hrec 0 (by decide)
  obtain ⟨r1, l1⟩ := hrec 1 (by decide)
  obtain ⟨r2, l2⟩ := hrec 2 (by decide)
  obtain ⟨r3, l3⟩ := hrec 3 (by decide)
  obtain ⟨f3, m3⟩ := hfrm 3 (by decide)
  obtain ⟨f4, m4⟩ := hfrm 4 (by decide)
  obtain ⟨f5, m5⟩ := hfrm 5 (by decide)
  obtain ⟨f6, m6⟩ := hfrm 6 (by decide)
  rw [Nat.add_zero] at r0 l0
  rw [recordTick, frameTick, recordCrc, frameCrc, Cpu.rd16, Cpu.rd16, Cpu.rd16, Cpu.rd16, Ne,
    hword l0 l1 m3 m4, hword l2 l3 m5 m6, Differs, r0, r1, r2, r3, f3, f4, f5, f6]
  tauto

theorem Lobby.rd_resyncHold (h : Lobby left hold s) : s.rd resyncHold = hold.toNat := by
  rw [h.cells resyncHold (by decide)]
  cases left <;> cases hold <;> rfl

/-- A frame that is neither BEGIN nor END. -/
theorem wishStep_other {w : Wish} {f : List ℕ} (h1 : ¬ IsBegin f) (h2 : ¬ IsEnd f) :
    wishStep w f =
      if w.hold = false ∧ (IsReq f ∨ f.getD 1 0 = ftCrc ∧ Differs w.records f) then
        { w with pend := true }
      else w := by
  rw [wishStep, if_neg h1, if_neg h2]

/-- A frame of another type. -/
theorem wishStep_quiet {w : Wish} {f : List ℕ} (h1 : f.getD 1 0 ≠ ftState)
    (h2 : f.getD 1 0 ≠ ftResync) (h3 : f.getD 1 0 ≠ ftCrc) : wishStep w f = w := by
  rw [wishStep_other (fun h => h1 h.1) fun h => h1 h.1, if_neg]
  rintro ⟨-, h | h⟩
  · exact h2 h
  · exact h3 h.1

theorem hold_wishStep (w : Wish) (f : List ℕ) : (wishStep w f).hold = holdStep w.hold f := by
  unfold wishStep holdStep
  split_ifs with h1 h2 h3
  · rfl
  · rfl
  · exact Bool.eq_false_iff.2 h3
  · rfl
  · rfl

/-- With the value that the wish ends with. -/
theorem Asked.of_wish {w w' : Wish} (h : Asked w s) (hw : Within WantCell s t)
    (hr : w'.records = w.records) (hp : t.rd rsPend = w'.pend.toNat) : Asked w' t where
  pend := hp
  records a ha := by rw [hr]; exact (h.of_want hw _ hp).records a ha

theorem asked_rsOnCrc {f : List ℕ} {w : Wish} (h : Asked w s) (hl : Lobby left w.hold s)
    (hb : InFrmbuf f s) (ht : f.getD 1 0 = ftCrc) (hlen : f.length = f.getD 0 0 + 1)
    (hmin : 6 ≤ f.getD 0 0) : Asked (wishStep w f) (rsOnCrc s) := by
  have hstate : ¬ f.getD 1 0 = ftState := by rw [ht]; decide
  have hreq : ¬ IsReq f := by unfold IsReq; rw [ht]; decide
  have h0 : s.rd frmbuf = f.getD 0 0 := hb.rd_zero (by omega)
  have hpend := rd_rsPend_rsOnCrc s (by omega)
  rw [hl.rd_resyncHold, h.pend] at hpend
  simp only [h.differs hb (by omega)] at hpend
  rw [wishStep_other (fun h => hstate h.1) fun h => hstate h.1]
  by_cases hc : w.hold = false ∧ (IsReq f ∨ f.getD 1 0 = ftCrc ∧ Differs w.records f)
  · obtain ⟨hh, hreq' | ⟨-, hd⟩⟩ := hc
    · exact absurd hreq' hreq
    · rw [if_pos ⟨hh, Or.inr ⟨ht, hd⟩⟩]
      refine h.of_wish (within_rsOnCrc s) rfl (hpend.trans ?_)
      cases hp : w.pend <;> simp [hh, hd]
  · rw [if_neg hc]
    refine h.of_wish (within_rsOnCrc s) rfl (hpend.trans (if_neg ?_))
    rintro ⟨h1, -, hd⟩
    refine hc ⟨?_, Or.inr ⟨ht, hd⟩⟩
    cases hw : w.hold
    · rfl
    · rw [hw] at h1
      cases h1

theorem asked_rsOnReq {f : List ℕ} {w : Wish} (h : Asked w s) (hl : Lobby left w.hold s)
    (ht : IsReq f) : Asked (wishStep w f) (rsOnReq s) := by
  have hstate : ¬ f.getD 1 0 = ftState := by
    unfold IsReq at ht
    rw [ht]
    decide
  have hseat : s.rd netSeat = 0 := by
    rw [hl.cells netSeat (by decide)]
    cases left <;> cases w.hold <;> rfl
  have hpend : (rsOnReq s).rd rsPend =
      if w.hold.toNat = 0 ∧ w.pend.toNat = 0 then 1 else w.pend.toNat := by
    have hp : ∀ u : Cpu, (((u.emit (.request (s.rd16 (frmbuf + 2) (frmbuf + 3)) true)).st rsPend 1).st
        rsPtmo 0).rd rsPend = 1 := fun u => by
      rw [Cpu.rd_st, if_neg (by decide)]
      simp [cellBits]
    rw [← hl.rd_resyncHold, ← h.pend]
    simp only [rsOnReq]
    by_cases hc : s.rd resyncHold = 0 ∧ s.rd rsPend = 0
    · rw [if_pos hc, if_neg (by simp [hseat, hc.1, hc.2]), hp]
    · rw [if_neg hc, if_pos]
      · rfl
      · by_cases h1 : s.rd resyncHold = 0
        · exact Or.inr (Or.inr fun h2 => hc ⟨h1, h2⟩)
        · exact Or.inr (Or.inl h1)
  rw [wishStep_other (fun h => hstate h.1) fun h => hstate h.1]
  cases hh : w.hold
  · rw [if_pos ⟨rfl, Or.inl ht⟩]
    refine h.of_wish (within_rsOnReq s) rfl (hpend.trans ?_)
    cases w.pend <;> simp [hh]
  · rw [if_neg fun h => absurd h.1 (by decide)]
    refine h.of_wish (within_rsOnReq s) rfl (hpend.trans (if_neg ?_))
    rw [hh]
    exact fun h => absurd h.1 (by decide)

/-- Wiped records. -/
theorem asked_begin {w : Wish} (h : Asked w s) : Asked ⟨true, w.pend, fun _ => 0xFF⟩
    (((rsEnterHold s).st rsRLo ((rsEnterHold s).rd (frmbuf + 4))).st rsRHi
      (((rsEnterHold s).st rsRLo ((rsEnterHold s).rd (frmbuf + 4))).rd (frmbuf + 5))) where
  pend := by
    rw [(local_beginFrame s).rd _ (by decide)]
    exact h.pend
  records a ha := by
    have hne : ∀ i < 32, ownCrc + i ≠ rsRLo ∧ ownCrc + i ≠ rsRHi := by decide
    have hn := hne (a - ownCrc) (by have := ha.2; omega)
    rw [Nat.add_sub_cancel' ha.1] at hn
    rw [Cpu.rd_st, if_neg hn.2, Cpu.rd_st, if_neg hn.1, rsEnterHold, rd_rsClrCrc _ ha]

theorem asked_rebase (s : Cpu) : Asked ⟨false, false, fun _ => 0xFF⟩ (rsRebase s) where
  pend := by
    have hset : ∀ t : Cpu, Local (fun a => DisplayCell a ∨ VectorCell a ∨ HookCell a) t
        (sbRebaseHook (rsClampIsr (rsDisplayReset t))) := fun t =>
      (((local_rsDisplayReset t).mono fun _ => Or.inl).trans
        ((local_rsClampIsr _).mono fun _ h => Or.inr (Or.inl h))).trans
          ((local_sbRebaseHook _).mono fun _ h => Or.inr (Or.inr h))
    rw [rd_rsRebase, (local_rsRestart _).rd _ (by decide), rsInstall, (hset _).rd _ (by decide),
      Cpu.rd_st, if_neg (by decide)]
    simp
  records a ha := by rw [rd_rsRebase, rd_rsRestart_crc _ ha]

/-- A chunk or a bad frame. -/
theorem asked_rsOnChunk {w : Wish} (h : Asked w s) : Asked w (rsOnChunk s) := by
  have hbad : ∀ {u : Cpu}, Asked w u → Asked w (rsBad u) := fun hu =>
    hu.of_within (local_rsBad_diag _).within (by rw [askCell_iff]; decide)
  have htmp : Asked w (s.st rsTmp2 (s.rd frmbuf - 3)) := by
    have hw : Local (· = rsTmp2) s (s.st rsTmp2 (s.rd frmbuf - 3)) := (Local.refl s).st (by rfl)
    exact h.of_within hw.within (by rw [askCell_iff]; decide)
  simp only [rsOnChunk]
  split_ifs with h1 h2 h3 h4
  · exact hbad h
  · exact hbad h
  · exact hbad htmp
  · exact hbad htmp
  · exact h.of_within (within_rsApply s (by simp only [imgTotal] at *; omega))
      (by rw [askCell_iff]; decide)

theorem asked_rsOnState {f : List ℕ} {w : Wish} (h : Asked w s) (hl : Lobby left w.hold s)
    (hf : InFrmbuf f s) (hlen : 4 ≤ f.length) (htype : f.getD 1 0 = ftState)
    (hmin : 3 ≤ f.getD 0 0) : Asked (wishStep w f) (rsOnState s) := by
  have h0 : s.rd frmbuf = f.getD 0 0 := hf.rd_zero (by omega)
  have h2 : s.rd (frmbuf + 2) = f.getD 2 0 := hf.rd (by omega)
  have h3 : s.rd (frmbuf + 3) = f.getD 3 0 := hf.rd (by omega)
  have hkeep : ¬ IsBegin f → ¬ IsEnd f → wishStep w f = w := fun hb he => by
    rw [wishStep_other hb he, if_neg]
    rintro ⟨-, hr | hr⟩
    · unfold IsReq at hr
      rw [htype] at hr
      cases hr
    · rw [htype] at hr
      cases hr.1
  rw [rsOnState, if_neg (by omega), h3]
  by_cases hctl : f.getD 3 0 = 0xFF
  · rw [if_pos hctl, rsOnControl, h0, h2]
    by_cases hb : f.getD 2 0 = 0
    · rw [if_pos hb]
      by_cases h5 : f.getD 0 0 < 5
      · rw [if_pos h5, hkeep (fun h => absurd h.2.2.2 (by omega)) fun h => absurd h.2.2 (by omega)]
        exact h.of_within (local_rsBad_diag _).within (by rw [askCell_iff]; decide)
      · rw [if_neg h5, wishStep, if_pos ⟨htype, hctl, hb, Nat.le_of_not_lt h5⟩]
        exact asked_begin h
    · rw [if_neg hb]
      by_cases he : f.getD 2 0 = 1
      · rw [if_neg (not_not.2 he), wishStep, if_neg fun h => hb h.2.2.1, if_pos ⟨htype, hctl, he⟩,
          hl.rd_resyncHold]
        cases w.hold
        · exact h
        · exact asked_rebase s
      · rw [if_pos he, hkeep (fun h => hb h.2.2.1) fun h => he h.2.2]
        exact h
  · rw [if_neg hctl, hkeep (fun h => hctl h.2.1) fun h => hctl h.2.1]
    exact asked_rsOnChunk h

theorem asked_handle {f : List ℕ} {w : Wish} (h : Asked w s) (hl : Lobby left w.hold s)
    (hf : Prematch f) : Asked (wishStep w f) (handle f s) := by
  have h2 := hf.two_le
  set t := s.stAll frmbuf f with ht
  have hbuf : InFrmbuf f t := inFrmbuf_stAll hf.toFramed
  have hin := local_stAll_frmbuf (s := s) hf.toFramed
  have hask : Asked w t := h.of_within hin.within (by rw [askCell_iff]; decide)
  have hlob : Lobby left w.hold t := hl.of_quiet hin.within (by rw [lobbyCell_iff]; decide)
    (by decide)
  have htype : t.rd (frmbuf + 1) = f.getD 1 0 := hbuf.rd (by omega)
  have hcount : t.rd netCount ≤ 4 := by
    rw [hlob.cells netCount (by decide), lobbyValue, if_pos rfl]
    decide
  have hleast := (flenOk_le hf.ok).2.2.1
  rw [handle, ← ht]
  simp only [sesOnframe]
  rw [htype]
  split_ifs with c1 c2 c3 c4 c5 c6 c7 c8
  · rw [wishStep_quiet (by rw [c1]; decide) (by rw [c1]; decide) (by rw [c1]; decide)]
    exact hask.of_within (within_onInput t hcount) (by rw [askCell_iff]; decide)
  · rw [wishStep_quiet (by rw [c2]; decide) (by rw [c2]; decide) (by rw [c2]; decide)]
    exact hask.of_within (local_onLobby t).within (by rw [askCell_iff]; decide)
  · exact absurd c3 hf.noStart
  · rw [wishStep_quiet (by rw [c4]; decide) (by rw [c4]; decide) (by rw [c4]; decide)]
    exact hask.of_within (local_onPeerLeft t).within (by rw [askCell_iff]; decide)
  · rw [wishStep_quiet (by rw [c5]; decide) (by rw [c5]; decide) (by rw [c5]; decide)]
    exact hask.of_within (within_onRoom_any t hlob.lobby) (by rw [askCell_iff]; decide)
  · rw [c6] at hleast
    exact asked_rsOnCrc hask hlob hbuf c6 hf.length hleast
  · rw [c7] at hleast
    have h3 : 3 ≤ f.getD 0 0 := hleast
    exact asked_rsOnState hask hlob hbuf (by rw [hf.length]; omega) c7 h3
  · exact asked_rsOnReq hask hlob c8
  · rw [wishStep_quiet c7 c8 c6]
    exact hask

theorem asked_handleAll {l : List (List ℕ)} {w : Wish} (h : Asked w s) (hl : Lobby left w.hold s)
    (hf : ∀ f ∈ l, Prematch f) : Asked (l.foldl wishStep w) (handleAll l s) := by
  induction l generalizing left w s with
  | nil => exact h
  | cons f l ih =>
    have hstep := lobby_handle hl (hf f List.mem_cons_self)
    rw [← hold_wishStep] at hstep
    exact ih (asked_handle h hl (hf f List.mem_cons_self)) hstep fun g hg =>
      hf g (List.mem_cons_of_mem _ hg)

theorem asked_loggedIn (name : List ℕ) (m : Mem) (rom : Rom) :
    Asked ⟨false, false, (loggedIn name m rom).cpu.rd⟩ (loggedIn name m rom).cpu where
  pend := by
    rw [rd_loggedIn (by decide) (by decide) (by decide)]
    rfl
  records _ _ := rfl

theorem lobby_loggedIn (name : List ℕ) (m : Mem) (rom : Rom) :
    Lobby false false (loggedIn name m rom).cpu := by
  refine ⟨fun a ha => ?_, ?_⟩
  · have hcell : ∀ b, LobbyCell b → 0x8080 ≤ b ∧ b < 0x8200 ∧ ¬ LoginCell b := by
      rw [lobbyCell_iff]; decide
    obtain ⟨h1, h2, h3⟩ := hcell a ha
    rw [rd_loggedIn h1 h2 h3]
    simp only [lobbyValue, Bool.toNat_false, ite_self]
  · rw [rd_loggedIn (by decide) (by decide) (by decide)]
    decide

end frames

/-! ### START -/

section start

variable {f : List ℕ}

/-- The cells that START sets. -/
def OpenCell (a : ℕ) : Prop :=
  a = netActive ∨ a = netSeat ∨ a = netCount ∨ a = netDelay ∨ a = tickLo ∨ a = tickHi ∨
    WmCell a ∨ RingCell a ∨ CrcCell a

/-- The controlling cells that START keeps. -/
def KeptCell (a : ℕ) : Prop :=
  a = netDropped ∨ a = resyncHold ∨ a = rsPend ∨ a = rsPtmo ∨ a = lsFroze ∨ a = lsWaitcLo ∨
    a = lsWaitcHi ∨ a = peerWhy ∨ a = peerScr

instance : DecidablePred KeptCell := fun a => by unfold KeptCell; infer_instance

theorem controlCell_iff {a : ℕ} : ControlCell a ↔ OpenCell a ∨ KeptCell a := by
  unfold ControlCell OpenCell KeptCell
  tauto

/-- START alone decides the cells that it sets. -/
theorem rd_onStart_congr {s t : Cpu} (hs : InFrmbuf f s) (ht : InFrmbuf f t)
    (hl : f.length = 39) (h0 : f.getD 0 0 = 38) {a : ℕ} (ha : OpenCell a) :
    (onStart s).rd a = (onStart t).rd a := by
  have hrd : ∀ {u : Cpu}, InFrmbuf f u → ∀ x, (onStart u).rd x = (takeStart u).rd x := fun hu x => by
    have : Cpu.rd _ frmbuf = f.getD 0 0 := hu.rd_zero (by omega)
    rw [onStart, if_neg (by omega), rd_noteStart]
  have hcell : ∀ i < 39, s.rd (frmbuf + i) = t.rd (frmbuf + i) := fun i hi => by
    rw [hs.rd (by omega), ht.rd (by omega)]
  have hbyte : ∀ (u : Cpu) {x : ℕ}, 0x8000 ≤ x → x < 0xA000 → u.rd x < 256 := fun u x h1 h2 =>
    u.rd_lt_256 (Or.inr ⟨h1, h2⟩)
  have htick := word_inj (hbyte (takeStart s) (x := tickLo) (by decide) (by decide))
    (hbyte (takeStart t) (x := tickLo) (by decide) (by decide))
    (tick_takeStart.trans tick_takeStart.symm)
  have hwm : ∀ i < 4, (takeStart s).wm i = (takeStart t).wm i := fun i hi => by
    rw [wm_takeStart hi, wm_takeStart hi, hcell 6 (by decide)]
  rw [hrd hs, hrd ht]
  rcases ha with rfl | rfl | rfl | rfl | rfl | rfl | hw | hr | hc
  · rw [rd_netActive_takeStart, rd_netActive_takeStart]
  · rw [rd_netSeat_takeStart, rd_netSeat_takeStart, hcell 2 (by decide)]
  · rw [rd_netCount_takeStart, rd_netCount_takeStart, hcell 3 (by decide)]
  · rw [rd_netDelay_takeStart, rd_netDelay_takeStart, hcell 6 (by decide)]
  · exact htick.1
  · exact htick.2
  · obtain ⟨h1, h2⟩ := hw
    simp only [seatWm] at h1 h2
    obtain ⟨i, hi, ha⟩ : ∃ i < 4, a = seatWm + 2 * i ∨ a = seatWm + 2 * i + 1 :=
      ⟨(a - 0x81A0) / 2, by omega, by simp only [seatWm]; omega⟩
    have h := word_inj (hbyte (takeStart s) (x := seatWm + 2 * i) (by omega)
      (by simp only [seatWm]; omega)) (hbyte (takeStart t) (x := seatWm + 2 * i) (by omega)
      (by simp only [seatWm]; omega)) (hwm i hi)
    rcases ha with rfl | rfl
    · exact h.1
    · exact h.2
  · rw [rd_takeStart_rings (Or.inl hr), rd_takeStart_rings (Or.inl hr)]
  · rw [rd_takeStart_rings (Or.inr hc), rd_takeStart_rings (Or.inr hc)]

/-- The console after a START that follows a history. -/
theorem handle_start {s : Cpu} (hf : Framed f) (ht : f.getD 1 0 = ftStart) :
    ∃ t, Local PumpCell s t ∧ InFrmbuf f t ∧ handle f s = onStart t := by
  have hbuf := inFrmbuf_stAll (s := s) hf
  refine ⟨_, local_stAll_frmbuf hf, hbuf, sesOnframe_start ?_⟩
  rw [hbuf.rd (by have := hf.two_le; omega), ht]

theorem lsEntry_top {s : Cpu} (h : s.rd peerScr = 0) :
    (lsEntry s).phase = .top ↔ s.rd netDropped = 0 ∧ s.rd resyncHold = 0 := by
  unfold lsEntry
  split_ifs <;> simp_all

end start

/-- What two consoles that have processed the same START agree on, and that both run the match. -/
def SameMatch (s t : Cpu) : Prop :=
  (∀ a, ControlCell a → s.rd a = t.rd a) ∧ (lsEntry s).phase = .top ∧ (lsEntry t).phase = .top

/-- A START after two histories, by what the histories left. -/
theorem sameMatch_iff {f : List ℕ} {l l' h h' : Bool} {s s' t t' : Cpu} (hl : Lobby l h s)
    (hl' : Lobby l' h' s') (ht : Local PumpCell s t) (ht' : Local PumpCell s' t')
    (hb : InFrmbuf f t) (hb' : InFrmbuf f t') (hlen : f.length = 39) (h0 : f.getD 0 0 = 38) :
    SameMatch (onStart t) (onStart t') ↔
      (l = false ∧ l' = false) ∧ h = false ∧ h' = false ∧ s.rd rsPend = s'.rd rsPend := by
  have hkept : ∀ a, KeptCell a → ¬ StartCell a ∧ ¬ PumpCell a ∧ (a = rsPend ∨ LobbyCell a) := by
    simp only [KeptCell, forall_eq_or_imp, forall_eq]
    decide
  have hrd : ∀ {u v : Cpu}, Local PumpCell u v → ∀ a, KeptCell a → (onStart v).rd a = u.rd a :=
    fun hv a ha => by rw [(within_onStart _).rd a (hkept a ha).1, hv.rd a (hkept a ha).2.1]
  have htop : ∀ {b c : Bool} {u v : Cpu}, Lobby b c u → Local PumpCell u v →
      ((lsEntry (onStart v)).phase = .top ↔ b = false ∧ c = false) := fun {b c u v} hu hv => by
    have hscr := hu.cells peerScr (by decide)
    have hdrop := hu.cells netDropped (by decide)
    have hhold := hu.cells resyncHold (by decide)
    rw [← hrd hv _ (by decide)] at hscr hdrop hhold
    rw [lsEntry_top hscr, hdrop, hhold]
    cases b <;> cases c <;> decide
  rw [SameMatch, htop hl ht, htop hl' ht']
  constructor
  · rintro ⟨hc, ⟨hl0, hh0⟩, hl0', hh0'⟩
    refine ⟨⟨hl0, hl0'⟩, hh0, hh0', ?_⟩
    rw [← hrd ht _ (by decide), ← hrd ht' _ (by decide)]
    exact hc _ (by decide)
  · rintro ⟨⟨rfl, rfl⟩, rfl, rfl, hpend⟩
    refine ⟨fun a ha => ?_, ⟨rfl, rfl⟩, rfl, rfl⟩
    rcases controlCell_iff.1 ha with ha | ha
    · exact rd_onStart_congr hb hb' hlen h0 ha
    · rw [hrd ht a ha, hrd ht' a ha]
      rcases (hkept a ha).2.2 with rfl | hc
      · exact hpend
      · rw [hl.cells a hc, hl'.cells a hc]

theorem toNat_inj {a b : Bool} : a.toNat = b.toNat ↔ a = b := by
  cases a <;> cases b <;> decide

theorem leftAfter_iff {fs gs : List (List ℕ)} :
    (fs.foldl leftStep false = false ∧ gs.foldl leftStep false = false) ↔
      ∀ g ∈ fs ++ gs, ¬ IsLeft g := by
  have h : ∀ hs : List (List ℕ), hs.foldl leftStep false = false ↔ ∀ g ∈ hs, ¬ IsLeft g := by
    intro hs
    rw [← Bool.not_eq_true, leftStep_foldl]
    simp
  rw [h, h]
  simp only [List.mem_append]
  constructor
  · rintro ⟨h1, h2⟩ g (hg | hg)
    · exact h1 g hg
    · exact h2 g hg
  · exact fun h => ⟨fun g hg => h g (Or.inl hg), fun g hg => h g (Or.inr hg)⟩

/-- **When START opens a fresh match**: exactly if neither history contains a PEER_LEFT or leaves a
transfer open, and the requests and the differing checksums of the two leave the same wish for a push. -/
theorem start_opens_fresh_match (name name' : List ℕ) (m m' : Mem) (rom rom' : Rom)
    (fs gs : List (List ℕ)) (f : List ℕ) (hfs : ∀ g ∈ fs, Prematch g) (hgs : ∀ g ∈ gs, Prematch g)
    (hf : Framed f) (hstart : f.getD 1 0 = ftStart) :
    SameMatch (handle f (handleAll fs (loggedIn name m rom).cpu))
        (handle f (handleAll gs (loggedIn name' m' rom').cpu)) ↔
      (∀ g ∈ fs ++ gs, ¬ IsLeft g) ∧ holdAfter fs = false ∧ holdAfter gs = false ∧
        pendAfter (loggedIn name m rom).cpu.rd fs = pendAfter (loggedIn name' m' rom').cpu.rd gs := by
  have hl := lobby_handleAll (lobby_loggedIn name m rom) hfs
  have hl' := lobby_handleAll (lobby_loggedIn name' m' rom') hgs
  obtain ⟨t, ht, hb, he⟩ := handle_start (s := handleAll fs (loggedIn name m rom).cpu) hf hstart
  obtain ⟨t', ht', hb', he'⟩ :=
    handle_start (s := handleAll gs (loggedIn name' m' rom').cpu) hf hstart
  have h0 : f.getD 0 0 = 38 := by
    have h := (flenOk_le hf.ok).2.2
    rw [hstart] at h
    have h1 : sesFlen.getD ftStart 0 = 0x2626 := rfl
    omega
  have hlen : f.length = 39 := by rw [hf.length, h0]
  have hw := asked_handleAll (asked_loggedIn name m rom) (lobby_loggedIn name m rom) hfs
  have hw' := asked_handleAll (asked_loggedIn name' m' rom') (lobby_loggedIn name' m' rom') hgs
  rw [he, he', sameMatch_iff hl hl' ht ht' hb hb' hlen h0, leftAfter_iff, hw.pend, hw'.pend,
    toNat_inj]
  rfl

/-! ### A PEER_LEFT in the lobby -/

/-- The PEER_LEFT that the relay sends: a seat and a name. -/
def leftOfSeat1 : List ℕ := [10, ftPeerLeft, 1, 0, 0, 0, 0, 0, 0, 0, 0]

theorem prematch_leftOfSeat1 : Prematch leftOfSeat1 := ⟨⟨by decide, by decide, by decide⟩, by decide⟩

/-- A START after a PEER_LEFT opens a match that is over. -/
theorem start_after_left : ¬ SameMatch (handle startOf2 (handleAll [leftOfSeat1] lobbyCpu))
    (handle startOf2 (handleAll [] lobbyCpu)) := by
  have hl := lobby_handleAll (lobby_loggedIn [] blank ⟨fun _ => 0, 0⟩) (l := [leftOfSeat1])
    (by simpa using prematch_leftOfSeat1)
  have hl' := lobby_handleAll (lobby_loggedIn [] blank ⟨fun _ => 0, 0⟩) (l := []) (by simp)
  obtain ⟨t, ht, hb, he⟩ := handle_start (s := handleAll [leftOfSeat1] lobbyCpu) framed_startOf2 rfl
  obtain ⟨t', ht', hb', he'⟩ := handle_start (s := handleAll [] lobbyCpu) framed_startOf2 rfl
  rw [he, he']
  intro h
  have hleft := ((sameMatch_iff hl hl' ht ht' hb hb' rfl rfl).1 h).1.1
  exact absurd hleft (by decide)

/-- A transfer of no bytes, and a request behind it. -/
def pushAndRequest : List (List ℕ) :=
  [[5, ftState, 0, 0xFF, 16, 0], [3, ftState, 1, 0xFF], [3, ftResync, 0, 0]]

/-- A room of two, the lobby with one other in it, and a checksum that no record has. -/
def roomAndCrc : List (List ℕ) :=
  [34 :: ftRoom :: 2 :: List.replicate 32 65, 11 :: ftLobby :: 1 :: List.replicate 9 66,
    [6, ftCrc, 1, 0, 0, 9, 9]]

theorem prematch_pushAndRequest : ∀ g ∈ pushAndRequest, Prematch g := by
  simp only [pushAndRequest, List.forall_mem_cons]
  exact ⟨⟨⟨by decide, by decide, by decide⟩, by decide⟩,
    ⟨⟨by decide, by decide, by decide⟩, by decide⟩,
    ⟨⟨by decide, by decide, by decide⟩, by decide⟩, by simp⟩

theorem prematch_roomAndCrc : ∀ g ∈ roomAndCrc, Prematch g := by
  simp only [roomAndCrc, List.forall_mem_cons]
  exact ⟨⟨⟨by decide, by decide, by decide⟩, by decide⟩,
    ⟨⟨by decide, by decide, by decide⟩, by decide⟩,
    ⟨⟨by decide, by decide, by decide⟩, by decide⟩, by simp⟩

/-- A START behind two histories that share no frame opens the same match on two consoles. -/
theorem start_opens_fresh_match_wish :
    SameMatch (handle startOf2 (handleAll pushAndRequest (loggedIn [] blank ⟨fun _ => 0, 0⟩).cpu))
      (handle startOf2 (handleAll roomAndCrc (loggedIn [66, 66] blank ⟨fun _ => 7, 0⟩).cpu)) :=
  (start_opens_fresh_match [] [66, 66] blank blank ⟨fun _ => 0, 0⟩ ⟨fun _ => 7, 0⟩ pushAndRequest
    roomAndCrc startOf2 prematch_pushAndRequest prematch_roomAndCrc framed_startOf2 rfl).2
    ⟨by decide, by decide, by decide, by decide +kernel⟩

end IntvNetplay.Console
