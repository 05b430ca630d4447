import IntvNetplay.Console.Seated
import IntvNetplay.Console.Start

/-!
# From the login to the first pass

A console that has just logged in, a START that arrives alone, and the run through the matched screen
up to the first call of `LS_PASS` while the mailbox stays silent.
-/

namespace IntvNetplay.Console

open IntvNetplay.Machine

/-! ### The login -/

/-- A console that has just logged in has an empty buffer. -/
theorem rxBytes_loggedIn (name : List ℕ) (m : Mem) (rom : Rom) :
    rxBytes (loggedIn name m rom).cpu = [] := by
  have hw : (loggedIn name m rom).cpu.rd rxWr = 0 := by
    rw [rd_loggedIn (by decide) (by decide) (by decide)]; decide
  have hr : (loggedIn name m rom).cpu.rd rxRd = 0 := by
    rw [rd_loggedIn (by decide) (by decide) (by decide)]; decide
  rw [rxBytes, buffered, hw, hr]
  rfl

/-! ### A START alone -/

section start

variable {s : Cpu} {seat count lo hi delay : ℕ} {names : List ℕ}

/-- The console after a pump that brought nothing but a START. -/
theorem sesPump_start (hs : rxBytes s = [])
    (hf : Framed (startFrame seat count lo hi delay names)) :
    ∃ t, Local PumpCell s t ∧ InFrmbuf (startFrame seat count lo hi delay names) t ∧
      sesPump (.gives (startFrame seat count lo hi delay names)) s = onStart t ∧
      rxBytes (onStart t) = [] := by
  have hlen : (startFrame seat count lo hi delay names).length = 39 := by
    rw [hf.length]
    rfl
  have htype : ∀ t, InFrmbuf (startFrame seat count lo hi delay names) t →
      t.rd (frmbuf + 1) = ftStart := fun t hbuf => hbuf.rd (by omega)
  obtain ⟨t, ht, hbuf, hpump, hrx⟩ := sesPump_one hs hf (by omega)
    fun t _ hbuf => keepsRx_start (htype t hbuf)
  rw [sesOnframe_start (htype t hbuf)] at hpump hrx
  exact ⟨t, ht, hbuf, hpump, hrx⟩

end start

/-! ### A silent mailbox -/

/-- The mailbox does not answer. -/
def Poll.silent : Poll := ⟨none, none⟩

theorem delivered_silent (s : Cpu) : delivered .silent s = [] := by
  have hok : (netStatus Poll.silent.status s).rd mbOk = 0 := by
    have hmb : ∀ u : Cpu, (mbTransact none u).rd mbOk = 0 := fun u => by
      simp only [mbTransact, diagBump]
      split <;> simp
    change (netStatus none s).rd mbOk = 0
    rw [netStatus, statusReply, if_pos (hmb _), Cpu.rd_st, if_neg (by decide), Cpu.rd_st,
      if_neg (by decide)]
    exact hmb _
  simp only [delivered, hok, true_or, if_true]

theorem sesPump_silent {s : Cpu} (h : rxBytes s = []) :
    Local MailCell s (sesPump .silent s) ∧ rxBytes (sesPump .silent s) = [] := by
  have hd := delivered_silent s
  have hfetch : sesFetch .silent s = sesRead .silent s := by rw [sesFetch_eq, hd, List.foldl_nil]
  have hrx : rxBytes (sesFetch .silent s) = [] := by rw [hfetch, rxBytes_sesRead, h]
  rw [sesPump, ppLoop_empty hrx]
  exact ⟨hfetch ▸ local_sesRead .silent s, hrx⟩

/-- What a console alone changes up to its first pass. -/
def WaitingCell (a : ℕ) : Prop := MailCell a ∨ a = sesTmrLo ∨ a < 0x8000

instance : DecidablePred WaitingCell := fun a => by unfold WaitingCell; infer_instance

theorem not_rxCell_waiting {a : ℕ} (h : RxCell a) : ¬ WaitingCell a := by
  simp only [RxCell, rxWr, rxRd, rxacc] at h
  simp only [WaitingCell, MailCell, sesTmrLo]
  omega

/-- The matched screen ends. -/
theorem reach_boot (W : World) (n : ℕ) {s : Cpu} (h : rxBytes s = [])
    (hn : s.rd sesTmrLo = n + 1) :
    ∃ t, Relation.ReflTransGen (fun n n' => n.phase = .matched ∧ Step W (some .silent) n n' ∧
      Local WaitingCell n.cpu n'.cpu) ⟨.matched, s⟩ ⟨.boot, t⟩ ∧ Local WaitingCell s t := by
  induction n generalizing s with
  | zero =>
    obtain ⟨hp, -⟩ := sesPump_silent h
    have htmr : (sesPump .silent s).rd sesTmrLo = 1 := by rw [hp.rd _ (by decide), hn]
    have hl : Local WaitingCell s (sesExit ((sesPump .silent s).st sesTmrLo 0)) :=
      (((hp.mono fun _ h => Or.inl h).st (by decide)).st (by decide)).st (by decide)
    refine ⟨sesExit ((sesPump .silent s).st sesTmrLo 0), .single ⟨rfl, .pump (r := 0) ?_, hl⟩, hl⟩
    simp only [afterPump, matchedRound, htmr]
    rfl
  | succ n ih =>
    obtain ⟨hp, hrx⟩ := sesPump_silent h
    have hlt : s.rd sesTmrLo < 256 := s.rd_lt_256 (by decide)
    have htmr : (sesPump .silent s).rd sesTmrLo = n + 2 := by rw [hp.rd _ (by decide), hn]
    have hdec : (n + 2 + 65535) % 65536 = n + 1 := by omega
    have hl : Local WaitingCell s ((sesPump .silent s).st sesTmrLo (n + 1)) :=
      (hp.mono fun _ h => Or.inl h).st (by decide)
    obtain ⟨t, hrun, ht⟩ := ih (s := (sesPump .silent s).st sesTmrLo (n + 1))
      ((rxBytes_local hl.within fun _ => not_rxCell_waiting).trans h) (by
        rw [Cpu.rd_st, if_pos rfl, cellBits_cart (by decide) (by decide)]
        exact Nat.mod_eq_of_lt (by omega))
    refine ⟨t, .head ⟨rfl, .pump (r := 0) ?_, hl⟩ hrun, hl.trans ht⟩
    simp only [afterPump, matchedRound, htmr, hdec]
    rw [if_neg (by omega)]

/-- The matched screen comes up and ends. -/
theorem reach_go {W : World} {s : Cpu} (h : rxBytes s = []) (hc : s.rd netActive ≠ 0)
    (hn : s.rd netCount ≤ 4) :
    ∃ t, Relation.ReflTransGen (fun n n' => n.phase = .matched ∧ Step W (some .silent) n n' ∧
      Local WaitingCell n.cpu n'.cpu) ⟨.matched, sesGo s⟩ ⟨.boot, t⟩ ∧
      Local (fun a => MenuCell a ∨ WaitingCell a) s t ∧ rxBytes t = [] := by
  have hgo := local_sesGo hc hn
  have htmr : (sesGo s).rd sesTmrLo = 149 + 1 := by
    have h : ∀ u : Cpu, (u.st sesTmrLo 150).rd sesTmrLo = 150 := fun u => by simp [cellBits]
    rw [sesGo, h]
  have hrx : rxBytes (sesGo s) = [] := by
    refine (rxBytes_local hgo.within fun a ha => ?_).trans h
    simp only [RxCell, rxWr, rxRd, rxacc] at ha
    simp only [MenuCell, RowCell, ScreenCell, MailCell, sesTmrLo, backtab, uiColor, ppTmp, menuSel,
      menuPrev]
    omega
  obtain ⟨t, hrun, ht⟩ := reach_boot W 149 hrx htmr
  refine ⟨t, hrun, ?_, ?_⟩
  · exact (hgo.mono fun _ => Or.inl).trans (ht.mono fun _ => Or.inr)
  · exact (rxBytes_local ht.within fun _ => not_rxCell_waiting).trans hrx

/-! ### The first pass -/

/-- The cells of a match. -/
def MatchCell (a : ℕ) : Prop :=
  RingCell a ∨ WmCell a ∨ CrcCell a ∨ a = netSeat ∨ a = netCount ∨ a = netDelay ∨ a = netActive ∨
    a = tickLo ∨ a = tickHi

/-- The cells that the entry tests of a pass read. -/
def EntryTest (a : ℕ) : Prop := a = netDropped ∨ a = resyncHold ∨ a = peerScr

/-- A pass begins where nothing is flagged. -/
theorem advance_entry_top {C : Cart} {s : Cpu} (h : ∀ a, EntryTest a → s.rd a = 0) :
    advance C ⟨.entry, s⟩ = some ⟨.top, s⟩ := by
  simp only [advance, lsEntry, h _ (Or.inl rfl), h _ (Or.inr (Or.inl rfl)), h _ (Or.inr (Or.inr rfl)),
    ne_eq, not_true, if_false]

theorem Opened.of_rd {seat count delay : ℕ} {s t : Cpu} (h : Opened seat count delay s)
    (hr : ∀ a, MatchCell a → t.rd a = s.rd a) : Opened seat count delay t where
  rdSeat := by rw [hr _ (by unfold MatchCell; simp), h.rdSeat]
  rdCount := by rw [hr _ (by unfold MatchCell; simp), h.rdCount]
  rdDelay := by rw [hr _ (by unfold MatchCell; simp), h.rdDelay]
  rdActive := by rw [hr _ (by unfold MatchCell; simp), h.rdActive]
  tick :=
    (Cpu.tick_congr (hr _ (by unfold MatchCell; simp)) (hr _ (by unfold MatchCell; simp))).trans h.tick
  wm i hi := by
    rw [← h.wm i hi]
    apply Cpu.wm_congr
    · exact hr _ (Or.inr (Or.inl ⟨by omega, by simp only [seatWm]; omega⟩))
    · exact hr _ (Or.inr (Or.inl ⟨by omega, by simp only [seatWm]; omega⟩))
  rings x hx := by
    rw [hr x (hx.elim Or.inl fun h => Or.inr (Or.inr (Or.inl h))), h.rings x hx]

theorem not_waiting_match {a : ℕ} (h : MatchCell a ∨ EntryTest a) : ¬ WaitingCell a := by
  simp only [MatchCell, EntryTest, RingCell, WmCell, CrcCell, seatRing, seatWm, ownCrc, netSeat,
    netCount, netDelay, netActive, tickLo, tickHi, netDropped, resyncHold, peerScr] at h
  simp only [WaitingCell, MailCell, sesTmrLo]
  omega

theorem not_menu_match {a : ℕ} (h : MatchCell a ∨ EntryTest a) : ¬ MenuCell a := by
  simp only [MatchCell, EntryTest, RingCell, WmCell, CrcCell, seatRing, seatWm, ownCrc, netSeat,
    netCount, netDelay, netActive, tickLo, tickHi, netDropped, resyncHold, peerScr] at h
  simp only [MenuCell, RowCell, ScreenCell, MailCell, sesTmrLo, backtab, uiColor, ppTmp, menuSel,
    menuPrev]
  omega

theorem mark_onStart {s : Cpu} (h : 38 ≤ s.rd frmbuf) : (onStart s).mark =
    { s.mark with
      epoch := s.mark.epoch + 1, ran := 0, rets := 0,
      heard := fun _ => (takeStart s).rd netDelay - 1 } := by
  have hnote : ∀ t : Cpu, (noteStart t).mark =
      { t.mark with
        epoch := t.mark.epoch + 1, ran := 0, rets := 0, heard := fun _ => t.rd netDelay - 1 } :=
    fun _ => rfl
  rw [onStart, if_neg (by omega), hnote, (local_takeStart s).mark]

/-- A console between its START and its first pump of a pass. -/
structure Kicked (seat count delay : ℕ) (s t : Cpu) : Prop extends Opened seat count delay t where
  rx : rxBytes t = []
  entry : ∀ a, EntryTest a → t.rd a = 0
  log : t.log = ⟨s.mark.epoch + 1, 0, 0, s.mark.raw, .start seat count delay⟩ :: s.log
  mark : t.mark =
    { s.mark with
      epoch := s.mark.epoch + 1, ran := 0, rets := 0, heard := fun _ => delay - 1 }

/-- A START that arrives alone in the lobby leads to the first pass. -/
theorem reach_top {W : World} {s : Cpu} {seat count lo hi delay : ℕ} {names : List ℕ}
    (hrx : rxBytes s = []) (hf : Framed (startFrame seat count lo hi delay names))
    (hc : count ≤ 4) (hz : ∀ a, EntryTest a → s.rd a = 0) (hboot : ∀ m, ∃ m', W.boot m m') :
    ∃ t, Relation.ReflTransGen (fun n n' => (n.phase ≠ .top ∧ n.phase ≠ .stall) ∧
      ∃ p, Step W p n n') ⟨.lobby, s⟩ ⟨.top, t⟩ ∧ Kicked seat count delay s t := by
  obtain ⟨t, hl, hbuf, hpump, hrest⟩ := sesPump_start hrx hf
  have hlen : 7 ≤ (startFrame seat count lo hi delay names).length := by
    rw [startFrame, List.length_append]
    exact Nat.le_add_right _ _
  have h38 : 38 ≤ t.rd frmbuf := Nat.le_of_eq (hbuf.rd_zero (by omega)).symm
  have hop := opened_onStart hbuf
  have hlog := log_onStart h38
  have hmark := mark_onStart h38
  have hhdr : (takeStart t).rd netSeat = seat ∧ (takeStart t).rd netCount = count ∧
      (takeStart t).rd netDelay = delay :=
    ⟨by rw [rd_netSeat_takeStart]; exact hbuf.rd (by omega),
      by rw [rd_netCount_takeStart]; exact hbuf.rd (by omega),
      by rw [rd_netDelay_takeStart]; exact hbuf.rd (by omega)⟩
  have hent : ∀ a, EntryTest a → (onStart t).rd a = 0 := fun a ha => by
    rw [(within_onStart t).rd a, hl.rd a, hz a ha]
    all_goals rcases ha with rfl | rfl | rfl <;> decide
  obtain ⟨u, hrun, hu, hrxu⟩ := reach_go (W := W) hrest (by rw [hop.rdActive]; decide)
    (by rw [hop.rdCount]; exact hc)
  obtain ⟨m', hb⟩ := hboot u.mem
  have hout := local_outside (s := u) (W.boot_get hb)
  have hcells : ∀ a, MatchCell a ∨ EntryTest a →
      (u.call fun _ => m').rd a = (onStart t).rd a := fun a ha => by
    rw [hout.rd a, hu.rd a (not_or.2 ⟨not_menu_match ha, not_waiting_match ha⟩)]
    have := not_waiting_match ha
    simp only [WaitingCell, not_or] at this
    exact this.2.2
  have hstart : Step W (some (.gives (startFrame seat count lo hi delay names)))
      ⟨.lobby, s⟩ ⟨.matched, sesGo (onStart t)⟩ := by
    refine .pump (r := 0) ?_
    rw [hpump, afterPump, lobbyRound, if_neg (by rw [hop.rdActive]; decide)]
  have hentry : advance W.cart ⟨.entry, u.call fun _ => m'⟩ =
      some ⟨.top, u.call fun _ => m'⟩ :=
    advance_entry_top fun a ha => (hcells a (Or.inr ha)).trans (hent a ha)
  refine ⟨u.call fun _ => m', ?_, hop.of_rd fun a ha => hcells a (Or.inl ha), ?_, ?_, ?_, ?_⟩
  · have hmid : Relation.ReflTransGen (fun n n' => (n.phase ≠ .top ∧ n.phase ≠ .stall) ∧
        ∃ p, Step W p n n') ⟨.matched, sesGo (onStart t)⟩ ⟨.boot, u⟩ :=
      Relation.ReflTransGen.mono (p := fun n n' => (n.phase ≠ .top ∧ n.phase ≠ .stall) ∧
        ∃ p, Step W p n n')
        (fun n n' h => ⟨⟨by rw [h.1]; decide, by rw [h.1]; decide⟩, _, h.2.1⟩) _ _ hrun
    have hph : ∀ ph, ph = .lobby ∨ ph = .boot ∨ ph = .entry → ph ≠ Phase.top ∧ ph ≠ .stall := by
      rintro ph (rfl | rfl | rfl) <;> decide
    refine .head ⟨hph _ (by simp), _, hstart⟩
      (.tail (.tail hmid ⟨hph _ (by simp), none, .boot hb⟩) ⟨hph _ (by simp), none, .own hentry⟩)
  · refine (rxBytes_local hout.within fun a ha => ?_).trans hrxu
    have := not_rxCell_waiting ha
    simp only [WaitingCell, not_or] at this
    exact this.2.2
  · exact fun a ha => (hcells a (Or.inr ha)).trans (hent a ha)
  · rw [hout.log, hu.log, hlog, hhdr.1, hhdr.2.1, hhdr.2.2, hl.mark, hl.log]
  · rw [hout.mark, hu.mark, hmark, hhdr.2.2, hl.mark]

end IntvNetplay.Console
