import IntvNetplay.Console.Duo

/-!
# How far two consoles are apart

What `Joined` says of the two tick counters: neither is more than the delay and one ahead of the other
(`skew_bounded`), and when both consoles wait at their gates the INPUT frames that both wait for are on
their way (`no_deadlock`).
-/

namespace IntvNetplay.Console

open IntvNetplay.Machine

/-! ### The gate of a console of two -/

/-- The console waits at `@@ls_gate`: it has captured and the gate is closed. -/
def Node.Blocked (n : Node) : Prop :=
  (n.phase = .gate ∨ n.phase = .stall) ∧ gateOpen n.cpu = false

/-- The bytes for a console that it has not handled yet. -/
def Duo.Pending (D : Duo) (i : Fin 2) : List ℕ := rxBytes (D.node i).cpu ++ D.wire i

/-- How many of the frames are INPUT frames. -/
def inputs (fs : List (List ℕ)) : ℕ := fs.countP fun f => f.getD 1 0 == ftInput

section gate

variable {me d k : ℕ} {own got l : List (ℕ × ℕ)} {s : Cpu} {fs : List (List ℕ)}

/-- A closed gate: the other seat's pair of this tick has not been taken. -/
theorem Playing.closed (h : Playing me d own got s) (hme : me < 2) (hd : 1 ≤ d)
    (hclosed : gateOpen s = false) : s.mark.ran = d + got.length := by
  have hnear := h.near
  have hfar := h.far
  by_contra hne
  refine Bool.false_ne_true (hclosed.symm.trans ?_)
  rw [gateOpen, h.two, Bool.or_eq_true, List.all_eq_true]
  right
  intro seat hseat
  rw [List.mem_range] at hseat
  rw [seatBehind, h.mine, Bool.not_eq_true', Bool.and_eq_false_iff, decide_eq_false_iff_not, not_not]
  by_cases heq : seat = me
  · exact .inl heq
  · right
    obtain rfl : seat = 1 - me := by omega
    rw [h.heard, h.ticks, ← Bool.not_eq_true, minus_sub16_iff (by omega) (by omega)]
    omega

theorem inputs_cons (f : List ℕ) :
    inputs (f :: fs) = inputs fs + if f.getD 1 0 = ftInput then 1 else 0 := by
  simp only [inputs, List.countP_cons, beq_iff_eq]

/-- A feed has as many INPUT frames as pairs. -/
theorem Feed.inputs (h : Feed me d k l fs) : inputs fs = l.length := by
  induction h with
  | done => rfl
  | input _ _ _ ih =>
    rw [inputs_cons, ih, if_pos (by rfl)]
    rfl
  | aside hf _ ih =>
    rw [inputs_cons, ih, if_neg, Nat.add_zero]
    rcases hf.type with ht | ht <;> rw [ht] <;> decide

/-- The first INPUT frame of a feed that has one. -/
theorem Feed.first (h : Feed me d k l fs) (hl : l ≠ []) : ∃ pre pr post,
    fs = pre ++ inputOf me (serial (d + k)) pr :: post ∧ Console.inputs pre = 0 := by
  induction h with
  | done => exact absurd rfl hl
  | @input k pr l fs _ _ _ _ => exact ⟨[], pr, fs, rfl, rfl⟩
  | @aside k f l fs hf _ ih =>
    obtain ⟨pre, pr, post, hfs, hpre⟩ := ih hl
    refine ⟨f :: pre, pr, post, by rw [hfs]; rfl, ?_⟩
    rw [inputs_cons, hpre, if_neg]
    rcases hf.type with ht | ht <;> rw [ht] <;> decide

end gate

/-! ### Two consoles -/

section joined

variable {d : ℕ} {own got : Fin 2 → List (ℕ × ℕ)} {D : Duo}

theorem Joined.taken_le (h : Joined d own got D) (i : Fin 2) :
    (got i).length ≤ (own (1 - i)).length := by
  obtain ⟨l, -, hl, -⟩ := h.flow i
  rw [hl, List.length_append]
  exact Nat.le_add_right _ _

/-- A console is ahead by the delay at most, and by one more where the other one has captured. -/
theorem Joined.ahead (h : Joined d own got D) (i : Fin 2) :
    (D.node i).cpu.mark.ran ≤ (D.node (1 - i)).cpu.mark.ran + d +
      if (D.node (1 - i)).phase = .gate ∨ (D.node (1 - i)).phase = .stall then 1 else 0 := by
  have hnear := (h.mate i).playing.near
  have htaken := h.taken_le i
  have hcap := (h.mate (1 - i)).captured
  omega

/-- The frames for a console that it has not handled yet. -/
theorem Joined.pending (h : Joined d own got D) (i : Fin 2) : ∃ l fs,
    (own (1 - i)).length = (got i).length + l.length ∧ Feed (1 - i : Fin 2) d (got i).length l fs ∧
      (∀ f ∈ fs, Framed f) ∧ D.Pending i = fs.flatten := by
  obtain ⟨l, fs, hl, hfeed, hal⟩ := h.flow i
  exact ⟨l, fs, by rw [hl, List.length_append], hfeed, hal.framed, hal.stream⟩

/-- A blocked console has taken all that the other one had captured when it fell behind. -/
theorem Joined.blocked (h : Joined d own got D) (hd : 1 ≤ d) {i : Fin 2} (hb : (D.node i).Blocked) :
    (D.node i).cpu.mark.ran = d + (got i).length ∧
      (own i).length = (D.node i).cpu.mark.ran + 1 := by
  have hcap := (h.mate i).captured
  rw [if_pos hb.1] at hcap
  exact ⟨(h.mate i).playing.closed i.isLt hd hb.2, hcap⟩

end joined

/-! ### The skew -/

/-- **The skew of the tick counters**: in every run without a resync and without a drop a console is ahead
of the other by no more than the delay, and by one more while the other one has captured and not run the
tick yet; and no more than `2 * d + 2` INPUT frames are on the way to either. -/
theorem skew_bounded (W : Fin 2 → World) (d : ℕ) (hd : 1 ≤ d) (hd' : d ≤ 120) (D D' : Duo)
    (h : D.Opening d) (hr : DuoRun W D D') (i : Fin 2) :
    (D'.node i).cpu.tick = serial (D'.node i).cpu.mark.ran ∧
    (D'.node i).cpu.mark.ran ≤ (D'.node (1 - i)).cpu.mark.ran + d +
      (if (D'.node (1 - i)).phase = .gate ∨ (D'.node (1 - i)).phase = .stall then 1 else 0) ∧
    ∃ fs, (∀ f ∈ fs, Framed f) ∧ D'.Pending i = fs.flatten ∧ inputs fs ≤ 2 * d + 2 := by
  obtain ⟨-, own, got, hj⟩ := joined_run (joined_opening h hd hd') hd hd' h.calm hr
  refine ⟨(hj.mate i).playing.ticks, hj.ahead i, ?_⟩
  obtain ⟨l, fs, hlen, hfeed, hframed, hpend⟩ := hj.pending i
  refine ⟨fs, hframed, hpend, ?_⟩
  have hnear := (hj.mate i).playing.near
  have hother := hj.ahead (1 - i)
  rw [other_other] at hother
  have hcap := (hj.mate (1 - i)).captured
  rw [hfeed.inputs]
  split_ifs at hother hcap <;> omega

/-- One console a tick ahead of the other. -/
theorem skew_bounded_start : ∃ D' : Duo, DuoRun (fun _ => stillWorld) duoStart D' ∧
    (D'.node 0).cpu.mark.ran = 1 ∧ (D'.node 0).cpu.tick = serial 1 ∧
    (D'.node 0).cpu.mark.ran ≤ (D'.node 1).cpu.mark.ran + 1 +
      (if (D'.node 1).phase = .gate ∨ (D'.node 1).phase = .stall then 1 else 0) := by
  obtain ⟨n, hrun, hran, -⟩ := duoStart_rest 0
  obtain ⟨D', hD, -, hn, -⟩ := duoRun_of_lone (W := fun _ => stillWorld) opening_duoStart.calm hrun
  obtain ⟨htick, hle, -⟩ := skew_bounded (fun _ => stillWorld) 1 (by decide) (by decide) duoStart D'
    opening_duoStart hD 0
  rw [← hn] at hran
  rw [hran] at htick
  exact ⟨D', hD, hran, htick, hle⟩

/-- **No deadlock**: whenever both consoles wait at closed gates, whole frames that neither has handled are
on their way to them, `2 * d + 2` INPUT frames in all and more than the delay to the one that is not
ahead; and the next INPUT frame for a console is the one of the tick it waits for. -/
theorem no_deadlock (W : Fin 2 → World) (d : ℕ) (hd : 1 ≤ d) (hd' : d ≤ 120) (D D' : Duo)
    (h : D.Opening d) (hr : DuoRun W D D') (hb : ∀ i, (D'.node i).Blocked) :
    ∃ fs : Fin 2 → List (List ℕ), (∀ i, (∀ f ∈ fs i, Framed f) ∧ D'.Pending i = (fs i).flatten) ∧
      inputs (fs 0) + inputs (fs 1) = 2 * d + 2 ∧
      (∀ i, (D'.node i).cpu.mark.ran ≤ (D'.node (1 - i)).cpu.mark.ran → d + 1 ≤ inputs (fs i)) ∧
      ∀ i, 0 < inputs (fs i) → ∃ pre pr post, inputs pre = 0 ∧
        fs i = pre ++ inputOf (1 - i : Fin 2) (serial (D'.node i).cpu.mark.ran) pr :: post := by
  obtain ⟨-, own, got, hj⟩ := joined_run (joined_opening h hd hd') hd hd' h.calm hr
  choose l fs hlen hfeed hframed hpend using hj.pending
  have hran : ∀ i, (D'.node i).cpu.mark.ran = d + (got i).length := fun i => (hj.blocked hd (hb i)).1
  have hown : ∀ i, (own i).length = d + (got i).length + 1 := fun i => by
    rw [(hj.blocked hd (hb i)).2, hran i]
  have hcount : ∀ i, inputs (fs i) = (l i).length := fun i => (hfeed i).inputs
  refine ⟨fs, fun i => ⟨hframed i, hpend i⟩, ?_, fun i hle => ?_, fun i hpos => ?_⟩
  · have h0 := hlen 0
    have h1 := hlen 1
    rw [show (1 : Fin 2) - 0 = 1 from rfl, hown] at h0
    rw [show (1 : Fin 2) - 1 = 0 from rfl, hown] at h1
    rw [hcount, hcount]
    omega
  · have hi := hlen i
    rw [hran, hran] at hle
    rw [hown] at hi
    rw [hcount]
    omega
  · rw [hcount] at hpos
    obtain ⟨pre, pr, post, hfs, hpre⟩ := (hfeed i).first (List.ne_nil_of_length_pos hpos)
    exact ⟨pre, pr, post, hpre, by rw [hfs, hran]⟩

/-- A console alone that rests goes on to its gate. -/
theorem lone_gate {n : Node} (h : n.Resting) (hlog : ∀ e ∈ n.cpu.log, e.ev.NoPush) : ∃ m,
    Relation.ReflTransGen (Lone stillWorld) n m ∧ m.phase = .gate ∧
      m.cpu.mark.ran = n.cpu.mark.ran := by
  obtain ⟨ph, s⟩ := n
  obtain rfl : ph = .idle := h.idle
  have hseat : s.rd netSeat < 4 := h.seat
  obtain ⟨hp, -⟩ := sesPump_silent h.rx
  have hcalm : ∀ ph, Node.Calm ⟨ph, s⟩ := fun _ => ⟨h.flags _ (by simp), hlog⟩
  have hcalm1 : ∀ ph, Node.Calm ⟨ph, sesPump .silent s⟩ := fun _ =>
    ⟨(hp.rd _ (by decide)).trans (h.flags _ (by simp)), by rw [hp.log]; exact hlog⟩
  have hentry : advance stillWorld.cart ⟨.entry, s⟩ = some ⟨.top, s⟩ :=
    advance_entry_top fun a ha => h.flags a (by simpa [EntryTest] using ha)
  have hnative : Lone stillWorld ⟨.idle, s⟩ ⟨.entry, s⟩ :=
    .of_local (p := none) (.native rfl) rfl (Local.refl s (P := MailCell)) (by decide) (hcalm _)
  have htop : Lone stillWorld ⟨.entry, s⟩ ⟨.top, s⟩ :=
    .of_local (p := none) (.own hentry) rfl (Local.refl s (P := MailCell)) (by decide) (hcalm _)
  have hpump : Lone stillWorld ⟨.top, s⟩ ⟨.send, sesPump .silent s⟩ :=
    .of_local (p := some .silent) (.pump (r := 0) rfl) (delivered_silent s) hp (by decide) (hcalm _)
  have hmark := hp.mark
  have hseat1 : (sesPump .silent s).rd netSeat < 4 := by
    rw [hp.rd _ (by decide)]
    exact hseat
  have hdrop1 := (hcalm1 .send).1
  have hlog1 := (hcalm1 .send).2
  dsimp only at hdrop1 hlog1
  generalize sesPump .silent s = u at *
  have hw := within_lsSend hseat1
  have hdrop2 : (lsSend u).rd netDropped = 0 := (hw.rd _ (by decide)).trans hdrop1
  have hlog2 : ∀ e ∈ (lsSend u).log, e.ev.NoPush := by
    rw [log_lsSend, log_lsCapture hseat1]
    exact noPush_cons trivial hlog1
  have hsend : Lone stillWorld ⟨.send, u⟩ ⟨.gate, lsSend u⟩ :=
    .own (advance_send _ _) (tx_lsSend hseat1) hdrop2 hlog2
  refine ⟨⟨.gate, lsSend u⟩, ?_, rfl, ?_⟩
  · exact .tail (.tail (.tail (.single hnative) htop) hpump) hsend
  · exact congrArg Mark.ran ((mark_lsSend hseat1).trans hmark)

theorem mark_ran_duoStart (i : Fin 2) : (duoStart.node i).cpu.mark.ran = 0 := by
  revert i
  decide +kernel

/-- With a delay of 1 either console alone is blocked after its first tick. -/
theorem duoStart_blocked (i : Fin 2) : ∃ n,
    Relation.ReflTransGen (Lone stillWorld) (duoStart.node i) n ∧ n.Blocked := by
  obtain ⟨n, hrun, hran, hrest, -⟩ := duoStart_rest i
  obtain ⟨D₁, -, hcalm, hn, -⟩ :=
    duoRun_of_lone (W := fun _ => stillWorld) opening_duoStart.calm hrun
  have hlog := (hcalm i).2
  rw [hn] at hlog
  obtain ⟨m, hgate, hph, hm⟩ := lone_gate hrest hlog
  obtain ⟨D₂, hD, hcalm₂, hm₂, hother, -⟩ :=
    duoRun_of_lone (W := fun _ => stillWorld) opening_duoStart.calm (hrun.trans hgate)
  refine ⟨m, hrun.trans hgate, .inl hph, ?_⟩
  by_contra hopen
  obtain ⟨-, own, got, hj⟩ := joined_run (joined_opening opening_duoStart (by decide) (by decide))
    (by decide) (by decide) opening_duoStart.calm hD
  -- The other console has captured nothing.
  have hown := (hj.mate (1 - i)).captured
  have htaken := hj.taken_le i
  have hzero := mark_ran_duoStart (1 - i)
  have hlobby : (duoStart.node (1 - i)).phase = .lobby := rfl
  rw [hother, hzero, hlobby, if_neg (by decide)] at hown
  have hlt := (hj.mate i).playing.open i.isLt
    (by rw [hm₂]; exact (Bool.not_eq_false _).mp hopen) (hcalm₂ i).1 (by decide)
  rw [hm₂, hm, hran] at hlt
  omega

theorem no_deadlock_start : ∃ D' : Duo, DuoRun (fun _ => stillWorld) duoStart D' ∧
    (∀ i, (D'.node i).Blocked) ∧ ∃ fs : Fin 2 → List (List ℕ),
      (∀ i, D'.Pending i = (fs i).flatten) ∧ inputs (fs 0) + inputs (fs 1) = 4 := by
  obtain ⟨n₀, hrun₀, hb₀⟩ := duoStart_blocked 0
  obtain ⟨n₁, hrun₁, hb₁⟩ := duoStart_blocked 1
  obtain ⟨D₁, hD₁, hcalm₁, h₀, ho, -⟩ :=
    duoRun_of_lone (W := fun _ => stillWorld) opening_duoStart.calm hrun₀
  have hnode : D₁.node 1 = duoStart.node 1 := ho
  rw [← hnode] at hrun₁
  obtain ⟨D₂, hD₂, -, h₁, ho₂, -⟩ := duoRun_of_lone (W := fun _ => stillWorld) hcalm₁ hrun₁
  have hnode₂ : D₂.node 0 = n₀ := Eq.trans ho₂ h₀
  have hb : ∀ i, (D₂.node i).Blocked :=
    Fin.forall_fin_two.2 ⟨by rw [hnode₂]; exact hb₀, by rw [h₁]; exact hb₁⟩
  obtain ⟨fs, hfs, hsum, -⟩ := no_deadlock (fun _ => stillWorld) 1 (by decide) (by decide) duoStart D₂
    opening_duoStart (hD₁.trans hD₂) hb
  exact ⟨D₂, hD₁.trans hD₂, hb, fs, fun i => (hfs i).2, hsum⟩

end IntvNetplay.Console
