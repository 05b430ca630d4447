import IntvNetplay.Console.Playing

/-!
# A console and the frames of the other seat

What a seat sends in a match without a resync is one INPUT a capture, in order, and checksums and
requests between them (`Feed`).  A pump takes a part of it, a step of the console's own may add to what
it sends, and the log tells of captures, shadows and dispatches what the lists of pairs say (`Mate`).
-/

namespace IntvNetplay.Console

open IntvNetplay.Machine

/-! ### The frames of a seat -/

/-- The INPUT frame of a seat for a tick. -/
def inputOf (seat tick : ℕ) (pr : ℕ × ℕ) : List ℕ :=
  [6, ftInput, seat, tick % 256, tick / 256, pr.1, pr.2]

/-- A frame of a match without a resync that is no INPUT. -/
structure Aside (f : List ℕ) : Prop where
  framed : Framed f
  type : f.getD 1 0 = ftCrc ∨ f.getD 1 0 = ftResync

/-- The frames that a seat sends from its `k`-th capture on: one INPUT a capture, in order, and others
between them. -/
inductive Feed (seat d : ℕ) : ℕ → List (ℕ × ℕ) → List (List ℕ) → Prop where
  | done {k : ℕ} : Feed seat d k [] []
  | input {k : ℕ} {pr : ℕ × ℕ} {l : List (ℕ × ℕ)} {fs : List (List ℕ)} : pr.1 < 256 → pr.2 < 256 →
      Feed seat d (k + 1) l fs → Feed seat d k (pr :: l) (inputOf seat (serial (d + k)) pr :: fs)
  | aside {k : ℕ} {f : List ℕ} {l : List (ℕ × ℕ)} {fs : List (List ℕ)} : Aside f →
      Feed seat d k l fs → Feed seat d k l (f :: fs)

section feed

variable {seat d k : ℕ} {l m : List (ℕ × ℕ)} {fs gs : List (List ℕ)}

theorem framed_inputOf {pr : ℕ × ℕ} (hs : seat < 2) (h1 : pr.1 < 256) (h2 : pr.2 < 256) (n : ℕ) :
    Framed (inputOf seat (serial n) pr) := by
  have hok : flenOk 6 ftInput = true := by decide
  refine ⟨rfl, hok, fun b hb => ?_⟩
  have hlt : serial n < 65536 := Nat.mod_lt _ (by decide)
  simp only [inputOf, ftInput, List.mem_cons, List.not_mem_nil, or_false] at hb
  omega

theorem Feed.framed (hs : seat < 2) (h : Feed seat d k l fs) : ∀ f ∈ fs, Framed f := by
  induction h with
  | done => exact fun f hf => absurd hf List.not_mem_nil
  | input h1 h2 _ ih => exact List.forall_mem_cons.2 ⟨framed_inputOf hs h1 h2 _, ih⟩
  | aside hf _ ih => exact List.forall_mem_cons.2 ⟨hf.framed, ih⟩

/-- What is sent goes to the end. -/
theorem Feed.append (h : Feed seat d k l fs) (h' : Feed seat d (k + l.length) m gs) :
    Feed seat d k (l ++ m) (fs ++ gs) := by
  induction h with
  | done => exact h'
  | input h1 h2 _ ih =>
    refine .input h1 h2 (ih ?_)
    rwa [List.length_cons, Nat.add_comm _ 1, ← Nat.add_assoc] at h'
  | aside hf _ ih => exact .aside hf (ih h')

theorem Feed.of_asides (h : ∀ f ∈ fs, Aside f) : Feed seat d k [] fs := by
  induction fs with
  | nil => exact .done
  | cons f fs ih =>
    obtain ⟨hf, hfs⟩ := List.forall_mem_cons.1 h
    exact .aside hf (ih hfs)

end feed

/-! ### The log -/

/-- An entry that is no capture, no shadow and no dispatch, and no push. -/
def Ev.Mute : Ev → Prop
  | .capture _ _ _ _ | .shadow _ _ _ _ | .dispatch _ _ _ _ _ => False
  | _ => True

/-- What an entry says of captures, shadows and dispatches is what the lists say. -/
def Told (me d : ℕ) (own got : List (ℕ × ℕ)) (e : Stamped) : Prop :=
  match e.ev with
  | .capture dec kp _ _ => own[e.ran]? = some (dec, kp)
  | .shadow l r kl kr => e.ran < d + own.length ∧ e.ran < d + got.length ∧
      (l, kl) = seatLine me d own got 0 (256 + e.ran) ∧ (r, kr) = seatLine me d own got 1 (256 + e.ran)
  | .dispatch seat cur prev kp kpPrev => seat < 2 ∧ e.ran < d + own.length ∧ e.ran < d + got.length ∧
      (cur, kp) = seatLine me d own got seat (256 + e.ran) ∧
        (prev, kpPrev) = seatLine me d own got seat (255 + e.ran)
  | _ => True

section told

variable {me d : ℕ} {own got : List (ℕ × ℕ)} {e : Stamped}

theorem Told.of_mute (h : e.ev.Mute) : Told me d own got e := by
  unfold Told
  cases hev : e.ev <;> rw [hev] at h <;> first | exact h.elim | trivial

theorem seatLine_append {seat x : ℕ} (o g : List (ℕ × ℕ)) (h1 : x < 256 + d + own.length)
    (h2 : x < 256 + d + got.length) :
    seatLine me d (own ++ o) (got ++ g) seat x = seatLine me d own got seat x := by
  unfold seatLine
  split_ifs
  · exact line_append h1
  · exact line_append h2

/-- What has been told stays true as the lists grow. -/
theorem Told.append (h : Told me d own got e) (o g : List (ℕ × ℕ)) :
    Told me d (own ++ o) (got ++ g) e := by
  unfold Told at h ⊢
  cases hev : e.ev <;> simp only [hev] at h ⊢
  case capture dec kp _ _ =>
    obtain ⟨hlt, heq⟩ := List.getElem?_eq_some_iff.1 h
    rw [List.getElem?_append_left hlt, h]
  case shadow =>
    obtain ⟨h1, h2, h3, h4⟩ := h
    rw [seatLine_append o g (by omega) (by omega), seatLine_append o g (by omega) (by omega)]
    exact ⟨by rw [List.length_append]; omega, by rw [List.length_append]; omega, h3, h4⟩
  case dispatch =>
    obtain ⟨h0, h1, h2, h3, h4⟩ := h
    rw [seatLine_append o g (by omega) (by omega), seatLine_append o g (by omega) (by omega)]
    exact ⟨h0, by rw [List.length_append]; omega, by rw [List.length_append]; omega, h3, h4⟩

end told

/-! ### A pump -/

section pump

variable {me d : ℕ} {own got : List (ℕ × ℕ)} {s t : Cpu}

theorem mute_noted (e : Ev) (h : e.Noted) : e.Mute := by cases e <;> trivial

theorem asides_rsWant (s : Cpu) : ∃ msgs : List (List ℕ), (∀ g ∈ msgs, Aside g) ∧
    (rsWant s).tx = s.tx ++ msgs.flatten := by
  unfold rsWant
  dsimp only
  split_ifs with hseat
  · exact ⟨[], fun g hg => absurd hg List.not_mem_nil, (List.append_nil _).symm⟩
  · set u := ((s.emit (.mismatch (frameTick s) (recordCrc s) (frameCrc s))).st rsPend 1).st rsPtmo 0
    have h3 : u.rd (frmbuf + 3) < 256 := u.rd_lt_256 (by decide)
    have h4 : u.rd (frmbuf + 4) < 256 := u.rd_lt_256 (by decide)
    have hlt : ∀ b ∈ [3, ftResync, u.rd (frmbuf + 3), u.rd (frmbuf + 4)], b < 256 := by
      intro b hb
      simp only [ftResync, List.mem_cons, List.not_mem_nil, or_false] at hb
      omega
    have hok : flenOk 3 ftResync = true := by decide
    refine ⟨[[3, ftResync, u.rd (frmbuf + 3), u.rd (frmbuf + 4)]], fun g hg => ?_, ?_⟩
    · rw [List.mem_singleton.1 hg]
      exact ⟨⟨rfl, hok, hlt⟩, .inr rfl⟩
    · have hn : [3, ftResync, u.rd (frmbuf + 3), u.rd (frmbuf + 4)].length < 256 := by
        simp only [List.length_cons, List.length_nil]
        decide
      rw [tx_sendFrame _ hn hlt, List.flatten_singleton]
      rfl

/-- A frame that is no INPUT changes nothing of the match, and may be answered. -/
theorem aside_frame {f : List ℕ} (h : Playing me d own got t) (hme : me < 2) (hf : Aside f)
    (hin : InFrmbuf f t) : KeepsRx t ∧ Playing me d own got (sesOnframe t) ∧
      (sesOnframe t).mark = t.mark ∧ Adds Ev.Mute t (sesOnframe t) ∧
      ∃ msgs : List (List ℕ), (∀ g ∈ msgs, Aside g) ∧ (sesOnframe t).tx = t.tx ++ msgs.flatten := by
  have h1 : t.rd (frmbuf + 1) = f.getD 1 0 := hin 1 hf.framed.two_le
  have hne : t.rd (frmbuf + 1) ≠ ftInput := by
    rw [h1]
    rcases hf.type with h | h <;> rw [h] <;> decide
  have hadds : Adds Ev.Mute t (sesOnframe t) := (adds_sesOnframe t hne).mono mute_noted
  have hrx : ∀ a, RxCell a → ¬ WantCell a := fun a ha hw => by
    simp only [RxCell, rxWr, rxRd, rxacc] at ha
    simp only [WantCell, MailCell, rsPend, rsPtmo] at hw
    omega
  have hquiet : ∀ a, WantCell a → QuietCell a := fun _ ha => by unfold QuietCell; tauto
  have hkeep : ∀ {u : Cpu}, sesOnframe t = u → Within WantCell t u → u.mark = t.mark →
      KeepsRx t ∧ Playing me d own got (sesOnframe t) ∧ (sesOnframe t).mark = t.mark := by
    intro u hu hw hm
    refine ⟨fun a ha => ?_, ?_, ?_⟩
    · rw [hu, hw.rd a (hrx a ha)]
    · rw [hu]
      refine h.of_within hme hw hquiet ?_ (by rw [hm])
      rw [hw.rd _ (by decide)]
      exact h.lobby
    · rw [hu, hm]
  rcases hf.type with htype | htype
  · have hon : sesOnframe t = rsOnCrc t := by
      unfold sesOnframe
      dsimp only
      rw [h1, htype]
      rfl
    obtain ⟨hk, hp, hm⟩ := hkeep hon (within_rsOnCrc t) (mark_rsOnCrc t)
    refine ⟨hk, hp, hm, hadds, ?_⟩
    rw [hon]
    have hself : ∃ msgs : List (List ℕ), (∀ g ∈ msgs, Aside g) ∧ t.tx = t.tx ++ msgs.flatten :=
      ⟨[], fun g hg => absurd hg List.not_mem_nil, (List.append_nil _).symm⟩
    unfold rsOnCrc
    dsimp only
    split_ifs
    · exact hself
    · exact hself
    · exact hself
    · exact hself
    · exact hself
    · exact asides_rsWant (t.emit (.crcIn (frameTick t) (frameCrc t)))
  · have hon : sesOnframe t = rsOnReq t := by
      unfold sesOnframe
      dsimp only
      rw [h1, htype]
      rfl
    obtain ⟨hk, hp, hm⟩ := hkeep hon (within_rsOnReq t) (mark_rsOnReq t)
    refine ⟨hk, hp, hm, hadds, [], fun g hg => absurd hg List.not_mem_nil, ?_⟩
    rw [hon]
    unfold rsOnReq
    split_ifs
    · exact (List.append_nil _).symm
    · exact (List.append_nil _).symm

/-- What a pump leaves behind when the given pairs may still come. -/
def Pumped (me d : ℕ) (own got l : List (ℕ × ℕ)) (s t : Cpu) (fs : List (List ℕ)) : Prop :=
  ∃ new rest, l = new ++ rest ∧ Playing me d own (got ++ new) t ∧
    Feed (1 - me) d (got.length + new.length) rest fs ∧ t.mark.ran = s.mark.ran ∧
      Adds Ev.Mute s t ∧ ∃ msgs : List (List ℕ), (∀ g ∈ msgs, Aside g) ∧ t.tx = s.tx ++ msgs.flatten

/-- A frame of the other seat. -/
theorem pumped_frame {l : List (ℕ × ℕ)} {f : List ℕ} {fs : List (List ℕ)} (hme : me < 2) (hd : 1 ≤ d)
    (hroom : d + got.length + l.length ≤ 255 + s.mark.ran) (h : Pumped me d own got l s t (f :: fs))
    (hf : Framed f) (hin : InFrmbuf f (ppExtract f.length t)) :
    KeepsRx (ppExtract f.length t) ∧
      Pumped me d own got l s (sesOnframe (ppExtract f.length t)) fs := by
  obtain ⟨new, rest, rfl, hplay, hfeed, hran, hadds, msgs, hmsgs, htx⟩ := h
  have hlen := hf.length_le
  have hmove := local_ppExtract (s := t) (n := f.length) (by omega)
  generalize ppExtract f.length t = u at hin hmove ⊢
  have hplayu : Playing me d own (got ++ new) u := by
    refine hplay.of_within hme hmove.within (fun _ ha => Or.inl ha) ?_ (by rw [hmove.mark])
    rw [hmove.rd _ (by decide)]
    exact hplay.lobby
  have haddsu : Adds Ev.Mute s u := hadds.trans (Adds.of_log hmove.log)
  have hranu : u.mark.ran = s.mark.ran := by rw [hmove.mark, hran]
  have htxu : u.tx = s.tx ++ msgs.flatten := hmove.tx.trans htx
  cases hfeed with
  | @aside _ _ _ _ hside hrest =>
    obtain ⟨hk, hp, hm, ha, more, hmore, htx'⟩ := aside_frame hplayu hme hside hin
    refine ⟨hk, new, rest, rfl, hp, hrest, by rw [hm, hranu], haddsu.trans ha, msgs ++ more,
      fun g hg => ?_, ?_⟩
    · exact (List.mem_append.1 hg).elim (hmsgs g) (hmore g)
    · rw [htx', htxu, List.flatten_append, List.append_assoc]
  | @input _ pr rest' _ h1 h2 hrest =>
    have hcell : ∀ i < 7, u.rd (frmbuf + i) =
        (inputOf (1 - me) (serial (d + (got.length + new.length))) pr).getD i 0 := hin
    have htype : u.rd (frmbuf + 1) = ftInput := hcell 1 (by decide)
    have hlt : serial (d + (got.length + new.length)) < 65536 := Nat.mod_lt _ (by decide)
    have htick : frameTick u = serial (d + (got ++ new).length) := by
      rw [frameTick, Cpu.rd16, hcell 3 (by decide), hcell 4 (by decide), List.length_append]
      simp only [inputOf, word, List.getD_cons_succ, List.getD_cons_zero]
      omega
    have hpair : framePair u = pr := by
      rw [framePair, hcell 5 (by decide), hcell 6 (by decide)]
      rfl
    have h0 : u.rd frmbuf = 6 := hcell 0 (by decide)
    have hroomu : d + (got ++ new).length < 255 + u.mark.ran := by
      rw [hranu, List.length_append]
      simp only [List.length_append, List.length_cons] at hroom
      omega
    obtain ⟨hon, hp⟩ := hplayu.input hme hd (by omega) (hcell 2 (by decide)) htick hpair hroomu
    have honframe : sesOnframe u = acceptInput u := by
      unfold sesOnframe
      dsimp only
      rw [if_pos htype, hon]
    have hf4 : u.rd (frmbuf + 2) < 4 := by
      rw [hcell 2 (by decide)]
      change 1 - me < 4
      omega
    have hw := within_acceptInput hf4
    rw [honframe]
    refine ⟨fun a ha => ?_, new ++ [pr], rest', by rw [List.append_assoc]; rfl, ?_, ?_, ?_, ?_, msgs,
      hmsgs, ?_⟩
    · rw [honframe]
      refine hw.rd a fun hi => ?_
      simp only [RxCell, rxWr, rxRd, rxacc] at ha
      simp only [InputCell, RingCell, WmCell, seatRing, seatWm] at hi
      omega
    · rw [← List.append_assoc]
      exact hp
    · rw [List.length_append, List.length_singleton, ← Nat.add_assoc]
      exact hrest
    · rw [mark_acceptInput]
      exact hranu
    · obtain ⟨m, a, a', w, hlog⟩ := log_acceptInput u
      have hinput : Adds Ev.Mute s (noteHeard (u.emit (inputEv u true))) := haddsu.cons rfl trivial
      exact hinput.cons hlog trivial
    · rw [tx_acceptInput]
      exact htxu

theorem pumped_sesPump {l : List (ℕ × ℕ)} {fs : List (List ℕ)} {unread : List ℕ} {p : Poll}
    (hme : me < 2) (hd : 1 ≤ d) (h : Playing me d own got s)
    (hroom : d + got.length + l.length ≤ 255 + s.mark.ran) (hfeed : Feed (1 - me) d got.length l fs)
    (hal : Aligned (delivered p s ++ unread) fs s) (hread : (delivered p s).length ≤ 64) :
    ∃ gs, Pumped me d own got l s (sesPump p s) gs ∧ Aligned unread gs (sesPump p s) := by
  have hfetch := local_sesFetch p s
  have hstart : Pumped me d own got l s (sesFetch p s) fs := by
    refine ⟨[], l, rfl, ?_, hfeed, by rw [hfetch.mark], Adds.of_log hfetch.log, [],
      fun g hg => absurd hg List.not_mem_nil, ?_⟩
    · rw [List.append_nil]
      refine h.of_within hme hfetch.within (fun _ ha => Or.inl ha) ?_ (by rw [hfetch.mark])
      rw [hfetch.rd _ (by decide)]
      exact h.lobby
    · rw [hfetch.tx]
      exact (List.append_nil _).symm
  obtain ⟨-, gs, hp, hal'⟩ := sesPump_frames (P := fun _ t fs => Pumped me d own got l s t fs) hal hread
    hstart fun _ t f fs ht hf hin _ => pumped_frame hme hd hroom ht hf hin
  exact ⟨gs, hp, hal'⟩

end pump

/-! ### A step -/

/-- A console of a match between two steps. -/
structure Mate (me d : ℕ) (own got : List (ℕ × ℕ)) (n : Node) : Prop where
  playing : Playing me d own got n.cpu
  captured : own.length = n.cpu.mark.ran + if n.phase = .gate ∨ n.phase = .stall then 1 else 0
  told : ∀ e ∈ n.cpu.log, Told me d own got e
  logged : ∀ k pr, own[k]? = some pr → ∃ e ∈ n.cpu.log, e.ran = k ∧ ∃ a a', e.ev = .capture pr.1 pr.2 a a'

/-- No push. -/
def Ev.NoPush : Ev → Prop
  | .push _ => False
  | _ => True

section step

variable {me d : ℕ} {own got : List (ℕ × ℕ)} {s t : Cpu} {P : ℕ → Prop} {ph ph' : Phase}

/-- What a piece changes that captures nothing and runs no tick. -/
def OwnCell (a : ℕ) : Prop := EntryCell a ∨ MenuCell a

instance : DecidablePred OwnCell := fun a => by unfold OwnCell; infer_instance

theorem own_quiet (a : ℕ) (h : OwnCell a) : QuietCell a := by
  unfold OwnCell at h
  unfold QuietCell
  tauto

theorem not_rxCell_own {a : ℕ} (h : RxCell a) : ¬ OwnCell a := by
  simp only [RxCell, rxWr, rxRd, rxacc] at h
  simp only [OwnCell, EntryCell, PaceCell, GoneCell, MenuCell, RowCell, ScreenCell, MailCell, execPhase,
    lsFroze, lsSave102, lsWaitcLo, lsWaitcHi, rsToLo, rsToHi, uiColor, peerScr, backtab, ppTmp, menuSel,
    menuPrev, sesTmrLo]
  omega

/-- A piece that captures nothing, sends nothing and runs no tick. -/
theorem Mate.quiet (h : Mate me d own got ⟨ph, s⟩) (hme : me < 2) (hw : Within OwnCell s t)
    (hlog : t.log = s.log) (hran : t.mark.ran = s.mark.ran)
    (hph : (ph' = .gate ∨ ph' = .stall) ↔ (ph = .gate ∨ ph = .stall)) :
    Mate me d own got ⟨ph', t⟩ := by
  refine ⟨h.playing.of_within hme hw own_quiet ?_ hran, ?_, ?_, ?_⟩
  · rw [hw.rd _ (by decide)]
    exact h.playing.lobby
  · rw [hran, h.captured]
    dsimp only
    rw [if_congr hph rfl rfl]
  · dsimp only
    rw [hlog]
    exact h.told
  · dsimp only
    rw [hlog]
    exact h.logged

theorem rxBytes_own (hw : Within OwnCell s t) : rxBytes t = rxBytes s :=
  rxBytes_local hw fun _ => not_rxCell_own

/-- One step that does not pump: what it captures, and the frames it sends. -/
def Stepped (me d : ℕ) (own got : List (ℕ × ℕ)) (s : Cpu) (n : Node) : Prop :=
  ∃ new msgs, Feed me d own.length new msgs ∧ Mate me d (own ++ new) got n ∧
    n.cpu.tx = s.tx ++ msgs.flatten ∧ rxBytes n.cpu = rxBytes s

theorem Stepped.of_quiet (h : Mate me d own got ⟨ph, s⟩) (hme : me < 2) (hw : Within OwnCell s t)
    (hlog : t.log = s.log) (hran : t.mark.ran = s.mark.ran) (htx : t.tx = s.tx)
    (hph : (ph' = .gate ∨ ph' = .stall) ↔ (ph = .gate ∨ ph = .stall)) :
    Stepped me d own got s ⟨ph', t⟩ := by
  refine ⟨[], [], .done, ?_, ?_, rxBytes_own hw⟩
  · rw [List.append_nil]
    exact h.quiet hme hw hlog hran hph
  · rw [htx]
    exact (List.append_nil _).symm

theorem stepped_outside {m : Mem} (h : Mate me d own got ⟨ph, s⟩) (hme : me < 2)
    (hm : ∀ a, 0x8000 ≤ a → m.get a = s.mem.get a)
    (hph : (ph' = .gate ∨ ph' = .stall) ↔ (ph = .gate ∨ ph = .stall)) :
    Stepped me d own got s ⟨ph', s.call fun _ => m⟩ := by
  have hw : Within OwnCell s (s.call fun _ => m) := (local_outside hm).within.mono fun a ha => by
    unfold OwnCell MenuCell
    tauto
  exact .of_quiet h hme hw rfl rfl rfl hph

/-- Only the counters of returns and the mark of the hold path differ. -/
theorem Stepped.marked {m : Mark} (h : Stepped me d own got s ⟨ph', t⟩) (hme : me < 2)
    (hm : m.ran = t.mark.ran) : Stepped me d own got s ⟨ph', { t with mark := m }⟩ := by
  obtain ⟨new, msgs, hfeed, hmate, htx, hrx⟩ := h
  refine ⟨new, msgs, hfeed, ⟨?_, ?_, hmate.told, hmate.logged⟩, htx, hrx⟩
  · exact hmate.playing.of_same hme hmate.playing.lobby (fun _ _ => rfl) hm
  · exact hmate.captured.trans (congrArg (· + _) hm.symm)

theorem Stepped.returned (h : Stepped me d own got s ⟨ph', t⟩) (hme : me < 2) :
    Stepped me d own got s ⟨ph', lsReturn t⟩ := h.marked hme rfl

theorem stepped_lsEntry (h : Mate me d own got ⟨.entry, s⟩) (hme : me < 2) :
    Stepped me d own got s (lsEntry s) := by
  have hstay : Stepped me d own got s ⟨.idle, s⟩ :=
    .of_quiet h hme (Within.refl s) rfl rfl rfl (by decide)
  have hgone : Stepped me d own got s ⟨.parked, lsGone s⟩ := by
    have hl := local_lsGone s
    exact .of_quiet h hme (hl.within.mono fun _ => Or.inl) hl.log (congrArg Mark.ran hl.mark) hl.tx
      (by decide)
  have hhold : Stepped me d own got s ⟨.hold, lsFreeze s⟩ := by
    have hl := local_lsFreeze s
    exact .of_quiet h hme (hl.within.mono fun _ ha => .inl (.inl ha)) hl.log
      (congrArg Mark.ran hl.mark) hl.tx (by decide)
  have htop : Stepped me d own got s ⟨.top, s⟩ :=
    .of_quiet h hme (Within.refl s) rfl rfl rfl (by decide)
  unfold lsEntry
  split_ifs
  · exact hstay.returned hme
  · exact hgone
  · exact hhold.marked hme rfl
  · exact htop

theorem Stepped.of_send {pr : ℕ × ℕ} {a a' : ℕ} (h : Mate me d own got ⟨.send, s⟩) (h1 : pr.1 < 256)
    (h2 : pr.2 < 256) (hsend : Playing me d (own ++ [pr]) got t) (hran : t.mark.ran = s.mark.ran)
    (hlog : t.log = s.mark.stamp (.capture pr.1 pr.2 a a') :: s.log)
    (htx : t.tx = s.tx ++ inputOf me (serial (d + own.length)) pr) (hrx : rxBytes t = rxBytes s) :
    Stepped me d own got s ⟨.gate, t⟩ := by
  have hcap : own.length = s.mark.ran := h.captured
  refine ⟨[pr], [inputOf me (serial (d + own.length)) pr], .input h1 h2 .done, ⟨hsend, ?_, ?_, ?_⟩, ?_,
    hrx⟩
  · change (own ++ [pr]).length = t.mark.ran + 1
    rw [List.length_append, List.length_singleton, hran, hcap]
  · dsimp only
    rw [hlog]
    refine List.forall_mem_cons.2 ⟨?_, fun e he => ?_⟩
    · change (own ++ [pr])[s.mark.ran]? = some pr
      rw [← hcap, List.getElem?_append_right (le_refl _), Nat.sub_self]
      rfl
    · have htold := (h.told e he).append [pr] []
      rwa [List.append_nil] at htold
  · dsimp only
    rw [hlog]
    intro k q hq
    rcases Nat.lt_or_ge k own.length with hk | hk
    · rw [List.getElem?_append_left hk] at hq
      obtain ⟨e, he, hev⟩ := h.logged k q hq
      exact ⟨e, List.mem_cons_of_mem _ he, hev⟩
    · have hk' : k = own.length := by
        have hlt := (List.getElem?_eq_some_iff.1 hq).1
        rw [List.length_append, List.length_singleton] at hlt
        omega
      rw [hk', List.getElem?_append_right (le_refl _), Nat.sub_self] at hq
      obtain rfl : pr = q := Option.some.inj hq
      exact ⟨_, List.mem_cons_self, hcap.symm.trans hk'.symm, a, a', rfl⟩
  · rw [List.flatten_singleton]
    exact htx

theorem rxBytes_lsSend (hs : s.rd netSeat < 4) : rxBytes (lsSend s) = rxBytes s := by
  have hw := within_lsSend (s := s) hs
  refine rxBytes_local hw fun a ha hc => ?_
  simp only [RxCell, rxWr, rxRd, rxacc] at ha
  simp only [CaptureCell, RingCell, MailCell, seatRing, lsTmpb, lsTmpb2] at hc
  omega

theorem stepped_lsSend (h : Mate me d own got ⟨.send, s⟩) (hme : me < 2) (hd : d ≤ 120) :
    Stepped me d own got s ⟨.gate, lsSend s⟩ := by
  have hplay : Playing me d own got s := h.playing
  have hcap : own.length = s.mark.ran := h.captured
  have hran : (lsSend s).mark.ran = s.mark.ran := by rw [mark_lsSend hplay.seat]
  have htick : dueTick s = serial (d + own.length) := by
    have hdelay := hplay.delay
    have hticks := hplay.ticks
    simp only [dueTick, hdelay, hticks, serial]
    omega
  have hin : s.rd execInL < 256 := s.rd_lt_256 (by decide)
  have hkp : s.rd execKpL < 256 := s.rd_lt_256 (by decide)
  have hlog := (log_lsSend (s := s)).trans (log_lsCapture hplay.seat)
  have htx := tx_lsSend (s := s) hplay.seat
  rw [hplay.mine, htick] at htx
  have hrx := rxBytes_lsSend hplay.seat
  have hsend := hplay.send hme hd hcap
  generalize lsSend s = t at hran hlog htx hrx hsend ⊢
  exact .of_send h hin hkp hsend hran hlog htx hrx

/-- What the run of a tick tells. -/
theorem told_lsTick (h : Mate me d own got ⟨.gate, s⟩) (hme : me < 2) (C : Cart)
    (hgot : s.mark.ran < d + got.length) : ∀ e ∈ (lsTick C s).log, Told me d own got e := by
  have hplay : Playing me d own got s := h.playing
  have hcap : own.length = s.mark.ran + 1 := h.captured
  have hown : s.mark.ran < d + own.length := by omega
  have hdispatch : ∀ seat < 2, Told me d own got (s.mark.stamp (dispatchEv seat s)) := by
    intro seat hs
    rw [hplay.dispatch hme hs hown hgot]
    exact ⟨hs, hown, hgot, rfl, rfl⟩
  have hshadow : Told me d own got (s.mark.stamp (shadowEv s)) := by
    rw [hplay.shadow hme hown hgot]
    exact ⟨hown, hgot, rfl, rfl⟩
  rw [log_lsTick]
  refine List.forall_mem_cons.2 ⟨.of_mute trivial, List.forall_mem_cons.2 ⟨.of_mute trivial,
    List.forall_mem_cons.2 ⟨hdispatch 1 (by decide), List.forall_mem_cons.2 ⟨hdispatch 0 (by decide),
      List.forall_mem_cons.2 ⟨hshadow, List.forall_mem_cons.2 ⟨.of_mute trivial, h.told⟩⟩⟩⟩⟩⟩

/-- The checksum report, if one is due. -/
theorem asides_runBody (hplay : Playing me d own got s) (hme : me < 2) (C : Cart) :
    ∃ msgs : List (List ℕ), (∀ g ∈ msgs, Aside g) ∧ (runBody C s).tx = s.tx ++ msgs.flatten := by
  rw [tx_runBody]
  split_ifs
  · have hmine := hplay.mine
    have h1 : s.rd tickLo < 256 := s.rd_lt_256 (by decide)
    have h2 : s.rd tickHi < 256 := s.rd_lt_256 (by decide)
    have hc : lsCksum (lsTick C s) < 65536 := lsCksum_lt _
    have hok : flenOk 6 ftCrc = true := by decide
    refine ⟨[_], fun g hg => ?_, by rw [List.flatten_singleton]⟩
    rw [List.mem_singleton.1 hg]
    refine ⟨⟨rfl, hok, fun b hb => ?_⟩, .inl rfl⟩
    simp only [ftCrc, List.mem_cons, List.not_mem_nil, or_false] at hb
    omega
  · exact ⟨[], fun g hg => absurd hg List.not_mem_nil, rfl⟩

theorem not_rxCell_body {a : ℕ} (h : RxCell a) : ¬ BodyCell a := by
  simp only [RxCell, rxWr, rxRd, rxacc] at h
  simp only [BodyCell, WrapCell, TickCell, ReportCell, CounterCell, PaceCell, DispatchCell, GameCell,
    MailCell, DisplayCell, CrcCell, ScreenCell, execPhase, lsFroze, lsSave102, lsWaitcLo, lsWaitcHi, rsToLo,
    rsToHi, vdCtrl, scCnt2, scCnt3, sbQuiescent, ownCrc, lsTmpb, lsTmpb2, tickLo, tickHi, backtab, uiColor]
  omega

/-- What follows the game tick, without a push. -/
theorem Stepped.of_body {b : Cpu} {msgs : List (List ℕ)} (h : Mate me d own got ⟨.gate, s⟩)
    (hme : me < 2) (hbody : Playing me d own got b) (hran : b.mark.ran = s.mark.ran + 1)
    (hmsgs : ∀ g ∈ msgs, Aside g) (htx : b.tx = s.tx ++ msgs.flatten)
    (htold : ∀ e ∈ b.log, Told me d own got e) (hgrow : s.log <:+ b.log) (hrx : rxBytes b = rxBytes s)
    (hwait : Local WaitCell b t) : Stepped me d own got s ⟨.idle, t⟩ := by
  have hcap : own.length = s.mark.ran + 1 := h.captured
  refine ⟨[], msgs, .of_asides hmsgs, ?_, hwait.tx.trans htx, ?_⟩
  · rw [List.append_nil]
    refine ⟨?_, ?_, ?_, ?_⟩
    · refine hbody.of_within hme hwait.within (fun _ ha => by unfold QuietCell; tauto) ?_
        (congrArg Mark.ran hwait.mark)
      rw [hwait.rd _ (by decide)]
      exact hbody.lobby
    · change own.length = t.mark.ran + 0
      rw [hwait.mark, hran, hcap]
    · dsimp only
      rw [hwait.log]
      exact htold
    · dsimp only
      rw [hwait.log]
      intro k pr hk
      obtain ⟨e, he, hev⟩ := h.logged k pr hk
      exact ⟨e, hgrow.subset he, hev⟩
  · refine (rxBytes_local hwait.within fun a ha hc => ?_).trans hrx
    simp only [RxCell, rxWr, rxRd, rxacc] at ha
    simp only [WaitCell, rsPtmo, rsGate, rsWaited] at hc
    omega

/-- A run of a tick that pushes nothing only waits. -/
theorem wait_of_calm (C : Cart) (hcalm : ∀ e ∈ (lsRun C s).log, e.ev.NoPush) :
    Local WaitCell (runBody C s) (lsRun C s) := by
  rw [lsRun_eq] at hcalm ⊢
  rcases rsPending_cases (runBody C s) with hw | ⟨-, -, -, u, hu, he⟩
  · exact hw
  · have hpush : (pushSent u).log <:+ (rsPending (runBody C s)).log := by
      rw [he, rsPush_eq]
      exact (within_rsRebase _).grows
    have hmem : u.mark.stamp (.push u.tick) ∈ (pushSent u).log := by
      rw [log_pushSent]
      exact List.mem_cons_self
    exact absurd (hcalm _ (hpush.subset hmem)) id

theorem stepped_lsGate (h : Mate me d own got ⟨.gate, s⟩) (hme : me < 2) (hd : 1 ≤ d) (C : Cart)
    (hdrop : s.rd netDropped = 0) (hcalm : ∀ e ∈ (lsGate C s).cpu.log, e.ev.NoPush) :
    Stepped me d own got s (lsGate C s) := by
  have hplay : Playing me d own got s := h.playing
  unfold lsGate at hcalm ⊢
  split_ifs at hcalm ⊢ with hopen
  · have hgot := hplay.open hme hopen hdrop hd
    obtain ⟨msgs, hmsgs, htx⟩ := asides_runBody hplay hme C
    have htold : ∀ e ∈ (runBody C s).log, Told me d own got e := by
      have htick := told_lsTick h hme C hgot
      rw [log_runBody]
      split_ifs
      · exact List.forall_mem_cons.2 ⟨.of_mute trivial, htick⟩
      · exact htick
    have hrx : rxBytes (runBody C s) = rxBytes s :=
      rxBytes_local (within_runBody s C) fun a => not_rxCell_body
    have hran : (runBody C s).mark.ran = s.mark.ran + 1 := by rw [mark_runBody]
    have hrun := Stepped.of_body h hme (hplay.body hme C hgot) hran hmsgs htx htold
      (within_runBody s C).grows hrx (wait_of_calm C hcalm)
    exact hrun.returned hme
  · have hfreeze := local_lsFreeze s
    exact .of_quiet h hme (hfreeze.within.mono fun _ ha => .inl (.inl ha)) hfreeze.log
      (congrArg Mark.ran hfreeze.mark) hfreeze.tx (by decide)

theorem stepped_own {W : World} {n n' : Node} (h : Mate me d own got n) (hme : me < 2) (hd : 1 ≤ d)
    (hd' : d ≤ 120) (hs : Step W none n n') (hdrop : n.cpu.rd netDropped = 0)
    (hcalm : ∀ e ∈ n'.cpu.log, e.ev.NoPush) : Stepped me d own got n.cpu n' := by
  cases hs with
  | isr hm => exact stepped_outside h hme (W.isr_get hm) Iff.rfl
  | native hm => exact stepped_outside h hme (W.native_get hm) (by decide)
  | boot hm => exact stepped_outside h hme (W.boot_get hm) (by decide)
  | own ha =>
    obtain ⟨ph, s⟩ := n
    cases ph <;> simp only [advance, Option.some.injEq, reduceCtorEq] at ha <;> subst ha
    · exact stepped_lsEntry h hme
    · exact stepped_lsSend h hme hd'
    · exact stepped_lsGate h hme hd W.cart hdrop hcalm

/-- What follows a pump. -/
theorem stepped_afterPump {raw : ℕ} {n : Node} (h : Mate me d own got ⟨ph, s⟩) (hme : me < 2)
    (ha : afterPump raw ph s = some n) (hdrop : n.cpu.rd netDropped = 0) :
    Stepped me d own got s n := by
  have hplay : Playing me d own got s := h.playing
  have hmenu : ∀ {u : Cpu} {ph' : Phase}, Local MenuCell s u →
      ((ph' = .gate ∨ ph' = .stall) ↔ (ph = .gate ∨ ph = .stall)) → Stepped me d own got s ⟨ph', u⟩ :=
    fun hl hph => .of_quiet h hme (hl.within.mono fun _ => Or.inr) hl.log (congrArg Mark.ran hl.mark)
      hl.tx hph
  have hpace : ∀ {u : Cpu} {ph' : Phase}, CountOrDrop s u → u.rd netDropped = 0 →
      ((ph' = .gate ∨ ph' = .stall) ↔ (ph = .gate ∨ ph = .stall)) → Stepped me d own got s ⟨ph', u⟩ := by
    intro u ph' hc hu hph
    rcases hc with hl | ⟨-, hd⟩
    · exact .of_quiet h hme (hl.within.mono fun _ ha => .inl (.inl ha)) hl.log
        (congrArg Mark.ran hl.mark) hl.tx hph
    · rw [hd] at hu
      exact absurd hu (by decide)
  cases ph <;> simp only [afterPump, Option.some.injEq, reduceCtorEq] at ha <;> subst ha
  · rw [lobbyRound, if_neg hplay.active]
    exact hmenu (local_sesGo hplay.active hplay.count) (by decide)
  · have hl := local_matchedRound s
    unfold matchedRound at hl ⊢
    dsimp only at hl ⊢
    split_ifs at hl ⊢
    · exact hmenu hl (by decide)
    · exact hmenu hl (by decide)
  · have hhold : Stepped me d own got s ⟨.idle, holdTail s⟩ :=
      hpace (countOrDrop_holdTail s) hdrop (by decide)
    exact hhold.returned hme
  · exact .of_quiet h hme (Within.refl s) rfl rfl rfl (by decide)
  · exact hpace (countOrDrop_stallTail s) hdrop (by decide)

/-- A pump, and what follows it. -/
theorem stepped_pump {W : World} {p : Poll} {n n' : Node} {l : List (ℕ × ℕ)} {fs : List (List ℕ)}
    {unread : List ℕ} (h : Mate me d own got n) (hme : me < 2) (hd : 1 ≤ d) (hs : Step W (some p) n n')
    (hdrop : n'.cpu.rd netDropped = 0) (hroom : d + got.length + l.length ≤ 255 + n.cpu.mark.ran)
    (hfeed : Feed (1 - me) d got.length l fs) (hal : Aligned (delivered p n.cpu ++ unread) fs n.cpu)
    (hread : (delivered p n.cpu).length ≤ 64) :
    ∃ taken rest gs, l = taken ++ rest ∧ Feed (1 - me) d (got.length + taken.length) rest gs ∧
      Aligned unread gs n'.cpu ∧ ∃ new msgs, Feed me d own.length new msgs ∧
        Mate me d (own ++ new) (got ++ taken) n' ∧ n'.cpu.tx = n.cpu.tx ++ msgs.flatten := by
  obtain ⟨ph, s⟩ := n
  cases hs with
  | @pump _ _ _ raw _ ha =>
    have hplay : Playing me d own got s := h.playing
    obtain ⟨gs, ⟨taken, rest, hl, hp, hf, hran, hadds, msgs, hmsgs, htx⟩, hal'⟩ :=
      pumped_sesPump hme hd hplay hroom hfeed hal hread
    have hgrow := grows_sesPump s p
    generalize sesPump p s = u at ha hp hran hadds htx hal' hgrow
    have hmate : Mate me d own (got ++ taken) ⟨ph, u⟩ := by
      refine ⟨hp, ?_, fun e he => ?_, fun k pr hk => ?_⟩
      · dsimp only
        rw [hran]
        exact h.captured
      · rcases hadds e he with he | he
        · have htold := (h.told e he).append [] taken
          rwa [List.append_nil] at htold
        · exact .of_mute he
      · obtain ⟨e, he, hev⟩ := h.logged k pr hk
        exact ⟨e, hgrow.subset he, hev⟩
    obtain ⟨new, more, hnew, hmate', htx', hrx⟩ := stepped_afterPump hmate hme ha hdrop
    refine ⟨taken, rest, gs, hl, hf, ⟨hal'.framed, ?_, ?_⟩, new, msgs ++ more, ?_, hmate', ?_⟩
    · rw [hrx]
      exact hal'.stream
    · rw [← length_rxBytes, hrx, length_rxBytes]
      exact hal'.waiting
    · exact (Feed.of_asides hmsgs).append hnew
    · rw [htx', htx, List.flatten_append, List.append_assoc]

end step

/-! ### The start -/

section start

variable {me d lo hi : ℕ} {names : List ℕ} {u : Cpu}

/-- START has been handled. -/
theorem playing_onStart (hme : me < 2) (hd : 1 ≤ d) (hd' : d ≤ 120)
    (hf : InFrmbuf (startFrame me 2 lo hi d names) u) (hl : u.rd lobbyCnt ≤ 8) :
    Playing me d [] [] (onStart u) := by
  have hlen : 7 ≤ (startFrame me 2 lo hi d names).length := by
    rw [startFrame, List.length_append]
    exact Nat.le_add_right 7 _
  have hcell : ∀ i < 7, u.rd (frmbuf + i) = (startFrame me 2 lo hi d names).getD i 0 := fun i hi =>
    hf i (by omega)
  have h0 : u.rd frmbuf = 38 := hcell 0 (by decide)
  have h2 : u.rd (frmbuf + 2) = me := hcell 2 (by decide)
  have h3 : u.rd (frmbuf + 3) = 2 := hcell 3 (by decide)
  have h6 : u.rd (frmbuf + 6) = d := hcell 6 (by decide)
  have hrd := rd_onStart (s := u) (by omega)
  have hmark := mark_onStart (s := u) (by omega)
  have hran : (onStart u).mark.ran = 0 := by rw [hmark]
  have hseat : (onStart u).rd netSeat = me := by rw [hrd, rd_netSeat_takeStart, h2]
  have hcount : (onStart u).rd netCount = 2 := by rw [hrd, rd_netCount_takeStart, h3]
  have hslot : ∀ q < 2, ∀ r < 256, seatSlot (onStart u) q r = idleSlot := by
    intro q hq r hr
    rw [seatSlot, hrd, hrd, rd_takeStart_rings (Or.inl (ring_cell (by omega) hr)),
      rd_takeStart_rings (Or.inl (kp_cell (by omega) hr)), if_pos, if_neg, if_pos]
    · rfl
    · simp only [seatKp, ownCrc]
      omega
    · simp only [seatKp]
      omega
    · simp only [seatRing, seatKp]
      omega
  have hwindow : ∀ q < 2, Window 256 (seatSlot (onStart u) q) (line d [])
      (255 + (onStart u).mark.ran) (256 + d + ([] : List (ℕ × ℕ)).length) := by
    intro q hq x _ hx
    rw [hslot q hq _ (Nat.mod_lt _ (by decide)), line]
    exact (if_pos hx).symm
  refine ⟨⟨by omega, by omega, ?_⟩, hseat, hcount, ?_, ?_, ?_, ?_, ?_, ?_, hwindow me hme,
    hwindow (1 - me) (by omega)⟩
  · rw [(within_onStart u).rd _ (by decide)]
    exact hl
  · rw [hrd, rd_netDelay_takeStart, h6]
  · rw [hrd, rd_netActive_takeStart]
    decide
  · have htick : (onStart u).tick = (takeStart u).tick := Cpu.tick_congr (hrd _) (hrd _)
    rw [htick, tick_takeStart, hran]
  · have hwm : (onStart u).wm (1 - me) = (takeStart u).wm (1 - me) := Cpu.wm_congr (hrd _) (hrd _)
    rw [hwm, wm_takeStart (by omega), h6]
    simp only [serial, List.length_nil]
    omega
  · rw [hran]
    exact Nat.zero_le _
  · rw [hran]
    simp only [List.length_nil]
    omega

theorem mate_onStart (hme : me < 2) (hd : 1 ≤ d) (hd' : d ≤ 120)
    (hf : InFrmbuf (startFrame me 2 lo hi d names) u) (hl : u.rd lobbyCnt ≤ 8) (hlog : u.log = []) :
    Mate me d [] [] ⟨.lobby, onStart u⟩ := by
  have hlen : 7 ≤ (startFrame me 2 lo hi d names).length := by
    rw [startFrame, List.length_append]
    exact Nat.le_add_right 7 _
  have h0 : u.rd frmbuf = 38 := hf 0 (by omega)
  refine ⟨playing_onStart hme hd hd' hf hl, ?_, ?_, fun k pr hk => ?_⟩
  · change 0 = (onStart u).mark.ran + 0
    rw [mark_onStart (by omega)]
  · dsimp only
    rw [log_onStart (by omega), hlog]
    exact List.forall_mem_cons.2 ⟨.of_mute trivial, fun e he => absurd he List.not_mem_nil⟩
  · rw [List.getElem?_nil] at hk
    exact absurd hk (by simp only [reduceCtorEq, not_false_eq_true])

end start

end IntvNetplay.Console
