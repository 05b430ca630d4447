import IntvNetplay.Relay.Publisher

/-!
# The lobby publisher of the Python server

`LobbyPublisher.update`, `shutdown` and `_run` of `intv_relay_server.py` as steps, over the state and the
log of the C one.  The debounce waits for an event of its own here, which `update` does not set, so that
the second between two POSTs is whole in every run (`py_published`).  `failures` is not modelled; the
payload's strings are those that the C program takes.
-/

namespace IntvNetplay.Relay

open IntvNetplay.Machine

/-! ### The sections -/

/-- What `_post` sends of the payload. -/
def pyBody (l : Lobby) : List ℕ := dumps (payload l)

/-- `LobbyPublisher.__init__` has started the worker. -/
def pyStart (l : Lobby) : Publisher :=
  .start { l with curplayers := 0, dirty := false, stopping := false, stopEvt := false, offline := false }

/-- `Condition.notify`: only the wait for work is on the condition. -/
def Worker.notify : Worker → Worker
  | .idle => .woken false
  | w => w

/-- `update` -/
def pyUpdate (n : ℤ) (s : Publisher) : Publisher :=
  let s := { s with log := .update n :: s.log }
  if s.l.stopping then s
  else { s with l := { s.l with curplayers := n, dirty := true }, worker := s.worker.notify }

/-- `shutdown` up to the release of the lock. -/
def pyShutdown (s : Publisher) : Publisher :=
  let l := { s.l with stopping := true, offline := true }
  { s with
    l := l
    worker := s.worker.notify
    caller := .joining (some (pyBody l))
    log := .stop (s.worker == .ready) :: s.log }

/-- `_run` with the lock, from the test of its wait for work on. -/
def pyCycle (s : Publisher) : Publisher :=
  if !s.l.dirty && !s.l.stopping then { s with worker := .idle }
  else
    let l := { s.l with dirty := false }
    if l.stopping then { s with l := l, worker := .done }
    else { s with l := l, snapshot := pyBody l, worker := .ready, log := .render (pyBody l) :: s.log }

/-- `_run` goes on from where it stands; in its debounce only once `_stop_evt` is set. -/
def pyWorker (s : Publisher) : Option Publisher :=
  match s.worker with
  | .top => some (pyCycle s)
  | .woken timedOut => some (pyCycle (if timedOut then { s with l := { s.l with dirty := true } } else s))
  | .ready => some { s with worker := .posting, log := .post s.snapshot :: s.log }
  | .debounce => if s.l.stopEvt then some { s with worker := .top } else none
  | _ => none

inductive PyMove where
  | work
  /-- The keepalive interval is over. -/
  | keepalive
  /-- The second of the debounce is over. -/
  | expire
  /-- `_post` returns; it has logged an `OSError`, if there was one. -/
  | returned
  /-- Another exception leaves it, and ends the thread. -/
  | raised
  | update (curplayers : ℤ)
  | shutdown
  /-- `shutdown` sets `_stop_evt`. -/
  | setStop
  /-- Its join succeeds. -/
  | joined
  /-- The 12 seconds of the join are over. -/
  | detached
  deriving DecidableEq

/-- `shutdown` from its join on. -/
def pyClose (s : Publisher) : Option Publisher :=
  match s.caller with
  | .joining (some body) =>
    if s.l.stopEvt then some { s with caller := .closed, log := .offline body :: s.log } else none
  | _ => none

/-- What a step leads to; `none` where it cannot be taken. -/
def pyNext : PyMove → Publisher → Option Publisher
  | .work, s => pyWorker s
  | .keepalive, s => if s.worker = .idle then some { s with worker := .woken true } else none
  | .expire, s =>
    if s.worker = .debounce then some { s with worker := .top, log := .elapsed :: s.log } else none
  | .returned, s => if s.worker = .posting then some { s with worker := .debounce } else none
  | .raised, s => if s.worker = .posting then some { s with worker := .done } else none
  | .update n, s => if s.caller = .serving then some (pyUpdate n s) else none
  | .shutdown, s => if s.caller = .serving then some (pyShutdown s) else none
  | .setStop, s =>
    if s.l.stopping then some { s with l := { s.l with stopEvt := true } } else none
  | .joined, s => if s.worker = .done then pyClose s else none
  | .detached, s => pyClose s

/-- A run of the publisher, each of whose moves meets a condition. -/
def PyRun (R : PyMove → Prop) : Publisher → Publisher → Prop :=
  Relation.ReflTransGen fun s s' => ∃ a, pyNext a s = some s' ∧ R a

/-! ### What a step does -/

/-- Everything a step can do. -/
inductive PyStep (s : Publisher) : PyMove → Publisher → Prop where
  | sleep : s.worker.Testing → s.l.dirty = false → s.l.stopping = false →
      PyStep s .work { s with worker := .idle }
  | leave : s.worker.Testing → s.l.stopping = true →
      PyStep s .work { s with l := { s.l with dirty := false }, worker := .done }
  | render : s.worker.Testing → s.l.stopping = false →
      PyStep s .work { s with
        l := { s.l with dirty := false }
        snapshot := pyBody s.l
        worker := .ready
        log := .render (pyBody s.l) :: s.log }
  | post : s.worker = .ready →
      PyStep s .work { s with worker := .posting, log := .post s.snapshot :: s.log }
  | skip : s.worker = .debounce → s.l.stopEvt = true → PyStep s .work { s with worker := .top }
  | keepalive : s.worker = .idle → PyStep s .keepalive { s with worker := .woken true }
  | expire : s.worker = .debounce → PyStep s .expire { s with worker := .top, log := .elapsed :: s.log }
  | returned : s.worker = .posting → PyStep s .returned { s with worker := .debounce }
  | raised : s.worker = .posting → PyStep s .raised { s with worker := .done }
  | update {n : ℤ} : s.caller = .serving → s.l.stopping = false →
      PyStep s (.update n) { s with
        l := { s.l with curplayers := n, dirty := true }
        worker := s.worker.notify
        log := .update n :: s.log }
  | turnedAway {n : ℤ} : s.caller = .serving → s.l.stopping = true →
      PyStep s (.update n) { s with log := .update n :: s.log }
  | shutdown : s.caller = .serving →
      PyStep s .shutdown { s with
        l := { s.l with stopping := true, offline := true }
        worker := s.worker.notify
        caller := .joining (some (pyBody { s.l with stopping := true, offline := true }))
        log := .stop (s.worker == .ready) :: s.log }
  | setStop : s.l.stopping = true → PyStep s .setStop { s with l := { s.l with stopEvt := true } }
  | close {a : PyMove} {body : List ℕ} : s.caller = .joining (some body) →
      (a ≠ .detached → s.worker = .done) →
        PyStep s a { s with caller := .closed, log := .offline body :: s.log }

section step

variable {s s' : Publisher} {a : PyMove}

/-- The body does not show the other fields. -/
theorem pyBody_flags (l : Lobby) (dirty stopping stopEvt : Bool) :
    pyBody { l with dirty := dirty, stopping := stopping, stopEvt := stopEvt } = pyBody l := rfl

theorem step_pyCycle (dirty : Bool) (hw : s.worker.Testing) (hd : dirty = false → s.l.dirty = false) :
    PyStep s .work (pyCycle { s with l := { s.l with dirty := dirty } }) := by
  unfold pyCycle
  dsimp only
  split_ifs with hsleep hstop
  · simp only [Bool.and_eq_true, Bool.not_eq_true'] at hsleep
    obtain ⟨rfl, hs⟩ := hsleep
    have hl : { s.l with dirty := false } = s.l := by
      rw [← hd rfl]
    rw [hl]
    exact .sleep hw (hd rfl) hs
  · exact .leave hw hstop
  · exact .render hw (Bool.eq_false_iff.2 hstop)

theorem step_pyWorker (h : pyWorker s = some s') : PyStep s .work s' := by
  unfold pyWorker at h
  split at h
  case h_1 hw =>
    obtain rfl := Option.some.inj h
    exact step_pyCycle s.l.dirty (.inl hw) id
  case h_2 timedOut hw =>
    obtain rfl := Option.some.inj h
    cases timedOut
    · exact step_pyCycle s.l.dirty (.inr ⟨_, hw⟩) id
    · exact step_pyCycle true (.inr ⟨_, hw⟩) (by simp)
  case h_3 hw =>
    obtain rfl := Option.some.inj h
    exact .post hw
  case h_4 hw =>
    obtain ⟨hs, ⟨⟩⟩ := Option.ite_none_right_eq_some.1 h
    exact .skip hw hs
  case h_5 => cases h

theorem step_pyClose (h : pyClose s = some s') (hw : a ≠ .detached → s.worker = .done) : PyStep s a s' := by
  unfold pyClose at h
  split at h
  case h_1 body hc =>
    obtain ⟨-, ⟨⟩⟩ := Option.ite_none_right_eq_some.1 h
    exact .close hc hw
  case h_2 => cases h

theorem pyStep_of_next (h : pyNext a s = some s') : PyStep s a s' := by
  cases a with
  | work => exact step_pyWorker h
  | keepalive =>
    obtain ⟨hw, ⟨⟩⟩ := Option.ite_none_right_eq_some.1 h
    exact .keepalive hw
  | expire =>
    obtain ⟨hw, ⟨⟩⟩ := Option.ite_none_right_eq_some.1 h
    exact .expire hw
  | returned =>
    obtain ⟨hw, ⟨⟩⟩ := Option.ite_none_right_eq_some.1 h
    exact .returned hw
  | raised =>
    obtain ⟨hw, ⟨⟩⟩ := Option.ite_none_right_eq_some.1 h
    exact .raised hw
  | update n =>
    obtain ⟨hc, ⟨⟩⟩ := Option.ite_none_right_eq_some.1 h
    unfold pyUpdate
    dsimp only
    split_ifs with hs
    · exact .turnedAway hc hs
    · exact .update hc (Bool.eq_false_iff.2 hs)
  | shutdown =>
    obtain ⟨hc, ⟨⟩⟩ := Option.ite_none_right_eq_some.1 h
    exact .shutdown hc
  | setStop =>
    obtain ⟨hs, ⟨⟩⟩ := Option.ite_none_right_eq_some.1 h
    exact .setStop hs
  | joined =>
    obtain ⟨hw, h⟩ := Option.ite_none_right_eq_some.1 h
    exact step_pyClose h fun _ => hw
  | detached => exact step_pyClose h fun hne => absurd rfl hne

theorem notify_eq_ready {w : Worker} : w.notify = .ready ↔ w = .ready := by
  cases w <;> simp [Worker.notify]

theorem notify_eq_done {w : Worker} : w.notify = .done ↔ w = .done := by
  cases w <;> simp [Worker.notify]

theorem notify_ne_idle (w : Worker) : w.notify ≠ .idle := by
  cases w <;> simp [Worker.notify]

/-- A notification does not end a debounce. -/
theorem fresh_notify {w : Worker} (h : w.notify.Fresh) : w.Fresh := by
  cases w with
  | idle => exact .inr (.inl rfl)
  | _ => exact h

end step

/-! ### What every step keeps -/

/-- The flags, and that the worker never waits for work while there is some. -/
structure PyFlags (s : Publisher) : Prop where
  stopEvt : s.l.stopEvt = true → s.l.stopping = true
  offline : s.l.offline = s.l.stopping
  serving : s.caller = .serving → s.l.stopping = false
  idle : s.worker = .idle → s.l.dirty = false ∧ s.l.stopping = false

section kept

variable {s s' : Publisher} {a : PyMove}

theorem pyFlags_step (h : PyFlags s) (hs : PyStep s a s') : PyFlags s' := by
  cases hs with
  | sleep _ hd hstop => exact ⟨h.stopEvt, h.offline, h.serving, fun _ => ⟨hd, hstop⟩⟩
  | update hc hstop =>
    exact ⟨h.stopEvt, h.offline, fun _ => hstop, fun hw => absurd hw (notify_ne_idle s.worker)⟩
  | turnedAway => exact ⟨h.stopEvt, h.offline, h.serving, h.idle⟩
  | shutdown => exact ⟨fun _ => rfl, rfl, nofun, fun hw => absurd hw (notify_ne_idle s.worker)⟩
  | setStop hstop => exact ⟨fun _ => hstop, h.offline, h.serving, h.idle⟩
  | close => exact ⟨h.stopEvt, h.offline, nofun, h.idle⟩
  | _ => exact ⟨h.stopEvt, h.offline, h.serving, nofun⟩

/-- The pace needs no condition here. -/
theorem pyPaced_step (hf : PyFlags s) (h : Paced s) (hs : PyStep s a s') : Paced s' := by
  cases hs with
  | sleep hw => exact h.silent nofun fun _ => .inr ⟨.inl hw, rfl⟩
  | leave hw => exact h.silent nofun fun hw => absurd hw (not_fresh (by simp))
  | render hw hstop =>
    have hrested := (h.fresh (.inl hw)).resolve_left (by rw [hstop]; decide)
    refine ⟨h.spaced.cons fun hp => absurd hp id, fun _ => hrested.cons id, fun hw => ?_⟩
    exact absurd hw (not_fresh (by simp))
  | post hw =>
    refine ⟨h.spaced.cons fun _ => h.ready hw, nofun, fun hw => ?_⟩
    exact absurd hw (not_fresh (by simp))
  | skip _ hstop => exact h.silent nofun fun _ => .inl (hf.stopEvt hstop)
  | keepalive hw => exact h.silent nofun fun _ => .inr ⟨.inr (.inl hw), rfl⟩
  | expire =>
    exact ⟨h.spaced.cons fun hp => absurd hp id, nofun, fun _ => .inr (rested_of_gap rfl id)⟩
  | returned => exact h.silent nofun fun hw => absurd hw (not_fresh (by simp))
  | raised => exact h.silent nofun fun hw => absurd hw (not_fresh (by simp))
  | update => exact h.note id notify_eq_ready.1 fun hw => .inr ⟨fresh_notify hw, rfl⟩
  | turnedAway => exact h.note id id fun hw => .inr ⟨hw, rfl⟩
  | shutdown => exact h.note id notify_eq_ready.1 fun _ => .inl rfl
  | setStop => exact h.silent id fun hw => .inr ⟨hw, rfl⟩
  | close => exact h.note id id fun hw => .inr ⟨hw, rfl⟩

/-- With nothing left to publish, the last snapshot shows the last count. -/
structure PyCarried (s : Publisher) : Prop where
  latest : ∀ n, latest s.log = some n → s.l.curplayers = n
  rendered : s.l.dirty = false → s.worker ≠ .done → ∀ n, Relay.latest s.log = some n →
    lastRender s.log = some (pyBody { s.l with offline := false })

theorem pyCarried_step (hf : PyFlags s) (h : PyCarried s) (hs : PyStep s a s') : PyCarried s' := by
  cases hs with
  | sleep hw => exact ⟨h.latest, fun hd _ => h.rendered hd (by rcases hw with hw | ⟨t, hw⟩ <;> simp [hw])⟩
  | leave => exact ⟨h.latest, fun _ hw => absurd rfl hw⟩
  | render _ hstop =>
    refine ⟨h.latest, fun _ _ n _ => ?_⟩
    have hoff : s.l = { s.l with offline := false } := by
      rw [← hf.offline.trans hstop]
    have hbody : pyBody s.l = pyBody { s.l with offline := false } := congrArg pyBody hoff
    exact congrArg some (hbody.trans
      (pyBody_flags { s.l with offline := false } false s.l.stopping s.l.stopEvt).symm)
  | post hw => exact ⟨h.latest, fun hd _ => h.rendered hd (by simp [hw])⟩
  | skip hw => exact ⟨h.latest, fun hd _ => h.rendered hd (by simp [hw])⟩
  | keepalive hw => exact ⟨h.latest, fun hd _ => h.rendered hd (by simp [hw])⟩
  | expire hw => exact ⟨h.latest, fun hd _ => h.rendered hd (by simp [hw])⟩
  | returned hw => exact ⟨h.latest, fun hd _ => h.rendered hd (by simp [hw])⟩
  | raised hw => exact ⟨h.latest, fun _ hw => absurd rfl hw⟩
  | update => exact ⟨fun n hn => Option.some.inj hn, nofun⟩
  | turnedAway hc hstop => exact absurd hstop (by rw [hf.serving hc]; decide)
  | shutdown => exact ⟨h.latest, fun hd hw' => h.rendered hd fun hw => hw' (notify_eq_done.2 hw)⟩
  | setStop => exact ⟨h.latest, h.rendered⟩
  | close => exact ⟨h.latest, h.rendered⟩

theorem pending_notify (w : Worker) : w.notify.pending = w.pending := by
  unfold Worker.pending
  simp only [notify_eq_ready]

theorem pyEnded_step (hf : PyFlags s) (h : Ended s) (hs : PyStep s a s') : Ended s' := by
  cases hs with
  | sleep => exact h.silent nofun rfl
  | leave => exact h.silent nofun rfl
  | render _ hstop =>
    have hno : ∀ p, Note.stop p ∉ Note.render (pyBody s.l) :: s.log := fun p hm =>
      (List.mem_cons.1 hm).elim nofun (h.running hstop p)
    exact ⟨fun _ => hno, endedLog_of_serving hno⟩
  | post hw =>
    refine ⟨fun hs p hm => (List.mem_cons.1 hm).elim nofun (h.running hs p), ?_⟩
    have hended := h.ended
    rw [hw] at hended
    exact hended.post
  | skip => exact h.silent nofun rfl
  | keepalive => exact h.silent nofun rfl
  | expire => exact h.note (by trivial) (Nat.zero_le _) rfl
  | returned => exact h.silent nofun rfl
  | raised => exact h.silent nofun rfl
  | update => exact h.note (by trivial) (Nat.le_of_eq (pending_notify _)) rfl
  | turnedAway => exact h.note (by trivial) (Nat.le_refl _) rfl
  | shutdown hc =>
    refine ⟨nofun, EndedLog.stop (h.running (hf.serving hc)) ?_⟩
    rw [pending_notify, Worker.pending]
    split_ifs with hw <;> simp [hw]
  | setStop => exact ⟨h.running, h.ended⟩
  | close => exact h.note (by trivial) (Nat.le_refl _) rfl

/-- What `shutdown` posts is the payload as it left it. -/
structure Parting (s : Publisher) : Prop where
  joining : ∀ body, s.caller = .joining body → body = some (pyBody { s.l with offline := true })
  offline : ∀ body, .offline body ∈ s.log → s.caller = .closed ∧ body = pyBody { s.l with offline := true }

theorem parting_step (h : Parting s) (hs : PyStep s a s') : Parting s' := by
  have hnote : ∀ {e : Note} {b : List ℕ}, .offline b ∈ e :: s.log → e ≠ .offline b → .offline b ∈ s.log :=
    fun hm he => (List.mem_cons.1 hm).resolve_left fun heq => he heq.symm
  have hserving : ∀ {b : List ℕ}, s.caller = .serving → .offline b ∉ s.log := fun hc hm => by
    have := (h.offline _ hm).1
    rw [hc] at this
    cases this
  cases hs with
  | render => exact ⟨h.joining, fun b hm => h.offline b (hnote hm (by simp))⟩
  | post => exact ⟨h.joining, fun b hm => h.offline b (hnote hm (by simp))⟩
  | expire => exact ⟨h.joining, fun b hm => h.offline b (hnote hm (by simp))⟩
  | update hc =>
    refine ⟨fun b hb => ?_, fun b hm => absurd (hnote hm (by simp)) (hserving hc)⟩
    cases hc.symm.trans hb
  | turnedAway => exact ⟨h.joining, fun b hm => h.offline b (hnote hm (by simp))⟩
  | shutdown hc =>
    refine ⟨fun b hb => ?_, fun b hm => absurd (hnote hm (by simp)) (hserving hc)⟩
    cases hb
    rfl
  | close hc =>
    refine ⟨nofun, fun b hm => ⟨rfl, ?_⟩⟩
    rcases List.mem_cons.1 hm with hm | hm
    · cases hm
      exact Option.some.inj (h.joining _ hc)
    · exact (h.offline b hm).2
  | _ => exact ⟨h.joining, h.offline⟩

/-- Until a join times out, the worker has ended when `shutdown` posts, and that POST is the last. -/
structure LastPost (s : Publisher) : Prop where
  done : s.caller = .closed → s.worker = .done
  last : ∀ log body log', s.log = log ++ .offline body :: log' → log = []

/-- The next note can be the last POST. -/
theorem last_cons {notes : List Note} (h : ∀ body, .offline body ∉ notes) (e : Note) :
    ∀ log body log', e :: notes = log ++ .offline body :: log' → log = [] := by
  intro log body log' hl
  rcases List.cons_eq_append_iff.1 hl with ⟨rfl, -⟩ | ⟨l₀, rfl, hlog⟩
  · rfl
  · exact absurd (hlog ▸ by simp) (h body)

theorem lastPost_step (hp : Parting s) (h : LastPost s) (hs : PyStep s a s') (ha : a ≠ .detached) :
    LastPost s' := by
  have hnone : s.caller ≠ .closed → ∀ body, .offline body ∉ s.log := fun hc body hm =>
    hc (hp.offline body hm).1
  -- a worker that moves has not ended, and a caller that serves has not closed
  have hmoves : ∀ {w}, s.worker = w → w ≠ .done → s.caller ≠ .closed := fun hw hne hc =>
    hne (hw.symm.trans (h.done hc))
  have htests : s.worker.Testing → s.caller ≠ .closed := by
    rintro (hw | ⟨t, hw⟩)
    · exact hmoves hw (by simp)
    · exact hmoves hw (by simp)
  have hserves : s.caller = .serving → s.caller ≠ .closed := fun hc hc' => by
    cases hc.symm.trans hc'
  cases hs with
  | sleep hw => exact ⟨fun hc => absurd hc (htests hw), h.last⟩
  | leave => exact ⟨fun _ => rfl, h.last⟩
  | render hw => exact ⟨fun hc => absurd hc (htests hw), last_cons (hnone (htests hw)) _⟩
  | post hw =>
    have hopen := hmoves hw (by simp)
    exact ⟨fun hc => absurd hc hopen, last_cons (hnone hopen) _⟩
  | skip hw => exact ⟨fun hc => absurd hc (hmoves hw (by simp)), h.last⟩
  | keepalive hw => exact ⟨fun hc => absurd hc (hmoves hw (by simp)), h.last⟩
  | expire hw =>
    have hopen := hmoves hw (by simp)
    exact ⟨fun hc => absurd hc hopen, last_cons (hnone hopen) _⟩
  | returned hw => exact ⟨fun hc => absurd hc (hmoves hw (by simp)), h.last⟩
  | raised => exact ⟨fun _ => rfl, h.last⟩
  | update hc => exact ⟨fun hc' => absurd hc' (hserves hc), last_cons (hnone (hserves hc)) _⟩
  | turnedAway hc => exact ⟨fun hc' => absurd hc' (hserves hc), last_cons (hnone (hserves hc)) _⟩
  | shutdown hc => exact ⟨nofun, last_cons (hnone (hserves hc)) _⟩
  | setStop => exact ⟨h.done, h.last⟩
  | close hc hw =>
    refine ⟨fun _ => hw ha, last_cons (hnone fun hc' => ?_) _⟩
    cases hc.symm.trans hc'

end kept

/-! ### Whole runs -/

section run

variable {R : PyMove → Prop} {l : Lobby} {s s' : Publisher}

/-- What every step keeps, with the flags in order, holds of a run. -/
theorem pyRun_induct {P : Publisher → Prop} (hr : PyRun R s s') (hf : PyFlags s) (h : P s)
    (hstep : ∀ a t t', PyFlags t → P t → PyStep t a t' → R a → P t') : PyFlags s' ∧ P s' := by
  induction hr with
  | refl => exact ⟨hf, h⟩
  | tail _ hlast ih =>
    obtain ⟨a, hnext, ha⟩ := hlast
    have hs := pyStep_of_next hnext
    exact ⟨pyFlags_step ih.1 hs, hstep a _ _ ih.1 ih.2 hs ha⟩

theorem pyFlags_start (l : Lobby) : PyFlags (pyStart l) := ⟨nofun, rfl, fun _ => rfl, nofun⟩

/-- The moves in turn. -/
theorem pyRun_moves {ms : List PyMove} (h : ms.foldlM (fun s a => pyNext a s) s = some s')
    (hR : ∀ a ∈ ms, R a) : PyRun R s s' := by
  induction ms generalizing s with
  | nil =>
    obtain rfl := Option.some.inj h
    exact .refl
  | cons a ms ih =>
    rw [List.foldlM_cons] at h
    obtain ⟨t, ht, hrest⟩ := Option.bind_eq_some_iff.1 h
    exact .head ⟨a, ht, hR a (List.mem_cons_self ..)⟩ (ih hrest fun b hb => hR b (List.mem_cons_of_mem _ hb))

theorem parting_start (l : Lobby) : Parting (pyStart l) := ⟨nofun, fun _ hm => absurd hm List.not_mem_nil⟩

end run

/-- What the Python publisher promises. -/
structure PyPublished (s : Publisher) : Prop where
  /-- Between two POSTs of the worker the second of a debounce has elapsed. -/
  paced : Spaced Note.IsPost (· = .elapsed) s.log
  /-- When it waits for work, its last snapshot shows the last count. -/
  carried : s.worker = .idle → ∀ n, latest s.log = some n →
    lastRender s.log = some (pyBody { s.l with curplayers := n, offline := false })
  /-- After `_stopping` is set it takes no more snapshots, and posts at most the one that it had. -/
  ended : EndedLog 0 s.log
  /-- What `shutdown` posts shows the last count, and that the server is gone. -/
  offline : ∀ body, .offline body ∈ s.log → ∀ n, latest s.log = some n →
    body = pyBody { s.l with curplayers := n, offline := true }

/-- **The Python publisher**: in every run, whenever `update` and `shutdown` come, whatever a POST comes to
and however long it takes, the worker keeps its promises; and unless its join times out, what `shutdown`
posts is the last. -/
theorem py_published {R : PyMove → Prop} {l : Lobby} {s : Publisher} (hr : PyRun R (pyStart l) s) :
    PyPublished s ∧ ((∀ a, R a → a ≠ .detached) →
      ∀ log body log', s.log = log ++ .offline body :: log' → log = []) := by
  have hf := pyFlags_start l
  have hpaced : Paced (pyStart l) := ⟨spaced_nil, nofun, fun _ => .inr rested_nil⟩
  have hcarried : PyCarried (pyStart l) := ⟨nofun, fun _ _ => nofun⟩
  have hended : Ended (pyStart l) :=
    ⟨fun _ p => List.not_mem_nil, endedLog_of_serving fun p => List.not_mem_nil⟩
  obtain ⟨hflags, hp⟩ := pyRun_induct hr hf hpaced fun _ _ _ hf h hs _ => pyPaced_step hf h hs
  have hc := (pyRun_induct hr hf hcarried fun _ _ _ hf h hs _ => pyCarried_step hf h hs).2
  have he := (pyRun_induct hr hf hended fun _ _ _ hf h hs _ => pyEnded_step hf h hs).2
  have hpart := (pyRun_induct hr hf (parting_start l) fun _ _ _ _ h hs _ => parting_step h hs).2
  refine ⟨⟨hp.spaced, fun hw n hn => ?_, he.ended.mono (Nat.zero_le _), fun body hm n hn => ?_⟩, fun hR => ?_⟩
  · obtain rfl := hc.latest n hn
    exact hc.rendered (hflags.idle hw).1 (by simp [hw]) _ hn
  · obtain rfl := hc.latest n hn
    exact (hpart.offline body hm).2
  · have hlast : LastPost (pyStart l) := ⟨nofun, fun log body log' hl => by cases log <;> cases hl⟩
    have hboth := pyRun_induct (P := fun s => Parting s ∧ LastPost s) hr hf ⟨parting_start l, hlast⟩
      fun a _ _ _ h hs ha => ⟨parting_step h.1 hs, lastPost_step h.1 h.2 hs (hR a ha)⟩
    exact hboth.2.2.last

/-- A second count during the debounce, and the end of the server during the next. -/
def pyMoves : List PyMove :=
  [.work, .update 0, .work, .work, .returned, .update 3, .expire, .work, .work, .returned, .shutdown,
    .setStop, .work, .work, .joined]

theorem py_published_moves : ∃ l s, lobbyStart soccerArgs = .ok l ∧ PyRun (· ≠ .detached) (pyStart l) s ∧
    s.log.countP (fun e => decide e.IsPost) = 2 ∧ s.caller = .closed ∧ PyPublished s ∧
      ∀ log body log', s.log = log ++ .offline body :: log' → log = [] := by
  have hl : ∃ l, lobbyStart soccerArgs = .ok l ∧
      ((pyMoves.foldlM (fun s a => pyNext a s) (pyStart l)).any fun s =>
        s.log.countP (fun e => decide e.IsPost) == 2 && s.caller == .closed) = true := by
    refine ⟨_, rfl, ?_⟩
    decide +kernel
  obtain ⟨l, hl, hany⟩ := hl
  obtain ⟨s, hs, hs'⟩ := (Option.any_eq_true _ _).1 hany
  rw [Bool.and_eq_true] at hs'
  have hrun := pyRun_moves (R := (· ≠ .detached)) hs (by decide)
  obtain ⟨hp, hlast⟩ := py_published hrun
  exact ⟨l, s, hl, hrun, eq_of_beq hs'.1, eq_of_beq hs'.2, hp, hlast fun _ ha => ha⟩

end IntvNetplay.Relay
