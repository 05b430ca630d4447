import IntvNetplay.Machine.Spacing
import IntvNetplay.Relay.Payload
import Mathlib.Logic.Relation

/-!
# The lobby publisher

`lobby_worker`, `lobby_update` and `lobby_shutdown` of `c/src/lobby.c` as steps.  A section under the mutex
is one step; a wait on the condition variable ends in one step and its thread takes the mutex back in
another.  The event loop calls `lobby_update` and `lobby_shutdown` from one thread, and calls neither again
after `lobby_shutdown`, which frees the lobby.
-/

namespace IntvNetplay.Relay

open IntvNetplay.Machine

/-! ### The state -/

/-- Where the worker stands. -/
inductive Worker where
  /-- About to take the mutex for a cycle. -/
  | top
  /-- In the wait for work. -/
  | idle
  /-- Back from it, the mutex not yet taken; `true` is `ETIMEDOUT`. -/
  | woken (timedOut : Bool)
  /-- A snapshot is rendered and the mutex released; `do_post` is not yet called. -/
  | ready
  /-- In `do_post`. -/
  | posting
  /-- `do_post` has failed. -/
  | failed
  /-- About to take the mutex for the debounce. -/
  | posted
  /-- In the debounce wait. -/
  | debounce
  /-- Back from it, the mutex not yet taken. -/
  | debounced
  /-- The thread has returned. -/
  | done
  deriving DecidableEq

/-- Where the thread of the event loop stands. -/
inductive Caller where
  | serving
  /-- In the join of `lobby_shutdown`, with the body of the last POST if it could be rendered. -/
  | joining (body : Option (List ℕ))
  /-- `lobby_shutdown` has returned. -/
  | closed
  deriving DecidableEq

/-- What happens, for the log. -/
inductive Note where
  /-- `lobby_update` is called. -/
  | update (curplayers : ℤ)
  /-- The worker has rendered a snapshot. -/
  | render (body : List ℕ)
  /-- The worker calls `do_post`. -/
  | post (body : List ℕ)
  /-- The second of a debounce wait is over. -/
  | elapsed
  /-- `lobby_shutdown` sets `stopping`; `pending`: the worker holds a snapshot and has yet to call
  `do_post`. -/
  | stop (pending : Bool)
  /-- `lobby_shutdown` calls `do_post`. -/
  | offline (body : List ℕ)
  deriving DecidableEq

/-- The lobby, the worker's buffer, both threads, and the log with its newest entry in front. -/
structure Publisher where
  l : Lobby
  snapshot : List ℕ
  worker : Worker
  caller : Caller
  log : List Note

/-- `lobby_start` has created the worker. -/
def Publisher.start (l : Lobby) : Publisher := ⟨l, [], .top, .serving, []⟩

/-! ### The sections -/

/-- `pthread_cond_broadcast`: one condition variable serves both waits. -/
def Worker.signal : Worker → Worker
  | .idle => .woken false
  | .debounce => .debounced
  | w => w

/-- `lobby_update` -/
def lobbyUpdate (n : ℤ) (s : Publisher) : Publisher :=
  let s := { s with log := .update n :: s.log }
  if s.l.stopping then s
  else { s with l := { s.l with curplayers := n, dirty := true }, worker := s.worker.signal }

/-- `lobby_shutdown` up to its join. -/
def lobbyShutdown (s : Publisher) : Publisher :=
  let l := { s.l with stopping := true, stopEvt := true, offline := true }
  let rendered := renderJson l [] jsonMax
  { s with
    l := l
    worker := s.worker.signal
    caller := .joining (if rendered.1 = 0 then some rendered.2 else none)
    log := .stop (s.worker == .ready) :: s.log }

/-- `failures++` -/
def countFailure (l : Lobby) : Lobby := { l with failures := (l.failures + 1) % 2 ^ 32 }

/-- `lobby_shutdown` from its join on; `ok` is what its own `do_post` returns. -/
def lobbyClose (body : Option (List ℕ)) (joined ok : Bool) (s : Publisher) : Publisher :=
  match body with
  | none => { s with caller := .closed }
  | some b =>
    { s with
      l := if joined && !ok then countFailure s.l else s.l
      caller := .closed
      log := .offline b :: s.log }

/-- `lobby_worker` with the mutex, from the test of its wait for work on. -/
def cycle (s : Publisher) : Publisher :=
  if !s.l.dirty && !s.l.stopping then { s with worker := .idle }
  else
    let l := { s.l with dirty := false }
    if l.stopping then { s with l := l, worker := .done }
    else
      let rendered := renderJson l s.snapshot jsonMax
      if rendered.1 = 0 then
        { s with l := l, snapshot := rendered.2, worker := .ready, log := .render rendered.2 :: s.log }
      else { s with l := l, snapshot := rendered.2, worker := .posted }

/-- `lobby_worker` goes on from where it stands; `none` in a wait, in `do_post` and at its end. -/
def lobbyWorker (s : Publisher) : Option Publisher :=
  match s.worker with
  | .top => some (cycle s)
  | .woken timedOut => some (cycle (if timedOut then { s with l := { s.l with dirty := true } } else s))
  | .ready => some { s with worker := .posting, log := .post s.snapshot :: s.log }
  | .failed => some { s with l := countFailure s.l, worker := .posted }
  | .posted => some { s with worker := if s.l.stopEvt then .top else .debounce }
  | .debounced => some { s with worker := .top }
  | .idle | .posting | .debounce | .done => none

/-! ### The steps -/

inductive Move where
  | work
  /-- The keepalive interval is over. -/
  | keepalive
  /-- The second of the debounce wait is over. -/
  | expire
  /-- `pthread_cond_timedwait` returns without a cause, as it may. -/
  | spurious
  /-- `do_post` returns. -/
  | replied (ok : Bool)
  | update (curplayers : ℤ)
  | shutdown
  /-- The join of `lobby_shutdown` succeeds. -/
  | joined (ok : Bool)
  /-- Its 12 seconds are over. -/
  | detached (ok : Bool)
  deriving DecidableEq

/-- What a step leads to; `none` where it cannot be taken. -/
def next : Move → Publisher → Option Publisher
  | .work, s => lobbyWorker s
  | .keepalive, s => if s.worker = .idle then some { s with worker := .woken true } else none
  | .expire, s =>
    if s.worker = .debounce then some { s with worker := .debounced, log := .elapsed :: s.log } else none
  | .spurious, s =>
    if s.worker = .idle ∨ s.worker = .debounce then some { s with worker := s.worker.signal } else none
  | .replied ok, s =>
    if s.worker = .posting then some { s with worker := if ok then .posted else .failed } else none
  | .update n, s => if s.caller = .serving then some (lobbyUpdate n s) else none
  | .shutdown, s => if s.caller = .serving then some (lobbyShutdown s) else none
  | .joined ok, s =>
    match s.caller with
    | .joining body => if s.worker = .done then some (lobbyClose body true ok s) else none
    | _ => none
  | .detached ok, s =>
    match s.caller with
    | .joining body => some (lobbyClose body false ok s)
    | _ => none

/-- A run whose steps all meet a condition on the step and the state before it. -/
def RunOf (R : Move → Publisher → Prop) : Publisher → Publisher → Prop :=
  Relation.ReflTransGen fun s s' => ∃ a, next a s = some s' ∧ R a s

/-! ### What a step does -/

/-- The worker takes the mutex next and tests what there is to do. -/
def Worker.Testing (w : Worker) : Prop := w = .top ∨ ∃ timedOut, w = .woken timedOut

/-- Everything a step can do. -/
inductive Step (s : Publisher) : Move → Publisher → Prop where
  | sleep : s.worker.Testing → s.l.dirty = false → s.l.stopping = false →
      Step s .work { s with worker := .idle }
  | leave : s.worker.Testing → s.l.stopping = true →
      Step s .work { s with l := { s.l with dirty := false }, worker := .done }
  | render : s.worker.Testing → s.l.stopping = false → (wholeBody s.l).length < jsonMax →
      Step s .work { s with
        l := { s.l with dirty := false }
        snapshot := wholeBody s.l
        worker := .ready
        log := .render (wholeBody s.l) :: s.log }
  | tooLong {buf : List ℕ} : s.worker.Testing → s.l.stopping = false →
      jsonMax ≤ (wholeBody s.l).length →
      Step s .work { s with l := { s.l with dirty := false }, snapshot := buf, worker := .posted }
  | post : s.worker = .ready →
      Step s .work { s with worker := .posting, log := .post s.snapshot :: s.log }
  | count : s.worker = .failed → Step s .work { s with l := countFailure s.l, worker := .posted }
  | skip : s.worker = .posted → s.l.stopEvt = true → Step s .work { s with worker := .top }
  | rest : s.worker = .posted → s.l.stopEvt = false → Step s .work { s with worker := .debounce }
  | again : s.worker = .debounced → Step s .work { s with worker := .top }
  | keepalive : s.worker = .idle → Step s .keepalive { s with worker := .woken true }
  | expire : s.worker = .debounce →
      Step s .expire { s with worker := .debounced, log := .elapsed :: s.log }
  | spurious : s.worker = .idle ∨ s.worker = .debounce →
      Step s .spurious { s with worker := s.worker.signal }
  | replied {ok : Bool} {w : Worker} : s.worker = .posting → w = .posted ∨ w = .failed →
      Step s (.replied ok) { s with worker := w }
  | update {n : ℤ} : s.caller = .serving → s.l.stopping = false →
      Step s (.update n) { s with
        l := { s.l with curplayers := n, dirty := true }
        worker := s.worker.signal
        log := .update n :: s.log }
  | turnedAway {n : ℤ} : s.caller = .serving → s.l.stopping = true →
      Step s (.update n) { s with log := .update n :: s.log }
  | shutdown {body : Option (List ℕ)} : s.caller = .serving →
      Step s .shutdown { s with
        l := { s.l with stopping := true, stopEvt := true, offline := true }
        worker := s.worker.signal
        caller := .joining body
        log := .stop (s.worker == .ready) :: s.log }
  | close {a : Move} {body : Option (List ℕ)} {failures : ℕ} : s.caller = .joining body →
      Step s a { s with
        l := { s.l with failures := failures }
        caller := .closed
        log := (body.map Note.offline).toList ++ s.log }

section step

variable {s s' : Publisher} {a : Move}

theorem step_cycle (dirty : Bool) (hw : s.worker.Testing) (hd : dirty = false → s.l.dirty = false) :
    Step s .work (cycle { s with l := { s.l with dirty := dirty } }) := by
  have hbody : wholeBody { s.l with dirty := false } = wholeBody s.l :=
    wholeBody_flags s.l false s.l.stopping s.l.stopEvt s.l.failures
  unfold cycle
  dsimp only
  split_ifs with hsleep hstop hfits
  · simp only [Bool.and_eq_true, Bool.not_eq_true'] at hsleep
    obtain ⟨rfl, hs⟩ := hsleep
    have hl : { s.l with dirty := false } = s.l := by
      rw [← hd rfl]
    rw [hl]
    exact .sleep hw (hd rfl) hs
  · exact .leave hw hstop
  all_goals
    generalize hl : { s.l with dirty := false } = l at *
    rcases Nat.lt_or_ge (wholeBody s.l).length jsonMax with hlen | hlen
  · rw [renderJson_fits (hbody.symm ▸ hlen), hbody, ← hl]
    exact .render hw (Bool.eq_false_iff.2 hstop) hlen
  · rw [renderJson_too_long (hbody.symm ▸ hlen)] at hfits
    exact absurd hfits (by decide)
  · rw [renderJson_fits (hbody.symm ▸ hlen)] at hfits
    exact absurd rfl hfits
  · rw [← hl]
    exact .tooLong hw (Bool.eq_false_iff.2 hstop) hlen

theorem step_lobbyWorker (h : lobbyWorker s = some s') : Step s .work s' := by
  unfold lobbyWorker at h
  split at h
  all_goals simp only [Option.some.injEq, reduceCtorEq] at h
  all_goals subst h
  case h_1 hw => exact step_cycle s.l.dirty (.inl hw) id
  case h_2 timedOut hw =>
    cases timedOut
    · exact step_cycle s.l.dirty (.inr ⟨_, hw⟩) id
    · exact step_cycle true (.inr ⟨_, hw⟩) (by simp)
  case h_3 hw => exact .post hw
  case h_4 hw => exact .count hw
  case h_5 hw =>
    cases hs : s.l.stopEvt
    · exact .rest hw hs
    · exact .skip hw hs
  case h_6 hw => exact .again hw

theorem step_lobbyUpdate (n : ℤ) (hc : s.caller = .serving) : Step s (.update n) (lobbyUpdate n s) := by
  unfold lobbyUpdate
  dsimp only
  split_ifs with hs
  · exact .turnedAway hc hs
  · exact .update hc (Bool.eq_false_iff.2 hs)

theorem step_lobbyClose {body : Option (List ℕ)} (hc : s.caller = .joining body) (joined ok : Bool) :
    Step s a (lobbyClose body joined ok s) := by
  cases body with
  | none => exact .close hc
  | some b =>
    unfold lobbyClose
    dsimp only
    split_ifs
    · exact .close hc
    · exact .close hc

theorem step_of_next (h : next a s = some s') : Step s a s' := by
  cases a with
  | work => exact step_lobbyWorker h
  | keepalive =>
    obtain ⟨hw, ⟨⟩⟩ := Option.ite_none_right_eq_some.1 h
    exact .keepalive hw
  | expire =>
    obtain ⟨hw, ⟨⟩⟩ := Option.ite_none_right_eq_some.1 h
    exact .expire hw
  | spurious =>
    obtain ⟨hw, ⟨⟩⟩ := Option.ite_none_right_eq_some.1 h
    exact .spurious hw
  | replied ok =>
    obtain ⟨hw, ⟨⟩⟩ := Option.ite_none_right_eq_some.1 h
    exact .replied hw (by cases ok <;> simp)
  | update n =>
    obtain ⟨hc, ⟨⟩⟩ := Option.ite_none_right_eq_some.1 h
    exact step_lobbyUpdate n hc
  | shutdown =>
    obtain ⟨hc, ⟨⟩⟩ := Option.ite_none_right_eq_some.1 h
    exact .shutdown hc
  | joined ok =>
    simp only [next] at h
    split at h
    case h_1 body hc =>
      obtain ⟨-, ⟨⟩⟩ := Option.ite_none_right_eq_some.1 h
      exact step_lobbyClose hc true ok
    case h_2 => cases h
  | detached ok =>
    simp only [next] at h
    split at h
    case h_1 body hc =>
      obtain rfl := Option.some.inj h
      exact step_lobbyClose hc false ok
    case h_2 => cases h

theorem signal_eq_ready {w : Worker} : w.signal = .ready ↔ w = .ready := by
  cases w <;> simp [Worker.signal]

theorem signal_eq_done {w : Worker} : w.signal = .done ↔ w = .done := by
  cases w <;> simp [Worker.signal]

end step

/-! ### The flags -/

/-- The flags of `lobby_shutdown` go together, and the event loop serves until they are set. -/
structure Flags (s : Publisher) : Prop where
  stopEvt : s.l.stopEvt = s.l.stopping
  offline : s.l.offline = s.l.stopping
  serving : s.caller = .serving → s.l.stopping = false

section kept

variable {s s' : Publisher} {a : Move} {log : List Note}

theorem flags_step (h : Flags s) (hs : Step s a s') : Flags s' := by
  cases hs with
  | shutdown hc => exact ⟨rfl, rfl, fun h => absurd h (by simp)⟩
  | close hc => exact ⟨h.stopEvt, h.offline, fun h => absurd h (by simp)⟩
  | _ => exact ⟨h.stopEvt, h.offline, h.serving⟩

/-! ### The pace of the POSTs -/

def Note.IsPost : Note → Prop
  | .post _ => True
  | _ => False

instance : DecidablePred Note.IsPost := fun e => by cases e <;> unfold Note.IsPost <;> infer_instance

/-- What wakes the worker from the debounce wait before its time while the event loop serves. -/
def Move.disturbs : Move → Bool
  | .spurious | .update _ => true
  | _ => false

/-- In the debounce wait `lobby_update` is not called and the wait does not return without a cause. -/
def Undisturbed (a : Move) (s : Publisher) : Prop := s.worker = .debounce → a.disturbs = false

/-- The debounce behind it, the worker has not rendered yet. -/
def Worker.Fresh (w : Worker) : Prop := w.Testing ∨ w = .idle ∨ w = .debounced

/-- Between two POSTs the second has elapsed, and it has before the worker goes on to render. -/
structure Paced (s : Publisher) : Prop where
  spaced : Spaced Note.IsPost (· = .elapsed) s.log
  ready : s.worker = .ready → Rested Note.IsPost (· = .elapsed) s.log
  fresh : s.worker.Fresh → s.l.stopping = true ∨ Rested Note.IsPost (· = .elapsed) s.log

theorem fresh_signal {w : Worker} (h : w.signal.Fresh) : w.Fresh ∨ w = .debounce := by
  cases w with
  | idle => exact .inl (.inr (.inl rfl))
  | debounce => exact .inr rfl
  | _ => exact .inl h

/-- A note that is no POST keeps the pace. -/
theorem Paced.note (h : Paced s) {e : Note} (he : ¬ e.IsPost) {w : Worker} {l : Lobby}
    {snapshot : List ℕ} {c : Caller} (hready : w = .ready → s.worker = .ready)
    (hfresh : w.Fresh → l.stopping = true ∨ s.worker.Fresh ∧ l.stopping = s.l.stopping) :
    Paced ⟨l, snapshot, w, c, e :: s.log⟩ := by
  refine ⟨h.spaced.cons fun hp => absurd hp he, fun hw => (h.ready (hready hw)).cons he, fun hw => ?_⟩
  rcases hfresh hw with hs | ⟨hw', hs⟩
  · exact .inl hs
  · rw [hs]
    exact (h.fresh hw').imp id fun hr => hr.cons he

/-- So does a step without a note. -/
theorem Paced.silent (h : Paced s) {w : Worker} {l : Lobby} {snapshot : List ℕ} {c : Caller}
    (hready : w = .ready → s.worker = .ready)
    (hfresh : w.Fresh → l.stopping = true ∨ s.worker.Fresh ∧ l.stopping = s.l.stopping) :
    Paced ⟨l, snapshot, w, c, s.log⟩ := by
  refine ⟨h.spaced, fun hw => h.ready (hready hw), fun hw => ?_⟩
  rcases hfresh hw with hs | ⟨hw', hs⟩
  · exact .inl hs
  · rw [hs]
    exact h.fresh hw'

theorem not_fresh {w : Worker} (h : w ∈ [Worker.ready, .posting, .failed, .posted, .debounce, .done]) :
    ¬ w.Fresh := by
  unfold Worker.Fresh Worker.Testing
  simp only [List.mem_cons, List.not_mem_nil, or_false] at h
  rcases h with rfl | rfl | rfl | rfl | rfl | rfl <;> simp

theorem paced_step (hf : Flags s) (h : Paced s) (hs : Step s a s') (hc : Undisturbed a s) : Paced s' := by
  cases hs with
  | sleep hw => exact h.silent nofun fun _ => .inr ⟨.inl hw, rfl⟩
  | leave hw => exact h.silent nofun fun hw => absurd hw (not_fresh (by simp))
  | render hw hstop =>
    have hrested := (h.fresh (.inl hw)).resolve_left (by rw [hstop]; decide)
    refine ⟨h.spaced.cons fun hp => absurd hp id, fun _ => hrested.cons id, fun hw => ?_⟩
    exact absurd hw (not_fresh (by simp))
  | tooLong hw => exact h.silent nofun fun hw => absurd hw (not_fresh (by simp))
  | post hw =>
    refine ⟨h.spaced.cons fun _ => h.ready hw, nofun, fun hw => ?_⟩
    exact absurd hw (not_fresh (by simp))
  | count hw => exact h.silent nofun fun hw => absurd hw (not_fresh (by simp))
  | skip hw hstop => exact h.silent nofun fun _ => .inl (hf.stopEvt.symm.trans hstop)
  | rest hw => exact h.silent nofun fun hw => absurd hw (not_fresh (by simp))
  | again hw => exact h.silent nofun fun _ => .inr ⟨.inr (.inr hw), rfl⟩
  | keepalive hw => exact h.silent nofun fun _ => .inr ⟨.inr (.inl hw), rfl⟩
  | expire hw =>
    exact ⟨h.spaced.cons fun hp => absurd hp id, nofun, fun _ => .inr (rested_of_gap rfl id)⟩
  | spurious hw =>
    refine h.silent signal_eq_ready.1 fun hfresh => ?_
    rcases fresh_signal hfresh with hw' | hw'
    · exact .inr ⟨hw', rfl⟩
    · exact absurd (hc hw') (by decide)
  | replied hw hw' =>
    refine h.silent (fun hr => ?_) fun hfresh => absurd hfresh (not_fresh ?_)
    · rcases hw' with rfl | rfl <;> cases hr
    · rcases hw' with rfl | rfl <;> simp
  | update hcall =>
    refine h.note id signal_eq_ready.1 fun hfresh => ?_
    rcases fresh_signal hfresh with hw' | hw'
    · exact .inr ⟨hw', rfl⟩
    · exact absurd (hc hw') (by simp [Move.disturbs])
  | turnedAway => exact h.note id id fun hw => .inr ⟨hw, rfl⟩
  | shutdown => exact h.note id signal_eq_ready.1 fun _ => .inl rfl
  | @close _ body =>
    cases body with
    | none => exact h.silent id fun hw => .inr ⟨hw, rfl⟩
    | some b => exact h.note id id fun hw => .inr ⟨hw, rfl⟩

/-! ### The count that a snapshot carries -/

/-- The count that `lobby_update` was last called with. -/
def latest (log : List Note) : Option ℤ :=
  log.findSome? fun
    | .update n => some n
    | _ => none

/-- The snapshot that the worker last rendered. -/
def lastRender (log : List Note) : Option (List ℕ) :=
  log.findSome? fun
    | .render body => some body
    | _ => none

/-- A snapshot that the worker renders is shorter than its buffer. -/
def BodyFits (a : Move) (s : Publisher) : Prop :=
  a = .work → s.l.stopping = false → (wholeBody s.l).length < jsonMax

/-- With nothing left to publish, the last snapshot shows the last count. -/
structure Carried (s : Publisher) : Prop where
  latest : ∀ n, latest s.log = some n → s.l.curplayers = n
  rendered : s.l.dirty = false → s.worker ≠ .done → ∀ n, Relay.latest s.log = some n →
    lastRender s.log = some (wholeBody { s.l with offline := false })

theorem carried_step (hf : Flags s) (h : Carried s) (hs : Step s a s') (hfit : BodyFits a s) :
    Carried s' := by
  cases hs with
  | sleep hw => exact ⟨h.latest, fun hd _ => h.rendered hd (by rcases hw with hw | ⟨t, hw⟩ <;> simp [hw])⟩
  | leave => exact ⟨h.latest, fun _ hw => absurd rfl hw⟩
  | render hw hstop =>
    refine ⟨h.latest, fun _ _ n hn => ?_⟩
    have hoff : s.l = { s.l with offline := false } := by
      rw [← hf.offline.trans hstop]
    have hbody : wholeBody s.l = wholeBody { s.l with offline := false } := congrArg wholeBody hoff
    exact congrArg some (hbody.trans (wholeBody_flags { s.l with offline := false } false s.l.stopping
      s.l.stopEvt s.l.failures).symm)
  | tooLong _ hstop hlen => exact absurd (hfit rfl hstop) (Nat.not_lt_of_le hlen)
  | post hw => exact ⟨h.latest, fun hd _ => h.rendered hd (by simp [hw])⟩
  | count hw => exact ⟨h.latest, fun hd _ => h.rendered hd (by simp [hw])⟩
  | skip hw => exact ⟨h.latest, fun hd _ => h.rendered hd (by simp [hw])⟩
  | rest hw => exact ⟨h.latest, fun hd _ => h.rendered hd (by simp [hw])⟩
  | again hw => exact ⟨h.latest, fun hd _ => h.rendered hd (by simp [hw])⟩
  | keepalive hw => exact ⟨h.latest, fun hd _ => h.rendered hd (by simp [hw])⟩
  | expire hw => exact ⟨h.latest, fun hd _ => h.rendered hd (by simp [hw])⟩
  | spurious hw => exact ⟨h.latest, fun hd hw' => h.rendered hd fun hw => hw' (signal_eq_done.2 hw)⟩
  | replied hw => exact ⟨h.latest, fun hd _ => h.rendered hd (by simp [hw])⟩
  | update => exact ⟨fun n hn => Option.some.inj hn, nofun⟩
  | turnedAway hcall hstop => exact absurd hstop (by rw [hf.serving hcall]; decide)
  | shutdown => exact ⟨h.latest, fun hd hw' => h.rendered hd fun hw => hw' (signal_eq_done.2 hw)⟩
  | @close _ body =>
    cases body with
    | none => exact ⟨h.latest, h.rendered⟩
    | some b => exact ⟨h.latest, h.rendered⟩

/-! ### After `stopping` is set -/

/-- Since `stopping` is set the worker has rendered nothing, and what it has posted, with `k` POSTs still
to come, is no more than what it had rendered before. -/
def EndedLog (k : ℕ) (log : List Note) : Prop :=
  ∀ l pending l', log = l ++ .stop pending :: l' →
    (∀ body, .render body ∉ l) ∧ l.countP (fun e => decide e.IsPost) + k ≤ pending.toNat

/-- A note that is neither of the worker's cycle nor of `lobby_shutdown`'s first section. -/
def Note.Other : Note → Prop
  | .render _ | .post _ | .stop _ => False
  | _ => True

theorem EndedLog.cons {k : ℕ} {e : Note} (h : EndedLog k log) (he : e.Other) : EndedLog k (e :: log) := by
  intro l pending l' hl
  rcases List.cons_eq_append_iff.1 hl with ⟨rfl, hl'⟩ | ⟨l₀, rfl, hlog⟩
  · cases hl'
    exact absurd he id
  · obtain ⟨h1, h2⟩ := h l₀ pending l' hlog
    refine ⟨fun b hb => ?_, ?_⟩
    · rcases List.mem_cons.1 hb with hb | hb
      · cases hb
        exact he
      · exact h1 b hb
    · have hpost : ¬ decide e.IsPost = true := fun hp => by
        cases e <;> first | exact he | exact of_decide_eq_true hp
      rw [List.countP_cons, if_neg hpost]
      exact h2

theorem EndedLog.post {body : List ℕ} (h : EndedLog 1 log) : EndedLog 0 (.post body :: log) := by
  intro l pending l' hl
  rcases List.cons_eq_append_iff.1 hl with ⟨rfl, hl'⟩ | ⟨l₀, rfl, hlog⟩
  · cases hl'
  · obtain ⟨h1, h2⟩ := h l₀ pending l' hlog
    refine ⟨fun b hb => ?_, ?_⟩
    · rcases List.mem_cons.1 hb with hb | hb
      · cases hb
      · exact h1 b hb
    · have hpost : decide (Note.post body).IsPost = true := decide_eq_true trivial
      rw [List.countP_cons, if_pos hpost]
      exact h2

theorem EndedLog.stop {k : ℕ} {pending : Bool} (h : ∀ p, .stop p ∉ log) (hk : k ≤ pending.toNat) :
    EndedLog k (.stop pending :: log) := by
  intro l p l' hl
  rcases List.cons_eq_append_iff.1 hl with ⟨rfl, hl'⟩ | ⟨l₀, rfl, hlog⟩
  · obtain ⟨⟨⟩, rfl⟩ := List.cons.inj hl'
    refine ⟨fun b hb => absurd hb List.not_mem_nil, ?_⟩
    rw [List.countP_nil, Nat.zero_add]
    exact hk
  · exact absurd (hlog ▸ by simp) (h p)

theorem endedLog_of_serving {k : ℕ} (h : ∀ p, .stop p ∉ log) : EndedLog k log := by
  intro l p l' hl
  exact absurd (hl ▸ by simp) (h p)

/-- The POSTs that the worker has rendered and yet to call. -/
def Worker.pending (w : Worker) : ℕ := if w = .ready then 1 else 0

structure Ended (s : Publisher) : Prop where
  running : s.l.stopping = false → ∀ p, .stop p ∉ s.log
  ended : EndedLog s.worker.pending s.log

theorem EndedLog.mono {k k' : ℕ} (h : EndedLog k log) (hk : k' ≤ k) : EndedLog k' log :=
  fun l p l' hl => ⟨(h l p l' hl).1, Nat.le_trans (Nat.add_le_add_left hk _) (h l p l' hl).2⟩

theorem pending_signal (w : Worker) : w.signal.pending = w.pending := by
  unfold Worker.pending
  simp only [signal_eq_ready]

theorem pending_of_ne {w : Worker} (h : w ≠ .ready) : w.pending = 0 := if_neg h

/-- A step that changes neither the log nor `stopping`. -/
theorem Ended.silent (h : Ended s) {w : Worker} {l : Lobby} {snapshot : List ℕ} {c : Caller}
    (hw : w ≠ .ready) (hstop : l.stopping = s.l.stopping) : Ended ⟨l, snapshot, w, c, s.log⟩ :=
  ⟨fun hs => h.running (hstop.symm.trans hs), h.ended.mono (by rw [pending_of_ne hw]; exact Nat.zero_le _)⟩

theorem Ended.note (h : Ended s) {e : Note} (he : e.Other) {w : Worker} {l : Lobby}
    {snapshot : List ℕ} {c : Caller} (hw : w.pending ≤ s.worker.pending)
    (hstop : l.stopping = s.l.stopping) : Ended ⟨l, snapshot, w, c, e :: s.log⟩ := by
  refine ⟨fun hs p hm => ?_, (h.ended.mono hw).cons he⟩
  rcases List.mem_cons.1 hm with hm | hm
  · exact (hm ▸ he : (Note.stop p).Other)
  · exact h.running (hstop.symm.trans hs) p hm

theorem ended_step (hf : Flags s) (h : Ended s) (hs : Step s a s') : Ended s' := by
  cases hs with
  | sleep => exact h.silent nofun rfl
  | leave => exact h.silent nofun rfl
  | render _ hstop =>
    have hno : ∀ p, Note.stop p ∉ Note.render (wholeBody s.l) :: s.log := fun p hm =>
      (List.mem_cons.1 hm).elim nofun (h.running hstop p)
    exact ⟨fun _ => hno, endedLog_of_serving hno⟩
  | tooLong => exact h.silent nofun rfl
  | post hw =>
    refine ⟨fun hs p hm => (List.mem_cons.1 hm).elim nofun (h.running hs p), ?_⟩
    have hended := h.ended
    rw [hw] at hended
    exact hended.post
  | count => exact h.silent nofun rfl
  | skip => exact h.silent nofun rfl
  | rest => exact h.silent nofun rfl
  | again => exact h.silent nofun rfl
  | keepalive => exact h.silent nofun rfl
  | expire => exact h.note (by trivial) (Nat.zero_le _) rfl
  | spurious hw =>
    refine h.silent (fun hr => ?_) rfl
    rcases hw with hw | hw <;> rw [signal_eq_ready, hw] at hr <;> cases hr
  | replied _ hw =>
    refine h.silent (fun hr => ?_) rfl
    rcases hw with rfl | rfl <;> cases hr
  | update => exact h.note (by trivial) (Nat.le_of_eq (pending_signal _)) rfl
  | turnedAway => exact h.note (by trivial) (Nat.le_refl _) rfl
  | shutdown hc =>
    refine ⟨nofun, EndedLog.stop (h.running (hf.serving hc)) ?_⟩
    rw [pending_signal, Worker.pending]
    split_ifs with hw <;> simp [hw]
  | @close _ body =>
    cases body with
    | none => exact ⟨h.running, h.ended⟩
    | some b => exact h.note (by trivial) (Nat.le_refl _) rfl

/-- `lobby_shutdown` does not come between the worker's release of the mutex and its call of `do_post`. -/
def Settled (a : Move) (s : Publisher) : Prop := a = .shutdown → s.worker ≠ .ready

theorem settled_step (h : ∀ p, .stop p ∈ s.log → p = false) (hs : Step s a s') (hset : Settled a s) :
    ∀ p, .stop p ∈ s'.log → p = false := by
  have hnote : ∀ {e : Note}, (∀ p, e ≠ .stop p) → ∀ p, Note.stop p ∈ e :: s.log → p = false :=
    fun he p hp => (List.mem_cons.1 hp).elim (fun hp => absurd hp.symm (he p)) (h p)
  cases hs with
  | render => exact hnote (by simp)
  | post => exact hnote (by simp)
  | expire => exact hnote (by simp)
  | update => exact hnote (by simp)
  | turnedAway => exact hnote (by simp)
  | shutdown =>
    intro p hp
    rcases List.mem_cons.1 hp with hp | hp
    · cases hp
      exact beq_eq_false_iff_ne.2 (hset rfl)
    · exact h p hp
  | @close _ body =>
    cases body with
    | none => exact h
    | some b => exact hnote (by simp)
  | _ => exact h

/-! ### A debounce cut short -/

/-- Since the POST that a debounce follows no second has elapsed. -/
def Owed (s : Publisher) : Prop :=
  s.worker ∈ [Worker.posting, .failed, .posted, .debounce] → s.l.stopping = false →
    ¬ Rested Note.IsPost (· = .elapsed) s.log

theorem owed_step (hf : Flags s) (h : Owed s) (hs : Step s a s') (hfit : BodyFits a s) : Owed s' := by
  cases hs with
  | tooLong _ hstop hlen => exact absurd (hfit rfl hstop) (Nat.not_lt_of_le hlen)
  | post => exact fun _ _ => not_rested_of_head trivial
  | count hw => exact fun _ => h (by simp [hw])
  | rest hw => exact fun _ => h (by simp [hw])
  | replied hw => exact fun _ => h (by simp [hw])
  | spurious hw => exact fun hw' => absurd hw' (by rcases hw with hw | hw <;> simp [hw, Worker.signal])
  | update _ hstop =>
    refine fun hw' _ hr => h ?_ hstop (hr.of_cons nofun)
    revert hw'
    cases s.worker <;> simp [Worker.signal]
  | turnedAway hcall hstop => exact absurd hstop (by rw [hf.serving hcall]; decide)
  | shutdown => exact fun _ => nofun
  | @close _ body =>
    cases body with
    | none => exact h
    | some b => exact fun hw hstop hr => h hw hstop (hr.of_cons nofun)
  | _ => exact fun hw => absurd hw (by simp)

end kept

/-! ### Whole runs -/

section run

variable {a : LobbyArgs} {l : Lobby} {s s' : Publisher}

theorem bind_eq_ok {ε α β : Type} {x : Except ε α} {f : α → Except ε β} {b : β} (h : (x >>= f) = .ok b) :
    ∃ y, x = .ok y ∧ f y = .ok b := by
  cases x with
  | error e => cases h
  | ok y => exact ⟨y, rfl, h⟩

/-- A lobby starts with its flags clear. -/
theorem lobbyStart_flags (h : lobbyStart a = .ok l) :
    l.stopping = false ∧ l.stopEvt = false ∧ l.offline = false := by
  obtain ⟨_, -, h⟩ := bind_eq_ok h
  obtain ⟨_, -, h⟩ := bind_eq_ok h
  obtain ⟨_, -, h⟩ := bind_eq_ok h
  obtain ⟨_, -, h⟩ := bind_eq_ok h
  obtain ⟨_, -, h⟩ := bind_eq_ok h
  obtain rfl := Except.ok.inj h
  exact ⟨rfl, rfl, rfl⟩

theorem flags_start (h : lobbyStart a = .ok l) : Flags (.start l) := by
  obtain ⟨h1, h2, h3⟩ := lobbyStart_flags h
  exact ⟨h2.trans h1.symm, h3.trans h1.symm, fun _ => h1⟩

/-- What every step keeps, under a condition on it and with the flags in order, holds of a run. -/
theorem run_induct {R : Move → Publisher → Prop} {P : Publisher → Prop} (hr : RunOf R s s')
    (hf : Flags s) (h : P s)
    (hstep : ∀ m t t', Flags t → P t → Step t m t' → R m t → P t') : Flags s' ∧ P s' := by
  induction hr with
  | refl => exact ⟨hf, h⟩
  | tail _ hlast ih =>
    obtain ⟨m, hnext, hm⟩ := hlast
    have hs := step_of_next hnext
    exact ⟨flags_step ih.1 hs, hstep m _ _ ih.1 ih.2 hs hm⟩

/-- The moves in turn, as long as each meets the condition. -/
def moves (R : Move → Publisher → Prop) [DecidableRel R] : List Move → Publisher → Option Publisher
  | [], s => some s
  | m :: ms, s => if R m s then (next m s).bind (moves R ms) else none

theorem runOf_moves {R : Move → Publisher → Prop} [DecidableRel R] {ms : List Move}
    (h : moves R ms s = some s') : RunOf R s s' := by
  induction ms generalizing s with
  | nil =>
    obtain rfl := Option.some.inj h
    exact .refl
  | cons m ms ih =>
    rw [moves] at h
    split_ifs at h with hm
    obtain ⟨t, ht, hrest⟩ := Option.bind_eq_some_iff.1 h
    exact .head ⟨m, ht, hm⟩ (ih hrest)

/-- **After `stopping` is set** the worker renders nothing more, and posts at most the snapshot that it
had rendered before. -/
theorem ended_run {R : Move → Publisher → Prop} (ha : lobbyStart a = .ok l)
    (hr : RunOf R (.start l) s) : EndedLog 0 s.log := by
  have hstart : Ended (.start l) :=
    ⟨fun _ p => List.not_mem_nil, endedLog_of_serving fun p => List.not_mem_nil⟩
  have hrun := run_induct hr (flags_start ha) hstart fun _ _ _ hf h hs _ => ended_step hf h hs
  exact hrun.2.ended.mono (Nat.zero_le _)

/-- What the pace, the counts and the end of a run rely on. -/
def Regular (a : Move) (s : Publisher) : Prop := Undisturbed a s ∧ BodyFits a s ∧ Settled a s

instance : DecidableRel Regular := fun a s => by
  unfold Regular Undisturbed BodyFits Settled
  infer_instance

/-- **The debounce is what paces the POSTs**: wherever a run has the worker in its debounce wait, a call
of `lobby_update` makes it POST again before the second has elapsed. -/
theorem update_cuts_debounce (ha : lobbyStart a = .ok l) (hr : RunOf Regular (.start l) s)
    (hw : s.worker = .debounce) (hc : s.caller = .serving) (n : ℤ)
    (hn : (wholeBody { s.l with curplayers := n }).length < jsonMax) :
    ∃ s', RunOf (fun _ _ => True) s s' ∧ s'.l.stopping = false ∧
      ¬ Spaced Note.IsPost (· = .elapsed) s'.log := by
  have howed : Owed (.start l) := fun hw => absurd hw (by simp [Publisher.start])
  obtain ⟨hf, ho⟩ :=
    run_induct hr (flags_start ha) howed fun _ _ _ hf h hs hm => owed_step hf h hs hm.2.1
  have hstop := hf.serving hc
  have hrest := ho (by simp [hw]) hstop
  -- The broadcast ends the wait, and the next cycle finds `dirty` set.
  obtain ⟨l₁, hl₁⟩ : ∃ l₁, l₁ = { s.l with curplayers := n, dirty := true } := ⟨_, rfl⟩
  have hbody : wholeBody l₁ = wholeBody { s.l with curplayers := n } := by
    rw [hl₁]
    exact wholeBody_flags { s.l with curplayers := n } true s.l.stopping s.l.stopEvt s.l.failures
  have hstop₁ : l₁.stopping = false := by
    rw [hl₁]
    exact hstop
  have hdirty : l₁.dirty = true := by rw [hl₁]
  have hfit : (wholeBody { l₁ with dirty := false }).length < jsonMax := by
    rw [wholeBody_flags l₁ false l₁.stopping l₁.stopEvt l₁.failures, hbody]
    exact hn
  let s₁ : Publisher := ⟨l₁, s.snapshot, .debounced, s.caller, .update n :: s.log⟩
  let s₂ : Publisher := { s₁ with worker := .top }
  let body := wholeBody { l₁ with dirty := false }
  let s₃ : Publisher := ⟨{ l₁ with dirty := false }, body, .ready, s.caller, .render body :: s₁.log⟩
  let s₄ : Publisher := { s₃ with worker := .posting, log := .post body :: s₃.log }
  have h₁ : next (.update n) s = some s₁ := by
    rw [next, if_pos hc, lobbyUpdate]
    dsimp only
    rw [if_neg (by rw [hstop]; decide), hw, ← hl₁]
    rfl
  have h₃ : next .work s₂ = some s₃ := by
    have hcycle : cycle s₂ = s₃ := by
      unfold cycle
      rw [if_neg (by simp [s₂, s₁, hdirty])]
      dsimp only [s₂, s₁]
      rw [if_neg (by rw [hstop₁]; decide), renderJson_fits hfit, if_pos rfl]
    exact congrArg some hcycle
  refine ⟨s₄, ?_, hstop₁, fun hspaced => hrest ?_⟩
  · refine .head ⟨_, h₁, trivial⟩ (.head ⟨.work, ?_, trivial⟩ (.head ⟨_, h₃, trivial⟩
      (.single ⟨.work, ?_, trivial⟩)))
    · rfl
    · rfl
  · exact ((hspaced.rested trivial).of_cons nofun).of_cons nofun

/-- What a publisher promises. -/
structure Published (s : Publisher) : Prop where
  /-- Between two POSTs of the worker the second of a debounce has elapsed. -/
  paced : Spaced Note.IsPost (· = .elapsed) s.log
  /-- When it waits with nothing to publish, its last snapshot shows the last count. -/
  carried : s.l.dirty = false → s.worker = .idle ∨ s.worker = .debounce → ∀ n, latest s.log = some n →
    lastRender s.log = some (wholeBody { s.l with curplayers := n, offline := false })
  /-- It posts nothing after `stopping` is set. -/
  ended : ∀ log pending log', s.log = log ++ .stop pending :: log' → ∀ e ∈ log, ¬ e.IsPost

/-- **The publisher**: in every run that does not disturb the debounce, whose bodies fit and in which
`lobby_shutdown` does not overtake a POST, the worker keeps its promises. -/
theorem published (ha : lobbyStart a = .ok l) (hr : RunOf Regular (.start l) s) : Published s := by
  have hf := flags_start ha
  have hpaced : Paced (.start l) := ⟨spaced_nil, nofun, fun _ => .inr rested_nil⟩
  have hcarried : Carried (.start l) := ⟨nofun, fun _ _ => nofun⟩
  have hp := (run_induct hr hf hpaced fun _ _ _ hf h hs hm => paced_step hf h hs hm.1).2
  have hc := (run_induct hr hf hcarried fun _ _ _ hf h hs hm => carried_step hf h hs hm.2.1).2
  have hstop : ∀ p, Note.stop p ∈ s.log → p = false :=
    (run_induct (P := fun s => ∀ p, Note.stop p ∈ s.log → p = false) hr hf
      (fun p hp => absurd hp List.not_mem_nil) fun _ _ _ _ h hs hm => settled_step h hs hm.2.2).2
  refine ⟨hp.spaced, fun hd hw n hn => ?_, fun log pending log' hlog e he hpost => ?_⟩
  · have hdone : s.worker ≠ .done := by rcases hw with hw | hw <;> simp [hw]
    obtain rfl := hc.latest n hn
    exact hc.rendered hd hdone _ hn
  · obtain ⟨-, hcount⟩ := ended_run ha hr log pending log' hlog
    obtain rfl := hstop pending (hlog ▸ by simp)
    have hpos : 0 < log.countP fun e => decide e.IsPost :=
      List.countP_pos_iff.2 ⟨e, he, decide_eq_true hpost⟩
    rw [Bool.toNat_false, Nat.add_zero] at hcount
    omega

end run

/-- The server's own setup. -/
def soccerArgs : LobbyArgs := { delArgs with gameName := ⟨ascii "NASL Soccer", by decide⟩ }

/-- Two counts, a second POST after the debounce, and the end of the server. -/
def quietMoves : List Move :=
  [.work, .update 0, .work, .work, .replied true, .update 3, .work, .expire, .work, .work, .work,
    .replied true, .work, .shutdown, .work, .work]

/-- The second count comes during the debounce. -/
def hastyMoves : List Move :=
  [.work, .update 0, .work, .work, .replied true, .work, .update 3, .work, .work, .work]

theorem published_quiet : ∃ l s, lobbyStart soccerArgs = .ok l ∧ RunOf Regular (.start l) s ∧
    s.log.countP (fun e => decide e.IsPost) = 2 ∧ Published s := by
  have hl : ∃ l, lobbyStart soccerArgs = .ok l ∧ ((moves Regular quietMoves (.start l)).any fun s =>
      s.log.countP (fun e => decide e.IsPost) == 2) = true := by
    refine ⟨_, rfl, ?_⟩
    decide +kernel
  obtain ⟨l, hl, hany⟩ := hl
  obtain ⟨s, hs, hcount⟩ := (Option.any_eq_true _ _).1 hany
  have hrun := runOf_moves hs
  exact ⟨l, s, hl, hrun, eq_of_beq hcount, published hl hrun⟩

/-- `lobby_update` cuts the debounce short: two POSTs, and no second has elapsed between them. -/
theorem posts_without_rest : ∃ l s, lobbyStart soccerArgs = .ok l ∧
    RunOf (fun _ _ => True) (.start l) s ∧ s.l.stopping = false ∧
      ¬ Spaced Note.IsPost (· = .elapsed) s.log := by
  have hl : ∃ l, lobbyStart soccerArgs = .ok l ∧
      ((moves (fun _ _ => True) hastyMoves (.start l)).any fun s => !s.l.stopping &&
        s.log == [.post (wholeBody { l with curplayers := 3 }),
          .render (wholeBody { l with curplayers := 3 }), .update 3, .post (wholeBody l),
          .render (wholeBody l), .update 0]) = true := by
    refine ⟨_, rfl, ?_⟩
    decide +kernel
  obtain ⟨l, hl, hany⟩ := hl
  obtain ⟨s, hs, hs'⟩ := (Option.any_eq_true _ _).1 hany
  simp only [Bool.and_eq_true, Bool.not_eq_true'] at hs'
  have hlog := eq_of_beq hs'.2
  refine ⟨l, s, hl, runOf_moves hs, hs'.1, fun hspaced => ?_⟩
  obtain ⟨c, hc, rfl⟩ := hspaced [] _ [_, _] _ _ hlog trivial trivial
  simp at hc

end IntvNetplay.Relay
