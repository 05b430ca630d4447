import IntvNetplay.Relay.Chunks
import IntvNetplay.Relay.Refine

/-!
# The runs of the two programs agree

From the functions to the events and the runs.  The one place where the programs part without a failure
is a JOIN with a name that goes on behind a NUL; the state has that on record.
-/

namespace IntvNetplay.Relay

section events

variable {S S' : Setup} (hT : Twins S S') {r : State} {ci : ℕ}
include hT

theorem flush_eq (h : (flush S (drop S) ci r).failed = false) :
    flush S' (drop S') ci r = flush S (drop S) ci r :=
  flushLoop_eq hT (closed_failed S).drop ci _ h

theorem drain_eq (n : ℕ) {b : List ℕ} (hs : Sound S ∅ ∅ r) (hl : r.Live ci)
    (h : (drain S ci n r b).1.failed = false) (hcut : (drain S ci n r b).1.cut = false) :
    drain S' ci n r b = drain S ci n r b := by
  induction n generalizing r b with
  | zero => rfl
  | succ n ih =>
    cases b with
    | nil => rfl
    | cons len rest =>
      have hone : (handle S ci ⟨rest.headD 0, (rest.take len).tail⟩ r).failed = false →
          (handle S ci ⟨rest.headD 0, (rest.take len).tail⟩ r).cut = false →
          handle S' ci ⟨rest.headD 0, (rest.take len).tail⟩ r =
            handle S ci ⟨rest.headD 0, (rest.take len).tail⟩ r := handle_eq hT hs hl
      have hmono := passing_failed S
      rw [drain] at h hcut ⊢
      rw [drain]
      dsimp only at h hcut ⊢
      by_cases h1 : len < 1 ∨ 200 < len
      · rw [if_pos h1] at h ⊢
        rw [if_pos h1, (drop_eq hT h).1]
      by_cases h2 : rest.length < len
      · rw [if_neg h1, if_pos h2, if_neg h1, if_pos h2]
      rw [if_neg h1, if_neg h2] at h hcut ⊢
      rw [if_neg h1, if_neg h2]
      by_cases h3 : ((handle S ci ⟨rest.headD 0, (rest.take len).tail⟩ r).clients ci).dead = true
      · rw [if_pos h3] at h hcut ⊢
        rw [hone h hcut, if_pos h3]
      · rw [if_neg h3] at h hcut ⊢
        have hkept := hmono.drain ci n (handle S ci ⟨rest.headD 0, (rest.take len).tail⟩ r)
          (rest.drop len)
        obtain ⟨hs', hl'⟩ := handled hT.fit hT.rechecks ⟨rest.headD 0, (rest.take len).tail⟩ hs hl
          (Bool.not_eq_true _ ▸ h3)
        rw [hone (hkept.2.1 h) (hkept.2.2 hcut), if_neg h3]
        exact ih hs' hl' h hcut

/-- A chunk: the same frames, and the same waits for the rest of its frame. -/
theorem feed_eq {data b : List ℕ} (hb : Waits b) (hs : Sound S ∅ ∅ r) (hl : r.Live ci)
    (h : (feed S ci data r b).1.failed = false) (hcut : (feed S ci data r b).1.cut = false) :
    (feed S' ci data r b).1 = (feed S ci data r b).1 ∧
      (((feed S ci data r b).1.clients ci).dead = false →
        (feed S' ci data r b).2 = (feed S ci data r b).2 ∧ Waits (feed S ci data r b).2) := by
  have hbuf : feed S ci data r b = feedBuf S ci data.length data r b := by
    rw [feed, if_pos hT.ctable]
  have hall : feed S' ci data r b = feedAll S' ci data r b := by
    rw [feed, hT.ctable', if_neg Bool.false_ne_true]
  rw [hbuf] at h hcut ⊢
  rw [hall]
  obtain ⟨hst, hrx⟩ := feedBuf_eq hT.fit hT.rechecks data.length (le_refl _) hb hs hl
  rw [hst] at h hcut hrx ⊢
  have heq : feedAll S' ci data r b = feedAll S ci data r b := drain_eq hT _ hs hl h hcut
  rw [heq]
  refine ⟨rfl, fun hd => ⟨(hrx hd).symm, ?_⟩⟩
  rw [hrx hd]
  exact waits_drain hT.fit hT.rechecks _ (le_refl _) hs hl hd

/-! ### New connections and silent ones -/

/-- The numbers of the Python program, and which of them are beyond the slots. -/
theorem span_eq : span S r = List.range maxClients ∧
    span S' r = span S r ++ (List.range r.conns).map fun i => maxClients + i := by
  have hS : span S r = List.range maxClients := by rw [span, if_pos hT.ctable]
  refine ⟨hS, ?_⟩
  rw [hS, span, hT.ctable', if_neg Bool.false_ne_true, List.range_add]

omit hT in
theorem not_inUse_beyond (hs : Sound S ∅ ∅ r) (n : ℕ) : ∀ x ∈ (List.range n).map fun i => maxClients + i,
    (r.clients x).inUse = false := by
  intro x hx
  obtain ⟨i, -, rfl⟩ := List.mem_map.1 hx
  cases hu : (r.clients (maxClients + i)).inUse with
  | false => rfl
  | true =>
    have := hs.slots _ hu
    omega

theorem clientAlloc_eq (hs : Sound S ∅ ∅ r) (hn : r.nClients < maxClients) :
    clientAlloc S' r = clientAlloc S r := by
  obtain ⟨ci, hci, -, hlt⟩ := clientAlloc_isSome hs hn
  have hvacant : vacant S' r = vacant S r := funext fun i => by
    rw [vacant_iff hs, vacant_iff (hs.twin hT)]
  rw [clientAlloc, hvacant, (span_eq hT).2, List.find?_append]
  rw [clientAlloc] at hci
  rw [clientAlloc, hci, Option.some_or]

theorem accept_eq (ip now : ℕ) (hs : Sound S ∅ ∅ r) : accept S' ip now r = accept S ip now r := by
  have hcount : ((span S' r).countP fun i => (r.clients i).inUse && (r.clients i).ip == ip) =
      (span S r).countP fun i => (r.clients i).inUse && (r.clients i).ip == ip := by
    rw [(span_eq hT).2, List.countP_append]
    have hzero : (((List.range r.conns).map fun i => maxClients + i).countP
        fun i => (r.clients i).inUse && (r.clients i).ip == ip) = 0 := by
      rw [List.countP_eq_zero]
      intro x hx
      rw [not_inUse_beyond hs _ x hx]
      exact Bool.false_ne_true
    rw [hzero, Nat.add_zero]
  unfold accept
  rw [hcount]
  split_ifs with hfull
  · rfl
  · rfl
  · rw [clientAlloc_eq hT hs (by omega)]

/-- One round of `sweep`. -/
def sweepOne (S : Setup) (now : ℕ) (r : State) (i : ℕ) : State :=
  let c := r.clients i
  if c.inUse ∧ c.dead = false ∧ c.name = [] ∧ helloTimeout < now - c.connectedAt then drop S r i
  else r

omit hT in
theorem sweep_foldl (S : Setup) (now : ℕ) (r : State) :
    sweep S now r = (span S r).foldl (sweepOne S now) r := rfl

omit hT in
theorem failed_sweepOne (now : ℕ) (l : List ℕ) (h : (l.foldl (sweepOne S now) r).failed = false) :
    r.failed = false := by
  induction l generalizing r with
  | nil => exact h
  | cons i l ih =>
    rw [List.foldl_cons] at h
    have hone := ih h
    rw [sweepOne] at hone
    split_ifs at hone
    · exact (closed_failed S).drop r i hone
    · exact hone

theorem sweepOne_eq (now i : ℕ) (h : (sweepOne S now r i).failed = false) :
    sweepOne S' now r i = sweepOne S now r i := by
  by_cases hi : (r.clients i).inUse = true ∧ (r.clients i).dead = false ∧ (r.clients i).name = [] ∧
      helloTimeout < now - (r.clients i).connectedAt
  · have hout : ∀ T : Setup, sweepOne T now r i = drop T r i := fun T => if_pos hi
    rw [hout] at h
    rw [hout, hout]
    exact (drop_eq hT h).1
  · have hstay : ∀ T : Setup, sweepOne T now r i = r := fun T => if_neg hi
    rw [hstay, hstay]

theorem sweepAll_eq (now : ℕ) (l : List ℕ) (h : (l.foldl (sweepOne S now) r).failed = false) :
    l.foldl (sweepOne S' now) r = l.foldl (sweepOne S now) r := by
  induction l generalizing r with
  | nil => rw [List.foldl_nil, List.foldl_nil]
  | cons i l ih =>
    rw [List.foldl_cons] at h
    rw [List.foldl_cons, List.foldl_cons, sweepOne_eq hT now i (failed_sweepOne now l h)]
    exact ih h

theorem sweep_eq (now : ℕ) (hs : Sound S ∅ ∅ r) (h : (sweep S now r).failed = false) :
    sweep S' now r = sweep S now r := by
  have hsound : Sound S ∅ ∅ (sweep S now r) := (keeps_sweep hT.fit.toOk now hs).1
  rw [sweep_foldl] at h hsound ⊢
  rw [sweep_foldl, (span_eq hT).2, List.foldl_append, sweepAll_eq hT now _ h]
  -- Nobody goes by the numbers that the C program does not have.
  generalize (span S r).foldl (sweepOne S now) r = r' at hsound
  generalize hl : (List.range r.conns).map (fun i => maxClients + i) = l
  have hfree := not_inUse_beyond hsound r.conns
  rw [hl] at hfree
  clear hl
  induction l with
  | nil => rfl
  | cons x l ih =>
    have hx : sweepOne S' now r' x = r' := by
      rw [sweepOne, hfree x (List.mem_cons_self ..)]
      exact if_neg fun hc => Bool.false_ne_true hc.1
    rw [List.foldl_cons, hx]
    exact ih fun y hy => hfree y (List.mem_cons_of_mem x hy)

/-! ### Runs -/

/-- The two programs are in the same state, and the same waits for the rest of a frame. -/
structure Same (v v' : Server) : Prop where
  st : v'.st = v.st
  rx : ∀ c, v.st.Live c → v'.rx c = v.rx c ∧ Waits (v.rx c)

omit hT in
theorem same_init : Same .init .init := ⟨rfl, fun _ _ => ⟨rfl, waits_nil⟩⟩

omit hT in
/-- What waits stays, for the clients that are left. -/
theorem Same.keep {v v' : Server} {r' : State} (h : Same v v') (hk : Spares v.st r') :
    Same ⟨r', v.rx⟩ ⟨r', v'.rx⟩ := ⟨rfl, fun c hc => h.rx c (hk.live c hc)⟩

omit hT in
/-- A new client has sent nothing yet. -/
theorem Same.accepted {v v' : Server} (h : Same v v') (ip now : ℕ) :
    Same ⟨accept S ip now v.st, fun c => if (v.st.clients c).inUse then v.rx c else []⟩
      ⟨accept S ip now v.st, fun c => if (v.st.clients c).inUse then v'.rx c else []⟩ := by
  refine ⟨rfl, fun c hc => ?_⟩
  dsimp only at hc ⊢
  by_cases hu : (v.st.clients c).inUse = true
  · rw [if_pos hu, if_pos hu]
    refine h.rx c ?_
    obtain heq | heq | ⟨ci, hfree, hnew, -⟩ := accept_cases S ip now v.st
    · rw [heq] at hc
      exact hc
    · rw [heq] at hc
      exact hc
    · have hne : c ≠ ci := by
        rintro rfl
        rw [hu] at hfree
        cases hfree
      rw [State.Live, hnew, if_neg hne] at hc
      exact hc
  · rw [if_neg hu, if_neg hu]
    exact ⟨rfl, waits_nil⟩

/-- One event, with no failure and no name cut short. -/
theorem same_step (e : Event) {v v' : Server} (h : Same v v') (hs : Sound S ∅ ∅ v.st)
    (hf : (step S e v).st.failed = false) (hcut : (step S e v).st.cut = false) :
    Same (step S e v) (step S' e v') := by
  have hst := h.st
  cases e with
  | accept ip now =>
    unfold step
    dsimp only
    rw [hst, accept_eq hT ip now hs]
    exact h.accepted ip now
  | recv ci data =>
    unfold step at hf hcut ⊢
    dsimp only at hf hcut ⊢
    rw [hst]
    by_cases hl : v.st.Live ci
    · obtain ⟨hrx, hwaits⟩ := h.rx ci hl
      rw [if_pos hl] at hf hcut ⊢
      rw [if_pos hl, hrx]
      dsimp only at hf hcut ⊢
      obtain ⟨heq, hrest⟩ := feed_eq hT hwaits hs hl hf hcut
      have hk := keeps_feed hT.fit ci data (v.rx ci) hs hl (.inl hT.rechecks)
      refine ⟨heq, fun c hc => ?_⟩
      dsimp only at hc ⊢
      by_cases hcc : c = ci
      · rw [hcc, Function.update_self, Function.update_self]
        exact hrest (hcc ▸ hc.2)
      · rw [Function.update_of_ne hcc, Function.update_of_ne hcc]
        exact h.rx c (hk.2.live c hc)
    · rw [if_neg hl, if_neg hl]
      exact h
  | closed ci =>
    unfold step at hf ⊢
    dsimp only at hf ⊢
    rw [hst]
    by_cases hl : v.st.Live ci
    · rw [if_pos hl] at hf ⊢
      rw [if_pos hl, (drop_eq hT hf).1]
      exact h.keep (keeps_drop hT.fit.toOk hs fun _ => hl).2
    · rw [if_neg hl, if_neg hl]
      exact h
  | writable ci =>
    unfold step at hf ⊢
    dsimp only at hf ⊢
    rw [hst]
    by_cases hl : v.st.Live ci
    · rw [if_pos hl] at hf ⊢
      rw [if_pos hl, flush_eq hT hf]
      have hafter := after_flushLoop (drops_drop hT.fit.toOk) ci (v.st.clients ci).tx.length hs
        (liveCount_le_max _) hl
      exact h.keep hafter.keeps.2
    · rw [if_neg hl, if_neg hl]
      exact h
  | sweep now =>
    unfold step at hf ⊢
    dsimp only at hf ⊢
    rw [hst, sweep_eq hT now hs hf]
    exact h.keep (keeps_sweep hT.fit.toOk now hs).2

omit hT in
/-- A failure and a name cut short stay on record from event to event. -/
theorem record_step (e : Event) (v : Server) :
    ((step S e v).st.failed = false → v.st.failed = false) ∧
      ((step S e v).st.cut = false → v.st.cut = false) := by
  refine ((passing_failed S).step (fun ip now r => ?_) e v).2
  unfold accept
  split_ifs
  · exact (passing_failed S).toClosed.refl r
  · exact (passing_failed S).toClosed.refl r
  · split
    · exact (passing_failed S).toClosed.bad r
    · exact ⟨List.suffix_refl _, id, id⟩

/-- A whole run. -/
theorem same_run (es : List Event) (hf : (run S es).st.failed = false)
    (hcut : (run S es).st.cut = false) : Same (run S es) (run S' es) := by
  induction es using List.reverseRecOn with
  | nil => exact same_init
  | append_singleton es e ih =>
    rw [run, List.foldl_append] at hf hcut ⊢
    rw [run, List.foldl_append]
    obtain ⟨hfail, hsnip⟩ := record_step (S := S) e (run S es)
    exact same_step hT e (ih (hfail hf) (hsnip hcut)) (sound_run hT.fit es (.inl hT.rechecks)) hf hcut

end events

/-- With options that both programs take as they are, no send failing, and no name of a JOIN cut short
at a NUL to one that could be joined, the programs are in the same state after every event: the same
frames queued to and written to each client, the same clients gone, the same registry and rooms. -/
theorem relays_agree {autoGo delay : ℕ} (hauto : autoGo ≤ 2) (_hdelay : delay < 256)
    (send : ℕ → SendResult) (seed : ℕ → ℕ) (es : List Event)
    (hf : (run (cRelay false 2 autoGo delay send seed) es).st.failed = false)
    (hcut : (run (cRelay false 2 autoGo delay send seed) es).st.cut = false) :
    (run (pyRelay autoGo delay send seed) es).st =
      (run (cRelay false 2 autoGo delay send seed) es).st :=
  (same_run (twins hauto delay send seed) es hf hcut).st

/-- Three consoles, one of them silent; the other two meet, and one leaves with a bad frame. -/
theorem relays_agree_three :
    let S := cRelay false 2 0 3 (fun _ => .wrote 99) fun _ => 7
    let S' := pyRelay 0 3 (fun _ => .wrote 99) fun _ => 7
    let es := [.accept 1 0, .accept 2 0, .accept 3 0, .recv 0 [4, 1, 2, 66], .recv 0 [66],
      .recv 1 [4, 1, 2, 67, 67, 3, 4, 66, 66], .recv 0 [1, 5], .recv 1 [0], .sweep 1000]
    (run S' es).st = (run S es).st :=
  relays_agree (by decide) (by decide) _ _ _ (by decide +kernel) (by decide +kernel)

/-- A JOIN with `BOB`, a NUL and one more letter: the C program joins BOB, the Python one sends the
lobby. -/
theorem not_relays_agree :
    let S := cRelay false 2 0 3 (fun _ => .wrote 99) fun _ => 7
    let S' := pyRelay 0 3 (fun _ => .wrote 99) fun _ => 7
    let es := [.accept 1 0, .accept 2 0, .recv 0 [5, 1, 2, 66, 79, 66], .recv 1 [4, 1, 2, 67, 67],
      .recv 1 [6, 4, 66, 79, 66, 0, 88]]
    (run S es).st.failed = false ∧ ((run S es).st.clients 1).room = some 0 ∧
      ((run S' es).st.clients 1).room = none ∧ (run S' es).st ≠ (run S es).st := by
  intro S S' es
  have hc : ((run S es).st.clients 1).room = some 0 := by decide +kernel
  have hpy : ((run S' es).st.clients 1).room = none := by decide +kernel
  refine ⟨by decide +kernel, hc, hpy, fun heq => ?_⟩
  rw [heq, hc] at hpy
  cases hpy

end IntvNetplay.Relay
