import IntvNetplay.Console.Session
import IntvNetplay.Relay.Invariant

/-!
# What arrives at a console

The frames the relay builds suit the table `SES_FLEN` of the console; a frame it forwards suits it only
if the one it received did.
-/

namespace IntvNetplay.Relay

/-- `SES_PUMP` takes the frame as one: its length suits its type. -/
def Fits (m : Msg) : Prop := Console.flenOk (m.payload.length + 1) m.type = true

instance (m : Msg) : Decidable (Fits m) := by unfold Fits; infer_instance

theorem length_padName (name : List ℕ) : (padName name).length = 8 := by
  rw [padName, List.length_take, List.length_append, List.length_replicate]
  omega

theorem length_roster (r : State) (ri : ℕ) : (roster r ri).length = 32 := by
  rw [roster, List.length_take, List.length_append, List.length_replicate]
  have : 8 * rosterSlots = 32 := rfl
  omega

theorem length_lobbyMsg (S : Setup) (r : State) (ci : ℕ) :
    ∃ n ≤ 8, (lobbyMsg S r ci).payload.length = 1 + 9 * n := by
  obtain ⟨others, hothers⟩ : ∃ l, l = ((r.byName.map Prod.snd).filter fun c =>
    c != ci && (r.clients c).name != []).take lobbyEntries := ⟨_, rfl⟩
  refine ⟨others.length, ?_, ?_⟩
  · rw [hothers, List.length_take]
    exact Nat.min_le_left _ _
  · rw [lobbyMsg, ← hothers, List.length_cons, List.length_flatMap]
    have hentry : ∀ c, (padName (r.clients c).name ++ [statusByte S r c]).length = 9 := fun c => by
      rw [List.length_append, length_padName, List.length_singleton]
    rw [show (fun c => (padName (r.clients c).name ++ [statusByte S r c]).length) = fun _ => 9 from
      funext hentry, List.map_const', List.sum_replicate, Nat.nsmul_eq_mul]
    omega

/-- What the relay builds for `--proto 2` suits the table. -/
theorem fits_built {S : Setup} (hS : S.proto1 = false) {m : Msg} (h : Built S m) : Fits m := by
  cases h with
  | lobby r ci =>
    obtain ⟨n, hn, hlen⟩ := length_lobbyMsg S r ci
    rw [Fits, hlen]
    have : ∀ n ≤ 8, Console.flenOk (1 + 9 * n + 1) 0x03 = true := by decide
    exact this n hn
  | room r ri =>
    rw [Fits, roomMsg, List.length_cons, length_roster]
    show Console.flenOk 34 0x0E = true
    decide
  | gone => rfl
  | left seat name =>
    rw [Fits, leftMsg, List.length_cons, length_padName]
    show Console.flenOk 10 0x0B = true
    decide
  | leftPair hp =>
    rw [hS] at hp
    cases hp
  | start r ri seed delay seat =>
    rw [Fits, startMsg]
    simp only [List.length_cons, length_roster]
    rfl
  | startPair hp =>
    rw [hS] at hp
    cases hp
  | pong => rfl

/-- Every frame in the queues suits the table. -/
def QueuesFit (r : State) : Prop := ∀ c, ∀ q ∈ (r.clients c).queued, Fits q.msg

theorem queuesFit_queue {r : State} {ci : ℕ} {m : Msg} {src : Option ℕ} (h : QueuesFit r)
    (hm : Fits m) : QueuesFit (r.queue ci m src) := by
  intro c q hq
  rw [State.queue, State.clients_setClient] at hq
  split_ifs at hq with hc
  · rcases List.mem_cons.1 hq with rfl | hq
    · exact hm
    · exact h ci q hq
  · exact h c q hq

theorem queuesFit_of_io {r r' : State} (h : QueuesFit r)
    (hq : ∀ c, (r'.clients c).queued = (r.clients c).queued) : QueuesFit r' := by
  intro c q hqc
  rw [hq c] at hqc
  exact h c q hqc

/-- As long as what is forwarded suits the table, all does. -/
theorem passing_fits {S : Setup} (hS : S.proto1 = false) : Passing S fun r r' =>
    r.heard <:+ r'.heard ∧ ((∀ e ∈ r'.heard, Fits e.msg) → QueuesFit r → QueuesFit r') where
  trans h h' := by
    refine ⟨h.1.trans h'.1, fun he hq => h'.2 he (h.2 (fun e hin => he e ?_) hq)⟩
    exact h'.1.subset hin
  quiet h := by
    refine ⟨h.heard ▸ List.suffix_refl _, fun _ hq => queuesFit_of_io hq fun c => ?_⟩
    exact congrArg (fun x => x.2.1) (h.io c)
  queue r ci m hm := ⟨List.suffix_refl _, fun _ hq => queuesFit_queue hq (fits_built hS hm)⟩
  wrote r ci k := by
    refine ⟨List.suffix_refl _, fun _ hq => queuesFit_of_io hq fun c => ?_⟩
    rw [State.wrote, State.clients_setClient]
    split_ifs with hc
    · rw [hc]
    · rfl
  fail _ := ⟨List.suffix_refl _, fun _ => id⟩
  tear _ := ⟨List.suffix_refl _, fun _ => id⟩
  rob _ := ⟨List.suffix_refl _, fun _ => id⟩
  snip _ := ⟨List.suffix_refl _, fun _ => id⟩
  heard h := h.1
  hear r e _ := ⟨List.suffix_cons e _, fun _ => id⟩
  pass r ci e he := ⟨List.suffix_refl _, fun hall hq => queuesFit_queue hq (hall e he)⟩

/-- In every run of a relay for `--proto 2` in which the frames that are handled inside matches suit
the table of the console, every frame queued to a client does. -/
theorem queuesFit_run (S : Setup) (hS : S.proto1 = false) (es : List Event)
    (he : ∀ e ∈ (run S es).st.heard, Fits e.msg) : QueuesFit (run S es).st := by
  refine ((passing_fits hS).foldl (fun ip now r => ?_) es Server.init).2 he fun c q hq => ?_
  · rw [(record_accept S ip now r).1]
    refine ⟨List.suffix_refl _, fun _ hq => ?_⟩
    obtain heq | heq | ⟨ci, -, hc, -⟩ := accept_cases S ip now r
    · rw [heq]
      exact hq
    · rw [heq]
      exact hq
    · intro c q hqc
      rw [hc] at hqc
      split_ifs at hqc
      · cases hqc
      · exact hq c q hqc
  · cases hq

/-- A guest joins, the match begins and an INPUT of the right length goes through. -/
theorem queuesFit_run_input :
    QueuesFit (run (pyRelay 0 3 (fun _ => .wrote 99) fun _ => 7)
      [.accept 1 0, .accept 2 0, .recv 0 [4, 1, 2, 65, 65], .recv 1 [4, 1, 2, 66, 66],
        .recv 1 [3, 4, 65, 65], .recv 0 [1, 15], .recv 1 [6, 6, 1, 9, 0, 0, 0]]).st :=
  queuesFit_run _ rfl _ (by decide +kernel)

/-- An INPUT that is a byte too long goes through as well, in either program. -/
theorem not_queuesFit_run :
    let es := [.accept 1 0, .accept 2 0, .recv 0 [4, 1, 2, 65, 65], .recv 1 [4, 1, 2, 66, 66],
      .recv 1 [3, 4, 65, 65], .recv 0 [1, 15], .recv 1 [7, 6, 1, 9, 0, 0, 0, 0]]
    ¬ QueuesFit (run (pyRelay 0 3 (fun _ => .wrote 99) fun _ => 7) es).st ∧
      ¬ QueuesFit (run (cRelay false 2 0 3 (fun _ => .wrote 99) fun _ => 7) es).st := by
  intro es
  refine ⟨fun h => ?_, fun h => ?_⟩
  · exact absurd (h 0 ⟨⟨6, [1, 9, 0, 0, 0, 0]⟩, some 1⟩ (by decide +kernel)) (by decide)
  · exact absurd (h 0 ⟨⟨6, [1, 9, 0, 0, 0, 0]⟩, some 1⟩ (by decide +kernel)) (by decide)

end IntvNetplay.Relay
