import IntvNetplay.Console.Sending
import IntvNetplay.Relay.Elsewhere

/-!
# Two consoles and the relay

The consoles of a match, the relay between them, and the bytes on each leg.  The relay serves the two
connections in any chunks, writes to their sockets as it can, and serves anybody else meanwhile.  As long
as it drops neither of the two, every step of this system is one of the two consoles joined by a wire each
way (`Duo`), or none at all; resyncs and consoles that give up are no exception.
-/

namespace IntvNetplay.Console

open IntvNetplay.Machine
open Relay (Msg Program Pair Server State Sends Upheld)

/-! ### The system -/

/-- Two consoles and the relay. -/
structure Trio where
  node : Fin 2 → Node
  /-- What a console has sent and the relay has not received. -/
  up : Fin 2 → List ℕ
  relay : Server
  /-- How much a console has read of what the relay wrote to its socket. -/
  read : Fin 2 → ℕ

section trio

variable (S : Relay.Setup) (c : Fin 2 → ℕ)

/-- The relay's side of a connection; `c` are the numbers that the two go by. -/
def Trio.client (T : Trio) (i : Fin 2) : Relay.Client := T.relay.st.clients (c i)

/-- One step: a console reads at most 64 of the bytes that were written for it; or the relay receives
some bytes of one, finds the socket of one writable, or has to do with somebody else. -/
inductive TrioStep (W : Fin 2 → World) (T : Trio) : Trio → Prop where
  | console {i : Fin 2} {p : Option Poll} {n : Node} {sent : List ℕ} : Step (W i) p (T.node i) n →
      (reads p (T.node i).cpu).length ≤ 64 →
      reads p (T.node i).cpu <+: (T.client c i).written.drop (T.read i) →
      n.cpu.tx = (T.node i).cpu.tx ++ sent →
      TrioStep W T ⟨Function.update T.node i n, Function.update T.up i (T.up i ++ sent), T.relay,
        Function.update T.read i (T.read i + (reads p (T.node i).cpu).length)⟩
  | receive {i : Fin 2} {data rest : List ℕ} : T.up i = data ++ rest →
      TrioStep W T ⟨T.node, Function.update T.up i rest, Relay.step S (.recv (c i) data) T.relay, T.read⟩
  | write (i : Fin 2) : TrioStep W T ⟨T.node, T.up, Relay.step S (.writable (c i)) T.relay, T.read⟩
  | other {e : Relay.Event} : (∀ i, e.client ≠ some (c i)) →
      TrioStep W T ⟨T.node, T.up, Relay.step S e T.relay, T.read⟩

/-- The two consoles with a wire each way: what is on its way to one is what the relay has for its
socket and it has not read, what the relay has of the other and not handled, and what the other sent. -/
def Trio.duo (T : Trio) : Duo where
  node := T.node
  wire i := (T.client c i).stream.drop (T.read i) ++ (T.relay.rx (c (1 - i)) ++ T.up (1 - i))

/-- The relay serves both. -/
def Trio.Served (T : Trio) : Prop := ∀ i, T.relay.st.Live (c i)

/-- A run in which neither connection is dropped, and a condition on the two consoles is kept. -/
def TrioRun (W : Fin 2 → World) (Q : Duo → Prop) : Trio → Trio → Prop :=
  Relation.ReflTransGen fun T T' => TrioStep S c W T T' ∧ T'.Served c ∧ Q (T'.duo c)

/-- The relay after any run that has the two in a started room; both consoles have handled their START
frames, and nothing is on its way. -/
structure Trio.Opening (d : ℕ) (T : Trio) : Prop where
  duo : (T.duo c).Opening d
  reached : ∃ es, T.relay = Relay.run S es
  room : ∃ ri, Pair (c 0) (c 1) ri T.relay.st
  read : ∀ i, T.read i ≤ (T.client c i).written.length

/-- What links the relay to the wires. -/
structure Linked (ri : ℕ) (T : Trio) : Prop where
  upheld : Upheld S T.relay.st
  pair : ∀ i : Fin 2, Pair (c i) (c (1 - i)) ri T.relay.st
  waits : ∀ i, Relay.Waits (T.relay.rx (c i))
  read : ∀ i, T.read i ≤ (T.client c i).written.length
  frames : ∀ i, ∃ ms : List Msg, (∀ m ∈ ms, m.Passes) ∧
    T.relay.rx (c i) ++ T.up i = ms.flatMap Msg.bytes

end trio

/-! ### What consoles send -/

/-- A frame of a match, as the relay takes it. -/
theorem passes_framed {f : List ℕ} (hf : Framed f) (ht : Forwarded f) :
    ∃ m : Msg, m.Passes ∧ m.bytes = f := by
  have hlen := hf.length
  have h2 := hf.two_le
  have hle := hf.length_le
  match f with
  | [] => simp at h2
  | [a] => simp at h2
  | a :: t :: l =>
    simp only [List.getD_cons_zero, List.length_cons] at hlen hle
    simp only [Forwarded, List.getD_cons_succ, List.getD_cons_zero] at ht
    refine ⟨⟨t, l⟩, ⟨?_, by dsimp only; omega⟩, ?_⟩
    · rcases ht with rfl | rfl | rfl | rfl <;> rfl
    · rw [Msg.bytes, show a = l.length + 1 by omega]

theorem passes_frames {fs : List (List ℕ)} (h : ∀ f ∈ fs, Framed f ∧ Forwarded f) :
    ∃ ms : List Msg, (∀ m ∈ ms, m.Passes) ∧ ms.flatMap Msg.bytes = fs.flatten := by
  induction fs with
  | nil => exact ⟨[], fun _ hm => absurd hm List.not_mem_nil, rfl⟩
  | cons f fs ih =>
    obtain ⟨hf, hfs⟩ := List.forall_mem_cons.1 h
    obtain ⟨ms, hms, hbytes⟩ := ih hfs
    obtain ⟨m, hm, hf'⟩ := passes_framed hf.1 hf.2
    exact ⟨m :: ms, List.forall_mem_cons.2 ⟨hm, hms⟩,
      by rw [List.flatMap_cons, hf', hbytes, List.flatten_cons]⟩

/-! ### The refinement -/

section refine

variable {S : Relay.Setup} {c : Fin 2 → ℕ} {W : Fin 2 → World} {d ri : ℕ} {T T' : Trio}

theorem wire_duo (T : Trio) (i : Fin 2) : (T.duo c).wire i =
    (T.client c i).stream.drop (T.read i) ++ (T.relay.rx (c (1 - i)) ++ T.up (1 - i)) := rfl

/-- The bytes of a socket that have not been read, and what waits for it. -/
theorem drop_stream {y : Relay.Client} {k : ℕ} (hk : k ≤ y.written.length) :
    y.stream.drop k = y.written.drop k ++ y.tx := by
  rw [Relay.Client.stream, List.drop_append_of_le_length hk]

/-- A console's step is a step of the two. -/
theorem console_step (hflow : (T.duo c).Flowing) (hl : Linked S c ri T) {i : Fin 2} {p : Option Poll}
    {n : Node} {sent : List ℕ} (hs : Step (W i) p (T.node i) n) (hread : (reads p (T.node i).cpu).length ≤ 64)
    (hpre : reads p (T.node i).cpu <+: (T.client c i).written.drop (T.read i))
    (htx : n.cpu.tx = (T.node i).cpu.tx ++ sent) (hT : T' = ⟨Function.update T.node i n,
      Function.update T.up i (T.up i ++ sent), T.relay,
      Function.update T.read i (T.read i + (reads p (T.node i).cpu).length)⟩) :
    DuoStep W (T.duo c) (T'.duo c) ∧ Linked S c ri T' := by
  obtain ⟨unread, hunread⟩ := hpre
  have hother := other_ne i
  have hwire : (T.duo c).wire i = reads p (T.node i).cpu ++
      (unread ++ (T.client c i).tx ++ (T.relay.rx (c (1 - i)) ++ T.up (1 - i))) := by
    rw [wire_duo, drop_stream (hl.read i), ← hunread]
    simp only [List.append_assoc]
  -- what it sends are frames of a match
  obtain ⟨⟨fs, hfs, -, rfl⟩, -, -⟩ := hflow.piece hs hread hwire htx
  obtain ⟨ms, hms, hmsgs⟩ := passes_frames hfs
  have hlen : T.read i + (reads p (T.node i).cpu).length ≤ (T.client c i).written.length := by
    have := congrArg List.length hunread
    rw [List.length_append, List.length_drop] at this
    have := hl.read i
    omega
  constructor
  · have hstep : DuoStep W (T.duo c) ⟨Function.update T.node i n, Function.update (Function.update
        (T.duo c).wire i (unread ++ (T.client c i).tx ++ (T.relay.rx (c (1 - i)) ++ T.up (1 - i)))) (1 - i)
        ((T.duo c).wire (1 - i) ++ fs.flatten)⟩ := .step hs hread hwire htx
    have heq : T'.duo c = ⟨Function.update T.node i n, Function.update (Function.update
        (T.duo c).wire i (unread ++ (T.client c i).tx ++ (T.relay.rx (c (1 - i)) ++ T.up (1 - i)))) (1 - i)
        ((T.duo c).wire (1 - i) ++ fs.flatten)⟩ := by
      rw [hT, Trio.duo]
      refine congrArg _ (funext fun j => ?_)
      by_cases hji : j = i
      · subst hji
        have hrest : (T.client c j).stream.drop (T.read j + (reads p (T.node j).cpu).length) =
            unread ++ (T.client c j).tx := by
          rw [← List.drop_drop, drop_stream (hl.read j), ← hunread, List.append_assoc, List.drop_left]
        simp only [Function.update_self, Function.update_of_ne hother, Function.update_of_ne hother.symm]
        rw [← hrest]
        rfl
      · obtain rfl := eq_other hji
        simp only [Function.update_self, Function.update_of_ne hother, other_other]
        rw [wire_duo, other_other, List.append_assoc, List.append_assoc]
        rfl
    rw [heq]
    exact hstep
  · subst hT
    refine ⟨hl.upheld, hl.pair, hl.waits, fun j => ?_, fun j => ?_⟩
    · by_cases hj : j = i
      · subst hj
        simp only [Function.update_self]
        exact hlen
      · simp only [Function.update_of_ne hj]
        exact hl.read j
    · by_cases hj : j = i
      · subst hj
        obtain ⟨old, hold, hbytes⟩ := hl.frames j
        refine ⟨old ++ ms, fun m hm => (List.mem_append.1 hm).elim (hold m) (hms m), ?_⟩
        simp only [Function.update_self]
        rw [← List.append_assoc, hbytes, List.flatMap_append, hmsgs]
      · simp only [Function.update_of_ne hj]
        exact hl.frames j

/-- The relay hands on what it received, and the wires stay as they are. -/
theorem receive_step (hS : Program S) (hl : Linked S c ri T) {i : Fin 2} {data rest : List ℕ}
    (hup : T.up i = data ++ rest) (hT : T' = ⟨T.node, Function.update T.up i rest,
      Relay.step S (.recv (c i) data) T.relay, T.read⟩) (hserved : T'.Served c) :
    T'.duo c = T.duo c ∧ Linked S c ri T' := by
  have hother := other_ne i
  have hp := hl.pair i
  have hne : c i ≠ c (1 - i) := hp.ne
  obtain ⟨ms, hms, hbytes⟩ := hl.frames i
  rw [hup, ← List.append_assoc] at hbytes
  have hstep : Relay.step S (.recv (c i) data) T.relay =
      ⟨(Relay.feed S (c i) data T.relay.st (T.relay.rx (c i))).1, Function.update T.relay.rx (c i)
        (Relay.feed S (c i) data T.relay.st (T.relay.rx (c i))).2⟩ := by
    rw [Relay.step]
    dsimp only
    rw [if_pos hp.live.1]
  have hkept := (Relay.keeper_upheld hS).step (.recv (c i) data) hl.upheld
  have hd := (hserved (1 - i)).2
  rw [hT] at hd
  rw [hstep] at hkept hT hd
  obtain ⟨done, left, hsplit, hleft, hwait, hsends⟩ :=
    Relay.feed_pair hS hl.upheld hp (hl.waits i) hms hbytes hd
  generalize Relay.feed S (c i) data T.relay.st (T.relay.rx (c i)) = x at hkept hT hleft hwait hsends
  subst hT
  have hown : x.1.clients (c i) = T.relay.st.clients (c i) := hsends.others _ hne
  constructor
  · rw [Trio.duo, Trio.duo]
    refine congrArg _ (funext fun j => ?_)
    by_cases hj : j = i
    · subst hj
      simp only [Trio.client, hown, Function.update_of_ne hother, Function.update_of_ne hne.symm]
    · obtain rfl := eq_other hj
      have hread : T.read (1 - i) ≤ (T.relay.st.clients (c (1 - i))).stream.length := by
        have := hl.read (1 - i)
        rw [Relay.Client.stream, List.length_append]
        exact Nat.le_trans this (Nat.le_add_right _ _)
      simp only [Trio.client, other_other, Function.update_self]
      rw [hsends.stream, List.drop_append_of_le_length hread, hleft, List.append_assoc,
        ← List.flatMap_append, ← hsplit, ← hbytes, hup, ← List.append_assoc (T.relay.rx (c i))]
  · refine ⟨hkept, fun j => ?_, fun j => ?_, fun j => ?_, fun j => ?_⟩
    · exact (hl.pair j).sends hsends
    · by_cases hj : j = i
      · subst hj
        simp only [Function.update_self]
        exact hwait
      · obtain rfl := eq_other hj
        simp only [Function.update_of_ne hne.symm]
        exact hl.waits (1 - i)
    · by_cases hj : j = i
      · subst hj
        simp only [Trio.client, hown]
        exact hl.read j
      · obtain rfl := eq_other hj
        exact Nat.le_trans (hl.read (1 - i)) hsends.written.length_le
    · by_cases hj : j = i
      · subst hj
        simp only [Function.update_self]
        exact ⟨left, fun m hm => hms m (by rw [hsplit]; exact List.mem_append_right _ hm), hleft⟩
      · obtain rfl := eq_other hj
        simp only [Function.update_of_ne hother, Function.update_of_ne hne.symm]
        exact hl.frames (1 - i)

/-- A socket that takes some of what waits for it. -/
theorem write_step (hS : Program S) (hl : Linked S c ri T) {i : Fin 2} (hT : T' = ⟨T.node, T.up,
      Relay.step S (.writable (c i)) T.relay, T.read⟩) (hserved : T'.Served c) :
    T'.duo c = T.duo c ∧ Linked S c ri T' := by
  have hd := (hserved i).2
  rw [hT] at hd
  obtain ⟨hsends, hrx⟩ := Relay.sends_writable hS hl.upheld hd
  have hkept := (Relay.keeper_upheld hS).step (.writable (c i)) hl.upheld
  generalize Relay.step S (.writable (c i)) T.relay = v at hT hsends hrx hkept
  subst hT
  have hstream : ∀ x, (v.st.clients x).stream = (T.relay.st.clients x).stream := fun x => by
    by_cases hx : x = c i
    · rw [hx, hsends.stream, List.append_nil]
    · rw [hsends.others x hx]
  have hwritten : ∀ x, (T.relay.st.clients x).written <+: (v.st.clients x).written := fun x => by
    by_cases hx : x = c i
    · rw [hx]
      exact hsends.written
    · rw [hsends.others x hx]
  constructor
  · rw [Trio.duo, Trio.duo]
    simp only [Trio.client, hstream, hrx]
  · refine ⟨hkept, fun j => (hl.pair j).sends hsends, fun j => ?_, fun j => ?_, fun j => ?_⟩
    · rw [hrx]
      exact hl.waits j
    · exact Nat.le_trans (hl.read j) (hwritten (c j)).length_le
    · rw [hrx]
      exact hl.frames j

/-- What the relay has to do with others. -/
theorem other_step (hS : Program S) (hl : Linked S c ri T) {e : Relay.Event} (he : ∀ i, e.client ≠ some (c i))
    (hT : T' = ⟨T.node, T.up, Relay.step S e T.relay, T.read⟩) (hserved : T'.Served c) :
    T'.duo c = T.duo c ∧ Linked S c ri T' := by
  have hkept := (Relay.keeper_upheld hS).step e hl.upheld
  have hp := hl.pair 0
  -- the room is that of the two
  have hin : ∀ x, (T.relay.st.clients x).room = some ri → ∃ i, x = c i := fun x hx => by
    have hmem := (hl.upheld.1.1.mem ri (Set.notMem_empty ri) x).2 hx
    rcases hp.members with hm | hm <;> rw [hm] at hmem <;>
      simp only [List.mem_cons, List.not_mem_nil, or_false] at hmem
    · exact hmem.elim (fun h => ⟨0, h⟩) fun h => ⟨1 - 0, h⟩
    · exact hmem.elim (fun h => ⟨1 - 0, h⟩) fun h => ⟨0, h⟩
  have hroom : ∀ i, (T.relay.st.clients (c i)).room = some ri := fun i => (hl.pair i).room.1
  have hne : T.relay.st.members ri ≠ [] := by
    rcases hp.members with hm | hm <;> rw [hm] <;> exact List.cons_ne_nil _ _
  have hwall := Relay.walled_of hl.upheld hp.started hne
  have hserved' : ∀ i, (Relay.step S e T.relay).st.Live (c i) := fun i => by
    have := hserved i
    rwa [hT] at this
  obtain ⟨ha, hrx⟩ := Relay.aloof_step (e := e) hS hl.upheld hwall
    (fun x hx => by
      obtain ⟨i, rfl⟩ := hin x hx
      exact (hl.pair i).live.1)
    (fun x hex hx => by
      obtain ⟨i, rfl⟩ := hin x hx
      exact he i hex)
    fun x hx => by
      obtain ⟨i, rfl⟩ := hin x hx
      exact hserved' i
  generalize Relay.step S e T.relay = v at hT hkept ha hrx hserved'
  subst hT
  have hsame : ∀ i, v.st.clients (c i) = T.relay.st.clients (c i) ∧ v.rx (c i) = T.relay.rx (c i) := fun i =>
    ⟨ha.same (c i) (hroom i), hrx (c i) (hroom i)⟩
  constructor
  · rw [Trio.duo, Trio.duo]
    simp only [Trio.client, hsame]
  · refine ⟨hkept, fun j => ⟨(hl.pair j).ne, ⟨hserved' j, hserved' (1 - j)⟩, ?_, ?_, ?_⟩, fun j => ?_,
      fun j => ?_, fun j => ?_⟩
    · rw [(hsame j).1, (hsame (1 - j)).1]
      exact (hl.pair j).room
    · rw [ha.room]
      exact hp.started
    · rw [State.members, ha.room]
      exact (hl.pair j).members
    · rw [(hsame j).2]
      exact hl.waits j
    · simp only [Trio.client, hsame]
      exact hl.read j
    · rw [(hsame j).2]
      exact hl.frames j

/-- A step of the system is one of the two consoles or none. -/
theorem trio_step (hS : Program S) (hflow : (T.duo c).Flowing) (hl : Linked S c ri T)
    (hs : TrioStep S c W T T') (hserved : T'.Served c) :
    (DuoStep W (T.duo c) (T'.duo c) ∨ T'.duo c = T.duo c) ∧ Linked S c ri T' := by
  cases hs with
  | console hs hread hpre htx =>
    obtain ⟨hstep, hlink⟩ := console_step hflow hl hs hread hpre htx rfl
    exact ⟨.inl hstep, hlink⟩
  | receive hup =>
    obtain ⟨heq, hlink⟩ := receive_step hS hl hup rfl hserved
    exact ⟨.inr heq, hlink⟩
  | write i =>
    obtain ⟨heq, hlink⟩ := write_step hS hl rfl hserved
    exact ⟨.inr heq, hlink⟩
  | other he =>
    obtain ⟨heq, hlink⟩ := other_step hS hl he rfl hserved
    exact ⟨.inr heq, hlink⟩

theorem linked_opening (hS : Program S) (h : T.Opening S c d) : ∃ ri, Linked S c ri T := by
  obtain ⟨es, hes⟩ := h.reached
  obtain ⟨ri, hpair⟩ := h.room
  have hnil : ∀ i, T.relay.rx (c i) = [] ∧ T.up i = [] := fun i => by
    have hw := h.duo.wire (1 - i)
    rw [wire_duo, other_other, List.append_eq_nil_iff, List.append_eq_nil_iff] at hw
    exact hw.2
  refine ⟨ri, ?_, fun i => ?_, fun i => ?_, h.read, fun i => ?_⟩
  · rw [hes]
    exact Relay.upheld_run hS es
  · match i with
    | 0 => exact hpair
    | 1 => exact hpair.symm
  · rw [(hnil i).1]
    exact Relay.waits_nil
  · rw [(hnil i).1, (hnil i).2]
    exact ⟨[], by simp, rfl⟩

end refine

/-- **The relay is a wire each way.**  In a match of two that the relay carries, in whatever chunks it
receives, however little its sockets take at a time and whatever others do to it, with resyncs and without:
as long as it drops neither of the two, every run of the system is a run of the two consoles with nothing
between them but the bytes on their way, none lost, none doubled and none out of order; what holds of the
two throughout the one holds throughout the other. -/
theorem relay_refines {S : Relay.Setup} (hS : Program S) {c : Fin 2 → ℕ} {W : Fin 2 → World}
    {Q : Duo → Prop} {d : ℕ} {T T' : Trio} (h : T.Opening S c d) (hr : TrioRun S c W Q T T') :
    Relation.ReflTransGen (fun D D' => DuoStep W D D' ∧ Q D') (T.duo c) (T'.duo c) ∧ (T'.duo c).Flowing := by
  obtain ⟨ri, hlink⟩ := linked_opening hS h
  have hall : Relation.ReflTransGen (fun D D' => DuoStep W D D' ∧ Q D') (T.duo c) (T'.duo c) ∧
      (T'.duo c).Flowing ∧ Linked S c ri T' := by
    induction hr with
    | refl => exact ⟨.refl, flowing_opening h.duo, hlink⟩
    | tail _ hs ih =>
      obtain ⟨hrun, hflow, hl⟩ := ih
      obtain ⟨hstep, hl'⟩ := trio_step hS hflow hl hs.1 hs.2.1
      rcases hstep with hstep | heq
      · exact ⟨hrun.tail ⟨hstep, hs.2.2⟩, flowing_step hflow hstep, hl'⟩
      · rw [heq]
        exact ⟨hrun, hflow, hl'⟩
  exact ⟨hall.1, hall.2.1⟩

/-! ### A match through the relay -/

/-- What a console's steps change: its own state, what it sent and how much it read. -/
def Trio.moved (T : Trio) (i : Fin 2) (n : Node) (sent : List ℕ) (k : ℕ) : Trio :=
  ⟨Function.update T.node i n, Function.update T.up i (T.up i ++ sent), T.relay,
    Function.update T.read i (T.read i + k)⟩

theorem Trio.moved_self (T : Trio) (i : Fin 2) : T.moved i (T.node i) [] 0 = T := by
  simp [Trio.moved]

theorem Trio.moved_moved (T : Trio) (i : Fin 2) (n n' : Node) (sent sent' : List ℕ) (k k' : ℕ) :
    (T.moved i n sent k).moved i n' sent' k' = T.moved i n' (sent ++ sent') (k + k') := by
  simp [Trio.moved, List.append_assoc, Nat.add_assoc]

section alone

variable {S : Relay.Setup} {c : Fin 2 → ℕ} {W : Fin 2 → World} {T : Trio} {i : Fin 2} {n : Node}

theorem calm_moved {sent : List ℕ} {k : ℕ} (h : (T.duo c).Calm) (hn : n.Calm) :
    ((T.moved i n sent k).duo c).Calm := by
  intro j
  by_cases hj : j = i
  · subst hj
    simp only [Trio.duo, Trio.moved, Function.update_self]
    exact hn
  · simp only [Trio.duo, Trio.moved, Function.update_of_ne hj]
    exact h j

/-- A step of a console, while the relay waits. -/
theorem trioRun_step {p : Option Poll} {sent : List ℕ} (hserved : T.Served c) (h : (T.duo c).Calm)
    (hs : Step (W i) p (T.node i) n) (hread : (reads p (T.node i).cpu).length ≤ 64)
    (hpre : reads p (T.node i).cpu <+: (T.client c i).written.drop (T.read i))
    (htx : n.cpu.tx = (T.node i).cpu.tx ++ sent) (hn : n.Calm) :
    TrioRun S c W Duo.Calm T (T.moved i n sent (reads p (T.node i).cpu).length) :=
  .single ⟨.console hs hread hpre htx, hserved, calm_moved h hn⟩

/-- What a console does alone is a run of the system, while the relay waits. -/
theorem trioRun_of_lone (hserved : T.Served c) (h : (T.duo c).Calm)
    (hr : Relation.ReflTransGen (Lone (W i)) (T.node i) n) :
    ∃ sent, n.cpu.tx = (T.node i).cpu.tx ++ sent ∧ TrioRun S c W Duo.Calm T (T.moved i n sent 0) ∧
      ((T.moved i n sent 0).duo c).Calm := by
  induction hr with
  | refl =>
    refine ⟨[], (List.append_nil _).symm, ?_, ?_⟩ <;> rw [T.moved_self]
    · exact .refl
    · exact h
  | @tail m m' _ hstep ih =>
    obtain ⟨sent, htx, hrun, hcalm⟩ := ih
    obtain ⟨⟨p, hs, hread⟩, ⟨sent', htx'⟩, hc⟩ := hstep
    have hnode : (T.moved i m sent 0).node i = m := Function.update_self ..
    have hlast := trioRun_step (S := S) (T := T.moved i m sent 0) hserved hcalm (by rw [hnode]; exact hs)
      (by rw [hnode, hread]; exact Nat.zero_le _) (by rw [hnode, hread]; exact List.nil_prefix)
      (by rw [hnode]; exact htx') hc
    rw [hnode, hread, Trio.moved_moved] at hlast
    refine ⟨sent ++ sent', by rw [htx', htx, List.append_assoc], hrun.trans hlast, calm_moved h hc⟩

end alone

/-- Two consoles that have met through the relay and taken their START frames. -/
def met : List Relay.Event :=
  [.accept 1 0, .accept 2 0, .recv 0 [4, 1, 2, 65, 65], .recv 1 [4, 1, 2, 66, 66],
    .recv 1 [3, 4, 65, 65], .recv 0 [1, 15]]

/-- The relay of the two.  From the first frame of the match on, a socket takes three bytes at a time. -/
def metRelay : Relay.Setup :=
  Relay.cRelay false 2 0 1 (fun n => if n < 6 then .wrote 99 else if n % 2 = 0 then .wrote 2 else .again)
    fun _ => 2

def trioStart : Trio :=
  ⟨duoStart.node, fun _ => [], Relay.run metRelay met,
    fun i => ((Relay.run metRelay met).st.clients i).written.length⟩

theorem duo_trioStart : trioStart.duo (fun i => i) = duoStart := by
  have hwire : ∀ i, (trioStart.duo fun i => i).wire i = duoStart.wire i := by
    decide +kernel
  rw [Trio.duo, duoStart]
  exact congrArg _ (funext hwire)

theorem opening_trioStart : trioStart.Opening metRelay (fun i => i) 1 where
  duo := by
    rw [duo_trioStart]
    exact opening_duoStart
  reached := ⟨met, rfl⟩
  room := ⟨0, by decide, ⟨by decide +kernel, by decide +kernel⟩, ⟨by decide +kernel, by decide +kernel⟩,
    by decide +kernel, .inl (by decide +kernel)⟩
  read := by decide +kernel

theorem program_metRelay : Program metRelay :=
  .c (le_refl 2) (by decide) (fun h => absurd h Bool.false_ne_true) _ _ _ _

/-- The relay gets an INPUT in two pieces, somebody else connecting in between, and writes it in three. -/
def carried : List Relay.Event :=
  [.recv 0 [6, ftInput, 0], .accept 3 0, .recv 0 [1, 0, 5, 3], .writable 1, .writable 1]

/-- The relay is in the middle of this. -/
structure Carries (k : ℕ) (T : Trio) : Prop where
  relay : T.relay = Relay.run metRelay (met ++ carried.take k)
  calm : (T.duo fun i => i).Calm

theorem Carries.next {W : Fin 2 → World} {T T' : Trio} {k : ℕ} {e : Relay.Event} (h : Carries k T)
    (hk : carried[k]? = some e) (hs : TrioStep metRelay (fun i => i) W T T') (hnode : T'.node = T.node)
    (hrelay : T'.relay = Relay.step metRelay e T.relay) :
    TrioRun metRelay (fun i => i) W Duo.Calm T T' ∧ Carries (k + 1) T' := by
  have hlive : ∀ k ≤ 5, ∀ i : Fin 2, (Relay.run metRelay (met ++ carried.take k)).st.Live i := by
    decide +kernel
  have hnext : T'.relay = Relay.run metRelay (met ++ carried.take (k + 1)) := by
    rw [hrelay, h.relay, List.take_add_one, hk, ← List.append_assoc, Relay.run, Relay.run]
    simp only [List.foldl_append]
    rfl
  have hlt : k < 5 := (List.getElem?_eq_some_iff.1 hk).1
  have hcalm : (T'.duo fun i => i).Calm := fun i => by
    have := h.calm i
    simp only [Trio.duo, hnode] at this ⊢
    exact this
  refine ⟨.single ⟨hs, fun i => ?_, hcalm⟩, hnext, hcalm⟩
  rw [hnext]
  exact hlive (k + 1) hlt i

/-- The relay carries the INPUT. -/
theorem trioRun_carried {W : Fin 2 → World} {T : Trio} {rest : List ℕ} (h : Carries 0 T)
    (hup : T.up 0 = inputOf 0 1 (pads 0) ++ rest) :
    ∃ T', TrioRun metRelay (fun i => i) W Duo.Calm T T' ∧ Carries 5 T' ∧ T'.node = T.node ∧
      T'.read = T.read := by
  have hdata : T.up 0 = [6, ftInput, 0] ++ ([1, 0, 5, 3] ++ rest) := hup
  obtain ⟨T₁, hT₁⟩ : ∃ T₁ : Trio, T₁ = ⟨T.node, Function.update T.up 0 ([1, 0, 5, 3] ++ rest),
    Relay.step metRelay (.recv 0 [6, ftInput, 0]) T.relay, T.read⟩ := ⟨_, rfl⟩
  have hs₁ : TrioStep metRelay (fun i => i) W T T₁ := by
    rw [hT₁]
    exact .receive (i := 0) hdata
  obtain ⟨hrun₁, h₁⟩ := h.next rfl hs₁ (by rw [hT₁]) (by rw [hT₁])
  obtain ⟨T₂, hT₂⟩ : ∃ T₂ : Trio, T₂ = ⟨T₁.node, T₁.up, Relay.step metRelay (.accept 3 0) T₁.relay,
    T₁.read⟩ := ⟨_, rfl⟩
  have hs₂ : TrioStep metRelay (fun i => i) W T₁ T₂ := by
    rw [hT₂]
    exact .other (e := .accept 3 0) fun _ he => by cases he
  obtain ⟨hrun₂, h₂⟩ := h₁.next rfl hs₂ (by rw [hT₂]) (by rw [hT₂])
  have hup₂ : T₂.up 0 = [1, 0, 5, 3] ++ rest := by
    rw [hT₂, hT₁]
    change Function.update T.up 0 ([1, 0, 5, 3] ++ rest) 0 = _
    rw [Function.update_self]
  obtain ⟨T₃, hT₃⟩ : ∃ T₃ : Trio, T₃ = ⟨T₂.node, Function.update T₂.up 0 rest,
    Relay.step metRelay (.recv 0 [1, 0, 5, 3]) T₂.relay, T₂.read⟩ := ⟨_, rfl⟩
  have hs₃ : TrioStep metRelay (fun i => i) W T₂ T₃ := by
    rw [hT₃]
    exact .receive (i := 0) hup₂
  obtain ⟨hrun₃, h₃⟩ := h₂.next rfl hs₃ (by rw [hT₃]) (by rw [hT₃])
  obtain ⟨hrun₄, h₄⟩ := h₃.next (e := .writable 1) rfl (.write 1) rfl rfl
  obtain ⟨hrun₅, h₅⟩ := h₄.next (e := .writable 1) rfl (.write 1) rfl rfl
  refine ⟨_, (((hrun₁.trans hrun₂).trans hrun₃).trans hrun₄).trans hrun₅, h₅, ?_, ?_⟩
  · rw [hT₃, hT₂, hT₁]
  · rw [hT₃, hT₂, hT₁]

/-- The other console, resting behind its first tick, pumps it. -/
theorem trioRun_taken {T : Trio} (h : Carries 5 T) (hn : Ahead 1 (T.node 1))
    (hread : T.read 1 = trioStart.read 1) :
    ∃ T', TrioRun metRelay (fun i => i) (fun _ => padWorld) Duo.Calm T T' ∧ T'.relay = T.relay ∧
      T'.read 1 = trioStart.read 1 + 7 ∧ (T'.node 1).Due ∧ (T'.node 1).cpu.mark.ran = 1 := by
  have hserved : T.Served fun i => i := by
    have hlive : ∀ i : Fin 2, (Relay.run metRelay (met ++ carried.take 5)).st.Live i := by decide +kernel
    intro i
    rw [h.relay]
    exact hlive i
  have hwritten : (T.client (fun i => i) 1).written.drop (T.read 1) = inputOf 0 1 (pads 0) := by
    rw [hread, Trio.client, h.relay]
    decide +kernel
  obtain ⟨⟨ph, s⟩, hnode⟩ : ∃ n, T.node 1 = n := ⟨_, rfl⟩
  have hlog : ∀ e ∈ (T.node 1).cpu.log, e.ev.NoPush := (h.calm 1).2
  rw [hnode] at hn hlog
  obtain rfl : ph = .idle := hn.resting.idle
  obtain ⟨t, u, htop, hstep, htx, hcalm, hsend, hopen, hran⟩ := rest_take (i := 1) (a := 5) (b := 3)
    hn.resting hn.seat hn.count hn.tick hn.wm (by decide) (by decide) hlog
  obtain ⟨s₁, -, hrun₁, hcalm₁⟩ := trioRun_of_lone (S := metRelay) (c := fun i => i)
    (W := fun _ => padWorld) (T := T) (i := 1) (n := ⟨.top, s⟩) hserved h.calm
    (by rw [hnode]; exact lone_padWorld htop)
  have hn₁ : (T.moved 1 ⟨.top, s⟩ s₁ 0).node 1 = ⟨.top, s⟩ := rfl
  have hpre : ((T.moved 1 ⟨.top, s⟩ s₁ 0).client (fun i => i) 1).written.drop
      ((T.moved 1 ⟨.top, s⟩ s₁ 0).read 1) = inputOf 0 1 (pads 0) := hwritten
  have hreads : reads (some (.gives (inputOf 0 1 (pads 0)))) ((T.moved 1 ⟨.top, s⟩ s₁ 0).node 1).cpu =
      inputOf 0 1 (pads 0) := by
    rw [reads]
    exact delivered_gives (by decide) (by decide) (by decide)
  have hrun₂ := trioRun_step (S := metRelay) (c := fun i => i) (W := fun _ => padWorld)
    (T := T.moved 1 ⟨.top, s⟩ s₁ 0) (i := 1) (n := ⟨.send, t⟩) (p := some (.gives (inputOf 0 1 (pads 0))))
    hserved hcalm₁ (by rw [hn₁]; exact step_padWorld hstep) (by rw [hreads]; decide)
    (by rw [hreads, hpre]) (show t.tx = _ ++ [] by rw [hn₁, htx, List.append_nil]) hcalm
  rw [hreads, Trio.moved_moved] at hrun₂
  obtain ⟨s₂, -, hrun₃, -⟩ := trioRun_of_lone (S := metRelay) (c := fun i => i)
    (W := fun _ => padWorld) (T := T.moved 1 ⟨.send, t⟩ (s₁ ++ []) (0 + 7)) (i := 1) (n := ⟨.gate, u⟩)
    hserved (calm_moved h.calm hcalm) (lone_padWorld (.single hsend))
  rw [Trio.moved_moved] at hrun₃
  refine ⟨_, (hrun₁.trans hrun₂).trans hrun₃, rfl, ?_, ⟨rfl, hopen⟩, hran.trans hn.ran⟩
  rw [← hread]
  rfl

/-- Both consoles get through tick 0; the relay gets the INPUT of the one in two pieces and writes it in
three, and the other comes with it to the gate of tick 1. -/
theorem trioStart_carried : ∃ T' : Trio,
    TrioRun metRelay (fun i => i) (fun _ => padWorld) Duo.Calm trioStart T' ∧
      T'.relay = Relay.run metRelay (met ++ carried) ∧ T'.read 1 = trioStart.read 1 + 7 ∧
        (T'.node 1).Due ∧ (T'.node 1).cpu.mark.ran = 1 := by
  obtain ⟨n₀, more₀, hlone₀, hn₀, htx₀⟩ := duoStart_ahead 0
  obtain ⟨n₁, more₁, hlone₁, hn₁, htx₁⟩ := duoStart_ahead 1
  have hserved : ∀ i : Fin 2, (Relay.run metRelay met).st.Live i := by decide +kernel
  obtain ⟨sent₀, hsent₀, hrun₀, hcalm₀⟩ := trioRun_of_lone (S := metRelay) (c := fun i => i)
    (W := fun _ => padWorld) (T := trioStart) (i := 0) hserved opening_trioStart.duo.calm hlone₀
  have hsend₀ : inputOf 0 1 (pads 0) ++ more₀ = sent₀ := by
    rw [htx₀] at hsent₀
    exact List.append_cancel_left hsent₀
  have hnode : (trioStart.moved 0 n₀ sent₀ 0).node 1 = duoStart.node 1 := rfl
  obtain ⟨sent₁, -, hrun₁, hcalm₁⟩ := trioRun_of_lone (S := metRelay) (c := fun i => i)
    (W := fun _ => padWorld) (T := trioStart.moved 0 n₀ sent₀ 0) (i := 1) (n := n₁) hserved hcalm₀
    (by rw [hnode]; exact hlone₁)
  have hup : ((trioStart.moved 0 n₀ sent₀ 0).moved 1 n₁ sent₁ 0).up 0 = inputOf 0 1 (pads 0) ++ more₀ := by
    rw [hsend₀]
    rfl
  have hstart : Carries 0 ((trioStart.moved 0 n₀ sent₀ 0).moved 1 n₁ sent₁ 0) :=
    ⟨by rw [List.take_zero, List.append_nil]; rfl, hcalm₁⟩
  have hnode₁ : ((trioStart.moved 0 n₀ sent₀ 0).moved 1 n₁ sent₁ 0).node 1 = n₁ := rfl
  have hread₁ : ((trioStart.moved 0 n₀ sent₀ 0).moved 1 n₁ sent₁ 0).read 1 = trioStart.read 1 := rfl
  obtain ⟨T, hrun, hT, hnodeT, hreadT⟩ := trioRun_carried (W := fun _ => padWorld) hstart hup
  have hrunT := (hrun₀.trans hrun₁).trans hrun
  obtain ⟨T', hrun', hrelay, hread, hdue, hran⟩ := trioRun_taken hT
    (by rw [hnodeT, hnode₁]; exact hn₁) (by rw [hreadT, hread₁])
  exact ⟨T', hrunT.trans hrun', by rw [hrelay, hT.relay]; rfl, hread, hdue, hran⟩

/-- A match of two through the relay, up to the gate of tick 1. -/
theorem relay_refines_start : ∃ T' : Trio,
    TrioRun metRelay (fun i => i) (fun _ => padWorld) Duo.Calm trioStart T' ∧
    T'.relay = Relay.run metRelay (met ++ carried) ∧ T'.read 1 = trioStart.read 1 + 7 ∧ (T'.node 1).Due ∧
      (T'.node 1).cpu.mark.ran = 1 ∧
        DuoRun (fun _ => padWorld) (trioStart.duo fun i => i) (T'.duo fun i => i) := by
  obtain ⟨T', hrun, hrelay, hread, hdue, hran⟩ := trioStart_carried
  exact ⟨T', hrun, hrelay, hread, hdue, hran, (relay_refines program_metRelay opening_trioStart hrun).1⟩

end IntvNetplay.Console
