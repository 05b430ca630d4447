import IntvNetplay.Console.Roster
import IntvNetplay.Relay.Pair

/-!
# From GO to the first tick

`on_go` and `start_room` of the relays against `SES_ONFRAME` of the consoles: when nobody is dropped over
it, a GO sends every member of the room a START that differs in the seat alone, and the consoles that
handle them are in one match, each in its own seat.
-/

namespace IntvNetplay.Relay

/-! ### Announcements -/

/-- Everybody in a list was sent a frame, and nothing else happened to any client. -/
structure Announced (l : List (ℕ × Msg)) (r r' : State) : Prop where
  told : ∀ e ∈ l, (r'.clients e.1).stream = (r.clients e.1).stream ++ e.2.bytes
  others : ∀ x, x ∉ l.map Prod.fst → r'.clients x = r.clients x
  reg : ∀ x, (r'.clients x).reg = (r.clients x).reg
  rooms : r'.rooms = r.rooms

section announced

variable {S : Setup} {r r' r'' : State} {ri : ℕ}

theorem Sends.reg_all {c : ℕ} {b : List ℕ} (h : Sends c b r r') (x : ℕ) :
    (r'.clients x).reg = (r.clients x).reg := by
  by_cases hx : x = c
  · rw [hx]
    exact h.reg
  · rw [h.others x hx]

theorem announced_nil (r : State) : Announced [] r r :=
  ⟨fun _ he => absurd he List.not_mem_nil, fun _ _ => rfl, fun _ => rfl, rfl⟩

theorem Announced.cons {c : ℕ} {m : Msg} {l : List (ℕ × Msg)} (hs : Sends c m.bytes r r')
    (h : Announced l r' r'') (hc : c ∉ l.map Prod.fst) : Announced ((c, m) :: l) r r'' := by
  refine ⟨fun e he => ?_, fun x hx => ?_, fun x => (h.reg x).trans (hs.reg_all x), h.rooms.trans hs.rooms⟩
  · rcases List.mem_cons.1 he with rfl | he
    · rw [h.others _ hc]
      exact hs.stream
    · have hne : e.1 ≠ c := fun heq => hc (heq ▸ List.mem_map_of_mem he)
      rw [h.told e he, hs.others _ hne]
  · rw [List.map_cons, List.mem_cons, not_or] at hx
    rw [h.others x hx.2, hs.others x hx.1]

variable (hS : S.Ok)
include hS

/-- A send whose client is served at the end of what follows. -/
theorem sends_survived {c : ℕ} {m : Msg} (h : Seats S ∅ r)
    (hrest : ∀ x, ((sendRaw S (drop S) c m none r).clients x).dead = true → (r'.clients x).dead = true)
    (hd : (r'.clients c).dead = false) : Sends c m.bytes r (sendRaw S (drop S) c m none r) := by
  refine sends_sendRaw (fun h => dead_dropped hS.pair c h) h (Bool.eq_false_iff.2 fun hdead => ?_)
  rw [hrest c hdead] at hd
  cases hd

theorem announced_announceTo (l : List (ℕ × Msg)) (h : Seats S ∅ r) (hn : (l.map Prod.fst).Nodup)
    (hd : ∀ e ∈ l, ((announceTo S (drop S) l r).clients e.1).dead = false) :
    Announced l r (announceTo S (drop S) l r) := by
  induction l generalizing r with
  | nil => exact announced_nil r
  | cons e l ih =>
    obtain ⟨c, m⟩ := e
    rw [List.map_cons, List.nodup_cons] at hn
    rw [announceTo] at hd ⊢
    have hleaves := leaves_sendRaw (S := S) (leaves_drop hS.pair) c m none h
    generalize hb : (!(r.clients c).dead && ((sendRaw S (drop S) c m none r).clients c).dead &&
      l.any fun e => !((sendRaw S (drop S) c m none r).clients e.1).dead) = b at hd ⊢
    obtain ⟨r₁, hr₁⟩ : ∃ r₁, r₁ = if b then (sendRaw S (drop S) c m none r).tear
      else sendRaw S (drop S) c m none r := ⟨_, rfl⟩
    rw [← hr₁] at hd ⊢
    have hsame : Sends c [] (sendRaw S (drop S) c m none r) r₁ := by
      cases b with
      | false => exact hr₁ ▸ .refl c _
      | true => exact hr₁ ▸ .of_eq (fun _ => rfl) rfl
    have hseats : Seats S ∅ r₁ := by
      cases b with
      | false => exact hr₁ ▸ hleaves.1
      | true => exact hr₁ ▸ hleaves.1.of_rooms (fun _ => rfl) rfl
    have hrest := (leaves_announceTo (leaves_drop hS.pair) l hseats).2.dead
    have hsend := sends_survived hS h (fun x hx => hrest x ((hsame.dead x).trans hx))
      (hd (c, m) (List.mem_cons_self ..))
    have hboth := hsend.trans hsame
    rw [List.append_nil] at hboth
    exact .cons hboth (ih hseats hn.2 fun e he => hd e (List.mem_cons_of_mem _ he)) hn.1

theorem announced_announceLive (m : ℕ → Msg) (l : List ℕ) (i : ℕ)
    (hl : ∀ j, (r.members ri)[i + j]? = l[j]?) (hn : l.Nodup) (h : Seats S ∅ r)
    (hd : ∀ c ∈ l, ((announceLive S (drop S) ri m l.length i r).clients c).dead = false) :
    Announced (l.mapIdx fun j c => (c, m (i + j))) r (announceLive S (drop S) ri m l.length i r) := by
  induction l generalizing i r with
  | nil => exact announced_nil r
  | cons c l ih =>
    rw [List.nodup_cons] at hn
    rw [List.length_cons, announceLive, show (r.members ri)[i]? = some c from hl 0] at hd ⊢
    dsimp only at hd ⊢
    have hleaves := leaves_sendRaw (S := S) (leaves_drop hS.pair) c (m i) none h
    have hrest := (leaves_announceLive (leaves_drop hS.pair) ri m l.length (i + 1) hleaves.1).2.dead
    have hsend := sends_survived hS h hrest (hd c (List.mem_cons_self ..))
    have hnext : ∀ j, ((sendRaw S (drop S) c (m i) none r).members ri)[i + 1 + j]? = l[j]? := fun j => by
      rw [State.members, hsend.rooms, Nat.add_assoc, Nat.add_comm 1 j]
      exact hl (j + 1)
    have htail := ih (i + 1) hnext hn.2 hleaves.1 fun x hx => hd x (List.mem_cons_of_mem _ hx)
    have hshift : (fun (j : ℕ) (c : ℕ) => (c, m (i + (j + 1)))) = fun j c => (c, m (i + 1 + j)) := by
      funext j c
      rw [Nat.add_assoc, Nat.add_comm 1 j]
    rw [List.mapIdx_cons, hshift, Nat.add_zero]
    refine .cons hsend htail fun hc => hn.1 ?_
    obtain ⟨e, he, rfl⟩ := List.mem_map.1 hc
    obtain ⟨j, hj, rfl⟩ := List.mem_mapIdx.1 he
    exact List.getElem_mem hj

/-- The broadcast, nobody being dropped over it. -/
theorem announced_announce (m : ℕ → Msg) (h : Seats S ∅ r)
    (hd : ∀ c ∈ r.members ri, ((announce S (drop S) ri m r).clients c).dead = false) :
    Announced ((r.members ri).mapIdx fun i c => (c, m i)) r (announce S (drop S) ri m r) := by
  rw [announce] at hd ⊢
  split_ifs at hd ⊢
  · have hlive := announced_announceLive hS m (r.members ri) 0 (fun j => by rw [Nat.zero_add]) (h.nodup ri)
      h hd
    simp only [Nat.zero_add] at hlive
    exact hlive
  · have hfst : ((r.members ri).mapIdx fun i c => (c, m i)).map Prod.fst = r.members ri :=
      List.ext_getElem (by simp) fun i h1 h2 => by simp
    refine announced_announceTo hS _ h (by rw [hfst]; exact h.nodup ri) fun e he => hd e.1 ?_
    rw [← hfst]
    exact List.mem_map_of_mem he

omit hS in
theorem Program.four (h : Program S) : S.maxSeats ≤ 4 := by
  cases h with
  | c _ h4 => exact h4
  | py => exact show 2 ≤ 4 by decide

/-- The START of every member. -/
theorem announced_startRoom (h : Seats S ∅ r)
    (hd : ∀ c ∈ r.members ri, ((startRoom S ri r).clients c).dead = false) :
    ∃ r₁ : State, r₁.clients = r.clients ∧ r₁.members ri = r.members ri ∧ (r₁.rooms ri).started = true ∧
      Announced ((r.members ri).mapIdx fun k c => (c, startMsg r ri (S.seed r.seeds) S.delay k)) r₁
        (startRoom S ri r) := by
  have hstart : startRoom S ri r = (announce S (drop S) ri (fun seat =>
      startMsg (({ r with seeds := r.seeds + 1 } : State).setRoom ri
        { r.rooms ri with started := true, seed := S.seed r.seeds }) ri (S.seed r.seeds) S.delay seat)
      (({ r with seeds := r.seeds + 1 } : State).setRoom ri
        { r.rooms ri with started := true, seed := S.seed r.seeds })).publish := rfl
  generalize hr₁ : ({ r with seeds := r.seeds + 1 } : State).setRoom ri
    { r.rooms ri with started := true, seed := S.seed r.seeds } = r₁ at hstart
  have hclients : r₁.clients = r.clients := by
    rw [← hr₁]
    rfl
  have hroom : r₁.rooms ri = { r.rooms ri with started := true, seed := S.seed r.seeds } := by
    rw [← hr₁, State.rooms_setRoom, if_pos rfl]
  have hmembers : r₁.members ri = r.members ri := by
    rw [State.members, hroom]
    rfl
  have hseats : Seats S ∅ r₁ := by
    have hseed : Stays S r { r with seeds := r.seeds + 1 } :=
      .of_rooms h (fun _ => ⟨rfl, rfl, rfl⟩) rfl
    rw [← hr₁]
    exact (stays_start hseed.1 (S.seed r.seeds)).1
  have hmsg : ∀ seat, startMsg r₁ ri (S.seed r.seeds) S.delay seat =
      startMsg r ri (S.seed r.seeds) S.delay seat := fun seat => by
    rw [startMsg, startMsg, roster, roster, hmembers, hclients]
  simp only [hmsg] at hstart
  have hpub : ∀ x : State, x.publish.clients = x.clients ∧ x.publish.rooms = x.rooms := fun x => ⟨rfl, rfl⟩
  rw [hstart] at hd ⊢
  simp only [(hpub _).1] at hd
  rw [← hmembers] at hd ⊢
  have hann := announced_announce hS (fun seat => startMsg r ri (S.seed r.seeds) S.delay seat) hseats hd
  exact ⟨r₁, hclients, rfl, by rw [hroom], hann.told, hann.others, hann.reg, hann.rooms⟩

end announced

end IntvNetplay.Relay

namespace IntvNetplay.Console

open IntvNetplay.Machine
open Relay (Msg Setup State Event Program Pair Announced run padName)

/-! ### The names of a match -/

section names

variable {s : Cpu}

/-- The names that a START brings. -/
theorem rdAll_onStart_names {seat count lo hi delay : ℕ} {names : List ℕ}
    (hf : InFrmbuf (startFrame seat count lo hi delay names) s) (hn : names.length = 32)
    {i : ℕ} (hi' : i < 4) :
    (onStart s).rdAll (nameTbl + 9 * i) 9 = (names.drop (8 * i)).take 8 ++ [0] := by
  have hlen : (startFrame seat count lo hi delay names).length = 39 := by
    rw [startFrame, List.length_append, hn]
    rfl
  have h0 : s.rd frmbuf = 38 := hf.rd_zero (by omega)
  have htake : ∀ x, nameTbl ≤ x → x < nameTbl + 36 →
      (onStart s).rd x = (sesCprGo (frmbuf + 7) (startHeader s)).rd x := fun x h1 h2 => by
    rw [onStart, if_neg (by omega), rd_noteStart]
    simp only [nameTbl] at h1 h2
    simp only [takeStart]
    rw [Cpu.rd_st, if_neg (by simp only [netActive]; omega), Cpu.rd_st, if_neg (by simp only [tickHi]; omega),
      Cpu.rd_st, if_neg (by simp only [tickLo]; omega),
      (local_setWms _ _ _).rd _ (by simp only [WmCell, seatWm]; omega),
      (local_rsClrCrc _).rd _ (by simp only [CrcCell, ownCrc]; omega),
      (local_lsRingInit _).rd _ (by simp only [RingCell, seatRing]; omega)]
  have hsrc : (startHeader s).rdAll (frmbuf + 7 + 8 * i) 8 = s.rdAll (frmbuf + 7 + 8 * i) 8 :=
    rdAll_congr fun x h1 h2 => (local_startHeader (s := s)).rd x (by
      simp only [frmbuf] at h1 h2
      simp only [StartCell, NameCell, InputCell, RingCell, WmCell, CrcCell, nameTbl, seatRing, seatWm,
        ownCrc, netSeat, netCount, rngLo, rngHi, netDelay, tickLo, tickHi, netActive]
      omega)
  rw [show (onStart s).rdAll (nameTbl + 9 * i) 9 =
      (sesCprGo (frmbuf + 7) (startHeader s)).rdAll (nameTbl + 9 * i) 9 from
      rdAll_congr fun x h1 h2 => htake x (by omega) (by omega),
    rdAll_sesCprGo (by decide) (by decide) hi', hsrc, Nat.add_assoc, hf.rdAll (by omega), startFrame,
    Nat.add_comm 7]
  rfl

end names

/-! ### The match -/

/-- **GO begins a match.**  In every reachable state of a relay with rooms: a GO of the first member of a
waiting room, over which nobody is dropped, queues one frame to each member and nothing to anybody else.
It is a START with the member's own seat and otherwise the same for all, and every console that handles it
is then in the match, in that seat, before its first tick, with the delay of the relay and the names of
the members by their seats.  A room of two is then a pair. -/
theorem go_begins {S : Setup} (hS : Program S) (hp : S.proto1 = false) (es : List Event) {ci ri : ℕ}
    (hr : ((run S es).st.clients ci).room = some ri) (hfirst : ((run S es).st.members ri).idxOf ci = 0)
    (h2 : 2 ≤ ((run S es).st.members ri).length) (hst : ((run S es).st.rooms ri).started = false)
    (hall : ∀ c ∈ (run S es).st.members ri, (Relay.handle S ci ⟨Relay.tGo, []⟩ (run S es).st).Live c) :
    ∃ lo hi names, names.length = 32 ∧
      (∀ k c, ((run S es).st.members ri)[k]? = some c →
        ((Relay.handle S ci ⟨Relay.tGo, []⟩ (run S es).st).clients c).stream =
          ((run S es).st.clients c).stream ++
            startFrame k ((run S es).st.members ri).length lo hi (S.delay % 256) names ∧
        ∀ s : Cpu, InFrmbuf (startFrame k ((run S es).st.members ri).length lo hi (S.delay % 256) names) s →
          Opened k ((run S es).st.members ri).length (S.delay % 256) (sesOnframe s) ∧
          ∀ i < 4, (sesOnframe s).rdAll (nameTbl + 9 * i) 9 = padName (seatName (run S es).st ri i) ++ [0]) ∧
      (∀ x ∉ (run S es).st.members ri,
        (Relay.handle S ci ⟨Relay.tGo, []⟩ (run S es).st).clients x = (run S es).st.clients x) ∧
      ∀ a b, (run S es).st.members ri = [a, b] →
        Pair a b ri (Relay.handle S ci ⟨Relay.tGo, []⟩ (run S es).st) := by
  have hseats := (Relay.upheld_run hS es).1.1
  generalize (run S es).st = r at *
  have h4 : (r.members ri).length ≤ 4 := Nat.le_trans (hseats.few ri) hS.four
  have hgo : Relay.handle S ci ⟨Relay.tGo, []⟩ r = Relay.startRoom S ri r := by
    have hsize : ¬((r.members ri).length < 2 ∨ S.maxSeats < (r.members ri).length) :=
      not_or.2 ⟨Nat.not_lt_of_le h2, Nat.not_lt_of_le (hseats.few ri)⟩
    rw [Relay.handle_rooms S hp]
    change Relay.onGo S ci r = _
    rw [Relay.onGo, hr]
    dsimp only
    rw [if_neg (by rw [hst, hfirst]; simp), if_neg hsize]
  rw [hgo] at hall ⊢
  obtain ⟨r₁, hclients, hmembers, hstarted, hann⟩ :=
    Relay.announced_startRoom hS.fit.toOk hseats fun c hc => (hall c hc).2
  have hros := Relay.length_roster r ri
  have hbytes : ∀ k, (Relay.startMsg r ri (S.seed r.seeds) S.delay k).bytes =
      startFrame k (r.members ri).length (S.seed r.seeds % 256) (S.seed r.seeds / 256) (S.delay % 256)
        (Relay.roster r ri) := fun k => by
    rw [Msg.bytes, Relay.startMsg]
    simp only [List.length_cons, hros]
    rfl
  have hroom : ∀ x, ((Relay.startRoom S ri r).clients x).room = (r.clients x).room := fun x => by
    rw [← hclients]
    exact congrArg (fun z => z.2.2.2) (hann.reg x)
  have hrooms : (Relay.startRoom S ri r).members ri = r.members ri := by
    rw [← hmembers, State.members, State.members, hann.rooms]
  refine ⟨S.seed r.seeds % 256, S.seed r.seeds / 256, Relay.roster r ri, hros,
    fun k c hk => ⟨?_, fun s hf => ?_⟩, fun x hx => ?_, fun a b hab => ?_⟩
  · have hmem : (c, Relay.startMsg r ri (S.seed r.seeds) S.delay k) ∈
        (r.members ri).mapIdx fun k c => (c, Relay.startMsg r ri (S.seed r.seeds) S.delay k) := by
      obtain ⟨hlt, rfl⟩ := List.getElem?_eq_some_iff.1 hk
      exact List.mem_mapIdx.2 ⟨k, hlt, rfl⟩
    rw [hann.told _ hmem, hclients, hbytes]
  · have h1 : s.rd (frmbuf + 1) = ftStart := hf.rd (by simp [startFrame])
    rw [sesOnframe_start h1]
    refine ⟨opened_onStart hf, fun i hi => ?_⟩
    rw [rdAll_onStart_names hf hros hi, roster_slice h4 hi]
  · have hfst : ((r.members ri).mapIdx fun k c => (c, Relay.startMsg r ri (S.seed r.seeds) S.delay k)).map
        Prod.fst = r.members ri := List.ext_getElem (by simp) fun i h1 h2 => by simp
    rw [hann.others x (by rw [hfst]; exact hx), hclients]
  · have hmem : ∀ c, c = a ∨ c = b → c ∈ r.members ri := fun c hc => by
      rw [hab]
      simpa using hc
    have hin : ∀ c, c = a ∨ c = b → ((Relay.startRoom S ri r).clients c).room = some ri := fun c hc =>
      (hroom c).trans ((hseats.mem ri (Set.notMem_empty ri) c).1 (hmem c hc))
    refine ⟨?_, ⟨hall a (hmem a (.inl rfl)), hall b (hmem b (.inr rfl))⟩,
      ⟨hin a (.inl rfl), hin b (.inr rfl)⟩, by rw [hann.rooms, hstarted], .inl (hrooms.trans hab)⟩
    have hnodup := hseats.nodup ri
    rw [hab] at hnodup
    simpa using hnodup

/-- The room of two that is waiting. -/
theorem go_begins_pair : ∃ lo hi names,
    ((Relay.handle pairRelay 0 ⟨Relay.tGo, []⟩ (run pairRelay meeting).st).clients 1).stream =
      ((run pairRelay meeting).st.clients 1).stream ++ startFrame 1 2 lo hi 3 names ∧
    Pair 0 1 0 (Relay.handle pairRelay 0 ⟨Relay.tGo, []⟩ (run pairRelay meeting).st) := by
  have hS : Program pairRelay := .c (le_refl 2) (by decide) (fun h => absurd h Bool.false_ne_true) _ _ _ _
  have hm : (run pairRelay meeting).st.members 0 = [0, 1] := by decide +kernel
  have hall : ∀ c ∈ (run pairRelay meeting).st.members 0,
      (Relay.handle pairRelay 0 ⟨Relay.tGo, []⟩ (run pairRelay meeting).st).Live c := by
    decide +kernel
  have hr : ((run pairRelay meeting).st.clients 0).room = some 0 := by decide +kernel
  obtain ⟨lo, hi, names, -, htold, -, hpair⟩ := go_begins hS rfl meeting hr (by decide +kernel)
    (by decide +kernel) (by decide +kernel) hall
  have h1 := (htold 1 1 (by rw [hm]; rfl)).1
  rw [hm] at h1
  exact ⟨lo, hi, names, h1, hpair 0 1 hm⟩

end IntvNetplay.Console
