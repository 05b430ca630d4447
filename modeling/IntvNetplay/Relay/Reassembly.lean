import IntvNetplay.Machine.Scanner
import IntvNetplay.Relay.Server

/-!
# The two reassemblers

`feed` of the C program and `service` of the Python one make frames out of the chunks that `recv` returns.
What they do with a frame is left open here: `handle` is any function that may drop the client.  Both are
the scanner `framesOf` on the stream (`ran_c`, `ran_py`).
-/

namespace IntvNetplay.Relay

open Machine

/-- What a reassembler calls. -/
inductive Call where
  | handle (type : ℕ) (payload : List ℕ)
  /-- The drop for a bad frame length. -/
  | badLength (len : ℕ)
  deriving DecidableEq

/-- The rest of the program. -/
structure Hooks (σ : Type) where
  /-- The second value: it dropped the client. -/
  handle : ℕ → List ℕ → σ → σ × Bool
  badLength : ℕ → σ → σ
  overflow : σ → σ

/-- The state of the program as far as a reassembler sees it, and what it called. -/
structure Trail (σ : Type) where
  st : σ
  calls : List Call
  dead : Bool

/-- A client's connection. -/
structure Conn (σ : Type) where
  trail : Trail σ
  rx : List ℕ
  /-- The longest `rx` has been. -/
  peak : ℕ
  /-- The drop for an overflow was called. -/
  overflowed : Bool

section programs

variable {σ : Type} (H : Hooks σ)

/-- A call; none is made for a client that is gone. -/
def Trail.act (x : Trail σ) (c : Call) : Trail σ :=
  if x.dead then x
  else match c with
    | .handle type payload =>
      ⟨(H.handle type payload x.st).1, x.calls ++ [c], (H.handle type payload x.st).2⟩
    | .badLength len => ⟨H.badLength len x.st, x.calls ++ [c], true⟩

/-- The loop over the frames that have arrived whole, in at most the given number of rounds. -/
def unpack : ℕ → Conn σ → Conn σ
  | 0, c => c
  | n + 1, c =>
    match c.rx with
    | [] => c
    | len :: rest =>
      if len + 1 < 2 ∨ 200 < len then { c with trail := c.trail.act H (.badLength len) }
      else if rest.length + 1 < len + 1 then c
      else
        let body := rest.take len
        let c := { c with rx := rest.drop len, trail := c.trail.act H (.handle (body.headD 0) body.tail) }
        if c.trail.dead then c else unpack n c

/-- More bytes in `rx`. -/
def Conn.fill (c : Conn σ) (data : List ℕ) : Conn σ :=
  { c with rx := c.rx ++ data, peak := max c.peak (c.rx ++ data).length }

/-- `RX_CAP` -/
def rxCap : ℕ := 256

/-- `feed`: the rounds of `while (n)`. -/
def feedRounds : ℕ → List ℕ → Conn σ → Conn σ
  | 0, _, c => c
  | n + 1, data, c =>
    if data = [] then c
    else if rxCap - c.rx.length = 0 then
      { c with trail := ⟨H.overflow c.trail.st, c.trail.calls, true⟩, overflowed := true }
    else
      let take := min data.length (rxCap - c.rx.length)
      let c := unpack H rxCap (c.fill (data.take take))
      if c.trail.dead then c else feedRounds n (data.drop take) c

/-- `service` of the C program once `recv` has returned. -/
def serviceC (data : List ℕ) (c : Conn σ) : Conn σ := feedRounds H data.length data c

/-- `service` of the Python program once `recv` has returned. -/
def servicePy (data : List ℕ) (c : Conn σ) : Conn σ :=
  unpack H (c.rx ++ data).length (c.fill data)

/-- The chunks of a connection; one that is gone is not served. -/
def served (service : List ℕ → Conn σ → Conn σ) (chunks : List (List ℕ)) (c : Conn σ) : Conn σ :=
  chunks.foldl (fun c data => if c.trail.dead then c else service data c) c

/-- A new connection. -/
def Conn.new (st : σ) : Conn σ := ⟨⟨st, [], false⟩, [], 0, false⟩

end programs

/-! ### The scanner -/

/-- What is at the head of a stream. -/
def frameHead : List ℕ → Option (Call × ℕ)
  | [] => none
  | len :: rest =>
    if len + 1 < 2 ∨ 200 < len then some (.badLength len, 1)
    else if rest.length + 1 < len + 1 then none
    else some (.handle ((rest.take len).headD 0) (rest.take len).tail, len + 1)

def framesOf : Scanner ℕ Call where
  head := frameHead
  takes {l b n} h := by
    cases l with
    | nil => cases h
    | cons len rest =>
      rw [frameHead] at h
      rw [List.length_cons]
      split_ifs at h
      · cases h
        exact ⟨Nat.one_pos, Nat.le_add_left 1 _⟩
      · cases h
        exact ⟨Nat.succ_pos _, by omega⟩
  stays {l b n} m h := by
    cases l with
    | nil => cases h
    | cons len rest =>
      rw [frameHead] at h
      rw [List.cons_append, frameHead]
      split_ifs at h with h1 h2
      · rw [if_pos h1]
        exact h
      · rw [if_neg h1, if_neg (by rw [List.length_append]; omega),
          List.take_append_of_le_length (by omega)]
        exact h

/-- What waits is short of a frame. -/
theorem length_of_waits {l : List ℕ} (h : framesOf.head l = none) : l.length ≤ 200 := by
  cases l with
  | nil => exact Nat.zero_le _
  | cons len rest =>
    rw [show framesOf.head (len :: rest) = frameHead (len :: rest) from rfl, frameHead] at h
    rw [List.length_cons]
    split_ifs at h with h1 h2
    omega

/-- The body of every frame found fits the buffer on the stack. -/
theorem body_le (l : List ℕ) : ∀ c ∈ (framesOf.scan l).1, ∀ type payload,
    c = .handle type payload → payload.length + 1 ≤ 200 := by
  induction hl : l.length using Nat.strongRecOn generalizing l with
  | ind k ih =>
    cases h : framesOf.head l with
    | none =>
      rw [Scanner.scan_none h]
      exact fun c hc => by cases hc
    | some x =>
      obtain ⟨b, n⟩ := x
      rw [Scanner.scan_some h]
      intro c hc type payload heq
      obtain rfl | hc := List.mem_cons.1 hc
      · rw [heq] at h
        cases l with
        | nil => cases h
        | cons len rest =>
          rw [show framesOf.head (len :: rest) = frameHead (len :: rest) from rfl, frameHead] at h
          split_ifs at h with h1 h2
          · cases h
          · cases h
            rw [List.length_tail, List.length_take]
            omega
      · exact ih _ (hl ▸ Scanner.drop_lt framesOf h) _ rfl c hc type payload heq

/-! ### Both programs are the scanner -/

section refine

variable {σ : Type} {H : Hooks σ}

theorem act_dead {x : Trail σ} (h : x.dead = true) (c : Call) : x.act H c = x := by
  unfold Trail.act
  rw [if_pos h]

theorem acts_dead {x : Trail σ} (h : x.dead = true) (l : List Call) : l.foldl (Trail.act H) x = x := by
  induction l with
  | nil => rfl
  | cons c l ih => rw [List.foldl_cons, act_dead h, ih]

theorem act_bad_dead (x : Trail σ) (len : ℕ) : (x.act H (.badLength len)).dead = true := by
  unfold Trail.act
  split_ifs with h
  · exact h
  · rfl

/-- Nothing but what was found is called. -/
theorem calls_foldl (l : List Call) (x : Trail σ) :
    ∀ c ∈ (l.foldl (Trail.act H) x).calls, c ∈ x.calls ++ l := by
  induction l generalizing x with
  | nil =>
    rw [List.append_nil]
    exact fun c hc => hc
  | cons c l ih =>
    intro d hd
    have hmem := ih _ d hd
    have hact : ∀ e ∈ (x.act H c).calls, e ∈ x.calls ++ [c] := by
      intro e he
      unfold Trail.act at he
      split_ifs at he
      · exact List.mem_append_left _ he
      · cases c <;> exact he
    rw [List.append_cons]
    obtain h | h := List.mem_append.1 hmem
    · exact List.mem_append_left _ (hact d h)
    · exact List.mem_append_right _ h

/-- What the loop makes of the bytes in `rx`. -/
structure Unpacked (H : Hooks σ) (c c' : Conn σ) : Prop where
  trail : c'.trail = (framesOf.scan c.rx).1.foldl (Trail.act H) c.trail
  rx : c'.trail.dead = false → c'.rx = (framesOf.scan c.rx).2
  peak : c'.peak = c.peak
  overflowed : c'.overflowed = c.overflowed

theorem unpacked_unpack (n : ℕ) {c : Conn σ} (hn : c.rx.length ≤ n) : Unpacked H c (unpack H n c) := by
  have hwait : ∀ {c : Conn σ}, framesOf.head c.rx = none → Unpacked H c c := fun h =>
    ⟨by rw [Scanner.scan_none h]; rfl, fun _ => by rw [Scanner.scan_none h], rfl, rfl⟩
  induction n generalizing c with
  | zero =>
    refine hwait ?_
    rw [List.length_eq_zero_iff.1 (Nat.le_zero.1 hn)]
    rfl
  | succ n ih =>
    obtain ⟨trail, rx, peak, spill⟩ := c
    cases rx with
    | nil => exact hwait rfl
    | cons len rest =>
      rw [unpack]
      dsimp only at hn ⊢
      rw [List.length_cons] at hn
      have hhead : framesOf.head (len :: rest) = frameHead (len :: rest) := rfl
      rw [frameHead] at hhead
      split_ifs at hhead ⊢ with h1 h2 h3
      · -- The connection is dropped, whatever follows.
        refine ⟨?_, fun hd => ?_, rfl, rfl⟩
        · rw [Scanner.scan_some hhead, List.foldl_cons, acts_dead (act_bad_dead trail len)]
        · rw [act_bad_dead] at hd
          cases hd
      · exact hwait hhead
      · refine ⟨?_, fun hd => ?_, rfl, rfl⟩
        · rw [Scanner.scan_some hhead, List.foldl_cons, acts_dead h3]
        · rw [h3] at hd
          cases hd
      · have hlen : (rest.drop len).length ≤ n := by
          rw [List.length_drop]
          omega
        obtain ⟨hs, hr, hp, ho⟩ := ih (c := ⟨trail.act H (.handle ((rest.take len).headD 0)
          (rest.take len).tail), rest.drop len, peak, spill⟩) hlen
        refine ⟨?_, fun hd => ?_, hp, ho⟩
        · rw [hs, Scanner.scan_some hhead, List.foldl_cons, List.drop_succ_cons]
        · rw [hr hd, Scanner.scan_some hhead, List.drop_succ_cons]

/-- What a program has made of a stream: the calls of the scanner, and in `rx` what is left. -/
structure Ran (H : Hooks σ) (st : σ) (stream : List ℕ) (c : Conn σ) : Prop where
  trail : c.trail = (framesOf.scan stream).1.foldl (Trail.act H) ⟨st, [], false⟩
  rx : c.trail.dead = false → c.rx = (framesOf.scan stream).2

/-- More of the stream. -/
theorem Ran.more {st : σ} {stream data : List ℕ} {c c' : Conn σ} (h : Ran H st stream c)
    (hl : c.trail.dead = false) (hu : Unpacked H (c.fill data) c') : Ran H st (stream ++ data) c' := by
  have hrx : (c.fill data).rx = (framesOf.scan stream).2 ++ data := by rw [← h.rx hl]; rfl
  have hscan := Scanner.scan_append (P := framesOf) stream data
  refine ⟨?_, fun hd => ?_⟩
  · rw [hu.trail, hrx, hscan, List.foldl_append, ← h.trail]
    rfl
  · rw [hu.rx hd, hrx, hscan]

theorem Ran.ended {st : σ} {stream data : List ℕ} {c : Conn σ} (h : Ran H st stream c)
    (hd : c.trail.dead = true) : Ran H st (stream ++ data) c := by
  refine ⟨?_, fun hl => ?_⟩
  · rw [Scanner.scan_append, List.foldl_append, ← h.trail, acts_dead hd]
  · rw [hd] at hl
    cases hl

theorem Ran.rx_le {st : σ} {stream : List ℕ} {c : Conn σ} (h : Ran H st stream c)
    (hl : c.trail.dead = false) : c.rx.length ≤ 200 := by
  rw [h.rx hl]
  exact length_of_waits (Scanner.head_rest stream)

theorem ran_py {st : σ} {stream data : List ℕ} {c : Conn σ} (h : Ran H st stream c)
    (hl : c.trail.dead = false) : Ran H st (stream ++ data) (servicePy H data c) :=
  h.more hl (unpacked_unpack _ (le_refl _))

/-- The buffer of the C program never runs over. -/
def Roomy (c : Conn σ) : Prop := c.peak ≤ rxCap ∧ c.overflowed = false

theorem ran_c (n : ℕ) {st : σ} {stream data : List ℕ} {c : Conn σ} (hn : data.length ≤ n)
    (h : Ran H st stream c) (hr : Roomy c) (hl : c.trail.dead = false) :
    Ran H st (stream ++ data) (feedRounds H n data c) ∧ Roomy (feedRounds H n data c) := by
  induction n generalizing stream data c with
  | zero =>
    rw [List.length_eq_zero_iff.1 (Nat.le_zero.1 hn), List.append_nil]
    exact ⟨h, hr⟩
  | succ n ih =>
    have hroom := h.rx_le hl
    rw [feedRounds]
    by_cases hdata : data = []
    · rw [if_pos hdata, hdata, List.append_nil]
      exact ⟨h, hr⟩
    · have hpos := List.length_pos_iff.2 hdata
      rw [if_neg hdata, if_neg (by rw [rxCap]; omega)]
      generalize htake : min data.length (rxCap - c.rx.length) = take
      rw [rxCap] at htake
      have hfill : (c.rx ++ data.take take).length ≤ rxCap := by
        rw [List.length_append, List.length_take, rxCap]
        omega
      have hunpack : Unpacked H (c.fill (data.take take)) (unpack H rxCap (c.fill (data.take take))) :=
        unpacked_unpack _ hfill
      have hran := h.more hl hunpack
      have hroomy : Roomy (unpack H rxCap (c.fill (data.take take))) := by
        refine ⟨?_, hunpack.overflowed.trans hr.2⟩
        rw [hunpack.peak]
        exact max_le hr.1 hfill
      have hcut : stream ++ data = stream ++ data.take take ++ data.drop take := by
        rw [List.append_assoc, List.take_append_drop]
      dsimp only
      split_ifs with hd
      · rw [hcut]
        exact ⟨hran.ended hd, hroomy⟩
      · rw [hcut]
        refine ih ?_ hran hroomy (Bool.not_eq_true _ ▸ hd)
        rw [List.length_drop]
        omega

/-- However the stream is cut. -/
theorem ran_served {st : σ} {service : List ℕ → Conn σ → Conn σ} {P : Conn σ → Prop}
    (hstep : ∀ {stream data c}, Ran H st stream c → P c → c.trail.dead = false →
      Ran H st (stream ++ data) (service data c) ∧ P (service data c)) (chunks : List (List ℕ))
    {stream : List ℕ} {c : Conn σ} (h : Ran H st stream c) (hP : P c) :
    Ran H st (stream ++ chunks.flatten) (served service chunks c) ∧ P (served service chunks c) := by
  induction chunks generalizing stream c with
  | nil =>
    rw [List.flatten_nil, List.append_nil]
    exact ⟨h, hP⟩
  | cons data chunks ih =>
    rw [served, List.foldl_cons, List.flatten_cons, ← List.append_assoc]
    split_ifs with hd
    · exact ih (h.ended hd) hP
    · have hnext : Ran H st (stream ++ data) (service data c) ∧ P (service data c) :=
        hstep h hP (Bool.not_eq_true _ ▸ hd)
      exact ih hnext.1 hnext.2

theorem ran_new (st : σ) : Ran H st [] (Conn.new st) := by
  have hnil : framesOf.scan [] = ([], []) := Scanner.scan_none rfl
  exact ⟨by rw [hnil]; rfl, fun _ => by rw [hnil]; rfl⟩

end refine

/-- **The two reassemblers agree on every stream**: however it is cut into chunks for one and for the
other, they make the same calls in the same order, up to the same drop, and keep the same bytes while the
client is there.  The buffers of the C program never run over. -/
theorem reassemblers_agree {σ : Type} (H : Hooks σ) (st : σ) (chunks chunks' : List (List ℕ))
    (hsame : chunks.flatten = chunks'.flatten) :
    let c := served (serviceC H) chunks (Conn.new st)
    let p := served (servicePy H) chunks' (Conn.new st)
    c.trail = p.trail ∧ (c.trail.dead = false → c.rx = p.rx) ∧ c.peak ≤ rxCap ∧ c.overflowed = false ∧
      ∀ call ∈ c.trail.calls, ∀ type payload, call = .handle type payload →
        payload.length + 1 ≤ 201 := by
  intro c p
  have hc : Ran H st ([] ++ chunks.flatten) c ∧ Roomy c :=
    ran_served (fun hran hroomy hl => ran_c _ (le_refl _) hran hroomy hl) chunks (ran_new st)
      ⟨Nat.zero_le _, rfl⟩
  have hp : Ran H st ([] ++ chunks'.flatten) p ∧ True :=
    ran_served (P := fun _ => True) (fun hran _ hl => ⟨ran_py hran hl, trivial⟩) chunks' (ran_new st)
      trivial
  rw [List.nil_append] at hc hp
  have htrail : c.trail = p.trail := by rw [hc.1.trail, hp.1.trail, hsame]
  refine ⟨htrail, fun hd => ?_, hc.2.1, hc.2.2, fun call hcall type payload heq => ?_⟩
  · rw [hc.1.rx hd, hp.1.rx (htrail ▸ hd), hsame]
  · rw [hc.1.trail] at hcall
    have hmem := calls_foldl _ _ call hcall
    rw [List.nil_append] at hmem
    exact Nat.le_succ_of_le (body_le _ call hmem type payload heq)

/-- One cut inside a frame, and none: the frame is handled, and the bad length drops the client. -/
theorem reassemblers_agree_cut :
    let H : Hooks ℕ := ⟨fun type _ n => (n + type, false), fun _ n => n, fun n => n⟩
    let c := served (serviceC H) [[3, 4], [65, 66, 0], [1, 12]] (Conn.new 0)
    let p := served (servicePy H) [[3, 4, 65, 66, 0, 1, 12]] (Conn.new 0)
    c.trail.calls = [.handle 4 [65, 66], .badLength 0] ∧ c.trail = p.trail := by
  intro H c p
  have hagree := reassemblers_agree H 0 [[3, 4], [65, 66, 0], [1, 12]] [[3, 4, 65, 66, 0, 1, 12]] rfl
  exact ⟨by decide, hagree.1⟩

/-! ### In the relay -/

section relay

variable {S : Setup} {ci : ℕ}

/-- What the relay makes of a frame. -/
def hooks (S : Setup) (ci : ℕ) : Hooks State where
  handle type payload r :=
    (handle S ci ⟨type, payload⟩ r, ((handle S ci ⟨type, payload⟩ r).clients ci).dead)
  badLength _ r := drop S r ci
  overflow r := drop S r ci

/-- The loop of the relay is the loop here. -/
theorem unpack_hooks (n : ℕ) (c : Conn State) (hl : c.trail.dead = false) :
    (unpack (hooks S ci) n c).trail.st = (drain S ci n c.trail.st c.rx).1 ∧
      (unpack (hooks S ci) n c).rx = (drain S ci n c.trail.st c.rx).2 := by
  induction n generalizing c with
  | zero => exact ⟨rfl, rfl⟩
  | succ n ih =>
    obtain ⟨⟨st, calls, dead⟩, rx, peak, spill⟩ := c
    obtain rfl : dead = false := hl
    cases rx with
    | nil => exact ⟨rfl, rfl⟩
    | cons len rest =>
      rw [unpack, drain]
      dsimp only
      by_cases h1 : len < 1 ∨ 200 < len
      · rw [if_pos (by omega), if_pos h1]
        exact ⟨rfl, rfl⟩
      by_cases h2 : rest.length < len
      · rw [if_neg (by omega), if_neg h1, if_pos (by omega), if_pos h2]
        exact ⟨rfl, rfl⟩
      have hhead : (rest.take len).headD 0 = rest.headD 0 := by
        cases rest with
        | nil => rw [List.take_nil]
        | cons x rest =>
          obtain ⟨k, rfl⟩ : ∃ k, len = k + 1 := ⟨len - 1, by omega⟩
          rfl
      rw [if_neg (by omega), if_neg h1, if_neg (by omega), if_neg h2, hhead]
      generalize hm : (⟨rest.headD 0, (rest.take len).tail⟩ : Msg) = m
      have hact : Trail.act (hooks S ci) ⟨st, calls, false⟩
          (.handle (rest.headD 0) (rest.take len).tail) =
            ⟨handle S ci m st, calls ++ [.handle (rest.headD 0) (rest.take len).tail],
              ((handle S ci m st).clients ci).dead⟩ := by
        rw [← hm]
        rfl
      rw [hact]
      cases hd : ((handle S ci m st).clients ci).dead with
      | true =>
        rw [if_pos rfl, if_pos rfl]
        exact ⟨rfl, rfl⟩
      | false =>
        rw [if_neg Bool.false_ne_true, if_neg Bool.false_ne_true]
        exact ih ⟨⟨handle S ci m st, _, false⟩, rest.drop len, peak, spill⟩ rfl

end relay

end IntvNetplay.Relay
