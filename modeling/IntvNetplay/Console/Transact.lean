import IntvNetplay.Console.Mailbox
import Mathlib.Logic.Relation

/-!
# The mailbox beside its peripheral

`mbTransact` takes the answer of the peripheral as an argument.  Here the two run side by side: the
driver stages a request cell by cell, numbers it after `FN_ACKSEQ` and polls 65536 times at most; the
peripheral latches the request registers when `FN_SEQ` differs from `FN_ACKSEQ`, takes as long as it
likes, and acknowledges the number it latched.  A request that the driver gave up on is still
executed.
-/

namespace IntvNetplay.Console

open IntvNetplay.Machine

/-- The registers that hold a request: the command block, the parameters and `FN_TX`. -/
def requestRegs : List ℕ := List.range' fnDevice 5 ++ List.range' fnParamSize 0x130

/-- A request as the registers hold it. -/
def staged (s : Cpu) : List ℕ := requestRegs.map s.rd

/-- The registers of the handshake, and those that hold a reply. -/
def AckCell (a : ℕ) : Prop := a = fnAckseq ∨ 0x9C0B ≤ a ∧ a ≤ 0x9C0E ∨ 0x9D40 ≤ a ∧ a < 0x9F40

instance : DecidablePred AckCell := fun a => by unfold AckCell; infer_instance

/-- What `MB_TRANSACT` stores before it numbers the request. -/
def registerStores (s : Cpu) : List (ℕ × ℕ) :=
  [(fnDevice, s.rd mbDev), (fnCmd, s.rd mbCmd), (fnNparam, s.rd mbNparam),
    (fnTxlenLo, s.rd mbTxlenLo), (fnTxlenHi, s.rd mbTxlenHi)]

/-- The peripheral's own writes when it completes the request it latched under a number. -/
def complete (seq : ℕ) (r : Reply) (s : Cpu) : Cpu :=
  let s := s.pokeAll fnRx (r.rx.take 512)
  let s := s.poke fnErr r.err
  let s := s.poke fnRxlenLo r.rx.length
  let s := s.poke fnRxlenHi (r.rx.length / 256)
  let s := s.poke fnReplyCmd r.cmd
  s.poke fnAckseq seq

/-- `MB_TRANSACT` when its poll loop runs out. -/
def timedOut (s : Cpu) : Cpu := diagBump diagTmo ((s.st mbOk 0).st mbErr 0)

/-- The reply registers show a reply. -/
structure Shows (r : Reply) (s : Cpu) : Prop where
  rx : ∀ i < 512, i < r.rx.length → s.rd (fnRx + i) = r.rx.getD i 0 % 256
  rxlenLo : s.rd fnRxlenLo = r.rx.length % 256
  rxlenHi : s.rd fnRxlenHi = r.rx.length / 256 % 256
  err : s.rd fnErr = r.err % 256
  cmd : s.rd fnReplyCmd = r.cmd % 256

/-- A call of `MB_TRANSACT` from the moment it reads `FN_ACKSEQ`. -/
structure Ticket where
  /-- What the request registers held. -/
  request : List ℕ
  /-- What the peripheral was executing. -/
  busy : Option (List ℕ)
  /-- How many requests it had completed. -/
  before : ℕ

/-- Where the driver stands. -/
inductive Driver where
  /-- Outside `MB_TRANSACT`: the caller stages parameters and payload, or reads the reply. -/
  | away
  /-- About to make these register stores. -/
  | staging (todo : List (ℕ × ℕ))
  /-- `FN_ACKSEQ` is read and `FN_SEQ` not yet written. -/
  | numbered (t : Ticket) (seq : ℕ)
  /-- In the poll loop, after this many polls. -/
  | polling (t : Ticket) (seq polls : ℕ)

/-- A request that the peripheral has latched. -/
structure Job where
  request : List ℕ
  seq : ℕ

/-- A return of `MB_TRANSACT`: its ticket, the console, and what was completed by then. -/
structure Return where
  ticket : Ticket
  cpu : Cpu
  done : List (List ℕ × Reply)

/-- The console with its peripheral. -/
structure Desk where
  driver : Driver
  cpu : Cpu
  job : Option Job
  /-- Completed requests with their replies, newest first. -/
  done : List (List ℕ × Reply)
  /-- Newest first. -/
  returns : List Return

/-- One step of the driver or of the peripheral. -/
inductive Desk.Step : Desk → Desk → Prop where
  | store {s : Cpu} {j d l} (a v : ℕ) : a ≠ fnSeq → ¬ AckCell a →
      Step ⟨.away, s, j, d, l⟩ ⟨.away, s.st a v, j, d, l⟩
  | call {s : Cpu} {j d l} : Step ⟨.away, s, j, d, l⟩ ⟨.staging (registerStores s), s, j, d, l⟩
  | put {s : Cpu} {j d l} (a v : ℕ) (todo : List (ℕ × ℕ)) :
      Step ⟨.staging ((a, v) :: todo), s, j, d, l⟩ ⟨.staging todo, s.st a v, j, d, l⟩
  | number {s : Cpu} {j d l} : Step ⟨.staging [], s, j, d, l⟩
      ⟨.numbered ⟨staged s, j.map Job.request, d.length⟩ (nextSeq (s.rd fnAckseq)), s, j, d, l⟩
  | ring {s : Cpu} {j d l} (t : Ticket) (q : ℕ) :
      Step ⟨.numbered t q, s, j, d, l⟩ ⟨.polling t q 0, s.st fnSeq q, j, d, l⟩
  | acked {s : Cpu} {j d l} (t : Ticket) (q n : ℕ) : s.rd fnAckseq = q →
      Step ⟨.polling t q n, s, j, d, l⟩
        ⟨.away, mbOutcome (notePolls n s), j, d, ⟨t, mbOutcome (notePolls n s), d⟩ :: l⟩
  | again {s : Cpu} {j d l} (t : Ticket) (q n : ℕ) : s.rd fnAckseq ≠ q → n + 1 < 65536 →
      Step ⟨.polling t q n, s, j, d, l⟩ ⟨.polling t q (n + 1), s, j, d, l⟩
  | timeout {s : Cpu} {j d l} (t : Ticket) (q n : ℕ) : s.rd fnAckseq ≠ q → n + 1 = 65536 →
      Step ⟨.polling t q n, s, j, d, l⟩ ⟨.away, timedOut s, j, d, ⟨t, timedOut s, d⟩ :: l⟩
  | latch {w : Driver} {s : Cpu} {d l} : s.rd fnSeq ≠ s.rd fnAckseq →
      Step ⟨w, s, none, d, l⟩ ⟨w, s, some ⟨staged s, s.rd fnSeq⟩, d, l⟩
  | finish {w : Driver} {s : Cpu} {j : Job} {d l} (r : Reply) :
      Step ⟨w, s, some j, d, l⟩ ⟨w, complete j.seq r s, none, (j.request, r) :: d, l⟩

/-- Any number of steps. -/
def Desk.Run : Desk → Desk → Prop := Relation.ReflTransGen Desk.Step

/-- The call was served: the newest completed request is the one it staged, completed after it read
`FN_ACKSEQ`, and the reply registers show that request's reply. -/
def Return.Served (r : Return) : Prop :=
  ∃ reply rest, r.done = (r.ticket.request, reply) :: rest ∧ r.ticket.before ≤ rest.length ∧
    Shows reply r.cpu

/-- The peripheral was not executing another request when the call read `FN_ACKSEQ`. -/
def Ticket.Clear (t : Ticket) : Prop := ∀ q, t.busy = some q → q = t.request

/-! ### The stores -/

theorem nextSeq_ne (a : ℕ) (h : a < 256) : nextSeq a ≠ a := by
  unfold nextSeq
  split_ifs <;> omega

theorem nextSeq_lt (a : ℕ) : nextSeq a < 256 := by
  unfold nextSeq
  split_ifs <;> omega

section stores

variable {s t : Cpu}

theorem staged_congr (h : ∀ a, a ∈ requestRegs → t.rd a = s.rd a) : staged t = staged s :=
  List.map_congr_left h

theorem mem_requestRegs {a : ℕ} :
    a ∈ requestRegs ↔ 0x9C05 ≤ a ∧ a < 0x9C0A ∨ 0x9C10 ≤ a ∧ a < 0x9D40 := by
  rw [requestRegs, List.mem_append, List.mem_range'_1, List.mem_range'_1]

theorem Shows.congr {r : Reply} (h : Shows r s) (hr : ∀ a, AckCell a → t.rd a = s.rd a) :
    Shows r t := by
  have hcell : ∀ a, a = fnRxlenLo ∨ a = fnRxlenHi ∨ a = fnErr ∨ a = fnReplyCmd →
      t.rd a = s.rd a := by
    rintro a (rfl | rfl | rfl | rfl) <;> exact hr _ (by decide)
  constructor
  · intro i hi hl
    rw [hr _ (Or.inr (Or.inr ⟨by simp only [fnRx]; omega, by simp only [fnRx]; omega⟩))]
    exact h.rx i hi hl
  · rw [hcell _ (by simp)]
    exact h.rxlenLo
  · rw [hcell _ (by simp)]
    exact h.rxlenHi
  · rw [hcell _ (by simp)]
    exact h.err
  · rw [hcell _ (by simp)]
    exact h.cmd

theorem rd_complete_of_not {a : ℕ} (ha : ¬ AckCell a) (q : ℕ) (r : Reply) :
    (complete q r s).rd a = s.rd a := by
  simp only [AckCell, fnAckseq, not_or] at ha
  have hlen : (r.rx.take 512).length ≤ 512 := List.length_take_le _ _
  simp only [complete, Cpu.rd_poke]
  rw [if_neg (by simp only [fnAckseq]; omega), if_neg (by simp only [fnReplyCmd]; omega),
    if_neg (by simp only [fnRxlenHi]; omega), if_neg (by simp only [fnRxlenLo]; omega),
    if_neg (by simp only [fnErr]; omega)]
  exact Cpu.rd_pokeAll_of_not _ _ _ _ (by simp only [fnRx]; omega)

theorem rd_fnAckseq_complete {q : ℕ} (hq : q < 256) (r : Reply) :
    (complete q r s).rd fnAckseq = q := by
  simp only [complete, Cpu.rd_poke, if_true]
  exact Nat.mod_eq_of_lt hq

theorem shows_complete (q : ℕ) (r : Reply) : Shows r (complete q r s) := by
  constructor
  · intro i hi hl
    have hne : fnRx + i ≠ fnAckseq ∧ fnRx + i ≠ fnReplyCmd ∧ fnRx + i ≠ fnRxlenHi ∧
        fnRx + i ≠ fnRxlenLo ∧ fnRx + i ≠ fnErr := by
      simp only [fnRx, fnAckseq, fnReplyCmd, fnRxlenHi, fnRxlenLo, fnErr]
      omega
    simp only [complete, Cpu.rd_poke, if_neg hne.1, if_neg hne.2.1, if_neg hne.2.2.1,
      if_neg hne.2.2.2.1, if_neg hne.2.2.2.2]
    rw [Cpu.rd_pokeAll, if_pos ⟨by omega, by rw [List.length_take]; omega⟩, Nat.add_sub_cancel_left,
      cellBits_cart (by simp only [fnRx]; omega) (by simp only [fnRx]; omega)]
    simp only [List.getD_eq_getElem?_getD, List.getElem?_take, if_pos hi]
    rfl
  all_goals simp [complete, cellBits]

end stores

/-! ### The invariant -/

/-- A call that has read `FN_ACKSEQ`: either the acknowledged number still stands, and the peripheral
is not executing or executes what was busy then, or else the request itself; or the number is
acknowledged. -/
structure Open (t : Ticket) (q : ℕ) (d : Desk) : Prop where
  request : t.request = staged d.cpu
  before : t.before ≤ d.done.length
  stands : q = nextSeq (d.cpu.rd fnAckseq) ∧
      (∀ r, t.busy = some r → ∃ j, d.job = some j ∧ j.request = r) ∧
      (t.busy = none → ∀ j, d.job = some j → j.request = t.request) ∨
    d.cpu.rd fnAckseq = q ∧ d.cpu.rd fnSeq = q ∧ d.job = none ∧
      ∃ reply rest, d.done = (t.busy.getD t.request, reply) :: rest ∧ t.before ≤ rest.length

/-- What each place of the driver knows. -/
def Placed (d : Desk) : Prop :=
  match d.driver with
  | .away => True
  | .staging todo => ∀ p ∈ todo, p.1 ≠ fnSeq ∧ ¬ AckCell p.1
  | .numbered t q => Open t q d
  | .polling t q _ => Open t q d

/-- The numbers of the handshake, the reply registers, the driver and the returns so far. -/
structure Ordered (d : Desk) : Prop where
  seq : d.cpu.rd fnSeq = d.cpu.rd fnAckseq ∨ d.cpu.rd fnSeq = nextSeq (d.cpu.rd fnAckseq)
  job : ∀ j, d.job = some j → j.seq = nextSeq (d.cpu.rd fnAckseq) ∧ d.cpu.rd fnSeq = j.seq
  shows : ∀ q r rest, d.done = (q, r) :: rest → Shows r d.cpu
  placed : Placed d
  returns : ∀ r ∈ d.returns, r.cpu.rd mbOk = 1 → (r.Served ↔ r.ticket.Clear)

section steps

variable {s t : Cpu} {w w' : Driver} {j : Option Job} {d : List (List ℕ × Reply)} {l : List Return}

/-- Console stores outside the handshake and the reply registers. -/
theorem Ordered.of_rd (h : Ordered ⟨w, s, j, d, l⟩) (hs : t.rd fnSeq = s.rd fnSeq)
    (ha : ∀ a, AckCell a → t.rd a = s.rd a) (hp : Placed ⟨w', t, j, d, l⟩) :
    Ordered ⟨w', t, j, d, l⟩ := by
  have hack : t.rd fnAckseq = s.rd fnAckseq := ha _ (Or.inl rfl)
  constructor
  · dsimp only
    rw [hs, hack]
    exact h.seq
  · intro j' hj'
    dsimp only
    rw [hs, hack]
    exact h.job j' hj'
  · intro q r rest hd
    exact (h.shows q r rest hd).congr ha
  · exact hp
  · exact h.returns

theorem Ordered.store (h : Ordered ⟨w, s, j, d, l⟩) {a v : ℕ} (hs : a ≠ fnSeq)
    (ha : ¬ AckCell a) (hp : Placed ⟨w', s.st a v, j, d, l⟩) :
    Ordered ⟨w', s.st a v, j, d, l⟩ := by
  refine h.of_rd ?_ (fun b hb => ?_) hp
  · rw [Cpu.rd_st, if_neg (Ne.symm hs)]
  · rw [Cpu.rd_st, if_neg]
    rintro rfl
    exact ha hb

theorem ordered_call (h : Ordered ⟨.away, s, j, d, l⟩) :
    Ordered ⟨.staging (registerStores s), s, j, d, l⟩ := by
  refine h.of_rd rfl (fun _ _ => rfl) ?_
  have hcells : ∀ a ∈ [fnDevice, fnCmd, fnNparam, fnTxlenLo, fnTxlenHi],
      a ≠ fnSeq ∧ ¬ AckCell a := by decide
  intro p hp
  simp only [registerStores, List.mem_cons, List.not_mem_nil, or_false] at hp
  rcases hp with rfl | rfl | rfl | rfl | rfl <;> exact hcells _ (by simp)

theorem ordered_put {a v : ℕ} {todo : List (ℕ × ℕ)}
    (h : Ordered ⟨.staging ((a, v) :: todo), s, j, d, l⟩) :
    Ordered ⟨.staging todo, s.st a v, j, d, l⟩ := by
  have hp : ∀ p ∈ (a, v) :: todo, p.1 ≠ fnSeq ∧ ¬ AckCell p.1 := h.placed
  obtain ⟨hs, ha⟩ := hp (a, v) List.mem_cons_self
  refine h.store hs ha ?_
  intro p hq
  exact hp p (List.mem_cons_of_mem _ hq)

theorem ordered_number (h : Ordered ⟨.staging [], s, j, d, l⟩) :
    Ordered ⟨.numbered ⟨staged s, j.map Job.request, d.length⟩ (nextSeq (s.rd fnAckseq)),
      s, j, d, l⟩ := by
  refine h.of_rd rfl (fun _ _ => rfl) ⟨rfl, Nat.le_refl _, Or.inl ⟨rfl, ?_, ?_⟩⟩
  · intro r hr
    cases j with
    | none => cases hr
    | some j => exact ⟨j, rfl, Option.some.inj hr⟩
  · intro hb j' hj'
    cases j with
    | none => cases hj'
    | some j => cases hb

/-- The handshake after `FN_SEQ` is written. -/
theorem ordered_ring {tk : Ticket} {q : ℕ} (h : Ordered ⟨.numbered tk q, s, j, d, l⟩) :
    Ordered ⟨.polling tk q 0, s.st fnSeq q, j, d, l⟩ := by
  have hopen : Open tk q ⟨.numbered tk q, s, j, d, l⟩ := h.placed
  have hne : ∀ a, AckCell a → (s.st fnSeq q).rd a = s.rd a := by
    intro a ha
    rw [Cpu.rd_st, if_neg]
    rintro rfl
    exact absurd ha (by decide)
  have hack : (s.st fnSeq q).rd fnAckseq = s.rd fnAckseq := hne _ (Or.inl rfl)
  have hlt : q < 256 := by
    rcases hopen.stands with ⟨hq, -⟩ | ⟨hq, -⟩
    · rw [hq]
      exact nextSeq_lt _
    · rw [← hq]
      exact s.rd_lt_256 (by decide)
  have hseq : (s.st fnSeq q).rd fnSeq = q := by
    rw [Cpu.rd_st, if_pos rfl, cellBits_cart (by decide) (by decide)]
    exact Nat.mod_eq_of_lt hlt
  have hreq : staged (s.st fnSeq q) = staged s := by
    refine staged_congr fun a ha => ?_
    rw [mem_requestRegs] at ha
    rw [Cpu.rd_st, if_neg (by simp only [fnSeq]; omega)]
  constructor
  · dsimp only
    rw [hseq, hack]
    rcases hopen.stands with ⟨hq, -⟩ | ⟨hq, -⟩
    · exact Or.inr hq
    · exact Or.inl hq.symm
  · intro j' hj'
    dsimp only at hj' ⊢
    obtain ⟨h1, -⟩ := h.job j' hj'
    rcases hopen.stands with ⟨hq, -⟩ | ⟨-, -, hnone, -⟩
    · rw [hseq, hack, hq]
      exact ⟨h1, h1.symm⟩
    · rw [show j = none from hnone] at hj'
      cases hj'
  · intro q' r rest hd
    exact (h.shows q' r rest hd).congr hne
  · refine ⟨hopen.request.trans hreq.symm, hopen.before, ?_⟩
    dsimp only
    rw [hack, hseq]
    rcases hopen.stands with hst | ⟨hq, -, hst⟩
    · exact Or.inl hst
    · exact Or.inr ⟨hq, rfl, hst⟩
  · exact h.returns

theorem ordered_latch (h : Ordered ⟨w, s, none, d, l⟩) (hne : s.rd fnSeq ≠ s.rd fnAckseq) :
    Ordered ⟨w, s, some ⟨staged s, s.rd fnSeq⟩, d, l⟩ := by
  have hseq : s.rd fnSeq = nextSeq (s.rd fnAckseq) := h.seq.resolve_left hne
  have hopen : ∀ {tk q}, Open tk q ⟨w, s, none, d, l⟩ →
      Open tk q ⟨w, s, some ⟨staged s, s.rd fnSeq⟩, d, l⟩ := by
    intro tk q ho
    refine ⟨ho.request, ho.before, ?_⟩
    rcases ho.stands with ⟨hq, hbusy, -⟩ | ⟨hack, hq, -⟩
    · refine Or.inl ⟨hq, fun r hr => ?_, fun _ j' hj' => ?_⟩
      · obtain ⟨j', hj', -⟩ := hbusy r hr
        cases hj'
      · cases hj'
        exact ho.request.symm
    · exact absurd (hq.trans hack.symm) hne
  constructor
  · exact h.seq
  · intro j' hj'
    cases hj'
    exact ⟨hseq, rfl⟩
  · exact h.shows
  · have hp := h.placed
    cases w with
    | away => trivial
    | staging todo => exact hp
    | numbered tk q => exact hopen hp
    | polling tk q n => exact hopen hp
  · exact h.returns

theorem ordered_finish {k : Job} (h : Ordered ⟨w, s, some k, d, l⟩) (r : Reply) :
    Ordered ⟨w, complete k.seq r s, none, (k.request, r) :: d, l⟩ := by
  obtain ⟨hk, hseq⟩ := h.job k rfl
  dsimp only at hk hseq
  have hlt : k.seq < 256 := by
    rw [hk]
    exact nextSeq_lt _
  have hack : (complete k.seq r s).rd fnAckseq = k.seq := rd_fnAckseq_complete hlt r
  have hseq' : (complete k.seq r s).rd fnSeq = k.seq := by
    rw [rd_complete_of_not (by decide), hseq]
  have hreq : staged (complete k.seq r s) = staged s := by
    refine staged_congr fun a ha => rd_complete_of_not ?_ _ _
    rw [mem_requestRegs] at ha
    simp only [AckCell, fnAckseq]
    omega
  have hopen : ∀ {tk q}, Open tk q ⟨w, s, some k, d, l⟩ →
      Open tk q ⟨w, complete k.seq r s, none, (k.request, r) :: d, l⟩ := by
    intro tk q ho
    have hbefore : tk.before ≤ d.length := ho.before
    refine ⟨ho.request.trans hreq.symm, Nat.le_succ_of_le hbefore, ?_⟩
    rcases ho.stands with ⟨hq, hbusy, hown⟩ | ⟨-, -, hnone, -⟩
    · refine Or.inr ⟨hack.trans (hk.trans hq.symm), hseq'.trans (hk.trans hq.symm), rfl, r, d, ?_,
        hbefore⟩
      dsimp only
      cases hb : tk.busy with
      | none => rw [hown hb k rfl, Option.getD_none]
      | some b =>
        obtain ⟨k', hk', hb'⟩ := hbusy b hb
        cases hk'
        rw [hb', Option.getD_some]
    · cases hnone
  constructor
  · exact Or.inl (hseq'.trans hack.symm)
  · intro j' hj'
    cases hj'
  · intro q r' rest hd
    simp only [List.cons.injEq, Prod.mk.injEq] at hd
    obtain ⟨⟨-, rfl⟩, -⟩ := hd
    exact shows_complete _ _
  · have hp := h.placed
    cases w with
    | away => trivial
    | staging todo => exact hp
    | numbered tk q => exact hopen hp
    | polling tk q n => exact hopen hp
  · exact h.returns

/-- What the end of a call may change. -/
def OutcomeCell (a : ℕ) : Prop := 0x8114 ≤ a ∧ a ≤ 0x811E ∨ 0x8180 ≤ a ∧ a ≤ 0x8183

instance : DecidablePred OutcomeCell := fun a => by unfold OutcomeCell; infer_instance

theorem local_outcome (n : ℕ) (s : Cpu) : Local OutcomeCell s (mbOutcome (notePolls n s)) := by
  have hn : Local OutcomeCell s (notePolls n s) := by
    unfold notePolls
    exact Local.ite (fun _ => Local.refl s) fun _ => ((Local.refl s).st (by decide)).st (by decide)
  unfold mbOutcome
  refine Local.ite (fun _ => hn.st (by decide)) fun _ => ?_
  exact Local.diagBump ((hn.st (by decide)).st (by decide)) (by decide)

theorem local_timedOut (s : Cpu) : Local OutcomeCell s (timedOut s) :=
  Local.diagBump (((Local.refl s).st (by decide)).st (by decide)) (by decide)

/-- A return: the handshake is left as it is. -/
theorem Ordered.back (h : Ordered ⟨w, s, j, d, l⟩) (ht : Local OutcomeCell s t) {r : Return}
    (hr : r.cpu.rd mbOk = 1 → (r.Served ↔ r.ticket.Clear)) :
    Ordered ⟨.away, t, j, d, r :: l⟩ := by
  have hcell : ∀ a, AckCell a → t.rd a = s.rd a := by
    intro a ha
    refine ht.rd a fun ho => ?_
    simp only [AckCell, fnAckseq] at ha
    simp only [OutcomeCell] at ho
    omega
  have haway : Ordered ⟨.away, t, j, d, l⟩ := h.of_rd (ht.rd _ (by decide)) hcell trivial
  obtain ⟨h1, h2, h3, -, h5⟩ := haway
  refine ⟨h1, h2, h3, trivial, fun r' hr' => ?_⟩
  rcases List.mem_cons.1 hr' with rfl | hr'
  · exact hr
  · exact h5 r' hr'

/-- The number is acknowledged. -/
theorem ordered_acked {tk : Ticket} {q n : ℕ} (h : Ordered ⟨.polling tk q n, s, j, d, l⟩)
    (hack : s.rd fnAckseq = q) : Ordered ⟨.away, mbOutcome (notePolls n s), j, d,
      ⟨tk, mbOutcome (notePolls n s), d⟩ :: l⟩ := by
  have hout := local_outcome n s
  generalize mbOutcome (notePolls n s) = u at hout ⊢
  refine h.back hout fun _ => ?_
  have ho : Open tk q ⟨.polling tk q n, s, j, d, l⟩ := h.placed
  rcases ho.stands with ⟨hq, -⟩ | ⟨-, -, -, reply, rest, hd, hbefore⟩
  · exact absurd (hack.trans hq).symm (nextSeq_ne _ (s.rd_lt_256 (by decide)))
  · dsimp only at hd
    constructor
    · intro hserved r hbusy
      obtain ⟨reply', rest', hd', -⟩ := hserved
      dsimp only at hd'
      rw [hd, List.cons.injEq, Prod.mk.injEq, hbusy, Option.getD_some] at hd'
      exact hd'.1.1
    · intro hclear
      refine ⟨reply, rest, ?_, hbefore, ?_⟩
      · dsimp only
        rw [hd]
        cases hb : tk.busy with
        | none => rfl
        | some r => rw [Option.getD_some, hclear r hb]
      · refine (h.shows _ _ _ hd).congr fun a ha => hout.rd a fun hc => ?_
        simp only [AckCell, fnAckseq] at ha
        simp only [OutcomeCell] at hc
        omega

theorem rd_mbOk_timedOut (s : Cpu) : (timedOut s).rd mbOk = 0 := by
  unfold timedOut diagBump
  split <;> simp

end steps

/-- Every step keeps the order. -/
theorem ordered_step {d d' : Desk} (h : Ordered d) (hs : d.Step d') : Ordered d' := by
  cases hs with
  | store a v hs ha => exact h.store hs ha trivial
  | call => exact ordered_call h
  | put a v todo => exact ordered_put h
  | number => exact ordered_number h
  | ring t q => exact ordered_ring h
  | acked t q n hack => exact ordered_acked h hack
  | again t q n =>
    have ho : Open t q _ := h.placed
    exact h.of_rd rfl (fun _ _ => rfl) ⟨ho.request, ho.before, ho.stands⟩
  | timeout t q n =>
    refine h.back (local_timedOut _) fun hok => ?_
    dsimp only at hok
    rw [rd_mbOk_timedOut] at hok
    cases hok
  | latch hne => exact ordered_latch h hne
  | finish r => exact ordered_finish h r

/-- A console outside `MB_TRANSACT` and a peripheral with nothing to do. -/
def Desk.rest (s : Cpu) : Desk := ⟨.away, s, none, [], []⟩

theorem ordered_rest {s : Cpu} (h : s.rd fnSeq = s.rd fnAckseq) : Ordered (.rest s) := by
  constructor
  · exact Or.inl h
  · intro j hj
    cases hj
  · intro q r rest hd
    cases hd
  · trivial
  · intro r hr
    cases hr

/-! ### `mbTransact` as a run -/

/-- The register stores of `MB_TRANSACT`. -/
def storeAll (l : List (ℕ × ℕ)) (s : Cpu) : Cpu := l.foldl (fun t p => t.st p.1 p.2) s

theorem mbRequest_eq (s : Cpu) : mbRequest s = (storeAll (registerStores s) s).st fnSeq
    (nextSeq ((storeAll (registerStores s) s).rd fnAckseq)) := by
  simp [mbRequest, storeAll, registerStores]

theorem mbAnswer_eq (r : Reply) (s : Cpu) : mbAnswer r s = complete (s.rd fnSeq) r s := by
  have hlen : (r.rx.take 512).length ≤ 512 := List.length_take_le _ _
  have hseq : (s.pokeAll fnRx (r.rx.take 512)).rd fnSeq = s.rd fnSeq :=
    Cpu.rd_pokeAll_of_not _ _ _ _ (by simp only [fnSeq, fnRx]; omega)
  simp [mbAnswer, complete, hseq]

section runs

variable {s : Cpu} {j : Option Job} {d : List (List ℕ × Reply)} {l : List Return}

theorem run_puts (todo : List (ℕ × ℕ)) (s : Cpu) :
    Desk.Run ⟨.staging todo, s, j, d, l⟩ ⟨.staging [], storeAll todo s, j, d, l⟩ := by
  induction todo generalizing s with
  | nil => exact .refl
  | cons p todo ih => exact .head (.put p.1 p.2 todo) (ih _)

theorem run_polls (t : Ticket) (q n : ℕ) (h : s.rd fnAckseq ≠ q) (k : ℕ) (hk : n + k < 65536) :
    Desk.Run ⟨.polling t q n, s, j, d, l⟩ ⟨.polling t q (n + k), s, j, d, l⟩ := by
  induction k with
  | zero => exact .refl
  | succ k ih => exact .tail (ih (by omega)) (.again t q (n + k) h hk)

/-- What a call from `s` is about when it has read `FN_ACKSEQ`. -/
def ticketOf (s : Cpu) (j : Option Job) (d : List (List ℕ × Reply)) : Ticket :=
  ⟨staged (storeAll (registerStores s) s), j.map Job.request, d.length⟩

/-- The call up to its poll loop. -/
theorem run_request (s : Cpu) (j : Option Job) (d : List (List ℕ × Reply)) (l : List Return) :
    Desk.Run ⟨.away, s, j, d, l⟩
      ⟨.polling (ticketOf s j d) (nextSeq ((storeAll (registerStores s) s).rd fnAckseq)) 0,
        mbRequest s, j, d, l⟩ := by
  rw [mbRequest_eq]
  exact .tail (.tail (.head .call (run_puts _ s)) .number) (.ring _ _)

variable (s) in
theorem rd_mbRequest : (mbRequest s).rd fnAckseq = s.rd fnAckseq ∧
    (storeAll (registerStores s) s).rd fnAckseq = s.rd fnAckseq ∧
    (mbRequest s).rd fnSeq = nextSeq (s.rd fnAckseq) ∧
    staged (mbRequest s) = staged (storeAll (registerStores s) s) := by
  have hack : (storeAll (registerStores s) s).rd fnAckseq = s.rd fnAckseq := by
    simp [storeAll, registerStores]
  have hlt := nextSeq_lt (s.rd fnAckseq)
  rw [mbRequest_eq, hack]
  generalize storeAll (registerStores s) s = u at hack
  refine ⟨by rw [Cpu.rd_st, if_neg (by decide), hack], rfl, ?_, ?_⟩
  · rw [Cpu.rd_st, if_pos rfl, cellBits_cart (by decide) (by decide)]
    exact Nat.mod_eq_of_lt hlt
  · refine staged_congr fun a ha => ?_
    rw [mem_requestRegs] at ha
    rw [Cpu.rd_st, if_neg (by simp only [fnSeq]; omega)]

variable (s) in
theorem ack_ne_mbRequest : (mbRequest s).rd fnAckseq ≠
    nextSeq ((storeAll (registerStores s) s).rd fnAckseq) := by
  obtain ⟨h1, h2, -, -⟩ := rd_mbRequest s
  rw [h1, h2]
  exact Ne.symm (nextSeq_ne _ (s.rd_lt_256 (by decide)))

/-- A call that the peripheral answers at its own pace is `mbTransact` with that answer. -/
theorem run_mbTransact (s : Cpu) (d : List (List ℕ × Reply)) (l : List Return) {r : Reply}
    (hr : r.polls < 65536) : Desk.Run ⟨.away, s, none, d, l⟩
      ⟨.away, mbTransact (some r) s, none, (staged (storeAll (registerStores s) s), r) :: d,
        ⟨ticketOf s none d, mbTransact (some r) s,
          (staged (storeAll (registerStores s) s), r) :: d⟩ :: l⟩ := by
  obtain ⟨hack, hack', hseq, hreq⟩ := rd_mbRequest s
  have hne := ack_ne_mbRequest s
  have hpoll := run_polls (j := none) (d := d) (l := l) (ticketOf s none d)
    (nextSeq ((storeAll (registerStores s) s).rd fnAckseq)) 0 hne r.polls (by omega)
  rw [Nat.zero_add] at hpoll
  have hlatch : (mbRequest s).rd fnSeq ≠ (mbRequest s).rd fnAckseq := by
    rw [hseq, hack]
    exact nextSeq_ne _ (s.rd_lt_256 (by decide))
  have hdone : (complete ((mbRequest s).rd fnSeq) r (mbRequest s)).rd fnAckseq =
      nextSeq ((storeAll (registerStores s) s).rd fnAckseq) := by
    rw [rd_fnAckseq_complete (Cpu.rd_lt_256 _ (by decide)), hseq, hack']
  have hend : mbTransact (some r) s =
      mbOutcome (notePolls r.polls (complete ((mbRequest s).rd fnSeq) r (mbRequest s))) := by
    rw [← mbAnswer_eq]
    rfl
  rw [hend, ← hreq]
  exact (((run_request s none d l).trans hpoll).tail (.latch hlatch)).tail (.finish r) |>.tail
    (.acked _ _ _ hdone)

/-- A call whose request the peripheral latches and does not complete in time. -/
theorem run_timedOut (s : Cpu) (d : List (List ℕ × Reply)) (l : List Return) :
    Desk.Run ⟨.away, s, none, d, l⟩
      ⟨.away, mbTransact none s,
        some ⟨staged (storeAll (registerStores s) s), nextSeq (s.rd fnAckseq)⟩, d,
        ⟨ticketOf s none d, mbTransact none s, d⟩ :: l⟩ := by
  obtain ⟨hack, hack', hseq, hreq⟩ := rd_mbRequest s
  have hlatch : (mbRequest s).rd fnSeq ≠ (mbRequest s).rd fnAckseq := by
    rw [hseq, hack]
    exact nextSeq_ne _ (s.rd_lt_256 (by decide))
  have hjob := (run_request s none d l).tail (.latch hlatch)
  rw [hseq, hreq] at hjob
  exact (hjob.trans (run_polls _ _ 0 (ack_ne_mbRequest s) 65535 (by decide))).tail
    (.timeout _ _ _ (ack_ne_mbRequest s) rfl)

end runs

/-- **An acknowledgement belongs to the request that was staged** exactly when the peripheral was not
executing another request as the call read `FN_ACKSEQ`: over every run, for every call that returned
with `MB_OK` set. -/
theorem ack_of_own_request {s : Cpu} {d : Desk} (h : s.rd fnSeq = s.rd fnAckseq)
    (hr : Desk.Run (.rest s) d) :
    ∀ r ∈ d.returns, r.cpu.rd mbOk = 1 → (r.Served ↔ r.ticket.Clear) := by
  have hall : Ordered d := by
    induction hr with
    | refl => exact ordered_rest h
    | tail _ hs ih => exact ordered_step ih hs
  exact hall.returns

/-- A console whose memory is all zeros. -/
def zeros : Cpu := ⟨⟨fun _ => 0, zero_lt_cell⟩, ⟨fun _ => 0, 0⟩, [], [], [],
  ⟨0, 0, 0, false, false, fun _ => 0⟩⟩

/-- A request times out and is completed behind that; the next one is answered after three polls. -/
theorem ack_of_own_request_second : ∃ d : Desk, ∃ first second : Return,
    Desk.Run (.rest zeros) d ∧ d.returns = [second, first] ∧ first.cpu.rd mbOk = 0 ∧
      second.cpu.rd mbOk = 1 ∧ second.Served := by
  have hfirst := run_timedOut zeros [] []
  have hlate : (mbTransact none zeros).rd mbOk = 0 := rd_mbOk_timedOut _
  generalize mbTransact none zeros = u at hfirst hlate
  have hdone := hfirst.tail (.finish .done)
  generalize complete _ Reply.done u = v at hdone
  have hok := rd_mbOk_mbTransact (r := ⟨3, 6, 0, []⟩) (s := v) rfl
  have hrun := hdone.trans (run_mbTransact v _ _ (r := ⟨3, 6, 0, []⟩) (by decide))
  generalize mbTransact (some ⟨3, 6, 0, []⟩) v = w at hok hrun
  refine ⟨_, _, _, hrun, rfl, hlate, hok, ?_⟩
  refine (ack_of_own_request rfl hrun _ List.mem_cons_self hok).mpr fun q hq => ?_
  -- Nothing was being executed when the second call read the acknowledgement.
  exact absurd hq (Option.some_ne_none q).symm

theorem staged_inj {s t : Cpu} (h : staged t = staged s) {a : ℕ} (ha : a ∈ requestRegs) :
    t.rd a = s.rd a :=
  List.map_inj_left.1 h a ha

theorem rd_fnCmd_storeAll (s : Cpu) : (storeAll (registerStores s) s).rd fnCmd = s.rd mbCmd := by
  have hlt : s.rd mbCmd < 256 := s.rd_lt_256 (by decide)
  simpa [storeAll, registerStores, cellBits] using hlt

/-- The call that comes after one that timed out, its command byte being another: if the peripheral
completes the first request only now, its acknowledgement is taken for the second call's. -/
theorem run_late (s : Cpu) {c : ℕ} (hlt : c < 256) (hne : c ≠ s.rd mbCmd) :
    ∃ t : Cpu, ∃ tk : Ticket, ∃ q : List ℕ, ∃ l : List Return,
      Desk.Run (.rest s) ⟨.away, t, none, [(q, .done)], ⟨tk, t, [(q, .done)]⟩ :: l⟩ ∧
        t.rd mbOk = 1 ∧ tk.request ≠ q := by
  have hfirst := run_timedOut s [] []
  have hack : (mbTransact none s).rd fnAckseq = s.rd fnAckseq :=
    ((local_timedOut (mbRequest s)).rd _ (by decide)).trans (rd_mbRequest s).1
  generalize mbTransact none s = u at hfirst hack
  generalize (⟨ticketOf s none [], u, []⟩ : Return) = back at hfirst
  have hstore := hfirst.tail (.store mbCmd c (by decide) (by decide))
  obtain ⟨hvack, hvack', -, -⟩ := rd_mbRequest (u.st mbCmd c)
  rw [Cpu.rd_st, if_neg (by decide), hack] at hvack hvack'
  have hcmd := rd_fnCmd_storeAll (u.st mbCmd c)
  rw [Cpu.rd_st, if_pos rfl, cellBits_cart (by decide) (by decide)] at hcmd
  have hcall := hstore.trans (run_request (u.st mbCmd c) _ _ _)
  have hfin := hcall.tail (.finish .done)
  have hdone : (complete (nextSeq (s.rd fnAckseq)) .done (mbRequest (u.st mbCmd c))).rd fnAckseq =
      nextSeq ((storeAll (registerStores (u.st mbCmd c)) (u.st mbCmd c)).rd fnAckseq) := by
    rw [rd_fnAckseq_complete (nextSeq_lt _), hvack']
  have hreply : (notePolls 0 (complete (nextSeq (s.rd fnAckseq)) .done
      (mbRequest (u.st mbCmd c)))).rd fnReplyCmd = 6 := by
    unfold notePolls
    split <;> simp [complete, Reply.done, cellBits]
  have hend := hfin.tail (.acked _ _ _ hdone)
  have hok : (mbOutcome (notePolls 0 (complete (nextSeq (s.rd fnAckseq)) .done
      (mbRequest (u.st mbCmd c))))).rd mbOk = 1 := by
    rw [mbOutcome, if_pos hreply, Cpu.rd_st, if_pos rfl]
    decide
  refine ⟨_, _, _, _, hend, hok, fun heq => hne ?_⟩
  have := staged_inj heq (a := fnCmd) (by decide)
  rw [hcmd, rd_fnCmd_storeAll] at this
  rw [← this]
  exact (Nat.mod_eq_of_lt hlt).symm

/-- About to call `MB_TRANSACT` for a `NET_READ`. -/
def reading : Cpu := (zeros.st mbDev 0x71).st mbCmd 0x52

/-- A `NET_READ` that timed out is still executed when the next call numbers its `NET_WRITE`: the
acknowledgement of the first is taken for the second's. -/
theorem late_ack : ∃ d : Desk, reading.rd fnSeq = reading.rd fnAckseq ∧
    Desk.Run (.rest reading) d ∧ ∃ r ∈ d.returns, r.cpu.rd mbOk = 1 ∧ ¬ r.Served := by
  have hcmd : reading.rd mbCmd = 0x52 := by
    rw [reading, Cpu.rd_st, if_pos rfl]
    decide
  obtain ⟨t, tk, q, l, hrun, hok, hne⟩ := run_late reading (c := 0x57) (by decide)
    (by rw [hcmd]; decide)
  refine ⟨_, rfl, hrun, _, List.mem_cons_self, hok, fun h => ?_⟩
  obtain ⟨reply, rest, hd, -⟩ := h
  simp only [List.cons.injEq, Prod.mk.injEq] at hd
  exact hne hd.1.1.symm

end IntvNetplay.Console
