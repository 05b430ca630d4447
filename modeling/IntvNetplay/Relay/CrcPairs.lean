import IntvNetplay.Relay.Crc

/-!
# The checksum comparator of a v1 match (`log_crc_v1` of `server/c/src/intv-relay.c`)

Each of the two clients of a match has a log of the checksums it has reported, 64 ticks deep with one
spare slot.  Whoever reports second for a tick finds the partner's entry, takes it out and compares; who
reports first records, and the lowest tick goes when the log has outgrown its depth.

The run of a match keeps what was reported, newest first, with what became of it; `lastSince` reads from
it the value a client has reported last for a tick since the last verdict on that tick.
-/

namespace IntvNetplay.Relay

open IntvNetplay.Machine

/-- `CRC_TICKS`. -/
@[simp] abbrev crcTicks : ℕ := 64

/-- `crclog_t`. -/
structure CrcLog where
  inUse : Bool
  tick : ℕ
  crc : ℕ
  deriving DecidableEq

/-- A log as a dictionary from ticks to checksums. -/
def crclogs : Flagged CrcLog ℕ ℕ := ⟨CrcLog.inUse, CrcLog.tick, CrcLog.crc⟩

/-- What `client_t` keeps for the comparator. -/
structure V1Client where
  crclog : List CrcLog
  ncrclog : ℤ
  /-- A `uint32_t`. -/
  crcOk : ℕ

/-- What a call has said. -/
inductive Pairing where
  /-- `CRC MISMATCH`: the reporter's value and the partner's. -/
  | mismatch (tick own peer : ℕ)
  /-- An agreed pair, and the counter after it; every fourth is logged. -/
  | agreed (tick crc count : ℕ)
  deriving DecidableEq

/-- What a call does: the two clients after it, what it says, and whether it took the return for a log
without a free slot. -/
structure V1Call where
  own : V1Client
  peer : V1Client
  verdict : Option Pairing
  noSlot : Bool

/-- The eviction behind the insert. -/
def evictLog (c : V1Client) : V1Client :=
  if c.ncrclog ≤ crcTicks then c
  else match crclogs.lowest c.crclog with
    | none => c
    | some i => { c with
        crclog := c.crclog.modify i fun e => { e with inUse := false }
        ncrclog := c.ncrclog - 1 }

/-- The slot of a tick, claimed where there is none. -/
def claimLog (tick : ℕ) (c : V1Client) : Option (ℕ × V1Client) :=
  match crclogs.place c.crclog tick with
  | some i => some (i, c)
  | none =>
    (crclogs.free c.crclog).map fun i => (i, { c with
      crclog := c.crclog.modify i fun e => { e with inUse := true, tick := tick }
      ncrclog := c.ncrclog + 1 })

/-- `log_crc_v1` with the partner found: the reporter's client is `c`, the partner's `p`. -/
def comparePair (tick crc : ℕ) (c p : V1Client) : V1Call :=
  match crclogs.place p.crclog tick with
  | some i =>
    let e := p.crclog.getD i ⟨false, 0, 0⟩
    let p := { p with
      crclog := p.crclog.modify i fun e => { e with inUse := false }
      ncrclog := p.ncrclog - 1 }
    if e.crc ≠ crc then ⟨c, p, some (.mismatch tick crc e.crc), false⟩
    else
      let c := { c with crcOk := (c.crcOk + 1) % 2 ^ 32 }
      let p := { p with crcOk := (p.crcOk + 1) % 2 ^ 32 }
      ⟨c, p, some (.agreed tick crc c.crcOk), false⟩
  | none =>
    match claimLog tick c with
    | none => ⟨c, p, none, true⟩
    | some (i, c) =>
      ⟨evictLog { c with crclog := c.crclog.modify i fun e => { e with crc := crc } }, p, none, false⟩

/-- `start_pair`: the logs are zeroed. -/
def V1Client.fresh : V1Client := ⟨List.replicate (crcTicks + 1) ⟨false, 0, 0⟩, 0, 0⟩

/-! ### A match -/

/-- A payload of four bytes, from the host (`false`) or the guest (`true`). -/
structure V1Report where
  who : Bool
  payload : Fin 4 → UInt8

def V1Report.tick (r : V1Report) : ℕ := word (r.payload 0).toNat (r.payload 1).toNat

def V1Report.crc (r : V1Report) : ℕ := word (r.payload 2).toNat (r.payload 3).toNat

/-- The last member of the room that is not the reporter. -/
def partnerOf (ci : Bool) : Option Bool :=
  [false, true].foldl (fun partner m => if m ≠ ci then some m else partner) none

/-- A report and what became of it. -/
structure Said where
  report : V1Report
  verdict : Option Pairing

structure V1Match where
  client : Bool → V1Client
  /-- Newest first. -/
  said : List Said
  /-- A call took the return for a log without a free slot. -/
  noSlot : Bool

/-- `log_crc_v1`. -/
def logCrcV1 (r : V1Report) (m : V1Match) : V1Match :=
  match partnerOf r.who with
  | none => { m with said := ⟨r, none⟩ :: m.said }
  | some w =>
    let k := comparePair r.tick r.crc (m.client r.who) (m.client w)
    { client := fun x => if x = r.who then k.own else if x = w then k.peer else m.client x
      said := ⟨r, k.verdict⟩ :: m.said
      noSlot := m.noSlot || k.noSlot }

/-- A match from `start_pair` on. -/
def v1Match (reports : List V1Report) : V1Match :=
  reports.foldl (fun m r => logCrcV1 r m) ⟨fun _ => .fresh, [], false⟩

/-- The value a client has reported last for a tick since the last verdict on it. -/
def lastSince (w : Bool) (t : ℕ) : List Said → Option ℕ
  | [] => none
  | e :: said =>
    if e.report.tick ≠ t then lastSince w t said
    else if e.verdict.isSome then none
    else if e.report.who = w then some e.report.crc
    else lastSince w t said

/-- What a client has pending. -/
def V1Client.pending (c : V1Client) : Finmap fun _ : ℕ => ℕ := crclogs.dict c.crclog

/-- A log between two calls. -/
structure V1Client.Tidy (c : V1Client) : Prop where
  length : c.crclog.length = crcTicks + 1
  sole : crclogs.Sole c.crclog
  count : c.ncrclog = crclogs.size c.crclog
  le : crclogs.size c.crclog ≤ crcTicks

/-! ### One call -/

section call

variable {tick crc : ℕ} {c p : V1Client}

/-- A log behind the insert and in front of the eviction. -/
structure V1Client.Filled (c : V1Client) : Prop where
  length : c.crclog.length = crcTicks + 1
  sole : crclogs.Sole c.crclog
  count : c.ncrclog = crclogs.size c.crclog
  le : crclogs.size c.crclog ≤ crcTicks + 1

theorem tidy_fresh : V1Client.fresh.Tidy := by
  refine ⟨List.length_replicate, ?_, ?_, ?_⟩
  · refine List.pairwise_replicate.mpr (.inr fun h => absurd h ?_)
    exact Bool.false_ne_true
  · decide
  · decide

theorem pending_fresh : V1Client.fresh.pending = ∅ := by decide

/-- Taking an entry out of a log. -/
theorem pop_spec {i : ℕ} {e : CrcLog} {n : ℕ} (hs : crclogs.Sole c.crclog)
    (hl : c.crclog.length = crcTicks + 1) (hc : c.ncrclog = crclogs.size c.crclog)
    (hn : crclogs.size c.crclog ≤ n + 1) (hi : c.crclog[i]? = some e) (he : e.inUse = true) :
    let c' : V1Client := { c with
      crclog := c.crclog.modify i fun e => { e with inUse := false }
      ncrclog := c.ncrclog - 1 }
    (c'.crclog.length = crcTicks + 1 ∧ crclogs.Sole c'.crclog ∧ c'.ncrclog = crclogs.size c'.crclog ∧
      crclogs.size c'.crclog ≤ n) ∧ c'.pending = c.pending.erase e.tick := by
  have hmod : c.crclog.modify i (fun e => { e with inUse := false }) =
      c.crclog.set i { e with inUse := false } := Flagged.modify_eq_set hi
  have hsize := Flagged.size_set (F := crclogs) (b := { e with inUse := false }) hi
  have hu : (crclogs.used e).toNat = 1 := by
    rw [show crclogs.used e = true from he]
    rfl
  have hu' : (crclogs.used { e with inUse := false }).toNat = 0 := rfl
  have hclear := Flagged.dict_clear (b := { e with inUse := false }) hs hi he rfl
  dsimp only
  rw [hmod]
  refine ⟨⟨?_, Flagged.sole_clear hs hi rfl, ?_, ?_⟩, hclear⟩
  · rw [List.length_set, hl]
  · rw [hc]
    omega
  · omega

/-- What is left of a dictionary in a log: all of it, or all but the lowest tick. -/
def trimmed (d : Dict ℕ) : Dict ℕ := if crcTicks < d.keys.card then popMin d else d

theorem lookup_trimmed {d : Dict ℕ} {t v : ℕ} (h : (trimmed d).lookup t = some v) :
    d.lookup t = some v := by
  unfold trimmed at h
  split_ifs at h
  · unfold popMin at h
    split_ifs at h with hne
    · by_cases ht : t = d.keys.min' hne
      · rw [← ht, Finmap.lookup_erase] at h
        exact absurd h (Option.some_ne_none v).symm
      · rwa [Finmap.lookup_erase_ne ht] at h
    · exact h
  · exact h

/-- The eviction brings a log back to its depth. -/
theorem evictLog_spec (h : c.Filled) : (evictLog c).Tidy ∧ (evictLog c).crcOk = c.crcOk ∧
    (evictLog c).pending = trimmed c.pending := by
  have hcount := h.count
  have hcard : c.pending.keys.card = crclogs.size c.crclog := Flagged.card_dict h.sole
  unfold evictLog
  split_ifs with hle
  · rw [hcount] at hle
    simp only [crcTicks] at hle
    refine ⟨⟨h.length, h.sole, h.count, ?_⟩, rfl, ?_⟩
    · simp only [crcTicks]
      omega
    · rw [trimmed, if_neg (by rw [hcard]; simp only [crcTicks]; omega)]
  · have hpos : 0 < crclogs.size c.crclog := by
      rw [hcount] at hle
      simp only [crcTicks] at hle
      omega
    obtain ⟨i, e, hlow, hi, he, hmin⟩ := Flagged.lowest_of_pos h.sole hpos
    obtain ⟨⟨h1, h2, h3, h4⟩, hpend⟩ := pop_spec h.sole h.length h.count h.le hi he
    rw [hlow]
    refine ⟨⟨h1, h2, h3, h4⟩, rfl, hpend.trans ?_⟩
    rw [hcount] at hle
    rw [trimmed, if_pos (by rw [hcard]; simp only [crcTicks] at hle ⊢; omega)]
    exact (popMin_of_least ((Flagged.mem_dict h.sole).mpr ⟨i, e, hi, he, rfl⟩) hmin).symm

/-- The insert or replace. -/
theorem claimLog_spec (h : c.Tidy) : ∃ i c', claimLog tick c = some (i, c') ∧
    let c'' : V1Client := { c' with crclog := c'.crclog.modify i fun e => { e with crc := crc } }
    c''.Filled ∧ c''.crcOk = c.crcOk ∧ c''.pending = c.pending.insert tick crc := by
  unfold claimLog
  cases hplace : crclogs.place c.crclog tick with
  | some i =>
    obtain ⟨e, hi, he, hk⟩ := Flagged.place_eq_some hplace
    have hmod : c.crclog.modify i (fun e => { e with crc := crc }) =
        c.crclog.set i { e with crc := crc } := Flagged.modify_eq_set hi
    have hsize := Flagged.size_set (F := crclogs) (b := { e with crc := crc }) hi
    have honly : crclogs.Only c.crclog i e.tick := Flagged.only_of_used h.sole hi he
    have hput : crclogs.dict (c.crclog.set i { e with crc := crc }) =
        (crclogs.dict c.crclog).insert e.tick crc :=
      Flagged.dict_put (b := (⟨e.inUse, e.tick, crc⟩ : CrcLog)) h.sole hi (fun _ => rfl) honly he
    refine ⟨i, c, rfl, ?_⟩
    dsimp only
    rw [hmod]
    have hsame : crclogs.size (c.crclog.set i { e with crc := crc }) = crclogs.size c.crclog :=
      Nat.add_right_cancel hsize
    refine ⟨⟨?_, Flagged.sole_put h.sole hi honly, ?_, ?_⟩, rfl, ?_⟩
    · rw [List.length_set, h.length]
    · rw [hsame, h.count]
    · rw [hsame]
      exact h.le.trans (Nat.le_succ _)
    · rw [show tick = e.tick from hk.symm]
      exact hput
  | none =>
    have hnot := (Flagged.place_eq_none h.sole).mp hplace
    have hlt : crclogs.size c.crclog < c.crclog.length := by
      rw [h.length]
      exact Nat.lt_succ_of_le h.le
    obtain ⟨i, hfree⟩ := Option.ne_none_iff_exists'.mp (Flagged.free_ne_none hlt)
    obtain ⟨e, hi, he⟩ := Flagged.free_eq_some hfree
    have hlen : i < c.crclog.length := (List.getElem?_eq_some_iff.mp hi).1
    have hmod : (c.crclog.modify i fun e => { e with inUse := true, tick := tick }).modify i
        (fun e => { e with crc := crc }) = c.crclog.set i ⟨true, tick, crc⟩ := by
      rw [Flagged.modify_eq_set hi, Flagged.modify_eq_set (List.getElem?_set_self hlen),
        List.set_set]
    have hsize := Flagged.size_set (F := crclogs) (b := ⟨true, tick, crc⟩) hi
    have hu : (crclogs.used e).toNat = 0 := by
      rw [show crclogs.used e = false from he]
      rfl
    have hu' : (crclogs.used ⟨true, tick, crc⟩).toNat = 1 := rfl
    have honly : crclogs.Only c.crclog i (crclogs.key ⟨true, tick, crc⟩) :=
      Flagged.only_of_not_mem h.sole hnot
    have hput := Flagged.dict_put (b := ⟨true, tick, crc⟩) h.sole hi
      (fun hu => absurd (he.symm.trans hu) Bool.false_ne_true) honly rfl
    have hle := h.le
    rw [hfree]
    refine ⟨i, _, rfl, ?_⟩
    dsimp only
    rw [hmod]
    refine ⟨⟨?_, Flagged.sole_put h.sole hi honly, ?_, ?_⟩, rfl, hput⟩
    · rw [List.length_set, h.length]
    · have hcount := h.count
      change c.ncrclog + 1 = (crclogs.size (c.crclog.set i ⟨true, tick, crc⟩) : ℤ)
      omega
    · change crclogs.size (c.crclog.set i ⟨true, tick, crc⟩) ≤ crcTicks + 1
      omega

/-- A call that finds the partner's entry: it takes the entry out and says how it compares. -/
structure Consumed (tick crc x : ℕ) (c p : V1Client) (k : V1Call) : Prop where
  found : p.pending.lookup tick = some x
  verdict : k.verdict = some (if x ≠ crc then .mismatch tick crc x
    else .agreed tick crc k.own.crcOk)
  own : k.own.pending = c.pending
  peer : k.peer.pending = p.pending.erase tick

/-- A call that does not: it records the reporter's own value. -/
structure Recorded (tick crc : ℕ) (c p : V1Client) (k : V1Call) : Prop where
  missing : tick ∉ p.pending
  verdict : k.verdict = none
  peer : k.peer = p
  own : k.own.pending = trimmed (c.pending.insert tick crc)

/-- What a call can do. -/
theorem comparePair_spec (hc : c.Tidy) (hp : p.Tidy) (hok : c.crcOk = p.crcOk) :
    let k := comparePair tick crc c p
    ((∃ x, Consumed tick crc x c p k) ∨ Recorded tick crc c p k) ∧ k.own.Tidy ∧ k.peer.Tidy ∧
      k.own.crcOk = k.peer.crcOk ∧ k.noSlot = false := by
  dsimp only
  unfold comparePair
  cases hplace : crclogs.place p.crclog tick with
  | some i =>
    obtain ⟨e, hi, he, hk⟩ := Flagged.place_eq_some hplace
    have hget : p.crclog.getD i ⟨false, 0, 0⟩ = e := by
      rw [List.getD_eq_getElem?_getD, hi, Option.getD_some]
    have hlook : p.pending.lookup tick = some e.crc :=
      (Flagged.lookup_eq_some hp.sole).mpr ⟨i, e, hi, he, hk, rfl⟩
    obtain ⟨⟨h1, h2, h3, h4⟩, hpend⟩ :=
      pop_spec hp.sole hp.length hp.count (hp.le.trans (Nat.le_succ _)) hi he
    rw [show e.tick = tick from hk] at hpend
    dsimp only
    rw [hget]
    split_ifs with hcmp
    · refine ⟨.inl ⟨e.crc, hlook, ?_, rfl, hpend⟩, hc, ⟨h1, h2, h3, h4⟩, hok, rfl⟩
      rw [if_pos hcmp]
    · refine ⟨.inl ⟨e.crc, hlook, ?_, rfl, hpend⟩, ⟨hc.length, hc.sole, hc.count, hc.le⟩,
        ⟨h1, h2, h3, h4⟩, ?_, rfl⟩
      · rw [if_neg hcmp]
      · change (c.crcOk + 1) % 2 ^ 32 = (p.crcOk + 1) % 2 ^ 32
        rw [hok]
  | none =>
    have hnot := (Flagged.place_eq_none hp.sole).mp hplace
    obtain ⟨i, c', hclaim, hfilled, hcok, hpend⟩ := @claimLog_spec tick crc c hc
    obtain ⟨htidy, heok, hsub⟩ := evictLog_spec hfilled
    dsimp only
    rw [hclaim]
    refine ⟨.inr ⟨hnot, rfl, rfl, ?_⟩, htidy, hp, heok.trans (hcok.trans hok), rfl⟩
    rw [← hpend]
    exact hsub

end call

/-! ### A match -/

section run

variable {m : V1Match} {r : V1Report}

theorem partnerOf_eq (ci : Bool) : partnerOf ci = some (!ci) := by
  cases ci <;> rfl

/-- What holds between two calls. -/
structure V1Inv (m : V1Match) : Prop where
  tidy : ∀ w, (m.client w).Tidy
  apart : ∀ w t, t ∈ (m.client w).pending → t ∉ (m.client (!w)).pending
  counters : (m.client false).crcOk = (m.client true).crcOk
  heard : ∀ w t v, (m.client w).pending.lookup t = some v → lastSince w t m.said = some v
  slots : m.noSlot = false

/-- The call in a match. -/
def callOf (r : V1Report) (m : V1Match) : V1Call :=
  comparePair r.tick r.crc (m.client r.who) (m.client (!r.who))

theorem client_own : (logCrcV1 r m).client r.who = (callOf r m).own := by
  rw [logCrcV1, partnerOf_eq]
  exact if_pos rfl

theorem client_peer : (logCrcV1 r m).client (!r.who) = (callOf r m).peer := by
  rw [logCrcV1, partnerOf_eq]
  dsimp only
  rw [if_neg (by cases r.who <;> decide), if_pos rfl]
  rfl

theorem said_logCrcV1 : (logCrcV1 r m).said = ⟨r, (callOf r m).verdict⟩ :: m.said := by
  rw [logCrcV1, partnerOf_eq]
  rfl

theorem noSlot_logCrcV1 : (logCrcV1 r m).noSlot = (m.noSlot || (callOf r m).noSlot) := by
  rw [logCrcV1, partnerOf_eq]
  rfl

theorem V1Inv.counters_eq (h : V1Inv m) (w : Bool) :
    (m.client w).crcOk = (m.client (!w)).crcOk := by
  cases w with
  | false => exact h.counters
  | true => exact h.counters.symm

/-- A property of both clients, from the reporter's and the partner's. -/
theorem both_clients {P : Bool → Prop} (w : Bool) (h : P w) (h' : P (!w)) : ∀ x, P x := by
  intro x
  by_cases hx : x = w
  · rw [hx]
    exact h
  · rw [Bool.eq_not_of_ne hx]
    exact h'

theorem lastSince_ne {w : Bool} {t : ℕ} {v : Option Pairing} {said : List Said} (h : r.tick ≠ t) :
    lastSince w t (⟨r, v⟩ :: said) = lastSince w t said := by
  rw [lastSince, if_pos h]

theorem lastSince_own {t : ℕ} {said : List Said} (h : r.tick = t) :
    lastSince r.who t (⟨r, none⟩ :: said) = some r.crc := by
  have hsome : (⟨r, none⟩ : Said).verdict.isSome = false := rfl
  rw [lastSince, if_neg (not_not.mpr h), hsome, if_neg Bool.false_ne_true, if_pos rfl]

/-- No tick is pending on both sides behind a call. -/
theorem apart_call (h : V1Inv m) {k : V1Call}
    (hk : (∃ x, Consumed r.tick r.crc x (m.client r.who) (m.client (!r.who)) k) ∨
      Recorded r.tick r.crc (m.client r.who) (m.client (!r.who)) k) (t : ℕ)
    (hown : t ∈ k.own.pending) : t ∉ k.peer.pending := by
  rcases hk with ⟨x, hk⟩ | hk
  · rw [hk.own] at hown
    rw [hk.peer, Finmap.mem_erase]
    exact fun hpeer => h.apart r.who t hown hpeer.2
  · obtain ⟨v, hv⟩ := Finmap.mem_iff.mp hown
    rw [hk.own] at hv
    have hmem := Finmap.mem_of_lookup_eq_some (lookup_trimmed hv)
    rw [hk.peer]
    rcases Finmap.mem_insert.mp hmem with rfl | hold
    · exact hk.missing
    · exact h.apart r.who t hold

/-- What is pending behind a call was reported last. -/
theorem heard_call (h : V1Inv m) {k : V1Call}
    (hk : (∃ x, Consumed r.tick r.crc x (m.client r.who) (m.client (!r.who)) k) ∨
      Recorded r.tick r.crc (m.client r.who) (m.client (!r.who)) k) (t v : ℕ) :
    (k.own.pending.lookup t = some v → lastSince r.who t (⟨r, k.verdict⟩ :: m.said) = some v) ∧
      (k.peer.pending.lookup t = some v →
        lastSince (!r.who) t (⟨r, k.verdict⟩ :: m.said) = some v) := by
  rcases hk with ⟨x, hk⟩ | hk
  · have hfound := Finmap.mem_of_lookup_eq_some hk.found
    rw [hk.own, hk.peer]
    constructor
    · intro hv
      have hne : r.tick ≠ t := by
        rintro rfl
        exact h.apart r.who _ (Finmap.mem_of_lookup_eq_some hv) hfound
      rw [lastSince_ne hne]
      exact h.heard _ _ _ hv
    · intro hv
      have hne : r.tick ≠ t := by
        rintro rfl
        rw [Finmap.lookup_erase] at hv
        exact absurd hv (Option.some_ne_none v).symm
      rw [Finmap.lookup_erase_ne (Ne.symm hne)] at hv
      rw [lastSince_ne hne]
      exact h.heard _ _ _ hv
  · rw [hk.verdict, hk.peer]
    constructor
    · intro hv
      rw [hk.own] at hv
      have hins := lookup_trimmed hv
      by_cases ht : r.tick = t
      · rw [← ht, Finmap.lookup_insert] at hins
        rw [lastSince_own ht, hins]
      · rw [Finmap.lookup_insert_of_ne _ (Ne.symm ht)] at hins
        rw [lastSince_ne ht]
        exact h.heard _ _ _ hins
    · intro hv
      have hne : r.tick ≠ t := by
        rintro rfl
        exact hk.missing (Finmap.mem_of_lookup_eq_some hv)
      rw [lastSince_ne hne]
      exact h.heard _ _ _ hv

theorem callOf_spec (h : V1Inv m) (r : V1Report) :
    ((∃ x, Consumed r.tick r.crc x (m.client r.who) (m.client (!r.who)) (callOf r m)) ∨
      Recorded r.tick r.crc (m.client r.who) (m.client (!r.who)) (callOf r m)) ∧
      (callOf r m).own.Tidy ∧ (callOf r m).peer.Tidy ∧
      (callOf r m).own.crcOk = (callOf r m).peer.crcOk ∧ (callOf r m).noSlot = false :=
  comparePair_spec (h.tidy r.who) (h.tidy (!r.who)) (h.counters_eq r.who)

theorem v1Inv_step (h : V1Inv m) : V1Inv (logCrcV1 r m) := by
  obtain ⟨hk, htidy, htidy', hok, hslot⟩ := callOf_spec h r
  refine ⟨?_, ?_, ?_, ?_, ?_⟩
  · refine both_clients r.who ?_ ?_
    · rwa [client_own]
    · rwa [client_peer]
  · refine both_clients r.who ?_ ?_
    · rw [client_own, client_peer]
      exact apart_call h hk
    · rw [Bool.not_not, client_own, client_peer]
      exact fun t hpeer hown => apart_call h hk t hown hpeer
  · have hall : ∀ w, ((logCrcV1 r m).client w).crcOk = ((logCrcV1 r m).client (!w)).crcOk := by
      refine both_clients r.who ?_ ?_
      · rwa [client_own, client_peer]
      · rw [Bool.not_not, client_own, client_peer]
        exact hok.symm
    exact hall false
  · rw [said_logCrcV1]
    refine both_clients r.who ?_ ?_
    · rw [client_own]
      exact fun t v => (heard_call h hk t v).1
    · rw [client_peer]
      exact fun t v => (heard_call h hk t v).2
  · rw [noSlot_logCrcV1, h.slots, hslot]
    rfl

theorem v1Inv_start : V1Inv ⟨fun _ => .fresh, [], false⟩ := by
  refine ⟨fun _ => tidy_fresh, fun w t ht => ?_, rfl, fun w t v hv => ?_, rfl⟩
  · rw [pending_fresh] at ht
    exact absurd ht Finmap.notMem_empty
  · rw [pending_fresh, Finmap.lookup_empty] at hv
    exact absurd hv (Option.some_ne_none v).symm

theorem v1Inv_run (reports : List V1Report) : V1Inv (v1Match reports) := by
  induction reports using List.reverseRecOn with
  | nil => exact v1Inv_start
  | append_singleton reports r ih =>
    rw [v1Match, List.foldl_append]
    exact v1Inv_step ih

end run

/-- A verdict takes exactly one pending report, the partner's for the tick, and compares with it; that
report is the last value the partner has reported for the tick since the last verdict on it. -/
structure Pairwise (r : V1Report) (v : Pairing) (m m' : V1Match) (x : ℕ) : Prop where
  pending : (m.client (!r.who)).pending.lookup r.tick = some x
  last : lastSince (!r.who) r.tick m.said = some x
  compared : v = if x ≠ r.crc then .mismatch r.tick r.crc x
    else .agreed r.tick r.crc (m'.client r.who).crcOk
  consumed : (m'.client (!r.who)).pending = (m.client (!r.who)).pending.erase r.tick
  kept : (m'.client r.who).pending = (m.client r.who).pending

/-- A report without a verdict enters its client's log, of which the lowest tick goes when it has
outgrown its depth; the partner's stays. -/
structure Unmatched (r : V1Report) (m m' : V1Match) : Prop where
  own : (m'.client r.who).pending = trimmed ((m.client r.who).pending.insert r.tick r.crc)
  kept : (m'.client (!r.who)).pending = (m.client (!r.who)).pending

/-- **The v1 comparator consumes reports pairwise**, at every moment of every match. -/
theorem pairs_consumed (reports : List V1Report) :
    (∀ t, ¬ (t ∈ ((v1Match reports).client false).pending ∧
      t ∈ ((v1Match reports).client true).pending)) ∧
    (∀ w, crclogs.Sole ((v1Match reports).client w).crclog ∧
      crclogs.size ((v1Match reports).client w).crclog ≤ 64 ∧
      ((v1Match reports).client w).ncrclog = crclogs.size ((v1Match reports).client w).crclog) ∧
    ((v1Match reports).client false).crcOk = ((v1Match reports).client true).crcOk ∧
    (v1Match reports).noSlot = false ∧
    ∀ r, ∃ verdict, (v1Match (reports ++ [r])).said = ⟨r, verdict⟩ :: (v1Match reports).said ∧
      (verdict = none ↔ r.tick ∉ ((v1Match reports).client (!r.who)).pending) ∧
      (verdict = none → Unmatched r (v1Match reports) (v1Match (reports ++ [r]))) ∧
      ∀ v, verdict = some v → ∃ x, Pairwise r v (v1Match reports) (v1Match (reports ++ [r])) x := by
  have h := v1Inv_run reports
  refine ⟨fun t ht => h.apart false t ht.1 ht.2,
    fun w => ⟨(h.tidy w).sole, (h.tidy w).le, (h.tidy w).count⟩, h.counters, h.slots, fun r => ?_⟩
  have hnext : v1Match (reports ++ [r]) = logCrcV1 r (v1Match reports) := by
    rw [v1Match, List.foldl_append]
    rfl
  obtain ⟨hk, -, -, -, -⟩ := callOf_spec h r
  rw [hnext]
  refine ⟨(callOf r (v1Match reports)).verdict, said_logCrcV1, ?_, fun hv => ?_, fun v hv => ?_⟩
  · rcases hk with ⟨x, hk⟩ | hk
    · rw [hk.verdict]
      exact ⟨fun hn => absurd hn (Option.some_ne_none _),
        fun hn => absurd (Finmap.mem_of_lookup_eq_some hk.found) hn⟩
    · exact ⟨fun _ => hk.missing, fun _ => hk.verdict⟩
  · rcases hk with ⟨x, hk⟩ | hk
    · exact absurd (hk.verdict.symm.trans hv) (Option.some_ne_none _)
    · exact ⟨by rw [client_own]; exact hk.own, by rw [client_peer, hk.peer]⟩
  · rcases hk with ⟨x, hk⟩ | hk
    · refine ⟨x, hk.found, h.heard _ _ _ hk.found, ?_, ?_, ?_⟩
      · rw [client_own, ← Option.some.inj (hk.verdict.symm.trans hv)]
      · rw [client_peer]
        exact hk.peer
      · rw [client_own]
        exact hk.own
    · rw [hk.verdict] at hv
      exact absurd hv (Option.some_ne_none v).symm

end IntvNetplay.Relay
