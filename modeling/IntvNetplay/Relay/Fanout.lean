import IntvNetplay.Relay.Seats

/-!
# What is forwarded to whom

The socket of a client takes the frames queued for it, whole and in order.  The frames forwarded to a
client are those that were handled inside a match of a room it was in, from the others there.
-/

namespace IntvNetplay.Relay

/-! ### The socket -/

/-- What was written and what is left to write make up the queued frames. -/
def Streams (c : Client) : Prop := c.written ++ c.tx = c.queued.reverse.flatMap fun q => q.msg.bytes

theorem streams_setClient {r : State} {ci : ℕ} {c : Client} (h : ∀ x, Streams (r.clients x))
    (hc : Streams c) (x : ℕ) : Streams ((r.setClient ci c).clients x) := by
  rw [State.clients_setClient]
  split_ifs
  · exact hc
  · exact h x

theorem streams_queue {r : State} (h : ∀ x, Streams (r.clients x)) (ci : ℕ) (m : Msg)
    (src : Option ℕ) (x : ℕ) : Streams ((r.queue ci m src).clients x) := by
  refine streams_setClient h ?_ x
  rw [Streams, List.reverse_cons, List.flatMap_append, ← h ci, List.append_assoc]
  simp

/-- Queueing and writing keep the streams. -/
theorem passing_streams (S : Setup) : Passing S fun r r' => r.heard <:+ r'.heard ∧
    ((∀ x, Streams (r.clients x)) → ∀ x, Streams (r'.clients x)) where
  trans h h' := ⟨h.1.trans h'.1, h'.2 ∘ h.2⟩
  quiet h := by
    refine ⟨h.heard ▸ List.suffix_refl _, fun hs x => ?_⟩
    have hio := h.io x
    rw [Client.io, Client.io, Prod.mk.injEq, Prod.mk.injEq, Prod.mk.injEq] at hio
    obtain ⟨htx, hqueued, hwritten, -⟩ := hio
    rw [Streams, htx, hqueued, hwritten]
    exact hs x
  queue r ci m _ := ⟨List.suffix_refl _, fun hs => streams_queue hs ci m none⟩
  wrote r ci k := by
    refine ⟨List.suffix_refl _, fun hs => streams_setClient hs ?_⟩
    rw [Streams, List.append_assoc, List.take_append_drop]
    exact hs ci
  fail _ := ⟨List.suffix_refl _, id⟩
  tear _ := ⟨List.suffix_refl _, id⟩
  rob _ := ⟨List.suffix_refl _, id⟩
  snip _ := ⟨List.suffix_refl _, id⟩
  heard h := h.1
  hear r e _ := ⟨List.suffix_cons e _, id⟩
  pass r ci e _ := ⟨List.suffix_refl _, fun hs => streams_queue hs ci e.msg _⟩

theorem streams_run (S : Setup) (es : List Event) (x : ℕ) : Streams ((run S es).st.clients x) := by
  refine ((passing_streams S).foldl (fun ip now r => ?_) es Server.init).2 (fun _ => rfl) x
  rw [(record_accept S ip now r).1]
  refine ⟨List.suffix_refl _, fun hs x => ?_⟩
  obtain heq | heq | ⟨ci, -, hc, -⟩ := accept_cases S ip now r
  · rw [heq]
    exact hs x
  · rw [heq]
    exact hs x
  · rw [hc]
    split_ifs
    · rfl
    · exact hs x

/-! ### The fan-out -/

/-- The frames that were forwarded to a client and from which connection, newest first. -/
def forwarded (c : Client) : List (ℕ × Msg) := c.queued.filterMap fun q => q.src.map fun k => (k, q.msg)

/-- A change that forwards nothing. -/
structure SameFwd (r r' : State) : Prop where
  heard : r'.heard = r.heard
  conns : r'.conns = r.conns
  conn : ∀ c, (r'.clients c).conn = (r.clients c).conn
  fwd : ∀ c, forwarded (r'.clients c) = forwarded (r.clients c)

theorem SameFwd.refl (r : State) : SameFwd r r := ⟨rfl, rfl, fun _ => rfl, fun _ => rfl⟩

theorem SameFwd.trans {r r' r'' : State} (h : SameFwd r r') (h' : SameFwd r' r'') : SameFwd r r'' :=
  ⟨h'.heard.trans h.heard, h'.conns.trans h.conns, fun c => (h'.conn c).trans (h.conn c),
    fun c => (h'.fwd c).trans (h.fwd c)⟩

theorem sameFwd_setClient {r : State} {ci : ℕ} {c : Client} (hconn : c.conn = (r.clients ci).conn)
    (hfwd : forwarded c = forwarded (r.clients ci)) : SameFwd r (r.setClient ci c) := by
  refine ⟨rfl, rfl, fun x => ?_, fun x => ?_⟩
  · rw [State.clients_setClient]
    split_ifs with hx
    · rw [hx, hconn]
    · rfl
  · rw [State.clients_setClient]
    split_ifs with hx
    · rw [hx, hfwd]
    · rfl

theorem closed_sameFwd (S : Setup) : Closed S SameFwd where
  trans h h' := h.trans h'
  quiet h := by
    refine ⟨h.heard, h.conns, fun c => ?_, fun c => ?_⟩
    · exact congrArg (fun x => x.2.2.2) (h.io c)
    · exact congrArg (fun x => x.2.1.filterMap fun q : Queued => q.src.map fun k => (k, q.msg)) (h.io c)
  queue _ _ _ _ := sameFwd_setClient rfl rfl
  wrote _ _ _ := sameFwd_setClient rfl rfl
  fail _ := ⟨rfl, rfl, fun _ => rfl, fun _ => rfl⟩
  tear _ := ⟨rfl, rfl, fun _ => rfl, fun _ => rfl⟩
  rob _ := ⟨rfl, rfl, fun _ => rfl, fun _ => rfl⟩
  snip _ := ⟨rfl, rfl, fun _ => rfl, fun _ => rfl⟩

/-- A frame was forwarded to the clients of a list that survived it. -/
structure Fanned (src : ℕ) (m : Msg) (l : List ℕ) (r r' : State) : Prop where
  heard : r'.heard = r.heard
  conns : r'.conns = r.conns
  conn : ∀ c, (r'.clients c).conn = (r.clients c).conn
  fwd : ∀ y, (r'.clients y).dead = false → forwarded (r'.clients y) =
    if y ∈ l then (src, m) :: forwarded (r.clients y) else forwarded (r.clients y)

theorem SameFwd.fanned {src : ℕ} {m : Msg} {r r' : State} (h : SameFwd r r') :
    Fanned src m [] r r' := ⟨h.heard, h.conns, h.conn, fun y _ => h.fwd y⟩

section fanout

variable {S : Setup} (hS : S.Ok) {r : State} {ci ri src : ℕ} {m : Msg}
include hS

theorem fanned_sendRaw {c : ℕ} (h : Seats S ∅ r) :
    Fanned src m [c] r (sendRaw S (drop S) c m (some src) r) := by
  have hdead : ∀ {r' : State}, SameFwd r r' → (r'.clients c).dead = true → Fanned src m [c] r r' := by
    intro r' hs hd
    refine ⟨hs.heard, hs.conns, hs.conn, fun y hy => ?_⟩
    rw [if_neg]
    · exact hs.fwd y
    · intro hyc
      rw [List.mem_singleton.1 hyc] at hy
      rw [hd] at hy
      cases hy
  rw [sendRaw]
  split_ifs with hd hfull
  · exact hdead (.refl r) hd
  · have hfail : Seats S ∅ r.fail := h.of_rooms (fun _ => rfl) rfl
    exact hdead (((closed_sameFwd S).fail r).trans ((closed_sameFwd S).drop _ _))
      (dead_dropped hS.pair c hfail)
  · have hq := (closed_sameFwd S).flushLoop (D := drop S) ((closed_sameFwd S).drop) c
      ((r.queue c m (some src)).clients c).tx.length (r.queue c m (some src))
    refine ⟨hq.heard, hq.conns, fun x => (hq.conn x).trans ?_, fun y _ => (hq.fwd y).trans ?_⟩
    · rw [State.queue, State.clients_setClient]
      split_ifs with hx
      · rw [hx]
      · rfl
    · rw [State.queue, State.clients_setClient]
      by_cases hy : y = c
      · rw [if_pos hy, if_pos (List.mem_singleton.2 hy), hy]
        rfl
      · rw [if_neg hy, if_neg fun hm => hy (List.mem_singleton.1 hm)]

theorem fanned_fanTo (l : List ℕ) (hnd : l.Nodup) (h : Seats S ∅ r) :
    Fanned src m (l.filter (· != ci)) r (fanTo S ci m src l r) := by
  induction l generalizing r with
  | nil => exact (SameFwd.refl r).fanned
  | cons c l ih =>
    obtain ⟨hcl, hnd⟩ := List.nodup_cons.1 hnd
    have hsend : Stays S r (if c = ci then r else sendRaw S (drop S) c m (some src) r) := by
      split_ifs
      · exact .refl h
      · exact stays_sendRaw hS m (some src) h
    have hone : Fanned src m (if c = ci then [] else [c]) r
        (if c = ci then r else sendRaw S (drop S) c m (some src) r) := by
      split_ifs
      · exact (SameFwd.refl r).fanned
      · exact fanned_sendRaw hS h
    have hrest := ih hnd hsend.1
    have hfan : Stays S _ (fanTo S ci m src l
        (if c = ci then r else sendRaw S (drop S) c m (some src) r)) := stays_fanTo hS m src l hsend.1
    rw [fanTo]
    refine ⟨hrest.heard.trans hone.heard, hrest.conns.trans hone.conns,
      fun x => (hrest.conn x).trans (hone.conn x), fun y hy => ?_⟩
    have hmid : ((if c = ci then r else sendRaw S (drop S) c m (some src) r).clients y).dead =
        false := by
      by_contra hdead
      rw [Bool.not_eq_false] at hdead
      rw [hfan.2.dead y hdead] at hy
      cases hy
    rw [hrest.fwd y hy, hone.fwd y hmid, List.filter_cons]
    by_cases hyl : y ∈ l
    · have hyc : y ≠ c := fun heq => hcl (heq ▸ hyl)
      by_cases hc : c = ci
      · simp [hc]
      · simp [hc, hyc]
    · by_cases hc : c = ci
      · simp [hc]
      · by_cases hyc : y = c
        · simp [hc, hyc, hcl]
        · simp [hc, hyc]

end fanout

/-! ### Exactness -/

/-- What was forwarded to a client is what the record says, newest first. -/
structure Exact (r : State) : Prop where
  conns : ∀ c, r.Live c → (r.clients c).conn < r.conns
  inj : ∀ c c', r.Live c → r.Live c' → (r.clients c).conn = (r.clients c').conn → c = c'
  members : ∀ e ∈ r.heard, ∀ k ∈ e.members, k < r.conns
  fwd : ∀ y, r.Live y → forwarded (r.clients y) = (r.heard.filter fun e =>
    (r.clients y).conn ∈ e.members ∧ e.src ≠ (r.clients y).conn).map fun e => (e.src, e.msg)

theorem SameFwd.exact {r r' : State} (h : SameFwd r r') (hl : ∀ c, r'.Live c → r.Live c)
    (he : Exact r) : Exact r' := by
  constructor
  · intro c hc
    rw [h.conn, h.conns]
    exact he.conns c (hl c hc)
  · intro c c' hc hc' heq
    rw [h.conn, h.conn] at heq
    exact he.inj c c' (hl c hc) (hl c' hc') heq
  · intro e hin k hk
    rw [h.heard] at hin
    rw [h.conns]
    exact he.members e hin k hk
  · intro y hy
    rw [h.fwd, h.heard, h.conn]
    exact he.fwd y (hl y hy)

section exact

variable {S : Setup} {r : State} {ci : ℕ}

/-- A frame is on the record and went to the others. -/
theorem exact_fanned {ri : ℕ} {m : Msg} {r' : State} {e : Heard} (hl : r.Live ci) (he : Exact r)
    (heq : e = ⟨(r.clients ci).conn, m,
      ((r.members ri).filter fun c => r.Live c).map fun c => (r.clients c).conn⟩)
    (hf : Fanned (r.clients ci).conn m ((r.members ri).filter (· != ci)) (r.hear e) r')
    (hlive : ∀ c, r'.Live c → r.Live c) : Exact r' := by
  subst heq
  have hmem : ∀ y, r.Live y → ((r.clients y).conn ∈
      ((r.members ri).filter fun c => r.Live c).map (fun c => (r.clients c).conn) ↔
        y ∈ r.members ri) := by
    intro y hy
    rw [List.mem_map]
    constructor
    · rintro ⟨c, hc, heq⟩
      obtain ⟨hcm, hcl⟩ := List.mem_filter.1 hc
      rwa [← he.inj c y (of_decide_eq_true hcl) hy heq]
    · intro hm
      exact ⟨y, List.mem_filter.2 ⟨hm, decide_eq_true hy⟩, rfl⟩
  constructor
  · intro c hc
    rw [hf.conn, hf.conns]
    exact he.conns c (hlive c hc)
  · intro c c' hc hc' heq
    rw [hf.conn, hf.conn] at heq
    exact he.inj c c' (hlive c hc) (hlive c' hc') heq
  · intro e hin k hk
    rw [hf.heard] at hin
    rw [hf.conns]
    rcases List.mem_cons.1 hin with rfl | hin
    · obtain ⟨c, hc, rfl⟩ := List.mem_map.1 hk
      exact he.conns c (of_decide_eq_true (List.mem_filter.1 hc).2)
    · exact he.members e hin k hk
  · intro y hy
    have hly := hlive y hy
    rw [hf.fwd y hy.2, hf.heard, hf.conn]
    change (if _ then _ :: forwarded (r.clients y) else forwarded (r.clients y)) =
      (List.filter (fun e : Heard => decide ((r.clients y).conn ∈ e.members ∧
        e.src ≠ (r.clients y).conn)) (_ :: r.heard)).map _
    rw [List.filter_cons, he.fwd y hly]
    have hiff : y ∈ (r.members ri).filter (· != ci) ↔
        ((r.clients y).conn ∈
          ((r.members ri).filter fun c => r.Live c).map (fun c => (r.clients c).conn) ∧
          (r.clients ci).conn ≠ (r.clients y).conn) := by
      rw [List.mem_filter, hmem y hly, bne_iff_ne]
      refine and_congr_right fun _ => not_congr ⟨fun heq => by rw [heq], fun heq => ?_⟩
      exact (he.inj ci y hl hly heq).symm
    by_cases hin : y ∈ (r.members ri).filter (· != ci)
    · rw [if_pos hin, if_pos (decide_eq_true (hiff.1 hin)), List.map_cons]
    · rw [if_neg hin, if_neg fun hd => hin (hiff.2 (of_decide_eq_true hd))]

theorem exact_accept (ip now : ℕ) (he : Exact r) : Exact (accept S ip now r) := by
  obtain heq | heq | ⟨ci, hfree, hc, hconns⟩ := accept_cases S ip now r
  · rw [heq]
    exact he
  · rw [heq]
    have hbad : SameFwd r r.bad := ⟨rfl, rfl, fun _ => rfl, fun _ => rfl⟩
    exact hbad.exact (fun _ => id) he
  have hheard := (record_accept S ip now r).1
  have hold : ∀ c, c ≠ ci → (accept S ip now r).clients c = r.clients c := fun c hne => by
    rw [hc, if_neg hne]
  have hnew : ((accept S ip now r).clients ci).conn = r.conns ∧
      forwarded ((accept S ip now r).clients ci) = [] := by
    rw [hc, if_pos rfl]
    exact ⟨rfl, rfl⟩
  have hlive : ∀ {c}, c ≠ ci → (accept S ip now r).Live c → r.Live c := fun hne hl => by
    rwa [State.Live, hold _ hne] at hl
  constructor
  · intro c hl
    rw [hconns]
    by_cases hcc : c = ci
    · rw [hcc, hnew.1]
      exact Nat.lt_succ_self _
    · rw [hold c hcc]
      exact Nat.lt_succ_of_lt (he.conns c (hlive hcc hl))
  · intro c c' hl hl' heq
    by_cases hcc : c = ci
    · by_cases hcc' : c' = ci
      · rw [hcc, hcc']
      · rw [hcc, hnew.1, hold c' hcc'] at heq
        exact absurd heq (Nat.ne_of_gt (he.conns c' (hlive hcc' hl')))
    · by_cases hcc' : c' = ci
      · rw [hcc', hnew.1, hold c hcc] at heq
        exact absurd heq (Nat.ne_of_lt (he.conns c (hlive hcc hl)))
      · rw [hold c hcc, hold c' hcc'] at heq
        exact he.inj c c' (hlive hcc hl) (hlive hcc' hl') heq
  · intro e hin k hk
    rw [hheard] at hin
    rw [hconns]
    exact Nat.lt_succ_of_lt (he.members e hin k hk)
  · intro y hl
    rw [hheard]
    by_cases hy : y = ci
    · rw [hy, hnew.1, hnew.2, List.filter_eq_nil_iff.2, List.map_nil]
      intro e hin hd
      have := he.members e hin _ (of_decide_eq_true hd).1
      omega
    · rw [hold y hy]
      exact he.fwd y (hlive hy hl)

theorem seats_accept (ip now : ℕ) (h : Seats S ∅ r) (hs : S.ctable = true → Sound S ∅ ∅ r) :
    Seats S ∅ (accept S ip now r) := by
  rw [accept]
  split_ifs
  · exact h
  · exact h
  · split
    · have hbad : Seats S ∅ r.bad := h.of_rooms (fun _ => rfl) rfl
      exact hbad
    · rename_i ci hci
      have hv := List.find?_some hci
      rw [vacant, Bool.and_eq_true, Bool.or_eq_true, Bool.and_eq_true, Bool.not_eq_true'] at hv
      -- Nobody is in a room under the number of the new client.
      have hnone : ∀ ri, (r.clients ci).room ≠ some ri := by
        intro ri hr
        have hm := (h.mem ri (Set.notMem_empty ri) ci).2 hr
        rcases hv.2 with hc | ⟨-, hc⟩
        · have hl := (hs hc).live_members (Set.notMem_empty ri) ci hm
          rw [hl.1] at hv
          cases hv.1
        · have hu : (r.rooms ri).used = true := by
            by_contra hu
            rw [Bool.not_eq_true] at hu
            rw [h.unused ri hu] at hm
            cases hm
          rw [List.all_eq_true] at hc
          have := hc ri (List.mem_range.2 (h.numbers ri hu))
          rw [Bool.not_eq_true', List.contains_eq_mem, decide_eq_false_iff_not] at this
          exact this hm
      refine h.of_rooms (fun c => ?_) rfl
      refine (congrArg Client.room (State.clients_setClient r ci c _)).trans ?_
      split_ifs with hc
      · rw [hc]
        cases hr : (r.clients ci).room with
        | none => rfl
        | some ri => exact absurd hr (hnone ri)
      · rfl

variable (hS : S.Fit) (hlive : S.live = true → S.maxSeats = 2)
include hS hlive

theorem exact_relay (m : Msg) (h : Seats S ∅ r) (hl : r.Live ci) (he : Exact r) :
    (Seats S ∅ (relay S ci m r) ∧ Exact (relay S ci m r)) ∧ Spares r (relay S ci m r) := by
  rw [relay]
  cases hr : (r.clients ci).room with
  | none => exact ⟨⟨h, he⟩, .refl r⟩
  | some ri =>
    dsimp only
    obtain ⟨e, heq⟩ : ∃ e : Heard, e = ⟨(r.clients ci).conn, m,
      ((r.members ri).filter fun c => r.Live c).map fun c => (r.clients c).conn⟩ := ⟨_, rfl⟩
    have hh : Seats S ∅ (r.hear e) := h.of_rooms (fun _ => rfl) rfl
    have hhear : Spares r (r.hear e) := .of_reg fun _ => ⟨rfl, rfl⟩
    have hto : Fanned (r.clients ci).conn m ((r.members ri).filter (· != ci)) (r.hear e)
        (fanTo S ci m (r.clients ci).conn (r.members ri) (r.hear e)) :=
      fanned_fanTo hS.toOk (r.members ri) (h.nodup ri) hh
    have hstays : Stays S (r.hear e) (fanTo S ci m (r.clients ci).conn (r.members ri) (r.hear e)) :=
      stays_fanTo hS.toOk m (r.clients ci).conn (r.members ri) hh
    have hdone := exact_fanned hl he heq hto (hhear.trans hstays.2).live
    have hall := And.intro (And.intro hstays.1 hdone) (hhear.trans hstays.2)
    split_ifs with hst hloop
    · have hfan : fanLive S ci ri m (r.clients ci).conn (r.members ri).length 0 (r.hear e) =
          fanTo S ci m (r.clients ci).conn (r.members ri) (r.hear e) :=
        fanLive_eq hS.toOk (hlive hloop) hh hr
      rw [heq] at hfan hall
      exact hfan ▸ hall
    · rw [heq] at hall
      exact hall
    · exact ⟨⟨h, he⟩, .refl r⟩

variable (hc : S.ctable = true → S.rechecks = true)
include hc

theorem keeper_exact : Keeper S fun r => (Seats S ∅ r ∧ Exact r) ∧
    (S.ctable = true → Sound S ∅ ∅ r) where
  handle {r ci} m h hl := by
    have hsound : S.ctable = true → Sound S ∅ ∅ (handle S ci m r) := fun hct =>
      (handles_well hS m (h.2 hct) hl (.inl (hc hct))).1
    by_cases hm : relayed m.type = true
    · have hrelay := exact_relay hS hlive m h.1.1 hl h.1.2
      rw [handle, if_pos hm] at hsound ⊢
      exact ⟨⟨hrelay.1, hsound⟩, hrelay.2⟩
    · have hm' : relayed m.type = false := by simpa using hm
      have hstays : Stays S r (handle S ci m r) := stays_handle hS.toOk hm' h.1.1
      exact ⟨⟨⟨hstays.1, ((closed_sameFwd S).handle ci hm' r).exact hstays.2.live h.1.2⟩, hsound⟩,
        hstays.2⟩
  drop {r ci} h hl := by
    have hstays : Stays S r (drop S r ci) := stays_drop hS.toOk h.1.1
    exact ⟨⟨⟨hstays.1, ((closed_sameFwd S).drop r ci).exact hstays.2.live h.1.2⟩,
      fun hct => (keeps_drop hS.toOk (h.2 hct) fun _ => hl).1⟩, hstays.2⟩
  flush {r ci} h hl := by
    have hleaves := leaves_flushLoop (leaves_drop hS.pair) ci (r.clients ci).tx.length h.1.1
    exact ⟨⟨hleaves.1, ((closed_sameFwd S).flushLoop (closed_sameFwd S).drop ci _ r).exact
      hleaves.2.live h.1.2⟩, fun hct =>
        (after_flushLoop (drops_drop hS.toOk) ci _ (h.2 hct) (liveCount_le_max r) hl).1⟩
  accept {r} ip now h := ⟨⟨seats_accept ip now h.1.1 h.2, exact_accept ip now h.1.2⟩,
    fun hct => sound_accept ip now (h.2 hct)⟩

theorem exact_run (es : List Event) : Exact (run S es).st := by
  refine ((keeper_exact hS hlive hc).run es ⟨⟨?_, ?_⟩, fun _ => sound_init⟩).1.2
  · refine ⟨fun ri _ c => ?_, fun ri hz => hz.elim, fun ri => List.nodup_nil, fun ri => Nat.zero_le _,
      fun ri _ => rfl, fun ri hu => ?_⟩
    · exact iff_of_false List.not_mem_nil fun hr => by cases hr
    · cases hu
  · refine ⟨fun c hl => ?_, fun c _ hl => ?_, fun e he => ?_, fun y hl => ?_⟩
    · cases hl.1
    · cases hl.1
    · cases he
    · cases hl.1

end exact

/-- What a client got from one connection. -/
theorem filter_queued (l : List Queued) (k : ℕ) :
    (l.filter fun q => q.src = some k).map Queued.msg =
      ((l.filterMap fun q => q.src.map fun k => (k, q.msg)).filter fun x => x.1 = k).map Prod.snd := by
  induction l with
  | nil => rfl
  | cons q l ih =>
    rw [List.filter_cons, List.filterMap_cons]
    cases hq : q.src with
    | none =>
      rw [if_neg (by simp)]
      exact ih
    | some j =>
      rw [Option.map_some]
      dsimp only
      rw [List.filter_cons]
      by_cases hj : j = k
      · rw [if_pos (by simp [hj]), if_pos (by simp [hj]), List.map_cons, List.map_cons, ih]
      · rw [if_neg (by simp [hj]), if_neg (by simp [hj]), ih]

/-- One of the two programs with options that it admits. -/
inductive Program : Setup → Prop
  | c {proto1 : Bool} {maxSeats : ℕ} (h2 : 2 ≤ maxSeats) (h4 : maxSeats ≤ 4)
      (hp : proto1 = true → maxSeats = 2) (autoGo delay : ℕ) (send : ℕ → SendResult) (seed : ℕ → ℕ) :
      Program (cRelay proto1 maxSeats autoGo delay send seed)
  | py (autoGo delay : ℕ) (send : ℕ → SendResult) (seed : ℕ → ℕ) :
      Program (pyRelay autoGo delay send seed)

theorem Program.fit {S : Setup} (h : Program S) : S.Fit := by
  cases h with
  | c h2 h4 hp autoGo delay send seed => exact fit_cRelay h2 hp autoGo delay send seed
  | py autoGo delay send seed => exact fit_pyRelay autoGo delay send seed

theorem Program.live {S : Setup} (h : Program S) : S.live = true → S.maxSeats = 2 := by
  cases h with
  | c => exact fun hl => absurd hl Bool.false_ne_true
  | py => exact fun _ => rfl

theorem Program.rechecks {S : Setup} (h : Program S) : S.ctable = true → S.rechecks = true := by
  cases h with
  | c => exact fun _ => rfl
  | py => exact fun hc => absurd hc Bool.false_ne_true

/-- What the socket of every client took is a prefix of the frames queued for it, and from one client
to another exactly the frames went, newest first, that the one sent while they were in a match
together. -/
theorem fanout {S : Setup} (hS : Program S) (es : List Event) :
    (∀ x, ((run S es).st.clients x).written <+:
      ((run S es).st.clients x).queued.reverse.flatMap fun q => q.msg.bytes) ∧
    ∀ x y, (run S es).st.Live x → (run S es).st.Live y →
      (((run S es).st.clients y).queued.filter
        fun q => q.src = some ((run S es).st.clients x).conn).map Queued.msg =
      ((run S es).st.heard.filter fun e => e.src = ((run S es).st.clients x).conn ∧
        ((run S es).st.clients y).conn ∈ e.members ∧ x ≠ y).map Heard.msg := by
  have he := exact_run hS.fit hS.live hS.rechecks es
  refine ⟨fun x => ⟨_, streams_run S es x⟩, fun x y hx hy => ?_⟩
  rw [filter_queued]
  change ((forwarded ((run S es).st.clients y)).filter _).map _ = _
  rw [he.fwd y hy, List.filter_map, List.filter_filter, List.map_map]
  refine congrArg (List.map Heard.msg) (List.filter_congr fun e _ => ?_)
  have hne : e.src = ((run S es).st.clients x).conn →
      (e.src ≠ ((run S es).st.clients y).conn ↔ x ≠ y) := by
    intro heq
    rw [heq]
    refine not_congr ⟨fun hconn => he.inj x y hx hy hconn, fun hxy => ?_⟩
    rw [hxy]
  rw [Function.comp_apply, Bool.and_eq_decide, decide_eq_decide, decide_eq_true_eq, decide_eq_true_eq]
  constructor
  · rintro ⟨hsrc, hmem, hout⟩
    exact ⟨hsrc, hmem, (hne hsrc).1 hout⟩
  · rintro ⟨hsrc, hmem, hxy⟩
    exact ⟨hsrc, hmem, (hne hsrc).2 hxy⟩

/-- A guest joins, the match begins and an INPUT goes through, by short writes. -/
theorem fanout_input :
    let S := cRelay false 2 0 3 (fun n => if n % 2 = 0 then .wrote 3 else .again) fun _ => 7
    let es : List Event := [.accept 1 0, .accept 2 0, .recv 0 [4, 1, 2, 65, 65],
      .recv 1 [4, 1, 2, 66, 66], .recv 1 [3, 4, 65, 65], .recv 0 [1, 15], .recv 1 [6, 6, 1],
      .recv 1 [9, 0, 0, 0], .writable 0]
    (((run S es).st.clients 0).queued.filter
      fun q => q.src = some ((run S es).st.clients 1).conn).map Queued.msg = [⟨6, [1, 9, 0, 0, 0]⟩] := by
  intro S es
  have hS : Program S := .c (le_refl 2) (by decide) (fun h => absurd h Bool.false_ne_true) _ _ _ _
  have hx : (run S es).st.Live 1 := by decide +kernel
  have hy : (run S es).st.Live 0 := by decide +kernel
  rw [(fanout hS es).2 1 0 hx hy]
  decide +kernel

end IntvNetplay.Relay
