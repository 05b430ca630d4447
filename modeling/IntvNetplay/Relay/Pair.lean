import IntvNetplay.Relay.Chunks
import IntvNetplay.Relay.Fanout

/-!
# A match of two

As long as neither of the two is dropped, what the relay makes of the frames of a match is a channel:
the bytes of one go to the other whole and in order, whatever the chunks they come in, and the other
direction is left alone.
-/

namespace IntvNetplay.Relay

/-- What was written to the socket of a client, and what waits to be. -/
def Client.stream (c : Client) : List ℕ := c.written ++ c.tx

/-- Nothing but bytes to one client. -/
structure Sends (c : ℕ) (bytes : List ℕ) (r r' : State) : Prop where
  others : ∀ x, x ≠ c → r'.clients x = r.clients x
  stream : (r'.clients c).stream = (r.clients c).stream ++ bytes
  written : (r.clients c).written <+: (r'.clients c).written
  reg : (r'.clients c).reg = (r.clients c).reg
  rooms : r'.rooms = r.rooms

namespace Sends

variable {c : ℕ} {b b' : List ℕ} {r r' r'' : State}

theorem refl (c : ℕ) (r : State) : Sends c [] r r :=
  ⟨fun _ _ => rfl, (List.append_nil _).symm, List.prefix_rfl, rfl, rfl⟩

theorem trans (h : Sends c b r r') (h' : Sends c b' r' r'') : Sends c (b ++ b') r r'' := by
  refine ⟨fun x hx => (h'.others x hx).trans (h.others x hx), ?_, h.written.trans h'.written,
    h'.reg.trans h.reg, h'.rooms.trans h.rooms⟩
  rw [h'.stream, h.stream, List.append_assoc]

theorem of_eq (hc : ∀ x, r'.clients x = r.clients x) (hr : r'.rooms = r.rooms) : Sends c [] r r' := by
  refine ⟨fun x _ => hc x, ?_, ?_, ?_, hr⟩
  · rw [hc, List.append_nil]
  · rw [hc]
  · rw [hc]

theorem setClient {y : Client} (hs : y.stream = (r.clients c).stream ++ b)
    (hw : (r.clients c).written <+: y.written) (hr : y.reg = (r.clients c).reg) :
    Sends c b r (r.setClient c y) := by
  refine ⟨fun x hx => ?_, ?_, ?_, ?_, rfl⟩
  · rw [State.clients_setClient, if_neg hx]
  · rwa [State.clients_setClient, if_pos rfl]
  · rwa [State.clients_setClient, if_pos rfl]
  · rwa [State.clients_setClient, if_pos rfl]

theorem queue (c : ℕ) (m : Msg) (src : Option ℕ) (r : State) : Sends c m.bytes r (r.queue c m src) := by
  refine setClient ?_ List.prefix_rfl rfl
  rw [Client.stream, Client.stream, List.append_assoc]

theorem wrote (c k : ℕ) (r : State) : Sends c [] r (r.wrote c k) := by
  refine setClient ?_ (List.prefix_append _ _) rfl
  rw [Client.stream, Client.stream, List.append_assoc, List.take_append_drop, List.append_nil]

theorem dead (h : Sends c b r r') (x : ℕ) : (r'.clients x).dead = (r.clients x).dead := by
  by_cases hx : x = c
  · rw [hx]
    exact congrArg (fun y => y.2.1) h.reg
  · rw [h.others x hx]

end Sends

section send

variable {S : Setup} {D : State → ℕ → State} {c : ℕ} {r : State}
  (hD : ∀ {r}, Seats S ∅ r → ((D r c).clients c).dead = true)
include hD

/-- A flush that the client survives. -/
theorem sends_flushLoop (n : ℕ) (h : Seats S ∅ r) (hd : ((flushLoop S D c n r).clients c).dead = false) :
    Sends c [] r (flushLoop S D c n r) := by
  induction n generalizing r with
  | zero => exact .refl c r
  | succ n ih =>
    have hcall : Seats S ∅ r.called := h.of_rooms (fun _ => rfl) rfl
    have hlost : ((D r.called.fail c).clients c).dead = true := hD (hcall.of_rooms (fun _ => rfl) rfl)
    rw [flushLoop] at hd ⊢
    split_ifs at hd ⊢
    · exact .refl c r
    · cases hs : S.send r.calls with
      | wrote k =>
        rw [hs] at hd
        have hcalled : Sends c [] r r.called := .of_eq (fun _ => rfl) rfl
        have hw := hcalled.trans (.wrote c (k + 1) r.called)
        exact hw.trans (ih ((Leaves.of_same hcall (sameReg_wrote _ c (k + 1))).1) hd)
      | again => exact .of_eq (fun _ => rfl) rfl
      | zero =>
        rw [hs] at hd
        exact absurd (hd.symm.trans hlost) Bool.false_ne_true
      | error =>
        rw [hs] at hd
        exact absurd (hd.symm.trans hlost) Bool.false_ne_true

/-- A send that the client survives. -/
theorem sends_sendRaw {m : Msg} {src : Option ℕ} (h : Seats S ∅ r)
    (hd : ((sendRaw S D c m src r).clients c).dead = false) :
    Sends c m.bytes r (sendRaw S D c m src r) := by
  rw [sendRaw] at hd ⊢
  split_ifs at hd ⊢ with h1 h2
  · exact absurd (hd.symm.trans h1) Bool.false_ne_true
  · have hlost : ((D r.fail c).clients c).dead = true := hD (h.of_rooms (fun _ => rfl) rfl)
    exact absurd (hd.symm.trans hlost) Bool.false_ne_true
  · have hq := Leaves.of_same h (sameReg_queue r c m src)
    have hflush := sends_flushLoop hD _ hq.1 hd
    have hboth := (Sends.queue c m src r).trans hflush
    rwa [List.append_nil] at hboth

end send

/-! ### The two of a match -/

/-- Two clients that are served are the members of a started room. -/
structure Pair (a b ri : ℕ) (r : State) : Prop where
  ne : a ≠ b
  live : r.Live a ∧ r.Live b
  room : (r.clients a).room = some ri ∧ (r.clients b).room = some ri
  started : (r.rooms ri).started = true
  members : r.members ri = [a, b] ∨ r.members ri = [b, a]

section pair

variable {S : Setup} {a b ri : ℕ} {r r' : State}

theorem Pair.symm (h : Pair a b ri r) : Pair b a ri r :=
  ⟨h.ne.symm, h.live.symm, h.room.symm, h.started, h.members.symm⟩

theorem Pair.sends (h : Pair a b ri r) {x : ℕ} {bytes : List ℕ} (hs : Sends x bytes r r') :
    Pair a b ri r' := by
  have hreg : ∀ y, (r'.clients y).reg = (r.clients y).reg := fun y => by
    by_cases hy : y = x
    · rw [hy]
      exact hs.reg
    · rw [hs.others y hy]
  have hlive : ∀ y, r.Live y → r'.Live y := fun y hl =>
    ⟨(congrArg (fun z => z.1) (hreg y)).trans hl.1, (congrArg (fun z => z.2.1) (hreg y)).trans hl.2⟩
  have hroom : ∀ y, (r'.clients y).room = (r.clients y).room := fun y => congrArg (fun z => z.2.2.2) (hreg y)
  refine ⟨h.ne, ⟨hlive a h.live.1, hlive b h.live.2⟩, ⟨by rw [hroom, h.room.1], by rw [hroom, h.room.2]⟩,
    by rw [hs.rooms, h.started], ?_⟩
  rw [State.members, hs.rooms]
  exact h.members

/-- A frame of a match. -/
def Msg.Passes (m : Msg) : Prop := relayed m.type = true ∧ m.payload.length < 200

/-- The first frame of a buffer that begins with one. -/
theorem first_frame {m : Msg} {l rest x : List ℕ} {len : ℕ} (h : len :: l ++ rest = m.bytes ++ x) :
    len = m.payload.length + 1 ∧ (len ≤ l.length → l.headD 0 = m.type ∧ (l.take len).tail = m.payload ∧
      l.drop len ++ rest = x) := by
  rw [Msg.bytes, List.cons_append, List.cons_append, List.cons.injEq] at h
  obtain ⟨hlen, h⟩ := h
  refine ⟨hlen, fun hle => ?_⟩
  cases l with
  | nil =>
    rw [List.length_nil] at hle
    omega
  | cons t l =>
    rw [List.cons_append, List.cons_append, List.cons.injEq] at h
    rw [List.length_cons] at hle
    have htake : l.take m.payload.length = m.payload := by
      have := congrArg (List.take m.payload.length) h.2
      rwa [List.take_append_of_le_length (by omega), List.take_left] at this
    have hdrop : l.drop m.payload.length ++ rest = x := by
      have := congrArg (List.drop m.payload.length) h.2
      rwa [List.drop_append_of_le_length (by omega), List.drop_left] at this
    rw [hlen, List.take_succ_cons, List.drop_succ_cons]
    exact ⟨h.1, htake, hdrop⟩

/-- What both programs keep. -/
def Upheld (S : Setup) (r : State) : Prop :=
  (Seats S ∅ r ∧ Exact r) ∧ (S.ctable = true → Sound S ∅ ∅ r)

variable (hS : Program S)
include hS

/-- A frame of one goes to the other. -/
theorem sends_relay {m : Msg} (hp : Pair a b ri r) (h : Seats S ∅ r)
    (hd : ((relay S a m r).clients b).dead = false) : Sends b m.bytes r (relay S a m r) := by
  have hdead : ∀ {r}, Seats S ∅ r → ((drop S r b).clients b).dead = true :=
    fun h => dead_dropped hS.fit.pair b h
  obtain ⟨e, he⟩ : ∃ e : Heard, e = ⟨(r.clients a).conn, m,
    ((r.members ri).filter fun c => r.Live c).map fun c => (r.clients c).conn⟩ := ⟨_, rfl⟩
  have hear : Seats S ∅ (r.hear e) := h.of_rooms (fun _ => rfl) rfl
  have hto : relay S a m r = fanTo S a m (r.clients a).conn (r.members ri) (r.hear e) := by
    rw [relay, hp.room.1]
    dsimp only
    rw [if_pos hp.started]
    split_ifs with hl
    · have hfan : fanLive S a ri m (r.clients a).conn (r.members ri).length 0 (r.hear e) =
          fanTo S a m (r.clients a).conn (r.members ri) (r.hear e) :=
        fanLive_eq hS.fit.toOk (hS.live hl) hear hp.room.1
      rw [he] at hfan ⊢
      exact hfan
    · rw [he]
      rfl
  have honly : fanTo S a m (r.clients a).conn (r.members ri) (r.hear e) =
      sendRaw S (drop S) b m (some (r.clients a).conn) (r.hear e) := by
    rcases hp.members with hm | hm
    · rw [hm, fanTo, if_pos rfl, fanTo, if_neg hp.ne.symm, fanTo]
    · rw [hm, fanTo, if_neg hp.ne.symm, fanTo, if_pos rfl, fanTo]
  rw [hto, honly] at hd ⊢
  have hrec : Sends b [] r (r.hear e) := .of_eq (fun _ => rfl) rfl
  exact hrec.trans (sends_sendRaw hdead hear hd)

theorem keeper_upheld : Keeper S (Upheld S) := keeper_exact hS.fit hS.live hS.rechecks

theorem upheld_run (es : List Event) : Upheld S (run S es).st := by
  refine (keeper_upheld hS).run es ⟨⟨⟨fun ri _ c => ?_, fun ri hz => hz.elim, fun ri => List.nodup_nil,
    fun ri => Nat.zero_le _, fun ri _ => rfl, fun ri hu => ?_⟩, ?_⟩, fun _ => sound_init⟩
  · exact iff_of_false List.not_mem_nil fun hr => by cases hr
  · cases hu
  · refine ⟨fun c hl => ?_, fun c _ hl => ?_, fun e he => ?_, fun y hl => ?_⟩
    · cases hl.1
    · cases hl.1
    · cases he
    · cases hl.1

/-- The frames that have arrived whole, one after the other. -/
theorem drain_pair (n : ℕ) {bytes rest : List ℕ} {ms : List Msg} (hk : Upheld S r) (hp : Pair a b ri r)
    (hn : bytes.length ≤ n) (hms : ∀ m ∈ ms, m.Passes) (hb : bytes ++ rest = ms.flatMap Msg.bytes)
    (hd : ((drain S a n r bytes).1.clients b).dead = false) :
    ∃ done left, ms = done ++ left ∧ (drain S a n r bytes).2 ++ rest = left.flatMap Msg.bytes ∧
      Waits (drain S a n r bytes).2 ∧ Sends b (done.flatMap Msg.bytes) r (drain S a n r bytes).1 := by
  induction n generalizing r bytes ms with
  | zero =>
    obtain rfl := List.length_eq_zero_iff.1 (Nat.le_zero.1 hn)
    exact ⟨[], ms, rfl, hb, waits_nil, .refl b r⟩
  | succ n ih =>
    cases bytes with
    | nil => exact ⟨[], ms, rfl, hb, waits_nil, .refl b r⟩
    | cons len l =>
      cases ms with
      | nil => cases hb
      | cons m ms =>
        rw [List.flatMap_cons] at hb
        obtain ⟨hlen, hwhole⟩ := first_frame hb
        obtain ⟨hrel, hshort⟩ := hms m List.mem_cons_self
        rw [List.length_cons] at hn
        by_cases hl : l.length < len
        · have hw : Waits (len :: l) := fun len' l' he => by
            cases he
            omega
          rw [drain_of_waits hw]
          exact ⟨[], m :: ms, rfl, hb, hw, .refl b r⟩
        · obtain ⟨htype, hpay, hrest⟩ := hwhole (by omega)
          have hmsg : (⟨l.headD 0, (l.take len).tail⟩ : Msg) = m := by rw [htype, hpay]
          have hdrain : drain S a (n + 1) r (len :: l) =
              if ((relay S a m r).clients a).dead then (relay S a m r, l.drop len)
              else drain S a n (relay S a m r) (l.drop len) := by
            rw [drain, if_neg (by omega), if_neg hl, hmsg, handle, if_pos hrel]
          rw [hdrain] at hd ⊢
          obtain ⟨hkept, hspares⟩ := (keeper_upheld hS).handle m hk hp.live.1
          rw [handle, if_pos hrel] at hkept hspares
          -- the other one survives this frame, as it survives them all
          have hb1 : ((relay S a m r).clients b).dead = false := by
            by_contra hne
            rw [Bool.not_eq_false] at hne
            split_ifs at hd with ha
            · exact absurd (hd.symm.trans hne) Bool.false_ne_true
            · have hla : (relay S a m r).Live a := hspares.spared a hp.live.1 (by simpa using ha)
              have hlost := ((keeper_upheld hS).drain n (l.drop len) hkept hla).2.dead b hne
              exact absurd (hd.symm.trans hlost) Bool.false_ne_true
          have hsend := sends_relay hS hp hk.1.1 hb1
          have ha1 : ((relay S a m r).clients a).dead = false := by
            rw [hsend.dead]
            exact hp.live.1.2
          rw [if_neg (by rw [ha1]; decide)] at hd ⊢
          obtain ⟨done, left, hsplit, hleft, hwait, hsends⟩ := ih hkept (hp.sends hsend)
            (by rw [List.length_drop]; omega) (fun m' hm' => hms m' (List.mem_cons_of_mem _ hm')) hrest hd
          refine ⟨m :: done, left, by rw [hsplit, List.cons_append], hleft, hwait, ?_⟩
          rw [List.flatMap_cons]
          exact hsend.trans hsends

theorem spares_feedBuf (n : ℕ) (data bytes : List ℕ) (hk : Upheld S r) (hl : r.Live a) :
    Spares r (feedBuf S a n data r bytes).1 := by
  induction n generalizing r data bytes with
  | zero => exact .refl r
  | succ n ih =>
    rw [feedBuf]
    dsimp only
    split_ifs with h1 h2 h3
    · exact .refl r
    · exact ((keeper_upheld hS).drop hk hl).2
    · exact ((keeper_upheld hS).drain 256 _ hk hl).2
    · obtain ⟨hk', hs⟩ := (keeper_upheld hS).drain 256 (bytes ++ data.take (256 - bytes.length)) hk hl
      exact hs.trans (ih _ _ hk' (hs.spared a hl (by simpa using h3)))

/-- A chunk, by way of the buffer of 256. -/
theorem feedBuf_pair (n : ℕ) {data bytes rest : List ℕ} {ms : List Msg} (hk : Upheld S r)
    (hp : Pair a b ri r) (hn : data.length ≤ n) (hw : Waits bytes) (hms : ∀ m ∈ ms, m.Passes)
    (hb : bytes ++ data ++ rest = ms.flatMap Msg.bytes)
    (hd : ((feedBuf S a n data r bytes).1.clients b).dead = false) :
    ∃ done left, ms = done ++ left ∧
      (feedBuf S a n data r bytes).2 ++ rest = left.flatMap Msg.bytes ∧
      Waits (feedBuf S a n data r bytes).2 ∧
      Sends b (done.flatMap Msg.bytes) r (feedBuf S a n data r bytes).1 := by
  induction n generalizing r bytes data ms with
  | zero =>
    obtain rfl := List.length_eq_zero_iff.1 (Nat.le_zero.1 hn)
    rw [List.append_nil] at hb
    exact ⟨[], ms, rfl, hb, hw, .refl b r⟩
  | succ n ih =>
    by_cases hnil : data = []
    · subst hnil
      rw [List.append_nil] at hb
      rw [feedBuf, if_pos rfl]
      exact ⟨[], ms, rfl, hb, hw, .refl b r⟩
    · have h200 := hw.length_le
      have hpos : 0 < data.length := List.length_pos_iff.2 hnil
      rw [feedBuf, if_neg hnil, if_neg (by omega)] at hd ⊢
      dsimp only at hd ⊢
      obtain ⟨hk', hs⟩ := (keeper_upheld hS).drain 256 (bytes ++ data.take (256 - bytes.length)) hk hp.live.1
      have hb1 : ((drain S a 256 r (bytes ++ data.take (256 - bytes.length))).1.clients b).dead = false := by
        by_contra hne
        rw [Bool.not_eq_false] at hne
        split_ifs at hd with ha
        · exact absurd (hd.symm.trans hne) Bool.false_ne_true
        · have hla := hs.spared a hp.live.1 (by simpa using ha)
          exact absurd (hd.symm.trans ((spares_feedBuf hS n _ _ hk' hla).dead b hne)) Bool.false_ne_true
      have hcut : bytes ++ data.take (256 - bytes.length) ++ (data.drop (256 - bytes.length) ++ rest) =
          ms.flatMap Msg.bytes := by
        rw [← hb, List.append_assoc, List.append_assoc, ← List.append_assoc (data.take _),
          List.take_append_drop]
      obtain ⟨done, left, hsplit, hleft, hwait, hsends⟩ := drain_pair hS 256 hk hp
        (by rw [List.length_append, List.length_take]; omega) hms hcut hb1
      have ha1 : ((drain S a 256 r (bytes ++ data.take (256 - bytes.length))).1.clients a).dead = false := by
        rw [hsends.dead]
        exact hp.live.1.2
      rw [if_neg (by rw [ha1]; decide)] at hd ⊢
      rw [← List.append_assoc] at hleft
      obtain ⟨done', left', hsplit', hleft', hwait', hsends'⟩ := ih hk' (hp.sends hsends)
        (by rw [List.length_drop]; omega) hwait
        (fun m hm => hms m (by rw [hsplit]; exact List.mem_append_right _ hm)) hleft hd
      refine ⟨done ++ done', left', by rw [hsplit, hsplit', List.append_assoc], hleft', hwait', ?_⟩
      rw [List.flatMap_append]
      exact hsends.trans hsends'

/-- A chunk, in either program. -/
theorem feed_pair {data bytes rest : List ℕ} {ms : List Msg} (hk : Upheld S r)
    (hp : Pair a b ri r) (hw : Waits bytes) (hms : ∀ m ∈ ms, m.Passes)
    (hb : bytes ++ data ++ rest = ms.flatMap Msg.bytes)
    (hd : ((feed S a data r bytes).1.clients b).dead = false) :
    ∃ done left, ms = done ++ left ∧ (feed S a data r bytes).2 ++ rest = left.flatMap Msg.bytes ∧
      Waits (feed S a data r bytes).2 ∧ Sends b (done.flatMap Msg.bytes) r (feed S a data r bytes).1 := by
  rw [feed] at hd ⊢
  split_ifs at hd ⊢
  · exact feedBuf_pair hS data.length hk hp (Nat.le_refl _) hw hms hb hd
  · exact drain_pair hS (bytes ++ data).length hk hp (Nat.le_refl _) hms hb hd

/-- A writable socket. -/
theorem sends_writable {v : Server} {x : ℕ} (hk : Upheld S v.st)
    (hd : ((step S (.writable x) v).st.clients x).dead = false) :
    Sends x [] v.st (step S (.writable x) v).st ∧ (step S (.writable x) v).rx = v.rx := by
  have hdead : ∀ {r}, Seats S ∅ r → ((drop S r x).clients x).dead = true :=
    fun h => dead_dropped hS.fit.pair x h
  rw [step] at hd ⊢
  split_ifs at hd ⊢
  · exact ⟨sends_flushLoop hdead _ hk.1.1 hd, rfl⟩
  · exact ⟨.refl x v.st, rfl⟩

end pair

end IntvNetplay.Relay
