import IntvNetplay.Console.Node
import IntvNetplay.Relay.Chunks

/-!
# The user's name (`SES_GETNAME`)

The name comes from the Lobby's appkey, which the console asks the mailbox for twice at most; failing
that it is a GUEST with two digits.  Whatever the mailbox answers, the relay takes the HELLO that is sent
under it.
-/

namespace IntvNetplay.Console

open IntvNetplay.Machine

@[simp] abbrev execRng : ℕ := 0x035E

/-- What the mailbox answers to the OPEN, the READ and the CLOSE of one try. -/
structure AppKey where
  opened : Option Reply
  read : Option Reply
  closed : Option Reply

/-- What came of one try. -/
inductive Tried where
  | good
  | bad
  | retry
  deriving DecidableEq

/-! ### The source -/

/-- `SES_GETNAME` at `@@gn_try` up to its first transaction. -/
def keyOpen (s : Cpu) : Cpu :=
  let s := s.stAll fnTx [1, 0, 1, 0, 0, 0]
  let s := s.st mbDev 0x70
  let s := s.st mbCmd 0xDC
  let s := s.st mbNparam 0
  let s := s.st mbTxlenHi 0
  s.st mbTxlenLo 6

/-- The READ that follows. -/
def keyRead (s : Cpu) : Cpu := (s.st mbCmd 0xDD).st mbTxlenLo 0

/-- `SES_AK_CLOSE`. -/
def sesAkClose (r : Option Reply) (s : Cpu) : Cpu :=
  let s := s.st mbDev 0x70
  let s := s.st mbCmd 0xDB
  let s := s.st mbNparam 0
  let s := s.st mbTxlenLo 0
  mbTransact r (s.st mbTxlenHi 0)

/-- The tests of a character. -/
def gnChar (c : ℕ) : Bool :=
  if c < 48 then false else if c ≤ 57 then true else if c < 65 then false else decide (c ≤ 90)

/-- `@@gn_c`: `n` characters from the `i`-th on, then the NUL. -/
def gnCopy : ℕ → ℕ → Cpu → Cpu × Tried
  | 0, i, s => (s.st (nameBuf + i) 0, .good)
  | n + 1, i, s =>
    let c := s.rd (fnRx + 2 + i)
    if gnChar c then gnCopy n (i + 1) (s.st (nameBuf + i) c) else (s, .bad)

/-- The reply to the READ: a length and the characters. -/
def gnCheck (s : Cpu) : Cpu × Tried :=
  let n := if s.rd fnRx < 8 then s.rd fnRx else 8
  if n < 2 then (s, .bad) else gnCopy n 0 (s.st nameLen n)

/-- One try, up to its CLOSE. -/
def gnTry (a : AppKey) (s : Cpu) : Cpu × Tried :=
  let s := mbTransact a.opened (keyOpen s)
  if s.rd mbOk = 0 then (s, .retry)
  else
    let s := mbTransact a.read (keyRead s)
    if s.rd mbOk = 0 then (s, .retry) else gnCheck s

/-- A digit from four bits. -/
def gnDigit (n : ℕ) : ℕ := (if n % 16 < 10 then n % 16 else n % 16 - 10) + 48

/-- `@@gn_fallback`: GUEST and two digits. -/
def gnFallback (s : Cpu) : Cpu :=
  let s := s.stAll nameBuf [71, 85, 69, 83, 84]
  let s := s.st (nameBuf + 5) (gnDigit (s.rd execRng))
  let s := s.st (nameBuf + 6) (gnDigit (s.rd execRng / 256))
  let s := s.st (nameBuf + 7) 0
  s.st nameLen 7

/-- The tries.  There is an answer to each. -/
def gnTries : List AppKey → Cpu → Cpu
  | [], s => s
  | a :: l, s =>
    let x := gnTry a s
    let s := sesAkClose a.closed x.1
    match x.2 with
    | .good => s
    | .bad => gnFallback s
    | .retry =>
      let s := s.st ppTmp (s.rd ppTmp - 1)
      if s.rd ppTmp ≠ 0 then gnTries l s else gnFallback s

/-- `SES_GETNAME`. -/
def sesGetname (a b : AppKey) (s : Cpu) : Cpu := gnTries [a, b] (s.st ppTmp 2)

/-- The name in `NAME_BUF`. -/
def ownName (s : Cpu) : List ℕ := s.rdAll nameBuf (s.rd nameLen)

/-! ### What it leaves -/

/-- A name of two to eight letters and digits, and its NUL. -/
structure Named (s : Cpu) : Prop where
  two : 2 ≤ s.rd nameLen
  eight : s.rd nameLen ≤ 8
  chars : ∀ i < s.rd nameLen, gnChar (s.rd (nameBuf + i)) = true
  ends : s.rd (nameBuf + s.rd nameLen) = 0

theorem gnChar_eq (c : ℕ) : gnChar c = Relay.nameChar c := by
  unfold gnChar Relay.nameChar
  by_cases h1 : c < 48
  · have h : ¬48 ≤ c ∧ ¬65 ≤ c := by omega
    simp [h1, h]
  · by_cases h2 : c ≤ 57
    · simp [h1, h2, show 48 ≤ c by omega]
    · by_cases h3 : c < 65
      · simp [h1, h2, h3, show ¬65 ≤ c by omega]
      · simp [h1, h2, h3, show 65 ≤ c by omega]

section getname

variable {s t : Cpu}

theorem cellBits_name {i : ℕ} (hi : i ≤ 9) : cellBits (nameBuf + i) = 8 :=
  cellBits_cart (by simp only [nameBuf]; omega) (by simp only [nameBuf]; omega)

theorem Named.of_mail (h : Named s) (hl : Local MailCell s t) : Named t := by
  have hname : ∀ i ≤ 9, t.rd (nameBuf + i) = s.rd (nameBuf + i) := fun i hi =>
    hl.rd _ (by simp only [MailCell, nameBuf]; omega)
  have hlen : t.rd nameLen = s.rd nameLen := hl.rd _ (by decide)
  have h8 := h.eight
  refine ⟨by rw [hlen]; exact h.two, by rw [hlen]; exact h8, fun i hi => ?_, ?_⟩
  · rw [hlen] at hi
    rw [hname i (by omega)]
    exact h.chars i hi
  · rw [hlen, hname _ (by omega)]
    exact h.ends

theorem local_keyOpen (s : Cpu) : Local MailCell s (keyOpen s) := by
  refine (((((Local.refl s).stAll fun x h1 h2 => ?_).st (by decide)).st (by decide)).st
    (by decide)).st (by decide) |>.st (by decide)
  simp only [fnTx, List.length_cons, List.length_nil] at h1 h2
  unfold MailCell
  omega

theorem local_keyRead (s : Cpu) : Local MailCell s (keyRead s) :=
  ((Local.refl s).st (by decide)).st (by decide)

theorem local_sesAkClose (r : Option Reply) (s : Cpu) : Local MailCell s (sesAkClose r s) := by
  have h : Local MailCell s (((((s.st mbDev 0x70).st mbCmd 0xDB).st mbNparam 0).st mbTxlenLo 0).st
      mbTxlenHi 0) :=
    (((((Local.refl s).st (by decide)).st (by decide)).st (by decide)).st (by decide)).st (by decide)
  exact h.trans (local_mbTransact _ _)

/-- The copy loop: what it stores it has tested, and it stores nowhere else. -/
theorem gnCopy_spec (n i : ℕ) (hi : i + n ≤ 8) (hg : (gnCopy n i s).2 = .good) :
    (∀ j, i ≤ j → j < i + n → gnChar ((gnCopy n i s).1.rd (nameBuf + j)) = true) ∧
      (gnCopy n i s).1.rd (nameBuf + (i + n)) = 0 ∧
      ∀ a, a < nameBuf + i ∨ nameBuf + 8 < a → (gnCopy n i s).1.rd a = s.rd a := by
  induction n generalizing i s with
  | zero =>
    refine ⟨fun j h1 h2 => absurd h2 (by omega), ?_, fun a ha => ?_⟩
    · simp only [gnCopy, Nat.add_zero, Cpu.rd_st, if_true, Nat.zero_mod]
    · simp only [gnCopy]
      rw [Cpu.rd_st, if_neg (by omega)]
  | succ n ih =>
    simp only [gnCopy] at hg ⊢
    split_ifs at hg ⊢ with hc
    · obtain ⟨h1, h2, h3⟩ := ih (i + 1) (by omega) hg
      have hlt : s.rd (fnRx + 2 + i) < 256 :=
        s.rd_lt_256 (Or.inr ⟨by simp only [fnRx]; omega, by simp only [fnRx]; omega⟩)
      refine ⟨fun j hj hj' => ?_, ?_, fun a ha => ?_⟩
      · by_cases he : j = i
        · subst he
          have hw : (2 : ℕ) ^ cellBits (nameBuf + j) = 256 :=
            congrArg (2 ^ ·) (cellBits_name (i := j) (by omega))
          rw [h3 _ (.inl (by omega)), Cpu.rd_st, if_pos rfl, hw, Nat.mod_eq_of_lt hlt]
          exact hc
        · exact h1 j (by omega) (by omega)
      · rw [← h2]
        congr 2
        omega
      · rw [h3 a (by omega), Cpu.rd_st, if_neg (by omega)]

theorem named_gnCheck (hg : (gnCheck s).2 = .good) : Named (gnCheck s).1 := by
  have h8 : (if s.rd fnRx < 8 then s.rd fnRx else 8) ≤ 8 := by
    split_ifs <;> omega
  unfold gnCheck at hg ⊢
  generalize (if s.rd fnRx < 8 then s.rd fnRx else 8) = n at hg h8 ⊢
  dsimp only at hg ⊢
  by_cases h2 : n < 2
  · rw [if_pos h2] at hg
    exact absurd hg (by simp)
  · rw [if_neg h2] at hg ⊢
    obtain ⟨h1, h3, h4⟩ := gnCopy_spec n 0 (by omega) hg
    have hlen : (gnCopy n 0 (s.st nameLen n)).1.rd nameLen = n := by
      rw [h4 _ (.inr (by decide)), Cpu.rd_st, if_pos rfl]
      exact Nat.mod_eq_of_lt (Nat.lt_of_le_of_lt h8 (by decide))
    rw [Nat.zero_add] at h3
    refine ⟨by rw [hlen]; omega, by rw [hlen]; exact h8, fun i hi => ?_, by rw [hlen]; exact h3⟩
    rw [hlen] at hi
    exact h1 i (Nat.zero_le i) (by omega)

theorem gnCopy_not_retry (n i : ℕ) (s : Cpu) : (gnCopy n i s).2 ≠ .retry := by
  induction n generalizing i s with
  | zero => simp [gnCopy]
  | succ n ih =>
    rw [gnCopy]
    split_ifs
    · exact ih _ _
    · simp

theorem gnCheck_not_retry (s : Cpu) : (gnCheck s).2 ≠ .retry := by
  unfold gnCheck
  generalize (if s.rd fnRx < 8 then s.rd fnRx else 8) = n
  dsimp only
  split_ifs
  · simp
  · exact gnCopy_not_retry _ _ _

/-- One try: a good name, or nothing but the mailbox. -/
theorem gnTry_cases (a : AppKey) (s : Cpu) :
    ((gnTry a s).2 = .good → Named (gnTry a s).1) ∧
      ((gnTry a s).2 = .retry → Local MailCell s (gnTry a s).1) := by
  have hopen : Local MailCell s (mbTransact a.opened (keyOpen s)) :=
    (local_keyOpen s).trans (local_mbTransact _ _)
  have hread : Local MailCell s (mbTransact a.read (keyRead (mbTransact a.opened (keyOpen s)))) :=
    (hopen.trans (local_keyRead _)).trans (local_mbTransact _ _)
  unfold gnTry
  dsimp only
  by_cases h1 : (mbTransact a.opened (keyOpen s)).rd mbOk = 0
  · rw [if_pos h1]
    exact ⟨fun h => absurd h (by simp), fun _ => hopen⟩
  · rw [if_neg h1]
    by_cases h2 : (mbTransact a.read (keyRead (mbTransact a.opened (keyOpen s)))).rd mbOk = 0
    · rw [if_pos h2]
      exact ⟨fun h => absurd h (by simp), fun _ => hread⟩
    · rw [if_neg h2]
      exact ⟨named_gnCheck, fun h => absurd h (gnCheck_not_retry _)⟩

theorem gnChar_gnDigit (n : ℕ) : gnChar (gnDigit n) = true ∧ gnDigit n < 256 := by
  have hall : ∀ m < 16, gnChar ((if m < 10 then m else m - 10) + 48) = true ∧
      (if m < 10 then m else m - 10) + 48 < 256 := by decide
  exact hall (n % 16) (Nat.mod_lt _ (by decide))

theorem named_gnFallback (s : Cpu) : Named (gnFallback s) := by
  have hlen : (gnFallback s).rd nameLen = 7 := by
    simp [gnFallback, cellBits]
  have hrng : ∀ u : Cpu, (u.stAll nameBuf [71, 85, 69, 83, 84]).rd execRng = u.rd execRng := fun u => by
    rw [Cpu.rd_stAll, if_neg (by decide)]
  have h5 := gnChar_gnDigit (s.rd execRng)
  have h6 := gnChar_gnDigit (s.rd execRng / 256)
  have hcell : ∀ i < 7, (gnFallback s).rd (nameBuf + i) =
      if i = 6 then gnDigit (s.rd execRng / 256) else if i = 5 then gnDigit (s.rd execRng)
      else [71, 85, 69, 83, 84].getD i 0 := fun i hi => by
    have hw : cellBits (nameBuf + i) = 8 := cellBits_name (by omega)
    simp only [gnFallback]
    rw [Cpu.rd_st, if_neg (by simp only [nameBuf, nameLen]; omega), Cpu.rd_st,
      if_neg (by simp only [nameBuf]; omega), Cpu.rd_st]
    by_cases h1 : i = 6
    · subst h1
      rw [if_pos rfl, if_pos rfl, Cpu.rd_st, if_neg (by decide), hrng, hw]
      exact Nat.mod_eq_of_lt h6.2
    · rw [if_neg (by simp only [nameBuf]; omega), if_neg h1, Cpu.rd_st]
      by_cases h2 : i = 5
      · subst h2
        rw [if_pos rfl, if_pos rfl, hrng, hw]
        exact Nat.mod_eq_of_lt h5.2
      · rw [if_neg (by simp only [nameBuf]; omega), if_neg h2, Cpu.rd_stAll,
          if_pos (by simp only [List.length_cons, List.length_nil]; omega), Nat.add_sub_cancel_left, hw]
        have hcases : i = 0 ∨ i = 1 ∨ i = 2 ∨ i = 3 ∨ i = 4 := by omega
        rcases hcases with rfl | rfl | rfl | rfl | rfl <;> rfl
  refine ⟨by rw [hlen]; decide, by rw [hlen]; decide, fun i hi => ?_, ?_⟩
  · rw [hlen] at hi
    rw [hcell i hi]
    split_ifs with h1 h2
    · exact h6.1
    · exact h5.1
    · have hcases : i = 0 ∨ i = 1 ∨ i = 2 ∨ i = 3 ∨ i = 4 := by omega
      rcases hcases with rfl | rfl | rfl | rfl | rfl <;> decide
  · rw [hlen]
    simp [gnFallback]

/-- The tries end in a name before the answers run out. -/
theorem named_gnTries (l : List AppKey) (h0 : 0 < s.rd ppTmp) (hl : s.rd ppTmp ≤ l.length) :
    Named (gnTries l s) := by
  induction l generalizing s with
  | nil => exact absurd hl (by simp only [List.length_nil]; omega)
  | cons a l ih =>
    obtain ⟨hgood, hretry⟩ := gnTry_cases a s
    rw [List.length_cons] at hl
    rw [gnTries]
    generalize hx : gnTry a s = x at *
    obtain ⟨t, r⟩ := x
    have hclose := local_sesAkClose a.closed t
    cases r with
    | good => exact (hgood rfl).of_mail hclose
    | bad => exact named_gnFallback _
    | retry =>
      have hpp : (sesAkClose a.closed t).rd ppTmp = s.rd ppTmp :=
        (hclose.rd _ (by decide)).trans ((hretry rfl).rd _ (by decide))
      have hlt : s.rd ppTmp < 256 := s.rd_lt_256 (by decide)
      have hdec : ((sesAkClose a.closed t).st ppTmp ((sesAkClose a.closed t).rd ppTmp - 1)).rd ppTmp =
          s.rd ppTmp - 1 := by
        rw [Cpu.rd_st, if_pos rfl, hpp]
        exact Nat.mod_eq_of_lt (by
          rw [show cellBits ppTmp = 8 from rfl]
          omega)
      dsimp only
      split_ifs with hz
      · exact ih (by rw [hdec] at hz ⊢; omega) (by rw [hdec]; omega)
      · exact named_gnFallback _

theorem named_sesGetname (a b : AppKey) (s : Cpu) : Named (sesGetname a b s) := by
  have htwo : (s.st ppTmp 2).rd ppTmp = 2 := by simp [cellBits]
  exact named_gnTries [a, b] (by rw [htwo]; decide) (by rw [htwo]; exact le_refl 2)

theorem chars_ownName (h : Named s) : ∀ b ∈ ownName s, gnChar b = true := fun b hb => by
  rw [ownName, Cpu.rdAll, List.mem_map] at hb
  obtain ⟨x, hx, rfl⟩ := hb
  rw [List.mem_range'_1] at hx
  obtain ⟨i, rfl⟩ := Nat.exists_eq_add_of_le hx.1
  exact h.chars i (by omega)

theorem length_ownName (s : Cpu) : (ownName s).length = s.rd nameLen := by
  simp [ownName, Cpu.rdAll]

/-- The relay's own test of a name. -/
theorem nameOk_ownName (h : Named s) : Relay.nameOk (ownName s) = true := by
  rw [Relay.nameOk, length_ownName, Bool.and_eq_true, Bool.and_eq_true, decide_eq_true_eq,
    decide_eq_true_eq, List.all_eq_true]
  refine ⟨⟨h.two, h.eight⟩, fun b hb => ?_⟩
  rw [← gnChar_eq]
  exact chars_ownName h b hb

end getname

/-! ### What the relay makes of it -/

section hello

open Relay (Setup State Msg)

variable {S : Setup} {ci : ℕ} {r : State}

/-- A whole frame and nothing else is handled and leaves the buffer empty. -/
theorem drain_frame (n : ℕ) (m : Msg) (hlen : m.payload.length < 200) :
    Relay.drain S ci (n + 1) r m.bytes = (Relay.handle S ci m r, []) := by
  have hwait : ∀ t, Relay.drain S ci n t [] = (t, []) := fun t =>
    Relay.drain_of_waits Relay.waits_nil n t
  have htake : (m.type :: m.payload).take (m.payload.length + 1) = m.type :: m.payload :=
    List.take_of_length_le (by rw [List.length_cons])
  have hdrop : (m.type :: m.payload).drop (m.payload.length + 1) = [] :=
    List.drop_of_length_le (by rw [List.length_cons])
  rw [Msg.bytes, Relay.drain]
  dsimp only
  rw [if_neg (by omega), if_neg (by rw [List.length_cons]; omega), htake, hdrop, hwait]
  exact ite_self _

theorem feed_frame (m : Msg) (hlen : m.payload.length < 200) :
    (Relay.feed S ci m.bytes r []).1 = Relay.handle S ci m r := by
  have hbytes : m.bytes.length = m.payload.length + 2 := by
    rw [Msg.bytes, List.length_cons, List.length_cons]
  rw [Relay.feed]
  split_ifs
  · have htake : ([] : List ℕ) ++ m.bytes.take (256 - ([] : List ℕ).length) = m.bytes := by
      rw [List.nil_append, List.take_of_length_le (by rw [hbytes, List.length_nil]; omega)]
    have hdrop : m.bytes.drop (256 - ([] : List ℕ).length) = [] :=
      List.drop_of_length_le (by rw [hbytes, List.length_nil]; omega)
    rw [hbytes, Relay.feedBuf, if_neg (by simp [Msg.bytes]), if_neg (by simp), htake, hdrop,
      drain_frame 255 m hlen]
    dsimp only
    split_ifs
    · rfl
    · rw [Relay.feedBuf, if_pos rfl]
  · rw [Relay.feedAll, List.nil_append, hbytes, drain_frame _ m hlen]

/-- `rstrip` takes nothing off a name of letters and digits. -/
theorem rstrip_chars {w : List ℕ} (h : ∀ b ∈ w, gnChar b = true) : Relay.rstrip w = w := by
  rw [Relay.rstrip, List.rdropWhile_eq_self_iff]
  intro hne hlast
  have hc := h _ (List.getLast_mem hne)
  have hcase : w.getLast hne = 0 ∨ w.getLast hne = 32 := by simpa using hlast
  rcases hcase with he | he <;> rw [he] at hc <;> exact absurd hc (by decide)

/-- `on_hello` with a name it likes, in either protocol. -/
theorem onHello_named {w : List ℕ} (hok : Relay.nameOk w = true) (hc : ∀ b ∈ w, gnChar b = true) :
    Relay.handle S ci ⟨Relay.tHello, Relay.protoVer :: w⟩ r = Relay.takeName S ci w r := by
  have h2 : 2 ≤ w.length := by
    rw [Relay.nameOk, Bool.and_eq_true, Bool.and_eq_true, decide_eq_true_eq] at hok
    exact hok.1.1
  have hver : (!S.proto1 && (Relay.protoVer :: w).getD 0 0 != Relay.protoVer) = false := by simp
  have hrel : Relay.relayed Relay.tHello = false := by decide
  rw [Relay.handle, hrel, if_neg (by decide), if_pos rfl, Relay.onHello,
    if_neg (by rw [List.length_cons]; omega), hver, if_neg (by decide), List.drop_one, List.tail_cons,
    rstrip_chars hc]
  dsimp only
  rw [if_pos hok]

end hello

/-- The console logs in with a name that every relay takes, whatever its mailbox answers: the bytes
of its HELLO go out whole, and to a relay that has nothing buffered from it they are `on_hello` with
that name. -/
theorem name_accepted (a b : AppKey) (s u : Cpu) (S : Relay.Setup) (ci : ℕ) (r : Relay.State) :
    Relay.nameOk (ownName (sesGetname a b s)) = true ∧
      (sesLogin (ownName (sesGetname a b s)) u).tx = u.tx ++
        Relay.Msg.bytes ⟨Relay.tHello, Relay.protoVer :: ownName (sesGetname a b s)⟩ ∧
      (Relay.feed S ci
          (Relay.Msg.bytes ⟨Relay.tHello, Relay.protoVer :: ownName (sesGetname a b s)⟩) r []).1 =
        Relay.takeName S ci (ownName (sesGetname a b s)) r := by
  have h := named_sesGetname a b s
  generalize sesGetname a b s = t at h ⊢
  have hlen := length_ownName t
  have h8 := h.eight
  have htake : (ownName t).take 8 = ownName t := List.take_of_length_le (by omega)
  have hbytes : [(ownName t).length + 2, ftHello, 2] ++ ownName t =
      Relay.Msg.bytes ⟨Relay.tHello, Relay.protoVer :: ownName t⟩ := rfl
  have hlt : ∀ b ∈ Relay.Msg.bytes ⟨Relay.tHello, Relay.protoVer :: ownName t⟩, b < 256 := fun b hb => by
    have hc := chars_ownName h
    rw [← hbytes, List.mem_append] at hb
    rcases hb with hb | hb
    · simp only [List.mem_cons, List.not_mem_nil, or_false, ftHello] at hb
      omega
    · have hb := hc b hb
      rw [gnChar_eq, Relay.nameChar] at hb
      simp only [Bool.or_eq_true, Bool.and_eq_true, decide_eq_true_eq] at hb
      omega
  refine ⟨nameOk_ownName h, ?_, ?_⟩
  · obtain ⟨v, hv, he⟩ := sesLogin_cases (ownName t) u
    have hcount : (Relay.Msg.bytes ⟨Relay.tHello, Relay.protoVer :: ownName t⟩).length < 256 := by
      rw [Relay.Msg.bytes, List.length_cons, List.length_cons, List.length_cons]
      omega
    rw [he, uiPrint, uiPut, Cpu.tx_stAll, htake, hbytes, tx_sendFrame v hcount hlt, hv.tx]
  · rw [feed_frame _ (by rw [List.length_cons]; omega)]
    exact onHello_named (nameOk_ownName h) (chars_ownName h)

end IntvNetplay.Console
