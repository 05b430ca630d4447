import IntvNetplay.Console.Within

/-!
# The mailbox driver (`src/netcode/mailbox.asm`)

One transaction of the FujiNet mailbox: the request is staged in the mailbox registers, the sequence
number is the peripheral's own acknowledged one plus one (skipping 0), and the console polls for the
acknowledgement.  What the peripheral answers is an argument, `none` standing for a poll loop that
ran out: a `Reply` names the number of polls it took, the reply command, the error code and the
bytes it left in `FN_RX`.
-/

namespace IntvNetplay.Console

open IntvNetplay.Machine

/-- What the peripheral left behind when it acknowledged a request. -/
structure Reply where
  polls : ℕ
  cmd : ℕ
  err : ℕ
  rx : List ℕ

/-- The answer to a request that succeeded at once and returns no data. -/
def Reply.done : Reply := ⟨0, 6, 0, []⟩

/-- `DIAG_BUMP`: saturating increment of an 8-bit counter. -/
def diagBump (a : ℕ) (s : Cpu) : Cpu :=
  if s.rd a = 0xFF then s else s.st a (s.rd a + 1)

/-- The sequence number `MB_TRANSACT` derives from the acknowledged one; it skips 0. -/
def nextSeq (ack : ℕ) : ℕ := if (ack + 1) % 256 = 0 then 1 else (ack + 1) % 256

/-- `MB_TRANSACT` up to the poll loop: the staged request and its sequence number. -/
def mbRequest (s : Cpu) : Cpu :=
  let s := s.st fnDevice (s.rd mbDev)
  let s := s.st fnCmd (s.rd mbCmd)
  let s := s.st fnNparam (s.rd mbNparam)
  let s := s.st fnTxlenLo (s.rd mbTxlenLo)
  let s := s.st fnTxlenHi (s.rd mbTxlenHi)
  s.st fnSeq (nextSeq (s.rd fnAckseq))

/-- The peripheral's own writes when it acknowledges the staged request. -/
def mbAnswer (r : Reply) (s : Cpu) : Cpu :=
  let s := s.pokeAll fnRx (r.rx.take 512)
  let s := s.poke fnErr r.err
  let s := s.poke fnRxlenLo r.rx.length
  let s := s.poke fnRxlenHi (r.rx.length / 256)
  let s := s.poke fnReplyCmd r.cmd
  s.poke fnAckseq (s.rd fnSeq)

/-- The worst poll count seen so far. -/
def notePolls (polls : ℕ) (s : Cpu) : Cpu :=
  if slt polls (s.rd16 mbPmaxLo mbPmaxHi) then s
  else (s.st mbPmaxLo polls).st mbPmaxHi (polls / 256)

/-- `MB_TRANSACT` after the poll loop: ACK, or the error code. -/
def mbOutcome (s : Cpu) : Cpu :=
  if s.rd fnReplyCmd = 6 then s.st mbOk 1
  else diagBump diagErr ((s.st mbErr (s.rd fnErr)).st mbOk 0)

/-- `MB_TRANSACT`. -/
def mbTransact (r : Option Reply) (s : Cpu) : Cpu :=
  match r with
  | none => diagBump diagTmo (((mbRequest s).st mbOk 0).st mbErr 0)
  | some r => mbOutcome (notePolls r.polls (mbAnswer r (mbRequest s)))

/-- `NET_STATUS` up to its transaction. -/
def statusRequest (s : Cpu) : Cpu :=
  let s := s.st mbDev 0x71
  let s := s.st mbCmd 0x53
  let s := s.st mbNparam 2
  let s := s.st fnParamSize 1
  let s := s.st (fnParamSize + 1) 1
  let s := s.st fnParamVal 0
  let s := s.st (fnParamVal + 4) 0
  let s := s.st mbTxlenLo 0
  s.st mbTxlenHi 0

/-- `NET_STATUS` after its transaction: the bytes available, and whether the device is well. -/
def statusReply (s : Cpu) : Cpu :=
  if s.rd mbOk = 0 then (s.st navailLo 0).st navailHi 0
  else
    let s := (s.st navailLo (s.rd fnRx)).st navailHi (s.rd (fnRx + 1))
    if s.rd (fnRx + 3) = 1 then s
    else (s.st mbErr (s.rd (fnRx + 3))).st mbOk 0

/-- `NET_STATUS`. -/
def netStatus (r : Option Reply) (s : Cpu) : Cpu :=
  statusReply (mbTransact r (statusRequest s))

/-- `NET_READ` up to its transaction: ask for the number of bytes in `NREQ`. -/
def readRequest (s : Cpu) : Cpu :=
  let s := s.st mbDev 0x71
  let s := s.st mbCmd 0x52
  let s := s.st mbNparam 1
  let s := s.st fnParamSize 2
  let s := s.st fnParamVal (s.rd nreqLo)
  let s := s.st (fnParamVal + 1) (s.rd nreqHi)
  let s := s.st mbTxlenLo 0
  s.st mbTxlenHi 0

/-- `NET_READ` after its transaction: the number of bytes got. -/
def readReply (s : Cpu) : Cpu :=
  if s.rd mbOk = 0 then (s.st ngotLo 0).st ngotHi 0
  else (s.st ngotLo (s.rd fnRxlenLo)).st ngotHi (s.rd fnRxlenHi)

/-- `NET_READ`. -/
def netRead (r : Option Reply) (s : Cpu) : Cpu :=
  readReply (mbTransact r (readRequest s))

/-- `NET_WRITE` up to its transaction. -/
def writeRequest (s : Cpu) : Cpu :=
  let s := s.st mbDev 0x71
  let s := s.st mbCmd 0x57
  let s := s.st mbNparam 1
  let s := s.st fnParamSize 2
  let s := s.st fnParamVal (s.rd nreqLo)
  let s := s.st mbTxlenLo (s.rd nreqLo)
  let s := s.st (fnParamVal + 1) (s.rd nreqHi)
  s.st mbTxlenHi (s.rd nreqHi)

/-- The bytes staged at `FN_TX` leave for the network. -/
def transmit (s : Cpu) : Cpu :=
  { s with tx := s.tx ++ s.rdAll fnTx (s.rd16 nreqLo nreqHi) }

/-- `NET_WRITE`: send the `NREQ` bytes staged at `FN_TX`.  The bytes leave with the transaction; no
caller looks at its outcome. -/
def netWrite (s : Cpu) : Cpu := mbTransact (some .done) (transmit (writeRequest s))

/-- Stage `bytes` at `FN_TX` and their number in `NREQ`. -/
def stage (bytes : List ℕ) (s : Cpu) : Cpu :=
  ((s.stAll fnTx bytes).st nreqLo bytes.length).st nreqHi 0

/-- How every frame is sent. -/
def sendFrame (bytes : List ℕ) (s : Cpu) : Cpu := netWrite (stage bytes s)

theorem rd_mbOk_mbTransact {r : Reply} {s : Cpu} (hc : r.cmd = 6) :
    (mbTransact (some r) s).rd mbOk = 1 := by
  have hcmd : (notePolls r.polls (mbAnswer r (mbRequest s))).rd fnReplyCmd = 6 := by
    unfold notePolls
    split <;> simp [mbAnswer, hc, cellBits]
  rw [mbTransact, mbOutcome, if_pos hcmd, Cpu.rd_st, if_pos rfl]
  decide

/-! ### What a transaction leaves alone -/

/-- The cells a mailbox transaction may change: the driver's own, the diagnostic counters and the
mailbox. -/
def MailCell (a : ℕ) : Prop :=
  0x8114 ≤ a ∧ a ≤ 0x811E ∨ 0x8130 ≤ a ∧ a ≤ 0x8133 ∨ 0x8180 ≤ a ∧ a ≤ 0x8183 ∨
    0x9C00 ≤ a ∧ a < 0xA000

instance : DecidablePred MailCell := fun a => by unfold MailCell; infer_instance

section footprint

variable {P : ℕ → Prop} {s t : Cpu}

theorem Local.diagBump {a : ℕ} (h : Local P s t) (ha : P a) :
    Local P s (diagBump a t) := Local.ite (fun _ => h) (fun _ => h.st ha)

variable (hP : ∀ a, MailCell a → P a)
include hP

theorem Local.mail {a v : ℕ} (h : Local P s t) (ha : MailCell a) : Local P s (t.st a v) :=
  h.st (hP a ha)

theorem Local.mbRequest (h : Local P s t) : Local P s (mbRequest t) := by
  unfold Console.mbRequest
  repeat refine Local.mail hP ?_ (by decide)
  exact h

theorem Local.mbAnswer (r : Reply) (h : Local P s t) : Local P s (mbAnswer r t) := by
  unfold Console.mbAnswer
  repeat refine Local.poke ?_ (hP _ (by decide))
  refine h.pokeAll fun x h1 h2 => hP x ?_
  have hl : (r.rx.take 512).length ≤ 512 := List.length_take_le _ _
  simp only [fnRx] at h1 h2
  unfold MailCell
  omega

theorem Local.notePolls (n : ℕ) (h : Local P s t) : Local P s (notePolls n t) :=
  Local.ite (fun _ => h) fun _ => (h.mail hP (by decide)).mail hP (by decide)

theorem Local.mbOutcome (h : Local P s t) : Local P s (mbOutcome t) :=
  Local.ite (fun _ => h.mail hP (by decide)) fun _ =>
    ((h.mail hP (by decide)).mail hP (by decide)).diagBump (hP _ (by decide))

theorem Local.mbTransact (r : Option Reply) (h : Local P s t) :
    Local P s (mbTransact r t) := by
  cases r with
  | none =>
    exact (((h.mbRequest hP).mail hP (by decide)).mail hP (by decide)).diagBump (hP _ (by decide))
  | some r => exact (((h.mbRequest hP).mbAnswer hP r).notePolls hP r.polls).mbOutcome hP

theorem Local.statusRequest (h : Local P s t) : Local P s (statusRequest t) := by
  unfold Console.statusRequest
  repeat refine Local.mail hP ?_ (by decide)
  exact h

theorem Local.statusReply (h : Local P s t) : Local P s (statusReply t) := by
  have hav : Local P s ((t.st navailLo (t.rd fnRx)).st navailHi (t.rd (fnRx + 1))) :=
    (h.mail hP (by decide)).mail hP (by decide)
  refine Local.ite (fun _ => (h.mail hP (by decide)).mail hP (by decide)) fun _ => ?_
  exact Local.ite (fun _ => hav) fun _ => (hav.mail hP (by decide)).mail hP (by decide)

theorem Local.netStatus (r : Option Reply) (h : Local P s t) : Local P s (netStatus r t) :=
  ((h.statusRequest hP).mbTransact hP r).statusReply hP

theorem Local.readRequest (h : Local P s t) : Local P s (readRequest t) := by
  unfold Console.readRequest
  repeat refine Local.mail hP ?_ (by decide)
  exact h

theorem Local.readReply (h : Local P s t) : Local P s (readReply t) :=
  Local.ite (fun _ => (h.mail hP (by decide)).mail hP (by decide))
    fun _ => (h.mail hP (by decide)).mail hP (by decide)

theorem Local.netRead (r : Option Reply) (h : Local P s t) : Local P s (netRead r t) :=
  ((h.readRequest hP).mbTransact hP r).readReply hP

theorem Local.writeRequest (h : Local P s t) : Local P s (writeRequest t) := by
  unfold Console.writeRequest
  repeat refine Local.mail hP ?_ (by decide)
  exact h

theorem Local.stage {bytes : List ℕ} (h : Local P s t) (hb : bytes.length ≤ 256) :
    Local P s (stage bytes t) := by
  refine Local.mail hP (Local.mail hP (h.stAll fun x h1 h2 => hP x ?_) (by decide)) (by decide)
  simp only [fnTx] at h1 h2
  unfold MailCell
  omega

theorem Within.netWrite (h : Within P s t) : Within P s (netWrite t) := by
  have hreq : Within P s (Console.writeRequest t) :=
    h.trans (Local.writeRequest hP (Local.refl t)).within
  exact hreq.withTx.trans (Local.mbTransact hP _ (Local.refl _)).within

theorem Within.sendFrame {b : List ℕ} (h : Within P s t) (hb : b.length ≤ 256) :
    Within P s (sendFrame b t) :=
  Within.netWrite hP (h.trans (Local.stage hP (Local.refl t) hb).within)

end footprint

/-! ### What a transaction does -/

section simps

variable (s : Cpu) (r : Option Reply) (bytes : List ℕ)

/-- The footprint of a transaction by itself. -/
theorem local_mbTransact : Local MailCell s (mbTransact r s) :=
  Local.mbTransact (fun _ h => h) r (Local.refl s)

theorem local_writeRequest : Local MailCell s (writeRequest s) :=
  Local.writeRequest (fun _ h => h) (Local.refl s)

theorem log_netWrite : (netWrite s).log = s.log := by
  rw [netWrite, (local_mbTransact _ _).log]
  exact (local_writeRequest s).log

theorem mark_netWrite : (netWrite s).mark = s.mark := by
  rw [netWrite, (local_mbTransact _ _).mark]
  exact (local_writeRequest s).mark

theorem tx_netWrite : (netWrite s).tx =
    s.tx ++ (writeRequest s).rdAll fnTx ((writeRequest s).rd16 nreqLo nreqHi) := by
  rw [netWrite, (local_mbTransact _ _).tx, transmit, (local_writeRequest s).tx]

@[simp] theorem log_sendFrame : (sendFrame bytes s).log = s.log := by
  rw [sendFrame, log_netWrite]
  rfl

@[simp] theorem mark_sendFrame : (sendFrame bytes s).mark = s.mark := by
  rw [sendFrame, mark_netWrite]
  rfl

/-- Sending a frame hands exactly its bytes to the network. -/
theorem tx_sendFrame {bytes : List ℕ} (hn : bytes.length < 256) (hb : ∀ b ∈ bytes, b < 256) :
    (sendFrame bytes s).tx = s.tx ++ bytes := by
  rw [sendFrame, tx_netWrite]
  have hlen : (writeRequest (stage bytes s)).rd16 nreqLo nreqHi = bytes.length := by
    simp [writeRequest, stage, Cpu.rd16, word, cellBits, Nat.mod_eq_of_lt hn]
  have hrd : (writeRequest (stage bytes s)).rdAll fnTx bytes.length = bytes := by
    refine List.ext_getElem (by simp [Cpu.rdAll]) fun i hi hi' => ?_
    have hbi : bytes[i] < 256 := hb _ (List.getElem_mem hi')
    have hx : ∀ a, a < 0x9C40 → (fnTx + i = a) = False := fun a ha => by
      simp only [fnTx, eq_iff_iff, iff_false]
      omega
    simp only [Cpu.rdAll, List.getElem_map, List.getElem_range', Nat.one_mul]
    have hw : cellBits (40000 + i) = 8 := cellBits_cart (by omega) (by omega)
    simp [writeRequest, stage, Cpu.rd_stAll, hx, hi', hw, Nat.mod_eq_of_lt hbi]
  rw [hlen, hrd]
  rfl

end simps

end IntvNetplay.Console
