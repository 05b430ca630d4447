import IntvNetplay.Console.Node
import IntvNetplay.Machine.Framing
import Mathlib.Data.List.GetD

/-!
# A pump on a stream of frames

What a pump takes from the mailbox, and what it makes of a stream that is a sequence of well-formed
frames: it handles the frames that have arrived whole, in order, and leaves the beginning of the next
one in the buffer (`sesPump_frames`).
-/

namespace IntvNetplay.Console

open IntvNetplay.Machine

/-! ### What a pump takes -/

/-- `SES_PUMP` up to `@@pp_cp`: the transactions. -/
def sesRead (p : Poll) (s : Cpu) : Cpu :=
  let s := netStatus p.status s
  if s.rd mbOk = 0 ∨ pumpRequest s = 0 then s
  else netRead p.read ((s.st nreqLo (pumpRequest s)).st nreqHi 0)

/-- The bytes a pump takes from the mailbox. -/
def delivered (p : Poll) (s : Cpu) : List ℕ :=
  let t := netStatus p.status s
  if t.rd mbOk = 0 ∨ pumpRequest t = 0 then []
  else (sesRead p s).rdAll fnRx ((sesRead p s).rd ngotLo)

theorem sesFetch_eq (p : Poll) (s : Cpu) :
    sesFetch p s = (delivered p s).foldl rxPut (sesRead p s) := by
  simp only [sesFetch, delivered, sesRead]
  split_ifs <;> rfl

theorem local_sesRead (p : Poll) (s : Cpu) : Local MailCell s (sesRead p s) := by
  have hst : Local MailCell s (netStatus p.status s) :=
    Local.netStatus (fun _ h => h) _ (Local.refl s)
  refine Local.ite (fun _ => hst) fun _ => ?_
  exact Local.netRead (fun _ h => h) _ ((hst.st (by decide)).st (by decide))

theorem not_rxCell_mail {a : ℕ} (h : RxCell a) : ¬ MailCell a := by
  simp only [RxCell, rxWr, rxRd, rxacc] at h
  unfold MailCell
  omega

theorem rxBytes_sesRead (p : Poll) (s : Cpu) : rxBytes (sesRead p s) = rxBytes s :=
  rxBytes_local (local_sesRead p s).within fun _ => not_rxCell_mail

theorem delivered_lt {p : Poll} {s : Cpu} {b : ℕ} (h : b ∈ delivered p s) : b < 256 := by
  simp only [delivered] at h
  split_ifs at h
  · simp at h
  · rw [Cpu.rdAll, List.mem_map] at h
    obtain ⟨a, ha, rfl⟩ := h
    rw [List.mem_range'_1] at ha
    have hn : (sesRead p s).rd ngotLo < 256 := Cpu.rd_lt_256 _ (by decide)
    simp only [fnRx] at ha
    exact Cpu.rd_lt_256 _ (Or.inr ⟨by omega, by omega⟩)

/-- A fetch appends what it takes, as long as there is room. -/
theorem rxBytes_sesFetch {p : Poll} {s : Cpu} (h : buffered s + (delivered p s).length < 256) :
    rxBytes (sesFetch p s) = rxBytes s ++ delivered p s := by
  have hb : buffered (sesRead p s) = buffered s := by
    rw [← length_rxBytes, rxBytes_sesRead, length_rxBytes]
  rw [sesFetch_eq, rxBytes_foldl _ (fun b => delivered_lt) (by rw [hb]; exact h), rxBytes_sesRead]

/-! ### A mailbox that has bytes -/

/-- The mailbox reports the bytes it has and hands them all over. -/
def Poll.gives (bs : List ℕ) : Poll :=
  ⟨some ⟨0, 6, 0, [bs.length, 0, 0, 1]⟩, some ⟨0, 6, 0, bs⟩⟩

section gives

variable {s : Cpu} {r : Reply}

/-- The cells of the mailbox's answer. -/
def AnswerCell (a : ℕ) : Prop := fnErr ≤ a ∧ a ≤ fnReplyCmd ∨ fnRx ≤ a

theorem rd_answer_mbTransact (hc : r.cmd = 6) {a : ℕ} (ha : AnswerCell a) :
    (mbTransact (some r) s).rd a = (mbAnswer r (mbRequest s)).rd a := by
  have hne : a ≠ mbOk ∧ a ≠ mbPmaxLo ∧ a ≠ mbPmaxHi := by
    simp only [AnswerCell, fnErr, fnReplyCmd, fnRx, mbOk, mbPmaxLo, mbPmaxHi] at *
    omega
  have hpolls : ∀ t : Cpu, (notePolls r.polls t).rd a = t.rd a := fun t => by
    unfold notePolls
    split
    · rfl
    · rw [Cpu.rd_st, if_neg hne.2.2, Cpu.rd_st, if_neg hne.2.1]
  have hcmd : (notePolls r.polls (mbAnswer r (mbRequest s))).rd fnReplyCmd = 6 := by
    unfold notePolls
    split <;> simp [mbAnswer, hc, cellBits]
  rw [mbTransact, mbOutcome, if_pos hcmd, Cpu.rd_st, if_neg hne.1, hpolls]

theorem rd_fnRx_mbAnswer {i : ℕ} (hi : i < r.rx.length) (hn : r.rx.length ≤ 512) :
    (mbAnswer r s).rd (fnRx + i) = r.rx.getD i 0 % 256 := by
  have hw : cellBits (fnRx + i) = 8 :=
    cellBits_cart (by simp only [fnRx]; omega) (by simp only [fnRx]; omega)
  have hne : fnRx + i ≠ fnAckseq ∧ fnRx + i ≠ fnReplyCmd ∧ fnRx + i ≠ fnRxlenHi ∧
      fnRx + i ≠ fnRxlenLo ∧ fnRx + i ≠ fnErr := by
    simp only [fnRx, fnAckseq, fnReplyCmd, fnRxlenHi, fnRxlenLo, fnErr]
    omega
  simp only [mbAnswer]
  rw [Cpu.rd_poke, if_neg hne.1, Cpu.rd_poke, if_neg hne.2.1, Cpu.rd_poke, if_neg hne.2.2.1,
    Cpu.rd_poke, if_neg hne.2.2.2.1, Cpu.rd_poke, if_neg hne.2.2.2.2, Cpu.rd_pokeAll,
    List.take_of_length_le hn, if_pos (by omega), hw, Nat.add_sub_cancel_left]
  rfl

theorem rd_fnRxlenLo_mbAnswer : (mbAnswer r s).rd fnRxlenLo = r.rx.length % 256 := by
  simp [mbAnswer, cellBits]

theorem delivered_gives {bs : List ℕ} (hpos : bs ≠ []) (hlen : bs.length ≤ 64)
    (hb : ∀ b ∈ bs, b < 256) : delivered (.gives bs) s = bs := by
  have hn : 0 < bs.length := List.length_pos_iff.2 hpos
  have hstat : ∀ i < 4, ∀ u : Cpu,
      (mbTransact (some ⟨0, 6, 0, [bs.length, 0, 0, 1]⟩) u).rd (fnRx + i) =
        [bs.length, 0, 0, 1].getD i 0 % 256 := fun i hi u => by
    rw [rd_answer_mbTransact rfl (Or.inr (Nat.le_add_right _ _)),
      rd_fnRx_mbAnswer (r := ⟨0, 6, 0, [bs.length, 0, 0, 1]⟩) hi (by simp)]
  have h0 := hstat 0 (by decide) (statusRequest s)
  have h1 := hstat 1 (by decide) (statusRequest s)
  have h3 := hstat 3 (by decide) (statusRequest s)
  simp only [Nat.add_zero, List.getD_cons_zero, Nat.mod_eq_of_lt (show bs.length < 256 by omega)]
    at h0
  simp only [List.getD_cons_succ, List.getD_cons_zero, Nat.zero_mod] at h1
  have h3' : (mbTransact (some ⟨0, 6, 0, [bs.length, 0, 0, 1]⟩) (statusRequest s)).rd
      (fnRx + 3) = 1 := h3
  have hok := rd_mbOk_mbTransact (s := statusRequest s)
    (r := ⟨0, 6, 0, [bs.length, 0, 0, 1]⟩) rfl
  set u := mbTransact (some ⟨0, 6, 0, [bs.length, 0, 0, 1]⟩) (statusRequest s) with hu
  have hstatus : netStatus (Poll.gives bs).status s = (u.st navailLo bs.length).st navailHi 0 := by
    have hrx : fnRx + 3 ≠ navailLo ∧ fnRx + 3 ≠ navailHi := by decide
    rw [Poll.gives, netStatus, ← hu, statusReply, if_neg (by rw [hok]; decide), h0, h1,
      if_pos (by rw [Cpu.rd_st, if_neg hrx.2, Cpu.rd_st, if_neg hrx.1, h3'])]
  have hokst : ((u.st navailLo bs.length).st navailHi 0).rd mbOk = 1 := by
    rw [Cpu.rd_st, if_neg (by decide), Cpu.rd_st, if_neg (by decide), hok]
  have hreq : pumpRequest ((u.st navailLo bs.length).st navailHi 0) = bs.length := by
    have hlo : ((u.st navailLo bs.length).st navailHi 0).rd navailLo = bs.length := by
      simp [cellBits, Nat.mod_eq_of_lt (show bs.length < 256 by omega)]
    have hhi : ((u.st navailLo bs.length).st navailHi 0).rd navailHi = 0 := by simp
    rw [pumpRequest, hlo, hhi, if_neg (by decide)]
    split <;> omega
  have hread : sesRead (.gives bs) s = netRead (some ⟨0, 6, 0, bs⟩)
      ((((u.st navailLo bs.length).st navailHi 0).st nreqLo bs.length).st nreqHi 0) := by
    simp only [sesRead]
    rw [hstatus, hreq, if_neg]
    · rfl
    · rw [hokst]
      omega
  set v := readRequest
    ((((u.st navailLo bs.length).st navailHi 0).st nreqLo bs.length).st nreqHi 0) with hv
  have hrx : sesRead (.gives bs) s =
      ((mbTransact (some ⟨0, 6, 0, bs⟩) v).st ngotLo bs.length).st ngotHi
        ((mbTransact (some ⟨0, 6, 0, bs⟩) v).rd fnRxlenHi) := by
    have hgot : (mbTransact (some ⟨0, 6, 0, bs⟩) v).rd fnRxlenLo = bs.length := by
      rw [rd_answer_mbTransact rfl (Or.inl (by decide)), rd_fnRxlenLo_mbAnswer]
      exact Nat.mod_eq_of_lt (show bs.length < 256 by omega)
    rw [hread, netRead, ← hv, readReply, if_neg (by rw [rd_mbOk_mbTransact rfl]; decide), hgot]
  have hngot : (sesRead (.gives bs) s).rd ngotLo = bs.length := by
    rw [hrx, Cpu.rd_st, if_neg (by decide), Cpu.rd_st, if_pos rfl,
      cellBits_cart (by decide) (by decide)]
    exact Nat.mod_eq_of_lt (by omega)
  simp only [delivered]
  rw [hstatus, hreq, if_neg (by rw [hokst]; omega), hngot]
  refine List.ext_getElem (by rw [Cpu.rdAll, List.length_map, List.length_range']) fun i h h' => ?_
  have hne : fnRx + i ≠ ngotHi ∧ fnRx + i ≠ ngotLo := by
    simp only [fnRx, ngotHi, ngotLo]
    omega
  simp only [Cpu.rdAll, List.getElem_map, List.getElem_range', Nat.one_mul]
  rw [hrx, Cpu.rd_st, if_neg hne.1, Cpu.rd_st, if_neg hne.2,
    rd_answer_mbTransact rfl (Or.inr (Nat.le_add_right _ _)),
    rd_fnRx_mbAnswer (r := ⟨0, 6, 0, bs⟩) h' (by simp only; omega)]
  rw [List.getD_eq_getElem _ _ h']
  exact Nat.mod_eq_of_lt (hb _ (List.getElem_mem h'))

end gives

/-! ### Frames -/

/-- A frame that the pump recognises: a length byte and as many bytes, the first of them a type that
the length suits. -/
structure Framed (f : List ℕ) : Prop where
  length : f.length = f.getD 0 0 + 1
  ok : flenOk (f.getD 0 0) (f.getD 1 0) = true
  lt : ∀ b ∈ f, b < 256

namespace Framed

variable {f : List ℕ}

theorem length_le (h : Framed f) : f.length ≤ 100 := by
  have := (flenOk_le h.ok).1
  rw [h.length]
  omega

theorem two_le (h : Framed f) : 2 ≤ f.length := by
  have hmin : ∀ t < 0x10, sesFlen.getD t 0 ≠ 0 → 1 ≤ sesFlen.getD t 0 % 256 := by decide
  have hok := h.ok
  simp only [flenOk, decide_eq_true_eq] at hok
  have := hmin _ hok.1 hok.2.1
  rw [h.length]
  omega

end Framed

/-- The frame in `FRMBUF`. -/
def InFrmbuf (f : List ℕ) (s : Cpu) : Prop := ∀ i < f.length, s.rd (frmbuf + i) = f.getD i 0

/-- A frame that has arrived whole is the next one handled. -/
theorem ppParse_frame {s : Cpu} {f rest : List ℕ} (hf : Framed f) (h : rxBytes s = f ++ rest) :
    ppParse s = some (sesOnframe (ppExtract f.length s)) ∧ InFrmbuf f (ppExtract f.length s) ∧
      rxBytes (ppExtract f.length s) = rest := by
  have hlen : f.length + rest.length = buffered s := by
    rw [← length_rxBytes, h, List.length_append]
  have hat : ∀ i < f.length, rxAt s i = f.getD i 0 := fun i hi => by
    rw [← getElem_rxBytes s i (by rw [length_rxBytes]; omega)]
    simp only [h, List.getElem_append_left hi]
    exact (List.getD_eq_getElem _ _ hi).symm
  have h2 := hf.two_le
  have hle := hf.length_le
  refine ⟨?_, fun i hi => ?_, ?_⟩
  · rw [ppParse, hat 0 (by omega), hat 1 (by omega), ← hf.length, if_neg (by omega),
      if_neg (by rw [hf.ok]; decide), if_neg (by omega)]
  · rw [rd_frmbuf_ppExtract s (by omega) hi, hat i hi]
  · rw [rxBytes_ppExtract s (by omega) (by omega), h, List.drop_left]

/-- A frame that has arrived whole, followed by the rest of the loop. -/
theorem ppLoop_frame {s : Cpu} {f rest : List ℕ} (hf : Framed f) (h : rxBytes s = f ++ rest)
    (n : ℕ) : ppLoop (n + 1) s = ppLoop n (sesOnframe (ppExtract f.length s)) := by
  rw [ppLoop, (ppParse_frame hf h).1]

theorem ppLoop_empty {s : Cpu} (h : rxBytes s = []) (n : ℕ) : ppLoop n s = s := by
  have hb : buffered s = 0 := by rw [← length_rxBytes, h, List.length_nil]
  cases n with
  | zero => rfl
  | succ n => rw [ppLoop, ppParse, if_pos (by omega)]

/-- A frame that has not arrived whole waits. -/
theorem ppParse_partial {s : Cpu} {f : List ℕ} (hf : Framed f) (hl : buffered s < f.length)
    (h : rxBytes s = f.take (buffered s)) : ppParse s = none := by
  have hat : ∀ i < buffered s, rxAt s i = f.getD i 0 := fun i hi => by
    rw [← getElem_rxBytes s i (by rw [length_rxBytes]; exact hi)]
    simp only [h, List.getElem_take]
    exact (List.getD_eq_getElem _ _ (by omega)).symm
  rw [ppParse]
  by_cases h2 : buffered s < 2
  · rw [if_pos h2]
  · rw [if_neg h2, hat 0 (by omega), hat 1 (by omega), ← hf.length, if_neg (by rw [hf.ok]; decide),
      if_pos hl]

/-- Handling a frame does not touch the buffer. -/
def KeepsRx (s : Cpu) : Prop := ∀ a, RxCell a → (sesOnframe s).rd a = s.rd a

/-- A pump of an empty buffer that brings one frame handles that frame. -/
theorem sesPump_one {s : Cpu} {f : List ℕ} (hs : rxBytes s = []) (hf : Framed f)
    (hl : f.length ≤ 64) (hk : ∀ t, Local PumpCell s t → InFrmbuf f t → KeepsRx t) :
    ∃ t, Local PumpCell s t ∧ InFrmbuf f t ∧ sesPump (.gives f) s = sesOnframe t ∧
      rxBytes (sesOnframe t) = [] := by
  have hne : f ≠ [] := List.length_pos_iff.1 (by have := hf.two_le; omega)
  have hd := delivered_gives (s := s) hne hl hf.lt
  have hrx : rxBytes (sesFetch (.gives f) s) = f ++ [] := by
    rw [rxBytes_sesFetch (by rw [hd, ← length_rxBytes, hs, List.length_nil]; omega), hs, hd,
      List.nil_append, List.append_nil]
  obtain ⟨-, hbuf, hrest⟩ := ppParse_frame hf hrx
  have ht := (local_sesFetch (.gives f) s).trans
    (local_ppExtract (n := f.length) (by omega) (sesFetch (.gives f) s))
  have hend := (rxBytes_congr (hk _ ht hbuf)).trans hrest
  refine ⟨_, ht, hbuf, ?_, hend⟩
  rw [sesPump, ppLoop_frame hf hrx, ppLoop_empty hend]

/-- A pump of an empty buffer that brings two frames handles them in turn. -/
theorem sesPump_two {s : Cpu} {f g : List ℕ} (hs : rxBytes s = []) (hf : Framed f)
    (hg : Framed g) (hl : f.length + g.length ≤ 64)
    (hk : ∀ t, Local PumpCell s t → InFrmbuf f t → KeepsRx t)
    (hk' : ∀ t u, Local PumpCell s t → InFrmbuf f t → Local PumpCell (sesOnframe t) u →
      InFrmbuf g u → KeepsRx u) :
    ∃ t u, Local PumpCell s t ∧ InFrmbuf f t ∧ Local PumpCell (sesOnframe t) u ∧ InFrmbuf g u ∧
      sesPump (.gives (f ++ g)) s = sesOnframe u ∧ rxBytes (sesOnframe u) = [] := by
  have h2 := hf.two_le
  have h2' := hg.two_le
  have hlen : (f ++ g).length = f.length + g.length := List.length_append
  have hne : f ++ g ≠ [] := List.length_pos_iff.1 (by omega)
  have hlt : ∀ b ∈ f ++ g, b < 256 := fun b hb =>
    (List.mem_append.1 hb).elim (hf.lt b) (hg.lt b)
  have hd := delivered_gives (s := s) hne (by omega) hlt
  have hrx : rxBytes (sesFetch (.gives (f ++ g)) s) = f ++ g := by
    rw [rxBytes_sesFetch (by rw [hd, ← length_rxBytes, hs, List.length_nil]; omega), hs, hd,
      List.nil_append]
  have hext : ∀ {n : ℕ} (v : Cpu), n ≤ 64 → Local PumpCell v (ppExtract n v) := fun v hn =>
    local_ppExtract (by omega) v
  obtain ⟨-, hbuf, hrest⟩ := ppParse_frame hf hrx
  have ht := (local_sesFetch (.gives (f ++ g)) s).trans
    (hext (n := f.length) (sesFetch (.gives (f ++ g)) s) (by omega))
  set t := ppExtract f.length (sesFetch (.gives (f ++ g)) s) with htdef
  have hrx' : rxBytes (sesOnframe t) = g ++ [] := by
    rw [List.append_nil, ← hrest]
    exact rxBytes_congr (hk t ht hbuf)
  obtain ⟨-, hbuf', hrest'⟩ := ppParse_frame hg hrx'
  have hu := hext (n := g.length) (sesOnframe t) (by omega)
  have hend := (rxBytes_congr (hk' t _ ht hbuf hu hbuf')).trans hrest'
  refine ⟨t, _, ht, hbuf, hu, hbuf', ?_, hend⟩
  rw [sesPump, ppLoop_frame hf hrx, ppLoop_frame hg hrx', ppLoop_empty hend]

/-- What is in the buffer, and what is still unread, are the given frames; the first of them has not
arrived whole. -/
structure Aligned (unread : List ℕ) (fs : List (List ℕ)) (s : Cpu) : Prop where
  framed : ∀ f ∈ fs, Framed f
  stream : rxBytes s ++ unread = fs.flatten
  waiting : ∀ f ∈ fs.head?, buffered s < f.length

theorem Aligned.buffered_lt {unread : List ℕ} {fs : List (List ℕ)} {s : Cpu}
    (h : Aligned unread fs s) : buffered s < 100 := by
  cases fs with
  | nil =>
    have := (buf_nil_of_stream h.stream).1
    rw [← length_rxBytes, this]
    decide
  | cons f fs =>
    have h1 := h.waiting f (by simp)
    have h2 := (h.framed f (by simp)).length_le
    omega

/-- The loop on a stream of frames: `P i` holds after `i` of them.  Every frame after the first fits
in what the last read brought. -/
theorem ppLoop_frames {P : ℕ → Cpu → List (List ℕ) → Prop} {unread : List ℕ} {room : ℕ}
    (hkeep : ∀ i t f fs, P i t (f :: fs) → Framed f → InFrmbuf f (ppExtract f.length t) →
      (i = 0 ∨ f.length < room) → KeepsRx (ppExtract f.length t) ∧
        P (i + 1) (sesOnframe (ppExtract f.length t)) fs)
    (n i : ℕ) {s : Cpu} {fs : List (List ℕ)} (hf : ∀ f ∈ fs, Framed f)
    (hs : rxBytes s ++ unread = fs.flatten) (hn : buffered s ≤ n)
    (hroom : i = 0 ∧ (∀ f ∈ fs.head?, buffered s < f.length + room) ∨ buffered s < room)
    (h : P i s fs) :
    ∃ j gs, P j (ppLoop n s) gs ∧ Aligned unread gs (ppLoop n s) := by
  induction n generalizing i s fs with
  | zero =>
    refine ⟨i, fs, h, hf, hs, fun f hfs => ?_⟩
    have := (hf f (List.mem_of_mem_head? hfs)).two_le
    rw [ppLoop]
    omega
  | succ n ih =>
    cases fs with
    | nil =>
      have hb : buffered s = 0 := by
        rw [← length_rxBytes, (buf_nil_of_stream hs).1, List.length_nil]
      have hp : ppParse s = none := by rw [ppParse, if_pos (by omega)]
      rw [ppLoop, hp]
      exact ⟨i, [], h, hf, hs, by simp⟩
    | cons f fs =>
      have hff : Framed f := hf f (by simp)
      by_cases hl : f.length ≤ buffered s
      · obtain ⟨hsplit, hrest⟩ := head_of_stream hs (by rw [length_rxBytes]; exact hl)
        obtain ⟨hp, hbuf, hrx⟩ := ppParse_frame hff hsplit
        have hfit : i = 0 ∨ f.length < room := by
          rcases hroom with hr | hr
          · exact Or.inl hr.1
          · right; omega
        obtain ⟨hk, hP⟩ := hkeep i s f fs h hff hbuf hfit
        have hrx' : rxBytes (sesOnframe (ppExtract f.length s)) =
            (rxBytes s).drop f.length := (rxBytes_congr hk).trans hrx
        have hb : buffered (sesOnframe (ppExtract f.length s)) = buffered s - f.length := by
          rw [← length_rxBytes, hrx', List.length_drop, length_rxBytes]
        have h2 := hff.two_le
        rw [ppLoop, hp]
        refine ih (i + 1) (fun g hg => hf g (by simp [hg])) (by rw [hrx']; exact hrest)
          (by omega) (Or.inr ?_) hP
        rcases hroom with hr | hr
        · have := hr.2 f (by simp)
          omega
        · omega
      · have hwait : buffered s < f.length := by omega
        have hpre := prefix_of_stream hs (by rw [length_rxBytes]; exact hwait)
        rw [length_rxBytes] at hpre
        rw [ppLoop, ppParse_partial hff hwait hpre]
        exact ⟨i, f :: fs, h, hf, hs, by simpa using hwait⟩

/-- A pump on a stream of frames. -/
theorem sesPump_frames {P : ℕ → Cpu → List (List ℕ) → Prop} {p : Poll} {s : Cpu}
    {unread : List ℕ} {fs : List (List ℕ)}
    (hal : Aligned (delivered p s ++ unread) fs s) (hread : (delivered p s).length ≤ 64)
    (h : P 0 (sesFetch p s) fs)
    (hstep : ∀ i t f fs, P i t (f :: fs) → Framed f → InFrmbuf f (ppExtract f.length t) →
      (i = 0 ∨ f.length < 64) → KeepsRx (ppExtract f.length t) ∧
        P (i + 1) (sesOnframe (ppExtract f.length t)) fs) :
    ∃ j gs, P j (sesPump p s) gs ∧ Aligned unread gs (sesPump p s) := by
  have hb := hal.buffered_lt
  have hrx := rxBytes_sesFetch (p := p) (s := s) (by omega)
  have hlen : buffered (sesFetch p s) = buffered s + (delivered p s).length := by
    rw [← length_rxBytes, hrx, List.length_append, length_rxBytes]
  refine ppLoop_frames hstep 256 0 hal.framed (by rw [hrx, List.append_assoc]; exact hal.stream)
    (by omega) (Or.inl ⟨rfl, fun f hf => ?_⟩) h
  have := hal.waiting f hf
  omega

end IntvNetplay.Console
