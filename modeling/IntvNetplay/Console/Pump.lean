import IntvNetplay.Console.Frames

/-!
# The pump

`SES_PUMP` as a transformer of the byte stream in the circular buffer: a fetch appends what the
mailbox returned, a slip drops one byte, a complete frame is moved to `FRMBUF` and handled.
`sesPump_induct` is the rule by which a property survives a pump.
-/

namespace IntvNetplay.Console

open IntvNetplay.Machine

/-! ### Footprints -/

/-- The circular buffer and its indices. -/
def RxCell (a : ℕ) : Prop := a = rxWr ∨ a = rxRd ∨ rxacc ≤ a ∧ a < rxacc + 256

/-- What the pump itself may change. -/
def PumpCell (a : ℕ) : Prop := MailCell a ∨ RxCell a ∨ frmbuf ≤ a ∧ a < frmbuf + 0x80

instance : DecidablePred RxCell := fun a => by unfold RxCell; infer_instance
instance : DecidablePred PumpCell := fun a => by unfold PumpCell; infer_instance

theorem rxAt_lt (s : Cpu) (i : ℕ) : rxAt s i < 256 :=
  s.rd_lt_256 (Or.inr ⟨by simp only [rxacc]; omega, by simp only [rxacc]; omega⟩)

section footprint

variable {s t : Cpu}

theorem Local.rxPut (h : Local PumpCell s t) (b : ℕ) : Local PumpCell s (rxPut t b) := by
  have hw : t.rd rxWr < 256 := t.rd_lt_256 (by decide)
  refine Local.st (h.st ?_) (by decide)
  exact Or.inr (Or.inl (Or.inr (Or.inr ⟨by omega, by omega⟩)))

theorem mail_pump {a : ℕ} (h : MailCell a) : PumpCell a := Or.inl h

theorem local_sesFetch (p : Poll) (s : Cpu) : Local PumpCell s (sesFetch p s) := by
  have hst : Local PumpCell s (netStatus p.status s) :=
    Local.netStatus (fun _ => mail_pump) _ (Local.refl s)
  refine Local.ite (fun _ => hst) fun _ => ?_
  refine Local.foldl (fun t b => (Local.refl t).rxPut b) ?_ _
  exact Local.netRead (fun _ => mail_pump) _ ((hst.st (by decide)).st (by decide))

theorem local_ppSlip (s : Cpu) : Local PumpCell s (ppSlip s) :=
  Local.diagBump ((Local.refl s).st (by decide)) (by decide)

theorem local_ppExtract {n : ℕ} (hn : n ≤ 0x80) (s : Cpu) : Local PumpCell s (ppExtract n s) := by
  refine Local.st ((Local.refl s).stAll fun x h1 h2 => ?_) (by decide)
  rw [List.length_map, List.length_range] at h2
  exact Or.inr (Or.inr ⟨h1, by omega⟩)

end footprint

/-! ### The loop -/

/-- Every length byte that suits a type byte is below 100. -/
theorem flenOk_le {len type : ℕ} (h : flenOk len type = true) :
    len ≤ 99 ∧ type < 0x10 ∧ sesFlen.getD type 0 % 256 ≤ len ∧ len ≤ sesFlen.getD type 0 / 256 := by
  simp only [flenOk, decide_eq_true_eq] at h
  obtain ⟨h1, -, h2, h3⟩ := h
  have hmax : ∀ t < 0x10, sesFlen.getD t 0 / 256 ≤ 99 := by decide
  exact ⟨h3.trans (hmax type h1), h1, h2, h3⟩

/-- One round either drops a byte or handles a frame. -/
theorem ppParse_cases {s t : Cpu} (h : ppParse s = some t) :
    2 ≤ buffered s ∧
      (flenOk (rxAt s 0) (rxAt s 1) = false ∧ t = ppSlip s ∨
        flenOk (rxAt s 0) (rxAt s 1) = true ∧ rxAt s 0 + 1 ≤ buffered s ∧
          t = sesOnframe (ppExtract (rxAt s 0 + 1) s)) := by
  unfold ppParse at h
  split_ifs at h with h1 h2 h3
  · exact ⟨by omega, Or.inl ⟨h2, (Option.some.inj h).symm⟩⟩
  · refine ⟨by omega, Or.inr ⟨by simpa using h2, by omega, (Option.some.inj h).symm⟩⟩

/-- A property that a slip and the handling of a frame preserve survives the loop. -/
theorem ppLoop_induct {P : Cpu → Prop} (hslip : ∀ t, P t → P (ppSlip t))
    (hframe : ∀ t, P t → flenOk (rxAt t 0) (rxAt t 1) = true → rxAt t 0 + 1 ≤ buffered t →
      P (sesOnframe (ppExtract (rxAt t 0 + 1) t)))
    (n : ℕ) {s : Cpu} (h : P s) : P (ppLoop n s) := by
  induction n generalizing s with
  | zero => exact h
  | succ n ih =>
    rw [ppLoop]
    cases hp : ppParse s with
    | none => exact h
    | some t =>
      obtain ⟨-, ⟨-, rfl⟩ | ⟨h1, h2, rfl⟩⟩ := ppParse_cases hp
      · exact ih (hslip s h)
      · exact ih (hframe s h h1 h2)

theorem sesPump_induct {P : Cpu → Prop} {p : Poll} {s : Cpu} (hfetch : P (sesFetch p s))
    (hslip : ∀ t, P t → P (ppSlip t))
    (hframe : ∀ t, P t → flenOk (rxAt t 0) (rxAt t 1) = true → rxAt t 0 + 1 ≤ buffered t →
      P (sesOnframe (ppExtract (rxAt t 0 + 1) t))) :
    P (sesPump p s) :=
  ppLoop_induct hslip hframe 256 hfetch

/-! ### The byte stream in the buffer -/

/-- The bytes waiting in the circular buffer. -/
def rxBytes (s : Cpu) : List ℕ := (List.range (buffered s)).map (rxAt s)

@[simp] theorem length_rxBytes (s : Cpu) : (rxBytes s).length = buffered s := by
  rw [rxBytes, List.length_map, List.length_range]

theorem getElem_rxBytes (s : Cpu) (i : ℕ) (h : i < (rxBytes s).length) :
    (rxBytes s)[i] = rxAt s i := by
  simp [rxBytes]

theorem mem_rxBytes_lt {s : Cpu} {b : ℕ} (h : b ∈ rxBytes s) : b < 256 := by
  rw [rxBytes, List.mem_map] at h
  obtain ⟨i, -, rfl⟩ := h
  exact rxAt_lt s i

theorem rxBytes_congr {s t : Cpu} (h : ∀ a, RxCell a → t.rd a = s.rd a) :
    rxBytes t = rxBytes s := by
  have hb : buffered t = buffered s := by
    rw [buffered, buffered, h _ (Or.inl rfl), h _ (Or.inr (Or.inl rfl))]
  have ha : ∀ i, rxAt t i = rxAt s i := fun i => by
    rw [rxAt, rxAt, h _ (Or.inr (Or.inl rfl))]
    exact h _ (Or.inr (Or.inr ⟨by omega, by omega⟩))
  rw [rxBytes, rxBytes, hb]
  exact List.map_congr_left fun i _ => ha i

theorem rxBytes_local {P : ℕ → Prop} {s t : Cpu} (h : Within P s t) (hP : ∀ a, RxCell a → ¬ P a) :
    rxBytes t = rxBytes s :=
  rxBytes_congr fun a ha => h.rd a (hP a ha)

section stream

variable (s : Cpu)

/-- Storing a byte appends it to the stream, as long as there is room. -/
theorem rxBytes_rxPut {b : ℕ} (hb : b < 256) (hroom : buffered s < 255) :
    rxBytes (rxPut s b) = rxBytes s ++ [b] := by
  have hw : s.rd rxWr < 256 := s.rd_lt_256 (by decide)
  have hr : s.rd rxRd < 256 := s.rd_lt_256 (by decide)
  have hcell : cellBits (rxacc + s.rd rxWr) = 8 :=
    cellBits_cart (by simp only [rxacc]; omega) (by simp only [rxacc]; omega)
  have hwr : rxWr ≠ rxacc + s.rd rxWr := by simp only [rxWr, rxacc]; omega
  have hrd : rxRd ≠ rxacc + s.rd rxWr := by simp only [rxRd, rxacc]; omega
  have hW : (rxPut s b).rd rxWr = (s.rd rxWr + 1) % 256 := by
    simp only [rxPut]
    rw [Cpu.rd_st, if_pos rfl, Cpu.rd_st, if_neg hwr]
    exact Nat.mod_mod _ _
  have hR : (rxPut s b).rd rxRd = s.rd rxRd := by
    simp only [rxPut]
    rw [Cpu.rd_st, if_neg (by decide), Cpu.rd_st, if_neg hrd]
  have hA : ∀ a, rxacc ≤ a → a < rxacc + 256 →
      (rxPut s b).rd a = if a = rxacc + s.rd rxWr then b else s.rd a := by
    intro a h1 h2
    have hne : a ≠ rxWr := by simp only [rxacc, rxWr] at *; omega
    simp only [rxPut]
    rw [Cpu.rd_st, if_neg hne, Cpu.rd_st, hcell]
    exact if_congr Iff.rfl (Nat.mod_eq_of_lt hb) rfl
  have hlen : buffered (rxPut s b) = buffered s + 1 := by
    unfold buffered at hroom ⊢
    rw [hW, hR]
    omega
  refine List.ext_getElem (by simp [hlen]) fun i hi hi' => ?_
  rw [length_rxBytes, hlen] at hi
  rw [getElem_rxBytes, rxAt, hR, hA _ (by omega) (by omega)]
  unfold buffered at hi hroom
  by_cases hlast : i < buffered s
  · rw [List.getElem_append_left (by simpa using hlast), getElem_rxBytes, if_neg, rxAt]
    unfold buffered at hlast
    omega
  · rw [List.getElem_append_right (by simpa using Nat.le_of_not_lt hlast), if_pos]
    · simp
    · unfold buffered at hlast
      omega

theorem rxBytes_foldl {bs : List ℕ} (hb : ∀ b ∈ bs, b < 256) (hroom : buffered s + bs.length < 256) :
    rxBytes (bs.foldl rxPut s) = rxBytes s ++ bs := by
  induction bs generalizing s with
  | nil => simp
  | cons b bs ih =>
    have hput := rxBytes_rxPut s (hb b (by simp)) (by simp only [List.length_cons] at hroom; omega)
    have hlen : buffered (rxPut s b) = buffered s + 1 := by
      rw [← length_rxBytes, hput, List.length_append, length_rxBytes]
      rfl
    rw [List.foldl_cons, ih _ (fun b' h' => hb b' (by simp [h'])), hput, List.append_assoc,
      List.singleton_append]
    rw [hlen]
    simp only [List.length_cons] at hroom
    omega

/-- A frame moved to `FRMBUF` leaves the stream. -/
theorem rxBytes_ppExtract {n : ℕ} (hn : n ≤ 0x80) (h : n ≤ buffered s) :
    rxBytes (ppExtract n s) = (rxBytes s).drop n := by
  have hr : s.rd rxRd < 256 := s.rd_lt_256 (by decide)
  have hkeep : ∀ a, RxCell a → a ≠ rxRd → (ppExtract n s).rd a = s.rd a := by
    intro a ha hne
    rw [ppExtract, Cpu.rd_st, if_neg hne]
    refine Cpu.rd_stAll_of_not _ _ _ _ ?_
    rw [List.length_map, List.length_range]
    simp only [RxCell, rxWr, rxRd, rxacc, frmbuf] at *
    omega
  have hR : (ppExtract n s).rd rxRd = (s.rd rxRd + n) % 256 := by
    rw [ppExtract, Cpu.rd_st, if_pos rfl]
    exact Nat.mod_mod _ _
  have hlen : buffered (ppExtract n s) = buffered s - n := by
    unfold buffered at h ⊢
    rw [hR, hkeep _ (Or.inl rfl) (by decide)]
    have hw : s.rd rxWr < 256 := s.rd_lt_256 (by decide)
    omega
  refine List.ext_getElem (by simp [hlen]) fun i hi hi' => ?_
  rw [getElem_rxBytes, List.getElem_drop, getElem_rxBytes, rxAt, rxAt, hR,
    hkeep _ (Or.inr (Or.inr ⟨by omega, by omega⟩)) (by simp only [rxacc, rxRd]; omega)]
  congr 2
  omega

/-- The frame in `FRMBUF` is what was at the head of the stream. -/
theorem rd_frmbuf_ppExtract {n i : ℕ} (hn : n ≤ 0x80) (hi : i < n) :
    (ppExtract n s).rd (frmbuf + i) = rxAt s i := by
  have hw : cellBits (frmbuf + i) = 8 :=
    cellBits_cart (by simp only [frmbuf]; omega) (by simp only [frmbuf]; omega)
  rw [ppExtract, Cpu.rd_st, if_neg (by simp only [frmbuf, rxRd]; omega), Cpu.rd_stAll,
    if_pos (by rw [List.length_map, List.length_range]; omega), hw, Nat.add_sub_cancel_left,
    List.getD_eq_getElem?_getD, List.getElem?_map, List.getElem?_range hi]
  exact Nat.mod_eq_of_lt (rxAt_lt s i)

end stream

end IntvNetplay.Console
