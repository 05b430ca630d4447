import IntvNetplay.Console.Duo

/-!
# What a resync is caused by

`RS_RECORD_CRC` keeps a record for each of the last four checkpoints, `RS_ON_CRC` compares a peer's
checksum against it, and `RS_PEND` leads to a push at the host.  The log tells what the records and
`RS_PEND` stand for: a record is the report of its slot that was made last on this base, a mismatch is
found against such a report, and a push has a mismatch or a request behind it that no rebase has come
after.  `Checked` is what every step keeps.
-/

namespace IntvNetplay.Console

open IntvNetplay.Machine

/-! ### The entries -/

/-- What is told of records, requests and pushes. -/
def Ev.Checks : Ev → Prop
  | .report _ _ | .mismatch _ _ _ | .request _ true | .push _ | .rebase _ _ _ _ => True
  | _ => False

/-- A report of the slot. -/
def Stamped.Reports (e : Stamped) (j : ℕ) : Prop := ∃ t c, e.ev = .report t c ∧ t / 64 % 4 = j

/-- `RS_PEND` was set. -/
def Stamped.Wants (e : Stamped) : Prop :=
  (∃ t own peer, e.ev = .mismatch t own peer) ∨ ∃ t, e.ev = .request t true

def Stamped.Rebases (e : Stamped) : Prop := ∃ t im c held, e.ev = .rebase t im c held

section entries

variable {e : Stamped} {j : ℕ}

theorem Stamped.Reports.checks (h : e.Reports j) : e.ev.Checks := by
  obtain ⟨t, c, he, -⟩ := h
  rw [he]
  trivial

theorem Stamped.Wants.checks (h : e.Wants) : e.ev.Checks := by
  rcases h with ⟨t, own, peer, he⟩ | ⟨t, he⟩ <;> rw [he] <;> trivial

theorem Stamped.Rebases.checks (h : e.Rebases) : e.ev.Checks := by
  obtain ⟨t, im, c, held, he⟩ := h
  rw [he]
  trivial

theorem Stamped.not_reports (h : ∀ t c, e.ev ≠ .report t c) (j : ℕ) : ¬ e.Reports j := by
  rintro ⟨t, c, he, -⟩
  exact h t c he

theorem Stamped.not_rebases (h : ∀ t im c held, e.ev ≠ .rebase t im c held) : ¬ e.Rebases := by
  rintro ⟨t, im, c, held, he⟩
  exact h t im c held he

end entries

/-! ### The records -/

/-- The tick and the checksum of a record. -/
def record (j : ℕ) (s : Cpu) : ℕ × ℕ :=
  (s.rd16 (ownCrc + 4 * j) (ownCrc + 4 * j + 1), s.rd16 (ownCrc + 4 * j + 2) (ownCrc + 4 * j + 3))

/-- What `RS_CLR_CRC` leaves of a record. -/
def noRecord : ℕ × ℕ := (0xFFFF, 0xFFFF)

/-- `RS_ON_CRC` gets to its comparison, `RS_PEND` apart. -/
def Comparing (s : Cpu) : Prop := s.rd resyncHold = 0 ∧ s.rd netDropped = 0

/-- The slot has no record. -/
structure Vacant (j : ℕ) (s : Cpu) : Prop where
  cells : record j s = noRecord
  none : Comparing s → ∀ r ∈ s.log, r.epoch = s.mark.epoch → ¬ r.Reports j

/-- The record of the slot is the last report that was made on this base. -/
structure Latest (j : ℕ) (s : Cpu) (r : Stamped) (t c : ℕ) : Prop where
  mem : r ∈ s.log
  epoch : r.epoch = s.mark.epoch
  ev : r.ev = .report t c
  tick : t % 64 = 0
  slot : t / 64 % 4 = j
  cells : record j s = (t, c)
  last : Comparing s → ∀ r' ∈ s.log, r'.epoch = s.mark.epoch → r'.Reports j → r' = r ∨ r'.ran < r.ran

/-- What the records, the mismatches and the pushes come from.  Up to the first START or rebase the
records are what the cells held before. -/
structure Checked (s : Cpu) : Prop where
  order : ∀ e ∈ s.log, e.ev.Checks →
    e.epoch ≤ s.mark.epoch ∧ (e.epoch = s.mark.epoch → e.ran ≤ s.mark.ran)
  reported : ∀ j, ∀ r ∈ s.log, r.Reports j → r.epoch = s.mark.epoch → r.ran < s.mark.ran
  slots : s.mark.epoch ≠ 0 → ∀ j < 4, Vacant j s ∨ ∃ r t c, Latest j s r t c
  sound : ∀ e ∈ s.log, ∀ t own peer, e.ev = .mismatch t own peer → own ≠ peer ∧
    (e.epoch = 0 ∨ (t, own) = noRecord ∨
      ∃ r ∈ s.log, r.ev = .report t own ∧ r.epoch = e.epoch ∧ r.ran < e.ran)
  pend : s.rd rsPend ≠ 0 → ∃ m ∈ s.log, m.Wants ∧ ∀ b ∈ s.log, b.Rebases → b.epoch ≤ m.epoch
  caused : ∀ p ∈ s.log, ∀ t, p.ev = .push t → ∃ m ∈ s.log, m.Wants ∧
    (m.epoch < p.epoch ∨ m.epoch = p.epoch ∧ m.ran ≤ p.ran) ∧
      ∀ b ∈ s.log, b.Rebases → b.epoch ≤ m.epoch ∨ p.epoch < b.epoch

section keep

variable {s t : Cpu} {P : ℕ → Prop}

/-- A record by its four cells. -/
theorem record_of_cells {j : ℕ} (hj : j < 4) {f : ℕ → ℕ} (h : ∀ x, CrcCell x → t.rd x = f x) :
    record j t = (word (f (ownCrc + 4 * j)) (f (ownCrc + 4 * j + 1)),
      word (f (ownCrc + 4 * j + 2)) (f (ownCrc + 4 * j + 3))) := by
  have hcell : ∀ i < 4, CrcCell (ownCrc + 4 * j + i) := fun i hi => by
    simp only [CrcCell]
    omega
  have h0 := h _ (hcell 0 (by decide))
  rw [Nat.add_zero] at h0
  simp only [record, Cpu.rd16, h0, h _ (hcell 1 (by decide)), h _ (hcell 2 (by decide)),
    h _ (hcell 3 (by decide))]

theorem record_congr {j : ℕ} (hj : j < 4) (h : ∀ x, CrcCell x → t.rd x = s.rd x) :
    record j t = record j s := record_of_cells hj h

theorem record_clear {j : ℕ} (hj : j < 4) (h : ∀ x, CrcCell x → t.rd x = 0xFF) :
    record j t = noRecord := by
  rw [record_of_cells hj h]
  rfl

/-- The same entries and the same cells. -/
theorem Checked.of_same (h : Checked s) (hcrc : ∀ x, CrcCell x → t.rd x = s.rd x)
    (hpend : t.rd rsPend = s.rd rsPend) (hcmp : Comparing t → Comparing s)
    (hepoch : t.mark.epoch = s.mark.epoch) (hran : s.mark.ran ≤ t.mark.ran)
    (hlog : ∀ e : Stamped, e.ev.Checks → (e ∈ t.log ↔ e ∈ s.log)) : Checked t where
  order e he hc := by
    rw [hepoch]
    exact (h.order e ((hlog e hc).1 he) hc).imp_right fun ho he => (ho he).trans hran
  reported j r hr hj he := by
    rw [hepoch] at he
    exact Nat.lt_of_lt_of_le (h.reported j r ((hlog r hj.checks).1 hr) hj he) hran
  slots h0 j hj := by
    refine (h.slots (hepoch ▸ h0) j hj).imp (fun hv => ⟨?_, fun ht r hr => ?_⟩) ?_
    · rw [record_congr hj hcrc]
      exact hv.cells
    · rw [hepoch]
      exact fun he hrep => hv.none (hcmp ht) r ((hlog r hrep.checks).1 hr) he hrep
    · rintro ⟨r, tick, c, hl⟩
      have hchk : r.ev.Checks := by rw [hl.ev]; trivial
      refine ⟨r, tick, c, (hlog r hchk).2 hl.mem, hl.epoch.trans hepoch.symm, hl.ev, hl.tick, hl.slot,
        (record_congr hj hcrc).trans hl.cells, fun ht r' hr' he hrep => ?_⟩
      exact hl.last (hcmp ht) r' ((hlog r' hrep.checks).1 hr') (he.trans hepoch) hrep
  sound e he tick own peer hev := by
    have hchk : e.ev.Checks := by rw [hev]; trivial
    obtain ⟨hne, hrec⟩ := h.sound e ((hlog e hchk).1 he) tick own peer hev
    refine ⟨hne, hrec.imp_right (Or.imp_right ?_)⟩
    rintro ⟨r, hr, hrev, hr'⟩
    exact ⟨r, (hlog r (by rw [hrev]; trivial)).2 hr, hrev, hr'⟩
  pend hp := by
    rw [hpend] at hp
    obtain ⟨m, hm, hw, hb⟩ := h.pend hp
    exact ⟨m, (hlog m hw.checks).2 hm, hw, fun b hb' hreb => hb b ((hlog b hreb.checks).1 hb') hreb⟩
  caused p hp tick hev := by
    obtain ⟨m, hm, hw, hle, hb⟩ := h.caused p ((hlog p (by rw [hev]; trivial)).1 hp) tick hev
    exact ⟨m, (hlog m hw.checks).2 hm, hw, hle,
      fun b hb' hreb => hb b ((hlog b hreb.checks).1 hb') hreb⟩

/-- Nothing is added that is told of. -/
theorem Checked.of_quiet (h : Checked s) (hw : Within P s t)
    (hP : ∀ x, CrcCell x → ¬ P x) (hpend : ¬ P rsPend) (hhold : Comparing t → Comparing s)
    (hepoch : t.mark.epoch = s.mark.epoch) (hran : s.mark.ran ≤ t.mark.ran)
    (ha : Adds (fun e => ¬ e.Checks) s t) : Checked t :=
  h.of_same (fun x hx => hw.rd x (hP x hx)) (hw.rd _ hpend) hhold hepoch hran fun e hc =>
    ⟨fun he => (ha e he).resolve_right fun hn => hn hc, fun he => hw.grows.subset he⟩

/-- `RS_CLR_CRC`, and what is compared no more. -/
theorem Checked.of_clear (h : Checked s) (hcrc : ∀ x, CrcCell x → t.rd x = 0xFF)
    (hpend : t.rd rsPend = s.rd rsPend) (hcmp : ¬ Comparing t) (hmark : t.mark = s.mark)
    (hlog : t.log = s.log) : Checked t where
  order := by
    rw [hmark, hlog]
    exact h.order
  reported := by
    rw [hmark, hlog]
    exact h.reported
  slots _ j hj := .inl ⟨record_clear hj hcrc, fun ht => absurd ht hcmp⟩
  sound := by
    rw [hlog]
    exact h.sound
  pend := by
    rw [hpend, hlog]
    exact h.pend
  caused := by
    rw [hlog]
    exact h.caused

/-- A mismatch, a request or a push is added. -/
theorem Checked.add {x : Stamped} (h : Checked s) (hlog : t.log = x :: s.log)
    (hx : x.epoch = s.mark.epoch ∧ x.ran = s.mark.ran)
    (hmark : t.mark.epoch = s.mark.epoch ∧ t.mark.ran = s.mark.ran)
    (hcrc : ∀ a, CrcCell a → t.rd a = s.rd a) (hcmp : Comparing t → Comparing s)
    (hrep : ∀ j, ¬ x.Reports j) (hreb : ¬ x.Rebases)
    (hsound : ∀ tick own peer, x.ev = .mismatch tick own peer → own ≠ peer ∧
      (x.epoch = 0 ∨ (tick, own) = noRecord ∨
        ∃ r ∈ s.log, r.ev = .report tick own ∧ r.epoch = x.epoch ∧ r.ran < x.ran))
    (hpend : t.rd rsPend ≠ 0 → s.rd rsPend ≠ 0 ∨ x.Wants)
    (hpush : ∀ tick, x.ev = .push tick → s.rd rsPend ≠ 0) : Checked t := by
  have hmem : ∀ {e : Stamped}, e ∈ t.log → e = x ∨ e ∈ s.log := fun he =>
    List.mem_cons.1 (hlog ▸ he)
  have hold : ∀ {e : Stamped}, e ∈ s.log → e ∈ t.log := fun he => hlog ▸ List.mem_cons_of_mem _ he
  have hbase : ∀ b ∈ t.log, b.Rebases → b ∈ s.log := fun b hb hr =>
    (hmem hb).resolve_left fun he => hreb (he ▸ hr)
  have horder : ∀ m ∈ s.log, m.Wants → m.epoch < x.epoch ∨ m.epoch = x.epoch ∧ m.ran ≤ x.ran := by
    intro m hm hw
    obtain ⟨h1, h2⟩ := h.order m hm hw.checks
    rw [hx.1, hx.2]
    exact (Nat.lt_or_eq_of_le h1).imp_right fun he => ⟨he, h2 he⟩
  refine ⟨fun e he hc => ?_, fun j r hr hj he => ?_, fun h0 j hj => ?_, fun e he tick own peer hev => ?_,
    fun hp => ?_, fun p hp tick hev => ?_⟩
  · rw [hmark.1, hmark.2]
    rcases hmem he with rfl | he
    · exact ⟨Nat.le_of_eq hx.1, fun _ => Nat.le_of_eq hx.2⟩
    · exact h.order e he hc
  · rw [hmark.1] at he
    rw [hmark.2]
    rcases hmem hr with rfl | hr
    · exact absurd hj (hrep j)
    · exact h.reported j r hr hj he
  · refine (h.slots (hmark.1 ▸ h0) j hj).imp (fun hv => ⟨?_, fun ht r hr he hj' => ?_⟩) ?_
    · rw [record_congr hj hcrc]
      exact hv.cells
    · rcases hmem hr with rfl | hr
      · exact hrep j hj'
      · exact hv.none (hcmp ht) r hr (he.trans hmark.1) hj'
    · rintro ⟨r, tick, c, hl⟩
      refine ⟨r, tick, c, hold hl.mem, hl.epoch.trans hmark.1.symm, hl.ev, hl.tick, hl.slot,
        (record_congr hj hcrc).trans hl.cells, fun ht r' hr' he hj' => ?_⟩
      rcases hmem hr' with rfl | hr'
      · exact absurd hj' (hrep j)
      · exact hl.last (hcmp ht) r' hr' (he.trans hmark.1) hj'
  · rcases hmem he with rfl | he
    · obtain ⟨hne, hrec⟩ := hsound tick own peer hev
      exact ⟨hne, hrec.imp_right (Or.imp_right fun ⟨r, hr, hr'⟩ => ⟨r, hold hr, hr'⟩)⟩
    · obtain ⟨hne, hrec⟩ := h.sound e he tick own peer hev
      exact ⟨hne, hrec.imp_right (Or.imp_right fun ⟨r, hr, hr'⟩ => ⟨r, hold hr, hr'⟩)⟩
  · rcases hpend hp with hp | hw
    · obtain ⟨m, hm, hw, hb⟩ := h.pend hp
      exact ⟨m, hold hm, hw, fun b hb' hr => hb b (hbase b hb' hr) hr⟩
    · refine ⟨x, hlog ▸ List.mem_cons_self, hw, fun b hb hr => ?_⟩
      rw [hx.1]
      exact (h.order b (hbase b hb hr) hr.checks).1
  · rcases hmem hp with rfl | hp
    · obtain ⟨m, hm, hw, hb⟩ := h.pend (hpush tick hev)
      exact ⟨m, hold hm, hw, horder m hm hw, fun b hb' hr => .inl (hb b (hbase b hb' hr) hr)⟩
    · obtain ⟨m, hm, hw, hle, hb⟩ := h.caused p hp tick hev
      exact ⟨m, hold hm, hw, hle, fun b hb' hr => hb b (hbase b hb' hr) hr⟩

/-- A report takes the place of its slot's record. -/
theorem Checked.report {x : Stamped} {tick c : ℕ} (h : Checked s) (hlog : t.log = x :: s.log)
    (hx : x.epoch = s.mark.epoch ∧ x.ran = s.mark.ran) (hev : x.ev = .report tick c)
    (h64 : tick % 64 = 0) (hmark : t.mark.epoch = s.mark.epoch ∧ t.mark.ran = s.mark.ran + 1)
    (hrec : ∀ j < 4, record j t = if j = tick / 64 % 4 then (tick, c) else record j s)
    (hpend : t.rd rsPend = s.rd rsPend) (hcmp : Comparing t → Comparing s) : Checked t := by
  have hmem : ∀ {e : Stamped}, e ∈ t.log → e = x ∨ e ∈ s.log := fun he =>
    List.mem_cons.1 (hlog ▸ he)
  have hold : ∀ {e : Stamped}, e ∈ s.log → e ∈ t.log := fun he => hlog ▸ List.mem_cons_of_mem _ he
  have hslot : ∀ {j : ℕ}, x.Reports j → j = tick / 64 % 4 := by
    rintro j ⟨tick', c', he, hj⟩
    cases hev.symm.trans he
    exact hj.symm
  have hwant : ¬ x.Wants := by
    rintro (⟨_, _, _, he⟩ | ⟨_, he⟩) <;> cases hev.symm.trans he
  have hbase : ∀ b ∈ t.log, b.Rebases → b ∈ s.log := fun b hb hr =>
    (hmem hb).resolve_left fun he => by
      obtain ⟨_, _, _, _, he'⟩ := hr
      cases hev.symm.trans (he ▸ he')
  refine ⟨fun e he hc => ?_, fun j r hr hj he => ?_, fun h0 j hj => ?_, fun e he tick' own peer hev' => ?_,
    fun hp => ?_, fun p hp tick' hev' => ?_⟩
  · rw [hmark.1, hmark.2]
    rcases hmem he with rfl | he
    · exact ⟨Nat.le_of_eq hx.1, fun _ => by omega⟩
    · exact (h.order e he hc).imp_right fun ho he => Nat.le_succ_of_le (ho he)
  · rw [hmark.1] at he
    rw [hmark.2]
    rcases hmem hr with rfl | hr
    · omega
    · exact Nat.lt_succ_of_lt (h.reported j r hr hj he)
  · rw [hmark.1] at h0
    by_cases hjt : j = tick / 64 % 4
    · refine .inr ⟨x, tick, c, hlog ▸ List.mem_cons_self, hx.1.trans hmark.1.symm, hev, h64, hjt.symm,
        (hrec j hj).trans (if_pos hjt), fun _ r hr he hr' => ?_⟩
      rcases hmem hr with rfl | hr
      · exact .inl rfl
      · exact .inr (hx.2 ▸ h.reported j r hr hr' (he.trans hmark.1))
    · have hkeep := (hrec j hj).trans (if_neg hjt)
      refine (h.slots h0 j hj).imp (fun hv => ⟨hkeep.trans hv.cells, fun ht r hr he hr' => ?_⟩) ?_
      · rcases hmem hr with rfl | hr
        · exact hjt (hslot hr')
        · exact hv.none (hcmp ht) r hr (he.trans hmark.1) hr'
      · rintro ⟨r, tick', c', hl⟩
        refine ⟨r, tick', c', hold hl.mem, hl.epoch.trans hmark.1.symm, hl.ev, hl.tick, hl.slot,
          hkeep.trans hl.cells, fun ht r' hr he hr' => ?_⟩
        rcases hmem hr with rfl | hr
        · exact absurd (hslot hr') hjt
        · exact hl.last (hcmp ht) r' hr (he.trans hmark.1) hr'
  · have he := (hmem he).resolve_left fun he => by cases hev.symm.trans (he ▸ hev')
    obtain ⟨hne, hrec'⟩ := h.sound e he tick' own peer hev'
    exact ⟨hne, hrec'.imp_right (Or.imp_right fun ⟨r, hr, hr'⟩ => ⟨r, hold hr, hr'⟩)⟩
  · rw [hpend] at hp
    obtain ⟨m, hm, hw, hb⟩ := h.pend hp
    exact ⟨m, hold hm, hw, fun b hb' hr => hb b (hbase b hb' hr) hr⟩
  · have hp := (hmem hp).resolve_left fun he => by cases hev.symm.trans (he ▸ hev')
    obtain ⟨m, hm, hw, hle, hb⟩ := h.caused p hp tick' hev'
    exact ⟨m, hold hm, hw, hle, fun b hb' hr => hb b (hbase b hb' hr) hr⟩

/-- A new base: no record, no report, and what was wanted before it stays wanted over a START alone. -/
theorem Checked.of_base {x : Stamped} (h : Checked s) (hlog : t.log = x :: s.log)
    (hx : x.epoch = s.mark.epoch + 1 ∧ x.ran = 0)
    (hmark : t.mark.epoch = s.mark.epoch + 1 ∧ t.mark.ran = 0)
    (hcrc : ∀ a, CrcCell a → t.rd a = 0xFF) (hchk : x.ev.Checks → x.Rebases)
    (hpend : t.rd rsPend ≠ 0 → s.rd rsPend ≠ 0 ∧ ¬ x.Rebases) : Checked t := by
  have hmem : ∀ {e : Stamped}, e ∈ t.log → e = x ∨ e ∈ s.log := fun he =>
    List.mem_cons.1 (hlog ▸ he)
  have hold : ∀ {e : Stamped}, e ∈ s.log → e ∈ t.log := fun he => hlog ▸ List.mem_cons_of_mem _ he
  have hother : ∀ {e : Stamped}, e ∈ t.log → e.ev.Checks → ¬ e.Rebases → e ∈ s.log := by
    intro e he hc hr
    rcases hmem he with rfl | he
    · exact absurd (hchk hc) hr
    · exact he
  have hrebases : ∀ {e : Stamped} {j : ℕ}, e.Reports j → ¬ e.Rebases := by
    rintro e j ⟨_, _, he, -⟩ ⟨_, _, _, _, he'⟩
    cases he.symm.trans he'
  have hreport : ∀ j, ∀ r ∈ t.log, r.Reports j → r.epoch ≠ t.mark.epoch := by
    intro j r hr hj he
    have hle := (h.order r (hother hr hj.checks (hrebases hj)) hj.checks).1
    rw [hmark.1] at he
    omega
  refine ⟨fun e he hc => ?_, fun j r hr hj he => absurd he (hreport j r hr hj), fun _ j hj => ?_,
    fun e he tick own peer hev => ?_, fun hp => ?_, fun p hp tick hev => ?_⟩
  · rw [hmark.1, hmark.2]
    rcases hmem he with rfl | he
    · exact ⟨Nat.le_of_eq hx.1, fun _ => Nat.le_of_eq hx.2⟩
    · have hle := (h.order e he hc).1
      exact ⟨by omega, fun he => by omega⟩
  · exact .inl ⟨record_clear hj hcrc, fun _ r hr he hj' => hreport j r hr hj' he⟩
  · have hmis : e ∈ s.log := hother he (by rw [hev]; trivial)
      (Stamped.not_rebases fun _ _ _ _ he' => by cases hev.symm.trans he')
    obtain ⟨hne, hrec⟩ := h.sound e hmis tick own peer hev
    exact ⟨hne, hrec.imp_right (Or.imp_right fun ⟨r, hr, hr'⟩ => ⟨r, hold hr, hr'⟩)⟩
  · obtain ⟨hp, hreb⟩ := hpend hp
    obtain ⟨m, hm, hw, hb⟩ := h.pend hp
    refine ⟨m, hold hm, hw, fun b hb' hr => hb b ?_ hr⟩
    exact (hmem hb').resolve_left fun he => hreb (he ▸ hr)
  · have hpush : p ∈ s.log := hother hp (by rw [hev]; trivial)
      (Stamped.not_rebases fun _ _ _ _ he' => by cases hev.symm.trans he')
    obtain ⟨m, hm, hw, hle, hb⟩ := h.caused p hpush tick hev
    refine ⟨m, hold hm, hw, hle, fun b hb' hr => ?_⟩
    rcases hmem hb' with rfl | hb'
    · have hle := (h.order p hpush (by rw [hev]; trivial)).1
      exact .inr (by omega)
    · exact hb b hb' hr

end keep

/-! ### What leaves the records alone -/

/-- What the steps change that neither clear nor make a record. -/
def FreeCell (a : ℕ) : Prop :=
  PumpCell a ∨ BoardCell a ∨ PaintCell a ∨ InputCell a ∨ LeftCell a ∨ ApplyCell a ∨ EntryCell a ∨
    DropCell a ∨ CaptureCell a ∨ TickCell a ∨ WaitCell a ∨ MenuCell a

theorem not_free_crc {a : ℕ} (h : CrcCell a) : ¬ FreeCell a := by
  have htail : a ∉ rsTailtbl := fun hm =>
    (show ∀ b ∈ rsTailtbl, ¬ CrcCell b by decide) a hm h
  simp only [CrcCell, ownCrc] at h
  have h1 : ¬ (PumpCell a ∨ BoardCell a ∨ PaintCell a) := by
    simp only [PumpCell, MailCell, RxCell, BoardCell, PaintCell, RoomCell, RowCell, ScreenCell, NameCell,
      rxWr, rxRd, rxacc, frmbuf, backtab, uiColor, ppTmp, lobbyCnt, roomCnt, roomHost, nameTbl,
      lobbyCache, menuSel, leftSeat, leftName]
    omega
  have h2 : ¬ (InputCell a ∨ LeftCell a ∨ ApplyCell a) := by
    simp only [InputCell, RingCell, WmCell, LeftCell, ApplyCell, ImgCell, htail, seatRing, seatWm,
      gameScratch, backtab, objectTable, rsTmp, rsTmp2, rsPosLo, rsPosHi, leftSeat, leftName, peerWhy,
      netDropped, or_false]
    omega
  have h3 : ¬ (EntryCell a ∨ DropCell a ∨ CaptureCell a) := by
    simp only [EntryCell, PaceCell, GoneCell, DropCell, InputCell, CaptureCell, RingCell, WmCell,
      seatRing, seatWm, lsTmpb, lsTmpb2, execPhase, lsFroze, lsSave102, lsWaitcLo, lsWaitcHi, rsToLo,
      rsToHi, uiColor, peerScr, peerWhy, netDropped, resyncHold]
    omega
  have h4 : ¬ (TickCell a ∨ WaitCell a ∨ MenuCell a) := by
    simp only [TickCell, PaceCell, DispatchCell, GameCell, WaitCell, MenuCell, RowCell, ScreenCell,
      MailCell, execPhase, lsFroze, lsSave102, lsWaitcLo, lsWaitcHi, rsToLo, rsToHi, vdCtrl, scCnt2,
      scCnt3, sbQuiescent, rsPtmo, rsGate, rsWaited, backtab, uiColor, ppTmp, menuSel, menuPrev, sesTmrLo]
    omega
  unfold FreeCell
  tauto

section pieces

variable {s t : Cpu} {P : ℕ → Prop}

/-- Stores elsewhere. -/
theorem Checked.of_within (h : Checked s) (hw : Within P s t) (hP : ∀ a, P a → FreeCell a)
    (hpend : ¬ P rsPend) (hhold : ¬ P resyncHold) (hdrop : ¬ P netDropped)
    (hmark : t.mark.epoch = s.mark.epoch ∧ t.mark.ran = s.mark.ran)
    (ha : Adds (fun e => ¬ e.Checks) s t) : Checked t :=
  h.of_quiet hw (fun _ hx hp => not_free_crc hx (hP _ hp)) hpend
    (fun hc => ⟨(hw.rd _ hhold).symm.trans hc.1, (hw.rd _ hdrop).symm.trans hc.2⟩) hmark.1
    (Nat.le_of_eq hmark.2.symm) ha

theorem Checked.of_local (h : Checked s) (hl : Local P s t) (hP : ∀ a, P a → FreeCell a)
    (hpend : ¬ P rsPend) (hhold : ¬ P resyncHold) (hdrop : ¬ P netDropped) : Checked t :=
  h.of_within hl.within hP hpend hhold hdrop ⟨by rw [hl.mark], by rw [hl.mark]⟩ (Adds.of_log hl.log)

/-- The console has given up. -/
theorem Checked.of_dropped (h : Checked s) (hl : Local P s t) (hP : ∀ a, P a → FreeCell a)
    (hpend : ¬ P rsPend) (hd : t.rd netDropped ≠ 0) : Checked t :=
  h.of_quiet hl.within (fun _ hx hp => not_free_crc hx (hP _ hp)) hpend (fun hc => absurd hc.2 hd)
    (by rw [hl.mark]) (Nat.le_of_eq (by rw [hl.mark])) (Adds.of_log hl.log)

/-- An entry that is not told of. -/
theorem Checked.emit (h : Checked s) {e : Ev} (he : ¬ e.Checks) : Checked (s.emit e) :=
  h.of_same (fun _ _ => rfl) rfl id rfl (Nat.le_refl _) fun x hx => by
    rw [Cpu.log_emit, List.mem_cons]
    refine or_iff_right fun hxe => ?_
    rw [hxe] at hx
    exact he hx

/-! ### Frames -/

theorem checked_onInput (h : Checked s) (hc : s.rd netCount ≤ 4) : Checked (onInput s) := by
  rcases onInput_cases s with (he | he) | ⟨-, -, -, -, he⟩
  · rwa [he]
  · rw [he]
    exact h.emit id
  · refine h.of_within (within_onInput s hc) (fun a ha => by unfold FreeCell; tauto) (by decide)
      (by decide) (by decide) (by rw [he]; exact ⟨rfl, rfl⟩) ?_
    refine adds_onInput s (fun _ => id) fun _ e he => ?_
    cases Option.some.inj he
    exact id

theorem checked_onStart (h : Checked s) : Checked (onStart s) := by
  by_cases hl : 38 ≤ s.rd frmbuf
  · have hmark : (onStart s).mark.epoch = s.mark.epoch + 1 ∧ (onStart s).mark.ran = 0 := by
      rw [mark_onStart hl]
      exact ⟨rfl, rfl⟩
    refine h.of_base (log_onStart hl) ⟨rfl, rfl⟩ hmark (fun a ha => ?_) (fun hc => absurd hc id) ?_
    · rw [rd_onStart hl, rd_takeStart_rings (.inr ha), if_neg, if_neg]
      · simp only [CrcCell] at ha
        omega
      · simp only [CrcCell, ownCrc, seatKp] at ha ⊢
        omega
    · rw [(within_onStart s).rd _ (by decide)]
      exact fun hp => ⟨hp, Stamped.not_rebases fun _ _ _ _ he => by cases he⟩
  · rw [onStart, if_pos (by omega)]
    exact h

/-- The record that a CRC frame is compared against. -/
theorem record_frame (s : Cpu) : s.rd (frmbuf + 3) / 64 < 4 ∧
    record (s.rd (frmbuf + 3) / 64) s = (recordTick s, recordCrc s) := by
  have hlt : s.rd (frmbuf + 3) < 256 := s.rd_lt_256 (by decide)
  have hat : recordAt s = ownCrc + 4 * (s.rd (frmbuf + 3) / 64) := by
    simp only [recordAt, crcSlot]
    omega
  refine ⟨by omega, ?_⟩
  rw [record, recordTick, recordCrc, hat]

theorem mark_rsWant (s : Cpu) : (rsWant s).mark = s.mark := by
  simp only [rsWant]
  split
  · rfl
  · exact mark_sendFrame _ _

theorem checked_rsWant (h : Checked s) (ht : recordTick s = frameTick s)
    (hc : recordCrc s ≠ frameCrc s) : Checked (rsWant s) := by
  have hw := within_rsWant s
  have hfree : ∀ a, WantCell a → ¬ CrcCell a := fun a ha hx => by
    simp only [WantCell, MailCell, CrcCell, ownCrc, rsPend, rsPtmo] at ha hx
    omega
  obtain ⟨hj, hrec⟩ := record_frame s
  refine h.add (log_rsWant s) ⟨rfl, rfl⟩ (by rw [mark_rsWant]; exact ⟨rfl, rfl⟩)
    (fun a ha => hw.rd a fun hp => hfree a hp ha)
    (fun hcmp => ⟨(hw.rd _ (by decide)).symm.trans hcmp.1, (hw.rd _ (by decide)).symm.trans hcmp.2⟩)
    (Stamped.not_reports fun _ _ he => by cases he) (Stamped.not_rebases fun _ _ _ _ he => by cases he) ?_
    (fun _ => .inr (.inl ⟨_, _, _, rfl⟩)) (fun _ he => by cases he)
  intro tick own peer hev
  cases hev
  refine ⟨hc, or_iff_not_imp_left.2 fun h0 => ?_⟩
  rcases h.slots h0 _ hj with hv | ⟨r, t', c', hl⟩
  · refine .inl ?_
    rw [← ht, ← hrec]
    exact hv.cells
  · refine .inr ⟨r, hl.mem, ?_, hl.epoch, h.reported _ r hl.mem ⟨t', c', hl.ev, hl.slot⟩ hl.epoch⟩
    obtain ⟨rfl, rfl⟩ := Prod.mk.injEq .. ▸ hrec.symm.trans hl.cells
    rw [hl.ev, ht]

theorem checked_rsOnCrc (h : Checked s) : Checked (rsOnCrc s) := by
  have hin : Checked (s.emit (.crcIn (frameTick s) (frameCrc s))) := h.emit id
  simp only [rsOnCrc]
  split_ifs with h1 h2 h3 h4 h5
  · exact h
  · exact hin
  · exact hin
  · exact hin
  · exact hin
  · exact checked_rsWant hin (not_not.1 h4) h5

theorem checked_rsOnReq (h : Checked s) : Checked (rsOnReq s) := by
  simp only [rsOnReq]
  split_ifs
  · exact h.emit id
  · have hcell : ∀ a, a ≠ rsPend → a ≠ rsPtmo →
        (((s.emit (.request (s.rd16 (frmbuf + 2) (frmbuf + 3)) true)).st rsPend 1).st rsPtmo 0).rd a =
          s.rd a := fun a h1 h2 => by
      rw [Cpu.rd_st, if_neg h2, Cpu.rd_st, if_neg h1]
      rfl
    refine h.add rfl ⟨rfl, rfl⟩ ⟨rfl, rfl⟩ (fun a ha => ?_) (fun hcmp => ⟨?_, ?_⟩)
      (Stamped.not_reports fun _ _ he => by cases he) (Stamped.not_rebases fun _ _ _ _ he => by cases he)
      (fun _ _ _ he => by cases he) (fun _ => .inr (.inr ⟨_, rfl⟩)) (fun _ he => by cases he)
    · simp only [CrcCell, ownCrc] at ha
      exact hcell a (by simp only [rsPend]; omega) (by simp only [rsPtmo]; omega)
    · exact (hcell _ (by decide) (by decide)).symm.trans hcmp.1
    · exact (hcell _ (by decide) (by decide)).symm.trans hcmp.2

/-- BEGIN clears the records and enters the hold. -/
theorem checked_begin (h : Checked s) : Checked
    (((rsEnterHold s).st rsRLo ((rsEnterHold s).rd (frmbuf + 4))).st rsRHi
      (((rsEnterHold s).st rsRLo ((rsEnterHold s).rd (frmbuf + 4))).rd (frmbuf + 5))) := by
  have hl := local_beginFrame s
  refine h.of_clear (fun a ha => ?_) (hl.rd _ (by decide)) (fun hcmp => absurd hcmp.1 ?_) hl.mark hl.log
  · have hne : a ≠ rsRHi ∧ a ≠ rsRLo := by
      simp only [CrcCell, ownCrc, rsRHi, rsRLo] at *
      omega
    rw [Cpu.rd_st, if_neg hne.1, Cpu.rd_st, if_neg hne.2, rsEnterHold, rd_rsClrCrc _ ha]
  · rw [Cpu.rd_st, if_neg (by decide), Cpu.rd_st, if_neg (by decide), rsEnterHold,
      (local_rsClrCrc _).rd _ (by decide)]
    simp [cellBits]

theorem rd_rsPend_rsRebase (s : Cpu) : (rsRebase s).rd rsPend = 0 := by
  rw [rd_rsRebase, (local_rsRestart _).rd _ (by decide), rsInstall, (local_sbRebaseHook _).rd _ (by decide),
    (local_rsClampIsr _).rd _ (by decide), (local_rsDisplayReset _).rd _ (by decide), Cpu.rd_st,
    if_neg (by decide)]
  simp [cellBits]

theorem checked_rsRebase (h : Checked s) : Checked (rsRebase s) := by
  have hmark := mark_rsRebase s
  have hepoch := congrArg Mark.epoch hmark
  have hran := congrArg Mark.ran hmark
  exact h.of_base (log_rsRebase s) ⟨hepoch, hran⟩ ⟨hepoch, hran⟩
    (fun a ha => (rd_rsRebase s a).trans (rd_rsRestart_crc _ ha)) (fun _ => ⟨_, _, _, _, rfl⟩)
    fun hp => absurd (rd_rsPend_rsRebase s) hp

theorem checked_rsOnControl (h : Checked s) : Checked (rsOnControl s) := by
  unfold rsOnControl
  split_ifs
  · exact h.of_local (Local.diagBump (P := MailCell) (Local.refl s) (by decide))
      (fun _ hm => .inl (.inl hm)) (by decide) (by decide) (by decide)
  · exact checked_begin h
  · exact h
  · exact h
  · exact checked_rsRebase h

theorem checked_rsOnChunk (h : Checked s) : Checked (rsOnChunk s) := by
  have happly : ∀ a, ApplyCell a → FreeCell a := fun a ha => by unfold FreeCell; tauto
  have hbad : ∀ {t : Cpu}, Checked t → Checked (rsBad t) := fun {t} ht =>
    ht.of_local (Local.diagBump (P := MailCell) (Local.refl t) (by decide))
      (fun _ hm => .inl (.inl hm)) (by decide) (by decide) (by decide)
  have hbad' : ∀ v, Checked (rsBad (s.st rsTmp2 v)) := fun v => hbad
    (h.of_local (P := ApplyCell) ((Local.refl s).st (by decide)) happly (by decide) (by decide)
      (by decide))
  simp only [rsOnChunk]
  split_ifs with h1 h2 h3 h4
  · exact hbad h
  · exact hbad h
  · exact hbad' _
  · exact hbad' _
  · have hn : s.rd16 (frmbuf + 2) (frmbuf + 3) + (s.rd frmbuf - 3) ≤ imgTotal := by
      simp only [imgTotal] at h4 ⊢
      omega
    have hm := mark_rsApply s hn
    exact h.of_within (within_rsApply s hn) happly (by decide) (by decide) (by decide)
      ⟨by rw [hm], by rw [hm]⟩ (Adds.cons (t := s) (Adds.of_log rfl) (log_rsApply s hn) id)

theorem checked_sesOnframe (hs : Seated s) (h : Checked s) : Checked (sesOnframe s) := by
  have hboard : ∀ a, BoardCell a → FreeCell a := fun a ha => by unfold FreeCell; tauto
  simp only [sesOnframe]
  split_ifs
  · exact checked_onInput h hs.count
  · exact h.of_local (local_onLobby s) hboard (by decide) (by decide) (by decide)
  · exact checked_onStart h
  · have hd : (onPeerLeft s).rd netDropped = 1 := by
      rw [onPeerLeft, (local_lsIdleRmt _).rd _ (by decide)]
      simp [cellBits]
    exact h.of_dropped (local_onPeerLeft s) (fun a ha => .inr (.inr (.inr (.inr (.inl ha))))) (by decide)
      (by rw [hd]; decide)
  · refine h.of_within (within_onRoom_any s hs.lobby) (fun a ha => .inr (.inr (.inl ha))) (by decide)
      (by decide) (by decide) ⟨by rw [mark_onRoom], by rw [mark_onRoom]⟩ (adds_onRoom s fun _ => id)
  · exact checked_rsOnCrc h
  · unfold rsOnState
    split_ifs
    · exact h.of_local (Local.diagBump (P := MailCell) (Local.refl s) (by decide))
        (fun _ hm => .inl (.inl hm)) (by decide) (by decide) (by decide)
    · exact checked_rsOnControl h
    · exact checked_rsOnChunk h
  · exact checked_rsOnReq h
  · exact h

/-! ### A pass -/

theorem checked_countOrDrop (h : Checked s) (ht : CountOrDrop s t) : Checked t := by
  rcases ht with ht | ⟨ht, hd⟩
  · exact h.of_local ht (fun _ ha => .inr (.inr (.inr (.inr (.inr (.inr (.inl (.inl ha))))))))
      (by decide) (by decide) (by decide)
  · refine h.of_dropped ht (fun _ ha => ?_) (by decide) (by rw [hd]; decide)
    rcases ha with ha | ha
    · exact .inr (.inr (.inr (.inr (.inr (.inr (.inl (.inl ha)))))))
    · exact .inr (.inr (.inr (.inr (.inr (.inr (.inr (.inl ha)))))))

theorem checked_lsReturn (h : Checked s) : Checked (lsReturn s) :=
  h.of_same (fun _ _ => rfl) rfl id rfl (Nat.le_refl _) fun _ _ => Iff.rfl

theorem checked_lsEntry (h : Checked s) : Checked (lsEntry s).cpu := by
  have hentry : ∀ a, EntryCell a → FreeCell a := fun a ha =>
    .inr (.inr (.inr (.inr (.inr (.inr (.inl ha))))))
  have hpace : ∀ a, PaceCell a → FreeCell a := fun a ha => hentry a (.inl ha)
  have hhold : ∀ u : Cpu, Checked u → Checked { u with mark := { u.mark with held := true } } :=
    fun u hu => hu.of_same (fun _ _ => rfl) rfl id rfl (Nat.le_refl _) fun _ _ => Iff.rfl
  unfold lsEntry
  split_ifs
  · exact checked_lsReturn h
  · exact h.of_local (local_lsGone s) hentry (by decide) (by decide) (by decide)
  · exact hhold _ (h.of_local (local_lsFreeze s) hpace (by decide) (by decide) (by decide))
  · exact h

theorem checked_lsSend (hs : Seated s) (h : Checked s) : Checked (lsSend s) := by
  have hmark := mark_lsSend (s := s) hs.seat
  refine h.of_within (within_lsSend hs.seat) (fun a ha => ?_) (by decide) (by decide) (by decide)
    ⟨congrArg Mark.epoch hmark, congrArg Mark.ran hmark⟩
    (Adds.cons (t := s) (Adds.of_log rfl) (log_lsSend.trans (log_lsCapture hs.seat)) id)
  rcases ha with ha | ha
  · exact .inr (.inr (.inr (.inr (.inr (.inr (.inr (.inr (.inl ha))))))))
  · exact .inl (.inl ha)

theorem checked_lsTick (C : Cart) (h : Checked s) : Checked (lsTick C s) := by
  have hmark := mark_lsTick s C
  refine h.of_within (within_lsTick s C) (fun a ha => ?_) (by decide) (by decide) (by decide)
    ⟨congrArg Mark.epoch hmark, congrArg Mark.ran hmark⟩ fun e he => ?_
  · exact .inr (.inr (.inr (.inr (.inr (.inr (.inr (.inr (.inr (.inl ha)))))))))
  · simp only [log_lsTick, List.mem_cons] at he
    rcases he with rfl | rfl | rfl | rfl | rfl | rfl | he
    all_goals first | exact .inl he | exact .inr id

/-- The record that a report leaves. -/
theorem record_lsReport (h : s.rd tickLo % 64 = 0) {j : ℕ} (hj : j < 4) :
    record j (tickUp (lsReport s)) =
      if j = s.tick / 64 % 4 then (s.tick, lsCksum s) else record j s := by
  have hlo : s.rd tickLo < 256 := s.rd_lt_256 (by decide)
  have hslot : s.tick / 64 % 4 = s.rd tickLo / 64 := by
    simp only [Cpu.tick, Cpu.rd16, word]
    omega
  have hcell : ∀ i < 4, (tickUp (lsReport s)).rd (ownCrc + 4 * j + i) =
      if j = s.tick / 64 % 4 then [s.rd tickLo, s.rd tickHi, lsCksum s % 256, lsCksum s / 256].getD i 0
      else s.rd (ownCrc + 4 * j + i) := fun i hi => by
    have hx : CrcCell (ownCrc + 4 * j + i) := by
      simp only [CrcCell]
      omega
    have hup : ¬ CounterCell (ownCrc + 4 * j + i) := by
      simp only [CounterCell, ownCrc, tickLo, tickHi]
      omega
    rw [(within_tickUp _).rd _ hup, rd_lsReport_crc s h hx, hslot]
    by_cases hjs : j = s.rd tickLo / 64
    · have hat : crcSlot (s.rd tickLo) = ownCrc + 4 * j := by
        simp only [crcSlot]
        omega
      rw [if_pos (by omega), if_pos hjs, hat, Nat.add_sub_cancel_left]
    · rw [if_neg, if_neg hjs]
      simp only [crcSlot]
      omega
  have h0 := hcell 0 (by decide)
  rw [Nat.add_zero] at h0
  simp only [record, Cpu.rd16, h0, hcell 1 (by decide), hcell 2 (by decide), hcell 3 (by decide)]
  split_ifs
  · have hword : word (lsCksum s % 256) (lsCksum s / 256) = lsCksum s := word_mod_div _
    simp only [List.getD_cons_zero, List.getD_cons_succ, hword]
    rfl
  · rfl

theorem checked_lsReport (h : Checked s) : Checked (tickUp (lsReport s)) := by
  have hmark : (tickUp (lsReport s)).mark = { s.mark with ran := s.mark.ran + 1 } := by
    rw [mark_tickUp, mark_lsReport]
  have hepoch := congrArg Mark.epoch hmark
  have hran := congrArg Mark.ran hmark
  have hw : Within (fun a => ReportCell a ∨ CounterCell a) s (tickUp (lsReport s)) :=
    ((within_lsReport s).mono fun _ => .inl).trans ((within_tickUp _).mono fun _ => .inr)
  have hcmp : Comparing (tickUp (lsReport s)) → Comparing s := fun hc =>
    ⟨(hw.rd _ (by decide)).symm.trans hc.1, (hw.rd _ (by decide)).symm.trans hc.2⟩
  have hlog := (log_tickUp (lsReport s)).trans (log_lsReport s)
  by_cases h64 : s.rd tickLo % 64 = 0
  · refine h.report (x := s.mark.stamp (.report s.tick (lsCksum s))) (hlog.trans (if_pos h64)) ⟨rfl, rfl⟩
      rfl ?_ ⟨hepoch, hran⟩ (fun j hj => record_lsReport h64 hj) (hw.rd _ (by decide))
      hcmp
    simp only [Cpu.tick, Cpu.rd16, word]
    omega
  · rw [lsReport_of_not s h64] at hepoch hran hcmp ⊢
    exact h.of_same (fun x hx => (within_tickUp s).rd x fun hc => by
        simp only [CounterCell, CrcCell, ownCrc, tickLo, tickHi] at hc hx
        omega) ((within_tickUp s).rd _ (by decide)) hcmp hepoch
      (by rw [hran]; exact Nat.le_succ _) fun e _ => by rw [log_tickUp]

theorem checked_runBody (C : Cart) (h : Checked s) : Checked (runBody C s) :=
  (checked_lsReport (checked_lsTick C h)).of_local (local_nameRow _)
    (fun a ha => .inr (.inr (.inl (screen_paint a ha)))) (by decide) (by decide) (by decide)

/-- A push that is due has a cause, and its rebase answers it. -/
theorem checked_rsPending (h : Checked s) : Checked (rsPending s) := by
  have hfree : ∀ a, WaitCell a → FreeCell a := fun a ha =>
    .inr (.inr (.inr (.inr (.inr (.inr (.inr (.inr (.inr (.inr (.inl ha))))))))))
  rcases rsPending_cases s with hw | ⟨hpend, -, -, t, ht, he⟩
  · exact h.of_local hw hfree (by decide) (by decide) (by decide)
  · have hpend' : t.rd rsPend ≠ 0 := by rwa [ht.rd _ (by decide)]
    have hwait := h.of_local ht hfree (by decide) (by decide) (by decide)
    have hpush : Checked (t.emit (.push t.tick)) :=
      hwait.add rfl ⟨rfl, rfl⟩ ⟨rfl, rfl⟩ (fun _ _ => rfl) id (Stamped.not_reports fun _ _ he => by cases he)
        (Stamped.not_rebases fun _ _ _ _ he => by cases he) (fun _ _ _ he => by cases he) .inl
        fun _ _ => hpend'
    have hmark : (rsRebase (pushSent t)).mark.epoch = t.mark.epoch + 1 ∧
        (rsRebase (pushSent t)).mark.ran = 0 := by
      rw [mark_rsRebase, mark_pushSent]
      exact ⟨rfl, rfl⟩
    have hlog := (log_rsRebase (pushSent t)).trans (congrArg _ (log_pushSent t))
    rw [he, rsPush_eq]
    exact hpush.of_base hlog hmark hmark (fun a ha => (rd_rsRebase _ a).trans (rd_rsRestart_crc _ ha))
      (fun _ => ⟨_, _, _, _, rfl⟩) fun hp => absurd (rd_rsPend_rsRebase _) hp

theorem checked_lsGate (C : Cart) (h : Checked s) : Checked (lsGate C s).cpu := by
  unfold lsGate
  split_ifs
  · rw [lsRun_eq]
    exact checked_lsReturn (checked_rsPending (checked_runBody C h))
  · exact h.of_local (local_lsFreeze s)
      (fun _ ha => .inr (.inr (.inr (.inr (.inr (.inr (.inl (.inl ha)))))))) (by decide) (by decide)
      (by decide)

theorem checked_afterPump {raw : ℕ} {ph : Phase} {n : Node} (hs : Seated s) (h : Checked s)
    (ha : afterPump raw ph s = some n) : Checked n.cpu := by
  have hmenu : ∀ {u}, Within MenuCell s u → Silent s u → Checked u := fun hw hu =>
    h.of_within hw (fun a ha => .inr (.inr (.inr (.inr (.inr (.inr (.inr (.inr (.inr (.inr (.inr ha)))))))))))
      (by decide) (by decide) (by decide) ⟨congrArg Mark.epoch hu.mark, congrArg Mark.ran hu.mark⟩
      (Adds.of_log hu.log)
  cases ph <;> simp only [afterPump, Option.some.injEq, reduceCtorEq] at ha <;> subst ha
  · exact hmenu (within_lobbyRound raw hs.lobby hs.count) (silent_lobbyRound raw s)
  · have hl := local_matchedRound s
    exact hmenu hl.within ⟨hl.log, hl.mark⟩
  · exact checked_lsReturn (checked_countOrDrop h (countOrDrop_holdTail s))
  · exact h
  · exact checked_countOrDrop h (countOrDrop_stallTail s)

theorem checked_advance {C : Cart} {n n' : Node} (hs : Seated n.cpu) (h : Checked n.cpu)
    (ha : advance C n = some n') : Checked n'.cpu := by
  obtain ⟨ph, s⟩ := n
  cases ph <;> simp only [advance, Option.some.injEq, reduceCtorEq] at ha <;> subst ha
  · exact checked_lsEntry h
  · dsimp only
    exact checked_lsSend hs h
  · exact checked_lsGate C h

end pieces

theorem kept_checked (W : World) : Kept W seatsGuard fun s => Seated s ∧ Checked s where
  fetch p s h := ⟨(kept_seated W).fetch p s h.1,
    h.2.of_local (local_sesFetch p s) (fun _ => .inl) (by decide) (by decide) (by decide)⟩
  slip s h := ⟨(kept_seated W).slip s h.1,
    h.2.of_local (local_ppSlip s) (fun _ => .inl) (by decide) (by decide) (by decide)⟩
  frame s h hf hb hg := by
    have hl := local_ppExtract_frame hf
    exact ⟨(kept_seated W).frame s h.1 hf hb hg,
      checked_sesOnframe (h.1.of_within hl.within (by decide) (by decide) (by decide))
        (h.2.of_local hl (fun _ => .inl) (by decide) (by decide) (by decide))⟩
  after raw ph s n h ha := ⟨(kept_seated W).after raw ph s n h.1 ha, checked_afterPump h.1 h.2 ha⟩
  own n n' h ha := ⟨(kept_seated W).own n n' h.1 ha, checked_advance h.1 h.2 ha⟩
  outside s m h hm := ⟨(kept_seated W).outside s m h.1 hm,
    h.2.of_local (local_outside hm) (fun a ha => .inr (.inr (.inr (.inr (.inr (.inr (.inr (.inr
      (.inr (.inr (.inr (.inr (.inr (.inr (.inr (.inr ha)))))))))))))))) (by decide) (by decide)
      (by decide)⟩

/-! ### Runs -/

section runs

variable {W : World} {n n' : Node} {v : Cpu}

theorem checked_loggedIn (name : List ℕ) (m : Mem) (rom : Rom) : Checked (loggedIn name m rom).cpu := by
  have hlog := log_loggedIn name m rom
  have hnot : ∀ e : Stamped, e ∉ (loggedIn name m rom).cpu.log := fun e => by
    rw [hlog]
    exact List.not_mem_nil
  refine ⟨fun e he => absurd he (hnot e), fun _ r hr => absurd hr (hnot r), fun h0 => absurd ?_ h0,
    fun e he => absurd he (hnot e), fun hp => absurd ?_ hp, fun p hp => absurd hp (hnot p)⟩
  · rw [mark_loggedIn]
    rfl
  · rw [rd_loggedIn (by decide) (by decide) (by decide)]
    decide

/-- A console of a run with a frame in `FRMBUF` that it has not handled yet. -/
inductive Handles (W : World) (n : Node) : Cpu → Prop where
  | intro {n' n'' : Node} {p : Poll} {u : Cpu} :
      Run W n n' → Step W (some p) n' n'' →
        Relation.ReflTransGen (fun u v => ppParse u = some v) (sesFetch p n'.cpu) u →
          flenOk (rxAt u 0) (rxAt u 1) = true → rxAt u 0 + 1 ≤ buffered u →
            Handles W n (ppExtract (rxAt u 0 + 1) u)

/-- What every piece of a step keeps holds where a pump finds a frame. -/
theorem Kept.parse {G : Guard} {I : Cpu → Prop} (k : Kept W G I) {p : Poll} {s u : Cpu} (h : I s)
    (hu : Relation.ReflTransGen (fun u v => ppParse u = some v) (sesFetch p s) u)
    (hg : G.holds u.log) : I u := by
  induction hu with
  | refl => exact k.fetch p s h
  | tail _ hs ih =>
    obtain ⟨-, ⟨-, rfl⟩ | ⟨h1, h2, rfl⟩⟩ := ppParse_cases hs
    · exact k.slip _ (ih (G.suffix (local_ppSlip _).within.grows hg))
    · exact k.frame _ (ih (G.suffix (grows_frame _) hg)) h1 h2 hg

theorem grows_parse {p : Poll} {s u : Cpu}
    (hu : Relation.ReflTransGen (fun u v => ppParse u = some v) (sesFetch p s) u) : s.log <:+ u.log := by
  induction hu with
  | refl => exact (local_sesFetch p s).within.grows
  | tail _ hs ih =>
    obtain ⟨-, ⟨-, rfl⟩ | ⟨-, -, rfl⟩⟩ := ppParse_cases hs
    · exact ih.trans (local_ppSlip _).within.grows
    · exact ih.trans (grows_frame _)

theorem checked_handles (h : Seated n.cpu ∧ Checked n.cpu) (hh : Handles W n v)
    (hg : seatsGuard.holds v.log) :
    Checked v ∧ (v.rd (frmbuf + 1) = ftCrc → 6 ≤ v.rd frmbuf) := by
  cases hh with
  | @intro n' n'' p u hrun hstep hparse hf hb =>
    have hl := local_ppExtract_frame hf
    have hle := flenOk_le hf
    have hgu : seatsGuard.holds u.log := hl.log ▸ hg
    have hn := (kept_checked W).run h hrun (seatsGuard.suffix (grows_parse hparse) hgu)
    have hu := (kept_checked W).parse hn hparse hgu
    refine ⟨hu.2.of_local hl (fun _ => .inl) (by decide) (by decide) (by decide), fun ht => ?_⟩
    have hmin : ∀ t < 0x10, sesFlen.getD t 0 ≠ 0 → 1 ≤ sesFlen.getD t 0 % 256 := by decide
    have hne : sesFlen.getD (rxAt u 1) 0 ≠ 0 := by
      simp only [flenOk, decide_eq_true_eq] at hf
      exact hf.2.1
    have hpos := hmin _ hle.2.1 hne
    have h0 := rd_frmbuf_ppExtract (n := rxAt u 0 + 1) (i := 0) u (by omega) (by omega)
    have h1 := rd_frmbuf_ppExtract (n := rxAt u 0 + 1) (i := 1) u (by omega) (by omega)
    have hlen := hle.2.2.1
    rw [← h1, ht] at hlen
    exact hlen.trans (Nat.le_of_eq h0.symm)

theorem sesOnframe_crc {s : Cpu} (h : s.rd (frmbuf + 1) = ftCrc) : sesOnframe s = rsOnCrc s := by
  simp only [sesOnframe]
  rw [if_neg (by rw [h]; decide), if_neg (by rw [h]; decide), if_neg (by rw [h]; decide),
    if_neg (by rw [h]; decide), if_neg (by rw [h]; decide), if_pos h]

/-- A resync is wanted. -/
theorem wanted_rsOnCrc {s : Cpu} (hl : 6 ≤ s.rd frmbuf) (hh : s.rd resyncHold = 0)
    (hp : s.rd rsPend = 0) : (rsOnCrc s).rd rsPend ≠ 0 ↔
      recordTick s = frameTick s ∧ recordCrc s ≠ frameCrc s := by
  rw [rd_rsPend_rsOnCrc s hl]
  split_ifs with h
  · exact iff_of_true (by decide) h.2.2
  · exact iff_of_false (not_not.2 hp) fun hd => h ⟨hh, hp, hd⟩

/-- The last report of its slot on this base is of the tick, with the checksum. -/
def LastReport (s : Cpu) (t c : ℕ) : Prop :=
  ∃ r ∈ s.log, r.epoch = s.mark.epoch ∧ r.ev = .report t c ∧
    ∀ r' ∈ s.log, r'.epoch = s.mark.epoch → r'.Reports (t / 64 % 4) → r' = r ∨ r'.ran < r.ran

/-- The record of a slot is that of its last report on this base. -/
theorem Checked.wants_iff {v : Cpu} (h : Checked v) (hlen : 6 ≤ v.rd frmbuf)
    (htype : v.rd (frmbuf + 1) = ftCrc) (hbase : v.mark.epoch ≠ 0) (hhold : v.rd resyncHold = 0)
    (hdrop : v.rd netDropped = 0) (hpend : v.rd rsPend = 0) (h64 : frameTick v % 64 = 0) :
    (sesOnframe v).rd rsPend ≠ 0 ↔ ∃ c, LastReport v (frameTick v) c ∧ c ≠ frameCrc v := by
  obtain ⟨hj, hrec⟩ := record_frame v
  have hlo : v.rd (frmbuf + 3) < 256 := v.rd_lt_256 (by decide)
  have hslot : frameTick v / 64 % 4 = v.rd (frmbuf + 3) / 64 := by
    simp only [frameTick, Cpu.rd16, word]
    omega
  rw [sesOnframe_crc htype, wanted_rsOnCrc hlen hhold hpend]
  rcases h.slots hbase _ hj with hv | ⟨r, t, c, hl⟩
  · have hnone := hv.none ⟨hhold, hdrop⟩
    obtain ⟨ht, -⟩ := Prod.mk.injEq .. ▸ hrec.symm.trans hv.cells
    constructor
    · rintro ⟨h1, -⟩
      rw [← h1, ht] at h64
      exact absurd h64 (by decide)
    · rintro ⟨c, ⟨r, hr, he, hev, -⟩, -⟩
      exact absurd ⟨_, _, hev, hslot⟩ (hnone r hr he)
  · obtain ⟨ht, hc⟩ := Prod.mk.injEq .. ▸ hrec.symm.trans hl.cells
    rw [ht, hc]
    constructor
    · rintro ⟨rfl, hne⟩
      refine ⟨c, ⟨r, hl.mem, hl.epoch, hl.ev, fun r' hr' he hrep => ?_⟩, hne⟩
      rw [hslot] at hrep
      exact hl.last ⟨hhold, hdrop⟩ r' hr' he hrep
    · rintro ⟨c', ⟨r', hr', he, hev, hlast⟩, hne⟩
      obtain rfl : r' = r := by
        have h1 := hl.last ⟨hhold, hdrop⟩ r' hr' he ⟨_, _, hev, hslot⟩
        have h2 := hlast r hl.mem hl.epoch ⟨t, c, hl.ev, hl.slot.trans hslot.symm⟩
        rcases h1 with h1 | h1
        · exact h1
        · rcases h2 with h2 | h2
          · exact h2.symm
          · omega
      cases hl.ev.symm.trans hev
      exact ⟨rfl, hne⟩

/-- **A CRC frame sets `RS_PEND` exactly on a checksum that differs from the last report of its slot**,
wherever it comes in a run in which every START is in range: after the first START, outside a hold, while
no push is pending and the match was not dropped, for the tick of a checkpoint. -/
theorem crc_exact (name : List ℕ) (m : Mem) (rom : Rom) (hh : Handles W (loggedIn name m rom) v)
    (hg : seatsGuard.holds v.log) (htype : v.rd (frmbuf + 1) = ftCrc) (hbase : v.mark.epoch ≠ 0)
    (hhold : v.rd resyncHold = 0) (hdrop : v.rd netDropped = 0) (hpend : v.rd rsPend = 0)
    (h64 : frameTick v % 64 = 0) :
    (sesOnframe v).rd rsPend ≠ 0 ↔ ∃ c, LastReport v (frameTick v) c ∧ c ≠ frameCrc v := by
  obtain ⟨hchk, hlen⟩ :=
    checked_handles ⟨seated_loggedIn name m rom, checked_loggedIn name m rom⟩ hh hg
  exact hchk.wants_iff (hlen htype) htype hbase hhold hdrop hpend h64

/-- **A push has a cause**, in a run in which every START is in range.  Behind every push stands a
mismatch or a request that was taken, with no rebase in between; and every mismatch after the first START
is of two different checksums, the own one being what the console reported for that tick earlier on the
same base, if the frame does not name the tick of an empty record. -/
theorem resync_caused (name : List ℕ) (m : Mem) (rom : Rom) (hr : Run W (loggedIn name m rom) n)
    (hg : seatsGuard.holds n.cpu.log) :
    (∀ p ∈ n.cpu.log, ∀ t, p.ev = .push t → ∃ w ∈ n.cpu.log, w.Wants ∧
      (w.epoch < p.epoch ∨ w.epoch = p.epoch ∧ w.ran ≤ p.ran) ∧
        ∀ b ∈ n.cpu.log, b.Rebases → b.epoch ≤ w.epoch ∨ p.epoch < b.epoch) ∧
    ∀ e ∈ n.cpu.log, ∀ t own peer, e.ev = .mismatch t own peer → e.epoch ≠ 0 → own ≠ peer ∧
      ((t, own) = noRecord ∨
        ∃ r ∈ n.cpu.log, r.ev = .report t own ∧ r.epoch = e.epoch ∧ r.ran < e.ran) := by
  have hchk := ((kept_checked W).run
    ⟨seated_loggedIn name m rom, checked_loggedIn name m rom⟩ hr hg).2
  refine ⟨hchk.caused, fun e he t own peer hev h0 => ?_⟩
  exact (hchk.sound e he t own peer hev).imp_right fun h => h.resolve_left h0

/-- A CRC frame that arrives alone is handled. -/
theorem handles_one {n₀ n' : Node} {ph : Phase} {s : Cpu} {f : List ℕ} (hr : Run W n₀ ⟨ph, s⟩)
    (hs : Step W (some (.gives f)) ⟨ph, s⟩ n') (hrx : rxBytes s = []) (hf : Framed f)
    (hl : f.length ≤ 64) : ∃ v, Handles W n₀ v ∧ Local PumpCell s v ∧ InFrmbuf f v := by
  have hne : f ≠ [] := List.length_pos_iff.1 (by have := hf.two_le; omega)
  have hd := delivered_gives (s := s) hne hl hf.lt
  have hbytes : rxBytes (sesFetch (.gives f) s) = f ++ [] := by
    rw [rxBytes_sesFetch (by rw [hd, ← length_rxBytes, hrx, List.length_nil]; omega), hrx, hd,
      List.nil_append, List.append_nil]
  obtain ⟨hparse, hbuf, -⟩ := ppParse_frame hf hbytes
  have hat : ∀ i < f.length, rxAt (sesFetch (.gives f) s) i = f.getD i 0 := fun i hi => by
    rw [← getElem_rxBytes _ i (by rw [hbytes, List.append_nil]; exact hi)]
    simp only [hbytes, List.append_nil]
    exact (List.getD_eq_getElem _ _ hi).symm
  have h2 := hf.two_le
  have h0 : rxAt (sesFetch (.gives f) s) 0 + 1 = f.length := by rw [hat 0 (by omega), ← hf.length]
  have hb : f.length = buffered (sesFetch (.gives f) s) := by
    rw [← length_rxBytes, hbytes, List.append_nil]
  have hok : flenOk (rxAt (sesFetch (.gives f) s) 0) (rxAt (sesFetch (.gives f) s) 1) = true := by
    rw [hat 0 (by omega), hat 1 (by omega)]
    exact hf.ok
  have hwhole : rxAt (sesFetch (.gives f) s) 0 + 1 ≤ buffered (sesFetch (.gives f) s) := by omega
  have hh : Handles W n₀ _ := .intro hr hs .refl hok hwhole
  rw [h0] at hh
  exact ⟨_, hh, (local_sesFetch (.gives f) s).trans (local_ppExtract (by omega) _), hbuf⟩

/-! ### A console that has reported -/

/-- A console of two at the top of its second pass, its report of tick 0 being out. -/
structure Reported (me : Fin 2) (c : ℕ) (s : Cpu) : Prop where
  rdSeat : s.rd netSeat = me
  rdCount : s.rd netCount = 2
  entry : ∀ a, EntryTest a → s.rd a = 0
  rx : rxBytes s = []
  tick : s.tick = 1
  wm : s.wm (1 - me : Fin 2) = 0
  pend : s.rd rsPend = 0
  epoch : s.mark.epoch = 1
  seated : Seated s
  checked : Checked s
  guarded : seatsGuard.holds s.log
  last : LastReport s 0 c

/-- What the first pass of a console of two leaves, in which nothing arrives. -/
structure Passed (me : Fin 2) (c : ℕ) (t r : Cpu) : Prop where
  kept : ∀ a ∈ [netDropped, netCount, netSeat, rsPend, resyncHold, peerScr], r.rd a = t.rd a
  mark : r.mark = { t.mark with ran := t.mark.ran + 1 }
  tick : r.tick = 1
  wm : r.wm (1 - me : Fin 2) = 0
  rx : rxBytes r = []
  guarded : seatsGuard.holds t.log → seatsGuard.holds r.log
  last : LastReport r 0 c

theorem first_pass {me : Fin 2} {s t : Cpu} (hk : Kicked me 2 1 s t) (hs : s.log = [])
    (hpend : t.rd rsPend = 0) :
    ∃ r c, Run W ⟨.top, t⟩ ⟨.idle, lsReturn r⟩ ∧ Passed me c t r := by
  have htlog := hk.log
  rw [hs] at htlog
  have hp := (sesPump_silent hk.rx).1
  have hrxp := (sesPump_silent hk.rx).2
  have hpump : Step W (some .silent) ⟨.top, t⟩ ⟨.send, sesPump .silent t⟩ := .pump (r := 0) rfl
  generalize sesPump .silent t = p at hp hrxp hpump
  have hpt : ∀ a ∈ [netDropped, netCount, netSeat, rsPend, resyncHold, peerScr], p.rd a = t.rd a :=
    fun a ha => hp.rd a (by revert a; decide)
  have hlt : p.rd netSeat < 4 := by
    rw [hpt _ (by decide), hk.rdSeat]
    omega
  have hcount : p.rd netCount = 2 := (hpt _ (by decide)).trans hk.rdCount
  have htick : p.tick = 0 := (Cpu.tick_congr (hp.rd _ (by decide)) (hp.rd _ (by decide))).trans hk.tick
  have hwm : p.wm (1 - me : Fin 2) = 0 := by
    have hcell : ∀ j : Fin 2, ¬ MailCell (seatWm + 2 * j) ∧ ¬ MailCell (seatWm + 2 * j + 1) := by decide
    rw [Cpu.wm_congr (hp.rd _ (hcell _).1) (hp.rd _ (hcell _).2)]
    exact hk.wm _ (by omega)
  -- Nothing is due of the other seat yet.
  have hopen : gateOpen p = true := by
    refine gateOpen_pair (i := me) ((hpt _ (by decide)).trans hk.rdSeat) hcount ?_
    rw [hwm, htick]
    decide
  have hb := behind_runBody W.cart hlt
  have hgate := gate_runBody W.cart hlt hcount hopen ((hpt _ (by decide)).trans hpend)
  have hown : Step W none ⟨.gate, lsSend p⟩ ⟨.idle, lsReturn (runBody W.cart (lsSend p))⟩ :=
    .own (by rw [advance_gate, hgate])
  have hsend := within_lsSend hlt
  have htick0 : (lsSend p).tick = 0 :=
    (Cpu.tick_congr (hsend.rd _ (by decide)) (hsend.rd _ (by decide))).trans htick
  have hlo : (lsSend p).rd tickLo % 64 = 0 := by
    have : (lsSend p).rd tickLo < 256 := (lsSend p).rd_lt_256 (by decide)
    simp only [Cpu.tick, Cpu.rd16, word] at htick0
    omega
  have hlog := log_runBody (lsSend p) W.cart
  rw [if_pos hlo, htick0, log_lsTick, log_lsSend, log_lsCapture hlt, hp.log, htlog] at hlog
  have hguard : seatsGuard.holds t.log → seatsGuard.holds (runBody W.cart (lsSend p)).log := by
    intro hg e he
    rcases adds_runBody W.cart _ e he with he | he
    · rw [log_lsSend, log_lsCapture hlt, List.mem_cons, hp.log] at he
      rcases he with rfl | he
      · trivial
      · exact hg e he
    · exact seats_ofPass _ he
  have hlast : LastReport (runBody W.cart (lsSend p)) 0 (lsCksum (lsTick W.cart (lsSend p))) := by
    refine ⟨_, hlog ▸ List.mem_cons_self, ?_, rfl, fun r' hr' _ hrep => .inl ?_⟩
    · rw [hb.mark, mark_lsSend hlt]
      rfl
    · rw [hlog] at hr'
      obtain ⟨_, _, hev, -⟩ := hrep
      simp only [List.mem_cons, List.not_mem_nil, or_false] at hr'
      rcases hr' with rfl | rfl | rfl | rfl | rfl | rfl | rfl | rfl | rfl
      · rfl
      all_goals cases hev
  generalize lsCksum (lsTick W.cart (lsSend p)) = c at hlast
  generalize runBody W.cart (lsSend p) = r at hb hown hguard hlast
  refine ⟨r, c, ((Relation.ReflTransGen.single ⟨_, hpump⟩).tail ⟨none, .own (advance_send _ _)⟩).tail
    ⟨none, hown⟩, fun a ha => (hb.kept a ha).trans (hpt a ha), ?_, ?_, ?_, hb.rx.trans hrxp, hguard, hlast⟩
  · rw [hb.mark, hp.mark]
  · rw [hb.tick, htick]
  · rw [hb.wm _ (by omega), hwm]

/-- A console that has got its START comes to its second pass alone, and has reported tick 0. -/
theorem reach_reported (hboot : ∀ m, ∃ m', W.boot m m') (hnative : ∀ m, W.native m m) (me : Fin 2) :
    ∃ s c, Run W guest ⟨.top, s⟩ ∧ Reported me c s := by
  obtain ⟨t, hreach, hk⟩ := reach_top (W := W) (s := guest.cpu) (rxBytes_loggedIn _ _ _) (framed_startOf me)
    (by decide) (fun a ha => by
      rcases ha with rfl | rfl | rfl <;>
        exact (rd_loggedIn (by decide) (by decide) (by decide)).trans (by decide)) hboot
  have hr : Run W guest ⟨.top, t⟩ :=
    Relation.ReflTransGen.mono (p := fun n n' => ∃ p, Step W p n n') (fun _ _ h => h.2) _ _ hreach
  have htlog := hk.log
  rw [log_guest] at htlog
  have hg : seatsGuard.holds t.log := by
    rw [htlog]
    rintro e he
    rw [List.mem_singleton.1 he]
    exact ⟨me.isLt.trans (by decide), by decide⟩
  have hinv := fun {n} (h : Run W guest n) (hg : seatsGuard.holds n.cpu.log) => (kept_checked W).run
    ⟨seated_loggedIn [] blank _, checked_loggedIn [] blank ⟨fun _ => 0, 0⟩⟩ h hg
  have hpend : t.rd rsPend = 0 := by
    by_contra hp
    obtain ⟨m, hm, hw, -⟩ := (hinv hr hg).2.pend hp
    rw [show (⟨.top, t⟩ : Node).cpu.log = t.log from rfl, htlog, List.mem_singleton] at hm
    rw [hm] at hw
    rcases hw with ⟨_, _, _, he⟩ | ⟨_, he⟩ <;> cases he
  obtain ⟨r, c, hpass, hp⟩ := first_pass (W := W) hk log_guest hpend
  have hnext : Step W none ⟨.idle, lsReturn r⟩ ⟨.entry, (lsReturn r).call fun _ => (lsReturn r).mem⟩ :=
    .native (hnative _)
  have hzero : ∀ a, EntryTest a → r.rd a = 0 := fun a ha =>
    (hp.kept a (by rcases ha with rfl | rfl | rfl <;> decide)).trans (hk.entry a ha)
  have hentry : advance W.cart ⟨.entry, (lsReturn r).call fun _ => (lsReturn r).mem⟩ =
      some ⟨.top, (lsReturn r).call fun _ => (lsReturn r).mem⟩ := advance_entry_top hzero
  have hall : Run W guest ⟨.top, (lsReturn r).call fun _ => (lsReturn r).mem⟩ :=
    ((hr.trans hpass).tail ⟨none, hnext⟩).tail ⟨none, .own hentry⟩
  have hg' := hp.guarded hg
  refine ⟨_, c, hall, (hp.kept _ (by decide)).trans hk.rdSeat, (hp.kept _ (by decide)).trans hk.rdCount,
    hzero, hp.rx, hp.tick, hp.wm, (hp.kept _ (by decide)).trans hpend, ?_, (hinv hall hg').1,
    (hinv hall hg').2, hg', hp.last⟩
  change r.mark.epoch = 1
  rw [hp.mark, hk.mark, guest, mark_loggedIn]
  rfl

/-- A checksum that is not the own one. -/
def otherCrc (c : ℕ) : ℕ := (c + 1) % 65536

theorem otherCrc_ne (c : ℕ) : otherCrc c ≠ c := by
  unfold otherCrc
  omega

/-- A CRC frame for the first tick. -/
def crcOfTick0 (seat c : ℕ) : List ℕ := [6, ftCrc, seat, 0, 0, otherCrc c % 256, otherCrc c / 256]

theorem framed_crcOfTick0 (me : Fin 2) (c : ℕ) : Framed (crcOfTick0 me c) := by
  have hlt : otherCrc c < 65536 := Nat.mod_lt _ (by decide)
  refine ⟨rfl, show flenOk 6 ftCrc = true by decide, fun x hx => ?_⟩
  simp only [crcOfTick0, ftCrc, List.mem_cons, List.not_mem_nil, or_false] at hx
  omega

/-- What such a frame says. -/
theorem tick_crcOfTick0 {v : Cpu} {seat c : ℕ} (hbuf : InFrmbuf (crcOfTick0 seat c) v) :
    v.rd frmbuf = 6 ∧ v.rd (frmbuf + 1) = ftCrc ∧ frameTick v = 0 ∧ frameCrc v = otherCrc c := by
  have hcell : ∀ j < 7, v.rd (frmbuf + j) = (crcOfTick0 seat c).getD j 0 := fun j hj => hbuf j hj
  refine ⟨hcell 0 (by decide), hcell 1 (by decide), ?_, ?_⟩
  · rw [frameTick, Cpu.rd16, hcell 3 (by decide), hcell 4 (by decide)]
    simp [crcOfTick0, word]
  · have hword := word_mod_div (otherCrc c)
    rw [frameCrc, Cpu.rd16, hcell 5 (by decide), hcell 6 (by decide)]
    simp only [crcOfTick0, List.getD_cons_succ, List.getD_cons_zero]
    exact hword

/-- A guest that has reported tick 0 takes a CRC frame for it with another checksum. -/
theorem crc_exact_first : ∃ v c, Handles bootWorld guest v ∧ frameTick v = 0 ∧ LastReport v 0 c ∧
    c ≠ frameCrc v ∧ (sesOnframe v).rd rsPend ≠ 0 := by
  obtain ⟨s, c, hr, hs⟩ := reach_reported (W := bootWorld) (fun m => ⟨_, rfl⟩) (fun m => rfl) 1
  have hpump : Step bootWorld (some (.gives (crcOfTick0 0 c))) ⟨.top, s⟩
      ⟨.send, sesPump (.gives (crcOfTick0 0 c)) s⟩ := .pump (r := 0) rfl
  obtain ⟨v, hh, hl, hbuf⟩ := handles_one hr hpump hs.rx (framed_crcOfTick0 0 c) (by simp [crcOfTick0])
  obtain ⟨-, htype, htick, hcrc⟩ := tick_crcOfTick0 hbuf
  have hlast : LastReport v 0 c := by
    rw [LastReport, hl.log, hl.mark]
    exact hs.last
  have hne : c ≠ frameCrc v := by
    rw [hcrc]
    exact (otherCrc_ne c).symm
  have hiff := crc_exact [] blank ⟨fun _ => 0, 0⟩ hh (by rw [hl.log]; exact hs.guarded) htype
    (by rw [hl.mark, hs.epoch]; decide) ((hl.rd _ (by decide)).trans (hs.entry _ (.inr (.inl rfl))))
    ((hl.rd _ (by decide)).trans (hs.entry _ (.inl rfl))) ((hl.rd _ (by decide)).trans hs.pend)
    (by rw [htick])
  rw [htick] at hiff
  exact ⟨v, c, hh, htick, hlast, hne, hiff.2 ⟨c, hlast, hne⟩⟩

/-- The flag that a push waits for. -/
theorem quiescent_runBody (C : Cart) (t : Cpu) :
    (runBody C t).rd sbQuiescent = if (lsTick C t).rd sbPhase = 0 then 1 else 0 := by
  have htbl : ∀ u : Cpu, ∀ a ∈ [sbPhase, sbQuiescent], (nullTable (lsTblAdopt u)).rd a = u.rd a :=
    fun u a ha => by
      have hadopt : Local (· ∈ [gameTblLo, gameTblHi]) u (lsTblAdopt u) :=
        Local.ite (fun _ => Local.refl u) fun _ => ((Local.refl u).st (by decide)).st (by decide)
      have hnull : Local (· = execHtbl) (lsTblAdopt u) (nullTable (lsTblAdopt u)) := (Local.refl _).st rfl
      exact (hnull.rd a (by revert a; decide)).trans (hadopt.rd a (by revert a; decide))
  have hflag : ∀ w : Cpu, (w.st sbQuiescent (if w.rd sbPhase = 0 then 1 else 0)).rd sbQuiescent =
      if (w.st sbQuiescent (if w.rd sbPhase = 0 then 1 else 0)).rd sbPhase = 0 then 1 else 0 := fun w => by
    have hother : ∀ x, (w.st sbQuiescent x).rd sbPhase = w.rd sbPhase := fun x => by
      rw [Cpu.rd_st, if_neg (by decide)]
    rw [hother, Cpu.rd_st, if_pos rfl]
    split_ifs <;> rfl
  have hgame : ∀ u : Cpu, (scGameTick C u).rd sbQuiescent =
      if (scGameTick C u).rd sbPhase = 0 then 1 else 0 := fun u => hflag _
  rw [(within_runBody_tick t C).rd _ (by decide), lsTick_eq, htbl _ _ (by simp), htbl _ _ (by simp), hgame]

/-- A push that nothing holds up. -/
theorem push_rsPending {t : Cpu} (hp : t.rd rsPend ≠ 0) (hs : t.rd netSeat = 0)
    (hh : t.rd resyncHold = 0) (hq : t.rd scPhase = 1) :
    ∃ p ∈ (rsPending t).log, p.ev = .push t.tick := by
  have hfire : rsPending t = rsFire 1 (t.st rsPtmo (t.rd rsPtmo + 1)) := by
    simp only [rsPending]
    rw [if_neg (by simp [hp, hs, hh]), if_pos]
    rw [Cpu.rd_st, if_neg (by decide), hq]
    decide
  have hw : ∀ g, Local WaitCell t (((t.st rsPtmo (t.rd rsPtmo + 1)).st rsGate g).st rsWaited
      (((t.st rsPtmo (t.rd rsPtmo + 1)).st rsGate g).rd rsPtmo)) := fun g =>
    (((Local.refl t).st (by decide)).st (by decide)).st (by decide)
  have hpush := log_pushSent (((t.st rsPtmo (t.rd rsPtmo + 1)).st rsGate 1).st rsWaited
      (((t.st rsPtmo (t.rd rsPtmo + 1)).st rsGate 1).rd rsPtmo))
  have htick := Cpu.tick_congr ((hw 1).rd tickLo (by decide)) ((hw 1).rd tickHi (by decide))
  rw [hfire, rsFire, rsPush_eq, log_rsRebase, hpush, htick]
  exact ⟨_, .tail _ (.head _), rfl⟩

/-- A CRC frame that makes a push wanted is a mismatch. -/
theorem log_rsOnCrc_wanted {u : Cpu} (h0 : u.rd rsPend = 0) (h : (rsOnCrc u).rd rsPend ≠ 0) :
    (rsOnCrc u).log = u.mark.stamp (.mismatch (frameTick u) (recordCrc u) (frameCrc u)) ::
      u.mark.stamp (.crcIn (frameTick u) (frameCrc u)) :: u.log := by
  simp only [rsOnCrc] at h ⊢
  split_ifs at h ⊢
  · exact absurd h0 h
  · exact absurd h0 h
  · exact absurd h0 h
  · exact absurd h0 h
  · exact absurd h0 h
  · rw [log_rsWant]
    rfl

/-- The interrupt ends the phase that the game is in; nothing else runs beside the engine. -/
def pausedWorld : World where
  cart := stillWorld.cart
  isr m m' := m' = m.set sbPhase 0
  native := stillWorld.native
  boot := stillWorld.boot
  isr_get := get_clear_phase
  native_get := stillWorld.native_get
  boot_get := stillWorld.boot_get

theorem keepsRx_crc {t : Cpu} (h : t.rd (frmbuf + 1) = ftCrc) : KeepsRx t := fun a ha => by
  rw [sesOnframe_crc h]
  refine (within_rsOnCrc t).rd a fun hw => ?_
  simp only [RxCell, rxWr, rxRd, rxacc] at ha
  simp only [WantCell, MailCell, rsPend, rsPtmo] at hw
  omega

/-- A host of two behind a pump, a push being wanted of it and its tick being due. -/
structure Wanting (w : Cpu) : Prop where
  rdSeat : w.rd netSeat = 0
  rdCount : w.rd netCount = 2
  hold : w.rd resyncHold = 0
  pend : w.rd rsPend ≠ 0
  phase : w.rd sbPhase = 0
  tick : w.tick = 1
  wm : w.wm 1 = 1
  guarded : seatsGuard.holds w.log
  differs : ∃ m own peer, m.epoch ≠ 0 ∧ Mark.stamp m (.mismatch 0 own peer) ∈ w.log

/-- A CRC frame for the tick that was reported, with another checksum, and the INPUT of the next tick. -/
theorem wanting_pump {s₀ s : Cpu} {c : ℕ} (hs₀ : Reported 0 c s₀)
    (hl : Local (· < 0x8000) s₀ s) (hphase : s.rd sbPhase = 0) (hchk : Checked s) :
    Wanting (sesPump (.gives (crcOfTick0 1 c ++ inputOf 1 1 (5, 6))) s) := by
  have hrx : rxBytes s = [] := by
    rw [← hs₀.rx]
    refine rxBytes_local hl.within fun a ha hlow => ?_
    simp only [RxCell, rxWr, rxRd, rxacc] at ha
    omega
  obtain ⟨u, v, hu, hub, hv, hvb, hpump, -⟩ := sesPump_two (f := crcOfTick0 1 c) (g := inputOf 1 1 (5, 6))
    hrx (framed_crcOfTick0 1 c) (framed_first 1 (by decide) (by decide)) (by simp [crcOfTick0, inputOf])
    (fun t _ hf => keepsRx_crc (tick_crcOfTick0 hf).2.1) fun t w ht hf hw hg => by
      have hcount : w.rd netCount = 2 := by
        rw [hw.rd _ (by decide), sesOnframe_crc (tick_crcOfTick0 hf).2.1,
          (within_rsOnCrc t).rd _ (by decide), ht.rd _ (by decide), hl.rd _ (by decide), hs₀.rdCount]
      exact keepsRx_input (hg 1 (by simp [inputOf])) (by rw [hcount]; decide)
  obtain ⟨hlen, htype, htick, hcrc⟩ := tick_crcOfTick0 hub
  -- The CRC frame is a mismatch.
  have hfar : ∀ {a}, ¬ (a < 0x8000) → ¬ PumpCell a → u.rd a = s₀.rd a := fun h1 h2 =>
    (hu.rd _ h2).trans (hl.rd _ h1)
  have hentry : ∀ a, EntryTest a → u.rd a = 0 := fun a ha => by
    refine (hfar ?_ ?_).trans (hs₀.entry a ha) <;> rcases ha with rfl | rfl | rfl <;> decide
  have hpend : u.rd rsPend = 0 := (hfar (by decide) (by decide)).trans hs₀.pend
  have hcheck : Checked u := hchk.of_local hu (fun _ => .inl) (by decide) (by decide) (by decide)
  have hmark : u.mark = s₀.mark := hu.mark.trans hl.mark
  have hepoch : u.mark.epoch ≠ 0 := by
    rw [hmark, hs₀.epoch]
    decide
  have hlast : LastReport u 0 c := by
    rw [LastReport, hu.log, hl.log, hmark]
    exact hs₀.last
  have hwant : (sesOnframe u).rd rsPend ≠ 0 := by
    refine (hcheck.wants_iff hlen.ge htype hepoch (hentry _ (.inr (.inl rfl))) (hentry _ (.inl rfl))
      hpend (by rw [htick])).2 ⟨c, ?_, ?_⟩
    · rw [htick]
      exact hlast
    · rw [hcrc]
      exact (otherCrc_ne c).symm
  rw [sesOnframe_crc htype] at hwant hv
  have hlog := log_rsOnCrc_wanted hpend hwant
  have hw := within_rsOnCrc u
  generalize rsOnCrc u = y at hwant hv hlog hw
  -- The INPUT is taken.
  have hfar' : ∀ {a}, ¬ (a < 0x8000) → ¬ PumpCell a → ¬ WantCell a → v.rd a = s₀.rd a := fun h1 h2 h3 =>
    (hv.rd _ h2).trans ((hw.rd _ h3).trans (hfar h1 h2))
  have hwm : v.wm 1 = 0 := (Cpu.wm_congr (hfar' (by decide) (by decide) (by decide))
    (hfar' (by decide) (by decide) (by decide))).trans hs₀.wm
  obtain ⟨haccept, hft, hf⟩ := accepts_first (i := 0) hvb
    ((hfar' (by decide) (by decide) (by decide)).trans hs₀.rdSeat)
    ((hfar' (by decide) (by decide) (by decide)).trans hs₀.rdCount) hwm
  have hf1 : v.rd (frmbuf + 2) = 1 := hf
  have hin := within_acceptInput (s := v) (by omega)
  obtain ⟨m, x, x', z, hinlog⟩ := log_acceptInput v
  have hinwm := wm_acceptInput (s := v) (by omega) (show 1 < 4 by decide)
  rw [haccept] at hpump
  rw [hpump]
  generalize acceptInput v = w at hin hinlog hinwm ⊢
  have hcell : ∀ {a}, ¬ (a < 0x8000) → ¬ PumpCell a → ¬ WantCell a → ¬ InputCell a → w.rd a = s₀.rd a :=
    fun h1 h2 h3 h4 => (hin.rd _ h4).trans (hfar' h1 h2 h3)
  have hwlog : w.log = m.stamp (.slot x x' z) :: v.mark.stamp (inputEv v true) ::
      u.mark.stamp (.mismatch 0 (recordCrc u) (frameCrc u)) ::
      u.mark.stamp (.crcIn 0 (frameCrc u)) :: s₀.log := by
    rw [hinlog, hv.log, hlog, hu.log, hl.log, htick]
  refine ⟨(hcell (by decide) (by decide) (by decide) (by decide)).trans hs₀.rdSeat,
    (hcell (by decide) (by decide) (by decide) (by decide)).trans hs₀.rdCount,
    (hcell (by decide) (by decide) (by decide) (by decide)).trans (hs₀.entry _ (.inr (.inl rfl))),
    ?_, ?_, ?_, ?_, fun e he => ?_, u.mark, recordCrc u, frameCrc u, hepoch, ?_⟩
  · rw [hin.rd _ (by decide), hv.rd _ (by decide)]
    exact hwant
  · rw [hin.rd _ (by decide), hv.rd _ (by decide), hw.rd _ (by decide), hu.rd _ (by decide)]
    exact hphase
  · exact (Cpu.tick_congr (hcell (by decide) (by decide) (by decide) (by decide))
      (hcell (by decide) (by decide) (by decide) (by decide))).trans hs₀.tick
  · rw [hinwm, if_pos hf1.symm, hft]
  · rw [hwlog] at he
    simp only [List.mem_cons] at he
    rcases he with rfl | rfl | rfl | rfl | he
    · trivial
    · trivial
    · trivial
    · trivial
    · exact hs₀.guarded e he
  · rw [hwlog]
    exact .tail _ (.tail _ (.head _))

/-- The tick of such a host ends with a push. -/
theorem push_of_wanting {w : Cpu} (h : Wanting w) : ∃ g,
    lsGate pausedWorld.cart (lsSend w) = ⟨.idle, lsReturn g⟩ ∧ w.log <:+ g.log ∧
      seatsGuard.holds g.log ∧ ∃ p ∈ g.log, p.ev = .push 2 := by
  have hseat := h.rdSeat
  have hsend := within_lsSend (s := w) (by omega)
  have hbody := within_runBody (lsSend w) pausedWorld.cart
  have htick : (lsSend w).tick = 1 :=
    (Cpu.tick_congr (hsend.rd _ (by decide)) (hsend.rd _ (by decide))).trans h.tick
  have hopen : gateOpen (lsSend w) = true := by
    refine gateOpen_pair (i := 0) ((hsend.rd _ (by decide)).trans h.rdSeat)
      ((hsend.rd _ (by decide)).trans h.rdCount) ?_
    rw [show (((1 - 0 : Fin 2) : ℕ)) = 1 from rfl, wm_lsSend (by omega) (by decide), h.wm, htick]
    decide
  have hgate : lsGate pausedWorld.cart (lsSend w) =
      ⟨.idle, lsReturn (rsPending (runBody pausedWorld.cart (lsSend w)))⟩ := by
    rw [lsGate, if_pos hopen, lsRun_eq]
  have hquiet := quiescent_runBody pausedWorld.cart (lsSend w)
  rw [if_pos (phase_lsTick (Q := (· = 0)) (fun _ _ _ _ h => h) (fun _ h => h)
    ((hsend.rd _ (by decide)).trans h.phase))] at hquiet
  obtain ⟨p, hp, hpev⟩ := push_rsPending (t := runBody pausedWorld.cart (lsSend w))
    (by rw [hbody.rd _ (by decide), hsend.rd _ (by decide)]; exact h.pend)
    (by rw [hbody.rd _ (by decide), hsend.rd _ (by decide)]; exact hseat)
    (by rw [hbody.rd _ (by decide), hsend.rd _ (by decide)]; exact h.hold) hquiet
  rw [tick_runBody, htick] at hpev
  have hadds := adds_lsGate pausedWorld.cart (lsSend w)
  rw [hgate] at hadds
  have hgrow := hsend.grows.trans (hbody.grows.trans (within_rsPending _).grows)
  generalize rsPending (runBody pausedWorld.cart (lsSend w)) = g at hgate hgrow hadds hp
  refine ⟨g, hgate, hgrow, fun e he => ?_, p, hp, hpev⟩
  rcases hadds e he with he | he
  · rw [log_lsSend, log_lsCapture (by omega)] at he
    rcases List.mem_cons.1 he with rfl | he
    · trivial
    · exact h.guarded e he
  · exact seats_ofPass e.ev he

/-- A host that has reported tick 0 takes a CRC frame for it with another checksum, and the INPUT that it
waits for: its next tick ends with a push. -/
theorem resync_caused_push : ∃ n, Run pausedWorld guest n ∧
    (∃ p ∈ n.cpu.log, p.ev = .push 2 ∧ ∃ w ∈ n.cpu.log, w.Wants ∧
      (w.epoch < p.epoch ∨ w.epoch = p.epoch ∧ w.ran ≤ p.ran) ∧
        ∀ b ∈ n.cpu.log, b.Rebases → b.epoch ≤ w.epoch ∨ p.epoch < b.epoch) ∧
    ∃ e ∈ n.cpu.log, ∃ own peer, e.ev = .mismatch 0 own peer ∧ e.epoch ≠ 0 ∧ own ≠ peer ∧
      ((0, own) = noRecord ∨
        ∃ r ∈ n.cpu.log, r.ev = .report 0 own ∧ r.epoch = e.epoch ∧ r.ran < e.ran) := by
  obtain ⟨s₀, c, hr, hs₀⟩ := reach_reported (W := pausedWorld) (fun m => ⟨_, rfl⟩) (fun m => rfl) 0
  have hm : ∀ a, 0x8000 ≤ a → (s₀.mem.set sbPhase 0).get a = s₀.mem.get a := fun a ha =>
    pausedWorld.isr_get (m := s₀.mem) rfl a ha
  have hl := local_outside hm
  have hisr : Step pausedWorld none ⟨.top, s₀⟩ ⟨.top, s₀.call fun _ => s₀.mem.set sbPhase 0⟩ := .isr rfl
  have hphase : (s₀.call fun _ => s₀.mem.set sbPhase 0).rd sbPhase = 0 := by
    rw [Cpu.rd_call, Cells.get_set, if_pos rfl]
    rfl
  have hchk := ((kept_checked pausedWorld).outside s₀ _ ⟨hs₀.seated, hs₀.checked⟩ hm).2
  generalize (s₀.call fun _ => s₀.mem.set sbPhase 0) = s at hl hisr hphase hchk
  have hw := wanting_pump hs₀ hl hphase hchk
  have hpump : Step pausedWorld (some (.gives (crcOfTick0 1 c ++ inputOf 1 1 (5, 6)))) ⟨.top, s⟩
      ⟨.send, sesPump (.gives (crcOfTick0 1 c ++ inputOf 1 1 (5, 6))) s⟩ := .pump (r := 0) rfl
  generalize sesPump (.gives (crcOfTick0 1 c ++ inputOf 1 1 (5, 6))) s = w at hw hpump
  obtain ⟨g, hgate, hgrow, hg, p, hp, hpev⟩ := push_of_wanting hw
  have hrun : Run pausedWorld guest ⟨.idle, lsReturn g⟩ :=
    (((hr.tail ⟨none, hisr⟩).tail ⟨_, hpump⟩).tail ⟨none, .own (advance_send _ _)⟩).tail
      ⟨none, .own (by rw [advance_gate, hgate])⟩
  obtain ⟨m, own, peer, hepoch, hmem⟩ := hw.differs
  obtain ⟨hpush, hmis⟩ := resync_caused [] blank ⟨fun _ => 0, 0⟩ hrun hg
  exact ⟨_, hrun, ⟨p, hp, hpev, hpush p hp 2 hpev⟩, _, hgrow.subset hmem, own, peer, rfl, hepoch,
    hmis _ (hgrow.subset hmem) _ _ _ rfl hepoch⟩

end runs

end IntvNetplay.Console
