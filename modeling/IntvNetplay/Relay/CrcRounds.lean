import IntvNetplay.Relay.CrcAgree

/-!
# Which rounds are completed

A tick is lost from the table when it is the lowest of more than 64.  So a tick stays as long as fewer
than 64 higher ones are pending, whenever they came in: what counts is not how many ticks were reported
since, but how many higher ones are there.
-/

namespace IntvNetplay.Relay

open IntvNetplay.Machine

def Verdict.tick : Verdict → ℕ
  | .mismatch tick _ => tick
  | .agreed tick _ => tick

section rounds

variable {members t : ℕ} {seg : List CrcPayload} {H : Finset ℕ}

/-- A tick above which fewer than 64 are pending is not evicted. -/
theorem lookup_popMin {ν : Type} {d : Dict ν} (hH : ∀ k ∈ d.keys, t < k → k ∈ H) (hcard : H.card < 64)
    (hfull : 64 < d.keys.card) : (popMin d).lookup t = d.lookup t := by
  have hne : d.keys.Nonempty := Finset.card_pos.mp (by omega)
  rw [popMin, dif_pos hne]
  refine Finmap.lookup_erase_ne fun ht => ?_
  have hsub : d.keys ⊆ insert t H := by
    intro k hk
    have hle : t ≤ k := ht ▸ Finset.min'_le _ k hk
    rcases hle.eq_or_lt with rfl | hlt
    · exact Finset.mem_insert_self _ _
    · exact Finset.mem_insert_of_mem (hH k hk hlt)
  have hle := (Finset.card_le_card hsub).trans (Finset.card_insert_le t H)
  omega

theorem keys_popMin_subset {ν : Type} (d : Dict ν) : (popMin d).keys ⊆ d.keys := by
  rw [popMin]
  split_ifs with h
  · rw [Finmap.keys_erase]
    exact Finset.erase_subset _ _
  · exact Finset.Subset.refl _

theorem keys_pyInsert_subset (seat tick crc : ℕ) (d : Dict (Dict ℕ)) :
    (pyInsert seat tick crc d).keys ⊆ insert tick d.keys := by
  have hins : (d.insert tick (pyEntry seat tick crc d)).keys = insert tick d.keys := keys_insert _ _ _
  rw [pyInsert]
  split_ifs
  · exact (keys_popMin_subset _).trans hins.subset
  · exact hins.subset

/-- What a table keeps for a tick behind an insert. -/
theorem lookup_pyInsert {seat tick crc : ℕ} {d : Dict (Dict ℕ)}
    (hH : ∀ k ∈ insert tick d.keys, t < k → k ∈ H) (hcard : H.card < 64) :
    (pyInsert seat tick crc d).lookup t =
      if t = tick then some (pyEntry seat tick crc d) else d.lookup t := by
  have hlook : (d.insert tick (pyEntry seat tick crc d)).lookup t =
      if t = tick then some (pyEntry seat tick crc d) else d.lookup t := by
    split_ifs with ht
    · rw [ht, Finmap.lookup_insert]
    · exact Finmap.lookup_insert_of_ne _ ht
  rw [← hlook, pyInsert]
  split_ifs with hfull
  · exact lookup_popMin (by rw [keys_insert]; exact hH) hcard hfull
  · rfl

/-- The ticks above `t` that are pending in a table or reported. -/
def above (t : ℕ) (d : Dict (Dict ℕ)) (seg : List CrcPayload) : Finset ℕ :=
  (d.keys ∪ (seg.map CrcPayload.tick).toFinset).filter (t < ·)

/-- The seats that have reported a tick. -/
def seatsOf (t : ℕ) (seg : List CrcPayload) : Finset ℕ :=
  ((seg.filter fun p => p.tick = t).map CrcPayload.seat).toFinset

theorem seatsOf_append (q : CrcPayload) : seatsOf t (seg ++ [q]) =
    if q.tick = t then insert q.seat (seatsOf t seg) else seatsOf t seg := by
  rw [seatsOf, List.filter_append]
  split_ifs with hq
  · rw [List.filter_cons_of_pos (by simpa using hq), List.map_append, List.toFinset_append]
    exact Finset.union_comm _ _
  · rw [List.filter_cons_of_neg (by simpa using hq)]
    change ((seg.filter _ ++ []).map _).toFinset = _
    rw [List.append_nil]
    rfl

/-- What the round of a tick has come to: the seats that have reported it, the higher ticks pending. -/
structure Growing (t : ℕ) (H S : Finset ℕ) (room : PyRoom) : Prop where
  higher : ∀ k ∈ room.crc.keys, t < k → k ∈ H
  seats : ((room.crc.lookup t).getD ∅).keys = S

/-- The table behind a report. -/
theorem crc_pyLogCrc (members : ℕ) (q : CrcPayload) (room : PyRoom) :
    (pyLogCrc members q room).1.crc =
      if (pyEntry q.seat q.tick q.crc room.crc).keys.card < members
      then pyInsert q.seat q.tick q.crc room.crc
      else (pyInsert q.seat q.tick q.crc room.crc).erase q.tick := by
  unfold pyLogCrc
  dsimp only
  split_ifs with hless hdiff
  · rfl
  · rfl
  · rfl

/-- A report keeps a round that it does not complete. -/
theorem growing_step {S : Finset ℕ} {room : PyRoom} {q : CrcPayload} (h : Growing t H S room)
    (hH : H.card < 64) (hq : t < q.tick → q.tick ∈ H)
    (hless : q.tick = t → (insert q.seat S).card < members) :
    Growing t H (if q.tick = t then insert q.seat S else S) (pyLogCrc members q room).1 := by
  have hins : ∀ k ∈ insert q.tick room.crc.keys, t < k → k ∈ H := by
    intro k hk hlt
    rcases Finset.mem_insert.mp hk with rfl | hk
    · exact hq hlt
    · exact h.higher k hk hlt
  have hkeys := keys_pyInsert_subset q.seat q.tick q.crc room.crc
  have hlook : (pyInsert q.seat q.tick q.crc room.crc).lookup t =
      if t = q.tick then some (pyEntry q.seat q.tick q.crc room.crc) else room.crc.lookup t :=
    lookup_pyInsert hins hH
  constructor
  · intro k hk
    rw [crc_pyLogCrc] at hk
    split_ifs at hk
    · exact hins k (hkeys hk)
    · rw [Finmap.keys_erase] at hk
      exact hins k (hkeys (Finset.mem_of_mem_erase hk))
  · rw [crc_pyLogCrc]
    by_cases ht : q.tick = t
    · have hentry : (pyEntry q.seat q.tick q.crc room.crc).keys = insert q.seat S := by
        rw [pyEntry, keys_insert, ht, h.seats]
      rw [if_pos ht, if_pos (by rw [hentry]; exact hless ht), hlook, if_pos ht.symm, Option.getD_some,
        hentry]
    · rw [if_neg ht]
      split_ifs
      · rw [hlook, if_neg (Ne.symm ht), h.seats]
      · rw [Finmap.lookup_erase_ne (Ne.symm ht), hlook, if_neg (Ne.symm ht), h.seats]

theorem growing_run {before : List CrcPayload} {last : CrcPayload}
    (hnew : t ∉ (pyRoom members before).1.crc) (hH : H.card < 64)
    (hsub : above t (pyRoom members before).1.crc seg ⊆ H) (hlast : last.seat < members)
    (hown : ∀ q ∈ seg, q.seat < members) (hfirst : ∀ q ∈ seg, q.tick = t → q.seat ≠ last.seat) :
    Growing t H (seatsOf t seg) (pyRoom members (before ++ seg)).1 ∧
      seatsOf t seg ⊆ (Finset.range members).erase last.seat := by
  induction seg using List.reverseRecOn with
  | nil =>
    rw [List.append_nil]
    refine ⟨⟨fun k hk hlt => hsub ?_, ?_⟩, Finset.empty_subset _⟩
    · exact Finset.mem_filter.mpr ⟨Finset.mem_union_left _ hk, hlt⟩
    · rw [Finmap.lookup_eq_none.mpr hnew]
      rfl
  | append_singleton seg q ih =>
    have hq : q ∈ seg ++ [q] := List.mem_append_right _ (List.mem_singleton_self q)
    have hin : ∀ {x}, x ∈ seg → x ∈ seg ++ [q] := fun hx => List.mem_append_left _ hx
    have hmap : ∀ x ∈ (seg.map CrcPayload.tick).toFinset,
        x ∈ ((seg ++ [q]).map CrcPayload.tick).toFinset := by
      intro x hx
      rw [List.map_append, List.toFinset_append]
      exact Finset.mem_union_left _ hx
    have hsub' : above t (pyRoom members before).1.crc seg ⊆ H := by
      refine Finset.Subset.trans (Finset.filter_subset_filter _ ?_) hsub
      exact Finset.union_subset_union_right hmap
    obtain ⟨hgrow, hseats⟩ := ih hsub' (fun x hx => hown x (hin hx)) fun x hx => hfirst x (hin hx)
    have htick : t < q.tick → q.tick ∈ H := by
      intro hlt
      refine hsub (Finset.mem_filter.mpr ⟨Finset.mem_union_right _ ?_, hlt⟩)
      exact List.mem_toFinset.mpr (List.mem_map.mpr ⟨q, hq, rfl⟩)
    have hmore : q.tick = t → insert q.seat (seatsOf t seg) ⊆ (Finset.range members).erase last.seat := by
      intro ht
      refine Finset.insert_subset ?_ hseats
      exact Finset.mem_erase.mpr ⟨hfirst q hq ht, Finset.mem_range.mpr (hown q hq)⟩
    have hless : q.tick = t → (insert q.seat (seatsOf t seg)).card < members := by
      intro ht
      have hle := Finset.card_le_card (hmore ht)
      rw [Finset.card_erase_of_mem (Finset.mem_range.mpr hlast), Finset.card_range] at hle
      omega
    rw [← List.append_assoc, pyRoom_append, seatsOf_append]
    refine ⟨growing_step hgrow hH htick hless, ?_⟩
    split_ifs with ht
    · exact hmore ht
    · exact hseats

/-- A report that completes its row is answered with a verdict. -/
theorem verdict_pyLogCrc {q : CrcPayload} {room : PyRoom}
    (h : members ≤ (pyEntry q.seat q.tick q.crc room.crc).keys.card) :
    ∃ v, (pyLogCrc members q room).2 = some v ∧ v.tick = q.tick := by
  unfold pyLogCrc
  rw [if_neg (Nat.not_lt.mpr h)]
  dsimp only
  split_ifs
  · exact ⟨_, rfl, rfl⟩
  · exact ⟨_, rfl, rfl⟩

end rounds

/-- **A round is completed** on either relay, whatever was reported before, if fewer than 64 ticks above
its own are pending when it begins or are reported until it ends: the report of the last member is
answered with a verdict. -/
theorem round_completed (members : ℕ) (hm : 2 ≤ members) (hm' : members ≤ 4)
    (before seg : List CrcPayload) (last : CrcPayload)
    (hnew : last.tick ∉ (pyRoom members before).1.crc)
    (hown : ∀ q ∈ seg ++ [last], q.seat < members)
    (hlast : ∀ q ∈ seg, q.tick = last.tick → q.seat ≠ last.seat)
    (hall : ∀ seat < members, ∃ q ∈ seg ++ [last], q.tick = last.tick ∧ q.seat = seat)
    (hfew : (above last.tick (pyRoom members before).1.crc seg).card < 64) :
    (∃ v, (pyLogCrc members last (pyRoom members (before ++ seg)).1).2 = some v ∧
      v.tick = last.tick) ∧
    ∃ v, (cLogCrc members last (cRoom members (before ++ seg)).1).verdict = some v ∧
      v.tick = last.tick := by
  obtain ⟨hgrow, -⟩ := growing_run hnew hfew (Finset.Subset.refl _)
    (hown last (List.mem_append_right _ (List.mem_singleton_self _)))
    (fun q hq => hown q (List.mem_append_left _ hq)) hlast
  have hentry : (pyEntry last.seat last.tick last.crc (pyRoom members (before ++ seg)).1.crc).keys =
      insert last.seat (seatsOf last.tick seg) := by
    rw [pyEntry, keys_insert, hgrow.seats]
  have hcard : members ≤ (insert last.seat (seatsOf last.tick seg)).card := by
    have hrange : Finset.range members ⊆ insert last.seat (seatsOf last.tick seg) := by
      intro seat hseat
      obtain ⟨q, hq, htick, rfl⟩ := hall seat (Finset.mem_range.mp hseat)
      rcases List.mem_append.mp hq with hq | hq
      · refine Finset.mem_insert_of_mem (List.mem_toFinset.mpr (List.mem_map.mpr ⟨q, ?_, rfl⟩))
        exact List.mem_filter.mpr ⟨hq, decide_eq_true htick⟩
      · rw [List.mem_singleton.mp hq]
        exact Finset.mem_insert_self _ _
    have hle := Finset.card_le_card hrange
    rwa [Finset.card_range] at hle
  have hverdict : ∃ v, (pyLogCrc members last (pyRoom members (before ++ seg)).1).2 = some v ∧
      v.tick = last.tick := verdict_pyLogCrc (by rw [hentry]; exact hcard)
  obtain ⟨v, hv, htick⟩ := hverdict
  have hstep := @mirrors_step members last _ _ hm hm' (mirrors_run hm hm' (before ++ seg)).1
  refine ⟨⟨v, hv, htick⟩, v.wrap, ?_, ?_⟩
  · rw [hstep.verdict, hv]
    rfl
  · rw [← htick]
    cases v <;> rfl

/-- A report of a seat for a low tick. -/
def lowReport (seat tick : UInt8) : CrcPayload := smallReport seat tick 0

theorem round_completed_once :
    ∃ v, (pyLogCrc 2 (lowReport 1 5) (pyRoom 2 [lowReport 0 5]).1).2 = some v ∧ v.tick = 5 := by
  have hown : ∀ q ∈ [lowReport 0 5] ++ [lowReport 1 5], q.seat < 2 := by
    intro q hq
    rcases List.mem_append.mp hq with hq | hq
    · rw [List.mem_singleton.mp hq]
      decide
    · rw [List.mem_singleton.mp hq]
      decide
  have hlast : ∀ q ∈ [lowReport 0 5], q.tick = (lowReport 1 5).tick → q.seat ≠ (lowReport 1 5).seat := by
    intro q hq
    rw [List.mem_singleton.mp hq]
    decide
  exact (round_completed 2 (by decide) (by decide) [] [lowReport 0 5] (lowReport 1 5)
    (by decide +kernel) hown hlast (by decide +kernel) (by decide +kernel)).1

/-- Sixty-four ticks that only seat 0 has reported. -/
def staleReports : List CrcPayload := (List.range 64).map fun i => lowReport 0 (UInt8.ofNat (i + 1))

/-- A round of two reports one after the other that neither relay completes: 64 higher ticks have been
left behind, so the tick goes as soon as it comes.  And one that is over before its last report: the
first of the two has met an older report of the other seat. -/
theorem round_missed :
    (pyLogCrc 2 (lowReport 1 0) (pyRoom 2 (staleReports ++ [lowReport 0 0])).1).2 = none ∧
      (cLogCrc 2 (lowReport 1 0) (cRoom 2 (staleReports ++ [lowReport 0 0])).1).verdict = none ∧
      (pyLogCrc 2 (lowReport 1 0) (pyRoom 2 ([lowReport 1 0] ++ [lowReport 0 0])).1).2 = none ∧
      (cLogCrc 2 (lowReport 1 0) (cRoom 2 ([lowReport 1 0] ++ [lowReport 0 0])).1).verdict = none := by
  refine ⟨?_, ?_, ?_, ?_⟩
  all_goals decide +kernel

end IntvNetplay.Relay
