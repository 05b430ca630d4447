import IntvNetplay.Relay.Crc

/-!
# The two checksum comparators agree

`Mirrors` is what holds between the C relay's table and the Python relay's: the flagged rows keep the
dictionary of dictionaries, no row is complete, and the counter is the other's modulo `2 ^ 32`.  A report
keeps it (`mirrors_step`); the point of the argument is that a table is only ever full behind a row that
is new, and a new row has one seat, so the row of a completed round has never been evicted.
-/

namespace IntvNetplay.Relay

open IntvNetplay.Machine

/-! ### A row -/

section row

variable {row row' : CrcRow} {seat crc n : ℕ}

/-- A row as long as it is in use. -/
structure RowOk (row : CrcRow) : Prop where
  length : row.s.length = crcSeats
  sole : crcslots.Sole row.s
  count : row.nseats = crcslots.size row.s
  byte : ∀ e ∈ row.s, e.inUse = true → e.seat < 256

theorem rowOk_claimed (tick : ℕ) : RowOk { zeroRow with inUse := true, tick := tick } where
  length := rfl
  sole := List.pairwise_replicate.mpr (.inr fun h => absurd h Bool.false_ne_true)
  count := by
    change (0 : ℤ) = (crcslots.size zeroRow.s : ℤ)
    decide
  byte e he hu := by
    obtain rfl := List.eq_of_mem_replicate he
    exact absurd hu Bool.false_ne_true

theorem dict_zeroRow : crcslots.dict zeroRow.s = ∅ := by decide

/-- A row takes a report: what it keeps is what a dictionary would. -/
theorem putSeat_spec (h : RowOk row) (hfree : crcslots.size row.s < crcSeats) (hb : seat < 256) :
    ∃ row', putSeat seat crc row = some row' ∧ RowOk row' ∧ row'.inUse = row.inUse ∧
      row'.tick = row.tick ∧ crcslots.dict row'.s = (crcslots.dict row.s).insert seat crc := by
  have hbyte : ∀ {i : ℕ} {e e' : CrcSlot}, row.s[i]? = some e → (e'.inUse = true → e'.seat < 256) →
      ∀ x ∈ row.s.set i e', x.inUse = true → x.seat < 256 := by
    intro i e e' hi he' x hx hu
    rcases List.mem_or_eq_of_mem_set hx with hmem | rfl
    · exact h.byte x hmem hu
    · exact he' hu
  unfold putSeat
  cases hplace : crcslots.place row.s seat with
  | some i =>
    obtain ⟨e, hi, he, hk⟩ := Flagged.place_eq_some hplace
    have hmod : row.s.modify i (fun e => { e with crc := crc }) = row.s.set i { e with crc := crc } :=
      Flagged.modify_eq_set hi
    have hsize := Flagged.size_set (F := crcslots) (b := { e with crc := crc }) hi
    have honly : crcslots.Only row.s i e.seat := Flagged.only_of_used h.sole hi he
    have hput : crcslots.dict (row.s.set i { e with crc := crc }) =
        (crcslots.dict row.s).insert e.seat crc :=
      Flagged.dict_put (b := (⟨e.inUse, e.seat, crc⟩ : CrcSlot)) h.sole hi (fun _ => rfl) honly he
    have hsame : crcslots.size (row.s.set i { e with crc := crc }) = crcslots.size row.s :=
      Nat.add_right_cancel hsize
    refine ⟨_, rfl, ⟨?_, ?_, ?_, ?_⟩, rfl, rfl, ?_⟩
    · rw [hmod, List.length_set, h.length]
    · rw [hmod]
      exact Flagged.sole_put h.sole hi honly
    · rw [hmod]
      exact h.count.trans (congrArg Nat.cast hsame.symm)
    · rw [hmod]
      exact hbyte hi fun hu => h.byte e (List.mem_of_getElem? hi) hu
    · rw [hmod, show seat = e.seat from hk.symm]
      exact hput
  | none =>
    have hnot := (Flagged.place_eq_none h.sole).mp hplace
    obtain ⟨i, hfree⟩ := Option.ne_none_iff_exists'.mp
      (Flagged.free_ne_none (l := row.s) (F := crcslots) (by rw [h.length]; exact hfree))
    obtain ⟨e, hi, he⟩ := Flagged.free_eq_some hfree
    have hmod : row.s.modify i (fun e => { e with inUse := true, seat := seat, crc := crc }) =
        row.s.set i ⟨true, seat, crc⟩ := Flagged.modify_eq_set hi
    have hsize := Flagged.size_set (F := crcslots) (b := ⟨true, seat, crc⟩) hi
    have hu : (crcslots.used e).toNat = 0 := by
      rw [show crcslots.used e = false from he]
      rfl
    have hu' : (crcslots.used ⟨true, seat, crc⟩).toNat = 1 := rfl
    have honly : crcslots.Only row.s i seat := Flagged.only_of_not_mem h.sole hnot
    have hput : crcslots.dict (row.s.set i ⟨true, seat, crc⟩) =
        (crcslots.dict row.s).insert seat crc :=
      Flagged.dict_put (b := (⟨true, seat, crc⟩ : CrcSlot)) h.sole hi
        (fun hu => absurd (he.symm.trans hu) Bool.false_ne_true) honly rfl
    refine ⟨{ row with s := row.s.set i ⟨true, seat, crc⟩, nseats := row.nseats + 1 }, ?_,
      ⟨?_, Flagged.sole_put h.sole hi honly, ?_, hbyte hi fun _ => hb⟩, rfl, rfl, hput⟩
    · rw [hfree, Option.map_some, hmod]
    · rw [List.length_set, h.length]
    · have hcount := h.count
      change row.nseats + 1 = (crcslots.size (row.s.set i ⟨true, seat, crc⟩) : ℤ)
      omega

theorem card_row (h : RowOk row) : ((crcslots.dict row.s).keys.card : ℤ) = row.nseats := by
  rw [Flagged.card_dict h.sole, h.count]

theorem agreeLoop_some (s : List CrcSlot) (v : ℕ) (agree : Bool) :
    (s.foldl (fun (first, agree) e =>
      if !e.inUse then (first, agree)
      else match first with
        | none => (some e.crc, agree)
        | some v => (first, agree && decide (e.crc = v))) (some v, agree)).2 = true ↔
      agree = true ∧ ∀ e ∈ s, e.inUse = true → e.crc = v := by
  induction s generalizing agree with
  | nil => exact ⟨fun h => ⟨h, fun e he => absurd he List.not_mem_nil⟩, And.left⟩
  | cons e s ih =>
    rw [List.foldl_cons, List.forall_mem_cons]
    cases hu : e.inUse with
    | false =>
      refine (ih agree).trans ⟨fun h => ?_, fun h => ⟨h.1, h.2.2⟩⟩
      exact ⟨h.1, fun hn => absurd hn Bool.false_ne_true, h.2⟩
    | true =>
      refine (ih _).trans ?_
      rw [Bool.and_eq_true, decide_eq_true_eq]
      exact ⟨fun h => ⟨h.1.1, fun _ => h.1.2, h.2⟩, fun h => ⟨⟨h.1, h.2.1 rfl⟩, h.2.2⟩⟩

theorem agreeLoop_all (s : List CrcSlot) : (agreeLoop s).2 = true ↔
    ∀ e ∈ s, ∀ e' ∈ s, e.inUse = true → e'.inUse = true → e.crc = e'.crc := by
  induction s with
  | nil => exact ⟨fun _ e he => absurd he List.not_mem_nil, fun _ => rfl⟩
  | cons e s ih =>
    rw [agreeLoop, List.foldl_cons]
    cases hu : e.inUse with
    | false =>
      refine ih.trans ⟨fun h a ha b hb hua hub => ?_, fun h a ha b hb => ?_⟩
      · have hne : ∀ x ∈ e :: s, x.inUse = true → x ∈ s := by
          intro x hx hux
          rcases List.mem_cons.mp hx with rfl | hmem
          · exact absurd (hu.symm.trans hux) Bool.false_ne_true
          · exact hmem
        exact h a (hne a ha hua) b (hne b hb hub) hua hub
      · exact h a (List.mem_cons_of_mem _ ha) b (List.mem_cons_of_mem _ hb)
    | true =>
      refine (agreeLoop_some s e.crc true).trans
        ⟨fun h a ha b hb hua hub => ?_, fun h => ⟨rfl, fun a ha hua => ?_⟩⟩
      · have heq : ∀ x ∈ e :: s, x.inUse = true → x.crc = e.crc := by
          intro x hx hux
          rcases List.mem_cons.mp hx with rfl | hmem
          · rfl
          · exact h.2 x hmem hux
        exact (heq a ha hua).trans (heq b hb hub).symm
      · exact h a (List.mem_cons_of_mem _ ha) e List.mem_cons_self hua hu

/-- The loop over the slots finds one value where the dictionary has one. -/
theorem agreeLoop_iff (h : RowOk row) (hpos : (crcslots.dict row.s).keys.Nonempty) :
    (agreeLoop row.s).2 = true ↔ distinctValues (crcslots.dict row.s) = 1 := by
  have hslot : ∀ e ∈ row.s, e.inUse = true →
      (crcslots.dict row.s).lookup e.seat = some e.crc := by
    intro e he hu
    obtain ⟨i, hi⟩ := List.getElem?_of_mem he
    exact (Flagged.lookup_eq_some h.sole).mpr ⟨i, e, hi, hu, rfl, rfl⟩
  have hkey : ∀ seat ∈ (crcslots.dict row.s).keys, ∃ e ∈ row.s, e.inUse = true ∧ e.seat = seat := by
    intro seat hseat
    obtain ⟨i, e, hi, hu, hk⟩ := (Flagged.mem_dict h.sole).mp (Finmap.mem_keys.mp hseat)
    exact ⟨e, List.mem_of_getElem? hi, hu, hk⟩
  have hone : distinctValues (crcslots.dict row.s) = 1 ↔
      ∀ a ∈ (crcslots.dict row.s).keys, ∀ b ∈ (crcslots.dict row.s).keys,
        ((crcslots.dict row.s).lookup a).getD 0 = ((crcslots.dict row.s).lookup b).getD 0 := by
    have hcard : 0 < distinctValues (crcslots.dict row.s) :=
      Finset.card_pos.mpr (hpos.image _)
    have hle : distinctValues (crcslots.dict row.s) = 1 ↔
        distinctValues (crcslots.dict row.s) ≤ 1 := by omega
    rw [hle, distinctValues, Finset.card_le_one]
    simp only [Finset.forall_mem_image]
  rw [agreeLoop_all, hone]
  constructor
  · intro hall a ha b hb
    obtain ⟨e, he, hu, rfl⟩ := hkey a ha
    obtain ⟨e', he', hu', rfl⟩ := hkey b hb
    rw [hslot e he hu, hslot e' he' hu', hall e he e' he' hu hu']
  · intro hall e he e' he' hu hu'
    have hmem : ∀ x ∈ row.s, x.inUse = true → x.seat ∈ (crcslots.dict row.s).keys :=
      fun x hx hux => Finmap.mem_keys.mpr (Finmap.mem_of_lookup_eq_some (hslot x hx hux))
    have heq := hall e.seat (hmem e he hu) e'.seat (hmem e' he' hu')
    rw [hslot e he hu, hslot e' he' hu'] at heq
    exact heq

/-- The items of a dictionary whose keys are below a bound, in ascending order. -/
def itemsBelow (entry : Dict ℕ) (n : ℕ) : List (ℕ × ℕ) :=
  ((List.range n).filter fun seat => seat ∈ entry.keys).map fun seat => (seat, (entry.lookup seat).getD 0)

theorem itemsBelow_succ (entry : Dict ℕ) (n : ℕ) : itemsBelow entry (n + 1) =
    itemsBelow entry n ++ ((entry.lookup n).toList.map fun v => (n, v)) := by
  rw [itemsBelow, List.range_succ, List.filter_append, List.map_append]
  refine congrArg (itemsBelow entry n ++ ·) ?_
  cases hv : entry.lookup n with
  | none =>
    have hn : n ∉ entry.keys := fun hn => Finmap.lookup_eq_none.mp hv (Finmap.mem_keys.mp hn)
    rw [List.filter_cons_of_neg (by simpa using hn)]
    rfl
  | some v =>
    have hn : n ∈ entry.keys := Finmap.mem_keys.mpr (Finmap.mem_of_lookup_eq_some hv)
    rw [List.filter_cons_of_pos (by simpa using hn), List.map_cons, hv]
    rfl

theorem length_itemsBelow (entry : Dict ℕ) (n : ℕ) :
    (itemsBelow entry n).length = (entry.keys.filter (· < n)).card := by
  have hnodup : ((List.range n).filter fun seat => seat ∈ entry.keys).Nodup :=
    List.nodup_range.filter _
  rw [itemsBelow, List.length_map, ← List.toFinset_card_of_nodup hnodup]
  refine congrArg Finset.card ?_
  ext x
  simp only [List.mem_toFinset, List.mem_filter, List.mem_range, decide_eq_true_eq, Finset.mem_filter]
  exact and_comm

theorem sortedItems_eq (entry : Dict ℕ) (n : ℕ) (h : ∀ seat ∈ entry.keys, seat < n) :
    sortedItems entry = itemsBelow entry n := by
  have hnodup : ((List.range n).filter fun seat => seat ∈ entry.keys).Nodup :=
    List.nodup_range.filter _
  have hkeys : ((List.range n).filter fun seat => seat ∈ entry.keys).toFinset = entry.keys := by
    ext x
    simp only [List.mem_toFinset, List.mem_filter, List.mem_range, decide_eq_true_eq]
    exact ⟨And.right, fun hx => ⟨h x hx, hx⟩⟩
  have hsort : entry.keys.sort = (List.range n).filter fun seat => seat ∈ entry.keys := by
    conv_lhs => rw [← hkeys]
    refine (List.toFinset_sort _ hnodup).mpr ?_
    exact List.pairwise_le_range.filter _
  rw [sortedItems, hsort]
  rfl

/-- The passes over the slots print the dictionary in ascending order. -/
theorem seatPasses_eq (h : RowOk row) : seatPasses row = sortedItems (crcslots.dict row.s) := by
  have hbyte : ∀ seat ∈ (crcslots.dict row.s).keys, seat < 256 := by
    intro seat hseat
    obtain ⟨i, e, hi, hu, rfl⟩ := (Flagged.mem_dict h.sole).mp (Finmap.mem_keys.mp hseat)
    exact h.byte e (List.mem_of_getElem? hi) hu
  have hpass : ∀ pass, (row.s.filter fun e => e.inUse && decide (e.seat = pass)).map
      (fun e => (e.seat, e.crc)) = ((crcslots.dict row.s).lookup pass).toList.map fun v => (pass, v) := by
    intro pass
    rw [← Flagged.filter_holds h.sole pass, List.map_map]
    refine List.map_congr_left fun e he => ?_
    have hk := (List.mem_filter.mp he).2
    rw [Bool.and_eq_true, decide_eq_true_eq] at hk
    rw [Function.comp_apply, ← hk.2]
    rfl
  rw [sortedItems_eq _ 256 hbyte, seatPasses]
  induction 256 with
  | zero => rfl
  | succ n ih =>
    rw [List.range_succ, List.foldl_append, ih, List.foldl_cons, List.foldl_nil, hpass, itemsBelow_succ]
    split_ifs with hmore
    · rfl
    · -- every seat has been printed, so none is left at or above `n`
      rw [← card_row h, length_itemsBelow] at hmore
      have hle : (crcslots.dict row.s).keys.card ≤
          ((crcslots.dict row.s).keys.filter (· < n)).card := by omega
      have hall := Finset.eq_of_subset_of_card_le (Finset.filter_subset _ _) hle
      have hn : n ∉ (crcslots.dict row.s) := by
        intro hn
        have hmem := Finmap.mem_keys.mpr hn
        rw [← hall, Finset.mem_filter] at hmem
        exact absurd hmem.2 (Nat.lt_irrefl n)
      rw [Finmap.lookup_eq_none.mpr hn]
      exact (List.append_nil _).symm

end row

/-! ### The table -/

section table

variable {members : ℕ} {payload : CrcPayload} {r : CRoom} {p : PyRoom}

/-- What holds between the two relays between two reports. -/
structure Mirrors (members : ℕ) (r : CRoom) (p : PyRoom) : Prop where
  length : r.crc.length = 65
  sole : crcrows.Sole r.crc
  count : r.ncrc = crcrows.size r.crc
  le : crcrows.size r.crc ≤ 64
  rows : ∀ row ∈ r.crc, row.inUse = true → RowOk row ∧ row.nseats < members
  table : p.crc = crcrows.dict r.crc
  counter : r.crcOk = p.crcOk % 2 ^ 32

/-- The table behind the insert, in front of the eviction; `i` is the row the report went to. -/
structure Entered (members : ℕ) (payload : CrcPayload) (r r' : CRoom) (i : ℕ) (row : CrcRow) :
    Prop where
  length : r'.crc.length = 65
  sole : crcrows.Sole r'.crc
  count : r'.ncrc = crcrows.size r'.crc
  here : r'.crc[i]? = some row
  inUse : row.inUse = true
  tick : row.tick = payload.tick
  ok : RowOk row
  others : ∀ (j : ℕ) (x : CrcRow), j ≠ i → r'.crc[j]? = some x → x.inUse = true → RowOk x ∧ x.nseats < members
  counter : r'.crcOk = r.crcOk
  dict : crcrows.dict r'.crc = (crcrows.dict r.crc).insert payload.tick (crcslots.dict row.s)
  entry : crcslots.dict row.s = pyEntry payload.seat payload.tick payload.crc (crcrows.dict r.crc)
  /-- The row had been there, or it is new and has one seat. -/
  room : crcrows.size r'.crc ≤ 64 ∧ row.nseats ≤ members ∨ crcrows.size r'.crc ≤ 65 ∧ row.nseats = 1

theorem keys_insert {ν : Type} (d : Dict ν) (k : ℕ) (v : ν) :
    (d.insert k v).keys = insert k d.keys := by
  ext x
  rw [Finmap.mem_keys, Finmap.mem_insert, Finset.mem_insert, Finmap.mem_keys]

theorem seat_lt (payload : CrcPayload) : payload.seat < 256 := UInt8.toNat_lt _

/-- A report is entered. -/
theorem entered_spec (hm : 2 ≤ members) (hm' : members ≤ 4) (h : Mirrors members r p) :
    ∃ i r' row, findRow payload.tick r = some (i, r') ∧
      putSeat payload.seat payload.crc (r'.crc.getD i zeroRow) = some row ∧
      Entered members payload r { r' with crc := r'.crc.set i row } i row := by
  unfold findRow
  cases hplace : crcrows.place r.crc payload.tick with
  | some i =>
    obtain ⟨old, hi, hu, hk⟩ := Flagged.place_eq_some hplace
    have hlt : i < r.crc.length := (List.getElem?_eq_some_iff.mp hi).1
    obtain ⟨hok, hseats⟩ := h.rows old (List.mem_of_getElem? hi) hu
    have hcount := hok.count
    have hfree : crcslots.size old.s < crcSeats := by
      simp only [crcSeats]
      omega
    obtain ⟨row, hput, hok', hu', hk', hdict⟩ :=
      @putSeat_spec old payload.seat payload.crc hok hfree (seat_lt payload)
    have hused : crcrows.used row = true := hu'.trans hu
    have htick : row.tick = payload.tick := hk'.trans hk
    have hget : r.crc.getD i zeroRow = old := by
      rw [List.getD_eq_getElem?_getD, hi, Option.getD_some]
    have honly : crcrows.Only r.crc i row.tick := by
      rw [hk']
      exact Flagged.only_of_used h.sole hi hu
    have hsize := Flagged.size_set (F := crcrows) (b := row) hi
    rw [show crcrows.used old = true from hu, hused] at hsize
    have hsame : crcrows.size (r.crc.set i row) = crcrows.size r.crc := Nat.add_right_cancel hsize
    have hins : crcrows.dict (r.crc.set i row) =
        (crcrows.dict r.crc).insert row.tick (crcslots.dict row.s) :=
      Flagged.dict_put (b := row) h.sole hi (fun _ => hk'.symm) honly hused
    have hold : (crcrows.dict r.crc).lookup payload.tick = some (crcslots.dict old.s) :=
      (Flagged.lookup_eq_some h.sole).mpr ⟨i, old, hi, hu, hk, rfl⟩
    have hentry : crcslots.dict row.s =
        pyEntry payload.seat payload.tick payload.crc (crcrows.dict r.crc) := by
      rw [pyEntry, hold, Option.getD_some, hdict]
    have hmore : row.nseats ≤ members := by
      have hcard : (crcslots.dict row.s).keys.card ≤ (crcslots.dict old.s).keys.card + 1 := by
        rw [hdict, keys_insert]
        exact Finset.card_insert_le _ _
      have h1 := card_row hok
      have h2 := card_row hok'
      omega
    refine ⟨i, r, row, rfl, by rw [hget]; exact hput, ⟨?_, Flagged.sole_put h.sole hi honly, ?_,
      List.getElem?_set_self hlt, hused, htick, hok', ?_, rfl, ?_, hentry, .inl ⟨?_, hmore⟩⟩⟩
    · rw [List.length_set, h.length]
    · exact h.count.trans (congrArg Nat.cast hsame.symm)
    · intro j x hj hx hux
      have hxj : r.crc[j]? = some x := by
        rwa [List.getElem?_set_ne (Ne.symm hj)] at hx
      exact h.rows x (List.mem_of_getElem? hxj) hux
    · rw [← htick]
      exact hins
    · exact hsame.le.trans h.le
  | none =>
    have hnot := (Flagged.place_eq_none h.sole).mp hplace
    have hlt' : crcrows.size r.crc < r.crc.length := by
      rw [h.length]
      exact Nat.lt_succ_of_le h.le
    obtain ⟨i, hfree⟩ := Option.ne_none_iff_exists'.mp (Flagged.free_ne_none hlt')
    obtain ⟨old, hi, hu⟩ := Flagged.free_eq_some hfree
    have hlt : i < r.crc.length := (List.getElem?_eq_some_iff.mp hi).1
    have hmod : r.crc.modify i (fun _ => { zeroRow with inUse := true, tick := payload.tick }) =
        r.crc.set i { zeroRow with inUse := true, tick := payload.tick } := Flagged.modify_eq_set hi
    have hget : (r.crc.set i { zeroRow with inUse := true, tick := payload.tick }).getD i zeroRow =
        { zeroRow with inUse := true, tick := payload.tick } := by
      rw [List.getD_eq_getElem?_getD, List.getElem?_set_self hlt, Option.getD_some]
    have hroom : crcslots.size zeroRow.s < crcSeats := by decide
    obtain ⟨row, hput, hok', hu', hk', hdict⟩ := @putSeat_spec _ payload.seat payload.crc
      (rowOk_claimed payload.tick) hroom (seat_lt payload)
    have hold : (crcrows.dict r.crc).lookup payload.tick = none := Finmap.lookup_eq_none.mpr hnot
    have hempty : crcslots.dict row.s = Finmap.insert payload.seat payload.crc ∅ := by
      rw [hdict, ← dict_zeroRow]
    have hone : row.nseats = 1 := by
      rw [← card_row hok', hempty, keys_insert]
      rfl
    have honly : crcrows.Only r.crc i row.tick := by
      rw [hk']
      exact Flagged.only_of_not_mem h.sole hnot
    have hsize := Flagged.size_set (F := crcrows) (b := row) hi
    rw [hu, show crcrows.used row = true from hu'] at hsize
    have hmore : crcrows.size (r.crc.set i row) = crcrows.size r.crc + 1 := hsize
    have hins : crcrows.dict (r.crc.set i row) =
        (crcrows.dict r.crc).insert row.tick (crcslots.dict row.s) :=
      Flagged.dict_put (b := row) h.sole hi
        (fun hu'' => absurd (hu.symm.trans hu'') Bool.false_ne_true) honly hu'
    have hentry : crcslots.dict row.s =
        pyEntry payload.seat payload.tick payload.crc (crcrows.dict r.crc) := by
      rw [pyEntry, hold, hempty]
      rfl
    refine ⟨i, { r with
        crc := r.crc.set i { zeroRow with inUse := true, tick := payload.tick }
        ncrc := r.ncrc + 1 }, row, ?_, ?_, ?_⟩
    · rw [hfree, Option.map_some, hmod]
    · rw [hget]
      exact hput
    · dsimp only
      rw [List.set_set]
      refine ⟨?_, Flagged.sole_put h.sole hi honly, ?_, List.getElem?_set_self hlt, hu', hk', hok', ?_,
        rfl, ?_, hentry, .inr ⟨?_, hone⟩⟩
      · rw [List.length_set, h.length]
      · have hcount := h.count
        change r.ncrc + 1 = (crcrows.size (r.crc.set i row) : ℤ)
        omega
      · intro j x hj hx hux
        have hxj : r.crc[j]? = some x := by
          rwa [List.getElem?_set_ne (Ne.symm hj)] at hx
        exact h.rows x (List.mem_of_getElem? hxj) hux
      · rw [← show row.tick = payload.tick from hk']
        exact hins
      · have hle := h.le
        change crcrows.size (r.crc.set i row) ≤ 65
        omega

/-- Clearing the flag of a row. -/
theorem clear_spec {j : ℕ} {x : CrcRow} (hs : crcrows.Sole r.crc) (hc : r.ncrc = crcrows.size r.crc)
    (hj : r.crc[j]? = some x) (hu : x.inUse = true) :
    r.crc.modify j (fun row => { row with inUse := false }) =
        r.crc.set j { x with inUse := false } ∧
      crcrows.Sole (r.crc.set j { x with inUse := false }) ∧
      r.ncrc - 1 = crcrows.size (r.crc.set j { x with inUse := false }) ∧
      crcrows.size (r.crc.set j { x with inUse := false }) + 1 = crcrows.size r.crc ∧
      crcrows.dict (r.crc.set j { x with inUse := false }) = (crcrows.dict r.crc).erase x.tick := by
  have hsize := Flagged.size_set (F := crcrows) (b := { x with inUse := false }) hj
  rw [show crcrows.used x = true from hu,
    show crcrows.used { x with inUse := false } = false from rfl] at hsize
  have hless : crcrows.size (r.crc.set j { x with inUse := false }) + 1 = crcrows.size r.crc := hsize
  refine ⟨Flagged.modify_eq_set hj, Flagged.sole_clear hs hj rfl, ?_, hless,
    Flagged.dict_clear (b := (⟨false, x.tick, x.nseats, x.s⟩ : CrcRow)) hs hj hu rfl⟩
  omega

/-- The rows in use behind the clearing of a flag were in use before. -/
theorem used_of_clear {j m : ℕ} {x y : CrcRow} (hj : r.crc[j]? = some x)
    (hy : (r.crc.set j { x with inUse := false })[m]? = some y) (hu : y.inUse = true) :
    m ≠ j ∧ r.crc[m]? = some y := by
  rcases (Flagged.getElem?_set_iff hj).mp hy with ⟨-, rfl⟩ | h
  · exact absurd hu Bool.false_ne_true
  · exact h

/-- The table behind the eviction. -/
structure Evicted (members : ℕ) (payload : CrcPayload) (r r' : CRoom) (i : ℕ) (row : CrcRow) :
    Prop where
  length : r'.crc.length = 65
  sole : crcrows.Sole r'.crc
  count : r'.ncrc = crcrows.size r'.crc
  le : crcrows.size r'.crc ≤ 64
  rows : ∀ (j : ℕ) (x : CrcRow), r'.crc[j]? = some x → x.inUse = true →
    j = i ∧ x = row ∨ RowOk x ∧ x.nseats < members
  counter : r'.crcOk = r.crcOk
  dict : crcrows.dict r'.crc =
    pyInsert payload.seat payload.tick payload.crc (crcrows.dict r.crc)

theorem evictRow_spec {r' : CRoom} {i : ℕ} {row : CrcRow} (h : Entered members payload r r' i row) :
    Evicted members payload r (evictRow r') i row := by
  have hcount := h.count
  have hsize : crcrows.size r'.crc ≤ 65 := h.room.elim (fun h => h.1.trans (by decide)) And.left
  have hcard : (crcrows.dict r'.crc).keys.card = crcrows.size r'.crc := Flagged.card_dict h.sole
  have hins : crcrows.dict r'.crc = (crcrows.dict r.crc).insert payload.tick
      (pyEntry payload.seat payload.tick payload.crc (crcrows.dict r.crc)) := by
    rw [h.dict, h.entry]
  have hrows : ∀ (j : ℕ) (x : CrcRow), r'.crc[j]? = some x → x.inUse = true →
      j = i ∧ x = row ∨ RowOk x ∧ x.nseats < members := by
    intro j x hj hu
    by_cases hji : j = i
    · subst hji
      exact .inl ⟨rfl, Option.some.inj (hj.symm.trans h.here)⟩
    · exact .inr (h.others j x hji hj hu)
  unfold evictRow
  split_ifs with hle
  · have hle' : crcrows.size r'.crc ≤ 64 := by omega
    refine ⟨h.length, h.sole, h.count, hle', hrows, h.counter, ?_⟩
    rw [pyInsert, ← hins, if_neg (by rw [hcard]; exact Nat.not_lt.mpr hle')]
  · have hgt : 64 < crcrows.size r'.crc := by omega
    obtain ⟨j, x, hlow, hj, hu, hmin⟩ := Flagged.lowest_of_pos h.sole (by omega)
    obtain ⟨hmod, hsole, hcnt, hless, hdict⟩ := clear_spec h.sole h.count hj hu
    rw [hlow]
    dsimp only
    rw [hmod]
    refine ⟨?_, hsole, hcnt, ?_, fun m y hm hy => ?_, h.counter, ?_⟩
    · rw [List.length_set, h.length]
    · change crcrows.size (r'.crc.set j { x with inUse := false }) ≤ 64
      omega
    · exact hrows m y (used_of_clear hj hm hy).2 hy
    · have hmem : x.tick ∈ crcrows.dict r'.crc := (Flagged.mem_dict h.sole).mpr ⟨j, x, hj, hu, rfl⟩
      rw [pyInsert, ← hins, if_pos (by rw [hcard]; exact hgt), popMin_of_least hmem hmin]
      exact hdict

/-- The verdict of the C relay, from that of the Python relay: the counter is a `uint32_t`. -/
def Verdict.wrap : Verdict → Verdict
  | .mismatch tick vals => .mismatch tick vals
  | .agreed tick count => .agreed tick (count % 2 ^ 32)

/-- A report keeps the two relays together. -/
structure Stepped (members : ℕ) (k : CrcCall) (q : PyRoom × Option Verdict) : Prop where
  mirrors : Mirrors members k.room q.1
  verdict : k.verdict = q.2.map Verdict.wrap
  exit : k.exit = .done
  seats : k.seats ≤ members

theorem mirrors_step (hm : 2 ≤ members) (hm' : members ≤ 4) (h : Mirrors members r p) :
    Stepped members (cLogCrc members payload r) (pyLogCrc members payload p) := by
  obtain ⟨i, r', row, hfind, hput, hent⟩ := @entered_spec members payload r p hm hm' h
  have hev := evictRow_spec hent
  have hcard := card_row hent.ok
  have hentry := hent.entry
  have hseats : row.nseats ≤ members := hent.room.elim And.right fun h => by omega
  rw [cLogCrc, hfind, pyLogCrc, h.table, ← hentry, ← hev.dict]
  dsimp only
  rw [hput]
  dsimp only
  by_cases hless : row.nseats < members
  · have hlt : (crcslots.dict row.s).keys.card < members := by omega
    rw [if_pos hless, if_pos hlt]
    refine ⟨⟨hev.length, hev.sole, hev.count, hev.le, fun x hx hu => ?_, rfl, ?_⟩, rfl, rfl, hseats⟩
    · obtain ⟨j, hj⟩ := List.getElem?_of_mem hx
      rcases hev.rows j x hj hu with ⟨-, rfl⟩ | hok
      · exact ⟨hent.ok, hless⟩
      · exact hok
    · exact hev.counter.trans h.counter
  · -- the row is complete, so it was there before: nothing has been evicted
    have hlt : ¬ (crcslots.dict row.s).keys.card < members := by omega
    have hle : crcrows.size (r'.crc.set i row) ≤ 64 := hent.room.elim And.left fun h => by omega
    have hcount := hent.count
    have hsame : evictRow { r' with crc := r'.crc.set i row } = { r' with crc := r'.crc.set i row } := by
      rw [evictRow, if_pos]
      change r'.ncrc ≤ 64
      have hc : r'.ncrc = crcrows.size (r'.crc.set i row) := hcount
      omega
    rw [if_neg hless, if_neg hlt]
    rw [hsame] at hev ⊢
    have hget : (r'.crc.set i row).getD i row = row := by
      rw [List.getD_eq_getElem?_getD]
      rw [show (r'.crc.set i row)[i]? = some row from hent.here, Option.getD_some]
    obtain ⟨hmod, hsole, hcnt, hless', hdict⟩ := clear_spec hent.sole hent.count hent.here hent.inUse
    have hpos : (crcslots.dict row.s).keys.Nonempty := Finset.card_pos.mp (by omega)
    have hagree := agreeLoop_iff hent.ok hpos
    have htable : (crcrows.dict (r'.crc.set i row)).erase payload.tick =
        crcrows.dict ((r'.crc.set i row).set i { row with inUse := false }) := by
      rw [← hent.tick]
      exact hdict.symm
    have hmirrors : ∀ {n m : ℕ}, n = m % 2 ^ 32 → Mirrors members
        ⟨(r'.crc.set i row).modify i fun row => { row with inUse := false }, r'.ncrc - 1, n⟩
        ⟨(crcrows.dict (r'.crc.set i row)).erase payload.tick, m⟩ := by
      intro n m hn
      rw [show (r'.crc.set i row).modify i (fun row => { row with inUse := false }) = _ from hmod]
      refine ⟨?_, hsole, hcnt, ?_, fun x hx hu => ?_, htable, hn⟩
      · rw [List.length_set]
        exact hent.length
      · change crcrows.size ((r'.crc.set i row).set i { row with inUse := false }) ≤ 64
        exact (Nat.le_succ _).trans (hless'.le.trans hle)
      · obtain ⟨j, hj⟩ := List.getElem?_of_mem hx
        obtain ⟨hji, hj'⟩ := used_of_clear hent.here hj hu
        exact hent.others j x hji hj' hu
    have hcounter : r'.crcOk = p.crcOk % 2 ^ 32 := hent.counter.trans h.counter
    dsimp only
    rw [hget, hent.inUse, if_pos rfl]
    dsimp only
    cases hspoken : (agreeLoop row.s).2 with
    | true =>
      rw [if_pos rfl, if_neg (not_not.mpr (hagree.mp hspoken))]
      have hnext : (r'.crcOk + 1) % 2 ^ 32 = (p.crcOk + 1) % 2 ^ 32 := by
        rw [hcounter]
        omega
      refine ⟨hmirrors hnext, ?_, rfl, hseats⟩
      rw [hnext]
      rfl
    | false =>
      have hdiff : distinctValues (crcslots.dict row.s) ≠ 1 := fun hone =>
        absurd (hspoken.symm.trans (hagree.mpr hone)) Bool.false_ne_true
      rw [if_neg Bool.false_ne_true, if_pos hdiff, seatPasses_eq hent.ok]
      exact ⟨hmirrors hcounter, rfl, rfl, hseats⟩

theorem mirrors_fresh : Mirrors members .fresh ⟨∅, 0⟩ where
  length := rfl
  sole := List.pairwise_replicate.mpr (.inr fun h => absurd h Bool.false_ne_true)
  count := by decide
  le := by decide
  rows row hrow hu := by
    obtain rfl := List.eq_of_mem_replicate hrow
    exact absurd hu Bool.false_ne_true
  table := by decide
  counter := rfl

end table

/-! ### Runs -/

section run

variable (members : ℕ)

/-- The room of the C relay behind the reports, and the lines it has printed, in order. -/
def cRoom (payloads : List CrcPayload) : CRoom × List Verdict :=
  payloads.foldl (fun (r, lines) payload =>
    let k := cLogCrc members payload r
    (k.room, lines ++ (k.verdict.bind Verdict.line).toList)) (.fresh, [])

def pyRoom (payloads : List CrcPayload) : PyRoom × List Verdict :=
  payloads.foldl (fun (r, lines) payload =>
    let q := pyLogCrc members payload r
    (q.1, lines ++ (q.2.bind Verdict.line).toList)) (⟨∅, 0⟩, [])

variable {members}

theorem cRoom_append (payloads : List CrcPayload) (payload : CrcPayload) :
    cRoom members (payloads ++ [payload]) =
      ((cLogCrc members payload (cRoom members payloads).1).room, (cRoom members payloads).2 ++
        ((cLogCrc members payload (cRoom members payloads).1).verdict.bind Verdict.line).toList) := by
  rw [cRoom, List.foldl_append]
  rfl

theorem pyRoom_append (payloads : List CrcPayload) (payload : CrcPayload) :
    pyRoom members (payloads ++ [payload]) =
      ((pyLogCrc members payload (pyRoom members payloads).1).1, (pyRoom members payloads).2 ++
        ((pyLogCrc members payload (pyRoom members payloads).1).2.bind Verdict.line).toList) := by
  rw [pyRoom, List.foldl_append]
  rfl

/-- Both relays print the same lines: the modulus is a multiple of four. -/
theorem line_wrap (v : Option Verdict) :
    ((v.map Verdict.wrap).bind Verdict.line) = (v.bind Verdict.line).map Verdict.wrap := by
  cases v with
  | none => rfl
  | some v =>
    cases v with
    | mismatch tick vals => rfl
    | agreed tick count =>
      have h4 : count % 2 ^ 32 % 4 = count % 4 := Nat.mod_mod_of_dvd _ (by decide)
      change (if count % 2 ^ 32 % 4 = 0 then some (Verdict.agreed tick (count % 2 ^ 32)) else none) =
        (if count % 4 = 0 then some (Verdict.agreed tick count) else none).map Verdict.wrap
      rw [h4]
      split_ifs
      · rfl
      · rfl

theorem mirrors_run (hm : 2 ≤ members) (hm' : members ≤ 4) (payloads : List CrcPayload) :
    Mirrors members (cRoom members payloads).1 (pyRoom members payloads).1 ∧
      (cRoom members payloads).2 = (pyRoom members payloads).2.map Verdict.wrap := by
  induction payloads using List.reverseRecOn with
  | nil => exact ⟨mirrors_fresh, rfl⟩
  | append_singleton payloads payload ih =>
    obtain ⟨hmirrors, hlines⟩ := ih
    have hstep := @mirrors_step members payload _ _ hm hm' hmirrors
    rw [cRoom_append, pyRoom_append]
    refine ⟨hstep.mirrors, ?_⟩
    dsimp only
    rw [hlines, List.map_append, hstep.verdict, line_wrap]
    refine congrArg _ ?_
    cases ((pyLogCrc members payload (pyRoom members payloads).1).2.bind Verdict.line) <;> rfl

end run

/-- What the two relays have in common behind the same reports, and what the C relay never does. -/
structure Alike (members : ℕ) (payloads : List CrcPayload) : Prop where
  lines : (cRoom members payloads).2 = (pyRoom members payloads).2.map Verdict.wrap
  counter : (cRoom members payloads).1.crcOk = (pyRoom members payloads).1.crcOk % 2 ^ 32
  pending : crcrows.dict (cRoom members payloads).1.crc = (pyRoom members payloads).1.crc
  depth : crcrows.size (cRoom members payloads).1.crc ≤ 64
  seats : ∀ row ∈ (cRoom members payloads).1.crc, row.inUse = true →
    crcslots.size row.s ≤ members
  entered : ∀ payload, (cLogCrc members payload (cRoom members payloads).1).seats ≤ members
  exit : ∀ payload, (cLogCrc members payload (cRoom members payloads).1).exit = .done

/-- **The C and the Python comparator agree** on every sequence of reports, up to the width of the C
relay's counter. -/
theorem comparators_agree (members : ℕ) (hm : 2 ≤ members) (hm' : members ≤ 4)
    (payloads : List CrcPayload) : Alike members payloads := by
  obtain ⟨h, hlines⟩ := mirrors_run hm hm' payloads
  refine ⟨hlines, h.counter, h.table.symm, h.le, fun row hrow hu => ?_, fun payload => ?_, fun payload => ?_⟩
  · obtain ⟨hok, hless⟩ := h.rows row hrow hu
    have hcount := hok.count
    omega
  · exact (mirrors_step hm hm' h).seats
  · exact (mirrors_step hm hm' h).exit

/-- A report of a seat for a tick below 256. -/
def smallReport (seat tick crc : UInt8) : CrcPayload := fun i => [seat, tick, 0, crc, 0].getD i 0

/-- Seat 0 reports 65 ticks, so that tick 0 goes; then seat 1 reports a tick with another checksum and
four with the same. -/
def busyReports : List CrcPayload :=
  (List.range 65).map (fun t => smallReport 0 (UInt8.ofNat t) 7) ++ [smallReport 1 2 8] ++
    [1, 3, 4, 5].map fun t => smallReport 1 t 7

theorem comparators_agree_busy : Alike 2 busyReports ∧
    (cRoom 2 busyReports).2 = [.mismatch 2 [(0, 7), (1, 8)], .agreed 5 4] ∧
      (cLogCrc 2 (smallReport 1 0 7) (cRoom 2 busyReports).1).verdict = none := by
  refine ⟨comparators_agree 2 (by decide) (by decide) busyReports, ?_, ?_⟩
  · decide +kernel
  · decide +kernel

/-! ### The counter -/

/-- A report of seat `b` for tick 0 with checksum 0. -/
def zeroReport (b : UInt8) : CrcPayload := smallReport b 0 0

/-- `n` agreed rounds of a room of two. -/
def zeroRounds : ℕ → List CrcPayload
  | 0 => []
  | n + 1 => zeroRounds n ++ [zeroReport 0] ++ [zeroReport 1]

/-- A round of two equal reports is agreed. -/
theorem pyRoom_round {payloads : List CrcPayload} {k : ℕ}
    (h : (pyRoom 2 payloads).1 = ⟨∅, k⟩) :
    pyRoom 2 (payloads ++ [zeroReport 0] ++ [zeroReport 1]) =
      (⟨∅, k + 1⟩, (pyRoom 2 payloads).2 ++ (Verdict.agreed 0 (k + 1)).line.toList) := by
  have hseat : (zeroReport 0).seat = 0 ∧ (zeroReport 1).seat = 1 := by decide
  have htick : (zeroReport 0).tick = 0 ∧ (zeroReport 1).tick = 0 := by decide
  have hcrc : (zeroReport 0).crc = 0 ∧ (zeroReport 1).crc = 0 := by decide
  have hone : pyLogCrc 2 (zeroReport 0) ⟨∅, k⟩ = (⟨pyInsert 0 0 0 ∅, k⟩, none) := by
    unfold pyLogCrc
    rw [hseat.1, htick.1, hcrc.1]
    dsimp only
    rw [if_pos (by decide)]
  have htwo : pyLogCrc 2 (zeroReport 1) ⟨pyInsert 0 0 0 ∅, k⟩ =
      (⟨∅, k + 1⟩, some (.agreed 0 (k + 1))) := by
    have hempty : (pyInsert 1 0 0 (pyInsert 0 0 0 ∅)).erase 0 = ∅ := by decide
    unfold pyLogCrc
    rw [hseat.2, htick.2, hcrc.2]
    dsimp only
    rw [if_neg (by decide), if_neg (by decide), hempty]
  rw [pyRoom_append, pyRoom_append, h, hone]
  dsimp only
  rw [htwo, Option.bind_none, Option.toList_none, List.append_nil, Option.bind_some]

theorem pyRoom_zeroRounds (n : ℕ) : (pyRoom 2 (zeroRounds n)).1 = ⟨∅, n⟩ := by
  induction n with
  | zero => rfl
  | succ n ih => rw [zeroRounds, pyRoom_round ih]

/-- Behind `2 ^ 32` agreed rounds the Python relay prints that number, which the C relay has no room
for. -/
theorem counter_wraps : ¬ ∀ payloads : List CrcPayload,
    (cRoom 2 payloads).2 = (pyRoom 2 payloads).2 := by
  intro hall
  have hlast : (pyRoom 2 (zeroRounds (2 ^ 32 - 1 + 1))).2 =
      (pyRoom 2 (zeroRounds (2 ^ 32 - 1))).2 ++ (Verdict.agreed 0 (2 ^ 32 - 1 + 1)).line.toList := by
    rw [zeroRounds, pyRoom_round (pyRoom_zeroRounds _)]
  have hmem : Verdict.agreed 0 (2 ^ 32) ∈ (pyRoom 2 (zeroRounds (2 ^ 32 - 1 + 1))).2 := by
    rw [hlast]
    refine List.mem_append_right _ ?_
    decide
  rw [← hall, (mirrors_run (by decide) (by decide) _).2] at hmem
  obtain ⟨v, -, hv⟩ := List.mem_map.mp hmem
  cases v with
  | mismatch tick vals => exact Verdict.noConfusion hv
  | agreed tick count =>
    have hcount : count % 2 ^ 32 = 2 ^ 32 := (Verdict.agreed.inj hv).2
    omega

end IntvNetplay.Relay
