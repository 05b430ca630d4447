import IntvNetplay.Console.Cuts
import IntvNetplay.Console.Prematch
import IntvNetplay.Console.Seated
import IntvNetplay.Console.Start
import IntvNetplay.Relay.Frames
import IntvNetplay.Relay.Registry

/-!
# The lobby from both ends

What a console makes of the ROOM and LOBBY frames that the relay builds, and what the relay makes of
the JOIN and GO that follow.  A console knows who it is by comparing names: that its ENTER starts the
match exactly when the relay would let it rests on the names in the registry being distinct.
-/

namespace IntvNetplay.Console

open IntvNetplay.Machine

/-! ### Fields of one width -/

/-- The `i`-th of the blocks that a list is made of. -/
theorem slice_flatMap {α β : Type} {f : α → List β} {w : ℕ} (hw : ∀ a, (f a).length = w) {l : List α}
    {i : ℕ} {a : α} (ha : l[i]? = some a) : ((l.flatMap f).drop (w * i)).take w = f a := by
  induction l generalizing i with
  | nil => simp at ha
  | cons b l ih =>
    rw [List.flatMap_cons]
    cases i with
    | zero =>
      rw [List.getElem?_cons_zero, Option.some_inj] at ha
      rw [ha, Nat.mul_zero, List.drop_zero, List.take_append_of_le_length (by rw [hw]),
        List.take_of_length_le (by rw [hw])]
    | succ i =>
      rw [List.getElem?_cons_succ] at ha
      rw [Nat.mul_succ, Nat.add_comm, List.drop_append, hw,
        List.drop_of_length_le (by rw [hw]; omega), List.nil_append, Nat.add_sub_cancel_left]
      exact ih ha

theorem length_flatMap_width {α β : Type} {f : α → List β} {w : ℕ} (hw : ∀ a, (f a).length = w)
    (l : List α) : (l.flatMap f).length = w * l.length := by
  induction l with
  | nil => simp
  | cons b l ih =>
    rw [List.flatMap_cons, List.length_append, hw, ih, List.length_cons, Nat.mul_succ, Nat.add_comm]

/-! ### Names on the wire -/

section names

open Relay (padName nameOk)

theorem ne_zero_of_nameOk {w : List ℕ} (h : nameOk w = true) : ∀ b ∈ w, b ≠ 0 := by
  intro b hb
  rw [nameOk, Bool.and_eq_true, List.all_eq_true] at h
  have hc := h.2 b hb
  simp only [Relay.nameChar, Bool.or_eq_true, Bool.and_eq_true, decide_eq_true_eq] at hc
  omega

theorem length_of_nameOk {w : List ℕ} (h : nameOk w = true) : 2 ≤ w.length ∧ w.length ≤ 8 := by
  rw [nameOk, Bool.and_eq_true, Bool.and_eq_true, decide_eq_true_eq, decide_eq_true_eq] at h
  exact h.1

theorem padName_of_nameOk {w : List ℕ} (h : nameOk w = true) :
    padName w = w ++ List.replicate (8 - w.length) 0 := by
  have hlen := (length_of_nameOk h).2
  rw [padName, List.take_append, List.take_of_length_le hlen, List.take_replicate,
    Nat.min_eq_left (by omega)]

/-- A padded name up to its first NUL. -/
theorem takeWhile_padName {w : List ℕ} (h : nameOk w = true) (l : List ℕ) :
    (padName w ++ 0 :: l).takeWhile (· ≠ 0) = w := by
  have hpad : padName w ++ 0 :: l = w ++ (List.replicate (8 - w.length) 0 ++ 0 :: l) := by
    rw [padName_of_nameOk h, List.append_assoc]
  rw [hpad, List.takeWhile_append_of_pos (by simpa using ne_zero_of_nameOk h)]
  cases 8 - w.length with
  | zero => simp
  | succ n => simp [List.replicate_succ]

/-- What the relay strips off a padded name is what it was padded with. -/
theorem rstrip_padName {w : List ℕ} (h : nameOk w = true) : Relay.rstrip (padName w) = w := by
  have hlast : ∀ hne : w ≠ [], (w.getLast hne == 0 || w.getLast hne == 32) = false := by
    intro hne
    rw [nameOk, Bool.and_eq_true, List.all_eq_true] at h
    have hc := h.2 _ (List.getLast_mem hne)
    simp only [Relay.nameChar, Bool.or_eq_true, Bool.and_eq_true, decide_eq_true_eq] at hc
    simp only [Bool.or_eq_false_iff, beq_eq_false_iff_ne]
    omega
  have hstop : ∀ n, Relay.rstrip (w ++ List.replicate n 0) = w := by
    intro n
    induction n with
    | zero =>
      rw [List.replicate_zero, List.append_nil, Relay.rstrip, List.rdropWhile_eq_self_iff]
      intro hne
      rw [hlast hne]
      decide
    | succ n ih =>
      rw [List.replicate_succ', ← List.append_assoc, Relay.rstrip,
        List.rdropWhile_concat_pos _ _ _ (by decide)]
      exact ih
  rw [padName_of_nameOk h]
  exact hstop _

theorem padName_lt {w : List ℕ} (h : nameOk w = true) : ∀ b ∈ padName w, b < 256 := by
  intro b hb
  rw [padName_of_nameOk h, List.mem_append] at hb
  rcases hb with hb | hb
  · rw [nameOk, Bool.and_eq_true, List.all_eq_true] at h
    have hc := h.2 b hb
    simp only [Relay.nameChar, Bool.or_eq_true, Bool.and_eq_true, decide_eq_true_eq] at hc
    omega
  · rw [(List.mem_replicate.1 hb).2]
    decide

end names

/-! ### Tables in memory -/

section tables

variable {s t : Cpu}

theorem rdAll_congr {a n : ℕ} (h : ∀ x, a ≤ x → x < a + n → t.rd x = s.rd x) :
    t.rdAll a n = s.rdAll a n := by
  rw [Cpu.rdAll, Cpu.rdAll]
  refine List.map_congr_left fun x hx => ?_
  rw [List.mem_range'_1] at hx
  exact h x hx.1 hx.2

/-- Bytes stored in the cartridge RAM read back. -/
theorem rdAll_stAll {a : ℕ} {v : List ℕ} (hlo : 0x8000 ≤ a) (hhi : a + v.length ≤ 0xA000)
    (hb : ∀ b ∈ v, b < 256) : (s.stAll a v).rdAll a v.length = v := by
  refine List.ext_getElem (by simp [Cpu.rdAll]) fun i hi hi' => ?_
  have hbi : v[i] < 256 := hb _ (List.getElem_mem hi')
  have hw : (2 : ℕ) ^ cellBits (a + i) = 256 :=
    congrArg (2 ^ ·) (cellBits_cart (a := a + i) (by omega) (by omega))
  simp only [Cpu.rdAll, List.getElem_map, List.getElem_range', Nat.one_mul]
  rw [Cpu.rd_stAll, if_pos (by omega), Nat.add_sub_cancel_left, hw,
    List.getD_eq_getElem _ _ hi', Nat.mod_eq_of_lt hbi]

/-- A stretch of the frame in `FRMBUF`. -/
theorem InFrmbuf.rdAll {f : List ℕ} (h : InFrmbuf f s) {k n : ℕ} (hkn : k + n ≤ f.length) :
    s.rdAll (frmbuf + k) n = (f.drop k).take n := by
  refine List.ext_getElem (by simp [Cpu.rdAll]; omega) fun i hi hi' => ?_
  have hin : i < n := by simpa [Cpu.rdAll] using hi
  simp only [Cpu.rdAll, List.getElem_map, List.getElem_range', Nat.one_mul, List.getElem_take,
    List.getElem_drop]
  rw [Nat.add_assoc, h _ (by omega), List.getD_eq_getElem _ _ (by omega)]

/-- Bytes copied within the cartridge RAM. -/
theorem rdAll_copy {a b n k m : ℕ} (hb : 0x8000 ≤ b) (ha : 0x8000 ≤ a) (hbn : a + n ≤ 0xA000)
    (han : b + n ≤ 0xA000) (hkm : k + m ≤ n) :
    (t.stAll a (s.rdAll b n)).rdAll (a + k) m = s.rdAll (b + k) m := by
  have hlen : (s.rdAll b n).length = n := by simp [Cpu.rdAll]
  refine List.ext_getElem (by simp [Cpu.rdAll]) fun i hi hi' => ?_
  have him : i < m := by simpa [Cpu.rdAll] using hi
  have hw : (2 : ℕ) ^ cellBits (a + k + i) = 256 :=
    congrArg (2 ^ ·) (cellBits_cart (a := a + k + i) (by omega) (by omega))
  have hat : (s.rdAll b n).getD (k + i) 0 = s.rd (b + k + i) := by
    rw [List.getD_eq_getElem _ _ (by omega)]
    simp only [Cpu.rdAll, List.getElem_map, List.getElem_range', Nat.one_mul, Nat.add_assoc]
  have hlt : s.rd (b + k + i) < 256 := s.rd_lt_256 (.inr (by omega))
  simp only [Cpu.rdAll, List.getElem_map, List.getElem_range', Nat.one_mul] at hat ⊢
  rw [Cpu.rd_stAll, if_pos (by rw [List.length_map, List.length_range']; omega), hw,
    show a + k + i - a = k + i by omega, hat, Nat.mod_eq_of_lt hlt]

/-- `SES_CPROSTER`: four names of eight bytes, each with a NUL behind it. -/
theorem rdAll_sesCprGo {src i : ℕ} (hlo : nameTbl + 36 ≤ src) (hhi : src + 32 ≤ 0xA000) (hi : i < 4) :
    (sesCprGo src s).rdAll (nameTbl + 9 * i) 9 = s.rdAll (src + 8 * i) 8 ++ [0] := by
  simp only [nameTbl] at hlo
  have hlen : ∀ u : Cpu, ∀ j, (u.rdAll (src + 8 * j) 8 ++ [0]).length = 9 := fun u j => by
    simp [Cpu.rdAll]
  have hbyte : ∀ u : Cpu, ∀ j < 4, ∀ b ∈ u.rdAll (src + 8 * j) 8 ++ [0], b < 256 := by
    intro u j hj b hb
    rw [List.mem_append, Cpu.rdAll, List.mem_map] at hb
    rcases hb with ⟨x, hx, rfl⟩ | hb
    · rw [List.mem_range'_1] at hx
      exact u.rd_lt_256 (.inr (by omega))
    · rw [List.mem_singleton.1 hb]
      decide
  have hall : ∀ n ≤ 4, (∀ j < n, ((List.range n).foldl (fun u j => cprSlot src j u) s).rdAll
        (nameTbl + 9 * j) 9 = s.rdAll (src + 8 * j) 8 ++ [0]) ∧
      ∀ x, nameTbl + 9 * n ≤ x → ((List.range n).foldl (fun u j => cprSlot src j u) s).rd x = s.rd x := by
    intro n
    induction n with
    | zero => exact fun _ => ⟨fun j hj => absurd hj (Nat.not_lt_zero j), fun x _ => rfl⟩
    | succ n ih =>
      intro hn
      obtain ⟨hrows, hrest⟩ := ih (by omega)
      rw [List.range_succ, List.foldl_append, List.foldl_cons, List.foldl_nil]
      generalize (List.range n).foldl (fun u j => cprSlot src j u) s = u at hrows hrest ⊢
      have hsrc : u.rdAll (src + 8 * n) 8 = s.rdAll (src + 8 * n) 8 :=
        rdAll_congr fun x h1 _ => hrest x (by simp only [nameTbl]; omega)
      rw [cprSlot, hsrc]
      refine ⟨fun j hj => ?_, fun x hx => ?_⟩
      · by_cases hjn : j = n
        · subst hjn
          have hstored := rdAll_stAll (s := u) (a := nameTbl + 9 * j) (v := s.rdAll (src + 8 * j) 8 ++ [0])
            (by simp only [nameTbl]; omega) (by rw [hlen]; simp only [nameTbl]; omega)
            (hbyte s j (by omega))
          rwa [hlen] at hstored
        · rw [← hrows j (by omega)]
          exact rdAll_congr fun x h1 h2 => Cpu.rd_stAll_of_not _ _ _ _ (.inl (by omega))
      · rw [Cpu.rd_stAll_of_not _ _ _ _ (.inr (by rw [hlen]; omega))]
        exact hrest x (by omega)
  exact (hall 4 (Nat.le_refl 4)).1 i hi

end tables

/-! ### The waiting room -/

section room

open Relay (Setup State Event Msg run Fine padName roomMsg)

/-- The name of the `i`-th in a room, or nothing. -/
def seatName (r : State) (ri i : ℕ) : List ℕ :=
  ((r.members ri)[i]?.map fun m => (r.clients m).name).getD []

/-- The roster of a room of at most four, field by field. -/
theorem roster_slice {r : State} {ri i : ℕ} (h4 : (r.members ri).length ≤ 4) (hi : i < 4) :
    ((Relay.roster r ri).drop (8 * i)).take 8 = padName (seatName r ri i) := by
  have hw : ∀ m, (padName (r.clients m).name).length = 8 := fun m => Relay.length_padName _
  have hlen := length_flatMap_width hw (r.members ri)
  have hslots : 8 * Relay.rosterSlots = 32 := rfl
  rw [Relay.roster, hslots, List.drop_take, List.take_take, Nat.min_eq_left (by omega)]
  cases hm : (r.members ri)[i]? with
  | some m =>
    have hilt : i < (r.members ri).length := (List.getElem?_eq_some_iff.1 hm).1
    rw [List.drop_append_of_le_length (by rw [hlen]; omega),
      List.take_append_of_le_length (by rw [List.length_drop, hlen]; omega), slice_flatMap hw hm,
      seatName, hm]
    rfl
  | none =>
    have hige : (r.members ri).length ≤ i := List.getElem?_eq_none_iff.1 hm
    rw [List.drop_append, List.drop_of_length_le (by rw [hlen]; omega), List.nil_append,
      List.drop_replicate, List.take_replicate, seatName, hm, hlen, Nat.min_eq_left (by omega)]
    rfl

variable {s t : Cpu} {r : State} {ri : ℕ}

theorem rdAll_row (hw : Local RowCell s t) {i : ℕ} (hi : i < 4) :
    t.rdAll (nameTbl + 9 * i) 9 = s.rdAll (nameTbl + 9 * i) 9 :=
  rdAll_congr fun x h1 h2 => hw.rd x (by
    simp only [RowCell, ScreenCell, nameTbl, backtab, uiColor, ppTmp] at *
    omega)

/-- The waiting room that a ROOM frame puts up: the count, the four names, and whether our own name
is the first of them. -/
theorem onRoom_shown (hbuf : InFrmbuf (roomMsg r ri).bytes s) (ha : s.rd netActive = 0)
    (h2 : 2 ≤ (r.members ri).length) (h4 : (r.members ri).length ≤ 4)
    (hok : Relay.nameOk (seatName r ri 0) = true) :
    (onRoom s).rd roomCnt = (r.members ri).length ∧
      (∀ i < 4, (onRoom s).rdAll (nameTbl + 9 * i) 9 = padName (seatName r ri i) ++ [0]) ∧
      (onRoom s).rd roomHost = if seatName r ri 0 = field s nameBuf 9 then 1 else 0 := by
  have hros := Relay.length_roster r ri
  have hbytes : (roomMsg r ri).bytes = 34 :: Relay.tRoom :: (r.members ri).length :: Relay.roster r ri := by
    rw [Msg.bytes, roomMsg, List.length_cons, hros]
  have hlen : (roomMsg r ri).bytes.length = 35 := by
    rw [hbytes, List.length_cons, List.length_cons, List.length_cons, hros]
  have h0 : s.rd frmbuf = 34 := by
    rw [hbuf.rd_zero (by omega), hbytes]
    rfl
  have hcount : s.rd (frmbuf + 2) = (r.members ri).length := by
    rw [hbuf _ (by omega), hbytes]
    rfl
  obtain ⟨u, hu⟩ : ∃ u, u = (s.emit (.room (s.rd (frmbuf + 2)))).st roomCnt (s.rd (frmbuf + 2)) := ⟨_, rfl⟩
  have hurd : ∀ x, x ≠ roomCnt → u.rd x = s.rd x := fun x hx => by
    rw [hu, Cpu.rd_st, if_neg hx, Cpu.rd_emit]
  have hucnt : u.rd roomCnt = (r.members ri).length := by
    rw [hu, Cpu.rd_st, if_pos rfl, hcount]
    exact Nat.mod_eq_of_lt (Nat.lt_of_le_of_lt h4 (by decide))
  have hroom : onRoom s = showRoom u := by
    rw [onRoom, if_neg (by rw [ha]; decide), if_neg (by rw [h0]; decide)]
    dsimp only
    rw [Cpu.rd_emit, ← hu, if_neg (by rw [hucnt]; omega)]
  -- the four names come from the frame
  have hname := local_sesCprGo u (frmbuf + 3)
  have hrows : ∀ i < 4, (sesCprGo (frmbuf + 3) u).rdAll (nameTbl + 9 * i) 9 =
      padName (seatName r ri i) ++ [0] := fun i hi => by
    have hsrc : u.rdAll (frmbuf + 3 + 8 * i) 8 = s.rdAll (frmbuf + 3 + 8 * i) 8 :=
      rdAll_congr fun x h1 _ => hurd x (by simp only [frmbuf, roomCnt] at *; omega)
    rw [rdAll_sesCprGo (by decide) (by decide) hi, hsrc, Nat.add_assoc, hbuf.rdAll (by omega), hbytes,
      ← roster_slice h4 hi, Nat.add_comm 3]
    rfl
  have hfirst : field (sesCprGo (frmbuf + 3) u) nameTbl 9 = seatName r ri 0 := by
    rw [field]
    have h9 := hrows 0 (by decide)
    rw [Nat.mul_zero, Nat.add_zero] at h9
    rw [h9]
    exact takeWhile_padName hok []
  have hown : field (sesCprGo (frmbuf + 3) u) nameBuf 9 = field s nameBuf 9 := by
    rw [field, field]
    refine congrArg _ (rdAll_congr fun x h1 h2 => ?_)
    simp only [nameBuf] at h1 h2
    rw [hname.rd x (by simp only [NameCell, nameTbl]; omega)]
    exact hurd x (by simp only [roomCnt]; omega)
  obtain ⟨v, hv⟩ : ∃ v, v = (sesCprGo (frmbuf + 3) u).st roomHost
    (if nameMatches (sesCprGo (frmbuf + 3) u) then 1 else 0) := ⟨_, rfl⟩
  have hvrd : ∀ x, x ≠ roomHost → v.rd x = (sesCprGo (frmbuf + 3) u).rd x := fun x hx => by
    rw [hv, Cpu.rd_st, if_neg hx]
  have hvcnt : v.rd roomCnt = (r.members ri).length := by
    rw [hvrd _ (by decide), hname.rd _ (by decide), hucnt]
  have hscr : Local RowCell v (sesRoomscr v) := local_sesRoomscr v (by rw [hvcnt]; omega) (by
    rw [hvrd _ (by decide), hname.rd _ (by decide), hurd _ (by decide), ha])
  have hshow : onRoom s = sesRoomscr v := by
    rw [hroom, hv]
    rfl
  rw [hshow]
  refine ⟨by rw [hscr.rd _ (by decide), hvcnt], fun i hi => ?_, ?_⟩
  · rw [rdAll_row hscr hi, ← hrows i hi]
    exact rdAll_congr fun x h1 h2 => hvrd x (by simp only [nameTbl, roomHost] at *; omega)
  · rw [hscr.rd _ (by decide), hv, Cpu.rd_st, if_pos rfl, nameMatches, hfirst, hown]
    by_cases he : seatName r ri 0 = field s nameBuf 9
    · simp [he, cellBits]
    · simp [he]

/-- ENTER in the waiting room. -/
theorem tx_enter_room (h2 : 2 ≤ t.rd roomCnt) : (sesKey 0x28 t).tx =
    if t.rd roomHost = 0 then t.tx else t.tx ++ Msg.bytes ⟨Relay.tGo, []⟩ := by
  have hkey : sesKey 0x28 t = sesJoin t := rfl
  rw [hkey, sesJoin, if_neg (by omega)]
  split_ifs with hh
  · rfl
  · exact tx_sendFrame t (by decide) (by decide)

/-- Who is first in a room, by name. -/
theorem first_iff {S : Setup} {Z P : Set ℕ} {ci : ℕ} (h : Relay.Sound S Z P r) (hl : r.Live ci)
    (hr : (r.clients ci).room = some ri) :
    Relay.nameOk (seatName r ri 0) = true ∧
      (seatName r ri 0 = (r.clients ci).name ↔ (r.members ri).idxOf ci = 0) := by
  obtain ⟨hz, hu, hmem⟩ := h.room ci ri hl hr
  obtain ⟨h2, -, -, hall⟩ := h.seats ri hu hz
  cases hms : r.members ri with
  | nil =>
    rw [hms] at hmem
    cases hmem
  | cons m l =>
    obtain ⟨hm, -, hne⟩ := hall m (by rw [hms]; exact List.mem_cons_self)
    have hci := hall ci hmem
    have hfirst : seatName r ri 0 = (r.clients m).name := by
      rw [seatName, hms]
      rfl
    rw [hfirst]
    refine ⟨h.proper _ (h.listed m hm hne), fun he => ?_, fun he => ?_⟩
    · have hpair := h.name_inj (h.listed m hm hne) (h.listed ci hl hci.2.2) he
      rw [(Prod.mk.inj hpair).2, List.idxOf_cons_self]
    · by_cases heq : m = ci
      · rw [heq]
      · rw [List.idxOf_cons_ne _ (by exact heq)] at he
        omega

/-- A console in a room and the relay agree on who may start the match.  In every reachable state of
the relay, for every client in a room: once that console has handled the ROOM frame of that state, it
shows the count and the names of the room seat by seat; and its ENTER sends GO exactly if it is the
first member, which is exactly when the relay would take that GO. -/
theorem host_agrees {S : Setup} (hS : S.Fit) (hp : S.proto1 = false) (h4 : S.maxSeats ≤ 4)
    (es : List Event) (hok : Fine S (run S es).st) {ci : ℕ} (hl : (run S es).st.Live ci)
    (hr : ((run S es).st.clients ci).room = some ri)
    (hbuf : InFrmbuf (roomMsg (run S es).st ri).bytes s) (ha : s.rd netActive = 0)
    (hown : field s nameBuf 9 = ((run S es).st.clients ci).name) :
    (sesOnframe s).rd roomCnt = ((run S es).st.members ri).length ∧
      (∀ i < 4, (sesOnframe s).rdAll (nameTbl + 9 * i) 9 =
        padName (seatName (run S es).st ri i) ++ [0]) ∧
      if ((run S es).st.members ri).idxOf ci = 0 then
        (sesKey 0x28 (sesOnframe s)).tx = (sesOnframe s).tx ++ Msg.bytes ⟨Relay.tGo, []⟩ ∧
          Relay.handle S ci ⟨Relay.tGo, []⟩ (run S es).st =
            if ((run S es).st.rooms ri).started then (run S es).st
            else Relay.startRoom S ri (run S es).st
      else
        (sesKey 0x28 (sesOnframe s)).tx = (sesOnframe s).tx ∧
          Relay.handle S ci ⟨Relay.tGo, []⟩ (run S es).st = (run S es).st := by
  have hsound := Relay.sound_run hS es hok
  generalize (run S es).st = r at *
  obtain ⟨hz, hu, -⟩ := hsound.room ci ri hl hr
  obtain ⟨h2, hmax, -, -⟩ := hsound.seats ri hu hz
  obtain ⟨hproper, hfirst⟩ := first_iff hsound hl hr
  have hframe : sesOnframe s = onRoom s := by
    have h1 : s.rd (frmbuf + 1) = ftRoom := hbuf.rd (by simp [Msg.bytes])
    simp only [sesOnframe, h1]
    rfl
  obtain ⟨hcount, hrows, hhost⟩ := onRoom_shown hbuf ha h2 (by omega) hproper
  rw [hown] at hhost
  rw [hframe]
  have htwo : 2 ≤ (onRoom s).rd roomCnt := by omega
  have hgo : Relay.handle S ci ⟨Relay.tGo, []⟩ r = Relay.onGo S ci r := by
    rw [Relay.handle_rooms S hp]
    rfl
  have honGo : Relay.onGo S ci r = if (r.rooms ri).started ∨ (r.members ri).idxOf ci ≠ 0 then r
      else Relay.startRoom S ri r := by
    have hsize : ¬((r.members ri).length < 2 ∨ S.maxSeats < (r.members ri).length) := by omega
    rw [Relay.onGo, hr]
    dsimp only
    rw [if_neg hsize]
  refine ⟨hcount, hrows, ?_⟩
  rw [tx_enter_room htwo, hgo, honGo, hhost]
  by_cases h0 : (r.members ri).idxOf ci = 0
  · rw [if_pos h0, if_pos (hfirst.2 h0), if_neg (by decide)]
    refine ⟨rfl, ?_⟩
    by_cases hst : (r.rooms ri).started = true
    · rw [if_pos (.inl hst), if_pos hst]
    · rw [if_neg (by rintro (h | h) <;> contradiction), if_neg hst]
  · rw [if_neg h0, if_neg (fun h => h0 (hfirst.1 h)), if_pos rfl, if_pos (.inr h0)]
    exact ⟨rfl, rfl⟩

/-- A relay for two. -/
def pairRelay : Setup := Relay.cRelay false 2 0 3 (fun _ => .wrote 99) fun _ => 7

/-- AA and BB log in and BB joins AA. -/
def meeting : List Event := [.accept 1 0, .accept 2 0, .recv 0 [4, 1, 2, 65, 65],
  .recv 1 [4, 1, 2, 66, 66], .recv 1 [3, 4, 65, 65]]

/-- The console of AA, with the ROOM frame in `FRMBUF`. -/
def hostConsole : Cpu :=
  (zeroCpu.stAll nameBuf [65, 65]).stAll frmbuf
    ([34, 14, 2, 65, 65, 0, 0, 0, 0, 0, 0, 66, 66] ++ List.replicate 22 0)

theorem fit_pairRelay : pairRelay.Fit :=
  Relay.fit_cRelay (by decide) (fun h => absurd h Bool.false_ne_true) _ _ _ _

theorem inFrmbuf_hostConsole : InFrmbuf (roomMsg (run pairRelay meeting).st 0).bytes hostConsole := by
  have hbytes : (roomMsg (run pairRelay meeting).st 0).bytes =
      [34, 14, 2, 65, 65, 0, 0, 0, 0, 0, 0, 66, 66] ++ List.replicate 22 0 := by decide +kernel
  rw [hbytes]
  exact inFrmbuf_stAll ⟨by decide, by decide, by decide⟩

theorem host_agrees_pair :
    (sesKey 0x28 (sesOnframe hostConsole)).tx = (sesOnframe hostConsole).tx ++ [1, 0x0F] ∧
      Relay.handle pairRelay 0 ⟨Relay.tGo, []⟩ (run pairRelay meeting).st =
        Relay.startRoom pairRelay 0 (run pairRelay meeting).st := by
  have hl : (run pairRelay meeting).st.Live 0 := by decide +kernel
  obtain ⟨-, -, hgo⟩ := host_agrees fit_pairRelay rfl (by decide) meeting (.inl rfl) hl
    (by decide +kernel) inFrmbuf_hostConsole (by decide +kernel) (by decide +kernel)
  have hfirst : ((run pairRelay meeting).st.members 0).idxOf 0 = 0 := by decide +kernel
  have hst : ((run pairRelay meeting).st.rooms 0).started = false := by decide +kernel
  rw [if_pos hfirst, hst] at hgo
  exact hgo

end room

/-! ### The list -/

section list

open Relay (Setup State Event Msg run Fine padName lobbyMsg statusByte)

/-- The clients that a LOBBY names. -/
def others (r : State) (ci : ℕ) : List ℕ :=
  ((r.byName.map Prod.snd).filter fun c => c != ci && (r.clients c).name != []).take Relay.lobbyEntries

/-- One entry of a LOBBY. -/
def lobbyEntry (S : Setup) (r : State) (c : ℕ) : List ℕ :=
  padName (r.clients c).name ++ [statusByte S r c]

/-- May a client with no room join this one? -/
def joinable (S : Setup) (r : State) (c : ℕ) : Bool :=
  match (r.clients c).room with
  | none => true
  | some ri => !Relay.shut S r ri

variable {S : Setup} {s t : Cpu} {r : State} {ci c : ℕ}

theorem length_lobbyEntry (c : ℕ) : (lobbyEntry S r c).length = 9 := by
  rw [lobbyEntry, List.length_append, Relay.length_padName, List.length_singleton]

theorem length_others (r : State) (ci : ℕ) : (others r ci).length ≤ 8 := by
  rw [others, List.length_take]
  exact Nat.min_le_left _ _

theorem bytes_lobbyMsg (S : Setup) (r : State) (ci : ℕ) : (lobbyMsg S r ci).bytes =
    (9 * (others r ci).length + 2) :: Relay.tLobby :: (others r ci).length ::
      (others r ci).flatMap (lobbyEntry S r) := by
  have hlen := length_flatMap_width (length_lobbyEntry (S := S) (r := r)) (others r ci)
  rw [Msg.bytes, lobbyMsg, List.length_cons]
  dsimp only
  rw [← others, show (fun c => padName (r.clients c).name ++ [statusByte S r c]) = lobbyEntry S r from rfl,
    hlen]

/-- Bit 7 of a status byte. -/
theorem testBit_statusByte {Z P : Set ℕ} (h : Relay.Sound S Z P r) (hp : S.proto1 = false)
    (h4 : S.maxSeats ≤ 4) (hl : r.Live c) : (statusByte S r c).testBit 7 = !joinable S r c := by
  rw [statusByte, joinable]
  cases hr : (r.clients c).room with
  | none => simp [hp]; decide
  | some ri =>
    obtain ⟨hz, hu, -⟩ := h.room c ri hl hr
    have hmax := (h.seats ri hu hz).2.1
    have hcount : (r.members ri).length ≤ 4 := by omega
    simp only [hp, Bool.false_eq_true, if_false, Bool.not_not, Relay.shut]
    generalize (r.members ri).length = n at *
    have hsmall : ∀ n ≤ 4, (0x80 ||| n).testBit 7 = true ∧ n.testBit 7 = false := by decide
    cases (r.rooms ri).started || decide (S.maxSeats ≤ n) with
    | true => exact (hsmall n hcount).1
    | false => exact (hsmall n hcount).2

/-- What a LOBBY leaves in the cache, with the cursor anywhere in the list. -/
structure Listed (S : Setup) (r : State) (ci : ℕ) (s : Cpu) : Prop where
  count : s.rd lobbyCnt = (others r ci).length
  entry : ∀ (k c : ℕ), (others r ci)[k]? = some c →
    s.rdAll (lobbyCache + 1 + 9 * k) 9 = lobbyEntry S r c
  cursor : s.rd menuSel < (others r ci).length ∨ (others r ci).length = 0
  browsing : s.rd roomCnt < 2

/-- What the browser draws, and its cursor. -/
def BrowseCell (a : ℕ) : Prop := RowCell a ∨ a = menuSel

theorem Listed.of_local (h : Listed S r ci s) (hw : Local BrowseCell s t)
    (hc : t.rd menuSel < (others r ci).length ∨ (others r ci).length = 0) : Listed S r ci t where
  count := by rw [hw.rd _ (by simp [BrowseCell, RowCell, ScreenCell]), h.count]
  entry k c hk := by
    have h8 := length_others r ci
    have hlt := (List.getElem?_eq_some_iff.1 hk).1
    rw [← h.entry k c hk]
    exact rdAll_congr fun x h1 h2 => hw.rd x (by
      simp only [BrowseCell, RowCell, ScreenCell, lobbyCache, backtab, uiColor, ppTmp, menuSel] at *
      omega)
  cursor := hc
  browsing := by
    rw [hw.rd _ (by simp [BrowseCell, RowCell, ScreenCell])]
    exact h.browsing

theorem Listed.le_eight (h : Listed S r ci s) : s.rd lobbyCnt ≤ 8 := by
  rw [h.count]
  exact length_others r ci

/-- The browser draws itself and changes nothing else. -/
theorem Listed.render (h : Listed S r ci s) : Listed S r ci (sesRender s) := by
  have hw := local_sesRender s h.le_eight
  refine h.of_local (hw.mono fun _ => .inl) ?_
  rw [hw.rd _ (by decide)]
  exact h.cursor

/-- UP and DOWN keep the cursor in the list. -/
theorem Listed.move (h : Listed S r ci s) {c : Prop} [Decidable c] {v : ℕ}
    (hv : c ∨ v < (others r ci).length ∨ (others r ci).length = 0) :
    Listed S r ci (sesRedraw (if c then s else s.st menuSel v)) := by
  have h8 := length_others r ci
  have hset : Listed S r ci (if c then s else s.st menuSel v) := by
    split_ifs with hc
    · exact h
    · refine h.of_local ((Local.refl s).st (.inr rfl)) ?_
      have hlt := hv.resolve_left hc
      rw [Cpu.rd_st, if_pos rfl]
      have hle : v % 2 ^ cellBits menuSel ≤ v := Nat.mod_le _ _
      omega
  rw [sesRedraw, if_neg (by have := hset.browsing; omega)]
  exact hset.render

theorem Listed.up (h : Listed S r ci s) : Listed S r ci (sesUp s) := by
  refine h.move (.inr ?_)
  have := h.cursor
  omega

theorem Listed.down (h : Listed S r ci s) : Listed S r ci (sesDown s) := by
  refine h.move ?_
  rw [h.count]
  omega

/-- `SES_ONFRAME` of a LOBBY. -/
theorem listed_onLobby (hbuf : InFrmbuf (lobbyMsg S r ci).bytes s) (ha : s.rd netActive = 0)
    (hb : s.rd roomCnt < 2) : Listed S r ci (onLobby s) := by
  have h8 := length_others r ci
  have hbytes := bytes_lobbyMsg S r ci
  have hlen : (lobbyMsg S r ci).bytes.length = 9 * (others r ci).length + 3 := by
    rw [hbytes, List.length_cons, List.length_cons, List.length_cons,
      length_flatMap_width (length_lobbyEntry (S := S) (r := r))]
  have h0 : s.rd frmbuf = 9 * (others r ci).length + 2 := by
    rw [hbuf.rd_zero (by omega), hbytes]
    rfl
  have h2 : s.rd (frmbuf + 2) = (others r ci).length := by
    rw [hbuf _ (by omega), hbytes]
    rfl
  have hcount : lobbyCount s = (others r ci).length := by
    rw [lobbyCount, h2]
    split_ifs <;> omega
  generalize hn : (others r ci).length = n at *
  have hcache : ∀ k < n, (takeLobby n s).rdAll (lobbyCache + 1 + 9 * k) 9 =
      s.rdAll (frmbuf + (3 + 9 * k)) 9 := fun k hk => by
    obtain ⟨u, hu⟩ : ∃ u, u = (if (s.st lobbyCnt n).rd menuSel < n then s.st lobbyCnt n
      else (s.st lobbyCnt n).st menuSel 0) := ⟨_, rfl⟩
    have hurd : ∀ x, frmbuf ≤ x → u.rd x = s.rd x := fun x hx => by
      simp only [frmbuf] at hx
      rw [hu]
      split_ifs
      · rw [Cpu.rd_st, if_neg (by simp only [lobbyCnt]; omega)]
      · rw [Cpu.rd_st, if_neg (by simp only [menuSel]; omega), Cpu.rd_st,
          if_neg (by simp only [lobbyCnt]; omega)]
    have hsrc : u.rdAll (frmbuf + 2) (9 * n + 1) = s.rdAll (frmbuf + 2) (9 * n + 1) :=
      rdAll_congr fun x h1 _ => hurd x (by omega)
    have htake : takeLobby n s = u.stAll lobbyCache (s.rdAll (frmbuf + 2) (9 * n + 1)) := by
      rw [takeLobby, ← hsrc, hu]
    rw [htake, Nat.add_assoc, rdAll_copy (by decide) (by decide) (by simp only [lobbyCache]; omega)
      (by simp only [frmbuf]; omega) (by omega), Nat.add_assoc, ← Nat.add_assoc 2]
  have hcnt : (takeLobby n s).rd lobbyCnt = n := rd_lobbyCnt_takeLobby s h8
  have hsel : (takeLobby n s).rd menuSel < n ∨ n = 0 := by
    have hrd : (takeLobby n s).rd menuSel = if s.rd menuSel < n then s.rd menuSel else 0 := by
      have hsame : (s.st lobbyCnt n).rd menuSel = s.rd menuSel := by
        rw [Cpu.rd_st, if_neg (by decide)]
      rw [takeLobby, Cpu.rd_stAll_of_not _ _ _ _ (.inl (by decide)), hsame]
      split_ifs
      · exact hsame
      · rw [Cpu.rd_st, if_pos rfl, Nat.zero_mod]
    rw [hrd]
    split_ifs <;> omega
  have hroom : (takeLobby n s).rd roomCnt < 2 := by
    rw [takeLobby, Cpu.rd_stAll_of_not _ _ _ _ (.inl (by decide))]
    split_ifs
    · rwa [Cpu.rd_st, if_neg (by decide)]
    · rwa [Cpu.rd_st, if_neg (by decide), Cpu.rd_st, if_neg (by decide)]
  have hlisted : Listed S r ci (takeLobby n s) := by
    refine ⟨by rw [hcnt, hn], fun k c hk => ?_, by rw [hn]; exact hsel, hroom⟩
    have hlt : k < n := by
      rw [← hn]
      exact (List.getElem?_eq_some_iff.1 hk).1
    rw [hcache k hlt, hbuf.rdAll (by omega), hbytes, ← slice_flatMap length_lobbyEntry hk, Nat.add_comm 3]
    rfl
  rw [onLobby, if_neg (by rw [ha]; decide), if_neg (by omega), hcount, if_neg (by omega),
    if_neg (by omega)]
  exact hlisted.render

/-- UP or DOWN. -/
def moveCursor (s : Cpu) (up : Bool) : Cpu := if up then sesUp s else sesDown s

theorem Listed.moves (h : Listed S r ci s) (moves : List Bool) :
    Listed S r ci (moves.foldl moveCursor s) := by
  induction moves generalizing s with
  | nil => exact h
  | cons up moves ih =>
    rw [List.foldl_cons]
    refine ih ?_
    cases up with
    | true => exact h.up
    | false => exact h.down

theorem mem_others {Z P : Set ℕ} (h : Relay.Sound S Z P r) (hc : c ∈ others r ci) :
    c ≠ ci ∧ r.Live c ∧ (r.clients c).name ≠ [] ∧ ((r.clients c).name, c) ∈ r.byName := by
  obtain ⟨hmem, hkeep⟩ := List.mem_filter.1 (List.mem_of_mem_take hc)
  obtain ⟨e, he, rfl⟩ := List.mem_map.1 hmem
  obtain ⟨hl, hname, hne⟩ := h.entry e he
  rw [Bool.and_eq_true, bne_iff_ne] at hkeep
  rw [hname]
  exact ⟨hkeep.1, hl, hne, he⟩

/-- ENTER on the list: a JOIN for the entry under the cursor, unless it is marked. -/
theorem tx_enter_list {Z P : Set ℕ} (h : Listed S r ci s) (hs : Relay.Sound S Z P r)
    (hp : S.proto1 = false) (h4 : S.maxSeats ≤ 4) (hk : (others r ci)[s.rd menuSel]? = some c) :
    (sesKey 0x28 s).tx = if joinable S r c then
      s.tx ++ Msg.bytes ⟨Relay.tJoin, padName (r.clients c).name⟩ else s.tx := by
  obtain ⟨-, hl, -, hmem⟩ := mem_others hs (List.mem_of_getElem? hk)
  have hok := hs.proper _ hmem
  have h8 := h.le_eight
  have hlt := (List.getElem?_eq_some_iff.1 hk).1
  have hentry := h.entry _ _ hk
  generalize hptr : lobbyCache + 1 + 9 * s.rd menuSel = ptr at hentry
  have hsplit : s.rdAll ptr 9 = s.rdAll ptr 8 ++ [s.rd (ptr + 8)] := rfl
  rw [hsplit, lobbyEntry] at hentry
  obtain ⟨hname, hstat⟩ := List.append_inj' hentry rfl
  have hbit : (s.rd (ptr + 8)).testBit 7 = !joinable S r c := by
    rw [List.singleton_inj.1 hstat]
    exact testBit_statusByte hs hp h4 hl
  have hkey : sesKey 0x28 s = sesJoin s := rfl
  have hcnt := h.count
  rw [hkey, sesJoin, if_pos h.browsing, sesBrowseJoin, if_neg (by omega), hptr, hbit]
  cases joinable S r c with
  | true =>
    have hlen := Relay.length_padName (r.clients c).name
    have hlt : ∀ b ∈ [9, ftJoin] ++ padName (r.clients c).name, b < 256 := by
      intro b hb
      rw [List.mem_append] at hb
      rcases hb with hb | hb
      · revert b
        decide
      · exact padName_lt hok b hb
    rw [if_neg (by decide), if_pos rfl, uiPrint, uiPut, Cpu.tx_stAll, hname,
      tx_sendFrame s (by rw [List.length_append, hlen]; decide) hlt, Msg.bytes, hlen]
    rfl
  | false =>
    have hprint : Local RowCell s (uiPrint rowPrompt "ALREADY IN A GAME   " s) :=
      local_uiPrint s _ (by decide)
    have hdraw := local_sesRender (uiPrint rowPrompt "ALREADY IN A GAME   " s)
      (by rw [hprint.rd _ (by decide)]; exact h8)
    rw [if_pos (by decide), if_neg (by decide)]
    exact hdraw.tx.trans hprint.tx

/-- The relay knows whom a JOIN for a listed client means. -/
theorem handle_join {Z P : Set ℕ} (hs : Relay.Sound S Z P r) (hp : S.proto1 = false)
    (hname : (r.clients ci).name ≠ []) (hroom : (r.clients ci).room = none) (hc : c ∈ others r ci) :
    Relay.handle S ci ⟨Relay.tJoin, padName (r.clients c).name⟩ r = Relay.joinTarget S ci c r := by
  obtain ⟨hne, hl, -, hmem⟩ := mem_others hs hc
  have hok := hs.proper _ hmem
  have hstrip := rstrip_padName hok
  have hlen := (length_of_nameOk hok).2
  have hshort : (r.clients c).name.takeWhile (· != 0) = (r.clients c).name := by
    rw [List.takeWhile_eq_self_iff]
    intro b hb
    simpa using ne_zero_of_nameOk hok b hb
  have hcuts : Relay.cuts S r ci (padName (r.clients c).name) = false := by
    rw [Relay.cuts, hstrip]
    dsimp only
    rw [hshort]
    simp
  have hjoin : Relay.joinName S (padName (r.clients c).name) = (r.clients c).name := by
    rw [Relay.joinName, hstrip, hshort, ite_self]
  have hhandle : Relay.handle S ci ⟨Relay.tJoin, padName (r.clients c).name⟩ r =
      Relay.onJoin S ci (padName (r.clients c).name) r := by
    rw [Relay.handle_rooms S hp]
    rfl
  rw [hhandle, Relay.onJoin, if_neg hname, if_neg (by rw [hroom]; simp), hcuts,
    if_neg (by decide), Relay.findTarget, hstrip, if_neg (by omega), hjoin, hs.nameFind_of_mem hmem]

/-- The list a player sees and the relay agree.  In every reachable state of the relay, for every
client with a name and no room: once its console has handled the LOBBY of that state, wherever the
player moves the cursor, it stands on one of the listed clients, if there is any; and ENTER there sends a
JOIN exactly if the relay would seat the two in a room, which is then the room that the listed client is
in, or a new one. -/
theorem join_listed (hS : S.Fit) (hp : S.proto1 = false) (h4 : S.maxSeats ≤ 4) (es : List Event)
    (hok : Fine S (run S es).st) (hl : (run S es).st.Live ci)
    (hname : ((run S es).st.clients ci).name ≠ []) (hroom : ((run S es).st.clients ci).room = none)
    (hbuf : InFrmbuf (lobbyMsg S (run S es).st ci).bytes s) (ha : s.rd netActive = 0)
    (hb : s.rd roomCnt < 2) (moves : List Bool) :
    let r := (run S es).st
    let t := moves.foldl moveCursor (sesOnframe s)
    (others r ci = [] ∧ (sesKey 0x28 t).tx = t.tx) ∨
      ∃ c, (others r ci)[t.rd menuSel]? = some c ∧
        if joinable S r c then
          (sesKey 0x28 t).tx = t.tx ++ Msg.bytes ⟨Relay.tJoin, padName (r.clients c).name⟩ ∧
            ∃ ri r', Relay.handle S ci ⟨Relay.tJoin, padName (r.clients c).name⟩ r =
                Relay.joined S ri (Relay.enter ci ri r') ∧
              ((r.clients c).room = some ri ∧ r' = r ∨
                (r.clients c).room = none ∧ (r.rooms ri).used = false ∧ r' = Relay.openRoom ri c r)
        else
          (sesKey 0x28 t).tx = t.tx ∧
            Relay.handle S ci ⟨Relay.tJoin, padName (r.clients c).name⟩ r = Relay.onList S ci r := by
  intro r t
  have hs : Relay.Sound S ∅ ∅ r := Relay.sound_run hS es hok
  have hframe : sesOnframe s = onLobby s := by
    have hlen := bytes_lobbyMsg S r ci
    have h1 : s.rd (frmbuf + 1) = ftLobby := by
      rw [hbuf _ (by rw [hlen]; simp), hlen]
      rfl
    simp only [sesOnframe, h1]
    rfl
  have ht : Listed S r ci t := by
    show Listed S r ci (moves.foldl moveCursor (sesOnframe s))
    rw [hframe]
    exact (listed_onLobby hbuf ha hb).moves moves
  rcases ht.cursor with hlt | hnil
  · right
    obtain ⟨c, hk⟩ : ∃ c, (others r ci)[t.rd menuSel]? = some c := ⟨_, List.getElem?_eq_getElem hlt⟩
    have hc := List.mem_of_getElem? hk
    obtain ⟨hne, hlc, hcname, hmem⟩ := mem_others hs hc
    refine ⟨c, hk, ?_⟩
    have hself : ¬(c = ci ∨ (r.clients c).name = []) := by
      rintro (h | h)
      · exact hne h
      · exact hcname h
    rw [tx_enter_list ht hs hp h4 hk, handle_join hs hp hname hroom hc, Relay.joinTarget_rooms S hp,
      if_neg hself]
    cases hr : (r.clients c).room with
    | none =>
      obtain ⟨ri, halloc, hfree⟩ := Relay.roomAlloc_isSome hS.toOk hs hl hroom
      have hj : joinable S r c = true := by rw [joinable, hr]
      rw [hj, if_pos rfl, if_pos rfl, halloc]
      exact ⟨rfl, ri, _, rfl, .inr ⟨rfl, hfree, rfl⟩⟩
    | some ri =>
      have hj : joinable S r c = !Relay.shut S r ri := by rw [joinable, hr]
      rw [hj]
      dsimp only
      cases hshut : Relay.shut S r ri with
      | true =>
        rw [Bool.not_true, if_neg (by decide), if_neg (by decide), if_pos rfl]
        exact ⟨rfl, rfl⟩
      | false =>
        rw [Bool.not_false, if_pos rfl, if_pos rfl, if_neg (by decide)]
        exact ⟨rfl, ri, r, rfl, .inl ⟨rfl, rfl⟩⟩
  · left
    refine ⟨List.length_eq_zero_iff.1 hnil, ?_⟩
    have hkey : sesKey 0x28 t = sesJoin t := rfl
    rw [hkey, sesJoin, if_pos ht.browsing, sesBrowseJoin, if_pos (by rw [ht.count, hnil])]

/-- The console of BB, with a LOBBY that names AA in `FRMBUF`. -/
def guestConsole : Cpu := zeroCpu.stAll frmbuf [11, 3, 1, 65, 65, 0, 0, 0, 0, 0, 0, 1]

theorem join_listed_pair :
    (sesKey 0x28 (sesDown (sesOnframe guestConsole))).tx =
      (sesDown (sesOnframe guestConsole)).tx ++ [9, 4, 65, 65, 0, 0, 0, 0, 0, 0] := by
  have hbuf : InFrmbuf (lobbyMsg pairRelay (run pairRelay (meeting.take 4)).st 1).bytes guestConsole := by
    have hbytes : (lobbyMsg pairRelay (run pairRelay (meeting.take 4)).st 1).bytes =
        [11, 3, 1, 65, 65, 0, 0, 0, 0, 0, 0, 1] := by decide +kernel
    rw [hbytes]
    exact inFrmbuf_stAll ⟨by decide, by decide, by decide⟩
  have hothers : others (run pairRelay (meeting.take 4)).st 1 = [0] := by decide +kernel
  rcases join_listed fit_pairRelay rfl (by decide) (meeting.take 4) (.inl rfl) (by decide +kernel)
    (by decide +kernel) (by decide +kernel) hbuf (by decide +kernel) (by decide +kernel) [false] with
    ⟨hnil, -⟩ | ⟨c, hk, hjoin⟩
  · rw [hothers] at hnil
    cases hnil
  · have hc := List.mem_of_getElem? hk
    rw [hothers, List.mem_singleton] at hc
    subst hc
    have hopen : joinable pairRelay (run pairRelay (meeting.take 4)).st 0 = true := by decide +kernel
    have hname : ((run pairRelay (meeting.take 4)).st.clients 0).name = [65, 65] := by decide +kernel
    have hmsg : Msg.bytes ⟨Relay.tJoin, padName [65, 65]⟩ = [9, 4, 65, 65, 0, 0, 0, 0, 0, 0] := by decide
    rw [hopen, if_pos rfl, hname, hmsg, List.foldl_cons, List.foldl_nil, moveCursor,
      if_neg (by decide)] at hjoin
    exact hjoin.1

end list

end IntvNetplay.Console
