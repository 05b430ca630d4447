import IntvNetplay.Relay.Server
import Mathlib.Data.Finset.Card
import Mathlib.Data.Set.Insert

/-!
# The registry and the rooms

`drop` is re-entrant: every send inside it may drop another client.  `Sound Z P` is what holds of the
registry and the rooms at every send, `Z` being the rooms that a `dissolve` under way has emptied
already and `P` the clients whose `drop` is under way.
-/

namespace IntvNetplay.Relay

/-- What the registry and the rooms know of a client. -/
def Client.reg (c : Client) : Bool × Bool × List ℕ × Option ℕ := (c.inUse, c.dead, c.name, c.room)

/-- A change that registry and rooms do not see. -/
structure SameReg (r r' : State) : Prop where
  clients : ∀ c, (r'.clients c).reg = (r.clients c).reg
  rooms : r'.rooms = r.rooms
  byName : r'.byName = r.byName
  nClients : r'.nClients = r.nClients
  published : r'.published = r.published
  fault : r'.fault = r.fault

namespace SameReg

variable {r r' r'' : State}

theorem refl (r : State) : SameReg r r := ⟨fun _ => rfl, rfl, rfl, rfl, rfl, rfl⟩

theorem trans (h : SameReg r r') (h' : SameReg r' r'') : SameReg r r'' :=
  ⟨fun c => (h'.clients c).trans (h.clients c), h'.rooms.trans h.rooms, h'.byName.trans h.byName,
    h'.nClients.trans h.nClients, h'.published.trans h.published, h'.fault.trans h.fault⟩

theorem inUse (h : SameReg r r') (c : ℕ) : (r'.clients c).inUse = (r.clients c).inUse :=
  congrArg Prod.fst (h.clients c)

theorem dead (h : SameReg r r') (c : ℕ) : (r'.clients c).dead = (r.clients c).dead :=
  congrArg (fun x => x.2.1) (h.clients c)

theorem name (h : SameReg r r') (c : ℕ) : (r'.clients c).name = (r.clients c).name :=
  congrArg (fun x => x.2.2.1) (h.clients c)

theorem room (h : SameReg r r') (c : ℕ) : (r'.clients c).room = (r.clients c).room :=
  congrArg (fun x => x.2.2.2) (h.clients c)

theorem live (h : SameReg r r') (c : ℕ) : r'.Live c ↔ r.Live c := by
  rw [State.Live, State.Live, h.inUse, h.dead]

end SameReg

section same

variable (r : State)

theorem sameReg_setClient {ci : ℕ} {c : Client} (h : c.reg = (r.clients ci).reg) :
    SameReg r (r.setClient ci c) := by
  refine ⟨fun x => ?_, rfl, rfl, rfl, rfl, rfl⟩
  rw [State.clients_setClient]
  split_ifs with hx
  · rw [hx, h]
  · rfl

theorem sameReg_queue (ci : ℕ) (m : Msg) (src : Option ℕ) : SameReg r (r.queue ci m src) :=
  sameReg_setClient r rfl

theorem sameReg_wrote (ci k : ℕ) : SameReg r (r.wrote ci k) := sameReg_setClient r rfl

theorem sameReg_called : SameReg r r.called := ⟨fun _ => rfl, rfl, rfl, rfl, rfl, rfl⟩

theorem sameReg_fail : SameReg r r.fail := ⟨fun _ => rfl, rfl, rfl, rfl, rfl, rfl⟩

theorem sameReg_tear : SameReg r r.tear := ⟨fun _ => rfl, rfl, rfl, rfl, rfl, rfl⟩

theorem sameReg_rob : SameReg r r.rob := ⟨fun _ => rfl, rfl, rfl, rfl, rfl, rfl⟩

end same

/-- How many clients are served. -/
def State.liveCount (r : State) : ℕ := ((Finset.range maxClients).filter r.Live).card

theorem liveCount_le {r r' : State} (h : ∀ c, r'.Live c → r.Live c) : r'.liveCount ≤ r.liveCount := by
  refine Finset.card_le_card fun c hc => ?_
  rw [Finset.mem_filter] at hc ⊢
  exact ⟨hc.1, h c hc.2⟩

theorem liveCount_lt {r r' : State} (h : ∀ c, r'.Live c → r.Live c) {ci : ℕ} (hci : ci < maxClients)
    (hl : r.Live ci) (hn : ¬ r'.Live ci) : r'.liveCount < r.liveCount := by
  refine Finset.card_lt_card ((Finset.ssubset_iff_of_subset fun c hc => ?_).2 ⟨ci, ?_, fun hc => ?_⟩)
  · rw [Finset.mem_filter] at hc ⊢
    exact ⟨hc.1, h c hc.2⟩
  · rw [Finset.mem_filter, Finset.mem_range]
    exact ⟨hci, hl⟩
  · rw [Finset.mem_filter] at hc
    exact hn hc.2

/-- The registry, the rooms and the slots at a send. -/
structure Sound (S : Setup) (Z P : Set ℕ) (r : State) : Prop where
  names : (r.byName.map Prod.fst).Nodup
  owners : (r.byName.map Prod.snd).Nodup
  entry : ∀ e ∈ r.byName, r.Live e.2 ∧ (r.clients e.2).name = e.1 ∧ e.1 ≠ []
  listed : ∀ c, r.Live c → (r.clients c).name ≠ [] → ((r.clients c).name, c) ∈ r.byName
  proper : ∀ e ∈ r.byName, nameOk e.1 = true
  room : ∀ c ri, r.Live c → (r.clients c).room = some ri →
    ri ∉ Z ∧ (r.rooms ri).used = true ∧ c ∈ r.members ri
  seats : ∀ ri, (r.rooms ri).used = true → ri ∉ Z → 2 ≤ (r.members ri).length ∧
    (r.members ri).length ≤ S.maxSeats ∧ (r.members ri).Nodup ∧
      ∀ m ∈ r.members ri, r.Live m ∧ (r.clients m).room = some ri ∧ (r.clients m).name ≠ []
  unused : ∀ ri, (r.rooms ri).used = false → r.members ri = []
  slots : ∀ c, (r.clients c).inUse = true → c < maxClients
  dying : ∀ c, (r.clients c).inUse = true → (r.clients c).dead = true → c ∈ P
  count : r.nClients = ((Finset.range maxClients).filter fun c => (r.clients c).inUse).card
  published : r.published = r.byName.length
  fault : r.fault = false

/-- What nested drops do besides: the dead stay as they are, names stay, nobody comes to life, the
registry only shrinks, the rooms that are being dissolved stay as they are, and nobody gets into a
room. -/
structure Shrinks (Z : Set ℕ) (r r' : State) : Prop where
  frozen : ∀ c, (r.clients c).dead = true → (r'.clients c).reg = (r.clients c).reg
  name : ∀ c, (r'.clients c).name = (r.clients c).name
  live : ∀ c, r'.Live c → r.Live c
  spared : ∀ c, r.Live c → (r'.clients c).dead = false → r'.Live c
  names : r'.byName.Sublist r.byName
  kept : ∀ ri ∈ Z, r'.rooms ri = r.rooms ri
  seats : ∀ c ri, (r'.clients c).room = some ri → (r.clients c).room = some ri

namespace Shrinks

variable {Z : Set ℕ} {r r' r'' : State}

theorem of_same (h : SameReg r r') : Shrinks Z r r' :=
  ⟨fun c _ => h.clients c, h.name, fun c => (h.live c).1, fun c hc _ => (h.live c).2 hc,
    h.byName ▸ List.Sublist.refl _, fun ri _ => congrFun h.rooms ri, fun c _ hr => h.room c ▸ hr⟩

theorem refl (r : State) : Shrinks Z r r := of_same (.refl r)

theorem trans (h : Shrinks Z r r') (h' : Shrinks Z r' r'') : Shrinks Z r r'' where
  frozen c hc := by
    have hreg := h.frozen c hc
    have hdead : (r'.clients c).dead = true := (congrArg (fun x => x.2.1) hreg).trans hc
    exact (h'.frozen c hdead).trans hreg
  name c := (h'.name c).trans (h.name c)
  live c hc := h.live c (h'.live c hc)
  spared c hc hd := by
    refine h'.spared c (h.spared c hc ?_) hd
    by_contra hdead
    have hreg := h'.frozen c (by simpa using hdead)
    rw [Bool.not_eq_false] at hdead
    have : (r''.clients c).dead = true := (congrArg (fun x => x.2.1) hreg).trans hdead
    rw [hd] at this
    cases this
  names := h'.names.trans h.names
  kept ri hri := (h'.kept ri hri).trans (h.kept ri hri)
  seats c ri hr := h.seats c ri (h'.seats c ri hr)

theorem mono {Z' : Set ℕ} (h : Shrinks Z r r') (hZ : Z' ⊆ Z) : Shrinks Z' r r' :=
  ⟨h.frozen, h.name, h.live, h.spared, h.names, fun ri hri => h.kept ri (hZ hri), h.seats⟩

end Shrinks

section sound

variable {S : Setup} {Z P : Set ℕ} {r r' : State}

theorem Sound.of_same (h : Sound S Z P r) (hs : SameReg r r') : Sound S Z P r' := by
  have hmem : ∀ ri, r'.members ri = r.members ri := fun ri => by
    rw [State.members, State.members, hs.rooms]
  constructor
  · rw [hs.byName]
    exact h.names
  · rw [hs.byName]
    exact h.owners
  · intro e he
    rw [hs.byName] at he
    rw [hs.live, hs.name]
    exact h.entry e he
  · intro c hc hn
    rw [hs.name] at hn ⊢
    rw [hs.byName]
    exact h.listed c ((hs.live c).1 hc) hn
  · rw [hs.byName]
    exact h.proper
  · intro c ri hc hr
    rw [hs.room] at hr
    rw [hs.rooms, hmem]
    exact h.room c ri ((hs.live c).1 hc) hr
  · intro ri hu hz
    rw [hs.rooms] at hu
    rw [hmem]
    obtain ⟨h2, hm, hnd, hall⟩ := h.seats ri hu hz
    refine ⟨h2, hm, hnd, fun m hmm => ?_⟩
    rw [hs.live, hs.room, hs.name]
    exact hall m hmm
  · intro ri hu
    rw [hs.rooms] at hu
    rw [hmem]
    exact h.unused ri hu
  · intro c hc
    rw [hs.inUse] at hc
    exact h.slots c hc
  · intro c hc hd
    rw [hs.inUse] at hc
    rw [hs.dead] at hd
    exact h.dying c hc hd
  · rw [hs.nClients, h.count]
    refine congrArg Finset.card (Finset.filter_congr fun c _ => ?_)
    rw [hs.inUse]
  · rw [hs.published, hs.byName]
    exact h.published
  · rw [hs.fault]
    exact h.fault

/-- The clients of a list are served or dead. -/
def Known (r : State) (l : List ℕ) : Prop := ∀ c ∈ l, (r.clients c).dead = false → r.Live c

theorem Shrinks.dead (h : Shrinks Z r r') {c : ℕ} (hc : (r.clients c).dead = true) :
    (r'.clients c).dead = true := (congrArg (fun x => x.2.1) (h.frozen c hc)).trans hc

theorem Known.shrinks {l : List ℕ} (hk : Known r l) (h : Shrinks Z r r') : Known r' l := by
  intro c hc hd
  refine h.spared c (hk c hc ?_) hd
  by_contra hdead
  rw [Bool.not_eq_false] at hdead
  rw [h.dead hdead] at hd
  cases hd

/-- The members of a room that is not being dissolved are served. -/
theorem Sound.live_members (h : Sound S Z P r) {ri : ℕ} (hz : ri ∉ Z) :
    ∀ c ∈ r.members ri, r.Live c := by
  intro c hc
  cases hu : (r.rooms ri).used with
  | false =>
    rw [h.unused ri hu] at hc
    cases hc
  | true => exact ((h.seats ri hu hz).2.2.2 c hc).1

/-- The outcome of a piece of `drop`: sound again, and nothing but nested drops. -/
def After (S : Setup) (Z P : Set ℕ) (r r' : State) : Prop := Sound S Z P r' ∧ Shrinks Z r r'

theorem After.of_same (h : Sound S Z P r) (hs : SameReg r r') : After S Z P r r' :=
  ⟨h.of_same hs, .of_same hs⟩

theorem After.trans {r'' : State} (h : After S Z P r r') (h' : After S Z P r' r'') :
    After S Z P r r'' := ⟨h'.1, h.2.trans h'.2⟩

/-- `D` is `drop` for relays that serve at most `k` clients. -/
def Drops (S : Setup) (D : State → ℕ → State) (k : ℕ) : Prop :=
  ∀ Z P r ci, Sound S Z P r → r.liveCount ≤ k → r.Live ci →
    After S Z P r (D r ci) ∧ ((D r ci).clients ci).dead = true

end sound

/-! ### Sends -/

section sends

variable {S : Setup} {Z P : Set ℕ} {D : State → ℕ → State} {k : ℕ} (hD : Drops S D k)
include hD

theorem after_flushLoop (ci n : ℕ) {r : State} (h : Sound S Z P r) (hk : r.liveCount ≤ k)
    (hl : r.Live ci) : After S Z P r (flushLoop S D ci n r) := by
  induction n generalizing r with
  | zero => exact .of_same h (.refl r)
  | succ n ih =>
    have hsame : ∀ {r' : State}, SameReg r r' → r'.liveCount ≤ k ∧ r'.Live ci := fun hs =>
      ⟨(liveCount_le fun c => (hs.live c).1).trans hk, (hs.live ci).2 hl⟩
    have hdrop : After S Z P r (D r.called.fail ci) := by
      have hs := (sameReg_called r).trans (sameReg_fail _)
      have hafter := After.of_same h hs
      exact hafter.trans (hD Z P _ ci hafter.1 (hsame hs).1 (hsame hs).2).1
    unfold flushLoop
    split
    · exact .of_same h (.refl r)
    · split
      · rename_i k' _
        have hs := (sameReg_called r).trans (sameReg_wrote r.called ci (k' + 1))
        exact (After.of_same h hs).trans (ih (h.of_same hs) (hsame hs).1 (hsame hs).2)
      · exact .of_same h (sameReg_called r)
      · exact hdrop
      · exact hdrop

theorem after_sendRaw (ci : ℕ) (m : Msg) (src : Option ℕ) {r : State} (h : Sound S Z P r)
    (hk : r.liveCount ≤ k) (hu : (r.clients ci).dead = false → r.Live ci) :
    After S Z P r (sendRaw S D ci m src r) := by
  unfold sendRaw
  split_ifs with hdead hfull
  · exact .of_same h (.refl r)
  · have hl := hu (by simpa using hdead)
    have hs := sameReg_fail r
    have hafter := After.of_same h hs
    exact hafter.trans (hD Z P _ ci hafter.1 ((liveCount_le fun c => (hs.live c).1).trans hk)
      ((hs.live ci).2 hl)).1
  · have hl := hu (by simpa using hdead)
    have hs := sameReg_queue r ci m src
    have hafter := After.of_same h hs
    exact hafter.trans (after_flushLoop hD ci _ hafter.1
      ((liveCount_le fun c => (hs.live c).1).trans hk) ((hs.live ci).2 hl))

theorem after_sendAll (m : Msg) (l : List ℕ) {r : State} (h : Sound S Z P r) (hk : r.liveCount ≤ k)
    (hl : Known r l) : After S Z P r (sendAll S D m l r) := by
  induction l generalizing r with
  | nil => exact .of_same h (.refl r)
  | cons c l ih =>
    have ha := after_sendRaw hD c m none h hk (hl c List.mem_cons_self)
    have htail : Known r l := fun x hx => hl x (List.mem_cons_of_mem _ hx)
    exact ha.trans (ih ha.1 ((liveCount_le ha.2.live).trans hk) (htail.shrinks ha.2))

theorem after_announceTo (l : List (ℕ × Msg)) {r : State} (h : Sound S Z P r) (hk : r.liveCount ≤ k)
    (hl : Known r (l.map Prod.fst)) : After S Z P r (announceTo S D l r) := by
  induction l generalizing r with
  | nil => exact .of_same h (.refl r)
  | cons e l ih =>
    obtain ⟨c, m⟩ := e
    have ha := after_sendRaw hD c m none h hk (hl c List.mem_cons_self)
    have hstep : ∀ b : Bool, After S Z P r
        (if b then (sendRaw S D c m none r).tear else sendRaw S D c m none r) := by
      intro b
      cases b with
      | false => exact ha
      | true => exact ha.trans (.of_same ha.1 (sameReg_tear _))
    have htail : Known r (l.map Prod.fst) := fun x hx => hl x (List.mem_cons_of_mem _ hx)
    simp only [announceTo]
    exact (hstep _).trans (ih (hstep _).1 ((liveCount_le (hstep _).2.live).trans hk)
      (htail.shrinks (hstep _).2))

theorem after_announceLive (ri : ℕ) (m : ℕ → Msg) (n i : ℕ) {r : State} (h : Sound S Z P r)
    (hk : r.liveCount ≤ k) (hz : ri ∉ Z) : After S Z P r (announceLive S D ri m n i r) := by
  induction n generalizing r i with
  | zero => exact .of_same h (.refl r)
  | succ n ih =>
    unfold announceLive
    split
    · exact .of_same h (.refl r)
    · rename_i c hc
      have ha := after_sendRaw hD c (m i) none h hk fun _ =>
        h.live_members hz c (List.mem_of_getElem? hc)
      exact ha.trans (ih _ ha.1 ((liveCount_le ha.2.live).trans hk))

theorem after_announce (ri : ℕ) (m : ℕ → Msg) {r : State} (h : Sound S Z P r)
    (hk : r.liveCount ≤ k) (hz : ri ∉ Z) : After S Z P r (announce S D ri m r) := by
  unfold announce
  split_ifs
  · exact after_announceLive hD ri m _ 0 h hk hz
  · refine after_announceTo hD _ h hk fun c hc _ => h.live_members hz c ?_
    rw [List.mem_map] at hc
    obtain ⟨e, he, rfl⟩ := hc
    rw [List.mem_mapIdx] at he
    obtain ⟨i, hi, rfl⟩ := he
    exact List.getElem_mem hi

end sends

/-! ### The pieces of `drop` -/

section pieces

variable {S : Setup} {Z P : Set ℕ} {r : State} {ci ri : ℕ}

/-- A client whose `drop` has begun: dead, and out of the registry. -/
def State.gone (r : State) (ci : ℕ) : State := (r.kill ci).unname ci

theorem clients_gone (x : ℕ) : (r.gone ci).clients x =
    if x = ci then { r.clients ci with dead := true } else r.clients x := by
  rw [State.gone, State.unname]
  split
  · exact State.clients_setClient _ _ _ _
  · exact State.clients_setClient _ _ _ _

theorem rooms_gone : (r.gone ci).rooms = r.rooms := by
  rw [State.gone, State.unname]
  split <;> rfl

theorem byName_gone : (r.gone ci).byName = r.byName.filter fun e => e.2 != ci := by
  rw [State.gone, State.unname]
  split
  · rfl
  · rename_i h
    refine (List.filter_eq_self.2 fun e he => ?_).symm
    rw [Bool.not_eq_true, List.any_eq_false] at h
    simpa using h e he

theorem published_gone (h : r.published = r.byName.length) :
    (r.gone ci).published = (r.gone ci).byName.length := by
  rw [State.gone, State.unname]
  split
  · rfl
  · exact h

theorem nClients_gone : (r.gone ci).nClients = r.nClients := by
  rw [State.gone, State.unname]
  split <;> rfl

theorem fault_gone : (r.gone ci).fault = r.fault := by
  rw [State.gone, State.unname]
  split <;> rfl

theorem live_gone (x : ℕ) : (r.gone ci).Live x ↔ r.Live x ∧ x ≠ ci := by
  rw [State.Live, State.Live, clients_gone]
  split_ifs with hx
  · rw [hx]
    simp
  · simp [hx]

theorem inUse_gone (x : ℕ) : ((r.gone ci).clients x).inUse = (r.clients x).inUse := by
  rw [clients_gone]
  split_ifs with hx
  · rw [hx]
  · rfl

theorem name_gone (x : ℕ) : ((r.gone ci).clients x).name = (r.clients x).name := by
  rw [clients_gone]
  split_ifs with hx
  · rw [hx]
  · rfl

theorem room_gone (x : ℕ) : ((r.gone ci).clients x).room = (r.clients x).room := by
  rw [clients_gone]
  split_ifs with hx
  · rw [hx]
  · rfl

/-- What holds of the registry and the slots once a `drop` has begun, whatever becomes of the room. -/
theorem Sound.of_gone (h : Sound S Z P r) {Z' : Set ℕ} {r' : State}
    (hc : ∀ x, (r'.clients x).inUse = (r.clients x).inUse ∧ (r'.clients x).name = (r.clients x).name)
    (hlive : ∀ x, r'.Live x ↔ r.Live x ∧ x ≠ ci)
    (hb : r'.byName = (r.gone ci).byName) (hn : r'.nClients = r.nClients)
    (hp : r'.published = (r.gone ci).published) (hf : r'.fault = r.fault)
    (hroom : ∀ c rj, r'.Live c → (r'.clients c).room = some rj →
      rj ∉ Z' ∧ (r'.rooms rj).used = true ∧ c ∈ r'.members rj)
    (hseats : ∀ rj, (r'.rooms rj).used = true → rj ∉ Z' → 2 ≤ (r'.members rj).length ∧
      (r'.members rj).length ≤ S.maxSeats ∧ (r'.members rj).Nodup ∧
        ∀ m ∈ r'.members rj, r'.Live m ∧ (r'.clients m).room = some rj ∧ (r'.clients m).name ≠ [])
    (hunused : ∀ rj, (r'.rooms rj).used = false → r'.members rj = []) :
    Sound S Z' (insert ci P) r' := by
  rw [byName_gone] at hb
  have hmem : ∀ e, e ∈ r'.byName ↔ e ∈ r.byName ∧ e.2 ≠ ci := by
    intro e
    rw [hb, List.mem_filter]
    simp
  constructor
  · rw [hb]
    exact h.names.sublist (List.filter_sublist.map _)
  · rw [hb]
    exact h.owners.sublist (List.filter_sublist.map _)
  · intro e he
    obtain ⟨he, hne⟩ := (hmem e).1 he
    obtain ⟨h1, h2, h3⟩ := h.entry e he
    exact ⟨(hlive _).2 ⟨h1, hne⟩, (hc _).2.trans h2, h3⟩
  · intro c hl hname
    obtain ⟨hl, hne⟩ := (hlive c).1 hl
    rw [(hc c).2] at hname ⊢
    exact (hmem _).2 ⟨h.listed c hl hname, hne⟩
  · intro e he
    exact h.proper e ((hmem e).1 he).1
  · exact hroom
  · exact hseats
  · exact hunused
  · intro c hu
    rw [(hc c).1] at hu
    exact h.slots c hu
  · intro c hu hd
    by_cases hci : c = ci
    · exact Or.inl hci
    · refine Or.inr (h.dying c ((hc c).1 ▸ hu) ?_)
      by_contra hdead
      rw [Bool.not_eq_true] at hdead
      have hl := (hlive c).2 ⟨⟨(hc c).1 ▸ hu, hdead⟩, hci⟩
      rw [hl.2] at hd
      cases hd
  · rw [hn, h.count]
    refine congrArg Finset.card (Finset.filter_congr fun c _ => ?_)
    rw [(hc c).1]
  · rw [hp, published_gone h.published, byName_gone, hb]
  · rw [hf]
    exact h.fault

theorem sound_solo (h : Sound S Z P r) (hl : r.Live ci) (hr : (r.clients ci).room = none) :
    Sound S Z (insert ci P) (r.gone ci) := by
  have hmem : ∀ rj, (r.gone ci).members rj = r.members rj := fun rj => by
    rw [State.members, State.members, rooms_gone]
  refine h.of_gone (fun x => ⟨inUse_gone x, name_gone x⟩) live_gone rfl nClients_gone rfl fault_gone
    ?_ ?_ ?_
  · intro c rj hc hcr
    rw [room_gone] at hcr
    rw [rooms_gone, hmem]
    exact h.room c rj ((live_gone c).1 hc).1 hcr
  · intro rj hu hz
    rw [rooms_gone] at hu
    rw [hmem]
    obtain ⟨h2, hm, hnd, hall⟩ := h.seats rj hu hz
    refine ⟨h2, hm, hnd, fun m hmm => ?_⟩
    obtain ⟨h1, h2, h3⟩ := hall m hmm
    rw [live_gone, room_gone, name_gone]
    refine ⟨⟨h1, ?_⟩, h2, h3⟩
    rintro rfl
    rw [hr] at h2
    cases h2
  · intro rj hu
    rw [rooms_gone] at hu
    rw [hmem]
    exact h.unused rj hu

/-- A client out of the registry and out of its room. -/
def State.out (r : State) (ci ri : ℕ) : State := (r.gone ci).leave ci ri

theorem clients_out (x : ℕ) : (r.out ci ri).clients x =
    if x = ci then { r.clients ci with dead := true, room := none } else r.clients x := by
  rw [State.out, State.leave, State.clients_setRoom, State.clients_setClient]
  by_cases hx : x = ci
  · rw [if_pos hx, if_pos hx, clients_gone, if_pos rfl]
  · rw [if_neg hx, if_neg hx, clients_gone, if_neg hx]

theorem rooms_out (rj : ℕ) : (r.out ci ri).rooms rj =
    if rj = ri then { r.rooms ri with members := (r.members ri).erase ci } else r.rooms rj := by
  rw [State.out, State.leave, State.rooms_setRoom, State.rooms_setClient, rooms_gone, State.members,
    rooms_gone]
  rfl

theorem members_out : (r.out ci ri).members ri = (r.members ri).erase ci := by
  rw [State.members, rooms_out, if_pos rfl]

theorem live_out (x : ℕ) : (r.out ci ri).Live x ↔ r.Live x ∧ x ≠ ci := by
  rw [State.Live, State.Live, clients_out]
  split_ifs with hx
  · simp [hx]
  · simp [hx]

theorem inUse_out (x : ℕ) : ((r.out ci ri).clients x).inUse = (r.clients x).inUse := by
  rw [clients_out]
  split_ifs with hx
  · rw [hx]
  · rfl

theorem name_out (x : ℕ) : ((r.out ci ri).clients x).name = (r.clients x).name := by
  rw [clients_out]
  split_ifs with hx
  · rw [hx]
  · rfl

theorem room_out {x : ℕ} (hx : x ≠ ci) : ((r.out ci ri).clients x).room = (r.clients x).room := by
  rw [clients_out, if_neg hx]

section seated

variable (h : Sound S Z P r) (hl : r.Live ci) (hr : (r.clients ci).room = some ri)
include h hl hr

/-- The room of a client that is served. -/
theorem Sound.seated : ri ∉ Z ∧ (r.rooms ri).used = true ∧ ci ∈ r.members ri ∧
    (r.members ri).Nodup ∧ (r.members ri).length ≤ S.maxSeats ∧ 2 ≤ (r.members ri).length := by
  obtain ⟨hz, hu, hm⟩ := h.room ci ri hl hr
  obtain ⟨h2, hmax, hnd, -⟩ := h.seats ri hu hz
  exact ⟨hz, hu, hm, hnd, hmax, h2⟩

/-- The members that stay are served and belong to the room. -/
theorem Sound.stay {m : ℕ} (hm : m ∈ (r.members ri).erase ci) :
    m ≠ ci ∧ r.Live m ∧ (r.clients m).room = some ri ∧ (r.clients m).name ≠ [] := by
  obtain ⟨hz, hu, -, hnd, -⟩ := h.seated hl hr
  obtain ⟨hne, hmem⟩ := hnd.mem_erase_iff.1 hm
  exact ⟨hne, (h.seats ri hu hz).2.2.2 m hmem⟩

theorem sound_left (h2 : 2 ≤ ((r.members ri).erase ci).length) :
    Sound S Z (insert ci P) (r.out ci ri) := by
  obtain ⟨hz, hu, hci, hnd, hmax, -⟩ := h.seated hl hr
  have hmem : ∀ rj, (r.out ci ri).members rj =
      if rj = ri then (r.members ri).erase ci else r.members rj := by
    intro rj
    rw [State.members, rooms_out]
    split_ifs
    · rfl
    · rfl
  have hused : ∀ rj, ((r.out ci ri).rooms rj).used = (r.rooms rj).used := by
    intro rj
    rw [rooms_out]
    split_ifs with hrj
    · rw [hrj]
    · rfl
  refine h.of_gone (fun x => ⟨inUse_out x, name_out x⟩) live_out rfl nClients_gone rfl fault_gone
    ?_ ?_ ?_
  · intro c rj hc hcr
    obtain ⟨hc, hne⟩ := (live_out c).1 hc
    rw [room_out hne] at hcr
    obtain ⟨h1, h2, h3⟩ := h.room c rj hc hcr
    rw [hused, hmem]
    refine ⟨h1, h2, ?_⟩
    split_ifs with hrj
    · rw [hrj] at h3
      exact (List.mem_erase_of_ne hne).2 h3
    · exact h3
  · intro rj hu' hz'
    rw [hused] at hu'
    rw [hmem]
    obtain ⟨k2, km, knd, kall⟩ := h.seats rj hu' hz'
    split_ifs with hrj
    · refine ⟨h2, (List.length_erase_le).trans hmax, hnd.erase _, fun m hm => ?_⟩
      obtain ⟨hne, h1, h3, h4⟩ := h.stay hl hr hm
      rw [live_out, room_out hne, name_out, hrj]
      exact ⟨⟨h1, hne⟩, h3, h4⟩
    · refine ⟨k2, km, knd, fun m hm => ?_⟩
      obtain ⟨h1, h3, h4⟩ := kall m hm
      have hne : m ≠ ci := by
        rintro rfl
        rw [hr] at h3
        exact hrj (Option.some.inj h3).symm
      rw [live_out, room_out hne, name_out]
      exact ⟨⟨h1, hne⟩, h3, h4⟩
  · intro rj hu'
    rw [hused] at hu'
    rw [hmem, if_neg]
    · exact h.unused rj hu'
    · rintro rfl
      rw [hu] at hu'
      cases hu'

/-- Everybody is out of the room. -/
theorem clients_unroom (x : ℕ) : ((r.out ci ri).unroom ri).clients x =
    if x ∈ (r.members ri).erase ci then { r.clients x with room := none }
    else (r.out ci ri).clients x := by
  rw [State.unroom]
  dsimp only
  rw [members_out]
  split_ifs with hx
  · obtain ⟨hne, -⟩ := h.stay hl hr hx
    rw [clients_out, if_neg hne]
  · rfl

theorem live_unroom (x : ℕ) : ((r.out ci ri).unroom ri).Live x ↔ r.Live x ∧ x ≠ ci := by
  rw [State.Live, clients_unroom h hl hr]
  split_ifs with hx
  · obtain ⟨hne, hlx, -⟩ := h.stay hl hr hx
    exact ⟨fun _ => ⟨hlx, hne⟩, fun _ => hlx⟩
  · exact live_out x

theorem sound_unroom : Sound S (insert ri Z) (insert ci P) ((r.out ci ri).unroom ri) := by
  obtain ⟨hz, hu, hci, hnd, hmax, -⟩ := h.seated hl hr
  have hrooms : ∀ rj, rj ≠ ri → ((r.out ci ri).unroom ri).rooms rj = r.rooms rj := fun rj hrj => by
    rw [State.unroom]
    dsimp only
    rw [rooms_out, if_neg hrj]
  have hother : ∀ {c rj}, c ≠ ci → r.Live c → (r.clients c).room = some rj → rj ≠ ri →
      ((r.out ci ri).unroom ri).clients c = r.clients c := by
    intro c rj hc hlc hcr hrj
    rw [clients_unroom h hl hr, if_neg, clients_out, if_neg hc]
    intro hmem
    obtain ⟨-, -, hroom, -⟩ := h.stay hl hr hmem
    rw [hcr] at hroom
    exact hrj (Option.some.inj hroom)
  refine h.of_gone (fun x => ?_) (live_unroom h hl hr) rfl nClients_gone rfl fault_gone ?_ ?_ ?_
  · rw [clients_unroom h hl hr]
    split_ifs
    · exact ⟨rfl, rfl⟩
    · exact ⟨inUse_out x, name_out x⟩
  · intro c rj hc hcr
    obtain ⟨hlc, hne⟩ := (live_unroom h hl hr c).1 hc
    rw [clients_unroom h hl hr] at hcr
    split_ifs at hcr with hx
    rw [clients_out, if_neg hne] at hcr
    obtain ⟨h1, h2, h3⟩ := h.room c rj hlc hcr
    have hrj : rj ≠ ri := by
      rintro rfl
      exact hx ((List.mem_erase_of_ne hne).2 h3)
    rw [State.members, hrooms rj hrj]
    exact ⟨fun hin => hin.elim hrj h1, h2, h3⟩
  · intro rj hu' hz'
    have hrj : rj ≠ ri := fun heq => hz' (Or.inl heq)
    rw [hrooms rj hrj] at hu'
    rw [State.members, hrooms rj hrj]
    obtain ⟨k2, km, knd, kall⟩ := h.seats rj hu' fun hin => hz' (Or.inr hin)
    refine ⟨k2, km, knd, fun m hm => ?_⟩
    obtain ⟨h1, h3, h4⟩ := kall m hm
    have hne : m ≠ ci := by
      rintro rfl
      rw [hr] at h3
      exact hrj (Option.some.inj h3).symm
    rw [live_unroom h hl hr, hother hne h1 h3 hrj]
    exact ⟨⟨h1, hne⟩, h3, h4⟩
  · intro rj hu'
    by_cases hrj : rj = ri
    · rw [hrj] at hu'
      have : ((r.out ci ri).rooms ri).used = false := hu'
      rw [rooms_out, if_pos rfl] at this
      rw [hu] at this
      cases this
    · rw [hrooms rj hrj] at hu'
      rw [State.members, hrooms rj hrj]
      exact h.unused rj hu'

end seated

/-- A room that was emptied is given up. -/
theorem sound_close (hz : ri ∉ Z) (h : Sound S (insert ri Z) P r) : Sound S Z P (r.close ri) := by
  have hmem : ∀ rj, rj ≠ ri → (r.close ri).members rj = r.members rj := fun rj hrj => by
    rw [State.close, State.members, State.rooms_setRoom, if_neg hrj]
    rfl
  have hrooms : ∀ rj, rj ≠ ri → (r.close ri).rooms rj = r.rooms rj := fun rj hrj => by
    rw [State.close, State.rooms_setRoom, if_neg hrj]
  have hself : ((r.close ri).rooms ri).used = false ∧ (r.close ri).members ri = [] := by
    rw [State.close, State.members, State.rooms_setRoom, if_pos rfl]
    exact ⟨rfl, rfl⟩
  refine ⟨h.names, h.owners, h.entry, h.listed, h.proper, ?_, ?_, ?_, h.slots, h.dying, h.count, h.published,
    h.fault⟩
  · intro c rj hc hcr
    obtain ⟨h1, h2, h3⟩ := h.room c rj hc hcr
    have hrj : rj ≠ ri := fun heq => h1 (Or.inl heq)
    rw [hrooms rj hrj, hmem rj hrj]
    exact ⟨fun hin => h1 (Or.inr hin), h2, h3⟩
  · intro rj hu hz'
    have hrj : rj ≠ ri := by
      rintro rfl
      rw [hself.1] at hu
      cases hu
    rw [hrooms rj hrj] at hu
    rw [hmem rj hrj]
    exact h.seats rj hu fun hin => hin.elim hrj hz'
  · intro rj hu
    by_cases hrj : rj = ri
    · rw [hrj]
      exact hself.2
    · rw [hrooms rj hrj] at hu
      rw [hmem rj hrj]
      exact h.unused rj hu

/-- The slot of a client is free again. -/
theorem sound_free (h : Sound S Z (insert ci P) r) (hu : (r.clients ci).inUse = true)
    (hd : (r.clients ci).dead = true) : Sound S Z P (r.free ci) := by
  have hc : ∀ x, (r.free ci).clients x =
      if x = ci then { r.clients ci with inUse := false } else r.clients x := by
    intro x
    rw [State.free, if_pos hu]
    exact State.clients_setClient _ _ _ _
  have hlive : ∀ x, (r.free ci).Live x ↔ r.Live x := by
    intro x
    rw [State.Live, State.Live, hc]
    split_ifs with hx
    · simp [hx, hd]
    · rfl
  have hrooms : (r.free ci).rooms = r.rooms ∧ (r.free ci).byName = r.byName ∧
      (r.free ci).published = r.published ∧ (r.free ci).fault = r.fault ∧
        (r.free ci).nClients = r.nClients - 1 := by
    rw [State.free, if_pos hu]
    exact ⟨rfl, rfl, rfl, rfl, rfl⟩
  obtain ⟨hrooms, hbn, hpub, hfault, hcount⟩ := hrooms
  have hmem : ∀ rj, (r.free ci).members rj = r.members rj := fun rj => by
    rw [State.members, hrooms]
    rfl
  have hfield : ∀ x, ((r.free ci).clients x).name = (r.clients x).name ∧
      ((r.free ci).clients x).room = (r.clients x).room ∧
        ((r.free ci).clients x).dead = (r.clients x).dead := by
    intro x
    rw [hc]
    split_ifs with hx
    · rw [hx]
      exact ⟨rfl, rfl, rfl⟩
    · exact ⟨rfl, rfl, rfl⟩
  have hin : ∀ x, ((r.free ci).clients x).inUse = true ↔ (r.clients x).inUse = true ∧ x ≠ ci := by
    intro x
    rw [hc]
    split_ifs with hx
    · simp [hx]
    · simp [hx]
  constructor
  · rw [hbn]
    exact h.names
  · rw [hbn]
    exact h.owners
  · intro e he
    rw [hbn] at he
    rw [hlive, (hfield _).1]
    exact h.entry e he
  · intro c hl hn
    rw [(hfield c).1] at hn ⊢
    rw [hbn]
    exact h.listed c ((hlive c).1 hl) hn
  · rw [hbn]
    exact h.proper
  · intro c rj hl hr
    rw [(hfield c).2.1] at hr
    rw [hrooms, hmem]
    exact h.room c rj ((hlive c).1 hl) hr
  · intro rj hur hz
    rw [hrooms] at hur
    rw [hmem]
    obtain ⟨k2, km, knd, kall⟩ := h.seats rj hur hz
    refine ⟨k2, km, knd, fun m hm => ?_⟩
    rw [hlive, (hfield m).1, (hfield m).2.1]
    exact kall m hm
  · intro rj hur
    rw [hrooms] at hur
    rw [hmem]
    exact h.unused rj hur
  · intro c hcu
    exact h.slots c ((hin c).1 hcu).1
  · intro c hcu hcd
    obtain ⟨hcu, hne⟩ := (hin c).1 hcu
    rw [(hfield c).2.2] at hcd
    exact (h.dying c hcu hcd).resolve_left hne
  · rw [hcount, h.count]
    have hset : ((Finset.range maxClients).filter fun c => ((r.free ci).clients c).inUse = true) =
        ((Finset.range maxClients).filter fun c => (r.clients c).inUse = true).erase ci := by
      ext c
      rw [Finset.mem_erase, Finset.mem_filter, Finset.mem_filter, hin]
      tauto
    rw [hset, Finset.card_erase_of_mem]
    rw [Finset.mem_filter, Finset.mem_range]
    exact ⟨h.slots ci hu, hu⟩
  · rw [hpub, hbn]
    exact h.published
  · rw [hfault]
    exact h.fault

end pieces

end IntvNetplay.Relay
