import TibiaServer.Library.Loops
import TibiaServer.World.Position
/-!
# Registering an event for a range of ids

`Actions::registerEvent` keeps one action for each id, the first that comes;
`MoveEvents::registerEvent` keeps lists of events.  Both count up to the last id of a range with
a counter of the id's own width, which never passes the last number of the type
(`registerEvent_range_iff`).
-/

namespace TibiaServer.Events

open TibiaServer.Library.Loops
open TibiaServer.World (Position)

/-- The registries, in the order in which the attributes of a node are looked for: `itemid`,
`uniqueid` and `actionid`. -/
inductive IdKind
  | item | unique | action
  deriving DecidableEq, Repr

/-- The attributes of a node, cast to the type of the ids: `itemid`, `fromid` and `toid`, and
the same for the other two kinds. -/
structure Ids (w : ℕ) where
  id : IdKind → Option (BitVec w) := fun _ => none
  fromId : IdKind → Option (BitVec w) := fun _ => none
  toId : IdKind → Option (BitVec w) := fun _ => none

/-- The node gives a range of ids of the kind, and nothing that is looked for before it. -/
structure Ids.IsRange {w : ℕ} (node : Ids w) (kind : IdKind) (first last : BitVec w) : Prop where
  id : node.id kind = none
  fromId : node.fromId kind = some first
  toId : node.toId kind = some last
  item : kind ≠ .item → node.id .item = none ∧ node.fromId .item = none
  unique : kind = .action → node.id .unique = none ∧ node.fromId .unique = none

/-! ## Actions -/

section Actions

variable {Action : Type}

abbrev ActionUseMap (Action : Type) := BitVec 16 → Option Action

/-- `useItemMap`, `uniqueItemMap` and `actionItemMap` -/
structure Actions (Action : Type) where
  map : IdKind → ActionUseMap Action := fun _ _ => none

/-- `map.emplace(id, action)` -/
def emplace (map : ActionUseMap Action) (id : BitVec 16) (action : Action) :
    Bool × ActionUseMap Action :=
  match map id with
  | none => (true, Function.update map id (some action))
  | some _ => (false, map)

/-- A round of the loop over a range: the map and `success`. -/
def emplaceNext (action : Action) (s : ActionUseMap Action × Bool) (id : BitVec 16) :
    ActionUseMap Action × Bool :=
  let (inserted, map) := emplace s.1 id action
  (map, s.2 || inserted)

namespace Actions

variable (n : ℕ) (s : Actions Action) (action : Action) (node : Ids 16)

def setMap (kind : IdKind) (map : ActionUseMap Action) : Actions Action :=
  { s with map := Function.update s.map kind map }

/-- The two branches for a kind of ids; the loop has `n` rounds. -/
def registerKind (kind : IdKind) (next : Option (Bool × Actions Action)) :
    Option (Bool × Actions Action) :=
  match node.id kind, node.fromId kind with
  | some id, _ =>
    let (inserted, map) := emplace (s.map kind) id action
    some (inserted, s.setMap kind map)
  | none, some fromId =>
    match node.toId kind with
    | none => some (false, s)
    | some toId =>
      (overRange (emplaceNext action) fromId toId n (s.map kind, false)).map
        fun (map, success) => (success, s.setMap kind map)
  | none, none => next

/-- `Actions::registerEvent` -/
def registerEvent : Option (Bool × Actions Action) :=
  s.registerKind n action node .item (s.registerKind n action node .unique
    (s.registerKind n action node .action (some (false, s))))

/-- The action is registered for the ids of the range that had none, and nothing else. -/
def Registers (kind : IdKind) (first last : BitVec 16) (t : Actions Action) : Prop :=
  (∀ id, t.map kind id =
      if first ≤ id ∧ id ≤ last then some ((s.map kind id).getD action) else s.map kind id) ∧
    ∀ other ≠ kind, t.map other = s.map other

variable {n s action node} {kind : IdKind} {first last : BitVec 16}

theorem registerEvent_of_isRange (h : node.IsRange kind first last) :
    s.registerEvent n action node =
      (overRange (emplaceNext action) first last n (s.map kind, false)).map
        fun (map, success) => (success, s.setMap kind map) := by
  cases kind with
  | item => simp only [registerEvent, registerKind, h.id, h.fromId, h.toId]
  | unique =>
    obtain ⟨hid, hfrom⟩ := h.item (by decide)
    simp only [registerEvent, registerKind, h.id, h.fromId, h.toId, hid, hfrom]
  | action =>
    obtain ⟨hid, hfrom⟩ := h.item (by decide)
    obtain ⟨hid', hfrom'⟩ := h.unique rfl
    simp only [registerEvent, registerKind, h.id, h.fromId, h.toId, hid, hfrom, hid', hfrom']

theorem emplaceNext_map (action : Action) (s : ActionUseMap Action × Bool) (id : BitVec 16) :
    (emplaceNext action s id).1 = Function.update s.1 id (some ((s.1 id).getD action)) := by
  unfold emplaceNext emplace
  cases hid : s.1 id with
  | none => rfl
  | some other =>
    simp only [Option.getD_some]
    rw [← hid, Function.update_eq_self]

theorem registers_setMap {map : ActionUseMap Action} :
    s.Registers action kind first last (s.setMap kind map) ↔
      ∀ id, map id =
        if first ≤ id ∧ id ≤ last then some ((s.map kind id).getD action)
        else s.map kind id := by
  unfold Registers setMap
  simp only [Function.update_self]
  refine and_iff_left ?_
  intro other hother
  exact Function.update_of_ne hother _ _

theorem registers_iff (h : node.IsRange kind first last) (hle : first ≤ last) :
    (∃ n success t, s.registerEvent n action node = some (success, t) ∧
      s.Registers action kind first last t) ↔ last.toNat + 1 < 2 ^ 16 := by
  rw [← overRange_iff Prod.fst (fun _ old => some (old.getD action)) (emplaceNext_map action) hle
    (s.map kind, false)]
  constructor
  · rintro ⟨n, success, t, hrun, ht⟩
    rw [registerEvent_of_isRange h] at hrun
    obtain ⟨⟨map, success'⟩, hloop, heq⟩ := Option.map_eq_some_iff.mp hrun
    obtain ⟨rfl, rfl⟩ := Prod.mk.inj heq
    exact ⟨n, _, hloop, registers_setMap.mp ht⟩
  · rintro ⟨n, ⟨map, success⟩, hloop, hmap⟩
    refine ⟨n, success, s.setMap kind map, ?_, registers_setMap.mpr hmap⟩
    rw [registerEvent_of_isRange h, hloop]
    rfl

end Actions

end Actions

/-! ## Move events -/

inductive MoveEvent_t
  | MOVE_EVENT_STEP_IN | MOVE_EVENT_STEP_OUT | MOVE_EVENT_EQUIP | MOVE_EVENT_DEEQUIP
  | MOVE_EVENT_ADD_ITEM | MOVE_EVENT_REMOVE_ITEM
  | MOVE_EVENT_ADD_ITEM_ITEMTILE | MOVE_EVENT_REMOVE_ITEM_ITEMTILE
  deriving DecidableEq, Repr

open MoveEvent_t

/-- What an item type takes over from an event for equipping it. -/
structure Wielding where
  wieldInfo : BitVec 32 := 0
  minReqLevel : BitVec 32 := 0
  minReqMagicLevel : BitVec 32 := 0
  vocationString : String := ""

structure MoveEvent where
  eventType : MoveEvent_t
  wielding : Wielding := {}

abbrev MoveEventList := MoveEvent_t → List MoveEvent

/-- By the bits of the `int32_t`. -/
abbrev MoveListMap := BitVec 32 → Option MoveEventList

structure Items where
  size : ℕ
  items : ℕ → Wielding

/-- The assignments to what `getItemType` finds. -/
def Items.wield (items : Items) (event : MoveEvent) (id : BitVec 32) : Items :=
  let id := if id.toNat < items.size then id.toNat else 0
  { items with items := Function.update items.items id event.wielding }

/-- `moveEvent[eventType].push_back(moveEvent)` in the list that is there or in a new one -/
def pushEvent (event : MoveEvent) (list : Option MoveEventList) : MoveEventList :=
  let list := list.getD fun _ => []
  Function.update list event.eventType (list event.eventType ++ [event])

/-- `MoveEvents::addEvent` -/
def addEvent {Key : Type} [DecidableEq Key] (event : MoveEvent) (id : Key)
    (map : Key → Option MoveEventList) : Key → Option MoveEventList :=
  Function.update map id (some (pushEvent event (map id)))

structure MoveEvents where
  map : IdKind → MoveListMap := fun _ _ => none
  positionMap : Position → Option MoveEventList := fun _ => none
  items : Items

structure MoveNode extends Ids 32 where
  tileitem : Option (BitVec 16) := none
  pos : Option (List ℤ) := none

/-- The type that the event gets from `tileitem`. -/
def MoveNode.typed (node : MoveNode) (event : MoveEvent) : MoveEvent :=
  if node.tileitem = some 1 then
    match event.eventType with
    | MOVE_EVENT_ADD_ITEM => { event with eventType := MOVE_EVENT_ADD_ITEM_ITEMTILE }
    | MOVE_EVENT_REMOVE_ITEM => { event with eventType := MOVE_EVENT_REMOVE_ITEM_ITEMTILE }
    | _ => event
  else event

namespace MoveEvents

variable (n : ℕ) (s : MoveEvents) (event : MoveEvent) (node : MoveNode)

def setMap (kind : IdKind) (map : MoveListMap) (items : Items) : MoveEvents :=
  { s with map := Function.update s.map kind map, items := items }

/-- A round of a loop over a range: the map and the item types. -/
def addNext (kind : IdKind) (s : MoveListMap × Items) (id : BitVec 32) : MoveListMap × Items :=
  (addEvent event id s.1,
    if kind = .item ∧ event.eventType = MOVE_EVENT_EQUIP then s.2.wield event id else s.2)

/-- The two branches for a kind of ids; the loop has `n` rounds. -/
def registerKind (kind : IdKind) (next : Option (Bool × MoveEvents)) :
    Option (Bool × MoveEvents) :=
  match node.id kind, node.fromId kind with
  | some id, _ =>
    let (map, items) := addNext event kind (s.map kind, s.items) id
    some (true, s.setMap kind map items)
  | none, some id =>
    let endId := (node.toId kind).getD 0
    (overRange (addNext event kind) id endId n (s.map kind, s.items)).map
      fun (map, items) => (true, s.setMap kind map items)
  | none, none => next

/-- The branch for `pos`. -/
def registerPosition : Bool × MoveEvents :=
  match node.pos with
  | some (x :: y :: z :: _) =>
    let pos := Position.ofInt x y (UInt8.ofInt z)
    (true, { s with positionMap := addEvent event pos s.positionMap })
  | _ => (false, s)

/-- `MoveEvents::registerEvent` -/
def registerEvent : Option (Bool × MoveEvents) :=
  let event := node.typed event
  s.registerKind n event node .item (s.registerKind n event node .unique
    (s.registerKind n event node .action (some (s.registerPosition event node))))

/-- The event is added for the ids of the range, and nothing else. -/
def Registers (kind : IdKind) (first last : BitVec 32) (t : MoveEvents) : Prop :=
  (∀ id, t.map kind id =
      if first ≤ id ∧ id ≤ last then some (pushEvent event (s.map kind id))
      else s.map kind id) ∧
    (∀ other ≠ kind, t.map other = s.map other) ∧ t.positionMap = s.positionMap

variable {n s event node} {kind : IdKind} {first last : BitVec 32}

theorem registerEvent_of_isRange (h : node.IsRange kind first last) :
    s.registerEvent n event node =
      (overRange (addNext (node.typed event) kind) first last n (s.map kind, s.items)).map
        fun (map, items) => (true, s.setMap kind map items) := by
  cases kind with
  | item => simp only [registerEvent, registerKind, h.id, h.fromId, h.toId, Option.getD_some]
  | unique =>
    obtain ⟨hid, hfrom⟩ := h.item (by decide)
    simp only [registerEvent, registerKind, h.id, h.fromId, h.toId, hid, hfrom, Option.getD_some]
  | action =>
    obtain ⟨hid, hfrom⟩ := h.item (by decide)
    obtain ⟨hid', hfrom'⟩ := h.unique rfl
    simp only [registerEvent, registerKind, h.id, h.fromId, h.toId, hid, hfrom, hid', hfrom',
      Option.getD_some]

theorem registers_setMap {map : MoveListMap} {items : Items} :
    s.Registers event kind first last (s.setMap kind map items) ↔
      ∀ id, map id =
        if first ≤ id ∧ id ≤ last then some (pushEvent event (s.map kind id))
        else s.map kind id := by
  unfold Registers setMap
  simp only [Function.update_self, and_true]
  refine and_iff_left ?_
  intro other hother
  exact Function.update_of_ne hother _ _

theorem registers_iff (h : node.IsRange kind first last) (hle : first ≤ last) :
    (∃ n success t, s.registerEvent n event node = some (success, t) ∧
      s.Registers (node.typed event) kind first last t) ↔ last.toNat + 1 < 2 ^ 32 := by
  have hnext (s : MoveListMap × Items) (id : BitVec 32) :
      (addNext (node.typed event) kind s id).1 =
        Function.update s.1 id (some (pushEvent (node.typed event) (s.1 id))) := rfl
  rw [← overRange_iff Prod.fst (fun _ old => some (pushEvent (node.typed event) old)) hnext hle
    (s.map kind, s.items)]
  constructor
  · rintro ⟨n, success, t, hrun, ht⟩
    rw [registerEvent_of_isRange h] at hrun
    obtain ⟨⟨map, items⟩, hloop, heq⟩ := Option.map_eq_some_iff.mp hrun
    obtain ⟨-, rfl⟩ := Prod.mk.inj heq
    exact ⟨n, _, hloop, registers_setMap.mp ht⟩
  · rintro ⟨n, ⟨map, items⟩, hloop, hmap⟩
    refine ⟨n, true, s.setMap kind map items, ?_, registers_setMap.mpr hmap⟩
    rw [registerEvent_of_isRange h, hloop]
    rfl

end MoveEvents

/-- A range is registered as a whole and nothing else, and the call ends, exactly when the range
stops before the last number of the type. -/
theorem registerEvent_range_iff {Action : Type} (actions : Actions Action)
    (moveEvents : MoveEvents) :
    (∀ (action : Action) (node : Ids 16) (kind : IdKind) (first last : BitVec 16),
      node.IsRange kind first last → first ≤ last →
        ((∃ n success t, actions.registerEvent n action node = some (success, t) ∧
          actions.Registers action kind first last t) ↔ last ≠ 65535)) ∧
      ∀ (event : MoveEvent) (node : MoveNode) (kind : IdKind) (first last : BitVec 32),
        node.IsRange kind first last → first ≤ last →
          ((∃ n success t, moveEvents.registerEvent n event node = some (success, t) ∧
            moveEvents.Registers (node.typed event) kind first last t) ↔ last ≠ 4294967295) := by
  have hbound : ∀ {w : ℕ} (last top : BitVec w), top.toNat + 1 = 2 ^ w →
      (last.toNat + 1 < 2 ^ w ↔ last ≠ top) := by
    intro w last top htop
    have hlt := last.isLt
    rw [ne_eq, ← BitVec.toNat_inj]
    omega
  constructor
  · intro action node kind first last h hle
    rw [Actions.registers_iff h hle, hbound last 65535 rfl]
  · intro event node kind first last h hle
    rw [MoveEvents.registers_iff h hle, hbound last 4294967295 rfl]

/-- The range from 65534 to 65535 of item ids. -/
def lastIds : Ids 16 where
  fromId kind := if kind = .item then some 65534 else none
  toId kind := if kind = .item then some 65535 else none

/-- A range of ids that ends one before. -/
def nearlyLastIds : Ids 16 where
  fromId kind := if kind = .item then some 65533 else none
  toId kind := if kind = .item then some 65534 else none

theorem nearlyLastIds_registered : ∃ n success t,
    Actions.registerEvent n ({} : Actions Unit) () nearlyLastIds = some (success, t) ∧
      Actions.Registers {} () .item 65533 65534 t :=
  ((registerEvent_range_iff {} { items := ⟨1, fun _ => {}⟩ }).1 () nearlyLastIds .item 65533 65534
    ⟨rfl, rfl, rfl, by decide, by decide⟩ (by decide)).mpr (by decide)

/-- The loop for a range up to the last id does not end. -/
theorem lastIds_never_registered : ¬∃ n success t,
    Actions.registerEvent n ({} : Actions Unit) () lastIds = some (success, t) ∧
      Actions.Registers {} () .item 65534 65535 t := by
  rintro ⟨n, success, t, hrun, -⟩
  have hrange : lastIds.IsRange .item 65534 65535 := ⟨rfl, rfl, rfl, by decide, by decide⟩
  rw [Actions.registerEvent_of_isRange hrange, overRange, upTo_of_last rfl] at hrun
  cases hrun

end TibiaServer.Events
