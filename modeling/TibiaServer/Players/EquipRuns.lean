import TibiaServer.Players.Bonuses
/-!
# Runs of equipping

An item that is equipped may turn into another one, and that one into the next, each time
within a notification of the one before.  As long as only the last of them has a bonus, and
what is taken off shares no suppression with what stays, the modifiers remain the sums over
the enabled slots.
-/

namespace TibiaServer.Players

open Library Library.Run

namespace EquipData

variable (data : EquipData)

/-- `transformItem` does nothing. -/
def Leaves (id newId : ℕ) : Prop := id = newId ∨ (data.items newId).id = 0

/-- `transformItem` changes the type of the item where it is. -/
structure SameKind (id newId : ℕ) : Prop where
  ids : (data.items id).id ≠ (data.items newId).id
  alwaysOnTop : (data.items id).alwaysOnTop = (data.items newId).alwaysOnTop
  type : (data.items id).type = (data.items newId).type

/-- A type for which `can` holds turns into another one when it is equipped. -/
def Turns (can : ℕ → Prop) (id newId : ℕ) : Prop :=
  can id ∧ newId = (data.items id).transformEquipTo ∧ newId ≠ 0 ∧ ¬data.Leaves id newId

/-- What turns into something else has no bonus of its own and stays where it is. -/
def Passes (base : stats_t → ℤ) (can : ℕ → Prop) (id : ℕ) : Prop :=
  ∀ id', Relation.ReflTransGen (data.Turns can) id id' → can id' →
    (data.items id').transformEquipTo ≠ 0 → EquippedPlayer.typeBonus data base id' = {} ∧
      (data.Leaves id' (data.items id').transformEquipTo ∨
        data.SameKind id' (data.items id').transformEquipTo)

theorem Passes.turned {data : EquipData} {base : stats_t → ℤ} {can : ℕ → Prop} {id id' : ℕ}
    (h : data.Passes base can id) (hturned : Relation.ReflTransGen (data.Turns can) id id') :
    data.Passes base can id' :=
  fun id'' hlater => h id'' (hturned.trans hlater)

end EquipData

namespace EquippedPlayer

/-- No item is in two slots, and new addresses are new. -/
structure WellFormed (s : EquippedPlayer) : Prop where
  distinct : ∀ slot slot' item, s.inventory slot = some item → s.inventory slot' = some item →
    slot = slot'
  old : ∀ slot item, s.inventory slot = some item → item < s.nextItem

/-- One item may have another type, and one slot may be enabled or not. -/
structure Kept (item : ℕ) (slot : slots_t) (s t : EquippedPlayer) : Prop where
  inventory : t.inventory = s.inventory
  enabled : ∀ other, other ≠ slot → t.inventoryAbilities other = s.inventoryAbilities other
  itemId : ∀ other, other ≠ item → t.itemId other = s.itemId other
  nextItem : t.nextItem = s.nextItem
  base : getDefaultStats t.player = getDefaultStats s.player

section Notifications

variable {data : EquipData} {s t u : EquippedPlayer} {item depth : ℕ} {slot : slots_t}
  {extra : Bonus} {can : ℕ → Prop}

theorem Kept.refl : Kept item slot s s :=
  ⟨rfl, fun _ _ => rfl, fun _ _ => rfl, rfl, rfl⟩

theorem Kept.trans (h : Kept item slot s t) (h' : Kept item slot t u) : Kept item slot s u where
  inventory := h'.inventory.trans h.inventory
  enabled other hne := (h'.enabled other hne).trans (h.enabled other hne)
  itemId other hne := (h'.itemId other hne).trans (h.itemId other hne)
  nextItem := h'.nextItem.trans h.nextItem
  base := h'.base.trans h.base

theorem Kept.of_same (h : SameItems s t) : Kept item slot s t where
  inventory := h.inventory
  enabled _ _ := by rw [h.inventoryAbilities]
  itemId _ _ := by rw [h.itemId]
  nextItem := h.nextItem
  base := h.base

theorem Kept.wellFormed (h : Kept item slot s t) (hs : s.WellFormed) : t.WellFormed where
  distinct := h.inventory ▸ hs.distinct
  old := h.inventory ▸ h.nextItem ▸ hs.old

/-- The other slots have the bonuses that they had. -/
theorem Kept.bonusAt (h : Kept item slot s t) (hs : s.WellFormed)
    (hitem : s.inventory slot = some item) {other : slots_t} (hne : other ≠ slot) :
    t.bonusAt data other = s.bonusAt data other := by
  refine bonusAt_congr (h.enabled other hne) (by rw [h.inventory]) (fun item' hitem' => ?_) h.base
  refine h.itemId item' fun heq => hne ?_
  exact hs.distinct other slot item (heq ▸ hitem') hitem

theorem WellFormed.getThingIndex (h : s.WellFormed) (hitem : s.inventory slot = some item) :
    s.getThingIndex item = some slot := by
  unfold EquippedPlayer.getThingIndex
  cases hfind : slots_t.all.find? fun slot => s.inventory slot = some item with
  | none =>
    have hno := List.find?_eq_none.mp hfind slot (by cases slot <;> decide)
    exact absurd hitem (by simpa using hno)
  | some slot' =>
    have hslot' := List.find?_some hfind
    rw [h.distinct slot' slot item (by simpa using hslot') hitem]

theorem getThingIndex_eq_none (h : ∀ slot, s.inventory slot ≠ some item) :
    s.getThingIndex item = none := by
  refine List.find?_eq_none.mpr fun slot _ => ?_
  simpa using h slot

/-- A notification for a slot that is not enabled takes nothing away. -/
theorem deEquip_disabled (hdisabled : s.inventoryAbilities slot = false)
    (h : notification data depth .MOVE_EVENT_DEEQUIP s item slot = some t) : t = s := by
  cases depth with
  | zero => cases h
  | succ depth =>
    unfold notification onPlayerDeEquip at h
    split at h
    next => exact (Option.some.inj h).symm
    next =>
      unfold DeEquipItem at h
      rw [hdisabled, Bool.not_false, if_pos rfl] at h
      exact (Option.some.inj h).symm

theorem equip_enabled (henabled : s.inventoryAbilities slot = true)
    (h : notification data depth .MOVE_EVENT_EQUIP s item slot = some t) : t = s := by
  cases depth with
  | zero => cases h
  | succ depth =>
    unfold notification onPlayerEquip at h
    split at h
    next => exact (Option.some.inj h).symm
    next =>
      unfold EquipItem at h
      rw [if_pos henabled] at h
      exact (Option.some.inj h).symm

theorem transformItem_stays {newId : ℕ}
    (hstays : data.Leaves (s.itemId item) newId ∨ ∀ slot, s.inventory slot ≠ some item)
    (h : transformItem data (notification data depth) s item newId = some t) : t = s := by
  unfold transformItem at h
  dsimp only at h
  by_cases heq : s.itemId item = newId
  · rw [if_pos heq] at h
    exact (Option.some.inj h).symm
  · rw [if_neg heq] at h
    rcases hstays with hleaves | hplaced
    · cases hindex : s.getThingIndex item with
      | none =>
        rw [hindex] at h
        exact (Option.some.inj h).symm
      | some slot =>
        rw [hindex] at h
        dsimp only at h
        rw [if_pos (hleaves.resolve_left heq)] at h
        exact (Option.some.inj h).symm
    · rw [getThingIndex_eq_none hplaced] at h
      exact (Option.some.inj h).symm

/-- `transformItem` of an item in a slot that is not enabled, where it does not replace the
item. -/
theorem transformItem_cases {newId : ℕ} (hs : s.WellFormed)
    (hitem : s.inventory slot = some item) (hdisabled : s.inventoryAbilities slot = false)
    (hkind : data.Leaves (s.itemId item) newId ∨ data.SameKind (s.itemId item) newId)
    (h : transformItem data (notification data depth) s item newId = some t) :
    (data.Leaves (s.itemId item) newId ∧ t = s) ∨ (¬data.Leaves (s.itemId item) newId ∧
      notification data depth .MOVE_EVENT_EQUIP (s.setID item newId) item slot = some t) := by
  by_cases hleaves : data.Leaves (s.itemId item) newId
  · exact .inl ⟨hleaves, transformItem_stays (.inl hleaves) h⟩
  · have hsame := hkind.resolve_left hleaves
    obtain ⟨hne, hknown⟩ := not_or.mp hleaves
    unfold transformItem at h
    dsimp only at h
    rw [if_neg hne, hs.getThingIndex hitem] at h
    dsimp only at h
    rw [if_neg hknown, if_neg (not_not.mpr hsame.alwaysOnTop), if_pos hsame.type] at h
    obtain ⟨s', hs', h⟩ := Option.bind_eq_some_iff.mp h
    obtain rfl := deEquip_disabled hdisabled hs'
    rw [if_pos hsame.ids] at h
    unfold updateThing at h
    rw [hs.getThingIndex hitem] at h
    exact .inr ⟨hleaves, h⟩

/-! ## Equipping -/

/-- The player may equip an item of the type in the slot. -/
def equips (data : EquipData) (s : EquippedPlayer) (slot : slots_t) (id : ℕ) : Prop :=
  ∃ moveEvent, data.getEvent .MOVE_EVENT_EQUIP id slot = some moveEvent ∧
    s.canWield moveEvent = true

/-- What comes of equipping an item: the modifiers are right, and if the slot is enabled, the
item does not turn into anything else. -/
structure Equipped (data : EquipData) (can : ℕ → Prop) (item : ℕ) (slot : slots_t)
    (extra : Bonus) (s t : EquippedPlayer) : Prop where
  owes : t.Owes data extra
  kept : Kept item slot s t
  turned : Relation.ReflTransGen (data.Turns can) (s.itemId item) (t.itemId item)
  last : t.inventoryAbilities slot = true → (data.items (t.itemId item)).transformEquipTo = 0

theorem Equipped.of_disabled (howes : s.Owes data extra)
    (hdisabled : s.inventoryAbilities slot = false) : Equipped data can item slot extra s s where
  owes := howes
  kept := Kept.refl
  turned := .refl
  last henabled := by
    rw [hdisabled] at henabled
    cases henabled

/-- Then a type without a bonus of its own adds nothing. -/
theorem Equipped.pass (h : Equipped data can item slot extra s t) (hadds : Adds t u {}) :
    Equipped data can item slot extra s u where
  owes := h.owes.pass hadds
  kept := h.kept.trans (Kept.of_same hadds.same)
  turned := by
    rw [hadds.same.itemId]
    exact h.turned
  last henabled := by
    rw [hadds.same.inventoryAbilities] at henabled
    rw [hadds.same.itemId]
    exact h.last henabled

theorem bonusAt_of_item (henabled : s.inventoryAbilities slot = true)
    (hitem : s.inventory slot = some item) :
    s.bonusAt data slot = typeBonus data (getDefaultStats s.player) (s.itemId item) := by
  unfold bonusAt
  rw [henabled, hitem]
  rfl

theorem setItemAbility_self (s : EquippedPlayer) (slot : slots_t) (enabled : Bool) :
    (s.setItemAbility slot enabled).inventoryAbilities slot = enabled :=
  Function.update_self _ _ _

theorem kept_setID (newId : ℕ) : Kept item slot s (s.setID item newId) where
  inventory := rfl
  enabled _ _ := rfl
  itemId _ hne := Function.update_of_ne hne _ _
  nextItem := rfl
  base := rfl

theorem kept_setItemAbility (enabled : Bool) :
    Kept item slot s (s.setItemAbility slot enabled) where
  inventory := rfl
  enabled _ hne := Function.update_of_ne hne _ _
  itemId _ _ := rfl
  nextItem := rfl
  base := rfl

/-- An item in a slot that is not enabled has another type. -/
theorem Owes.setID (h : s.Owes data extra) (hs : s.WellFormed)
    (hitem : s.inventory slot = some item) (hdisabled : s.inventoryAbilities slot = false)
    (newId : ℕ) : (s.setID item newId).Owes data extra := by
  refine h.congr rfl rfl rfl rfl fun other => ?_
  by_cases heq : other = slot
  · have hdisabled' : (s.setID item newId).inventoryAbilities slot = false := hdisabled
    rw [heq, bonusAt_of_disabled hdisabled, bonusAt_of_disabled hdisabled']
  · exact (kept_setID newId).bonusAt hs hitem heq

/-- The induction is on the depth: the item turns into the next one in the notification of
the one before, which then adds nothing. -/
theorem equip_spec (depth : ℕ) : ∀ s : EquippedPlayer, s.WellFormed →
    s.inventory slot = some item → s.inventoryAbilities slot = false →
    (∀ id, s.equips data slot id → can id) →
    data.Passes (getDefaultStats s.player) can (s.itemId item) → s.Owes data extra →
    notification data depth .MOVE_EVENT_EQUIP s item slot = some t →
    Equipped data can item slot extra s t := by
  induction depth generalizing t with
  | zero => exact fun s _ _ _ _ _ _ h => nomatch h
  | succ depth ih =>
    intro s hs hitem hdisabled hcan hpasses howes h
    unfold notification onPlayerEquip at h
    split at h
    next => exact Option.some.inj h ▸ Equipped.of_disabled howes hdisabled
    next moveEvent hevent =>
      unfold EquipItem at h
      rw [hdisabled, if_neg Bool.false_ne_true] at h
      split at h
      next => exact Option.some.inj h ▸ Equipped.of_disabled howes hdisabled
      next hwield =>
        have hequips : s.equips data slot (s.itemId item) :=
          ⟨moveEvent, hevent, by simpa using hwield⟩
        dsimp only at h
        obtain ⟨s', hs', ht⟩ := Option.map_eq_some_iff.mp h
        have hadds : Adds s' t (bonusOf data (getDefaultStats s'.player)
            (data.items (s.itemId item)).abilities) := by
          rw [← ht]
          exact adds_abilities data s' (data.items (s.itemId item)).abilities
        by_cases hlast : (data.items (s.itemId item)).transformEquipTo = 0
        · rw [if_neg (not_not.mpr hlast)] at hs'
          obtain rfl := Option.some.inj hs'
          have hitem' : (s.setItemAbility slot true).inventory slot = some item := hitem
          have hbonus : (s.setItemAbility slot true).bonusAt data slot = _ :=
            bonusAt_of_item (setItemAbility_self s slot true) hitem'
          exact
            { owes := howes.enable hdisabled (hbonus ▸ hadds)
              kept := (kept_setItemAbility true).trans (Kept.of_same hadds.same)
              turned := by
                rw [hadds.same.itemId]
                exact .refl
              last := fun _ => by
                rw [hadds.same.itemId]
                exact hlast }
        · rw [if_pos hlast] at hs'
          obtain ⟨hnothing, hkind⟩ := hpasses _ .refl (hcan _ hequips) hlast
          rcases transformItem_cases hs hitem hdisabled hkind hs' with
            ⟨-, rfl⟩ | ⟨hleaves, hnext⟩
          · exact (Equipped.of_disabled howes hdisabled).pass (hnothing ▸ hadds)
          · have hturns : data.Turns can (s.itemId item)
                (data.items (s.itemId item)).transformEquipTo :=
              ⟨hcan _ hequips, rfl, hlast, hleaves⟩
            have hself : (s.setID item (data.items (s.itemId item)).transformEquipTo).itemId
                item = (data.items (s.itemId item)).transformEquipTo :=
              Function.update_self _ _ _
            have hkept : Kept item slot s
                (s.setID item (data.items (s.itemId item)).transformEquipTo) := kept_setID _
            have hrest := ih _ (hkept.wellFormed hs) hitem hdisabled hcan
              (hself.symm ▸ hpasses.turned (.single hturns))
              (howes.setID hs hitem hdisabled _) hnext
            have hbase : getDefaultStats s'.player = getDefaultStats s.player :=
              hrest.kept.base
            have hadds' : Adds s' t {} := by
              rw [hbase] at hadds
              exact hnothing ▸ hadds
            have hpass := hrest.pass hadds'
            exact
              { owes := hpass.owes
                kept := hkept.trans hpass.kept
                turned := .head hturns (hself ▸ hpass.turned)
                last := hpass.last }

/-- Either the slot is enabled already, or the item is equipped. -/
theorem postAdd_owes (hs : s.WellFormed) (hitem : s.inventory slot = some item)
    (hcan : ∀ id, s.equips data slot id → can id)
    (hpasses : s.inventoryAbilities slot = false →
      data.Passes (getDefaultStats s.player) can (s.itemId item))
    (howes : s.Owes data {}) (h : notification data depth .MOVE_EVENT_EQUIP s item slot = some t) :
    t.WellFormed ∧ t.Owes data {} := by
  cases henabled : s.inventoryAbilities slot with
  | true =>
    obtain rfl := equip_enabled henabled h
    exact ⟨hs, howes⟩
  | false =>
    have hequipped := equip_spec depth s hs hitem henabled hcan (hpasses henabled) howes h
    exact ⟨hequipped.kept.wellFormed hs, hequipped.owes⟩

/-! ## Taking off -/

theorem deEquip_noEvent (hevent : data.getEvent .MOVE_EVENT_DEEQUIP (s.itemId item) slot = none)
    (h : notification data depth .MOVE_EVENT_DEEQUIP s item slot = some t) : t = s := by
  cases depth with
  | zero => cases h
  | succ depth =>
    unfold notification onPlayerDeEquip at h
    rw [hevent] at h
    exact (Option.some.inj h).symm

/-- What an item of the type `id` turns into in a slot of the player shares no suppression with
it. -/
def TurnsBack (data : EquipData) (base : stats_t → ℤ) (can : ℕ → Prop) (id newId : ℕ) : Prop :=
  data.SameKind id newId ∧ data.Passes base can newId ∧
    ∀ id', Relation.ReflTransGen (data.Turns can) newId id' →
      (data.items id').transformEquipTo = 0 →
        (typeBonus data base id).suppressions &&& (typeBonus data base id').suppressions = 0

/-- What comes of taking an item off: what it has turned into may be equipped next. -/
structure DeEquipped (data : EquipData) (can : ℕ → Prop) (item : ℕ) (slot : slots_t)
    (s t : EquippedPlayer) : Prop where
  owes : t.Owes data {}
  inventory : t.inventory = s.inventory
  nextItem : t.nextItem = s.nextItem
  base : getDefaultStats t.player = getDefaultStats s.player
  enabled : ∀ other, other ≠ slot → s.inventoryAbilities other = true →
    t.inventoryAbilities other = true
  turned : t.itemId item = s.itemId item ∨
    data.Passes (getDefaultStats s.player) can (t.itemId item)

theorem DeEquipped.wellFormed (h : DeEquipped data can item slot s t) (hs : s.WellFormed) :
    t.WellFormed where
  distinct := h.inventory ▸ hs.distinct
  old := h.inventory ▸ h.nextItem ▸ hs.old

theorem deEquip_spec (hs : s.WellFormed) (henabled : s.inventoryAbilities slot = true)
    (hevent : data.getEvent .MOVE_EVENT_DEEQUIP (s.itemId item) slot ≠ none)
    (howes : (s.setItemAbility slot false).Owes data
      (typeBonus data (getDefaultStats s.player) (s.itemId item)))
    (hdisjoint : ∀ other, (typeBonus data (getDefaultStats s.player)
      (s.itemId item)).suppressions &&&
        ((s.setItemAbility slot false).bonusAt data other).suppressions = 0)
    (hback : ∀ place, s.inventory place = some item →
      (data.items (s.itemId item)).transformDeEquipTo ≠ 0 →
      ¬data.Leaves (s.itemId item) (data.items (s.itemId item)).transformDeEquipTo →
        (s.setItemAbility slot false).inventoryAbilities place = false ∧
          (∀ id, s.equips data place id → can id) ∧ TurnsBack data (getDefaultStats s.player) can
            (s.itemId item) (data.items (s.itemId item)).transformDeEquipTo)
    (h : notification data depth .MOVE_EVENT_DEEQUIP s item slot = some t) :
    DeEquipped data can item slot s t := by
  cases depth with
  | zero => cases h
  | succ depth =>
    unfold notification onPlayerDeEquip at h
    split at h
    next hnone => exact absurd hnone hevent
    next =>
      unfold DeEquipItem at h
      rw [henabled, Bool.not_true, if_neg Bool.false_ne_true] at h
      dsimp only at h
      obtain ⟨s', hs', ht⟩ := Option.map_eq_some_iff.mp h
      have hremoves : Removes s' t (bonusOf data (getDefaultStats s'.player)
          (data.items (s.itemId item)).abilities) := by
        rw [← ht]
        exact removes_abilities data s' (data.items (s.itemId item)).abilities
      have hstay : s' = s.setItemAbility slot false → DeEquipped data can item slot s t := by
        rintro rfl
        exact
          { owes := howes.settle hremoves hdisjoint
            inventory := hremoves.same.inventory
            nextItem := hremoves.same.nextItem
            base := hremoves.same.base
            enabled := fun other hne hother => by
              rw [hremoves.same.inventoryAbilities]
              exact (Function.update_of_ne hne _ _).trans hother
            turned := .inl (congrFun hremoves.same.itemId item) }
      change (if (data.items (s.itemId item)).transformDeEquipTo ≠ 0 then
        transformItem data (notification data depth) (s.setItemAbility slot false) item
          (data.items (s.itemId item)).transformDeEquipTo
        else some (s.setItemAbility slot false)) = some s' at hs'
      by_cases hlast : (data.items (s.itemId item)).transformDeEquipTo = 0
      · rw [if_neg (not_not.mpr hlast)] at hs'
        exact hstay (Option.some.inj hs').symm
      rw [if_pos hlast] at hs'
      by_cases hleaves :
          data.Leaves (s.itemId item) (data.items (s.itemId item)).transformDeEquipTo
      · exact hstay (transformItem_stays (.inl hleaves) hs')
      by_cases hplaced : ∃ place, s.inventory place = some item
      · -- the item is in a slot, and it is equipped there as what it turns into
        obtain ⟨place, hitem⟩ := hplaced
        obtain ⟨hdisabled, hcan, hkind, hpasses, hshared⟩ := hback place hitem hlast hleaves
        have hs₀ : (s.setItemAbility slot false).WellFormed := ⟨hs.distinct, hs.old⟩
        rcases transformItem_cases hs₀ hitem hdisabled (.inr hkind) hs' with
          ⟨hno, -⟩ | ⟨-, hnext⟩
        · exact absurd hno hleaves
        have hkept : Kept item place (s.setItemAbility slot false)
            ((s.setItemAbility slot false).setID item
              (data.items (s.itemId item)).transformDeEquipTo) := kept_setID _
        have hself : ((s.setItemAbility slot false).setID item
            (data.items (s.itemId item)).transformDeEquipTo).itemId item =
              (data.items (s.itemId item)).transformDeEquipTo := Function.update_self _ _ _
        have hequipped := equip_spec depth _ (hkept.wellFormed hs₀) hitem hdisabled hcan
          (hself.symm ▸ hpasses) (howes.setID hs₀ hitem hdisabled _) hnext
        have hkept' := hkept.trans hequipped.kept
        have hbase : getDefaultStats s'.player = getDefaultStats s.player := hkept'.base
        rw [hbase] at hremoves
        have hdisjoint' : ∀ other, (typeBonus data (getDefaultStats s.player)
            (s.itemId item)).suppressions &&& (s'.bonusAt data other).suppressions = 0 := by
          intro other
          by_cases heq : other = place
          · subst heq
            cases henabled' : s'.inventoryAbilities other with
            | false =>
              rw [bonusAt_of_disabled henabled']
              exact BitVec.and_zero
            | true =>
              have hitem' : s'.inventory other = some item :=
                (congrFun hkept'.inventory other).trans hitem
              rw [bonusAt_of_item henabled' hitem', hbase]
              exact hshared _ (hself ▸ hequipped.turned) (hequipped.last henabled')
          · rw [hkept'.bonusAt hs₀ hitem heq]
            exact hdisjoint other
        exact
          { owes := hequipped.owes.settle hremoves hdisjoint'
            inventory := hremoves.same.inventory.trans hkept'.inventory
            nextItem := hremoves.same.nextItem.trans hkept'.nextItem
            base := hremoves.same.base.trans hbase
            enabled := fun other hne hother => by
              have hplace : other ≠ place := by
                rintro rfl
                exact nomatch (((Function.update_of_ne hne _ _).trans hother).symm.trans
                  hdisabled : true = false)
              rw [hremoves.same.inventoryAbilities, hkept'.enabled other hplace]
              exact (Function.update_of_ne hne _ _).trans hother
            turned := by
              rw [hremoves.same.itemId]
              exact .inr (hpasses.turned (hself ▸ hequipped.turned)) }
      · exact hstay (transformItem_stays (.inr (not_exists.mp hplaced)) hs')

end Notifications

/-! ## The steps that keep the balance -/

section Guards

variable (data : EquipData)

/-- An event for equipping items of the type in the slot exists. -/
def mayEquip (slot : slots_t) (id : ℕ) : Prop :=
  data.getEvent .MOVE_EVENT_EQUIP id slot ≠ none

/-- An item of the type `id` is taken off: no other enabled slot shares a suppression with it,
and where it turns into something else in a slot of the player, that does not either. -/
def TakesOff (s : EquippedPlayer) (can : slots_t → ℕ → Prop) (slot : slots_t)
    (place : Option slots_t) (id : ℕ) : Prop :=
  (∀ other, other ≠ slot → (typeBonus data (getDefaultStats s.player) id).suppressions &&&
    (s.bonusAt data other).suppressions = 0) ∧
  ∀ slot', place = some slot' → (data.items id).transformDeEquipTo ≠ 0 →
    ¬data.Leaves id (data.items id).transformDeEquipTo →
      (slot' ≠ slot → s.inventoryAbilities slot' = false) ∧
        TurnsBack data (getDefaultStats s.player) (can slot') id
          (data.items id).transformDeEquipTo

/-- What is put into a slot turns into something else only where it has no bonus of its own;
into a slot that has been left enabled comes only what has no bonus at all.  What leaves an
enabled slot has an event that takes its bonus away again, and shares no suppression with the
rest; the other stats that percentages are taken of change only so that their sum does not. -/
def Guarded (s : EquippedPlayer) : Action → Prop
  | .addThing slot id =>
    (s.inventoryAbilities slot = true → typeBonus data (getDefaultStats s.player) id = {}) ∧
    (s.inventoryAbilities slot = false →
      data.Passes (getDefaultStats s.player) (s.equips data slot) id)
  | .moveThing slot toSlot => ∀ item, s.inventory slot = some item →
      (s.inventoryAbilities slot = true →
        (data.getEvent .MOVE_EVENT_DEEQUIP (s.itemId item) slot = none →
          typeBonus data (getDefaultStats s.player) (s.itemId item) = {}) ∧
        (data.getEvent .MOVE_EVENT_DEEQUIP (s.itemId item) slot ≠ none →
          TakesOff data s (mayEquip data) slot toSlot (s.itemId item))) ∧
      ∀ slot', toSlot = some slot' →
        (s.inventoryAbilities slot' = true →
          typeBonus data (getDefaultStats s.player) (s.itemId item) = {}) ∧
        (s.inventoryAbilities slot' = false →
          data.Passes (getDefaultStats s.player) (mayEquip data slot') (s.itemId item))
  | .updateThing .MOVE_EVENT_EQUIP slot => ∀ item, s.inventory slot = some item →
      s.inventoryAbilities slot = false →
        data.Passes (getDefaultStats s.player) (s.equips data slot) (s.itemId item)
  | .updateThing .MOVE_EVENT_DEEQUIP slot => ∀ item, s.inventory slot = some item →
      s.inventoryAbilities slot = true →
        data.getEvent .MOVE_EVENT_DEEQUIP (s.itemId item) slot ≠ none →
          TakesOff data s (s.equips data) slot (some slot) (s.itemId item)
  | .advance level baseSpeed healthMax manaMax magLevel skillLevel =>
    ∑ slot, ((s.advance level baseSpeed healthMax manaMax magLevel skillLevel).bonusAt data
      slot).stats = ∑ slot, (s.bonusAt data slot).stats

end Guards

section Steps

variable {data : EquipData} {depth : ℕ} {s t : EquippedPlayer}

theorem wellFormed_setInventory_none (hs : s.WellFormed) (slot : slots_t) :
    (s.setInventory slot none).WellFormed where
  distinct slot₁ slot₂ item h₁ h₂ := by
    unfold setInventory at h₁ h₂
    dsimp only at h₁ h₂
    have hne : ∀ slot', Function.update s.inventory slot none slot' = some item →
        s.inventory slot' = some item := by
      intro slot' hitem
      by_cases heq : slot' = slot
      · rw [heq, Function.update_self] at hitem
        cases hitem
      · rwa [Function.update_of_ne heq] at hitem
    exact hs.distinct slot₁ slot₂ item (hne slot₁ h₁) (hne slot₂ h₂)
  old slot' item h := by
    unfold setInventory at h
    dsimp only at h
    by_cases heq : slot' = slot
    · rw [heq, Function.update_self] at h
      cases h
    · rw [Function.update_of_ne heq] at h
      exact hs.old slot' item h

/-- An item that is in no slot is put into one. -/
theorem wellFormed_setInventory_some (hs : s.WellFormed) {item : ℕ} (hlt : item < s.nextItem)
    (hfree : ∀ slot, s.inventory slot ≠ some item) (slot : slots_t) :
    (s.setInventory slot (some item)).WellFormed where
  distinct slot₁ slot₂ item' h₁ h₂ := by
    unfold setInventory at h₁ h₂
    dsimp only at h₁ h₂
    by_cases heq₁ : slot₁ = slot
    · by_cases heq₂ : slot₂ = slot
      · exact heq₁.trans heq₂.symm
      · rw [heq₁, Function.update_self] at h₁
        rw [Function.update_of_ne heq₂, ← h₁] at h₂
        exact absurd h₂ (hfree slot₂)
    · rw [Function.update_of_ne heq₁] at h₁
      by_cases heq₂ : slot₂ = slot
      · rw [heq₂, Function.update_self] at h₂
        rw [← h₂] at h₁
        exact absurd h₁ (hfree slot₁)
      · rw [Function.update_of_ne heq₂] at h₂
        exact hs.distinct slot₁ slot₂ item' h₁ h₂
  old slot' item' h := by
    unfold setInventory at h
    dsimp only at h
    by_cases heq : slot' = slot
    · rw [heq, Function.update_self] at h
      obtain rfl := Option.some.inj h
      exact hlt
    · rw [Function.update_of_ne heq] at h
      exact hs.old slot' item' h

theorem wellFormed_createItem (hs : s.WellFormed) (id : ℕ) : (s.createItem id).WellFormed :=
  ⟨hs.distinct, fun slot item h => (hs.old slot item h).trans (Nat.lt_succ_self _)⟩

/-- An item in a slot that adds no bonus there. -/
theorem bonusAt_setInventory {slot : slots_t} {item : ℕ}
    (hnothing : s.inventoryAbilities slot = true →
      typeBonus data (getDefaultStats s.player) (s.itemId item) = {}) :
    (s.setInventory slot (some item)).bonusAt data slot = {} := by
  cases henabled : s.inventoryAbilities slot with
  | false =>
    have henabled' : (s.setInventory slot (some item)).inventoryAbilities slot = false := henabled
    exact bonusAt_of_disabled henabled'
  | true =>
    have henabled' : (s.setInventory slot (some item)).inventoryAbilities slot = true := henabled
    have hitem : (s.setInventory slot (some item)).inventory slot = some item :=
      Function.update_self _ _ _
    exact (bonusAt_of_item henabled' hitem).trans (hnothing henabled)

theorem bonusAt_setInventory_of_ne {slot other : slots_t} (hne : other ≠ slot)
    (item : Option ℕ) : (s.setInventory slot item).bonusAt data other = s.bonusAt data other :=
  bonusAt_congr rfl (Function.update_of_ne hne _ _) (fun _ _ => rfl) rfl

theorem owes_addThing (hs : s.WellFormed) (howes : s.Owes data {}) {slot : slots_t} {id : ℕ}
    (hguard : s.Guarded data (.addThing slot id))
    (hstep : s.step data depth (.addThing slot id) = some t) : t.WellFormed ∧ t.Owes data {} := by
  unfold step at hstep
  dsimp only at hstep
  split at hstep
  next hempty =>
    have hself : (s.createItem id).itemId s.nextItem = id := Function.update_self _ _ _
    have hcreate : ∀ other, (s.createItem id).bonusAt data other = s.bonusAt data other :=
      fun other => bonusAt_congr rfl rfl (fun item hitem =>
        Function.update_of_ne (hs.old other item hitem).ne _ _) rfl
    have hwell : ((s.createItem id).setInventory slot (some s.nextItem)).WellFormed := by
      refine wellFormed_setInventory_some (wellFormed_createItem hs id) (Nat.lt_succ_self _) ?_ slot
      exact fun slot' hitem => (hs.old slot' _ hitem).false
    have howes' : ((s.createItem id).setInventory slot (some s.nextItem)).Owes data {} := by
      refine howes.congr rfl rfl rfl rfl fun other => ?_
      by_cases heq : other = slot
      · rw [heq, bonusAt_of_none hempty]
        refine bonusAt_setInventory fun henabled => ?_
        rw [hself]
        exact hguard.1 henabled
      · rw [bonusAt_setInventory_of_ne heq, hcreate]
    exact postAdd_owes hwell (Function.update_self _ _ _) (fun id' hequips => hequips)
      (fun hdisabled => hself.symm ▸ hguard.2 hdisabled) howes' hstep
  next => cases hstep

section TakingOff

variable {item : ℕ} {slot : slots_t} {inventory : slots_t → Option ℕ}

/-- The item may have moved already; with its slot its bonus no longer belongs to the sums. -/
theorem owes_disabled (howes : s.Owes data {}) (hitem : s.inventory slot = some item)
    (henabled : s.inventoryAbilities slot = true)
    (hother : ∀ other, other ≠ slot →
      ({ s with inventory } : EquippedPlayer).bonusAt data other = s.bonusAt data other) :
    (({ s with inventory } : EquippedPlayer).setItemAbility slot false).Owes data
      (typeBonus data (getDefaultStats s.player) (s.itemId item)) := by
  rw [← bonusAt_of_item henabled hitem]
  refine howes.take (t := ({ s with inventory } : EquippedPlayer).setItemAbility slot false)
    rfl rfl rfl rfl slot (fun other hne => ?_) ?_
  · rw [bonusAt_setItemAbility hne, hother other hne]
  · exact bonusAt_of_disabled (setItemAbility_self _ slot false)

/-- No slot that stays enabled shares a suppression with the item. -/
theorem disjoint_disabled {can : slots_t → ℕ → Prop} {place : Option slots_t}
    (htakes : s.TakesOff data can slot place (s.itemId item))
    (hother : ∀ other, other ≠ slot →
      ({ s with inventory } : EquippedPlayer).bonusAt data other = s.bonusAt data other)
    (other : slots_t) :
    (typeBonus data (getDefaultStats s.player) (s.itemId item)).suppressions &&&
      ((({ s with inventory } : EquippedPlayer).setItemAbility slot false).bonusAt data
        other).suppressions = 0 := by
  by_cases heq : other = slot
  · rw [heq, bonusAt_of_disabled (setItemAbility_self _ slot false)]
    exact BitVec.and_zero
  · rw [bonusAt_setItemAbility heq, hother other heq]
    exact htakes.1 other heq

theorem deEquipped_refl {can : ℕ → Prop} (howes : s.Owes data {}) :
    DeEquipped data can item slot s s :=
  ⟨howes, rfl, rfl, rfl, fun _ _ => id, .inl rfl⟩

/-- The item has left its slot, for the slot `place` if there is one. -/
theorem deEquip_moved {can : ℕ → Prop} {place : Option slots_t}
    (hs : ({ s with inventory } : EquippedPlayer).WellFormed) (howes : s.Owes data {})
    (hitem : s.inventory slot = some item) (hnone : inventory slot = none)
    (hother : ∀ other, other ≠ slot →
      ({ s with inventory } : EquippedPlayer).bonusAt data other = s.bonusAt data other)
    (hplace : ∀ slot', inventory slot' = some item → place = some slot' ∧
      can = mayEquip data slot')
    (hguard : s.inventoryAbilities slot = true →
      (data.getEvent .MOVE_EVENT_DEEQUIP (s.itemId item) slot = none →
        typeBonus data (getDefaultStats s.player) (s.itemId item) = {}) ∧
      (data.getEvent .MOVE_EVENT_DEEQUIP (s.itemId item) slot ≠ none →
        s.TakesOff data (mayEquip data) slot place (s.itemId item)))
    (h : notification data depth .MOVE_EVENT_DEEQUIP { s with inventory } item slot = some t) :
    DeEquipped data can item slot { s with inventory } t := by
  have hempty : ({ s with inventory } : EquippedPlayer).bonusAt data slot = {} :=
    bonusAt_of_none hnone
  have hstay : s.bonusAt data slot = {} →
      ({ s with inventory } : EquippedPlayer).Owes data {} := by
    intro hzero
    refine howes.congr rfl rfl rfl rfl fun other => ?_
    by_cases heq : other = slot
    · rw [heq, hempty, hzero]
    · exact hother other heq
  cases henabled : s.inventoryAbilities slot with
  | false =>
    obtain rfl := deEquip_disabled (s := { s with inventory }) henabled h
    exact deEquipped_refl (hstay (bonusAt_of_disabled henabled))
  | true =>
    obtain ⟨hnothing, htakes⟩ := hguard henabled
    by_cases hevent : data.getEvent .MOVE_EVENT_DEEQUIP (s.itemId item) slot = none
    · obtain rfl := deEquip_noEvent (s := { s with inventory }) hevent h
      exact deEquipped_refl (hstay ((bonusAt_of_item henabled hitem).trans (hnothing hevent)))
    · have htakes := htakes hevent
      refine deEquip_spec hs henabled hevent (owes_disabled howes hitem henabled hother)
        (disjoint_disabled (s := s) htakes hother) (fun slot' hslot' hlast hleaves => ?_) h
      obtain ⟨hplace', rfl⟩ := hplace slot' hslot'
      obtain ⟨hdisabled, hback⟩ := htakes.2 slot' hplace' hlast hleaves
      have hne : slot' ≠ slot := by
        rintro rfl
        exact nomatch hnone.symm.trans hslot'
      refine ⟨?_, fun id hequips => ?_, hback⟩
      · exact (Function.update_of_ne hne _ _).trans (hdisabled hne)
      · obtain ⟨moveEvent, hmove, -⟩ := hequips
        unfold mayEquip
        rw [hmove]
        exact Option.some_ne_none _

end TakingOff

theorem owes_moveThing (hs : s.WellFormed) (howes : s.Owes data {}) {slot : slots_t}
    {toSlot : Option slots_t} (hguard : s.Guarded data (.moveThing slot toSlot))
    (hstep : s.step data depth (.moveThing slot toSlot) = some t) :
    t.WellFormed ∧ t.Owes data {} := by
  unfold step at hstep
  dsimp only at hstep
  cases hitem : s.inventory slot with
  | none =>
    rw [hitem] at hstep
    cases hstep
  | some item =>
    obtain ⟨hleaves, harrives⟩ := hguard item hitem
    rw [hitem] at hstep
    have hleft : ∀ slot', (s.setInventory slot none).inventory slot' ≠ some item := by
      intro slot' hslot'
      unfold setInventory at hslot'
      dsimp only at hslot'
      by_cases heq : slot' = slot
      · rw [heq, Function.update_self] at hslot'
        cases hslot'
      · rw [Function.update_of_ne heq] at hslot'
        exact heq (hs.distinct slot' slot item hslot' hitem)
    cases toSlot with
    | none =>
      have hoff : DeEquipped data (fun _ => True) item slot (s.setInventory slot none) t :=
        deEquip_moved (wellFormed_setInventory_none hs slot) howes hitem
          (Function.update_self _ _ _)
          (fun other hne => bonusAt_setInventory_of_ne hne none)
          (fun slot' hslot' => absurd hslot' (hleft slot')) hleaves hstep
      exact ⟨hoff.wellFormed (wellFormed_setInventory_none hs slot), hoff.owes⟩
    | some slot' =>
      obtain ⟨hnothing, hpasses⟩ := harrives slot' rfl
      dsimp only at hstep
      split at hstep
      next hempty =>
        obtain ⟨u, hu, hstep⟩ := Option.bind_eq_some_iff.mp hstep
        have hne : slot ≠ slot' := by
          rintro rfl
          exact nomatch hempty.symm.trans hitem
        have hmoved : ((s.setInventory slot none).setInventory slot'
            (some item)).WellFormed :=
          wellFormed_setInventory_some (wellFormed_setInventory_none hs slot)
            (hs.old slot item hitem) hleft slot'
        have hself : ((s.setInventory slot none).setInventory slot' (some item)).inventory
            slot' = some item := Function.update_self _ _ _
        have hoff : DeEquipped data (mayEquip data slot') item slot
            ((s.setInventory slot none).setInventory slot' (some item)) u := by
          refine deEquip_moved (s := s) hmoved howes hitem ?_ (fun other hother => ?_)
            (fun slot'' hslot'' => ?_) hleaves hu
          · exact (Function.update_of_ne hne _ _).trans (Function.update_self _ _ _)
          · by_cases heq : other = slot'
            · rw [heq, bonusAt_of_none hempty]
              exact bonusAt_setInventory (s := s.setInventory slot none) hnothing
            · exact (bonusAt_setInventory_of_ne heq _).trans
                (bonusAt_setInventory_of_ne hother none)
          · obtain rfl := hmoved.distinct slot'' slot' item hslot'' hself
            exact ⟨rfl, rfl⟩
        have hwell := hoff.wellFormed hmoved
        have hitem' : u.inventory slot' = some item :=
          (congrFun hoff.inventory slot').trans hself
        have hcan : ∀ id, u.equips data slot' id → mayEquip data slot' id := by
          rintro id ⟨moveEvent, hmove, -⟩
          unfold mayEquip
          rw [hmove]
          exact Option.some_ne_none _
        rw [hwell.getThingIndex hitem'] at hstep
        refine postAdd_owes hwell hitem' hcan (fun hdisabled => ?_) hoff.owes hstep
        · rw [hoff.base]
          rcases hoff.turned with hsame | hturned
          · rw [hsame]
            refine hpasses ?_
            cases henabled : s.inventoryAbilities slot' with
            | false => rfl
            | true => exact nomatch (hoff.enabled slot' hne.symm henabled).symm.trans hdisabled
          · exact hturned
      next => cases hstep

theorem owes_updateThing (hs : s.WellFormed) (howes : s.Owes data {}) {slot : slots_t}
    {event : MoveEvent_t} (hguard : s.Guarded data (.updateThing event slot))
    (hstep : s.step data depth (.updateThing event slot) = some t) :
    t.WellFormed ∧ t.Owes data {} := by
  unfold step at hstep
  dsimp only at hstep
  cases hitem : s.inventory slot with
  | none =>
    rw [hitem] at hstep
    cases hstep
  | some item =>
    rw [hitem] at hstep
    cases event with
    | MOVE_EVENT_EQUIP =>
      exact postAdd_owes hs hitem (fun id hequips => hequips) (hguard item hitem) howes hstep
    | MOVE_EVENT_DEEQUIP =>
      cases henabled : s.inventoryAbilities slot with
      | false =>
        obtain rfl := deEquip_disabled henabled hstep
        exact ⟨hs, howes⟩
      | true =>
        by_cases hevent : data.getEvent .MOVE_EVENT_DEEQUIP (s.itemId item) slot = none
        · obtain rfl := deEquip_noEvent hevent hstep
          exact ⟨hs, howes⟩
        · have htakes := hguard item hitem henabled hevent
          have hoff : DeEquipped data (s.equips data slot) item slot s t := by
            refine deEquip_spec hs henabled hevent
              (owes_disabled (s := s) howes hitem henabled fun _ _ => rfl)
              (disjoint_disabled (s := s) htakes fun _ _ => rfl) ?_ hstep
            intro slot' hslot' hlast hturns
            obtain rfl := hs.distinct slot' slot item hslot' hitem
            obtain ⟨-, hback⟩ := htakes.2 slot' rfl hlast hturns
            exact ⟨setItemAbility_self s slot' false, fun id hequips => hequips, hback⟩
          exact ⟨hoff.wellFormed hs, hoff.owes⟩

/-- What percentages are taken of matters for stats only. -/
theorem bonusOf_base (base base' : stats_t → ℤ) (abilities : Option Abilities) :
    (bonusOf data base abilities).skills = (bonusOf data base' abilities).skills ∧
      (bonusOf data base abilities).speed = (bonusOf data base' abilities).speed ∧
      (bonusOf data base abilities).suppressions = (bonusOf data base' abilities).suppressions := by
  cases abilities <;> exact ⟨rfl, rfl, rfl⟩

/-- The stats that percentages are taken of have changed, and their sum has not. -/
theorem owes_rebase (howes : s.Owes data {}) (hplayer : t.player.varSkills = s.player.varSkills ∧
      t.player.varStats = s.player.varStats) (hvarSpeed : t.varSpeed = s.varSpeed)
    (hconditions : t.conditionSuppressions = s.conditionSuppressions)
    (hsame : ∀ slot, (t.bonusAt data slot).skills = (s.bonusAt data slot).skills ∧
      (t.bonusAt data slot).speed = (s.bonusAt data slot).speed ∧
      (t.bonusAt data slot).suppressions = (s.bonusAt data slot).suppressions)
    (hsum : ∑ slot, (t.bonusAt data slot).stats = ∑ slot, (s.bonusAt data slot).stats) :
    t.Owes data {} where
  skills := by
    simp only [hsame]
    exact hplayer.1.trans howes.skills
  stats := by
    rw [hsum]
    exact hplayer.2.trans howes.stats
  speed := by
    simp only [hsame]
    exact hvarSpeed.trans howes.speed
  suppressions bit := by
    rw [hconditions]
    simp only [hsame]
    exact howes.suppressions bit

theorem owes_advance (hs : s.WellFormed) (howes : s.Owes data {}) {level : ℕ}
    {baseSpeed healthMax manaMax magLevel : int32_t} {skillLevel : skills_t → ℕ}
    (hguard : s.Guarded data (.advance level baseSpeed healthMax manaMax magLevel skillLevel)) :
    (s.advance level baseSpeed healthMax manaMax magLevel skillLevel).WellFormed ∧
      (s.advance level baseSpeed healthMax manaMax magLevel skillLevel).Owes data {} := by
  have hsum : ∑ slot, ((s.advance level baseSpeed healthMax manaMax magLevel skillLevel).bonusAt
      data slot).stats = ∑ slot, (s.bonusAt data slot).stats := hguard
  refine ⟨⟨hs.distinct, hs.old⟩, owes_rebase howes ⟨rfl, rfl⟩ rfl rfl (fun slot => ?_) hsum⟩
  cases henabled : s.inventoryAbilities slot with
  | false =>
    have henabled' : (s.advance level baseSpeed healthMax manaMax magLevel
        skillLevel).inventoryAbilities slot = false := henabled
    rw [bonusAt_of_disabled henabled, bonusAt_of_disabled henabled']
    exact ⟨rfl, rfl, rfl⟩
  | true =>
    cases hitem : s.inventory slot with
    | none =>
      have hitem' : (s.advance level baseSpeed healthMax manaMax magLevel
          skillLevel).inventory slot = none := hitem
      rw [bonusAt_of_none hitem, bonusAt_of_none hitem']
      exact ⟨rfl, rfl, rfl⟩
    | some item =>
      have henabled' : (s.advance level baseSpeed healthMax manaMax magLevel
          skillLevel).inventoryAbilities slot = true := henabled
      have hitem' : (s.advance level baseSpeed healthMax manaMax magLevel
          skillLevel).inventory slot = some item := hitem
      rw [bonusAt_of_item henabled hitem, bonusAt_of_item henabled' hitem']
      exact bonusOf_base _ _ _

theorem owes_step (hs : s.WellFormed) (howes : s.Owes data {}) {a : Action}
    (hguard : s.Guarded data a) (hstep : s.step data depth a = some t) :
    t.WellFormed ∧ t.Owes data {} := by
  cases a with
  | addThing slot id => exact owes_addThing hs howes hguard hstep
  | moveThing slot toSlot => exact owes_moveThing hs howes hguard hstep
  | updateThing event slot => exact owes_updateThing hs howes hguard hstep
  | advance level baseSpeed healthMax manaMax magLevel skillLevel =>
    obtain rfl := Option.some.inj hstep
    exact owes_advance hs howes hguard

theorem owes_unequipped (data : EquipData) (s : EquippedPlayer) :
    s.unequipped.WellFormed ∧ s.unequipped.Owes data {} := by
  have hzero : ∀ slot, s.unequipped.bonusAt data slot = {} := fun slot => bonusAt_of_disabled rfl
  refine ⟨⟨fun _ _ _ h => (nomatch h), fun _ _ h => (nomatch h)⟩, ?_, ?_, ?_, fun bit => ?_⟩
  · rw [show s.unequipped.player.varSkills = 0 from rfl]
    simp [hzero]
  · rw [show s.unequipped.player.varStats = 0 from rfl]
    simp [hzero]
  · rw [show s.unequipped.varSpeed = 0 from rfl]
    simp [hzero]
  · rw [show s.unequipped.conditionSuppressions = 0 from rfl]
    simp [hzero]

end Steps

/-- In every run whose steps keep the balance, the modifiers are the sums over the enabled
slots in every state. -/
theorem always_sums_bonuses (data : EquipData) (depth : ℕ) (s : EquippedPlayer)
    (actions : List Action) (hguard : EachStep (step data depth) (Guarded data) s.unequipped
      actions) : Always (step data depth) (Balanced data) s.unequipped actions := by
  refine (always_of_eachStep (P := fun s => s.WellFormed ∧ s.Owes data {}) ?_ actions _
    (owes_unequipped data s) hguard).mono fun s hs => balanced_iff.mpr hs.2
  exact fun s a t hs hguard hstep => owes_step hs.1 hs.2 hguard hstep

/-- Two types of rings that turn into each other. -/
def ringData : EquipData where
  items id :=
    if id = 1 then { id, transformEquipTo := 2 }
    else if id = 2 then
      { id, transformDeEquipTo := 1, abilities := some { skills := fun _ => 5, speed := 20 } }
    else { id := 0 }
  getEvent _ _ _ := some {}
  percent base percent := BitVec.ofInt 32 ((base * (percent.toInt - 100)).tdiv 100)

/-- A ring is put on, the player advances, and the ring is taken off. -/
theorem always_sums_bonuses_ring : Always (step ringData 2) (Balanced ringData) (unequipped {})
    [.addThing .CONST_SLOT_RING 1, .advance 2 222 155 5 0 (fun _ => 10),
      .moveThing .CONST_SLOT_RING none] := by
  have hone : ∀ id, (ringData.items id).transformEquipTo ≠ 0 → id = 1 := by
    intro id hturns
    by_contra hne
    by_cases htwo : id = 2
    · exact hturns (by rw [htwo]; rfl)
    · exact hturns (by simp [ringData, hne, htwo])
  refine always_sums_bonuses ringData 2 {} _ fun _ ht => ⟨⟨fun h => (nomatch h), fun _ => ?_⟩, ?_⟩
  · intro id _ _ hturns
    rw [hone id hturns]
    exact ⟨rfl, .inr ⟨by decide, rfl, rfl⟩⟩
  · obtain rfl := Option.some.inj ht
    refine fun _ ht => ⟨?_, ?_⟩
    · refine Finset.sum_congr rfl fun slot _ => ?_
      cases slot <;> rfl
    · obtain rfl := Option.some.inj ht
      refine fun _ _ => ⟨fun item hitem => ?_, trivial⟩
      obtain rfl := Option.some.inj hitem
      refine ⟨fun _ => ⟨fun hno => (nomatch hno), fun _ => ⟨fun other _ => ?_, ?_⟩⟩, ?_⟩
      · exact BitVec.zero_and
      · exact fun _ h => nomatch h
      · exact fun _ h => nomatch h

/-- Of two items that suppress drunkenness one is taken off, and the suppression goes with it. -/
theorem shared_suppression_lost : ¬ ∀ (data : EquipData) (depth : ℕ) (s : EquippedPlayer)
    (actions : List Action), Always (step data depth) (Balanced data) s.unequipped actions := by
  intro h
  have hlast := (h
    { items := fun id => { id, abilities := some { conditionSuppressions := 2048 } }
      getEvent := fun _ _ _ => some {}
      percent := fun base percent =>
        BitVec.ofInt 32 ((base * (percent.toInt - 100)).tdiv 100) } 1 {}
    [.addThing .CONST_SLOT_HEAD 1, .addThing .CONST_SLOT_RING 2,
      .moveThing .CONST_SLOT_HEAD none]).last rfl
  have hbit := (hlast.suppressions 11).mpr ⟨.CONST_SLOT_RING, by decide⟩
  exact absurd hbit (by decide)

end EquippedPlayer

end TibiaServer.Players
