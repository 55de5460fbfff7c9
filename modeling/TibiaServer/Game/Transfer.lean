import TibiaServer.Game.Clones
/-!
# The second half of a move

Once the queries have let it go, a part of the item is taken up, merged into the
stack that was found as far as there is room on it, and the rest is added.  What
this does to the units is decided where the rest is added and by the stack.
-/

namespace TibiaServer.Game

open TibiaServer.Cylinders
open ReturnValue

section Queries

variable (t : State) (fromCylinder : Cylinder) (d : Destination) (item : ItemRef)

/-- `m`, how much of the item moves. -/
def movedCount (count : ℕ) : ℕ :=
  let maxQueryCount := (t.queryMaxCount d.cylinder d.index item count d.flags).2
  if t.isStackable item then min count maxQueryCount else maxQueryCount

/-- Every query of the second half lets the item go. -/
structure Goes (count : ℕ) (tradeItem : Option ItemRef) : Prop where
  room : ¬ ((t.queryMaxCount d.cylinder d.index item count d.flags).1 ≠ NOERROR ∧
    (t.queryMaxCount d.cylinder d.index item count d.flags).2 = 0)
  remove : t.queryRemove fromCylinder item (movedCount t d item count) d.flags = NOERROR
  trade : insideTradeItem t d tradeItem = false

/-- The stack that is merged into. -/
def mergeTarget (toItem : Option ItemRef) : Option ItemRef :=
  toItem.filter fun x => t.equals item (some x)

/-- What does not fit on that stack. -/
def restCount (toItem : Option ItemRef) (m : ℕ) : ℕ :=
  match mergeTarget t item toItem with
  | some x => m - mergedCount t x m
  | none => m

/-- The rest is kept if there is one: its clone is of its kind, and the destination
keeps what it has. -/
def RestKeeps (n : ℕ) : Prop :=
  0 < n → ClonesKind t item ∧ t.keeps d.cylinder d.index item

/-- With the item taken up, what moves is kept: the stack that was found keeps its kind,
and the rest is kept. -/
def TransferKeeps (toItem : Option ItemRef) (m : ℕ) : Prop :=
  if t.isStackable item then
    (∀ x, mergeTarget t item toItem = some x → t.mergedKind x = (t.item x).kind) ∧
      RestKeeps (t.removeThing fromCylinder item m) d item (restCount t item toItem m)
  else (t.removeThing fromCylinder item m).keeps d.cylinder d.index item

end Queries

section Halves

variable {t : State} {fromCylinder : Cylinder} {d : Destination} {item : ItemRef} {count m : ℕ}
  {toItem tradeItem : Option ItemRef}

theorem samePlaces_notifyMove (moved : State) (itemIndex : ℤ) (moveItem updateItem : Option ItemRef) :
    SamePlaces moved (notifyMove moved fromCylinder d itemIndex moveItem updateItem) := by
  have hnotify : ∀ (u : State) (c : Cylinder) (b : Prop) [Decidable b],
      SamePlaces u (if b then u.postNotification c else u) := by
    intro u c b _
    split
    · exact u.samePlaces_postNotification c
    · exact SamePlaces.refl u
  unfold notifyMove
  exact ((hnotify _ _ _).trans (hnotify _ _ _)).trans (hnotify _ _ _)

/-- The answer when a part could move: that of the destination if it is not all. -/
def partAnswer (t : State) (d : Destination) (item : ItemRef) (count : ℕ) : ReturnValue :=
  if t.isStackable item ∧
      (t.queryMaxCount d.cylinder d.index item count d.flags).2 < count then
    (t.queryMaxCount d.cylinder d.index item count d.flags).1
  else NOERROR

theorem moveAccepted_eq : moveAccepted t fromCylinder d item toItem count tradeItem =
    if (t.queryMaxCount d.cylinder d.index item count d.flags).1 ≠ NOERROR ∧
        (t.queryMaxCount d.cylinder d.index item count d.flags).2 = 0 then
      some { ret := (t.queryMaxCount d.cylinder d.index item count d.flags).1, state := t }
    else if t.queryRemove fromCylinder item (movedCount t d item count) d.flags ≠ NOERROR then
      some { ret := t.queryRemove fromCylinder item (movedCount t d item count) d.flags, state := t }
    else if insideTradeItem t d tradeItem then some { ret := NOTENOUGHROOM, state := t }
    else
      (transfer t fromCylinder d item toItem (movedCount t d item count)).map
        fun (moved, moveItem) =>
          { ret := partAnswer t d item count
            state := notifyMove moved fromCylinder d (t.getThingIndex fromCylinder item) moveItem
              (if t.isStackable item ∧ t.equals item toItem then toItem else none)
            moveItem := some (moveItem.getD item) } := rfl

/-- The second half either refuses and changes nothing, or carries out the transfer. -/
theorem moveAccepted_cases {r : MoveResult}
    (h : moveAccepted t fromCylinder d item toItem count tradeItem = some r) :
    (¬ Goes t fromCylinder d item count tradeItem ∧ r.ret ≠ NOERROR ∧ r.state = t) ∨
      (Goes t fromCylinder d item count tradeItem ∧ ∃ moved moveItem,
        transfer t fromCylinder d item toItem (movedCount t d item count) =
          some (moved, moveItem) ∧ SamePlaces moved r.state ∧
        r.ret = partAnswer t d item count) := by
  rw [moveAccepted_eq] at h
  split at h
  next hroom =>
    refine Or.inl ⟨fun hgoes => hgoes.room hroom, ?_⟩
    rw [← Option.some.inj h]
    exact ⟨hroom.1, rfl⟩
  split at h
  next hremove =>
    refine Or.inl ⟨fun hgoes => hremove hgoes.remove, ?_⟩
    rw [← Option.some.inj h]
    exact ⟨hremove, rfl⟩
  split at h
  next htrade =>
    refine Or.inl ⟨fun hgoes => ?_, ?_⟩
    · rw [hgoes.trade] at htrade
      cases htrade
    · rw [← Option.some.inj h]
      exact ⟨by simp, rfl⟩
  next hroom hremove htrade =>
    obtain ⟨⟨moved, moveItem⟩, htransfer, hr⟩ := Option.map_eq_some_iff.mp h
    refine Or.inr ⟨⟨hroom, not_not.mp hremove, by simpa using htrade⟩, moved, moveItem,
      htransfer, ?_⟩
    rw [← hr]
    exact ⟨samePlaces_notifyMove _ _ _ _, rfl⟩

/-- Where the queries let the item go, the transfer decides. -/
theorem moveAccepted_of_goes (hgoes : Goes t fromCylinder d item count tradeItem) {moved : State}
    {moveItem : Option ItemRef}
    (h : transfer t fromCylinder d item toItem (movedCount t d item count) =
      some (moved, moveItem)) :
    ∃ r, moveAccepted t fromCylinder d item toItem count tradeItem = some r ∧
      SamePlaces moved r.state := by
  rw [moveAccepted_eq, if_neg hgoes.room, if_neg (not_not.mpr hgoes.remove),
    if_neg (by simp [hgoes.trade]), h]
  exact ⟨_, rfl, samePlaces_notifyMove _ _ _ _⟩

theorem moveAccepted_of_not_goes (hno : ¬ Goes t fromCylinder d item count tradeItem) :
    ∃ r, moveAccepted t fromCylinder d item toItem count tradeItem = some r ∧ r.state = t := by
  rw [moveAccepted_eq]
  split
  · exact ⟨_, rfl, rfl⟩
  split
  · exact ⟨_, rfl, rfl⟩
  split
  · exact ⟨_, rfl, rfl⟩
  next hroom hremove htrade =>
    exact absurd ⟨hroom, not_not.mp hremove, by simpa using htrade⟩ hno

/-- An item with an index in a cylinder stands there. -/
theorem mem_of_getThingIndex {c : Cylinder} (h : t.getThingIndex c item ≠ -1) :
    item ∈ t.contents c := by
  cases c with
  | player p =>
    simp only [State.getThingIndex, State.playerThingIndex] at h
    split at h
    next slot hslot =>
      have hinventory : (t.player p).inventory slot = some item := by
        simpa using List.find?_some hslot
      exact List.mem_filterMap.mpr ⟨slot, List.mem_of_find?_eq_some hslot, hinventory⟩
    next => exact absurd rfl h
  | container x =>
    by_contra hnot
    have hlist : item ∉ t.itemlist x := hnot
    simp [State.getThingIndex, State.containerThingIndex, hlist] at h
  | tile pos =>
    rw [t.mem_contents_tile]
    simp only [State.getThingIndex, State.tileThingIndex] at h
    split at h
    next hground => exact Or.inl hground
    split at h
    · split at h
      next htop => exact Or.inr (Or.inr htop)
      next => exact absurd rfl h
    split at h
    next hdown => exact Or.inr (Or.inl hdown)
    next => exact absurd rfl h

/-- What `queryRemove` lets go stands there and is as many. -/
theorem queryRemove_spec {c : Cylinder} {flags : cylinderflags_t}
    (h : t.queryRemove c item m flags = NOERROR) :
    item ∈ t.contents c ∧ m ≠ 0 ∧ (t.isStackable item = true → m ≤ t.getItemCount item) := by
  unfold State.queryRemove State.queryRemoveAt at h
  split at h
  · cases h
  next hindex =>
    split at h
    · cases h
    next hcount =>
      obtain ⟨hzero, hmany⟩ := not_or.mp hcount
      refine ⟨mem_of_getThingIndex hindex, hzero, fun hstack => ?_⟩
      exact not_lt.mp fun hless => hmany ⟨hstack, hless⟩

end Halves

/-! ## The rest -/

section Rest

variable {v : State} {d : Destination} {item : ItemRef} {n : ℕ}

theorem transferRest_spec (hs : Stocked v) (hstack : v.isStackable item = true)
    (hc : d.cylinder ∈ v.cylinders) (hn : n ≤ 100) :
    ∃ moved moveItem, transferRest v d item n = some (moved, moveItem) ∧
      moved.units (v.item item).kind ≤ v.units (v.item item).kind + n ∧
      (RestKeeps v d item n →
        ∀ k, moved.units k = v.units k + if (v.item item).kind = k then n else 0) ∧
      (¬ RestKeeps v d item n →
        ∃ k, moved.units k < v.units k + if (v.item item).kind = k then n else 0) := by
  by_cases hzero : n = 0
  · subst hzero
    refine ⟨v, none, rfl, by omega, fun _ k => by simp, fun hno => ?_⟩
    exact absurd (fun hpos => absurd hpos (lt_irrefl 0)) hno
  obtain ⟨w, hclone, hw⟩ := cloneItem_spec hs hstack (show n < 256 by omega)
  have hpos : 0 < n := Nat.pos_of_ne_zero hzero
  have hrest : transferRest v d item n =
      some (w.addThing d.cylinder d.index v.fresh, some v.fresh) := by
    unfold transferRest
    rw [if_pos hpos, hclone]
    rfl
  have hcw : d.cylinder ∈ w.cylinders := hw.cylinders ▸ hc
  have hunits : (w.item v.fresh).units w.items = n := by
    rw [State.units_of_stackable hw.isStackable, hw.count]
  have hkindUnits : ∀ k, w.kindUnits k v.fresh =
      if (w.item v.fresh).kind = k then n else 0 := by
    intro k
    unfold State.kindUnits
    rw [hunits]
  have hle : ∀ k, (w.addThing d.cylinder d.index v.fresh).units k ≤
      w.units k + w.kindUnits k v.fresh :=
    State.units_addThing_le hw.stocked hcw (hunits ▸ hpos)
  refine ⟨_, _, hrest, ?_, ?_, ?_⟩
  · have hK := hle (v.item item).kind
    rw [hw.units, hkindUnits] at hK
    split at hK <;> omega
  · intro hkeeps k
    obtain ⟨hkind, hplace⟩ := hkeeps hpos
    have hadd := State.units_addThing hcw ((hw.keeps _ _).mpr hplace) k
    rw [hadd, hw.units, hkindUnits, hw.kind.mpr hkind]
  · intro hno
    by_cases hkind : ClonesKind v item
    · have hroom : ¬ w.keeps d.cylinder d.index v.fresh :=
        fun hplace => hno fun _ => ⟨hkind, (hw.keeps _ _).mp hplace⟩
      obtain ⟨k, hk⟩ := (State.units_addThing_short hw.stocked hcw (hunits ▸ hpos) hroom).2
      rw [hw.units, hkindUnits, hw.kind.mpr hkind] at hk
      exact ⟨k, hk⟩
    · refine ⟨(v.item item).kind, ?_⟩
      have hK := hle (v.item item).kind
      rw [hw.units, hkindUnits, if_neg fun heq => hkind (hw.kind.mp heq)] at hK
      rw [if_pos rfl]
      omega

end Rest

/-! ## The transfer -/

section Transfer

variable {t u : State} {fromCylinder : Cylinder} {d : Destination} {item : ItemRef} {m : ℕ}
  {toItem : Option ItemRef}

theorem mergedCount_of_le {x : ItemRef} (hx : t.getItemCount x ≤ 100) (m : ℕ) :
    mergedCount t x m = min (100 - t.getItemCount x) m := by
  unfold mergedCount
  congr 1
  omega

theorem mergeTarget_eq_some {x : ItemRef} (h : mergeTarget t item toItem = some x) :
    toItem = some x ∧ t.equals item (some x) = true :=
  Option.filter_eq_some_iff.mp h

theorem isStackable_of_equals {x : ItemRef} (hstack : t.isStackable item = true)
    (h : t.equals item (some x) = true) : t.isStackable x = true := by
  have hid : (t.item item).id = (t.item x).id := (Item.equals_iff.mp h).1
  unfold State.isStackable State.typeOf at hstack ⊢
  rw [← hid]
  exact hstack

theorem transfer_of_stackable (h : State.Removal t (t.removeThing fromCylinder item m) item)
    (hstack : t.isStackable item = true) (htarget : toItem ≠ some item) :
    transfer t fromCylinder d item toItem m =
      match mergeTarget t item toItem with
      | some x =>
        transferRest ((t.removeThing fromCylinder item m).updateThing d.cylinder x (t.item x).id
          (t.getItemCount x + mergedCount t x m)) d item (m - mergedCount t x m)
      | none => transferRest (t.removeThing fromCylinder item m) d item m := by
  have hstack' := (h.isStackable item).trans hstack
  unfold transfer
  simp only [hstack', Bool.not_true, Bool.false_eq_true, if_false]
  cases toItem with
  | none => rfl
  | some x =>
    have hx : x ≠ item := fun heq => htarget (heq ▸ rfl)
    have hequals : (t.removeThing fromCylinder item m).equals item (some x) =
        t.equals item (some x) := by
      simp only [State.equals, Item.equals, h.id, h.attributes]
    have hmerged : mergedCount (t.removeThing fromCylinder item m) x m = mergedCount t x m := by
      unfold mergedCount
      rw [h.count x hx]
    simp only [hequals, hmerged, h.id, h.count x hx, mergeTarget, Option.filter_some]
    split <;> rfl

variable (d toItem) in
theorem transfer_of_plain (h : State.Removal t (t.removeThing fromCylinder item m) item)
    (hplain : t.isStackable item = false) :
    transfer t fromCylinder d item toItem m =
      some ((t.removeThing fromCylinder item m).addThing d.cylinder d.index item, some item) := by
  have hplain' := (h.isStackable item).trans hplain
  unfold transfer
  simp [hplain']

theorem clonesKind_congr {v : State} (htype : v.typeOf item = t.typeOf item)
    (hattributes : (v.item item).attributes = (t.item item).attributes) :
    ClonesKind v item ↔ ClonesKind t item := by
  unfold ClonesKind
  rw [htype, hattributes]

/-- An item that moves whole is kept exactly when the destination keeps what it has. -/
theorem transfer_plain_spec (ht : Stocked t) (hd : d.cylinder ∈ t.cylinders)
    (hitem : item ∈ t.contents fromCylinder) (hplain : t.isStackable item = false) :
    ∃ moved moveItem, transfer t fromCylinder d item toItem m = some (moved, moveItem) ∧
      (TransferKeeps t fromCylinder d item toItem m → ∀ k, moved.units k = t.units k) ∧
      (¬ TransferKeeps t fromCylinder d item toItem m → ∃ k, moved.units k < t.units k) := by
  have hcount : t.isStackable item = true → m ≤ t.getItemCount item := by simp [hplain]
  have hrem := State.removal_removeThing ht.toLayered hitem m
  have hu := State.stocked_removeThing ht hitem hcount
  have hunits := State.units_removeThing ht hitem hcount
  have htransfer := transfer_of_plain d toItem hrem hplain
  have hiff : TransferKeeps t fromCylinder d item toItem m ↔
      (t.removeThing fromCylinder item m).keeps d.cylinder d.index item := by
    simp [TransferKeeps, hplain]
  rw [hiff]
  generalize t.removeThing fromCylinder item m = u at *
  have hpiece : ∀ k, u.kindUnits k item = if (t.item item).kind = k then t.taken item m else 0 := by
    intro k
    unfold State.kindUnits State.taken
    rw [hrem.kind, State.units_of_plain ((hrem.isStackable item).trans hplain), hplain]
    rfl
  have hdu : d.cylinder ∈ u.cylinders := hrem.cylinders ▸ hd
  have hone : 0 < (u.item item).units u.items := by
    rw [State.units_of_plain ((hrem.isStackable item).trans hplain)]
    exact Nat.one_pos
  refine ⟨_, _, htransfer, ?_, ?_⟩
  · intro hkeeps k
    rw [State.units_addThing hdu hkeeps k, hpiece]
    exact hunits k
  · intro hno
    obtain ⟨k, hk⟩ := (State.units_addThing_short hu hdu hone hno).2
    rw [hpiece, hunits] at hk
    exact ⟨k, hk⟩

/-- What a merge into a stack of the destination does not touch. -/
structure Merged (u v : State) (d : Destination) (item : ItemRef) : Prop where
  stocked : Stocked v
  items : v.items = u.items
  cylinders : v.cylinders = u.cylinders
  fresh : v.fresh = u.fresh
  contents : ∀ c, v.contents c = u.contents c
  isContainer : ∀ x, v.isContainer x = u.isContainer x
  capacity : ∀ x, v.capacity x = u.capacity x
  isStackable : v.isStackable item = u.isStackable item
  count : v.getItemCount item = u.getItemCount item
  kind : (v.item item).kind = (u.item item).kind
  clones : ClonesKind v item ↔ ClonesKind u item
  keeps : v.keeps d.cylinder d.index item ↔ u.keeps d.cylinder d.index item

theorem merged_updateThing (hu : Stocked u) {x : ItemRef} (hmem : x ∈ u.contents d.cylinder)
    (hstack : u.isStackable x = true) (hx : x ≠ item) {n : ℕ} (hn : 1 ≤ n ∧ n ≤ 100) :
    Merged u (u.updateThing d.cylinder x (u.item x).id n) d item := by
  have hplaces := State.updateThing_places hu.toLayered hmem (u.item x).id n
  have hstocked := State.stocked_updateThing hu hmem hstack hn
  rw [State.updateItem_of_stackable hstack] at hplaces
  generalize u.updateThing d.cylinder x (u.item x).id n = v at hplaces hstocked ⊢
  have hid : (((u.item x).setID u.items (u.item x).id).setItemCount n).id = (u.item x).id :=
    Item.setID_id _ _ _
  have hcontainer : (((u.item x).setID u.items (u.item x).id).setItemCount n).container =
      (u.item x).container := Item.setID_container _ _ _
  have htype : ∀ z, v.typeOf z = u.typeOf z := by
    intro z
    rw [hplaces.typeOf]
    exact u.typeOf_setItem hid z
  have hisContainer := fun z => (hplaces.isContainer z).trans (u.isContainer_setItem hcontainer z)
  have hcapacity := fun z => (hplaces.capacity z).trans (u.capacity_setItem hcontainer z)
  have hidItem : (v.item item).id = (u.item item).id := by
    rw [hplaces.id]
    simp [State.setItem, Ne.symm hx]
  have hattributes : (v.item item).attributes = (u.item item).attributes := by
    rw [hplaces.attributes]
    simp [State.setItem, Ne.symm hx]
  exact
    { stocked := hstocked
      items := hplaces.items
      cylinders := hplaces.cylinders
      fresh := hplaces.fresh
      contents := fun c => (hplaces.contents c).trans (u.contents_setItem hcontainer c)
      isContainer := hisContainer
      capacity := hcapacity
      isStackable := by
        unfold State.isStackable
        rw [htype]
      count := by
        unfold State.getItemCount
        rw [hplaces.count]
        simp [State.setItem, Ne.symm hx]
      kind := by
        unfold Item.kind
        rw [hidItem, hattributes]
      clones := clonesKind_congr (htype item) hattributes
      keeps := State.keeps_congr hplaces.inventory hplaces.ground hplaces.downItems
        hplaces.topItems hisContainer hcapacity (fun _ z _ => htype z) (htype item) }

theorem Merged.rest {v : State} (h : Merged u v d item) (n : ℕ) :
    RestKeeps v d item n ↔ RestKeeps u d item n := by
  unfold RestKeeps
  rw [h.clones, h.keeps]

/-- A stack that is split is kept exactly when its parts are. -/
theorem transfer_stack_spec (ht : Stocked t) (hd : d.cylinder ∈ t.cylinders)
    (hitem : item ∈ t.contents fromCylinder) (hstack : t.isStackable item = true)
    (hm : m ≤ t.getItemCount item)
    (htarget : ∀ x, toItem = some x → x ≠ item ∧ x ∈ t.contents d.cylinder) :
    ∃ moved moveItem, transfer t fromCylinder d item toItem m = some (moved, moveItem) ∧
      (TransferKeeps t fromCylinder d item toItem m → ∀ k, moved.units k = t.units k) ∧
      (¬ TransferKeeps t fromCylinder d item toItem m → ∃ k, moved.units k < t.units k) := by
  have hrem := State.removal_removeThing ht.toLayered hitem m
  have hu := State.stocked_removeThing ht hitem fun _ => hm
  have hunits := State.units_removeThing ht hitem fun _ => hm
  have hne : toItem ≠ some item := fun heq => (htarget item heq).1 rfl
  rw [transfer_of_stackable hrem hstack hne]
  have hiff : TransferKeeps t fromCylinder d item toItem m ↔
      (∀ x, mergeTarget t item toItem = some x → t.mergedKind x = (t.item x).kind) ∧
        RestKeeps (t.removeThing fromCylinder item m) d item (restCount t item toItem m) := by
    simp [TransferKeeps, hstack]
  rw [hiff]
  have hcountItem := ht.count fromCylinder item hitem hstack
  generalize t.removeThing fromCylinder item m = u at *
  have hstack' := (hrem.isStackable item).trans hstack
  have hdu : d.cylinder ∈ u.cylinders := hrem.cylinders ▸ hd
  have hkind := hrem.kind item
  have htaken : t.taken item m = m := if_pos hstack
  simp only [htaken] at hunits
  unfold restCount
  cases hmerge : mergeTarget t item toItem with
  | none =>
    obtain ⟨moved, moveItem, hrest, -, hkeep, hlose⟩ :=
      transferRest_spec hu hstack' hdu (show m ≤ 100 by omega)
    rw [hkind] at hkeep hlose
    refine ⟨moved, moveItem, hrest, ?_, ?_⟩
    · intro hplace k
      rw [hkeep hplace.2]
      exact hunits k
    · intro hno
      obtain ⟨k, hk⟩ := hlose fun hplace => hno ⟨fun _ hx => (Option.some_ne_none _ hx.symm).elim, hplace⟩
      rw [hunits] at hk
      exact ⟨k, hk⟩
  | some x =>
    obtain ⟨htoItem, hequals⟩ := mergeTarget_eq_some hmerge
    obtain ⟨hx, hmem⟩ := htarget x htoItem
    have hxstack := isStackable_of_equals hstack hequals
    have hcountX := ht.count d.cylinder x hmem hxstack
    have hmemU : x ∈ u.contents d.cylinder := hrem.mem d.cylinder x hx hmem
    have hxstackU := (hrem.isStackable x).trans hxstack
    have hcountU : u.getItemCount x = t.getItemCount x := hrem.count x hx
    have hsame : (t.item x).kind = (t.item item).kind :=
      (Item.kind_eq_of_equals hequals).symm
    simp only [mergedCount_of_le hcountX.2 m]
    generalize hn : min (100 - t.getItemCount x) m = n
    have hsum : 1 ≤ t.getItemCount x + n ∧ t.getItemCount x + n ≤ 100 := by omega
    have hmerged := merged_updateThing hu hmemU hxstackU hx hsum
    have hunitsV := State.units_updateThing hu hmemU hxstackU hsum.2
    have hpiece : ∀ k, u.kindUnits k x = if (t.item item).kind = k then t.getItemCount x else 0 := by
      intro k
      unfold State.kindUnits
      rw [hrem.kind, hsame, State.units_of_stackable hxstackU, hcountU]
    rw [hrem.id] at hmerged hunitsV
    simp only [hpiece, hrem.mergedKind] at hunitsV
    generalize u.updateThing d.cylinder x (t.item x).id (t.getItemCount x + n) = v at *
    obtain ⟨moved, moveItem, hrest, hmost, hkeep, hlose⟩ :=
      transferRest_spec hmerged.stocked (hmerged.isStackable.trans hstack')
        (hmerged.cylinders ▸ hdu) (show m - n ≤ 100 by omega)
    rw [hmerged.kind, hkind] at hmost hkeep hlose
    rw [hmerged.rest] at hkeep hlose
    refine ⟨moved, moveItem, hrest, ?_, ?_⟩
    · rintro ⟨hsameKind, hplace⟩ k
      have hvk := hunitsV k
      have htk := hunits k
      rw [hkeep hplace k]
      rw [hsameKind x rfl, hsame] at hvk
      by_cases hk : (t.item item).kind = k
      · simp only [hk, if_true] at hvk htk ⊢
        omega
      · simp only [hk, if_false] at hvk htk ⊢
        omega
    · intro hno
      by_cases hsameKind : t.mergedKind x = (t.item x).kind
      · have hplace : ¬ RestKeeps u d item (m - n) := fun hplace =>
          hno ⟨fun z hz => Option.some.inj hz ▸ hsameKind, hplace⟩
        obtain ⟨k, hmk⟩ := hlose hplace
        refine ⟨k, ?_⟩
        have hvk := hunitsV k
        have htk := hunits k
        rw [hsameKind, hsame] at hvk
        by_cases hk : (t.item item).kind = k
        · simp only [hk, if_true] at hvk htk hmk
          omega
        · simp only [hk, if_false] at hvk htk hmk
          omega
      · refine ⟨(t.item item).kind, ?_⟩
        have hvk := hunitsV (t.item item).kind
        have htk := hunits (t.item item).kind
        rw [hsame] at hsameKind
        rw [if_pos rfl] at hvk htk
        rw [if_neg hsameKind] at hvk
        omega

end Transfer

end TibiaServer.Game
