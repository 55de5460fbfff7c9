import TibiaServer.Cylinders.Additions
/-!
# Units

What an operation does to the units of a kind.  A removal takes the units that it is
asked for, an addition brings those of its item exactly when the place keeps what it
has, and a stack that is merged into keeps its kind exactly when `setID` does.
-/

namespace TibiaServer.Cylinders

open TibiaServer.Library
open TibiaServer.World (Position)

namespace State

variable (s : State)

/-- The units that one item is of a kind. -/
def kindUnits (k : ℕ × ItemAttributes) (y : ItemRef) : ℕ :=
  if (s.item y).kind = k then (s.item y).units s.items else 0

/-- The units of a kind in all cylinders. -/
def units (k : ℕ × ItemAttributes) : ℕ := Stock.total s.cylinders s.contents (s.kindUnits k)

/-- The kind of a stack that `updateThing` has merged into. -/
def mergedKind (y : ItemRef) : ℕ × ItemAttributes :=
  ((s.item y).setID s.items (s.item y).id).kind

/-- The units that a removal takes. -/
def taken (y : ItemRef) (count : ℕ) : ℕ := if s.isStackable y then count else 1

variable {s}

theorem kindUnits_self (y : ItemRef) :
    s.kindUnits (s.item y).kind y = (s.item y).units s.items := if_pos rfl

theorem units_of_stackable {y : ItemRef} (hstack : s.isStackable y = true) :
    (s.item y).units s.items = s.getItemCount y := by
  have htype : (s.items (s.item y).id).stackable = true := hstack
  simp [Item.units, htype, getItemCount]

theorem units_of_plain {y : ItemRef} (hplain : s.isStackable y = false) :
    (s.item y).units s.items = 1 := by
  have htype : (s.items (s.item y).id).stackable = false := hplain
  simp [Item.units, htype]

theorem units_pos (hs : Stocked s) {c : Cylinder} {y : ItemRef} (hy : y ∈ s.contents c) :
    0 < (s.item y).units s.items := by
  cases hstack : s.isStackable y with
  | true =>
    rw [units_of_stackable hstack]
    exact (hs.count c y hy hstack).1
  | false =>
    rw [units_of_plain hstack]
    exact Nat.one_pos

end State

theorem SameItems.kindUnits {s s' : State} (h : SameItems s s') (k : ℕ × ItemAttributes) :
    s'.kindUnits k = s.kindUnits k := by
  funext y
  unfold State.kindUnits Item.kind Item.units
  rw [h.items, h.id, h.count, h.attributes]

theorem SamePlaces.units_eq {s s' : State} (h : SamePlaces s s') (k : ℕ × ItemAttributes) :
    s'.units k = s.units k := by
  unfold State.units
  rw [h.sameItems.kindUnits, h.cylinders]
  apply Stock.total_congr
  · intro c _
    rw [h.contents]
  · intro _ _ _ _
    rfl

theorem Adds.units_eq {s s' : State} {c : Cylinder} {y : ItemRef} (h : Adds s s' c y)
    (hc : c ∈ s.cylinders) (k : ℕ × ItemAttributes) :
    s'.units k = s.units k + s.kindUnits k y := by
  unfold State.units
  rw [h.toSameItems.kindUnits, h.cylinders]
  exact Stock.total_add hc h.contents h.others

/-- What gives way is missing. -/
theorem Replaces.units_eq {s s' : State} {c : Cylinder} {old y : ItemRef} (h : Replaces s s' c old y)
    (hc : c ∈ s.cylinders) (k : ℕ × ItemAttributes) :
    s'.units k + s.kindUnits k old = s.units k + s.kindUnits k y := by
  obtain ⟨u, hold, hnew⟩ := h
  have hsame := hold.toSameItems.kindUnits k
  have hcu : c ∈ u.cylinders := hold.cylinders ▸ hc
  have hbefore := hold.units_eq hcu k
  have hafter := hnew.units_eq hcu k
  rw [hsame]
  omega

theorem Drops.units_eq {s s' : State} {c : Cylinder} {old y : ItemRef} (h : Drops s s' c old y)
    (hc : c ∈ s.cylinders) (k : ℕ × ItemAttributes) :
    s'.units k + s.kindUnits k old = s.units k + s.kindUnits k y := by
  rcases h with ⟨rfl, hplaces⟩ | hrep
  · rw [hplaces.units_eq]
  · exact hrep.units_eq hc k

theorem Drops.pos {s s' : State} {c : Cylinder} {old y : ItemRef} (hs : Stocked s)
    (h : Drops s s' c old y) (hy : 0 < (s.item y).units s.items) :
    0 < (s.item old).units s.items := by
  rcases h with ⟨rfl, -⟩ | ⟨u, hold, -⟩
  · exact hy
  · exact State.units_pos hs (hold.contents.mem_iff.mpr List.mem_cons_self)

namespace State

variable {s : State} {c : Cylinder} {y : ItemRef}

/-! ## Another item in the place of one -/

theorem units_setItem (hs : Stocked s) (hy : y ∈ s.contents c) {item : Item}
    (hcontainer : item.container = (s.item y).container) (k : ℕ × ItemAttributes) :
    (s.setItem y item).units k + s.kindUnits k y =
      s.units k + if item.kind = k then item.units s.items else 0 := by
  have hhere : (s.setItem y item).kindUnits k y = if item.kind = k then item.units s.items else 0 := by
    simp [kindUnits, setItem]
  have hothers : ∀ x, x ≠ y → (s.setItem y item).kindUnits k x = s.kindUnits k x := by
    intro x hx
    simp [kindUnits, setItem, hx]
  have hcontents : (s.setItem y item).contents = s.contents :=
    funext (s.contents_setItem hcontainer)
  have hc := hs.cylinder c (List.ne_nil_of_mem hy)
  have honly : ∀ c', c' ≠ c → y ∉ s.contents c' :=
    fun c' hc' hmem => hc' (hs.once c' c y hmem hy)
  rw [← hhere]
  unfold units
  rw [hcontents]
  exact Stock.total_change hc hy (hs.nodup c) honly hothers

theorem units_setCount (hs : Stocked s) (hy : y ∈ s.contents c)
    (hstack : s.isStackable y = true) {n : ℕ} (hn : n ≤ 100) (k : ℕ × ItemAttributes) :
    (s.setCount y n).units k + s.kindUnits k y =
      s.units k + if (s.item y).kind = k then n else 0 := by
  have hset := units_setItem hs hy (Item.setItemCount_container n (s.item y)) k
  have hunits : ((s.item y).setItemCount n).units s.items = n := by
    have htype : (s.items (s.item y).id).stackable = true := hstack
    simp only [Item.units, Item.setItemCount, htype, if_true]
    omega
  rw [hunits] at hset
  exact hset

/-! ## Removals -/

/-- A part of a stack is taken: its count goes down. -/
theorem removeThing_count (hs : Stocked s) (hy : y ∈ s.contents c) {count : ℕ}
    (hpart : s.removesPart y count) (hcount : count ≤ s.getItemCount y) :
    SamePlaces (s.setCount y (s.getItemCount y - count)) (s.removeThing c y count) := by
  have hbounds := hs.count c y hy hpart.1
  have hleft := s.remainingCount_of_le hcount (by omega)
  rw [← hleft]
  exact removeThing_part hs.toLayered hy hpart

theorem stocked_removeThing (hs : Stocked s) (hy : y ∈ s.contents c) {count : ℕ}
    (hcount : s.isStackable y = true → count ≤ s.getItemCount y) :
    Stocked (s.removeThing c y count) := by
  by_cases hpart : s.removesPart y count
  · have hbounds := hs.count c y hy hpart.1
    have hless := hcount hpart.1
    have hne := hpart.2
    exact (hs.setCount (by omega) y).of_places (removeThing_count hs hy hpart hless)
  · exact hs.of_removal (adds_removeThing hs.toLayered hy hpart)
      (hs.toLayered.removeThing c y count)

/-- But for the one item, everything is as it was. -/
structure Removal (s s' : State) (y : ItemRef) : Prop where
  items : s'.items = s.items
  cylinders : s'.cylinders = s.cylinders
  fresh : s'.fresh = s.fresh
  id : ∀ x, (s'.item x).id = (s.item x).id
  attributes : ∀ x, (s'.item x).attributes = (s.item x).attributes
  isContainer : ∀ x, s'.isContainer x = s.isContainer x
  capacity : ∀ x, s'.capacity x = s.capacity x
  count : ∀ x, x ≠ y → s'.getItemCount x = s.getItemCount x
  mem : ∀ c x, x ≠ y → x ∈ s.contents c → x ∈ s'.contents c

theorem Removal.isStackable {s' : State} (h : Removal s s' y) (x : ItemRef) :
    s'.isStackable x = s.isStackable x := by
  unfold State.isStackable typeOf
  rw [h.items, h.id]

theorem Removal.kind {s' : State} (h : Removal s s' y) (x : ItemRef) :
    (s'.item x).kind = (s.item x).kind := by
  unfold Item.kind
  rw [h.id, h.attributes]

theorem Removal.mergedKind {s' : State} (h : Removal s s' y) (x : ItemRef) :
    s'.mergedKind x = s.mergedKind x := by
  unfold State.mergedKind
  rw [h.items, h.id]
  exact Item.kind_setID_congr s.items _ (h.id x) (h.attributes x)

theorem removal_removeThing (hs : Layered s) (hy : y ∈ s.contents c) (count : ℕ) :
    Removal s (s.removeThing c y count) y := by
  by_cases hpart : s.removesPart y count
  · have hplaces := removeThing_part hs hy hpart
    generalize s.remainingCount y count = n at hplaces
    exact
      { items := hplaces.items
        cylinders := hplaces.cylinders
        fresh := hplaces.fresh
        id := by
          intro x
          rw [hplaces.id]
          by_cases hx : x = y
          · subst hx
            simp [setCount, modifyItem, setItem]
          · simp [setCount, modifyItem, setItem, hx]
        attributes := by
          intro x
          rw [hplaces.attributes]
          by_cases hx : x = y
          · subst hx
            simp [setCount, modifyItem, setItem, Item.setItemCount]
          · simp [setCount, modifyItem, setItem, hx]
        isContainer := fun x => (hplaces.isContainer x).trans (s.isContainer_setCount y n x)
        capacity := fun x => (hplaces.capacity x).trans
          (s.capacity_setItem (Item.setItemCount_container n (s.item y)) x)
        count := by
          intro x hx
          unfold getItemCount
          rw [hplaces.count]
          simp [setCount, modifyItem, setItem, hx]
        mem := by
          intro c' x _ hmem
          rw [hplaces.contents, s.contents_setCount]
          exact hmem }
  · have hadd := adds_removeThing hs hy hpart
    have hsame := hadd.toSameItems.symm
    exact
      { items := hsame.items
        cylinders := hsame.cylinders
        fresh := hsame.fresh
        id := hsame.id
        attributes := hsame.attributes
        isContainer := hsame.isContainer
        capacity := hsame.capacity
        count := fun x _ => hsame.count x
        mem := by
          intro c' x hx hmem
          rcases Single.mem_cons_of_adds hadd hmem with ⟨heq, -⟩ | hleft
          · exact absurd heq hx
          · exact hleft }

/-- A removal takes the units that it is asked for. -/
theorem units_removeThing (hs : Stocked s) (hy : y ∈ s.contents c) {count : ℕ}
    (hcount : s.isStackable y = true → count ≤ s.getItemCount y) (k : ℕ × ItemAttributes) :
    (s.removeThing c y count).units k + (if (s.item y).kind = k then s.taken y count else 0) =
      s.units k := by
  by_cases hpart : s.removesPart y count
  · have hless := hcount hpart.1
    have hbounds := hs.count c y hy hpart.1
    have hset := units_setCount hs hy hpart.1 (n := s.getItemCount y - count) (by omega) k
    have hplaces := (removeThing_count hs hy hpart hless).units_eq k
    have hself : s.kindUnits k y = if (s.item y).kind = k then s.getItemCount y else 0 := by
      unfold kindUnits
      rw [units_of_stackable hpart.1]
    unfold taken
    rw [if_pos hpart.1, hplaces]
    rw [hself] at hset
    split
    next hk =>
      rw [if_pos hk, if_pos hk] at hset
      omega
    next hk =>
      rw [if_neg hk, if_neg hk] at hset
      omega
  · have hadd := adds_removeThing hs.toLayered hy hpart
    have hc : c ∈ (s.removeThing c y count).cylinders :=
      hadd.cylinders ▸ hs.cylinder c (List.ne_nil_of_mem hy)
    have htaken : s.taken y count = (s.item y).units s.items := by
      unfold taken
      cases hstack : s.isStackable y with
      | true =>
        have hall : count = s.getItemCount y := by
          by_contra hne
          exact hpart ⟨hstack, hne⟩
        simp [units_of_stackable hstack, hall]
      | false => simp [units_of_plain hstack]
    rw [hadd.units_eq hc k, ← hadd.toSameItems.kindUnits k, htaken]
    rfl

/-! ## Additions -/

variable {index : ℤ}

theorem units_addThing (hc : c ∈ s.cylinders) (hkeeps : s.keeps c index y)
    (k : ℕ × ItemAttributes) :
    (s.addThing c index y).units k = s.units k + s.kindUnits k y :=
  (adds_addThing hkeeps).units_eq hc k

/-- No addition brings more than its item, and one without room brings less. -/
theorem units_addThing_short (hs : Stocked s) (hc : c ∈ s.cylinders)
    (hy : 0 < (s.item y).units s.items) (hroom : ¬ s.keeps c index y) :
    (∀ k, (s.addThing c index y).units k ≤ s.units k + s.kindUnits k y) ∧
      ∃ k, (s.addThing c index y).units k < s.units k + s.kindUnits k y := by
  obtain ⟨old, -, hdrops⟩ := addThing_without_room hs hc hroom
  have hall := fun k => hdrops.units_eq hc k
  constructor
  · intro k
    have hk := hall k
    omega
  · refine ⟨(s.item old).kind, ?_⟩
    have hk := hall (s.item old).kind
    have hpos := hdrops.pos hs hy
    rw [kindUnits_self old] at hk
    omega

/-- The item is all there afterwards exactly when what is lost is of another kind. -/
theorem units_addThing_kind (hs : Stocked s) (hc : c ∈ s.cylinders)
    (hy : 0 < (s.item y).units s.items) :
    (s.addThing c index y).units (s.item y).kind =
        s.units (s.item y).kind + (s.item y).units s.items ↔
      ∀ old, s.lost c index y = some old → (s.item old).kind ≠ (s.item y).kind := by
  by_cases hkeeps : s.keeps c index y
  · simp [units_addThing hc hkeeps, kindUnits_self, s.lost_of_keeps hkeeps]
  · obtain ⟨old, hlost, hdrops⟩ := addThing_without_room hs hc hkeeps
    have hunits := hdrops.units_eq hc (s.item y).kind
    have hpos := hdrops.pos hs hy
    rw [kindUnits_self] at hunits
    simp only [hlost, Option.some.injEq, forall_eq']
    unfold kindUnits at hunits
    by_cases hkind : (s.item old).kind = (s.item y).kind
    · rw [if_pos hkind] at hunits
      simp only [hkind, ne_eq, not_true_eq_false, iff_false]
      omega
    · rw [if_neg hkind] at hunits
      simp only [hkind, ne_eq, not_false_eq_true, iff_true]
      omega

theorem units_addThing_le (hs : Stocked s) (hc : c ∈ s.cylinders)
    (hy : 0 < (s.item y).units s.items) (k : ℕ × ItemAttributes) :
    (s.addThing c index y).units k ≤ s.units k + s.kindUnits k y := by
  by_cases hkeeps : s.keeps c index y
  · exact (units_addThing hc hkeeps k).le
  · exact (units_addThing_short hs hc hy hkeeps).1 k

/-! ## Merges -/

theorem samePlaces_updateItem {t : State} (h : SamePlaces s t) (hitem : t.item = s.item)
    (y : ItemRef) (itemId count : ℕ) :
    SamePlaces (s.updateItem y itemId count) (t.updateItem y itemId count) := by
  have hsame : (t.updateItem y itemId count).item = (s.updateItem y itemId count).item := by
    simp [updateItem, modifyItem, setItem, hitem, h.items]
  exact ⟨h.items, h.cylinders, h.fresh, h.ground, h.downItems, h.topItems, h.inventory,
    fun x => by rw [hsame], fun x => by rw [hsame], fun x => by rw [hsame],
    fun x => by rw [hsame]⟩

/-- `updateThing` writes one item. -/
theorem updateThing_places (hs : Layered s) (hy : y ∈ s.contents c) (itemId count : ℕ) :
    SamePlaces (s.updateItem y itemId count) (s.updateThing c y itemId count) := by
  cases c with
  | player p =>
    obtain ⟨slot, -, hindex, -⟩ := s.playerThingIndex_spec hy
    simp only [updateThing]
    unfold playerUpdateThing
    rw [if_neg (by omega)]
    exact samePlaces_closeTrades _ _
  | container x =>
    simp only [updateThing]
    unfold containerUpdateThing
    rw [if_neg (s.containerThingIndex_ne hy)]
    simp only
    split
    · exact (samePlaces_updateItemWeight _ _ _).trans (samePlaces_closeTrades _ _)
    · exact samePlaces_updateItemWeight _ _ _
  | tile t =>
    simp only [updateThing]
    unfold tileUpdateThing
    rw [if_neg (tileThingIndex_ne hs hy)]
    have hflags := s.samePlaces_resetTileFlags t y
    exact (samePlaces_updateItem hflags rfl y itemId count).trans (samePlaces_setTileFlags _ t y)

/-- `setID` of its own id and `setSubType` write the count of a stack and perhaps its
attributes. -/
theorem updateItem_of_stackable (hstack : s.isStackable y = true) (n : ℕ) :
    s.updateItem y (s.item y).id n =
      s.setItem y (((s.item y).setID s.items (s.item y).id).setItemCount n) := by
  have hid : ((s.item y).setID s.items (s.item y).id).id = (s.item y).id := Item.setID_id _ _ _
  have hsub := Item.setSubType_of_stackable s.items (by rw [hid]; exact hstack) n
  show s.setItem y (((s.item y).setID s.items (s.item y).id).setSubType s.items n) = _
  rw [hsub]

theorem stocked_updateThing (hs : Stocked s) (hy : y ∈ s.contents c)
    (hstack : s.isStackable y = true) {n : ℕ} (hn : 1 ≤ n ∧ n ≤ 100) :
    Stocked (s.updateThing c y (s.item y).id n) := by
  have hplaces := updateThing_places hs.toLayered hy (s.item y).id n
  rw [updateItem_of_stackable hstack] at hplaces
  refine (hs.setItem ?_ ?_ fun _ => ?_).of_places hplaces
  · exact Item.setID_id s.items _ _
  · exact Item.setID_container s.items _ _
  · simp only [Item.setItemCount]
    omega

/-- A stack that is merged into is all of the merged kind. -/
theorem units_updateThing (hs : Stocked s) (hy : y ∈ s.contents c)
    (hstack : s.isStackable y = true) {n : ℕ} (hn : n ≤ 100) (k : ℕ × ItemAttributes) :
    (s.updateThing c y (s.item y).id n).units k + s.kindUnits k y =
      s.units k + if s.mergedKind y = k then n else 0 := by
  have hplaces := (updateThing_places hs.toLayered hy (s.item y).id n).units_eq k
  have hid : ((s.item y).setID s.items (s.item y).id).id = (s.item y).id := Item.setID_id _ _ _
  have hcontainer :
      (((s.item y).setID s.items (s.item y).id).setItemCount n).container =
        (s.item y).container :=
    Item.setID_container s.items (s.item y).id (s.item y)
  have hset := units_setItem hs hy hcontainer k
  have hunits : (((s.item y).setID s.items (s.item y).id).setItemCount n).units s.items = n := by
    have htype : (s.items (s.item y).id).stackable = true := hstack
    simp only [Item.units, Item.setItemCount_id, hid, htype, if_true]
    simp only [Item.setItemCount]
    omega
  rw [hplaces, updateItem_of_stackable hstack]
  rw [hunits] at hset
  exact hset

end State

end TibiaServer.Cylinders
