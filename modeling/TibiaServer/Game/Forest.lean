import TibiaServer.Cylinders.Frames
import TibiaServer.Cylinders.ParentWalk
import TibiaServer.Game.MovePaths
import TibiaServer.Game.RemoveItems
import TibiaServer.Library.Run
/-!
# Moves, additions and removals keep the forest

Each call is a sequence of operations on cylinders, and each of these keeps the forest
where the item that is put down stands nowhere and is not above the place.
-/

namespace TibiaServer.Game

open TibiaServer.Cylinders
open TibiaServer.Library
open ReturnValue

section Calls

variable {s t u : State} {fromCylinder toCylinder : Cylinder} {d : Destination} {item : ItemRef}
  {index : ℤ} {count m : ℕ} {flags : cylinderflags_t} {actor : Bool}
  {toItem tradeItem : Option ItemRef}

/-- A removal leaves less inside of the others. -/
theorem within_removeThing (hs : Forest s) {c : Cylinder} {y a b : ItemRef}
    (h : (s.removeThing c y count).Within a b) : s.Within a b := by
  refine Relation.ReflTransGen.mono (fun p q hpq => ?_) a b h
  have hmem : p ∈ (s.removeThing c y count).contents (.container q) := hpq
  rcases State.removeThing_holdings hs.toLayered c y count with hsame | hremoves
  · rwa [hsame.contents] at hmem
  · exact (Single.mem_of_adds hremoves.toAdds hmem :)

theorem isContainer_removeThing (hs : Forest s) (c : Cylinder) (y : ItemRef) (count : ℕ)
    (x : ItemRef) : (s.removeThing c y count).isContainer x = s.isContainer x := by
  rcases State.removeThing_holdings hs.toLayered c y count with hsame | hremoves
  · exact hsame.isContainer x
  · exact (hremoves.isContainer x).symm

/-- What is taken whole stands nowhere. -/
theorem nowhere_removeThing (hs : Forest s) {c : Cylinder} {y : ItemRef} (hy : y ∈ s.contents c)
    (hwhole : ¬s.removesPart y count) (c' : Cylinder) :
    y ∉ (s.removeThing c y count).contents c' :=
  hs.toSingle.not_mem_of_adds (State.adds_removeThing hs.toLayered hy hwhole) c'

theorem fresh_removeThing (hs : Forest s) (c : Cylinder) (y : ItemRef) (count : ℕ) :
    (s.removeThing c y count).fresh = s.fresh := by
  rcases State.removeThing_holdings hs.toLayered c y count with hsame | hremoves
  · exact hsame.fresh
  · exact hremoves.fresh.symm

/-! ## Clones -/

/-- The clone `y` stands nowhere and is no container. -/
structure Loose (s w : State) (y : ItemRef) : Prop where
  forest : Forest w
  nowhere : ∀ c, y ∉ w.contents c
  old : y < w.fresh
  plain : w.isContainer y = false
  isContainer : ∀ x, s.isContainer x = true → w.isContainer x = true

/-- The clone is a new object that holds nothing, and nothing else is written. -/
theorem cloneItem_eq {w : State} {y : ItemRef} (h : cloneItem s item count = some (w, y)) :
    ∃ stack : Item, stack.container = none ∧ stack.parent = none ∧ y = s.fresh ∧
      w = { s.setItem s.fresh stack with fresh := s.fresh + 1 } := by
  unfold cloneItem Item.clone at h
  simp only at h
  split at h
  next => cases h
  next =>
    obtain ⟨rfl, rfl⟩ := Prod.mk.inj (Option.some.inj h)
    refine ⟨_, ?_, ?_, rfl, rfl⟩
    · rw [Item.setItemCount_container]
      exact ofStack_container _ _
    · exact ofStack_parent _ _

theorem container_fresh (hs : Forest s) : (s.item s.fresh).container = none := by
  by_contra hsome
  exact lt_irrefl _ (hs.object s.fresh (Option.isSome_iff_ne_none.mpr hsome))

theorem contents_cloneItem (hs : Forest s) {w : State} {y : ItemRef}
    (h : cloneItem s item count = some (w, y)) (c : Cylinder) : w.contents c = s.contents c := by
  obtain ⟨stack, hcontainer, -, -, rfl⟩ := cloneItem_eq h
  have hwritten := s.contents_setItem (hcontainer.trans (container_fresh hs).symm) c
  cases c with
  | player p | container x | tile pos => exact hwritten

theorem sameFrames_cloneItem (hs : Forest s) {w : State} {y : ItemRef}
    (h : cloneItem s item count = some (w, y)) : SameFrames s w := by
  obtain ⟨stack, hcontainer, -, -, rfl⟩ := cloneItem_eq h
  have hwritten : SameFrames s (s.setItem s.fresh stack) := by
    apply State.sameFrames_setItem
    rw [hcontainer, container_fresh hs]
  exact hwritten.trans (.of_item rfl)

theorem loose_cloneItem (hs : Forest s) {w : State} {y : ItemRef}
    (h : cloneItem s item count = some (w, y)) : Loose s w y := by
  have hcontents := contents_cloneItem hs h
  obtain ⟨stack, hcontainer, hparent, rfl, rfl⟩ := cloneItem_eq h
  have hnone := hcontainer.trans (container_fresh hs).symm
  exact
    { forest := hs.create hparent (by rw [hcontainer]; rfl)
      nowhere := fun c hc => lt_irrefl _ (hs.old c s.fresh (hcontents c ▸ hc))
      old := Nat.lt_succ_self _
      plain := by simp [State.isContainer, State.setItem, hcontainer]
      isContainer := fun x hx => (s.isContainer_setItem hnone x).trans hx }

/-! ## The second half of a move -/

theorem forest_transferRest (hs : Forest s)
    (hc : ∀ x, d.cylinder = .container x → s.isContainer x = true) {moved : State}
    {moveItem : Option ItemRef} (h : transferRest s d item m = some (moved, moveItem)) :
    Forest moved := by
  unfold transferRest at h
  split at h
  next =>
    obtain ⟨⟨w, y⟩, hclone, hmoved⟩ := Option.map_eq_some_iff.mp h
    obtain ⟨rfl, -⟩ := Prod.mk.inj hmoved
    have hloose := loose_cloneItem hs hclone
    apply hloose.forest.addThing (fun x hx => hloose.isContainer x (hc x hx)) _ hloose.nowhere
      hloose.old
    intro x hx
    exact Forest.not_within_of_plain (hloose.isContainer x (hc x hx)) hloose.plain
  next =>
    obtain ⟨rfl, -⟩ := Prod.mk.inj (Option.some.inj h)
    exact hs

theorem forest_transfer (hs : Forest s) (hitem : item ∈ s.contents fromCylinder)
    (hc : ∀ x, d.cylinder = .container x → s.isContainer x = true ∧ ¬s.Within x item)
    {moved : State} {moveItem : Option ItemRef}
    (h : transfer s fromCylinder d item toItem m = some (moved, moveItem)) : Forest moved := by
  have hremoved := hs.removeThing fromCylinder item m
  have hcontainer := isContainer_removeThing hs fromCylinder item m
  have hrest : ∀ {n}, transferRest (s.removeThing fromCylinder item m) d item n =
      some (moved, moveItem) → Forest moved :=
    forest_transferRest hremoved fun x hx => (hcontainer x).trans (hc x hx).1
  have hstackable : (s.removeThing fromCylinder item m).isStackable item = s.isStackable item :=
    (State.removal_removeThing hs.toLayered hitem m).isStackable item
  unfold transfer at h
  simp only at h
  split at h
  next hplain =>
    obtain ⟨rfl, -⟩ := Prod.mk.inj (Option.some.inj h)
    have hwhole : ¬s.removesPart item m := by
      intro hpart
      rw [hstackable, hpart.1] at hplain
      cases hplain
    apply hremoved.addThing (fun x hx => (hcontainer x).trans (hc x hx).1) _
      (nowhere_removeThing hs hitem hwhole)
    · rw [fresh_removeThing hs]
      exact hs.old _ item hitem
    · exact fun x hx hwithin => (hc x hx).2 (within_removeThing hs hwithin)
  next =>
    split at h
    next => exact hrest h
    next x =>
      split at h
      next =>
        have hupdate := State.sameHoldings_updateThing
          (s := s.removeThing fromCylinder item m) d.cylinder x
          ((s.removeThing fromCylinder item m).item x).id
          ((s.removeThing fromCylinder item m).getItemCount x +
            mergedCount (s.removeThing fromCylinder item m) x m)
        apply forest_transferRest (hremoved.updateThing d.cylinder x _) _ h
        intro z hz
        exact (hupdate.isContainer z).trans ((hcontainer z).trans (hc z hz).1)
      next => exact hrest h

theorem forest_notifyMove (hs : Forest s) (itemIndex : ℤ) (moveItem updateItem : Option ItemRef) :
    Forest (notifyMove s fromCylinder d itemIndex moveItem updateItem) := by
  have hnotify : ∀ {u : State} (c : Cylinder) (b : Prop) [Decidable b], Forest u →
      Forest (if b then u.postNotification c else u) := by
    intro u c b _ hu
    split
    · exact hu.postNotification c
    · exact hu
  unfold notifyMove
  exact hnotify _ _ (hnotify _ _ (hnotify _ _ hs))

theorem forest_moveAccepted (hs : Forest s)
    (hc : ∀ x, d.cylinder = .container x → s.isContainer x = true ∧ ¬s.Within x item)
    {r : MoveResult} (h : moveAccepted s fromCylinder d item toItem count tradeItem = some r) :
    Forest r.state := by
  rw [moveAccepted_eq] at h
  split at h
  next => exact Option.some.inj h ▸ hs
  split at h
  next => exact Option.some.inj h ▸ hs
  next hremove =>
    split at h
    next => exact Option.some.inj h ▸ hs
    next =>
      obtain ⟨⟨moved, moveItem⟩, htransfer, hr⟩ := Option.map_eq_some_iff.mp h
      have hitem := (queryRemove_spec (not_not.mp hremove)).1
      rw [← hr]
      exact forest_notifyMove (forest_transfer hs hitem hc htransfer) _ _ _

/-! ## Moves -/

theorem queryAdd_of_sourceAnswer {x : ItemRef}
    (h : sourceAnswer s fromCylinder item x = NOERROR) :
    s.queryAdd fromCylinder (s.getThingIndex fromCylinder item) x (s.getItemCount x) {} false =
      NOERROR := by
  unfold sourceAnswer at h
  simp only at h
  by_contra hrefused
  rw [if_pos hrefused] at h
  exact hrefused h

theorem forest_exchange (hs : Forest s) {x : ItemRef}
    (h : Exchanges s fromCylinder d item count actor x) (hsees : s.Sees fromCylinder {} x) :
    Forest (exchange s fromCylinder d x) := by
  obtain ⟨-, -, -, hsource, hremove⟩ := h
  have hheld : x ∈ s.contents d.cylinder := (queryRemove_spec hremove).1
  have htakes := hs.takes_of_answer hsees (queryAdd_of_sourceAnswer hsource)
  have hwhole : ¬s.removesPart x (s.getItemCount x) := fun hpart => hpart.2 rfl
  have hremoved := hs.removeThing d.cylinder x (s.getItemCount x)
  have hadded : Forest ((s.removeThing d.cylinder x (s.getItemCount x)).addThingAnywhere
      fromCylinder x) := by
    rw [State.addThingAnywhere_eq]
    apply hremoved.addThing _ _ (nowhere_removeThing hs hheld hwhole)
    · rw [fresh_removeThing hs]
      exact hs.old _ x hheld
    · exact fun z hz hwithin => (htakes z hz).2 (within_removeThing hs hwithin)
    · exact fun z hz => (isContainer_removeThing hs _ _ _ z).trans (htakes z hz).1
  have hnotify : ∀ {u : State} (c : Cylinder) (b : Prop) [Decidable b], Forest u →
      Forest (if b then u.postNotification c else u) := by
    intro u c b _ hu
    split
    · exact hu.postNotification c
    · exact hu
  unfold exchange
  exact hnotify _ _ (hnotify _ _ hadded)

/-- A container is asked once, in the state that the move begins with. -/
theorem asked_of_arrives (h : Arrives s fromCylinder d item count actor t toItem) {x : ItemRef}
    (hx : d.cylinder = .container x) :
    t = s ∧ s.queryAdd d.cylinder d.index item count d.flags actor = NOERROR := by
  cases h with
  | accepted _ hok => exact ⟨rfl, hok⟩
  | stuck _ _ _ hneed =>
    rw [hx] at hneed
    exact absurd hneed (containerQueryAdd_ne s x _ item count d.flags actor)
  | exchanged _ hex =>
    have hneed := hex.2.2.1
    rw [hx] at hneed
    exact absurd hneed (containerQueryAdd_ne s x _ item count d.flags actor)

/-- Nothing that the move puts down goes blindly into a container that stands in it. -/
structure MoveSees (s : State) (fromCylinder toCylinder : Cylinder) (index : ℤ) (item : ItemRef)
    (count : ℕ) (flags : cylinderflags_t) (actor : Bool) : Prop where
  moved : let d := destination s toCylinder index item flags
    s.queryAdd d.cylinder d.index item count d.flags actor = NOERROR → s.Sees d.cylinder d.flags item
  exchanged : ∀ toItem, Exchanges s fromCylinder (destination s toCylinder index item flags) item
    count actor toItem → s.Sees fromCylinder {} toItem

theorem forest_internalMoveItem (hs : Forest s)
    (hsees : MoveSees s fromCylinder toCylinder index item count flags actor) {r : MoveResult}
    (h : internalMoveItem s fromCylinder toCylinder index item count flags actor tradeItem =
      some r) : Forest r.state := by
  obtain ⟨hitem, htoItem⟩ := hsees
  unfold internalMoveItem at h
  simp only at h hitem
  generalize destination s toCylinder index item flags = d at h hitem htoItem
  split at h
  next => exact Option.some.inj h ▸ hs
  next hne =>
    obtain ⟨⟨ret, t, toItem⟩, hask, hrest⟩ := Option.bind_eq_some_iff.mp h
    have ht : Forest t := by
      rcases ask_cases hne hask with ⟨rfl, -⟩ | ⟨x, hex, rfl, -⟩
      · exact hs
      · exact forest_exchange hs hex (htoItem x hex)
    simp only at hrest
    split at hrest
    next => exact Option.some.inj hrest ▸ ht
    next hret =>
      rw [not_not.mp hret] at hask
      have harrives := arrives_of_ask hne hask
      apply forest_moveAccepted ht _ hrest
      intro x hx
      obtain ⟨rfl, hasked⟩ := asked_of_arrives harrives hx
      exact hs.takes_of_answer (hitem hasked) hasked x hx

/-! ## Additions -/

theorem queryAdd_of_addAnswer {destCylinder : Cylinder}
    (h : addAnswer s destCylinder item d = NOERROR) :
    s.queryAdd d.cylinder d.index item (s.getItemCount item) d.flags false = NOERROR := by
  unfold addAnswer at h
  simp only at h
  by_contra hrefused
  rw [if_pos hrefused] at h
  exact hrefused h

theorem forest_addAndNotify (hs : Forest s) (hnew : ∀ c, item ∉ s.contents c)
    (hold : item < s.fresh)
    (hc : ∀ x, d.cylinder = .container x → s.isContainer x = true ∧ ¬s.Within x item) :
    Forest (addAndNotify s d item) := by
  have hadded := hs.addThing (fun x hx => (hc x hx).1) d.index hnew hold fun x hx => (hc x hx).2
  unfold addAndNotify
  simp only
  split
  · exact hadded.postNotification d.cylinder
  · exact hadded

/-- What is no container can go anywhere. -/
theorem sees_of_plain {c : Cylinder} {y : ItemRef} (hplain : s.isContainer y = false)
    (h : s.queryAdd c index y count flags actor = NOERROR) {flags' : cylinderflags_t} :
    s.Sees c flags' y := by
  rintro x rfl -
  exact Forest.not_within_of_plain (State.isContainer_of_answer h) hplain

/-- The stack that is merged into stays, and the rest goes on as it is or as a clone. -/
theorem forest_mergeAndAdd (hs : Forest s) (hnew : ∀ c, item ∉ s.contents c)
    (hold : item < s.fresh)
    (hc : ∀ x, d.cylinder = .container x → s.isContainer x = true ∧ ¬s.Within x item) {x : ItemRef}
    {again : State → ItemRef → Option AddResult}
    (hagain : ∀ w y r, Loose (mergeState s d x m) w y → again w y = some r → Forest r.state)
    {r : AddResult} (h : mergeAndAdd s d item x m again = some r) : Forest r.state := by
  have hmerge : SameHoldings s (mergeState s d x m) := State.sameHoldings_updateThing _ _ _ _
  have hmerged : Forest (mergeState s d x m) := hs.updateThing d.cylinder x _
  have hinside : (mergeState s d x m).Inside = s.Inside := by
    funext a b
    exact congrArg (a ∈ ·) (hmerge.contents (.container b))
  unfold mergeAndAdd at h
  simp only at h
  split at h
  next =>
    split at h
    next =>
      obtain ⟨⟨w, y⟩, hclone, hmap⟩ := Option.bind_eq_some_iff.mp h
      obtain ⟨r', hr', rfl⟩ := Option.map_eq_some_iff.mp hmap
      exact hagain w y r' (loose_cloneItem hmerged hclone) hr'
    next =>
      rw [← Option.some.inj h]
      apply forest_addAndNotify hmerged
      · exact fun c hc => hnew c (hmerge.contents c ▸ hc)
      · exact hmerge.fresh ▸ hold
      · intro z hz
        unfold State.Within
        rw [hmerge.isContainer, hinside]
        exact hc z hz
  next =>
    rw [← Option.some.inj h]
    simp only
    split
    · exact hmerged.postNotification d.cylinder
    · exact hmerged

theorem forest_internalAddItemLoop {destCylinder : Cylinder} (fuel : ℕ) {test : Bool}
    {r : AddResult} (hs : Forest s) (hnew : ∀ c, item ∉ s.contents c) (hold : item < s.fresh)
    (hsees : let d := addDestination s destCylinder item index flags
      addAnswer s destCylinder item d = NOERROR → s.Sees d.cylinder d.flags item)
    (h : internalAddItemLoop destCylinder fuel s item index flags test = some r) :
    Forest r.state := by
  induction fuel generalizing s item index flags test r with
  | zero => cases h
  | succ fuel ih =>
    unfold internalAddItemLoop at h
    simp only at h hsees
    generalize addDestination s destCylinder item index flags = d at h hsees
    split at h
    next => exact Option.some.inj h ▸ hs
    next hanswer =>
      split at h
      next => exact Option.some.inj h ▸ hs
      next =>
        have hok := not_not.mp hanswer
        have htakes := hs.takes_of_answer (hsees hok) (queryAdd_of_addAnswer hok)
        split at h
        next x _ =>
          apply forest_mergeAndAdd hs hnew hold htakes _ h
          intro w y r' hloose hr'
          apply ih hloose.forest hloose.nowhere hloose.old _ hr'
          exact fun hok' => sees_of_plain hloose.plain (queryAdd_of_addAnswer hok')
        next =>
          rw [← Option.some.inj h]
          exact forest_addAndNotify hs hnew hold htakes

/-- The item that is added stands nowhere and goes blindly into nothing that stands in it. -/
structure AddSees (s : State) (toCylinder : Cylinder) (item : ItemRef) (index : ℤ)
    (flags : cylinderflags_t) : Prop where
  nowhere : ∀ c, item ∉ s.contents c
  old : item < s.fresh
  added : let d := addDestination s toCylinder item index flags
    addAnswer s toCylinder item d = NOERROR → s.Sees d.cylinder d.flags item

theorem forest_internalAddItem (hs : Forest s) {test : Bool}
    (hsees : AddSees s toCylinder item index flags) {r : AddResult}
    (h : internalAddItem s toCylinder item index flags test = some r) : Forest r.state :=
  forest_internalAddItemLoop _ hs hsees.nowhere hsees.old hsees.added h

/-! ## Removals -/

theorem forest_internalRemoveItem (hs : Forest s) (item : ItemRef) (n : ℤ) (test : Bool)
    (flags : cylinderflags_t) (houseBed : Bool) :
    Forest (internalRemoveItem s item n test flags houseBed).2 := by
  unfold internalRemoveItem
  split
  · exact hs
  dsimp only
  generalize (if n = -1 then s.getItemCount item else (n % 4294967296).toNat) = count
  split
  · exact hs
  split
  · exact hs
  split
  · exact hs
  · exact (hs.removeThing _ item _).postNotification _

end Calls

/-! ## Runs -/

/-- The calls, and the creation of the objects that they are called with. -/
inductive ItemCall
  | create (item : Item)
  | internalMoveItem (fromCylinder toCylinder : Cylinder) (index : ℤ) (item : ItemRef) (count : ℕ)
      (flags : cylinderflags_t) (actor : Bool) (tradeItem : Option ItemRef)
  | internalAddItem (toCylinder : Cylinder) (item : ItemRef) (index : ℤ) (flags : cylinderflags_t)
      (test : Bool)
  | internalRemoveItem (item : ItemRef) (count : ℤ) (test : Bool) (flags : cylinderflags_t)
      (houseBed : Bool)

/-- A new object has no parent and holds nothing. -/
def createItem (s : State) (item : Item) : State :=
  { s.setItem s.fresh { item with
      parent := none
      container := item.container.map fun container => { container with itemlist := [] } } with
    fresh := s.fresh + 1 }

def ItemCall.step (s : State) : ItemCall → Option State
  | .create item => some (createItem s item)
  | .internalMoveItem fromCylinder toCylinder index item count flags actor tradeItem =>
    (Game.internalMoveItem s fromCylinder toCylinder index item count flags actor tradeItem).map
      MoveResult.state
  | .internalAddItem toCylinder item index flags test =>
    (Game.internalAddItem s toCylinder item index flags test).map AddResult.state
  | .internalRemoveItem item count test flags houseBed =>
    some (Game.internalRemoveItem s item count test flags houseBed).2

/-- Nothing goes blindly into a container that stands in it. -/
def ItemCall.Sees (s : State) : ItemCall → Prop
  | .create _ => True
  | .internalMoveItem fromCylinder toCylinder index item count flags actor _ =>
    MoveSees s fromCylinder toCylinder index item count flags actor
  | .internalAddItem toCylinder item index flags _ => AddSees s toCylinder item index flags
  | .internalRemoveItem _ _ _ _ _ => True

theorem forest_step {s t : State} {call : ItemCall} (hs : Forest s) (hsees : call.Sees s)
    (h : call.step s = some t) : Forest t := by
  cases call with
  | create item =>
    rw [← Option.some.inj h]
    apply hs.create
    · rfl
    · cases item.container <;> rfl
  | internalMoveItem =>
    obtain ⟨r, hr, rfl⟩ := Option.map_eq_some_iff.mp h
    exact forest_internalMoveItem hs hsees hr
  | internalAddItem =>
    obtain ⟨r, hr, rfl⟩ := Option.map_eq_some_iff.mp h
    exact forest_internalAddItem hs hsees hr
  | internalRemoveItem item count test flags houseBed =>
    rw [← Option.some.inj h]
    exact forest_internalRemoveItem hs item count test flags houseBed

def rewards : Tables where
  types :=
    [plainGround,
      { id := 21584, group := .ITEM_GROUP_CONTAINER, type := .ITEM_TYPE_REWARDCHEST },
      { id := 1988, group := .ITEM_GROUP_CONTAINER, type := .ITEM_TYPE_CONTAINER, moveable := true,
        pickupable := true }]
  items :=
    [{ id := 4528, parent := some (.tile {}) },
      { id := 21584, parent := some (.tile {}),
        container := some { kind := .RewardChest, maxSize := 32 } },
      { id := 1988, parent := some (.tile {}), container := some { maxSize := 8 } }]
  tiles := [({}, { ground := some 0, downItems := [1, 2] })]

theorem rewards_forest : Forest rewards.state :=
  Tables.forest (by decide +kernel) (by decide +kernel) (by decide +kernel) (by decide +kernel)

/-- The flags of a script that calls `item:moveTo(container)`. -/
def moveToFlags : cylinderflags_t :=
  { FLAG_NOLIMIT := true, FLAG_IGNOREBLOCKITEM := true, FLAG_IGNOREBLOCKCREATURE := true
    FLAG_IGNORENOTMOVEABLE := true }

end TibiaServer.Game
