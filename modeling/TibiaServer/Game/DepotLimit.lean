import TibiaServer.Cylinders.DepotLimit
import TibiaServer.Game.AddCalls
import TibiaServer.Game.Forest
/-!
# Moves and additions within the limit of a depot chest

What a chest holds after a call is what it held before, with what is laid into it and
without what leaves it.  A chest that is asked has room for what it is asked for.  It
is not asked where something is laid into a container that stands in it, so that the
limit then holds just where there happens to be room.
-/

namespace TibiaServer.Game

open TibiaServer.Cylinders
open ReturnValue
open TibiaServer.Library

/-- How many things a transfer adds: an item that moves whole with what is in it, the
clone of what is left of a stack. -/
def laidUnits (t : State) (item : ItemRef) (toItem : Option ItemRef) (m : ℕ) : ℕ :=
  if t.isStackable item then if 0 < restCount t item toItem m then 1 else 0 else t.unitsIn item

section Counts

variable {s t : State} {fromCylinder toCylinder : Cylinder} {d : Destination} {item : ItemRef}
  {index : ℤ} {count m : ℕ} {flags : cylinderflags_t} {actor : Bool}
  {toItem tradeItem : Option ItemRef}

/-- Only a tile changes the flags. -/
theorem queryDestination_flags {c : Cylinder} (hc : ∀ pos, c ≠ .tile pos)
    (destItem : Option ItemRef) :
    (s.queryDestination c index item destItem flags).flags = flags := by
  cases c with
  | player p =>
    unfold State.queryDestination State.playerQueryDestination
    dsimp only
    split
    · split
      · rfl
      · split <;> rfl
    · split
      · split <;> rfl
      · rfl
  | container z =>
    have hindex : ∀ index destItem,
        (s.destinationAtIndex z index destItem flags).flags = flags := by
      intro index destItem
      unfold State.destinationAtIndex
      dsimp only
      split
      · split <;> rfl
      · rfl
    unfold State.queryDestination State.containerQueryDestination
    dsimp only
    split
    · rfl
    split
    · split <;> rfl
    split
    · split
      · rfl
      · exact hindex _ _
    · exact hindex _ _
  | tile pos => exact absurd rfl (hc pos)

/-- Nothing falls from a tile into a container. -/
theorem ne_tile_of_queryDestination {c : Cylinder} {destItem : Option ItemRef} {x : ItemRef}
    (hx : (s.queryDestination c index item destItem flags).cylinder = .container x)
    (pos : TibiaServer.World.Position) : c ≠ .tile pos := by
  rintro rfl
  unfold State.queryDestination State.tileQueryDestination at hx
  dsimp only at hx
  split at hx <;> cases hx

theorem destination_flags (hflags : flags.FLAG_NOLIMIT = false) {x : ItemRef}
    (hx : (destination s toCylinder index item flags).cylinder = .container x) :
    (destination s toCylinder index item flags).flags.FLAG_NOLIMIT = false := by
  have hloop : ∀ n (d : Destination), d.flags.FLAG_NOLIMIT = false →
      (destinationLoop s item n d).cylinder = .container x →
      (destinationLoop s item n d).flags.FLAG_NOLIMIT = false := by
    intro n
    induction n with
    | zero => exact fun d hd _ => hd
    | succ n ih =>
      intro d hd
      unfold destinationLoop
      dsimp only
      split
      · intro hx
        rw [queryDestination_flags (ne_tile_of_queryDestination hx)]
        exact hd
      · exact ih _ rfl
  exact hloop MAP_MAX_LAYERS ⟨toCylinder, index, none, flags⟩ hflags hx

/-- A removal leaves the way to a container that does not stand in what is taken. -/
theorem leads_removeThing (hs : Forest s) {c c' : Cylinder} {y x : ItemRef} (hy : y ∈ s.contents c')
    (hc : ∀ z, c = .container z → ¬s.Within z y) :
    (s.removeThing c' y count).Leads c x ↔ s.Leads c x := by
  by_cases hpart : s.removesPart y count
  · apply Forest.leads_of_contents
    intro z
    rw [(State.removeThing_part hs.toLayered hy hpart).contents]
    exact s.contents_setCount y _ _
  · have hadds := State.adds_removeThing hs.toLayered hy hpart
    constructor
    · rintro ⟨z, hz, hwithin⟩
      exact ⟨z, hz, within_removeThing hs hwithin⟩
    · rintro ⟨z, hz, hwithin⟩
      refine ⟨z, hz, ?_⟩
      rcases Relation.reflTransGen_iff_eq_or_transGen.mp hwithin with rfl | hbelow
      · exact .refl
      · rcases (Forest.below_of_adds_iff hadds hs).mp hbelow with hold | ⟨hzy, -⟩
        · exact hold.to_reflTransGen
        · exact absurd (within_removeThing hs hzy) (hc z hz)

theorem capacity_removeThing (c : Cylinder) (y : ItemRef) (x : ItemRef) :
    (s.removeThing c y count).capacity x = s.capacity x :=
  State.capacity_of_frames (State.sameFrames_removeThing c y count) x

theorem counted_removeThing (hs : Forest s) {c c' : Cylinder} {y : ItemRef} (hy : y ∈ s.contents c')
    (hc : ∀ z, c = .container z → ¬s.Within z y) (n : ℕ) (x : ItemRef) :
    (s.removeThing c' y count).counted c index n x = s.counted c index n x :=
  hs.counted_eq_of_leads (hs.removeThing c' y count) (leads_removeThing hs hy hc)
    (capacity_removeThing c' y) index n

/-- What is taken whole keeps what is in it. -/
theorem unitsIn_removeThing (hs : Forest s) {c : Cylinder} {y : ItemRef} (hy : y ∈ s.contents c)
    (hwhole : ¬s.removesPart y count) : (s.removeThing c y count).unitsIn y = s.unitsIn y :=
  (Forest.unitsIn_of_adds (State.adds_removeThing hs.toLayered hy hwhole) hs
    (hs.removeThing c y count)).symm

/-! ## The transfer -/

theorem count_transferRest (hs : Forest s)
    (hc : ∀ z, d.cylinder = .container z → s.isContainer z = true) {moved : State}
    {moveItem : Option ItemRef} (h : transferRest s d item m = some (moved, moveItem))
    (x : ItemRef) : moved.getItemHoldingCount x =
      s.getItemHoldingCount x + s.counted d.cylinder d.index (if 0 < m then 1 else 0) x := by
  unfold transferRest at h
  split at h
  next hpos =>
    obtain ⟨⟨w, y⟩, hclone, hmoved⟩ := Option.map_eq_some_iff.mp h
    obtain ⟨rfl, -⟩ := Prod.mk.inj hmoved
    have hloose := loose_cloneItem hs hclone
    have hcontents := contents_cloneItem hs hclone
    have htakes : ∀ z, d.cylinder = .container z → w.isContainer z = true ∧ ¬w.Within z y := by
      intro z hz
      have hcontainer := hloose.isContainer z (hc z hz)
      exact ⟨hcontainer, Forest.not_within_of_plain hcontainer hloose.plain⟩
    have hadded := hloose.forest.getItemHoldingCount_addThing htakes d.index hloose.nowhere
      hloose.old x
    have hsame : w.getItemHoldingCount x = s.getItemHoldingCount x :=
      hs.getItemHoldingCount_of_contents hloose.forest (fun z => hcontents _) x
    have hcounted : w.counted d.cylinder d.index 1 x = s.counted d.cylinder d.index 1 x :=
      hs.counted_eq_of_leads hloose.forest (Forest.leads_of_contents fun z => hcontents _)
        (State.capacity_of_frames (sameFrames_cloneItem hs hclone)) d.index 1
    rw [if_pos hpos]
    rw [State.unitsIn_of_plain hloose.plain, hsame, hcounted] at hadded
    exact hadded
  next hzero =>
    obtain ⟨rfl, -⟩ := Prod.mk.inj (Option.some.inj h)
    have hnothing := s.counted_le d.cylinder d.index 0 x
    rw [if_neg hzero]
    omega

/-- A transfer takes the item out of the source and lays it, or the rest, at the place. -/
theorem count_transfer (hs : Forest s) (hitem : item ∈ s.contents fromCylinder)
    (hc : ∀ z, d.cylinder = .container z → s.isContainer z = true ∧ ¬s.Within z item)
    (htarget : toItem ≠ some item) {moved : State} {moveItem : Option ItemRef}
    (h : transfer s fromCylinder d item toItem m = some (moved, moveItem)) (x : ItemRef) :
    moved.getItemHoldingCount x + s.uncounted fromCylinder item m x =
      s.getItemHoldingCount x + s.counted d.cylinder d.index (laidUnits s item toItem m) x := by
  have hremoval := State.removal_removeThing hs.toLayered hitem m
  have hu := hs.removeThing fromCylinder item m
  have htaken := hs.getItemHoldingCount_removeThing hitem m x
  have hcontainer := isContainer_removeThing hs fromCylinder item m
  have hcounted : ∀ n, (s.removeThing fromCylinder item m).counted d.cylinder d.index n x =
      s.counted d.cylinder d.index n x :=
    fun n => counted_removeThing hs hitem (fun z hz => (hc z hz).2) n x
  unfold laidUnits
  by_cases hstack : s.isStackable item = true
  · rw [transfer_of_stackable hremoval hstack htarget] at h
    rw [if_pos hstack, ← hcounted]
    unfold restCount
    split at h
    next y hmerge =>
      have hupdate := State.sameHoldings_updateThing (s := s.removeThing fromCylinder item m)
        d.cylinder y (s.item y).id (s.getItemCount y + mergedCount s y m)
      have hv : Forest ((s.removeThing fromCylinder item m).updateThing d.cylinder y
          (s.item y).id (s.getItemCount y + mergedCount s y m)) := by
        rw [← hremoval.id]
        exact hu.updateThing d.cylinder y _
      have hrest := count_transferRest hv
        (fun z hz => (hupdate.isContainer z).trans ((hcontainer z).trans (hc z hz).1)) h x
      have hsame := hu.getItemHoldingCount_of_contents hv (fun z => hupdate.contents _) x
      have hplace := fun n => hu.counted_eq_of_leads (c := d.cylinder) (x := x) hv
        (Forest.leads_of_contents fun z => hupdate.contents _)
        (State.capacity_of_frames (State.sameFrames_updateThing _ _ _ _)) d.index n
      rw [hsame, hplace] at hrest
      omega
    next hmerge =>
      have hrest := count_transferRest hu (fun z hz => (hcontainer z).trans (hc z hz).1) h x
      omega
  · have hplain : s.isStackable item = false := by simpa using hstack
    have hwhole : ¬s.removesPart item m := fun hpart => hstack hpart.1
    rw [transfer_of_plain d toItem hremoval hplain] at h
    obtain ⟨rfl, -⟩ := Prod.mk.inj (Option.some.inj h)
    have hold : item < (s.removeThing fromCylinder item m).fresh := by
      rw [fresh_removeThing hs]
      exact hs.old _ item hitem
    have htakes : ∀ z, d.cylinder = .container z →
        (s.removeThing fromCylinder item m).isContainer z = true ∧
          ¬(s.removeThing fromCylinder item m).Within z item := by
      intro z hz
      exact ⟨(hcontainer z).trans (hc z hz).1,
        fun hwithin => (hc z hz).2 (within_removeThing hs hwithin)⟩
    have hadded := hu.getItemHoldingCount_addThing htakes d.index
      (nowhere_removeThing hs hitem hwhole) hold x
    rw [hcounted, unitsIn_removeThing hs hitem hwhole] at hadded
    rw [if_neg hstack]
    omega

/-! ## The exchange -/

/-- The item in the way comes to the source with what is in it. -/
theorem count_exchange (hs : Forest s) {y : ItemRef}
    (h : Exchanges s fromCylinder d item count actor y) (hsees : s.Sees fromCylinder {} y)
    (x : ItemRef) : (exchange s fromCylinder d y).getItemHoldingCount x =
      s.getItemHoldingCount x + s.counted fromCylinder 0 (s.unitsIn y) x := by
  have hplaces := exchange_places s fromCylinder d y
  have hnot := destination_ne_container h
  obtain ⟨-, -, -, hsource, hremove⟩ := h
  have hheld : y ∈ s.contents d.cylinder := (queryRemove_spec hremove).1
  have htakes := hs.takes_of_answer hsees (queryAdd_of_sourceAnswer hsource)
  have hwhole : ¬s.removesPart y (s.getItemCount y) := fun hpart => hpart.2 rfl
  have hu := hs.removeThing d.cylinder y (s.getItemCount y)
  have htaken := hs.getItemHoldingCount_removeThing hheld (s.getItemCount y) x
  have hstays : s.uncounted d.cylinder y (s.getItemCount y) x = 0 := by
    unfold State.uncounted State.reaches
    cases hc : d.cylinder with
    | container z => exact absurd hc (hnot z)
    | player p | tile pos => simp
  have hcounted : (s.removeThing d.cylinder y (s.getItemCount y)).counted fromCylinder 0
      (s.unitsIn y) x = s.counted fromCylinder 0 (s.unitsIn y) x :=
    counted_removeThing hs hheld (fun z hz => (htakes z hz).2) (s.unitsIn y) x
  have hunits := unitsIn_removeThing hs hheld hwhole
  have htakesU : ∀ z, fromCylinder = .container z →
      (s.removeThing d.cylinder y (s.getItemCount y)).isContainer z = true ∧
        ¬(s.removeThing d.cylinder y (s.getItemCount y)).Within z y := by
    intro z hz
    exact ⟨(isContainer_removeThing hs _ _ _ z).trans (htakes z hz).1,
      fun hwithin => (htakes z hz).2 (within_removeThing hs hwithin)⟩
  have hold : y < (s.removeThing d.cylinder y (s.getItemCount y)).fresh := by
    rw [fresh_removeThing hs]
    exact hs.old _ y hheld
  have hnew := nowhere_removeThing hs hheld hwhole
  rw [State.addThingAnywhere_eq] at hplaces
  have hadded := hu.getItemHoldingCount_addThing htakesU 0 hnew hold x
  rw [State.getItemHoldingCount_of_places hplaces, hadded, hunits, hcounted]
  omega

/-! ## What a container is stays -/

theorem sameFrames_transferRest (hs : Forest s) {moved : State} {moveItem : Option ItemRef}
    (h : transferRest s d item m = some (moved, moveItem)) : SameFrames s moved := by
  unfold transferRest at h
  split at h
  next =>
    obtain ⟨⟨w, y⟩, hclone, hmoved⟩ := Option.map_eq_some_iff.mp h
    obtain ⟨rfl, -⟩ := Prod.mk.inj hmoved
    exact (sameFrames_cloneItem hs hclone).trans (State.sameFrames_addThing _ _ _)
  next =>
    obtain ⟨rfl, -⟩ := Prod.mk.inj (Option.some.inj h)
    exact .refl s

theorem sameFrames_transfer (hs : Forest s) {moved : State} {moveItem : Option ItemRef}
    (h : transfer s fromCylinder d item toItem m = some (moved, moveItem)) :
    SameFrames s moved := by
  have hu := hs.removeThing fromCylinder item m
  have hremoved := State.sameFrames_removeThing (s := s) fromCylinder item m
  unfold transfer at h
  simp only at h
  split at h
  next =>
    obtain ⟨rfl, -⟩ := Prod.mk.inj (Option.some.inj h)
    exact hremoved.trans (State.sameFrames_addThing _ _ _)
  next =>
    split at h
    next => exact hremoved.trans (sameFrames_transferRest hu h)
    next x =>
      split at h
      next =>
        exact (hremoved.trans (State.sameFrames_updateThing d.cylinder x _ _)).trans
          (sameFrames_transferRest (hu.updateThing d.cylinder x _) h)
      next => exact hremoved.trans (sameFrames_transferRest hu h)

theorem sameFrames_exchange (y : ItemRef) : SameFrames s (exchange s fromCylinder d y) :=
  ((State.sameFrames_removeThing _ _ _).trans (State.sameFrames_addThingAnywhere _ _)).trans
    (exchange_places s fromCylinder d y).sameFrames

theorem sameFrames_internalMoveItem (hs : Forest s)
    (hsees : MoveSees s fromCylinder toCylinder index item count flags actor) {r : MoveResult}
    (h : internalMoveItem s fromCylinder toCylinder index item count flags actor tradeItem =
      some r) : SameFrames s r.state := by
  rcases internalMoveItem_cases h with hsame | ⟨y, -, -, hstate⟩ |
    ⟨t, toItem, moved, moveItem, harrives, -, htransfer, hplaces, -⟩
  · rw [hsame]
    exact .refl s
  · rw [hstate]
    exact sameFrames_exchange y
  · refine SameFrames.trans ?_ hplaces.sameFrames
    cases harrives with
    | accepted _ _ => exact sameFrames_transfer hs htransfer
    | stuck _ _ _ _ _ _ => exact sameFrames_transfer hs htransfer
    | exchanged y hex _ =>
      exact (sameFrames_exchange y).trans
        (sameFrames_transfer (forest_exchange hs hex (hsees.exchanged y hex)) htransfer)

end Counts

/-! ## Moves -/

/-- The destination takes the item and the source gives it, with no exchange. -/
structure Moves (s : State) (fromCylinder : Cylinder) (d : Destination) (item : ItemRef)
    (count : ℕ) (actor : Bool) (tradeItem : Option ItemRef) : Prop where
  other : d.destItem ≠ some item
  accepted : s.queryAdd d.cylinder d.index item count d.flags actor = NOERROR
  goes : Goes s fromCylinder d item count tradeItem

/-- With the item in the way at the source, the destination takes the item and the
source gives it. -/
structure Follows (t : State) (fromCylinder : Cylinder) (d : Destination) (item : ItemRef)
    (count : ℕ) (tradeItem : Option ItemRef) : Prop where
  accepted : t.queryAdd d.cylinder d.index item count d.flags false = NOERROR
  goes : Goes t fromCylinder d item count tradeItem

/-- What the move lays into a chest fits there, or the chest is asked for it.  That is the
item, and for an exchange the item in the way, with the item out of the chest if it
follows. -/
structure MoveFits (s : State) (fromCylinder toCylinder : Cylinder) (index : ℤ) (item : ItemRef)
    (count : ℕ) (flags : cylinderflags_t) (actor : Bool) (tradeItem : Option ItemRef)
    (x : ItemRef) (limit : ℕ) : Prop where
  moved : let d := destination s toCylinder index item flags
    let m := movedCount s d item count
    Moves s fromCylinder d item count actor tradeItem →
      ¬s.asksDepot d.cylinder d.flags item count x →
      s.getItemHoldingCount x + s.counted d.cylinder d.index (laidUnits s item d.destItem m) x ≤
        limit + s.uncounted fromCylinder item m x
  exchanged : ∀ toItem, let d := destination s toCylinder index item flags
    let t := exchange s fromCylinder d toItem
    Exchanges s fromCylinder d item count actor toItem →
      ¬s.asksDepot fromCylinder {} toItem (s.getItemCount toItem) x →
      Follows t fromCylinder d item count tradeItem →
      s.getItemHoldingCount x + s.counted fromCylinder 0 (s.unitsIn toItem) x ≤
        limit + t.uncounted fromCylinder item (movedCount t d item count) x
  shed : ∀ toItem, let d := destination s toCylinder index item flags
    Exchanges s fromCylinder d item count actor toItem →
      ¬s.asksDepot fromCylinder {} toItem (s.getItemCount toItem) x →
      ¬Follows (exchange s fromCylinder d toItem) fromCylinder d item count tradeItem →
      s.getItemHoldingCount x + s.counted fromCylinder 0 (s.unitsIn toItem) x ≤ limit

section Moves

variable {s : State} {fromCylinder toCylinder : Cylinder} {index : ℤ} {item : ItemRef} {count : ℕ}
  {flags : cylinderflags_t} {actor : Bool} {tradeItem : Option ItemRef} {r : MoveResult}

/-- What the chest holds after the item has moved from the state `t`. -/
theorem count_of_goes {t : State} {toItem : Option ItemRef} (ht : Forest t)
    (harrives : Arrives s fromCylinder (destination s toCylinder index item flags) item count actor
      t toItem)
    (hgoes : Goes t fromCylinder (destination s toCylinder index item flags) item count tradeItem)
    (hc : ∀ z, (destination s toCylinder index item flags).cylinder = .container z →
      t.isContainer z = true ∧ ¬t.Within z item)
    (h : internalMoveItem s fromCylinder toCylinder index item count flags actor tradeItem =
      some r) (x : ItemRef) :
    let d := destination s toCylinder index item flags
    let m := movedCount t d item count
    r.state.getItemHoldingCount x + t.uncounted fromCylinder item m x =
      t.getItemHoldingCount x + t.counted d.cylinder d.index (laidUnits t item toItem m) x := by
  have hitem := (queryRemove_spec hgoes.remove).1
  rw [internalMoveItem_of_arrives harrives] at h
  rcases moveAccepted_cases h with ⟨hno, -⟩ | ⟨-, moved, moveItem, htransfer, hplaces, -⟩
  · exact absurd hgoes hno
  have htarget : toItem ≠ some item := by
    cases harrives with
    | accepted hne _ => exact hne
    | stuck y hy hne _ _ _ =>
      rw [hy]
      exact fun heq => hne (Option.some.inj heq)
    | exchanged _ _ _ => exact nofun
  rw [State.getItemHoldingCount_of_places hplaces]
  exact count_transfer ht hitem hc htarget htransfer x

theorem count_of_moves (hs : Forest s)
    (hsees : MoveSees s fromCylinder toCylinder index item count flags actor)
    (hmoves : Moves s fromCylinder (destination s toCylinder index item flags) item count actor
      tradeItem)
    (h : internalMoveItem s fromCylinder toCylinder index item count flags actor tradeItem =
      some r) (x : ItemRef) :
    let d := destination s toCylinder index item flags
    let m := movedCount s d item count
    r.state.getItemHoldingCount x + s.uncounted fromCylinder item m x =
      s.getItemHoldingCount x + s.counted d.cylinder d.index (laidUnits s item d.destItem m) x :=
  count_of_goes hs (.accepted hmoves.other hmoves.accepted)
    hmoves.goes (hs.takes_of_answer (hsees.moved hmoves.accepted) hmoves.accepted) h x

theorem count_of_follows (hs : Forest s)
    (hsees : MoveSees s fromCylinder toCylinder index item count flags actor) {y : ItemRef}
    (hex : Exchanges s fromCylinder (destination s toCylinder index item flags) item count actor y)
    (hfollows : Follows (exchange s fromCylinder (destination s toCylinder index item flags) y)
      fromCylinder (destination s toCylinder index item flags) item count tradeItem)
    (h : internalMoveItem s fromCylinder toCylinder index item count flags actor tradeItem =
      some r) (x : ItemRef) :
    let d := destination s toCylinder index item flags
    let t := exchange s fromCylinder d y
    r.state.getItemHoldingCount x + t.uncounted fromCylinder item (movedCount t d item count) x =
      s.getItemHoldingCount x + s.counted fromCylinder 0 (s.unitsIn y) x := by
  have hnot := destination_ne_container hex
  have ht := forest_exchange hs hex (hsees.exchanged y hex)
  have hcount := count_of_goes ht
    (.exchanged y hex hfollows.accepted) hfollows.goes (fun z hz => absurd hz (hnot z)) h x
  dsimp only at hcount ⊢
  rwa [State.counted_of_ne hnot, Nat.add_zero, count_exchange hs hex (hsees.exchanged y hex)] at hcount

/-- Where the item does not follow, the exchange is all. -/
theorem state_of_shed {y : ItemRef}
    (hex : Exchanges s fromCylinder (destination s toCylinder index item flags) item count actor y)
    (hshed : ¬Follows (exchange s fromCylinder (destination s toCylinder index item flags) y)
      fromCylinder (destination s toCylinder index item flags) item count tradeItem)
    (h : internalMoveItem s fromCylinder toCylinder index item count flags actor tradeItem =
      some r) :
    r.state = exchange s fromCylinder (destination s toCylinder index item flags) y := by
  by_cases haccepted : (exchange s fromCylinder
      (destination s toCylinder index item flags) y).queryAdd
      (destination s toCylinder index item flags).cylinder
      (destination s toCylinder index item flags).index item count
      (destination s toCylinder index item flags).flags false = NOERROR
  · rw [internalMoveItem_of_arrives (.exchanged y hex haccepted)] at h
    rcases moveAccepted_cases h with ⟨-, -, hstate⟩ | ⟨hgoes, -⟩
    · exact hstate
    · exact absurd ⟨haccepted, hgoes⟩ hshed
  · obtain ⟨r', hr', hstate⟩ := internalMoveItem_of_exchange hex haccepted
    obtain rfl : r' = r := Option.some.inj (hr'.symm.trans h)
    exact hstate

theorem count_of_shed (hs : Forest s)
    (hsees : MoveSees s fromCylinder toCylinder index item count flags actor) {y : ItemRef}
    (hex : Exchanges s fromCylinder (destination s toCylinder index item flags) item count actor y)
    (hshed : ¬Follows (exchange s fromCylinder (destination s toCylinder index item flags) y)
      fromCylinder (destination s toCylinder index item flags) item count tradeItem)
    (h : internalMoveItem s fromCylinder toCylinder index item count flags actor tradeItem =
      some r) (x : ItemRef) : r.state.getItemHoldingCount x =
        s.getItemHoldingCount x + s.counted fromCylinder 0 (s.unitsIn y) x := by
  rw [state_of_shed hex hshed h]
  exact count_exchange hs hex (hsees.exchanged y hex) x

/-- A move lays the item at the place or the item in the way at the source, or lays nothing
into a container. -/
theorem move_paths (hs : Forest s)
    (h : internalMoveItem s fromCylinder toCylinder index item count flags actor tradeItem =
      some r) :
    let d := destination s toCylinder index item flags
    Moves s fromCylinder d item count actor tradeItem ∨
      (∃ y, Exchanges s fromCylinder d item count actor y) ∨
      ∀ x, r.state.getItemHoldingCount x ≤ s.getItemHoldingCount x := by
  rcases internalMoveItem_cases h with hsame | ⟨y, hex, -, -⟩ |
    ⟨t, toItem, moved, moveItem, harrives, hgoes, htransfer, hplaces, -⟩
  · exact .inr (.inr fun x => (congrArg (State.getItemHoldingCount · x) hsame).le)
  · exact .inr (.inl ⟨y, hex⟩)
  · cases harrives with
    | accepted hne hok => exact .inl ⟨hne, hok, hgoes⟩
    | exchanged y hex _ => exact .inr (.inl ⟨y, hex⟩)
    | stuck y hy hne hneed hsource hremove =>
      have hnot : ∀ z, (destination s toCylinder index item flags).cylinder ≠ .container z := by
        intro z hz
        rw [hz] at hneed
        exact containerQueryAdd_ne s z _ item count _ actor hneed
      refine .inr (.inr fun x => ?_)
      have hcount := count_of_goes hs (.stuck y hy hne hneed hsource hremove) hgoes
        (fun z hz => absurd hz (hnot z)) h x
      dsimp only at hcount
      rw [State.counted_of_ne hnot] at hcount
      omega

theorem laidUnits_le {y x : ItemRef} {count m : ℕ} {toItem : Option ItemRef}
    (hasked : s.getTopParent y ≠ some (.container x) ∨
      s.isStackable y = true ∧ s.getItemCount y ≠ count) :
    laidUnits s y toItem m ≤ s.depotCount y x := by
  have hone : 1 ≤ s.unitsIn y := Nat.le_add_left 1 _
  unfold laidUnits State.depotCount
  rcases hasked with htop | ⟨hstack, -⟩
  · rw [if_pos htop]
    split
    · split <;> omega
    · exact le_refl _
  · rw [if_pos hstack]
    split <;> split <;> omega

/-- Within the limit a move stays within it exactly when what it lays fits. -/
theorem internalMoveItem_withinDepotLimit_iff (hs : Forest s) (hwithin : s.WithinDepotLimit)
    (hflags : flags.FLAG_NOLIMIT = false)
    (hsees : MoveSees s fromCylinder toCylinder index item count flags actor)
    (h : internalMoveItem s fromCylinder toCylinder index item count flags actor tradeItem =
      some r) :
    r.state.WithinDepotLimit ↔ ∀ x limit, s.depotLimit x = some limit →
      MoveFits s fromCylinder toCylinder index item count flags actor tradeItem x limit := by
  have hlimits := State.depotLimit_of_frames (sameFrames_internalMoveItem hs hsees h)
  constructor
  · intro hafter x limit hlimit
    have hbound := hafter x limit ((hlimits x).trans hlimit)
    constructor
    · dsimp only
      intro hmoves _
      have hcount := count_of_moves hs hsees hmoves h x
      dsimp only at hcount
      omega
    · intro y
      dsimp only
      intro hex _ hfollows
      have hcount := count_of_follows hs hsees hex hfollows h x
      dsimp only at hcount
      omega
    · intro y
      dsimp only
      intro hex _ hshed
      have hcount := count_of_shed hs hsees hex hshed h x
      omega
  · intro hfits x limit hlimit
    rw [hlimits] at hlimit
    have hbefore := hwithin x limit hlimit
    obtain ⟨hmoved, hexchanged, hshed⟩ := hfits x limit hlimit
    rcases move_paths hs h with hmoves | ⟨y, hex⟩ | hless
    · have hcount := count_of_moves hs hsees hmoves h x
      by_cases hasks : s.asksDepot (destination s toCylinder index item flags).cylinder
          (destination s toCylinder index item flags).flags item count x
      · have hflagsD : (destination s toCylinder index item flags).flags.FLAG_NOLIMIT = false := by
          rcases hasks.1 with hc | ⟨z, hc, -⟩
          · exact destination_flags hflags hc
          · exact destination_flags hflags hc
        have hroom := State.room_of_asksDepot hmoves.accepted hflagsD hasks hlimit
        have hlaid : laidUnits s item (destination s toCylinder index item flags).destItem
            (movedCount s (destination s toCylinder index item flags) item count) ≤
            s.depotCount item x :=
          laidUnits_le hasks.2
        have hle := s.counted_le (destination s toCylinder index item flags).cylinder
          (destination s toCylinder index item flags).index
          (laidUnits s item (destination s toCylinder index item flags).destItem
            (movedCount s (destination s toCylinder index item flags) item count)) x
        dsimp only at hcount
        omega
      · have hroom := hmoved hmoves hasks
        dsimp only at hcount hroom
        omega
    · have hlaid : r.state.getItemHoldingCount x ≤
          s.getItemHoldingCount x + s.counted fromCylinder 0 (s.unitsIn y) x := by
        by_cases hfollows : Follows (exchange s fromCylinder
            (destination s toCylinder index item flags) y) fromCylinder
            (destination s toCylinder index item flags) item count tradeItem
        · have hcount := count_of_follows hs hsees hex hfollows h x
          dsimp only at hcount
          omega
        · exact (count_of_shed hs hsees hex hfollows h x).le
      by_cases hasks : s.asksDepot fromCylinder {} y (s.getItemCount y) x
      · have hroom := State.room_of_asksDepot (queryAdd_of_sourceAnswer hex.2.2.2.1) rfl hasks hlimit
        have hall : s.depotCount y x = s.unitsIn y := by
          have htop := hasks.2.resolve_right fun hpart => hpart.2 rfl
          exact if_pos htop
        have hle := s.counted_le fromCylinder 0 (s.unitsIn y) x
        omega
      · by_cases hfollows : Follows (exchange s fromCylinder
            (destination s toCylinder index item flags) y) fromCylinder
            (destination s toCylinder index item flags) item count tradeItem
        · have hroom := hexchanged y hex hasks hfollows
          have hcount := count_of_follows hs hsees hex hfollows h x
          dsimp only at hcount hroom
          omega
        · exact hlaid.trans (hshed y hex hasks hfollows)
    · exact (hless x).trans hbefore

end Moves

/-! ## Additions -/

/-- The call comes to adding the item `y` at the place `d` that is found in the state `t`. -/
inductive Lays (destCylinder : Cylinder) :
    State → ItemRef → ℤ → cylinderflags_t → State → ItemRef → Destination → Prop
  | placed {s item index flags d} (hd : addDestination s destCylinder item index flags = d)
      (h : addAnswer s destCylinder item d = NOERROR) (hnone : addTarget s item d = none) :
      Lays destCylinder s item index flags s item d
  | beside {s item index flags d x m} (hd : addDestination s destCylinder item index flags = d)
      (h : addAnswer s destCylinder item d = NOERROR) (hx : addTarget s item d = some x)
      (hm : addCount s destCylinder item d = m) (hrest : 0 < m - mergedCount s x m)
      (hall : s.getItemCount item = m - mergedCount s x m) :
      Lays destCylinder s item index flags s item d
  | split {s item index flags d x m w y t z e}
      (hd : addDestination s destCylinder item index flags = d)
      (h : addAnswer s destCylinder item d = NOERROR) (hx : addTarget s item d = some x)
      (hm : addCount s destCylinder item d = m) (hrest : 0 < m - mergedCount s x m)
      (hpart : s.getItemCount item ≠ m - mergedCount s x m)
      (hclone : cloneItem (mergeState s d x m) item (m - mergedCount s x m) = some (w, y))
      (again : Lays destCylinder w y INDEX_WHEREEVER d.flags t z e) :
      Lays destCylinder s item index flags t z e

/-- What the call lays into a chest fits there, or the chest is asked for it. -/
def AddFits (s : State) (destCylinder : Cylinder) (item : ItemRef) (index : ℤ)
    (flags : cylinderflags_t) (x : ItemRef) (limit : ℕ) : Prop :=
  ∀ t y d, Lays destCylinder s item index flags t y d →
    ¬t.asksDepot d.cylinder d.flags y (t.getItemCount y) x →
    s.getItemHoldingCount x + t.counted d.cylinder d.index (t.unitsIn y) x ≤ limit

section Additions

variable {s t : State} {destCylinder : Cylinder} {d e : Destination} {item y : ItemRef} {index : ℤ}
  {flags : cylinderflags_t} {r : AddResult}

theorem forest_mergeState (hs : Forest s) (d : Destination) (x : ItemRef) (m : ℕ) :
    Forest (mergeState s d x m) :=
  hs.updateThing d.cylinder x _

theorem count_mergeState (hs : Forest s) (d : Destination) (z : ItemRef) (m : ℕ) (x : ItemRef) :
    (mergeState s d z m).getItemHoldingCount x = s.getItemHoldingCount x :=
  hs.getItemHoldingCount_updateThing d.cylinder z _ x

theorem count_cloneItem (hs : Forest s) {count : ℕ} {w : State}
    (h : cloneItem s item count = some (w, y)) (x : ItemRef) :
    w.getItemHoldingCount x = s.getItemHoldingCount x :=
  hs.getItemHoldingCount_of_contents (loose_cloneItem hs h).forest
    (fun _ => contents_cloneItem hs h _) x

/-- What a call lays is asked for in a state with the same counts. -/
theorem lays_spec (h : Lays destCylinder s item index flags t y d) (hs : Forest s) :
    SameFrames s t ∧ (∀ x, t.getItemHoldingCount x = s.getItemHoldingCount x) ∧
      t.queryAdd d.cylinder d.index y (t.getItemCount y) d.flags false = NOERROR := by
  induction h with
  | placed _ hok _ => exact ⟨.refl _, fun _ => rfl, queryAdd_of_addAnswer hok⟩
  | beside _ hok _ _ _ _ => exact ⟨.refl _, fun _ => rfl, queryAdd_of_addAnswer hok⟩
  | @split s _ _ _ d z m _ _ _ _ _ _ _ _ _ _ _ hclone _ ih =>
    have hmerged := forest_mergeState hs d z m
    obtain ⟨hframes, hcount, hanswer⟩ := ih (loose_cloneItem hmerged hclone).forest
    refine ⟨?_, fun x => ?_, hanswer⟩
    · exact ((State.sameFrames_updateThing _ _ _ _).trans
        (sameFrames_cloneItem hmerged hclone)).trans hframes
    · rw [hcount, count_cloneItem hmerged hclone, count_mergeState hs]

/-- A call in a call lifts the limit for tiles only. -/
theorem lays_flags (h : Lays destCylinder s item index flags t y d)
    (hflags : (∀ pos, destCylinder ≠ .tile pos) → flags.FLAG_NOLIMIT = false) {x : ItemRef}
    (hx : d.cylinder = .container x) : d.flags.FLAG_NOLIMIT = false := by
  have hfound : ∀ {s item index flags d}, addDestination s destCylinder item index flags = d →
      (∀ pos, destCylinder ≠ .tile pos) → d.flags = flags := by
    intro s item index flags d hd hc
    rw [← hd]
    exact queryDestination_flags hc none
  have hplace : ∀ {s item index flags d}, addDestination s destCylinder item index flags = d →
      d.cylinder = .container x → ∀ pos, destCylinder ≠ .tile pos := by
    intro s item index flags d hd hx
    rw [← hd] at hx
    exact ne_tile_of_queryDestination hx
  induction h with
  | placed hd _ _ | beside hd _ _ _ _ _ =>
    have hc := hplace hd hx
    rw [hfound hd hc]
    exact hflags hc
  | split hd _ _ _ _ _ _ _ ih =>
    apply ih _ hx
    intro hc
    rw [hfound hd hc]
    exact hflags hc

/-- Once the place is found, the ways through the code exclude each other. -/
theorem lays_cases (h : Lays destCylinder s item index flags t y e)
    (hd : addDestination s destCylinder item index flags = d) :
    addAnswer s destCylinder item d = NOERROR ∧
      ((addTarget s item d = none ∨ ∃ x, addTarget s item d = some x ∧
          0 < addCount s destCylinder item d - mergedCount s x (addCount s destCylinder item d) ∧
          s.getItemCount item = addCount s destCylinder item d -
            mergedCount s x (addCount s destCylinder item d)) ∧ t = s ∧ y = item ∧ e = d ∨
        ∃ x w z, addTarget s item d = some x ∧
          0 < addCount s destCylinder item d - mergedCount s x (addCount s destCylinder item d) ∧
          s.getItemCount item ≠ addCount s destCylinder item d -
            mergedCount s x (addCount s destCylinder item d) ∧
          cloneItem (mergeState s d x (addCount s destCylinder item d)) item
            (addCount s destCylinder item d -
              mergedCount s x (addCount s destCylinder item d)) = some (w, z) ∧
          Lays destCylinder w z INDEX_WHEREEVER d.flags t y e) := by
  subst hd
  cases h with
  | placed hd hok hnone =>
    subst hd
    exact ⟨hok, .inl ⟨.inl hnone, rfl, rfl, rfl⟩⟩
  | beside hd hok hx hm hrest hall =>
    subst hd hm
    exact ⟨hok, .inl ⟨.inr ⟨_, hx, hrest, hall⟩, rfl, rfl, rfl⟩⟩
  | split hd hok hx hm hrest hpart hclone again =>
    subst hd hm
    exact ⟨hok, .inr ⟨_, _, _, hx, hrest, hpart, hclone, again⟩⟩

/-- The clone of what is left of a stack is laid where the stack is. -/
theorem lays_of_split {x z : ItemRef} {w : State} {m : ℕ}
    (h : Lays destCylinder s item index flags t y e)
    (hd : addDestination s destCylinder item index flags = d) (hx : addTarget s item d = some x)
    (hm : addCount s destCylinder item d = m) (hpart : s.getItemCount item ≠ m - mergedCount s x m)
    (hclone : cloneItem (mergeState s d x m) item (m - mergedCount s x m) = some (w, z)) :
    Lays destCylinder w z INDEX_WHEREEVER d.flags t y e := by
  subst hm
  rcases (lays_cases h hd).2 with ⟨hnone | ⟨x', hx', -, hall⟩, -⟩ |
    ⟨x', w', z', hx', -, -, hclone', again⟩
  · rw [hx] at hnone
    cases hnone
  · obtain rfl := Option.some.inj (hx.symm.trans hx')
    exact absurd hall hpart
  · obtain rfl := Option.some.inj (hx.symm.trans hx')
    obtain ⟨rfl, rfl⟩ := Prod.mk.inj (Option.some.inj (hclone.symm.trans hclone'))
    exact again

/-- A stack that is merged as a whole is not laid. -/
theorem not_lays_of_merged {x : ItemRef} {m : ℕ}
    (hd : addDestination s destCylinder item index flags = d) (hx : addTarget s item d = some x)
    (hm : addCount s destCylinder item d = m) (hfits : m - mergedCount s x m = 0) :
    ¬Lays destCylinder s item index flags t y e := by
  subst hm
  intro h
  rcases (lays_cases h hd).2 with ⟨hnone | ⟨x', hx', hrest, -⟩, -⟩ | ⟨x', w, z, hx', hrest, -⟩
  · rw [hx] at hnone
    cases hnone
  all_goals
    obtain rfl := Option.some.inj (hx.symm.trans hx')
    exact hrest.ne' hfits

theorem lays_unique {t' : State} {y' : ItemRef}
    (h : Lays destCylinder s item index flags t y d)
    (h' : Lays destCylinder s item index flags t' y' e) : t' = t ∧ y' = y ∧ e = d := by
  induction h with
  | placed hd hok hnone =>
    rcases (lays_cases h' hd).2 with ⟨-, hsame⟩ | ⟨x, w, z, hx, -⟩
    · exact hsame
    · rw [hnone] at hx
      cases hx
  | beside hd hok hx hm hrest hall =>
    rcases (lays_cases h' hd).2 with ⟨-, hsame⟩ | ⟨x, w, z, hx', -, hpart, -⟩
    · exact hsame
    · obtain rfl := Option.some.inj (hx.symm.trans hx')
      rw [hm] at hpart
      exact absurd hall hpart
  | split hd hok hx hm hrest hpart hclone again ih =>
    exact ih (lays_of_split h' hd hx hm hpart hclone)

/-! ### What a call counts -/

theorem count_addAndNotify (hs : Forest s) (hnew : ∀ c, item ∉ s.contents c)
    (hold : item < s.fresh)
    (hc : ∀ x, d.cylinder = .container x → s.isContainer x = true ∧ ¬s.Within x item) (x : ItemRef) :
    (addAndNotify s d item).getItemHoldingCount x =
      s.getItemHoldingCount x + s.counted d.cylinder d.index (s.unitsIn item) x := by
  rw [State.getItemHoldingCount_of_places (samePlaces_addAndNotify s d item)]
  exact hs.getItemHoldingCount_addThing hc d.index hnew hold x

theorem sameFrames_addAndNotify (s : State) (d : Destination) (item : ItemRef) :
    SameFrames s (addAndNotify s d item) :=
  (State.sameFrames_addThing _ _ _).trans (samePlaces_addAndNotify s d item).sameFrames

theorem sameFrames_mergeState (s : State) (d : Destination) (x : ItemRef) (m : ℕ) :
    SameFrames s (mergeState s d x m) :=
  State.sameFrames_updateThing _ _ _ _

/-- A merge before the addition makes no difference to what is laid. -/
theorem count_mergeAndNotify (hs : Forest s) (hnew : ∀ c, item ∉ s.contents c)
    (hold : item < s.fresh)
    (hc : ∀ x, d.cylinder = .container x → s.isContainer x = true ∧ ¬s.Within x item)
    (z : ItemRef) (m : ℕ) (x : ItemRef) :
    (addAndNotify (mergeState s d z m) d item).getItemHoldingCount x =
      s.getItemHoldingCount x + s.counted d.cylinder d.index (s.unitsIn item) x := by
  have hmerged := forest_mergeState hs d z m
  have hsame : SameHoldings s (mergeState s d z m) := State.sameHoldings_updateThing _ _ _ _
  have hinside : (mergeState s d z m).Inside = s.Inside := by
    funext a b
    exact congrArg (a ∈ ·) (hsame.contents (.container b))
  have hcV : ∀ x, d.cylinder = .container x →
      (mergeState s d z m).isContainer x = true ∧ ¬(mergeState s d z m).Within x item := by
    intro x hx
    unfold State.Within
    rw [hsame.isContainer, hinside]
    exact hc x hx
  have hadded := count_addAndNotify hmerged (fun c hc => hnew c (hsame.contents c ▸ hc))
    (hsame.fresh ▸ hold) hcV x
  have hunits : (mergeState s d z m).unitsIn item = s.unitsIn item :=
    congrArg (· + 1) (count_mergeState hs d z m item)
  have hcounted := fun n => hs.counted_eq_of_leads (c := d.cylinder) (x := x) hmerged
    (Forest.leads_of_contents fun y => hsame.contents _)
    (State.capacity_of_frames (sameFrames_mergeState s d z m)) d.index n
  rw [hadded, count_mergeState hs, hunits, hcounted]

/-- After a call a container holds what the call has laid. -/
theorem count_of_calls (h : Calls destCylinder s item index flags r) (hs : Forest s)
    (hnew : ∀ c, item ∉ s.contents c) (hold : item < s.fresh)
    (hsees : let d := addDestination s destCylinder item index flags
      addAnswer s destCylinder item d = NOERROR → s.Sees d.cylinder d.flags item) :
    SameFrames s r.state ∧
      ((∃ t y d, Lays destCylinder s item index flags t y d ∧ ∀ x, r.state.getItemHoldingCount x =
        s.getItemHoldingCount x + t.counted d.cylinder d.index (t.unitsIn y) x) ∨
        (∀ t y d, ¬Lays destCylinder s item index flags t y d) ∧
          ∀ x, r.state.getItemHoldingCount x = s.getItemHoldingCount x) := by
  induction h with
  | refused hd hanswer =>
    refine ⟨.refl _, .inr ⟨fun t y e hlays => ?_, fun _ => rfl⟩⟩
    exact hanswer (lays_cases hlays hd).1
  | @placed s item index flags d hd hanswer hnone =>
    subst hd
    have htakes := hs.takes_of_answer (hsees hanswer) (queryAdd_of_addAnswer hanswer)
    refine ⟨sameFrames_addAndNotify s _ item, .inl ⟨s, item, _, .placed rfl hanswer hnone, ?_⟩⟩
    exact count_addAndNotify hs hnew hold htakes
  | @merged s item index flags d x m t hd hanswer hx hm hfits hplaces =>
    refine ⟨(sameFrames_mergeState s d x m).trans hplaces.sameFrames,
      .inr ⟨fun t y e => not_lays_of_merged hd hx hm hfits, fun z => ?_⟩⟩
    rw [State.getItemHoldingCount_of_places hplaces]
    exact count_mergeState hs d x m z
  | @beside s item index flags d x m hd hanswer hx hm hrest hall =>
    subst hd
    have htakes := hs.takes_of_answer (hsees hanswer) (queryAdd_of_addAnswer hanswer)
    refine ⟨(sameFrames_mergeState s _ x m).trans (sameFrames_addAndNotify _ _ item),
      .inl ⟨s, item, _, .beside rfl hanswer hx hm hrest hall, fun z => ?_⟩⟩
    exact count_mergeAndNotify hs hnew hold htakes x m z
  | @split s item index flags d x m w y r hd hanswer hx hm hrest hpart hclone again ih =>
    have hmerged := forest_mergeState hs d x m
    have hloose := loose_cloneItem hmerged hclone
    have hcount : ∀ z, w.getItemHoldingCount z = s.getItemHoldingCount z := fun z =>
      (count_cloneItem hmerged hclone z).trans (count_mergeState hs d x m z)
    obtain ⟨hframes, houtcome⟩ := ih hloose.forest hloose.nowhere hloose.old
      fun hok => sees_of_plain hloose.plain (queryAdd_of_addAnswer hok)
    refine ⟨((sameFrames_mergeState s d x m).trans
      (sameFrames_cloneItem hmerged hclone)).trans hframes, ?_⟩
    rcases houtcome with ⟨t, z, e, hlays, hafter⟩ | ⟨hnothing, hafter⟩
    · refine .inl ⟨t, z, e, .split hd hanswer hx hm hrest hpart hclone hlays, fun a => ?_⟩
      rw [← hcount]
      exact hafter a
    · refine .inr ⟨fun t z e hlays => ?_, fun a => (hafter a).trans (hcount a)⟩
      exact hnothing t z e (lays_of_split hlays hd hx hm hpart hclone)

theorem state_of_test {fuel : ℕ}
    (h : internalAddItemLoop destCylinder (fuel + 1) s item index flags true = some r) :
    r.state = s := by
  unfold internalAddItemLoop at h
  simp only at h
  split at h
  · rw [← Option.some.inj h]
  · rw [if_pos trivial] at h
    rw [← Option.some.inj h]

/-- Within the limit an addition stays within it exactly when what it lays fits. -/
theorem internalAddItem_withinDepotLimit_iff (hs : WellFormed s) (hforest : Forest s)
    (hwithin : s.WithinDepotLimit) (hflags : flags.FLAG_NOLIMIT = false) (hitem : Addable s item)
    (hsees : AddSees s destCylinder item index flags) {test : Bool}
    (h : internalAddItem s destCylinder item index flags test = some r) :
    r.state.WithinDepotLimit ↔ (test = false → ∀ x limit, s.depotLimit x = some limit →
      AddFits s destCylinder item index flags x limit) := by
  cases test with
  | true =>
    rw [state_of_test h]
    exact ⟨fun _ hno => absurd hno Bool.true_eq_false.mp, fun _ => hwithin⟩
  | false =>
    obtain ⟨r', hr', hcalls⟩ := internalAddItem_calls hs hitem destCylinder index flags
    obtain rfl : r' = r := Option.some.inj (hr'.symm.trans h)
    obtain ⟨hframes, houtcome⟩ := count_of_calls hcalls hforest hsees.nowhere hsees.old hsees.added
    have hlimits := State.depotLimit_of_frames hframes
    rw [forall_prop_of_true rfl]
    rcases houtcome with ⟨t, y, d, hlays, hafter⟩ | ⟨hnothing, hafter⟩
    · obtain ⟨hsame, hcount, hanswer⟩ := lays_spec hlays hforest
      constructor
      · intro hbound x limit hlimit t' y' d' hlays' _
        obtain ⟨rfl, rfl, rfl⟩ := lays_unique hlays hlays'
        rw [← hafter]
        exact hbound x limit ((hlimits x).trans hlimit)
      · intro hfits x limit hlimit
        rw [hlimits] at hlimit
        rw [hafter]
        by_cases hasks : t.asksDepot d.cylinder d.flags y (t.getItemCount y) x
        · have hflagsD : d.flags.FLAG_NOLIMIT = false := by
            rcases hasks.1 with hc | ⟨z, hc, -⟩
            · exact lays_flags hlays (fun _ => hflags) hc
            · exact lays_flags hlays (fun _ => hflags) hc
          have hroom := State.room_of_asksDepot hanswer hflagsD hasks
            ((State.depotLimit_of_frames hsame x).trans hlimit)
          have hall : t.depotCount y x = t.unitsIn y :=
            if_pos (hasks.2.resolve_right fun hpart => hpart.2 rfl)
          have hle := t.counted_le d.cylinder d.index (t.unitsIn y) x
          have hbefore := hcount x
          omega
        · exact hfits x limit hlimit t y d hlays hasks
    · constructor
      · intro _ x limit _ t y d hlays
        exact absurd hlays (hnothing t y d)
      · intro _ x limit hlimit
        rw [hlimits] at hlimit
        rw [hafter]
        exact hwithin x limit hlimit

end Additions

/-! ## The limit -/

/-- Over a call that puts nothing into itself the limit is kept exactly when what is laid
into a chest that is not asked for it fits there. -/
theorem withinDepotLimit_iff {s : State} (hs : WellFormed s) (hforest : Forest s)
    (hwithin : s.WithinDepotLimit) :
    (∀ fromCylinder toCylinder index item count flags actor tradeItem r,
      flags.FLAG_NOLIMIT = false →
      MoveSees s fromCylinder toCylinder index item count flags actor →
      internalMoveItem s fromCylinder toCylinder index item count flags actor tradeItem = some r →
      (r.state.WithinDepotLimit ↔ ∀ x limit, s.depotLimit x = some limit →
        MoveFits s fromCylinder toCylinder index item count flags actor tradeItem x limit)) ∧
    ∀ toCylinder item index flags test r, flags.FLAG_NOLIMIT = false → Addable s item →
      AddSees s toCylinder item index flags →
      internalAddItem s toCylinder item index flags test = some r →
      (r.state.WithinDepotLimit ↔ (test = false → ∀ x limit, s.depotLimit x = some limit →
        AddFits s toCylinder item index flags x limit)) :=
  ⟨fun _ _ _ _ _ _ _ _ _ hflags hsees h =>
      internalMoveItem_withinDepotLimit_iff hforest hwithin hflags hsees h,
    fun _ _ _ _ _ _ hflags hitem hsees h =>
      internalAddItem_withinDepotLimit_iff hs hforest hwithin hflags hitem hsees h⟩

/-! ## Runs -/

/-- The chests are asked, and nothing goes blindly into a container that stands in it. -/
def ItemCall.Asks (s : State) (call : ItemCall) : Prop :=
  call.Sees s ∧
    match call with
    | .internalMoveItem _ _ _ _ _ flags _ _ => flags.FLAG_NOLIMIT = false
    | .internalAddItem _ item _ flags _ =>
      WellFormed s ∧ flags.FLAG_NOLIMIT = false ∧ Addable s item
    | _ => True

/-- What the call lays into a chest that is not asked for it fits there. -/
def ItemCall.Fits (s : State) : ItemCall → Prop
  | .internalMoveItem fromCylinder toCylinder index item count flags actor tradeItem =>
    ∀ x limit, s.depotLimit x = some limit →
      MoveFits s fromCylinder toCylinder index item count flags actor tradeItem x limit
  | .internalAddItem toCylinder item index flags test =>
    test = false → ∀ x limit, s.depotLimit x = some limit →
      AddFits s toCylinder item index flags x limit
  | _ => True

section Runs

variable {s : State}

theorem withinDepotLimit_internalRemoveItem (hs : Forest s) (hwithin : s.WithinDepotLimit)
    (item : ItemRef) (n : ℤ) (test : Bool) (flags : cylinderflags_t) (houseBed : Bool) :
    (internalRemoveItem s item n test flags houseBed).2.WithinDepotLimit := by
  unfold internalRemoveItem
  split
  · exact hwithin
  next c _ =>
    dsimp only
    generalize (if n = -1 then s.getItemCount item else (n % 4294967296).toNat) = count
    split
    · exact hwithin
    next hret =>
      have hmem : item ∈ s.contents c := (queryRemove_spec (not_not.mp hret)).1
      split
      · exact hwithin
      split
      · exact hwithin
      intro x limit hlimit
      have hplaces := State.samePlaces_postNotification (s.removeThing c item count) c
      rw [State.depotLimit_of_frames hplaces.sameFrames,
        State.depotLimit_of_frames (State.sameFrames_removeThing c item count)] at hlimit
      rw [State.getItemHoldingCount_of_places hplaces]
      have hcount := hs.getItemHoldingCount_removeThing hmem count x
      have hbound := hwithin x limit hlimit
      omega

/-- A new chest is empty, and nothing stands in it. -/
theorem withinDepotLimit_createItem (hs : Forest s) (hwithin : s.WithinDepotLimit)
    (item : Item) : (createItem s item).WithinDepotLimit := by
  have hold : ∀ z, z ≠ s.fresh → (createItem s item).item z = s.item z := fun z hz => by
    simp only [createItem, State.setItem, Function.update_of_ne hz]
  have hempty : (createItem s item).itemlist s.fresh = [] := by
    cases hitem : item.container <;> simp [State.itemlist, createItem, State.setItem, hitem]
  have hstep : (ItemCall.create item).step s = some (createItem s item) := rfl
  have hforest : Forest (createItem s item) := by
    apply forest_step hs _ hstep
    exact trivial
  intro x limit hlimit
  by_cases hx : x = s.fresh
  · subst hx
    have hzero : (createItem s item).getItemHoldingCount s.fresh = 0 := by
      simp [State.getItemHoldingCount, State.iterator, State.depth, State.iteratorLoop, hempty]
    omega
  · have hcontents : ∀ z, (createItem s item).contents (.container z) =
        s.contents (.container z) := by
      intro z
      by_cases hz : z = s.fresh
      · have hbefore : s.contents (.container s.fresh) = [] := by
          by_contra hne
          obtain ⟨y, hy⟩ := List.exists_mem_of_ne_nil _ hne
          exact lt_irrefl _ (hs.object _ (State.isContainer_of_mem hy))
        rw [hz, hbefore]
        exact hempty
      · simp only [State.contents, State.itemlist, hold z hz]
    rw [hs.getItemHoldingCount_of_contents hforest hcontents]
    refine hwithin x limit ?_
    simpa only [State.depotLimit, hold x hx] using hlimit

/-- Over every run whose calls ask the chests, these keep within their limits exactly when what
each call lays unasked into a chest fits there. -/
theorem always_withinDepotLimit_iff (hs : Forest s) (hwithin : s.WithinDepotLimit)
    (calls : List ItemCall) (hasks : Run.EachStep ItemCall.step ItemCall.Asks s calls) :
    Run.Always ItemCall.step State.WithinDepotLimit s calls ↔
      Run.EachStep ItemCall.step ItemCall.Fits s calls := by
  refine Run.always_iff_eachStep_of (I := Forest)
    (fun s call t hs hasks => forest_step hs hasks.1)
    (fun s call t hs hwithin hasks hstep => ?_) calls s hs hwithin hasks
  obtain ⟨hsees, hasked⟩ := hasks
  cases call with
  | create item =>
    rw [← Option.some.inj hstep]
    exact iff_of_true (withinDepotLimit_createItem hs hwithin item) trivial
  | internalMoveItem =>
    obtain ⟨r, hr, rfl⟩ := Option.map_eq_some_iff.mp hstep
    exact internalMoveItem_withinDepotLimit_iff hs hwithin hasked hsees hr
  | internalAddItem =>
    obtain ⟨r, hr, rfl⟩ := Option.map_eq_some_iff.mp hstep
    obtain ⟨hformed, hlimited, hitem⟩ := hasked
    exact internalAddItem_withinDepotLimit_iff hformed hs hwithin hlimited hitem hsees hr
  | internalRemoveItem item count test flags houseBed =>
    rw [← Option.some.inj hstep]
    exact iff_of_true
      (withinDepotLimit_internalRemoveItem hs hwithin item count test flags houseBed) trivial

end Runs

/-! ## A bag in a depot chest

The chest stands in a depot locker, a bag in the chest, and a sword lies on the tile.
-/

def backpackType : ItemType :=
  { id := 1988, group := .ITEM_GROUP_CONTAINER, moveable := true, pickupable := true }

def swordType : ItemType := { id := 2400, moveable := true, pickupable := true }

def depot (limit : ℕ) : Tables where
  types :=
    [plainGround,
      { id := 2589, group := .ITEM_GROUP_CONTAINER, type := .ITEM_TYPE_DEPOT },
      { id := 2594, group := .ITEM_GROUP_CONTAINER },
      backpackType,
      swordType]
  items :=
    [{ id := 4528, parent := some (.tile {}) },
      { id := 2589, parent := some (.tile {}),
        container := some { kind := .DepotLocker, maxSize := 30, itemlist := [2] } },
      { id := 2594, parent := some (.container 1),
        container :=
          some { kind := .DepotChest, maxSize := 30, maxDepotItems := limit, itemlist := [3] } },
      { id := 1988, parent := some (.container 2), container := some { maxSize := 8 } },
      { id := 2400, parent := some (.tile {}) }]
  tiles := [({}, { ground := some 0, downItems := [4] })]

theorem mem_range_of_depotLimit {s : State} (hs : Forest s) {x limit : ℕ}
    (h : s.depotLimit x = some limit) : x ∈ List.range s.fresh := by
  apply List.mem_range.mpr
  apply hs.object
  unfold State.depotLimit at h
  unfold State.isContainer
  cases hx : (s.item x).container with
  | none => simp [hx] at h
  | some container => rfl

theorem withinDepotLimit_of_range {s : State} (hs : Forest s)
    (h : ∀ x ∈ List.range s.fresh, ∀ limit ∈ s.depotLimit x, s.getItemHoldingCount x ≤ limit) :
    s.WithinDepotLimit :=
  fun x limit hlimit => h x (mem_range_of_depotLimit hs hlimit) limit hlimit

theorem depot_forest : Forest (depot 1).state ∧ Forest (depot 2).state :=
  ⟨Tables.forest (by decide +kernel) (by decide +kernel) (by decide +kernel) (by decide +kernel),
    Tables.forest (by decide +kernel) (by decide +kernel) (by decide +kernel) (by decide +kernel)⟩

/-- The chest has room for the sword. -/
theorem withinDepotLimit_depot : ∃ r, internalMoveItem (depot 2).state (.tile {}) (.container 3)
    (-1) 4 1 {} true none = some r ∧ r.ret = NOERROR ∧ r.state.WithinDepotLimit := by
  have hforest := depot_forest.2
  have hret : ((internalMoveItem (depot 2).state (.tile {}) (.container 3) (-1) 4 1 {} true
      none).map MoveResult.ret) = some NOERROR := by
    decide +kernel
  obtain ⟨r, hr, hok⟩ := Option.map_eq_some_iff.mp hret
  have hno : (destination (depot 2).state (.container 3) (-1) 4 {}).destItem = none := by
    decide +kernel
  have hexchange : ∀ y, ¬Exchanges (depot 2).state (.tile {})
      (destination (depot 2).state (.container 3) (-1) 4 {}) 4 1 true y := by
    intro y hex
    rw [hex.1] at hno
    cases hno
  refine ⟨r, hr, hok, ((withinDepotLimit_iff (Tables.wellFormed (by decide +kernel)) hforest
    (withinDepotLimit_of_range hforest (by decide +kernel))).1 _ _ _ _ _ _ _ _ r rfl
      ⟨fun hanswer => sees_of_plain (by decide +kernel) hanswer,
        fun y hex => absurd hex (hexchange y)⟩ hr).mpr fun x limit hlimit => ?_⟩
  have hroom : ∀ x ∈ List.range (depot 2).state.fresh, ∀ limit ∈ (depot 2).state.depotLimit x,
      (depot 2).state.getItemHoldingCount x + 1 ≤ limit := by
    decide +kernel
  have hlaid : laidUnits (depot 2).state 4
      (destination (depot 2).state (.container 3) (-1) 4 {}).destItem
      (movedCount (depot 2).state (destination (depot 2).state (.container 3) (-1) 4 {}) 4 1) =
      1 := by
    decide +kernel
  have hfits := hroom x (mem_range_of_depotLimit hforest hlimit) limit hlimit
  refine ⟨?_, fun y hex => absurd hex (hexchange y), fun y hex => absurd hex (hexchange y)⟩
  dsimp only
  intro _ _
  have hle := (depot 2).state.counted_le
    (destination (depot 2).state (.container 3) (-1) 4 {}).cylinder
    (destination (depot 2).state (.container 3) (-1) 4 {}).index 1 x
  rw [hlaid]
  omega

/-- The run that puts the sword into the bag. -/
theorem always_withinDepotLimit_depot :
    let calls := [ItemCall.internalMoveItem (.tile {}) (.container 3) (-1) 4 1 {} true none]
    Run.Always ItemCall.step State.WithinDepotLimit (depot 2).state calls ↔
      Run.EachStep ItemCall.step ItemCall.Fits (depot 2).state calls := by
  have hforest := depot_forest.2
  apply always_withinDepotLimit_iff hforest
    (withinDepotLimit_of_range hforest (by decide +kernel))
  have hno : (destination (depot 2).state (.container 3) (-1) 4 {}).destItem = none := by
    decide +kernel
  refine fun t _ => ⟨⟨⟨fun hanswer => ?_, fun y hex => ?_⟩, rfl⟩, trivial⟩
  · exact sees_of_plain (by decide +kernel) hanswer
  · rw [hex.1] at hno
    cases hno

/-- The full chest is not asked, and the sword goes into the bag in it. -/
theorem full_depot_takes_sword : (depot 1).state.WithinDepotLimit ∧
    ∃ r, internalMoveItem (depot 1).state (.tile {}) (.container 3) (-1) 4 1 {} true none = some r ∧
      r.ret = NOERROR ∧ r.state.getItemHoldingCount 2 = 2 ∧ ¬r.state.WithinDepotLimit := by
  refine ⟨withinDepotLimit_of_range depot_forest.1 (by decide +kernel), ?_⟩
  have hmove : ((internalMoveItem (depot 1).state (.tile {}) (.container 3) (-1) 4 1 {} true
      none).map fun r => (r.ret, r.state.getItemHoldingCount 2, r.state.depotLimit 2)) =
        some (NOERROR, 2, some 1) := by
    decide +kernel
  obtain ⟨r, hr, hr'⟩ := Option.map_eq_some_iff.mp hmove
  simp only [Prod.mk.injEq] at hr'
  obtain ⟨hret, hcount, hlimit⟩ := hr'
  refine ⟨r, hr, hret, hcount, fun hwithin => ?_⟩
  have hbound := hwithin 2 1 hlimit
  omega

end TibiaServer.Game
