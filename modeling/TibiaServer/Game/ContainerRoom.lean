import TibiaServer.Cylinders.ContainerRoom
import TibiaServer.Game.Accounting
import TibiaServer.Game.Coins
import TibiaServer.Game.Conservation
import TibiaServer.Game.FoundStack
/-!
# Moves and additions within the capacities of containers

What a container holds more after a call is what is laid into it.  The queries leave a place
for that on most ways through the code: not for a stack that comes back from an exchange,
for stacks that the search through an inventory puts at an index, and for containers whose
`queryAdd` does not count.
-/

namespace TibiaServer.Game

open TibiaServer.Cylinders
open ReturnValue

/-! ## The sizes after a transfer -/

/-- By how much a transfer makes the container larger. -/
def laidSize (t : State) (d : Destination) (item : ItemRef) (toItem : Option ItemRef) (m : ℕ)
    (x : ItemRef) : ℕ :=
  if t.isStackable item = true → 0 < restCount t item toItem m then
    t.placedSize d.cylinder d.index x
  else 0

section Sizes

variable {s t : State} {fromCylinder toCylinder : Cylinder} {d : Destination} {item : ItemRef}
  {index : ℤ} {count m : ℕ} {flags : cylinderflags_t} {actor : Bool}
  {toItem tradeItem moveItem : Option ItemRef} {x : ItemRef} {moved : State}

theorem laidSize_le (t : State) (d : Destination) (item : ItemRef) (toItem : Option ItemRef) (m : ℕ)
    (x : ItemRef) : laidSize t d item toItem m x ≤ t.placedSize d.cylinder d.index x := by
  unfold laidSize
  split
  · exact le_refl _
  · exact Nat.zero_le _

theorem size_transferRest (hs : Stocked s) (hstack : s.isStackable item = true) (hm : m < 256)
    (hc : d.cylinder = .container x → s.isContainer x = true)
    (h : transferRest s d item m = some (moved, moveItem)) :
    moved.size x = s.size x + (if 0 < m then s.placedSize d.cylinder d.index x else 0) ∧
      moved.capacity x = s.capacity x := by
  unfold transferRest at h
  split at h
  next hpos =>
    obtain ⟨w, hclone, hw⟩ := cloneItem_spec hs hstack hm
    rw [hclone] at h
    obtain ⟨rfl, -⟩ := Prod.mk.inj (Option.some.inj h)
    have hsize := State.size_addThing (s := w) (fun hx => (hw.isContainer x).trans (hc hx))
      d.index s.fresh
    rw [State.placedSize_of_capacity (hw.capacity x),
      State.size_of_contents (hw.contents (.container x))] at hsize
    rw [if_pos hpos]
    exact ⟨hsize, (State.capacity_of_frames (State.sameFrames_addThing _ _ _) x).trans
      (hw.capacity x)⟩
  next hzero =>
    obtain ⟨rfl, -⟩ := Prod.mk.inj (Option.some.inj h)
    rw [if_neg hzero]
    exact ⟨rfl, rfl⟩

/-- A container loses what leaves it whole and gets what is laid into it. -/
theorem size_transfer (ht : Stocked t) (hitem : item ∈ t.contents fromCylinder)
    (hm : t.isStackable item = true → m ≤ t.getItemCount item)
    (htarget : ∀ y, toItem = some y → y ≠ item ∧ y ∈ t.contents d.cylinder)
    (hc : d.cylinder = .container x → t.isContainer x = true)
    (h : transfer t fromCylinder d item toItem m = some (moved, moveItem)) :
    moved.size x + t.takenSize fromCylinder item m x = t.size x + laidSize t d item toItem m x ∧
      moved.capacity x = t.capacity x := by
  have hremoval := State.removal_removeThing ht.toLayered hitem m
  have hu := State.stocked_removeThing ht hitem hm
  have htaken := State.size_removeThing ht.toLayered hitem m x
  have hcU : d.cylinder = .container x →
      (t.removeThing fromCylinder item m).isContainer x = true :=
    fun hx => (hremoval.isContainer x).trans (hc hx)
  have hplaced : (t.removeThing fromCylinder item m).placedSize d.cylinder d.index x =
      t.placedSize d.cylinder d.index x :=
    State.placedSize_of_capacity (hremoval.capacity x) _ _
  unfold laidSize
  cases hstack : t.isStackable item with
  | false =>
    rw [transfer_of_plain d toItem hremoval hstack] at h
    obtain ⟨rfl, -⟩ := Prod.mk.inj (Option.some.inj h)
    have hsize := State.size_addThing hcU d.index item
    rw [hplaced] at hsize
    rw [if_pos nofun]
    exact ⟨by omega, (State.capacity_of_frames (State.sameFrames_addThing _ _ _) x).trans
      (hremoval.capacity x)⟩
  | true =>
    have hne : toItem ≠ some item := fun heq => (htarget item heq).1 rfl
    have hstackU := (hremoval.isStackable item).trans hstack
    have hcount := (ht.count fromCylinder item hitem hstack).2
    have hle := hm hstack
    rw [transfer_of_stackable hremoval hstack hne] at h
    simp only [forall_const]
    unfold restCount
    split at h
    next y hmerge =>
      obtain ⟨htoItem, hequals⟩ := mergeTarget_eq_some hmerge
      obtain ⟨hy, hmem⟩ := htarget y htoItem
      have hystack := isStackable_of_equals hstack hequals
      have hcountY := ht.count d.cylinder y hmem hystack
      have hn : 1 ≤ t.getItemCount y + mergedCount t y m ∧
          t.getItemCount y + mergedCount t y m ≤ 100 := by
        rw [mergedCount_of_le hcountY.2]
        omega
      have hmerged := merged_updateThing hu (hremoval.mem d.cylinder y hy hmem)
        ((hremoval.isStackable y).trans hystack) hy hn
      rw [hremoval.id] at hmerged
      obtain ⟨hsize, hcapacity⟩ := size_transferRest hmerged.stocked
        (hmerged.isStackable.trans hstackU) (by omega)
        (fun hx => (hmerged.isContainer x).trans (hcU hx)) h
      rw [State.placedSize_of_capacity (hmerged.capacity x),
        State.size_of_contents (hmerged.contents (.container x)), hplaced] at hsize
      exact ⟨by omega, hcapacity.trans ((hmerged.capacity x).trans (hremoval.capacity x))⟩
    next hmerge =>
      obtain ⟨hsize, hcapacity⟩ := size_transferRest hu hstackU (by omega) hcU h
      rw [hplaced] at hsize
      exact ⟨by omega, hcapacity.trans (hremoval.capacity x)⟩

/-- The item in the way comes to the source. -/
theorem size_exchange (hs : WellFormed s) (hfrom : item ∈ s.contents fromCylinder) {y : ItemRef}
    (h : Exchanges s fromCylinder d item count actor y) (x : ItemRef) :
    (exchange s fromCylinder d y).size x =
        s.size x + (if fromCylinder = .container x ∧ 0 < s.capacity x then 1 else 0) ∧
      (exchange s fromCylinder d y).capacity x = s.capacity x := by
  have hplaces := exchange_places s fromCylinder d y
  have hnot := destination_ne_container h
  have hheld : y ∈ s.contents d.cylinder := (queryRemove_spec h.2.2.2.2).1
  have hremoval := State.removal_removeThing hs.toLayered hheld (s.getItemCount y)
  have htaken := State.size_removeThing hs.toLayered hheld (s.getItemCount y) x
  have hstays : s.takenSize d.cylinder y (s.getItemCount y) x = 0 :=
    if_neg fun htaken => hnot x htaken.1
  rw [State.addThingAnywhere_eq] at hplaces
  have hsize := State.size_addThing (s := s.removeThing d.cylinder y (s.getItemCount y))
    (c := fromCylinder) (x := x) (fun hx => (hremoval.isContainer x).trans
      (State.isContainer_of_mem (hx ▸ hfrom))) 0 y
  rw [State.placedSize_of_capacity (hremoval.capacity x)] at hsize
  refine ⟨?_, ?_⟩
  · rw [State.size_of_places hplaces, hsize]
    unfold State.placedSize
    simp only [Int.natCast_pos]
    omega
  · rw [hplaces.capacity]
    exact (State.capacity_of_frames (State.sameFrames_addThing _ _ _) x).trans (hremoval.capacity x)

end Sizes

/-! ## Moves -/

/-- A container that is asked has a place for what is laid into it: for what does not
stack, for a stack that may go anywhere, and beside the stack at the index. -/
def MoveAsksRoom (s : State) (d : Destination) (item x : ItemRef) : Prop :=
  s.isStackable item = true →
    if d.index = INDEX_WHEREEVER then
      d.flags.FLAG_CHILDISOWNER = false ∧ s.asksTopParent x = true
    else s.isUnlocked x = true

/-- What the move lays into the container finds a place there, or the container is asked
for one.  A stack that comes back from an exchange needs a place until the item follows. -/
structure MoveHasRoom (s : State) (fromCylinder toCylinder : Cylinder) (index : ℤ)
    (item : ItemRef) (count : ℕ) (flags : cylinderflags_t) (actor : Bool)
    (tradeItem : Option ItemRef) (x : ItemRef) : Prop where
  moved : let d := destination s toCylinder index item flags
    let m := movedCount s d item count
    Moves s fromCylinder d item count actor tradeItem → d.cylinder = .container x →
      ¬MoveAsksRoom s d item x → 0 < restCount s item d.destItem m → d.index < s.capacity x →
      s.size x < s.capacity x ∨ fromCylinder = .container x ∧ ¬s.removesPart item m
  exchanged : ∀ y, let d := destination s toCylinder index item flags
    let t := exchange s fromCylinder d y
    Exchanges s fromCylinder d item count actor y → fromCylinder = .container x →
      s.isStackable y = true →
      s.size x < s.capacity x ∨ Follows t fromCylinder d item count tradeItem ∧
        ¬t.removesPart item (movedCount t d item count)

section Moves

variable {s : State} {fromCylinder toCylinder : Cylinder} {index : ℤ} {item : ItemRef} {count : ℕ}
  {flags : cylinderflags_t} {actor : Bool} {tradeItem : Option ItemRef} {r : MoveResult}

/-- The sizes after the item has moved from the state `t`. -/
theorem size_of_goes {t : State} {toItem : Option ItemRef} (ht : Stocked t)
    (harrives : Arrives s fromCylinder (destination s toCylinder index item flags) item count actor
      t toItem)
    (hgoes : Goes t fromCylinder (destination s toCylinder index item flags) item count tradeItem)
    (htarget : ∀ y, toItem = some y →
      y ≠ item ∧ y ∈ t.contents (destination s toCylinder index item flags).cylinder)
    {x : ItemRef} (hc : (destination s toCylinder index item flags).cylinder = .container x →
      t.isContainer x = true)
    (h : internalMoveItem s fromCylinder toCylinder index item count flags actor tradeItem =
      some r) :
    let d := destination s toCylinder index item flags
    let m := movedCount t d item count
    r.state.size x + t.takenSize fromCylinder item m x =
        t.size x + laidSize t d item toItem m x ∧
      r.state.capacity x = t.capacity x := by
  obtain ⟨hitem, -, hm⟩ := queryRemove_spec hgoes.remove
  rw [internalMoveItem_of_arrives harrives] at h
  rcases moveAccepted_cases h with ⟨hno, -⟩ | ⟨-, moved, moveItem, htransfer, hplaces, -⟩
  · exact absurd hgoes hno
  obtain ⟨hsize, hcapacity⟩ := size_transfer ht hitem hm htarget hc htransfer
  exact ⟨by rw [State.size_of_places hplaces]; exact hsize,
    (hplaces.capacity x).trans hcapacity⟩

theorem size_of_moves (hs : WellFormed s)
    (hmoves : Moves s fromCylinder (destination s toCylinder index item flags) item count actor
      tradeItem)
    (h : internalMoveItem s fromCylinder toCylinder index item count flags actor tradeItem =
      some r) (x : ItemRef) :
    let d := destination s toCylinder index item flags
    let m := movedCount s d item count
    r.state.size x + s.takenSize fromCylinder item m x =
        s.size x + laidSize s d item d.destItem m x ∧
      r.state.capacity x = s.capacity x := by
  refine size_of_goes hs.toStocked (.accepted hmoves.other hmoves.accepted) hmoves.goes
    (fun y hy => ?_) (fun hx => ?_) h
  · exact ⟨fun heq => hmoves.other (heq ▸ hy),
      (held_destination s toCylinder index item flags).mem hy⟩
  · have haccepted := hmoves.accepted
    rw [hx] at haccepted
    exact State.isContainer_of_queryAdd haccepted

theorem size_of_follows (hs : WellFormed s) (hitem : item ∈ s.contents fromCylinder) {y : ItemRef}
    (hex : Exchanges s fromCylinder (destination s toCylinder index item flags) item count actor y)
    (hfollows : Follows (exchange s fromCylinder (destination s toCylinder index item flags) y)
      fromCylinder (destination s toCylinder index item flags) item count tradeItem)
    (h : internalMoveItem s fromCylinder toCylinder index item count flags actor tradeItem =
      some r) (x : ItemRef) :
    let d := destination s toCylinder index item flags
    let t := exchange s fromCylinder d y
    r.state.size x + t.takenSize fromCylinder item (movedCount t d item count) x =
        s.size x + (if fromCylinder = .container x ∧ 0 < s.capacity x then 1 else 0) ∧
      r.state.capacity x = s.capacity x := by
  have hnot := destination_ne_container hex
  have hheld : y ∈ s.contents (destination s toCylinder index item flags).cylinder :=
    (queryRemove_spec hex.2.2.2.2).1
  have ht := (exchange_spec hs.toStocked (hs.cylinder fromCylinder (List.ne_nil_of_mem hitem))
    hheld).1
  obtain ⟨hsize, hcapacity⟩ := size_of_goes (x := x) ht (.exchanged y hex hfollows.accepted)
    hfollows.goes nofun (fun hx => absurd hx (hnot x)) h
  obtain ⟨hexchanged, hsame⟩ := size_exchange hs hitem hex x
  have hnothing := laidSize_le (exchange s fromCylinder
    (destination s toCylinder index item flags) y)
    (destination s toCylinder index item flags) item none
    (movedCount (exchange s fromCylinder (destination s toCylinder index item flags) y)
      (destination s toCylinder index item flags) item count) x
  rw [State.placedSize_of_ne (hnot x)] at hnothing
  dsimp only at hsize ⊢
  exact ⟨by omega, hcapacity.trans hsame⟩

theorem size_of_shed (hs : WellFormed s) (hitem : item ∈ s.contents fromCylinder) {y : ItemRef}
    (hex : Exchanges s fromCylinder (destination s toCylinder index item flags) item count actor y)
    (hshed : ¬Follows (exchange s fromCylinder (destination s toCylinder index item flags) y)
      fromCylinder (destination s toCylinder index item flags) item count tradeItem)
    (h : internalMoveItem s fromCylinder toCylinder index item count flags actor tradeItem =
      some r) (x : ItemRef) :
    r.state.size x =
        s.size x + (if fromCylinder = .container x ∧ 0 < s.capacity x then 1 else 0) ∧
      r.state.capacity x = s.capacity x := by
  rw [state_of_shed hex hshed h]
  exact size_exchange hs hitem hex x

/-- What is laid into a container that is asked has a place there, or merges whole with the
stack at the index. -/
theorem room_of_moves (hflags : flags.FLAG_NOLIMIT = false)
    (hmoves : Moves s fromCylinder (destination s toCylinder index item flags) item count actor
      tradeItem) {x : ItemRef}
    (hx : (destination s toCylinder index item flags).cylinder = .container x)
    (hasks : MoveAsksRoom s (destination s toCylinder index item flags) item x) :
    let d := destination s toCylinder index item flags
    s.size x < s.capacity x ∨ laidSize s d item d.destItem (movedCount s d item count) x = 0 := by
  have hnolimit := destination_flags hflags hx
  have hfound := found_destination (s := s) toCylinder index item flags x hx
  have hheld := held_destination s toCylinder index item flags
  obtain ⟨hother, haccepted, hgoes⟩ := hmoves
  generalize destination s toCylinder index item flags = d at *
  dsimp only
  have hroom := hgoes.room
  have hmoved := (queryRemove_spec hgoes.remove).2.1
  rw [hx] at haccepted hroom
  cases hstack : s.isStackable item with
  | false => exact .inl (State.room_of_queryMaxCount hstack hnolimit hroom)
  | true =>
    have hplace := hasks hstack
    split at hplace
    next hindex =>
      rw [hindex] at haccepted
      exact .inl (State.room_of_queryAdd hnolimit hplace.1 hplace.2 haccepted)
    next hindex =>
      by_contra hno
      obtain ⟨hfull, hlaid⟩ := not_or.mp hno
      have hm : movedCount s d item count =
          min count (s.queryMaxCount (.container x) d.index item count d.flags).2 := by
        unfold movedCount
        rw [hx]
        exact if_pos hstack
      obtain ⟨z, hz, hequals, hless, hcount⟩ :=
        State.mergeRoom_of_full hstack hnolimit hindex (not_lt.mp hfull)
          (show (s.queryMaxCount (.container x) d.index item count d.flags).2 ≠ 0 by omega)
      have hmerge : mergeTarget s item d.destItem = some z := by
        rw [(hfound hplace).trans hz]
        exact Option.filter_eq_some_iff.mpr ⟨rfl, hequals⟩
      apply hlaid
      unfold laidSize restCount
      rw [hmerge, if_neg]
      intro hrest
      have hpos := hrest hstack
      dsimp only at hpos
      rw [mergedCount_of_le hless.le] at hpos
      omega

/-- A source that takes an item that does not stack has a place for it. -/
theorem room_of_sourceAnswer {x y : ItemRef} (hplain : s.isStackable y = false)
    (h : sourceAnswer s (.container x) item y = NOERROR) : s.size x < s.capacity x := by
  unfold sourceAnswer at h
  dsimp only at h
  split at h
  next hrefused => exact absurd h hrefused
  split at h
  next hroom => exact absurd h hroom.1
  next hroom => exact State.room_of_queryMaxCount hplain rfl hroom

/-- A move lays the item at the place or the item in the way at the source, or lays nothing
into a container. -/
theorem size_paths (hs : WellFormed s)
    (h : internalMoveItem s fromCylinder toCylinder index item count flags actor tradeItem =
      some r) :
    let d := destination s toCylinder index item flags
    Moves s fromCylinder d item count actor tradeItem ∨
      (∃ y, Exchanges s fromCylinder d item count actor y) ∨
      ∀ x, r.state.size x ≤ s.size x ∧ r.state.capacity x = s.capacity x := by
  rcases internalMoveItem_cases h with hsame | ⟨y, hex, -, -⟩ |
    ⟨t, toItem, moved, moveItem, harrives, hgoes, htransfer, hplaces, -⟩
  · rw [hsame]
    exact .inr (.inr fun x => ⟨le_refl _, rfl⟩)
  · exact .inr (.inl ⟨y, hex⟩)
  · cases harrives with
    | accepted hne hok => exact .inl ⟨hne, hok, hgoes⟩
    | exchanged y hex _ => exact .inr (.inl ⟨y, hex⟩)
    | stuck y hy hne hneed hsource hremove =>
      have hnot : ∀ z, (destination s toCylinder index item flags).cylinder ≠ .container z := by
        intro z hz
        rw [hz] at hneed
        exact containerQueryAdd_ne s z _ item count _ actor hneed
      refine .inr (.inr fun x => ?_)
      obtain ⟨hsize, hcapacity⟩ := size_of_goes (x := x) hs.toStocked
        (.stuck y hy hne hneed hsource hremove) hgoes
        (fun z hz => ⟨Option.some.inj (hy.symm.trans hz) ▸ hne,
          (held_destination s toCylinder index item flags).mem hz⟩)
        (fun hx => absurd hx (hnot x)) h
      have hnothing := laidSize_le s (destination s toCylinder index item flags) item
        (destination s toCylinder index item flags).destItem
        (movedCount s (destination s toCylinder index item flags) item count) x
      rw [State.placedSize_of_ne (hnot x)] at hnothing
      exact ⟨by omega, hcapacity⟩

/-- A move that lays into a container what has room there keeps it within its capacity. -/
theorem within_of_moves (hs : WellFormed s) (hflags : flags.FLAG_NOLIMIT = false) {x : ItemRef}
    (hbefore : s.size x ≤ s.capacity x)
    (hmoves : Moves s fromCylinder (destination s toCylinder index item flags) item count actor
      tradeItem)
    (hroom : MoveHasRoom s fromCylinder toCylinder index item count flags actor tradeItem x)
    (h : internalMoveItem s fromCylinder toCylinder index item count flags actor tradeItem =
      some r) : r.state.size x ≤ r.state.capacity x := by
  obtain ⟨hsize, hcapacity⟩ := size_of_moves hs hmoves h x
  have hlaid := laidSize_le s (destination s toCylinder index item flags) item
    (destination s toCylinder index item flags).destItem
    (movedCount s (destination s toCylinder index item flags) item count) x
  have hone := s.placedSize_le (destination s toCylinder index item flags).cylinder
    (destination s toCylinder index item flags).index x
  by_cases hx : (destination s toCylinder index item flags).cylinder = .container x
  · by_cases hasks : MoveAsksRoom s (destination s toCylinder index item flags) item x
    · rcases room_of_moves hflags hmoves hx hasks with hfree | hnothing
      · omega
      · omega
    · by_cases hrest : 0 < restCount s item (destination s toCylinder index item flags).destItem
          (movedCount s (destination s toCylinder index item flags) item count)
      · by_cases hindex : (destination s toCylinder index item flags).index < s.capacity x
        · rcases hroom.moved hmoves hx hasks hrest hindex with hfree | hleaves
          · omega
          · unfold State.takenSize at hsize
            rw [if_pos hleaves] at hsize
            omega
        · unfold State.placedSize at hlaid
          rw [if_neg fun hplaced => hindex hplaced.2] at hlaid
          omega
      · have hstack : s.isStackable item = true := by
          by_contra hplain
          exact hasks fun hstack => absurd hstack hplain
        unfold laidSize at hsize
        rw [if_neg fun hlays => hrest (hlays hstack)] at hsize
        omega
  · rw [State.placedSize_of_ne hx] at hlaid
    omega

/-- The same for the item in the way. -/
theorem within_of_exchange (hs : WellFormed s) (hitem : item ∈ s.contents fromCylinder)
    {x y : ItemRef} (hbefore : s.size x ≤ s.capacity x)
    (hex : Exchanges s fromCylinder (destination s toCylinder index item flags) item count actor y)
    (hroom : MoveHasRoom s fromCylinder toCylinder index item count flags actor tradeItem x)
    (h : internalMoveItem s fromCylinder toCylinder index item count flags actor tradeItem =
      some r) : r.state.size x ≤ r.state.capacity x := by
  have hsizes : r.state.size x ≤ s.size x +
      (if fromCylinder = .container x ∧ 0 < s.capacity x then 1 else 0) ∧
      r.state.capacity x = s.capacity x := by
    by_cases hfollows : Follows (exchange s fromCylinder
        (destination s toCylinder index item flags) y) fromCylinder
        (destination s toCylinder index item flags) item count tradeItem
    · obtain ⟨hsize, hcapacity⟩ := size_of_follows hs hitem hex hfollows h x
      exact ⟨by omega, hcapacity⟩
    · obtain ⟨hsize, hcapacity⟩ := size_of_shed hs hitem hex hfollows h x
      exact ⟨hsize.le, hcapacity⟩
  obtain ⟨hsize, hcapacity⟩ := hsizes
  by_cases hfrom : fromCylinder = .container x
  · have hone : (if fromCylinder = .container x ∧ 0 < s.capacity x then 1 else 0) ≤ 1 := by
      split <;> omega
    cases hstack : s.isStackable y with
    | false =>
      have hfree := room_of_sourceAnswer hstack (hfrom ▸ hex.2.2.2.1)
      omega
    | true =>
      rcases hroom.exchanged y hex hfrom hstack with hfree | ⟨hfollows, hwhole⟩
      · omega
      · obtain ⟨hleft, -⟩ := size_of_follows hs hitem hex hfollows h x
        unfold State.takenSize at hleft
        rw [if_pos ⟨hfrom, hwhole⟩] at hleft
        omega
  · rw [if_neg fun hsource => hfrom hsource.1] at hsize
    omega

/-- Within the capacities a move stays within them exactly when what it lays has room. -/
theorem internalMoveItem_noOverflow_iff (hs : WellFormed s) (hwithin : s.NoOverflow)
    (hflags : flags.FLAG_NOLIMIT = false) (hitem : item ∈ s.contents fromCylinder)
    (h : internalMoveItem s fromCylinder toCylinder index item count flags actor tradeItem =
      some r) :
    r.state.NoOverflow ↔ ∀ x,
      MoveHasRoom s fromCylinder toCylinder index item count flags actor tradeItem x := by
  -- the source of an exchange holds the item
  have hplace : ∀ x, fromCylinder = .container x → 0 < s.capacity x := by
    rintro x rfl
    exact (List.length_pos_of_mem hitem).trans_le (hwithin x)
  constructor
  · intro hafter x
    have hbound := hafter x
    constructor
    · dsimp only
      intro hmoves hx _ hrest hindex
      obtain ⟨hsize, hcapacity⟩ := size_of_moves hs hmoves h x
      by_contra hno
      obtain ⟨hfull, hstays⟩ := not_or.mp hno
      have htaken : s.takenSize fromCylinder item
          (movedCount s (destination s toCylinder index item flags) item count) x = 0 :=
        if_neg hstays
      have hlaid : laidSize s (destination s toCylinder index item flags) item
          (destination s toCylinder index item flags).destItem
          (movedCount s (destination s toCylinder index item flags) item count) x = 1 :=
        (if_pos fun _ => hrest).trans (if_pos ⟨hx, hindex⟩)
      omega
    · intro y
      dsimp only
      intro hex hfrom _
      by_contra hno
      obtain ⟨hfull, hstays⟩ := not_or.mp hno
      by_cases hfollows : Follows (exchange s fromCylinder
          (destination s toCylinder index item flags) y) fromCylinder
          (destination s toCylinder index item flags) item count tradeItem
      · obtain ⟨hsize, hcapacity⟩ := size_of_follows hs hitem hex hfollows h x
        rw [if_pos ⟨hfrom, hplace x hfrom⟩] at hsize
        unfold State.takenSize at hsize
        rw [if_neg fun hwhole => hstays ⟨hfollows, hwhole.2⟩] at hsize
        omega
      · obtain ⟨hsize, hcapacity⟩ := size_of_shed hs hitem hex hfollows h x
        rw [if_pos ⟨hfrom, hplace x hfrom⟩] at hsize
        omega
  · intro hroom x
    have hbefore := hwithin x
    rcases size_paths hs h with hmoves | ⟨y, hex⟩ | hless
    · exact within_of_moves hs hflags hbefore hmoves (hroom x) h
    · exact within_of_exchange hs hitem hbefore hex (hroom x) h
    · obtain ⟨hsize, hcapacity⟩ := hless x
      omega

end Moves

/-! ## Additions -/

/-- The queries of an addition see to it that the item has a place in the container: it may
go anywhere, the named container counts its places, or the search through an inventory is
for a free place. -/
def AddAsksRoom (s : State) (destCylinder : Cylinder) (d : Destination) (item x : ItemRef) :
    Prop :=
  d.index = INDEX_WHEREEVER ∧ d.flags.FLAG_CHILDISOWNER = false ∧ s.asksTopParent x = true ∨
    destCylinder = .container x ∧ s.isStackable item = false ∧
      (s.item x).id ≠ ITEM_REWARD_CONTAINER ∨
    (∃ p, destCylinder = .player p) ∧ d.index ≠ INDEX_WHEREEVER ∧
      (s.isStackable item = false ∨ d.flags.FLAG_IGNOREAUTOSTACK = true)

/-- What the call lays into the container finds a place there, or the container is asked
for one. -/
def AddHasRoom (s : State) (destCylinder : Cylinder) (item : ItemRef) (index : ℤ)
    (flags : cylinderflags_t) (x : ItemRef) : Prop :=
  ∀ t y d, Lays destCylinder s item index flags t y d → d.cylinder = .container x →
    ¬AddAsksRoom t destCylinder d y x → d.index < s.capacity x → s.size x < s.capacity x

section Additions

variable {s t : State} {destCylinder : Cylinder} {d : Destination} {item x y : ItemRef} {index : ℤ}
  {flags : cylinderflags_t} {r : AddResult}

/-! ### What is asked -/

theorem room_of_searchFree (z : ItemRef) (n : ℕ) {place : ℤ}
    (h : s.searchFree x z flags n = some place) : 0 < n := by
  cases n with
  | zero => cases h
  | succ n => exact Nat.succ_pos n

theorem room_of_searchContainers (hwithin : s.NoOverflow) (p : PlayerRef) (fuel : ℕ)
    (containers : List ItemRef) {place : ℤ} {destItem : Option ItemRef}
    (h : s.searchContainers p y flags false fuel containers = some (x, place, destItem)) :
    s.size x < s.capacity x := by
  induction fuel generalizing containers with
  | zero => simp [State.searchContainers] at h
  | succ fuel ih =>
    cases containers with
    | nil => simp [State.searchContainers] at h
    | cons w containers =>
      unfold State.searchContainers at h
      split at h
      next _ _ hsearch =>
        obtain ⟨rfl, -⟩ := Prod.mk.inj (Option.some.inj h)
        unfold State.searchContainer at hsearch
        simp only [Bool.not_false, if_true] at hsearch
        split at hsearch
        next free hfree =>
          have hpos := room_of_searchFree y _ hfree
          have hle := hwithin w
          by_contra hno
          have hfull : (s.capacity w : ℤ) - s.size w = 0 := by omega
          rw [hfull] at hpos
          exact absurd hpos (by decide)
        next => cases hsearch
      next => exact ih _ h

/-- A free place that is found in a player's containers is one. -/
theorem room_of_inventory (hwithin : s.NoOverflow) {p : PlayerRef}
    (hd : addDestination s (.player p) item index flags = d) (hx : d.cylinder = .container x)
    (hindex : d.index ≠ INDEX_WHEREEVER)
    (hfree : s.isStackable item = false ∨ d.flags.FLAG_IGNOREAUTOSTACK = true) :
    s.size x < s.capacity x := by
  have hflags : d.flags = flags := by
    rw [← hd]
    exact queryDestination_flags (c := .player p) nofun none
  have hstack : (!flags.FLAG_IGNOREAUTOSTACK && s.isStackable item) = false := by
    rw [hflags] at hfree
    rcases hfree with hplain | hno
    · simp [hplain]
    · simp [hno]
  unfold addDestination at hd
  simp only [State.queryDestination] at hd
  unfold State.playerQueryDestination at hd
  simp only [hstack] at hd
  split at hd
  · split at hd
    · rw [← hd] at hx
      cases hx
    split at hd
    next z place found hsearch =>
      rw [← hd] at hx
      obtain rfl := Cylinder.container.inj hx
      exact room_of_searchContainers hwithin p _ _ hsearch
    next =>
      rw [← hd] at hx
      cases hx
  · split at hd
    · split at hd
      · rw [← hd] at hindex
        exact absurd rfl hindex
      · rw [← hd] at hx
        cases hx
    · rw [← hd] at hx
      cases hx

theorem lays_asked (h : Lays destCylinder s item index flags t y d) :
    (∃ index flags, addDestination t destCylinder y index flags = d) ∧
      addAnswer t destCylinder y d = NOERROR := by
  induction h with
  | placed hd hok _ => exact ⟨⟨_, _, hd⟩, hok⟩
  | beside hd hok _ _ _ _ => exact ⟨⟨_, _, hd⟩, hok⟩
  | split _ _ _ _ _ _ _ _ ih => exact ih

theorem room_of_lays (hwithin : t.NoOverflow) (hflags : flags.FLAG_NOLIMIT = false)
    (h : Lays destCylinder s item index flags t y d) (hx : d.cylinder = .container x)
    (hasks : AddAsksRoom t destCylinder d y x) : t.size x < t.capacity x := by
  have hnolimit := lays_flags h (fun _ => hflags) hx
  obtain ⟨⟨index', flags', hd⟩, hanswer⟩ := lays_asked h
  rcases hasks with ⟨hindex, howner, htop⟩ | ⟨rfl, hplain, hid⟩ | ⟨⟨p, rfl⟩, hindex, hfree⟩
  · have haccepted := queryAdd_of_addAnswer hanswer
    rw [hx, hindex] at haccepted
    exact State.room_of_queryAdd hnolimit howner htop haccepted
  · have hroom : (addRoom t (.container x) y d).1 = NOERROR := by
      have haccepted := queryAdd_of_addAnswer hanswer
      unfold addAnswer at hanswer
      dsimp only at hanswer
      rw [if_neg (not_not.mpr haccepted)] at hanswer
      split at hanswer
      · exact hanswer
      next henough =>
        by_contra hno
        exact henough ⟨hno, by simp [hx, State.getItem, hid]⟩
    exact State.room_of_queryMaxCount hplain hnolimit fun hno => hno.1 hroom
  · exact room_of_inventory hwithin hd hx hindex hfree

/-! ### What a call lays -/

theorem size_mergeState (d : Destination) (z : ItemRef) (m : ℕ) (x : ItemRef) :
    (mergeState s d z m).size x = s.size x :=
  State.size_updateThing d.cylinder z _ _ x

theorem size_addAndNotify (item : ItemRef)
    (hc : d.cylinder = .container x → s.isContainer x = true) :
    (addAndNotify s d item).size x = s.size x + s.placedSize d.cylinder d.index x ∧
      (addAndNotify s d item).capacity x = s.capacity x := by
  have hplaces := samePlaces_addAndNotify s d item
  refine ⟨?_, ?_⟩
  · rw [State.size_of_places hplaces]
    exact State.size_addThing hc d.index item
  · exact (hplaces.capacity x).trans
      (State.capacity_of_frames (State.sameFrames_addThing _ _ _) x)

/-- Merges and clones leave the sizes and the capacities. -/
theorem size_of_lays (h : Lays destCylinder s item index flags t y d) (hs : WellFormed s)
    (hitem : Addable s item) (x : ItemRef) :
    t.size x = s.size x ∧ t.capacity x = s.capacity x := by
  induction h with
  | placed _ _ _ | beside _ _ _ _ _ _ => exact ⟨rfl, rfl⟩
  | @split s item _ _ d z m w _ _ _ _ hd _ hz hm hrest _ hclone _ ih =>
    obtain ⟨hmerged, hv, hitemV, -⟩ := mergeState_spec hs hitem hd hz m
    have hstack := (addTarget_spec hs hitem hd hz).2.2.1
    have hbyte := hitem.byte
    have hle : m ≤ s.getItemCount item := hm ▸ addCount_le s item d
    have hcopied := copied_of_clone hv (hmerged.isStackable.trans hstack) hrest (by omega) hclone
    obtain ⟨hsize, hcapacity⟩ := ih hcopied.wellFormed hcopied.addable
    refine ⟨?_, ?_⟩
    · rw [hsize, State.size_of_contents (hcopied.contents _), size_mergeState]
    · rw [hcapacity, hcopied.capacity, hmerged.capacity]

/-- After a call a container is larger by what the call has laid into it. -/
theorem size_of_calls (h : Calls destCylinder s item index flags r) (hs : WellFormed s)
    (hitem : Addable s item) (x : ItemRef) :
    r.state.capacity x = s.capacity x ∧
      ((∃ t y d, Lays destCylinder s item index flags t y d ∧
          r.state.size x = s.size x + s.placedSize d.cylinder d.index x) ∨
        (∀ t y d, ¬Lays destCylinder s item index flags t y d) ∧
          r.state.size x = s.size x) := by
  have htakes : ∀ {s : State} {item : ItemRef} {d : Destination},
      addAnswer s destCylinder item d = NOERROR →
      d.cylinder = .container x → s.isContainer x = true := by
    intro s item d hanswer hx
    have haccepted := queryAdd_of_addAnswer hanswer
    rw [hx] at haccepted
    exact State.isContainer_of_queryAdd haccepted
  induction h with
  | refused hd hanswer =>
    exact ⟨rfl, .inr ⟨fun t y e hlays => hanswer (lays_cases hlays hd).1, rfl⟩⟩
  | @placed s item index flags d hd hanswer hnone =>
    obtain ⟨hsize, hcapacity⟩ := size_addAndNotify item (htakes hanswer)
    exact ⟨hcapacity, .inl ⟨s, item, d, .placed hd hanswer hnone, hsize⟩⟩
  | @merged s item index flags d z m t hd hanswer hz hm hfits hplaces =>
    obtain ⟨hmerged, -, -, -⟩ := mergeState_spec hs hitem hd hz m
    refine ⟨(hplaces.capacity x).trans (hmerged.capacity x),
      .inr ⟨fun t y e => not_lays_of_merged hd hz hm hfits, ?_⟩⟩
    rw [State.size_of_places hplaces, size_mergeState]
  | @beside s item index flags d z m hd hanswer hz hm hrest hall =>
    obtain ⟨hmerged, -, -, -⟩ := mergeState_spec hs hitem hd hz m
    obtain ⟨hsize, hcapacity⟩ := size_addAndNotify (s := mergeState s d z m) (d := d)
      (x := x) item fun hx => (hmerged.isContainer x).trans (htakes hanswer hx)
    rw [State.placedSize_of_capacity (hmerged.capacity x), size_mergeState] at hsize
    exact ⟨hcapacity.trans (hmerged.capacity x),
      .inl ⟨s, item, d, .beside hd hanswer hz hm hrest hall, hsize⟩⟩
  | @split s item index flags d z m w y r hd hanswer hz hm hrest hpart hclone again ih =>
    obtain ⟨hmerged, hv, hitemV, -⟩ := mergeState_spec hs hitem hd hz m
    have hstack := (addTarget_spec hs hitem hd hz).2.2.1
    have hbyte := hitem.byte
    have hle : m ≤ s.getItemCount item := hm ▸ addCount_le s item d
    have hcopied := copied_of_clone hv (hmerged.isStackable.trans hstack) hrest (by omega) hclone
    have hsame : w.size x = s.size x := by
      rw [State.size_of_contents (hcopied.contents _), size_mergeState]
    have hroom : w.capacity x = s.capacity x := by
      rw [hcopied.capacity, hmerged.capacity]
    obtain ⟨hcapacity, houtcome⟩ := ih hcopied.wellFormed hcopied.addable
    refine ⟨hcapacity.trans hroom, ?_⟩
    rcases houtcome with ⟨t, u, e, hlays, hsize⟩ | ⟨hnothing, hsize⟩
    · refine .inl ⟨t, u, e, .split hd hanswer hz hm hrest hpart hclone hlays, ?_⟩
      rw [hsize, hsame, State.placedSize_of_capacity hroom]
    · refine .inr ⟨fun t u e hlays => ?_, hsize.trans hsame⟩
      exact hnothing t u e (lays_of_split hlays hd hz hm hpart hclone)

/-- Within the capacities an addition stays within them exactly when what it lays has room. -/
theorem internalAddItem_noOverflow_iff (hs : WellFormed s) (hwithin : s.NoOverflow)
    (hflags : flags.FLAG_NOLIMIT = false) (hitem : Addable s item) {test : Bool}
    (h : internalAddItem s destCylinder item index flags test = some r) :
    r.state.NoOverflow ↔
      (test = false → ∀ x, AddHasRoom s destCylinder item index flags x) := by
  cases test with
  | true =>
    rw [state_of_test h]
    exact ⟨fun _ hno => absurd hno Bool.true_eq_false.mp, fun _ => hwithin⟩
  | false =>
    obtain ⟨r', hr', hcalls⟩ := internalAddItem_calls hs hitem destCylinder index flags
    obtain rfl : r' = r := Option.some.inj (hr'.symm.trans h)
    rw [forall_prop_of_true rfl]
    constructor
    · intro hafter x t y d hlays hx _ hindex
      have hbound := hafter x
      obtain ⟨hcapacity, ⟨t', y', d', hlays', hsize⟩ | ⟨hnothing, -⟩⟩ :=
        size_of_calls hcalls hs hitem x
      · obtain ⟨rfl, rfl, rfl⟩ := lays_unique hlays hlays'
        unfold State.placedSize at hsize
        rw [if_pos ⟨hx, hindex⟩] at hsize
        omega
      · exact absurd hlays (hnothing t y d)
    · intro hroom x
      have hbefore := hwithin x
      obtain ⟨hcapacity, ⟨t, y, d, hlays, hsize⟩ | ⟨-, hsize⟩⟩ := size_of_calls hcalls hs hitem x
      · have hone := s.placedSize_le d.cylinder d.index x
        by_cases hplaced : d.cylinder = .container x ∧ d.index < s.capacity x
        · have hfree : s.size x < s.capacity x := by
            by_cases hasks : AddAsksRoom t destCylinder d y x
            · have hsame := size_of_lays hlays hs hitem
              have hroomT := room_of_lays
                (fun z => by rw [(hsame z).1, (hsame z).2]; exact hwithin z) hflags hlays
                hplaced.1 hasks
              rwa [(hsame x).1, (hsame x).2] at hroomT
            · exact hroom x t y d hlays hplaced.1 hasks hplaced.2
          omega
        · unfold State.placedSize at hsize
          rw [if_neg hplaced] at hsize
          omega
      · omega

end Additions

/-- Over a call the containers stay within their capacities exactly when what is laid into
a container that is not asked for a place finds one there. -/
theorem noOverflow_iff {s : State} (hs : WellFormed s) (hwithin : s.NoOverflow) :
    (∀ fromCylinder toCylinder index item count flags actor tradeItem r,
      flags.FLAG_NOLIMIT = false → item ∈ s.contents fromCylinder →
      internalMoveItem s fromCylinder toCylinder index item count flags actor tradeItem = some r →
      (r.state.NoOverflow ↔ ∀ x,
        MoveHasRoom s fromCylinder toCylinder index item count flags actor tradeItem x)) ∧
    ∀ toCylinder item index flags test r, flags.FLAG_NOLIMIT = false → Addable s item →
      internalAddItem s toCylinder item index flags test = some r →
      (r.state.NoOverflow ↔
        (test = false → ∀ x, AddHasRoom s toCylinder item index flags x)) :=
  ⟨fun _ _ _ _ _ _ _ _ _ hflags hitem h =>
      internalMoveItem_noOverflow_iff hs hwithin hflags hitem h,
    fun _ _ _ _ _ _ hflags hitem h =>
      internalAddItem_noOverflow_iff hs hwithin hflags hitem h⟩

/-! ## A backpack with a reserved item

A player has a backpack with two places, a sword and a bag in it, and is given gold coins.
If the sword is reserved for a trade, the search passes over it and counts one item.
-/

def ITEM_BAG : ℕ := 1987

def backpack (tradeItem : Option ItemRef) : Tables where
  types :=
    [backpackType,
      { id := ITEM_BAG, group := .ITEM_GROUP_CONTAINER, moveable := true, pickupable := true },
      swordType,
      { goldCoinType with slotPosition := { SLOTP_LEFT := true, SLOTP_RIGHT := true } }]
  items :=
    [{ id := 1988, parent := some (.player 0),
       container := some { maxSize := 2, itemlist := [1, 2] } },
      { id := 1987, parent := some (.container 0), container := some { maxSize := 8 } },
      { id := 2400, parent := some (.container 0) },
      { id := 2148, count := 10 }]
  players :=
    [{ inventory := fun slot => if slot = CONST_SLOT_BACKPACK then some 0 else none
       tradeItem := tradeItem }]
  classicEquipmentSlots := false

theorem noOverflow_of_range {s : State} (hs : WellFormed s)
    (h : ∀ x ∈ List.range s.fresh, s.size x ≤ s.capacity x) : s.NoOverflow := by
  intro x
  by_cases hx : s.isContainer x = true
  · exact h x (List.mem_range.mpr (hs.plain x hx).1)
  · have hnone : (s.item x).container = none := by
      unfold State.isContainer at hx
      simpa using hx
    simp [State.size, State.itemlist, hnone]

theorem backpack_wellFormed :
    WellFormed (backpack none).state ∧ WellFormed (backpack (some 2)).state :=
  ⟨Tables.wellFormed (by decide +kernel), Tables.wellFormed (by decide +kernel)⟩

theorem backpack_noOverflow :
    (backpack none).state.NoOverflow ∧ (backpack (some 2)).state.NoOverflow :=
  ⟨noOverflow_of_range backpack_wellFormed.1 (by decide +kernel),
    noOverflow_of_range backpack_wellFormed.2 (by decide +kernel)⟩

/-- The coins go into the bag, and so may the sword. -/
theorem noOverflow_backpack :
    (∃ r, internalAddItem (backpack none).state (.player 0) 3 INDEX_WHEREEVER {} false = some r ∧
      r.ret = NOERROR ∧ r.state.NoOverflow) ∧
    ∃ r, internalMoveItem (backpack none).state (.container 0) (.container 1) INDEX_WHEREEVER 2 1
      {} true none = some r ∧ r.ret = NOERROR ∧ r.state.NoOverflow := by
  have hadd : (internalAddItem (backpack none).state (.player 0) 3 INDEX_WHEREEVER {} false).map
      AddResult.ret = some NOERROR := by
    decide +kernel
  have hmove : (internalMoveItem (backpack none).state (.container 0) (.container 1)
      INDEX_WHEREEVER 2 1 {} true none).map MoveResult.ret = some NOERROR := by
    decide +kernel
  obtain ⟨a, ha, haddOk⟩ := Option.map_eq_some_iff.mp hadd
  obtain ⟨b, hb, hmoveOk⟩ := Option.map_eq_some_iff.mp hmove
  have hiff := noOverflow_iff backpack_wellFormed.1 backpack_noOverflow.1
  refine ⟨⟨a, ha, haddOk, ?_⟩, b, hb, hmoveOk, ?_⟩
  · have hitem : Addable (backpack none).state 3 :=
      addable_of_places backpack_wellFormed.1 (by decide +kernel) (by decide) (by decide +kernel)
        (by decide +kernel)
    have hlays : Lays (.player 0) (backpack none).state 3 INDEX_WHEREEVER {}
        (backpack none).state 3
        (addDestination (backpack none).state (.player 0) 3 INDEX_WHEREEVER {}) :=
      .placed rfl (by decide +kernel) (by decide +kernel)
    have hbag : (addDestination (backpack none).state (.player 0) 3 INDEX_WHEREEVER {}).cylinder =
        .container 1 := by
      decide +kernel
    refine (hiff.2 _ _ _ _ _ a rfl hitem ha).mpr fun _ x t y d hlays' hx _ _ => ?_
    obtain ⟨rfl, rfl, rfl⟩ := lays_unique hlays hlays'
    obtain rfl : 1 = x := Cylinder.container.inj (hbag.symm.trans hx)
    decide +kernel
  · have hplain : (backpack none).state.isStackable 2 = false := by
      decide +kernel
    have hnone : (destination (backpack none).state (.container 1) INDEX_WHEREEVER 2 {}).destItem =
        none := by
      decide +kernel
    refine (hiff.1 _ _ _ _ _ _ _ _ b rfl (by decide +kernel) hb).mpr fun x => ⟨?_, ?_⟩
    · dsimp only
      intro _ _ hno
      refine absurd (fun hstack => ?_) hno
      rw [hplain] at hstack
      cases hstack
    · intro y
      dsimp only
      intro hex
      have hdest := hex.1
      rw [hnone] at hdest
      cases hdest

/-- With the sword reserved they go into the full backpack. -/
theorem backpack_overflows : WellFormed (backpack (some 2)).state ∧
    (backpack (some 2)).state.NoOverflow ∧ Addable (backpack (some 2)).state 3 ∧
    ∃ r, internalAddItem (backpack (some 2)).state (.player 0) 3 INDEX_WHEREEVER {} false = some r ∧
      r.ret = NOERROR ∧ r.state.size 0 = 3 ∧ r.state.capacity 0 = 2 ∧
      ¬r.state.NoOverflow := by
  have hadd : (internalAddItem (backpack (some 2)).state (.player 0) 3 INDEX_WHEREEVER {}
      false).map (fun r => (r.ret, r.state.size 0, r.state.capacity 0)) = some (NOERROR, 3, 2) := by
    decide +kernel
  obtain ⟨r, hr, hr'⟩ := Option.map_eq_some_iff.mp hadd
  simp only [Prod.mk.injEq] at hr'
  obtain ⟨hret, hsize, hcapacity⟩ := hr'
  refine ⟨backpack_wellFormed.2, backpack_noOverflow.2, ?_, r, hr, hret, hsize, hcapacity,
    fun hwithin => ?_⟩
  · exact addable_of_places backpack_wellFormed.2 (by decide +kernel) (by decide)
      (by decide +kernel) (by decide +kernel)
  · have hbound := hwithin 0
    omega

end TibiaServer.Game
