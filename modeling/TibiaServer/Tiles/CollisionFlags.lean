import TibiaServer.Library.Run
import TibiaServer.Tiles.Tile
/-!
# The collision flags of a tile

Each of them is set exactly while the ground or an item of the tile has its
property, over every sequence of operations in which nothing is put on a tile
that stands there already (`always_exact`).  An object that stands on the tile
twice is excluded as a whole by `hasProperty(exclude, prop)` when one of its
places is cleared (`doubled_item_loses_flag`).
-/

namespace TibiaServer.Tiles

open TibiaServer.Cylinders (ItemRef)

namespace State

variable (types : ℕ → ItemType)

/-- The collision flags are those of the things listed. -/
def FlagsOf (s : State) (things : List ItemRef) : Prop :=
  ∀ c : CollisionFlag, hasFlag s.tile.flags c.flag = true ↔
    ∃ x ∈ things, (s.item x).hasProperty types c.property = true

def Exact (s : State) : Prop := s.FlagsOf types s.things

variable {types} {s : State} {x : ItemRef} {things : List ItemRef}

theorem hasProperty_iff (prop : ITEMPROPERTY) :
    s.hasProperty types x prop = true ↔
      ∃ y ∈ s.things, y ≠ x ∧ (s.item y).hasProperty types prop = true := by
  simp [hasProperty]

/-- The flags after `resetTileFlags`: the item counted among the things before,
`rest` is what else did, and `new` what has come to the tile since. -/
theorem hasFlag_resetTileFlags {rest new : List ItemRef} (h : s.FlagsOf types things)
    (hthings : ∀ y, y ∈ things ↔ y = x ∨ y ∈ rest)
    (hstand : ∀ y, y ∈ s.things ∧ y ≠ x ↔ y ∈ rest ∨ y ∈ new) (c : CollisionFlag) :
    hasFlag (s.resetTileFlags types x).tile.flags c.flag = true ∨
        (∃ y ∈ new, (s.item y).hasProperty types c.property = true) ↔
      (∃ y ∈ rest, (s.item y).hasProperty types c.property = true) ∨
        ∃ y ∈ new, (s.item y).hasProperty types c.property = true := by
  have hflag := CollisionFlag.hasFlag_resetTileFlags types (s.item x) s.tile.flags
    (s.hasProperty types x) c
  change hasFlag (s.resetTileFlags types x).tile.flags c.flag = _ at hflag
  rw [hflag, Bool.and_eq_true, Bool.not_eq_true', Bool.and_eq_false_iff, Bool.not_eq_false',
    hasProperty_iff, h c]
  constructor
  · rintro (⟨⟨y, hy, hprop⟩, hothers⟩ | hnew)
    · rcases hothers with hnone | ⟨y', hy', hne', hprop'⟩
      · rcases (hthings y).mp hy with rfl | hrest
        · rw [hprop] at hnone
          exact absurd hnone (by simp)
        · exact .inl ⟨y, hrest, hprop⟩
      · rcases (hstand y').mp ⟨hy', hne'⟩ with hrest | hnew
        · exact .inl ⟨y', hrest, hprop'⟩
        · exact .inr ⟨y', hnew, hprop'⟩
    · exact .inr hnew
  · rintro (⟨y, hy, hprop⟩ | hnew)
    · obtain ⟨hstands, hne⟩ := (hstand y).mpr (.inl hy)
      exact .inl ⟨⟨y, (hthings y).mpr (.inr hy), hprop⟩, .inr ⟨y, hstands, hne, hprop⟩⟩
    · exact .inr hnew

/-- Something goes. -/
theorem flagsOf_resetTileFlags {rest : List ItemRef} (h : s.FlagsOf types things)
    (hthings : ∀ y, y ∈ things ↔ y = x ∨ y ∈ rest)
    (hstand : ∀ y, y ∈ s.things ∧ y ≠ x ↔ y ∈ rest) :
    (s.resetTileFlags types x).FlagsOf types rest := by
  intro c
  have hnothing : ∀ y, y ∈ s.things ∧ y ≠ x ↔ y ∈ rest ∨ y ∈ ([] : List ItemRef) := by
    simpa using hstand
  have hflags := hasFlag_resetTileFlags h hthings hnothing c
  simpa using hflags

/-- Something comes. -/
theorem exact_setTileFlags (h : s.FlagsOf types things)
    (hrest : ∀ y, y ∈ s.things ↔ y = x ∨ y ∈ things) : (s.setTileFlags types x).Exact types := by
  intro c
  have hflag := CollisionFlag.hasFlag_setTileFlags types (s.item x) s.tile.flags c
  change hasFlag (s.setTileFlags types x).tile.flags c.flag = _ at hflag
  rw [hflag, Bool.or_eq_true, h c]
  simp only [things_setTileFlags, item_setTileFlags, hrest]
  constructor
  · rintro (⟨y, hy, hprop⟩ | hprop)
    · exact ⟨y, .inr hy, hprop⟩
    · exact ⟨x, .inl rfl, hprop⟩
  · rintro ⟨y, rfl | hy, hprop⟩
    · exact .inr hprop
    · exact .inl ⟨y, hy, hprop⟩

/-- One thing takes the place of another. -/
theorem exact_replaced {old : ItemRef} {rest : List ItemRef} (h : s.FlagsOf types things)
    (hthings : ∀ y, y ∈ things ↔ y = old ∨ y ∈ rest) (hrest : old ∉ rest) (hne : x ≠ old)
    (hstand : ∀ y, y ∈ s.things ↔ y = x ∨ y ∈ rest) :
    ((s.resetTileFlags types old).setTileFlags types x).Exact types := by
  have hothers : ∀ y, y ∈ s.things ∧ y ≠ old ↔ y ∈ rest ∨ y ∈ [x] := by
    intro y
    rw [hstand, List.mem_singleton]
    constructor
    · rintro ⟨rfl | hy, -⟩
      · exact .inr rfl
      · exact .inl hy
    · rintro (hy | rfl)
      · exact ⟨.inr hy, fun heq => hrest (heq ▸ hy)⟩
      · exact ⟨.inl rfl, hne⟩
  intro c
  have hreset := hasFlag_resetTileFlags h hthings hothers c
  have hflag := CollisionFlag.hasFlag_setTileFlags types (s.item x)
    (s.resetTileFlags types old).tile.flags c
  change hasFlag ((s.resetTileFlags types old).setTileFlags types x).tile.flags c.flag = _ at hflag
  rw [hflag, Bool.or_eq_true]
  simp only [List.mem_singleton, exists_eq_left] at hreset
  rw [hreset]
  simp only [things_setTileFlags, things_resetTileFlags, item_setTileFlags, item_resetTileFlags,
    hstand, or_and_right, exists_or, exists_eq_left, or_comm]

theorem FlagsOf.congr {s' : State} (h : s.FlagsOf types things)
    (hflags : s'.tile.flags = s.tile.flags)
    (hproperty : ∀ y ∈ things, ∀ prop,
      (s'.item y).hasProperty types prop = (s.item y).hasProperty types prop) :
    s'.FlagsOf types things := by
  intro c
  rw [hflags, h c]
  constructor
  · rintro ⟨y, hy, hprop⟩
    exact ⟨y, hy, (hproperty y hy _).trans hprop⟩
  · rintro ⟨y, hy, hprop⟩
    exact ⟨y, hy, (hproperty y hy _).symm.trans hprop⟩

theorem hasProperty_setItemCount (item : Item) (n : ℕ) (prop : ITEMPROPERTY) :
    (item.setItemCount n).hasProperty types prop = item.hasProperty types prop := by
  cases prop <;> rfl

/-- No object stands on the tile twice, and the flags are exact. -/
structure Clean (types : ℕ → ItemType) (s : State) : Prop where
  nodup : s.things.Nodup
  exact : s.Exact types

theorem clean_removeThing (h : s.Clean types) (x : ItemRef) (count : ℕ) :
    (s.removeThing types x count).Clean types := by
  refine ⟨(nodup_removeThing h.nodup x count).1, ?_⟩
  rcases removeThing_cases types s x count with ⟨-, heq | ⟨n, heq⟩⟩ |
    ⟨-, s', hx, hperm, hitem, hflags, heq⟩
  · rw [heq]
    exact h.exact
  · rw [heq]
    refine h.exact.congr rfl fun y _ prop => ?_
    by_cases hy : y = x
    · subst hy
      simp only [setItem, Function.update_self]
      exact hasProperty_setItemCount _ _ _
    · simp only [setItem, Function.update_of_ne hy]
  · rw [heq]
    have hmem : ∀ y, y ∈ s'.things ↔ y ≠ x ∧ y ∈ s.things := by
      intro y
      rw [hperm.mem_iff, h.nodup.mem_erase_iff]
    have hflagsOf : s'.FlagsOf types s.things :=
      h.exact.congr hflags fun y _ prop => by rw [hitem]
    refine flagsOf_resetTileFlags hflagsOf ?_ ?_
    · intro y
      change y ∈ s.things ↔ y = x ∨ y ∈ s'.things
      rw [hmem]
      constructor
      · exact fun hy => or_iff_not_imp_left.mpr fun hne => ⟨hne, hy⟩
      · rintro (rfl | hy)
        · exact hx
        · exact hy.2
    · intro y
      change y ∈ s'.things ∧ y ≠ x ↔ y ∈ s'.things
      rw [hmem]
      exact ⟨fun hy => hy.1, fun hy => ⟨hy, hy.1⟩⟩

theorem clean_adds {t : State} (h : s.Clean types) (hx : x ∉ s.things)
    (hadds : Adds types s x t) : t.Clean types := by
  refine ⟨nodup_adds h.nodup hx hadds, ?_⟩
  cases hadds with
  | nothing heq =>
    rw [heq]
    exact h.exact
  | put s₁ s₂ hold hperm hitem hflags heq =>
    have hexact : s₁.Exact types := by
      rcases hold with rfl | ⟨old, rfl⟩
      · exact h.exact
      · exact (clean_removeThing h old 1).exact
    rw [heq]
    apply exact_setTileFlags (hexact.congr hflags fun y _ prop => by rw [hitem])
    intro y
    rw [hperm.mem_iff, List.mem_cons]
  | ground oldGround hground heq =>
    have hthings := things_of_ground hground
    have hnew : (s.setGround (some x)).things = x :: s.tile.items := things_of_ground rfl
    have hnodup := h.nodup
    rw [hthings] at hnodup hx
    have hflagsOf : (s.setGround (some x)).FlagsOf types s.things :=
      h.exact.congr rfl fun y _ prop => rfl
    rw [heq]
    apply exact_replaced hflagsOf _ (List.nodup_cons.mp hnodup).1
      (List.ne_of_not_mem_cons hx)
    · intro y
      rw [hnew, List.mem_cons]
    · intro y
      rw [hthings, List.mem_cons]

theorem clean_replaceThing (h : s.Clean types) (hx : x ∉ s.things) (index : ℕ) :
    (s.replaceThing types index x).Clean types := by
  refine ⟨nodup_replaceThing h.nodup hx index, ?_⟩
  rcases replaceThing_cases types s index x with heq |
    ⟨s', a, b, oldItem, hthings, hthings', hitem, hflags, heq⟩
  · rw [heq]
    exact h.exact
  · have hnodup := h.nodup
    have hperm : (a ++ oldItem :: b).Perm (oldItem :: (a ++ b)) := List.perm_middle
    have hperm' : (a ++ x :: b).Perm (x :: (a ++ b)) := List.perm_middle
    rw [hthings] at hnodup hx
    rw [hperm.mem_iff, List.mem_cons, not_or] at hx
    have hflagsOf : s'.FlagsOf types s.things :=
      h.exact.congr hflags fun y _ prop => by rw [hitem]
    rw [heq]
    apply exact_replaced hflagsOf _ (List.nodup_cons.mp (hperm.nodup_iff.mp hnodup)).1 hx.1
    · intro y
      rw [hthings', hperm'.mem_iff, List.mem_cons]
    · intro y
      rw [hthings, hperm.mem_iff, List.mem_cons]

/-- What does not stand on the tile has no index. -/
theorem getThingIndex_of_notMem (hx : x ∉ s.things) : s.getThingIndex types x = -1 := by
  have hground : s.tile.ground ≠ some x := fun h => hx (mem_things.mpr (.inl h))
  have hitems : x ∉ s.tile.items := fun h => hx (mem_things.mpr (.inr h))
  have htop : x ∉ s.topItems := fun h => hitems (List.mem_of_mem_drop h)
  have hdown : x ∉ s.downItems := fun h => hitems (List.mem_of_mem_take h)
  unfold getThingIndex
  dsimp only
  rw [if_neg hground]
  split_ifs <;> rfl

/-- The flags of the old type go while the item counts as another, and those of
the new type come. -/
theorem clean_updateThing (h : s.Clean types) (x : ItemRef) (itemId count : ℕ) :
    (s.updateThing types x itemId count).Clean types := by
  unfold updateThing
  split_ifs with hindex
  · exact h
  · have hx : x ∈ s.things := not_not.mp fun hx => hindex (getThingIndex_of_notMem hx)
    refine ⟨h.nodup, ?_⟩
    -- exact for everything but the item
    have hsplit : ∀ y, y ∈ s.things ↔ y = x ∨ y ∈ s.things.erase x := by
      intro y
      rw [h.nodup.mem_erase_iff]
      constructor
      · exact fun hy => or_iff_not_imp_left.mpr fun hne => ⟨hne, hy⟩
      · rintro (rfl | hy)
        · exact hx
        · exact hy.2
    have hreset : (s.resetTileFlags types x).FlagsOf types (s.things.erase x) := by
      apply flagsOf_resetTileFlags h.exact hsplit
      intro y
      rw [h.nodup.mem_erase_iff, and_comm]
    have hflagsOf : ((s.resetTileFlags types x).setItem x
        (((s.item x).setID types itemId).setSubType types count)).FlagsOf types
          (s.things.erase x) := by
      refine hreset.congr rfl fun y hy prop => ?_
      have hne : y ≠ x := (h.nodup.mem_erase_iff.mp hy).1
      simp only [setItem, Function.update_of_ne hne]
    exact exact_setTileFlags hflagsOf hsplit

end State

/-! ## Runs -/

inductive Action
  | addThing (x : ItemRef)
  | internalAddThing (x : ItemRef)
  | removeThing (x : ItemRef) (count : ℕ)
  | updateThing (x : ItemRef) (itemId count : ℕ)
  | replaceThing (index : ℕ) (x : ItemRef)
  | addCreature (creature : ℕ)
  | removeCreature (creature : ℕ)

namespace Action

/-- The call itself. -/
def perform (types : ℕ → ItemType) (s : State) : Action → State
  | .addThing x => s.addThing types x
  | .internalAddThing x => s.internalAddThing types x
  | .removeThing x count => s.removeThing types x count
  | .updateThing x itemId count => s.updateThing types x itemId count
  | .replaceThing index x => s.replaceThing types index x
  | .addCreature creature => s.addCreature creature
  | .removeCreature creature => s.removeCreature creature

/-- What is put on the tile. -/
def comes : Action → Option ItemRef
  | .addThing x => some x
  | .internalAddThing x => some x
  | .replaceThing _ x => some x
  | _ => none

/-- The call with something that does not stand on the tile already. -/
def step (types : ℕ → ItemType) (s : State) (a : Action) : Option State :=
  if a.comes.any fun x => x ∈ s.things then none else some (a.perform types s)

theorem clean_step {types : ℕ → ItemType} {s t : State} {a : Action} (h : s.Clean types)
    (hstep : step types s a = some t) : t.Clean types := by
  unfold step at hstep
  split_ifs at hstep with hcomes
  obtain rfl := Option.some.inj hstep
  cases a with
  | addThing x => exact State.clean_adds h (by simpa [comes] using hcomes) (State.addThing_adds ..)
  | internalAddThing x =>
    exact State.clean_adds h (by simpa [comes] using hcomes) (State.internalAddThing_adds ..)
  | removeThing x count => exact State.clean_removeThing h x count
  | updateThing x itemId count => exact State.clean_updateThing h x itemId count
  | replaceThing index x =>
    exact State.clean_replaceThing h (by simpa [comes] using hcomes) index
  | addCreature creature => exact ⟨h.nodup, h.exact.congr rfl fun _ _ _ => rfl⟩
  | removeCreature creature => exact ⟨h.nodup, h.exact.congr rfl fun _ _ _ => rfl⟩

/-- From an empty tile on, over every table of item types, all objects and every
sequence of calls, the collision flags are exact. -/
theorem always_exact (types : ℕ → ItemType) (item : ItemRef → Item) (actions : List Action) :
    Library.Run.Always (step types) (State.Exact types) { item := item } actions := by
  refine Library.Run.always_of_invariant (I := State.Clean types)
    (fun s a t h hstep => clean_step h hstep) (fun s h => h.exact) actions _ ⟨?_, ?_⟩
  · exact List.nodup_nil
  · intro c
    have hclear : hasFlag 0#32 c.flag = false := by
      cases c <;> decide
    simp [State.things, hclear]

/-- A box, put on the tile twice and taken off once, still stands there, but its
flag is gone. -/
theorem doubled_item_loses_flag :
    let types : ℕ → ItemType := fun _ => { id := 1738, blockSolid := true }
    let box : ItemRef → Item := fun _ => { id := 1738 }
    let s := ([.addThing 0, .addThing 0, .removeThing 0 1] : List Action).foldl (perform types)
      { item := box }
    s.things = [0] ∧ (s.item 0).hasProperty types .CONST_PROP_BLOCKSOLID = true ∧
      hasFlag s.tile.flags TILESTATE_BLOCKSOLID = false := by
  decide

end Action

end TibiaServer.Tiles
