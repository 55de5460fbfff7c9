import TibiaServer.Tiles.CollisionFlags
import TibiaServer.Tiles.SpecialFlags
/-!
# The special flags over sequences of calls

Each call of a tile is an exchange of what goes and what comes.  The special flags are exact
in every state reached exactly when each exchange keeps them (`always_special_iff`); a second
wall is enough to break them (`second_wall_loses_flag`).
-/

namespace TibiaServer.Tiles

open TibiaServer.Cylinders (ItemRef)

namespace State

variable (types : ℕ → ItemType) (s : State)

/-- Nothing goes and nothing comes. -/
def unchanged : Exchange := { stays := s.things.map s.item }

def removal (x : ItemRef) (count : ℕ) : Exchange :=
  if s.removes types x count then
    { gone := some (s.item x), stays := (s.things.erase x).map s.item }
  else s.unchanged

def addition (x : ItemRef) : Exchange :=
  let put (e : Exchange) : Exchange := { e with comes := some (s.item x) }
  if s.tile.items.length ≥ 0xFFFF then s.unchanged
  else if (s.item x).isGroundTile types then
    put { gone := s.tile.ground.map s.item, stays := s.tile.items.map s.item }
  else if s.isAlwaysOnTop types x then
    if (s.item x).isSplash types then
      match s.topItems.find? fun y => (s.item y).isSplash types with
      | some oldSplash => put (s.removal types oldSplash 1)
      | none => put s.unchanged
    else put s.unchanged
  else if ((s.item x).type types).isMagicField then
    match s.downItems.find? fun y => (s.item y).getMagicField with
    | some oldField =>
      if ((s.item oldField).type types).replaceable then put (s.removal types oldField 1)
      else s.unchanged
    | none => put s.unchanged
  else put s.unchanged

def internalAddition (x : ItemRef) : Exchange :=
  if (s.item x).isGroundTile types then
    if s.tile.ground = none then { s.unchanged with comes := some (s.item x) } else s.unchanged
  else if s.tile.items.length ≥ 0xFFFF then s.unchanged
  else { s.unchanged with comes := some (s.item x) }

/-- The item counts as another from now on. -/
def alteration (x : ItemRef) (itemId count : ℕ) : Exchange :=
  if s.getThingIndex types x = -1 then s.unchanged
  else
    { gone := some (s.item x)
      comes := some (((s.item x).setID types itemId).setSubType types count)
      stays := (s.things.filter (· ≠ x)).map s.item }

def replacement (index : ℕ) (x : ItemRef) : Exchange :=
  match s.replacedPlace index with
  | none => s.unchanged
  | some none =>
    match s.tile.ground with
    | none => s.unchanged
    | some oldItem =>
      { gone := some (s.item oldItem), comes := some (s.item x)
        stays := s.tile.items.map s.item }
  | some (some place) =>
    match s.tile.items[place]? with
    | none => s.unchanged
    | some oldItem =>
      { gone := some (s.item oldItem), comes := some (s.item x)
        stays := (s.tile.ground.toList ++ s.tile.items.eraseIdx place).map s.item }

variable {types s} {x : ItemRef} {t : State}

theorem provides_setItemCount (f : SpecialFlag) (item : Item) (n : ℕ) :
    f.provides types (item.setItemCount n) = f.provides types item := by
  cases f <;> rfl

theorem performs_unchanged (hthings : t.things = s.things) (hflags : t.tile.flags = s.tile.flags)
    (hitem : ∀ x, t.item x = s.item x ∨ ∃ n, t.item x = (s.item x).setItemCount n) :
    s.unchanged.Performs types s t where
  before f := by
    simp [Provided, Exchange.Gone, Exchange.Stays, unchanged]
  after f := by
    have hprovides : ∀ x, f.provides types (t.item x) = f.provides types (s.item x) := by
      intro x
      rcases hitem x with heq | ⟨n, heq⟩
      · rw [heq]
      · rw [heq, provides_setItemCount]
    simp [Provided, Exchange.Comes, Exchange.Stays, unchanged, hthings, hprovides]
  flags := ⟨fun _ => false, hflags⟩

theorem item_removeThing (types : ℕ → ItemType) (s : State) (x : ItemRef) (count : ℕ)
    (y : ItemRef) :
    (s.removeThing types x count).item y = s.item y ∨
      ∃ n, (s.removeThing types x count).item y = (s.item y).setItemCount n := by
  rcases removeThing_cases types s x count with ⟨-, heq | ⟨n, heq⟩⟩ | ⟨-, s', -, -, hitem, -, heq⟩
  · exact .inl (by rw [heq])
  · rw [heq]
    by_cases hy : y = x
    · subst hy
      exact .inr ⟨n, Function.update_self _ _ _⟩
    · exact .inl (Function.update_of_ne hy _ _)
  · rw [heq, item_resetTileFlags, hitem]
    exact .inl rfl

theorem performs_removal (x : ItemRef) (count : ℕ) :
    (s.removal types x count).Performs types s (s.removeThing types x count) := by
  have hitem := item_removeThing types s x count
  unfold removal
  rcases removeThing_cases types s x count with ⟨hremoves, hcases⟩ |
    ⟨hremoves, s', hx, hperm, hitem', hflags, heq⟩
  · rw [hremoves]
    rcases hcases with heq | ⟨n, heq⟩
    · exact performs_unchanged (by rw [heq]) (by rw [heq]) hitem
    · exact performs_unchanged (by rw [heq, things_setItem]) (by rw [heq]; rfl) hitem
  · rw [if_pos hremoves, heq]
    refine ⟨fun f => ?_, fun f => ?_, s'.hasProperty types x, ?_⟩
    · simp only [Provided, Exchange.Gone, Exchange.Stays, Option.mem_some_iff, exists_eq_left',
        List.mem_map, exists_exists_and_eq_and]
      constructor
      · rintro ⟨y, hy, hprovides⟩
        by_cases hyx : y = x
        · exact .inl (hyx ▸ hprovides)
        · exact .inr ⟨y, (List.mem_erase_of_ne hyx).mpr hy, hprovides⟩
      · rintro (hprovides | ⟨y, hy, hprovides⟩)
        · exact ⟨x, hx, hprovides⟩
        · exact ⟨y, List.mem_of_mem_erase hy, hprovides⟩
    · simp [Provided, Exchange.Comes, Exchange.Stays, hperm.mem_iff, hitem']
    · show Tiles.resetTileFlags types (s'.item x) s'.tile.flags (s'.hasProperty types x) = _
      rw [hitem', hflags]
      rfl

/-- An item is put where an exchange has only made room for it. -/
theorem performs_put {e : Exchange} {s₁ s₂ : State} (he : e.Performs types s s₁)
    (hcomes : e.comes = none)
    (hitem : s₁.item x = s.item x ∨ ∃ n, s₁.item x = (s.item x).setItemCount n)
    (hthings : s₂.things.Perm (x :: s₁.things)) (hitem₂ : s₂.item = s₁.item)
    (hflags : s₂.tile.flags = s₁.tile.flags) :
    Exchange.Performs types { e with comes := some (s.item x) } s (s₂.setTileFlags types x) where
  before := he.before
  after f := by
    have hprovides : f.provides types (s₁.item x) = f.provides types (s.item x) := by
      rcases hitem with heq | ⟨n, heq⟩
      · rw [heq]
      · rw [heq, provides_setItemCount]
    have hafter : s₁.Provided types f ↔ e.Stays types f := by
      rw [he.after f]
      simp [Exchange.Comes, hcomes]
    calc (s₂.setTileFlags types x).Provided types f
        ↔ ∃ y, (y = x ∨ y ∈ s₁.things) ∧ f.provides types (s₁.item y) = true := by
          simp only [Provided, things_setTileFlags, item_setTileFlags, hitem₂, hthings.mem_iff,
            List.mem_cons]
      _ ↔ f.provides types (s.item x) = true ∨ s₁.Provided types f := by
          simp only [or_and_right, exists_or, exists_eq_left, hprovides]
          rfl
      _ ↔ _ := by
          rw [hafter]
          simp [Exchange.Comes, Exchange.Stays]
  flags := by
    obtain ⟨others, hothers⟩ := he.flags
    have hset : ∀ flags, Tiles.setTileFlags types (s₁.item x) flags =
        Tiles.setTileFlags types (s.item x) flags := by
      rcases hitem with heq | ⟨n, heq⟩
      · rw [heq]
        exact fun _ => rfl
      · rw [heq]
        exact fun _ => rfl
    refine ⟨others, ?_⟩
    show Tiles.setTileFlags types (s₂.item x) s₂.tile.flags = _
    rw [hitem₂, hflags, hset, hothers]
    unfold Exchange.settled
    rw [hcomes]
    rfl

/-- One thing takes the place of another. -/
theorem performs_replaced {old : ItemRef} {rest : List ItemRef} {s' : State}
    (hthings : s.things.Perm (old :: rest)) (hthings' : s'.things.Perm (x :: rest))
    (hitem : s'.item = s.item) (hflags : s'.tile.flags = s.tile.flags) :
    Exchange.Performs types
      { gone := some (s.item old), comes := some (s.item x), stays := rest.map s.item } s
      ((s'.resetTileFlags types old).setTileFlags types x) where
  before f := by
    simp [Provided, Exchange.Gone, Exchange.Stays, hthings.mem_iff]
  after f := by
    simp [Provided, Exchange.Comes, Exchange.Stays, hthings'.mem_iff, hitem]
  flags := by
    refine ⟨s'.hasProperty types old, ?_⟩
    show Tiles.setTileFlags types (s'.item x) (Tiles.resetTileFlags types (s'.item old)
      s'.tile.flags (s'.hasProperty types old)) = _
    rw [hitem, hflags]
    rfl

theorem performs_self : s.unchanged.Performs types s s :=
  performs_unchanged rfl rfl fun _ => .inl rfl

theorem performs_put_unchanged {s₂ : State} (hthings : s₂.things.Perm (x :: s.things))
    (hitem : s₂.item = s.item) (hflags : s₂.tile.flags = s.tile.flags) :
    Exchange.Performs types { s.unchanged with comes := some (s.item x) } s
      (s₂.setTileFlags types x) :=
  performs_put performs_self rfl (.inl rfl) hthings hitem hflags

theorem comes_removal (x : ItemRef) (count : ℕ) : (s.removal types x count).comes = none := by
  unfold removal
  split
  · rfl
  · rfl

theorem perm_top {items : List ItemRef} (hitems : items.Perm (x :: s.topItems)) (n : ℕ) :
    (s.setItems (s.downItems ++ items) n).things.Perm (x :: s.things) := by
  have hvector : (s.setItems (s.downItems ++ items) n).tile.items.Perm (x :: s.tile.items) := by
    rw [← items_eq s]
    exact (hitems.append_left _).trans List.perm_middle
  exact perm_cons_things rfl hvector

theorem performs_addition (x : ItemRef) :
    (s.addition types x).Performs types s (s.addThing types x) := by
  unfold addition addThing
  dsimp only
  split_ifs with hroom hground htop hsplash hfield
  · exact performs_self
  · unfold addGround
    cases hold : s.tile.ground with
    | none =>
      have hthings : s.things = s.tile.items := by
        simp [things, hold]
      have hput : Exchange.Performs types { s.unchanged with comes := some (s.item x) } s
          ((s.setGround (some x)).setTileFlags types x) :=
        performs_put_unchanged (by rw [hthings, things_of_ground rfl]; rfl) rfl rfl
      unfold unchanged at hput
      rw [hthings] at hput
      exact hput
    | some oldGround =>
      have hnew : (s.setGround (some x)).things = x :: s.tile.items := things_of_ground rfl
      exact performs_replaced (by rw [things_of_ground hold]) (by rw [hnew]) rfl rfl
  · unfold addTopItem
    simp only [if_pos hsplash]
    cases s.topItems.find? fun y => (s.item y).isSplash types with
    | none => exact performs_put_unchanged (perm_top (perm_insertBefore _ _ _) _) rfl rfl
    | some oldSplash =>
      exact performs_put (performs_removal oldSplash 1) (comes_removal _ _)
        (item_removeThing types s oldSplash 1 x) (perm_top (perm_insertBefore _ _ _) _) rfl rfl
  · unfold addTopItem
    simp only [if_neg hsplash]
    exact performs_put_unchanged (perm_top (perm_insertBefore _ _ _) _) rfl rfl
  · unfold addDownItem
    simp only [if_pos hfield]
    cases s.downItems.find? fun y => (s.item y).getMagicField with
    | none => exact performs_put_unchanged (perm_cons_things rfl (.refl _)) rfl rfl
    | some oldField =>
      dsimp only
      split_ifs
      · exact performs_put (performs_removal oldField 1) (comes_removal _ _)
          (item_removeThing types s oldField 1 x) (perm_cons_things rfl (.refl _)) rfl rfl
      · exact performs_self
  · unfold addDownItem
    simp only [if_neg hfield]
    exact performs_put_unchanged (perm_cons_things rfl (.refl _)) rfl rfl

theorem performs_internalAddition (x : ItemRef) :
    (s.internalAddition types x).Performs types s (s.internalAddThing types x) := by
  unfold internalAddition internalAddThing
  split_ifs with hground hnone hroom htop
  · have hthings : (s.setGround (some x)).things = x :: s.things := by
      simp [things, setGround, hnone]
    exact performs_put_unchanged (by rw [hthings]) rfl rfl
  · exact performs_self
  · exact performs_self
  · exact performs_put_unchanged (perm_top (perm_insertBefore _ _ _) _) rfl rfl
  · exact performs_put_unchanged (perm_cons_things rfl (.refl _)) rfl rfl

theorem item_setItem_self (s : State) (x : ItemRef) (item : Item) :
    (s.setItem x item).item x = item := by
  unfold setItem
  exact Function.update_self ..

theorem item_setItem_of_ne {y : ItemRef} (hy : y ≠ x) (s : State) (item : Item) :
    (s.setItem x item).item y = s.item y := by
  unfold setItem
  exact Function.update_of_ne hy ..

theorem performs_alteration (x : ItemRef) (itemId count : ℕ) :
    (s.alteration types x itemId count).Performs types s (s.updateThing types x itemId count) := by
  unfold alteration updateThing
  split_ifs with hindex
  · exact performs_self
  · have hx : x ∈ s.things := not_not.mp fun hx => hindex (getThingIndex_of_notMem hx)
    refine ⟨fun f => ?_, fun f => ?_, s.hasProperty types x, ?_⟩
    · simp only [Provided, Exchange.Gone, Exchange.Stays, Option.mem_some_iff, exists_eq_left',
        List.mem_map, exists_exists_and_eq_and, List.mem_filter, decide_eq_true_eq]
      constructor
      · rintro ⟨y, hy, hprovides⟩
        by_cases hyx : y = x
        · exact .inl (hyx ▸ hprovides)
        · exact .inr ⟨y, ⟨hy, hyx⟩, hprovides⟩
      · rintro (hprovides | ⟨y, hy, hprovides⟩)
        · exact ⟨x, hx, hprovides⟩
        · exact ⟨y, hy.1, hprovides⟩
    · simp only [Provided, Exchange.Comes, Exchange.Stays, Option.mem_some_iff, exists_eq_left',
        List.mem_map, exists_exists_and_eq_and, List.mem_filter, decide_eq_true_eq,
        things_setTileFlags, item_setTileFlags, things_setItem, things_resetTileFlags]
      constructor
      · rintro ⟨y, hy, hprovides⟩
        by_cases hyx : y = x
        · subst hyx
          rw [item_setItem_self] at hprovides
          exact .inl hprovides
        · rw [item_setItem_of_ne hyx] at hprovides
          exact .inr ⟨y, ⟨hy, hyx⟩, hprovides⟩
      · rintro (hprovides | ⟨y, hy, hprovides⟩)
        · refine ⟨x, hx, ?_⟩
          rwa [item_setItem_self]
        · refine ⟨y, hy.1, ?_⟩
          rwa [item_setItem_of_ne hy.2]
    · show Tiles.setTileFlags types (Function.update s.item x _ x) _ = _
      rw [Function.update_self]
      rfl

theorem performs_replacement (index : ℕ) (x : ItemRef) :
    (s.replacement index x).Performs types s (s.replaceThing types index x) := by
  unfold replacement replaceThing
  cases s.replacedPlace index with
  | none => exact performs_self
  | some place =>
    cases place with
    | none =>
      dsimp only
      cases hground : s.tile.ground with
      | none => exact performs_self
      | some oldItem =>
        have hnew : (s.setGround (some x)).things = x :: s.tile.items := things_of_ground rfl
        exact performs_replaced (by rw [things_of_ground hground]) (by rw [hnew]) rfl rfl
    | some place =>
      dsimp only
      cases hplace : s.tile.items[place]? with
      | none => exact performs_self
      | some oldItem =>
        obtain ⟨hlt, heq⟩ := List.getElem?_eq_some_iff.mp hplace
        have hbefore : s.things.Perm
            (oldItem :: (s.tile.ground.toList ++ s.tile.items.eraseIdx place)) := by
          rw [← heq]
          exact ((List.getElem_cons_eraseIdx_perm hlt).symm.append_left _).trans
            List.perm_middle
        have hafter : (s.setItems (s.tile.items.set place x) s.tile.downItemCount).things.Perm
            (x :: (s.tile.ground.toList ++ s.tile.items.eraseIdx place)) :=
          ((List.set_perm_cons_eraseIdx hlt x).append_left _).trans List.perm_middle
        exact performs_replaced hbefore hafter rfl rfl

end State

/-! ## Runs -/

namespace Action

/-- What the call takes off the tile and puts on it; creatures have no flags. -/
def exchange (types : ℕ → ItemType) (s : State) : Action → Exchange
  | .addThing x => s.addition types x
  | .internalAddThing x => s.internalAddition types x
  | .removeThing x count => s.removal types x count
  | .updateThing x itemId count => s.alteration types x itemId count
  | .replaceThing index x => s.replacement index x
  | .addCreature _ => s.unchanged
  | .removeCreature _ => s.unchanged

theorem performs_exchange (types : ℕ → ItemType) (s : State) (a : Action) :
    (a.exchange types s).Performs types s (a.perform types s) := by
  cases a with
  | addThing x => exact State.performs_addition x
  | internalAddThing x => exact State.performs_internalAddition x
  | removeThing x count => exact State.performs_removal x count
  | updateThing x itemId count => exact State.performs_alteration x itemId count
  | replaceThing index x => exact State.performs_replacement index x
  | addCreature creature => exact State.performs_unchanged rfl rfl fun _ => .inl rfl
  | removeCreature creature => exact State.performs_unchanged rfl rfl fun _ => .inl rfl

/-- From an empty tile on, over every table of item types, all objects and every sequence of
calls, the special flags are exact as long as each call keeps those of what stays. -/
theorem always_special_iff (types : ℕ → ItemType) (item : ItemRef → Item)
    (actions : List Action) :
    Library.Run.Always (fun s a => some (perform types s a)) (State.Special types)
        { item := item } actions ↔
      Library.Run.EachStep (fun s a => some (perform types s a))
        (fun s a => (exchange types s a).Keeps types) { item := item } actions := by
  apply Library.Run.always_iff_eachStep (I := fun _ => True) (fun _ _ _ _ _ => trivial)
  · intro s a t _ hs hstep
    obtain rfl := Option.some.inj hstep
    exact (performs_exchange types s a).special_iff hs
  · trivial
  · intro f
    have hclear : hasFlag 0#32 f.flag = false := by
      rw [f.hasFlag_eq_getLsbD, BitVec.getLsbD_zero]
    simp [State.Provided, State.things, hclear]

/-- Two walls stand on the tile; when one of them is taken off it, nothing can be hung on the
other any more. -/
theorem second_wall_loses_flag :
    let types : ℕ → ItemType := fun _ => { id := 1025, isHorizontal := true }
    ¬Library.Run.Always (fun s a => some (perform types s a)) (State.Special types)
      { item := fun _ => { id := 1025 } } [.addThing 0, .addThing 1, .removeThing 0 1] := by
  intro types h
  have hlast := ((((h.2 _ rfl).2 _ rfl).2 _ rfl).head .SUPPORTS_HANGABLE).mpr ⟨1, by decide⟩
  exact absurd hlast (by decide)

end Action

end TibiaServer.Tiles
