import TibiaServer.Cylinders.Parents
import TibiaServer.Cylinders.Units
import TibiaServer.Game.MoveItem
/-!
# Clones

What is left of a stack that is split goes on as a clone, a new object with the id
and the attributes of the stack.  It is of the kind of the stack unless the type
decays and the stack has no attributes, for `Item::Item` writes a duration then.
-/

namespace TibiaServer.Game

open TibiaServer.Cylinders
open TibiaServer.Library
open TibiaServer.World (Position)

/-- A clone counts as the stack that it is taken from. -/
def ClonesKind (s : State) (item : ItemRef) : Prop :=
  (s.item item).attributes = none → (s.typeOf item).decayTime * 1000 % 4294967296 = 0

/-! ## The new item -/

section Item

variable {items : ℕ → ItemType} {item newItem : Item}

theorem ofStack_id (id count : ℕ) : (Item.ofStack items id count).id = id := by
  unfold Item.ofStack
  simp only
  split_ifs <;> rfl

theorem ofStack_container (id count : ℕ) : (Item.ofStack items id count).container = none := by
  unfold Item.ofStack
  simp only
  split_ifs <;> rfl

theorem ofStack_parent (id count : ℕ) : (Item.ofStack items id count).parent = none := by
  unfold Item.ofStack
  simp only
  split_ifs <;> rfl

theorem ofStack_attributes (id count : ℕ) : (Item.ofStack items id count).attributes = none ↔
    (items id).decayTime * 1000 % 4294967296 = 0 := by
  unfold Item.ofStack
  simp only
  split_ifs <;> simp_all [Item.setIntAttr, Item.setItemCount]

theorem ofStack_duration (id count : ℕ) {attributes : ItemAttributes}
    (h : (Item.ofStack items id count).attributes = some attributes) :
    attributes ≠ fun _ => none := by
  intro hempty
  have hduration : attributes .ITEM_ATTRIBUTE_DURATION = none := congrFun hempty _
  unfold Item.ofStack at h
  simp only at h
  split_ifs at h <;>
    simp_all [Item.setIntAttr, Item.setItemCount]

/-- The table has a row for every stack, so `CreateItem` creates one. -/
theorem clone_of_stackable
    (hnamed : ∀ id, items id = { id := 0 } ∨ (items id).id = id ∧ id ≠ 0)
    (hstack : (items item.id).stackable = true) :
    ∃ newItem, item.clone items = some newItem ∧ newItem.id = item.id ∧
      newItem.container = none ∧ newItem.parent = none ∧
      (newItem.attributes = none → (items item.id).decayTime * 1000 % 4294967296 = 0) ∧
      (newItem.kind = item.kind ↔
        (item.attributes = none → (items item.id).decayTime * 1000 % 4294967296 = 0)) := by
  obtain ⟨hgroup, -, -, hcreated⟩ := (items item.id).stackable_plain hstack
  obtain ⟨hid, hne⟩ : (items item.id).id = item.id ∧ item.id ≠ 0 := by
    rcases hnamed item.id with hempty | hrow
    · rw [hempty] at hstack
      cases hstack
    · exact hrow
  rw [hid] at hcreated
  generalize hcount : (if (items item.id).stackable && item.count == 0 then 1 else item.count) =
    count
  have hclone : item.clone items =
      some { Item.ofStack items item.id count with
        attributes := item.attributes.or (Item.ofStack items item.id count).attributes } := by
    unfold Item.clone
    simp only [hgroup, hid, hcreated, hcount, hne]
    simp
  refine ⟨_, hclone, ofStack_id _ _, ofStack_container _ _, ofStack_parent _ _, ?_, ?_⟩
  · intro hnone
    exact (ofStack_attributes item.id count).mp (Option.or_eq_none_iff.mp hnone).2
  unfold Item.kind
  simp only [ofStack_id, Prod.mk.injEq, true_and]
  cases hattributes : item.attributes with
  | some attributes => simp
  | none =>
    simp only [Option.none_or, Option.getD_none, forall_const]
    rw [← ofStack_attributes item.id count]
    cases hnew : (Item.ofStack items item.id count).attributes with
    | none => simp
    | some attributes => simpa using ofStack_duration item.id count hnew

/-- `setID` gives every item of a type that decays a duration. -/
theorem setID_kind_of_decays
    (h : (items item.id).decayTime * 1000 % 4294967296 ≠ 0) :
    (item.setID items item.id).kind.2 .ITEM_ATTRIBUTE_DURATION ≠ none := by
  have hset : item.setID items item.id =
      Item.renewDuration (items item.id) (items item.id) item.dropCorpseOwner := by
    unfold Item.setID Item.dropDecay
    simp [h]
  rw [hset]
  generalize Item.dropCorpseOwner item = other
  unfold Item.renewDuration
  split
  next =>
    simp [Item.kind, Item.setIntAttr]
  next hkeep =>
    have hduration : other.hasAttribute .ITEM_ATTRIBUTE_DURATION = true := by
      by_contra hno
      exact hkeep ⟨Nat.pos_of_ne_zero h, Or.inr (by simpa using hno)⟩
    unfold Item.hasAttribute at hduration
    cases hattributes : other.attributes with
    | none =>
      rw [hattributes] at hduration
      cases hduration
    | some attributes =>
      rw [hattributes] at hduration
      simpa [Item.kind, hattributes, ← Option.isSome_iff_ne_none] using hduration
end Item

/-! ## The new object -/

section Object

variable {s : State} {item : ItemRef}

theorem stocked_withItem (hs : Stocked s) {item : Item}
    (hcontainer : item.container = (s.item s.fresh).container) :
    Stocked { s.setItem s.fresh item with fresh := s.fresh + 1 } := by
  have hcontents := s.contents_setItem hcontainer
  have hisContainer := s.isContainer_setItem hcontainer
  have hne : ∀ {x : ItemRef}, x < s.fresh → x ≠ s.fresh := fun hx => hx.ne
  have hitem : ∀ x, x < s.fresh → (s.setItem s.fresh item).item x = s.item x := by
    intro x hx
    simp [State.setItem, hne hx]
  have htype : ∀ x, x < s.fresh → (s.setItem s.fresh item).typeOf x = s.typeOf x := by
    intro x hx
    unfold State.typeOf
    rw [hitem x hx]
    rfl
  have hlayers : Layered (s.setItem s.fresh item) := by
    constructor
    · intro t y hy
      rw [htype y (hs.old (.tile t) y (s.mem_contents_tile.mpr (Or.inl hy)))]
      exact hs.ground t y hy
    · intro t y hy
      rw [htype y (hs.old (.tile t) y (s.mem_contents_tile.mpr (Or.inr (Or.inl hy))))]
      exact hs.down t y hy
    · intro t y hy
      rw [htype y (hs.old (.tile t) y (s.mem_contents_tile.mpr (Or.inr (Or.inr hy))))]
      exact hs.top t y hy
  exact
    { ground := hlayers.ground
      down := hlayers.down
      top := hlayers.top
      named := hs.named
      nodup := fun c => (hcontents c).symm ▸ hs.nodup c
      once := fun c c' y hy hy' => hs.once c c' y ((hcontents c) ▸ hy) ((hcontents c') ▸ hy')
      old := fun c y hy => Nat.lt_succ_of_lt (hs.old c y ((hcontents c) ▸ hy))
      cylinder := fun c hc => hs.cylinder c ((hcontents c) ▸ hc)
      container := fun x => (hs.container x).trans (by rw [← hisContainer x]; rfl)
      plain := by
        intro x hx
        have hplain := hs.plain x ((hisContainer x).symm.trans hx)
        refine ⟨Nat.lt_succ_of_lt hplain.1, ?_⟩
        have hstack : (s.setItem s.fresh item).isStackable x = s.isStackable x := by
          unfold State.isStackable
          rw [htype x hplain.1]
        exact hstack.trans hplain.2
      count := by
        intro c y hy hstack
        have hy' : y ∈ s.contents c := (hcontents c) ▸ hy
        have hold := hs.old c y hy'
        have hstack' : s.isStackable y = true := by
          rw [← hstack]
          unfold State.isStackable
          rw [← htype y hold]
          rfl
        have hcount : (s.setItem s.fresh item).getItemCount y = s.getItemCount y := by
          unfold State.getItemCount
          rw [hitem y hold]
        have hbounds := hs.count c y hy' hstack'
        rw [← hcount] at hbounds
        exact hbounds }

/-- The state `s'` has a clone of `item` with count `n`, and it stands nowhere. -/
structure Clones (s s' : State) (item : ItemRef) (n : ℕ) : Prop where
  stocked : Stocked s'
  items : s'.items = s.items
  cylinders : s'.cylinders = s.cylinders
  contents : ∀ c, s'.contents c = s.contents c
  units : ∀ k, s'.units k = s.units k
  isContainer : ∀ x, s'.isContainer x = s.isContainer x
  capacity : ∀ x, s'.capacity x = s.capacity x
  keeps : ∀ c index, s'.keeps c index s.fresh ↔ s.keeps c index item
  old : s.fresh < s'.fresh
  isStackable : s'.isStackable s.fresh = true
  count : s'.getItemCount s.fresh = n
  kind : (s'.item s.fresh).kind = (s.item item).kind ↔ ClonesKind s item
  clones : ClonesKind s' s.fresh
  parented : Parented s → Parented s'

theorem cloneItem_spec (hs : Stocked s) (hstack : s.isStackable item = true) {n : ℕ}
    (hn : n < 256) : ∃ s', cloneItem s item n = some (s', s.fresh) ∧ Clones s s' item n := by
  obtain ⟨newItem, hclone, hid, hcontainer, hparent, hnone, hkind⟩ := clone_of_stackable hs.named hstack
  have hfresh : (s.item s.fresh).container = none := by
    by_contra hsome
    have hisContainer : s.isContainer s.fresh = true := Option.isSome_iff_ne_none.mpr hsome
    exact lt_irrefl _ (hs.plain s.fresh hisContainer).1
  generalize hnew : newItem.setItemCount n = stack
  have hstackId : stack.id = (s.item item).id := by
    rw [← hnew]
    exact hid
  have hstackContainer : stack.container = (s.item s.fresh).container := by
    rw [hfresh, ← hnew]
    exact hcontainer
  have hcontents : ∀ c, (s.setItem s.fresh stack).contents c = s.contents c :=
    s.contents_setItem hstackContainer
  have hisContainer := s.isContainer_setItem hstackContainer
  have htype : ∀ x, x ≠ s.fresh → (s.setItem s.fresh stack).typeOf x = s.typeOf x := by
    intro x hx
    simp [State.typeOf, State.setItem, hx]
  have hhere : (s.setItem s.fresh stack).typeOf s.fresh = s.typeOf item := by
    simp [State.typeOf, State.setItem, hstackId]
  have hne : ∀ {c : Cylinder} {x : ItemRef}, x ∈ s.contents c → x ≠ s.fresh :=
    fun hx => (hs.old _ _ hx).ne
  refine ⟨{ s.setItem s.fresh stack with fresh := s.fresh + 1 }, ?_, ?_⟩
  · unfold cloneItem
    rw [hclone, Option.map_some, hnew]
  · exact
      { stocked := stocked_withItem hs hstackContainer
        items := rfl
        cylinders := rfl
        contents := hcontents
        units := by
          intro k
          unfold State.units
          apply Stock.total_congr
          · intro c _
            rw [← hcontents c]
            exact List.Perm.refl _
          · intro c _ x hx
            simp [State.kindUnits, State.setItem, hne hx]
        isContainer := hisContainer
        capacity := s.capacity_setItem hstackContainer
        keeps := fun c index =>
          State.keeps_congr (fun _ => rfl) (fun _ => rfl) (fun _ => rfl) (fun _ => rfl)
            hisContainer (s.capacity_setItem hstackContainer)
            (fun t x hx => htype x (hne hx)) hhere
        old := Nat.lt_succ_self _
        isStackable := by
          have hstack' : (s.setItem s.fresh stack).isStackable s.fresh = true := by
            unfold State.isStackable
            rw [hhere]
            exact hstack
          exact hstack'
        count := by
          simp only [State.getItemCount, State.setItem, Function.update_self, ← hnew,
            Item.setItemCount]
          omega
        kind := by
          have hkind' : stack.kind = newItem.kind := by
            rw [← hnew]
            exact Item.setItemCount_kind n newItem
          simp only [State.setItem, Function.update_self, hkind']
          exact hkind
        clones := by
          have hattributes : stack.attributes = newItem.attributes := by
            rw [← hnew]
            rfl
          have hclones : ClonesKind (s.setItem s.fresh stack) s.fresh := by
            unfold ClonesKind
            rw [hhere]
            simpa [State.setItem, State.typeOf, hattributes] using hnone
          exact hclones
        parented := by
          intro hs' x y hxy
          have hxy' : ((s.setItem s.fresh stack).item x).parent = some (.container y) := hxy
          have hnone : stack.parent = none := by
            rw [← hnew]
            exact hparent
          by_cases hx : x = s.fresh
          · subst hx
            simp [State.setItem, hnone] at hxy'
          · simp only [State.setItem, Function.update_of_ne hx] at hxy'
            exact (hisContainer y).trans (hs' x y hxy') }

end Object

end TibiaServer.Game
