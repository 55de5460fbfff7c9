import TibiaServer.Cylinders.Destination
import TibiaServer.Game.Transfer
/-!
# The calls of `internalAddItem`

`Calls` says what a call comes to, one rule for each way through the code, and the
call in it is a premise.  What holds of every call is then shown by induction on it.
-/

namespace TibiaServer.Game

open TibiaServer.Cylinders
open ReturnValue

inductive Calls (destCylinder : Cylinder) :
    State → ItemRef → ℤ → cylinderflags_t → AddResult → Prop
  | refused {s item index flags d} (hd : addDestination s destCylinder item index flags = d)
      (h : addAnswer s destCylinder item d ≠ NOERROR) :
      Calls destCylinder s item index flags
        { ret := addAnswer s destCylinder item d, state := s }
  | placed {s item index flags d} (hd : addDestination s destCylinder item index flags = d)
      (h : addAnswer s destCylinder item d = NOERROR) (hnone : addTarget s item d = none) :
      Calls destCylinder s item index flags { ret := NOERROR, state := addAndNotify s d item }
  | merged {s item index flags d x m t} (hd : addDestination s destCylinder item index flags = d)
      (h : addAnswer s destCylinder item d = NOERROR) (hx : addTarget s item d = some x)
      (hm : addCount s destCylinder item d = m) (hfits : m - mergedCount s x m = 0)
      (hplaces : SamePlaces (mergeState s d x m) t) :
      Calls destCylinder s item index flags { ret := NOERROR, state := t }
  | beside {s item index flags d x m} (hd : addDestination s destCylinder item index flags = d)
      (h : addAnswer s destCylinder item d = NOERROR) (hx : addTarget s item d = some x)
      (hm : addCount s destCylinder item d = m) (hrest : 0 < m - mergedCount s x m)
      (hall : s.getItemCount item = m - mergedCount s x m) :
      Calls destCylinder s item index flags
        { ret := NOERROR, state := addAndNotify (mergeState s d x m) d item }
  | split {s item index flags d x m w y r} (hd : addDestination s destCylinder item index flags = d)
      (h : addAnswer s destCylinder item d = NOERROR) (hx : addTarget s item d = some x)
      (hm : addCount s destCylinder item d = m) (hrest : 0 < m - mergedCount s x m)
      (hpart : s.getItemCount item ≠ m - mergedCount s x m)
      (hclone : cloneItem (mergeState s d x m) item (m - mergedCount s x m) = some (w, y))
      (again : Calls destCylinder w y INDEX_WHEREEVER d.flags r) :
      Calls destCylinder s item index flags
        { ret := NOERROR, state := r.state
          remainderCount := if r.ret ≠ NOERROR then m - mergedCount s x m else 0 }

section Spec

variable {s : State} {destCylinder : Cylinder} {item : ItemRef} {index : ℤ}
  {flags : cylinderflags_t}

theorem samePlaces_addAndNotify (s : State) (d : Destination) (item : ItemRef) :
    SamePlaces (s.addThing d.cylinder d.index item) (addAndNotify s d item) := by
  unfold addAndNotify
  simp only
  split
  · exact State.samePlaces_postNotification _ _
  · exact SamePlaces.refl _

/-- An item that is added stands nowhere yet. -/
structure Addable (s : State) (item : ItemRef) : Prop where
  nowhere : ∀ c, item ∉ s.contents c
  old : item < s.fresh
  count : s.isStackable item = true → 1 ≤ s.getItemCount item
  byte : s.getItemCount item < 256

/-- The stack that is merged into stands at the destination, and is another one. -/
theorem addTarget_spec (hs : WellFormed s) (hitem : Addable s item) {d : Destination}
    (hd : addDestination s destCylinder item index flags = d) {x : ItemRef}
    (hx : addTarget s item d = some x) :
    x ∈ s.contents d.cylinder ∧ x ≠ item ∧ s.isStackable item = true ∧
      s.isStackable x = true ∧ (s.item x).kind = (s.item item).kind ∧
      1 ≤ s.getItemCount x ∧ s.getItemCount x ≤ 100 := by
  obtain ⟨hdest, hmerge⟩ := Option.filter_eq_some_iff.mp hx
  obtain ⟨hstack, hequals⟩ := Bool.and_eq_true_iff.mp hmerge
  have hheld : d.Held s := by
    rw [← hd]
    exact s.held_queryDestination (s.held_none destCylinder index flags) item
  have hmem := hheld.mem hdest
  have hxstack := isStackable_of_equals hstack hequals
  have hcount := hs.count d.cylinder x hmem hxstack
  exact ⟨hmem, fun heq => hitem.nowhere d.cylinder (heq ▸ hmem), hstack, hxstack,
    (Item.kind_eq_of_equals hequals).symm, hcount.1, hcount.2⟩

/-- The stack takes what fits, and the item is as it was. -/
theorem mergeState_spec (hs : WellFormed s) (hitem : Addable s item) {d : Destination}
    (hd : addDestination s destCylinder item index flags = d) {x : ItemRef}
    (hx : addTarget s item d = some x) (m : ℕ) :
    Merged s (mergeState s d x m) d item ∧ WellFormed (mergeState s d x m) ∧
      Addable (mergeState s d x m) item ∧
      ∀ k, (mergeState s d x m).units k +
          (if (s.item item).kind = k then s.getItemCount x else 0) =
        s.units k + if s.mergedKind x = k then s.getItemCount x + mergedCount s x m else 0 := by
  obtain ⟨hmem, hne, hstack, hxstack, hkind, hone, hfull⟩ := addTarget_spec hs hitem hd hx
  have hn : 1 ≤ s.getItemCount x + mergedCount s x m ∧
      s.getItemCount x + mergedCount s x m ≤ 100 := by
    rw [mergedCount_of_le hfull]
    omega
  have hmerged : Merged s (mergeState s d x m) d item :=
    merged_updateThing hs.toStocked hmem hxstack hne hn
  have hunits := State.units_updateThing hs.toStocked hmem hxstack hn.2
  have hparent := Parented.updateThing hs.parent d.cylinder x (s.item x).id
    (s.getItemCount x + mergedCount s x m)
  refine ⟨hmerged, ⟨hmerged.stocked, hparent⟩, ?_, fun k => ?_⟩
  · exact
      { nowhere := fun c hc => hitem.nowhere c (hmerged.contents c ▸ hc)
        old := by
          rw [hmerged.fresh]
          exact hitem.old
        count := fun _ => by
          rw [hmerged.count]
          exact hitem.count hstack
        byte := by
          rw [hmerged.count]
          exact hitem.byte }
  · have hk := hunits k
    unfold State.kindUnits at hk
    rw [hkind, State.units_of_stackable hxstack] at hk
    exact hk

/-- The rest goes on as a clone `y` that stands nowhere. -/
structure Copied (s w : State) (item y : ItemRef) (n : ℕ) : Prop where
  wellFormed : WellFormed w
  addable : Addable w y
  items : w.items = s.items
  cylinders : w.cylinders = s.cylinders
  contents : ∀ c, w.contents c = s.contents c
  capacity : ∀ x, w.capacity x = s.capacity x
  units : ∀ k, w.units k = s.units k
  count : w.getItemCount y = n
  isStackable : w.isStackable y = true
  kind : (w.item y).kind = (s.item item).kind ↔ ClonesKind s item
  clones : ClonesKind w y

theorem copied_of_clone (hs : WellFormed s) (hstack : s.isStackable item = true) {n : ℕ}
    (hpos : 0 < n) (hn : n < 256) {w : State} {y : ItemRef}
    (hclone : cloneItem s item n = some (w, y)) : Copied s w item y n := by
  obtain ⟨w', hclone', hw⟩ := cloneItem_spec hs.toStocked hstack hn
  obtain ⟨rfl, rfl⟩ := Prod.mk.inj (Option.some.inj (hclone'.symm.trans hclone))
  exact
    { wellFormed := ⟨hw.stocked, hw.parented hs.parent⟩
      addable :=
        { nowhere := fun c hc => lt_irrefl _ (hs.old c _ (hw.contents c ▸ hc))
          old := hw.old
          count := fun _ => by
            rw [hw.count]
            exact hpos
          byte := by
            rw [hw.count]
            exact hn }
      items := hw.items
      cylinders := hw.cylinders
      contents := hw.contents
      capacity := hw.capacity
      units := hw.units
      count := hw.count
      isStackable := hw.isStackable
      kind := hw.kind
      clones := hw.clones }

end Spec

/-! ## Every call comes to something -/

section Total

variable {destCylinder : Cylinder}

theorem addCount_le (s : State) (item : ItemRef) (d : Destination) :
    addCount s destCylinder item d ≤ s.getItemCount item :=
  Nat.min_le_left _ _

/-- The call in a call adds fewer units, so the bound of `internalAddItemLoop` is enough. -/
theorem loop_calls (fuel : ℕ) {s : State} {item : ItemRef} (index : ℤ) (flags : cylinderflags_t)
    (hs : WellFormed s) (hitem : Addable s item) (hfuel : s.getItemCount item < fuel) :
    ∃ r, internalAddItemLoop destCylinder fuel s item index flags false = some r ∧
      Calls destCylinder s item index flags r := by
  induction fuel generalizing s item index flags with
  | zero => omega
  | succ fuel ih =>
    generalize hd : addDestination s destCylinder item index flags = d
    unfold internalAddItemLoop
    simp only [hd]
    by_cases hanswer : addAnswer s destCylinder item d = NOERROR
    · rw [if_neg (not_not.mpr hanswer), if_neg (by simp)]
      cases hx : addTarget s item d with
      | none => exact ⟨_, rfl, .placed hd hanswer hx⟩
      | some x =>
        obtain ⟨hmerged, hv, hitemV, -⟩ := mergeState_spec hs hitem hd hx
          (addCount s destCylinder item d)
        have hstack := (addTarget_spec hs hitem hd hx).2.2.1
        have hbyte := hitem.byte
        have hle : addCount s destCylinder item d ≤ s.getItemCount item := addCount_le s item d
        generalize hm : addCount s destCylinder item d = m at hmerged hv hitemV hle ⊢
        simp only
        unfold mergeAndAdd
        simp only [hmerged.count]
        split
        next hrest =>
          split
          next hpart =>
            have hstackV := hmerged.isStackable.trans hstack
            obtain ⟨w, hclone, -⟩ := cloneItem_spec hmerged.stocked hstackV
              (show m - mergedCount s x m < 256 by omega)
            have hcopied := copied_of_clone hv hstackV hrest (by omega) hclone
            have hcount := hcopied.count
            obtain ⟨r, hr, hagain⟩ :=
              ih INDEX_WHEREEVER d.flags hcopied.wellFormed hcopied.addable (by omega)
            refine ⟨_, ?_, .split hd hanswer hx hm hrest hpart hclone hagain⟩
            rw [hclone, Option.bind_some, hr]
            rfl
          next hall =>
            exact ⟨_, rfl, .beside hd hanswer hx hm hrest (not_not.mp hall)⟩
        next hrest =>
          refine ⟨_, rfl, .merged hd hanswer hx hm (by omega) ?_⟩
          split
          · exact State.samePlaces_postNotification _ _
          · exact SamePlaces.refl _
    · rw [if_pos hanswer]
      exact ⟨_, rfl, .refused hd hanswer⟩

theorem internalAddItem_calls {s : State} {item : ItemRef} (hs : WellFormed s)
    (hitem : Addable s item) (destCylinder : Cylinder) (index : ℤ) (flags : cylinderflags_t) :
    ∃ r, internalAddItem s destCylinder item index flags false = some r ∧
      Calls destCylinder s item index flags r :=
  loop_calls (s.getItemCount item + 1) index flags hs hitem (Nat.lt_succ_self _)

end Total

end TibiaServer.Game
