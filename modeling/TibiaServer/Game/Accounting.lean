import TibiaServer.Cylinders.Tables
import TibiaServer.Game.AddCalls
/-!
# Units and additions

An addition accounts for all its units where each call in it asks for the whole
stack, merges and clones keep the kind, and the last place keeps what it has.  Only
the call that the caller made itself may be told that the rest was refused: the
`remainderCount` of a call in a call is dropped.
-/

namespace TibiaServer.Game

open TibiaServer.Cylinders
open ReturnValue

/-- The whole item is asked for, and the stack that takes of it keeps its kind. -/
structure TakesAll (s : State) (destCylinder : Cylinder) (item : ItemRef) (d : Destination)
    (x : ItemRef) : Prop where
  room : s.getItemCount item ≤ (addRoom s destCylinder item d).2
  kind : s.mergedKind x = (s.item x).kind

/-- What an addition at the place loses, if anything, is of another kind. -/
def KeepsKind (s : State) (d : Destination) (item : ItemRef) : Prop :=
  ∀ old, s.lost d.cylinder d.index item = some old → (s.item old).kind ≠ (s.item item).kind

/-- All units of the item come to stand in the world. -/
inductive Settles (destCylinder : Cylinder) : State → ItemRef → ℤ → cylinderflags_t → Prop
  | placed {s item index flags d} (hd : addDestination s destCylinder item index flags = d)
      (h : addAnswer s destCylinder item d = NOERROR) (hnone : addTarget s item d = none)
      (hkeeps : KeepsKind s d item) : Settles destCylinder s item index flags
  | merged {s item index flags d x} (hd : addDestination s destCylinder item index flags = d)
      (h : addAnswer s destCylinder item d = NOERROR) (hx : addTarget s item d = some x)
      (htakes : TakesAll s destCylinder item d x)
      (hfits : s.getItemCount item ≤ mergedCount s x (s.getItemCount item)) :
      Settles destCylinder s item index flags
  | beside {s item index flags d x} (hd : addDestination s destCylinder item index flags = d)
      (h : addAnswer s destCylinder item d = NOERROR) (hx : addTarget s item d = some x)
      (htakes : TakesAll s destCylinder item d x)
      (hfull : mergedCount s x (s.getItemCount item) = 0)
      (hkeeps : KeepsKind (mergeState s d x (s.getItemCount item)) d item) :
      Settles destCylinder s item index flags
  | split {s item index flags d x w y} (hd : addDestination s destCylinder item index flags = d)
      (h : addAnswer s destCylinder item d = NOERROR) (hx : addTarget s item d = some x)
      (htakes : TakesAll s destCylinder item d x)
      (hpart : 0 < mergedCount s x (s.getItemCount item))
      (hclone : cloneItem (mergeState s d x (s.getItemCount item)) item
        (s.getItemCount item - mergedCount s x (s.getItemCount item)) = some (w, y))
      (again : Settles destCylinder w y INDEX_WHEREEVER d.flags) :
      Settles destCylinder s item index flags

section Inversion

variable {s : State} {destCylinder : Cylinder} {item : ItemRef} {index : ℤ}
  {flags : cylinderflags_t} {d : Destination} {x : ItemRef} {m : ℕ}

theorem not_settles_of_refused (hd : addDestination s destCylinder item index flags = d)
    (h : addAnswer s destCylinder item d ≠ NOERROR) :
    ¬ Settles destCylinder s item index flags := by
  subst hd
  intro hsettles
  cases hsettles with
  | placed hd haccept _ _ => exact h (hd ▸ haccept)
  | merged hd haccept _ _ _ => exact h (hd ▸ haccept)
  | beside hd haccept _ _ _ _ => exact h (hd ▸ haccept)
  | split hd haccept _ _ _ _ _ => exact h (hd ▸ haccept)

theorem settles_placed_iff (hd : addDestination s destCylinder item index flags = d)
    (h : addAnswer s destCylinder item d = NOERROR) (hnone : addTarget s item d = none) :
    Settles destCylinder s item index flags ↔ KeepsKind s d item := by
  constructor
  · intro hsettles
    cases hsettles with
    | placed hd' _ _ hkeeps => rwa [← hd, hd']
    | merged hd' _ hx _ _ =>
      rw [← hd', hd, hnone] at hx
      cases hx
    | beside hd' _ hx _ _ _ =>
      rw [← hd', hd, hnone] at hx
      cases hx
    | split hd' _ hx _ _ _ _ =>
      rw [← hd', hd, hnone] at hx
      cases hx
  · exact fun hkeeps => .placed hd h hnone hkeeps

/-- Where there is a stack to merge with, the whole item has to be asked for. -/
theorem takesAll_of_settles (hd : addDestination s destCylinder item index flags = d)
    (hx : addTarget s item d = some x) (h : Settles destCylinder s item index flags) :
    TakesAll s destCylinder item d x := by
  have heq : ∀ {d' x'}, addDestination s destCylinder item index flags = d' →
      addTarget s item d' = some x' → TakesAll s destCylinder item d' x' →
      TakesAll s destCylinder item d x := by
    intro d' x' hd' hx' htakes
    rw [← hd', hd] at hx' htakes
    rwa [Option.some.inj (hx.symm.trans hx')]
  cases h with
  | placed hd' _ hnone _ =>
    rw [← hd', hd, hx] at hnone
    cases hnone
  | merged hd' _ hx' htakes _ => exact heq hd' hx' htakes
  | beside hd' _ hx' htakes _ _ => exact heq hd' hx' htakes
  | split hd' _ hx' htakes _ _ _ => exact heq hd' hx' htakes

theorem addCount_of_takesAll (h : TakesAll s destCylinder item d x) :
    addCount s destCylinder item d = s.getItemCount item :=
  Nat.min_eq_left h.room

theorem settles_merged_iff (hd : addDestination s destCylinder item index flags = d)
    (h : addAnswer s destCylinder item d = NOERROR) (hx : addTarget s item d = some x)
    (hm : addCount s destCylinder item d = m) (hfits : m - mergedCount s x m = 0) :
    Settles destCylinder s item index flags ↔ TakesAll s destCylinder item d x := by
  constructor
  · exact takesAll_of_settles hd hx
  · intro htakes
    rw [addCount_of_takesAll htakes] at hm
    subst hm
    exact .merged hd h hx htakes (by omega)

theorem settles_beside_iff (hd : addDestination s destCylinder item index flags = d)
    (h : addAnswer s destCylinder item d = NOERROR) (hx : addTarget s item d = some x)
    (hm : addCount s destCylinder item d = m) (hrest : 0 < m - mergedCount s x m)
    (hall : s.getItemCount item = m - mergedCount s x m) :
    Settles destCylinder s item index flags ↔
      s.mergedKind x = (s.item x).kind ∧ KeepsKind (mergeState s d x m) d item := by
  have hle : addCount s destCylinder item d ≤ s.getItemCount item := addCount_le s item d
  have hmcount : m = s.getItemCount item := by omega
  have hzero : mergedCount s x (s.getItemCount item) = 0 := by
    rw [← hmcount]
    omega
  constructor
  · intro hsettles
    refine ⟨(takesAll_of_settles hd hx hsettles).kind, ?_⟩
    cases hsettles with
    | placed hd' _ hnone _ =>
      rw [← hd', hd, hx] at hnone
      cases hnone
    | merged hd' _ hx' _ hfits =>
      rw [← hd', hd] at hx'
      rw [← Option.some.inj (hx.symm.trans hx'), hzero] at hfits
      omega
    | beside hd' _ hx' _ _ hkeeps =>
      rw [← hd', hd] at hx' hkeeps
      rwa [← Option.some.inj (hx.symm.trans hx'), ← hmcount] at hkeeps
    | split hd' _ hx' _ hpart _ _ =>
      rw [← hd', hd] at hx'
      rw [← Option.some.inj (hx.symm.trans hx'), hzero] at hpart
      omega
  · rintro ⟨hkind, hkeeps⟩
    refine .beside hd h hx ⟨?_, hkind⟩ hzero (hmcount ▸ hkeeps)
    have hmin : addCount s destCylinder item d ≤ (addRoom s destCylinder item d).2 :=
      Nat.min_le_right _ _
    omega

theorem settles_split_iff (hd : addDestination s destCylinder item index flags = d)
    (h : addAnswer s destCylinder item d = NOERROR) (hx : addTarget s item d = some x)
    (hm : addCount s destCylinder item d = m) (hrest : 0 < m - mergedCount s x m)
    (hpart : s.getItemCount item ≠ m - mergedCount s x m) {w : State} {y : ItemRef}
    (hclone : cloneItem (mergeState s d x m) item (m - mergedCount s x m) = some (w, y)) :
    Settles destCylinder s item index flags ↔
      TakesAll s destCylinder item d x ∧ Settles destCylinder w y INDEX_WHEREEVER d.flags := by
  constructor
  · intro hsettles
    have htakes := takesAll_of_settles hd hx hsettles
    rw [addCount_of_takesAll htakes] at hm
    subst hm
    refine ⟨htakes, ?_⟩
    cases hsettles with
    | placed hd' _ hnone _ =>
      rw [← hd', hd, hx] at hnone
      cases hnone
    | merged hd' _ hx' _ hfits =>
      rw [← hd', hd] at hx'
      rw [← Option.some.inj (hx.symm.trans hx')] at hfits
      omega
    | beside hd' _ hx' _ hfull _ =>
      rw [← hd', hd] at hx'
      rw [← Option.some.inj (hx.symm.trans hx')] at hfull
      omega
    | split hd' _ hx' _ _ hclone' again =>
      rw [← hd', hd] at hx' hclone' again
      rw [← Option.some.inj (hx.symm.trans hx')] at hclone'
      obtain ⟨rfl, rfl⟩ := Prod.mk.inj (Option.some.inj (hclone.symm.trans hclone'))
      exact again
  · rintro ⟨htakes, again⟩
    rw [addCount_of_takesAll htakes] at hm
    subst hm
    exact .split hd h hx htakes (by omega) hclone again

end Inversion

/-! ## What a call brings -/

section Units

variable {s : State} {destCylinder : Cylinder} {item : ItemRef} {index : ℤ}
  {flags : cylinderflags_t} {d : Destination} {x : ItemRef}

theorem units_pos_of_addable (h : Addable s item) : 0 < (s.item item).units s.items := by
  cases hstack : s.isStackable item with
  | true =>
    rw [State.units_of_stackable hstack]
    exact h.count hstack
  | false =>
    rw [State.units_of_plain hstack]
    exact Nat.one_pos

theorem addDestination_mem (hs : WellFormed s) (hdest : destCylinder ∈ s.cylinders)
    (hd : addDestination s destCylinder item index flags = d) : d.cylinder ∈ s.cylinders := by
  rw [← hd]
  exact State.queryDestination_mem hs hdest index item none flags

theorem units_addAndNotify (s : State) (d : Destination) (item : ItemRef) (k : ℕ × ItemAttributes) :
    (addAndNotify s d item).units k = (s.addThing d.cylinder d.index item).units k :=
  (samePlaces_addAndNotify s d item).units_eq k

/-- The item is all there exactly when the place keeps its kind. -/
theorem units_addAndNotify_kind (hs : Stocked s) (hc : d.cylinder ∈ s.cylinders)
    (hitem : Addable s item) :
    (addAndNotify s d item).units (s.item item).kind ≤
        s.units (s.item item).kind + (s.item item).units s.items ∧
      ((addAndNotify s d item).units (s.item item).kind =
        s.units (s.item item).kind + (s.item item).units s.items ↔ KeepsKind s d item) := by
  have hpos := units_pos_of_addable hitem
  have hle : (s.addThing d.cylinder d.index item).units (s.item item).kind ≤
      s.units (s.item item).kind + s.kindUnits (s.item item).kind item :=
    State.units_addThing_le hs hc hpos (s.item item).kind
  rw [State.kindUnits_self] at hle
  rw [units_addAndNotify]
  exact ⟨hle, State.units_addThing_kind hs hc hpos⟩

/-- No stack that is merged into comes to have a type that decays and no attributes. -/
theorem mergedKind_ne_bare {id : ℕ} (hdecay : (s.items id).decayTime * 1000 % 4294967296 ≠ 0)
    (x : ItemRef) : s.mergedKind x ≠ (id, fun _ => none) := by
  intro hkind
  have hid : ((s.item x).setID s.items (s.item x).id).id = id := congrArg Prod.fst hkind
  rw [Item.setID_id] at hid
  rw [← hid] at hdecay
  apply setID_kind_of_decays hdecay
  exact congrFun (congrArg Prod.snd hkind) _

/-- An item with a duration adds nothing to the stacks without one. -/
theorem units_bare_of_calls {id : ℕ} {r : AddResult}
    (h : Calls destCylinder s item index flags r) :
    WellFormed s → destCylinder ∈ s.cylinders → Addable s item → ClonesKind s item →
      (s.item item).kind ≠ (id, fun _ => none) →
      (s.items id).decayTime * 1000 % 4294967296 ≠ 0 →
      r.state.units (id, fun _ => none) ≤ s.units (id, fun _ => none) := by
  have hplaced : ∀ {s : State} {item : ItemRef} (d : Destination), Stocked s →
      d.cylinder ∈ s.cylinders → Addable s item → (s.item item).kind ≠ (id, fun _ => none) →
      (addAndNotify s d item).units (id, fun _ => none) ≤ s.units (id, fun _ => none) := by
    intro s item d hs hc hitem hkind
    have hle : (s.addThing d.cylinder d.index item).units (id, fun _ => none) ≤
        s.units (id, fun _ => none) + s.kindUnits (id, fun _ => none) item :=
      State.units_addThing_le hs hc (units_pos_of_addable hitem) _
    have hzero : s.kindUnits (id, fun _ => none) item = 0 := if_neg hkind
    rw [units_addAndNotify]
    omega
  induction h with
  | refused hd hanswer => exact fun _ _ _ _ _ _ => le_rfl
  | @placed s item index flags d hd hanswer hnone =>
    intro hs hdest hitem _ hkind _
    exact hplaced d hs.toStocked (addDestination_mem hs hdest hd) hitem hkind
  | @merged s item index flags d x m t hd hanswer hx hm hfits hplaces =>
    intro hs hdest hitem _ _ hdecay
    have hunits := (mergeState_spec hs hitem hd hx m).2.2.2 (id, fun _ => none)
    rw [if_neg (mergedKind_ne_bare hdecay x)] at hunits
    have heq := hplaces.units_eq (id, fun _ => none)
    simp only [heq]
    omega
  | @beside s item index flags d x m hd hanswer hx hm hrest hall =>
    intro hs hdest hitem _ hkind hdecay
    obtain ⟨hmerged, hv, hitemV, hspec⟩ := mergeState_spec hs hitem hd hx m
    have hunits := hspec (id, fun _ => none)
    rw [if_neg (mergedKind_ne_bare hdecay x)] at hunits
    have hc := addDestination_mem hs hdest hd
    have hadd := hplaced d hv.toStocked (hmerged.cylinders ▸ hc) hitemV (hmerged.kind ▸ hkind)
    simp only
    omega
  | @split s item index flags d x m w y r hd hanswer hx hm hrest hpart hclone again ih =>
    intro hs hdest hitem hclones hkind hdecay
    obtain ⟨hmerged, hv, hitemV, hspec⟩ := mergeState_spec hs hitem hd hx m
    have hunits := hspec (id, fun _ => none)
    rw [if_neg (mergedKind_ne_bare hdecay x)] at hunits
    have hstack := hmerged.isStackable.trans (addTarget_spec hs hitem hd hx).2.2.1
    have hbyte := hitem.byte
    have hle : addCount s destCylinder item d ≤ s.getItemCount item := addCount_le s item d
    have hcopied := copied_of_clone hv hstack hrest (by omega) hclone
    have hkindY : (w.item y).kind = (s.item item).kind := by
      rw [hcopied.kind.mpr (hmerged.clones.mpr hclones), hmerged.kind]
    have hinner := ih hcopied.wellFormed
      (hcopied.cylinders ▸ hmerged.cylinders ▸ hdest) hcopied.addable hcopied.clones
      (hkindY ▸ hkind) (hcopied.items ▸ hmerged.items ▸ hdecay)
    rw [hcopied.units] at hinner
    simp only
    omega

/-- What a call does to the units of its item. -/
structure Outcome (s : State) (item : ItemRef) (settles : Prop) (r : AddResult) : Prop where
  refused : r.ret ≠ NOERROR → r.state = s ∧ ¬ settles
  bounded : r.state.units (s.item item).kind ≤
    s.units (s.item item).kind + (s.item item).units s.items
  settled : settles → r.ret = NOERROR ∧ r.remainderCount = 0 ∧
    r.state.units (s.item item).kind = s.units (s.item item).kind + (s.item item).units s.items
  short : ¬ settles → r.ret = NOERROR →
    r.state.units (s.item item).kind < s.units (s.item item).kind + (s.item item).units s.items

theorem outcome_placed (hs : WellFormed s) (hdest : destCylinder ∈ s.cylinders)
    (hitem : Addable s item) (hd : addDestination s destCylinder item index flags = d)
    (h : addAnswer s destCylinder item d = NOERROR) (hnone : addTarget s item d = none) :
    Outcome s item (Settles destCylinder s item index flags)
      { ret := NOERROR, state := addAndNotify s d item } := by
  obtain ⟨hle, hiff⟩ := units_addAndNotify_kind hs.toStocked (addDestination_mem hs hdest hd) hitem
  rw [← settles_placed_iff hd h hnone] at hiff
  exact
    { refused := fun hret => absurd rfl hret
      bounded := hle
      settled := fun hsettles => ⟨rfl, rfl, hiff.mpr hsettles⟩
      short := fun hno _ => lt_of_le_of_ne hle fun heq => hno (hiff.mp heq) }

/-- The units of the item after the merge, where the stack keeps its kind and where not. -/
theorem units_mergeState_kind (hs : WellFormed s) (hitem : Addable s item)
    (hd : addDestination s destCylinder item index flags = d) (hx : addTarget s item d = some x)
    (m : ℕ) :
    (s.mergedKind x = (s.item x).kind → (mergeState s d x m).units (s.item item).kind =
      s.units (s.item item).kind + mergedCount s x m) ∧
    (s.mergedKind x ≠ (s.item x).kind →
      (mergeState s d x m).units (s.item item).kind < s.units (s.item item).kind) := by
  have hunits := (mergeState_spec hs hitem hd hx m).2.2.2 (s.item item).kind
  obtain ⟨-, -, -, -, hkind, hone, -⟩ := addTarget_spec hs hitem hd hx
  rw [if_pos rfl] at hunits
  constructor
  · intro hmerged
    rw [if_pos (hmerged.trans hkind)] at hunits
    omega
  · intro hmerged
    rw [if_neg fun heq => hmerged (heq.trans hkind.symm)] at hunits
    omega

theorem units_of_addTarget (hs : WellFormed s) (hitem : Addable s item)
    (hd : addDestination s destCylinder item index flags = d) (hx : addTarget s item d = some x) :
    (s.item item).units s.items = s.getItemCount item :=
  State.units_of_stackable (addTarget_spec hs hitem hd hx).2.2.1

theorem mergedCount_le (s : State) (x : ItemRef) (m : ℕ) : mergedCount s x m ≤ m :=
  Nat.min_le_right _ _

theorem outcome_merged (hs : WellFormed s) (hitem : Addable s item)
    (hd : addDestination s destCylinder item index flags = d)
    (h : addAnswer s destCylinder item d = NOERROR) (hx : addTarget s item d = some x) {m : ℕ}
    (hm : addCount s destCylinder item d = m) (hfits : m - mergedCount s x m = 0) {t : State}
    (hplaces : SamePlaces (mergeState s d x m) t) :
    Outcome s item (Settles destCylinder s item index flags) { ret := NOERROR, state := t } := by
  have hall := units_of_addTarget hs hitem hd hx
  have hle : addCount s destCylinder item d ≤ s.getItemCount item := addCount_le s item d
  have hroom : addCount s destCylinder item d =
      min (s.getItemCount item) (addRoom s destCylinder item d).2 := rfl
  have hmle := mergedCount_le s x m
  have hunits := hplaces.units_eq (s.item item).kind
  obtain ⟨hkeep, hlose⟩ := units_mergeState_kind hs hitem hd hx m
  have hiff := settles_merged_iff hd h hx hm hfits
  refine ⟨fun hret => absurd rfl hret, ?_, fun hsettles => ⟨rfl, rfl, ?_⟩, fun hno _ => ?_⟩
  · by_cases hkind : s.mergedKind x = (s.item x).kind
    · have heq := hkeep hkind
      simp only
      omega
    · have hless := hlose hkind
      simp only
      omega
  · obtain ⟨hmany, hkind⟩ := hiff.mp hsettles
    have heq := hkeep hkind
    simp only
    omega
  · by_cases hkind : s.mergedKind x = (s.item x).kind
    · have heq := hkeep hkind
      have hfew : ¬ s.getItemCount item ≤ (addRoom s destCylinder item d).2 :=
        fun hmany => hno (hiff.mpr ⟨hmany, hkind⟩)
      simp only
      omega
    · have hless := hlose hkind
      simp only
      omega

theorem outcome_beside (hs : WellFormed s) (hdest : destCylinder ∈ s.cylinders)
    (hitem : Addable s item) (hd : addDestination s destCylinder item index flags = d)
    (h : addAnswer s destCylinder item d = NOERROR) (hx : addTarget s item d = some x) {m : ℕ}
    (hm : addCount s destCylinder item d = m) (hrest : 0 < m - mergedCount s x m)
    (hall : s.getItemCount item = m - mergedCount s x m) :
    Outcome s item (Settles destCylinder s item index flags)
      { ret := NOERROR, state := addAndNotify (mergeState s d x m) d item } := by
  obtain ⟨hmerged, hv, hitemV, -⟩ := mergeState_spec hs hitem hd hx m
  have hc := addDestination_mem hs hdest hd
  have hiff := settles_beside_iff hd h hx hm hrest hall
  obtain ⟨hkeep, hlose⟩ := units_mergeState_kind hs hitem hd hx m
  have hle : addCount s destCylinder item d ≤ s.getItemCount item := addCount_le s item d
  have hzero : mergedCount s x m = 0 := by omega
  obtain ⟨hbound, heq⟩ := units_addAndNotify_kind hv.toStocked (hmerged.cylinders ▸ hc) hitemV
  have hsame : ((mergeState s d x m).item item).units (mergeState s d x m).items =
      (s.item item).units s.items := by
    have hstack := (addTarget_spec hs hitem hd hx).2.2.1
    rw [State.units_of_stackable (hmerged.isStackable.trans hstack), hmerged.count,
      State.units_of_stackable hstack]
  rw [hmerged.kind, hsame] at hbound heq
  refine ⟨fun hret => absurd rfl hret, ?_, fun hsettles => ⟨rfl, rfl, ?_⟩, fun hno _ => ?_⟩
  · by_cases hkind : s.mergedKind x = (s.item x).kind
    · have hthere := hkeep hkind
      simp only
      omega
    · have hless := hlose hkind
      simp only
      omega
  · obtain ⟨hkind, hkeeps⟩ := hiff.mp hsettles
    have hthere := hkeep hkind
    have hadd := heq.mpr hkeeps
    simp only
    omega
  · by_cases hkind : s.mergedKind x = (s.item x).kind
    · have hthere := hkeep hkind
      have hne := mt heq.mp fun hkeeps => hno (hiff.mpr ⟨hkind, hkeeps⟩)
      simp only
      omega
    · have hless := hlose hkind
      simp only
      omega

/-- A stack whose kind `setID` keeps has clones of its kind. -/
theorem clonesKind_of_mergedKind (hs : WellFormed s) (hitem : Addable s item)
    (hd : addDestination s destCylinder item index flags = d) (hx : addTarget s item d = some x)
    (h : s.mergedKind x = (s.item x).kind) : ClonesKind s item := by
  obtain ⟨-, -, -, -, hkind, -, -⟩ := addTarget_spec hs hitem hd hx
  intro hnone
  by_contra hdecay
  apply mergedKind_ne_bare hdecay x
  rw [h, hkind]
  unfold Item.kind
  rw [hnone, Option.getD_none]

/-- However the clone fares, it adds no more than its count. -/
theorem units_split_le (hs : WellFormed s) (hdest : destCylinder ∈ s.cylinders)
    (hitem : Addable s item) (hd : addDestination s destCylinder item index flags = d)
    (hx : addTarget s item d = some x) {m : ℕ} {w : State} {y : ItemRef} {r : AddResult}
    (hcopied : Copied (mergeState s d x m) w item y (m - mergedCount s x m))
    (again : Calls destCylinder w y INDEX_WHEREEVER d.flags r)
    (hinner : r.state.units (w.item y).kind ≤
      w.units (w.item y).kind + (w.item y).units w.items) :
    r.state.units (s.item item).kind ≤
      (mergeState s d x m).units (s.item item).kind + (m - mergedCount s x m) := by
  obtain ⟨hmerged, -, -, -⟩ := mergeState_spec hs hitem hd hx m
  have hcopies := hcopied.kind.trans hmerged.clones
  rw [hmerged.kind] at hcopies
  rw [← hcopied.units]
  by_cases hclones : ClonesKind s item
  · rw [hcopies.mpr hclones, State.units_of_stackable hcopied.isStackable, hcopied.count] at hinner
    exact hinner
  · obtain ⟨hnone, hdecay⟩ := Classical.not_imp.mp hclones
    have hbare : (s.item item).kind = ((s.item item).id, fun _ => none) := by
      unfold Item.kind
      rw [hnone, Option.getD_none]
    have hother : (w.item y).kind ≠ ((s.item item).id, fun _ => none) :=
      fun heq => hclones (hcopies.mp (heq.trans hbare.symm))
    have hmem : destCylinder ∈ w.cylinders := hcopied.cylinders ▸ hmerged.cylinders ▸ hdest
    have hle := units_bare_of_calls again hcopied.wellFormed hmem hcopied.addable hcopied.clones
      hother (hcopied.items ▸ hmerged.items ▸ hdecay)
    rw [hbare]
    omega

theorem outcome_split (hs : WellFormed s) (hdest : destCylinder ∈ s.cylinders)
    (hitem : Addable s item) (hd : addDestination s destCylinder item index flags = d)
    (h : addAnswer s destCylinder item d = NOERROR) (hx : addTarget s item d = some x) {m : ℕ}
    (hm : addCount s destCylinder item d = m) (hrest : 0 < m - mergedCount s x m)
    (hpart : s.getItemCount item ≠ m - mergedCount s x m) {w : State} {y : ItemRef}
    (hclone : cloneItem (mergeState s d x m) item (m - mergedCount s x m) = some (w, y))
    (hcopied : Copied (mergeState s d x m) w item y (m - mergedCount s x m)) {r : AddResult}
    (again : Calls destCylinder w y INDEX_WHEREEVER d.flags r)
    (hinner : Outcome w y (Settles destCylinder w y INDEX_WHEREEVER d.flags) r) :
    Outcome s item (Settles destCylinder s item index flags)
      { ret := NOERROR, state := r.state
        remainderCount := if r.ret ≠ NOERROR then m - mergedCount s x m else 0 } := by
  obtain ⟨hmerged, -, -, -⟩ := mergeState_spec hs hitem hd hx m
  have hiff := settles_split_iff hd h hx hm hrest hpart hclone
  have hbound := units_split_le hs hdest hitem hd hx hcopied again hinner.bounded
  have hall := units_of_addTarget hs hitem hd hx
  have hle : addCount s destCylinder item d ≤ s.getItemCount item := addCount_le s item d
  have hroom : addCount s destCylinder item d =
      min (s.getItemCount item) (addRoom s destCylinder item d).2 := rfl
  obtain ⟨hkeep, hlose⟩ := units_mergeState_kind hs hitem hd hx m
  have hunitsY : (w.item y).units w.items = m - mergedCount s x m := by
    rw [State.units_of_stackable hcopied.isStackable, hcopied.count]
  have hkindY : s.mergedKind x = (s.item x).kind → (w.item y).kind = (s.item item).kind := by
    intro hkind
    have hclones := clonesKind_of_mergedKind hs hitem hd hx hkind
    rw [hcopied.kind.mpr (hmerged.clones.mpr hclones), hmerged.kind]
  have hsame := hcopied.units (s.item item).kind
  refine ⟨fun hret => absurd rfl hret, ?_, fun hsettles => ?_, fun hno _ => ?_⟩
  · by_cases hkind : s.mergedKind x = (s.item x).kind
    · have hthere := hkeep hkind
      simp only
      omega
    · have hless := hlose hkind
      simp only
      omega
  · obtain ⟨⟨hmany, hkind⟩, hagain⟩ := hiff.mp hsettles
    obtain ⟨hret, -, hunits⟩ := hinner.settled hagain
    rw [hkindY hkind, hunitsY] at hunits
    have hthere := hkeep hkind
    refine ⟨rfl, if_neg (not_not.mpr hret), ?_⟩
    simp only
    omega
  · by_cases hkind : s.mergedKind x = (s.item x).kind
    · have hthere := hkeep hkind
      by_cases hmany : s.getItemCount item ≤ (addRoom s destCylinder item d).2
      · have hnot : ¬ Settles destCylinder w y INDEX_WHEREEVER d.flags :=
          fun hagain => hno (hiff.mpr ⟨⟨hmany, hkind⟩, hagain⟩)
        by_cases hret : r.ret = NOERROR
        · have hshort := hinner.short hnot hret
          rw [hkindY hkind, hunitsY] at hshort
          simp only
          omega
        · rw [(hinner.refused hret).1] at hbound ⊢
          omega
      · simp only
        omega
    · have hless := hlose hkind
      simp only
      omega

theorem outcome_of_calls {r : AddResult} (h : Calls destCylinder s item index flags r) :
    WellFormed s → destCylinder ∈ s.cylinders → Addable s item →
      Outcome s item (Settles destCylinder s item index flags) r := by
  induction h with
  | refused hd hanswer =>
    intro hs hdest hitem
    have hno := not_settles_of_refused hd hanswer
    exact
      { refused := fun _ => ⟨rfl, hno⟩
        bounded := Nat.le_add_right _ _
        settled := fun hsettles => absurd hsettles hno
        short := fun _ hret => absurd hret hanswer }
  | placed hd hanswer hnone =>
    intro hs hdest hitem
    exact outcome_placed hs hdest hitem hd hanswer hnone
  | merged hd hanswer hx hm hfits hplaces =>
    intro hs hdest hitem
    exact outcome_merged hs hitem hd hanswer hx hm hfits hplaces
  | beside hd hanswer hx hm hrest hall =>
    intro hs hdest hitem
    exact outcome_beside hs hdest hitem hd hanswer hx hm hrest hall
  | @split s item index flags d x m w y r hd hanswer hx hm hrest hpart hclone again ih =>
    intro hs hdest hitem
    obtain ⟨hmerged, hv, -, -⟩ := mergeState_spec hs hitem hd hx m
    have hstack := hmerged.isStackable.trans (addTarget_spec hs hitem hd hx).2.2.1
    have hbyte := hitem.byte
    have hle : addCount s destCylinder item d ≤ s.getItemCount item := addCount_le s item d
    have hcopied := copied_of_clone hv hstack hrest (by omega) hclone
    have hmem : destCylinder ∈ w.cylinders := hcopied.cylinders ▸ hmerged.cylinders ▸ hdest
    exact outcome_split hs hdest hitem hd hanswer hx hm hrest hpart hclone hcopied again
      (ih hcopied.wellFormed hmem hcopied.addable)

end Units

/-! ## The remainder -/

/-- The rest of the stack is refused, and the caller is told how much it is. -/
def Refunds (s : State) (destCylinder : Cylinder) (item : ItemRef) (index : ℤ)
    (flags : cylinderflags_t) : Prop :=
  let d := addDestination s destCylinder item index flags
  let n := s.getItemCount item
  ∃ x w y, addTarget s item d = some x ∧ TakesAll s destCylinder item d x ∧
    0 < mergedCount s x n ∧ mergedCount s x n < n ∧
    cloneItem (mergeState s d x n) item (n - mergedCount s x n) = some (w, y) ∧
    addAnswer w destCylinder y (addDestination w destCylinder y INDEX_WHEREEVER d.flags) ≠ NOERROR

section Remainder

variable {s : State} {destCylinder : Cylinder} {item : ItemRef} {index : ℤ}
  {flags : cylinderflags_t} {r : AddResult}

theorem state_of_refused (h : Calls destCylinder s item index flags r)
    (hanswer : addAnswer s destCylinder item (addDestination s destCylinder item index flags) ≠
      NOERROR) : r.ret ≠ NOERROR ∧ r.state = s := by
  cases h with
  | refused hd h =>
    subst hd
    exact ⟨h, rfl⟩
  | placed hd h _ =>
    subst hd
    exact absurd h hanswer
  | merged hd h _ _ _ _ =>
    subst hd
    exact absurd h hanswer
  | beside hd h _ _ _ _ =>
    subst hd
    exact absurd h hanswer
  | split hd h _ _ _ _ _ _ =>
    subst hd
    exact absurd h hanswer

theorem refused_of_calls (h : Calls destCylinder s item index flags r) (hret : r.ret ≠ NOERROR) :
    addAnswer s destCylinder item (addDestination s destCylinder item index flags) ≠ NOERROR := by
  cases h with
  | refused hd h => exact hd ▸ h
  | placed _ _ _ => exact absurd rfl hret
  | merged _ _ _ _ _ _ => exact absurd rfl hret
  | beside _ _ _ _ _ _ => exact absurd rfl hret
  | split _ _ _ _ _ _ _ _ => exact absurd rfl hret

/-- Where the rest is refused, what was merged and the remainder make up the item. -/
theorem units_of_refunds (hs : WellFormed s) (hitem : Addable s item)
    (h : Calls destCylinder s item index flags r)
    (hanswer : addAnswer s destCylinder item (addDestination s destCylinder item index flags) =
      NOERROR) (hrefunds : Refunds s destCylinder item index flags) :
    r.state.units (s.item item).kind + r.remainderCount =
      s.units (s.item item).kind + (s.item item).units s.items := by
  obtain ⟨x, w, y, hx, htakes, hpos, hless, hclone, hrefused⟩ := hrefunds
  have hcount := addCount_of_takesAll htakes
  cases h with
  | refused hd h =>
    subst hd
    exact absurd hanswer h
  | placed hd h hnone =>
    subst hd
    rw [hx] at hnone
    cases hnone
  | merged hd h hx' hm hfits _ =>
    subst hd
    rw [hcount] at hm
    rw [← Option.some.inj (hx.symm.trans hx'), ← hm] at hfits
    omega
  | beside hd h hx' hm hrest hall =>
    subst hd
    rw [hcount] at hm
    rw [← Option.some.inj (hx.symm.trans hx'), ← hm] at hall
    omega
  | @split _ _ _ _ d x' m w' y' r' hd h hx' hm hrest hpart hclone' again =>
    subst hd
    obtain rfl : x = x' := Option.some.inj (hx.symm.trans hx')
    rw [hcount] at hm
    subst hm
    obtain ⟨rfl, rfl⟩ := Prod.mk.inj (Option.some.inj (hclone.symm.trans hclone'))
    obtain ⟨hret, hstate⟩ := state_of_refused again hrefused
    obtain ⟨hmerged, hv, -, -⟩ := mergeState_spec hs hitem rfl hx (s.getItemCount item)
    have hstack := (addTarget_spec hs hitem rfl hx).2.2.1
    have hbyte := hitem.byte
    have hcopied := copied_of_clone hv (hmerged.isStackable.trans hstack) hrest (by omega) hclone
    have hthere := (units_mergeState_kind hs hitem rfl hx (s.getItemCount item)).1 htakes.kind
    have hsame := hcopied.units (s.item item).kind
    have hall := units_of_addTarget hs hitem rfl hx
    simp only [hstate, if_pos hret]
    omega

/-- Nothing is given back but the rest that a call of its own refused. -/
theorem refunds_of_units (hs : WellFormed s) (hdest : destCylinder ∈ s.cylinders)
    (hitem : Addable s item) (h : Calls destCylinder s item index flags r)
    (hret : r.ret = NOERROR)
    (hunits : r.state.units (s.item item).kind + r.remainderCount =
      s.units (s.item item).kind + (s.item item).units s.items) :
    Settles destCylinder s item index flags ∨ Refunds s destCylinder item index flags := by
  have houtcome := outcome_of_calls h hs hdest hitem
  by_cases hsettles : Settles destCylinder s item index flags
  · exact Or.inl hsettles
  right
  have hshort := houtcome.short hsettles hret
  cases h with
  | refused hd h => exact absurd hret h
  | placed hd h hnone => exact absurd hunits hshort.ne
  | merged hd h hx hm hfits hplaces => exact absurd hunits hshort.ne
  | beside hd h hx hm hrest hall => exact absurd hunits hshort.ne
  | @split _ _ _ _ d x m w y r' hd h hx hm hrest hpart hclone again =>
    by_cases haccept : r'.ret = NOERROR
    · simp only [haccept, ne_eq, not_true_eq_false, if_false, add_zero] at hunits
      exact absurd hunits hshort.ne
    have hle : addCount s destCylinder item d ≤ s.getItemCount item := addCount_le s item d
    have hroom : addCount s destCylinder item d =
        min (s.getItemCount item) (addRoom s destCylinder item d).2 := rfl
    have hmle := mergedCount_le s x m
    obtain ⟨hmerged, hv, -, -⟩ := mergeState_spec hs hitem hd hx m
    have hstack := (addTarget_spec hs hitem hd hx).2.2.1
    have hbyte := hitem.byte
    have hcopied := copied_of_clone hv (hmerged.isStackable.trans hstack) hrest (by omega) hclone
    obtain ⟨hkeep, hlose⟩ := units_mergeState_kind hs hitem hd hx m
    have hall := units_of_addTarget hs hitem hd hx
    have hsame := hcopied.units (s.item item).kind
    have hmem : destCylinder ∈ w.cylinders := hcopied.cylinders ▸ hmerged.cylinders ▸ hdest
    have hstate := ((outcome_of_calls again hcopied.wellFormed hmem hcopied.addable).refused
      haccept).1
    simp only [hstate, ne_eq, haccept, not_false_eq_true, if_true] at hunits
    have hkind : s.mergedKind x = (s.item x).kind := by
      by_contra hno
      have hless := hlose hno
      omega
    have hthere := hkeep hkind
    have hmany : m = s.getItemCount item := by omega
    subst hd
    rw [hmany] at hclone hrest hpart
    refine ⟨x, w, y, hx, ⟨by omega, hkind⟩, by omega, by omega, hclone, fun hanswer => ?_⟩
    exact absurd hanswer (refused_of_calls again haccept)

end Remainder

/-! ## Arrows that vanish

A player with a bow has 50 arrows in the ammunition slot and no other place for 60
more.  His room is 50, which is no error for a slot of his own, and only 50 of the 60
are then looked at.
-/

def arrows : Tables where
  types :=
    [{ id := 1, pickupable := true, moveable := true, stackable := true,
       weaponType := .WEAPON_AMMO,
       slotPosition := { SLOTP_LEFT := true, SLOTP_RIGHT := true, SLOTP_AMMO := true } },
      { id := 2456, pickupable := true, moveable := true, weaponType := .WEAPON_DISTANCE,
        slotPosition := { SLOTP_LEFT := true, SLOTP_RIGHT := true, SLOTP_TWO_HAND := true } }]
  items :=
    [{ id := 1, count := 50, parent := some (.player 0) },
      { id := 2456, parent := some (.player 0) },
      { id := 1, count := 60 }]
  players :=
    [{ inventory := fun slot => if slot = 10 then some 0 else if slot = 6 then some 1 else none }]
  classicEquipmentSlots := false

theorem arrows_wellFormed : WellFormed arrows.state := Tables.wellFormed (by decide +kernel)

theorem addable_of_places {w : Tables} {x : ItemRef} (hs : WellFormed w.state)
    (hnowhere : ∀ c ∈ w.places, x ∉ w.state.contents c) (hold : x < w.items.length)
    (hcount : w.state.isStackable x = true → 1 ≤ w.state.getItemCount x)
    (hbyte : w.state.getItemCount x < 256) : Addable w.state x where
  nowhere c hc := by
    have hmem : c ∈ w.state.cylinders := hs.cylinder c (List.ne_nil_of_mem hc)
    exact hnowhere c (List.mem_toFinset.mp hmem) hc
  old := hold
  count := hcount
  byte := hbyte

theorem arrows_addable : Addable arrows.state 2 :=
  addable_of_places arrows_wellFormed (by decide +kernel) (by decide) (by decide +kernel)
    (by decide +kernel)

end TibiaServer.Game
