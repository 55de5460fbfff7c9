import Mathlib.Tactic.Linarith
import TibiaServer.Game.DecayLists
/-!
# When an item decays

Every check takes up to 1000 ms off the duration of the items in its bucket, and the next check
goes through the next of the four buckets.  What is left below 1000 ms is rounded: from 875 ms on
the item waits for one more check in the next bucket, otherwise it decays at once.
-/

namespace TibiaServer.Game

open Library.Run
open TibiaServer.Cylinders (ItemRef)
open TibiaServer.Tiles (ItemType Item)

local instance decayBuckets_neZero : NeZero EVENT_DECAY_BUCKETS := buckets_neZero

namespace Decays

/-! ## The body of the loop -/

section Visits

variable (types : ℕ → ItemType) (env : Surroundings) (fuel : ℕ) (bucket : Fin EVENT_DECAY_BUCKETS)

/-- What is left of the duration after a check. -/
def leftAfter (duration : ℤ) : ℤ :=
  duration - min (EVENT_DECAYINTERVAL * EVENT_DECAY_BUCKETS) duration

/-- The bucket for what is left of the duration. -/
def newBucket (left : ℤ) : Fin EVENT_DECAY_BUCKETS :=
  bucket + Fin.ofNat _ ((left + EVENT_DECAYINTERVAL / 2) / 1000).toNat

/-- The loop calls `internalDecayItem` for the item. -/
def DecaysNow (s : Decays) (item : ItemRef) : Prop :=
  s.canDecay types env item = true ∧
    (leftAfter (s.duration item) ≤ 0 ∨
      leftAfter (s.duration item) < EVENT_DECAYINTERVAL * EVENT_DECAY_BUCKETS ∧
        newBucket bucket (leftAfter (s.duration item)) = bucket)

instance (s : Decays) (item : ItemRef) : Decidable (s.DecaysNow types env bucket item) :=
  inferInstanceAs (Decidable (_ ∧ _))

/-- The body of the loop of `checkDecay` for `item`; with what the bucket keeps before the items
that are still to be visited. -/
def visit (kept : List ItemRef) (item : ItemRef) (rest : List ItemRef) (s : Decays) :
    Option (List ItemRef × Decays) :=
  if !s.canDecay types env item then
    some (kept, ((s.setDecaying item DECAYING_FALSE).ReleaseItem item).setBucket bucket (kept ++ rest))
  else
    let after := s.decreaseDuration item
      (min (EVENT_DECAYINTERVAL * EVENT_DECAY_BUCKETS) (s.duration item))
    if s.DecaysNow types env bucket item then
      ((after.setBucket bucket (kept ++ rest)).internalDecayItem types env item
        (startDecay types env fuel)).map fun s => (kept, s.ReleaseItem item)
    else if leftAfter (s.duration item) < EVENT_DECAYINTERVAL * EVENT_DECAY_BUCKETS then
      some (kept, (after.setBucket bucket (kept ++ rest)).pushBucket item
        (newBucket bucket (leftAfter (s.duration item))))
    else some (kept ++ [item], after)

theorem checkLoop_cons (kept : List ItemRef) (item : ItemRef) (rest : List ItemRef) (s : Decays) :
    checkLoop types env fuel bucket kept (item :: rest) s =
      (visit types env fuel bucket kept item rest s).bind fun v =>
        checkLoop types env fuel bucket v.1 rest v.2 := by
  rw [checkLoop]
  unfold visit
  dsimp only
  by_cases hcan : s.canDecay types env item = true
  · rw [hcan]
    have htrue : ¬ (!true) = true := Bool.false_ne_true
    simp only [if_neg htrue]
    by_cases hnow : s.DecaysNow types env bucket item
    · rw [if_pos hnow, Option.bind_map]
      by_cases hover : leftAfter (s.duration item) ≤ 0
      · exact if_pos hover
      · obtain ⟨hlast, hsame⟩ := hnow.2.resolve_left hover
        exact (if_neg hover).trans ((if_pos hlast).trans (if_pos hsame))
    · have hover : ¬ leftAfter (s.duration item) ≤ 0 := fun h => hnow ⟨hcan, .inl h⟩
      rw [if_neg hnow]
      by_cases hlast : leftAfter (s.duration item) < EVENT_DECAYINTERVAL * EVENT_DECAY_BUCKETS
      · have hsame : newBucket bucket (leftAfter (s.duration item)) ≠ bucket :=
          fun h => hnow ⟨hcan, .inr ⟨hlast, h⟩⟩
        rw [if_pos hlast]
        exact (if_neg hover).trans ((if_pos hlast).trans (if_neg hsame))
      · rw [if_neg hlast]
        exact (if_neg hover).trans (if_neg hlast)
  · rw [Bool.not_eq_true] at hcan
    rw [hcan]
    rfl

/-- The items that the loop decays. -/
def decayed : List ItemRef → List ItemRef → Decays → List ItemRef
  | _, [], _ => []
  | kept, item :: rest, s =>
    (if s.DecaysNow types env bucket item then [item] else []) ++
      (visit types env fuel bucket kept item rest s).elim [] fun v => decayed v.1 rest v.2

/-- The items that `checkDecay` decays. -/
def decayedItems (s : Decays) : List ItemRef :=
  decayed types env fuel (s.lastBucket + 1) [] (s.decayItems (s.lastBucket + 1)) s

end Visits

/-! ## Other items -/

variable {types : ℕ → ItemType} {env : Surroundings} {fuel : ℕ} {s t u : Decays} {x y : ItemRef}

/-- The item is left alone, and how often it is where. -/
structure Keeps (x : ItemRef) (s t : Decays) : Prop where
  item : t.item x = s.item x
  hasParent : t.hasParent x = s.hasParent x
  toDecayItems : t.toDecayItems.count x = s.toDecayItems.count x
  places : ∀ b, (t.decayItems b).count x = (s.decayItems b).count x
  lastBucket : t.lastBucket = s.lastBucket
  fresh : s.fresh ≤ t.fresh

theorem Keeps.refl (x : ItemRef) (s : Decays) : Keeps x s s :=
  ⟨rfl, rfl, rfl, fun _ => rfl, rfl, Nat.le_refl _⟩

theorem Keeps.trans (h : Keeps x s t) (h' : Keeps x t u) : Keeps x s u where
  item := h'.item.trans h.item
  hasParent := h'.hasParent.trans h.hasParent
  toDecayItems := h'.toDecayItems.trans h.toDecayItems
  places b := (h'.places b).trans (h.places b)
  lastBucket := h'.lastBucket.trans h.lastBucket
  fresh := h.fresh.trans h'.fresh

/-- The item is left alone, and the buckets. -/
structure Leaves (x : ItemRef) (s t : Decays) : Prop where
  item : t.item x = s.item x
  hasParent : t.hasParent x = s.hasParent x
  toDecayItems : t.toDecayItems.count x = s.toDecayItems.count x
  decayItems : t.decayItems = s.decayItems
  lastBucket : t.lastBucket = s.lastBucket
  fresh : s.fresh ≤ t.fresh

theorem Leaves.refl (x : ItemRef) (s : Decays) : Leaves x s s :=
  ⟨rfl, rfl, rfl, rfl, rfl, Nat.le_refl _⟩

theorem Leaves.trans (h : Leaves x s t) (h' : Leaves x t u) : Leaves x s u where
  item := h'.item.trans h.item
  hasParent := h'.hasParent.trans h.hasParent
  toDecayItems := h'.toDecayItems.trans h.toDecayItems
  decayItems := h'.decayItems.trans h.decayItems
  lastBucket := h'.lastBucket.trans h.lastBucket
  fresh := h.fresh.trans h'.fresh

theorem Leaves.keeps (h : Leaves x s t) : Keeps x s t where
  item := h.item
  hasParent := h.hasParent
  toDecayItems := h.toDecayItems
  places b := by rw [h.decayItems]
  lastBucket := h.lastBucket
  fresh := h.fresh

theorem leaves_setItem (s : Decays) (hne : x ≠ y) (item : Item) : Leaves x s (s.setItem y item) :=
  ⟨Function.update_of_ne hne _ _, rfl, rfl, rfl, rfl, Nat.le_refl _⟩

theorem leaves_ReleaseItem (s : Decays) (y : ItemRef) : Leaves x s (s.ReleaseItem y) :=
  ⟨rfl, rfl, rfl, rfl, rfl, Nat.le_refl _⟩

theorem leaves_releaseParent (s : Decays) (hne : x ≠ y) :
    Leaves x s ((s.setParent y false).ReleaseItem y) :=
  ⟨rfl, Function.update_of_ne hne _ _, rfl, rfl, rfl, Nat.le_refl _⟩

/-- What a transformation of another item leaves and returns. -/
structure LeavesItem (x : ItemRef) (s : Decays) (result : Option ItemRef × Decays) : Prop where
  leaves : Leaves x s result.2
  other : result.1 ≠ some x

theorem leavesItem_self (s : Decays) (hne : x ≠ y) : LeavesItem x s (some y, s) :=
  ⟨Leaves.refl x s, fun h => hne (Option.some.inj h).symm⟩

theorem leavesItem_none (h : Leaves x s t) : LeavesItem x s (none, t) := ⟨h, (Option.some_ne_none x).symm⟩

theorem leaves_internalRemoveItem (s : Decays) (hne : x ≠ y) :
    Leaves x s (s.internalRemoveItem env y) := by
  unfold Decays.internalRemoveItem
  split_ifs
  · exact Leaves.refl x s
  · exact Leaves.refl x s
  · exact Leaves.refl x s
  · exact leaves_releaseParent s hne

theorem leavesItem_replaceBy (hne : x ≠ y) (hborn : x < s.fresh) (type count : ℕ) :
    LeavesItem x s (s.replaceBy types y type count) := by
  have hfresh : x ≠ s.fresh := Nat.ne_of_lt hborn
  unfold Decays.replaceBy
  split
  · exact leavesItem_none (Leaves.refl x s)
  · next newItem _ =>
      refine ⟨⟨Function.update_of_ne hfresh _ _, ?_, rfl, rfl, rfl, Nat.le_succ _⟩,
        fun h => hfresh (Option.some.inj h).symm⟩
      exact (Function.update_of_ne hne _ _).trans (Function.update_of_ne hfresh _ _)

theorem leavesItem_removeAndAdd (s : Decays) (hne : x ≠ y) (newId : ℕ) (newCount : ℤ) :
    LeavesItem x s (s.removeAndAdd types env y newId newCount) := by
  unfold Decays.removeAndAdd
  extract_lets item item'
  have hset : Leaves x s (s.setItem y item') := leaves_setItem s hne item'
  split_ifs
  · exact ⟨hset, fun h => hne (Option.some.inj h).symm⟩
  · exact leavesItem_none (hset.trans (leaves_releaseParent _ hne))

theorem leavesItem_useUp (hne : x ≠ y) (hborn : x < s.fresh) {again : Option ItemRef × Decays}
    (hagain : LeavesItem x s again) (newId : ℕ) :
    LeavesItem x s (s.useUp types env y again newId) := by
  unfold Decays.useUp
  extract_lets curType newItemId
  split_ifs
  · exact leavesItem_none (leaves_internalRemoveItem s hne)
  · exact leavesItem_none (leaves_internalRemoveItem s hne)
  · exact leavesItem_replaceBy hne hborn _ _
  · exact hagain

theorem leavesItem_transformWith (hne : x ≠ y) (hborn : x < s.fresh)
    {again : Option ItemRef × Decays} (hagain : LeavesItem x s again) (newId : ℕ) (newCount : ℤ) :
    LeavesItem x s (s.transformWith types env y again newId newCount) := by
  have hself : LeavesItem x s (some y, s) := leavesItem_self s hne
  unfold Decays.transformWith
  split_ifs
  · exact hself
  · exact leavesItem_none (Leaves.refl x s)
  · exact hself
  · exact hself
  · exact hself
  · exact leavesItem_removeAndAdd s hne newId newCount
  · exact leavesItem_useUp hne hborn hagain newId
  · exact ⟨leaves_setItem s hne _, hself.other⟩
  · exact leavesItem_replaceBy hne hborn _ _
  · exact leavesItem_replaceBy hne hborn _ _

theorem leavesItem_transformItem (hne : x ≠ y) (hborn : x < s.fresh) (newId : ℕ) (newCount : ℤ) :
    LeavesItem x s (s.transformItem types env y newId newCount) :=
  leavesItem_transformWith hne hborn
    (leavesItem_transformWith hne hborn (leavesItem_self s hne) newId (-1)) newId newCount

theorem leaves_internalDecayItem (hne : x ≠ y) (hborn : x < s.fresh)
    {start : Decays → ItemRef → Option Decays}
    (hstart : ∀ s y t, x ≠ y → x < s.fresh → start s y = some t → Leaves x s t)
    (ht : s.internalDecayItem types env y start = some t) : Leaves x s t := by
  unfold Decays.internalDecayItem at ht
  extract_lets it at ht
  split at ht
  · have htransformed : LeavesItem x s
        (s.transformItem types env y (it.decayTo % 65536).toNat (-1)) :=
      leavesItem_transformItem hne hborn _ _
    split at ht
    next newItem u heq =>
      rw [heq] at htransformed
      have hother : x ≠ newItem := fun h => htransformed.other (congrArg some h.symm)
      have hleaves := htransformed.leaves
      exact hleaves.trans (hstart u newItem t hother (hborn.trans_le hleaves.fresh) ht)
    next u heq =>
      rw [heq] at htransformed
      obtain rfl := Option.some.inj ht
      exact htransformed.leaves
  · obtain rfl := Option.some.inj ht
    exact leaves_internalRemoveItem s hne

theorem leaves_insert (s : Decays) (hne : x ≠ y) : Leaves x s (s.insert y) where
  item := Function.update_of_ne hne _ _
  hasParent := rfl
  toDecayItems := List.count_cons_of_ne hne.symm
  decayItems := rfl
  lastBucket := rfl
  fresh := Nat.le_refl _

theorem leaves_startDecay (hne : x ≠ y) (hborn : x < s.fresh)
    (ht : Decays.startDecay types env fuel s y = some t) : Leaves x s t := by
  induction fuel generalizing s y t with
  | zero => cases ht
  | succ fuel ih =>
    rw [Decays.startDecay] at ht
    split_ifs at ht
    · obtain rfl := Option.some.inj ht
      exact Leaves.refl x s
    · obtain rfl := Option.some.inj ht
      exact Leaves.refl x s
    · obtain rfl := Option.some.inj ht
      exact leaves_insert s hne
    · exact leaves_internalDecayItem hne hborn (fun s y t hne hborn ht => ih hne hborn ht) ht

/-! ## Waiting -/

section Attributes

open Cylinders (itemAttrTypes toInt32)

variable {type other : itemAttrTypes}

theorem getIntAttr_setIntAttr_self (type : itemAttrTypes) (value : ℤ) (item : Cylinders.Item) :
    (item.setIntAttr type value).getIntAttr type = toInt32 value := by
  unfold Cylinders.Item.setIntAttr Cylinders.Item.getIntAttr
  dsimp only
  rw [Function.update_self]

theorem setIntAttr_of_ne (hne : other ≠ type) (value : ℤ) (item : Cylinders.Item) :
    (item.setIntAttr type value).getIntAttr other = item.getIntAttr other ∧
      (item.setIntAttr type value).hasAttribute other = item.hasAttribute other := by
  unfold Cylinders.Item.setIntAttr Cylinders.Item.getIntAttr Cylinders.Item.hasAttribute
  dsimp only
  rw [Function.update_of_ne hne]
  cases item.attributes with
  | none => exact ⟨rfl, rfl⟩
  | some attributes => exact ⟨rfl, rfl⟩

theorem getIntAttr_lt (type : itemAttrTypes) (item : Cylinders.Item) :
    item.getIntAttr type < 2147483648 := by
  have hint32 : ∀ n, toInt32 n < 2147483648 := fun n =>
    Int.bmod_lt (by decide)
  unfold Cylinders.Item.getIntAttr
  split
  · split
    · exact hint32 _
    · decide
  · decide

end Attributes

/-- The item decays, and has `duration` left. -/
structure Ages (types : ℕ → ItemType) (x : ItemRef) (duration : ℤ) (s : Decays) : Prop where
  born : x < s.fresh
  hasParent : s.hasParent x = true
  decays : ¬ ((types (s.item x).id).decayTo < 0 ∨ (types (s.item x).id).decayTime = 0)
  unique : (s.item x).hasAttribute .ITEM_ATTRIBUTE_UNIQUEID = false
  decaying : s.getDecaying x = DECAYING_TRUE
  duration : s.duration x = duration

/-- It is in the lists once, in `bucket`. -/
structure Waits (types : ℕ → ItemType) (x : ItemRef) (bucket : Fin EVENT_DECAY_BUCKETS)
    (duration : ℤ) (s : Decays) : Prop extends Ages types x duration s where
  toDecayItems : s.toDecayItems.count x = 0
  places : ∀ b, (s.decayItems b).count x = if b = bucket then 1 else 0

/-- It is in the lists once, for the next cleanup. -/
structure Entered (types : ℕ → ItemType) (x : ItemRef) (duration : ℤ) (s : Decays) : Prop
    extends Ages types x duration s where
  toDecayItems : s.toDecayItems.count x = 1
  places : ∀ b, (s.decayItems b).count x = 0

section Waits

variable {bucket : Fin EVENT_DECAY_BUCKETS} {duration : ℤ}

theorem Ages.congr (h : Ages types x duration s) (hitem : t.item x = s.item x)
    (hparent : t.hasParent x = s.hasParent x) (hfresh : s.fresh ≤ t.fresh) :
    Ages types x duration t where
  born := h.born.trans_le hfresh
  hasParent := hparent.trans h.hasParent
  decays := by
    rw [hitem]
    exact h.decays
  unique := by
    rw [hitem]
    exact h.unique
  decaying := by
    unfold getDecaying
    rw [hitem]
    exact h.decaying
  duration := by
    unfold Decays.duration
    rw [hitem]
    exact h.duration

theorem Ages.canDecay (h : Ages types x duration s) (hparent : env.parentIsRemoved s x = false) :
    s.canDecay types env x = true := by
  have hdecays := h.decays
  unfold Decays.canDecay isRemoved
  dsimp only
  rw [h.hasParent, hparent, h.unique]
  simpa using hdecays

theorem Ages.decreaseDuration (h : Ages types x duration s) {time : ℤ} (hpos : 0 < duration)
    (htime : 0 ≤ time ∧ time ≤ duration) :
    Ages types x (duration - time) (s.decreaseDuration x time) := by
  have hitem : (s.decreaseDuration x time).item x =
      { s.item x with
        toItem := (s.item x).toItem.setIntAttr .ITEM_ATTRIBUTE_DURATION (s.duration x - time) } :=
    Function.update_self _ _ _
  have hlt : s.duration x < 2147483648 := getIntAttr_lt _ _
  refine ⟨h.born, h.hasParent, ?_, ?_, ?_, ?_⟩
  · rw [hitem]
    exact h.decays
  · rw [hitem]
    exact (setIntAttr_of_ne (by decide) _ _).2.trans h.unique
  · unfold getDecaying
    rw [hitem]
    exact (congrArg (· % 256) (setIntAttr_of_ne (by decide) _ _).1).trans h.decaying
  · rw [h.duration] at hlt
    unfold Decays.duration
    rw [hitem]
    refine (getIntAttr_setIntAttr_self _ _ _).trans ?_
    rw [h.duration]
    exact Int.bmod_eq_of_le (by omega) (by omega)

theorem Waits.keeps (h : Waits types x bucket duration s) (hkeeps : Keeps x s t) :
    Waits types x bucket duration t where
  toAges := h.congr hkeeps.item hkeeps.hasParent hkeeps.fresh
  toDecayItems := hkeeps.toDecayItems.trans h.toDecayItems
  places b := (hkeeps.places b).trans (h.places b)

theorem Entered.keeps (h : Entered types x duration s) (hkeeps : Keeps x s t) :
    Entered types x duration t where
  toAges := h.congr hkeeps.item hkeeps.hasParent hkeeps.fresh
  toDecayItems := hkeeps.toDecayItems.trans h.toDecayItems
  places b := (hkeeps.places b).trans (h.places b)

/-- The places of the item change, and the lists of others. -/
theorem Waits.move (h : Waits types x bucket duration s) {toDecay : List ItemRef}
    {buckets : Fin EVENT_DECAY_BUCKETS → List ItemRef} {bucket' : Fin EVENT_DECAY_BUCKETS}
    (htoDecay : toDecay.count x = 0)
    (hplaces : ∀ b, (buckets b).count x = if b = bucket' then 1 else 0) :
    Waits types x bucket' duration { s with toDecayItems := toDecay, decayItems := buckets } :=
  ⟨h.congr rfl rfl (Nat.le_refl _), htoDecay, hplaces⟩

/-! ## One check -/

theorem keeps_setBucket (s : Decays) (b : Fin EVENT_DECAY_BUCKETS) {list : List ItemRef}
    (hlist : list.count x = (s.decayItems b).count x) : Keeps x s (s.setBucket b list) := by
  refine ⟨rfl, rfl, rfl, fun b' => ?_, rfl, Nat.le_refl _⟩
  by_cases hb : b' = b
  · subst hb
    exact (congrArg _ (Function.update_self _ _ _)).trans hlist
  · exact congrArg _ (Function.update_of_ne hb _ _)

theorem keeps_pushBucket (s : Decays) (hne : x ≠ y) (b : Fin EVENT_DECAY_BUCKETS) :
    Keeps x s (s.pushBucket y b) := by
  refine keeps_setBucket s b ?_
  rw [List.count_append, count_singleton_ne hne, Nat.add_zero]

theorem visit_other {b : Fin EVENT_DECAY_BUCKETS} {kept rest : List ItemRef}
    {v : List ItemRef × Decays} (hborn : x < s.fresh) (hne : x ≠ y)
    (hb : s.decayItems b = kept ++ y :: rest)
    (hv : visit types env fuel b kept y rest s = some v) :
    Keeps x s v.2 ∧ v.2.decayItems b = v.1 ++ rest := by
  have hcount : (kept ++ rest).count x = (s.decayItems b).count x := by
    rw [hb, List.count_append, List.count_append, List.count_cons_of_ne hne.symm]
  have herase : ∀ {t}, Leaves x s t → Keeps x s (t.setBucket b (kept ++ rest)) := fun h =>
    h.keeps.trans (keeps_setBucket _ b (hcount.trans (h.keeps.places b).symm))
  unfold visit at hv
  extract_lets after at hv
  have hafter : Leaves x s after := leaves_setItem s hne _
  split_ifs at hv with hcan hnow hlast
  · obtain rfl := Option.some.inj hv
    have hleaves : Leaves x s ((s.setDecaying y DECAYING_FALSE).ReleaseItem y) :=
      (leaves_setItem s hne _).trans (leaves_ReleaseItem _ y)
    exact ⟨herase hleaves, Function.update_self _ _ _⟩
  · obtain ⟨t, ht, rfl⟩ := Option.map_eq_some_iff.mp hv
    have herased : Keeps x s (after.setBucket b (kept ++ rest)) := herase hafter
    have hleaves := leaves_internalDecayItem hne (hborn.trans_le herased.fresh)
      (fun s y t hne hborn ht => leaves_startDecay hne hborn ht) ht
    refine ⟨herased.trans (hleaves.trans (leaves_ReleaseItem t y)).keeps, ?_⟩
    exact (congrFun hleaves.decayItems b).trans (Function.update_self _ _ _)
  · obtain rfl := Option.some.inj hv
    have hmoved : newBucket b (leftAfter (s.duration y)) ≠ b := by
      intro hsame
      rw [Bool.not_eq_true, Bool.not_eq_false'] at hcan
      exact hnow ⟨hcan, .inr ⟨hlast, hsame⟩⟩
    refine ⟨(herase hafter).trans (keeps_pushBucket _ hne _), ?_⟩
    exact (Function.update_of_ne hmoved.symm _ _).trans (Function.update_self _ _ _)
  · obtain rfl := Option.some.inj hv
    exact ⟨hafter.keeps, hb.trans (List.append_cons kept y rest)⟩

/-- The loop does not come to the item. -/
theorem checkLoop_passes {b : Fin EVENT_DECAY_BUCKETS} {kept rest : List ItemRef}
    (hborn : x < s.fresh) (hb : s.decayItems b = kept ++ rest) (hrest : rest.count x = 0)
    (ht : checkLoop types env fuel b kept rest s = some t) : Keeps x s t := by
  induction rest generalizing kept s with
  | nil =>
    obtain rfl := Option.some.inj ht
    exact Keeps.refl x s
  | cons y rest ih =>
    rw [checkLoop_cons] at ht
    obtain ⟨v, hv, ht⟩ := Option.bind_eq_some_iff.mp ht
    have hne : x ≠ y := by
      rintro rfl
      rw [List.count_cons_self] at hrest
      omega
    obtain ⟨hkeeps, hb'⟩ := visit_other hborn hne hb hv
    rw [List.count_cons_of_ne hne.symm] at hrest
    exact hkeeps.trans (ih (hborn.trans_le hkeeps.fresh) hb' hrest ht)

/-- How many checks an item with `duration` left waits after the next visit. -/
def checksAfter (duration : ℤ) : ℕ :=
  (4 * ((duration - 1000) / 1000) + if 875 ≤ duration % 1000 then 1 else 0).toNat

theorem leftAfter_eq (duration : ℤ) : leftAfter duration = duration - min 1000 duration := rfl

/-- What is left is rounded to none or one check. -/
theorem newBucket_eq {b : Fin EVENT_DECAY_BUCKETS} {left : ℤ} (hpos : 0 < left)
    (hlast : left < 1000) : newBucket b left = if left < 875 then b else b + 1 := by
  have hhalf : EVENT_DECAYINTERVAL / 2 = 125 := rfl
  unfold newBucket
  rw [hhalf]
  split_ifs with hsmall
  · rw [show (left + 125) / 1000 = 0 by omega]
    exact Fin.add_zero b
  · rw [show (left + 125) / 1000 = 1 by omega]
    rfl

theorem next_bucket (b : Fin EVENT_DECAY_BUCKETS) : b ≠ b + 1 ∧ b + 1 - (b + 1) = 0 := by
  revert b
  decide

theorem last_bucket (b : Fin EVENT_DECAY_BUCKETS) : (b - (b + 1)).val = 3 := by
  revert b
  decide

theorem passed_bucket (last bucket : Fin EVENT_DECAY_BUCKETS) (hne : bucket ≠ last + 1) :
    (bucket - (last + 1 + 1)).val + 1 = (bucket - (last + 1)).val := by
  revert last bucket
  decide

theorem decaysNow_iff (h : Waits types x bucket duration s) (hpos : 0 < duration)
    (hparent : env.parentIsRemoved s x = false) (b : Fin EVENT_DECAY_BUCKETS) :
    s.DecaysNow types env b x ↔ checksAfter duration = 0 := by
  have hne : b + 1 ≠ b := (next_bucket b).1.symm
  have hinterval : EVENT_DECAYINTERVAL * EVENT_DECAY_BUCKETS = 1000 := rfl
  unfold DecaysNow
  rw [h.duration, hinterval, leftAfter_eq]
  unfold checksAfter
  constructor
  · rintro ⟨-, hover | ⟨hlast, hsame⟩⟩
    · split_ifs <;> omega
    · by_cases hover : duration - min 1000 duration ≤ 0
      · split_ifs <;> omega
      · rw [newBucket_eq (by omega) hlast] at hsame
        split_ifs at hsame with hsmall
        · split_ifs <;> omega
        · exact absurd hsame hne
  · intro hzero
    refine ⟨h.canDecay hparent, ?_⟩
    by_cases hover : duration - min 1000 duration ≤ 0
    · exact .inl hover
    · have hlast : duration - min 1000 duration < 875 := by
        split_ifs at hzero <;> omega
      refine .inr ⟨by omega, ?_⟩
      rw [newBucket_eq (by omega) (by omega), if_pos hlast]

/-- The checks from the one that goes through `last + 1` up to the one that decays the item. -/
def checksLeft (last bucket : Fin EVENT_DECAY_BUCKETS) (duration : ℤ) : ℕ :=
  (bucket - (last + 1)).val + 1 + checksAfter duration

/-- An item that does not decay stays for another round, or moves to the next bucket. -/
theorem visit_self {kept rest : List ItemRef} {v : List ItemRef × Decays}
    (h : Waits types x bucket duration s) (hpos : 0 < duration)
    (hparent : env.parentIsRemoved s x = false) (hb : s.decayItems bucket = kept ++ x :: rest)
    (hmore : checksAfter duration ≠ 0)
    (hv : visit types env fuel bucket kept x rest s = some v) :
    ∃ bucket', Waits types x bucket' (duration - 1000) v.2 ∧ 0 < duration - 1000 ∧
      checksLeft bucket bucket' (duration - 1000) = checksAfter duration ∧
      v.2.decayItems bucket = v.1 ++ rest ∧ v.2.lastBucket = s.lastBucket := by
  have hlong : 1875 ≤ duration := by
    unfold checksAfter at hmore
    split_ifs at hmore <;> omega
  have hlast : leftAfter (s.duration x) = duration - 1000 := by
    rw [h.duration, leftAfter_eq]
    omega
  have htime : min (EVENT_DECAYINTERVAL * EVENT_DECAY_BUCKETS) (s.duration x) = 1000 := by
    rw [h.duration]
    exact min_eq_left (le_trans (by decide) hlong)
  have hless : Waits types x bucket (duration - 1000) (s.decreaseDuration x 1000) :=
    ⟨h.toAges.decreaseDuration hpos ⟨by decide, by omega⟩, h.toDecayItems, h.places⟩
  have hnow := (decaysNow_iff h hpos hparent bucket).not.mpr hmore
  unfold visit at hv
  rw [h.canDecay hparent, Bool.not_true, if_neg Bool.false_ne_true] at hv
  dsimp only at hv
  rw [if_neg hnow, hlast, htime] at hv
  split_ifs at hv with hround
  · obtain rfl := Option.some.inj hv
    change duration - 1000 < 1000 at hround
    have hmoved : newBucket bucket (duration - 1000) = bucket + 1 := by
      rw [newBucket_eq (by omega) hround, if_neg (by omega)]
    have hother : bucket ≠ bucket + 1 ∧ bucket + 1 - (bucket + 1) = 0 := next_bucket bucket
    rw [hmoved]
    refine ⟨bucket + 1, ?_, by omega, ?_, ?_, rfl⟩
    · have hplace := h.places bucket
      have hnext := h.places (bucket + 1)
      rw [if_pos rfl, hb, List.count_append, List.count_cons_self] at hplace
      rw [if_neg hother.1.symm] at hnext
      refine hless.move h.toDecayItems fun b => ?_
      by_cases hnew : b = bucket + 1
      · subst hnew
        rw [Function.update_self, if_pos rfl, List.count_append, List.count_singleton_self]
        change (Function.update s.decayItems bucket (kept ++ rest) (bucket + 1)).count x + 1 = 1
        rw [Function.update_of_ne hother.1.symm, hnext]
      · rw [Function.update_of_ne hnew, if_neg hnew]
        change (Function.update s.decayItems bucket (kept ++ rest) b).count x = 0
        by_cases hold : b = bucket
        · rw [hold, Function.update_self, List.count_append]
          omega
        · rw [Function.update_of_ne hold, h.places b, if_neg hold]
    · unfold checksLeft checksAfter
      rw [hother.2]
      change 0 + 1 + _ = _
      split_ifs <;> omega
    · exact (Function.update_of_ne hother.1 _ _).trans (Function.update_self _ _ _)
  · obtain rfl := Option.some.inj hv
    change ¬ duration - 1000 < 1000 at hround
    have hself : (bucket - (bucket + 1)).val = 3 := last_bucket bucket
    refine ⟨bucket, hless, by omega, ?_, hb.trans (List.append_cons kept x rest), rfl⟩
    unfold checksLeft checksAfter
    rw [hself]
    split_ifs <;> omega

theorem decayed_count_le (types : ℕ → ItemType) (env : Surroundings) (fuel : ℕ) (x : ItemRef)
    (b : Fin EVENT_DECAY_BUCKETS) (kept rest : List ItemRef) (s : Decays) :
    (decayed types env fuel b kept rest s).count x ≤ rest.count x := by
  induction rest generalizing kept s with
  | nil => exact Nat.zero_le _
  | cons y rest ih =>
    have hrest : ((visit types env fuel b kept y rest s).elim []
        fun v => decayed types env fuel b v.1 rest v.2).count x ≤ rest.count x := by
      cases visit types env fuel b kept y rest s with
      | none => exact Nat.zero_le _
      | some v => exact ih v.1 v.2
    have hfirst : (if s.DecaysNow types env b y then [y] else []).count x ≤ [y].count x := by
      split_ifs
      · exact Nat.le_refl _
      · exact Nat.zero_le _
    rw [List.count_singleton] at hfirst
    rw [decayed, List.count_append, List.count_cons, Nat.add_comm (rest.count x)]
    exact Nat.add_le_add hfirst hrest

/-- The loop comes to the item: it decays, or waits on. -/
theorem checkLoop_meets {kept rest : List ItemRef} (h : Waits types x bucket duration s)
    (hpos : 0 < duration) (hparent : ∀ s, env.parentIsRemoved s x = false)
    (hb : s.decayItems bucket = kept ++ rest) (hrest : rest.count x = 1)
    (ht : checkLoop types env fuel bucket kept rest s = some t) :
    (checksAfter duration = 0 → (decayed types env fuel bucket kept rest s).count x = 1) ∧
      (checksAfter duration ≠ 0 → (decayed types env fuel bucket kept rest s).count x = 0 ∧
        t.lastBucket = s.lastBucket ∧ ∃ bucket' duration', 0 < duration' ∧
          Waits types x bucket' duration' t ∧
            checksLeft bucket bucket' duration' = checksAfter duration) := by
  induction rest generalizing kept s with
  | nil =>
    rw [List.count_nil] at hrest
    omega
  | cons y rest ih =>
    rw [checkLoop_cons] at ht
    obtain ⟨v, hv, hloop⟩ := Option.bind_eq_some_iff.mp ht
    rw [decayed, hv, List.count_append]
    change (_ → _ + (decayed types env fuel bucket v.1 rest v.2).count x = 1) ∧
      (_ → _ + (decayed types env fuel bucket v.1 rest v.2).count x = 0 ∧ _)
    by_cases hx : x = y
    · subst hx
      have hnot : rest.count x = 0 := by
        rw [List.count_cons_self] at hrest
        omega
      have hlater := decayed_count_le types env fuel x bucket v.1 rest v.2
      have hnow := decaysNow_iff h hpos (hparent s) bucket
      constructor
      · intro hzero
        rw [if_pos (hnow.mpr hzero), List.count_singleton_self]
        omega
      · intro hmore
        rw [if_neg (hnow.not.mpr hmore), List.count_nil]
        obtain ⟨bucket', hwaits, hpos', hleft, hb', hlast⟩ :=
          visit_self h hpos (hparent s) hb hmore hv
        have hkeeps := checkLoop_passes hwaits.born hb' hnot hloop
        exact ⟨by omega, hkeeps.lastBucket.trans hlast, bucket', duration - 1000, hpos',
          hwaits.keeps hkeeps, hleft⟩
    · have hfirst : (if s.DecaysNow types env bucket y then [y] else []).count x = 0 := by
        split_ifs
        · exact count_singleton_ne hx
        · rfl
      obtain ⟨hkeeps, hb'⟩ := visit_other h.born hx hb hv
      rw [List.count_cons_of_ne (Ne.symm hx)] at hrest
      rw [hfirst, Nat.zero_add]
      obtain ⟨hdecays, hwaits⟩ := ih (h.keeps hkeeps) hb' hrest hloop
      refine ⟨hdecays, fun hmore => ?_⟩
      obtain ⟨hnone, hlast, hend⟩ := hwaits hmore
      exact ⟨hnone, hlast.trans hkeeps.lastBucket, hend⟩

/-! ## Cleanup -/

theorem cleanup_eq (s : Decays) :
    s.cleanup = cleanupLoop s.toDecayItems { s.releaseItems with toDecayItems := [] } := by
  have hloop : ∀ (list : List ItemRef) (s : Decays),
      { cleanupLoop list s with toDecayItems := [] } =
        cleanupLoop list { s with toDecayItems := [] } := by
    intro list
    induction list with
    | nil => exact fun s => rfl
    | cons y list ih => exact fun s => ih (s.pushBucket y (s.decayBucket y))
  exact hloop s.toDecayItems s.releaseItems

theorem keeps_cleanupLoop {list : List ItemRef} (s : Decays) (hlist : list.count x = 0) :
    Keeps x s (cleanupLoop list s) := by
  induction list generalizing s with
  | nil => exact Keeps.refl x s
  | cons y list ih =>
    have hne : x ≠ y := by
      rintro rfl
      rw [List.count_cons_self] at hlist
      omega
    rw [List.count_cons_of_ne hne.symm] at hlist
    exact (keeps_pushBucket s hne _).trans (ih _ hlist)

theorem waits_cleanup (h : Waits types x bucket duration s) :
    Waits types x bucket duration s.cleanup ∧ s.cleanup.lastBucket = s.lastBucket := by
  rw [cleanup_eq]
  have hcleared : Waits types x bucket duration { s.releaseItems with toDecayItems := [] } :=
    ⟨h.congr rfl rfl (Nat.le_refl _), List.count_nil, h.places⟩
  have hkeeps : Keeps x { s.releaseItems with toDecayItems := [] } _ :=
    keeps_cleanupLoop _ h.toDecayItems
  exact ⟨hcleared.keeps hkeeps, hkeeps.lastBucket⟩

theorem getDuration_eq (hpos : 0 ≤ s.duration x) : s.getDuration x = s.duration x := by
  have hlt : s.duration x < 2147483648 := getIntAttr_lt _ _
  exact Int.emod_eq_of_lt hpos (by omega)

/-- From one second on the item goes to the bucket that has been checked last. -/
theorem decayBucket_of_long (h : Ages types x duration s) (hlong : 1000 ≤ duration) :
    s.decayBucket x = s.lastBucket := by
  unfold decayBucket
  rw [getDuration_eq (by rw [h.duration]; omega), h.duration]
  exact if_pos hlong

theorem enters_cleanupLoop {list : List ItemRef} (h : Ages types x duration s)
    (hlong : 1000 ≤ duration) (htoDecay : s.toDecayItems.count x = 0)
    (hplaces : ∀ b, (s.decayItems b).count x = 0) (hlist : list.count x = 1) :
    Waits types x s.lastBucket duration (cleanupLoop list s) ∧
      (cleanupLoop list s).lastBucket = s.lastBucket := by
  induction list generalizing s with
  | nil =>
    rw [List.count_nil] at hlist
    omega
  | cons y list ih =>
    rw [cleanupLoop]
    by_cases hx : x = y
    · subst hx
      rw [List.count_cons_self] at hlist
      rw [decayBucket_of_long h hlong]
      have hpushed : Waits types x s.lastBucket duration (s.pushBucket x s.lastBucket) := by
        refine ⟨h.congr rfl rfl (Nat.le_refl _), htoDecay, fun b => ?_⟩
        unfold Decays.pushBucket Decays.setBucket
        dsimp only
        by_cases hb : b = s.lastBucket
        · subst hb
          rw [Function.update_self, List.count_append, hplaces, List.count_singleton_self,
            if_pos rfl]
        · rw [Function.update_of_ne hb, hplaces, if_neg hb]
      have hkeeps : Keeps x _ (cleanupLoop list (s.pushBucket x s.lastBucket)) :=
        keeps_cleanupLoop _ (by omega)
      exact ⟨hpushed.keeps hkeeps, hkeeps.lastBucket⟩
    · have hkeeps := keeps_pushBucket s hx (s.decayBucket y)
      rw [List.count_cons_of_ne (Ne.symm hx)] at hlist
      exact ih (h.congr hkeeps.item hkeeps.hasParent hkeeps.fresh)
        (hkeeps.toDecayItems.trans htoDecay) (fun b => (hkeeps.places b).trans (hplaces b)) hlist

end Waits

/-- The item waits for `n` checks, the last of which decays it. -/
def Waiting (types : ℕ → ItemType) (x : ItemRef) (n : ℕ) (s : Decays) : Prop :=
  ∃ bucket duration, 0 < duration ∧ Waits types x bucket duration s ∧
    checksLeft s.lastBucket bucket duration = n

theorem waiting_check {n : ℕ} (h : Waiting types x n s)
    (hparent : ∀ s, env.parentIsRemoved s x = false)
    (ht : s.checkDecay types env fuel = some t) :
    (n = 1 → (s.decayedItems types env fuel).count x = 1) ∧
      (n ≠ 1 → (s.decayedItems types env fuel).count x = 0 ∧ Waiting types x (n - 1) t) := by
  obtain ⟨bucket, duration, hpos, hwaits, rfl⟩ := h
  obtain ⟨u, hu, rfl⟩ := Option.map_eq_some_iff.mp ht
  have hb : s.decayItems (s.lastBucket + 1) = [] ++ s.decayItems (s.lastBucket + 1) := rfl
  -- the check ends with a cleanup in the bucket it went through
  have hclean : ∀ {bucket duration}, Waits types x bucket duration u →
      Waits types x bucket duration ({ u with lastBucket := s.lastBucket + 1 } : Decays).cleanup ∧
        ({ u with lastBucket := s.lastBucket + 1 } : Decays).cleanup.lastBucket =
          s.lastBucket + 1 := fun h =>
    waits_cleanup ⟨h.congr rfl rfl (Nat.le_refl _), h.toDecayItems, h.places⟩
  have hplace := hwaits.places (s.lastBucket + 1)
  unfold decayedItems
  by_cases hmeets : s.lastBucket + 1 = bucket
  · rw [if_pos hmeets] at hplace
    have hleft : checksLeft s.lastBucket bucket duration = 1 + checksAfter duration := by
      unfold checksLeft
      rw [← hmeets, Fin.sub_self]
      exact congrArg (· + checksAfter duration) (Nat.zero_add 1)
    rw [hmeets] at hu hb hplace ⊢
    obtain ⟨hdecays, hwaits'⟩ := checkLoop_meets hwaits hpos hparent hb hplace hu
    rw [hleft]
    refine ⟨fun hone => hdecays (by omega), fun hmore => ?_⟩
    obtain ⟨hnone, -, bucket', duration', hpos', hend, hleft'⟩ := hwaits' (by omega)
    rw [hmeets] at hclean
    obtain ⟨hend, hlast⟩ := hclean hend
    refine ⟨hnone, bucket', duration', hpos', hend, ?_⟩
    rw [hlast, hleft']
    omega
  · rw [if_neg hmeets] at hplace
    have hkeeps := checkLoop_passes hwaits.born hb hplace hu
    have hnone := decayed_count_le types env fuel x (s.lastBucket + 1) []
      (s.decayItems (s.lastBucket + 1)) s
    have hpassed := passed_bucket s.lastBucket bucket (Ne.symm hmeets)
    obtain ⟨hend, hlast⟩ := hclean (hwaits.keeps hkeeps)
    refine ⟨fun hone => ?_, fun _ => ⟨by omega, bucket, duration, hpos, hend, ?_⟩⟩
    · unfold checksLeft at hone
      omega
    · unfold checksLeft
      rw [hlast]
      omega

theorem Waiting.keeps {n : ℕ} (h : Waiting types x n s) (hkeeps : Keeps x s t) :
    Waiting types x n t := by
  obtain ⟨bucket, duration, hpos, hwaits, hleft⟩ := h
  refine ⟨bucket, duration, hpos, hwaits.keeps hkeeps, ?_⟩
  rw [hkeeps.lastBucket]
  exact hleft

theorem Waiting.cleanup {n : ℕ} (h : Waiting types x n s) : Waiting types x n s.cleanup := by
  obtain ⟨bucket, duration, hpos, hwaits, hleft⟩ := h
  obtain ⟨hend, hlast⟩ := waits_cleanup hwaits
  refine ⟨bucket, duration, hpos, hend, ?_⟩
  rw [hlast]
  exact hleft

/-! ## Put under decay -/

theorem entered_startDecay (hnew : s.occurrences x = 0) (hborn : x < s.fresh)
    (hstarts : Starts types env s x) (hpos : 0 < s.duration x)
    (ht : Decays.startDecay types env fuel s x = some t) : Entered types x (s.duration x) t := by
  obtain ⟨hcan, hstate⟩ := hstarts
  have hparent := hasParent_of_canDecay hcan
  have hitem : (s.insert x).item x =
      { s.item x with
        toItem := (s.item x).toItem.setIntAttr .ITEM_ATTRIBUTE_DECAYSTATE DECAYING_TRUE } :=
    Function.update_self _ _ _
  have hlists : s.toDecayItems.count x = 0 ∧ ∀ b, (s.decayItems b).count x = 0 := by
    unfold occurrences at hnew
    have hsum : ∑ b, (s.decayItems b).count x = 0 := by omega
    refine ⟨by omega, fun b => ?_⟩
    exact Finset.sum_eq_zero_iff.mp hsum b (Finset.mem_univ b)
  have hkind := hcan
  unfold Decays.canDecay at hkind
  simp only [Bool.and_eq_true, Bool.not_eq_true', Bool.or_eq_false_iff, decide_eq_false_iff_not]
    at hkind
  obtain ⟨⟨-, hdecays⟩, hunique⟩ := hkind
  cases fuel with
  | zero => cases ht
  | succ fuel =>
    rw [Decays.startDecay, hcan, Bool.not_true, if_neg Bool.false_ne_true, if_neg hstate,
      getDuration_eq hpos.le, if_pos hpos] at ht
    obtain rfl := Option.some.inj ht
    refine ⟨⟨hborn, hparent, ?_, ?_, ?_, ?_⟩, ?_, hlists.2⟩
    · rw [hitem]
      exact not_or.mpr hdecays
    · rw [hitem]
      exact (setIntAttr_of_ne (by decide) _ _).2.trans hunique
    · unfold getDecaying
      rw [hitem]
      exact congrArg (· % 256) (getIntAttr_setIntAttr_self _ _ _)
    · unfold Decays.duration
      rw [hitem]
      exact (setIntAttr_of_ne (by decide) _ _).1
    · exact List.count_cons_self.trans (congrArg Nat.succ hlists.1)

theorem Entered.cleanup {duration : ℤ} (h : Entered types x duration s) (hlong : 1000 ≤ duration) :
    Waiting types x (4 + checksAfter duration) s.cleanup := by
  rw [cleanup_eq]
  have hages : Ages types x duration { s.releaseItems with toDecayItems := [] } :=
    h.congr rfl rfl (Nat.le_refl _)
  obtain ⟨hend, hlast⟩ := enters_cleanupLoop hages hlong List.count_nil h.places h.toDecayItems
  refine ⟨s.lastBucket, duration, by omega, hend, ?_⟩
  rw [hlast]
  exact congrArg (· + 1 + checksAfter duration) (last_bucket s.lastBucket)

theorem Entered.checkDecay {duration : ℤ} (h : Entered types x duration s)
    (hlong : 1000 ≤ duration) (ht : s.checkDecay types env fuel = some t) :
    Waiting types x (4 + checksAfter duration) t := by
  obtain ⟨u, hu, rfl⟩ := Option.map_eq_some_iff.mp ht
  have hb : s.decayItems (s.lastBucket + 1) = [] ++ s.decayItems (s.lastBucket + 1) := rfl
  have hentered := h.keeps (checkLoop_passes h.born hb (h.places _) hu)
  have hlast : Entered types x duration { u with lastBucket := s.lastBucket + 1 } :=
    ⟨hentered.congr rfl rfl (Nat.le_refl _), hentered.toDecayItems, hentered.places⟩
  exact hlast.cleanup hlong

/-! ## Every run -/

end Decays

namespace DecayAction

/-- The item is not moved, transformed or removed, and neither is what it lies in. -/
def LeavesAlone (x : ItemRef) : DecayAction → Prop
  | .startDecay _ _ => True
  | .checkDecay env => ∀ s, env.parentIsRemoved s x = false
  | .cleanup => True
  | .transformItem _ item _ _ => item ≠ x
  | .internalRemoveItem _ item => item ≠ x

def isCheckDecay : DecayAction → Bool
  | .checkDecay _ => true
  | _ => false

/-- `Game::cleanup` is called. -/
def cleans : DecayAction → Bool
  | .checkDecay _ => true
  | .cleanup => true
  | _ => false

end DecayAction

namespace Decays

/-- The items that the checks decay. -/
def decaysOf (types : ℕ → ItemType) (fuel : ℕ) (s : Decays) : DecayAction → List ItemRef
  | .checkDecay env => s.decayedItems types env fuel
  | _ => []

/-- How often the item is decayed by the checks of a run. -/
def decayCalls (types : ℕ → ItemType) (fuel : ℕ) (x : ItemRef) : Decays → List DecayAction → ℕ
  | _, [] => 0
  | s, action :: actions =>
    (s.decaysOf types fuel action).count x +
      (s.step types fuel action).elim 0 fun t => decayCalls types fuel x t actions

/-- The item is in one bucket, once, and nowhere else. -/
def InOneBucket (s : Decays) (x : ItemRef) : Prop :=
  s.toDecayItems.count x = 0 ∧
    ∃ bucket, ∀ b, (s.decayItems b).count x = if b = bucket then 1 else 0

/-- The time of the `n`-th check, where the first one is due after `phase`. -/
def checkTime (phase : ℚ) (n : ℕ) : ℚ := phase + EVENT_DECAYINTERVAL * ((n : ℚ) - 1)

theorem keeps_step {action : DecayAction} (hborn : x < s.fresh)
    (hdecaying : s.getDecaying x = DECAYING_TRUE) (halone : action.LeavesAlone x)
    (hclean : action.cleans = false) (ht : s.step types fuel action = some t) : Keeps x s t := by
  cases action with
  | startDecay env y =>
    by_cases hx : x = y
    · subst hx
      change Decays.startDecay types env fuel s x = some t at ht
      cases fuel with
      | zero => cases ht
      | succ fuel =>
        -- it is known to decay
        rw [Decays.startDecay, if_pos hdecaying, ite_self] at ht
        obtain rfl := Option.some.inj ht
        exact Keeps.refl x s
    · exact (leaves_startDecay hx hborn ht).keeps
  | checkDecay env => cases hclean
  | cleanup => cases hclean
  | transformItem env y newId newCount =>
    obtain rfl := Option.some.inj ht
    exact (leavesItem_transformItem (Ne.symm halone) hborn newId newCount).leaves.keeps
  | internalRemoveItem env y =>
    obtain rfl := Option.some.inj ht
    exact (leaves_internalRemoveItem s (Ne.symm halone)).keeps

theorem entered_run {duration : ℤ} {before : List DecayAction} (h : Entered types x duration s)
    (hbefore : ∀ a ∈ before, a.LeavesAlone x ∧ a.cleans = false)
    (ht : run (Decays.step types fuel) s before = some t) : Entered types x duration t := by
  induction before generalizing s with
  | nil =>
    obtain rfl := Option.some.inj ht
    exact h
  | cons a before ih =>
    obtain ⟨u, hu, ht⟩ := run_cons_eq_some.mp ht
    obtain ⟨⟨halone, hclean⟩, hbefore⟩ := List.forall_mem_cons.mp hbefore
    exact ih (h.keeps (keeps_step h.born h.decaying halone hclean hu)) hbefore ht

theorem Entered.clean {duration : ℤ} {action : DecayAction} (h : Entered types x duration s)
    (hlong : 1000 ≤ duration) (hclean : action.cleans = true)
    (ht : s.step types fuel action = some t) : Waiting types x (4 + checksAfter duration) t := by
  cases action with
  | startDecay env y => cases hclean
  | checkDecay env => exact h.checkDecay hlong ht
  | cleanup =>
    obtain rfl := Option.some.inj ht
    exact h.cleanup hlong
  | transformItem env y newId newCount => cases hclean
  | internalRemoveItem env y => cases hclean

theorem waiting_step {n : ℕ} {action : DecayAction} (h : Waiting types x n s)
    (halone : action.LeavesAlone x) (hcheck : action.isCheckDecay = false)
    (ht : s.step types fuel action = some t) : Waiting types x n t := by
  cases hclean : action.cleans with
  | false =>
    obtain ⟨bucket, duration, hpos, hwaits, hleft⟩ := id h
    exact h.keeps (keeps_step hwaits.born hwaits.decaying halone hclean ht)
  | true =>
    cases action with
    | startDecay env y => cases hclean
    | checkDecay env => cases hcheck
    | cleanup =>
      obtain rfl := Option.some.inj ht
      exact h.cleanup
    | transformItem env y newId newCount => cases hclean
    | internalRemoveItem env y => cases hclean

theorem Waiting.inOneBucket {n : ℕ} (h : Waiting types x n s) : s.InOneBucket x := by
  obtain ⟨bucket, duration, hpos, hwaits, hleft⟩ := h
  exact ⟨hwaits.toDecayItems, bucket, hwaits.places⟩

theorem decaysOf_other {action : DecayAction} (s : Decays) (hcheck : action.isCheckDecay = false) :
    s.decaysOf types fuel action = [] := by
  cases action with
  | checkDecay env => cases hcheck
  | startDecay env y => rfl
  | cleanup => rfl
  | transformItem env y newId newCount => rfl
  | internalRemoveItem env y => rfl

theorem decayCalls_of_other {action : DecayAction} {actions : List DecayAction}
    (hcheck : action.isCheckDecay = false) (ht : s.step types fuel action = some t) :
    decayCalls types fuel x s (action :: actions) = decayCalls types fuel x t actions := by
  rw [decayCalls, ht, decaysOf_other s hcheck]
  exact Nat.zero_add _

theorem decayCalls_eq_zero {actions : List DecayAction} (s : Decays)
    (hchecks : actions.countP DecayAction.isCheckDecay = 0) :
    decayCalls types fuel x s actions = 0 := by
  induction actions generalizing s with
  | nil => rfl
  | cons a actions ih =>
    have hnone := List.countP_eq_zero.mp hchecks
    have hrest : actions.countP DecayAction.isCheckDecay = 0 :=
      List.countP_eq_zero.mpr fun b hb => hnone b (List.mem_cons_of_mem a hb)
    have hcheck : a.isCheckDecay = false := by simpa using hnone a List.mem_cons_self
    cases ht : s.step types fuel a with
    | none =>
      rw [decayCalls, ht, decaysOf_other s hcheck]
      rfl
    | some t => exact (decayCalls_of_other hcheck ht).trans (ih t hrest)

/-- Every check brings the item one check nearer to its decay. -/
theorem waiting_run {n : ℕ} {actions : List DecayAction} (h : Waiting types x (n + 1) s)
    (halone : ∀ a ∈ actions, a.LeavesAlone x)
    (ht : run (Decays.step types fuel) s actions = some t) :
    (actions.countP DecayAction.isCheckDecay < n + 1 →
      decayCalls types fuel x s actions = 0 ∧ t.InOneBucket x) ∧
    (actions.countP DecayAction.isCheckDecay = n + 1 →
      decayCalls types fuel x s actions = 1) := by
  induction actions generalizing s n with
  | nil =>
    obtain rfl := Option.some.inj ht
    exact ⟨fun _ => ⟨rfl, h.inOneBucket⟩, fun heq => absurd heq (Nat.succ_ne_zero n).symm⟩
  | cons a actions ih =>
    obtain ⟨u, hu, hrun⟩ := run_cons_eq_some.mp ht
    obtain ⟨halone, hrest⟩ := List.forall_mem_cons.mp halone
    cases hcheck : a.isCheckDecay with
    | false =>
      rw [decayCalls_of_other hcheck hu, List.countP_cons_of_neg (by rw [hcheck]; decide)]
      exact ih (waiting_step h halone hcheck hu) hrest hrun
    | true =>
      obtain ⟨env, rfl⟩ : ∃ env, a = .checkDecay env := by
        cases a with
        | checkDecay env => exact ⟨env, rfl⟩
        | startDecay env y => cases hcheck
        | cleanup => cases hcheck
        | transformItem env y newId newCount => cases hcheck
        | internalRemoveItem env y => cases hcheck
      obtain ⟨hlast, hmore⟩ := waiting_check h halone hu
      rw [decayCalls, hu, List.countP_cons_of_pos hcheck]
      change (_ → (s.decayedItems types env fuel).count x + decayCalls types fuel x u actions = 0 ∧ _)
        ∧ (_ → (s.decayedItems types env fuel).count x + decayCalls types fuel x u actions = 1)
      cases n with
      | zero =>
        refine ⟨fun hlt => absurd hlt (by omega), fun heq => ?_⟩
        rw [hlast rfl, decayCalls_eq_zero u (by omega)]
      | succ n =>
        obtain ⟨hnone, hwaiting⟩ := hmore (by omega)
        obtain ⟨hbefore, hat⟩ := ih hwaiting hrest hrun
        rw [hnone, Nat.zero_add]
        exact ⟨fun hlt => hbefore (by omega), fun heq => hat (by omega)⟩

/-- The check that decays the item comes at its time, rounded to the interval. -/
theorem checkTime_bounds {duration : ℤ} (hlong : 1000 ≤ duration) {phase : ℚ} (hphase : 0 ≤ phase)
    (hnext : phase ≤ EVENT_DECAYINTERVAL) :
    (duration : ℚ) - 1125 < checkTime phase (4 + checksAfter duration) ∧
      checkTime phase (4 + checksAfter duration) ≤ duration := by
  have hchecks : duration - 1125 < 250 * (3 + checksAfter duration : ℤ) ∧
      250 * (3 + checksAfter duration : ℤ) + 250 ≤ duration := by
    unfold checksAfter
    split_ifs <;> omega
  obtain ⟨hlower, hupper⟩ := hchecks
  have hlower : ((duration - 1125 : ℤ) : ℚ) < (250 * (3 + checksAfter duration : ℤ) : ℤ) :=
    Int.cast_lt.mpr hlower
  have hupper : ((250 * (3 + checksAfter duration : ℤ) + 250 : ℤ) : ℚ) ≤ duration :=
    Int.cast_le.mpr hupper
  unfold checkTime
  unfold EVENT_DECAYINTERVAL at *
  push_cast at *
  constructor <;> linarith

end Decays

/-- An item that is put under decay and then left alone is decayed by one check, which comes more
than `duration - 1125` and at most `duration` ms after the cleanup that put it into a bucket. -/
theorem decays_on_time (types : ℕ → ItemType) (fuel : ℕ) (env : Surroundings)
    (before : List DecayAction) (clean : DecayAction) {s u v : Decays} {x : ItemRef}
    (hborn : x < s.fresh) (hnew : s.occurrences x = 0) (hstarts : Decays.Starts types env s x)
    (hlong : 1000 ≤ s.duration x)
    (hbefore : ∀ a ∈ before, a.LeavesAlone x ∧ a.cleans = false)
    (hu : run (Decays.step types fuel) s (.startDecay env x :: before) = some u)
    (hclean : clean.cleans = true) (hv : u.step types fuel clean = some v) :
    ∃ n : ℕ,
      (∀ phase : ℚ, 0 ≤ phase → phase ≤ EVENT_DECAYINTERVAL →
        (s.duration x : ℚ) - 1125 < Decays.checkTime phase n ∧
          Decays.checkTime phase n ≤ s.duration x) ∧
      ∀ actions t, (∀ a ∈ actions, a.LeavesAlone x) →
        run (Decays.step types fuel) v actions = some t →
        (actions.countP DecayAction.isCheckDecay < n →
          Decays.decayCalls types fuel x v actions = 0 ∧ t.InOneBucket x) ∧
        (actions.countP DecayAction.isCheckDecay = n →
          Decays.decayCalls types fuel x v actions = 1) := by
  obtain ⟨first, hfirst, hrest⟩ := run_cons_eq_some.mp hu
  have hentered := Decays.entered_startDecay hnew hborn hstarts (by omega) hfirst
  have hwaiting := (Decays.entered_run hentered hbefore hrest).clean hlong hclean hv
  refine ⟨4 + Decays.checksAfter (s.duration x), fun phase hphase hnext =>
    Decays.checkTime_bounds hlong hphase hnext, fun actions t halone ht => ?_⟩
  have hsucc : 4 + Decays.checksAfter (s.duration x) =
      3 + Decays.checksAfter (s.duration x) + 1 := by omega
  rw [hsucc] at hwaiting ⊢
  exact Decays.waiting_run hwaiting halone ht

/-- A torch that burns for a minute. -/
theorem torch_decays_on_time :
    ∃ n : ℕ,
      (∀ phase : ℚ, 0 ≤ phase → phase ≤ EVENT_DECAYINTERVAL →
        (torch.duration 0 : ℚ) - 1125 < Decays.checkTime phase n ∧
          Decays.checkTime phase n ≤ torch.duration 0) ∧
      ∀ actions t, (∀ a ∈ actions, a.LeavesAlone 0) →
        run (Decays.step torches 1) (torch.insert 0).cleanup actions = some t →
        (actions.countP DecayAction.isCheckDecay < n →
          Decays.decayCalls torches 1 0 (torch.insert 0).cleanup actions = 0 ∧ t.InOneBucket 0) ∧
        (actions.countP DecayAction.isCheckDecay = n →
          Decays.decayCalls torches 1 0 (torch.insert 0).cleanup actions = 1) :=
  decays_on_time torches 1 {} [] .cleanup (by decide) (by decide) ⟨by decide, by decide⟩ (by decide)
    (List.forall_mem_nil _) rfl rfl rfl

end TibiaServer.Game
