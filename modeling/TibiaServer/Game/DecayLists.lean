import Mathlib.Algebra.BigOperators.Fin
import TibiaServer.Game.Decay
import TibiaServer.Library.Run
/-!
# The lists of decaying items

An item is in the lists once at most, and its reference counter says so: it counts the parent,
the releases that are pending and the places in the lists.  A second entry can only come from
`startDecay`, for an item whose decay state has been reset while it was in the lists.
-/

namespace TibiaServer.Game

open Library.Run
open TibiaServer.Cylinders (ItemRef)
open TibiaServer.Tiles (ItemType Item)

namespace Decays

variable {types : ℕ → ItemType} {env : Surroundings} {s t : Decays} {x y : ItemRef}

/-- How often the item is in `toDecayItems` and the buckets. -/
def occurrences (s : Decays) (x : ItemRef) : ℕ :=
  s.toDecayItems.count x + ∑ bucket, (s.decayItems bucket).count x

/-- The references of an item, beside `extra x` that others hold. -/
structure Exact (extra : ItemRef → ℕ) (s : Decays) : Prop where
  once : ∀ x, s.occurrences x ≤ 1
  references : ∀ x, s.referenceCounter x =
    extra x + (s.hasParent x).toNat + s.toReleaseItems.count x + s.occurrences x

/-- No object that is still to be created is anywhere. -/
structure Sound (extra : ItemRef → ℕ) (s : Decays) : Prop extends Exact extra s where
  extra_fresh : ∀ x, s.fresh ≤ x → extra x = 0
  hasParent_fresh : ∀ x, s.fresh ≤ x → s.hasParent x = false
  release_fresh : ∀ x, s.fresh ≤ x → x ∉ s.toReleaseItems
  lists_fresh : ∀ x, s.fresh ≤ x → s.occurrences x = 0

/-! ## Lists -/

theorem sum_update (f : Fin EVENT_DECAY_BUCKETS → List ItemRef) (bucket : Fin EVENT_DECAY_BUCKETS)
    (list : List ItemRef) (x : ItemRef) :
    ∑ b, (Function.update f bucket list b).count x + (f bucket).count x =
      ∑ b, (f b).count x + list.count x := by
  have hmem := Finset.mem_univ bucket
  rw [← Finset.add_sum_erase _ _ hmem, ← Finset.add_sum_erase _ (fun b => (f b).count x) hmem]
  have hothers : ∑ b ∈ Finset.univ.erase bucket, (Function.update f bucket list b).count x =
      ∑ b ∈ Finset.univ.erase bucket, (f b).count x := by
    refine Finset.sum_congr rfl fun b hb => ?_
    rw [Function.update_of_ne (Finset.ne_of_mem_erase hb)]
  rw [hothers, Function.update_self]
  omega

theorem occurrences_setBucket (bucket : Fin EVENT_DECAY_BUCKETS) (list : List ItemRef)
    (x : ItemRef) : (s.setBucket bucket list).occurrences x + (s.decayItems bucket).count x =
      s.occurrences x + list.count x := by
  have hsum := sum_update s.decayItems bucket list x
  unfold occurrences setBucket
  dsimp only
  omega

theorem occurrences_pushBucket (bucket : Fin EVENT_DECAY_BUCKETS) :
    (s.pushBucket y bucket).occurrences x = s.occurrences x + [y].count x := by
  have hset := occurrences_setBucket (s := s) bucket (s.decayItems bucket ++ [y]) x
  rw [List.count_append] at hset
  unfold pushBucket
  omega

/-! ## Removing and transforming -/

variable {extra : ItemRef → ℕ}

theorem Sound.setItem (h : Sound extra s) (x : ItemRef) (item : Item) :
    Sound extra (s.setItem x item) :=
  ⟨⟨h.once, h.references⟩, h.extra_fresh, h.hasParent_fresh, h.release_fresh, h.lists_fresh⟩

theorem Sound.lt_of_hasParent (h : Sound extra s) (hparent : s.hasParent x = true) :
    x < s.fresh := by
  by_contra hge
  rw [h.hasParent_fresh x (not_lt.mp hge)] at hparent
  exact Bool.false_ne_true hparent

/-- The reference of the parent is released. -/
theorem Sound.releaseParent (h : Sound extra s) (hparent : s.hasParent x = true) :
    Sound extra ((s.setParent x false).ReleaseItem x) where
  once := h.once
  references := by
    intro y
    have href := h.references y
    change s.referenceCounter y = extra y + (Function.update s.hasParent x false y).toNat +
      (s.toReleaseItems ++ [x]).count y + s.occurrences y
    rw [List.count_append]
    by_cases hy : y = x
    · subst hy
      rw [hparent] at href
      rw [Function.update_self, List.count_singleton_self, href, Bool.toNat_true, Bool.toNat_false]
      omega
    · have hnot : [x].count y = 0 := List.count_singleton.trans (if_neg (by simpa using Ne.symm hy))
      rw [Function.update_of_ne hy, hnot, href]
      omega
  extra_fresh := h.extra_fresh
  hasParent_fresh := by
    intro y hy
    change Function.update s.hasParent x false y = false
    by_cases heq : y = x
    · rw [heq, Function.update_self]
    · rw [Function.update_of_ne heq]
      exact h.hasParent_fresh y hy
  release_fresh := by
    intro y hy hmem
    obtain hmem | hmem := List.mem_append.mp hmem
    · exact h.release_fresh y hy hmem
    · rw [List.mem_singleton.mp hmem] at hy
      exact absurd (h.lt_of_hasParent hparent) (not_lt.mpr hy)
  lists_fresh := h.lists_fresh

/-- A new object has a parent, and one reference. -/
theorem Sound.create (h : Sound extra s) (item : Item) :
    Sound extra
      { s with
        item := Function.update s.item s.fresh item
        hasParent := Function.update s.hasParent s.fresh true
        referenceCounter := Function.update s.referenceCounter s.fresh 1
        fresh := s.fresh + 1 } where
  once := h.once
  references := by
    intro y
    change Function.update s.referenceCounter s.fresh 1 y =
      extra y + (Function.update s.hasParent s.fresh true y).toNat + s.toReleaseItems.count y +
        s.occurrences y
    by_cases hy : y = s.fresh
    · subst hy
      rw [Function.update_self, Function.update_self, h.extra_fresh _ (le_refl _),
        List.count_eq_zero_of_not_mem (h.release_fresh _ (le_refl _)), h.lists_fresh _ (le_refl _)]
      rfl
    · rw [Function.update_of_ne hy, Function.update_of_ne hy]
      exact h.references y
  extra_fresh := fun y hy => h.extra_fresh y (Nat.le_of_succ_le hy)
  hasParent_fresh := by
    intro y hy
    exact (Function.update_of_ne (Nat.ne_of_gt hy) _ _).trans
      (h.hasParent_fresh y (Nat.le_of_succ_le hy))
  release_fresh := fun y hy => h.release_fresh y (Nat.le_of_succ_le hy)
  lists_fresh := fun y hy => h.lists_fresh y (Nat.le_of_succ_le hy)

/-- What a transformation leaves: the lists are the same, and what is returned is the item
itself or one that is in no list. -/
structure Transformed (extra : ItemRef → ℕ) (s : Decays) (x : ItemRef)
    (result : Option ItemRef × Decays) : Prop where
  sound : Sound extra result.2
  lists : ∀ y, result.2.occurrences y = s.occurrences y
  buckets : result.2.decayItems = s.decayItems
  item : ∀ y, result.1 = some y → y = x ∨ s.occurrences y = 0

theorem transformed_self (h : Sound extra s) : Transformed extra s x (some x, s) :=
  ⟨h, fun _ => rfl, rfl, fun _ hy => .inl (Option.some.inj hy).symm⟩

theorem transformed_none (h : Sound extra t) (hlists : ∀ y, t.occurrences y = s.occurrences y)
    (hbuckets : t.decayItems = s.decayItems) : Transformed extra s x (none, t) :=
  ⟨h, hlists, hbuckets, fun _ hy => nomatch hy⟩

theorem Sound.internalRemoveItem (h : Sound extra s) (env : Surroundings) (x : ItemRef) :
    Transformed extra s x (none, s.internalRemoveItem env x) := by
  unfold Decays.internalRemoveItem
  split
  · exact transformed_none h (fun _ => rfl) rfl
  · next hparent =>
      split
      · exact transformed_none h (fun _ => rfl) rfl
      · split
        · exact transformed_none h (fun _ => rfl) rfl
        · exact transformed_none (h.releaseParent (by simpa using hparent)) (fun _ => rfl) rfl

theorem Sound.replaceBy (h : Sound extra s) (hparent : s.hasParent x = true) (type count : ℕ) :
    Transformed extra s x (s.replaceBy types x type count) := by
  unfold Decays.replaceBy
  split
  · exact transformed_none h (fun _ => rfl) rfl
  · next newItem _ =>
      have hne : x ≠ s.fresh := Nat.ne_of_lt (h.lt_of_hasParent hparent)
      have hcreated := h.create newItem
      refine ⟨hcreated.releaseParent ?_, fun _ => rfl, rfl, fun y hy => .inr ?_⟩
      · exact (Function.update_of_ne hne _ _).trans hparent
      · obtain rfl := Option.some.inj hy
        exact h.lists_fresh _ (le_refl _)

theorem Sound.removeAndAdd (h : Sound extra s) (hparent : s.hasParent x = true) (newId : ℕ)
    (newCount : ℤ) : Transformed extra s x (s.removeAndAdd types env x newId newCount) := by
  unfold Decays.removeAndAdd
  extract_lets item item'
  have hset : Sound extra (s.setItem x item') := h.setItem x item'
  split
  · exact ⟨hset, fun _ => rfl, rfl, fun _ hy => .inl (Option.some.inj hy).symm⟩
  · exact transformed_none (hset.releaseParent hparent) (fun _ => rfl) rfl

theorem Sound.useUp (h : Sound extra s) (hparent : s.hasParent x = true)
    {again : Option ItemRef × Decays} (hagain : Transformed extra s x again) (newId : ℕ) :
    Transformed extra s x (s.useUp types env x again newId) := by
  unfold Decays.useUp
  extract_lets curType newItemId
  split
  · exact h.internalRemoveItem env x
  · split
    · exact h.internalRemoveItem env x
    · split
      · exact h.replaceBy hparent _ _
      · exact hagain

theorem Sound.transformWith (h : Sound extra s) {again : Option ItemRef × Decays}
    (hagain : Transformed extra s x again) (newId : ℕ) (newCount : ℤ) :
    Transformed extra s x (s.transformWith types env x again newId newCount) := by
  have hself : Transformed extra s x (some x, s) := transformed_self h
  unfold Decays.transformWith
  split
  · exact hself
  · split
    · exact transformed_none h (fun _ => rfl) rfl
    · next hparent =>
        have hparent : s.hasParent x = true := by simpa using hparent
        split
        · exact hself
        · split
          · exact hself
          · split
            · exact hself
            · split
              · exact h.removeAndAdd hparent newId newCount
              · split
                · split
                  · exact h.useUp hparent hagain newId
                  · exact ⟨h.setItem x _, fun _ => rfl, rfl,
                      fun _ hy => .inl (Option.some.inj hy).symm⟩
                · exact h.replaceBy hparent _ _

theorem Sound.transformItem (h : Sound extra s) (newId : ℕ) (newCount : ℤ) :
    Transformed extra s x (s.transformItem types env x newId newCount) :=
  h.transformWith (h.transformWith (transformed_self h) newId (-1)) newId newCount

/-! ## Putting items in and out -/

theorem Sound.lt_of_occurrences (h : Sound extra s) (hx : s.occurrences x ≠ 0) : x < s.fresh :=
  not_le.mp fun hle => hx (h.lists_fresh x hle)

theorem count_singleton_ne {x y : ItemRef} (h : y ≠ x) : [x].count y = 0 :=
  List.count_eq_zero_of_not_mem fun hmem => h (List.mem_singleton.mp hmem)

/-- `extra` with one reference more, which is on its way from the lists to the releases. -/
def loose (extra : ItemRef → ℕ) (x : ItemRef) : ItemRef → ℕ :=
  Function.update extra x (extra x + 1)

theorem loose_apply (extra : ItemRef → ℕ) (x y : ItemRef) :
    loose extra x y = extra y + [x].count y := by
  by_cases hy : y = x
  · subst hy
    rw [loose, Function.update_self, List.count_singleton_self]
  · rw [loose, Function.update_of_ne hy, count_singleton_ne hy]
    rfl

theorem Sound.erase (h : Sound extra s) {bucket : Fin EVENT_DECAY_BUCKETS}
    {kept rest : List ItemRef} (hbucket : s.decayItems bucket = kept ++ x :: rest) :
    Sound (loose extra x) (s.setBucket bucket (kept ++ rest)) ∧
      (s.setBucket bucket (kept ++ rest)).occurrences x = 0 := by
  have hlists (y : ItemRef) :
      (s.setBucket bucket (kept ++ rest)).occurrences y + [x].count y = s.occurrences y := by
    have hset := occurrences_setBucket (s := s) bucket (kept ++ rest) y
    rw [hbucket, List.count_append, List.count_cons, List.count_append] at hset
    rw [List.count_singleton]
    omega
  have hself := hlists x
  rw [List.count_singleton_self] at hself
  have honce := h.once x
  refine ⟨⟨⟨fun y => ?_, fun y => ?_⟩, fun y hy => ?_, h.hasParent_fresh, h.release_fresh,
    fun y hy => ?_⟩, by omega⟩
  · have hle := h.once y
    have heq := hlists y
    omega
  · rw [loose_apply]
    have href := h.references y
    have heq := hlists y
    change s.referenceCounter y = _ + (s.hasParent y).toNat + s.toReleaseItems.count y + _
    omega
  · have hlt : x < s.fresh := h.lt_of_occurrences (by omega)
    have hne : y ≠ x := Nat.ne_of_gt (Nat.lt_of_lt_of_le hlt hy)
    rw [loose_apply, count_singleton_ne hne]
    exact h.extra_fresh y hy
  · have heq := hlists y
    have hzero := h.lists_fresh y hy
    omega

theorem Sound.release (h : Sound (loose extra x) s) : Sound extra (s.ReleaseItem x) := by
  have hle (y : ItemRef) : s.fresh ≤ y → extra y = 0 ∧ [x].count y = 0 := by
    intro hy
    have hzero := h.extra_fresh y hy
    rw [loose_apply] at hzero
    omega
  refine ⟨⟨h.once, fun y => ?_⟩, fun y hy => (hle y hy).1, h.hasParent_fresh, fun y hy hmem => ?_,
    h.lists_fresh⟩
  · have href := h.references y
    rw [loose_apply] at href
    change s.referenceCounter y = extra y + (s.hasParent y).toNat +
      (s.toReleaseItems ++ [x]).count y + s.occurrences y
    rw [List.count_append]
    omega
  · obtain hmem | hmem := List.mem_append.mp hmem
    · exact h.release_fresh y hy hmem
    · exact List.count_eq_zero.mp (hle y hy).2 hmem

theorem Sound.place (h : Sound (loose extra x) s) (hx : s.occurrences x = 0)
    (toDecay : List ItemRef) (buckets : Fin EVENT_DECAY_BUCKETS → List ItemRef)
    (hlists : ∀ y, ({ s with toDecayItems := toDecay, decayItems := buckets } : Decays).occurrences y =
      s.occurrences y + [x].count y) :
    Sound extra { s with toDecayItems := toDecay, decayItems := buckets } := by
  have hle (y : ItemRef) : s.fresh ≤ y → extra y = 0 ∧ [x].count y = 0 := by
    intro hy
    have hzero := h.extra_fresh y hy
    rw [loose_apply] at hzero
    omega
  refine ⟨⟨fun y => ?_, fun y => ?_⟩, fun y hy => (hle y hy).1, h.hasParent_fresh,
    h.release_fresh, fun y hy => ?_⟩
  · rw [hlists]
    by_cases hy : y = x
    · rw [hy, hx, List.count_singleton_self]
    · rw [count_singleton_ne hy]
      exact h.once y
  · rw [hlists]
    have href := h.references y
    rw [loose_apply] at href
    dsimp only
    omega
  · rw [hlists, h.lists_fresh y hy, (hle y hy).2]

theorem Sound.push (h : Sound (loose extra x) s) (hx : s.occurrences x = 0)
    (bucket : Fin EVENT_DECAY_BUCKETS) : Sound extra (s.pushBucket x bucket) :=
  h.place hx s.toDecayItems _ fun _ => occurrences_pushBucket bucket

theorem Sound.incrementReferenceCounter (h : Sound extra s) (hx : x < s.fresh) :
    Sound (loose extra x) (s.incrementReferenceCounter x) := by
  refine ⟨⟨h.once, fun y => ?_⟩, fun y hy => ?_, h.hasParent_fresh, h.release_fresh, h.lists_fresh⟩
  · have href := h.references y
    change Function.update s.referenceCounter x (s.referenceCounter x + 1) y =
      loose extra x y + (s.hasParent y).toNat + s.toReleaseItems.count y + s.occurrences y
    rw [loose_apply]
    by_cases hy : y = x
    · subst hy
      rw [Function.update_self, List.count_singleton_self]
      omega
    · rw [Function.update_of_ne hy, count_singleton_ne hy]
      exact href
  · rw [loose_apply, count_singleton_ne (Nat.ne_of_gt (Nat.lt_of_lt_of_le hx hy))]
    exact h.extra_fresh y hy

theorem Sound.insert (h : Sound extra s) (hx : x < s.fresh) (hnot : s.occurrences x = 0) :
    Sound extra (s.insert x) := by
  have hset : Sound (loose extra x)
      ((s.incrementReferenceCounter x).setDecaying x DECAYING_TRUE) :=
    (h.incrementReferenceCounter hx).setItem x _
  refine hset.place hnot (x :: s.toDecayItems) s.decayItems fun y => ?_
  change (x :: s.toDecayItems).count y + ∑ bucket, (s.decayItems bucket).count y =
    s.toDecayItems.count y + ∑ bucket, (s.decayItems bucket).count y + [x].count y
  rw [List.count_cons, List.count_singleton]
  omega

/-! ## Decaying -/

/-- The item may decay, and is not known to be in the lists. -/
def Starts (types : ℕ → ItemType) (env : Surroundings) (s : Decays) (x : ItemRef) : Prop :=
  s.canDecay types env x = true ∧ s.getDecaying x ≠ DECAYING_TRUE

theorem hasParent_of_canDecay (h : s.canDecay types env x = true) : s.hasParent x = true := by
  unfold canDecay isRemoved at h
  simp only [Bool.and_eq_true, Bool.not_eq_true', Bool.or_eq_false_iff, Bool.not_eq_false'] at h
  exact h.1.1.1

theorem Sound.internalDecayItem (h : Sound extra s) (hx : s.occurrences x = 0)
    {start : Decays → ItemRef → Option Decays}
    (hstart : ∀ s y t, Sound extra s → s.occurrences y = 0 → start s y = some t →
      Sound extra t ∧ t.decayItems = s.decayItems)
    (ht : s.internalDecayItem types env x start = some t) :
    Sound extra t ∧ t.decayItems = s.decayItems := by
  unfold Decays.internalDecayItem at ht
  extract_lets it at ht
  split at ht
  · have htransformed : Transformed extra s x
        (s.transformItem types env x (it.decayTo % 65536).toNat (-1)) := h.transformItem _ _
    split at ht
    next newItem u heq =>
      rw [heq] at htransformed
      have hnot : u.occurrences newItem = 0 := by
        rw [htransformed.lists]
        obtain rfl | hzero := htransformed.item newItem rfl
        · exact hx
        · exact hzero
      obtain ⟨hsound, hbuckets⟩ := hstart u newItem t htransformed.sound hnot ht
      exact ⟨hsound, hbuckets.trans htransformed.buckets⟩
    next u heq =>
      rw [heq] at htransformed
      obtain rfl := Option.some.inj ht
      exact ⟨htransformed.sound, htransformed.buckets⟩
  · obtain rfl := Option.some.inj ht
    have hremoved := h.internalRemoveItem env x
    exact ⟨hremoved.sound, hremoved.buckets⟩

/-- An item that decays again is in no list. -/
theorem Sound.startDecay (h : Sound extra s) (hx : Starts types env s x → s.occurrences x = 0)
    {fuel : ℕ} (ht : Decays.startDecay types env fuel s x = some t) :
    Sound extra t ∧ t.decayItems = s.decayItems := by
  induction fuel generalizing s x t with
  | zero => exact nomatch ht
  | succ fuel ih =>
    rw [Decays.startDecay] at ht
    split at ht
    next =>
      obtain rfl := Option.some.inj ht
      exact ⟨h, rfl⟩
    next hcan =>
      have hcan : s.canDecay types env x = true := by simpa using hcan
      split at ht
      next =>
        obtain rfl := Option.some.inj ht
        exact ⟨h, rfl⟩
      next hstate =>
        have hnot := hx ⟨hcan, hstate⟩
        split at ht
        next =>
          obtain rfl := Option.some.inj ht
          exact ⟨h.insert (h.lt_of_hasParent (hasParent_of_canDecay hcan)) hnot, rfl⟩
        next =>
          refine h.internalDecayItem hnot (fun s y t hs hy ht => ?_) ht
          exact ih hs (fun _ => hy) ht

theorem Sound.checkLoop {fuel : ℕ} {bucket : Fin EVENT_DECAY_BUCKETS} {kept rest : List ItemRef}
    (h : Sound extra s) (hbucket : s.decayItems bucket = kept ++ rest)
    (ht : Decays.checkLoop types env fuel bucket kept rest s = some t) : Sound extra t := by
  induction rest generalizing kept s with
  | nil =>
    obtain rfl := Option.some.inj ht
    exact h
  | cons x rest ih =>
    rw [Decays.checkLoop] at ht
    split at ht
    next =>
      have hset : Sound extra (s.setDecaying x DECAYING_FALSE) := h.setItem x _
      exact ih (hset.erase hbucket).1.release (Function.update_self _ _ _) ht
    next =>
      extract_lets duration decreaseTime left s' decay at ht
      have hset : Sound extra s' := h.setItem x _
      obtain ⟨herased, hnot⟩ := hset.erase hbucket
      have hdecay (h : decay (s'.setBucket bucket (kept ++ rest)) = some t) : Sound extra t := by
        obtain ⟨u, hu, ht⟩ := Option.bind_eq_some_iff.mp h
        obtain ⟨hsound, hbuckets⟩ := herased.internalDecayItem hnot
          (fun s y t hs hy ht => hs.startDecay (fun _ => hy) ht) hu
        refine ih hsound.release ?_ ht
        exact (congrFun hbuckets bucket).trans (Function.update_self _ _ _)
      split at ht
      · exact hdecay ht
      · split at ht
        · split at ht
          · exact hdecay ht
          · next hne =>
              refine ih (herased.push hnot _) ?_ ht
              exact (Function.update_of_ne (Ne.symm hne) _ _).trans (Function.update_self _ _ _)
        · refine ih hset ?_ ht
          exact hbucket.trans (List.append_cons kept x rest)

theorem cleanupLoop_eq (list : List ItemRef) (s : Decays) :
    (∃ buckets, cleanupLoop list s = { s with decayItems := buckets }) ∧
      ∀ y, (cleanupLoop list s).occurrences y = s.occurrences y + list.count y := by
  induction list generalizing s with
  | nil => exact ⟨⟨s.decayItems, rfl⟩, fun _ => rfl⟩
  | cons x list ih =>
    obtain ⟨⟨buckets, heq⟩, hlists⟩ := ih (s.pushBucket x (s.decayBucket x))
    refine ⟨⟨buckets, heq⟩, fun y => ?_⟩
    rw [cleanupLoop, hlists, occurrences_pushBucket, List.count_singleton, List.count_cons]
    omega

theorem Sound.cleanup (h : Sound extra s) : Sound extra s.cleanup := by
  obtain ⟨⟨buckets, heq⟩, hlists⟩ := cleanupLoop_eq s.toDecayItems s.releaseItems
  have hsame (y : ItemRef) :
      ({ s.releaseItems with decayItems := buckets, toDecayItems := [] } : Decays).occurrences y =
        s.occurrences y := by
    have hy := hlists y
    rw [heq] at hy
    change s.toDecayItems.count y + ∑ bucket, (buckets bucket).count y =
      s.occurrences y + s.toDecayItems.count y at hy
    change ([] : List ItemRef).count y + ∑ bucket, (buckets bucket).count y = _
    rw [List.count_nil]
    omega
  rw [Decays.cleanup, heq]
  refine ⟨⟨fun y => ?_, fun y => ?_⟩, h.extra_fresh, h.hasParent_fresh,
    fun _ _ hmem => (nomatch hmem), fun y hy => ?_⟩
  · rw [hsame]
    exact h.once y
  · have href := h.references y
    rw [hsame]
    change s.referenceCounter y - s.toReleaseItems.count y =
      extra y + (s.hasParent y).toNat + ([] : List ItemRef).count y + s.occurrences y
    rw [List.count_nil]
    omega
  · rw [hsame]
    exact h.lists_fresh y hy

theorem Sound.checkDecay (h : Sound extra s) {fuel : ℕ}
    (ht : s.checkDecay types env fuel = some t) : Sound extra t := by
  obtain ⟨u, hu, rfl⟩ := Option.map_eq_some_iff.mp ht
  have hbucket : s.decayItems (s.lastBucket + 1) = [] ++ s.decayItems (s.lastBucket + 1) := rfl
  have hu' : Sound extra u := h.checkLoop hbucket hu
  have hlast : Sound extra { u with lastBucket := s.lastBucket + 1 } :=
    ⟨⟨hu'.once, hu'.references⟩, hu'.extra_fresh, hu'.hasParent_fresh, hu'.release_fresh,
      hu'.lists_fresh⟩
  exact hlast.cleanup

/-! ## Every run -/

/-- The condition on an operation: what `startDecay` starts is not in the lists already. -/
def StartsUnlisted (types : ℕ → ItemType) (s : Decays) : DecayAction → Prop
  | .startDecay env item => Starts types env s item → s.occurrences item = 0
  | _ => True

theorem Sound.step (h : Sound extra s) {fuel : ℕ} {action : DecayAction}
    (hmeets : s.StartsUnlisted types action) (ht : s.step types fuel action = some t) :
    Sound extra t := by
  cases action with
  | startDecay env item => exact (h.startDecay hmeets ht).1
  | checkDecay env => exact h.checkDecay ht
  | cleanup =>
    obtain rfl := Option.some.inj ht
    exact h.cleanup
  | transformItem env item newId newCount =>
    obtain rfl := Option.some.inj ht
    exact (h.transformItem newId newCount).sound
  | internalRemoveItem env item =>
    obtain rfl := Option.some.inj ht
    exact (h.internalRemoveItem env item).sound

/-- The lists are empty and nothing is to be released. -/
structure Quiet (s : Decays) : Prop where
  toDecayItems : s.toDecayItems = []
  decayItems : ∀ bucket, s.decayItems bucket = []
  toReleaseItems : s.toReleaseItems = []
  parent : ∀ x, s.hasParent x = true → x < s.fresh ∧ 0 < s.referenceCounter x
  unborn : ∀ x, s.fresh ≤ x → s.referenceCounter x = 0

/-- The references that neither a parent nor the lists hold. -/
def others (s : Decays) (x : ItemRef) : ℕ := s.referenceCounter x - (s.hasParent x).toNat

theorem Quiet.sound (h : Quiet s) : Sound s.others s := by
  have hlists (y : ItemRef) : s.occurrences y = 0 := by
    unfold occurrences
    simp only [h.toDecayItems, h.decayItems, List.count_nil, Finset.sum_const_zero, Nat.add_zero]
  have hparent (y : ItemRef) (hy : s.fresh ≤ y) : s.hasParent y = false :=
    Bool.eq_false_iff.mpr fun heq => absurd (h.parent y heq).1 (not_lt.mpr hy)
  refine ⟨⟨fun y => ?_, fun y => ?_⟩, fun y hy => ?_, hparent, fun y _ hmem => ?_,
    fun y _ => hlists y⟩
  · rw [hlists]
    exact Nat.zero_le 1
  · rw [hlists, h.toReleaseItems, others, List.count_nil]
    cases heq : s.hasParent y with
    | false => rfl
    | true =>
      have hpos := (h.parent y heq).2
      rw [Bool.toNat_true]
      omega
  · rw [others, h.unborn y hy, Nat.zero_sub]
  · rw [h.toReleaseItems] at hmem
    exact nomatch hmem

end Decays

/-- Types that decay after a minute. -/
def torches (id : ℕ) : ItemType where
  id := id
  decayTime := 60
  decayTo := 0
  stackable_plain h := absurd h Bool.false_ne_true
  floorChange_byte := Tiles.no_floorChange_byte

/-- A torch on the ground. -/
def torch : Decays where
  item _ := Item.ofType torches 1 1 .Item
  hasParent x := x = 0
  referenceCounter x := if x = 0 then 1 else 0
  fresh := 1

theorem quiet_torch : torch.Quiet where
  toDecayItems := rfl
  decayItems _ := rfl
  toReleaseItems := rfl
  parent := by
    intro x hx
    obtain rfl : x = 0 := of_decide_eq_true hx
    decide
  unborn x hx := if_neg (Nat.ne_of_gt hx)

end TibiaServer.Game
