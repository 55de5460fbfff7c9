import Mathlib.Algebra.Order.BigOperators.Group.Finset
import TibiaServer.Game.Strips
/-!
# Removing items by type

`Player::removeItemOfType` is exact where what it takes holds nothing that stays.  A container
of the id that is taken out goes with all that is in it, and one that is worn is not looked into,
although `getItemTypeCount` counts what is in it.
-/

namespace TibiaServer.Game

open TibiaServer.Cylinders
open TibiaServer.Library
open ReturnValue

/-- What the answer and the state after it promise. -/
structure RemovesExactly (s : State) (p : PlayerRef) (itemId amount : ℕ) (subType : ℤ)
    (ret : Bool) (t : State) : Prop where
  answer : ret = true ↔ amount ≤ s.playerItemTypeCount p itemId subType
  units : ret = true →
    (t.countOf fun y => t.carries p y && s.isOfType itemId subType y) + amount =
      s.carriedCount p itemId subType
  others : ret = true → ∀ y, s.carries p y = true → s.isOfType itemId subType y = false →
    t.carries p y = true ∧ (t.item y).id = (s.item y).id ∧ t.getItemCount y = s.getItemCount y
  unchanged : ret = false → t = s

/-- What a player carries can be taken from him, and what does not stack counts as one. -/
structure Portable (s : State) (p : PlayerRef) (houseBed : ItemRef → Bool) : Prop where
  removable : ∀ y, s.carries p y = true → Removable s y (houseBed y)
  count : ∀ y, s.carries p y = true → s.isStackable y = false → s.getItemCount y = 1

/-- The items found first, as many as it takes. -/
def takenItems (s : State) (p : PlayerRef) (itemId amount : ℕ) (subType : ℤ) : List ItemRef :=
  upTo s.getItemCount amount (s.foundItems p itemId subType)

/-- What is to be taken is found, and nothing else stands in it. -/
def TakesAlone (s : State) (p : PlayerRef) (itemId amount : ℕ) (subType : ℤ) : Prop :=
  amount ≤ ((s.foundItems p itemId subType).map s.getItemCount).sum ∧
    ∀ y ∈ takenItems s p itemId amount subType, ∀ z ∈ s.iterator y,
      z ∈ takenItems s p itemId amount subType

variable {s t v : State} {p : PlayerRef} {itemId amount : ℕ} {subType : ℤ} {l : List ItemRef}
  {y : ItemRef} {houseBed : ItemRef → Bool}

/-! ## Units -/

theorem countOf_eq_sum (s : State) (P : ItemRef → Bool) :
    s.countOf P = ∑ y ∈ (Finset.range s.fresh).filter fun y => P y = true, s.getItemCount y := by
  rw [Finset.sum_filter]
  rfl

/-- What is left and what is gone are no more than there was. -/
theorem countOf_le (hs : Forest s) (hfresh : t.fresh = s.fresh)
    (hcount : ∀ y, t.getItemCount y = s.getItemCount y) (hl : l.Nodup)
    (hgone : ∀ y ∈ l, s.carries p y = true ∧ s.isOfType itemId subType y = true)
    (hleft : ∀ y, t.carries p y = true → s.carries p y = true ∧ y ∉ l) :
    (t.countOf fun y => t.carries p y && s.isOfType itemId subType y) +
      (l.map s.getItemCount).sum ≤ s.carriedCount p itemId subType := by
  rw [State.carriedCount, countOf_eq_sum, countOf_eq_sum, ← List.sum_toFinset _ hl, hfresh,
    Finset.sum_congr rfl fun y _ => hcount y, ← Finset.sum_union]
  · apply Finset.sum_le_sum_of_subset
    intro y hy
    rw [Finset.mem_filter, Finset.mem_range, Bool.and_eq_true]
    rcases Finset.mem_union.mp hy with hy | hy
    · rw [Finset.mem_filter, Finset.mem_range, Bool.and_eq_true] at hy
      exact ⟨hy.1, (hleft y hy.2.1).1, hy.2.2⟩
    · obtain ⟨hcarries, htype⟩ := hgone y (List.mem_toFinset.mp hy)
      exact ⟨hs.lt_fresh_of_carries hcarries, hcarries, htype⟩
  · rw [Finset.disjoint_left]
    intro y hy hmem
    rw [Finset.mem_filter, Bool.and_eq_true] at hy
    exact (hleft y hy.2.1).2 (List.mem_toFinset.mp hmem)

/-- Where all else is left, what is left and what is gone are what there was. -/
theorem countOf_eq (hs : Forest s) (hfresh : t.fresh = s.fresh)
    (hcount : ∀ y, t.getItemCount y = s.getItemCount y) (hl : l.Nodup)
    (hgone : ∀ y ∈ l, s.carries p y = true ∧ s.isOfType itemId subType y = true)
    (hleft : ∀ y, t.carries p y = true ↔ s.carries p y = true ∧ y ∉ l) :
    (t.countOf fun y => t.carries p y && s.isOfType itemId subType y) +
      (l.map s.getItemCount).sum = s.carriedCount p itemId subType := by
  refine (countOf_le hs hfresh hcount hl hgone fun y => (hleft y).mp).antisymm ?_
  rw [State.carriedCount, countOf_eq_sum, countOf_eq_sum, ← List.sum_toFinset _ hl, hfresh,
    Finset.sum_congr rfl (fun y _ => hcount y), ← Finset.sum_union]
  · apply Finset.sum_le_sum_of_subset
    intro y hy
    rw [Finset.mem_filter, Finset.mem_range, Bool.and_eq_true] at hy
    rw [Finset.mem_union, List.mem_toFinset, Finset.mem_filter, Finset.mem_range,
      Bool.and_eq_true, hleft]
    by_cases hmem : y ∈ l
    · exact .inr hmem
    · exact .inl ⟨hy.1, ⟨hy.2.1, hmem⟩, hy.2.2⟩
  · rw [Finset.disjoint_left]
    intro y hy hmem
    rw [Finset.mem_filter, Bool.and_eq_true] at hy
    exact ((hleft y).mp hy.2.1).2 (List.mem_toFinset.mp hmem)

/-! ## A part of a stack -/

theorem internalRemoveItem_part {n : ℕ} {c : Cylinder} (hv : Forest v) (hy : y ∈ v.contents c)
    (hremovable : Removable v y (houseBed y)) (hstack : v.isStackable y = true)
    (hbyte : v.getItemCount y < 256) (hpos : 0 < n) (hless : n < v.getItemCount y) :
    ∃ t, (internalRemoveItem v y n false {} (houseBed y)).2 = t ∧ t.fresh = v.fresh ∧
      (∀ z, t.carries p z = v.carries p z) ∧ (∀ z, (t.item z).id = (v.item z).id) ∧
      (∀ z, z ≠ y → t.getItemCount z = v.getItemCount z) ∧
      t.getItemCount y = v.getItemCount y - n := by
  have hcount : (if (n : ℤ) = -1 then v.getItemCount y else ((n : ℤ) % 4294967296).toNat) = n := by
    rw [if_neg (by omega)]
    omega
  have heq := internalRemoveItem_eq hv hy hremovable hcount (by omega) hless.le
  refine ⟨_, rfl, ?_⟩
  rw [heq]
  have hplaces := (State.removeThing_part hv.toLayered hy ⟨hstack, hless.ne⟩).trans
    (State.samePlaces_postNotification (v.removeThing c y n) c)
  have ht := (hv.removeThing c y n).postNotification c
  rw [v.remainingCount_of_le hless.le hbyte] at hplaces
  generalize (v.removeThing c y n).postNotification c = t at hplaces ht
  have hcontents : ∀ c', t.contents c' = v.contents c' := fun c' =>
    (hplaces.contents c').trans (v.contents_setCount y _ c')
  refine ⟨hplaces.fresh, fun z => hv.carries_of_contents ht (fun x => hcontents _) (hcontents _) z,
    fun z => ?_, fun z hz => ?_, ?_⟩
  · rw [hplaces.id]
    by_cases hz : z = y
    · subst hz
      simp [State.setCount, State.modifyItem, State.setItem]
    · simp [State.setCount, State.modifyItem, State.setItem, hz]
  · unfold State.getItemCount
    rw [hplaces.count]
    simp [State.setCount, State.modifyItem, State.setItem, hz]
  · have hset : ((v.setCount y (v.getItemCount y - n)).item y).count =
        (v.getItemCount y - n) % 256 := by
      simp [State.setCount, State.modifyItem, State.setItem, Item.setItemCount]
    exact ((hplaces.count y).trans hset).trans (Nat.mod_eq_of_lt (by omega))

theorem countOf_part {n : ℕ} {P Q : ItemRef → Bool} (hfresh : t.fresh = v.fresh)
    (hP : ∀ z, Q z = P z) (hothers : ∀ z, z ≠ y → t.getItemCount z = v.getItemCount z)
    (hself : t.getItemCount y + n = v.getItemCount y) (hy : P y = true) (hlt : y < v.fresh) :
    t.countOf Q + n = v.countOf P := by
  have hmem : y ∈ Finset.range v.fresh := Finset.mem_range.mpr hlt
  unfold State.countOf
  rw [hfresh, ← Finset.add_sum_erase _ _ hmem, ← Finset.add_sum_erase (Finset.range v.fresh)
    (fun z => if P z = true then v.getItemCount z else 0) hmem, hP, if_pos hy, if_pos hy]
  have hrest : ∑ z ∈ (Finset.range v.fresh).erase y, (if Q z = true then t.getItemCount z else 0) =
      ∑ z ∈ (Finset.range v.fresh).erase y, if P z = true then v.getItemCount z else 0 := by
    apply Finset.sum_congr rfl
    intro z hz
    rw [hothers z (Finset.ne_of_mem_erase hz), hP]
  rw [hrest]
  omega

/-! ## What is taken -/

theorem stands_of_carries (hs : Forest s) (h : s.carries p y = true) : ∃ c, y ∈ s.contents c := by
  obtain ⟨x, hx, hyx⟩ := hs.carries_iff.mp h
  rcases Relation.ReflTransGen.cases_head hyx with rfl | ⟨z, hz, -⟩
  · exact ⟨_, hx⟩
  · exact ⟨.container z, hz⟩

theorem within_iff (hs : Forest s) {z : ItemRef} : s.Within z y ↔ z = y ∨ z ∈ s.iterator y := by
  rw [State.Within, Relation.reflTransGen_iff_eq_or_transGen, (hs.iterator_spec y).2, @eq_comm _ y]

theorem carries_of_within (hs : Forest s) {z : ItemRef} (h : s.carries p y = true)
    (hz : s.Within z y) : s.carries p z = true := by
  obtain ⟨x, hx, hyx⟩ := hs.carries_iff.mp h
  exact hs.carries_iff.mpr ⟨x, hx, hz.trans hyx⟩

theorem takenItems_spec (hs : Forest s) (p : PlayerRef) (itemId amount : ℕ) (subType : ℤ) :
    (takenItems s p itemId amount subType).Nodup ∧
    ∀ y ∈ takenItems s p itemId amount subType,
      s.carries p y = true ∧ s.isFound itemId subType y = true := by
  obtain ⟨hnodup, hmem⟩ : (s.foundItems p itemId subType).Nodup ∧ _ := hs.foundItems_spec
  exact ⟨hnodup.sublist upTo_prefix.sublist, fun y hy => hmem y (mem_of_mem_upTo hy)⟩

theorem isOfType_of_found (h : s.isFound itemId subType y = true) :
    s.isOfType itemId subType y = true := by
  unfold State.isFound at h
  exact (Bool.and_eq_true_iff.mp h).1

theorem id_of_type (h : s.isOfType itemId subType y = true) : (s.item y).id = itemId := by
  unfold State.isOfType at h
  simpa using (Bool.and_eq_true_iff.mp h).1

theorem isStackable_of_type (h : s.isOfType itemId subType y = true) :
    s.isStackable y = (s.items itemId).stackable := by
  unfold State.isStackable State.typeOf
  rw [id_of_type h]

theorem ready_of_found (hs : Forest s) (hp : Portable s p houseBed)
    (hcarries : s.carries p y = true) (hfound : s.isFound itemId subType y = true) :
    Ready s houseBed y :=
  ⟨stands_of_carries hs hcarries, hp.removable y hcarries, State.getItemCount_of_found hfound⟩

/-- A list of items that nothing else stands in takes just these. -/
theorem Strips.carries_iff_of_closed (hs : Forest s) (h : Strips s t fun z => z ∈ l)
    (hclosed : ∀ y ∈ l, ∀ z ∈ s.iterator y, z ∈ l) (y : ItemRef) :
    t.carries p y = true ↔ s.carries p y = true ∧ y ∉ l := by
  refine ⟨h.carries_of_strips hs, fun ⟨hcarries, hnot⟩ => ?_⟩
  refine h.carries_of_stays hs (fun w hw hmem => hnot ?_) hcarries
  rcases (within_iff hs).mp hw with rfl | hin
  · exact hmem
  · exact hclosed w hmem y hin

/-! ## Stacks -/

theorem iterator_of_stack (hw : Stocked s) (hstack : s.isStackable y = true) :
    s.iterator y = [] := by
  apply State.iterator_of_plain
  apply Bool.eq_false_iff.mpr
  intro hcontainer
  rw [(hw.plain y hcontainer).2] at hstack
  exact Bool.noConfusion hstack

section Stacks

variable (subType) (hs : Forest s) (hw : Stocked s) (hp : Portable s p houseBed)
  (hstackable : (s.items itemId).stackable = true) (hamount : 0 < amount)
  (hle : amount ≤ ((s.foundItems p itemId subType).map s.getItemCount).sum)

include hs hw hp hstackable hamount hle

theorem stacks_removed :
    ∃ t, internalRemoveItems s (takenItems s p itemId amount subType) amount true houseBed = t ∧
      (t.countOf fun y => t.carries p y && s.isOfType itemId subType y) + amount =
        s.carriedCount p itemId subType ∧
      ∀ y, s.carries p y = true → s.isOfType itemId subType y = false →
        t.carries p y = true ∧ (t.item y).id = (s.item y).id ∧
          t.getItemCount y = s.getItemCount y := by
  obtain ⟨hnodup, hfound⟩ : (s.foundItems p itemId subType).Nodup ∧ _ := hs.foundItems_spec
  have hready : ∀ y ∈ s.foundItems p itemId subType, Ready s houseBed y := fun y hy =>
    ready_of_found hs hp (hfound y hy).1 (hfound y hy).2
  have hstack : ∀ y ∈ s.foundItems p itemId subType, s.isStackable y = true := fun y hy =>
    (isStackable_of_type (isOfType_of_found (hfound y hy).2)).trans hstackable
  have hgone : ∀ l : List ItemRef, (∀ y ∈ l, y ∈ s.foundItems p itemId subType) →
      (∀ y ∈ l, s.carries p y = true ∧ s.isOfType itemId subType y = true) ∧
        ∀ y ∈ l, ∀ z ∈ s.iterator y, z ∈ l := by
    refine fun l hl => ⟨fun y hy => ?_, fun y hy z hz => ?_⟩
    · exact ⟨(hfound y (hl y hy)).1, isOfType_of_found (hfound y (hl y hy)).2⟩
    · rw [iterator_of_stack hw (hstack y (hl y hy))] at hz
      exact absurd hz List.not_mem_nil
  have hothers : ∀ {l : List ItemRef} {v : State}, (∀ y ∈ l, y ∈ s.foundItems p itemId subType) →
      Strips s v (fun z => z ∈ l) → ∀ y, s.carries p y = true →
      s.isOfType itemId subType y = false → v.carries p y = true := by
    intro l v hl h y hcarries hother
    refine (h.carries_iff_of_closed hs (hgone l hl).2 y).mpr ⟨hcarries, fun hmem => ?_⟩
    rw [((hgone l hl).1 y hmem).2] at hother
    exact Bool.noConfusion hother
  refine ⟨_, rfl, ?_⟩
  unfold internalRemoveItems
  rw [if_pos rfl]
  rcases strips_removeStacks (Strips.refl hs) hnodup hready (fun _ _ => not_false) hamount hle with
    ⟨hstrips, hsum⟩ | ⟨whole, v, y, n, heq, hstrips, hy, -, hnot, hn, hless, hsum, hrun⟩
  · simp only [false_or] at hstrips
    have hall : ∀ y ∈ takenItems s p itemId amount subType, y ∈ s.foundItems p itemId subType :=
      fun y hy => mem_of_mem_upTo hy
    have hunits := countOf_eq hs hstrips.fresh hstrips.count
      (hnodup.sublist upTo_prefix.sublist) (hgone _ hall).1
      (hstrips.carries_iff_of_closed hs (hgone _ hall).2)
    rw [hsum] at hunits
    exact ⟨hunits, fun z hz hother => ⟨hothers hall hstrips z hz hother, hstrips.id z,
      hstrips.count z⟩⟩
  · simp only [false_or] at hstrips
    have hall : ∀ z ∈ whole, z ∈ s.foundItems p itemId subType := fun z hz =>
      mem_of_mem_upTo (heq ▸ List.mem_append_left [y] hz)
    have hwhole : whole.Nodup :=
      (hnodup.sublist upTo_prefix.sublist).sublist (heq ▸ List.sublist_append_left whole [y])
    have hclosed := hstrips.carries_iff_of_closed (p := p) hs (hgone _ hall).2
    have hunits := countOf_eq hs hstrips.fresh hstrips.count hwhole (hgone _ hall).1 hclosed
    have hcarries := (hclosed y).mpr ⟨(hfound y hy).1, hnot⟩
    obtain ⟨⟨c, hc⟩, hremovable, -⟩ := hstrips.ready (hready y hy) hnot
    have hstackv : v.isStackable y = true := by
      have hsame := hstack y hy
      unfold State.isStackable State.typeOf at *
      rwa [hstrips.items, hstrips.id]
    have hbyte : v.getItemCount y < 256 := by
      obtain ⟨c', hc'⟩ := (hready y hy).stands
      have hsmall := (hw.count c' y hc' (hstack y hy)).2
      rw [hstrips.count]
      omega
    have hlessv : n < v.getItemCount y := by
      rw [hstrips.count]
      exact hless
    obtain ⟨t, ht, hfresh, hsame, hid, hothersv, hself⟩ :=
      internalRemoveItem_part hstrips.forest hc hremovable hstackv hbyte hn hlessv
    have hless' : t.getItemCount y + n = v.getItemCount y := by omega
    have hpart := countOf_part (P := fun z => v.carries p z && s.isOfType itemId subType z)
      (Q := fun z => t.carries p z && s.isOfType itemId subType z) hfresh
      (fun z => by rw [hsame z]) hothersv hless'
      (by rw [hcarries, isOfType_of_found (hfound y hy).2]; rfl)
      (hstrips.forest.lt_fresh_of_carries hcarries)
    rw [takenItems, hrun, ht]
    refine ⟨by omega, fun z hz hother => ?_⟩
    have hne : z ≠ y := by
      rintro rfl
      rw [isOfType_of_found (hfound z hy).2] at hother
      exact Bool.noConfusion hother
    exact ⟨(hsame z).trans (hothers hall hstrips z hz hother), (hid z).trans (hstrips.id z),
      (hothersv z hne).trans (hstrips.count z)⟩

end Stacks

/-! ## Single items -/

section Each

variable (subType) (hs : Forest s) (hp : Portable s p houseBed)
  (hplain : (s.items itemId).stackable = false) (hamount : 0 < amount)
  (hle : amount ≤ ((s.foundItems p itemId subType).map s.getItemCount).sum)

include hp hplain in
theorem getItemCount_of_plain (hcarries : s.carries p y = true)
    (htype : s.isOfType itemId subType y = true) : s.getItemCount y = 1 :=
  hp.count y hcarries ((isStackable_of_type htype).trans hplain)

include hs hp hplain hamount hle

theorem sum_takenItems :
    ((takenItems s p itemId amount subType).map s.getItemCount).sum = amount := by
  obtain ⟨-, hfound⟩ : (s.foundItems p itemId subType).Nodup ∧ _ := hs.foundItems_spec
  refine sum_upTo_of_one (fun y hy => ?_) hamount hle
  exact getItemCount_of_plain subType hp hplain (hfound y hy).1 (isOfType_of_found (hfound y hy).2)

variable (itemId amount) in
omit hplain hamount hle in
theorem strips_taken :
    Strips s (removeEach houseBed (takenItems s p itemId amount subType) s)
      fun z => z ∈ takenItems s p itemId amount subType := by
  obtain ⟨hnodup, htaken⟩ := takenItems_spec hs p itemId amount subType
  have hstrips := strips_removeEach (Strips.refl hs) hnodup
    (fun y hy => ready_of_found hs hp (htaken y hy).1 (htaken y hy).2) fun _ _ => not_false
  simpa only [false_or] using hstrips

/-- What is in a removed item and is not removed itself is lost with it. -/
theorem each_removed_iff :
    ∃ t, internalRemoveItems s (takenItems s p itemId amount subType) amount false houseBed = t ∧
      (((t.countOf fun y => t.carries p y && s.isOfType itemId subType y) + amount =
          s.carriedCount p itemId subType ∧
        ∀ y, s.carries p y = true → s.isOfType itemId subType y = false →
          t.carries p y = true ∧ (t.item y).id = (s.item y).id ∧
            t.getItemCount y = s.getItemCount y) ↔
      ∀ y ∈ takenItems s p itemId amount subType, ∀ z ∈ s.iterator y,
        z ∈ takenItems s p itemId amount subType) := by
  refine ⟨_, rfl, ?_⟩
  have hstrips := strips_taken itemId amount subType hs hp
  have hsum := sum_takenItems subType hs hp hplain hamount hle
  obtain ⟨hnodup, htaken⟩ := takenItems_spec hs p itemId amount subType
  have htype : ∀ y ∈ takenItems s p itemId amount subType,
      s.carries p y = true ∧ s.isOfType itemId subType y = true := fun y hy =>
    ⟨(htaken y hy).1, isOfType_of_found (htaken y hy).2⟩
  rw [internalRemoveItems, if_neg Bool.false_ne_true]
  generalize removeEach houseBed (takenItems s p itemId amount subType) s = t at hstrips
  constructor
  · rintro ⟨hunits, hothers⟩ y hy z hz
    by_contra hnot
    have hin := (within_iff hs).mpr (Or.inr hz)
    have hcarries := carries_of_within hs (htype y hy).1 hin
    have hgone := hstrips.not_carries_of_gone (p := p) hs hy hin
    cases hz : s.isOfType itemId subType z with
    | false => exact hgone (hothers z hcarries hz).1
    | true =>
      have hone := getItemCount_of_plain subType hp hplain hcarries hz
      have hless := countOf_le (l := z :: takenItems s p itemId amount subType) hs hstrips.fresh
        hstrips.count (List.nodup_cons.mpr ⟨hnot, hnodup⟩)
        (List.forall_mem_cons.mpr ⟨⟨hcarries, hz⟩, htype⟩)
        (fun w hw => ⟨(hstrips.carries_of_strips hs hw).1, fun hmem => by
          rcases List.mem_cons.mp hmem with rfl | hmem
          · exact hgone hw
          · exact (hstrips.carries_of_strips hs hw).2 hmem⟩)
      rw [List.map_cons, List.sum_cons, hsum, hone] at hless
      omega
  · intro hclosed
    have hcarries := hstrips.carries_iff_of_closed (p := p) hs hclosed
    have hunits := countOf_eq hs hstrips.fresh hstrips.count hnodup htype hcarries
    rw [hsum] at hunits
    refine ⟨hunits, fun y hy hother => ⟨(hcarries y).mpr ⟨hy, fun hmem => ?_⟩, hstrips.id y,
      hstrips.count y⟩⟩
    rw [(htype y hmem).2] at hother
    exact Bool.noConfusion hother

end Each

/-! ## The whole call -/

theorem playerRemoveItemOfType_enough (hamount : 0 < amount)
    (hle : amount ≤ ((s.foundItems p itemId subType).map s.getItemCount).sum)
    (hwrap : ((s.foundItems p itemId subType).map s.getItemCount).sum < 4294967296) :
    playerRemoveItemOfType s p itemId amount subType false houseBed =
      (true, internalRemoveItems s (takenItems s p itemId amount subType) amount
        (s.items itemId).stackable houseBed) := by
  unfold playerRemoveItemOfType
  rw [if_neg hamount.ne', State.collectSlots_found hamount hwrap, if_pos hle]
  rfl

theorem playerRemoveItemOfType_more (hamount : 0 < amount)
    (hless : ((s.foundItems p itemId subType).map s.getItemCount).sum < amount)
    (hwrap : ((s.foundItems p itemId subType).map s.getItemCount).sum < 4294967296) :
    playerRemoveItemOfType s p itemId amount subType false houseBed = (false, s) := by
  unfold playerRemoveItemOfType
  rw [if_neg hamount.ne', State.collectSlots_found hamount hwrap, if_neg (by omega)]

theorem removesExactly_zero (s : State) (p : PlayerRef) (itemId : ℕ) (subType : ℤ) :
    RemovesExactly s p itemId 0 subType true s where
  answer := ⟨fun _ => Nat.zero_le _, fun _ => rfl⟩
  units _ := rfl
  others _ _ hy _ := ⟨hy, rfl, rfl⟩
  unchanged h := Bool.noConfusion h

/-- The units asked for go and nothing else, except where too few of those that are counted are
found or something stands in what is taken. -/
theorem removesExactly_iff (hs : Forest s) (hw : Stocked s) (hp : Portable s p houseBed)
    (hwrap : s.carriedCount p itemId subType < 4294967296) {ret : Bool}
    (hrun : playerRemoveItemOfType s p itemId amount subType false houseBed = (ret, t)) :
    RemovesExactly s p itemId amount subType ret t ↔
      amount = 0 ∨ s.carriedCount p itemId subType < amount ∨
        TakesAlone s p itemId amount subType := by
  have hfound : ((s.foundItems p itemId subType).map s.getItemCount).sum ≤
      s.carriedCount p itemId subType := hs.sum_foundItems_le
  have hcounted : s.playerItemTypeCount p itemId subType = s.carriedCount p itemId subType := by
    rw [hs.playerItemTypeCount_carried, Nat.mod_eq_of_lt hwrap]
  rcases Nat.eq_zero_or_pos amount with rfl | hamount
  · obtain ⟨rfl, rfl⟩ := Prod.mk.inj hrun
    exact iff_of_true (removesExactly_zero s p itemId subType) (.inl rfl)
  · rcases lt_or_ge ((s.foundItems p itemId subType).map s.getItemCount).sum amount with hless | hle
    · rw [playerRemoveItemOfType_more hamount hless (by omega)] at hrun
      obtain ⟨rfl, rfl⟩ := Prod.mk.inj hrun
      constructor
      · intro h
        refine .inr (.inl ?_)
        have hanswer := h.answer.not.mp Bool.false_ne_true
        omega
      · rintro (hzero | hshort | ⟨hle, -⟩)
        · omega
        · exact ⟨⟨fun h => Bool.noConfusion h, fun h => by omega⟩, fun h => Bool.noConfusion h,
            fun h => Bool.noConfusion h, fun _ => rfl⟩
        · omega
    · rw [playerRemoveItemOfType_enough hamount hle (by omega)] at hrun
      obtain ⟨rfl, rfl⟩ := Prod.mk.inj hrun
      have hwhole : amount = 0 ∨ s.carriedCount p itemId subType < amount ∨
          TakesAlone s p itemId amount subType ↔ TakesAlone s p itemId amount subType :=
        ⟨fun h => h.elim (fun h => by omega) fun h => h.elim (fun h => by omega) id,
          fun h => .inr (.inr h)⟩
      rw [hwhole]
      have hanswer : true = true ↔ amount ≤ s.playerItemTypeCount p itemId subType :=
        iff_of_true rfl (by omega)
      cases hstack : (s.items itemId).stackable with
      | true =>
          obtain ⟨t, rfl, hunits, hothers⟩ :=
            stacks_removed subType hs hw hp hstack hamount hle
          refine iff_of_true ⟨hanswer, fun _ => hunits, fun _ => hothers,
            fun h => Bool.noConfusion h⟩ ⟨hle, fun y hy z hz => ?_⟩
          obtain ⟨-, htaken⟩ := takenItems_spec hs p itemId amount subType
          have hplain := (isStackable_of_type (isOfType_of_found (htaken y hy).2)).trans hstack
          rw [iterator_of_stack hw hplain] at hz
          exact absurd hz List.not_mem_nil
      | false =>
          obtain ⟨t, rfl, hexact⟩ :=
            each_removed_iff subType hs hp hstack hamount hle
          constructor
          · exact fun h => ⟨hle, hexact.mp ⟨h.units rfl, h.others rfl⟩⟩
          · intro h
            obtain ⟨hunits, hothers⟩ := hexact.mpr h.2
            exact ⟨hanswer, fun _ => hunits, fun _ => hothers, fun h => Bool.noConfusion h⟩

/-! ## A backpack in a backpack

A player wears a backpack, and in it are another backpack and crystal coins.
-/

def worn : Tables where
  types :=
    [{ id := 2000, group := .ITEM_GROUP_CONTAINER, type := .ITEM_TYPE_CONTAINER,
       moveable := true, pickupable := true, weight := 1800 },
      { id := 2160, stackable := true, moveable := true, pickupable := true, weight := 10 }]
  items :=
    [{ id := 2000, parent := some (.player 0),
       container := some { maxSize := 20, itemlist := [1, 2], totalWeight := 2800 } },
      { id := 2000, parent := some (.container 0), container := some { maxSize := 20 } },
      { id := 2160, parent := some (.container 0), count := 100 }]
  players := [{ inventory := fun slot => if slot = CONST_SLOT_BACKPACK then some 0 else none }]

theorem worn_forest : Forest worn.state :=
  Tables.forest (by decide +kernel) (by decide +kernel) (by decide +kernel) (by decide +kernel)

theorem worn_portable : Portable worn.state 0 fun _ => false := by
  have hshort : ∀ y, worn.state.carries 0 y = true → y ∈ Finset.range worn.state.fresh :=
    fun y hy => Finset.mem_range.mpr (worn_forest.lt_fresh_of_carries hy)
  have hremovable : ∀ y ∈ Finset.range worn.state.fresh, Removable worn.state y false := by
    decide +kernel
  have hcount : ∀ y ∈ Finset.range worn.state.fresh, worn.state.isStackable y = false →
      worn.state.getItemCount y = 1 := by
    decide +kernel
  exact ⟨fun y hy => hremovable y (hshort y hy), fun y hy => hcount y (hshort y hy)⟩

/-- Thirty of the coins are taken out of the stack. -/
theorem thirty_coins_removed :
    ∃ t, playerRemoveItemOfType worn.state 0 2160 30 (-1) false (fun _ => false) = (true, t) ∧
      RemovesExactly worn.state 0 2160 30 (-1) true t := by
  refine ⟨_, Prod.ext (by decide +kernel) rfl, ?_⟩
  refine (removesExactly_iff worn_forest (Tables.wellFormed (by decide +kernel)).toStocked
    worn_portable (by decide +kernel) (Prod.ext (by decide +kernel) rfl)).mpr ?_
  refine .inr (.inr ⟨by decide +kernel, by decide +kernel⟩)

/-- There are two backpacks, but the one in the other is not found. -/
theorem worn_backpack_hides :
    worn.state.playerItemTypeCount 0 2000 (-1) = 2 ∧
      ¬ RemovesExactly worn.state 0 2000 2 (-1)
        (playerRemoveItemOfType worn.state 0 2000 2 (-1) false fun _ => false).1
        (playerRemoveItemOfType worn.state 0 2000 2 (-1) false fun _ => false).2 := by
  have hcount : worn.state.playerItemTypeCount 0 2000 (-1) = 2 := by decide +kernel
  refine ⟨hcount, fun h => ?_⟩
  have hanswer := h.answer.mpr hcount.ge
  revert hanswer
  decide +kernel

end TibiaServer.Game
