import Mathlib.Algebra.Order.Group.Nat
import TibiaServer.Cylinders.HoldingCount
import TibiaServer.Game.RemoveItems
import TibiaServer.Library.Reach
/-!
# What is counted and what is found

Both loops over the slots come to sums over lists of items.  Counting goes through everything
that the player carries; collecting does not look into an equipped item of the id.
-/

namespace TibiaServer.Cylinders

open TibiaServer.Library

namespace State

variable (s : State)

def isOfType (itemId : ℕ) (subType : ℤ) (y : ItemRef) : Bool :=
  (s.item y).id = itemId && (subType = -1 || subType = (s.item y).getSubType s.items)

/-- The counts of the items with `P`, taken together. -/
def countOf (P : ItemRef → Bool) : ℕ :=
  ∑ y ∈ Finset.range s.fresh, if P y = true then s.getItemCount y else 0

/-- The units of the type that a player carries. -/
def carriedCount (p : PlayerRef) (itemId : ℕ) (subType : ℤ) : ℕ :=
  s.countOf fun y => s.carries p y && s.isOfType itemId subType y

/-- What counting goes through. -/
def carriedItems (p : PlayerRef) : List ItemRef :=
  (s.contents (.player p)).flatMap fun x => x :: s.iterator x

/-- What collecting goes through. -/
def searchedItems (p : PlayerRef) (itemId : ℕ) : List ItemRef :=
  (s.contents (.player p)).flatMap fun x =>
    if (s.item x).id = itemId then [x] else s.iterator x

def isFound (itemId : ℕ) (subType : ℤ) (y : ItemRef) : Bool :=
  s.isOfType itemId subType y && s.getItemCount y ≠ 0

/-- What collecting finds, if it goes on to the end. -/
def foundItems (p : PlayerRef) (itemId : ℕ) (subType : ℤ) : List ItemRef :=
  (s.searchedItems p itemId).filter (s.isFound itemId subType)

variable {s} {itemId : ℕ} {subType : ℤ} {x y : ItemRef} {p : PlayerRef}

/-! ## Counting -/

theorem countByType_eq (hid : (s.item y).id = itemId) : s.countByType y subType =
    if s.isOfType itemId subType y = true then s.getItemCount y else 0 := by
  unfold countByType Item.countByType isOfType getItemCount
  simp [hid]

theorem iterator_of_plain (hx : s.isContainer x = false) : s.iterator x = [] := by
  unfold isContainer at hx
  have hnone : (s.item x).container = none := by simpa using hx
  have hempty : s.itemlist x = [] := by
    unfold itemlist
    rw [hnone]
    rfl
  unfold iterator depth
  rw [iteratorLoop, hempty]
  exact List.nil_append _

/-- What an item adds to the count. -/
def typeCount (s : State) (itemId : ℕ) (subType : ℤ) (y : ItemRef) : ℕ :=
  if s.isOfType itemId subType y = true then s.getItemCount y else 0

theorem countStep_eq {count : ℕ} (hcount : count < 4294967296) :
    (if (s.item y).id = itemId then countUp count (s.countByType y subType) else count) =
      (count + s.typeCount itemId subType y) % 4294967296 := by
  split_ifs with hid
  · rw [countByType_eq hid]
    rfl
  · have hno : s.isOfType itemId subType y = false := by
      unfold isOfType
      simp [hid]
    unfold typeCount
    rw [hno, if_neg Bool.false_ne_true]
    omega

theorem itemTypeCountIn_eq (l : List ItemRef) {count : ℕ} (hcount : count < 4294967296) :
    s.itemTypeCountIn itemId subType count l =
      (count + (l.map (s.typeCount itemId subType)).sum) % 4294967296 := by
  unfold itemTypeCountIn
  induction l generalizing count with
  | nil =>
    simp only [List.foldl_nil, List.map_nil, List.sum_nil]
    omega
  | cons y l ih =>
    rw [List.foldl_cons, countStep_eq hcount, ih (Nat.mod_lt _ (by decide)), List.map_cons,
      List.sum_cons]
    omega

theorem itemTypeCountAt_eq {count i : ℕ} (hcount : count < 4294967296)
    (hslot : (s.player p).inventory i = some x) :
    s.itemTypeCountAt p itemId subType count i =
      (count + ((x :: s.iterator x).map (s.typeCount itemId subType)).sum) % 4294967296 := by
  have hmod : ∀ n, n % 4294967296 < 4294967296 := fun n => Nat.mod_lt n (by decide)
  unfold itemTypeCountAt
  rw [hslot]
  dsimp only
  rw [countStep_eq hcount, List.map_cons, List.sum_cons]
  split_ifs with hx
  · rw [itemTypeCountIn_eq _ (hmod _)]
    omega
  · rw [iterator_of_plain (by simpa using hx), List.map_nil, List.sum_nil]
    rfl

theorem itemTypeCountSlots_eq (l : List ℕ) {count : ℕ} (hcount : count < 4294967296) :
    l.foldl (s.itemTypeCountAt p itemId subType) count =
      (count + (((l.filterMap (s.player p).inventory).flatMap fun x => x :: s.iterator x).map
        (s.typeCount itemId subType)).sum) % 4294967296 := by
  induction l generalizing count with
  | nil =>
    simp only [List.foldl_nil, List.filterMap_nil, List.flatMap_nil, List.map_nil, List.sum_nil]
    omega
  | cons i l ih =>
    rw [List.foldl_cons]
    cases hslot : (s.player p).inventory i with
    | none =>
      have hsame : s.itemTypeCountAt p itemId subType count i = count := by
        unfold itemTypeCountAt
        rw [hslot]
      rw [hsame, List.filterMap_cons_none hslot, ih hcount]
    | some x =>
      rw [List.filterMap_cons_some hslot, itemTypeCountAt_eq hcount hslot,
        ih (Nat.mod_lt _ (by decide)), List.flatMap_cons, List.map_append, List.sum_append]
      omega

theorem playerItemTypeCount_eq (p : PlayerRef) (itemId : ℕ) (subType : ℤ) :
    s.playerItemTypeCount p itemId subType =
      ((s.carriedItems p).map (s.typeCount itemId subType)).sum % 4294967296 := by
  unfold playerItemTypeCount
  rw [itemTypeCountSlots_eq slots (by decide), Nat.zero_add]
  rfl

/-! ## Collecting -/

section Collecting

variable {amount count : ℕ} {itemList : List ItemRef}

/-- What comes of going on with the items in `found`. -/
def collected (s : State) (amount : ℕ) (itemList : List ItemRef) (count : ℕ)
    (found : List ItemRef) : Collected :=
  if amount ≤ count + (found.map s.getItemCount).sum then
    .enough (itemList ++ upTo s.getItemCount (amount - count) found)
  else .more (itemList ++ found) (count + (found.map s.getItemCount).sum)

theorem collected_nil (hless : count < amount) :
    s.collected amount itemList count [] = .more itemList count := by
  unfold collected
  rw [List.map_nil, List.sum_nil, Nat.add_zero, if_neg (by omega), List.append_nil]

theorem collected_enough {a b l : List ItemRef} (hless : count < amount)
    (h : s.collected amount itemList count a = .enough l) :
    s.collected amount itemList count (a ++ b) = .enough l := by
  unfold collected at *
  rw [List.map_append, List.sum_append]
  split_ifs at h with hle
  rw [if_pos (by omega), upTo_append_of_le (by omega) (by omega)]
  exact h

theorem collected_more {a b l : List ItemRef} {c : ℕ}
    (h : s.collected amount itemList count a = .more l c) :
    c < amount ∧ c = count + (a.map s.getItemCount).sum ∧
      s.collected amount itemList count (a ++ b) = s.collected amount l c b := by
  unfold collected at *
  split_ifs at h with hle
  obtain ⟨rfl, rfl⟩ := Collected.more.inj h
  refine ⟨by omega, rfl, ?_⟩
  rw [List.map_append, List.sum_append, ← Nat.add_assoc]
  split_ifs
  · rw [upTo_append_of_lt (by omega), List.append_assoc, Nat.sub_sub]
  · rw [List.append_assoc]

theorem getItemCount_of_found (h : s.isFound itemId subType y = true) : s.getItemCount y ≠ 0 := by
  unfold isFound at h
  simpa using (Bool.and_eq_true_iff.mp h).2

theorem countByType_found (hid : (s.item y).id = itemId) : s.countByType y subType =
    if s.isFound itemId subType y = true then s.getItemCount y else 0 := by
  rw [countByType_eq hid]
  unfold isFound
  by_cases hzero : s.getItemCount y = 0
  · rw [hzero, ite_self, ite_self]
  · rw [decide_eq_true hzero, Bool.and_true]

theorem collect_eq (hid : (s.item y).id = itemId) (hless : count < amount)
    (hwrap : count + (([y].filter (s.isFound itemId subType)).map s.getItemCount).sum <
      4294967296) :
    s.collect amount subType itemList count y =
      s.collected amount itemList count ([y].filter (s.isFound itemId subType)) := by
  unfold collect
  rw [countByType_found hid, List.filter_singleton] at *
  cases hfound : s.isFound itemId subType y with
  | false => exact (collected_nil hless).symm
  | true =>
    rw [hfound] at hwrap
    have hcount : countUp count (s.getItemCount y) = count + s.getItemCount y :=
      Nat.mod_eq_of_lt (by simpa using hwrap)
    have hone : upTo s.getItemCount (amount - count) [y] = [y] := by
      unfold upTo
      split_ifs <;> rfl
    dsimp only
    rw [if_pos rfl, if_neg (getItemCount_of_found hfound), hcount]
    unfold collected
    rw [cond_true, hone, List.map_singleton, List.sum_singleton]

theorem filter_cons_append (P : ItemRef → Bool) (y : ItemRef) (l : List ItemRef) :
    (y :: l).filter P = [y].filter P ++ l.filter P := by
  rw [← List.filter_append, List.singleton_append]

theorem isFound_of_ne (hid : (s.item y).id ≠ itemId) : s.isFound itemId subType y = false := by
  unfold isFound isOfType
  simp [hid]

theorem collectIn_eq (l : List ItemRef) (hless : count < amount)
    (hwrap : count + ((l.filter (s.isFound itemId subType)).map s.getItemCount).sum <
      4294967296) :
    s.collectIn itemId amount subType l itemList count =
      s.collected amount itemList count (l.filter (s.isFound itemId subType)) := by
  induction l generalizing itemList count with
  | nil => exact (collected_nil hless).symm
  | cons y l ih =>
    unfold collectIn
    split_ifs with hid
    · rw [filter_cons_append] at hwrap ⊢
      rw [List.map_append, List.sum_append, ← Nat.add_assoc] at hwrap
      rw [collect_eq hid hless (by omega)]
      cases hfirst : s.collected amount itemList count
          ([y].filter (s.isFound itemId subType)) with
      | enough found => exact (collected_enough hless hfirst).symm
      | more found c =>
        obtain ⟨hless', rfl, happend⟩ := collected_more (b := l.filter _) hfirst
        rw [happend]
        exact ih hless' hwrap
    · have hno : (y :: l).filter (s.isFound itemId subType) =
          l.filter (s.isFound itemId subType) := by
        rw [List.filter_cons, isFound_of_ne hid, if_neg Bool.false_ne_true]
      rw [hno] at hwrap ⊢
      exact ih hless hwrap

theorem collectAt_eq (hless : count < amount)
    (hwrap : count + (((if (s.item x).id = itemId then [x] else s.iterator x).filter
      (s.isFound itemId subType)).map s.getItemCount).sum < 4294967296) :
    s.collectAt itemId amount subType false itemList count x =
      s.collected amount itemList count ((if (s.item x).id = itemId then [x]
        else s.iterator x).filter (s.isFound itemId subType)) := by
  unfold collectAt
  rw [Bool.not_false, Bool.true_and]
  by_cases hid : (s.item x).id = itemId
  · rw [if_pos hid] at hwrap ⊢
    rw [if_pos (decide_eq_true hid)]
    exact collect_eq hid hless hwrap
  · rw [if_neg hid] at hwrap ⊢
    rw [if_neg (by simpa using hid)]
    split_ifs with hx
    · exact collectIn_eq _ hless hwrap
    · rw [iterator_of_plain (by simpa using hx)]
      exact (collected_nil hless).symm

theorem collectSlots_eq (l : List ℕ) (hless : count < amount)
    (hwrap : count + ((((l.filterMap (s.player p).inventory).flatMap fun x =>
      if (s.item x).id = itemId then [x] else s.iterator x).filter
        (s.isFound itemId subType)).map s.getItemCount).sum < 4294967296) :
    s.collectSlots itemId amount subType p false l itemList count =
      s.collected amount itemList count (((l.filterMap (s.player p).inventory).flatMap fun x =>
        if (s.item x).id = itemId then [x] else s.iterator x).filter
          (s.isFound itemId subType)) := by
  induction l generalizing itemList count with
  | nil => exact (collected_nil hless).symm
  | cons i l ih =>
    unfold collectSlots
    cases hslot : (s.player p).inventory i with
    | none =>
      rw [List.filterMap_cons_none hslot] at hwrap ⊢
      exact ih hless hwrap
    | some x =>
      rw [List.filterMap_cons_some hslot, List.flatMap_cons, List.filter_append] at hwrap ⊢
      rw [List.map_append, List.sum_append, ← Nat.add_assoc] at hwrap
      dsimp only
      rw [collectAt_eq hless (by omega)]
      cases hfirst : s.collected amount itemList count ((if (s.item x).id = itemId then [x]
          else s.iterator x).filter (s.isFound itemId subType)) with
      | enough found => exact (collected_enough hless hfirst).symm
      | more found c =>
        obtain ⟨hless', rfl, happend⟩ := collected_more (b := List.filter _ _) hfirst
        rw [happend]
        exact ih hless' hwrap

/-- All in all the items found are gone through until they are enough. -/
theorem collectSlots_found (hamount : 0 < amount)
    (hwrap : ((s.foundItems p itemId subType).map s.getItemCount).sum < 4294967296) :
    s.collectSlots itemId amount subType p false slots [] 0 =
      if amount ≤ ((s.foundItems p itemId subType).map s.getItemCount).sum then
        .enough (upTo s.getItemCount amount (s.foundItems p itemId subType))
      else .more (s.foundItems p itemId subType)
        ((s.foundItems p itemId subType).map s.getItemCount).sum := by
  refine (collectSlots_eq slots hamount ((Nat.zero_add _).trans_lt hwrap)).trans ?_
  unfold collected
  rw [Nat.zero_add, List.nil_append, List.nil_append]
  rfl

end Collecting

/-! ## What is carried -/

theorem sum_filter_found (l : List ItemRef) :
    ((l.filter (s.isFound itemId subType)).map s.getItemCount).sum =
      (l.map (s.typeCount itemId subType)).sum := by
  induction l with
  | nil => rfl
  | cons y l ih =>
    have hcount : s.typeCount itemId subType y =
        if s.isFound itemId subType y = true then s.getItemCount y else 0 := by
      unfold typeCount isFound
      by_cases hzero : s.getItemCount y = 0
      · rw [hzero, ite_self, ite_self]
      · rw [decide_eq_true hzero, Bool.and_true]
    rw [List.map_cons, List.sum_cons, hcount, List.filter_cons, ← ih]
    split_ifs
    · rw [List.map_cons, List.sum_cons]
    · rw [Nat.zero_add]

theorem searchedItems_sublist (p : PlayerRef) (itemId : ℕ) :
    (s.searchedItems p itemId).Sublist (s.carriedItems p) := by
  apply List.Sublist.flatMap_right
  intro x _
  split_ifs
  · exact List.singleton_sublist.mpr List.mem_cons_self
  · exact List.sublist_cons_self x _

end State

namespace Forest

open State

variable {s : State} {itemId : ℕ} {subType : ℤ} {y : ItemRef} {p : PlayerRef}

theorem mem_carriedItems (hs : Forest s) : y ∈ s.carriedItems p ↔ s.carries p y = true := by
  unfold carriedItems carries
  rw [List.mem_flatMap, List.any_eq_true]
  apply exists_congr
  intro x
  rw [List.mem_cons, hs.holds_iff, Within, Relation.reflTransGen_iff_eq_or_transGen,
    (hs.iterator_spec x).2, @eq_comm _ x]

theorem nodup_carriedItems (hs : Forest s) : (s.carriedItems p).Nodup := by
  refine List.nodup_flatMap.mpr ⟨fun x _ => ?_, ?_⟩
  · obtain ⟨hnodup, hmem⟩ := hs.iterator_spec x
    exact List.nodup_cons.mpr ⟨fun hx => hs.acyclic x ((hmem x).mp hx), hnodup⟩
  · refine (hs.nodup (.player p)).imp_of_mem fun {x x'} hx hx' hne z hz hz' => hne ?_
    -- what is in both slots would put the one item into the other
    have hwithin : ∀ {w}, z ∈ w :: s.iterator w → s.Within z w := by
      intro w hw
      rcases List.mem_cons.mp hw with rfl | hw
      · exact .refl
      · exact (((hs.iterator_spec w).2 z).mp hw).to_reflTransGen
    rcases hs.comparable (hwithin hz) (hwithin hz') with hin | hin
    · exact (eq_of_within_of_root (hs.not_inside_of_mem hx) hin).symm
    · exact eq_of_within_of_root (hs.not_inside_of_mem hx') hin

theorem lt_fresh_of_carries (hs : Forest s) (h : s.carries p y = true) : y < s.fresh := by
  obtain ⟨x, hx, hyx⟩ := hs.carries_iff.mp h
  rcases Relation.ReflTransGen.cases_head hyx with rfl | ⟨z, hz, -⟩
  · exact hs.old _ y hx
  · exact hs.old (.container z) y hz

theorem carriedCount_eq (hs : Forest s) : s.carriedCount p itemId subType =
    ((s.carriedItems p).map (s.typeCount itemId subType)).sum := by
  have hset : (s.carriedItems p).toFinset =
      (Finset.range s.fresh).filter fun y => s.carries p y = true := by
    ext y
    rw [List.mem_toFinset, hs.mem_carriedItems, Finset.mem_filter, Finset.mem_range,
      and_iff_right_of_imp hs.lt_fresh_of_carries]
  rw [← List.sum_toFinset _ hs.nodup_carriedItems, hset, Finset.sum_filter]
  unfold carriedCount countOf typeCount
  apply Finset.sum_congr rfl
  intro y _
  by_cases hcarried : s.carries p y = true
  · rw [if_pos hcarried]
    exact if_congr (by simp [hcarried]) rfl rfl
  · rw [if_neg hcarried, if_neg (fun h => hcarried (Bool.and_eq_true_iff.mp h).1)]

theorem sum_foundItems_le (hs : Forest s) : ((s.foundItems p itemId subType).map
    s.getItemCount).sum ≤ s.carriedCount p itemId subType := by
  unfold foundItems
  rw [sum_filter_found, hs.carriedCount_eq]
  exact ((searchedItems_sublist p itemId).map _).sum_le_sum fun _ _ => Nat.zero_le _

theorem playerItemTypeCount_carried (hs : Forest s) :
    s.playerItemTypeCount p itemId subType = s.carriedCount p itemId subType % 4294967296 := by
  rw [playerItemTypeCount_eq, hs.carriedCount_eq]

theorem foundItems_spec (hs : Forest s) : (s.foundItems p itemId subType).Nodup ∧
    ∀ y ∈ s.foundItems p itemId subType,
      s.carries p y = true ∧ s.isFound itemId subType y = true := by
  have hsublist := searchedItems_sublist (s := s) p itemId
  refine ⟨(hs.nodup_carriedItems.sublist hsublist).filter _, fun y hy => ?_⟩
  obtain ⟨hmem, hfound⟩ := List.mem_filter.mp hy
  exact ⟨hs.mem_carriedItems.mp (hsublist.subset hmem), hfound⟩

end Forest

end TibiaServer.Cylinders
