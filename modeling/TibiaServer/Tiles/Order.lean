import TibiaServer.Library.Parted
import TibiaServer.Library.Run
import TibiaServer.Tiles.Tile
/-!
# The order of the items of a tile

Down items stand in front of top items, `downItemCount` is their number, and the
top items stand by `alwaysOnTopOrder`.  Adding and removing keep this; an item
that `transformItem` changes where it stands keeps it exactly when its new type
belongs there (`always_layered_iff`).
-/

namespace TibiaServer.Tiles

open TibiaServer.Cylinders (ItemRef)
open TibiaServer.Library (Parted)

namespace State

variable (types : ℕ → ItemType)

def Ordered (s : State) : Prop :=
  Parted (s.isAlwaysOnTop types) (s.alwaysOnTopOrder types) s.tile.downItemCount s.tile.items

variable {types} {s s' : State} {x : ItemRef}

theorem Ordered.congr (h : s.Ordered types) (hid : ∀ y, (s'.item y).id = (s.item y).id)
    (hitems : s'.tile.items = s.tile.items)
    (hcount : s'.tile.downItemCount = s.tile.downItemCount) : s'.Ordered types := by
  have htop : s'.isAlwaysOnTop types = s.isAlwaysOnTop types := by
    ext y
    simp only [isAlwaysOnTop, Item.isAlwaysOnTop, Item.type, hid]
  have horder : s'.alwaysOnTopOrder types = s.alwaysOnTopOrder types := by
    ext y
    simp only [alwaysOnTopOrder, Item.alwaysOnTopOrder, Item.type, hid]
  unfold Ordered
  rw [htop, horder, hitems, hcount]
  exact h

theorem id_removeThing (x y : ItemRef) (count : ℕ) :
    ((s.removeThing types x count).item y).id = (s.item y).id := by
  rcases removeThing_cases types s x count with ⟨-, heq | ⟨n, heq⟩⟩ |
    ⟨-, s', -, -, hitem, -, heq⟩
  · rw [heq]
  · rw [heq]
    by_cases hy : y = x
    · subst hy
      simp [setItem]
    · simp [setItem, Function.update_of_ne hy]
  · rw [heq]
    change (s'.item y).id = _
    rw [hitem]

theorem ordered_removeThing (h : s.Ordered types) (x : ItemRef) (count : ℕ) :
    (s.removeThing types x count).Ordered types := by
  have hlength : s.downItems.length = s.tile.downItemCount := Parted.length_take h
  unfold removeThing
  split_ifs with hindex hground htop hmem hmem hpart
  · exact h
  · exact h
  · have hparted : Parted (s.isAlwaysOnTop types) (s.alwaysOnTopOrder types) s.downItems.length
        (s.downItems ++ s.topItems.erase x) :=
      Parted.sublist h (.refl _) (List.erase_sublist)
    rw [hlength] at hparted
    exact hparted
  · exact h
  · refine h.congr (fun y => ?_) rfl rfl
    by_cases hy : y = x
    · subst hy
      simp [setItem]
    · simp [setItem, Function.update_of_ne hy]
  · have hparted : Parted (s.isAlwaysOnTop types) (s.alwaysOnTopOrder types)
        (s.downItems.erase x).length (s.downItems.erase x ++ s.topItems) :=
      Parted.sublist h List.erase_sublist (.refl _)
    rw [List.length_erase_of_mem hmem, hlength] at hparted
    exact hparted
  · exact h

/-- Both loops insert in order. -/
theorem pairwise_insertBefore {test : ItemRef → Bool} {key : ItemRef → ℕ} {l : List ItemRef}
    (hl : l.Pairwise fun y z => key y ≤ key z) (hfront : ∀ y, test y = true → key x ≤ key y)
    (hback : ∀ y, test y = false → key y ≤ key x) :
    (insertBefore test x l).Pairwise fun y z => key y ≤ key z := by
  induction hl with
  | nil => exact List.pairwise_singleton _ _
  | @cons y rest hy hrest ih =>
    unfold insertBefore
    split_ifs with htest
    · refine .cons (List.forall_mem_cons.mpr ⟨hfront y htest, fun z hz => ?_⟩) (.cons hy hrest)
      exact (hfront y htest).trans (hy z hz)
    · refine .cons (fun z hz => ?_) ih
      rcases List.mem_cons.mp ((perm_insertBefore test x rest).mem_iff.mp hz) with rfl | hz
      · exact hback y (by simpa using htest)
      · exact hy z hz

theorem ordered_top {l : List ItemRef} (h : s.Ordered types) (hx : s.isAlwaysOnTop types x = true)
    (hperm : l.Perm (x :: s.topItems))
    (hl : l.Pairwise fun y z => s.alwaysOnTopOrder types y ≤ s.alwaysOnTopOrder types z) :
    (s.setItems (s.downItems ++ l) s.tile.downItemCount).Ordered types := by
  refine Parted.take_append h (fun y hy => ?_) hl
  rcases List.mem_cons.mp (hperm.mem_iff.mp hy) with rfl | hy
  · exact hx
  · exact h.parts.2.1 y hy

theorem ordered_down (h : s.Ordered types) (hx : s.isAlwaysOnTop types x = false) :
    (s.setItems (x :: s.tile.items) (s.tile.downItemCount + 1)).Ordered types :=
  Parted.cons h hx

theorem isAlwaysOnTop_removeThing (x y : ItemRef) (count : ℕ) :
    (s.removeThing types x count).isAlwaysOnTop types y = s.isAlwaysOnTop types y := by
  simp only [isAlwaysOnTop, Item.isAlwaysOnTop, Item.type, id_removeThing]

theorem ordered_addThing (h : s.Ordered types) (x : ItemRef) :
    (s.addThing types x).Ordered types := by
  unfold addThing
  split_ifs with hroom hground htop
  · exact h
  · unfold addGround
    cases s.tile.ground with
    | none => exact h
    | some oldGround => exact h
  · unfold addTopItem
    dsimp only
    have hput : ∀ s₁ : State, s₁.Ordered types → s₁.isAlwaysOnTop types x = true →
        (s₁.setItems (s₁.downItems ++ s₁.insertTopItem types x s₁.topItems)
          s₁.tile.downItemCount).Ordered types := by
      intro s₁ h₁ hx
      refine ordered_top h₁ hx (perm_insertBefore _ _ _)
        (pairwise_insertBefore h₁.parts.2.2 (fun y hy => ?_) fun y hy => ?_)
      · simpa using hy
      · exact (not_le.mp (by simpa using hy)).le
    split_ifs
    · cases s.topItems.find? fun y => (s.item y).isSplash types with
      | none => exact hput s h htop
      | some oldSplash =>
        exact hput _ (ordered_removeThing h oldSplash 1)
          ((isAlwaysOnTop_removeThing ..).trans htop)
    · exact hput s h htop
  · have hx : s.isAlwaysOnTop types x = false := by simpa using htop
    unfold addDownItem
    dsimp only
    split_ifs
    · cases s.downItems.find? fun y => (s.item y).getMagicField with
      | none => exact ordered_down h hx
      | some oldField =>
        dsimp only
        split_ifs
        · exact ordered_down (ordered_removeThing h oldField 1)
            ((isAlwaysOnTop_removeThing ..).trans hx)
        · exact h
    · exact ordered_down h hx

theorem ordered_internalAddThing (h : s.Ordered types) (x : ItemRef) :
    (s.internalAddThing types x).Ordered types := by
  unfold internalAddThing
  split_ifs with hground hnone hroom htop
  · exact h
  · exact h
  · exact h
  · refine ordered_top h htop (perm_insertBefore _ _ _)
      (pairwise_insertBefore h.parts.2.2 (fun y hy => ?_) fun y hy => ?_)
    · exact (of_decide_eq_true hy).le
    · simpa using hy
  · exact ordered_down h (by simpa using htop)

/-! ## An item that changes where it stands -/

/-- A thing of the type may stand between `a` and `b` instead of `x`. -/
def Fits (types : ℕ → ItemType) (s : State) (x : ItemRef) (newType : ItemType)
    (a b : List ItemRef) : Prop :=
  newType.alwaysOnTop = s.isAlwaysOnTop types x ∧
    (s.isAlwaysOnTop types x = true →
      (∀ y ∈ a, s.isAlwaysOnTop types y = true →
        s.alwaysOnTopOrder types y ≤ newType.alwaysOnTopOrder) ∧
      ∀ y ∈ b, newType.alwaysOnTopOrder ≤ s.alwaysOnTopOrder types y)

section

variable {item : Item}

theorem isAlwaysOnTop_setItem_self :
    (s.setItem x item).isAlwaysOnTop types x = (item.type types).alwaysOnTop := by
  simp [isAlwaysOnTop, Item.isAlwaysOnTop, setItem]

theorem alwaysOnTopOrder_setItem_self :
    (s.setItem x item).alwaysOnTopOrder types x = (item.type types).alwaysOnTopOrder := by
  simp [alwaysOnTopOrder, Item.alwaysOnTopOrder, setItem]

theorem isAlwaysOnTop_setItem_of_ne {y : ItemRef} (hy : y ≠ x) :
    (s.setItem x item).isAlwaysOnTop types y = s.isAlwaysOnTop types y := by
  simp [isAlwaysOnTop, setItem, Function.update_of_ne hy]

theorem alwaysOnTopOrder_setItem_of_ne {y : ItemRef} (hy : y ≠ x) :
    (s.setItem x item).alwaysOnTopOrder types y = s.alwaysOnTopOrder types y := by
  simp [alwaysOnTopOrder, setItem, Function.update_of_ne hy]

/-- The item changes its type in all its places. -/
theorem ordered_setItem_iff (h : s.Ordered types) : (s.setItem x item).Ordered types ↔
    ∀ a b, s.tile.items = a ++ x :: b →
      s.Fits types x (item.type types) (a.filter (· ≠ x)) (b.filter (· ≠ x)) := by
  have htop : ∀ y, y ≠ x → (s.setItem x item).isAlwaysOnTop types y = s.isAlwaysOnTop types y :=
    fun y hy => isAlwaysOnTop_setItem_of_ne hy
  have horder : ∀ y, y ≠ x →
      (s.setItem x item).alwaysOnTopOrder types y = s.alwaysOnTopOrder types y :=
    fun y hy => alwaysOnTopOrder_setItem_of_ne hy
  have hchange := Parted.change_iff (x := x) h htop horder
  simp only [Fits, List.mem_filter, decide_eq_true_eq, and_imp]
  simp only [isAlwaysOnTop_setItem_self, alwaysOnTopOrder_setItem_self] at hchange
  exact hchange

/-- An object that does not stand on the tile may be anything. -/
theorem ordered_setItem_of_notMem (h : s.Ordered types) (hx : x ∉ s.tile.items) :
    (s.setItem x item).Ordered types := by
  refine (ordered_setItem_iff h).mpr fun a b heq => absurd ?_ hx
  simp [heq]

theorem ordered_updateThing_iff (h : s.Ordered types) (hindex : s.getThingIndex types x ≠ -1)
    (itemId count : ℕ) : (s.updateThing types x itemId count).Ordered types ↔
      ∀ a b, s.tile.items = a ++ x :: b →
        s.Fits types x (types itemId) (a.filter (· ≠ x)) (b.filter (· ≠ x)) := by
  have hiff : (s.setItem x (((s.item x).setID types itemId).setSubType types count)).Ordered types ↔
      _ := ordered_setItem_iff h
  unfold updateThing
  rw [if_neg hindex]
  simp only [Item.type, Item.setSubType_id, Item.setID_id] at hiff
  exact hiff

end

/-! ## An item that takes the place of another -/

theorem replacedPlace_top {i : ℕ} (hi : i < s.topItems.length) :
    s.replacedPlace ((if s.tile.ground.isSome then 1 else 0) + i) =
      some (some (s.tile.downItemCount + i)) := by
  unfold replacedPlace
  cases s.tile.ground with
  | none => simp [hi]
  | some ground => simp [hi, Nat.add_comm 1 i]

theorem replacedPlace_down {i : ℕ} (hi : i < s.downItems.length) :
    s.replacedPlace ((if s.tile.ground.isSome then 1 else 0) +
      (s.topItems.length + s.tile.creatures.length + i)) = some (some i) := by
  have hcreatures : ¬((s.topItems.length + s.tile.creatures.length + i : ℕ) : ℤ) <
      s.topItems.length := by
    omega
  have hdown : ¬((s.topItems.length + s.tile.creatures.length + i : ℕ) : ℤ) -
      s.topItems.length < s.tile.creatures.length := by
    omega
  have hpos : ((s.topItems.length + s.tile.creatures.length + i : ℕ) : ℤ) -
      s.topItems.length - s.tile.creatures.length = i := by
    omega
  unfold replacedPlace
  dsimp only
  cases s.tile.ground with
  | none =>
    simp only [Option.isSome_none, Bool.false_eq_true, if_false, false_and, Nat.zero_add]
    rw [if_neg hcreatures, if_neg hdown, hpos, if_pos (by exact_mod_cast hi), Int.toNat_natCast]
  | some ground =>
    have hindex : ((1 + (s.topItems.length + s.tile.creatures.length + i) : ℕ) : ℤ) - 1 =
        (s.topItems.length + s.tile.creatures.length + i : ℕ) := by
      omega
    have hpositive : 1 + (s.topItems.length + s.tile.creatures.length + i) ≠ 0 := by
      omega
    simp only [Option.isSome_some, if_true, true_and, if_neg hpositive]
    rw [hindex, if_neg hcreatures, if_neg hdown, hpos, if_pos (by exact_mod_cast hi),
      Int.toNat_natCast]

/-- `replaceThing` finds the place that `getThingIndex` counts. -/
theorem replacedPlace_getThingIndex (h : s.Ordered types)
    (hindex : s.getThingIndex types x ≠ -1) :
    s.replacedPlace (s.getThingIndex types x).toNat =
        (if s.tile.ground = some x then some none else some (some (s.tile.items.idxOf x))) ∧
      (s.tile.ground ≠ some x → x ∈ s.tile.items) := by
  have hdown : s.downItems.length = s.tile.downItemCount := Parted.length_take h
  unfold getThingIndex at hindex ⊢
  dsimp only at hindex ⊢
  by_cases hground : s.tile.ground = some x
  · simp [hground, replacedPlace]
  rw [if_neg hground, if_neg hground]
  rw [if_neg hground] at hindex
  cases htop : s.isAlwaysOnTop types x with
  | true =>
    rw [htop, if_pos rfl] at hindex
    have hmem : x ∈ s.topItems := by
      by_contra hmem
      exact hindex (if_neg hmem)
    have hnot : x ∉ s.downItems := fun hx => by simp [h.parts.1 x hx] at htop
    have hidx : s.tile.items.idxOf x = s.tile.downItemCount + s.topItems.idxOf x := by
      rw [← items_eq, List.idxOf_append_of_notMem hnot, hdown]
    refine ⟨?_, fun _ => List.mem_of_mem_drop hmem⟩
    rw [if_pos rfl, if_pos hmem, hidx, ← replacedPlace_top (List.idxOf_lt_length_of_mem hmem)]
    congr 1
    split_ifs <;> omega
  | false =>
    rw [htop, if_neg Bool.false_ne_true] at hindex
    have hmem : x ∈ s.downItems := by
      by_contra hmem
      exact hindex (if_neg hmem)
    have hidx : s.tile.items.idxOf x = s.downItems.idxOf x := by
      rw [← items_eq, List.idxOf_append_of_mem hmem]
    refine ⟨?_, fun _ => List.mem_of_mem_take hmem⟩
    rw [if_neg Bool.false_ne_true, if_pos hmem, hidx,
      ← replacedPlace_down (List.idxOf_lt_length_of_mem hmem)]
    congr 1
    split_ifs <;> omega

/-- The new object takes the first place of the item, or that of the ground. -/
theorem ordered_replaceThing_iff {newItem : ItemRef} {item : Item} (h : s.Ordered types)
    (hindex : s.getThingIndex types x ≠ -1) (hnew : newItem ∉ s.tile.items) :
    ((s.setItem newItem item).replaceThing types (s.getThingIndex types x).toNat newItem).Ordered
        types ↔
      (s.tile.ground ≠ some x →
        s.Fits types x (item.type types) (s.tile.items.take (s.tile.items.idxOf x))
          (s.tile.items.drop (s.tile.items.idxOf x + 1))) := by
  obtain ⟨hplace, hmem⟩ := replacedPlace_getThingIndex h hindex
  have hset : (s.setItem newItem item).Ordered types := ordered_setItem_of_notMem h hnew
  unfold replaceThing
  rw [show (s.setItem newItem item).replacedPlace = s.replacedPlace from rfl, hplace]
  by_cases hground : s.tile.ground = some x
  · have hground' : (s.setItem newItem item).tile.ground = some x := hground
    simp only [if_pos hground, hground']
    exact iff_of_true hset fun hne => absurd hground hne
  · have hlt := List.idxOf_lt_length_of_mem (hmem hground)
    have hget : (s.setItem newItem item).tile.items[s.tile.items.idxOf x]? = some x :=
      List.getElem?_eq_some_iff.mpr ⟨hlt, List.getElem_idxOf hlt⟩
    have hsplit : s.tile.items = s.tile.items.take (s.tile.items.idxOf x) ++
        x :: s.tile.items.drop (s.tile.items.idxOf x + 1) := by
      conv_lhs => rw [← List.take_append_drop (s.tile.items.idxOf x) s.tile.items,
        List.drop_eq_getElem_cons hlt, List.getElem_idxOf hlt]
    have hne : ∀ y ∈ s.tile.items, y ≠ newItem := fun y hy heq => hnew (heq ▸ hy)
    simp only [if_neg hground, hget]
    change Parted ((s.setItem newItem item).isAlwaysOnTop types)
      ((s.setItem newItem item).alwaysOnTopOrder types) s.tile.downItemCount
      (s.tile.items.set (s.tile.items.idxOf x) newItem) ↔ _
    change Parted ((s.setItem newItem item).isAlwaysOnTop types)
      ((s.setItem newItem item).alwaysOnTopOrder types) s.tile.downItemCount s.tile.items at hset
    rw [List.set_eq_take_append_cons_drop, if_pos hlt]
    rw [hsplit] at hset
    refine (Parted.set_iff hset).trans ?_
    rw [isAlwaysOnTop_setItem_self, alwaysOnTopOrder_setItem_self,
      isAlwaysOnTop_setItem_of_ne (hne x (hmem hground))]
    have hfront : ∀ y ∈ s.tile.items.take (s.tile.items.idxOf x), y ≠ newItem :=
      fun y hy => hne y (List.mem_of_mem_take hy)
    have hback : ∀ y ∈ s.tile.items.drop (s.tile.items.idxOf x + 1), y ≠ newItem :=
      fun y hy => hne y (List.mem_of_mem_drop hy)
    unfold Fits
    constructor
    · rintro ⟨htop, horder⟩ -
      refine ⟨htop, fun hx => ⟨fun y hy hy' => ?_, fun y hy => ?_⟩⟩
      · have hle := (horder hx).1 y hy
        rw [isAlwaysOnTop_setItem_of_ne (hfront y hy),
          alwaysOnTopOrder_setItem_of_ne (hfront y hy)] at hle
        exact hle hy'
      · have hle := (horder hx).2 y hy
        rwa [alwaysOnTopOrder_setItem_of_ne (hback y hy)] at hle
    · intro hfits
      obtain ⟨htop, horder⟩ := hfits hground
      refine ⟨htop, fun hx => ⟨fun y hy => ?_, fun y hy => ?_⟩⟩
      · rw [isAlwaysOnTop_setItem_of_ne (hfront y hy), alwaysOnTopOrder_setItem_of_ne (hfront y hy)]
        exact (horder hx).1 y hy
      · rw [alwaysOnTopOrder_setItem_of_ne (hback y hy)]
        exact (horder hx).2 y hy

/-! ## An item that is taken out and put on the tile anew -/

/-- The down items, counted, less `downItemCount`. -/
def miscount (types : ℕ → ItemType) (s : State) : ℤ :=
  s.tile.items.countP (fun y => !s.isAlwaysOnTop types y) - s.tile.downItemCount

theorem Ordered.miscount_eq (h : s.Ordered types) : s.miscount types = 0 := by
  unfold miscount
  rw [Parted.count h, sub_self]

theorem miscount_congr (hid : ∀ y, (s'.item y).id = (s.item y).id)
    (hitems : s'.tile.items = s.tile.items)
    (hcount : s'.tile.downItemCount = s.tile.downItemCount) :
    s'.miscount types = s.miscount types := by
  have htop : s'.isAlwaysOnTop types = s.isAlwaysOnTop types := by
    ext y
    simp only [isAlwaysOnTop, Item.isAlwaysOnTop, Item.type, hid]
  unfold miscount
  rw [htop, hitems, hcount]

theorem miscount_top {l : List ItemRef} (hx : s.isAlwaysOnTop types x = true)
    (hperm : s.tile.items.Perm l ∨ (x :: s.tile.items).Perm l ∨ s.tile.items.Perm (x :: l)) :
    (s.setItems l s.tile.downItemCount).miscount types = s.miscount types := by
  have hcons : ∀ l : List ItemRef, (x :: l).countP (fun y => !s.isAlwaysOnTop types y) =
      l.countP fun y => !s.isAlwaysOnTop types y :=
    fun l => List.countP_cons_of_neg (by simp [hx])
  have hcount : l.countP (fun y => !s.isAlwaysOnTop types y) =
      s.tile.items.countP fun y => !s.isAlwaysOnTop types y := by
    rcases hperm with hperm | hperm | hperm
    · exact (hperm.countP_eq _).symm
    · rw [← hcons s.tile.items]
      exact (hperm.countP_eq _).symm
    · rw [← hcons l]
      exact (hperm.countP_eq _).symm
  unfold miscount
  change ((l.countP fun y => !s.isAlwaysOnTop types y : ℕ) : ℤ) - _ = _
  rw [hcount]
  rfl

theorem miscount_down {n : ℕ} {l : List ItemRef} (hx : s.isAlwaysOnTop types x = false)
    (hperm : (x :: s.tile.items).Perm l ∧ n = s.tile.downItemCount + 1 ∨
      s.tile.items.Perm (x :: l) ∧ s.tile.downItemCount = n + 1) :
    (s.setItems l n).miscount types = s.miscount types := by
  have hcons : ∀ l : List ItemRef, (x :: l).countP (fun y => !s.isAlwaysOnTop types y) =
      (l.countP fun y => !s.isAlwaysOnTop types y) + 1 :=
    fun l => List.countP_cons_of_pos (by simp [hx])
  unfold miscount
  change ((l.countP fun y => !s.isAlwaysOnTop types y : ℕ) : ℤ) - n = _
  rcases hperm with ⟨hperm, hn⟩ | ⟨hperm, hn⟩
  · have hcount := hperm.countP_eq fun y => !s.isAlwaysOnTop types y
    rw [hcons] at hcount
    omega
  · have hcount := hperm.countP_eq fun y => !s.isAlwaysOnTop types y
    rw [hcons] at hcount
    omega

theorem miscount_removeThing (x : ItemRef) (count : ℕ) :
    (s.removeThing types x count).miscount types = s.miscount types := by
  unfold removeThing
  split_ifs with hindex hground htop hmem hmem hpart
  · rfl
  · rfl
  · refine miscount_top htop (.inr (.inr ?_))
    rw [← items_eq s]
    exact ((List.perm_cons_erase hmem).append_left _).trans List.perm_middle
  · rfl
  · refine miscount_congr (fun y => ?_) rfl rfl
    by_cases hy : y = x
    · subst hy
      simp [setItem]
    · simp [setItem, Function.update_of_ne hy]
  · refine miscount_down (by simpa using htop) (.inr ⟨?_, ?_⟩)
    · rw [← items_eq s]
      exact (List.perm_cons_erase hmem).append_right _
    · have hpos : 0 < s.downItems.length := List.length_pos_of_mem hmem
      have hle : s.downItems.length ≤ s.tile.downItemCount := by
        simp [downItems]
      change s.tile.downItemCount = s.tile.downItemCount - 1 + 1
      omega
  · rfl

theorem miscount_addThing (x : ItemRef) :
    (s.addThing types x).miscount types = s.miscount types := by
  unfold addThing
  split_ifs with hroom hground htop
  · rfl
  · unfold addGround
    cases s.tile.ground with
    | none => rfl
    | some oldGround => rfl
  · unfold addTopItem
    dsimp only
    have hput : ∀ s₁ : State, s₁.isAlwaysOnTop types x = true →
        (s₁.setItems (s₁.downItems ++ s₁.insertTopItem types x s₁.topItems)
          s₁.tile.downItemCount).miscount types = s₁.miscount types := by
      intro s₁ hx
      refine miscount_top hx (.inr (.inl ?_))
      rw [← items_eq s₁]
      exact List.perm_middle.symm.trans ((perm_insertBefore _ _ _).symm.append_left _)
    split_ifs
    · cases s.topItems.find? fun y => (s.item y).isSplash types with
      | none => exact hput s htop
      | some oldSplash =>
        exact (hput _ ((isAlwaysOnTop_removeThing ..).trans htop)).trans
          (miscount_removeThing oldSplash 1)
    · exact hput s htop
  · have hx : s.isAlwaysOnTop types x = false := by simpa using htop
    have hput : ∀ s₁ : State, s₁.isAlwaysOnTop types x = false →
        (s₁.setItems (x :: s₁.tile.items) (s₁.tile.downItemCount + 1)).miscount types =
          s₁.miscount types :=
      fun s₁ hx => miscount_down hx (.inl ⟨.refl _, rfl⟩)
    unfold addDownItem
    dsimp only
    split_ifs
    · cases s.downItems.find? fun y => (s.item y).getMagicField with
      | none => exact hput s hx
      | some oldField =>
        dsimp only
        split_ifs
        · exact (hput _ ((isAlwaysOnTop_removeThing ..).trans hx)).trans
            (miscount_removeThing oldField 1)
        · rfl
    · exact hput s hx

theorem countP_filter_ne (p : ItemRef → Bool) (x : ItemRef) (l : List ItemRef) :
    l.countP p = (if p x then l.count x else 0) + (l.filter (· ≠ x)).countP p := by
  induction l with
  | nil => simp
  | cons y l ih =>
    by_cases hy : y = x
    · subst hy
      cases hp : p y <;> simp [hp] at ih ⊢ <;> omega
    · cases hp : p y <;> simp [hp, hy] at ih ⊢ <;> omega

/-- An item on the tile that changes sides miscounts. -/
theorem miscount_setItem {item : Item} (hx : x ∈ s.tile.items)
    (htop : (item.type types).alwaysOnTop ≠ s.isAlwaysOnTop types x) :
    (s.setItem x item).miscount types ≠ s.miscount types := by
  have hpos : 0 < s.tile.items.count x := List.count_pos_iff.mpr hx
  have hrest : (s.tile.items.filter (· ≠ x)).countP
        (fun y => !(s.setItem x item).isAlwaysOnTop types y) =
      (s.tile.items.filter (· ≠ x)).countP fun y => !s.isAlwaysOnTop types y := by
    apply List.countP_congr
    intro y hy
    have hne : y ≠ x := by simpa using (List.mem_filter.mp hy).2
    rw [isAlwaysOnTop_setItem_of_ne hne]
  unfold miscount
  change ((s.tile.items.countP fun y => !(s.setItem x item).isAlwaysOnTop types y : ℕ) : ℤ) -
    s.tile.downItemCount ≠ _
  rw [countP_filter_ne (fun y => !(s.setItem x item).isAlwaysOnTop types y) x,
    countP_filter_ne (fun y => !s.isAlwaysOnTop types y) x, hrest, isAlwaysOnTop_setItem_self]
  cases hnew : (item.type types).alwaysOnTop <;> cases hold : s.isAlwaysOnTop types x <;>
    simp [hnew, hold] at htop ⊢ <;> omega

theorem ordered_removeAndAdd_iff {item : Item} {count : ℕ} (h : s.Ordered types)
    (htop : (item.type types).alwaysOnTop ≠ s.isAlwaysOnTop types x) :
    (((s.removeThing types x count).setItem x item).addThing types x).Ordered types ↔
      x ∉ (s.removeThing types x count).tile.items := by
  have hremoved := ordered_removeThing h x count
  constructor
  · intro hadded hx
    have htop' : (item.type types).alwaysOnTop ≠
        (s.removeThing types x count).isAlwaysOnTop types x := by
      rwa [isAlwaysOnTop_removeThing]
    apply miscount_setItem hx htop'
    rw [← miscount_addThing x, hadded.miscount_eq, hremoved.miscount_eq]
  · exact fun hx => ordered_addThing (ordered_setItem_of_notMem hremoved hx) x

/-! ## `transformItem` -/

theorem isAlwaysOnTop_setItem_of_id {item : Item} (hid : item.id = (s.item x).id) :
    (s.setItem x item).isAlwaysOnTop types = s.isAlwaysOnTop types ∧
      (s.setItem x item).alwaysOnTopOrder types = s.alwaysOnTopOrder types := by
  have hids : ∀ y, ((s.setItem x item).item y).id = (s.item y).id := by
    intro y
    by_cases hy : y = x
    · subst hy
      simpa [setItem] using hid
    · simp [setItem, Function.update_of_ne hy]
  constructor
  · ext y
    simp only [isAlwaysOnTop, Item.isAlwaysOnTop, Item.type, hids]
  · ext y
    simp only [alwaysOnTopOrder, Item.alwaysOnTopOrder, Item.type, hids]

/-- When the type that the item takes belongs where it stands. -/
def TransformFits (types : ℕ → ItemType) (s : State) (x : ItemRef) (newId : ℕ) (newCount : ℤ) :
    Prop :=
  match Plan.plan types (s.item x) newId newCount with
  | .leave => True
  | .internalRemove => True
  | .removeAndAdd => x ∉ (s.removeThing types x (s.item x).count).tile.items
  | .update _ itemId _ => ∀ a b, s.tile.items = a ++ x :: b →
      s.Fits types x (types itemId) (a.filter (· ≠ x)) (b.filter (· ≠ x))
  | .replace item => s.tile.ground ≠ some x →
      s.Fits types x (item.type types) (s.tile.items.take (s.tile.items.idxOf x))
        (s.tile.items.drop (s.tile.items.idxOf x + 1))

theorem ordered_internalRemoveItem (h : s.Ordered types) (x : ItemRef) :
    (s.internalRemoveItem types x).Ordered types := by
  unfold internalRemoveItem
  split_ifs
  · exact h
  · exact h
  · exact h
  · exact ordered_removeThing h x _

theorem ordered_update_iff (h : s.Ordered types) (hindex : s.getThingIndex types x ≠ -1)
    {item : Item} (hid : item.id = (s.item x).id) (itemId count : ℕ) :
    ((s.setItem x item).updateThing types x itemId count).Ordered types ↔
      ∀ a b, s.tile.items = a ++ x :: b →
        s.Fits types x (types itemId) (a.filter (· ≠ x)) (b.filter (· ≠ x)) := by
  obtain ⟨htop, horder⟩ : (s.setItem x item).isAlwaysOnTop types = s.isAlwaysOnTop types ∧
      (s.setItem x item).alwaysOnTopOrder types = s.alwaysOnTopOrder types :=
    isAlwaysOnTop_setItem_of_id hid
  have hset : (s.setItem x item).Ordered types := by
    unfold Ordered
    rw [htop, horder]
    exact h
  have hindex' : (s.setItem x item).getThingIndex types x ≠ -1 := by
    unfold getThingIndex at hindex ⊢
    rw [htop]
    exact hindex
  refine (ordered_updateThing_iff hset hindex' itemId count).trans ?_
  unfold Fits
  rw [htop, horder]
  rfl

theorem plan_removeAndAdd {item : Item} {newId : ℕ} {newCount : ℤ}
    (hplan : Plan.plan types item newId newCount = .removeAndAdd) :
    (item.type types).alwaysOnTop ≠ (types newId).alwaysOnTop := by
  intro heq
  have hnever : ∀ again, again ≠ .removeAndAdd → ∀ newCount,
      Plan.planFor types item again newId newCount ≠ .removeAndAdd := by
    intro again hagain newCount
    have hcreate : ∀ type count, Plan.create types type count ≠ .removeAndAdd := by
      intro type count
      unfold Plan.create
      cases Item.CreateItem types type count <;> simp
    unfold Plan.planFor
    dsimp only
    have htop : ¬(types item.id).alwaysOnTop ≠ (types newId).alwaysOnTop := not_not.mpr heq
    simp only [if_neg htop]
    split_ifs <;> first | exact hagain | exact hcreate _ _ | simp
  exact hnever _ (hnever _ (by simp) _) _ hplan

theorem ordered_transformItem_iff {newItem : ItemRef} {newId : ℕ} {newCount : ℤ}
    (h : s.Ordered types) (hnew : newItem ∉ s.things) :
    (s.transformItem types newItem x newId newCount).Ordered types ↔
      (s.getThingIndex types x ≠ -1 → s.TransformFits types x newId newCount) := by
  have hnew' : newItem ∉ s.tile.items := fun hmem => hnew (mem_things.mpr (.inr hmem))
  unfold transformItem TransformFits
  dsimp only
  by_cases hindex : s.getThingIndex types x = -1
  · rw [if_pos hindex]
    exact iff_of_true h fun hne => absurd hindex hne
  rw [if_neg hindex, forall_prop_of_true hindex]
  cases hplan : Plan.plan types (s.item x) newId newCount with
  | leave => exact iff_of_true h trivial
  | removeAndAdd =>
    apply ordered_removeAndAdd_iff h
    have htop := (plan_removeAndAdd hplan).symm
    split_ifs
    · simpa [isAlwaysOnTop, Item.isAlwaysOnTop, Item.type] using htop
    · simpa [isAlwaysOnTop, Item.isAlwaysOnTop, Item.type] using htop
  | internalRemove => exact iff_of_true (ordered_internalRemoveItem h x) trivial
  | update defaultSubtype itemId count =>
    cases defaultSubtype with
    | false => exact ordered_updateThing_iff h hindex itemId count
    | true => exact ordered_update_iff h hindex (Item.setDefaultSubtype_id _ _) itemId count
  | replace item => exact ordered_replaceThing_iff h hindex hnew'

end State

/-! ## Runs -/

inductive Call
  | addThing (x : ItemRef)
  | internalAddThing (x : ItemRef)
  | removeThing (x : ItemRef) (count : ℕ)
  | transformItem (newItem x : ItemRef) (newId : ℕ) (newCount : ℤ)
  | addCreature (creature : ℕ)
  | removeCreature (creature : ℕ)

namespace Call

/-- An object that `transformItem` makes is new, so it does not stand on the tile. -/
def step (types : ℕ → ItemType) (s : State) : Call → Option State
  | .addThing x => some (s.addThing types x)
  | .internalAddThing x => some (s.internalAddThing types x)
  | .removeThing x count => some (s.removeThing types x count)
  | .transformItem newItem x newId newCount =>
    if newItem ∈ s.things then none else some (s.transformItem types newItem x newId newCount)
  | .addCreature creature => some (s.addCreature creature)
  | .removeCreature creature => some (s.removeCreature creature)

/-- A transformed item belongs where it stands. -/
def KeepsOrder (types : ℕ → ItemType) (s : State) : Call → Prop
  | .transformItem _ x newId newCount =>
    s.getThingIndex types x ≠ -1 → s.TransformFits types x newId newCount
  | _ => True

theorem ordered_step_iff {types : ℕ → ItemType} {s t : State} {c : Call} (h : s.Ordered types)
    (hstep : step types s c = some t) : t.Ordered types ↔ KeepsOrder types s c := by
  cases c with
  | addThing x =>
    obtain rfl := Option.some.inj hstep
    exact iff_of_true (State.ordered_addThing h x) trivial
  | internalAddThing x =>
    obtain rfl := Option.some.inj hstep
    exact iff_of_true (State.ordered_internalAddThing h x) trivial
  | removeThing x count =>
    obtain rfl := Option.some.inj hstep
    exact iff_of_true (State.ordered_removeThing h x count) trivial
  | transformItem newItem x newId newCount =>
    simp only [step] at hstep
    split_ifs at hstep with hnew
    obtain rfl := Option.some.inj hstep
    exact State.ordered_transformItem_iff h hnew
  | addCreature creature =>
    obtain rfl := Option.some.inj hstep
    exact iff_of_true h trivial
  | removeCreature creature =>
    obtain rfl := Option.some.inj hstep
    exact iff_of_true h trivial

/-- From an empty tile on, over every table of item types, all objects and every
sequence of calls, the items stay in order exactly as long as each item that is
transformed belongs where it stands. -/
theorem always_layered_iff (types : ℕ → ItemType) (item : ItemRef → Item) (calls : List Call) :
    Library.Run.Always (step types) (State.Ordered types) { item := item } calls ↔
      Library.Run.EachStep (step types) (KeepsOrder types) { item := item } calls :=
  Library.Run.always_iff_eachStep (I := fun _ => True) (fun _ _ _ _ _ => trivial)
    (fun _ _ _ _ h hstep => ordered_step_iff h hstep) calls _ trivial Parted.nil

/-- A border behind which a wall item stands, turned into an open door: the door
stays in front of the wall item, though its order is higher. -/
theorem door_in_front_of_wall :
    let types : ℕ → ItemType := fun id =>
      { id := id, alwaysOnTop := true, alwaysOnTopOrder := id, stackable_plain := by simp }
    let item : ItemRef → Item := fun x => { id := x }
    ¬Library.Run.Always (step types) (State.Ordered types) { item := item }
      [.addThing 1, .addThing 2, .transformItem 4 1 3 (-1)] := by
  intro types item h
  have hrun := h.last (u := ((step types { item := item } (.addThing 1)).bind fun s =>
    (step types s (.addThing 2)).bind fun s => step types s (.transformItem 4 1 3 (-1))).getD
      { item := item }) (by rfl)
  have hsorted := hrun.sorted
  revert hsorted
  decide

end Call

end TibiaServer.Tiles
