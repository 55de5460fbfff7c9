import TibiaServer.Tiles.Order
/-!
# Two tiles for one square

`Map::setTile` adds the items of a second tile to those of the first one, from the last to the
first and then the ground.  What is added last stands first, so that the items of the new tile
keep their order and stand in front of those of the old one.
-/

namespace TibiaServer.Tiles

open TibiaServer.Cylinders (ItemRef)
open TibiaServer.Library (Parted)

namespace State

variable (types : ℕ → ItemType)

def mergeTile (s : State) (newTile : Tile) : State :=
  let s := newTile.items.reverse.foldl (fun s x => s.addThing types x) s
  match newTile.ground with
  | some ground => s.addThing types ground
  | none => s

variable {types} {s t : State} {x : ItemRef} {l : List ItemRef}

/-! ## What an addition does to the two parts -/

theorem downItems_of_append {a b : List ItemRef} (h : s.tile.items = a ++ b)
    (hcount : s.tile.downItemCount = a.length) : s.downItems = a ∧ s.topItems = b := by
  unfold downItems topItems
  rw [h, hcount]
  exact ⟨List.take_left .., List.drop_left ..⟩

theorem length_downItems (h : s.Ordered types) : s.downItems.length = s.tile.downItemCount :=
  Parted.length_take h

/-- A removal takes from one of the parts. -/
theorem removeThing_parts (h : s.Ordered types) (x : ItemRef) (count : ℕ) :
    (s.removeThing types x count).downItems.Sublist s.downItems ∧
      (s.removeThing types x count).topItems.Sublist s.topItems := by
  have hlength := length_downItems h
  have hsame : s.downItems.Sublist s.downItems ∧ s.topItems.Sublist s.topItems :=
    ⟨.refl _, .refl _⟩
  unfold removeThing
  split_ifs with hindex hground htop hmem hmem hpart
  · exact hsame
  · exact hsame
  · obtain ⟨hdown, htop⟩ := downItems_of_append
      (s := (s.setItems (s.downItems ++ s.topItems.erase x) s.tile.downItemCount).resetTileFlags
        types x) rfl hlength.symm
    rw [hdown, htop]
    exact ⟨.refl _, List.erase_sublist⟩
  · exact hsame
  · exact hsame
  · have hcount : s.tile.downItemCount - 1 = (s.downItems.erase x).length := by
      rw [List.length_erase_of_mem hmem, hlength]
    obtain ⟨hdown, htop⟩ := downItems_of_append
      (s := (s.setItems (s.downItems.erase x ++ s.topItems)
        (s.tile.downItemCount - 1)).resetTileFlags types x) rfl hcount
    rw [hdown, htop]
    exact ⟨List.erase_sublist, .refl _⟩
  · exact hsame

/-- What an addition does to the two parts: nothing, or the item comes to one of them, after an
old splash or field has gone. -/
inductive AddsTo (types : ℕ → ItemType) (s : State) (x : ItemRef) (t : State) : Prop
  | refused (h : t = s)
      (hwhy : 0xFFFF ≤ s.tile.items.length ∨ ((s.item x).type types).isMagicField = true)
  | down (hx : s.isAlwaysOnTop types x = false) (s₁ : State)
      (hold : s₁ = s ∨ ((s.item x).type types).isMagicField = true ∧
        ∃ old, s₁ = s.removeThing types old 1)
      (hdown : t.downItems = x :: s₁.downItems) (htop : t.topItems = s₁.topItems)
      (hground : t.tile.ground = s₁.tile.ground)
  | top (hx : s.isAlwaysOnTop types x = true) (s₁ : State)
      (hold : s₁ = s ∨ (s.item x).isSplash types = true ∧ ∃ old, s₁ = s.removeThing types old 1)
      (hdown : t.downItems = s₁.downItems)
      (htop : t.topItems = s₁.insertTopItem types x s₁.topItems)
      (hground : t.tile.ground = s₁.tile.ground)

theorem addThing_addsTo (h : s.Ordered types) (hground : (s.item x).isGroundTile types = false) :
    AddsTo types s x (s.addThing types x) := by
  have hput : ∀ s₁ : State, s₁.Ordered types →
      ((s₁.setItems (s₁.downItems ++ s₁.insertTopItem types x s₁.topItems)
          s₁.tile.downItemCount).setTileFlags types x).downItems = s₁.downItems ∧
        ((s₁.setItems (s₁.downItems ++ s₁.insertTopItem types x s₁.topItems)
          s₁.tile.downItemCount).setTileFlags types x).topItems =
            s₁.insertTopItem types x s₁.topItems :=
    fun s₁ h₁ => downItems_of_append rfl (length_downItems h₁).symm
  unfold addThing
  rw [hground, if_neg Bool.false_ne_true]
  split_ifs with hroom htop
  · exact .refused rfl (.inl hroom)
  · unfold addTopItem
    dsimp only
    split_ifs with hsplash
    · cases s.topItems.find? fun y => (s.item y).isSplash types with
      | none => exact .top htop s (.inl rfl) (hput s h).1 (hput s h).2 rfl
      | some old =>
        have hremoved := ordered_removeThing h old 1
        exact .top htop _ (.inr ⟨hsplash, old, rfl⟩) (hput _ hremoved).1 (hput _ hremoved).2 rfl
    · exact .top htop s (.inl rfl) (hput s h).1 (hput s h).2 rfl
  · have hx : s.isAlwaysOnTop types x = false := by simpa using htop
    unfold addDownItem
    dsimp only
    split_ifs with hfield
    · cases s.downItems.find? fun y => (s.item y).getMagicField with
      | none => exact .down hx s (.inl rfl) rfl rfl rfl
      | some old =>
        dsimp only
        split_ifs
        · exact .down hx _ (.inr ⟨hfield, old, rfl⟩) rfl rfl rfl
        · exact .refused rfl (.inr hfield)
    · exact .down hx s (.inl rfl) rfl rfl rfl

theorem id_addThing (x y : ItemRef) : ((s.addThing types x).item y).id = (s.item y).id := by
  cases addThing_adds types s x with
  | nothing h => rw [h]
  | put s₁ s₂ hold _ hitem _ h =>
    rw [h, item_setTileFlags, hitem]
    rcases hold with rfl | ⟨old, rfl⟩
    · rfl
    · exact id_removeThing old y 1
  | ground oldGround _ h => rw [h]; rfl

/-! ## A front of the items that are left -/

theorem filter_insertBefore_of_mem {test q : ItemRef → Bool} (hx : q x = true)
    (hl : ∀ y ∈ l, q y = true → test y = true) :
    (insertBefore test x l).filter q = x :: l.filter q := by
  induction l with
  | nil => simp [insertBefore, hx]
  | cons y rest ih =>
    obtain ⟨hy, hrest⟩ := List.forall_mem_cons.mp hl
    unfold insertBefore
    split_ifs with htest
    · rw [List.filter_cons_of_pos hx]
    · have hout : q y ≠ true := fun hin => htest (hy hin)
      rw [List.filter_cons_of_neg hout, List.filter_cons_of_neg hout, ih hrest]

theorem filter_insertBefore_of_notMem {test q : ItemRef → Bool} (hx : q x = false) :
    (insertBefore test x l).filter q = l.filter q := by
  induction l with
  | nil => simp [insertBefore, hx]
  | cons y rest ih =>
    unfold insertBefore
    split_ifs
    · rw [List.filter_cons_of_neg (by simp [hx])]
    · rw [List.filter_cons, List.filter_cons, ih]

/-- Nothing is replaced or refused where the items `l` are added. -/
structure Plain (types : ℕ → ItemType) (s : State) (l : List ItemRef) : Prop where
  field : ∀ y ∈ l, ((s.item y).type types).isMagicField = false
  splash : ∀ y ∈ l, (s.item y).isSplash types = false
  room : s.tile.items.length + l.length < 0xFFFF

/-- The parts of a tile on which the items `l` have come to stand. -/
def Parts (types : ℕ → ItemType) (s : State) (l down top : List ItemRef) : Prop :=
  (∃ new old, down = new ++ old ∧
    new.Sublist (l.filter fun y => !s.isAlwaysOnTop types y) ∧ old.Sublist s.downItems) ∧
  (top.filter (· ∈ l)).Sublist (l.filter (s.isAlwaysOnTop types)) ∧
  (top.filter (· ∉ l)).Sublist s.topItems

theorem Parts.notMem {down top : List ItemRef} (h : Parts types s l down top) (hx : x ∉ l)
    (hnew : x ∉ s.topItems) : x ∉ top := by
  intro hmem
  exact hnew (h.2.2.subset (List.mem_filter.mpr ⟨hmem, by simpa using hx⟩))

theorem filter_mem_cons {top : List ItemRef} (hx : x ∉ top) :
    top.filter (· ∈ x :: l) = top.filter (· ∈ l) ∧
      top.filter (· ∉ x :: l) = top.filter (· ∉ l) := by
  constructor
  · apply List.filter_congr
    intro y hy
    have hne : y ≠ x := fun heq => hx (heq ▸ hy)
    simp [hne]
  · apply List.filter_congr
    intro y hy
    have hne : y ≠ x := fun heq => hx (heq ▸ hy)
    simp [hne]

/-- The item is refused. -/
theorem Parts.refuse {down top : List ItemRef} (h : Parts types s l down top) (hx : x ∉ top) :
    Parts types s (x :: l) down top := by
  obtain ⟨⟨new, old, heq, hnew, hold⟩, htopNew, htopOld⟩ := h
  unfold Parts
  rw [(filter_mem_cons hx).1, (filter_mem_cons hx).2]
  exact ⟨⟨new, old, heq, hnew.trans ((List.sublist_cons_self x l).filter _), hold⟩,
    htopNew.trans ((List.sublist_cons_self x l).filter _), htopOld⟩

theorem Parts.consDown {down top : List ItemRef} (h : Parts types s l down top) (hx : x ∉ top)
    (hdown : s.isAlwaysOnTop types x = false) : Parts types s (x :: l) (x :: down) top := by
  obtain ⟨⟨new, old, heq, hnew, hold⟩, htopNew, htopOld⟩ := h
  unfold Parts
  rw [(filter_mem_cons hx).1, (filter_mem_cons hx).2, List.filter_cons_of_pos (by simp [hdown]),
    List.filter_cons_of_neg (by simp [hdown])]
  exact ⟨⟨x :: new, old, by rw [heq]; rfl, hnew.cons_cons x, hold⟩, htopNew, htopOld⟩

theorem Parts.filter_insert {down top : List ItemRef} {test : ItemRef → Bool}
    (h : Parts types s l down top) (hx : x ∉ top)
    (htest : ∀ y ∈ l, s.isAlwaysOnTop types y = true → test y = true) :
    (insertBefore test x top).filter (· ∈ x :: l) = x :: top.filter (· ∈ l) ∧
      (insertBefore test x top).filter (· ∉ x :: l) = top.filter (· ∉ l) := by
  have hfront : ∀ y ∈ top, decide (y ∈ x :: l) = true → test y = true := by
    intro y hy hin
    have hne : y ≠ x := fun hyx => hx (hyx ▸ hy)
    have hl : y ∈ l := by simpa [hne] using hin
    have hmem := h.2.1.subset (List.mem_filter.mpr ⟨hy, by simpa using hl⟩)
    exact htest y hl (List.mem_filter.mp hmem).2
  rw [filter_insertBefore_of_mem (by simp) hfront, filter_insertBefore_of_notMem (by simp),
    (filter_mem_cons hx).1, (filter_mem_cons hx).2]
  exact ⟨rfl, rfl⟩

theorem Parts.consTop {down top : List ItemRef} {test : ItemRef → Bool}
    (h : Parts types s l down top) (hx : x ∉ top) (htop : s.isAlwaysOnTop types x = true)
    (htest : ∀ y ∈ l, s.isAlwaysOnTop types y = true → test y = true) :
    Parts types s (x :: l) down (insertBefore test x top) := by
  obtain ⟨hnewX, holdX⟩ := h.filter_insert hx htest
  obtain ⟨⟨new, old, heq, hnew, hold⟩, htopNew, htopOld⟩ := h
  unfold Parts
  rw [hnewX, holdX, List.filter_cons_of_neg (by simp [htop]), List.filter_cons_of_pos htop]
  exact ⟨⟨new, old, heq, hnew, hold⟩, htopNew.cons_cons x, htopOld⟩

/-- The items `l` have been added to `s`, the first one last. -/
structure Merged (types : ℕ → ItemType) (s : State) (l : List ItemRef) (t : State) : Prop where
  id : ∀ y, (t.item y).id = (s.item y).id
  ordered : t.Ordered types
  parts : Parts types s l t.downItems t.topItems
  whole : s.Plain types l →
    t.downItems = (l.filter fun y => !s.isAlwaysOnTop types y) ++ s.downItems ∧
      t.topItems.filter (· ∈ l) = l.filter (s.isAlwaysOnTop types) ∧
      t.topItems.filter (· ∉ l) = s.topItems ∧ t.tile.ground = s.tile.ground

theorem Merged.nil (h : s.Ordered types) : Merged types s [] s where
  id _ := rfl
  ordered := h
  parts := ⟨⟨[], s.downItems, rfl, .refl _, .refl _⟩, by simp, by simp⟩
  whole _ := by simp

theorem Plain.of_cons (h : s.Plain types (x :: l)) : s.Plain types l where
  field y hy := h.field y (List.mem_cons_of_mem x hy)
  splash y hy := h.splash y (List.mem_cons_of_mem x hy)
  room := by
    have hroom := h.room
    rw [List.length_cons] at hroom
    omega

theorem Merged.length (h : Merged types s l t) (hplain : s.Plain types l) :
    t.tile.items.length = s.tile.items.length + l.length := by
  obtain ⟨hdown, hnew, hold, -⟩ := h.whole hplain
  have htop : t.topItems.length =
      (t.topItems.filter (· ∈ l)).length + (t.topItems.filter (· ∉ l)).length := by
    rw [List.length_eq_length_filter_add (l := t.topItems) fun y => decide (y ∈ l)]
    simp
  have hl : l.length = (l.filter (s.isAlwaysOnTop types)).length +
      (l.filter fun y => !s.isAlwaysOnTop types y).length :=
    List.length_eq_length_filter_add _
  rw [hnew, hold] at htop
  rw [← items_eq t, List.length_append, hdown, List.length_append, htop, ← items_eq s,
    List.length_append]
  omega

/-- Where nothing is replaced or refused there is room for the next item. -/
theorem Merged.room (h : Merged types s l t) (hplain : s.Plain types (x :: l)) :
    t.tile.items.length < 0xFFFF := by
  have hroom := hplain.room
  rw [h.length hplain.of_cons]
  rw [List.length_cons] at hroom
  omega

/-- A removal leaves what is in order in order. -/
theorem Merged.remove (h : Merged types s l t) (old : ItemRef) :
    Parts types s l (t.removeThing types old 1).downItems
      (t.removeThing types old 1).topItems := by
  obtain ⟨hdown, htop⟩ := removeThing_parts h.ordered old 1
  obtain ⟨⟨new, rest, hparts, hnew, hrest⟩, htopNew, htopOld⟩ := h.parts
  rw [hparts] at hdown
  obtain ⟨new', rest', heq, hnew', hrest'⟩ := List.sublist_append_iff.mp hdown
  exact ⟨⟨new', rest', heq, hnew'.trans hnew, hrest'.trans hrest⟩,
    (htop.filter _).trans htopNew, (htop.filter _).trans htopOld⟩

theorem type_congr (types : ℕ → ItemType) (hid : ∀ y, (t.item y).id = (s.item y).id)
    (y : ItemRef) : (t.item y).type types = (s.item y).type types := by
  unfold Item.type
  rw [hid]

theorem isAlwaysOnTop_congr (types : ℕ → ItemType) (hid : ∀ y, (t.item y).id = (s.item y).id)
    (y : ItemRef) :
    t.isAlwaysOnTop types y = s.isAlwaysOnTop types y := by
  simp only [isAlwaysOnTop, Item.isAlwaysOnTop, Item.type, hid]

theorem alwaysOnTopOrder_congr (types : ℕ → ItemType) (hid : ∀ y, (t.item y).id = (s.item y).id)
    (y : ItemRef) :
    t.alwaysOnTopOrder types y = s.alwaysOnTopOrder types y := by
  simp only [alwaysOnTopOrder, Item.alwaysOnTopOrder, Item.type, hid]

/-- The next item is added. -/
theorem Merged.cons (h : Merged types s l t) (hground : (s.item x).isGroundTile types = false)
    (hx : x ∉ l) (hnew : x ∉ s.topItems)
    (hsorted : s.isAlwaysOnTop types x = true → ∀ y ∈ l, s.isAlwaysOnTop types y = true →
      s.alwaysOnTopOrder types x ≤ s.alwaysOnTopOrder types y) :
    Merged types s (x :: l) (t.addThing types x) := by
  have htype := type_congr types h.id x
  have htopX := isAlwaysOnTop_congr types h.id x
  have hground' : (t.item x).isGroundTile types = false := by
    unfold Item.isGroundTile at hground ⊢
    rwa [htype]
  have hid : ∀ y, ((t.addThing types x).item y).id = (s.item y).id :=
    fun y => (id_addThing x y).trans (h.id y)
  have hordered := ordered_addThing h.ordered x
  have hout : x ∉ t.topItems := h.parts.notMem hx hnew
  have hplainRoom : s.Plain types (x :: l) → t.tile.items.length < 0xFFFF := h.room
  cases addThing_addsTo h.ordered hground' with
  | refused hsame hwhy =>
    refine ⟨hid, hordered, ?_, fun hplain => ?_⟩
    · rw [hsame]
      exact h.parts.refuse hout
    · rcases hwhy with hfull | hfield
      · exact absurd (h.room hplain) (by omega)
      · rw [htype, hplain.field x List.mem_cons_self] at hfield
        cases hfield
  | down hdownX s₁ hold hdown htop hgroundX =>
    have hdownS := htopX.symm.trans hdownX
    have hparts : Parts types s l s₁.downItems s₁.topItems := by
      rcases hold with rfl | ⟨-, old, rfl⟩
      · exact h.parts
      · exact h.remove old
    refine ⟨hid, hordered, ?_, fun hplain => ?_⟩
    · rw [hdown, htop]
      exact hparts.consDown (hparts.notMem hx hnew) hdownS
    · obtain rfl : s₁ = t := hold.resolve_right fun hfield => by
        rw [htype, hplain.field x List.mem_cons_self] at hfield
        cases hfield.1
      obtain ⟨hall, hallNew, hallOld, hallGround⟩ := h.whole hplain.of_cons
      rw [hdown, htop, hgroundX, (filter_mem_cons hout).1, (filter_mem_cons hout).2, hall,
        List.filter_cons_of_pos (by simp [hdownS]), List.filter_cons_of_neg (by simp [hdownS])]
      exact ⟨rfl, hallNew, hallOld, hallGround⟩
  | top htopT s₁ hold hdown htop hgroundX =>
    have htopS := htopX.symm.trans htopT
    have hparts : Parts types s l s₁.downItems s₁.topItems := by
      rcases hold with rfl | ⟨-, old, rfl⟩
      · exact h.parts
      · exact h.remove old
    have hidS₁ : ∀ y, (s₁.item y).id = (s.item y).id := by
      rcases hold with rfl | ⟨-, old, rfl⟩
      · exact h.id
      · exact fun y => (id_removeThing old y 1).trans (h.id y)
    have htest : ∀ y ∈ l, s.isAlwaysOnTop types y = true →
        decide (s₁.alwaysOnTopOrder types x ≤ s₁.alwaysOnTopOrder types y) = true := by
      intro y hy hyTop
      rw [alwaysOnTopOrder_congr types hidS₁, alwaysOnTopOrder_congr types hidS₁, decide_eq_true_eq]
      exact hsorted htopS y hy hyTop
    have hinserted := hparts.consTop (hparts.notMem hx hnew) htopS htest
    refine ⟨hid, hordered, ?_, fun hplain => ?_⟩
    · rw [hdown, htop]
      exact hinserted
    · obtain rfl : s₁ = t := hold.resolve_right fun hsplash => by
        have hno := hplain.splash x List.mem_cons_self
        unfold Item.isSplash at hno hsplash
        rw [htype, hno] at hsplash
        cases hsplash.1
      obtain ⟨hall, hallNew, hallOld, hallGround⟩ := h.whole hplain.of_cons
      obtain ⟨hnewX, holdX⟩ := hparts.filter_insert hout htest
      rw [hdown, htop, hgroundX, List.filter_cons_of_neg (by simp [htopS]),
        List.filter_cons_of_pos htopS]
      exact ⟨hall, hnewX.trans (congrArg (x :: ·) hallNew), holdX.trans hallOld, hallGround⟩

theorem merged_foldr (h : s.Ordered types) (hground : ∀ y ∈ l, (s.item y).isGroundTile types = false)
    (hnodup : l.Nodup) (hnew : ∀ y ∈ l, y ∉ s.topItems)
    (hsorted : (l.filter (s.isAlwaysOnTop types)).Pairwise fun y z =>
      s.alwaysOnTopOrder types y ≤ s.alwaysOnTopOrder types z) :
    Merged types s l (l.foldr (fun x t => t.addThing types x) s) := by
  induction l with
  | nil => exact .nil h
  | cons x l ih =>
    obtain ⟨hx, hl⟩ := List.nodup_cons.mp hnodup
    obtain ⟨hgroundX, hgroundL⟩ := List.forall_mem_cons.mp hground
    obtain ⟨hnewX, hnewL⟩ := List.forall_mem_cons.mp hnew
    have hrest := ih hgroundL hl hnewL
      (hsorted.sublist ((List.sublist_cons_self x l).filter _))
    rw [List.foldr_cons]
    apply hrest.cons hgroundX hx hnewX
    intro htop y hy hyTop
    rw [List.filter_cons_of_pos htop] at hsorted
    exact List.rel_of_pairwise_cons hsorted (List.mem_filter.mpr ⟨hy, hyTop⟩)

/-- A tile as it is filled: a ground where there is one, other items in their order. -/
structure Filled (types : ℕ → ItemType) (item : ItemRef → Item) (tile : Tile) : Prop where
  ordered : Ordered types ⟨item, tile⟩
  ground : ∀ x, tile.ground = some x → (item x).isGroundTile types = true
  items : ∀ x ∈ tile.items, (item x).isGroundTile types = false
  nodup : tile.items.Nodup

/-- The items of the new tile keep their order, and so do those of the old one, of which splashes
and fields may have gone. -/
structure MergesInOrder (types : ℕ → ItemType) (s : State) (newTile : Tile) (t : State) : Prop where
  ordered : t.Ordered types
  down : ∃ new old, t.downItems = new ++ old ∧
    new.Sublist (newTile.items.take newTile.downItemCount) ∧ old.Sublist s.downItems
  topNew : (t.topItems.filter (· ∈ newTile.items)).Sublist
    (newTile.items.drop newTile.downItemCount)
  topOld : (t.topItems.filter (· ∉ newTile.items)).Sublist s.topItems
  whole : s.Plain types newTile.items →
    t.downItems = newTile.items.take newTile.downItemCount ++ s.downItems ∧
      t.topItems.filter (· ∈ newTile.items) = newTile.items.drop newTile.downItemCount ∧
      t.topItems.filter (· ∉ newTile.items) = s.topItems ∧
      t.tile.ground = newTile.ground.or s.tile.ground

theorem filter_items {item : ItemRef → Item} {tile : Tile} (h : Ordered types ⟨item, tile⟩) :
    tile.items.filter (fun y => !isAlwaysOnTop types ⟨item, tile⟩ y) =
        tile.items.take tile.downItemCount ∧
      tile.items.filter (isAlwaysOnTop types ⟨item, tile⟩) =
        tile.items.drop tile.downItemCount := by
  obtain ⟨hdown, htop, -⟩ := Parted.parts h
  have hsplit : tile.items = tile.items.take tile.downItemCount ++
      tile.items.drop tile.downItemCount := (List.take_append_drop _ _).symm
  constructor
  · conv_lhs => rw [hsplit]
    rw [List.filter_append, List.filter_eq_self.mpr fun y hy => by simp [hdown y hy],
      List.filter_eq_nil_iff.mpr fun y hy => by simp [htop y hy], List.append_nil]
  · conv_lhs => rw [hsplit]
    rw [List.filter_append, List.filter_eq_nil_iff.mpr fun y hy => by simp [hdown y hy],
      List.filter_eq_self.mpr fun y hy => htop y hy, List.nil_append]

/-- A ground leaves the parts alone. -/
theorem addThing_ground (hx : (s.item x).isGroundTile types = true) :
    (s.addThing types x).tile.items = s.tile.items ∧
      (s.addThing types x).tile.downItemCount = s.tile.downItemCount ∧
      (s.tile.items.length < 0xFFFF → (s.addThing types x).tile.ground = some x) := by
  unfold addThing
  split_ifs with hroom
  · exact ⟨rfl, rfl, fun hlt => absurd hroom (by omega)⟩
  · unfold addGround
    cases s.tile.ground <;> exact ⟨rfl, rfl, fun _ => rfl⟩

theorem mergeTile_inOrder {newTile : Tile} (h : s.Ordered types)
    (hnewTile : Filled types s.item newTile) (hnew : ∀ y ∈ newTile.items, y ∉ s.topItems) :
    MergesInOrder types s newTile (s.mergeTile types newTile) := by
  obtain ⟨hdown, htop⟩ := filter_items hnewTile.ordered
  have hmerged := merged_foldr h hnewTile.items hnewTile.nodup hnew
    (Parted.sorted hnewTile.ordered)
  unfold mergeTile
  rw [List.foldl_reverse]
  dsimp only
  generalize newTile.items.foldr (fun x t => t.addThing types x) s = t at hmerged ⊢
  cases hground : newTile.ground with
  | none =>
    refine ⟨hmerged.ordered, ?_, ?_, hmerged.parts.2.2, fun hplain => ?_⟩
    · rw [← hdown]
      exact hmerged.parts.1
    · rw [← htop]
      exact hmerged.parts.2.1
    · rw [← hdown, ← htop, hground, Option.none_or]
      exact hmerged.whole hplain
  | some ground =>
    have hgroundT : (t.item ground).isGroundTile types = true := by
      unfold Item.isGroundTile
      rw [type_congr types hmerged.id]
      exact hnewTile.ground ground hground
    obtain ⟨hitems, hcount, hplaced⟩ := addThing_ground hgroundT
    have hdownT : (t.addThing types ground).downItems = t.downItems := by
      unfold downItems
      rw [hitems, hcount]
    have htopT : (t.addThing types ground).topItems = t.topItems := by
      unfold topItems
      rw [hitems, hcount]
    refine ⟨ordered_addThing hmerged.ordered ground, ?_, ?_, ?_, fun hplain => ?_⟩
    · rw [hdownT, ← hdown]
      exact hmerged.parts.1
    · rw [htopT, ← htop]
      exact hmerged.parts.2.1
    · rw [htopT]
      exact hmerged.parts.2.2
    · have hlength := hmerged.length hplain
      have hroom := hplain.room
      obtain ⟨hallDown, hallNew, hallOld, -⟩ := hmerged.whole hplain
      rw [hdownT, htopT, ← hdown, ← htop, hplaced (by omega), hground, Option.some_or]
      exact ⟨hallDown, hallNew, hallOld, rfl⟩

/-! ## What a merge reaches -/

theorem mem_things_removeThing {x y : ItemRef} {count : ℕ}
    (hy : y ∈ (s.removeThing types x count).things) : y ∈ s.things := by
  rcases removeThing_cases types s x count with ⟨-, heq | ⟨n, heq⟩⟩ |
    ⟨-, s', -, hperm, -, -, heq⟩
  · rwa [heq] at hy
  · rwa [heq] at hy
  · rw [heq, things_resetTileFlags] at hy
    exact List.mem_of_mem_erase (hperm.mem_iff.mp hy)

theorem item_removeThing_of_notMem {y : ItemRef} (hy : y ∉ s.things) (x : ItemRef) (count : ℕ) :
    (s.removeThing types x count).item y = s.item y := by
  unfold removeThing
  split_ifs with hindex hground htop hmem hmem hpart
  · rfl
  · rfl
  · rfl
  · rfl
  · have hx : x ∈ s.things := mem_things.mpr (.inr (List.mem_of_mem_take hmem))
    have hne : y ≠ x := fun heq => hy (heq ▸ hx)
    exact Function.update_of_ne hne _ _
  · rfl
  · rfl

/-- An addition brings one thing and reaches no object but those of the tile. -/
theorem addThing_reaches (types : ℕ → ItemType) (s : State) (x : ItemRef) :
    (∀ y ∈ (s.addThing types x).things, y = x ∨ y ∈ s.things) ∧
      ∀ y ∉ s.things, (s.addThing types x).item y = s.item y := by
  cases addThing_adds types s x with
  | nothing h =>
    rw [h]
    exact ⟨fun y hy => .inr hy, fun y _ => rfl⟩
  | put s₁ s₂ hold hthings hitem _ h =>
    have hreach : (∀ y ∈ s₁.things, y ∈ s.things) ∧ ∀ y ∉ s.things, s₁.item y = s.item y := by
      rcases hold with rfl | ⟨old, rfl⟩
      · exact ⟨fun y hy => hy, fun y _ => rfl⟩
      · exact ⟨fun y hy => mem_things_removeThing hy,
          fun y hy => item_removeThing_of_notMem hy old 1⟩
    rw [h, things_setTileFlags]
    constructor
    · intro y hy
      exact (List.mem_cons.mp (hthings.mem_iff.mp hy)).imp_right (hreach.1 y)
    · intro y hy
      rw [item_setTileFlags, hitem]
      exact hreach.2 y hy
  | ground oldGround hground h =>
    rw [h]
    constructor
    · intro y hy
      rcases mem_things.mp hy with hx | hitems
      · exact .inl (Option.some.inj hx).symm
      · exact .inr (mem_things.mpr (.inr hitems))
    · exact fun y _ => rfl

theorem foldr_addThing_reaches (types : ℕ → ItemType) (s : State) (l : List ItemRef) :
    (∀ y ∈ (l.foldr (fun x t => t.addThing types x) s).things, y ∈ l ∨ y ∈ s.things) ∧
      ∀ y ∉ l, y ∉ s.things → (l.foldr (fun x t => t.addThing types x) s).item y = s.item y := by
  induction l with
  | nil => exact ⟨fun y hy => .inr hy, fun y _ _ => rfl⟩
  | cons x l ih =>
    rw [List.foldr_cons]
    obtain ⟨hthings, hitem⟩ :=
      addThing_reaches types (l.foldr (fun x t => t.addThing types x) s) x
    constructor
    · intro y hy
      rcases hthings y hy with rfl | hy
      · exact .inl List.mem_cons_self
      · exact (ih.1 y hy).imp_left (List.mem_cons_of_mem x)
    · intro y hl hs
      have hl' : y ∉ l := fun hy => hl (List.mem_cons_of_mem x hy)
      rw [hitem y fun hy => (ih.1 y hy).elim hl' hs]
      exact ih.2 y hl' hs

theorem id_foldr_addThing (types : ℕ → ItemType) (s : State) (l : List ItemRef) (y : ItemRef) :
    ((l.foldr (fun x t => t.addThing types x) s).item y).id = (s.item y).id := by
  induction l with
  | nil => rfl
  | cons x l ih =>
    rw [List.foldr_cons, id_addThing]
    exact ih

/-- The things of a tile. -/
def thingsOf (tile : Tile) : List ItemRef := tile.ground.toList ++ tile.items

theorem mem_thingsOf {tile : Tile} {y : ItemRef} :
    y ∈ thingsOf tile ↔ tile.ground = some y ∨ y ∈ tile.items := by
  unfold thingsOf
  simp [Option.mem_toList]

/-- A merge brings the things of the new tile and reaches no object but those of the two tiles. -/
theorem mergeTile_reaches (types : ℕ → ItemType) (s : State) (newTile : Tile) :
    (∀ y ∈ (s.mergeTile types newTile).things, y ∈ thingsOf newTile ∨ y ∈ s.things) ∧
      (∀ y ∉ thingsOf newTile, y ∉ s.things → (s.mergeTile types newTile).item y = s.item y) ∧
      ∀ y, ((s.mergeTile types newTile).item y).id = (s.item y).id := by
  obtain ⟨hthings, hitem⟩ := foldr_addThing_reaches types s newTile.items
  have hid := id_foldr_addThing types s newTile.items
  unfold mergeTile
  rw [List.foldl_reverse]
  dsimp only
  generalize newTile.items.foldr (fun x t => t.addThing types x) s = t at hthings hitem hid ⊢
  cases hground : newTile.ground with
  | none =>
    refine ⟨fun y hy => ?_, fun y hout hy => ?_, hid⟩
    · exact (hthings y hy).imp_left fun hmem => mem_thingsOf.mpr (.inr hmem)
    · exact hitem y (fun hmem => hout (mem_thingsOf.mpr (.inr hmem))) hy
  | some ground =>
    obtain ⟨hadded, hkept⟩ := addThing_reaches types t ground
    refine ⟨fun y hy => ?_, fun y hout hy => ?_, fun y => (id_addThing ground y).trans (hid y)⟩
    · rcases hadded y hy with rfl | hy
      · exact .inl (mem_thingsOf.mpr (.inl hground))
      · exact (hthings y hy).imp_left fun hmem => mem_thingsOf.mpr (.inr hmem)
    · have hitems : y ∉ newTile.items := fun hmem => hout (mem_thingsOf.mpr (.inr hmem))
      dsimp only
      rw [hkept y fun hmem => (hthings y hmem).elim hitems hy]
      exact hitem y hitems hy

theorem Filled.congr {item item' : ItemRef → Item} {tile : Tile} (h : Filled types item tile)
    (hid : ∀ y, (item' y).id = (item y).id) : Filled types item' tile := by
  have htype : ∀ y, (item' y).isGroundTile types = (item y).isGroundTile types := by
    intro y
    unfold Item.isGroundTile Item.type
    rw [hid]
  refine ⟨h.ordered.congr hid rfl rfl, fun x hx => ?_, fun x hx => ?_, h.nodup⟩
  · rw [htype]
    exact h.ground x hx
  · rw [htype]
    exact h.items x hx

end State

end TibiaServer.Tiles
