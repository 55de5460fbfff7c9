import TibiaServer.Cylinders.ContainerIterator
import TibiaServer.Game.Trade
/-!
# Looking at what is traded

`ProtocolGame::sendTradeItemRequest` lists a traded container with everything in it, and
`Game::playerLookInTrade` walks the container again to find the item at an index.  Both walks
number the items alike (`look_shows_listed`).
-/

namespace TibiaServer.Game

open TibiaServer.Cylinders
open TibiaServer.Library
open TibiaServer.World (Position)

section Walks

variable (itemlist : ItemRef → List ItemRef) (getContainer : ItemRef → Bool)

/-! ## The list -/

/-- The loop over one container: what is behind `listContainer` and `itemList`. -/
def listItems (listContainer itemList : List ItemRef) (items : List ItemRef) :
    List ItemRef × List ItemRef :=
  items.foldl (fun (listContainer, itemList) containerItem =>
    (if getContainer containerItem then listContainer ++ [containerItem] else listContainer,
      itemList ++ [containerItem])) (listContainer, itemList)

/-- `while (!listContainer.empty())`, none when `n` rounds do not suffice. -/
def listLoop : ℕ → List ItemRef → List ItemRef → Option (List ItemRef)
  | 0, _, _ => none
  | _ + 1, [], itemList => some itemList
  | n + 1, container :: listContainer, itemList =>
    let (listContainer, itemList) :=
      listItems getContainer listContainer itemList (itemlist container)
    listLoop n listContainer itemList

/-- `sendTradeItemRequest`: the byte for the number of items, and the items. -/
def sendTradeItemRequest (n : ℕ) (item : ItemRef) : Option (BitVec 8 × List ItemRef) :=
  if getContainer item then
    (listLoop itemlist getContainer n [item] [item]).map fun itemList =>
      (BitVec.ofNat 8 itemList.length, itemList)
  else some (1, [item])

/-! ## The index -/

/-- The loop over one container: the item that is found, or the containers and the index with
which the walk goes on. -/
def lookItems (containers : List ItemRef) (index : BitVec 8) :
    List ItemRef → ItemRef ⊕ List ItemRef × BitVec 8
  | [] => .inr (containers, index)
  | item :: rest =>
    let containers := if getContainer item then containers ++ [item] else containers
    let index := index - 1
    if index = 0 then .inl item else lookItems containers index rest

/-- `while (i < containers.size())`, none when `n` rounds do not suffice. -/
def lookLoop : ℕ → List ItemRef → ℕ → BitVec 8 → Option (Option ItemRef)
  | 0, _, _, _ => none
  | n + 1, containers, i, index =>
    match containers[i]? with
    | none => some none
    | some container =>
      match lookItems getContainer containers index (itemlist container) with
      | .inl item => some (some item)
      | .inr (containers, index) => lookLoop n containers (i + 1) index

/-- What `playerLookInTrade` finds in the item that is traded. -/
def lookInItem (n : ℕ) (tradeItem : ItemRef) (index : BitVec 8) : Option (Option ItemRef) :=
  if index = 0 then some (some tradeItem)
  else if !getContainer tradeItem then some none
  else lookLoop itemlist getContainer n [tradeItem] 0 index

/-- The arguments of `eventPlayerOnLookInTrade`. -/
structure LookInTrade where
  player : PlayerRef
  tradePartner : PlayerRef
  item : ItemRef
  lookDistance : ℤ
  deriving DecidableEq

/-- The partner of the player and the item that he wants to see. -/
def Trades.shownOffer (g : Trades) (player : PlayerRef) (lookAtCounterOffer : Bool) :
    Option (PlayerRef × ItemRef) :=
  if !g.online player then none
  else
    (g.player player).tradePartner.bind fun tradePartner =>
      (g.player (if lookAtCounterOffer then tradePartner else player)).tradeItem.map
        fun tradeItem => (tradePartner, tradeItem)

/-- `Game::playerLookInTrade` -/
def playerLookInTrade (g : Trades) (getPosition : PlayerRef → Position)
    (getItemPosition : ItemRef → Position) (n : ℕ) (player : PlayerRef)
    (lookAtCounterOffer : Bool) (index : BitVec 8) : Option (Option LookInTrade) :=
  match g.shownOffer player lookAtCounterOffer with
  | none => some none
  | some (tradePartner, tradeItem) =>
    let lookDistance := max ((getPosition player).getDistanceX (getItemPosition tradeItem))
      ((getPosition player).getDistanceY (getItemPosition tradeItem))
    (lookInItem itemlist getContainer n tradeItem index).map fun item =>
      item.map fun item => ⟨player, tradePartner, item, lookDistance⟩

/-! ## Both walks go level by level -/

variable {itemlist getContainer}

theorem listItems_eq (listContainer itemList items : List ItemRef) :
    listItems getContainer listContainer itemList items =
      (listContainer ++ items.filter getContainer, itemList ++ items) := by
  unfold listItems
  induction items generalizing listContainer itemList with
  | nil => simp
  | cons item items ih =>
    rw [List.foldl_cons, ih]
    by_cases hitem : getContainer item = true <;> simp [hitem]

theorem listLoop_of_breadthFirst {waiting l : List ItemRef}
    (h : BreadthFirst itemlist getContainer waiting l) (itemList : List ItemRef) :
    ∃ n, listLoop itemlist getContainer n waiting itemList = some (itemList ++ l) := by
  induction h generalizing itemList with
  | done => exact ⟨1, by simp [listLoop]⟩
  | @next x waiting rest _ ih =>
    obtain ⟨n, hn⟩ := ih (itemList ++ itemlist x)
    refine ⟨n + 1, ?_⟩
    rw [listLoop, listItems_eq]
    simp only
    rw [hn, List.append_assoc]

theorem toNat_ne_zero {index : BitVec 8} (h : index ≠ 0) : index.toNat ≠ 0 := fun hzero =>
  h (BitVec.eq_of_toNat_eq hzero)

/-- The index is counted down by one for each item; it is 0 only at the item that is found. -/
theorem lookItems_eq (containers items : List ItemRef) {index : BitVec 8} (hindex : index ≠ 0) :
    lookItems getContainer containers index items =
      match items[index.toNat - 1]? with
      | some item => .inl item
      | none => .inr (containers ++ items.filter getContainer, index - .ofNat 8 items.length) := by
  induction items generalizing containers index with
  | nil => simp [lookItems]
  | cons item items ih =>
    have hpos := toNat_ne_zero hindex
    have hpred : (index - 1).toNat = index.toNat - 1 := by
      have hlt := index.isLt
      rw [BitVec.toNat_sub]
      simp only [BitVec.ofNat_eq_ofNat, BitVec.toNat_ofNat]
      omega
    rw [lookItems]
    by_cases hlast : index - 1 = 0
    · have hone : index.toNat - 1 = 0 := by
        rw [← hpred, hlast]
        rfl
      rw [if_pos hlast, hone]
      rfl
    · have hmore : index.toNat - 1 = (index - 1).toNat - 1 + 1 := by
        have hne := toNat_ne_zero hlast
        omega
      have hcount : index - 1 - BitVec.ofNat 8 items.length =
          index - BitVec.ofNat 8 (item :: items).length := by
        rw [List.length_cons, BitVec.sub_sub, BitVec.ofNat_add, BitVec.add_comm]
        rfl
      rw [if_neg hlast, ih _ hlast, hmore, List.getElem?_cons_succ, hcount]
      by_cases hitem : getContainer item = true <;> simp [hitem]

theorem lookLoop_of_breadthFirst {waiting l : List ItemRef}
    (h : BreadthFirst itemlist getContainer waiting l) :
    ∀ {containers : List ItemRef} {i : ℕ} {index : BitVec 8}, containers.drop i = waiting →
      index ≠ 0 →
        ∃ n, lookLoop itemlist getContainer n containers i index =
          some l[index.toNat - 1]? := by
  induction h with
  | done =>
    intro containers i index hdrop _
    refine ⟨1, ?_⟩
    rw [lookLoop, ← List.head?_drop, hdrop]
    rfl
  | @next x waiting rest _ ih =>
    intro containers i index hdrop hindex
    have hget : containers[i]? = some x := by rw [← List.head?_drop, hdrop, List.head?_cons]
    have hle : i + 1 ≤ containers.length := by
      have hlength := congrArg List.length hdrop
      rw [List.length_drop, List.length_cons] at hlength
      omega
    have hdrop' : (containers ++ (itemlist x).filter getContainer).drop (i + 1) =
        waiting ++ (itemlist x).filter getContainer := by
      rw [List.drop_append_of_le_length hle, ← List.tail_drop, hdrop, List.tail_cons]
    by_cases hhere : index.toNat - 1 < (itemlist x).length
    · refine ⟨1, ?_⟩
      rw [lookLoop, hget]
      simp only
      rw [lookItems_eq _ _ hindex, List.getElem?_eq_getElem hhere,
        List.getElem?_append_left hhere, List.getElem?_eq_getElem hhere]
    · have hlt := index.isLt
      have hnat : (index - BitVec.ofNat 8 (itemlist x).length).toNat =
          index.toNat - (itemlist x).length := by
        rw [BitVec.toNat_sub, BitVec.toNat_ofNat]
        have hpos := toNat_ne_zero hindex
        omega
      have hnext : index - BitVec.ofNat 8 (itemlist x).length ≠ 0 := by
        intro h
        rw [h] at hnat
        have hzero : (0 : BitVec 8).toNat = 0 := rfl
        have hpos := toNat_ne_zero hindex
        omega
      obtain ⟨n, hn⟩ := ih hdrop' hnext
      refine ⟨n + 1, ?_⟩
      rw [lookLoop, hget]
      simp only
      rw [lookItems_eq _ _ hindex, List.getElem?_eq_none (by omega)]
      simp only
      rw [hn, hnat, List.getElem?_append_right (by omega)]
      congr 2
      omega

/-! ## What is shown -/

/-- For a traded item with at most a hundred items in it the list is sent with their number, and
a look at any index shows the entry of the list at that index, or nothing behind its end. -/
theorem look_shows_listed {up : ItemRef → Option ItemRef}
    (h : Branches itemlist getContainer up) (g : Trades) (getPosition : PlayerRef → Position)
    (getItemPosition : ItemRef → Position) (player tradePartner : PlayerRef)
    (lookAtCounterOffer : Bool) (tradeItem : ItemRef)
    (hoffer : g.shownOffer player lookAtCounterOffer = some (tradePartner, tradeItem))
    (inside : Finset ItemRef) (hinside : ∀ y, y ∈ inside ↔ Above up y tradeItem)
    (hhundred : inside.card ≤ 100) :
    ∃ n count entries,
      sendTradeItemRequest itemlist getContainer n tradeItem = some (count, entries) ∧
      count.toNat = entries.length ∧
      ∀ index : BitVec 8, ∃ m, (playerLookInTrade itemlist getContainer g getPosition
        getItemPosition m player lookAtCounterOffer index).map (Option.map LookInTrade.item) =
          some entries[index.toNat]? := by
  have hlook : ∀ m index, (playerLookInTrade itemlist getContainer g getPosition getItemPosition
      m player lookAtCounterOffer index).map (Option.map LookInTrade.item) =
        lookInItem itemlist getContainer m tradeItem index := by
    intro m index
    unfold playerLookInTrade
    rw [hoffer]
    simp only [Option.map_map]
    cases lookInItem itemlist getContainer m tradeItem index with
    | none => rfl
    | some item => cases item <;> rfl
  simp only [hlook]
  have hzero : (0 : BitVec 8).toNat = 0 := rfl
  by_cases hcontainer : getContainer tradeItem = true
  · have hfinite : {y | Above up y tradeItem}.Finite :=
      inside.finite_toSet.subset fun y hy => Finset.mem_coe.mpr ((hinside y).mpr hy)
    obtain ⟨l, hwalk, hnodup, hmem⟩ := h.exists_breadthFirst hfinite
    have hlength : l.length ≤ 100 := by
      have hcard : l.toFinset = inside := by
        ext y
        rw [List.mem_toFinset, hmem, hinside]
      rwa [← List.toFinset_card_of_nodup hnodup, hcard]
    obtain ⟨n, hn⟩ := listLoop_of_breadthFirst hwalk [tradeItem]
    refine ⟨n, BitVec.ofNat 8 (tradeItem :: l).length, tradeItem :: l, ?_, ?_, ?_⟩
    · unfold sendTradeItemRequest
      rw [if_pos hcontainer, hn]
      rfl
    · rw [BitVec.toNat_ofNat, List.length_cons]
      omega
    · intro index
      unfold lookInItem
      by_cases hindex : index = 0
      · simp only [hindex, if_true, hzero]
        exact ⟨0, rfl⟩
      · have hstart : [tradeItem].drop 0 = [tradeItem] := rfl
        obtain ⟨m, hm⟩ := lookLoop_of_breadthFirst hwalk hstart hindex
        have hpos := toNat_ne_zero hindex
        have hsucc : index.toNat = index.toNat - 1 + 1 := by omega
        refine ⟨m, ?_⟩
        rw [if_neg hindex, if_neg (by simp [hcontainer]), hm, hsucc, List.getElem?_cons_succ]
        rfl
  · refine ⟨0, 1, [tradeItem], ?_, rfl, ?_⟩
    · unfold sendTradeItemRequest
      exact if_neg hcontainer
    · intro index
      refine ⟨0, ?_⟩
      unfold lookInItem
      by_cases hindex : index = 0
      · rw [if_pos hindex, hindex, hzero]
        rfl
      · have hpos := toNat_ne_zero hindex
        rw [if_neg hindex, if_pos (by simp [hcontainer]), List.getElem?_eq_none]
        simp only [List.length_singleton]
        omega

end Walks

/-- A player who trades a bag. -/
def bagTrade : Trades where
  player _ := { tradePartner := some 2, tradeItem := some 0 }

theorem bag_looked_at :
    ∃ n count entries,
      sendTradeItemRequest bagItems (fun x => x = 0 ∨ x = 2 ∨ x = 3) n 0 = some (count, entries) ∧
      count.toNat = entries.length ∧
      ∀ index : BitVec 8, ∃ m, (playerLookInTrade bagItems (fun x => x = 0 ∨ x = 2 ∨ x = 3)
        bagTrade (fun _ => ⟨0, 0, 0⟩) (fun _ => ⟨0, 0, 0⟩) m 1 false index).map
          (Option.map LookInTrade.item) = some entries[index.toNat]? :=
  look_shows_listed branches_bag bagTrade _ _ 1 2 false 0 rfl {1, 2, 3, 4}
    (fun y => above_bag.symm) (by decide)

end TibiaServer.Game
