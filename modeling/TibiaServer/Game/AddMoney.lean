import TibiaServer.Game.Accounting
import TibiaServer.Game.Coins
import TibiaServer.Library.Run
/-!
# Giving money

`Game::addMoney` adds each stack of coins to the cylinder, and to its tile where the cylinder
refuses it.  The coins that are created are worth the amount for the amounts of `Exact`; they all
come to stand where each stack settles, in the cylinder or on the tile (`addMoney_exact_iff`).
-/

namespace TibiaServer.Game

open TibiaServer.Cylinders
open TibiaServer.Library
open TibiaServer.World (Position)
open ReturnValue

/-- `cylinder->getTile()` -/
def cylinderTile (s : State) : Cylinder → Option Position
  | .player p => (s.player p).tile.bind s.getTile
  | .container x => (s.getItemTile x).bind s.getTile
  | .tile t => s.getTile t

/-- The object that `CreateItem` makes. -/
def createObject (s : State) (stack : ℕ × ℕ) : Option (State × ItemRef) :=
  (createStack s.items stack.1 stack.2).map fun item =>
    ({ s.setItem s.fresh item with fresh := s.fresh + 1 }, s.fresh)

def dropFlags : cylinderflags_t := { FLAG_NOLIMIT := true }

/-- One stack; where there is no item or no tile `internalAddItem` answers at once. -/
def giveCoins (cylinder : Cylinder) (flags : cylinderflags_t) (s : State) (stack : ℕ × ℕ) :
    Option State :=
  match createObject s stack with
  | none => some s
  | some (s, remaindItem) =>
    (internalAddItem s cylinder remaindItem INDEX_WHEREEVER flags false).bind fun r =>
      if r.ret ≠ NOERROR then
        match cylinderTile r.state cylinder with
        | none => some r.state
        | some t =>
          (internalAddItem r.state (.tile t) remaindItem INDEX_WHEREEVER dropFlags false).map
            AddResult.state
      else some r.state

/-- `Game::addMoney` -/
def addMoney (s : State) (cylinder : Cylinder) (money : UInt64) (flags : cylinderflags_t) :
    Option State :=
  Run.run (giveCoins cylinder flags) s (coinStacks money)

/-- What one coin is worth. -/
def coinWorth (id : ℕ) : ℕ := getWorth { id := id }

/-- What comes to stand somewhere of the coins, as each stack is given. -/
def placedWorth (cylinder : Cylinder) (flags : cylinderflags_t) : State → List (ℕ × ℕ) → ℤ
  | _, [] => 0
  | s, stack :: rest =>
    match createStack s.items stack.1 stack.2, giveCoins cylinder flags s stack with
    | some item, some t =>
      coinWorth stack.1 * ((t.units item.kind : ℤ) - s.units item.kind) +
        placedWorth cylinder flags t rest
    | _, _ => 0

/-- The stack settles in the cylinder, or it is refused and settles on the tile. -/
def StackSettles (cylinder : Cylinder) (flags : cylinderflags_t) (s : State) (stack : ℕ × ℕ) :
    Prop :=
  ∀ w x, createObject s stack = some (w, x) →
    Settles cylinder w x INDEX_WHEREEVER flags ∨
      addAnswer w cylinder x (addDestination w cylinder x INDEX_WHEREEVER flags) ≠ NOERROR ∧
        ∃ t, cylinderTile w cylinder = some t ∧ Settles (.tile t) w x INDEX_WHEREEVER dropFlags

section Steps

/-- The state is well-formed again and has its types and cylinders. -/
structure Stays (s t : State) : Prop where
  wellFormed : WellFormed t
  items : t.items = s.items
  cylinders : t.cylinders = s.cylinders

theorem Stays.trans {s t u : State} (hst : Stays s t) (htu : Stays t u) : Stays s u :=
  ⟨htu.wellFormed, htu.items.trans hst.items, htu.cylinders.trans hst.cylinders⟩

variable {s : State} {cylinder : Cylinder} {flags : cylinderflags_t} {stack : ℕ × ℕ}
  {item : ItemRef} {d : Destination} {index : ℤ}

theorem Stays.postNotification {s t : State} (h : Stays s t) (c : Cylinder) :
    Stays s (t.postNotification c) := by
  have hplaces := State.samePlaces_postNotification t c
  exact ⟨⟨h.wellFormed.toStocked.of_places hplaces,
    Parented.postNotification h.wellFormed.parent c⟩, hplaces.items.trans h.items,
    hplaces.cylinders.trans h.cylinders⟩

theorem stays_addAndNotify (hs : WellFormed s) (hc : d.cylinder ∈ s.cylinders)
    (hitem : Addable s item) (hcount : s.getItemCount item ≤ 100) :
    Stays s (addAndNotify s d item) := by
  have hstocked := hs.toStocked.addThing hc hitem.nowhere hitem.old
    (fun hstack => ⟨hitem.count hstack, hcount⟩) d.index
  have hsame := State.sameItems_addThing hs.toStocked hc d.index item
  have hcontainer : ∀ x, d.cylinder = .container x → s.isContainer x = true :=
    fun x hx => (hs.container x).mp (hx ▸ hc)
  have hadded : Stays s (s.addThing d.cylinder d.index item) :=
    ⟨⟨hstocked, Parented.addThing hs.parent hcontainer d.index item⟩, hsame.items,
      hsame.cylinders⟩
  unfold addAndNotify
  dsimp only
  split
  · exact hadded.postNotification d.cylinder
  · exact hadded

theorem stays_mergeAndAdd {destCylinder : Cylinder} (hs : WellFormed s)
    (hdest : destCylinder ∈ s.cylinders) (hitem : Addable s item)
    (hcount : s.getItemCount item ≤ 100)
    (hd : addDestination s destCylinder item index flags = d) {x : ItemRef}
    (hx : addTarget s item d = some x) {again : State → ItemRef → Option AddResult}
    (hagain : ∀ w y r, Stays s w → Addable w y → w.getItemCount y ≤ 100 → again w y = some r →
      Stays w r.state) {r : AddResult}
    (h : mergeAndAdd s d item x (addCount s destCylinder item d) again = some r) :
    Stays s r.state := by
  obtain ⟨hmerged, hv, hitemV, -⟩ := mergeState_spec hs hitem hd hx
    (addCount s destCylinder item d)
  have hstack := hmerged.isStackable.trans (addTarget_spec hs hitem hd hx).2.2.1
  have hc := addDestination_mem hs hdest hd
  have hle : addCount s destCylinder item d ≤ s.getItemCount item := addCount_le s item d
  have hstays : Stays s (mergeState s d x (addCount s destCylinder item d)) :=
    ⟨hv, hmerged.items, hmerged.cylinders⟩
  unfold mergeAndAdd at h
  dsimp only at h
  split at h
  next hrest =>
    split at h
    next =>
      obtain ⟨⟨w, y⟩, hclone, hmap⟩ := Option.bind_eq_some_iff.mp h
      obtain ⟨r', hr', rfl⟩ := Option.map_eq_some_iff.mp hmap
      have hcopied := copied_of_clone hv hstack hrest (by omega) hclone
      have hcountY := hcopied.count
      have hcopy : Stays s w := hstays.trans
        ⟨hcopied.wellFormed, hcopied.items, hcopied.cylinders⟩
      exact hcopy.trans (hagain w y r' hcopy hcopied.addable (by omega) hr')
    next =>
      rw [← Option.some.inj h]
      exact hstays.trans (stays_addAndNotify hv (hmerged.cylinders ▸ hc) hitemV
        (hmerged.count.trans_le hcount))
  next =>
    rw [← Option.some.inj h]
    dsimp only
    split
    · exact hstays.postNotification d.cylinder
    · exact hstays

/-- A well-formed state stays so when a stack of at most 100 is added. -/
theorem stays_internalAddItemLoop {destCylinder : Cylinder} (fuel : ℕ) {r : AddResult}
    (hs : WellFormed s) (hdest : destCylinder ∈ s.cylinders) (hitem : Addable s item)
    (hcount : s.getItemCount item ≤ 100)
    (h : internalAddItemLoop destCylinder fuel s item index flags false = some r) :
    Stays s r.state := by
  induction fuel generalizing s item index flags r with
  | zero => cases h
  | succ fuel ih =>
    unfold internalAddItemLoop at h
    dsimp only at h
    generalize hd : addDestination s destCylinder item index flags = d at h
    split at h
    next => exact Option.some.inj h ▸ ⟨hs, rfl, rfl⟩
    next =>
      rw [if_neg Bool.false_ne_true] at h
      split at h
      next x hx =>
        apply stays_mergeAndAdd hs hdest hitem hcount hd hx _ h
        intro w y r' hw hy hcountY hr'
        exact ih hw.wellFormed (hw.cylinders ▸ hdest) hy hcountY hr'
      next =>
        rw [← Option.some.inj h]
        exact stays_addAndNotify hs (addDestination_mem hs hdest hd) hitem hcount

/-! ## One stack -/

/-- The object that is created stands nowhere, and nothing else changes. -/
theorem createObject_spec (hs : WellFormed s) (hcoins : CoinTypes s.items)
    (htype : stack.1 ∈ [ITEM_GOLD_COIN, ITEM_PLATINUM_COIN, ITEM_CRYSTAL_COIN])
    (hone : 1 ≤ stack.2) (hfull : stack.2 ≤ 100) :
    ∃ w item, createStack s.items stack.1 stack.2 = some item ∧
      createObject s stack = some (w, s.fresh) ∧ Stays s w ∧ Addable w s.fresh ∧
      w.getItemCount s.fresh = stack.2 ∧ (w.item s.fresh).units w.items = stack.2 ∧
      (w.item s.fresh).kind = item.kind ∧ (∀ k, w.units k = s.units k) := by
  obtain ⟨hid, hstack⟩ := hcoins stack.1 htype
  have hne : stack.1 ≠ 0 := by
    intro hzero
    rw [hzero] at htype
    exact absurd htype (by decide)
  have hcreate := createStack_coin hid hstack hne stack.2
  rw [if_neg (by omega)] at hcreate
  generalize hitem : Item.ofStack s.items stack.1 stack.2 = item at hcreate
  have hcount : item.count = stack.2 := by
    rw [← hitem, ofStack_count stack.1 (by omega)]
    omega
  have hitemId : item.id = stack.1 := by
    rw [← hitem]
    exact ofStack_id stack.1 stack.2
  have hcontainer : item.container = none := by
    rw [← hitem]
    exact ofStack_container stack.1 stack.2
  have hparent : item.parent = none := by
    rw [← hitem]
    exact ofStack_parent stack.1 stack.2
  have hfresh : (s.item s.fresh).container = none := by
    by_contra hsome
    have hisContainer : s.isContainer s.fresh = true := Option.isSome_iff_ne_none.mpr hsome
    exact lt_irrefl _ (hs.plain s.fresh hisContainer).1
  have hsame : item.container = (s.item s.fresh).container := hcontainer.trans hfresh.symm
  have hcontents := s.contents_setItem hsame
  have hself : (s.setItem s.fresh item).item s.fresh = item := Function.update_self _ _ _
  have hnew : ∀ c, s.fresh ∉ s.contents c := fun c hc => lt_irrefl _ (hs.old c _ hc)
  refine ⟨{ s.setItem s.fresh item with fresh := s.fresh + 1 }, item, hcreate, ?_, ?_, ?_, ?_, ?_, ?_, ?_⟩
  · unfold createObject
    rw [hcreate, Option.map_some]
  · refine ⟨⟨stocked_withItem hs.toStocked hsame, ?_⟩, rfl, rfl⟩
    intro x y hxy
    have hxy' : ((s.setItem s.fresh item).item x).parent = some (.container y) := hxy
    by_cases hx : x = s.fresh
    · rw [hx, hself, hparent] at hxy'
      cases hxy'
    · have hother : (s.setItem s.fresh item).item x = s.item x := Function.update_of_ne hx _ _
      rw [hother] at hxy'
      exact (s.isContainer_setItem hsame y).trans (hs.parent x y hxy')
  · refine ⟨fun c hc => hnew c (hcontents c ▸ hc), Nat.lt_succ_self _, fun _ => ?_, ?_⟩
    · change 1 ≤ ((s.setItem s.fresh item).item s.fresh).count
      rw [hself, hcount]
      exact hone
    · change ((s.setItem s.fresh item).item s.fresh).count < 256
      rw [hself, hcount]
      omega
  · change ((s.setItem s.fresh item).item s.fresh).count = stack.2
    rw [hself, hcount]
  · change ((s.setItem s.fresh item).item s.fresh).units s.items = stack.2
    rw [hself, Item.units, hitemId, hstack, if_pos rfl, hcount]
  · exact congrArg Item.kind hself
  · intro k
    unfold State.units
    apply Stock.total_congr
    · intro c _
      exact .of_eq (hcontents c)
    · intro c _ x hx
      have hne : x ≠ s.fresh := fun heq => hnew c (heq ▸ hx)
      simp [State.kindUnits, State.setItem, hne]

theorem tile_mem_of_cylinderTile {t : Position} (h : cylinderTile s cylinder = some t) :
    .tile t ∈ s.cylinders := by
  have hget : ∀ {o : Option Position}, o.bind s.getTile = some t → .tile t ∈ s.cylinders := by
    intro o ho
    obtain ⟨t', -, ht'⟩ := Option.bind_eq_some_iff.mp ho
    unfold State.getTile at ht'
    split_ifs at ht' with hmem
    exact Option.some.inj ht' ▸ hmem
  cases cylinder with
  | player p => exact hget h
  | container x => exact hget h
  | tile t' => exact hget (o := some t') h

/-- All units come to stand exactly where the addition settles. -/
theorem Outcome.units_iff {settles : Prop} {r : AddResult} (h : Outcome s item settles r)
    (hpos : 0 < (s.item item).units s.items) :
    r.state.units (s.item item).kind = s.units (s.item item).kind + (s.item item).units s.items ↔
      settles := by
  constructor
  · intro heq
    by_contra hno
    by_cases hret : r.ret = NOERROR
    · exact (h.short hno hret).ne heq
    · rw [(h.refused hret).1] at heq
      omega
  · exact fun hsettles => (h.settled hsettles).2.2

/-- An object that stands nowhere is added to a cylinder. -/
theorem internalAddItem_outcome {destCylinder : Cylinder} (hs : WellFormed s)
    (hdest : destCylinder ∈ s.cylinders) (hitem : Addable s item)
    (hcount : s.getItemCount item ≤ 100) (index : ℤ) (flags : cylinderflags_t) :
    ∃ r, internalAddItem s destCylinder item index flags false = some r ∧ Stays s r.state ∧
      Outcome s item (Settles destCylinder s item index flags) r ∧
      (r.ret = NOERROR ↔
        addAnswer s destCylinder item (addDestination s destCylinder item index flags) =
          NOERROR) := by
  obtain ⟨r, hr, hcalls⟩ := internalAddItem_calls hs hitem destCylinder index flags
  refine ⟨r, hr, stays_internalAddItemLoop _ hs hdest hitem hcount hr,
    outcome_of_calls hcalls hs hdest hitem, ?_⟩
  constructor
  · intro hret
    by_contra hno
    exact (state_of_refused hcalls hno).1 hret
  · intro hanswer
    by_contra hno
    exact refused_of_calls hcalls hno hanswer

/-- What one stack brings. -/
theorem giveCoins_spec (hs : WellFormed s) (hc : cylinder ∈ s.cylinders)
    (hcoins : CoinTypes s.items) (flags : cylinderflags_t)
    (htype : stack.1 ∈ [ITEM_GOLD_COIN, ITEM_PLATINUM_COIN, ITEM_CRYSTAL_COIN])
    (hone : 1 ≤ stack.2) (hfull : stack.2 ≤ 100) :
    ∃ t item, createStack s.items stack.1 stack.2 = some item ∧
      giveCoins cylinder flags s stack = some t ∧ Stays s t ∧
      t.units item.kind ≤ s.units item.kind + stack.2 ∧
      (t.units item.kind = s.units item.kind + stack.2 ↔ StackSettles cylinder flags s stack) := by
  obtain ⟨w, item, hcreate, hobject, hw, hnew, hcount, hunits, hkind, hsame⟩ :=
    createObject_spec hs hcoins htype hone hfull
  have hfull' : w.getItemCount s.fresh ≤ 100 := hcount.trans_le hfull
  have hpos : 0 < (w.item s.fresh).units w.items := by omega
  have hsettles : StackSettles cylinder flags s stack ↔
      Settles cylinder w s.fresh INDEX_WHEREEVER flags ∨
        addAnswer w cylinder s.fresh (addDestination w cylinder s.fresh INDEX_WHEREEVER flags) ≠
          NOERROR ∧
        ∃ t, cylinderTile w cylinder = some t ∧
          Settles (.tile t) w s.fresh INDEX_WHEREEVER dropFlags := by
    unfold StackSettles
    rw [hobject]
    constructor
    · exact fun h => h w s.fresh rfl
    · intro h w' x' heq
      cases heq
      exact h
  obtain ⟨r, hr, hstays, houtcome, hret⟩ :=
    internalAddItem_outcome hw.wellFormed (hw.cylinders ▸ hc) hnew hfull' INDEX_WHEREEVER flags
  have hiff := houtcome.units_iff hpos
  have hbound := houtcome.bounded
  rw [hkind, hunits, hsame] at hiff hbound
  have hgive : giveCoins cylinder flags s stack =
      if r.ret ≠ NOERROR then
        match cylinderTile r.state cylinder with
        | none => some r.state
        | some t =>
          (internalAddItem r.state (.tile t) s.fresh INDEX_WHEREEVER dropFlags false).map
            AddResult.state
      else some r.state := by
    unfold giveCoins
    rw [hobject]
    dsimp only
    rw [hr, Option.bind_some]
  by_cases hok : r.ret = NOERROR
  · rw [if_neg (not_not.mpr hok)] at hgive
    refine ⟨r.state, item, hcreate, hgive, hw.trans hstays, hbound, ?_⟩
    rw [hiff, hsettles]
    constructor
    · exact .inl
    · exact fun h => h.resolve_right fun h => h.1 (hret.mp hok)
  · obtain ⟨hstate, hno⟩ := houtcome.refused hok
    have hanswer := mt hret.mpr hok
    rw [if_pos hok, hstate] at hgive
    cases htile : cylinderTile w cylinder with
    | none =>
      rw [htile] at hgive
      refine ⟨w, item, hcreate, hgive, hw, by rw [hsame]; omega, ?_⟩
      rw [hsettles, hsame]
      refine iff_of_false (by omega) ?_
      rintro (h | ⟨-, t, ht, -⟩)
      · exact hno h
      · rw [htile] at ht
        cases ht
    | some t =>
      rw [htile] at hgive
      dsimp only at hgive
      have ht : .tile t ∈ w.cylinders := tile_mem_of_cylinderTile htile
      obtain ⟨r', hr', hstays', houtcome', -⟩ := internalAddItem_outcome hw.wellFormed ht hnew
        hfull' INDEX_WHEREEVER dropFlags
      have hiff' := houtcome'.units_iff hpos
      have hbound' := houtcome'.bounded
      rw [hkind, hunits, hsame] at hiff' hbound'
      rw [hr', Option.map_some] at hgive
      refine ⟨r'.state, item, hcreate, hgive, hw.trans hstays', hbound', ?_⟩
      rw [hiff', hsettles]
      constructor
      · exact fun h => .inr ⟨hanswer, t, htile, h⟩
      · rintro (h | ⟨-, t', ht', h⟩)
        · exact absurd h hno
        · obtain rfl : t = t' := Option.some.inj (htile.symm.trans ht')
          exact h

end Steps

/-! ## All stacks -/

/-- A stack of coins that fits one object. -/
def Proper (stack : ℕ × ℕ) : Prop :=
  stack.1 ∈ [ITEM_GOLD_COIN, ITEM_PLATINUM_COIN, ITEM_CRYSTAL_COIN] ∧ 1 ≤ stack.2 ∧ stack.2 ≤ 100

theorem worthOf_proper {items : ℕ → ItemType} (hcoins : CoinTypes items) {stack : ℕ × ℕ}
    (h : Proper stack) : worthOf items stack = coinWorth stack.1 * stack.2 := by
  obtain ⟨type, count⟩ := stack
  obtain ⟨htype, hone, hfull⟩ := h
  dsimp only at htype hone hfull ⊢
  have hcount : stackCount count = count := by
    unfold stackCount
    rw [if_neg (by omega)]
    omega
  have hworth := worthOf_coin hcoins htype count
  rw [hcount] at hworth
  rw [hworth]
  simp only [List.mem_cons, List.not_mem_nil, or_false] at htype
  unfold coinWorth getWorth
  rcases htype with rfl | rfl | rfl
  · exact (Nat.one_mul count).symm
  · exact Nat.mul_comm count 100
  · exact Nat.mul_comm count 10000

theorem proper_crystalLoop (fuel n : ℕ) : ∀ stack ∈ crystalLoop fuel n, Proper stack := by
  induction fuel generalizing n with
  | zero => simp [crystalLoop]
  | succ fuel ih =>
    unfold crystalLoop
    split_ifs with hn
    · intro stack hstack
      rcases List.mem_cons.mp hstack with rfl | hrest
      · refine ⟨by simp, ?_, Nat.min_le_left 100 n⟩
        dsimp only
        omega
      · exact ih _ stack hrest
    · simp

/-- Where no crystal coin is lost, the stacks fit. -/
theorem proper_coinStacks {money : UInt64} (hsmall : money.toNat < 4294970000) :
    ∀ stack ∈ coinStacks money, Proper stack := by
  have hrest := toNat_rest money
  have hbound : restOf money.toNat < 10000 := by
    unfold restOf
    omega
  unfold coinStacks
  split_ifs with hzero
  · simp
  · dsimp only
    generalize money - ((money / 10000).toUInt32 * 10000).toUInt64 = rest at hrest ⊢
    have hplatinums : ((rest / 100).toUInt16).toNat = restOf money.toNat / 100 := by
      have hmod : ((rest / 100).toUInt16).toNat = restOf money.toNat / 100 % 65536 := by
        simp [← hrest]
      rw [hmod]
      exact Nat.mod_eq_of_lt (by omega)
    have hgolds := toNat_golds rest
    dsimp only at hgolds
    rw [hrest] at hgolds
    generalize (if (rest / 100).toUInt16 ≠ 0 then rest - (rest / 100).toUInt16.toUInt64 * 100
      else rest) = golds at hgolds ⊢
    generalize (rest / 100).toUInt16 = platinumCoins at hplatinums ⊢
    rw [List.forall_mem_append, List.forall_mem_append]
    refine ⟨⟨proper_crystalLoop _ _, ?_⟩, ?_⟩
    · split_ifs with hsome
      · have hpos : platinumCoins.toNat ≠ 0 := fun h => hsome (UInt16.toNat_inj.mp h)
        intro stack hstack
        obtain rfl := List.mem_singleton.mp hstack
        refine ⟨by simp, Nat.one_le_iff_ne_zero.mpr hpos, ?_⟩
        dsimp only
        omega
      · simp
    · split_ifs with hsome
      · have hpos : golds.toNat ≠ 0 := fun h => hsome (UInt64.toNat_inj.mp h)
        have hcount : golds.toUInt16.toNat = golds.toNat := by
          rw [UInt64.toNat_toUInt16]
          exact Nat.mod_eq_of_lt (by omega)
        intro stack hstack
        obtain rfl := List.mem_singleton.mp hstack
        refine ⟨by simp, ?_, ?_⟩
        · dsimp only
          omega
        · dsimp only
          omega
      · simp

/-- The coins are given one stack after the other; all their worth comes to stand exactly where
each stack settles. -/
theorem placedWorth_iff {cylinder : Cylinder} (flags : cylinderflags_t) (l : List (ℕ × ℕ)) :
    ∀ {s : State}, WellFormed s → cylinder ∈ s.cylinders → CoinTypes s.items →
      (∀ stack ∈ l, Proper stack) →
      ∃ t, Run.run (giveCoins cylinder flags) s l = some t ∧
        placedWorth cylinder flags s l ≤ stacksWorth s.items l ∧
        (placedWorth cylinder flags s l = stacksWorth s.items l ↔
          Run.EachStep (giveCoins cylinder flags) (StackSettles cylinder flags) s l) := by
  induction l with
  | nil => exact fun {s} _ _ _ _ => ⟨s, rfl, le_rfl, iff_of_true rfl trivial⟩
  | cons stack l ih =>
    intro s hs hc hcoins hproper
    obtain ⟨hhead, htail⟩ := List.forall_mem_cons.mp hproper
    obtain ⟨htype, hone, hfull⟩ := id hhead
    obtain ⟨t, item, hcreate, hgive, hstays, hbound, hiff⟩ :=
      giveCoins_spec hs hc hcoins flags htype hone hfull
    obtain ⟨u, hrun, hle, hrest⟩ := ih hstays.wellFormed (hstays.cylinders ▸ hc)
      (hstays.items ▸ hcoins) htail
    rw [hstays.items] at hle hrest
    have hpos : 1 ≤ coinWorth stack.1 := by
      simp only [List.mem_cons, List.not_mem_nil, or_false] at htype
      rcases htype with h | h | h <;> rw [h] <;> decide
    have hplaced : placedWorth cylinder flags s (stack :: l) =
        coinWorth stack.1 * ((t.units item.kind : ℤ) - s.units item.kind) +
          placedWorth cylinder flags t l := by
      rw [placedWorth, hcreate, hgive]
    have hworth : (stacksWorth s.items (stack :: l) : ℤ) =
        coinWorth stack.1 * stack.2 + stacksWorth s.items l := by
      rw [stacksWorth_cons, worthOf_proper hcoins hhead]
      push_cast
      rfl
    have hterm : (coinWorth stack.1 : ℤ) * ((t.units item.kind : ℤ) - s.units item.kind) ≤
        coinWorth stack.1 * stack.2 := by
      apply Int.mul_le_mul_of_nonneg_left _ (by omega)
      omega
    have htermIff : (coinWorth stack.1 : ℤ) * ((t.units item.kind : ℤ) - s.units item.kind) =
        coinWorth stack.1 * stack.2 ↔ StackSettles cylinder flags s stack := by
      rw [← hiff, mul_right_inj' (by omega)]
      omega
    refine ⟨u, ?_, ?_, ?_⟩
    · rw [Run.run_cons, hgive, Option.bind_some]
      exact hrun
    · rw [hplaced, hworth]
      omega
    · have hstep : Run.EachStep (giveCoins cylinder flags) (StackSettles cylinder flags) s
          (stack :: l) ↔ StackSettles cylinder flags s stack ∧
            Run.EachStep (giveCoins cylinder flags) (StackSettles cylinder flags) t l := by
        constructor
        · exact fun h => h t hgive
        · intro h t' ht'
          obtain rfl : t = t' := Option.some.inj (hgive.symm.trans ht')
          exact h
      rw [hstep, ← htermIff, ← hrest, hplaced, hworth]
      omega

/-- The coins that are created are worth the amount exactly for the amounts of `Exact`; below
429497 crystal coins they all come to stand in the cylinder or on its tile exactly where each
stack settles. -/
theorem addMoney_exact_iff {items : ℕ → ItemType} (hcoins : CoinTypes items) (money : UInt64) :
    (stacksWorth items (coinStacks money) = money.toNat ↔ Exact money.toNat) ∧
      (money.toNat < 4294970000 → ∀ (s : State) (cylinder : Cylinder) (flags : cylinderflags_t),
        s.items = items → WellFormed s → cylinder ∈ s.cylinders →
          ∃ t, addMoney s cylinder money flags = some t ∧
            (placedWorth cylinder flags s (coinStacks money) = money.toNat ↔
              Run.EachStep (giveCoins cylinder flags) (StackSettles cylinder flags) s
                (coinStacks money))) := by
  refine ⟨created_exact_iff hcoins money, fun hsmall s cylinder flags hitems hs hc => ?_⟩
  subst hitems
  have hexact : stacksWorth s.items (coinStacks money) = money.toNat := by
    rw [stacksWorth_coinStacks hcoins]
    exact worthOfMoney_of_small (by omega)
  obtain ⟨t, hrun, -, hiff⟩ :=
    placedWorth_iff flags (coinStacks money) hs hc hcoins (proper_coinStacks hsmall)
  rw [hexact] at hiff
  exact ⟨t, hrun, hiff⟩

/-! ## Coins that are lost

A player on a tile with a ground, and the three coins.
-/

def purse : Tables where
  types :=
    [goldCoinType,
      { id := ITEM_PLATINUM_COIN, pickupable := true, moveable := true, stackable := true },
      { id := ITEM_CRYSTAL_COIN, pickupable := true, moveable := true, stackable := true },
      plainGround]
  items := [{ id := 4528, parent := some (.tile {}) }]
  players := [{ tile := some {} }]
  tiles := [({}, { ground := some 0 })]

theorem purse_wellFormed : WellFormed purse.state := Tables.wellFormed (by decide +kernel)

theorem purse_coins : CoinTypes purse.state.items := by
  unfold CoinTypes
  decide +kernel

theorem purse_is_given :
    (stacksWorth purse.state.items (coinStacks 5) = 5 ↔ Exact 5) ∧
      ∃ t, addMoney purse.state (.player 0) 5 {} = some t ∧
        (placedWorth (.player 0) {} purse.state (coinStacks 5) = 5 ↔
          Run.EachStep (giveCoins (.player 0) {}) (StackSettles (.player 0) {}) purse.state
            (coinStacks 5)) :=
  ⟨(addMoney_exact_iff purse_coins 5).1,
    (addMoney_exact_iff purse_coins 5).2 (by decide) purse.state (.player 0) {} rfl
      purse_wellFormed (by decide +kernel)⟩

/-- For 4294970000 the crystal coins alone are worth the amount, but 32 bits lose their worth. -/
theorem crystal_coins_overflow :
    CoinTypes purse.state.items ∧
      stacksWorth purse.state.items (coinStacks 4294970000) = 4294974096 ∧
      stacksWorth purse.state.items (coinStacks 4294970000) ≠ (4294970000 : UInt64).toNat := by
  have hworth : stacksWorth purse.state.items (coinStacks 4294970000) = 4294974096 := by
    rw [stacksWorth_coinStacks purse_coins]
    decide +kernel
  refine ⟨purse_coins, hworth, ?_⟩
  rw [hworth]
  decide

end TibiaServer.Game
