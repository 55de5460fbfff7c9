import TibiaServer.Game.MovePaths
/-!
# Units and moves

A move loses units in few places: where the source of an exchange or the destination
does not keep what it has, where `setID` changes the attributes of a stack that is
merged into, and where a clone gets attributes that its stack did not have.  Apart
from these it conserves the units of every kind, whatever it answers.
-/

namespace TibiaServer.Game

open TibiaServer.Cylinders
open ReturnValue

/-- With the item in the way taken up, the source keeps it and what it has. -/
def ExchangeKeeps (s : State) (fromCylinder : Cylinder) (d : Destination) (toItem : ItemRef) :
    Prop :=
  (s.removeThing d.cylinder toItem (s.getItemCount toItem)).keeps fromCylinder 0 toItem

section Exchange

variable {s : State} {fromCylinder : Cylinder} {d : Destination} {toItem : ItemRef}

theorem exchange_spec (hs : Stocked s) (hfrom : fromCylinder ∈ s.cylinders)
    (hmem : toItem ∈ s.contents d.cylinder) :
    Stocked (exchange s fromCylinder d toItem) ∧
      (exchange s fromCylinder d toItem).cylinders = s.cylinders ∧
      (∀ k, (exchange s fromCylinder d toItem).units k ≤ s.units k) ∧
      (ExchangeKeeps s fromCylinder d toItem →
        ∀ k, (exchange s fromCylinder d toItem).units k = s.units k) ∧
      (¬ ExchangeKeeps s fromCylinder d toItem →
        ∃ k, (exchange s fromCylinder d toItem).units k < s.units k) := by
  have hwhole : ¬ s.removesPart toItem (s.getItemCount toItem) := fun h => h.2 rfl
  have hadd := State.adds_removeThing hs.toLayered hmem hwhole
  have hplaces := exchange_places s fromCylinder d toItem
  rw [State.addThingAnywhere_eq] at hplaces
  have hu := hs.of_removal hadd (hs.toLayered.removeThing _ _ _)
  have hnew : ∀ c, toItem ∉ (s.removeThing d.cylinder toItem (s.getItemCount toItem)).contents c :=
    hs.toSingle.not_mem_of_adds hadd
  have hdu : d.cylinder ∈ (s.removeThing d.cylinder toItem (s.getItemCount toItem)).cylinders :=
    hadd.cylinders ▸ hs.cylinder d.cylinder (List.ne_nil_of_mem hmem)
  unfold ExchangeKeeps
  generalize s.removeThing d.cylinder toItem (s.getItemCount toItem) = u at *
  have hsame := hadd.toSameItems
  have hfromU : fromCylinder ∈ u.cylinders := hsame.cylinders ▸ hfrom
  have hunits := fun k => hadd.units_eq hdu k
  have hone : 0 < (u.item toItem).units u.items := by
    have hpos := State.units_pos hs hmem
    unfold Item.units at hpos ⊢
    rwa [← hsame.items, ← hsame.id, ← hsame.count]
  have hold : toItem < u.fresh := hsame.fresh ▸ hs.old d.cylinder toItem hmem
  have hcount : u.isStackable toItem = true →
      1 ≤ u.getItemCount toItem ∧ u.getItemCount toItem ≤ 100 := by
    intro hstack
    have hbounds := hs.count d.cylinder toItem hmem ((hsame.isStackable toItem).trans hstack)
    have heq : s.getItemCount toItem = u.getItemCount toItem := hsame.count toItem
    omega
  refine ⟨(hu.addThing hfromU hnew hold hcount 0).of_places hplaces, ?_, ?_, ?_, ?_⟩
  · rw [hplaces.cylinders, (State.sameItems_addThing hu hfromU 0 toItem).cylinders]
    exact hsame.cylinders.symm
  · intro k
    rw [hplaces.units_eq, hunits]
    exact State.units_addThing_le hu hfromU hone k
  · intro hkeeps k
    rw [hplaces.units_eq, hunits]
    exact State.units_addThing hfromU hkeeps k
  · intro hno
    obtain ⟨k, hk⟩ := (State.units_addThing_short hu hfromU hone hno).2
    rw [← hunits] at hk
    exact ⟨k, by rwa [hplaces.units_eq]⟩

end Exchange

section Move

variable {s : State} {fromCylinder toCylinder : Cylinder} {index : ℤ} {item : ItemRef} {count : ℕ}
  {flags : cylinderflags_t} {actor : Bool} {tradeItem : Option ItemRef}

theorem destination_mem (hs : WellFormed s) (hto : toCylinder ∈ s.cylinders) (index : ℤ)
    (item : ItemRef) (flags : cylinderflags_t) :
    (destination s toCylinder index item flags).cylinder ∈ s.cylinders := by
  have hloop : ∀ n (d : Destination), d.cylinder ∈ s.cylinders →
      (destinationLoop s item n d).cylinder ∈ s.cylinders := by
    intro n
    induction n with
    | zero => exact fun d hd => hd
    | succ n ih =>
      intro d hd
      have hsub := State.queryDestination_mem hs hd d.index item d.destItem d.flags
      unfold destinationLoop
      simp only
      split
      · exact hsub
      · exact ih _ hsub
  exact hloop _ _ hto

/-- What a transfer does where the first half arrives. -/
theorem transfer_of_arrives (hs : WellFormed s) (hto : toCylinder ∈ s.cylinders)
    (hitem : item ∈ s.contents fromCylinder) {t : State} {toItem : Option ItemRef}
    (harrives : Arrives s fromCylinder (destination s toCylinder index item flags) item count
      actor t toItem)
    (hgoes : Goes t fromCylinder (destination s toCylinder index item flags) item count
      tradeItem) :
    let d := destination s toCylinder index item flags
    let m := movedCount t d item count
    (∀ k, t.units k ≤ s.units k) ∧
      ∃ moved moveItem, transfer t fromCylinder d item toItem m = some (moved, moveItem) ∧
        (TransferKeeps t fromCylinder d item toItem m → ∀ k, moved.units k = t.units k) ∧
        (¬ TransferKeeps t fromCylinder d item toItem m → ∃ k, moved.units k < t.units k) := by
  intro d m
  have hheld : d.Held s := held_destination s toCylinder index item flags
  have hd : d.cylinder ∈ s.cylinders := destination_mem hs hto index item flags
  have hfrom := hs.cylinder fromCylinder (List.ne_nil_of_mem hitem)
  obtain ⟨hitemT, -, hm⟩ := queryRemove_spec hgoes.remove
  have hspec : ∀ (ht : Stocked t) (hdt : d.cylinder ∈ t.cylinders)
      (htarget : ∀ x, toItem = some x → x ≠ item ∧ x ∈ t.contents d.cylinder),
      ∃ moved moveItem, transfer t fromCylinder d item toItem m = some (moved, moveItem) ∧
        (TransferKeeps t fromCylinder d item toItem m → ∀ k, moved.units k = t.units k) ∧
        (¬ TransferKeeps t fromCylinder d item toItem m → ∃ k, moved.units k < t.units k) := by
    intro ht hdt htarget
    cases hstack : t.isStackable item with
    | true => exact transfer_stack_spec ht hdt hitemT hstack (hm hstack) htarget
    | false => exact transfer_plain_spec ht hdt hitemT hstack
  cases harrives with
  | accepted hne hret =>
    refine ⟨fun k => le_rfl, hspec hs.toStocked hd fun x hx => ?_⟩
    exact ⟨fun heq => hne (hx.trans (heq ▸ rfl)), hheld.mem hx⟩
  | stuck z hz hother hneed hsource hremove =>
    refine ⟨fun k => le_rfl, hspec hs.toStocked hd fun x hx => ?_⟩
    have hxz : x = z := Option.some.inj (hx.symm.trans hz)
    exact ⟨hxz ▸ hother, hheld.mem hx⟩
  | exchanged x hex hagree =>
    obtain ⟨ht, hcylinders, hle, -, -⟩ := exchange_spec hs.toStocked hfrom (hheld.mem hex.1)
    exact ⟨hle, hspec ht (hcylinders ▸ hd) fun x hx => (Option.some_ne_none x hx.symm).elim⟩

/-- Every move with these arguments leaves the units of every kind as they are. -/
def Conserves (s : State) (fromCylinder toCylinder : Cylinder) (index : ℤ) (item : ItemRef)
    (count : ℕ) (flags : cylinderflags_t) (actor : Bool) (tradeItem : Option ItemRef) : Prop :=
  ∀ r, internalMoveItem s fromCylinder toCylinder index item count flags actor tradeItem = some r →
    ∀ k, r.state.units k = s.units k

/-- Where units are conserved, a transfer ends with all of them. -/
theorem Conserves.transferred (hall : Conserves s fromCylinder toCylinder index item count flags
      actor tradeItem) (hs : WellFormed s) (hto : toCylinder ∈ s.cylinders)
    (hitem : item ∈ s.contents fromCylinder) {t : State} {toItem : Option ItemRef}
    (harrives : Arrives s fromCylinder (destination s toCylinder index item flags) item count
      actor t toItem)
    (hgoes : Goes t fromCylinder (destination s toCylinder index item flags) item count
      tradeItem) :
    TransferKeeps t fromCylinder (destination s toCylinder index item flags) item toItem
        (movedCount t (destination s toCylinder index item flags) item count) ∧
      ∀ k, t.units k = s.units k := by
  obtain ⟨hle, moved, moveItem, htransfer, hkeep, hlose⟩ :=
    transfer_of_arrives hs hto hitem harrives hgoes
  obtain ⟨r, hr, hplaces⟩ := moveAccepted_of_goes hgoes htransfer
  rw [← internalMoveItem_of_arrives harrives] at hr
  have hsame : ∀ k, moved.units k = s.units k := by
    intro k
    rw [← hplaces.units_eq]
    exact hall r hr k
  have hkeeps : TransferKeeps t fromCylinder (destination s toCylinder index item flags) item
      toItem (movedCount t (destination s toCylinder index item flags) item count) := by
    by_contra hno
    obtain ⟨k, hk⟩ := hlose hno
    have hmoved := hsame k
    have ht := hle k
    omega
  exact ⟨hkeeps, fun k => (hkeep hkeeps k).symm.trans (hsame k)⟩

/-- An exchange that loses units is the end of the move, or goes on to a transfer. -/
theorem Conserves.exchangeKeeps (hall : Conserves s fromCylinder toCylinder index item count flags
      actor tradeItem) (hs : WellFormed s) (hto : toCylinder ∈ s.cylinders)
    (hitem : item ∈ s.contents fromCylinder) {x : ItemRef}
    (hex : Exchanges s fromCylinder (destination s toCylinder index item flags) item count actor
      x) : ExchangeKeeps s fromCylinder (destination s toCylinder index item flags) x := by
  have hfrom := hs.cylinder fromCylinder (List.ne_nil_of_mem hitem)
  have hheld := held_destination s toCylinder index item flags
  by_contra hno
  obtain ⟨k₀, hk₀⟩ := (exchange_spec hs.toStocked hfrom (hheld.mem hex.1)).2.2.2.2 hno
  have hnever : ∀ r, internalMoveItem s fromCylinder toCylinder index item count flags actor
      tradeItem = some r →
      r.state ≠ exchange s fromCylinder (destination s toCylinder index item flags) x := by
    intro r hr hstate
    have hsame := hall r hr k₀
    rw [hstate] at hsame
    omega
  by_cases hagree : (exchange s fromCylinder (destination s toCylinder index item flags)
      x).queryAdd (destination s toCylinder index item flags).cylinder
      (destination s toCylinder index item flags).index item count
      (destination s toCylinder index item flags).flags false = NOERROR
  · have harrives := Arrives.exchanged x hex hagree
    by_cases hgoes : Goes (exchange s fromCylinder (destination s toCylinder index item flags) x)
        fromCylinder (destination s toCylinder index item flags) item count tradeItem
    · have hsame := (hall.transferred hs hto hitem harrives hgoes).2 k₀
      omega
    · obtain ⟨r, hr, hstate⟩ := moveAccepted_of_not_goes hgoes
      rw [← internalMoveItem_of_arrives harrives] at hr
      exact hnever r hr hstate
  · obtain ⟨r, hr, hstate⟩ := internalMoveItem_of_exchange hex hagree
    exact hnever r hr hstate

/-- What the exchange and the transfer keep, the move keeps. -/
theorem conserves_of_keeps (hs : WellFormed s) (hto : toCylinder ∈ s.cylinders)
    (hitem : item ∈ s.contents fromCylinder)
    (hexchange : ∀ x, Exchanges s fromCylinder (destination s toCylinder index item flags) item
      count actor x → ExchangeKeeps s fromCylinder (destination s toCylinder index item flags) x)
    (htransfers : ∀ t toItem,
      Arrives s fromCylinder (destination s toCylinder index item flags) item count actor t
        toItem →
      Goes t fromCylinder (destination s toCylinder index item flags) item count tradeItem →
      TransferKeeps t fromCylinder (destination s toCylinder index item flags) item toItem
        (movedCount t (destination s toCylinder index item flags) item count)) :
    Conserves s fromCylinder toCylinder index item count flags actor tradeItem := by
  intro r hr k
  have hfrom := hs.cylinder fromCylinder (List.ne_nil_of_mem hitem)
  have hheld := held_destination s toCylinder index item flags
  have hexchanged : ∀ x, Exchanges s fromCylinder (destination s toCylinder index item flags)
      item count actor x →
      (exchange s fromCylinder (destination s toCylinder index item flags) x).units k =
        s.units k := fun x hex =>
    (exchange_spec hs.toStocked hfrom (hheld.mem hex.1)).2.2.2.1 (hexchange x hex) k
  rcases internalMoveItem_cases hr with hsame | ⟨x, hex, -, hstate⟩ |
    ⟨t, toItem, moved, moveItem, harrives, hgoes, htransfer, hplaces, -⟩
  · rw [hsame]
  · rw [hstate]
    exact hexchanged x hex
  · obtain ⟨-, moved', moveItem', htransfer', hkeep, -⟩ :=
      transfer_of_arrives hs hto hitem harrives hgoes
    have hmoved : moved' = moved :=
      (Prod.mk.inj (Option.some.inj (htransfer'.symm.trans htransfer))).1
    rw [hplaces.units_eq, ← hmoved, hkeep (htransfers t toItem harrives hgoes) k]
    cases harrives with
    | accepted _ _ => rfl
    | stuck _ _ _ _ _ _ => rfl
    | exchanged x hex _ => exact hexchanged x hex

/-- A move conserves the units of every kind exactly when an exchange keeps the item in
the way, and a transfer what moves. -/
theorem internalMoveItem_conserves_iff (hs : WellFormed s) (hto : toCylinder ∈ s.cylinders)
    (hitem : item ∈ s.contents fromCylinder) :
    (∀ r, internalMoveItem s fromCylinder toCylinder index item count flags actor tradeItem =
        some r → ∀ k, r.state.units k = s.units k) ↔
      (∀ x, Exchanges s fromCylinder (destination s toCylinder index item flags) item count actor
          x → ExchangeKeeps s fromCylinder (destination s toCylinder index item flags) x) ∧
        ∀ t toItem,
          Arrives s fromCylinder (destination s toCylinder index item flags) item count actor t
            toItem →
          Goes t fromCylinder (destination s toCylinder index item flags) item count tradeItem →
          TransferKeeps t fromCylinder (destination s toCylinder index item flags) item toItem
            (movedCount t (destination s toCylinder index item flags) item count) := by
  constructor
  · intro hall
    have hconserves : Conserves s fromCylinder toCylinder index item count flags actor tradeItem :=
      hall
    exact ⟨fun x hex => hconserves.exchangeKeeps hs hto hitem hex,
      fun t toItem harrives hgoes => (hconserves.transferred hs hto hitem harrives hgoes).1⟩
  · rintro ⟨hexchange, htransfers⟩
    exact conserves_of_keeps hs hto hitem hexchange htransfers

end Move

/-! ## An inbox that is too full

Letters and the items of a house are put into an inbox with `FLAG_NOLIMIT`, so it can
hold more than its capacity.  A stack of 60 then finds one of 50 behind the last index:
50 are merged, and 10 are added at an index that the inbox does not have.
-/

def overfullInbox : Tables where
  types :=
    [{ id := 4527, group := .ITEM_GROUP_GROUND },
      { id := 2595, pickupable := true, moveable := true },
      { id := 3, pickupable := true, moveable := true, stackable := true },
      { id := 14404, group := .ITEM_GROUP_CONTAINER }]
  items :=
    [{ id := 4527, parent := some (.tile {}) },
      { id := 14404, container := some { kind := .Inbox, maxSize := 1, itemlist := [2, 3] } },
      { id := 2595, parent := some (.container 1) },
      { id := 3, count := 50, parent := some (.container 1) },
      { id := 3, count := 60, parent := some (.tile {}) }]
  tiles := [({}, { ground := some 0, downItems := [4] })]

def noLimit : cylinderflags_t := { FLAG_NOLIMIT := true }

theorem overfullInbox_wellFormed : WellFormed overfullInbox.state :=
  Tables.wellFormed (by decide +kernel)

theorem conserves_iff_overfullInbox :
    (∀ r, internalMoveItem overfullInbox.state (.tile {}) (.container 1) INDEX_WHEREEVER 4 60
        noLimit false none = some r → ∀ k, r.state.units k = overfullInbox.state.units k) ↔
      (∀ x, Exchanges overfullInbox.state (.tile {})
          (destination overfullInbox.state (.container 1) INDEX_WHEREEVER 4 noLimit) 4 60 false x →
          ExchangeKeeps overfullInbox.state (.tile {})
            (destination overfullInbox.state (.container 1) INDEX_WHEREEVER 4 noLimit) x) ∧
        ∀ t toItem,
          Arrives overfullInbox.state (.tile {})
            (destination overfullInbox.state (.container 1) INDEX_WHEREEVER 4 noLimit) 4 60 false t
            toItem →
          Goes t (.tile {})
            (destination overfullInbox.state (.container 1) INDEX_WHEREEVER 4 noLimit) 4 60 none →
          TransferKeeps t (.tile {})
            (destination overfullInbox.state (.container 1) INDEX_WHEREEVER 4 noLimit) 4 toItem
            (movedCount t
              (destination overfullInbox.state (.container 1) INDEX_WHEREEVER 4 noLimit) 4 60) :=
  internalMoveItem_conserves_iff overfullInbox_wellFormed (by decide +kernel) (by decide +kernel)

theorem inbox_swallows_units :
    WellFormed overfullInbox.state ∧ .container 1 ∈ overfullInbox.state.cylinders ∧
      4 ∈ overfullInbox.state.contents (.tile {}) ∧
      ∃ r, internalMoveItem overfullInbox.state (.tile {}) (.container 1) INDEX_WHEREEVER 4 60
          noLimit false none = some r ∧
        r.ret = NOERROR ∧ overfullInbox.state.units (3, fun _ => none) = 110 ∧
        r.state.units (3, fun _ => none) = 100 := by
  have hrun : (internalMoveItem overfullInbox.state (.tile {}) (.container 1) INDEX_WHEREEVER 4 60
      noLimit false none).map (fun r => (r.ret, r.state.units (3, fun _ => none))) =
      some (NOERROR, 100) := by
    decide +kernel
  obtain ⟨r, hr, hvalue⟩ := Option.map_eq_some_iff.mp hrun
  obtain ⟨hret, hunits⟩ := Prod.mk.inj hvalue
  exact ⟨overfullInbox_wellFormed, by decide +kernel, by decide +kernel, r, hr, hret,
    by decide +kernel, hunits⟩

end TibiaServer.Game
