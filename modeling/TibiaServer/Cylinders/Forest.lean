import TibiaServer.Cylinders.Holdings
import TibiaServer.Cylinders.Tables
import TibiaServer.Cylinders.Units
import TibiaServer.Library.Ancestors
/-!
# The forest of items

Every item that something holds is held once, and its parent says by what; no
container is inside itself.  Removals keep this.  An addition keeps it where the
container does not stand in the new item, which is what `Container::queryAdd` walks
up the parents for.
-/

namespace TibiaServer.Cylinders

open TibiaServer.Library
open TibiaServer.World (Position)

structure Forest (s : State) : Prop extends Single s, Layered s where
  parent : ∀ c, ∀ y ∈ s.contents c, (s.item y).parent = some c
  stands : ∀ x y, (s.item y).parent = some (.container x) → y ∈ s.itemlist x
  acyclic : ∀ x, ¬Relation.TransGen s.Inside x x
  old : ∀ c, ∀ y ∈ s.contents c, y < s.fresh
  object : ∀ x, s.isContainer x = true → x < s.fresh

namespace Forest

variable {s t : State} {c : Cylinder} {old y : ItemRef}

theorem acyclic_of_mem (hs : Forest s) (h : ∀ a b, t.Inside a b → s.Inside a b) (x : ItemRef) :
    ¬Relation.TransGen t.Inside x x :=
  fun hcycle => hs.acyclic x (Relation.TransGen.mono h x x hcycle)

/-- The only new edge is from the new item to where it is put. -/
theorem acyclic_of_new (hs : Forest s)
    (hup : ∀ x, c = .container x → ¬s.Within x y)
    (hmem : ∀ c' z, z ∈ t.contents c' → z = y ∧ c' = c ∨ z ∈ s.contents c') (x : ItemRef) :
    ¬Relation.TransGen t.Inside x x := by
  have hedge : ∀ a b, t.Inside a b → s.Inside a b ∨ a = y ∧ Cylinder.container b = c :=
    fun a b hab => (hmem (.container b) a hab).symm
  cases c with
  | container z =>
    apply not_transGen_of_edge hs.acyclic (hup z rfl)
    intro a b hab
    exact (hedge a b hab).imp_right fun h => ⟨h.1, Cylinder.container.inj h.2⟩
  | player p =>
    apply hs.acyclic_of_mem
    intro a b hab
    exact (hedge a b hab).resolve_right fun h => nomatch h.2
  | tile pos =>
    apply hs.acyclic_of_mem
    intro a b hab
    exact (hedge a b hab).resolve_right fun h => nomatch h.2

theorem of_contents (hs : Forest s) (hcontents : ∀ c, t.contents c = s.contents c)
    (hparent : ∀ c, ∀ z ∈ s.contents c, (t.item z).parent = (s.item z).parent)
    (hloose : ∀ x z, (t.item z).parent = some (.container x) →
      (s.item z).parent = some (.container x))
    (hlayers : Layered t) (hfresh : s.fresh ≤ t.fresh)
    (hobject : ∀ x, t.isContainer x = true → x < t.fresh) : Forest t where
  toLayered := hlayers
  nodup c := by
    rw [hcontents]
    exact hs.nodup c
  once c c' z hz hz' := by
    rw [hcontents] at hz hz'
    exact hs.once c c' z hz hz'
  parent c z hz := by
    rw [hcontents] at hz
    exact (hparent c z hz).trans (hs.parent c z hz)
  stands x z hz := by
    have hstands : z ∈ s.contents (.container x) := hs.stands x z (hloose x z hz)
    rwa [← hcontents] at hstands
  acyclic := by
    apply hs.acyclic_of_mem
    intro a b hab
    have hmem : a ∈ t.contents (.container b) := hab
    rwa [hcontents] at hmem
  old c z hz := by
    rw [hcontents] at hz
    exact (hs.old c z hz).trans_le hfresh
  object := hobject

theorem same (hs : Forest s) (h : SameHoldings s t) (hlayers : Layered t) : Forest t := by
  apply hs.of_contents h.contents h.parent h.loose hlayers h.fresh.ge
  intro x hx
  rw [h.fresh]
  exact hs.object x ((h.isContainer x).symm.trans hx)

theorem removes (hs : Forest s) (h : Removes s t c y) (hlayers : Layered t) : Forest t where
  toLayered := hlayers
  toSingle := hs.toSingle.of_removal h.toAdds
  parent c' z hz := by
    have hne : z ≠ y := fun heq => hs.toSingle.not_mem_of_adds h.toAdds c' (heq ▸ hz)
    rw [h.parent z hne]
    exact hs.parent c' z (Single.mem_of_adds h.toAdds hz)
  stands x z hz := by
    have hne : z ≠ y := fun heq => h.loose x (heq ▸ hz)
    rw [h.parent z hne] at hz
    have hstands : z ∈ s.contents (.container x) := hs.stands x z hz
    exact ((Single.mem_cons_of_adds h.toAdds hstands).resolve_left fun heq => hne heq.1 :)
  acyclic := by
    apply hs.acyclic_of_mem
    intro a b hab
    have hmem : a ∈ t.contents (.container b) := hab
    exact (Single.mem_of_adds h.toAdds hmem :)
  old c' z hz := by
    rw [← h.fresh]
    exact hs.old c' z (Single.mem_of_adds h.toAdds hz)
  object x hx := by
    rw [← h.fresh]
    exact hs.object x ((h.isContainer x).trans hx)

theorem puts (hs : Forest s) (h : Puts s t c y) (hlayers : Layered t)
    (hnew : ∀ c', y ∉ s.contents c') (hy : y < s.fresh)
    (hup : ∀ x, c = .container x → ¬s.Within x y) : Forest t where
  toLayered := hlayers
  toSingle := hs.toSingle.of_addition h.toAdds hnew
  parent c' z hz := by
    rcases Single.mem_cons_of_adds h.toAdds hz with ⟨rfl, rfl⟩ | hold
    · exact h.held
    · have hne : z ≠ y := fun heq => hnew c' (heq ▸ hold)
      rw [h.parent z hne]
      exact hs.parent c' z hold
  stands x z hz := by
    by_cases hne : z = y
    · subst hne
      have hc : c = .container x := Option.some.inj (h.held.symm.trans hz)
      subst hc
      exact (h.contents.mem_iff.mpr List.mem_cons_self :)
    · rw [h.parent z hne] at hz
      have hstands : z ∈ s.contents (.container x) := hs.stands x z hz
      exact (Single.mem_of_adds h.toAdds hstands :)
  acyclic := hs.acyclic_of_new hup fun _ _ => Single.mem_cons_of_adds h.toAdds
  old c' z hz := by
    rw [h.fresh]
    rcases Single.mem_cons_of_adds h.toAdds hz with ⟨rfl, -⟩ | hold
    · exact hy
    · exact hs.old c' z hold
  object x hx := by
    rw [h.fresh]
    exact hs.object x ((h.isContainer x).symm.trans hx)

theorem swaps (hs : Forest s) (h : Swaps s t c old y) (hlayers : Layered t)
    (hnew : ∀ c', y ∉ s.contents c') (hy : y < s.fresh)
    (hup : ∀ x, c = .container x → ¬s.Within x y) : Forest t := by
  obtain ⟨u, hold, hput⟩ := id h.replaces
  have hnew' : ∀ c', y ∉ u.contents c' := fun c' hmem => hnew c' (Single.mem_of_adds hold hmem)
  have hsame := h.replaces.sameItems
  have hgone : ∀ c', old ∉ u.contents c' := hs.toSingle.not_mem_of_adds hold
  have hne : old ≠ y := by
    intro heq
    exact hnew c (heq ▸ hold.contents.mem_iff.mpr List.mem_cons_self)
  exact
    { toLayered := hlayers
      toSingle := (hs.toSingle.of_removal hold).of_addition hput hnew'
      parent := by
        intro c' z hz
        rcases Single.mem_cons_of_adds hput hz with ⟨rfl, rfl⟩ | hmem
        · exact h.held
        · have hzy : z ≠ y := fun heq => hnew' c' (heq ▸ hmem)
          have hzold : z ≠ old := fun heq => hgone c' (heq ▸ hmem)
          rw [h.parent z hzy hzold]
          exact hs.parent c' z (Single.mem_of_adds hold hmem)
      stands := by
        intro x z hz
        by_cases hzy : z = y
        · subst hzy
          have hc : c = .container x := Option.some.inj (h.held.symm.trans hz)
          subst hc
          exact (hput.contents.mem_iff.mpr List.mem_cons_self :)
        · have hzold : z ≠ old := fun heq => h.loose x (heq ▸ hz)
          rw [h.parent z hzy hzold] at hz
          have hstands : z ∈ s.contents (.container x) := hs.stands x z hz
          have hmem := (Single.mem_cons_of_adds hold hstands).resolve_left fun heq => hzold heq.1
          exact (Single.mem_of_adds hput hmem :)
      acyclic := hs.acyclic_of_new hup fun _ _ => h.replaces.mem
      old := by
        intro c' z hz
        rw [hsame.fresh]
        rcases h.replaces.mem hz with ⟨rfl, -⟩ | hmem
        · exact hy
        · exact hs.old c' z hmem
      object := by
        intro x hx
        rw [hsame.fresh]
        exact hs.object x ((hsame.isContainer x).symm.trans hx) }

/-! ## Operations -/

theorem removeThing (hs : Forest s) (c : Cylinder) (y : ItemRef) (count : ℕ) :
    Forest (s.removeThing c y count) := by
  have hlayers := hs.toLayered.removeThing c y count
  rcases State.removeThing_holdings hs.toLayered c y count with h | h
  · exact hs.same h hlayers
  · exact hs.removes h hlayers

theorem playerAddThing_holdings (hs : Forest s) (p : PlayerRef) (index : ℤ)
    (hnew : ∀ c', y ∉ s.contents c') :
    SameHoldings s (s.playerAddThing p index y) ∨ Puts s (s.playerAddThing p index y) (.player p) y ∨
      ∃ old, Swaps s (s.playerAddThing p index y) (.player p) old y := by
  by_cases hindex : 1 ≤ index ∧ index ≤ 11
  · have hparent := State.parent_playerAddThing (s := s) (p := p) hindex y
    have hheld : ((s.playerAddThing p index y).item y).parent = some (.player p) := by
      rw [hparent, if_pos rfl]
    have hothers : ∀ z, z ≠ y → ((s.playerAddThing p index y).item z).parent = (s.item z).parent :=
      fun z hz => by rw [hparent, if_neg hz]
    obtain ⟨slot, rfl⟩ := Int.eq_ofNat_of_zero_le (show 0 ≤ index by omega)
    have hslot : slot ∈ slots := State.mem_slots.mpr (by omega)
    cases hfull : (s.player p).inventory slot with
    | none => exact .inr (.inl ⟨s.adds_playerAddThing hslot hfull y, hheld, hothers⟩)
    | some old =>
      have hold : old ∈ s.contents (.player p) := List.mem_filterMap.mpr ⟨slot, hslot, hfull⟩
      have hne : old ≠ y := fun heq => hnew _ (heq ▸ hold)
      have hplaces := s.samePlaces_setParent y (some (.player p))
      have hswap : Replaces s (s.playerAddThing p slot y) (.player p) old y := by
        have hbounds := State.mem_slots.mp hslot
        unfold State.playerAddThing
        rw [if_neg (by simp only [CONST_SLOT_FIRST, CONST_SLOT_LAST]; omega)]
        exact .of_places hplaces
          ((s.setParent y (some (.player p))).replaces_setSlot hslot hfull y)
      refine .inr (.inr ⟨old, hswap, fun x => ?_, hheld, fun z hz _ => hothers z hz⟩)
      rw [hothers old hne, hs.parent _ old hold]
      simp
  · have hout : s.playerAddThing p index y = s := by
      unfold State.playerAddThing CONST_SLOT_FIRST CONST_SLOT_LAST
      rw [if_pos (by omega)]
    rw [hout]
    exact .inl (.refl s)

theorem tileAddThing_holdings (hs : Forest s) (pos : Position) (hnew : ∀ c', y ∉ s.contents c') :
    SameHoldings s (s.tileAddThing pos y) ∨ Puts s (s.tileAddThing pos y) (.tile pos) y ∨
      ∃ old, Swaps s (s.tileAddThing pos y) (.tile pos) old y := by
  by_cases hroom : (s.tileItems pos).length < 65535
  · have hparent := State.parent_tileAddThing (y := y) hroom
    by_cases hkeeps : s.tileKeeps pos y
    · have hnone := s.tileLost_of_keeps hkeeps
      refine .inr (.inl ⟨s.adds_tileAddThing hkeeps, ?_, fun z hz => ?_⟩)
      · rw [hparent, hnone, if_neg nofun, if_pos rfl]
      · rw [hparent, hnone, if_neg nofun, if_neg hz]
    · obtain ⟨old, hlost, ⟨rfl, hplaces⟩ | hswap⟩ :=
        State.tileAddThing_without_room hs.toLayered hkeeps
      · have hother : ∀ z, z ≠ old →
            ((s.tileAddThing pos old).item z).parent = (s.item z).parent := by
          intro z hz
          rw [hparent, hlost, if_neg fun heq => hz (Option.some.inj heq).symm, if_neg hz]
        refine .inl ⟨hplaces.contents, fun c z hz => ?_, fun x z hz => ?_, hplaces.isContainer,
          hplaces.fresh⟩
        · exact hother z fun heq => hnew c (heq ▸ hz)
        · by_cases heq : z = old
          · rw [heq, hparent, if_pos hlost] at hz
            exact nomatch hz
          · rwa [hother z heq] at hz
      · obtain ⟨u, hadd, -⟩ := id hswap
        have hold : old ∈ s.contents (.tile pos) :=
          hadd.contents.mem_iff.mpr List.mem_cons_self
        have hne : old ≠ y := fun heq => hnew _ (heq ▸ hold)
        refine .inr (.inr ⟨old, hswap, fun x => ?_, ?_, fun z hz hzold => ?_⟩)
        · rw [hparent, if_pos hlost]
          exact nofun
        · rw [hparent, hlost, if_neg fun heq => hne (Option.some.inj heq), if_pos rfl]
        · rw [hparent, hlost, if_neg fun heq => hzold (Option.some.inj heq).symm, if_neg hz]
  · have hout : s.tileAddThing pos y = s := by
      unfold State.tileAddThing
      rw [if_pos (by omega)]
    rw [hout]
    exact .inl (.refl s)

theorem addThing_holdings (hs : Forest s) (hc : ∀ x, c = .container x → s.isContainer x = true)
    (index : ℤ) (hnew : ∀ c', y ∉ s.contents c') :
    SameHoldings s (s.addThing c index y) ∨ Puts s (s.addThing c index y) c y ∨
      ∃ old, Swaps s (s.addThing c index y) c old y := by
  cases c with
  | player p => exact hs.playerAddThing_holdings p index hnew
  | container x =>
    by_cases hindex : index < s.capacity x
    · have hparent := State.parent_containerAddThing (x := x) hindex y
      refine .inr (.inl ⟨s.adds_containerAddThing (hc x rfl) hindex y, ?_, fun z hz => ?_⟩)
      · exact (hparent y).trans (if_pos rfl)
      · exact (hparent z).trans (if_neg hz)
    · have hout : s.containerAddThing x index y = s := by
        unfold State.containerAddThing
        rw [if_pos (by omega)]
      simp only [State.addThing, hout]
      exact .inl (.refl s)
  | tile pos => exact hs.tileAddThing_holdings pos hnew

/-- What stands nowhere can be added where it is not above the place. -/
theorem addThing (hs : Forest s) (hc : ∀ x, c = .container x → s.isContainer x = true)
    (index : ℤ) (hnew : ∀ c', y ∉ s.contents c') (hy : y < s.fresh)
    (hup : ∀ x, c = .container x → ¬s.Within x y) : Forest (s.addThing c index y) := by
  have hlayers := hs.toLayered.addThing c index y
  rcases hs.addThing_holdings hc index hnew with h | h | ⟨old, h⟩
  · exact hs.same h hlayers
  · exact hs.puts h hlayers hnew hy hup
  · exact hs.swaps h hlayers hnew hy hup

theorem updateThing (hs : Forest s) (c : Cylinder) (y : ItemRef) (count : ℕ) :
    Forest (s.updateThing c y (s.item y).id count) := by
  apply hs.same (State.sameHoldings_updateThing c y _ count)
  by_cases hy : y ∈ s.contents c
  · have hid : (((s.item y).setID s.items (s.item y).id).setSubType s.items count).id =
        (s.item y).id := by
      rw [Item.setSubType_id, Item.setID_id]
    have hupdate : Layered (s.updateItem y (s.item y).id count) :=
      hs.toLayered.of_tiles rfl (s.typeOf_setItem hid)
    exact hupdate.of_places (State.updateThing_places hs.toLayered hy _ count)
  · rw [State.updateThing_of_notMem hy]
    exact hs.toLayered

theorem postNotification (hs : Forest s) (c : Cylinder) : Forest (s.postNotification c) :=
  hs.same (State.sameHoldings_postNotification c)
    (hs.toLayered.of_places (s.samePlaces_postNotification c))

/-- A new object stands nowhere and holds nothing. -/
theorem create (hs : Forest s) {item : Item} (hparent : item.parent = none)
    (hempty : (item.container.map Container.itemlist).getD [] = []) :
    Forest { s.setItem s.fresh item with fresh := s.fresh + 1 } := by
  have hitem : ∀ z, z ≠ s.fresh → (s.setItem s.fresh item).item z = s.item z :=
    fun z hz => by simp only [State.setItem, Function.update_of_ne hz]
  have hnothing : s.itemlist s.fresh = [] := by
    by_contra hne
    obtain ⟨y, hy⟩ := List.exists_mem_of_ne_nil _ hne
    have hmem : y ∈ s.contents (.container s.fresh) := hy
    exact lt_irrefl _ (hs.object _ (State.isContainer_of_mem hmem))
  have hcontents : ∀ c, (s.setItem s.fresh item).contents c = s.contents c := by
    intro c
    cases c with
    | player p => rfl
    | container x =>
      by_cases hx : x = s.fresh
      · subst hx
        simp only [State.contents]
        rw [hnothing, ← hempty]
        simp [State.itemlist, State.setItem]
      · simp only [State.contents, State.itemlist, hitem x hx]
    | tile pos => rfl
  have htype : ∀ c, ∀ z ∈ s.contents c, (s.setItem s.fresh item).typeOf z = s.typeOf z := by
    intro c z hz
    unfold State.typeOf
    rw [hitem z (hs.old c z hz).ne]
    rfl
  have hlayers : Layered (s.setItem s.fresh item) :=
    { ground := fun pos z hz => by
        rw [htype _ z (s.mem_contents_tile.mpr (.inl hz))]
        exact hs.ground pos z hz
      down := fun pos z hz => by
        rw [htype _ z (s.mem_contents_tile.mpr (.inr (.inl hz)))]
        exact hs.down pos z hz
      top := fun pos z hz => by
        rw [htype _ z (s.mem_contents_tile.mpr (.inr (.inr hz)))]
        exact hs.top pos z hz }
  refine of_contents (t := { s.setItem s.fresh item with fresh := s.fresh + 1 }) hs hcontents
    ?_ ?_ ?_ ?_ ?_
  · exact fun c z hz => congrArg Item.parent (hitem z (hs.old c z hz).ne)
  · intro x z hz
    have hz' : ((s.setItem s.fresh item).item z).parent = some (.container x) := hz
    by_cases hne : z = s.fresh
    · subst hne
      simp [State.setItem, hparent] at hz'
    · rwa [hitem z hne] at hz'
  · exact ⟨hlayers.ground, hlayers.down, hlayers.top⟩
  · exact Nat.le_succ _
  · intro x hx
    by_cases hne : x = s.fresh
    · exact hne ▸ Nat.lt_succ_self _
    · have hx' : (s.setItem s.fresh item).isContainer x = true := hx
      unfold State.isContainer at hx'
      rw [hitem x hne] at hx'
      exact Nat.lt_succ_of_lt (hs.object x hx')

end Forest

/-- Tables in which a container comes before what stands in it. -/
theorem Tables.forest {w : Tables} (h : w.Check)
    (hparent : ∀ c ∈ w.places, ∀ y ∈ w.state.contents c, (w.state.item y).parent = some c)
    (hstands : ∀ y ∈ List.range w.items.length, ∀ x ∈ parentContainer (w.state.item y),
      y ∈ w.state.itemlist x)
    (hrank : ∀ x ∈ w.containers, ∀ y ∈ w.state.itemlist x, x < y) : Forest w.state where
  toSingle := (wellFormed h).toSingle
  toLayered := (wellFormed h).toLayered
  parent c y hy := hparent c (mem_places_of_mem hy) y hy
  stands x y hy := by
    have hshort : y < w.items.length := by
      by_contra hlong
      have hdefault : w.state.item y = { id := 0 } := by
        show w.items.getD y { id := 0 } = { id := 0 }
        rw [List.getD_eq_default]
        exact not_lt.mp hlong
      rw [hdefault] at hy
      cases hy
    exact hstands y (List.mem_range.mpr hshort) x (by simp [parentContainer, hy])
  acyclic x hcycle := by
    have hless : ∀ {a b}, Relation.TransGen w.state.Inside a b → b < a := by
      intro a b hab
      have hedge : ∀ {a b}, w.state.Inside a b → b < a := by
        intro a b hab
        have hmem : a ∈ w.state.contents (.container b) := hab
        exact hrank b (mem_containers.mpr (State.isContainer_of_mem hmem)) a hab
      induction hab with
      | single hab => exact hedge hab
      | tail _ hbc ih => exact (hedge hbc).trans ih
    exact lt_irrefl x (hless hcycle)
  old := (wellFormed h).old
  object x hx := ((wellFormed h).plain x hx).1

end TibiaServer.Cylinders
