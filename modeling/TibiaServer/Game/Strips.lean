import TibiaServer.Cylinders.Frames
import TibiaServer.Game.TypeCounts
/-!
# One removal after another

A removal takes one item out of its place and with it all that is in it.  After several of them
everything that was not itself removed stands where it stood (`Strips`), if in something that
has left the player.
-/

namespace TibiaServer.Game

open TibiaServer.Cylinders
open TibiaServer.Library
open ReturnValue

/-- Items that `internalRemoveItem` removes from where they stand: no container of a kind of its
own, and no bed of a house. -/
def Removable (s : State) (y : ItemRef) (houseBed : Bool) : Prop :=
  match (s.item y).container with
  | some container => container.kind = .Container
  | none => houseBed = false

instance (s : State) (y : ItemRef) (houseBed : Bool) : Decidable (Removable s y houseBed) := by
  unfold Removable
  split <;> infer_instance

section OneRemoval

variable {s t : State} {c : Cylinder} {y : ItemRef} {houseBed : Bool}

theorem itemParent_of_removable (h : Removable s y houseBed) :
    s.itemParent y = (s.item y).parent := by
  unfold Removable at h
  unfold State.itemParent
  cases hcontainer : (s.item y).container with
  | none => rfl
  | some container =>
    rw [hcontainer] at h
    obtain ⟨kind, maxSize⟩ := container
    dsimp only at h
    subst h
    rfl

theorem canRemove_of_removable (h : Removable s y houseBed) : canRemove s y houseBed = true := by
  unfold Removable at h
  unfold canRemove
  cases hcontainer : (s.item y).container with
  | none =>
    rw [hcontainer] at h
    rw [h]
    rfl
  | some container =>
    rw [hcontainer] at h
    dsimp only at h ⊢
    rw [h]
    rfl

theorem removable_of_frames (hframes : SameFrames s t) (h : Removable s y houseBed) :
    Removable t y houseBed := by
  have hkind := hframes.map_container y Container.kind fun _ => rfl
  unfold Removable at *
  cases hs : (s.item y).container with
  | none =>
    rw [hs] at h hkind
    have hnone : (t.item y).container = none := by simpa using hkind
    rw [hnone]
    exact h
  | some container =>
    rw [hs] at h hkind
    obtain ⟨container', ht, hsame⟩ := Option.map_eq_some_iff.mp hkind
    rw [ht]
    exact hsame.trans h

theorem getThingIndex_ne (hs : Forest s) (hy : y ∈ s.contents c) : s.getThingIndex c y ≠ -1 := by
  cases c with
  | player p =>
    obtain ⟨slot, -, hindex, -⟩ := s.playerThingIndex_spec hy
    change s.playerThingIndex p y ≠ -1
    omega
  | container x => exact s.containerThingIndex_ne hy
  | tile pos => exact State.tileThingIndex_ne hs.toLayered hy

/-- The removal is granted. -/
theorem internalRemoveItem_eq (hs : Forest s) (hy : y ∈ s.contents c)
    (hremovable : Removable s y houseBed) {n : ℤ} {count : ℕ}
    (hn : (if n = -1 then s.getItemCount y else (n % 4294967296).toNat) = count)
    (hpos : count ≠ 0) (hle : count ≤ s.getItemCount y) :
    internalRemoveItem s y n false {} houseBed =
      (NOERROR, (s.removeThing c y count).postNotification c) := by
  have hparent : s.itemParent y = some c := by
    rw [itemParent_of_removable hremovable]
    exact hs.parent c y hy
  have hquery : s.queryRemove c y count { FLAG_IGNORENOTMOVEABLE := true } = NOERROR := by
    unfold State.queryRemove State.queryRemoveAt
    rw [if_neg (getThingIndex_ne hs hy), if_neg, if_neg]
    · simp
    · rintro (hzero | ⟨-, hmore⟩)
      · exact hpos hzero
      · omega
  unfold internalRemoveItem
  rw [hparent]
  dsimp only
  rw [hn, hquery, canRemove_of_removable hremovable]
  rfl

/-- A whole item leaves its place. -/
theorem internalRemoveItem_whole (hs : Forest s) (hy : y ∈ s.contents c)
    (hremovable : Removable s y houseBed) (hpos : s.getItemCount y ≠ 0) :
    ∃ t, (internalRemoveItem s y (-1) false {} houseBed).2 = t ∧ Forest t ∧ SameFrames s t ∧
      Adds t s c y := by
  have heq := internalRemoveItem_eq hs hy hremovable (n := -1) (if_pos rfl) hpos le_rfl
  refine ⟨_, rfl, ?_⟩
  rw [heq]
  have hwhole : ¬ s.removesPart y (s.getItemCount y) := fun h => h.2 rfl
  have hplaces := State.samePlaces_postNotification (s.removeThing c y (s.getItemCount y)) c
  refine ⟨(hs.removeThing c y _).postNotification c, ?_, ?_⟩
  · exact (State.sameFrames_removeThing c y _).trans hplaces.sameFrames
  · exact (State.adds_removeThing hs.toLayered hy hwhole).of_places hplaces.symm

end OneRemoval

/-- `t` is `s` without the items of `gone` where they stood. -/
structure Strips (s t : State) (gone : ItemRef → Prop) : Prop where
  forest : Forest t
  frames : SameFrames s t
  items : t.items = s.items
  fresh : t.fresh = s.fresh
  id : ∀ x, (t.item x).id = (s.item x).id
  count : ∀ x, t.getItemCount x = s.getItemCount x
  mem : ∀ c z, z ∈ t.contents c ↔ z ∈ s.contents c ∧ ¬ gone z

namespace Strips

variable {s t u : State} {gone : ItemRef → Prop} {c : Cylinder} {p : PlayerRef} {x y z : ItemRef}

theorem refl (hs : Forest s) : Strips s s fun _ => False :=
  ⟨hs, SameFrames.refl s, rfl, rfl, fun _ => rfl, fun _ => rfl,
    fun _ _ => ⟨fun h => ⟨h, not_false⟩, And.left⟩⟩

theorem whole (h : Strips s t gone) (hu : Forest u) (hframes : SameFrames t u)
    (hadds : Adds u t c y) : Strips s u fun z => gone z ∨ z = y where
  forest := hu
  frames := h.frames.trans hframes
  items := hadds.items.symm.trans h.items
  fresh := hadds.fresh.symm.trans h.fresh
  id x := (hadds.id x).symm.trans (h.id x)
  count x := (hadds.count x).symm.trans (h.count x)
  mem c' z := by
    have hout := h.forest.toSingle.not_mem_of_adds hadds
    constructor
    · intro hz
      obtain ⟨hold, hnot⟩ := (h.mem c' z).mp (Single.mem_of_adds hadds hz)
      refine ⟨hold, fun hgone => ?_⟩
      rcases hgone with hgone | rfl
      · exact hnot hgone
      · exact hout c' hz
    · rintro ⟨hz, hnot⟩
      have hmem := (h.mem c' z).mpr ⟨hz, fun hgone => hnot (.inl hgone)⟩
      rcases Single.mem_cons_of_adds hadds hmem with ⟨heq, -⟩ | hstays
      · exact absurd (.inr heq) hnot
      · exact hstays

theorem inside (h : Strips s t gone) : t.Inside y x ↔ s.Inside y x ∧ ¬ gone y :=
  h.mem (.container x) y

theorem within_of_strips (h : Strips s t gone) (hin : t.Within y x) : s.Within y x :=
  Relation.ReflTransGen.mono (fun _ _ hab => (h.inside.mp hab).1) y x hin

/-- With nothing on the way gone, an item is still in what it was in. -/
theorem within_of_stays (h : Strips s t gone) (hstays : ∀ w, s.Within y w → ¬ gone w)
    (hin : s.Within y x) : t.Within y x := by
  induction hin with
  | refl => exact .refl
  | tail hbefore hedge ih => exact ih.tail (h.inside.mpr ⟨hedge, hstays _ hbefore⟩)

theorem carries_of_strips (h : Strips s t gone) (hs : Forest s) (hin : t.carries p y = true) :
    s.carries p y = true ∧ ¬ gone y := by
  obtain ⟨x, hx, hyx⟩ := h.forest.carries_iff.mp hin
  obtain ⟨hslot, hnot⟩ := (h.mem _ x).mp hx
  refine ⟨hs.carries_iff.mpr ⟨x, hslot, h.within_of_strips hyx⟩, ?_⟩
  rcases Relation.ReflTransGen.cases_head hyx with rfl | ⟨w, hw, -⟩
  · exact hnot
  · exact (h.inside.mp hw).2

theorem carries_of_stays (h : Strips s t gone) (hs : Forest s)
    (hstays : ∀ w, s.Within y w → ¬ gone w) (hin : s.carries p y = true) :
    t.carries p y = true := by
  obtain ⟨x, hx, hyx⟩ := hs.carries_iff.mp hin
  exact h.forest.carries_iff.mpr
    ⟨x, (h.mem _ x).mpr ⟨hx, hstays x hyx⟩, h.within_of_stays hstays hyx⟩

/-- What is in an item that has been removed is not with the player any more. -/
theorem not_carries_of_gone (h : Strips s t gone) (hs : Forest s) (hgone : gone y)
    (hin : s.Within z y) : ¬ t.carries p z = true := by
  intro hcarries
  obtain ⟨x, hx, hzx⟩ := h.forest.carries_iff.mp hcarries
  obtain ⟨hslot, hnot⟩ := (h.mem _ x).mp hx
  clear hcarries
  induction hzx using Relation.ReflTransGen.head_induction_on with
  | refl =>
    have heq := Forest.eq_of_within_of_root (hs.not_inside_of_mem hslot) hin
    exact hnot (heq ▸ hgone)
  | @head a b hedge _ ih =>
    obtain ⟨hold, hstays⟩ := h.inside.mp hedge
    rcases Relation.ReflTransGen.cases_head hin with rfl | ⟨w, hw, hrest⟩
    · exact hstays hgone
    · -- there is one container that the item stands in
      have hsame := hs.once (.container b) (.container w) a hold hw
      obtain rfl := Cylinder.container.inj hsame
      exact ih hrest

end Strips

/-! ## Lists of items -/

/-- The item stands somewhere and can be removed from there. -/
structure Ready (s : State) (houseBed : ItemRef → Bool) (y : ItemRef) : Prop where
  stands : ∃ c, y ∈ s.contents c
  removable : Removable s y (houseBed y)
  count : s.getItemCount y ≠ 0

section Lists

variable {s u : State} {gone : ItemRef → Prop} {houseBed : ItemRef → Bool} {y : ItemRef}

theorem Strips.ready (h : Strips s u gone) (hy : Ready s houseBed y) (hnot : ¬ gone y) :
    Ready u houseBed y := by
  obtain ⟨c, hc⟩ := hy.stands
  refine ⟨⟨c, (h.mem c y).mpr ⟨hc, hnot⟩⟩, removable_of_frames h.frames hy.removable, ?_⟩
  rw [h.count]
  exact hy.count

theorem Strips.step (h : Strips s u gone) (hy : Ready s houseBed y) (hnot : ¬ gone y) :
    Strips s (internalRemoveItem u y (-1) false {} (houseBed y)).2 fun z => gone z ∨ z = y := by
  obtain ⟨⟨c, hc⟩, hremovable, hcount⟩ := h.ready hy hnot
  obtain ⟨t, rfl, ht, hframes, hadds⟩ := internalRemoveItem_whole h.forest hc hremovable hcount
  exact h.whole ht hframes hadds

theorem or_mem_cons (gone : ItemRef → Prop) (y : ItemRef) (l : List ItemRef) :
    (fun z => (gone z ∨ z = y) ∨ z ∈ l) = fun z => gone z ∨ z ∈ y :: l := by
  funext z
  rw [List.mem_cons, or_assoc]

theorem strips_removeEach {l : List ItemRef} (h : Strips s u gone) (hl : l.Nodup)
    (hready : ∀ y ∈ l, Ready s houseBed y) (hnot : ∀ y ∈ l, ¬ gone y) :
    Strips s (removeEach houseBed l u) fun z => gone z ∨ z ∈ l := by
  induction l generalizing u gone with
  | nil => simpa [removeEach] using h
  | cons y l ih =>
    obtain ⟨hy, hl⟩ := List.nodup_cons.mp hl
    have hstep := h.step (hready y List.mem_cons_self) (hnot y List.mem_cons_self)
    rw [← or_mem_cons]
    refine ih hstep hl (fun z hz => hready z (List.mem_cons_of_mem y hz)) fun z hz hgone => ?_
    rcases hgone with hgone | rfl
    · exact hnot z (List.mem_cons_of_mem y hz) hgone
    · exact hy hz

/-- Whole stacks first, then a part of one stack where they do not come out even. -/
theorem strips_removeStacks {found : List ItemRef} {amount : ℕ} (h : Strips s u gone)
    (hfound : found.Nodup) (hready : ∀ y ∈ found, Ready s houseBed y)
    (hnot : ∀ y ∈ found, ¬ gone y) (hamount : 0 < amount)
    (hle : amount ≤ (found.map s.getItemCount).sum) :
    (Strips s (removeStacks houseBed (upTo s.getItemCount amount found) amount u)
        (fun z => gone z ∨ z ∈ upTo s.getItemCount amount found) ∧
      ((upTo s.getItemCount amount found).map s.getItemCount).sum = amount) ∨
    ∃ whole v y n, upTo s.getItemCount amount found = whole ++ [y] ∧
      Strips s v (fun z => gone z ∨ z ∈ whole) ∧ y ∈ found ∧ ¬ gone y ∧ y ∉ whole ∧
      0 < n ∧ n < s.getItemCount y ∧ (whole.map s.getItemCount).sum + n = amount ∧
      removeStacks houseBed (upTo s.getItemCount amount found) amount u =
        (internalRemoveItem v y n false {} (houseBed y)).2 := by
  induction found generalizing u gone amount with
  | nil =>
    rw [List.map_nil, List.sum_nil] at hle
    omega
  | cons y found ih =>
    obtain ⟨hy, hfound⟩ := List.nodup_cons.mp hfound
    have hyready := hready y List.mem_cons_self
    have hyhere := hnot y List.mem_cons_self
    have hstep := h.step hyready hyhere
    have hcount := h.count y
    rw [List.map_cons, List.sum_cons] at hle
    unfold upTo
    split_ifs with hlast
    · -- the last stack
      by_cases hall : s.getItemCount y = amount
      · refine .inl ⟨?_, ?_⟩
        · rw [removeStacks, if_neg (by omega), removeStacks, ← or_mem_cons]
          simpa using hstep
        · simpa using hall
      · refine .inr ⟨[], u, y, amount, rfl, by simpa using h, List.mem_cons_self, hyhere,
          List.not_mem_nil, hamount, by omega, by simp, ?_⟩
        rw [removeStacks, if_pos (by omega)]
    · have hrest := ih hstep hfound (fun z hz => hready z (List.mem_cons_of_mem y hz))
        (fun z hz hgone => hgone.elim (hnot z (List.mem_cons_of_mem y hz))
          fun heq => hy (heq ▸ hz)) (Nat.sub_pos_of_lt (not_le.mp hlast)) (by omega)
      rw [removeStacks, if_neg (by omega), hcount, List.map_cons, List.sum_cons]
      rcases hrest with ⟨hstrips, hsum⟩ | ⟨whole, v, z, n, heq, hstrips, hz, hnotz, hfresh, hn,
        hless, hsum, hrun⟩
      · rw [or_mem_cons] at hstrips
        exact .inl ⟨hstrips, by omega⟩
      · rw [or_mem_cons] at hstrips
        refine .inr ⟨y :: whole, v, z, n, by rw [heq]; rfl, hstrips,
          List.mem_cons_of_mem y hz, fun hgone => hnotz (.inl hgone), ?_, hn, hless, ?_, hrun⟩
        · rw [List.mem_cons, not_or]
          exact ⟨fun h => hnotz (.inr h), hfresh⟩
        · rw [List.map_cons, List.sum_cons]
          omega

end Lists

end TibiaServer.Game
