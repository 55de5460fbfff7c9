import TibiaServer.Cylinders.ParentWalk
import TibiaServer.Library.Breadth
/-!
# How many items a container holds

`ContainerIterator` visits everything in a container once.  An item that is put into
a container counts, with what is in it, for that container and for all that this one
stands in, and for no other.
-/

namespace TibiaServer.Cylinders

open TibiaServer.Library

namespace State

variable (s : State)

/-- The cylinder is the container `x` or stands in it. -/
def Leads (c : Cylinder) (x : ItemRef) : Prop := ∃ z, c = .container z ∧ s.Within z x

/-- An item with everything in it. -/
def unitsIn (y : ItemRef) : ℕ := s.getItemHoldingCount y + 1

theorem iteratorLoop_eq (n : ℕ) (waiting : List ItemRef) :
    s.iteratorLoop n waiting = breadth s.itemlist s.isContainer n waiting := by
  induction n generalizing waiting with
  | zero => rfl
  | succ n ih =>
    cases waiting with
    | nil => rfl
    | cons x waiting => exact congrArg (s.itemlist x ++ ·) (ih _)

variable {s}

theorem getItemHoldingCount_of_places {t : State} (h : SamePlaces s t) (x : ItemRef) :
    t.getItemHoldingCount x = s.getItemHoldingCount x := by
  have hlist : t.itemlist = s.itemlist := funext h.itemlist
  have hcontainer : t.isContainer = s.isContainer := funext h.isContainer
  have hdepth : t.depth = s.depth := congrArg (· + 3) h.fresh
  unfold getItemHoldingCount iterator
  rw [iteratorLoop_eq, iteratorLoop_eq, hlist, hcontainer, hdepth]

theorem not_leads_player (p : PlayerRef) (x : ItemRef) : ¬s.Leads (.player p) x := by
  rintro ⟨z, hz, -⟩
  cases hz

theorem not_leads_tile (t : TibiaServer.World.Position) (x : ItemRef) : ¬s.Leads (.tile t) x := by
  rintro ⟨z, hz, -⟩
  cases hz

theorem leads_container {z x : ItemRef} : s.Leads (.container z) x ↔ s.Within z x := by
  constructor
  · rintro ⟨z', hz, hwithin⟩
    rwa [Cylinder.container.inj hz]
  · exact fun hwithin => ⟨z, rfl, hwithin⟩

end State

namespace Forest

variable {s t : State} {c : Cylinder} {x y : ItemRef}

theorem branches (hs : Forest s) : Branches s.itemlist s.isContainer s.containerOf where
  mem_iff _ _ := hs.inside_iff
  nodup x := hs.nodup (.container x)
  acyclic x hx := hs.acyclic x (hs.above_iff.mp hx)
  opened x y hy := by
    have hmem : y ∈ s.contents (.container x) := hs.inside_iff.mpr hy
    exact State.isContainer_of_mem hmem

theorem iterator_spec (hs : Forest s) (x : ItemRef) :
    (s.iterator x).Nodup ∧ ∀ y, y ∈ s.iterator x ↔ Relation.TransGen s.Inside y x := by
  have hnodes : ∀ z, s.isContainer z = true → z ∈ insert x (Finset.range s.fresh) := fun z hz =>
    Finset.mem_insert_of_mem (Finset.mem_range.mpr (hs.object z hz))
  have hcard : (insert x (Finset.range s.fresh)).card ≤ s.depth := by
    have hinsert := Finset.card_insert_le x (Finset.range s.fresh)
    rw [Finset.card_range] at hinsert
    unfold State.depth
    omega
  obtain ⟨hnodup, hmem⟩ := hs.branches.breadth_singleton hnodes
    (Finset.mem_insert_self x _) hcard
  unfold State.iterator
  rw [State.iteratorLoop_eq]
  exact ⟨hnodup, fun y => (hmem y).trans hs.above_iff⟩

theorem isHoldingItem_iff (hs : Forest s) :
    s.isHoldingItem x y = true ↔ Relation.TransGen s.Inside y x := by
  unfold State.isHoldingItem
  rw [decide_eq_true_iff, (hs.iterator_spec x).2]

/-- Containers with the same things in them hold as many. -/
theorem getItemHoldingCount_congr (hs : Forest s) (ht : Forest t)
    (h : ∀ y, Relation.TransGen t.Inside y x ↔ Relation.TransGen s.Inside y x) :
    t.getItemHoldingCount x = s.getItemHoldingCount x := by
  obtain ⟨hnodup, hmem⟩ := hs.iterator_spec x
  obtain ⟨hnodup', hmem'⟩ := ht.iterator_spec x
  apply List.Perm.length_eq
  rw [List.perm_ext_iff_of_nodup hnodup' hnodup]
  intro y
  rw [hmem, hmem', h]

theorem getItemHoldingCount_of_contents (hs : Forest s) (ht : Forest t)
    (h : ∀ z, t.contents (.container z) = s.contents (.container z)) (x : ItemRef) :
    t.getItemHoldingCount x = s.getItemHoldingCount x := by
  have hinside : t.Inside = s.Inside := by
    funext a b
    exact congrArg (a ∈ ·) (h b)
  apply hs.getItemHoldingCount_congr ht
  intro y
  rw [hinside]

theorem leads_of_contents (h : ∀ z, t.contents (.container z) = s.contents (.container z)) :
    t.Leads c x ↔ s.Leads c x := by
  have hinside : t.Inside = s.Inside := by
    funext a b
    exact congrArg (a ∈ ·) (h b)
  unfold State.Leads State.Within
  rw [hinside]

/-! ## An addition -/

section Adds

variable (h : Adds s t c y)

include h

theorem inside_of_adds (a b : ItemRef) :
    t.Inside a b ↔ s.Inside a b ∨ a = y ∧ c = .container b := by
  constructor
  · intro hab
    have hmem : a ∈ t.contents (.container b) := hab
    rcases Single.mem_cons_of_adds h hmem with ⟨hy, hc⟩ | hold
    · exact .inr ⟨hy, hc.symm⟩
    · exact .inl hold
  · rintro (hab | ⟨rfl, rfl⟩)
    · have hmem : a ∈ s.contents (.container b) := hab
      exact (Single.mem_of_adds h hmem :)
    · have hmem : a ∈ t.contents (.container b) := h.contents.mem_iff.mpr List.mem_cons_self
      exact hmem

theorem within_of_adds {a b : ItemRef} (hab : s.Within a b) : t.Within a b :=
  Relation.ReflTransGen.mono (fun p q hpq => (inside_of_adds h p q).mpr (.inl hpq)) a b hab

theorem below_of_adds {a b : ItemRef} (hab : Relation.TransGen s.Inside a b) :
    Relation.TransGen t.Inside a b :=
  Relation.TransGen.mono (fun p q hpq => (inside_of_adds h p q).mpr (.inl hpq)) a b hab

variable (ht : Forest t)

include ht

/-- The place is not in what is put there. -/
theorem not_within_of_adds {z : ItemRef} (hc : c = .container z) : ¬s.Within z y := by
  intro hzy
  have hedge : t.Inside y z := (inside_of_adds h y z).mpr (.inr ⟨rfl, hc⟩)
  exact ht.acyclic y (.head' hedge (within_of_adds h hzy))

/-- Below a container is what was there, and what came with `y` if the place is there. -/
theorem below_of_adds_iff {a b : ItemRef} :
    Relation.TransGen t.Inside a b ↔
      Relation.TransGen s.Inside a b ∨ s.Within a y ∧ s.Leads c b := by
  constructor
  · intro hab
    cases c with
    | container z =>
      have hno : ¬s.Within z y := not_within_of_adds h ht rfl
      have hedge : ∀ p q, t.Inside p q → s.Inside p q ∨ p = y ∧ q = z := by
        intro p q hpq
        exact ((inside_of_adds h p q).mp hpq).imp_right fun hnew =>
          ⟨hnew.1, (Cylinder.container.inj hnew.2).symm⟩
      rcases transGen_of_edge hedge hab hno with hold | ⟨hay, hzb⟩
      · exact .inl hold
      · exact .inr ⟨hay, State.leads_container.mpr hzb⟩
    | player p | tile pos =>
      refine .inl (Relation.TransGen.mono (fun p q hpq => ?_) a b hab)
      rcases (inside_of_adds h p q).mp hpq with hold | ⟨-, hc⟩
      · exact hold
      · cases hc
  · rintro (hab | ⟨hay, z, hc, hzb⟩)
    · exact below_of_adds h hab
    · have hedge : t.Inside y z := (inside_of_adds h y z).mpr (.inr ⟨rfl, hc⟩)
      exact Relation.TransGen.trans_right (within_of_adds h hay)
        (.head' hedge (within_of_adds h hzb))

theorem leads_of_adds (x : ItemRef) : t.Leads c x ↔ s.Leads c x := by
  constructor
  · rintro ⟨z, hc, hzx⟩
    refine ⟨z, hc, ?_⟩
    rcases Relation.reflTransGen_iff_eq_or_transGen.mp hzx with rfl | hbelow
    · exact .refl
    · rcases (below_of_adds_iff h ht).mp hbelow with hold | ⟨hzy, -⟩
      · exact hold.to_reflTransGen
      · exact absurd hzy (not_within_of_adds h ht hc)
  · rintro ⟨z, hc, hzx⟩
    exact ⟨z, hc, within_of_adds h hzx⟩

variable (hs : Forest s)

include hs

/-- What is put somewhere keeps what is in it. -/
theorem unitsIn_of_adds : t.unitsIn y = s.unitsIn y := by
  apply congrArg (· + 1)
  apply hs.getItemHoldingCount_congr ht
  intro a
  rw [below_of_adds_iff h ht, or_iff_left]
  rintro ⟨-, z, hc, hzy⟩
  exact not_within_of_adds h ht hc hzy

open Classical in
/-- A container counts what is put into it or into what is in it. -/
theorem getItemHoldingCount_of_adds (hnew : ∀ c, y ∉ s.contents c) (x : ItemRef) :
    t.getItemHoldingCount x =
      s.getItemHoldingCount x + if s.Leads c x then s.unitsIn y else 0 := by
  split
  next hleads =>
    obtain ⟨hnodup, hmem⟩ := hs.iterator_spec x
    obtain ⟨hnodupY, hmemY⟩ := hs.iterator_spec y
    obtain ⟨hnodup', hmem'⟩ := ht.iterator_spec x
    have hroot : ∀ b, ¬Relation.TransGen s.Inside y b := by
      intro b hyb
      obtain ⟨z, hyz, -⟩ := Relation.TransGen.head'_iff.mp hyb
      exact hnew (.container z) hyz
    -- what is below `y` is not below `x` too: nothing is above `y`
    have hapart : ∀ a ∈ s.iterator x, a ∉ y :: s.iterator y := by
      intro a hax hay
      rw [hmem] at hax
      obtain ⟨z, hc, hzx⟩ := hleads
      rcases List.mem_cons.mp hay with rfl | hay
      · exact hroot x hax
      · rw [hmemY] at hay
        have hcompare := Relation.ReflTransGen.total_of_right_unique
          (r := fun p q => s.containerOf p = some q)
          (fun p q r hq hr => Option.some.inj (hq.symm.trans hr))
          (hs.above_iff.mpr hax).to_reflTransGen (hs.above_iff.mpr hay).to_reflTransGen
        rcases hcompare with hxy | hyx
        · have hwithin : s.Within x y := by
            refine Relation.ReflTransGen.mono (fun p q hpq => hs.inside_iff.mpr hpq) x y hxy
          exact not_within_of_adds h ht hc (hzx.trans hwithin)
        · rcases Relation.reflTransGen_iff_eq_or_transGen.mp hyx with rfl | hbelow
          · exact not_within_of_adds h ht hc hzx
          · exact hroot x (hs.above_iff.mp hbelow)
    have hperm : (t.iterator x).Perm (s.iterator x ++ y :: s.iterator y) := by
      rw [List.perm_ext_iff_of_nodup hnodup' (List.Nodup.append hnodup
        (List.nodup_cons.mpr ⟨fun hy => hs.acyclic y ((hmemY y).mp hy), hnodupY⟩) hapart)]
      intro a
      rw [hmem', below_of_adds_iff h ht, List.mem_append, List.mem_cons, hmem, hmemY]
      have hwithin : s.Within a y ↔ a = y ∨ Relation.TransGen s.Inside a y := by
        rw [State.Within, Relation.reflTransGen_iff_eq_or_transGen, @eq_comm _ y]
      rw [hwithin, and_iff_left hleads]
    unfold State.unitsIn State.getItemHoldingCount
    rw [hperm.length_eq, List.length_append, List.length_cons]
  next hleads =>
    apply hs.getItemHoldingCount_congr ht
    intro a
    rw [below_of_adds_iff h ht, or_iff_left]
    exact fun hnew => hleads hnew.2

end Adds

/-! ## A removal -/

open Classical in
/-- A container counts less by what is taken out of it or out of what is in it. -/
theorem getItemHoldingCount_of_removal (hs : Forest s) (ht : Forest t) (h : Adds t s c y)
    (x : ItemRef) :
    s.getItemHoldingCount x =
      t.getItemHoldingCount x + if s.Leads c x then s.unitsIn y else 0 := by
  have hnew := hs.toSingle.not_mem_of_adds h
  have hcount := getItemHoldingCount_of_adds h hs ht hnew x
  have hleads := leads_of_adds h hs x
  have hunits := unitsIn_of_adds h hs ht
  simp only [hleads, hunits]
  exact hcount

end Forest

/-! ## What a player carries -/

namespace State

variable (s : State)

/-- The item `y` is `x` or stands in it. -/
def holds (x y : ItemRef) : Bool := y = x || s.isHoldingItem x y

def carries (p : PlayerRef) (y : ItemRef) : Bool :=
  (s.contents (.player p)).any fun x => s.holds x y

end State

namespace Forest

open State

variable {s t : State} {p : PlayerRef} {x y z : ItemRef}

theorem holds_iff (hs : Forest s) : s.holds x y = true ↔ s.Within y x := by
  rw [Within, Relation.reflTransGen_iff_eq_or_transGen, @eq_comm _ x]
  simp only [holds, Bool.or_eq_true, decide_eq_true_eq, hs.isHoldingItem_iff]

theorem carries_iff (hs : Forest s) :
    s.carries p y = true ↔ ∃ x ∈ s.contents (.player p), s.Within y x := by
  simp only [carries, List.any_eq_true, hs.holds_iff]

/-- What is above a carried item and stands in the player is the one slot. -/
theorem comparable (hs : Forest s) (hx : s.Within z x) (hy : s.Within z y) :
    s.Within x y ∨ s.Within y x := by
  have hrel : (fun a b => s.containerOf a = some b) = s.Inside := by
    funext a b
    exact propext hs.inside_iff.symm
  have hcompare := Relation.ReflTransGen.total_of_right_unique
    (r := fun a b => s.containerOf a = some b)
    (fun a b c hb hc => Option.some.inj (hb.symm.trans hc)) (a := z) (b := x) (c := y)
  rw [hrel] at hcompare
  exact hcompare hx hy

/-- What stands in no container is above all that it is comparable with. -/
theorem eq_of_within_of_root (hx : ∀ w, x ∉ s.contents (.container w)) (h : s.Within x y) :
    y = x := by
  rcases Relation.ReflTransGen.cases_head h with heq | ⟨w, hw, -⟩
  · exact heq.symm
  · exact absurd hw (hx w)

theorem not_inside_of_mem (hs : Forest s) (hx : x ∈ s.contents (.player p)) (w : ItemRef) :
    x ∉ s.contents (.container w) :=
  fun hw => by cases hs.once _ _ x hx hw

section Contents

variable (hs : Forest s) (ht : Forest t)
  (hcontainers : ∀ x, t.contents (.container x) = s.contents (.container x))

include hcontainers

theorem inside_of_contents : t.Inside = s.Inside := by
  funext a b
  exact congrArg (a ∈ ·) (hcontainers b)

include hs ht

variable (hp : t.contents (.player p) = s.contents (.player p))

include hp

theorem carries_of_contents (z : ItemRef) : t.carries p z = s.carries p z := by
  rw [Bool.eq_iff_iff, ht.carries_iff, hs.carries_iff, hp]
  simp only [Within, inside_of_contents hcontainers]

end Contents

end Forest

end TibiaServer.Cylinders
