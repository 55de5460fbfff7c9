import Mathlib.Data.Set.Finite.Basic
import TibiaServer.Library.Ancestors
/-!
# Level by level

A walk down a tree that keeps the nodes it has still to open.  In a forest it lists
everything below the nodes that it starts with, once each, if none of these is below
another and there are enough steps.
-/

namespace TibiaServer.Library

variable {α : Type*}

/-- The children of the waiting nodes and of those below; only inner nodes are opened. -/
def breadth (children : α → List α) (inner : α → Bool) : ℕ → List α → List α
  | 0, _ => []
  | _, [] => []
  | n + 1, x :: waiting =>
    children x ++ breadth children inner n (waiting ++ (children x).filter inner)

/-- The walk without a bound on its steps: the nodes that are waiting and all that it lists. -/
inductive BreadthFirst (children : α → List α) (inner : α → Bool) : List α → List α → Prop
  | done : BreadthFirst children inner [] []
  | next {x : α} {waiting rest : List α}
      (h : BreadthFirst children inner (waiting ++ (children x).filter inner) rest) :
      BreadthFirst children inner (x :: waiting) (children x ++ rest)

/-- Inner nodes without children may be left out. -/
theorem BreadthFirst.filter_nonempty {children : α → List α} {inner : α → Bool}
    {waiting l : List α} (h : BreadthFirst children inner waiting l) :
    BreadthFirst children (fun x => inner x && !(children x).isEmpty)
      (waiting.filter fun x => !(children x).isEmpty) l := by
  induction h with
  | done => exact .done
  | @next x waiting rest _ ih =>
    rw [List.filter_append, List.filter_filter] at ih
    simp only [Bool.and_comm] at ih
    by_cases hx : children x = []
    · rw [List.filter_cons_of_neg (by simp [hx])]
      simpa [hx] using ih
    · rw [List.filter_cons_of_pos (by simp [hx])]
      exact .next ih

/-- `children` and `up` describe one forest. -/
structure Branches (children : α → List α) (inner : α → Bool) (up : α → Option α) : Prop where
  mem_iff : ∀ x y, y ∈ children x ↔ up y = some x
  nodup : ∀ x, (children x).Nodup
  acyclic : ∀ x, ¬Above up x x
  opened : ∀ x y, up y = some x → inner x = true

/-- None of the nodes stands below another. -/
structure Apart (up : α → Option α) (waiting : List α) : Prop where
  nodup : waiting.Nodup
  above : ∀ v ∈ waiting, ∀ w ∈ waiting, ¬Above up v w

theorem Apart.not_atOrAbove {up : α → Option α} {x w : α} {waiting : List α}
    (h : Apart up (x :: waiting)) (hw : w ∈ waiting) : ¬AtOrAbove up x w := by
  intro hxw
  rcases Relation.reflTransGen_iff_eq_or_transGen.mp hxw with rfl | habove
  · exact (List.nodup_cons.mp h.nodup).1 hw
  · exact h.above x List.mem_cons_self w (List.mem_cons_of_mem x hw) habove

namespace Branches

variable {children : α → List α} {inner : α → Bool} {up : α → Option α} {x y w : α}
  {waiting : List α}

section Forest

variable (h : Branches children inner up)

include h

/-- What is below a node is a child of it or below a child that is opened. -/
theorem above_iff :
    Above up y x ↔ y ∈ children x ∨ ∃ z ∈ (children x).filter inner, Above up y z := by
  constructor
  · intro hyx
    obtain ⟨z, hyz, hzx⟩ := Relation.TransGen.tail'_iff.mp hyx
    have hz : z ∈ children x := (h.mem_iff x z).mpr hzx
    rcases Relation.reflTransGen_iff_eq_or_transGen.mp hyz with rfl | habove
    · exact .inl hz
    · obtain ⟨v, -, hvz⟩ := Relation.TransGen.tail'_iff.mp habove
      exact .inr ⟨z, List.mem_filter.mpr ⟨hz, h.opened z v hvz⟩, habove⟩
  · rintro (hy | ⟨z, hz, habove⟩)
    · exact .single ((h.mem_iff x y).mp hy)
    · exact habove.tail ((h.mem_iff x z).mp (List.mem_filter.mp hz).1)

/-- A child is not at or above its parent. -/
theorem not_atOrAbove_child (hy : y ∈ children x) : ¬AtOrAbove up x y := fun hxy =>
  h.acyclic x (Relation.TransGen.tail' hxy ((h.mem_iff x y).mp hy))

/-- The head is not at or below what waits after it has been opened. -/
theorem not_atOrAbove_next (hapart : Apart up (x :: waiting))
    (hw : w ∈ waiting ++ (children x).filter inner) : ¬AtOrAbove up x w := by
  rcases List.mem_append.mp hw with hw | hw
  · exact hapart.not_atOrAbove hw
  · exact h.not_atOrAbove_child (List.mem_filter.mp hw).1

/-- What is above a child is at or above its parent. -/
theorem atOrAbove_of_child (hy : y ∈ children x) (hyw : Above up y w) : AtOrAbove up x w := by
  obtain ⟨z, hz, hzw⟩ := Relation.TransGen.head'_iff.mp hyw
  obtain rfl : x = z := Option.some.inj (((h.mem_iff x y).mp hy).symm.trans hz)
  exact hzw

theorem apart_next (hapart : Apart up (x :: waiting)) :
    Apart up (waiting ++ (children x).filter inner) := by
  obtain ⟨hx, hnodup⟩ := List.nodup_cons.mp hapart.nodup
  have hbelow : ∀ w ∈ waiting, ¬Above up w x := fun w hw =>
    hapart.above w (List.mem_cons_of_mem x hw) x List.mem_cons_self
  constructor
  · refine List.Nodup.append hnodup ((h.nodup x).filter _) fun w hw hchild => ?_
    exact hbelow w hw (.single ((h.mem_iff x w).mp (List.mem_filter.mp hchild).1))
  · intro v hv w hw habove
    rcases List.mem_append.mp hv with hv | hv
    · rcases List.mem_append.mp hw with hw' | hw'
      · exact hapart.above v (List.mem_cons_of_mem x hv) w (List.mem_cons_of_mem x hw') habove
      · have hwx : up w = some x := (h.mem_iff x w).mp (List.mem_filter.mp hw').1
        exact hbelow v hv (habove.tail hwx)
    · exact h.not_atOrAbove_next hapart hw
        (h.atOrAbove_of_child (List.mem_filter.mp hv).1 habove)

end Forest

open Classical in
/-- The nodes that are still to open. -/
noncomputable def pending (up : α → Option α) (nodes : Finset α) (waiting : List α) : Finset α :=
  nodes.filter fun y => ∃ w ∈ waiting, AtOrAbove up y w

theorem mem_pending {up : α → Option α} {nodes : Finset α} :
    y ∈ pending up nodes waiting ↔ y ∈ nodes ∧ ∃ w ∈ waiting, AtOrAbove up y w := by
  classical
  unfold pending
  rw [Finset.mem_filter]

/-- Opening the head takes it off what is pending. -/
theorem card_pending_next (h : Branches children inner up) {nodes : Finset α}
    (hapart : Apart up (x :: waiting)) (hx : x ∈ nodes) :
    (pending up nodes (waiting ++ (children x).filter inner)).card <
      (pending up nodes (x :: waiting)).card := by
  apply Finset.card_lt_card
  rw [Finset.ssubset_iff_of_subset]
  · refine ⟨x, mem_pending.mpr ⟨hx, x, List.mem_cons_self, .refl⟩, fun hmem => ?_⟩
    obtain ⟨-, w, hw, hxw⟩ := mem_pending.mp hmem
    exact h.not_atOrAbove_next hapart hw hxw
  · intro y hy
    obtain ⟨hnode, w, hw, hyw⟩ := mem_pending.mp hy
    refine mem_pending.mpr ⟨hnode, ?_⟩
    rcases List.mem_append.mp hw with hw | hw
    · exact ⟨w, List.mem_cons_of_mem x hw, hyw⟩
    · have hwx : up w = some x := (h.mem_iff x w).mp (List.mem_filter.mp hw).1
      exact ⟨x, List.mem_cons_self, hyw.tail hwx⟩

/-- A walk in a forest lists what is below the nodes that it starts with, once each. -/
theorem breadthFirst_spec (h : Branches children inner up) {l : List α}
    (hwalk : BreadthFirst children inner waiting l) (hapart : Apart up waiting) :
    l.Nodup ∧ ∀ y, y ∈ l ↔ ∃ w ∈ waiting, Above up y w := by
  induction hwalk with
  | done => exact ⟨List.nodup_nil, fun y => by simp⟩
  | @next x waiting rest _ ih =>
    obtain ⟨hnodup, hmem⟩ := ih (h.apart_next hapart)
    constructor
    · refine List.Nodup.append (h.nodup x) hnodup fun y hy hrest => ?_
      obtain ⟨w, hw, hyw⟩ := (hmem y).mp hrest
      exact h.not_atOrAbove_next hapart hw (h.atOrAbove_of_child hy hyw)
    · intro y
      have hsplit : (∃ w ∈ waiting ++ (children x).filter inner, Above up y w) ↔
          (∃ w ∈ waiting, Above up y w) ∨ ∃ w ∈ (children x).filter inner, Above up y w := by
        simp only [List.mem_append, or_and_right, exists_or]
      rw [List.mem_append, hmem, hsplit, List.exists_mem_cons_iff, h.above_iff, or_assoc,
        or_comm (a := ∃ w ∈ waiting, Above up y w)]

/-- With a step for each node that is pending, the walk comes to its end. -/
theorem breadthFirst_breadth (h : Branches children inner up) {nodes : Finset α} (n : ℕ) :
    ∀ waiting : List α, Apart up waiting → (∀ w ∈ waiting, w ∈ nodes) →
      (∀ z, inner z = true → (∃ w ∈ waiting, AtOrAbove up z w) → z ∈ nodes) →
      (pending up nodes waiting).card ≤ n →
      BreadthFirst children inner waiting (breadth children inner n waiting) := by
  induction n with
  | zero =>
    intro waiting hapart hwaiting _ hcard
    cases waiting with
    | nil => exact .done
    | cons x waiting =>
      have hless := h.card_pending_next hapart (hwaiting x List.mem_cons_self)
      omega
  | succ n ih =>
    intro waiting hapart hwaiting hinner hcard
    cases waiting with
    | nil => exact .done
    | cons x waiting =>
      have hless := h.card_pending_next hapart (hwaiting x List.mem_cons_self)
      have hup : ∀ w ∈ (children x).filter inner, AtOrAbove up w x := fun w hw =>
        .single ((h.mem_iff x w).mp (List.mem_filter.mp hw).1)
      apply BreadthFirst.next
      apply ih _ (h.apart_next hapart)
      · intro w hw
        rcases List.mem_append.mp hw with hw | hw
        · exact hwaiting w (List.mem_cons_of_mem x hw)
        · exact hinner w (List.mem_filter.mp hw).2 ⟨x, List.mem_cons_self, hup w hw⟩
      · rintro z hz ⟨w, hw, hzw⟩
        apply hinner z hz
        rcases List.mem_append.mp hw with hw | hw
        · exact ⟨w, List.mem_cons_of_mem x hw, hzw⟩
        · exact ⟨x, List.mem_cons_self, hzw.trans (hup w hw)⟩
      · omega

theorem apart_singleton (h : Branches children inner up) (x : α) : Apart up [x] := by
  refine ⟨List.nodup_singleton x, fun v hv w hw => ?_⟩
  rw [List.mem_singleton] at hv hw
  rw [hv, hw]
  exact h.acyclic x

/-- Below one node the walk comes to its end when there are finitely many inner nodes there. -/
theorem breadthFirst_singleton (h : Branches children inner up) {nodes : Finset α}
    (hinner : ∀ z, inner z = true → AtOrAbove up z x → z ∈ nodes) (hx : x ∈ nodes) {n : ℕ}
    (hn : nodes.card ≤ n) : BreadthFirst children inner [x] (breadth children inner n [x]) := by
  apply h.breadthFirst_breadth n [x] (h.apart_singleton x) (by simpa using hx)
  · rintro z hz ⟨w, hw, hzw⟩
    rw [List.mem_singleton.mp hw] at hzw
    exact hinner z hz hzw
  · exact (Finset.card_le_card fun y hy => (mem_pending.mp hy).1).trans hn

/-- Everything below one node. -/
theorem breadth_singleton (h : Branches children inner up) {nodes : Finset α}
    (hinner : ∀ z, inner z = true → z ∈ nodes) (hx : x ∈ nodes) {n : ℕ} (hn : nodes.card ≤ n) :
    (breadth children inner n [x]).Nodup ∧
      ∀ y, y ∈ breadth children inner n [x] ↔ Above up y x := by
  have hwalk := h.breadthFirst_singleton (fun z hz _ => hinner z hz) hx hn
  obtain ⟨hnodup, hmem⟩ := h.breadthFirst_spec hwalk (h.apart_singleton x)
  refine ⟨hnodup, fun y => ?_⟩
  rw [hmem]
  simp

/-- Finitely many nodes below one are listed by a walk, once each. -/
theorem exists_breadthFirst (h : Branches children inner up)
    (hfinite : {y | Above up y x}.Finite) :
    ∃ l, BreadthFirst children inner [x] l ∧ l.Nodup ∧ ∀ y, y ∈ l ↔ Above up y x := by
  classical
  have hbelow : ∀ z, inner z = true → AtOrAbove up z x → z ∈ insert x hfinite.toFinset := by
    intro z _ hzx
    rcases Relation.reflTransGen_iff_eq_or_transGen.mp hzx with rfl | habove
    · exact Finset.mem_insert_self _ _
    · exact Finset.mem_insert_of_mem (hfinite.mem_toFinset.mpr habove)
  have hwalk := h.breadthFirst_singleton hbelow (Finset.mem_insert_self x _) le_rfl
  obtain ⟨hnodup, hmem⟩ := h.breadthFirst_spec hwalk (h.apart_singleton x)
  refine ⟨_, hwalk, hnodup, fun y => ?_⟩
  rw [hmem]
  simp

end Branches

end TibiaServer.Library
