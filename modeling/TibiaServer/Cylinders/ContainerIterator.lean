import TibiaServer.Cylinders.HoldingCount
/-!
# The iterator over a container

`ContainerIterator` keeps the containers that it has still to walk and a cursor into the first of
them.  The loop over it ends and visits everything in a container, at every depth, once
(`iterator_complete`); in a well-formed state this is the list that `State.iterator` stands for.
-/

namespace TibiaServer.Cylinders

open TibiaServer.Library

section Iterator

variable {α : Type} (itemlist : α → List α) (getContainer : α → Bool)

/-- `cur` is an index into the list of the first container of `overList`, the list `over`. -/
structure ContainerIterator (α : Type) where
  overList : List α := []
  cur : ℕ := 0

namespace ContainerIterator

/-- `Container::iterator` -/
def iterator (container : α) : ContainerIterator α :=
  if !(itemlist container).isEmpty then ⟨[container], 0⟩ else {}

variable (it : ContainerIterator α)

def hasNext : Bool := !it.overList.isEmpty

/-- `operator*` -/
def deref : Option α := it.overList.head?.bind fun front => (itemlist front)[it.cur]?

/-- The containers that are waiting after one more item. -/
def pushed : List α :=
  match it.deref itemlist with
  | some i => if getContainer i && !(itemlist i).isEmpty then it.overList ++ [i] else it.overList
  | none => it.overList

def advance : ContainerIterator α :=
  let overList := it.pushed itemlist getContainer
  let cur := it.cur + 1
  match overList with
  | [] => it
  | front :: waiting =>
    if cur = (itemlist front).length then
      if !waiting.isEmpty then ⟨waiting, 0⟩ else ⟨waiting, cur⟩
    else ⟨overList, cur⟩

/-- `for (; it.hasNext(); it.advance())`: what `*it` is in each round, none when `n` rounds do
not suffice. -/
def loop : ℕ → ContainerIterator α → Option (List α)
  | 0, _ => none
  | n + 1, it =>
    if it.hasNext then
      (it.deref itemlist).bind fun item =>
        (loop n (it.advance itemlist getContainer)).map (item :: ·)
    else some []

end ContainerIterator

open ContainerIterator

variable {itemlist getContainer}

/-- The loop ends with these items. -/
def Yields (itemlist : α → List α) (getContainer : α → Bool) (it : ContainerIterator α)
    (items : List α) : Prop :=
  ∃ n, it.loop itemlist getContainer n = some items

theorem yields_nil (cur : ℕ) : Yields itemlist getContainer ⟨[], cur⟩ [] := ⟨1, rfl⟩

/-- One round of the loop. -/
theorem Yields.cons {it : ContainerIterator α} {item : α} {items : List α}
    (hnext : it.hasNext = true) (hderef : it.deref itemlist = some item)
    (h : Yields itemlist getContainer (it.advance itemlist getContainer) items) :
    Yields itemlist getContainer it (item :: items) := by
  obtain ⟨n, hn⟩ := h
  refine ⟨n + 1, ?_⟩
  rw [loop, if_pos hnext, hderef, Option.bind_some, hn, Option.map_some]

/-- The containers among some items that the iterator puts behind the others. -/
def opened (itemlist : α → List α) (getContainer : α → Bool) (items : List α) : List α :=
  items.filter fun i => getContainer i && !(itemlist i).isEmpty

/-- The rest of the first container, and then what is waiting. -/
theorem yields_front {front : α} {items : List α} :
    ∀ {rest waiting : List α} {cur : ℕ}, rest ≠ [] → (itemlist front).drop cur = rest →
      Yields itemlist getContainer ⟨waiting ++ opened itemlist getContainer rest, 0⟩ items →
      Yields itemlist getContainer ⟨front :: waiting, cur⟩ (rest ++ items) := by
  intro rest
  induction rest with
  | nil => exact fun hne => absurd rfl hne
  | cons i rest ih =>
    intro waiting cur _ hdrop h
    have hget : (itemlist front)[cur]? = some i := by
      rw [← List.head?_drop, hdrop, List.head?_cons]
    have hderef : deref itemlist ⟨front :: waiting, cur⟩ = some i := hget
    have hlength : (itemlist front).length = cur + (rest.length + 1) := by
      have hdropped := congrArg List.length hdrop
      rw [List.length_drop, List.length_cons] at hdropped
      omega
    have hdrop' : (itemlist front).drop (cur + 1) = rest := by
      rw [← List.tail_drop, hdrop, List.tail_cons]
    have hpushed : pushed itemlist getContainer ⟨front :: waiting, cur⟩ =
        front :: (waiting ++ opened itemlist getContainer [i]) := by
      unfold pushed opened
      rw [hderef]
      by_cases hi : (getContainer i && !(itemlist i).isEmpty) = true <;> simp [hi]
    have hsplit : waiting ++ opened itemlist getContainer (i :: rest) =
        waiting ++ opened itemlist getContainer [i] ++ opened itemlist getContainer rest := by
      rw [List.append_assoc, opened, opened, opened, ← List.filter_append]
      rfl
    rw [List.cons_append]
    apply Yields.cons rfl hderef
    unfold advance
    rw [hpushed]
    simp only
    cases rest with
    | nil =>
      have hlast : cur + 1 = (itemlist front).length := by
        rw [hlength]
        rfl
      rw [if_pos hlast]
      rw [hsplit, show opened itemlist getContainer [] = [] from rfl, List.append_nil] at h
      cases hwaiting : waiting ++ opened itemlist getContainer [i] with
      | nil =>
        rw [hwaiting] at h
        obtain ⟨n, hn⟩ := h
        cases n with
        | zero => cases hn
        | succ n =>
          obtain rfl : [] = items := Option.some.inj hn
          exact yields_nil _
      | cons next waiting' =>
        rw [hwaiting] at h
        exact h
    | cons j rest =>
      have hmore : ¬cur + 1 = (itemlist front).length := by
        rw [hlength, List.length_cons]
        omega
      rw [if_neg hmore]
      exact ih (List.cons_ne_nil j rest) hdrop' (hsplit ▸ h)

/-- The loop goes through the waiting containers one after the other. -/
theorem yields_of_breadthFirst {waiting items : List α}
    (h : BreadthFirst itemlist (fun i => getContainer i && !(itemlist i).isEmpty) waiting items)
    (hnonempty : ∀ x ∈ waiting, itemlist x ≠ []) :
    Yields itemlist getContainer ⟨waiting, 0⟩ items := by
  induction h with
  | done => exact yields_nil 0
  | @next x waiting rest _ ih =>
    apply yields_front (hnonempty x List.mem_cons_self) rfl
    apply ih
    intro y hy
    rcases List.mem_append.mp hy with hy | hy
    · exact hnonempty y (List.mem_cons_of_mem x hy)
    · have hopened := (List.mem_filter.mp hy).2
      simp at hopened
      exact hopened.2

/-- The loop over a container visits its items level by level. -/
theorem yields_iterator {container : α} {items : List α}
    (h : BreadthFirst itemlist getContainer [container] items) :
    Yields itemlist getContainer (iterator itemlist container) items := by
  have hwalk := h.filter_nonempty
  unfold iterator
  cases hempty : (itemlist container).isEmpty with
  | true =>
    simp only [List.filter_cons, hempty, Bool.not_true, Bool.false_eq_true, if_false,
      List.filter_nil] at hwalk
    cases hwalk
    exact yields_nil 0
  | false =>
    simp only [List.filter_cons, hempty, Bool.not_false, if_true, List.filter_nil] at hwalk
    rw [if_pos (by decide)]
    apply yields_of_breadthFirst hwalk
    intro x hx
    obtain rfl := List.mem_singleton.mp hx
    simpa using hempty

/-- In a forest the loop ends, and visits everything below the container once. -/
theorem iterator_complete {up : α → Option α} (h : Branches itemlist getContainer up)
    (container : α) (hfinite : {y | Above up y container}.Finite) :
    ∃ items, Yields itemlist getContainer (iterator itemlist container) items ∧
      items.Nodup ∧ ∀ y, y ∈ items ↔ Above up y container := by
  obtain ⟨items, hwalk, hspec⟩ := h.exists_breadthFirst hfinite
  exact ⟨items, yields_iterator hwalk, hspec⟩

end Iterator

/-- A bag with a ring, an empty pouch, and a box with a coin. -/
def bagItems (x : ℕ) : List ℕ := if x = 0 then [1, 2, 3] else if x = 3 then [4] else []

def bagParent (x : ℕ) : Option ℕ :=
  if x = 1 ∨ x = 2 ∨ x = 3 then some 0 else if x = 4 then some 3 else none

theorem bagParent_lt {x y : ℕ} (h : bagParent x = some y) : y < x := by
  unfold bagParent at h
  split_ifs at h <;> obtain rfl := Option.some.inj h <;> omega

theorem branches_bag : Branches bagItems (fun x => x = 0 ∨ x = 2 ∨ x = 3) bagParent where
  mem_iff x y := by
    unfold bagItems bagParent
    split_ifs <;> simp <;> omega
  nodup x := by
    unfold bagItems
    split_ifs <;> decide
  acyclic x hx := by
    have hless : ∀ {a b}, Above bagParent a b → b < a := by
      intro a b hab
      induction hab with
      | single h => exact bagParent_lt h
      | tail _ h ih => exact (bagParent_lt h).trans ih
    exact Nat.lt_irrefl x (hless hx)
  opened x y hy := by
    unfold bagParent at hy
    split_ifs at hy <;> obtain rfl := Option.some.inj hy <;> rfl

theorem above_bag {y : ℕ} : Above bagParent y 0 ↔ y ∈ ({1, 2, 3, 4} : Finset ℕ) := by
  have hbox : bagParent 4 = some 3 := rfl
  have hbag : bagParent 3 = some 0 := rfl
  constructor
  · intro h
    obtain ⟨z, hz, -⟩ := Relation.TransGen.head'_iff.mp h
    unfold bagParent at hz
    split_ifs at hz with hitem hcoin
    · rcases hitem with rfl | rfl | rfl <;> decide
    · rw [hcoin]
      decide
  · intro h
    simp only [Finset.mem_insert, Finset.mem_singleton] at h
    rcases h with rfl | rfl | rfl | rfl
    · exact .single rfl
    · exact .single rfl
    · exact .single hbag
    · exact .tail (.single hbox) hbag

theorem bag_iterated :
    ∃ items, Yields bagItems (fun x => x = 0 ∨ x = 2 ∨ x = 3)
        (ContainerIterator.iterator bagItems 0) items ∧
      items.Nodup ∧ ∀ y, y ∈ items ↔ Above bagParent y 0 := by
  apply iterator_complete branches_bag
  apply (Finset.finite_toSet {1, 2, 3, 4}).subset
  intro y hy
  exact Finset.mem_coe.mpr (above_bag.mp hy)

end TibiaServer.Cylinders
