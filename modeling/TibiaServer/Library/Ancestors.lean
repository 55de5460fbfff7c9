import Mathlib.Data.Fintype.EquivFin
/-!
# What stands above

`up` sends a node to the one that it stands in.  Where no node is above itself the
list of the nodes above one never repeats, so with finitely many nodes that something
stands in a bounded walk finds all of them.
-/

namespace TibiaServer.Library

variable {α : Type*}

/-- `y` is above `x`. -/
def Above (up : α → Option α) : α → α → Prop := Relation.TransGen fun x y => up x = some y

/-- `y` is `x` or above it. -/
def AtOrAbove (up : α → Option α) : α → α → Prop :=
  Relation.ReflTransGen fun x y => up x = some y

/-- The nodes above `x`, at most `n` of them. -/
def ancestors (up : α → Option α) : ℕ → α → List α
  | 0, _ => []
  | n + 1, x =>
    match up x with
    | some y => y :: ancestors up n y
    | none => []

section Walk

variable {up : α → Option α} {x y : α}

theorem ancestors_of_none (h : up x = none) (n : ℕ) : ancestors up n x = [] := by
  cases n with
  | zero => rfl
  | succ n => simp [ancestors, h]

theorem ancestors_of_some (h : up x = some y) (n : ℕ) :
    ancestors up (n + 1) x = y :: ancestors up n y := by
  simp [ancestors, h]

theorem above_of_mem {n : ℕ} (h : y ∈ ancestors up n x) : Above up x y := by
  induction n generalizing x with
  | zero => simp [ancestors] at h
  | succ n ih =>
    cases hup : up x with
    | none => simp [ancestors_of_none hup] at h
    | some z =>
      rw [ancestors_of_some hup, List.mem_cons] at h
      rcases h with rfl | h
      · exact .single hup
      · exact .head hup (ih h)

theorem exists_mem_ancestors (h : Above up x y) : ∃ n, y ∈ ancestors up n x := by
  induction h using Relation.TransGen.head_induction_on with
  | single hup => exact ⟨1, by simp [ancestors_of_some hup]⟩
  | head hup _ ih =>
    obtain ⟨n, hn⟩ := ih
    exact ⟨n + 1, by simp [ancestors_of_some hup, hn]⟩

theorem ancestors_eq_take {n k : ℕ} (h : n ≤ k) (x : α) :
    ancestors up n x = (ancestors up k x).take n := by
  induction n generalizing k x with
  | zero => simp [ancestors]
  | succ n ih =>
    obtain ⟨k, rfl⟩ := Nat.exists_eq_add_of_lt (Nat.lt_of_lt_of_le (Nat.lt_succ_self n) h)
    cases hup : up x with
    | none => simp [ancestors_of_none hup]
    | some z =>
      rw [ancestors_of_some hup, ancestors_of_some hup, List.take_succ_cons]
      rw [ih (show n ≤ n + k by omega)]

end Walk

/-! ## No node above itself -/

section Acyclic

variable {up : α → Option α} {x y : α}

theorem nodup_ancestors (h : ∀ x, ¬Above up x x) (n : ℕ) (x : α) : (ancestors up n x).Nodup := by
  induction n generalizing x with
  | zero => exact List.nodup_nil
  | succ n ih =>
    cases hup : up x with
    | none => simp [ancestors_of_none hup]
    | some z =>
      rw [ancestors_of_some hup]
      exact List.nodup_cons.mpr ⟨fun hz => h z (above_of_mem hz), ih z⟩

theorem mem_of_mem_ancestors {nodes : Finset α} (hnodes : ∀ x y, up x = some y → y ∈ nodes)
    {n : ℕ} (h : y ∈ ancestors up n x) : y ∈ nodes := by
  rcases Relation.TransGen.tail'_iff.mp (above_of_mem h) with ⟨z, -, hz⟩
  exact hnodes z y hz

theorem length_ancestors_le_card [DecidableEq α] {nodes : Finset α} (h : ∀ x, ¬Above up x x)
    (hnodes : ∀ x y, up x = some y → y ∈ nodes) (n : ℕ) (x : α) :
    (ancestors up n x).length ≤ nodes.card := by
  rw [← List.toFinset_card_of_nodup (nodup_ancestors h n x)]
  apply Finset.card_le_card
  intro y hy
  exact mem_of_mem_ancestors hnodes (List.mem_toFinset.mp hy)

/-- Enough steps find everything above. -/
theorem mem_ancestors_of_above [DecidableEq α] {nodes : Finset α} (h : ∀ x, ¬Above up x x)
    (hnodes : ∀ x y, up x = some y → y ∈ nodes) {n : ℕ} (hn : nodes.card ≤ n)
    (habove : Above up x y) : y ∈ ancestors up n x := by
  obtain ⟨k, hk⟩ := exists_mem_ancestors habove
  rcases Nat.le_total n k with hnk | hkn
  · have hlength := length_ancestors_le_card h hnodes k x
    rwa [ancestors_eq_take hnk, List.take_of_length_le (hlength.trans hn)]
  · rw [ancestors_eq_take hkn] at hk
    exact List.mem_of_mem_take hk

/-- What is on the way up from `x` was come to from one node only. -/
theorem AtOrAbove.eq_of_up (h : ∀ x, ¬Above up x x) {y y' z : α} (hy : AtOrAbove up x y)
    (hy' : AtOrAbove up x y') (hz : up y = some z) (hz' : up y' = some z) : y = y' := by
  have hunique : Relator.RightUnique fun x y => up x = some y := by
    intro a b b' hb hb'
    exact Option.some.inj (hb.symm.trans hb')
  have hback : ∀ {a b : α}, AtOrAbove up a b → up a = some z → up b = some z → a = b := by
    intro a b hab ha hb
    rcases Relation.ReflTransGen.cases_head hab with heq | ⟨c, hc, hcb⟩
    · exact heq
    · obtain rfl : c = z := hunique hc ha
      exact absurd (Relation.TransGen.tail' hcb hb) (h c)
  rcases Relation.ReflTransGen.total_of_right_unique hunique hy hy' with hle | hle
  · exact hback hle hz hz'
  · exact (hback hle hz' hz).symm

end Acyclic

/-! ## Walks that end -/

/-- Going up from the node comes to one with nothing above it. -/
inductive Ends (up : α → Option α) : α → Prop
  | top {x : α} : up x = none → Ends up x
  | step {x y : α} : up x = some y → Ends up y → Ends up x

section Walks

variable {up : α → Option α} {x y : α}

/-- What is above a node is the next one or above that. -/
theorem Above.atOrAbove_of_up {z : α} (h : Above up x z) (hup : up x = some y) :
    AtOrAbove up y z := by
  obtain ⟨w, hw, hwz⟩ := Relation.TransGen.head'_iff.mp h
  obtain rfl : y = w := Option.some.inj (hup.symm.trans hw)
  exact hwz

theorem Ends.not_above (h : Ends up x) : ∀ y, AtOrAbove up x y → ¬Above up y y := by
  induction h with
  | top hnone =>
    intro y hy
    rcases Relation.ReflTransGen.cases_head hy with rfl | ⟨z, hz, -⟩
    · intro habove
      obtain ⟨z, hz, -⟩ := Relation.TransGen.head'_iff.mp habove
      simp [hnone] at hz
    · simp [hnone] at hz
  | @step x z hup _ ih =>
    intro y hy
    rcases Relation.ReflTransGen.cases_head hy with rfl | ⟨w, hw, hwy⟩
    · intro habove
      -- the node behind `x` would be above itself as well
      have hback : AtOrAbove up z x := habove.atOrAbove_of_up hup
      exact ih z .refl (Relation.TransGen.tail' hback hup)
    · obtain rfl : z = w := Option.some.inj (hup.symm.trans hw)
      exact ih y hwy

/-- With finitely many nodes a walk ends unless it comes to a node above itself. -/
theorem ends_iff [Finite α] : Ends up x ↔ ∀ y, AtOrAbove up x y → ¬Above up y y := by
  constructor
  · exact Ends.not_above
  · intro h
    let above (a b : { y // AtOrAbove up x y }) : Prop := Above up b.1 a.1
    have : IsTrans _ above := ⟨fun a b c hab hbc => hbc.trans hab⟩
    have : Std.Irrefl above := ⟨fun a => h a.1 a.2⟩
    have hwf : WellFounded above := Finite.wellFounded_of_trans_of_irrefl above
    have hends : ∀ a : { y // AtOrAbove up x y }, Ends up a.1 := by
      intro a
      induction a using hwf.induction with
      | _ a ih =>
        cases hup : up a.1 with
        | none => exact .top hup
        | some y => exact .step hup (ih ⟨y, a.2.tail hup⟩ (.single hup))
    exact hends ⟨x, .refl⟩

end Walks

/-- A path over a new edge from `y` to `x` comes to `y` and goes on from `x`. -/
theorem transGen_of_edge {R R' : α → α → Prop} {x y a b : α}
    (hR' : ∀ a b, R' a b → R a b ∨ a = y ∧ b = x) (hab : Relation.TransGen R' a b)
    (hno : ¬Relation.ReflTransGen R x y) :
    Relation.TransGen R a b ∨ Relation.ReflTransGen R a y ∧ Relation.ReflTransGen R x b := by
  induction hab with
  | single hab =>
    rcases hR' _ _ hab with hab | ⟨rfl, rfl⟩
    · exact .inl (.single hab)
    · exact .inr ⟨.refl, .refl⟩
  | tail _ hbc ih =>
    rcases hR' _ _ hbc with hbc | ⟨rfl, rfl⟩
    · rcases ih with hab | ⟨hay, hxb⟩
      · exact .inl (hab.tail hbc)
      · exact .inr ⟨hay, hxb.tail hbc⟩
    · rcases ih with hab | ⟨-, hxb⟩
      · exact .inr ⟨hab.to_reflTransGen, .refl⟩
      · exact absurd hxb hno

/-- A new edge from `y` to `x` makes no cycle unless `y` is `x` or above it. -/
theorem not_transGen_of_edge {R R' : α → α → Prop} {x y : α}
    (h : ∀ a, ¬Relation.TransGen R a a) (hno : ¬Relation.ReflTransGen R x y)
    (hR' : ∀ a b, R' a b → R a b ∨ a = y ∧ b = x) (a : α) : ¬Relation.TransGen R' a a := by
  intro hcycle
  rcases transGen_of_edge hR' hcycle hno with hcycle | ⟨hay, hxa⟩
  · exact h a hcycle
  · exact hno (hxa.trans hay)

end TibiaServer.Library
