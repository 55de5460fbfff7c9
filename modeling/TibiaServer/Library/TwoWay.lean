import Mathlib.Data.List.Nodup
/-!
# A pointer and the list that answers it

Every object points to at most one owner and every owner keeps a list of the objects that
point to it.  An owner may have given its list up (`gone`) before the objects were told;
those that still point to such an owner are in `loose`.
-/

namespace TibiaServer.Library.TwoWay

variable {α β : Type*}

/-- The pointers `one` and the lists `many` agree, but for the objects in `loose`. -/
structure Agrees (gone : β → Prop) (one : α → Option β) (many : β → List α)
    (loose : List α) : Prop where
  nodup : ∀ b, ¬ gone b → (many b).Nodup
  mem_many : ∀ b, ¬ gone b → ∀ a, a ∈ many b ↔ one a = some b
  loose_nodup : loose.Nodup
  mem_loose : ∀ a, a ∈ loose ↔ ∃ b, one a = some b ∧ gone b

variable {gone gone' : β → Prop} {one one' : α → Option β} {many many' : β → List α}
  {loose : List α} {a : α} {b : β}

theorem agrees_empty (hgone : ∀ b, ¬ gone b) (hone : ∀ a, one a = none)
    (hmany : ∀ b, many b = []) : Agrees gone one many [] where
  nodup b _ := by simp [hmany]
  mem_many b _ a := by simp [hmany, hone]
  loose_nodup := List.nodup_nil
  mem_loose a := by simp [hgone]

/-- Agreement reads only the pointers, who is gone, and the lists of those who are not. -/
theorem Agrees.congr (h : Agrees gone one many loose) (hgone : ∀ b, gone' b ↔ gone b)
    (hone : ∀ a, one' a = one a) (hmany : ∀ b, ¬ gone b → many' b = many b) :
    Agrees gone' one' many' loose where
  nodup b hb := by
    rw [hgone] at hb
    rw [hmany b hb]
    exact h.nodup b hb
  mem_many b hb a := by
    rw [hgone] at hb
    rw [hmany b hb, hone]
    exact h.mem_many b hb a
  loose_nodup := h.loose_nodup
  mem_loose a := by simp only [hgone, hone, h.mem_loose]

/-- An object that is not loose points to an owner that has its list. -/
theorem Agrees.not_gone (h : Agrees gone one many loose) (ha : a ∉ loose)
    (hb : one a = some b) : ¬ gone b :=
  fun hgone => ha ((h.mem_loose a).mpr ⟨b, hb, hgone⟩)

theorem Agrees.ne_none_of_loose (h : Agrees gone one many loose) (ha : a ∈ loose) :
    one a ≠ none := by
  obtain ⟨b, hb, -⟩ := (h.mem_loose a).mp ha
  simp [hb]

/-- Each object is in the list of its owner exactly once. -/
theorem Agrees.count_eq_one [DecidableEq α] (h : Agrees gone one many loose) (ha : a ∉ loose)
    (hb : one a = some b) : (many b).count a = 1 := by
  have hgone := h.not_gone ha hb
  have hmem : a ∈ many b := (h.mem_many b hgone a).mpr hb
  exact List.count_eq_one_of_mem (h.nodup b hgone) hmem

/-- The object `a` leaves the list of `o` and joins the list of `o'`: it is appended to the new
list before the first entry for it is taken out of the old one. -/
def moved [DecidableEq α] [DecidableEq β] (many : β → List α) (a : α) (o o' : Option β) (b : β) :
    List α :=
  let l := if o' = some b then many b ++ [a] else many b
  if o = some b then l.erase a else l

section Moved

variable [DecidableEq α] [DecidableEq β] {o' : Option β}

theorem nodup_moved (h : Agrees gone one many loose) (hb : ¬ gone b) :
    (moved many a (one a) o' b).Nodup := by
  have hl := h.nodup b hb
  have hmem := h.mem_many b hb a
  unfold moved
  by_cases hnew : o' = some b
  · by_cases hold : one a = some b
    · rw [if_pos hnew, if_pos hold, List.erase_append_left _ (hmem.mpr hold)]
      have hnot : a ∉ (many b).erase a := fun hx => (hl.mem_erase_iff.mp hx).1 rfl
      exact (hl.erase a).append (List.nodup_singleton a) (by simpa using hnot)
    · rw [if_pos hnew, if_neg hold]
      exact hl.append (List.nodup_singleton a) (by simpa [hmem] using hold)
  · rw [if_neg hnew]
    split
    · exact hl.erase a
    · exact hl

theorem mem_moved (h : Agrees gone one many loose) (hb : ¬ gone b) (x : α) :
    x ∈ moved many a (one a) o' b ↔ Function.update one a o' x = some b := by
  have hl := h.nodup b hb
  have hmem := h.mem_many b hb
  unfold moved
  by_cases hx : x = a
  · subst hx
    rw [Function.update_self]
    by_cases hnew : o' = some b <;> by_cases hold : one x = some b
    · have hin : x ∈ many b := (hmem x).mpr hold
      simp [hnew, hold, List.erase_append_left [x] hin]
    · simp [hnew, hold]
    · simp [hnew, hold, hl.mem_erase_iff]
    · simp [hnew, hold, hmem]
  · rw [Function.update_of_ne hx]
    split <;> split <;> simp [List.mem_erase_of_ne hx, hmem, hx]

/-- Redirecting one pointer, when both lists are edited with it. -/
theorem Agrees.redirect (h : Agrees gone one many loose) (ha : a ∉ loose)
    (hnew : ∀ b, o' = some b → ¬ gone b) :
    Agrees gone (Function.update one a o') (moved many a (one a) o') loose where
  nodup b hb := nodup_moved h hb
  mem_many b hb x := mem_moved h hb x
  loose_nodup := h.loose_nodup
  mem_loose x := by
    by_cases hx : x = a
    · subst hx
      rw [Function.update_self]
      refine iff_of_false ha ?_
      rintro ⟨b, hb, hgone⟩
      exact hnew b hb hgone
    · rw [Function.update_of_ne hx]
      exact h.mem_loose x

end Moved

/-- The next loose object forgets its owner. -/
theorem Agrees.detach [DecidableEq α] (h : Agrees gone one many (a :: loose)) :
    Agrees gone (Function.update one a none) many loose := by
  obtain ⟨owner, howner, hgone⟩ := (h.mem_loose a).mp List.mem_cons_self
  obtain ⟨hnot, hnodup⟩ := List.nodup_cons.mp h.loose_nodup
  refine ⟨h.nodup, fun b hb x => ?_, hnodup, fun x => ?_⟩
  · rw [h.mem_many b hb]
    by_cases hx : x = a
    · subst hx
      have hne : owner ≠ b := fun heq => hb (heq ▸ hgone)
      simp [howner, hne]
    · rw [Function.update_of_ne hx]
  · by_cases hx : x = a
    · subst hx
      simp [hnot]
    · rw [Function.update_of_ne hx, ← h.mem_loose x]
      simp [hx]

/-- An owner gives its list up: the objects in it are loose from then on. -/
theorem Agrees.giveUp (h : Agrees gone one many loose) (hb : ¬ gone b)
    (hgone : ∀ x, gone' x ↔ gone x ∨ x = b) (hmany : ∀ x, x ≠ b → many' x = many x) :
    Agrees gone' one many' (many b ++ loose) where
  nodup x hx := by
    rw [hgone, not_or] at hx
    rw [hmany x hx.2]
    exact h.nodup x hx.1
  mem_many x hx a := by
    rw [hgone, not_or] at hx
    rw [hmany x hx.2]
    exact h.mem_many x hx.1 a
  loose_nodup := by
    refine (h.nodup b hb).append h.loose_nodup fun a ha hloose => ?_
    obtain ⟨x, hx, hgone⟩ := (h.mem_loose a).mp hloose
    rw [(h.mem_many b hb a).mp ha] at hx
    exact hb (Option.some.inj hx ▸ hgone)
  mem_loose a := by
    simp only [List.mem_append, h.mem_many b hb, h.mem_loose, hgone]
    constructor
    · rintro (ha | ⟨x, hx, hgone⟩)
      · exact ⟨b, ha, Or.inr rfl⟩
      · exact ⟨x, hx, Or.inl hgone⟩
    · rintro ⟨x, hx, hgone | rfl⟩
      · exact Or.inr ⟨x, hx, hgone⟩
      · exact Or.inl hx

/-- When no object is loose any more, an owner may start again with an empty list. -/
theorem Agrees.startAgain (h : Agrees gone one many [])
    (hgone : ∀ x, gone x ↔ gone' x ∨ x = b) (hb : many' b = [])
    (hmany : ∀ x, x ≠ b → many' x = many x) : Agrees gone' one many' [] := by
  have hnone : ∀ a x, one a = some x → ¬ gone x := fun a x => h.not_gone List.not_mem_nil
  have hne : ∀ x, ¬ gone' x → x ≠ b → ¬ gone x := fun x hx hxb => by
    rw [hgone]
    exact not_or.mpr ⟨hx, hxb⟩
  refine ⟨fun x hx => ?_, fun x hx a => ?_, List.nodup_nil, fun a => ?_⟩
  · by_cases hxb : x = b
    · rw [hxb, hb]
      exact List.nodup_nil
    · rw [hmany x hxb]
      exact h.nodup x (hne x hx hxb)
  · by_cases hxb : x = b
    · subst hxb
      rw [hb]
      refine iff_of_false List.not_mem_nil fun ha => ?_
      exact hnone a x ha ((hgone x).mpr (Or.inr rfl))
    · rw [hmany x hxb]
      exact h.mem_many x (hne x hx hxb) a
  · refine iff_of_false List.not_mem_nil ?_
    rintro ⟨x, hx, hg⟩
    exact hnone a x hx ((hgone x).mpr (Or.inl hg))

end TibiaServer.Library.TwoWay
