import Mathlib.Data.List.Nodup
/-!
# Lists of records with keys

A linear search for a key, and the erasing or the change of the record that it finds.  Where
no key occurs twice, each is a filter or a map, and a lookup does not ask for the order.  Two records that stay in the list keep
their order.
-/

namespace TibiaServer.Library.Keyed

variable {α κ : Type*} {key : α → κ}

theorem map_key_modify (l : List α) (i : ℕ) {f : α → α} (hf : ∀ a, key (f a) = key a) :
    (l.modify i f).map key = l.map key := by
  induction l generalizing i with
  | nil => simp
  | cons a l ih =>
    cases i with
    | zero => simp [hf]
    | succ i => simp [ih]

section Search

variable [DecidableEq κ]

theorem findIdx?_key (key : α → κ) (k : κ) (l : List α) :
    l.findIdx? (fun a => decide (key a = k)) =
      if k ∈ l.map key then some ((l.map key).idxOf k) else none := by
  induction l with
  | nil => simp
  | cons a l ih =>
    rw [List.findIdx?_cons, List.map_cons]
    by_cases hk : key a = k
    · simp [hk]
    · have hk' : ¬k = key a := fun h => hk h.symm
      rw [decide_eq_false hk, ih, List.idxOf_cons_ne _ hk]
      by_cases hmem : k ∈ l.map key
      · rw [if_pos hmem, if_pos (List.mem_cons_of_mem _ hmem)]
        rfl
      · have hcons : k ∉ key a :: l.map key := by
          rw [List.mem_cons]
          exact not_or_intro hk' hmem
        rw [if_neg hmem, if_neg hcons]
        rfl

theorem filter_key_of_notMem (key : α → κ) {k : κ} {l : List α} (h : k ∉ l.map key) :
    l.filter (fun a => decide (key a ≠ k)) = l := by
  refine List.filter_eq_self.mpr fun a ha => ?_
  exact decide_eq_true fun heq => h (heq ▸ List.mem_map_of_mem ha)

/-- The record that the search finds is the only one with its key. -/
theorem eraseIdx_key (key : α → κ) {k : κ} {l : List α} (h : (l.map key).Nodup) :
    l.eraseIdx ((l.map key).idxOf k) = l.filter (fun a => decide (key a ≠ k)) := by
  induction l with
  | nil => rfl
  | cons a l ih =>
    rw [List.map_cons] at h ⊢
    obtain ⟨ha, hl⟩ := List.nodup_cons.mp h
    by_cases hk : key a = k
    · subst hk
      rw [List.idxOf_cons_self, List.eraseIdx_cons_zero, List.filter_cons_of_neg (by simp),
        filter_key_of_notMem key ha]
    · rw [List.idxOf_cons_ne _ hk, List.eraseIdx_cons_succ, ih hl,
        List.filter_cons_of_pos (by simpa using hk)]

theorem modify_key (key : α → κ) {k : κ} {l : List α} (f : α → α) (h : (l.map key).Nodup) :
    l.modify ((l.map key).idxOf k) f = l.map fun a => if key a = k then f a else a := by
  induction l with
  | nil => rfl
  | cons a l ih =>
    rw [List.map_cons] at h ⊢
    obtain ⟨ha, hl⟩ := List.nodup_cons.mp h
    by_cases hk : key a = k
    · subst hk
      have hrest : (l.map fun b => if key b = key a then f b else b) = l := by
        refine (List.map_congr_left fun b hb => ?_).trans (List.map_id l)
        exact if_neg fun heq => ha (List.mem_map.mpr ⟨b, hb, heq⟩)
      rw [List.idxOf_cons_self, List.modify_zero_cons, List.map_cons, if_pos rfl, hrest]
    · rw [List.idxOf_cons_ne _ hk, List.modify_succ_cons, ih hl, List.map_cons, if_neg hk]

theorem lookup_cons_eq_ite {β : Type*} (k k' : κ) (v : β) (l : List (κ × β)) :
    ((k', v) :: l).lookup k = if k = k' then some v else l.lookup k := by
  rw [List.lookup_cons]
  by_cases hk : k = k'
  · simp [hk]
  · have hbeq : (k == k') = false := by simpa using hk
    rw [hbeq, if_neg hk]

theorem lookup_eq_some_iff_mem {β : Type*} {k : κ} {v : β} {l : List (κ × β)}
    (h : (l.map Prod.fst).Nodup) : l.lookup k = some v ↔ (k, v) ∈ l := by
  induction l with
  | nil => simp
  | cons row l ih =>
    obtain ⟨k', v'⟩ := row
    rw [List.map_cons] at h
    obtain ⟨hk', hl⟩ := List.nodup_cons.mp h
    rw [lookup_cons_eq_ite, List.mem_cons, Prod.mk.injEq]
    split
    next heq =>
      have hnot : (k, v) ∉ l := by
        intro hmem
        exact hk' (List.mem_map.mpr ⟨(k, v), hmem, heq⟩)
      rw [Option.some.injEq, or_iff_left hnot, eq_comm]
      exact (and_iff_right heq).symm
    next hne =>
      rw [ih hl]
      simp [hne]

/-- The order of the records is of no account. -/
theorem lookup_perm {β : Type*} {l l' : List (κ × β)} (hperm : l.Perm l')
    (h : (l.map Prod.fst).Nodup) (k : κ) : l.lookup k = l'.lookup k := by
  have h' : (l'.map Prod.fst).Nodup := (hperm.map Prod.fst).nodup_iff.mp h
  ext v
  rw [lookup_eq_some_iff_mem h, lookup_eq_some_iff_mem h', hperm.mem_iff]

end Search

/-! ## The order of two members -/

theorem pair_sublist_cons {x y z : κ} {l : List κ} (hx : x ≠ z) :
    [x, y].Sublist (z :: l) ↔ [x, y].Sublist l := by
  rw [List.sublist_cons_iff]
  refine or_iff_left ?_
  rintro ⟨_, heq, _⟩
  exact hx (List.cons.inj heq).1

/-- Members of a shorter list stand in the order of the longer one. -/
theorem pair_sublist_of_sublist {x y : κ} {l' l : List κ} (h : l'.Sublist l) (hl : l.Nodup)
    (hx : x ∈ l') (hy : y ∈ l') : [x, y].Sublist l' ↔ [x, y].Sublist l := by
  induction h with
  | slnil => rfl
  | @cons l' l a h ih =>
    obtain ⟨ha, hl⟩ := List.nodup_cons.mp hl
    have hxa : x ≠ a := fun heq => ha (heq ▸ h.subset hx)
    rw [pair_sublist_cons hxa]
    exact ih hl hx hy
  | @cons_cons l' l a h ih =>
    obtain ⟨ha, hl⟩ := List.nodup_cons.mp hl
    have ha' : a ∉ l' := fun hmem => ha (h.subset hmem)
    by_cases hxa : x = a
    · subst hxa
      rw [List.cons_sublist_cons, List.cons_sublist_cons, List.singleton_sublist,
        List.singleton_sublist]
      rcases List.mem_cons.mp hy with rfl | hy
      · exact iff_of_false ha' ha
      · exact iff_of_true hy (h.subset hy)
    · rw [pair_sublist_cons hxa, pair_sublist_cons hxa]
      rcases List.mem_cons.mp hy with rfl | hy
      · refine iff_of_false (fun hs => ha' ?_) (fun hs => ha ?_)
        · exact hs.subset (by simp)
        · exact hs.subset (by simp)
      · exact ih hl ((List.mem_cons.mp hx).resolve_left hxa) hy

theorem pair_sublist_append {x y z : κ} {l : List κ} (hy : y ≠ z) :
    [x, y].Sublist (l ++ [z]) ↔ [x, y].Sublist l := by
  constructor
  · intro h
    obtain ⟨l₁, l₂, heq, h₁, h₂⟩ := List.sublist_append_iff.mp h
    have hnil : l₂ = [] := by
      rcases List.sublist_singleton.mp h₂ with rfl | rfl
      · rfl
      · have hlast := congrArg List.getLast? heq
        simp only [List.getLast?_cons_cons, List.getLast?_singleton, List.getLast?_append,
          Option.some_or, Option.some.injEq] at hlast
        exact absurd hlast hy
    rw [hnil, List.append_nil] at heq
    exact heq ▸ h₁
  · intro h
    exact h.trans (List.sublist_append_left l [z])

end TibiaServer.Library.Keyed
