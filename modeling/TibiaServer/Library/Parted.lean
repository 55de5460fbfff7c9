import Mathlib.Data.List.Basic
import Mathlib.Order.Basic
/-!
# Lists in two parts

A list with a counter `n`: the members outside `p` stand in front and are `n`,
those in `p` stand behind them in the order of a key.  A list that is cut at `n`
is of this kind exactly when each part is, which gives what insertion, removal
and the change of a member do to it.
-/

namespace TibiaServer.Library

variable {α κ : Type*} [Preorder κ]

structure Parted (p : α → Bool) (key : α → κ) (n : ℕ) (l : List α) : Prop where
  first : l.Pairwise fun x y => p x = true → p y = true
  count : l.countP (fun x => !p x) = n
  sorted : (l.filter p).Pairwise fun x y => key x ≤ key y

namespace Parted

variable {p p' : α → Bool} {key key' : α → κ} {n : ℕ} {l d t a b : List α} {x y : α}

theorem append_iff : Parted p key d.length (d ++ t) ↔
    (∀ x ∈ d, p x = false) ∧ (∀ x ∈ t, p x = true) ∧ t.Pairwise fun x y => key x ≤ key y := by
  constructor
  · intro h
    have hcount := h.count
    rw [List.countP_append] at hcount
    have hd : ∀ x ∈ d, p x = false := by
      intro x hx
      by_contra hin
      have ht : t.countP (fun y => !p y) = 0 := by
        apply List.countP_eq_zero.mpr
        intro y hy
        simp [(List.pairwise_append.mp h.first).2.2 x hx y hy (by simpa using hin)]
      have hall := List.countP_eq_length.mp (show d.countP (fun y => !p y) = d.length by omega)
      exact hin (by simpa using hall x hx)
    have ht : ∀ x ∈ t, p x = true := by
      have hlength : d.countP (fun y => !p y) = d.length :=
        List.countP_eq_length.mpr fun x hx => by simp [hd x hx]
      have hnone := List.countP_eq_zero.mp (show t.countP (fun y => !p y) = 0 by omega)
      intro x hx
      simpa using hnone x hx
    refine ⟨hd, ht, ?_⟩
    have hsorted := h.sorted
    rw [List.filter_append, List.filter_eq_nil_iff.mpr fun x hx => by simp [hd x hx],
      List.filter_eq_self.mpr ht, List.nil_append] at hsorted
    exact hsorted
  · rintro ⟨hd, ht, hsorted⟩
    refine ⟨?_, ?_, ?_⟩
    · refine List.pairwise_append.mpr ⟨?_, ?_, fun x _ y hy _ => ht y hy⟩
      · exact List.pairwise_of_forall_mem_list fun x hx y _ hin => by simp [hd x hx] at hin
      · exact List.pairwise_of_forall_mem_list fun x _ y hy _ => ht y hy
    · have hlength : d.countP (fun y => !p y) = d.length :=
        List.countP_eq_length.mpr fun x hx => by simp [hd x hx]
      have hnone : t.countP (fun y => !p y) = 0 :=
        List.countP_eq_zero.mpr fun x hx => by simp [ht x hx]
      rw [List.countP_append, hlength, hnone, Nat.add_zero]
    · rw [List.filter_append, List.filter_eq_nil_iff.mpr fun x hx => by simp [hd x hx],
        List.filter_eq_self.mpr ht, List.nil_append]
      exact hsorted

theorem le_length (h : Parted p key n l) : n ≤ l.length :=
  h.count ▸ List.countP_le_length

theorem length_take (h : Parted p key n l) : (l.take n).length = n :=
  List.length_take_of_le h.le_length

/-- The list cut at its counter. -/
theorem parts (h : Parted p key n l) : (∀ x ∈ l.take n, p x = false) ∧
    (∀ x ∈ l.drop n, p x = true) ∧ (l.drop n).Pairwise fun x y => key x ≤ key y := by
  apply append_iff.mp
  rw [h.length_take, List.take_append_drop]
  exact h

theorem mem_take_iff (h : Parted p key n l) (hx : x ∈ l) : x ∈ l.take n ↔ p x = false := by
  constructor
  · exact h.parts.1 x
  · intro hout
    rw [← List.take_append_drop n l, List.mem_append] at hx
    apply hx.resolve_right
    intro hdrop
    simp [h.parts.2.1 x hdrop] at hout

theorem nil : Parted p key 0 [] := ⟨.nil, rfl, .nil⟩

theorem cons (h : Parted p key n l) (hx : p x = false) : Parted p key (n + 1) (x :: l) := by
  obtain ⟨hd, ht, hsorted⟩ := h.parts
  have hparts : Parted p key (x :: l.take n).length ((x :: l.take n) ++ l.drop n) :=
    append_iff.mpr ⟨List.forall_mem_cons.mpr ⟨hx, hd⟩, ht, hsorted⟩
  rwa [List.length_cons, h.length_take, List.cons_append, List.take_append_drop] at hparts

/-- Another second part. -/
theorem take_append (h : Parted p key n l) (ht : ∀ x ∈ t, p x = true)
    (hsorted : t.Pairwise fun x y => key x ≤ key y) : Parted p key n (l.take n ++ t) := by
  have hparts : Parted p key (l.take n).length (l.take n ++ t) :=
    append_iff.mpr ⟨h.parts.1, ht, hsorted⟩
  rwa [h.length_take] at hparts

theorem sublist (h : Parted p key n l) (hd : d.Sublist (l.take n)) (ht : t.Sublist (l.drop n)) :
    Parted p key d.length (d ++ t) :=
  append_iff.mpr ⟨fun x hx => h.parts.1 x (hd.subset hx), fun x hx => h.parts.2.1 x (ht.subset hx),
    h.parts.2.2.sublist ht⟩

theorem of_append_cons (h : Parted p key n (a ++ x :: b)) (hx : p x = true) :
    (∀ z ∈ a, p z = true → key z ≤ key x) ∧ ∀ z ∈ b, p z = true ∧ key x ≤ key z := by
  have hsorted := h.sorted
  rw [List.filter_append, List.filter_cons_of_pos hx] at hsorted
  obtain ⟨-, hback, hfront⟩ := List.pairwise_append.mp hsorted
  constructor
  · intro z hz hin
    exact hfront z (List.mem_filter.mpr ⟨hz, hin⟩) x List.mem_cons_self
  · intro z hz
    have hin := List.rel_of_pairwise_cons (List.pairwise_append.mp h.first).2.1 hz hx
    exact ⟨hin, List.rel_of_pairwise_cons hback (List.mem_filter.mpr ⟨hz, hin⟩)⟩

/-- Another member in the place of one. -/
theorem set_iff (h : Parted p key n (a ++ x :: b)) : Parted p key n (a ++ y :: b) ↔
    p y = p x ∧
      (p x = true → (∀ z ∈ a, p z = true → key z ≤ key y) ∧ ∀ z ∈ b, key y ≤ key z) := by
  constructor
  · intro h'
    have hp : p y = p x := by
      have hcount := h'.count.trans h.count.symm
      simp only [List.countP_append, List.countP_cons] at hcount
      cases hy : p y <;> cases hx : p x <;> simp [hy, hx] at hcount ⊢
    refine ⟨hp, fun hx => ?_⟩
    obtain ⟨hfront, hback⟩ := h'.of_append_cons (hp.trans hx)
    exact ⟨hfront, fun z hz => (hback z hz).2⟩
  · rintro ⟨hp, hkey⟩
    refine ⟨?_, ?_, ?_⟩
    · have hfirst := h.first
      simp only [List.pairwise_append, List.pairwise_cons, List.forall_mem_cons] at hfirst ⊢
      rwa [hp]
    · have hcount := h.count
      simp only [List.countP_append, List.countP_cons] at hcount ⊢
      rwa [hp]
    · have hsorted := h.sorted
      cases hx : p x with
      | false =>
        rw [List.filter_append, List.filter_cons_of_neg (by simp [hx])] at hsorted
        rwa [List.filter_append, List.filter_cons_of_neg (by simp [hp, hx])]
      | true =>
        obtain ⟨hfront, hback⟩ := hkey hx
        rw [List.filter_append, List.filter_cons_of_pos hx] at hsorted
        rw [List.filter_append, List.filter_cons_of_pos (hp.trans hx)]
        obtain ⟨ha, hb, hab⟩ := List.pairwise_append.mp hsorted
        refine List.pairwise_append.mpr ⟨ha, ?_, ?_⟩
        · exact List.pairwise_cons.mpr
            ⟨fun z hz => hback z (List.mem_of_mem_filter hz), hb.of_cons⟩
        · intro u hu v hv
          rcases List.mem_cons.mp hv with rfl | hv
          · exact hfront u (List.mem_of_mem_filter hu) (List.mem_filter.mp hu).2
          · exact hab u hu v (List.mem_cons_of_mem _ hv)

end Parted

/-- A relation that changes at one member only. -/
theorem pairwise_change {R R' : α → α → Prop} (x : α) {l : List α} (hl : l.Pairwise R)
    (hoff : ∀ u v, u ≠ x → v ≠ x → R u v → R' u v) (hself : R' x x)
    (hplace : ∀ a b, l = a ++ x :: b → (∀ z ∈ a, z ≠ x → R' z x) ∧ ∀ z ∈ b, z ≠ x → R' x z) :
    l.Pairwise R' := by
  induction hl with
  | nil => exact .nil
  | @cons y l hy hl ih =>
    refine .cons ?_ (ih fun a b heq => ?_)
    · intro z hz
      by_cases hyx : y = x
      · subst hyx
        by_cases hzx : z = y
        · exact hzx ▸ hself
        · exact (hplace [] l rfl).2 z hz hzx
      · by_cases hzx : z = x
        · subst hzx
          obtain ⟨a, b, rfl⟩ := List.append_of_mem hz
          exact (hplace (y :: a) b rfl).1 y List.mem_cons_self hyx
        · exact hoff y z hyx hzx (hy z hz)
    · obtain ⟨hfront, hback⟩ := hplace (y :: a) b (by rw [heq, List.cons_append])
      exact ⟨fun z hz => hfront z (List.mem_cons_of_mem _ hz), hback⟩

namespace Parted

variable {p p' : α → Bool} {key key' : α → κ} {n : ℕ} {l : List α} {x : α}

/-- One member changes in all its places. -/
theorem change_iff (h : Parted p key n l) (hp : ∀ z, z ≠ x → p' z = p z)
    (hkey : ∀ z, z ≠ x → key' z = key z) : Parted p' key' n l ↔
      ∀ a b, l = a ++ x :: b → p' x = p x ∧
        (p x = true → (∀ z ∈ a, z ≠ x → p z = true → key z ≤ key' x) ∧
          ∀ z ∈ b, z ≠ x → key' x ≤ key z) := by
  constructor
  · rintro h' a b rfl
    have hmem : x ∈ a ++ x :: b := by simp
    have hpx : p' x = p x := by
      have hiff := (h'.mem_take_iff hmem).symm.trans (h.mem_take_iff hmem)
      cases hx : p x <;> simpa [hx] using hiff
    refine ⟨hpx, fun hx => ?_⟩
    obtain ⟨hfront, hback⟩ := h'.of_append_cons (hpx.trans hx)
    constructor
    · intro z hz hne hin
      rw [← hkey z hne]
      exact hfront z hz ((hp z hne).trans hin)
    · intro z hz hne
      rw [← hkey z hne]
      exact (hback z hz).2
  · intro hplace
    have hpx : ∀ z ∈ l, p' z = p z := by
      intro z hz
      by_cases hzx : z = x
      · subst hzx
        obtain ⟨a, b, heq⟩ := List.append_of_mem hz
        exact (hplace a b heq).1
      · exact hp z hzx
    refine ⟨?_, ?_, ?_⟩
    · exact h.first.imp_of_mem fun hu hv => by rw [hpx _ hu, hpx _ hv]; exact id
    · rw [← h.count]
      exact List.countP_congr fun z hz => by rw [hpx z hz]
    · rw [List.filter_congr hpx, List.pairwise_filter]
      refine pairwise_change x (List.pairwise_filter.mp h.sorted) ?_ ?_ ?_
      · intro u v hu hv hle
        rwa [hkey u hu, hkey v hv]
      · exact fun _ _ => le_rfl
      · intro a b heq
        obtain ⟨-, hx⟩ := hplace a b heq
        refine ⟨fun z hz hne hin hpx => ?_, fun z hz hne hpx hin => ?_⟩
        · rw [hkey z hne]
          exact (hx hpx).1 z hz hne hin
        · rw [hkey z hne]
          exact (hx hpx).2 z hz hne

end Parted

end TibiaServer.Library
