import Mathlib.Data.List.Nodup
import Mathlib.Data.List.Perm.Basic
/-!
# Buckets

A list is dealt into buckets by a key, and some members may go nowhere.  Dealt from the
back to the front, each time to the front of a bucket, every bucket keeps the order of
the list.  Together the buckets of distinct keys hold every member with one of these
keys once.  `spread` goes the other way, from groups with keys to one list.
-/

namespace TibiaServer.Library.Buckets

variable {ι α κ : Type*} [DecidableEq κ]

/-- The members with the key, in order. -/
def bucket (key : ι → Option κ) (k : κ) (l : List ι) : List ι :=
  l.filter fun x => decide (key x = some k)

/-- Put `x` to the front of its bucket. -/
def push (key : ι → Option κ) (f : ι → α) (buckets : κ → List α) (x : ι) : κ → List α :=
  match key x with
  | none => buckets
  | some k => Function.update buckets k (f x :: buckets k)

variable {key : ι → Option κ} {k : κ} {l : List ι}

theorem mem_bucket {x : ι} : x ∈ bucket key k l ↔ x ∈ l ∧ key x = some k := by
  simp [bucket]

theorem bucket_append (l l' : List ι) :
    bucket key k (l ++ l') = bucket key k l ++ bucket key k l' :=
  List.filter_append l l'

theorem bucket_eq_nil (h : ∀ x ∈ l, key x ≠ some k) : bucket key k l = [] := by
  rw [bucket, List.filter_eq_nil_iff]
  intro x hx
  simpa using h x hx

theorem bucket_eq_self (h : ∀ x ∈ l, key x = some k) : bucket key k l = l := by
  rw [bucket, List.filter_eq_self]
  intro x hx
  simpa using h x hx

theorem bucket_congr {κ' : Type*} [DecidableEq κ'] {key' : ι → Option κ'} {k' : κ'}
    (h : ∀ x ∈ l, key x = some k ↔ key' x = some k') : bucket key k l = bucket key' k' l := by
  apply List.filter_congr
  intro x hx
  simpa using h x hx

theorem bucket_map {ι' : Type*} (g : ι' → ι) (l : List ι') :
    bucket key k (l.map g) = (bucket (fun x => key (g x)) k l).map g := by
  rw [bucket, bucket, List.filter_map]
  rfl

theorem push_apply (f : ι → α) (buckets : κ → List α) (x : ι) :
    push key f buckets x k = if key x = some k then f x :: buckets k else buckets k := by
  unfold push
  cases hkey : key x with
  | none => simp
  | some k' =>
    by_cases hk : k = k'
    · subst hk
      simp
    · have hne : some k' ≠ some k := fun h => hk (Option.some.inj h).symm
      rw [if_neg hne]
      exact Function.update_of_ne hk _ _

theorem foldl_push_reverse (f : ι → α) (buckets : κ → List α) :
    l.reverse.foldl (push key f) buckets k = (bucket key k l).map f ++ buckets k := by
  induction l with
  | nil => rfl
  | cons x l ih =>
    rw [List.reverse_cons, List.foldl_append, List.foldl_cons, List.foldl_nil, push_apply, ih]
    by_cases hx : key x = some k
    · simp [bucket, hx]
    · simp [bucket, hx]

/-- The buckets of different keys together are the members with these keys. -/
theorem perm_flatMap_bucket {keys : List κ} (hkeys : keys.Nodup) {p : ι → Bool}
    (hp : ∀ x ∈ l, p x = true ↔ ∃ k ∈ keys, key x = some k) :
    (keys.flatMap fun k => bucket key k l).Perm (l.filter p) := by
  induction keys generalizing p with
  | nil =>
    have hnone : l.filter p = [] := by
      rw [List.filter_eq_nil_iff]
      intro x hx
      simp [hp x hx]
    rw [hnone]
    exact .refl _
  | cons k keys ih =>
    obtain ⟨hk, hrest⟩ := List.nodup_cons.mp hkeys
    have hfirst : (l.filter p).filter (fun x => decide (key x = some k)) = bucket key k l := by
      rw [List.filter_filter, bucket]
      apply List.filter_congr
      intro x hx
      by_cases hkey : key x = some k
      · simp [hkey, (hp x hx).mpr ⟨k, List.mem_cons_self, hkey⟩]
      · simp [hkey]
    have hothers : (keys.flatMap fun k => bucket key k l).Perm
        ((l.filter p).filter fun x => !decide (key x = some k)) := by
      rw [List.filter_filter]
      apply ih hrest
      intro x hx
      rw [Bool.and_eq_true, hp x hx, Bool.not_eq_true', decide_eq_false_iff_not]
      constructor
      · rintro ⟨hne, k', hk', hkey⟩
        rcases List.mem_cons.mp hk' with rfl | hk'
        · exact absurd hkey hne
        · exact ⟨k', hk', hkey⟩
      · rintro ⟨k', hk', hkey⟩
        refine ⟨fun hkey' => ?_, k', List.mem_cons_of_mem _ hk', hkey⟩
        have heq : k' = k := Option.some.inj (hkey.symm.trans hkey')
        exact hk (heq ▸ hk')
    rw [List.flatMap_cons, ← hfirst]
    exact (hothers.append_left _).trans (List.filter_append_perm _ _)

/-! ## Groups -/

section Groups

variable {groups : List (κ × List α)}

/-- The members of the groups, each with the key of its group. -/
def spread (groups : List (κ × List α)) : List (κ × α) :=
  groups.flatMap fun group => group.2.map fun x => (group.1, x)

omit [DecidableEq κ] in
theorem mem_keys_of_mem_spread {pair : κ × α} (h : pair ∈ spread groups) :
    pair.1 ∈ groups.map Prod.fst := by
  obtain ⟨group, hgroup, hpair⟩ := List.mem_flatMap.mp h
  obtain ⟨x, -, rfl⟩ := List.mem_map.mp hpair
  exact List.mem_map_of_mem hgroup

theorem filter_spread_of_notMem (h : k ∉ groups.map Prod.fst) :
    (spread groups).filter (fun pair => decide (pair.1 = k)) = [] := by
  rw [List.filter_eq_nil_iff]
  intro pair hpair heq
  exact h (of_decide_eq_true heq ▸ mem_keys_of_mem_spread hpair)

/-- Where no two groups have one key, a group is found again by its key. -/
theorem filter_spread (hkeys : (groups.map Prod.fst).Nodup) {group : κ × List α}
    (h : group ∈ groups) :
    ((spread groups).filter fun pair => decide (pair.1 = group.1)).map Prod.snd = group.2 := by
  induction groups with
  | nil => cases h
  | cons first groups ih =>
    rw [List.map_cons, List.nodup_cons] at hkeys
    have hsplit : spread (first :: groups) =
        (first.2.map fun x => (first.1, x)) ++ spread groups := rfl
    rw [hsplit, List.filter_append, List.map_append]
    rcases List.mem_cons.mp h with rfl | h
    · rw [filter_spread_of_notMem hkeys.1, List.filter_map]
      simp [Function.comp_def]
    · have hne : first.1 ≠ group.1 := fun heq => hkeys.1 (heq ▸ List.mem_map_of_mem h)
      rw [ih hkeys.2 h, List.filter_map]
      simp [Function.comp_def, hne]

end Groups

end TibiaServer.Library.Buckets
