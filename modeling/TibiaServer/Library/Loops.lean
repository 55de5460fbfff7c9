import Mathlib.Algebra.GroupWithZero.Nat
import Mathlib.Data.List.Basic
/-!
# Loops that write an array in place

An array is a function from indices, a loop a left fold over the indices in
the order in which it visits them.  The lemmas say what one cell holds after
the loop, in terms of what the array held before it.
-/

namespace TibiaServer.Library.Loops

variable {α β σ : Type*}

/-- `for i = 0 .. n - 1: f[i] = f[i + 1]`. -/
def shiftDown (n : ℕ) (f : ℕ → α) : ℕ → α :=
  (List.range n).foldl (fun f i => Function.update f i (f (i + 1))) f

/-- `for i = n - 1 .. 0: f[i + 1] = f[i]`. -/
def shiftUp (n : ℕ) (f : ℕ → α) : ℕ → α :=
  (List.range n).reverse.foldl (fun f i => Function.update f (i + 1) (f i)) f

/-- `for i = a .. a + n - 1: f[i] = g f[i]`. -/
def mapRange (a n : ℕ) (g : α → α) (f : ℕ → α) : ℕ → α :=
  (List.range' a n).foldl (fun f i => Function.update f i (g (f i))) f

theorem shiftDown_apply (n : ℕ) (f : ℕ → α) (i : ℕ) :
    shiftDown n f i = if i < n then f (i + 1) else f i := by
  unfold shiftDown
  induction n generalizing i with
  | zero => simp
  | succ n ih =>
    rw [List.range_succ, List.foldl_append, List.foldl_cons, List.foldl_nil]
    by_cases hi : i = n
    · -- the last write reads a cell that no earlier one has touched
      subst hi
      rw [Function.update_self, ih, if_neg (by omega), if_pos (by omega)]
    · rw [Function.update_of_ne hi, ih]
      exact if_congr (by omega) rfl rfl

theorem shiftUp_succ (n : ℕ) (f : ℕ → α) :
    shiftUp (n + 1) f = shiftUp n (Function.update f (n + 1) (f n)) := by
  simp [shiftUp, List.range_succ]

theorem shiftUp_apply (n : ℕ) (f : ℕ → α) (i : ℕ) :
    shiftUp n f i = if 0 < i ∧ i ≤ n then f (i - 1) else f i := by
  induction n generalizing f with
  | zero =>
    rw [if_neg (by omega)]
    rfl
  | succ n ih =>
    rw [shiftUp_succ, ih]
    by_cases hin : 0 < i ∧ i ≤ n
    · rw [if_pos hin, if_pos (by omega), Function.update_of_ne (by omega)]
    · rw [if_neg hin]
      by_cases hlast : i = n + 1
      · subst hlast
        rw [Function.update_self, if_pos (by omega), Nat.add_sub_cancel]
      · rw [Function.update_of_ne hlast, if_neg (by omega)]

theorem mapRange_apply (a n : ℕ) (g : α → α) (f : ℕ → α) (i : ℕ) :
    mapRange a n g f i = if a ≤ i ∧ i < a + n then g (f i) else f i := by
  unfold mapRange
  induction n generalizing i with
  | zero =>
    rw [if_neg (by omega)]
    rfl
  | succ n ih =>
    rw [List.range'_concat, List.foldl_append, List.foldl_cons, List.foldl_nil, Nat.one_mul]
    by_cases hi : i = a + n
    · subst hi
      rw [Function.update_self, ih, if_neg (by omega), if_pos (by omega)]
    · rw [Function.update_of_ne hi, ih]
      exact if_congr (by omega) rfl rfl

section Cells

variable {step : σ → β → σ} (get : σ → α) (hit : β → Prop)

/-- A cell that no round of the loop hits keeps what it holds. -/
theorem foldl_miss (hmiss : ∀ s b, ¬ hit b → get (step s b) = get s) (l : List β) (s : σ)
    (hl : ∀ b ∈ l, ¬ hit b) : get (l.foldl step s) = get s := by
  induction l generalizing s with
  | nil => rfl
  | cons b l ih =>
    rw [List.foldl_cons, ih (step s b) fun b hb => hl b (List.mem_cons_of_mem _ hb)]
    exact hmiss s b (hl b List.mem_cons_self)

/-- A cell that some round hits holds `v`, when `v` is what every round that
hits it writes. -/
theorem foldl_hit {v : α} (hmiss : ∀ s b, ¬ hit b → get (step s b) = get s)
    (hhit : ∀ s b, hit b → get (step s b) = v) (l : List β) (s : σ)
    (hl : ∃ b ∈ l, hit b) : get (l.foldl step s) = v := by
  induction l generalizing s with
  | nil => simp at hl
  | cons b l ih =>
    rw [List.foldl_cons]
    by_cases hrest : ∃ b ∈ l, hit b
    · exact ih (step s b) hrest
    · have hb : hit b := by
        obtain ⟨c, hc, hit⟩ := hl
        rcases List.mem_cons.mp hc with rfl | hc
        · exact hit
        · exact absurd ⟨c, hc, hit⟩ hrest
      rw [foldl_miss get hit hmiss l _ fun c hc h => hrest ⟨c, hc, h⟩]
      exact hhit s b hb

/-- Each cell is changed once, by the round of its own index. -/
theorem foldl_own {ι : Type*} [DecidableEq ι] {step : σ → ι → σ} (get : σ → ι → α)
    (change : ι → α → α)
    (hstep : ∀ s j, get (step s j) = Function.update (get s) j (change j (get s j)))
    {l : List ι} (hl : l.Nodup) (s : σ) {i : ι} (hi : i ∈ l) :
    get (l.foldl step s) i = change i (get s i) := by
  have hother : ∀ s j, ¬j = i → get (step s j) i = get s i := by
    intro s j hj
    rw [hstep, Function.update_of_ne (Ne.symm hj)]
  induction l generalizing s with
  | nil => exact absurd hi List.not_mem_nil
  | cons j l ih =>
    obtain ⟨hj, hl⟩ := List.nodup_cons.mp hl
    rw [List.foldl_cons]
    rcases List.mem_cons.mp hi with rfl | hi
    · rw [foldl_miss (fun s => get s i) (fun j => j = i) hother l _ fun k hk heq => hj (heq ▸ hk),
        hstep, Function.update_self]
    · rw [ih hl _ hi, hother s j fun heq => hj (heq ▸ hi)]

end Cells

/-! ## Counters of fixed width

The last id of a range is compared with a counter that has been counted up before, and the
counter of a range that ends at the last number wraps around.
-/

section Ranges

variable {w : ℕ} {step : σ → BitVec w → σ} {first last : BitVec w}

/-- `while (++i <= last) step(i)`, none when the rounds do not suffice. -/
def upTo (step : σ → BitVec w → σ) (last : BitVec w) : ℕ → BitVec w → σ → Option σ
  | 0, _, _ => none
  | n + 1, i, s => if i + 1 ≤ last then upTo step last n (i + 1) (step s (i + 1)) else some s

/-- The loop with the round for `first` before it. -/
def overRange (step : σ → BitVec w → σ) (first last : BitVec w) (n : ℕ) (s : σ) : Option σ :=
  upTo step last n first (step s first)

theorem toNat_succ {i : BitVec w} (h : i.toNat + 1 < 2 ^ w) : (i + 1).toNat = i.toNat + 1 := by
  have hone : (1 : BitVec w).toNat = 1 % 2 ^ w := BitVec.toNat_ofNat 1 w
  rw [BitVec.toNat_add, hone, Nat.add_mod_mod]
  exact Nat.mod_eq_of_lt h

/-- Up to the last number of the type the loop does not end. -/
theorem upTo_of_last (hlast : last.toNat + 1 = 2 ^ w) (n : ℕ) (i : BitVec w) (s : σ) :
    upTo step last n i s = none := by
  induction n generalizing i s with
  | zero => rfl
  | succ n ih =>
    have hle : i + 1 ≤ last := by
      have hlt := (i + 1).isLt
      exact BitVec.le_def.mpr (by omega)
    rw [upTo, if_pos hle, ih]

/-- Up to any other number the loop ends, with a round for each cell of the range. -/
theorem upTo_of_lt (get : σ → BitVec w → α) (change : BitVec w → α → α)
    (hstep : ∀ s j, get (step s j) = Function.update (get s) j (change j (get s j)))
    (hlast : last.toNat + 1 < 2 ^ w) {i : BitVec w} (hi : i ≤ last) (s : σ) :
    ∃ n t, upTo step last n i s = some t ∧
      ∀ j, get t j = if i < j ∧ j ≤ last then change j (get s j) else get s j := by
  induction hk : last.toNat - i.toNat generalizing i s with
  | zero =>
    have hle := BitVec.le_def.mp hi
    have hsucc := toNat_succ (i := i) (by omega)
    refine ⟨1, s, ?_, ?_⟩
    · rw [upTo, if_neg (BitVec.le_def.not.mpr (by omega))]
    · intro j
      rw [if_neg]
      rintro ⟨hlow, hhigh⟩
      have hlow := BitVec.lt_def.mp hlow
      have hhigh := BitVec.le_def.mp hhigh
      omega
  | succ k ih =>
    have hsucc := toNat_succ (i := i) (by omega)
    have hnext : i + 1 ≤ last := BitVec.le_def.mpr (by omega)
    obtain ⟨n, t, hrun, ht⟩ := ih hnext (step s (i + 1)) (by omega)
    refine ⟨n + 1, t, ?_, ?_⟩
    · rw [upTo, if_pos hnext, hrun]
    · intro j
      have hbetween : i < j ↔ i + 1 < j ∨ j = i + 1 := by
        rw [BitVec.lt_def, BitVec.lt_def, ← BitVec.toNat_inj, hsucc]
        omega
      rw [ht, hstep]
      by_cases hj : j = i + 1
      · subst hj
        rw [if_neg (fun h => absurd h.1 (BitVec.lt_irrefl _)), Function.update_self,
          if_pos ⟨hbetween.mpr (.inr rfl), hnext⟩]
      · rw [Function.update_of_ne hj]
        rw [or_iff_left hj] at hbetween
        exact if_congr (and_congr_left' hbetween.symm) rfl rfl

/-- A loop over a range has a round for each cell of it exactly when the range ends before the
last number of the type. -/
theorem overRange_iff (get : σ → BitVec w → α) (change : BitVec w → α → α)
    (hstep : ∀ s j, get (step s j) = Function.update (get s) j (change j (get s j)))
    (hle : first ≤ last) (s : σ) :
    (∃ n t, overRange step first last n s = some t ∧
      ∀ j, get t j = if first ≤ j ∧ j ≤ last then change j (get s j) else get s j) ↔
      last.toNat + 1 < 2 ^ w := by
  constructor
  · rintro ⟨n, t, hrun, -⟩
    by_contra hlast
    have hlt := last.isLt
    rw [overRange, upTo_of_last (by omega)] at hrun
    cases hrun
  · intro hlast
    obtain ⟨n, t, hrun, ht⟩ := upTo_of_lt get change hstep hlast hle (step s first)
    refine ⟨n, t, hrun, ?_⟩
    intro j
    have hfrom : first ≤ j ↔ first < j ∨ j = first := by
      rw [BitVec.le_def, BitVec.lt_def, ← BitVec.toNat_inj]
      omega
    rw [ht, hstep]
    by_cases hj : j = first
    · subst hj
      rw [if_neg (fun h => absurd h.1 (BitVec.lt_irrefl _)), Function.update_self,
        if_pos ⟨BitVec.le_refl _, hle⟩]
    · rw [Function.update_of_ne hj]
      rw [or_iff_left hj] at hfrom
      exact if_congr (and_congr_left' hfrom.symm) rfl rfl

end Ranges

end TibiaServer.Library.Loops
