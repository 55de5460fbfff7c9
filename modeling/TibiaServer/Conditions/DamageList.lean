import Mathlib.Data.Rat.Floor
import TibiaServer.Conditions.Condition
/-!
# The list of damages

`generateDamageList` goes down from `start` to 1 and adds each value at least once, and again as
long as that brings the sum closer to the part of the amount that is due.  The values come to the
amount exactly when adding each of them once does not exceed it.
-/

namespace TibiaServer.Conditions

open Players

/-! ## The loops -/

/-- `x1 < x2`.  The ratios are exact; where `med` is 0, theirs is no number or infinite, and
neither is less than the other. -/
def closer (sum i med : int32_t) : Bool :=
  let x1 : ℚ := |1 - ((sum.toInt : ℚ) + i.toInt) / med.toInt|
  let x2 : ℚ := |1 - (sum.toInt : ℚ) / med.toInt|
  x1 < x2

/-- The inner loop, with the values that it adds and the sum behind it. -/
def addValues (i med : int32_t) : ℕ → int32_t → Option (List int32_t × int32_t)
  | 0, _ => none
  | fuel + 1, sum =>
    let sum := sum + i
    if closer sum i med then
      (addValues i med fuel sum).map fun (list, sum) => (i :: list, sum)
    else some ([i], sum)

/-- The part of the amount that is due when `i` has been gone through. -/
def med (amount start i : int32_t) : int32_t :=
  let n := start + 1 - i
  (n * amount).sdiv start

/-- The outer loop, from the value `i` down to 1. -/
def generateFrom (amount start : int32_t) (fuel : ℕ) : ℕ → int32_t → Option (List int32_t)
  | 0, _ => some []
  | i + 1, sum =>
    let value : int32_t := .ofNat 32 (i + 1)
    match addValues value (med amount start value) fuel sum with
    | none => none
    | some (list, sum) => (generateFrom amount start fuel i sum).map fun rest => list ++ rest

/-- `ConditionDamage::generateDamageList` -/
def generateDamageList (amount start : int32_t) (fuel : ℕ) : Option (List int32_t) :=
  generateFrom amount.abs start fuel start.toInt.toNat 0

/-- What `init` starts with by default. -/
def defaultStart (amount : int32_t) : int32_t :=
  .ofInt 32 (max 1 ⌈(|amount.toInt| : ℚ) / 20⌉)

/-! ## One value -/

theorem closer_iff {sum i med : int32_t} : closer sum i med = true ↔
    med.toInt ≠ 0 ∧ |med.toInt - (sum.toInt + i.toInt)| < |med.toInt - sum.toInt| := by
  unfold closer
  rw [decide_eq_true_iff]
  by_cases hmed : med.toInt = 0
  · simp [hmed]
  · have hpos : (0 : ℚ) < |(med.toInt : ℚ)| := abs_pos.mpr (Int.cast_ne_zero.mpr hmed)
    have hratio : ∀ x : ℚ, |1 - x / med.toInt| = |med.toInt - x| / |(med.toInt : ℚ)| := by
      intro x
      rw [← abs_div, sub_div, div_self (Int.cast_ne_zero.mpr hmed)]
    rw [hratio, hratio, div_lt_div_iff_of_pos_right hpos, and_iff_right hmed]
    norm_cast

/-- A value brings the sum closer only from below. -/
theorem lt_of_closer {sum i med : int32_t} (hi : 0 < i.toInt) (h : closer sum i med = true) :
    sum.toInt < med.toInt ∧ 2 * sum.toInt + i.toInt < 2 * med.toInt := by
  obtain ⟨hlow, hhigh⟩ := abs_lt.mp (closer_iff.mp h).2
  rcases abs_cases (med.toInt - sum.toInt) with ⟨heq, hsign⟩ | ⟨heq, hsign⟩
  · rw [heq] at hlow hhigh
    omega
  · rw [heq] at hlow hhigh
    omega

theorem toInt_add_of_lt {sum i : int32_t} (hi : 0 < i.toInt)
    (hless : sum.toInt + i.toInt < 2147483648) : (sum + i).toInt = sum.toInt + i.toInt := by
  have hlow := BitVec.le_toInt sum
  rw [BitVec.toInt_add, Int.bmod_eq_of_le] <;> omega

/-- What the inner loop comes to. -/
structure Adds (i med sum : int32_t) (k : ℕ) (sum' : int32_t) : Prop where
  once : 1 ≤ k
  toInt : sum'.toInt = sum.toInt + k * i.toInt
  last : closer sum' i med = false
  near : k = 1 ∨ 2 * sum'.toInt < 2 * med.toInt + i.toInt

theorem Adds.again {i med sum sum' : int32_t} {k : ℕ} (h : Adds i med (sum + i) k sum')
    (hcloser : closer (sum + i) i med = true) (hi : 0 < i.toInt)
    (hadd : (sum + i).toInt = sum.toInt + i.toInt) : Adds i med sum (k + 1) sum' where
  once := Nat.le_add_left 1 k
  toInt := by
    rw [h.toInt, hadd]
    push_cast
    ring
  last := h.last
  near := by
    refine .inr ?_
    rcases h.near with rfl | hnear
    · have hsum := h.toInt
      rw [Nat.cast_one, one_mul] at hsum
      have hbelow := (lt_of_closer hi hcloser).2
      omega
    · exact hnear

/-- From below `med` each further value is a step towards it, without a wrap. -/
theorem addValues_of_lt {i med : int32_t} (hi : 0 < i.toInt) (hsmall : i.toInt ≤ 1073741824)
    (hmed : med.toInt ≤ 1073741824) {fuel : ℕ} {sum : int32_t} (hless : sum.toInt < med.toInt)
    (hfuel : med.toInt - sum.toInt ≤ fuel) :
    ∃ k sum', addValues i med fuel sum = some (List.replicate k i, sum') ∧
      Adds i med sum k sum' := by
  induction fuel generalizing sum with
  | zero => omega
  | succ fuel ih =>
    have hadd : (sum + i).toInt = sum.toInt + i.toInt := toInt_add_of_lt hi (by omega)
    rw [addValues]
    dsimp only
    cases hcloser : closer (sum + i) i med with
    | false =>
      refine ⟨1, sum + i, rfl, le_rfl, ?_, hcloser, .inl rfl⟩
      rw [hadd, Nat.cast_one, one_mul]
    | true =>
      obtain ⟨k, sum', hrun, hadds⟩ := ih (lt_of_closer hi hcloser).1 (by omega)
      refine ⟨k + 1, sum', ?_, hadds.again hcloser hi hadd⟩
      rw [if_pos rfl, hrun]
      rfl

/-- The inner loop ends, also where the first value makes the sum wrap. -/
theorem addValues_total {i med : int32_t} (hi : 0 < i.toInt) (hsmall : i.toInt ≤ 1073741824)
    (hmed : med.toInt ≤ 1073741824) {fuel : ℕ} (hfuel : 4294967296 ≤ fuel) (sum : int32_t) :
    ∃ k sum', addValues i med fuel sum = some (List.replicate k i, sum') ∧ 1 ≤ k ∧
      (sum.toInt + i.toInt < 2147483648 → Adds i med sum k sum') := by
  obtain ⟨fuel, rfl⟩ := Nat.exists_eq_add_of_le' (Nat.one_le_of_lt hfuel)
  rw [addValues]
  dsimp only
  cases hcloser : closer (sum + i) i med with
  | false =>
    refine ⟨1, sum + i, rfl, le_rfl, fun hless => ⟨le_rfl, ?_, hcloser, .inl rfl⟩⟩
    rw [toInt_add_of_lt hi hless, Nat.cast_one, one_mul]
  | true =>
    have hlow := BitVec.le_toInt (sum + i)
    have hmore : med.toInt - (sum + i).toInt ≤ fuel := by omega
    obtain ⟨k, sum', hrun, hadds⟩ := addValues_of_lt hi hsmall hmed
      (lt_of_closer hi hcloser).1 hmore
    refine ⟨k + 1, sum', ?_, by omega, fun hless => ?_⟩
    · rw [if_pos rfl, hrun]
      rfl
    · exact hadds.again hcloser hi (toInt_add_of_lt hi hless)

/-! ## The whole list -/

/-- The values go down from `i` to 1, and none is left out. -/
structure Descends (i : ℕ) (list : List int32_t) : Prop where
  bounds : ∀ value ∈ list, 1 ≤ value.toInt ∧ value.toInt ≤ i
  sorted : list.Pairwise fun a b => b.toInt ≤ a.toInt
  each : i * (i + 1) ≤ 2 * (list.map BitVec.toInt).sum

theorem toInt_value {i : ℕ} (hi : i < 1073741824) :
    (BitVec.ofNat 32 (i + 1)).toInt = i + 1 := by
  rw [BitVec.toInt_ofNat', Int.bmod_eq_of_le]
  · push_cast
    rfl
  · omega
  · omega

theorem Descends.cons {i k : ℕ} (hi : i < 1073741824) (hk : 1 ≤ k) {rest : List int32_t}
    (h : Descends i rest) :
    Descends (i + 1) (List.replicate k (BitVec.ofNat 32 (i + 1)) ++ rest) where
  bounds value hvalue := by
    rcases List.mem_append.mp hvalue with hfirst | hrest
    · rw [List.eq_of_mem_replicate hfirst, toInt_value hi]
      omega
    · have hbounds := h.bounds value hrest
      omega
  sorted := by
    refine List.pairwise_append.mpr ⟨List.pairwise_replicate.mpr (.inr le_rfl), h.sorted, ?_⟩
    intro a ha b hb
    rw [List.eq_of_mem_replicate ha, toInt_value hi]
    have hbounds := h.bounds b hb
    omega
  each := by
    have hrest := h.each
    have hone : (1 : ℤ) ≤ k := by omega
    rw [List.map_append, List.sum_append, List.map_replicate, List.sum_replicate, toInt_value hi,
      nsmul_eq_mul]
    push_cast
    nlinarith

theorem generateFrom_total {amount start : int32_t} {fuel : ℕ} (hfuel : 4294967296 ≤ fuel)
    {i : ℕ} (hi : i ≤ 1073741824)
    (hmed : ∀ j < i, (med amount start (.ofNat 32 (j + 1))).toInt ≤ 1073741824) (sum : int32_t) :
    ∃ list, generateFrom amount start fuel i sum = some list ∧ Descends i list := by
  induction i generalizing sum with
  | zero => exact ⟨[], rfl, ⟨nofun, .nil, by simp⟩⟩
  | succ i ih =>
    have hvalue := toInt_value (i := i) (by omega)
    have hlast := hmed i (Nat.lt_succ_self i)
    obtain ⟨k, sum', hrun, hk, -⟩ := addValues_total (i := BitVec.ofNat 32 (i + 1)) (by omega)
      (by omega) hlast hfuel sum
    obtain ⟨rest, hrest, hdescends⟩ := ih (by omega) (fun j hj => hmed j (by omega)) sum'
    refine ⟨_, ?_, hdescends.cons (by omega) hk⟩
    rw [generateFrom, hrun]
    dsimp only
    rw [hrest]
    rfl

/-! ## The sum -/

theorem toInt_med {amount start i : int32_t} (hstart : 0 < start.toInt) :
    (med amount start i).toInt = ((start + 1 - i) * amount).toInt.tdiv start.toInt := by
  have hne : start ≠ -1#32 := by
    rintro rfl
    exact absurd hstart (by decide)
  unfold med
  exact BitVec.toInt_sdiv_of_ne_or_ne _ _ (.inr hne)

/-- Without overflow the part that is due is rounded down. -/
theorem toInt_med_of_lt {amount start : int32_t} {S A i : ℕ} (hS : start.toInt = S)
    (hA : amount.toInt = A) (hless : S * A < 2147483648) (hsmall : S < 1073741824) (hi : i < S) :
    (med amount start (.ofNat 32 (i + 1))).toInt = ((S - i) * A / S : ℕ) := by
  have hn : (start + 1 - BitVec.ofNat 32 (i + 1)).toInt = (S - i : ℕ) := by
    have hone : (start + 1).toInt = S + 1 := by
      rw [BitVec.toInt_add, hS, show (1 : int32_t).toInt = 1 from rfl, Int.bmod_eq_of_le] <;> omega
    rw [BitVec.toInt_sub, hone, toInt_value (by omega), Int.bmod_eq_of_le] <;> omega
  have hle : (S - i) * A ≤ S * A := Nat.mul_le_mul_right A (Nat.sub_le S i)
  have hproduct : ((start + 1 - BitVec.ofNat 32 (i + 1)) * amount).toInt = ((S - i) * A : ℕ) := by
    rw [BitVec.toInt_mul, hn, hA, ← Nat.cast_mul, Int.bmod_eq_of_le] <;> omega
  rw [toInt_med (by omega), hproduct, hS, Int.tdiv_eq_ediv_of_nonneg (by omega)]
  norm_cast

/-- Before the value `i` there is room for it and all values below it. -/
structure Room (i : ℕ) (sum A : ℤ) : Prop where
  nonneg : 0 ≤ sum
  below : 2 * sum + i * (i + 1) ≤ 2 * A

/-- What is due leaves room for the values that follow. -/
theorem due_le {S A i : ℕ} (hroom : S * (S + 1) ≤ 2 * A) (hi : i < S) :
    2 * ((S - i) * A / S) + i * (i + 2) ≤ 2 * A := by
  have hfloor : (S - i) * A / S * S ≤ (S - i) * A := Nat.div_mul_le_self _ _
  obtain ⟨j, rfl⟩ : ∃ j, S = i + j := ⟨S - i, by omega⟩
  rw [Nat.add_sub_cancel_left] at hfloor ⊢
  have hvalues : i * (i + 2) * (i + j) ≤ 2 * A * i := by
    calc i * (i + 2) * (i + j)
      _ ≤ i * ((i + j) * (i + j + 1)) := by
        have hstep : i + 2 ≤ i + j + 1 := by omega
        calc i * (i + 2) * (i + j) = i * ((i + j) * (i + 2)) := by ring
          _ ≤ i * ((i + j) * (i + j + 1)) :=
            Nat.mul_le_mul_left i (Nat.mul_le_mul_left (i + j) hstep)
      _ ≤ i * (2 * A) := Nat.mul_le_mul_left i hroom
      _ = 2 * A * i := Nat.mul_comm _ _
  refine Nat.le_of_mul_le_mul_right ?_ (Nat.zero_lt_of_lt hi)
  calc (2 * (j * A / (i + j)) + i * (i + 2)) * (i + j)
    _ = 2 * (j * A / (i + j) * (i + j)) + i * (i + 2) * (i + j) := by ring
    _ ≤ 2 * (j * A) + 2 * A * i := Nat.add_le_add (Nat.mul_le_mul_left 2 hfloor) hvalues
    _ = 2 * A * (i + j) := by ring

theorem Room.next {S A i k : ℕ} {value due sum sum' : int32_t} (hroom : S * (S + 1) ≤ 2 * A)
    (hi : i < S) (hvalue : value.toInt = i + 1) (hdue : due.toInt = ((S - i) * A / S : ℕ))
    (h : Room (i + 1) sum.toInt A) (hadds : Adds value due sum k sum') : Room i sum'.toInt A where
  nonneg := by
    have hk : (0 : ℤ) ≤ k * (i + 1) := by positivity
    rw [hadds.toInt, hvalue]
    have hnonneg := h.nonneg
    omega
  below := by
    rcases hadds.near with rfl | hnear
    · have hbelow := h.below
      rw [hadds.toInt, hvalue]
      push_cast at hbelow ⊢
      linarith
    · have hle := due_le hroom hi
      zify at hle
      rw [hdue, hvalue] at hnear
      push_cast at hle hnear
      linarith

/-- The last value, 1, is added up to the whole amount. -/
theorem eq_of_last {due sum : int32_t} {A : ℕ} (hA : 0 < A) (hdue : due.toInt = A)
    {value : int32_t} (hvalue : value.toInt = 1) (hlast : closer sum value due = false)
    (hroom : Room 0 sum.toInt A) : sum.toInt = A := by
  have hle := hroom.below
  by_contra hne
  have hless : sum.toInt < A := by
    push_cast at hle
    omega
  have hcloser : closer sum value due = true := by
    rw [closer_iff, hdue, hvalue, abs_of_nonneg (by omega), abs_of_nonneg (by omega)]
    exact ⟨by omega, by omega⟩
  rw [hcloser] at hlast
  exact Bool.noConfusion hlast

/-- With room for one of each value the sum comes to the amount. -/
theorem sum_of_room {amount start : int32_t} {S A : ℕ} (hS : start.toInt = S)
    (hA : amount.toInt = A) (hless : S * A < 2147483648) (hS' : S < 1073741824)
    (hA' : A ≤ 1073741824) (hroom : S * (S + 1) ≤ 2 * A) {fuel : ℕ} (hfuel : 4294967296 ≤ fuel)
    {i : ℕ} (hi : 0 < i) (hle : i ≤ S) {sum : int32_t} (h : Room i sum.toInt A)
    {list : List int32_t} (hrun : generateFrom amount start fuel i sum = some list) :
    sum.toInt + (list.map BitVec.toInt).sum = A := by
  induction i generalizing sum list with
  | zero => omega
  | succ i ih =>
    have hvalue := toInt_value (i := i) (by omega)
    have hdue := toInt_med_of_lt hS hA hless hS' hle
    have hsmall : (med amount start (.ofNat 32 (i + 1))).toInt ≤ 1073741824 := by
      have hdue_le := due_le hroom hle
      omega
    have hfirst : sum.toInt + (i + 1) < 2147483648 := by
      have hbelow := h.below
      push_cast at hbelow
      nlinarith
    obtain ⟨k, sum', hadd, -, hadds⟩ := addValues_total (i := BitVec.ofNat 32 (i + 1)) (by omega)
      (by omega) hsmall hfuel sum
    have hadds := hadds (by omega)
    have hnext := h.next hroom hle hvalue hdue hadds
    rw [generateFrom, hadd] at hrun
    obtain ⟨rest, hrest, rfl⟩ := Option.map_eq_some_iff.mp hrun
    rw [List.map_append, List.sum_append, List.map_replicate, List.sum_replicate, nsmul_eq_mul,
      ← add_assoc, ← hadds.toInt]
    rcases Nat.eq_zero_or_pos i with rfl | hpos
    · obtain rfl := Option.some.inj hrest
      have hdue_all : (S - 0) * A / S = A := by
        rw [Nat.sub_zero, Nat.mul_div_cancel_left _ (by omega)]
      rw [hdue_all] at hdue
      rw [List.map_nil, List.sum_nil, add_zero]
      exact eq_of_last (by nlinarith) hdue hvalue hadds.last hnext
    · exact ih hpos (by omega) hnext hrest

/-! ## The default start -/

theorem room_iff {A : ℕ} (hA : 0 < A) :
    (A + 19) / 20 * ((A + 19) / 20 + 1) ≤ 2 * A ↔ A ≤ 760 ∨ A = 780 := by
  have hS : ∃ S, (A + 19) / 20 = S ∧ 20 * S < A + 20 ∧ A ≤ 20 * S := ⟨_, rfl, by omega, by omega⟩
  obtain ⟨S, heq, hlow, hhigh⟩ := hS
  rw [heq]
  constructor
  · intro hroom
    have hS : S ≤ 39 := by
      by_contra hmore
      have hproduct : S * 41 ≤ S * (S + 1) := Nat.mul_le_mul_left S (by omega)
      omega
    rcases Nat.lt_or_ge S 39 with hless | hge
    · exact .inl (by omega)
    · obtain rfl : S = 39 := le_antisymm hS hge
      omega
  · rintro (hle | rfl)
    · have hS : S ≤ 38 := by omega
      have hproduct : S * (S + 1) + 38 ≤ 40 * S := by
        obtain ⟨d, rfl⟩ : ∃ d, S = d + 1 := ⟨S - 1, by omega⟩
        nlinarith
      omega
    · obtain rfl : S = 39 := by omega
      decide

theorem natAbs_pos_of_ne {amount : int32_t} (hne : amount ≠ 0) : 0 < amount.toInt.natAbs := by
  refine Int.natAbs_pos.mpr fun hzero => hne (BitVec.eq_of_toInt_eq ?_)
  rw [hzero]
  rfl

theorem natAbs_le (amount : int32_t) : amount.toInt.natAbs ≤ 2147483648 := by
  have hlow := BitVec.le_toInt amount
  have hhigh := BitVec.toInt_lt (x := amount)
  omega

theorem toInt_defaultStart {amount : int32_t} (hne : amount ≠ 0) :
    (defaultStart amount).toInt = ((amount.toInt.natAbs + 19) / 20 : ℕ) := by
  have hpos := natAbs_pos_of_ne hne
  have hle := natAbs_le amount
  have habs : (|amount.toInt| : ℚ) = (amount.toInt.natAbs : ℤ) := by
    rw [Int.natCast_natAbs]
    norm_cast
  generalize amount.toInt.natAbs = A at *
  have hceil : ⌈(|amount.toInt| : ℚ) / 20⌉ = ((A + 19) / 20 : ℕ) := by
    rw [habs, Int.ceil_eq_iff]
    constructor
    · have hlow : (((A + 19) / 20 : ℕ) : ℤ) * 20 < A + 20 := by omega
      have hlow' := (Int.cast_lt (R := ℚ)).mpr hlow
      rw [lt_div_iff₀ (by norm_num)]
      push_cast at hlow' ⊢
      linarith
    · rw [div_le_iff₀ (by norm_num)]
      norm_cast
      omega
  unfold defaultStart
  rw [hceil, max_eq_right (by omega), BitVec.toInt_ofInt, Int.bmod_eq_of_le] <;> omega

theorem toInt_abs {amount : int32_t} (hne : amount ≠ BitVec.intMin 32) :
    amount.abs.toInt = amount.toInt.natAbs := by
  rw [BitVec.toInt_abs_eq_ite, if_neg hne]
  have hmsb := BitVec.msb_eq_toInt (x := amount)
  split_ifs with h
  · rw [h] at hmsb
    have hneg := of_decide_eq_true hmsb.symm
    omega
  · have hnonneg := of_decide_eq_false (hmsb.symm.trans (by simpa using h))
    omega

/-- With a start of two and more what is due stays far from the bounds. -/
theorem med_le {amount start i : int32_t} (hstart : 2 ≤ start.toInt) :
    (med amount start i).toInt ≤ 1073741824 := by
  rw [toInt_med (by omega)]
  have hhigh := BitVec.toInt_lt (x := (start + 1 - i) * amount)
  calc ((start + 1 - i) * amount).toInt.tdiv start.toInt
    _ ≤ (2147483647 : ℤ).tdiv start.toInt := Int.tdiv_le_tdiv (by omega) (by omega)
    _ = 2147483647 / start.toInt := Int.tdiv_eq_ediv_of_nonneg (by decide)
    _ ≤ 1073741824 := Int.ediv_le_of_le_mul (by omega) (by omega)

/-- The values go down and are positive.  They come to the amount for amounts of 760 at most and
for 780. -/
theorem generateDamageList_sum_iff (amount : int32_t) (hne : amount ≠ 0) {fuel : ℕ}
    (hfuel : 4294967296 ≤ fuel) :
    ∃ list, generateDamageList amount (defaultStart amount) fuel = some list ∧
      (list.Pairwise fun a b => b.toInt ≤ a.toInt) ∧ (∀ value ∈ list, 0 < value.toInt) ∧
      ((list.map BitVec.toInt).sum = |amount.toInt| ↔
        |amount.toInt| ≤ 760 ∨ |amount.toInt| = 780) := by
  have hpos := natAbs_pos_of_ne hne
  have hle := natAbs_le amount
  have hS := toInt_defaultStart hne
  have hA : amount.toInt.natAbs ≤ 780 → amount.abs.toInt = amount.toInt.natAbs := fun hsmall => by
    refine toInt_abs fun hmin => ?_
    rw [hmin] at hsmall
    exact absurd hsmall (by decide)
  have hroom := room_iff hpos
  rw [← Int.natCast_natAbs]
  generalize amount.toInt.natAbs = A at *
  unfold generateDamageList
  generalize defaultStart amount = start at *
  generalize hSdef : (A + 19) / 20 = S at *
  have hmed : ∀ j < S, (med amount.abs start (.ofNat 32 (j + 1))).toInt ≤ 1073741824 := by
    intro j hj
    rcases Nat.lt_or_ge S 2 with hone | htwo
    · obtain ⟨rfl, rfl⟩ : S = 1 ∧ j = 0 := ⟨by omega, by omega⟩
      rw [toInt_med_of_lt hS (hA (by omega)) (by omega) (by omega) hj]
      omega
    · exact med_le (by omega)
  have hstart : start.toInt.toNat = S := by omega
  rw [hstart]
  obtain ⟨list, hrun, hdescends⟩ := generateFrom_total hfuel (by omega) hmed 0
  refine ⟨list, hrun, hdescends.sorted, fun value hvalue => (hdescends.bounds value hvalue).1, ?_⟩
  have hiff : ((A : ℤ) ≤ 760 ∨ (A : ℤ) = 780) ↔ S * (S + 1) ≤ 2 * A := by
    rw [hroom]
    omega
  rw [hiff]
  constructor
  · intro hsum
    have heach := hdescends.each
    rw [hsum] at heach
    exact_mod_cast heach
  · intro hfits
    have hsmall : A ≤ 780 := by
      have hcases := hroom.mp hfits
      omega
    have hroom₀ : Room S (0 : int32_t).toInt A := by
      have hfits' := hfits
      zify at hfits'
      exact ⟨le_rfl, by simpa using hfits'⟩
    have hsum := sum_of_room hS (hA hsmall) (by nlinarith) (by omega) (by omega) hfits hfuel
      (by omega) le_rfl hroom₀ hrun
    simpa using hsum

/-- 100 comes out as a list of damages of 100 in all. -/
theorem hundred_sums_up : ∃ list,
    generateDamageList 100 (defaultStart 100) 4294967296 = some list ∧
      (list.map BitVec.toInt).sum = 100 := by
  obtain ⟨list, hrun, -, -, hiff⟩ := generateDamageList_sum_iff 100 (by decide) le_rfl
  exact ⟨list, hrun, hiff.mpr (.inl (by decide))⟩

/-- The values from 40 to 1, once each, are 820 already. -/
theorem eight_hundred_exceeded : ∃ list,
    generateDamageList 800 (defaultStart 800) 4294967296 = some list ∧
      (list.map BitVec.toInt).sum ≠ |(800 : int32_t).toInt| := by
  have hS : (defaultStart 800).toInt = 40 := toInt_defaultStart (by decide)
  have hmed : ∀ j < 40, (med (BitVec.abs 800) (defaultStart 800) (.ofNat 32 (j + 1))).toInt ≤
      1073741824 := fun j _ => med_le (by omega)
  obtain ⟨list, hrun, hdescends⟩ := generateFrom_total le_rfl (by decide) hmed 0
  unfold generateDamageList
  rw [hS]
  refine ⟨list, hrun, fun hsum => ?_⟩
  have heach := hdescends.each
  rw [hsum] at heach
  revert heach
  decide

end TibiaServer.Conditions
