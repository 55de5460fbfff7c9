import TibiaServer.Game.Clones
/-!
# Coins

`Game::addMoney` takes an amount apart into crystal, platinum and gold coins.  The number of
crystal coins and what they are worth are 32 bits wide, the other counts 16, and a stack counts
in one byte.  `Exact` says for which amounts the coins are worth the amount.
-/

namespace TibiaServer.Game

open TibiaServer.Cylinders

def ITEM_GOLD_COIN : ℕ := 2148
def ITEM_PLATINUM_COIN : ℕ := 2152
def ITEM_CRYSTAL_COIN : ℕ := 2160
def ITEM_BAR_COIN : ℕ := 17100

def goldCoinType : ItemType :=
  { id := ITEM_GOLD_COIN, pickupable := true, moveable := true, stackable := true }

/-- `Item::getWorth`; the count is one byte, so that no product leaves 32 bits. -/
def getWorth (item : Item) : ℕ :=
  if item.id = ITEM_GOLD_COIN then item.count
  else if item.id = ITEM_PLATINUM_COIN then item.count * 100
  else if item.id = ITEM_CRYSTAL_COIN then item.count * 10000
  else if item.id = ITEM_BAR_COIN then item.count * 1000000
  else 0

/-- `Item::CreateItem` of a stackable type. -/
def createStack (items : ℕ → ItemType) (type count : ℕ) : Option Item :=
  let it := items type
  if it.group = .ITEM_GROUP_DEPRECATED then none
  else
    let count := if it.stackable && count == 0 then 1 else count
    if it.id ≠ 0 then some (Item.ofStack items (createdId it.id) count) else none

/-- The three coins have stackable rows in data/items/items.otb. -/
def CoinTypes (items : ℕ → ItemType) : Prop :=
  ∀ id ∈ [ITEM_GOLD_COIN, ITEM_PLATINUM_COIN, ITEM_CRYSTAL_COIN],
    (items id).id = id ∧ (items id).stackable = true

/-! ## The stacks that are created -/

/-- The loop over the crystal coins. -/
def crystalLoop : ℕ → ℕ → List (ℕ × ℕ)
  | 0, _ => []
  | fuel + 1, crystalCoins =>
    if crystalCoins > 0 then
      let count := min 100 crystalCoins
      (ITEM_CRYSTAL_COIN, count) :: crystalLoop fuel (crystalCoins - count)
    else []

/-- The calls of `CreateItem` that `Game::addMoney` makes, in their order. -/
def coinStacks (money : UInt64) : List (ℕ × ℕ) :=
  if money = 0 then []
  else
    let crystalCoins : UInt32 := (money / 10000).toUInt32
    let money := money - (crystalCoins * 10000).toUInt64
    let crystals := crystalLoop crystalCoins.toNat crystalCoins.toNat
    let platinumCoins : UInt16 := (money / 100).toUInt16
    let platinums :=
      if platinumCoins ≠ 0 then [(ITEM_PLATINUM_COIN, platinumCoins.toNat)] else []
    let money := if platinumCoins ≠ 0 then money - platinumCoins.toUInt64 * 100 else money
    let golds := if money ≠ 0 then [(ITEM_GOLD_COIN, money.toUInt16.toNat)] else []
    crystals ++ platinums ++ golds

/-- What the item of one call is worth. -/
def worthOf (items : ℕ → ItemType) (stack : ℕ × ℕ) : ℕ :=
  ((createStack items stack.1 stack.2).map getWorth).getD 0

def stacksWorth (items : ℕ → ItemType) (l : List (ℕ × ℕ)) : ℕ :=
  (l.map (worthOf items)).sum

/-- The coins are worth the amount: their number fits, and what 32 bits lose of the crystal coins
is nothing, or a multiple of 25 times `2 ^ 32` (which the 16 bits of the platinum coins lose
again) where some gold is left. -/
def Exact (money : ℕ) : Prop :=
  let lost := money / 10000 * 10000 / 4294967296
  money / 10000 < 4294967296 ∧ (lost = 0 ∨ lost % 25 = 0 ∧ money % 100 ≠ 0)

instance (money : ℕ) : Decidable (Exact money) := inferInstanceAs (Decidable (_ ∧ _))

section Worth

variable {items : ℕ → ItemType}

/-- A stack of coins as it is created. -/
theorem createStack_coin {type : ℕ} (hid : (items type).id = type)
    (hstack : (items type).stackable = true) (hne : type ≠ 0) (count : ℕ) :
    createStack items type count =
      some (Item.ofStack items type (if count = 0 then 1 else count)) := by
  obtain ⟨hgroup, -, -, hcreated⟩ := (items type).stackable_plain hstack
  rw [hid] at hcreated
  unfold createStack
  simp [hgroup, hid, hstack, hne, hcreated]

theorem ofStack_count (type : ℕ) {count : ℕ} (hcount : count ≠ 0) :
    (Item.ofStack items type count).count = count % 256 := by
  unfold Item.ofStack
  simp only [hcount, ne_eq, not_false_eq_true, if_true]
  split_ifs <;> rfl

/-- The count that a stack comes to have. -/
def stackCount (count : ℕ) : ℕ := (if count = 0 then 1 else count) % 256

theorem worthOf_coin (hcoins : CoinTypes items) {type : ℕ}
    (htype : type ∈ [ITEM_GOLD_COIN, ITEM_PLATINUM_COIN, ITEM_CRYSTAL_COIN]) (count : ℕ) :
    worthOf items (type, count) = getWorth { id := type, count := stackCount count } := by
  obtain ⟨hid, hstack⟩ := hcoins type htype
  have hne : type ≠ 0 := by
    rintro rfl
    exact absurd htype (by decide)
  have hcount : (if count = 0 then 1 else count) ≠ 0 := by split_ifs <;> omega
  unfold worthOf
  rw [createStack_coin hid hstack hne, Option.map_some, Option.getD_some]
  unfold getWorth
  rw [ofStack_id, ofStack_count type hcount]
  rfl

theorem worthOf_crystal (hcoins : CoinTypes items) (count : ℕ) :
    worthOf items (ITEM_CRYSTAL_COIN, count) = stackCount count * 10000 :=
  worthOf_coin hcoins (by decide) count

theorem worthOf_platinum (hcoins : CoinTypes items) (count : ℕ) :
    worthOf items (ITEM_PLATINUM_COIN, count) = stackCount count * 100 :=
  worthOf_coin hcoins (by decide) count

theorem worthOf_gold (hcoins : CoinTypes items) (count : ℕ) :
    worthOf items (ITEM_GOLD_COIN, count) = stackCount count :=
  worthOf_coin hcoins (by decide) count

@[simp] theorem stacksWorth_nil : stacksWorth items [] = 0 := rfl

@[simp] theorem stacksWorth_cons (stack : ℕ × ℕ) (l : List (ℕ × ℕ)) :
    stacksWorth items (stack :: l) = worthOf items stack + stacksWorth items l := by
  unfold stacksWorth
  rw [List.map_cons, List.sum_cons]

@[simp] theorem stacksWorth_append (l l' : List (ℕ × ℕ)) :
    stacksWorth items (l ++ l') = stacksWorth items l + stacksWorth items l' := by
  unfold stacksWorth
  rw [List.map_append, List.sum_append]

theorem stacksWorth_crystalLoop (hcoins : CoinTypes items) {fuel n : ℕ} (h : n ≤ fuel) :
    stacksWorth items (crystalLoop fuel n) = n * 10000 := by
  induction fuel generalizing n with
  | zero =>
    obtain rfl : n = 0 := by omega
    rfl
  | succ fuel ih =>
    unfold crystalLoop
    split_ifs with hn
    · have hcount : stackCount (min 100 n) = min 100 n := by
        unfold stackCount
        rw [if_neg (by omega)]
        omega
      dsimp only
      rw [stacksWorth_cons, worthOf_crystal hcoins, hcount, ih (by omega)]
      omega
    · obtain rfl : n = 0 := by omega
      rfl

/-! ## What the coins are worth -/

/-- What is left when the crystal coins are taken, in 64 bits, of 32 bits. -/
def restOf (money : ℕ) : ℕ := money - money / 10000 % 4294967296 * 10000 % 4294967296

/-- The worth of the coins in natural numbers. -/
def worthOfMoney (money : ℕ) : ℕ :=
  let crystalCoins := money / 10000 % 4294967296
  let platinumCoins := restOf money / 100 % 65536
  let golds := restOf money - platinumCoins * 100
  crystalCoins * 10000 + platinumCoins % 256 * 100 +
    if golds = 0 then 0 else stackCount (golds % 65536)

/-- No crystal coin is lost, and the rest is below 10000. -/
theorem worthOfMoney_of_small {money : ℕ} (hsmall : money / 10000 * 10000 / 4294967296 = 0) :
    worthOfMoney money = money := by
  have hq : money / 10000 % 4294967296 = money / 10000 := Nat.mod_eq_of_lt (by omega)
  have hrest : restOf money = money % 10000 := by
    unfold restOf
    omega
  have hplatinums : money % 10000 / 100 % 65536 = money % 10000 / 100 := Nat.mod_eq_of_lt (by omega)
  have hgold : money % 10000 - money % 10000 / 100 * 100 = money % 100 := by omega
  unfold worthOfMoney stackCount
  dsimp only
  rw [hq, hrest, hplatinums, hgold]
  split_ifs <;> omega

/-- The platinum and the gold coins, where 32 bits lose `2 ^ 32` for `k` times of the rest `r`. -/
theorem lost_iff {r k A B : ℕ} (hr : r < 10000) (hB : B < 100)
    (hrest : 100 * A + B = r + 4294967296 * k) (hk : k ≠ 0) :
    A % 256 * 100 + (if B = 0 then 1 else B) = r ↔ k % 25 = 0 ∧ r % 100 ≠ 0 := by
  obtain ⟨D, rfl⟩ : ∃ D, A = 42949672 * k + D := ⟨A - 42949672 * k, by omega⟩
  have hD : 100 * D + B = r + 96 * k := by omega
  constructor
  · intro heq
    by_cases hnone : B = 0
    · rw [if_pos hnone] at heq
      omega
    · rw [if_neg hnone] at heq
      generalize (42949672 * k + D) % 256 = a at heq
      omega
  · rintro ⟨hmul, hgold⟩
    obtain ⟨n, rfl⟩ : ∃ n, k = 25 * n := ⟨k / 25, by omega⟩
    have hBr : B = r % 100 := by omega
    have hA : 42949672 * (25 * n) + D = r / 100 + 256 * (4194304 * n) := by omega
    rw [if_neg (by omega), hA, Nat.add_mul_mod_self_left, Nat.mod_eq_of_lt (by omega)]
    omega

theorem worthOfMoney_of_lost {money : ℕ} (hfits : money / 10000 < 4294967296)
    (hlost : money / 10000 * 10000 / 4294967296 ≠ 0) :
    worthOfMoney money = money ↔
      money / 10000 * 10000 / 4294967296 % 25 = 0 ∧ money % 100 ≠ 0 := by
  generalize hk : money / 10000 * 10000 / 4294967296 = k at hlost ⊢
  have hrest : restOf money = money % 10000 + 4294967296 * k := by
    unfold restOf
    rw [Nat.mod_eq_of_lt hfits]
    omega
  generalize hA : restOf money / 100 = A
  have hdiv : 100 * A + restOf money % 100 = restOf money := by omega
  have hgold : restOf money - A % 65536 * 100 =
      65536 * (100 * (A / 65536)) + restOf money % 100 := by omega
  have hmany : 1 ≤ A / 65536 := by omega
  have hlow : (65536 * (100 * (A / 65536)) + restOf money % 100) % 65536 = restOf money % 100 := by
    rw [Nat.mul_add_mod_self_left]
    exact Nat.mod_eq_of_lt (by omega)
  have hcount : stackCount (restOf money % 100) =
      if restOf money % 100 = 0 then 1 else restOf money % 100 := by
    unfold stackCount
    split_ifs <;> omega
  have hmod : money % 100 = money % 10000 % 100 := by omega
  have hiff := lost_iff (Nat.mod_lt money (by omega)) (Nat.mod_lt (restOf money) (by omega))
    (hdiv.trans hrest) hlost
  rw [hmod, ← hiff]
  unfold worthOfMoney
  dsimp only
  rw [Nat.mod_eq_of_lt hfits, hA, hgold, if_neg (by omega), hlow, hcount,
    Nat.mod_mod_of_dvd A (by decide)]
  omega

/-- More crystal coins than 32 bits count are too many for the other coins. -/
theorem worthOfMoney_of_many {money : ℕ} (hmany : 4294967296 ≤ money / 10000) :
    worthOfMoney money < money := by
  have hgold : ∀ n, (if n = 0 then 0 else stackCount (n % 65536)) < 256 := by
    intro n
    unfold stackCount
    split_ifs <;> omega
  have hbound := hgold (restOf money - restOf money / 100 % 65536 * 100)
  unfold worthOfMoney
  dsimp only
  omega

theorem worthOfMoney_eq_iff (money : ℕ) : worthOfMoney money = money ↔ Exact money := by
  unfold Exact
  dsimp only
  by_cases hfits : money / 10000 < 4294967296
  · rw [and_iff_right hfits]
    by_cases hlost : money / 10000 * 10000 / 4294967296 = 0
    · exact iff_of_true (worthOfMoney_of_small hlost) (.inl hlost)
    · rw [worthOfMoney_of_lost hfits hlost, or_iff_right hlost]
  · have hless := worthOfMoney_of_many (not_lt.mp hfits)
    exact iff_of_false hless.ne fun h => hfits h.1

/-- The gold that is left when the platinum coins are taken. -/
theorem toNat_golds (money : UInt64) : let platinumCoins : UInt16 := (money / 100).toUInt16
    (if platinumCoins ≠ 0 then money - platinumCoins.toUInt64 * 100 else money).toNat =
      money.toNat - money.toNat / 100 % 65536 * 100 := by
  have hplatinums : ((money / 100).toUInt16).toNat = money.toNat / 100 % 65536 := by simp
  have htaken : ((money / 100).toUInt16.toUInt64 * 100).toNat =
      money.toNat / 100 % 65536 * 100 := by
    rw [UInt64.toNat_mul, UInt16.toNat_toUInt64, hplatinums]
    exact Nat.mod_eq_of_lt (by simp; omega)
  dsimp only
  split_ifs with hsome
  · rw [UInt64.toNat_sub_of_le, htaken]
    rw [UInt64.le_iff_toNat_le, htaken]
    omega
  · have hnone : money.toNat / 100 % 65536 = 0 := by
      rw [← hplatinums, not_not.mp hsome]
      rfl
    rw [hnone]
    rfl

theorem toNat_rest (money : UInt64) :
    (money - ((money / 10000).toUInt32 * 10000).toUInt64).toNat = restOf money.toNat := by
  have htaken : ((money / 10000).toUInt32 * 10000).toUInt64.toNat =
      money.toNat / 10000 % 4294967296 * 10000 % 4294967296 := by simp
  rw [UInt64.toNat_sub_of_le, htaken]
  · rfl
  · rw [UInt64.le_iff_toNat_le, htaken]
    omega

theorem stacksWorth_coinStacks (hcoins : CoinTypes items) (money : UInt64) :
    stacksWorth items (coinStacks money) = worthOfMoney money.toNat := by
  unfold coinStacks
  split_ifs with hzero
  · subst hzero
    rfl
  · dsimp only
    have hcrystals : ((money / 10000).toUInt32).toNat = money.toNat / 10000 % 4294967296 := by simp
    have hrest := toNat_rest money
    generalize money - ((money / 10000).toUInt32 * 10000).toUInt64 = rest at hrest ⊢
    have hplatinums : ((rest / 100).toUInt16).toNat = restOf money.toNat / 100 % 65536 := by
      simp [← hrest]
    have hgolds := toNat_golds rest
    dsimp only at hgolds
    rw [hrest] at hgolds
    generalize (if (rest / 100).toUInt16 ≠ 0 then rest - (rest / 100).toUInt16.toUInt64 * 100
      else rest) = golds at hgolds ⊢
    generalize (rest / 100).toUInt16 = platinumCoins at hplatinums ⊢
    have hplatinumWorth : stacksWorth items
        (if platinumCoins ≠ 0 then [(ITEM_PLATINUM_COIN, platinumCoins.toNat)] else []) =
          platinumCoins.toNat % 256 * 100 := by
      split_ifs with hsome
      · have hpos : platinumCoins.toNat ≠ 0 := fun h => hsome (UInt16.toNat_inj.mp h)
        rw [stacksWorth_cons, worthOf_platinum hcoins, stacksWorth_nil, stackCount, if_neg hpos]
        rfl
      · rw [not_not.mp hsome]
        rfl
    have hgoldWorth : stacksWorth items
        (if golds ≠ 0 then [(ITEM_GOLD_COIN, golds.toUInt16.toNat)] else []) =
          if golds.toNat = 0 then 0 else stackCount (golds.toNat % 65536) := by
      have hiff : golds = 0 ↔ golds.toNat = 0 := UInt64.toNat_inj.symm
      rw [ite_not, if_congr hiff rfl rfl]
      split_ifs
      · rfl
      · rw [stacksWorth_cons, worthOf_gold hcoins, stacksWorth_nil, UInt64.toNat_toUInt16]
        rfl
    rw [stacksWorth_append, stacksWorth_append, stacksWorth_crystalLoop hcoins le_rfl,
      hplatinumWorth, hgoldWorth, hcrystals, hplatinums, hgolds]
    rfl

/-- The coins that are created are worth the amount exactly for these amounts. -/
theorem created_exact_iff (hcoins : CoinTypes items) (money : UInt64) :
    stacksWorth items (coinStacks money) = money.toNat ↔ Exact money.toNat := by
  rw [stacksWorth_coinStacks hcoins]
  exact worthOfMoney_eq_iff money.toNat

end Worth

end TibiaServer.Game
