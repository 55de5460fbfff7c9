import Mathlib.Algebra.Group.Int.Defs
import Mathlib.Data.List.Perm.Basic
import TibiaServer.IOLoginData.SavePlayer
import TibiaServer.Library.Keyed
/-!
# The storage map

`storageMap` is a map from keys to values, in the order of the keys.  A part of the keys is
reserved: `genReservedStorageRange` writes the outfits to consecutive keys of it at every
save, and `addStorageValue` makes outfits of them again when the rows are loaded.
-/

namespace TibiaServer.IOLoginData.Player

open Library

def PSTRG_RESERVED_RANGE_START : ℕ := 10000000
def PSTRG_RESERVED_RANGE_SIZE : ℕ := 10000000
def PSTRG_OUTFITS_RANGE_SIZE : ℕ := 500

/-- `IS_IN_KEYRANGE` for the reserved range. -/
def isReserved (key : ℕ) : Bool :=
  PSTRG_RESERVED_RANGE_START ≤ key &&
    key - PSTRG_RESERVED_RANGE_START ≤ PSTRG_RESERVED_RANGE_SIZE

/-- `IS_IN_KEYRANGE` for the range of the outfits. -/
def isOutfitKey (key : ℕ) : Bool :=
  PSTRG_OUTFITS_RANGE_START ≤ key && key - PSTRG_OUTFITS_RANGE_START ≤ PSTRG_OUTFITS_RANGE_SIZE

def getStorageValue (p : Player) (key : ℕ) : Option ℤ :=
  p.storageMap.lookup key

/-- The outfit of `value >> 16` and `value & 0xFF`, as a `uint16_t` and a `uint8_t`. -/
def outfitOfValue (value : ℤ) : OutfitEntry where
  lookType := ((value >>> (16 : ℕ)) % 2 ^ 16).toNat
  addons := (value % 2 ^ 8).toNat

/-- Without the messages. -/
def addStorageValue (p : Player) (key : ℕ) (value : ℤ) : Player :=
  if isReserved key then
    if isOutfitKey key then { p with outfits := p.outfits ++ [outfitOfValue value] } else p
  else if value ≠ -1 then { p with storageMap := storageAssign key value p.storageMap }
  else { p with storageMap := p.storageMap.filter fun row => row.1 ≠ key }

/-- The storage part of `loadPlayer`, on a new player object. -/
def loadStorage (p : Player) (rows : List (ℕ × ℤ)) : Player :=
  rows.foldl (fun p row => p.addStorageValue row.1 row.2)
    { p with storageMap := [], outfits := [] }

def addOutfit (p : Player) (lookType : BitVec 16) (addons : BitVec 8) : Player :=
  match p.outfits.findIdx? (fun entry => entry.lookType = lookType.toNat) with
  | some i =>
    { p with outfits := p.outfits.modify i fun entry =>
        { entry with addons := entry.addons ||| addons.toNat } }
  | none => { p with outfits := p.outfits ++ [⟨lookType.toNat, addons.toNat⟩] }

def removeOutfit (p : Player) (lookType : BitVec 16) : Bool × Player :=
  match p.outfits.findIdx? (fun entry => entry.lookType = lookType.toNat) with
  | some i => (true, { p with outfits := p.outfits.eraseIdx i })
  | none => (false, p)

def removeOutfitAddon (p : Player) (lookType : BitVec 16) (addons : BitVec 8) : Bool × Player :=
  match p.outfits.findIdx? (fun entry => entry.lookType = lookType.toNat) with
  | some i =>
    (true, { p with outfits := p.outfits.modify i fun entry =>
        { entry with addons := entry.addons &&& (~~~addons).toNat } })
  | none => (false, p)

/-! ## A map in the order of its keys -/

section StorageAssign

variable {key : ℕ} {value : ℤ}

theorem lookup_storageAssign (k : ℕ) (map : List (ℕ × ℤ)) :
    (storageAssign key value map).lookup k = if k = key then some value else map.lookup k := by
  induction map with
  | nil => rw [storageAssign, Keyed.lookup_cons_eq_ite]
  | cons row rest ih =>
    obtain ⟨k', v'⟩ := row
    rw [storageAssign]
    split
    · rw [Keyed.lookup_cons_eq_ite]
    · split
      next heq =>
        rw [Keyed.lookup_cons_eq_ite, Keyed.lookup_cons_eq_ite, ← heq]
        split <;> rfl
      next hne =>
        rw [Keyed.lookup_cons_eq_ite, Keyed.lookup_cons_eq_ite, ih]
        by_cases hk : k = k'
        · rw [if_pos hk, if_pos hk, if_neg (fun h => hne (h.symm.trans hk))]
        · rw [if_neg hk, if_neg hk]

theorem keys_storageAssign (map : List (ℕ × ℤ)) (k : ℕ) :
    k ∈ (storageAssign key value map).map Prod.fst ↔ k = key ∨ k ∈ map.map Prod.fst := by
  have hkeys : ∀ map : List (ℕ × ℤ), k ∈ map.map Prod.fst ↔ ∃ v, map.lookup k = some v := by
    intro map
    rw [← Option.isSome_iff_exists, List.lookup_isSome_iff, List.mem_map]
    constructor
    · rintro ⟨row, hmem, rfl⟩
      exact ⟨row, hmem, by simp⟩
    · rintro ⟨row, hmem, heq⟩
      exact ⟨row, hmem, (by simpa using heq : k = row.1).symm⟩
  rw [hkeys, hkeys, lookup_storageAssign]
  by_cases hk : k = key <;> simp [hk]

theorem sorted_storageAssign {map : List (ℕ × ℤ)}
    (h : (map.map Prod.fst).Pairwise (· < ·)) :
    ((storageAssign key value map).map Prod.fst).Pairwise (· < ·) := by
  induction map with
  | nil => exact List.pairwise_singleton _ _
  | cons row rest ih =>
    obtain ⟨k', v'⟩ := row
    rw [List.map_cons, List.pairwise_cons] at h
    obtain ⟨hfirst, hrest⟩ := h
    rw [storageAssign]
    split
    next hlt =>
      rw [List.map_cons, List.map_cons, List.pairwise_cons, List.pairwise_cons]
      refine ⟨fun k hk => ?_, hfirst, hrest⟩
      rcases List.mem_cons.mp hk with rfl | hk
      · exact hlt
      · exact Nat.lt_trans hlt (hfirst k hk)
    next hle =>
      split
      next heq =>
        rw [List.map_cons, List.pairwise_cons]
        exact ⟨fun k hk => heq ▸ hfirst k hk, hrest⟩
      next hne =>
        rw [List.map_cons, List.pairwise_cons]
        refine ⟨fun k hk => ?_, ih hrest⟩
        rcases (keys_storageAssign rest k).mp hk with rfl | hk
        · dsimp only at hle hne ⊢
          omega
        · exact hfirst k hk

end StorageAssign

/-! ## The reserved keys -/

theorem isReserved_iff {key : ℕ} : isReserved key = true ↔ 10000000 ≤ key ∧ key ≤ 20000000 := by
  unfold isReserved PSTRG_RESERVED_RANGE_START PSTRG_RESERVED_RANGE_SIZE
  rw [Bool.and_eq_true, decide_eq_true_iff, decide_eq_true_iff]
  omega

theorem isOutfitKey_iff {key : ℕ} :
    isOutfitKey key = true ↔ PSTRG_OUTFITS_RANGE_START ≤ key ∧
      key ≤ PSTRG_OUTFITS_RANGE_START + 500 := by
  unfold isOutfitKey PSTRG_OUTFITS_RANGE_SIZE
  rw [Bool.and_eq_true, decide_eq_true_iff, decide_eq_true_iff]
  omega

theorem isReserved_of_isOutfitKey {key : ℕ} (h : isOutfitKey key = true) :
    isReserved key = true := by
  rw [isOutfitKey_iff, PSTRG_OUTFITS_RANGE_START] at h
  rw [isReserved_iff]
  omega

theorem storageValue_eq {entry : OutfitEntry} (hlook : entry.lookType < 2 ^ 16)
    (haddons : entry.addons < 2 ^ 8) :
    OutfitEntry.storageValue entry =
      if entry.lookType < 2 ^ 15 then (entry.lookType * 2 ^ 16 + entry.addons : ℤ)
      else entry.lookType * 2 ^ 16 + entry.addons - 2 ^ 32 := by
  have hor : entry.lookType <<< 16 ||| entry.addons = entry.lookType * 2 ^ 16 + entry.addons := by
    rw [← Nat.shiftLeft_add_eq_or_of_lt (by omega : entry.addons < 2 ^ 16), Nat.shiftLeft_eq]
  rw [OutfitEntry.storageValue, hor, BitVec.toInt_ofNat', Int.bmod]
  split <;> split <;> omega

/-- What is written comes back. -/
theorem outfitOfValue_storageValue {entry : OutfitEntry} (hlook : entry.lookType < 2 ^ 16)
    (haddons : entry.addons < 2 ^ 8) : outfitOfValue (OutfitEntry.storageValue entry) = entry := by
  rw [storageValue_eq hlook haddons]
  obtain ⟨lookType, addons⟩ := entry
  dsimp only at hlook haddons ⊢
  simp only [outfitOfValue, OutfitEntry.mk.injEq, Int.shiftRight_eq_div_pow]
  split <;> constructor <;> omega

theorem storageValue_ne {entry : OutfitEntry} (hlook : entry.lookType < 2 ^ 16)
    (haddons : entry.addons < 2 ^ 8) : OutfitEntry.storageValue entry ≠ -1 := by
  rw [storageValue_eq hlook haddons]
  split <;> omega

end TibiaServer.IOLoginData.Player
