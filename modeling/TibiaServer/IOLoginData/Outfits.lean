import Mathlib.Data.List.Perm.Subperm
import Mathlib.Data.List.Range
import TibiaServer.IOLoginData.Storage
import TibiaServer.Library.Run
/-!
# Outfits across saves

A save writes the outfits to the keys from `PSTRG_OUTFITS_RANGE_START + 1` on and takes no
key away, so what an earlier save of the session wrote behind the last outfit is stored
again.  The rows give back the outfits exactly when none of these are left in the range of
the outfits and the outfits themselves do not reach beyond it (`always_restores_iff`).
-/

namespace TibiaServer.IOLoginData

open Library Library.Run

namespace Player

/-! ## What a load reads -/

/-- The outfits that the rows hold. -/
def loadedOutfits (rows : List (ℕ × ℤ)) : List OutfitEntry :=
  (rows.filter fun row => isOutfitKey row.1).map fun row => outfitOfValue row.2

theorem outfits_addStorageValue (p : Player) (key : ℕ) (value : ℤ) :
    (p.addStorageValue key value).outfits =
      p.outfits ++ if isOutfitKey key then [outfitOfValue value] else [] := by
  unfold addStorageValue
  by_cases hkey : isOutfitKey key = true
  · simp [hkey, isReserved_of_isOutfitKey hkey]
  · simp only [hkey]
    split
    · simp
    · split <;> simp

theorem getStorageValue_addStorageValue (p : Player) {key : ℕ} (value : ℤ) {k : ℕ}
    (hk : isReserved k = false) :
    (p.addStorageValue key value).getStorageValue k =
      if k = key then (if value = -1 then none else some value) else p.getStorageValue k := by
  unfold addStorageValue getStorageValue
  by_cases hkey : isReserved key = true
  · have hne : k ≠ key := fun heq => by simp [heq, hkey] at hk
    rw [if_pos hkey, if_neg hne]
    split <;> rfl
  · rw [if_neg hkey]
    by_cases hvalue : value = -1
    · rw [if_neg (by simp [hvalue]), if_pos hvalue]
      by_cases heq : k = key
      · rw [if_pos heq, List.lookup_eq_none_iff]
        intro row hrow
        have hleft : row.1 ≠ key := of_decide_eq_true (List.mem_filter.mp hrow).2
        exact bne_iff_ne.mpr fun h => hleft (h.symm.trans heq)
      · rw [if_neg heq]
        induction p.storageMap with
        | nil => rfl
        | cons row rest ih =>
          obtain ⟨k', v'⟩ := row
          by_cases hdrop : k' = key
          · have hk' : k ≠ k' := fun h => heq (h.trans hdrop)
            rw [List.filter_cons_of_neg (by simp [hdrop]), ih, Keyed.lookup_cons_eq_ite,
              if_neg hk']
          · rw [List.filter_cons_of_pos (by simp [hdrop]), Keyed.lookup_cons_eq_ite,
              Keyed.lookup_cons_eq_ite, ih]
    · rw [if_pos hvalue, if_neg hvalue, lookup_storageAssign]

theorem outfits_loadStorage (p : Player) (rows : List (ℕ × ℤ)) :
    (p.loadStorage rows).outfits = loadedOutfits rows := by
  have hfold : ∀ (rows : List (ℕ × ℤ)) (p : Player),
      (rows.foldl (fun p row => p.addStorageValue row.1 row.2) p).outfits =
        p.outfits ++ loadedOutfits rows := by
    intro rows
    induction rows with
    | nil => exact fun p => (List.append_nil _).symm
    | cons row rows ih =>
      intro p
      rw [List.foldl_cons, ih, outfits_addStorageValue, List.append_assoc]
      congr 1
      by_cases hkey : isOutfitKey row.1 = true <;> simp [loadedOutfits, hkey]
  rw [loadStorage, hfold]
  rfl

/-- Every ordinary key gets the value of its row. -/
theorem getStorageValue_loadStorage (p : Player) {rows : List (ℕ × ℤ)}
    (hrows : (rows.map Prod.fst).Nodup) {k : ℕ} (hk : isReserved k = false) :
    (p.loadStorage rows).getStorageValue k = (rows.lookup k).filter fun value => value ≠ -1 := by
  have hfold : ∀ (rows : List (ℕ × ℤ)) (p : Player), (rows.map Prod.fst).Nodup →
      (rows.foldl (fun p row => p.addStorageValue row.1 row.2) p).getStorageValue k =
        match rows.lookup k with
        | some value => if value = -1 then none else some value
        | none => p.getStorageValue k := by
    intro rows
    induction rows with
    | nil => exact fun p _ => rfl
    | cons row rows ih =>
      intro p hnodup
      obtain ⟨key, value⟩ := row
      rw [List.map_cons] at hnodup
      obtain ⟨hnew, hnodup⟩ := List.nodup_cons.mp hnodup
      rw [List.foldl_cons, ih _ hnodup, Keyed.lookup_cons_eq_ite,
        getStorageValue_addStorageValue _ _ hk]
      by_cases heq : k = key
      · have hnone : rows.lookup k = none := by
          rw [List.lookup_eq_none_iff]
          intro row hrow
          refine bne_iff_ne.mpr fun h => hnew ?_
          rw [← heq, h]
          exact List.mem_map.mpr ⟨row, hrow, rfl⟩
        rw [hnone, if_pos heq, if_pos heq]
      · rw [if_neg heq, if_neg heq]
  rw [loadStorage, hfold rows _ hrows]
  cases rows.lookup k with
  | none => rfl
  | some value =>
    rw [Option.filter_some]
    by_cases hvalue : value = -1 <;> simp [hvalue]

/-! ## What a save writes -/

section Write

variable (outfits : List OutfitEntry)

/-- The loop of `genReservedStorageRange` from any key on. -/
def writeOutfits (map : List (ℕ × ℤ)) (base_key : ℕ) : List (ℕ × ℤ) :=
  (outfits.foldl (fun (map, base_key) entry =>
    (storageAssign (base_key + 1) (OutfitEntry.storageValue entry) map, base_key + 1))
    (map, base_key)).1

theorem lookup_writeOutfits (map : List (ℕ × ℤ)) (base_key k : ℕ) :
    (writeOutfits outfits map base_key).lookup k =
      if base_key < k ∧ k ≤ base_key + outfits.length then
        (outfits[k - base_key - 1]?).map OutfitEntry.storageValue
      else map.lookup k := by
  induction outfits generalizing map base_key with
  | nil =>
    rw [List.length_nil, if_neg (by omega)]
    rfl
  | cons entry outfits ih =>
    have hcons : writeOutfits (entry :: outfits) map base_key = writeOutfits outfits
        (storageAssign (base_key + 1) (OutfitEntry.storageValue entry) map)
        (base_key + 1) := rfl
    rw [hcons, ih, lookup_storageAssign, List.length_cons]
    by_cases hfirst : k = base_key + 1
    · rw [if_neg (by omega), if_pos hfirst, if_pos (by omega), hfirst,
        show base_key + 1 - base_key - 1 = 0 by omega]
      rfl
    · rw [if_neg hfirst]
      by_cases hrange : base_key + 1 < k ∧ k ≤ base_key + 1 + outfits.length
      · rw [if_pos hrange, if_pos (by omega),
          show k - base_key - 1 = k - (base_key + 1) - 1 + 1 by omega]
        rfl
      · rw [if_neg hrange, if_neg (by omega)]

theorem sorted_writeOutfits {map : List (ℕ × ℤ)} (h : (map.map Prod.fst).Pairwise (· < ·))
    (base_key : ℕ) : ((writeOutfits outfits map base_key).map Prod.fst).Pairwise (· < ·) := by
  induction outfits generalizing map base_key with
  | nil => exact h
  | cons entry outfits ih => exact ih (sorted_storageAssign h) (base_key + 1)

theorem keys_writeOutfits (map : List (ℕ × ℤ)) (base_key k : ℕ) :
    k ∈ (writeOutfits outfits map base_key).map Prod.fst ↔
      (base_key < k ∧ k ≤ base_key + outfits.length) ∨ k ∈ map.map Prod.fst := by
  induction outfits generalizing map base_key with
  | nil =>
    refine (or_iff_right ?_).symm
    rw [List.length_nil]
    omega
  | cons entry outfits ih =>
    have hkeys := ih (storageAssign (base_key + 1) (OutfitEntry.storageValue entry) map)
      (base_key + 1)
    rw [keys_storageAssign] at hkeys
    refine hkeys.trans ?_
    rw [← or_assoc, List.length_cons]
    refine or_congr_left ?_
    omega

end Write

/-! ## One save -/

/-- The rows of a save of `p`, in whatever order they are read, give his outfits back, and
every ordinary key has the value that it had before the save. -/
structure Restores (p : Player) : Prop where
  outfits : ∀ rows, rows.Perm p.genReservedStorageRange.storageMap →
    (p.loadStorage rows).outfits.Perm p.outfits
  storage : ∀ rows, rows.Perm p.genReservedStorageRange.storageMap → ∀ key,
    isReserved key = false → (p.loadStorage rows).getStorageValue key = p.getStorageValue key

/-- What holds of a player whose outfits were saved with the lengths in `saves` since he was
loaded. -/
structure Kept (p : Player) (saves : List ℕ) : Prop where
  sorted : (p.storageMap.map Prod.fst).Pairwise (· < ·)
  valid : ∀ row ∈ p.storageMap, row.2 ≠ -1
  written : ∀ key, isReserved key = true → (key ∈ p.storageMap.map Prod.fst ↔
    ∃ n ∈ saves, PSTRG_OUTFITS_RANGE_START < key ∧ key ≤ PSTRG_OUTFITS_RANGE_START + n)
  bounded : ∀ entry ∈ p.outfits, entry.lookType < 2 ^ 16 ∧ entry.addons < 2 ^ 8

theorem storageMap_gen (p : Player) : p.genReservedStorageRange.storageMap =
    writeOutfits p.outfits p.storageMap PSTRG_OUTFITS_RANGE_START := rfl

/-- The keys that a save leaves in the range of the outfits. -/
theorem Kept.outfitKeys {p : Player} {saves : List ℕ} (h : p.Kept saves) (key : ℕ) :
    key ∈ (p.genReservedStorageRange.storageMap.filter fun row => isOutfitKey row.1).map Prod.fst ↔
      ∃ n ∈ p.outfits.length :: saves, PSTRG_OUTFITS_RANGE_START < key ∧
        key ≤ PSTRG_OUTFITS_RANGE_START + min n 500 := by
  have hfilter : key ∈ (p.genReservedStorageRange.storageMap.filter
      fun row => isOutfitKey row.1).map Prod.fst ↔
        isOutfitKey key = true ∧ key ∈ p.genReservedStorageRange.storageMap.map Prod.fst := by
    simp only [List.mem_map, List.mem_filter]
    constructor
    · rintro ⟨row, ⟨hmem, hkey⟩, rfl⟩
      exact ⟨hkey, row, hmem, rfl⟩
    · rintro ⟨hkey, row, hmem, rfl⟩
      exact ⟨row, ⟨hmem, hkey⟩, rfl⟩
  rw [hfilter, storageMap_gen, keys_writeOutfits]
  constructor
  · rintro ⟨hkey, hrange | hmem⟩
    · rw [isOutfitKey_iff] at hkey
      exact ⟨_, List.mem_cons_self, hrange.1, by omega⟩
    · obtain ⟨n, hn, hlt, hle⟩ := (h.written key (isReserved_of_isOutfitKey hkey)).mp hmem
      rw [isOutfitKey_iff] at hkey
      exact ⟨n, List.mem_cons_of_mem _ hn, hlt, by omega⟩
  · rintro ⟨n, hn, hlt, hle⟩
    have hkey : isOutfitKey key = true := isOutfitKey_iff.mpr (by omega)
    refine ⟨hkey, ?_⟩
    rcases List.mem_cons.mp hn with rfl | hn
    · exact .inl (by omega)
    · exact .inr ((h.written key (isReserved_of_isOutfitKey hkey)).mpr ⟨n, hn, hlt, by omega⟩)

section OneSave

variable {p : Player} {saves : List ℕ}

theorem Kept.nodup (h : p.Kept saves) :
    (p.genReservedStorageRange.storageMap.map Prod.fst).Nodup :=
  (sorted_writeOutfits p.outfits h.sorted _).imp Nat.ne_of_lt

/-- With all of the outfits in the range and nothing behind them, the rows in the range are
the outfits. -/
theorem Kept.perm_loadedOutfits (h : p.Kept saves) (hlength : p.outfits.length ≤ 500)
    (hsaves : ∀ n ∈ saves, min n 500 ≤ p.outfits.length) :
    (loadedOutfits p.genReservedStorageRange.storageMap).Perm p.outfits := by
  let base := PSTRG_OUTFITS_RANGE_START
  let written : List (ℕ × ℤ) := p.outfits.mapIdx fun i entry =>
    (base + 1 + i, OutfitEntry.storageValue entry)
  have hdecode : written.map (fun row => outfitOfValue row.2) = p.outfits := by
    refine List.ext_getElem (by simp [written]) fun i h₁ h₂ => ?_
    obtain ⟨hlook, haddons⟩ := h.bounded _ (List.getElem_mem h₂)
    simp [written, outfitOfValue_storageValue hlook haddons]
  have hnodup := h.nodup
  have hperm : (p.genReservedStorageRange.storageMap.filter fun row => isOutfitKey row.1).Perm
      written := by
    refine (List.perm_ext_iff_of_nodup ?_ ?_).mpr ?_
    · exact (hnodup.of_map Prod.fst).filter _
    · refine List.Nodup.of_map Prod.fst ?_
      rw [List.nodup_iff_injective_get]
      intro i j hij
      simpa [written, Fin.ext_iff] using hij
    · rintro ⟨key, value⟩
      have hkeys := h.outfitKeys key
      rw [List.mem_filter, ← Keyed.lookup_eq_some_iff_mem hnodup, storageMap_gen,
        lookup_writeOutfits, List.mem_mapIdx]
      constructor
      · rintro ⟨hlookup, hkey⟩
        have hmem : (key, value) ∈ p.genReservedStorageRange.storageMap.filter
            fun row => isOutfitKey row.1 := by
          rw [List.mem_filter, ← Keyed.lookup_eq_some_iff_mem hnodup, storageMap_gen,
            lookup_writeOutfits]
          exact ⟨hlookup, hkey⟩
        obtain ⟨n, hn, hlt, hle⟩ := hkeys.mp (List.mem_map_of_mem hmem)
        have hn' : min n 500 ≤ p.outfits.length := by
          rcases List.mem_cons.mp hn with rfl | hn
          · exact Nat.min_le_left _ _
          · exact hsaves n hn
        rw [if_pos (by omega), Option.map_eq_some_iff] at hlookup
        obtain ⟨entry, hentry, rfl⟩ := hlookup
        obtain ⟨hi, rfl⟩ := List.getElem?_eq_some_iff.mp hentry
        refine ⟨_, hi, ?_⟩
        rw [show base + 1 + (key - PSTRG_OUTFITS_RANGE_START - 1) = key by omega]
      · rintro ⟨i, hi, heq⟩
        obtain ⟨rfl, rfl⟩ := Prod.mk.inj heq
        refine ⟨?_, isOutfitKey_iff.mpr (by omega)⟩
        rw [if_pos (by omega),
          show base + 1 + i - PSTRG_OUTFITS_RANGE_START - 1 = i by omega,
          List.getElem?_eq_getElem hi]
        rfl
  have hloaded := hperm.map fun row : ℕ × ℤ => outfitOfValue row.2
  rw [hdecode] at hloaded
  exact hloaded

theorem Kept.restores (h : p.Kept saves) (hlength : p.outfits.length ≤ 500)
    (hsaves : ∀ n ∈ saves, min n 500 ≤ p.outfits.length) : p.Restores where
  outfits rows hrows := by
    rw [outfits_loadStorage]
    exact ((hrows.filter _).map _).trans (h.perm_loadedOutfits hlength hsaves)
  storage rows hrows key hkey := by
    have hnodup : (rows.map Prod.fst).Nodup := (hrows.map Prod.fst).nodup_iff.mpr h.nodup
    have hbehind : ¬(PSTRG_OUTFITS_RANGE_START < key ∧
        key ≤ PSTRG_OUTFITS_RANGE_START + p.outfits.length) := by
      intro hrange
      have hout : isOutfitKey key = true := isOutfitKey_iff.mpr (by omega)
      rw [isReserved_of_isOutfitKey hout] at hkey
      cases hkey
    rw [getStorageValue_loadStorage p hnodup hkey, Keyed.lookup_perm hrows hnodup,
      storageMap_gen, lookup_writeOutfits, if_neg hbehind, getStorageValue]
    cases hlookup : p.storageMap.lookup key with
    | none => rfl
    | some value =>
      have hmem := (Keyed.lookup_eq_some_iff_mem (h.sorted.imp Nat.ne_of_lt)).mp hlookup
      rw [Option.filter_some, if_pos (by simpa using h.valid _ hmem)]

/-- As many outfits come back as there are keys in the range. -/
theorem Kept.of_restores (h : p.Kept saves) (hrestores : p.Restores) :
    p.outfits.length ≤ 500 ∧ ∀ n ∈ saves, min n 500 ≤ p.outfits.length := by
  let keys := (p.genReservedStorageRange.storageMap.filter fun row => isOutfitKey row.1).map
    Prod.fst
  have hlength : keys.length = p.outfits.length := by
    have hperm := hrestores.outfits _ (List.Perm.refl _)
    rw [outfits_loadStorage] at hperm
    rw [← hperm.length_eq]
    simp [keys, loadedOutfits]
  have hnodup : keys.Nodup := h.nodup.sublist (List.filter_sublist.map _)
  constructor
  · have hsub : keys ⊆ List.range' (PSTRG_OUTFITS_RANGE_START + 1) 500 := by
      intro key hkey
      obtain ⟨n, hn, hlt, hle⟩ := (h.outfitKeys key).mp hkey
      exact List.mem_range'_1.mpr (by omega)
    have hle := (List.subperm_of_subset hnodup hsub).length_le
    rw [List.length_range', hlength] at hle
    exact hle
  · intro n hn
    have hsub : List.range' (PSTRG_OUTFITS_RANGE_START + 1) (min n 500) ⊆ keys := by
      intro key hkey
      have hrange := List.mem_range'_1.mp hkey
      exact (h.outfitKeys key).mpr ⟨n, List.mem_cons_of_mem _ hn, by omega, by omega⟩
    have hle := (List.subperm_of_subset List.nodup_range' hsub).length_le
    rw [List.length_range', hlength] at hle
    exact hle

theorem Kept.restores_iff (h : p.Kept saves) :
    p.Restores ↔ p.outfits.length ≤ 500 ∧ ∀ n ∈ saves, min n 500 ≤ p.outfits.length :=
  ⟨h.of_restores, fun hlengths => h.restores hlengths.1 hlengths.2⟩

end OneSave

end Player

/-! ## Sessions -/

/-- A player between logins and saves: `saves` has the number of outfits at each save since
he was loaded, and `lastSave` the player as the last save found him. -/
structure Session where
  player : Player
  saves : List ℕ := []
  lastSave : Option Player := none

namespace Session

/-- `load` makes a new player object of any rows, `setStorageValue` is the call that scripts
have. -/
inductive Action
  | load (rows : List (ℕ × ℤ))
  | setStorageValue (key : ℕ) (value : ℤ)
  | addOutfit (lookType : BitVec 16) (addons : BitVec 8)
  | removeOutfit (lookType : BitVec 16)
  | removeOutfitAddon (lookType : BitVec 16) (addons : BitVec 8)
  | save
  deriving DecidableEq

def step (s : Session) : Action → Option Session
  | .load rows => some { s with player := s.player.loadStorage rows, saves := [] }
  | .setStorageValue key value =>
    if Player.isReserved key then some s
    else some { s with player := s.player.addStorageValue key value }
  | .addOutfit lookType addons => some { s with player := s.player.addOutfit lookType addons }
  | .removeOutfit lookType => some { s with player := (s.player.removeOutfit lookType).2 }
  | .removeOutfitAddon lookType addons =>
    some { s with player := (s.player.removeOutfitAddon lookType addons).2 }
  | .save =>
    some { s with
      player := s.player.genReservedStorageRange
      saves := s.player.outfits.length :: s.saves
      lastSave := some s.player }

/-- A new player object. -/
def start (p : Player) : Session where
  player := p.loadStorage []

def LastSaveRestores (s : Session) : Prop :=
  ∀ p, s.lastSave = some p → p.Restores

/-- A save finds all of the outfits in their range, and no fewer than an earlier save of the
session has written there. -/
def Guarded (s : Session) (a : Action) : Prop :=
  a = .save → s.player.outfits.length ≤ Player.PSTRG_OUTFITS_RANGE_SIZE ∧
    ∀ n ∈ s.saves, min n Player.PSTRG_OUTFITS_RANGE_SIZE ≤ s.player.outfits.length

open Player

section Steps

variable {p : Player} {saves : List ℕ}

theorem kept_outfits (h : p.Kept saves) {outfits : List OutfitEntry}
    (hbounded : ∀ entry ∈ outfits, entry.lookType < 2 ^ 16 ∧ entry.addons < 2 ^ 8) :
    ({ p with outfits := outfits } : Player).Kept saves :=
  ⟨h.sorted, h.valid, h.written, hbounded⟩

theorem kept_addStorageValue (h : p.Kept saves) (key : ℕ) (value : ℤ) :
    (p.addStorageValue key value).Kept saves := by
  unfold addStorageValue
  split
  next =>
    split
    · refine kept_outfits h fun entry hmem => ?_
      rcases List.mem_append.mp hmem with hmem | hmem
      · exact h.bounded entry hmem
      · rw [List.mem_singleton.mp hmem]
        unfold outfitOfValue
        dsimp only
        constructor <;> omega
    · exact h
  next hkey =>
    split
    next hvalue =>
      refine ⟨sorted_storageAssign h.sorted, fun row hmem => ?_, fun k hk => ?_, h.bounded⟩
      · have hnodup := (@sorted_storageAssign key value _ h.sorted).imp
          Nat.ne_of_lt
        have hlookup := (Keyed.lookup_eq_some_iff_mem hnodup).mpr hmem
        rw [lookup_storageAssign] at hlookup
        split at hlookup
        · rw [← Option.some.inj hlookup]
          exact hvalue
        · exact h.valid row
            ((Keyed.lookup_eq_some_iff_mem (h.sorted.imp Nat.ne_of_lt)).mp hlookup)
      · rw [keys_storageAssign, h.written k hk, or_iff_right]
        intro heq
        exact hkey (heq ▸ hk)
    next =>
      have hsub : (p.storageMap.filter fun row => row.1 ≠ key).Sublist p.storageMap :=
        List.filter_sublist
      refine ⟨h.sorted.sublist (hsub.map _), fun row hmem => h.valid row (hsub.subset hmem),
        fun k hk => ?_, h.bounded⟩
      rw [← h.written k hk]
      simp only [List.mem_map, List.mem_filter]
      constructor
      · rintro ⟨row, ⟨hmem, -⟩, rfl⟩
        exact ⟨row, hmem, rfl⟩
      · rintro ⟨row, hmem, rfl⟩
        refine ⟨row, ⟨hmem, decide_eq_true fun heq => hkey ?_⟩, rfl⟩
        rw [← heq]
        exact hk

theorem kept_loadStorage (p : Player) (rows : List (ℕ × ℤ)) : (p.loadStorage rows).Kept [] := by
  have hfold : ∀ (rows : List (ℕ × ℤ)) (p : Player), p.Kept [] →
      (rows.foldl (fun p row => p.addStorageValue row.1 row.2) p).Kept [] := by
    intro rows
    induction rows with
    | nil => exact fun p h => h
    | cons row rows ih => exact fun p h => ih _ (kept_addStorageValue h row.1 row.2)
  refine hfold rows _ ⟨List.Pairwise.nil, ?_, ?_, ?_⟩ <;> simp

theorem kept_modify (h : p.Kept saves) (i : ℕ) {f : OutfitEntry → OutfitEntry}
    (hf : ∀ entry : OutfitEntry, entry.lookType < 2 ^ 16 → entry.addons < 2 ^ 8 →
      (f entry).lookType < 2 ^ 16 ∧ (f entry).addons < 2 ^ 8) :
    ({ p with outfits := p.outfits.modify i f } : Player).Kept saves := by
  refine kept_outfits h fun entry hmem => ?_
  obtain ⟨j, hj, rfl⟩ := List.mem_iff_getElem.mp hmem
  rw [List.length_modify] at hj
  obtain ⟨hlook, haddons⟩ := h.bounded _ (List.getElem_mem hj)
  rw [List.getElem_modify]
  split
  · exact hf _ hlook haddons
  · exact ⟨hlook, haddons⟩

theorem kept_addOutfit (h : p.Kept saves) (lookType : BitVec 16) (addons : BitVec 8) :
    (p.addOutfit lookType addons).Kept saves := by
  unfold addOutfit
  split
  · refine kept_modify h _ fun entry hlook haddons => ⟨hlook, ?_⟩
    exact Nat.or_lt_two_pow haddons addons.isLt
  · refine kept_outfits h fun entry hmem => ?_
    rcases List.mem_append.mp hmem with hmem | hmem
    · exact h.bounded entry hmem
    · rw [List.mem_singleton.mp hmem]
      exact ⟨lookType.isLt, addons.isLt⟩

theorem kept_removeOutfit (h : p.Kept saves) (lookType : BitVec 16) :
    (p.removeOutfit lookType).2.Kept saves := by
  unfold removeOutfit
  split
  · exact kept_outfits h fun entry hmem => h.bounded entry (List.mem_of_mem_eraseIdx hmem)
  · exact h

theorem kept_removeOutfitAddon (h : p.Kept saves) (lookType : BitVec 16) (addons : BitVec 8) :
    (p.removeOutfitAddon lookType addons).2.Kept saves := by
  unfold removeOutfitAddon
  split
  · refine kept_modify h _ fun entry hlook haddons => ⟨hlook, ?_⟩
    exact Nat.and_le_left.trans_lt haddons
  · exact h

theorem kept_gen (h : p.Kept saves) :
    p.genReservedStorageRange.Kept (p.outfits.length :: saves) where
  sorted := sorted_writeOutfits p.outfits h.sorted _
  valid row hmem := by
    have hlookup := (Keyed.lookup_eq_some_iff_mem h.nodup).mpr hmem
    rw [storageMap_gen, lookup_writeOutfits] at hlookup
    split at hlookup
    · obtain ⟨entry, hentry, heq⟩ := Option.map_eq_some_iff.mp hlookup
      obtain ⟨hlook, haddons⟩ := h.bounded entry (List.mem_of_getElem? hentry)
      rw [← heq]
      exact storageValue_ne hlook haddons
    · exact h.valid row ((Keyed.lookup_eq_some_iff_mem (h.sorted.imp Nat.ne_of_lt)).mp hlookup)
  written key hkey := by
    rw [storageMap_gen, keys_writeOutfits, h.written key hkey, List.exists_mem_cons_iff]
  bounded := h.bounded

end Steps

theorem kept_step (s : Session) (a : Action) (t : Session) (h : s.player.Kept s.saves)
    (hstep : s.step a = some t) : t.player.Kept t.saves := by
  cases a with
  | load rows =>
    obtain rfl := Option.some.inj hstep
    exact kept_loadStorage s.player rows
  | setStorageValue key value =>
    simp only [step] at hstep
    split at hstep
    · exact Option.some.inj hstep ▸ h
    · obtain rfl := Option.some.inj hstep
      exact kept_addStorageValue h key value
  | addOutfit lookType addons =>
    obtain rfl := Option.some.inj hstep
    exact kept_addOutfit h lookType addons
  | removeOutfit lookType =>
    obtain rfl := Option.some.inj hstep
    exact kept_removeOutfit h lookType
  | removeOutfitAddon lookType addons =>
    obtain rfl := Option.some.inj hstep
    exact kept_removeOutfitAddon h lookType addons
  | save =>
    obtain rfl := Option.some.inj hstep
    exact kept_gen h

theorem lastSave_step {s t : Session} {a : Action} (hstep : s.step a = some t) :
    t.lastSave = if a = .save then some s.player else s.lastSave := by
  cases a with
  | setStorageValue key value =>
    simp only [step] at hstep
    split at hstep <;> obtain rfl := Option.some.inj hstep <;> rfl
  | _ =>
    obtain rfl := Option.some.inj hstep
    rfl

theorem restores_step (s : Session) (a : Action) (t : Session) (h : s.player.Kept s.saves)
    (hlast : s.LastSaveRestores) (hstep : s.step a = some t) :
    t.LastSaveRestores ↔ s.Guarded a := by
  unfold LastSaveRestores Guarded
  rw [lastSave_step hstep]
  by_cases hsave : a = .save
  · rw [if_pos hsave]
    have hiff := h.restores_iff
    constructor
    · exact fun ht _ => hiff.mp (ht _ rfl)
    · intro hguard p hp
      rw [← Option.some.inj hp]
      exact hiff.mpr (hguard hsave)
  · rw [if_neg hsave]
    exact iff_of_true hlast fun h => absurd h hsave

/-- In every history of a player the rows of every save give back the outfits and leave the
ordinary keys alone exactly when every save finds at most as many outfits as the range has
keys, and no fewer than an earlier save of the session has written into it. -/
theorem always_restores_iff (p : Player) (as : List Action) :
    Always step LastSaveRestores (start p) as ↔ EachStep step Guarded (start p) as :=
  always_iff_eachStep kept_step restores_step as (start p) (kept_loadStorage p [])
    (fun _ h => nomatch h)

/-- An outfit that is taken away after a save is there again after the next save and load. -/
theorem removed_outfit_comes_back : ¬∀ (p : Player) (as : List Action),
    Always step LastSaveRestores (start p) as := by
  intro h
  have hlast := (h { groupId := 1, vocationId := 1, townId := 1, isOffline := false }
    [.addOutfit 128 0, .addOutfit 129 3, .save, .removeOutfit 129, .save]).last rfl
  have hlength := ((hlast _ rfl).outfits _ (List.Perm.refl _)).length_eq
  revert hlength
  decide

end Session

end TibiaServer.IOLoginData
