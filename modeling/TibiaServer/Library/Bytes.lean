import Mathlib.Data.List.Basic
import Mathlib.Data.List.GetD
import Mathlib.Data.Nat.ModEq
/-!
# Bytes

Lists over an alphabet with an escape letter, numbers as lists of bytes, and memories of cells.

## Escapes

A letter that is special stands in a text only with the escape letter before it.
`unescape` drops those escape letters in one pass that remembers the last letter,
and `Clean` holds of the texts without a special letter of its own.
-/

namespace TibiaServer.Library.Escape

variable {α : Type*} [DecidableEq α] (esc : α) (special : α → Bool)

def escape : List α → List α
  | [] => []
  | a :: rest => if special a then esc :: a :: escape rest else a :: escape rest

/-- The pass has read an escape letter just before when `lastEscaped` holds. -/
def unescape (lastEscaped : Bool) : List α → List α
  | [] => []
  | a :: rest =>
    if a = esc ∧ lastEscaped = false then unescape true rest else a :: unescape false rest

/-- Every special letter has an escape letter before it, and no escape letter is last. -/
def Clean : List α → Prop
  | [] => True
  | a :: rest =>
    if a = esc then
      match rest with
      | [] => False
      | _ :: rest => Clean rest
    else special a = false ∧ Clean rest

variable {esc special}

theorem clean_cons_plain {a : α} (ha : a ≠ esc) (hplain : special a = false) (xs : List α) :
    Clean esc special (a :: xs) ↔ Clean esc special xs := by
  conv_lhs => unfold Clean
  rw [if_neg ha]
  simp [hplain]

theorem clean_cons_escaped (a : α) (xs : List α) :
    Clean esc special (esc :: a :: xs) ↔ Clean esc special xs := by
  conv_lhs => unfold Clean
  rw [if_pos rfl]

/-- The parts of a text are cut where no escape letter is last. -/
theorem Clean.append {xs ys : List α} (hxs : Clean esc special xs) (hys : Clean esc special ys) :
    Clean esc special (xs ++ ys) := by
  induction xs using Clean.induct esc with
  | case1 => exact hys
  | case2 => simp [Clean] at hxs
  | case3 a rest ih =>
    rw [clean_cons_escaped] at hxs
    exact (clean_cons_escaped a _).mpr (ih hxs)
  | case4 a rest ha ih =>
    unfold Clean at hxs
    rw [if_neg ha] at hxs
    exact (clean_cons_plain ha hxs.1 _).mpr (ih hxs.2)

theorem clean_escape (hesc : special esc = true) (xs : List α) :
    Clean esc special (escape esc special xs) := by
  induction xs with
  | nil => exact trivial
  | cons a rest ih =>
    unfold escape
    split
    next => exact (clean_cons_escaped a _).mpr ih
    next hplain =>
      have ha : a ≠ esc := fun heq => hplain (heq ▸ hesc)
      exact (clean_cons_plain ha (by simpa using hplain) _).mpr ih

theorem unescape_escape (hesc : special esc = true) (xs : List α) :
    unescape esc false (escape esc special xs) = xs := by
  induction xs with
  | nil => rfl
  | cons a rest ih =>
    unfold escape
    split
    next => simp [unescape, ih]
    next hplain =>
      have ha : a ≠ esc := fun heq => hplain (heq ▸ hesc)
      simp [unescape, ha, ih]

end TibiaServer.Library.Escape

/-!
## Little-endian numbers and byte memory

A number of `w` bytes is written with the lowest byte first.  A memory is a function from
addresses, into which lists of cells are stored and from which they are loaded.
-/

namespace TibiaServer.Library.Bytes

/-! ## Numbers -/

def toBytes : ℕ → ℕ → List UInt8
  | 0, _ => []
  | w + 1, n => UInt8.ofNat n :: toBytes w (n / 256)

def ofBytes : List UInt8 → ℕ
  | [] => 0
  | b :: bs => b.toNat + 256 * ofBytes bs

@[simp] theorem length_toBytes (w n : ℕ) : (toBytes w n).length = w := by
  induction w generalizing n with
  | zero => rfl
  | succ w ih => rw [toBytes, List.length_cons, ih]

theorem ofBytes_toBytes (w n : ℕ) : ofBytes (toBytes w n) = n % 256 ^ w := by
  induction w generalizing n with
  | zero => rw [Nat.pow_zero, Nat.mod_one, toBytes, ofBytes]
  | succ w ih =>
    calc ofBytes (toBytes (w + 1) n)
        = n % 256 + 256 * (n / 256 % 256 ^ w) := by
          rw [toBytes, ofBytes, ih, UInt8.toNat_ofNat']
      _ = n % (256 * 256 ^ w) := (Nat.mod_mul).symm
      _ = n % 256 ^ (w + 1) := by rw [Nat.pow_succ, Nat.mul_comm]

theorem ofBytes_toBytes_of_lt {w n : ℕ} (h : n < 256 ^ w) : ofBytes (toBytes w n) = n := by
  rw [ofBytes_toBytes, Nat.mod_eq_of_lt h]

theorem ofBytes_lt (bs : List UInt8) : ofBytes bs < 256 ^ bs.length := by
  induction bs with
  | nil => exact Nat.one_pos
  | cons b bs ih =>
    have hb := b.toNat_lt
    rw [ofBytes, List.length_cons, Nat.pow_succ]
    omega

theorem toBytes_ofBytes (bs : List UInt8) : toBytes bs.length (ofBytes bs) = bs := by
  induction bs with
  | nil => rfl
  | cons b bs ih =>
    have hb := b.toNat_lt
    have hrest : (b.toNat + 256 * ofBytes bs) / 256 = ofBytes bs := by omega
    have hfirst : UInt8.ofNat (b.toNat + 256 * ofBytes bs) = b := by
      apply UInt8.toNat_inj.mp
      rw [UInt8.toNat_ofNat']
      omega
    rw [ofBytes, List.length_cons, toBytes, hrest, hfirst, ih]

theorem ofBytes_inj {bs bs' : List UInt8} (hlength : bs.length = bs'.length)
    (h : ofBytes bs = ofBytes bs') : bs = bs' := by
  rw [← toBytes_ofBytes bs, h, hlength, toBytes_ofBytes]

/-! ## Memory -/

section Memory

variable {β : Type*} {m m' : ℕ → β} {bs : List β} {pos n i : ℕ}

def store (m : ℕ → β) (pos : ℕ) (bs : List β) : ℕ → β :=
  fun i => if pos ≤ i then bs.getD (i - pos) (m i) else m i

def load (m : ℕ → β) (pos n : ℕ) : List β := (List.range n).map fun i => m (pos + i)

@[simp] theorem length_load (m : ℕ → β) (pos n : ℕ) : (load m pos n).length = n := by
  simp [load]

theorem store_of_lt (h : i < pos) : store m pos bs i = m i :=
  if_neg (by omega)

theorem store_of_le (h : pos + bs.length ≤ i) : store m pos bs i = m i := by
  unfold store
  split
  · exact List.getD_eq_default _ _ (by omega)
  · rfl

theorem store_of_mem (hpos : pos ≤ i) (hi : i - pos < bs.length) :
    store m pos bs i = bs[i - pos] := by
  rw [store, if_pos hpos, List.getD_eq_getElem _ _ hi]

/-- The cells from `pos` on are those of the other memory. -/
def Agree (pos n : ℕ) (m m' : ℕ → β) : Prop := ∀ i, pos ≤ i → i < pos + n → m i = m' i

theorem Agree.mono {pos' n' : ℕ} (h : Agree pos n m m') (hpos : pos ≤ pos')
    (hn : pos' + n' ≤ pos + n) : Agree pos' n' m m' :=
  fun i hi hlt => h i (by omega) (by omega)

theorem load_eq_iff : load m pos n = load m' pos n ↔ Agree pos n m m' := by
  constructor
  · intro h i hpos hi
    have hget : (load m pos n)[i - pos]? = (load m' pos n)[i - pos]? := by rw [h]
    have hlt : i - pos < n := by omega
    have haddr : pos + (i - pos) = i := by omega
    simpa [load, hlt, haddr] using hget
  · intro h
    apply List.map_congr_left
    intro i hi
    exact h (pos + i) (by omega) (by have := List.mem_range.mp hi; omega)

theorem Agree.load (h : Agree pos n m m') : load m pos n = load m' pos n :=
  load_eq_iff.mpr h

theorem load_store_self (m : ℕ → β) (pos : ℕ) (bs : List β) :
    load (store m pos bs) pos bs.length = bs := by
  apply List.ext_getElem
  · rw [length_load]
  · intro i hi hbs
    have haddr : pos + i - pos = i := by omega
    simp only [Bytes.load, List.getElem_map, List.getElem_range]
    rw [store_of_mem (by omega) (by omega)]
    simp only [haddr]

theorem load_add (m : ℕ → β) (pos a b : ℕ) :
    load m pos (a + b) = load m pos a ++ load m (pos + a) b := by
  unfold load
  rw [List.range_add, List.map_append, List.map_map]
  simp only [Function.comp_def, Nat.add_assoc]

/-- Storing leaves what lies before it and behind it. -/
theorem agree_store_of_disjoint {pos' : ℕ} (h : pos' + n ≤ pos ∨ pos + bs.length ≤ pos') :
    Agree pos' n (store m pos bs) m := by
  intro i hpos hi
  rcases h with h | h
  · exact store_of_lt (by omega)
  · exact store_of_le (by omega)

/-- What is stored goes in front of what comes behind it. -/
theorem load_store_append (m : ℕ → β) (pos : ℕ) (bs : List β) (n : ℕ) :
    load (store m pos bs) pos (bs.length + n) = bs ++ load m (pos + bs.length) n := by
  have hbehind : load (store m pos bs) (pos + bs.length) n = load m (pos + bs.length) n :=
    (agree_store_of_disjoint (.inr (Nat.le_refl _))).load
  rw [load_add, load_store_self, hbehind]

/-- A store right behind another one. -/
theorem store_store_append (m : ℕ → β) (pos : ℕ) (as bs : List β) :
    store (store m pos as) (pos + as.length) bs = store m pos (as ++ bs) := by
  funext i
  by_cases hfirst : i < pos + as.length
  · rw [store_of_lt hfirst]
    by_cases hpos : i < pos
    · rw [store_of_lt hpos, store_of_lt hpos]
    · rw [store_of_mem (by omega) (by omega),
        store_of_mem (by omega) (by rw [List.length_append]; omega), List.getElem_append_left]
  · by_cases hlast : i < pos + as.length + bs.length
    · rw [store_of_mem (by omega) (by omega),
        store_of_mem (by omega) (by rw [List.length_append]; omega),
        List.getElem_append_right (by omega)]
      simp only [Nat.sub_add_eq]
    · rw [store_of_le (by omega), store_of_le (by omega),
        store_of_le (by rw [List.length_append]; omega)]

/-! ### Two memories in one -/

/-- The first memory below `stop`, the second from there on. -/
def overlay (stop : ℕ) (m rest : ℕ → β) : ℕ → β := fun i => if i < stop then m i else rest i

theorem overlay_of_le {stop : ℕ} (m rest : ℕ → β) (h : stop ≤ i) : overlay stop m rest i = rest i :=
  if_neg (by omega)

theorem agree_overlay {stop : ℕ} (m rest : ℕ → β) (h : pos + n ≤ stop) :
    Agree pos n (overlay stop m rest) m :=
  fun i _ hi => if_pos (by omega)

/-- What was in the first cells does not matter once they are overwritten. -/
theorem overlay_store (m m' : ℕ → β) (bs : List β) :
    overlay bs.length (store m 0 bs) m' = store m' 0 bs := by
  funext i
  by_cases hi : i < bs.length
  · rw [overlay, if_pos hi, store_of_mem (Nat.zero_le i) hi, store_of_mem (Nat.zero_le i) hi]
  · rw [overlay, if_neg hi, store_of_le (by omega)]

theorem store_overlay {stop : ℕ} (m rest : ℕ → β) (h : pos + bs.length ≤ stop) :
    store (overlay stop m rest) pos bs = overlay stop (store m pos bs) rest := by
  funext i
  by_cases hi : i < stop
  · simp only [store, overlay, if_pos hi]
  · rw [store_of_le (by omega)]
    simp only [overlay, if_neg hi]

end Memory

/-! ## Blocks -/

section Blocks

variable {β : Type*} {f g : List β → List β} {w start n : ℕ} {m m' : ℕ → β}

/-- `n` blocks of `w` cells each are rewritten where they stand. -/
def mapBlocks (f : List β → List β) (w start n : ℕ) (m : ℕ → β) : ℕ → β :=
  (List.range n).foldl (fun m k => store m (start + w * k) (f (load m (start + w * k) w))) m

theorem mapBlocks_succ (f : List β → List β) (w start n : ℕ) (m : ℕ → β) :
    mapBlocks f w start (n + 1) m =
      store (mapBlocks f w start n m) (start + w * n)
        (f (load (mapBlocks f w start n m) (start + w * n) w)) := by
  rw [mapBlocks, List.range_succ, List.foldl_append, List.foldl_cons, List.foldl_nil]
  rfl

theorem mapBlocks_outside (hf : ∀ bs, bs.length = w → (f bs).length = w) (m : ℕ → β) {i : ℕ}
    (hi : i < start ∨ start + w * n ≤ i) : mapBlocks f w start n m i = m i := by
  induction n with
  | zero => rfl
  | succ n ih =>
    rw [Nat.mul_succ] at hi
    rw [mapBlocks_succ, ← ih (by omega)]
    rcases hi with hi | hi
    · exact store_of_lt (by omega)
    · exact store_of_le (by rw [hf _ (length_load ..)]; omega)

theorem load_mapBlocks (hf : ∀ bs, bs.length = w → (f bs).length = w) (m : ℕ → β) {k : ℕ}
    (hk : k < n) :
    load (mapBlocks f w start n m) (start + w * k) w = f (load m (start + w * k) w) := by
  induction n with
  | zero => exact absurd hk (Nat.not_lt_zero k)
  | succ n ih =>
    rw [mapBlocks_succ]
    by_cases hlast : k = n
    · subst hlast
      have huntouched : load (mapBlocks f w start k m) (start + w * k) w =
          load m (start + w * k) w :=
        load_eq_iff.mpr fun i hpos _ => mapBlocks_outside hf m (.inr hpos)
      have hself := load_store_self (mapBlocks f w start k m) (start + w * k)
        (f (load m (start + w * k) w))
      rw [hf _ (length_load ..)] at hself
      rw [huntouched, hself]
    · have hkn : w * k + w ≤ w * n := by
        rw [← Nat.mul_succ]
        exact Nat.mul_le_mul_left w (by omega)
      rw [(agree_store_of_disjoint (.inl (by omega))).load]
      exact ih (by omega)

theorem mapBlocks_overlay (hf : ∀ bs, bs.length = w → (f bs).length = w)
    (m rest : ℕ → β) {stop : ℕ} (h : start + w * n ≤ stop) :
    mapBlocks f w start n (overlay stop m rest) = overlay stop (mapBlocks f w start n m) rest := by
  induction n with
  | zero => rfl
  | succ n ih =>
    rw [Nat.mul_succ] at h
    rw [mapBlocks_succ, mapBlocks_succ, ih (by omega),
      (agree_overlay _ rest (by omega)).load,
      store_overlay _ rest (by rw [hf _ (length_load ..)]; omega)]

/-- What is loaded from two places alike is alike in each part. -/
theorem load_part {pos start a b c : ℕ} (h : load m' pos c = load m start c) (hc : a + b ≤ c) :
    load m' (pos + a) b = load m (start + a) b := by
  obtain ⟨rest, rfl⟩ := Nat.exists_eq_add_of_le hc
  rw [load_add, load_add, load_add m, load_add m] at h
  have hfront := (List.append_inj h (by simp)).1
  exact (List.append_inj hfront (by simp)).2

/-- Blocks that are turned back where another memory holds what they were turned into. -/
theorem load_mapBlocks_inverse (hf : ∀ bs, bs.length = w → (f bs).length = w)
    (hg : ∀ bs, bs.length = w → (g bs).length = w) (hgf : ∀ bs, bs.length = w → g (f bs) = bs)
    {pos : ℕ} (h : load m' pos (w * n) = load (mapBlocks f w start n m) start (w * n)) :
    load (mapBlocks g w pos n m') pos (w * n) = load m start (w * n) := by
  have hblocks : ∀ k ≤ n, load (mapBlocks g w pos n m') pos (w * k) = load m start (w * k) := by
    intro k
    induction k with
    | zero => exact fun _ => rfl
    | succ k ih =>
      intro hk
      have hend : w * k + w ≤ w * n := by
        rw [← Nat.mul_succ]
        exact Nat.mul_le_mul_left w hk
      have hblock : load (mapBlocks g w pos n m') (pos + w * k) w = load m (start + w * k) w :=
        calc load (mapBlocks g w pos n m') (pos + w * k) w
            = g (load m' (pos + w * k) w) := load_mapBlocks hg m' hk
          _ = g (load (mapBlocks f w start n m) (start + w * k) w) := by
              rw [load_part h hend]
          _ = g (f (load m (start + w * k) w)) := by rw [load_mapBlocks hf m hk]
          _ = load m (start + w * k) w := hgf _ (length_load ..)
      rw [Nat.mul_succ, load_add, load_add, ih (by omega), hblock]
  exact hblocks n le_rfl

theorem agree_mapBlocks_inverse (hf : ∀ bs, bs.length = w → (f bs).length = w)
    (hg : ∀ bs, bs.length = w → (g bs).length = w) (hgf : ∀ bs, bs.length = w → g (f bs) = bs)
    (h : Agree start (w * n) m' (mapBlocks f w start n m)) :
    Agree start (w * n) (mapBlocks g w start n m') m :=
  load_eq_iff.mp (load_mapBlocks_inverse hf hg hgf h.load)

end Blocks

end TibiaServer.Library.Bytes
