import Mathlib.Data.Nat.Notation
/-!
# Tagged fields

A record is written as a row of fields, each a tag and a body, and a zero behind the last
one.  The reader takes tag after tag and leaves the body to a function of the record, which
goes on, gives up or ends the row itself.
-/

namespace TibiaServer.Library.Fields

inductive Reading
  | more
  | failed
  | finished
  deriving DecidableEq, Repr

section

variable {ρ : Type*}

/-- The tag is already read. -/
abbrev Reader (ρ : Type*) := UInt8 → ρ → List UInt8 → Reading × ρ × List UInt8

/-- At most `n` fields.  A stream that ends where a tag is due ends the row. -/
def readFields (readField : Reader ρ) : ℕ → ρ → List UInt8 → Bool × ρ × List UInt8
  | 0, r, stream => (true, r, stream)
  | _ + 1, r, [] => (true, r, [])
  | n + 1, r, tag :: stream =>
    if tag = 0 then (true, r, stream)
    else
      match readField tag r stream with
      | (.more, r, stream) => readFields readField n r stream
      | (.failed, r, stream) => (false, r, stream)
      | (.finished, r, stream) => (true, r, stream)

def readAll (readField : Reader ρ) (r : ρ) (stream : List UInt8) : Bool × ρ × List UInt8 :=
  readFields readField stream.length r stream

/-- A body is taken from the front of the stream. -/
def Shrinks (readField : Reader ρ) : Prop :=
  ∀ tag r stream, (readField tag r stream).2.2.length ≤ stream.length

/-- The reader passes `bytes`, and the record is `r'` instead of `r`. -/
def Reads (readField : Reader ρ) (bytes : List UInt8) (r r' : ρ) : Prop :=
  ∀ rest, readAll readField r (bytes ++ rest) = readAll readField r' rest

variable {readField : Reader ρ} {r r' r'' : ρ} {tag : UInt8}
  {bytes bytes' body stream stream' : List UInt8}

/-- Every field takes its tag, so the bound does not count from the length on. -/
theorem readFields_congr (h : Shrinks readField) {n m : ℕ} (r : ρ) (hn : stream.length ≤ n)
    (hm : stream.length ≤ m) :
    readFields readField n r stream = readFields readField m r stream := by
  induction n generalizing m r stream with
  | zero =>
    have hnil : stream = [] := List.length_eq_zero_iff.mp (by omega)
    subst hnil
    cases m <;> rfl
  | succ n ih =>
    cases stream with
    | nil => cases m <;> rfl
    | cons tag stream =>
      cases m with
      | zero => exact absurd hm (by simp)
      | succ m =>
        have hshrinks := h tag r stream
        rw [List.length_cons] at hn hm
        unfold readFields
        split
        · rfl
        · split
          · rename_i hread
            rw [hread] at hshrinks
            dsimp only at hshrinks
            exact ih _ (by omega) (by omega)
          · rfl
          · rfl

theorem readFields_eq_readAll (h : Shrinks readField) {n : ℕ} (r : ρ) (hn : stream.length ≤ n) :
    readFields readField n r stream = readAll readField r stream :=
  readFields_congr h r hn (Nat.le_refl _)

@[simp] theorem readAll_zero (readField : Reader ρ) (r : ρ) (stream : List UInt8) :
    readAll readField r (0 :: stream) = (true, r, stream) := by
  simp [readAll, readFields]

theorem readAll_more (h : Shrinks readField) (htag : tag ≠ 0)
    (hread : readField tag r stream = (.more, r', stream')) :
    readAll readField r (tag :: stream) = readAll readField r' stream' := by
  have hshrinks := h tag r stream
  rw [hread] at hshrinks
  rw [readAll, List.length_cons, readFields, if_neg htag, hread]
  exact readFields_eq_readAll h r' hshrinks

theorem readAll_finished (htag : tag ≠ 0)
    (hread : readField tag r stream = (.finished, r', stream')) :
    readAll readField r (tag :: stream) = (true, r', stream') := by
  rw [readAll, List.length_cons, readFields, if_neg htag, hread]

namespace Reads

theorem nil (readField : Reader ρ) (r : ρ) : Reads readField [] r r := fun _ => rfl

theorem field (h : Shrinks readField) (htag : tag ≠ 0)
    (hread : ∀ rest, readField tag r (body ++ rest) = (.more, r', rest)) :
    Reads readField (tag :: body) r r' :=
  fun rest => readAll_more h htag (hread rest)

theorem append (h : Reads readField bytes r r') (h' : Reads readField bytes' r' r'') :
    Reads readField (bytes ++ bytes') r r'' := by
  intro rest
  rw [List.append_assoc, h, h']

/-- A field that is written under a condition. -/
theorem optional {c : Prop} [Decidable c] (h : c → Reads readField bytes r r') :
    Reads readField (if c then bytes else []) r (if c then r' else r) := by
  split
  · exact h ‹_›
  · exact nil readField r

theorem readAll_append_zero (h : Reads readField bytes r r') (rest : List UInt8) :
    readAll readField r (bytes ++ 0 :: rest) = (true, r', rest) := by
  rw [h, readAll_zero]

end Reads

end

end TibiaServer.Library.Fields
