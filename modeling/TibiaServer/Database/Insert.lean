import Mathlib.Algebra.GroupWithZero.Nat
import Mathlib.Order.Nat
import TibiaServer.Database.Connection
/-!
# Batched inserts

`DBInsert` collects rows and sends them in statements that are meant to stay below
the packet size.  Whatever the batches are, the statements insert the rows in order
(`applyAll_inserts`), and the loop that adds the rows and executes the rest is
the same as executing the batches one after the other (`insertRows_eq`).

`length` leaves out the parentheses, the commas and the row added after a flush, so a
statement may get too long, and a row is lost when the flush before it is refused
(`statements_iff`).
-/

namespace TibiaServer.Database

/-- The bytes of a `std::string`. -/
abbrev Text := List UInt8

def text (s : String) : Text := s.toUTF8.toList

/-- `values` holds the texts between the parentheses; the query sent is the prefix
followed by them. -/
structure DBInsert where
  query : Text
  values : List Text := []
  length : ℕ := query.length

namespace DBInsert

section

variable {ρ : Type} (outcomes : ℕ → Outcome) (maxPacketSize : ℕ)
  (insert : List Text → ρ → ρ)

def execute (q : DBInsert) (c : Connection ρ) : (Bool × Connection ρ) × DBInsert :=
  if q.values = [] then ((true, c), q)
  else
    (executeQuery outcomes (insert q.values) c,
      { q with values := [], length := q.query.length })

def addRow (q : DBInsert) (row : Text) (c : Connection ρ) :
    (Bool × Connection ρ) × DBInsert :=
  let q := { q with length := q.length + row.length }
  if q.length > maxPacketSize then
    let ((success, c), q) := q.execute outcomes insert c
    if success then ((true, c), { q with values := q.values ++ [row] })
    else ((false, c), q)
  else ((true, c), { q with values := q.values ++ [row] })

/-- The loops of the callers: add the rows, then execute what is left. -/
def addRows (q : DBInsert) : List Text → Connection ρ → Bool × Connection ρ
  | [], c => (q.execute outcomes insert c).1
  | row :: rows, c =>
    let ((success, c), q) := q.addRow outcomes maxPacketSize insert row c
    if success then addRows q rows c else (false, c)

/-- A new insert with this prefix, filled with the rows and executed. -/
def insertRows (query : Text) (rows : List Text) (c : Connection ρ) : Bool × Connection ρ :=
  addRows outcomes maxPacketSize insert { query := query } rows c

end

variable (maxPacketSize : ℕ)

/-- The rows of each statement that is sent. -/
def batches (q : DBInsert) : List Text → List (List Text)
  | [] => if q.values = [] then [] else [q.values]
  | row :: rows =>
    if q.length + row.length > maxPacketSize then
      if q.values = [] then
        batches { q with values := [row], length := q.length + row.length } rows
      else
        q.values :: batches { q with values := [row], length := q.query.length } rows
    else
      batches { q with values := q.values ++ [row], length := q.length + row.length } rows

theorem flatten_batches (rows : List Text) :
    ∀ q : DBInsert, (batches maxPacketSize q rows).flatten = q.values ++ rows := by
  induction rows with
  | nil =>
    intro q
    unfold batches
    split
    next h => simp [h]
    next => simp
  | cons row rows ih =>
    intro q
    unfold batches
    split
    · split
      next h => simp [ih, h]
      next => simp [ih]
    · simp [ih]

theorem addRows_eq {ρ : Type} (outcomes : ℕ → Outcome) (insert : List Text → ρ → ρ)
    (rows : List Text) :
    ∀ (q : DBInsert) (c : Connection ρ),
      addRows outcomes maxPacketSize insert q rows c =
        executeAll outcomes ((batches maxPacketSize q rows).map insert) c := by
  induction rows with
  | nil =>
    intro q c
    unfold addRows execute batches
    split
    next => rfl
    next =>
      exact (executeAll_singleton outcomes (insert q.values) c).symm
  | cons row rows ih =>
    intro q c
    unfold addRows addRow batches
    by_cases hlong : q.length + row.length > maxPacketSize
    · simp only [if_pos hlong, execute]
      by_cases hvalues : q.values = []
      · simp [hvalues, ih]
      · simp only [if_neg hvalues, List.map_cons, executeAll, andThen]
        cases hq : (executeQuery outcomes (insert q.values) c).1 <;> simp [ih]
    · simp only [if_neg hlong]
      exact ih _ c

theorem insertRows_eq {ρ : Type} (outcomes : ℕ → Outcome) (insert : List Text → ρ → ρ)
    (query : Text) (rows : List Text) (c : Connection ρ) :
    insertRows outcomes maxPacketSize insert query rows c =
      executeAll outcomes ((batches maxPacketSize { query := query } rows).map insert) c :=
  addRows_eq maxPacketSize outcomes insert rows { query := query } c

/-- An insert of rows in parts is the insert of the rows. -/
theorem applyAll_inserts {ρ : Type} {insert : List Text → ρ → ρ}
    (hnil : ∀ r, insert [] r = r)
    (happend : ∀ xs ys r, insert ys (insert xs r) = insert (xs ++ ys) r)
    (query : Text) (rows : List Text) (r : ρ) :
    applyAll ((batches maxPacketSize { query := query } rows).map insert) r =
      insert rows r := by
  have hall : ∀ (parts : List (List Text)) (r : ρ),
      applyAll (parts.map insert) r = insert parts.flatten r := by
    intro parts
    induction parts with
    | nil => exact fun r => (hnil r).symm
    | cons part parts ih =>
      intro r
      rw [List.map_cons, applyAll_cons, ih, happend, List.flatten_cons]
  rw [hall, flatten_batches]
  rfl

theorem nil_notMem_batches (rows : List Text) :
    ∀ q : DBInsert, [] ∉ batches maxPacketSize q rows := by
  induction rows with
  | nil =>
    intro q
    unfold batches
    split
    next => exact List.not_mem_nil
    next h => simpa using Ne.symm h
  | cons row rows ih =>
    intro q
    unfold batches
    split
    · split
      next => exact ih _
      next h => simpa [Ne.symm h] using ih _
    · exact ih _

end DBInsert

/-! ## The statements as texts -/

/-- A row as it stands in a statement. -/
def parenthesized (row : Text) : Text := 40 :: (row ++ [41])

/-- The rows of a statement with the commas between them. -/
def joined (rows : List Text) : Text := (rows.flatMap fun row => 44 :: parenthesized row).tail

def statement (query : Text) (rows : List Text) : Text := query ++ joined rows

/-- `DBInsert` with `values` as the text that it is.  `sent` are the statements so far. -/
structure InsertBuffer where
  query : Text
  values : Text := []
  length : ℕ := query.length
  sent : List Text := []
  deriving DecidableEq

namespace InsertBuffer

-- `accepted k` is what `executeQuery` returns for statement `k`
variable (accepted : ℕ → Bool) (maxPacketSize : ℕ)

def execute (b : InsertBuffer) : Bool × InsertBuffer :=
  if b.values = [] then (true, b)
  else
    (accepted b.sent.length,
      { b with values := [], length := b.query.length, sent := b.sent ++ [b.query ++ b.values] })

def addRow (row : Text) (b : InsertBuffer) : Bool × InsertBuffer :=
  let b := { b with length := b.length + row.length }
  let (success, b) := if b.length > maxPacketSize then b.execute accepted else (true, b)
  if !success then (false, b)
  else if b.values = [] then (true, { b with values := parenthesized row })
  else (true, { b with values := b.values ++ 44 :: parenthesized row })

/-- Calls of `addRow` one after the other, whatever they return. -/
def addRows (rows : List Text) (b : InsertBuffer) : InsertBuffer :=
  rows.foldl (fun b row => (b.addRow accepted maxPacketSize row).2) b

/-- The statements that the calls of `addRow` and the call of `execute` after them send. -/
def statements (query : Text) (rows : List Text) : List Text :=
  ((addRows accepted maxPacketSize rows { query := query }).execute accepted).2.sent

/-- A condition on the buffer before each call and the row of the call. -/
def EachCall (P : Text → InsertBuffer → Prop) : List Text → InsertBuffer → Prop
  | [], _ => True
  | row :: rows, b => P row b ∧ EachCall P rows (b.addRow accepted maxPacketSize row).2

/-- The statement that makes room for the row is accepted, if there is one. -/
def MakesRoom (row : Text) (b : InsertBuffer) : Prop :=
  b.values ≠ [] → b.length + row.length > maxPacketSize → accepted b.sent.length = true

instance (row : Text) (b : InsertBuffer) : Decidable (MakesRoom accepted maxPacketSize row b) :=
  inferInstanceAs (Decidable (b.values ≠ [] → b.length + row.length > maxPacketSize →
    accepted b.sent.length = true))

/-- A row that joins others by `length` fits into their statement. -/
def HasRoom (row : Text) (b : InsertBuffer) : Prop :=
  b.values ≠ [] → b.length + row.length ≤ maxPacketSize →
    (b.query ++ b.values).length + row.length + 3 ≤ maxPacketSize

/-- What the statements are to be: each row once and in order, no statement without rows, and
none that is too long as long as each row fits. -/
def SendsRows (query : Text) (rows sent : List Text) : Prop :=
  (∃ parts : List (List Text), parts.flatten = rows ∧ [] ∉ parts ∧
    sent = parts.map (statement query)) ∧
  ((∀ row ∈ rows, (query ++ parenthesized row).length ≤ maxPacketSize) →
    ∀ text ∈ sent, text.length ≤ maxPacketSize)

/-! ### One call -/

theorem addRow_eq_of_nil {b : InsertBuffer} (h : b.values = []) (row : Text) :
    (b.addRow accepted maxPacketSize row).2 =
      { b with length := b.length + row.length, values := parenthesized row } := by
  simp [addRow, execute, h]

theorem addRow_eq_of_join {b : InsertBuffer} (h : b.values ≠ []) {row : Text}
    (hle : b.length + row.length ≤ maxPacketSize) :
    (b.addRow accepted maxPacketSize row).2 =
      { b with
        length := b.length + row.length
        values := b.values ++ 44 :: parenthesized row } := by
  simp [addRow, h, not_lt.mpr hle]

/-- Where the buffer is sent first, the row is put into the next statement or lost. -/
theorem addRow_eq_of_full {b : InsertBuffer} (h : b.values ≠ []) {row : Text}
    (hgt : b.length + row.length > maxPacketSize) :
    (b.addRow accepted maxPacketSize row).2 =
      { b with
        length := b.query.length
        values := if accepted b.sent.length then parenthesized row else []
        sent := b.sent ++ [b.query ++ b.values] } := by
  cases haccepted : accepted b.sent.length <;> simp [addRow, execute, h, hgt, haccepted]

theorem addRow_query (row : Text) (b : InsertBuffer) :
    (b.addRow accepted maxPacketSize row).2.query = b.query := by
  by_cases h : b.values = []
  · rw [addRow_eq_of_nil accepted maxPacketSize h]
  · rcases le_or_gt (b.length + row.length) maxPacketSize with hle | hgt
    · rw [addRow_eq_of_join accepted maxPacketSize h hle]
    · rw [addRow_eq_of_full accepted maxPacketSize h hgt]

theorem addRows_query (rows : List Text) (b : InsertBuffer) :
    (addRows accepted maxPacketSize rows b).query = b.query := by
  induction rows generalizing b with
  | nil => rfl
  | cons row rows ih =>
    rw [addRows, List.foldl_cons, ← addRows, ih, addRow_query]

theorem execute_query (b : InsertBuffer) : (b.execute accepted).2.query = b.query := by
  rw [execute]
  split_ifs <;> rfl

theorem execute_values (b : InsertBuffer) : (b.execute accepted).2.values = [] := by
  rw [execute]
  split_ifs with h
  · exact h
  · rfl

/-! ### The bytes of the rows -/

def rowsSize (rows : List Text) : ℕ := (rows.map fun row => row.length + 3).sum

/-- The bytes of the rows in the statements and in the buffer, a comma counted for each. -/
def storedSize (b : InsertBuffer) : ℕ :=
  (b.sent.map fun text => text.length + 1 - b.query.length).sum +
    if b.values = [] then 0 else b.values.length + 1

theorem parenthesized_length (row : Text) : (parenthesized row).length = row.length + 2 := by
  simp [parenthesized]

theorem parenthesized_ne_nil (row : Text) : parenthesized row ≠ [] := List.cons_ne_nil _ _

theorem storedSize_execute (b : InsertBuffer) : storedSize (b.execute accepted).2 = storedSize b := by
  by_cases h : b.values = []
  · rw [execute, if_pos h]
  · have hsent : b.query.length + b.values.length + 1 - b.query.length = b.values.length + 1 := by
      omega
    simp [execute, h, storedSize, hsent]

theorem storedSize_addRow (row : Text) (b : InsertBuffer) :
    storedSize (b.addRow accepted maxPacketSize row).2 =
      storedSize b + if MakesRoom accepted maxPacketSize row b then row.length + 3 else 0 := by
  by_cases h : b.values = []
  · have hroom : MakesRoom accepted maxPacketSize row b := fun hne => absurd h hne
    rw [addRow_eq_of_nil accepted maxPacketSize h, if_pos hroom]
    simp [storedSize, h, parenthesized_ne_nil, parenthesized_length]
  · rcases le_or_gt (b.length + row.length) maxPacketSize with hle | hgt
    · have hroom : MakesRoom accepted maxPacketSize row b := fun _ hgt => absurd hle (by omega)
      rw [addRow_eq_of_join accepted maxPacketSize h hle, if_pos hroom]
      simp [storedSize, h, parenthesized_length]
      omega
    · have hsent : b.query.length + b.values.length + 1 - b.query.length = b.values.length + 1 := by
        omega
      rw [addRow_eq_of_full accepted maxPacketSize h hgt]
      cases haccepted : accepted b.sent.length
      · have hroom : ¬MakesRoom accepted maxPacketSize row b := by
          intro hroom
          rw [hroom h hgt] at haccepted
          exact nomatch haccepted
        simp [storedSize, h, hsent, hroom]
      · have hroom : MakesRoom accepted maxPacketSize row b := fun _ _ => haccepted
        simp [storedSize, h, hsent, hroom, parenthesized_ne_nil, parenthesized_length]

theorem rowsSize_cons (row : Text) (rows : List Text) :
    rowsSize (row :: rows) = row.length + 3 + rowsSize rows := by
  rw [rowsSize, List.map_cons, List.sum_cons, ← rowsSize]

theorem addRows_cons (row : Text) (rows : List Text) (b : InsertBuffer) :
    addRows accepted maxPacketSize (row :: rows) b =
      addRows accepted maxPacketSize rows (b.addRow accepted maxPacketSize row).2 := rfl

theorem storedSize_addRows_le (rows : List Text) (b : InsertBuffer) :
    storedSize (addRows accepted maxPacketSize rows b) ≤ storedSize b + rowsSize rows := by
  induction rows generalizing b with
  | nil => exact le_rfl
  | cons row rows ih =>
    have hrest := ih (b.addRow accepted maxPacketSize row).2
    rw [storedSize_addRow] at hrest
    rw [addRows_cons, rowsSize_cons]
    split_ifs at hrest <;> omega

/-- With no row lost every call has made room for its row. -/
theorem makesRoom_of_storedSize {rows : List Text} {b : InsertBuffer}
    (h : storedSize (addRows accepted maxPacketSize rows b) = storedSize b + rowsSize rows) :
    EachCall accepted maxPacketSize (MakesRoom accepted maxPacketSize) rows b := by
  induction rows generalizing b with
  | nil => trivial
  | cons row rows ih =>
    have hle := storedSize_addRows_le accepted maxPacketSize rows
      (b.addRow accepted maxPacketSize row).2
    rw [addRows_cons, rowsSize_cons] at h
    have hstep := storedSize_addRow accepted maxPacketSize row b
    split_ifs at hstep with hroom
    · exact ⟨hroom, ih (by omega)⟩
    · omega

/-! ### The rows of the statements -/

theorem joined_eq_nil_iff (rows : List Text) : joined rows = [] ↔ rows = [] := by
  cases rows <;> simp [joined, parenthesized]

theorem joined_concat {rows : List Text} (h : rows ≠ []) (row : Text) :
    joined (rows ++ [row]) = joined rows ++ 44 :: parenthesized row := by
  cases rows with
  | nil => exact absurd rfl h
  | cons first rest => simp [joined]

theorem joined_length {rows : List Text} (h : rows ≠ []) :
    (joined rows).length + 1 = rowsSize rows := by
  have hflat : ∀ rows : List Text,
      (rows.flatMap fun row => 44 :: parenthesized row).length = rowsSize rows := by
    intro rows
    induction rows with
    | nil => rfl
    | cons row rows ih =>
      rw [List.flatMap_cons, List.length_append, ih, rowsSize_cons, List.length_cons,
        parenthesized_length]
  have hpos : 0 < rowsSize rows := by
    cases rows with
    | nil => exact absurd rfl h
    | cons first rest => rw [rowsSize_cons]; omega
  rw [joined, List.length_tail, hflat]
  omega

/-- The bytes of the rows can be read off the lengths of the statements. -/
theorem parts_size (query : Text) {parts : List (List Text)} (h : [] ∉ parts) :
    ((parts.map (statement query)).map fun text => text.length + 1 - query.length).sum =
      rowsSize parts.flatten := by
  induction parts with
  | nil => rfl
  | cons part parts ih =>
    rw [List.mem_cons, not_or] at h
    have hpart := joined_length (Ne.symm h.1)
    have hflatten : rowsSize (part :: parts).flatten = rowsSize part + rowsSize parts.flatten := by
      rw [List.flatten_cons, rowsSize, List.map_append, List.sum_append]
      rfl
    rw [List.map_cons, List.map_cons, List.sum_cons, ih h.2, hflatten, statement,
      List.length_append]
    omega

/-- The buffer holds the rows of the insert. -/
structure Holds (b : InsertBuffer) (q : DBInsert) : Prop where
  query : b.query = q.query
  values : b.values = joined q.values
  length : b.length = q.length

theorem Holds.values_eq_nil_iff {b : InsertBuffer} {q : DBInsert} (h : b.Holds q) :
    b.values = [] ↔ q.values = [] := by
  rw [h.values, joined_eq_nil_iff]

/-- With room made for every row the statements are the batches. -/
theorem statements_eq_batches {rows : List Text} {b : InsertBuffer} {q : DBInsert}
    (hb : b.Holds q)
    (h : EachCall accepted maxPacketSize (MakesRoom accepted maxPacketSize) rows b) :
    ((addRows accepted maxPacketSize rows b).execute accepted).2.sent =
      b.sent ++ (DBInsert.batches maxPacketSize q rows).map (statement q.query) := by
  induction rows generalizing b q with
  | nil =>
    rw [addRows, List.foldl_nil, execute, DBInsert.batches]
    by_cases hvalues : q.values = []
    · rw [if_pos (hb.values_eq_nil_iff.mpr hvalues), if_pos hvalues, List.map_nil,
        List.append_nil]
    · rw [if_neg (mt hb.values_eq_nil_iff.mp hvalues), if_neg hvalues, List.map_singleton,
        statement, hb.query, hb.values]
  | cons row rows ih =>
    obtain ⟨hroom, hrest⟩ := h
    have hsingle : parenthesized row = joined [row] := by simp [joined]
    rw [addRows_cons, DBInsert.batches]
    by_cases hvalues : q.values = []
    · have hnil := hb.values_eq_nil_iff.mpr hvalues
      rw [addRow_eq_of_nil accepted maxPacketSize hnil] at hrest ⊢
      have hb' : Holds { b with
          length := b.length + row.length, values := parenthesized row }
          { q with values := [row], length := q.length + row.length } :=
        ⟨hb.query, hsingle, congrArg (· + row.length) hb.length⟩
      rw [ih hb' hrest, if_pos hvalues, hvalues, List.nil_append, ite_self]
    · have hne := mt hb.values_eq_nil_iff.mp hvalues
      rcases le_or_gt (b.length + row.length) maxPacketSize with hle | hgt
      · rw [addRow_eq_of_join accepted maxPacketSize hne hle] at hrest ⊢
        have hb' : Holds { b with
            length := b.length + row.length, values := b.values ++ 44 :: parenthesized row }
            { q with values := q.values ++ [row], length := q.length + row.length } :=
          ⟨hb.query, by rw [joined_concat hvalues, ← hb.values],
            congrArg (· + row.length) hb.length⟩
        rw [hb.length] at hle
        rw [ih hb' hrest, if_neg (not_lt.mpr hle)]
      · have haccepted := hroom hne hgt
        rw [addRow_eq_of_full accepted maxPacketSize hne hgt, if_pos haccepted] at hrest ⊢
        have hb' : Holds { b with
            length := b.query.length
            values := parenthesized row
            sent := b.sent ++ [b.query ++ b.values] }
            { q with values := [row], length := q.query.length } :=
          ⟨hb.query, hsingle, congrArg List.length hb.query⟩
        rw [hb.length] at hgt
        rw [ih hb' hrest, if_pos hgt, if_neg hvalues, List.map_cons, statement, ← hb.values,
          ← hb.query, List.append_assoc, List.singleton_append]

/-! ### The length of the statements -/

/-- The statements so far and the one in the buffer are not too long. -/
structure Fits (b : InsertBuffer) : Prop where
  sent : ∀ text ∈ b.sent, text.length ≤ maxPacketSize
  values : b.values ≠ [] → (b.query ++ b.values).length ≤ maxPacketSize

theorem Fits.execute {b : InsertBuffer} (h : b.Fits maxPacketSize) :
    (b.execute accepted).2.Fits maxPacketSize := by
  rw [InsertBuffer.execute]
  split_ifs with hvalues
  · exact h
  · constructor
    · intro text htext
      rcases List.mem_append.mp htext with hold | hnew
      · exact h.sent text hold
      · rw [List.mem_singleton.mp hnew]
        exact h.values hvalues
    · intro hne
      exact absurd rfl hne

/-- A row that fits keeps the statements short exactly if it has room. -/
theorem Fits.addRow_iff {b : InsertBuffer} (h : b.Fits maxPacketSize) {row : Text}
    (hrow : (b.query ++ parenthesized row).length ≤ maxPacketSize) :
    (b.addRow accepted maxPacketSize row).2.Fits maxPacketSize ↔
      HasRoom maxPacketSize row b := by
  rw [List.length_append] at hrow
  by_cases hnil : b.values = []
  · have hroom : HasRoom maxPacketSize row b := fun hne => absurd hnil hne
    rw [addRow_eq_of_nil accepted maxPacketSize hnil, iff_true_right hroom]
    exact ⟨h.sent, fun _ => by rw [List.length_append]; exact hrow⟩
  · rcases le_or_gt (b.length + row.length) maxPacketSize with hle | hgt
    · rw [addRow_eq_of_join accepted maxPacketSize hnil hle]
      constructor
      · intro hfits _ _
        have hvalues := hfits.values (by simp)
        simp only [List.length_append, List.length_cons, parenthesized_length] at hvalues ⊢
        omega
      · intro hroom
        refine ⟨h.sent, ?_⟩
        intro _
        have hvalues := hroom hnil hle
        simp only [List.length_append, List.length_cons, parenthesized_length] at hvalues ⊢
        omega
    · have hroom : HasRoom maxPacketSize row b := fun _ hle => absurd hgt (not_lt.mpr hle)
      rw [addRow_eq_of_full accepted maxPacketSize hnil hgt, iff_true_right hroom]
      constructor
      · intro text htext
        rcases List.mem_append.mp htext with hold | hnew
        · exact h.sent text hold
        · rw [List.mem_singleton.mp hnew]
          exact h.values hnil
      · intro hne
        split_ifs at hne ⊢ with haccepted
        · rw [List.length_append]
          exact hrow
        · exact absurd rfl hne

/-- Once too long, a statement does not get shorter. -/
theorem not_fits_addRow {b : InsertBuffer} (h : ¬b.Fits maxPacketSize) (row : Text) :
    ¬(b.addRow accepted maxPacketSize row).2.Fits maxPacketSize := by
  intro hfits
  apply h
  by_cases hnil : b.values = []
  · rw [addRow_eq_of_nil accepted maxPacketSize hnil] at hfits
    exact ⟨hfits.sent, fun hne => absurd hnil hne⟩
  · rcases le_or_gt (b.length + row.length) maxPacketSize with hle | hgt
    · rw [addRow_eq_of_join accepted maxPacketSize hnil hle] at hfits
      refine ⟨hfits.sent, ?_⟩
      intro _
      have hvalues := hfits.values (by simp)
      simp only [List.length_append] at hvalues ⊢
      omega
    · rw [addRow_eq_of_full accepted maxPacketSize hnil hgt] at hfits
      constructor
      · intro text htext
        exact hfits.sent text (List.mem_append_left _ htext)
      · intro _
        exact hfits.sent _ (List.mem_append_right _ (List.mem_singleton.mpr rfl))

theorem not_fits_execute {b : InsertBuffer} (h : ¬b.Fits maxPacketSize) :
    ∃ text ∈ (b.execute accepted).2.sent, maxPacketSize < text.length := by
  by_contra hnone
  push Not at hnone
  apply h
  rw [InsertBuffer.execute] at hnone
  split_ifs at hnone with hnil
  · exact ⟨hnone, fun hne => absurd hnil hne⟩
  · constructor
    · intro text htext
      exact hnone text (List.mem_append_left _ htext)
    · intro _
      exact hnone _ (List.mem_append_right _ (List.mem_singleton.mpr rfl))

/-- For rows that fit, all statements are short exactly if each row has room. -/
theorem sent_le_iff (rows : List Text) {b : InsertBuffer} (hb : b.Fits maxPacketSize)
    (hrows : ∀ row ∈ rows, (b.query ++ parenthesized row).length ≤ maxPacketSize) :
    (∀ text ∈ ((addRows accepted maxPacketSize rows b).execute accepted).2.sent,
        text.length ≤ maxPacketSize) ↔
      EachCall accepted maxPacketSize (HasRoom maxPacketSize) rows b := by
  induction rows generalizing b with
  | nil => exact iff_of_true (Fits.execute accepted maxPacketSize hb).sent trivial
  | cons row rows ih =>
    rw [List.forall_mem_cons] at hrows
    rw [addRows_cons, EachCall, ← hb.addRow_iff accepted maxPacketSize hrows.1]
    by_cases hfits : (b.addRow accepted maxPacketSize row).2.Fits maxPacketSize
    · rw [ih hfits (by rw [addRow_query]; exact hrows.2), and_iff_right hfits]
    · refine iff_of_false ?_ fun h => hfits h.1
      intro hall
      have hnot : ∀ (rest : List Text) (b' : InsertBuffer), ¬b'.Fits maxPacketSize →
          ¬(addRows accepted maxPacketSize rest b').Fits maxPacketSize := by
        intro rest
        induction rest with
        | nil => exact fun _ h => h
        | cons row rest ihrest =>
          intro b' h
          exact ihrest _ (not_fits_addRow accepted maxPacketSize h row)
      obtain ⟨text, htext, hlong⟩ :=
        not_fits_execute accepted maxPacketSize (hnot rows _ hfits)
      exact absurd (hall text htext) (not_le.mpr hlong)

/-- The statements are what they are to be exactly if no statement that makes room for a row is
refused and, for rows that fit, a row that joins others by `length` fits into their statement. -/
theorem statements_iff (query : Text) (rows : List Text) :
    SendsRows maxPacketSize query rows (statements accepted maxPacketSize query rows) ↔
      EachCall accepted maxPacketSize (MakesRoom accepted maxPacketSize) rows { query := query } ∧
      ((∀ row ∈ rows, (query ++ parenthesized row).length ≤ maxPacketSize) →
        EachCall accepted maxPacketSize (HasRoom maxPacketSize) rows { query := query }) := by
  have hempty : Fits maxPacketSize { query := query } := ⟨by simp, fun h => absurd rfl h⟩
  have hlengths := fun hrows => sent_le_iff accepted maxPacketSize rows hempty hrows
  constructor
  · rintro ⟨⟨parts, hflatten, hparts, hsent⟩, hshort⟩
    constructor
    · apply makesRoom_of_storedSize
      have hsize := storedSize_execute accepted
        (addRows accepted maxPacketSize rows { query := query })
      have hstored : storedSize ((addRows accepted maxPacketSize rows
          { query := query }).execute accepted).2 = rowsSize rows := by
        have hparts' := parts_size query hparts
        rw [hflatten, ← hsent] at hparts'
        rw [storedSize, execute_values, execute_query, addRows_query, if_pos rfl, Nat.add_zero]
        exact hparts'
      rw [← hsize, hstored]
      simp [storedSize]
    · intro hrows
      exact (hlengths hrows).mp (hshort hrows)
  · rintro ⟨hroom, hlong⟩
    constructor
    · have hholds : Holds { query := query } { query := query } := ⟨rfl, rfl, rfl⟩
      refine ⟨DBInsert.batches maxPacketSize { query := query } rows, ?_, ?_, ?_⟩
      · exact DBInsert.flatten_batches maxPacketSize rows _
      · exact DBInsert.nil_notMem_batches maxPacketSize rows _
      · exact statements_eq_batches accepted maxPacketSize hholds hroom
    · intro hrows
      exact (hlengths hrows).mpr (hlong hrows)

/-- Two rows of five bytes after a query of twenty fit into thirty bytes each, but they are sent
in one statement of thirty-five. -/
theorem two_rows_too_long :
    ¬SendsRows 30 (List.replicate 20 97) [List.replicate 5 98, List.replicate 5 99]
      (statements (fun _ => true) 30 (List.replicate 20 97)
        [List.replicate 5 98, List.replicate 5 99]) := by
  intro h
  have hshort := h.2 (by decide)
  exact absurd hshort (by decide)

end InsertBuffer

end TibiaServer.Database
