import Mathlib.Data.List.Basic
/-!
# The database connection

Every query has an outcome: the connection is lost some number of times, each
time the client reconnects and sends the query again, and at last the server
executes it or answers with an error.  A lost connection discards the open
transaction, and from then on each statement is on its own.

`atomic_iff` says when a transaction is all or nothing under these outcomes.
-/

namespace TibiaServer.Database

/-- `losses` counts the attempts that end in a lost connection, which the loop in
`executeQuery` or the client library repeats. -/
structure Outcome where
  losses : ℕ := 0
  ok : Bool := true

/-- `stored` is what a new connection would read, `transaction` what the open
transaction has made of it.  `sent` numbers the queries. -/
structure Connection (ρ : Type) where
  stored : ρ
  transaction : Option ρ := none
  sent : ℕ := 0

namespace Connection

variable {ρ : Type}

/-- The rows that a statement on this connection sees. -/
def rows (c : Connection ρ) : ρ := c.transaction.getD c.stored

def reconnect (c : Connection ρ) : Connection ρ := { c with transaction := none }

/-- A statement changes the open transaction, or with none open the stored rows. -/
def apply (statement : ρ → ρ) (c : Connection ρ) : Connection ρ :=
  match c.transaction with
  | some r => { c with transaction := some (statement r) }
  | none => { c with stored := statement c.stored }

/-- `BEGIN` commits what is open first. -/
def start (c : Connection ρ) : Connection ρ :=
  { c with stored := c.rows, transaction := some c.rows }

def finish (c : Connection ρ) : Connection ρ := { c with stored := c.rows, transaction := none }

def discard (c : Connection ρ) : Connection ρ := { c with transaction := none }

/-- The attempts of one query that lose the connection. -/
def lose (c : Connection ρ) : ℕ → Connection ρ
  | 0 => c
  | n + 1 => c.reconnect.lose n

theorem lose_succ (c : Connection ρ) (n : ℕ) : c.lose (n + 1) = c.reconnect := by
  have hreconnect : ∀ c : Connection ρ, c.transaction = none → c.reconnect = c := by
    intro c hc
    unfold reconnect
    rw [← hc]
  induction n generalizing c with
  | zero => rfl
  | succ n ih =>
    rw [lose, ih]
    exact hreconnect _ rfl

end Connection

section Queries

variable {ρ : Type} (outcomes : ℕ → Outcome)

/-- Send a query: the lost attempts, then its effect or an error. -/
def query (effect : Connection ρ → Connection ρ) (c : Connection ρ) : Bool × Connection ρ :=
  let outcome := outcomes c.sent
  let c := { c.lose outcome.losses with sent := c.sent + 1 }
  if outcome.ok then (true, effect c) else (false, c)

def executeQuery (statement : ρ → ρ) (c : Connection ρ) : Bool × Connection ρ :=
  query outcomes (Connection.apply statement) c

/-- A `SELECT`: `none` stands for the null result of an error or of no row. -/
def storeQuery {β : Type} (read : ρ → Option β) (c : Connection ρ) :
    Option β × Connection ρ :=
  let (success, c) := query outcomes id c
  (if success then read c.rows else none, c)

def beginTransaction (c : Connection ρ) : Bool × Connection ρ :=
  query outcomes Connection.start c

def rollback (c : Connection ρ) : Bool × Connection ρ := query outcomes Connection.discard c

def commit (c : Connection ρ) : Bool × Connection ρ := query outcomes Connection.finish c

end Queries

inductive TransactionStates_t
  | STATE_NO_START
  | STATE_START
  | STEATE_COMMIT
  deriving DecidableEq

/-- `DBTransaction`, whose destructor runs when the scope is left. -/
structure DBTransaction where
  state : TransactionStates_t := .STATE_NO_START

namespace DBTransaction

variable {ρ : Type} (outcomes : ℕ → Outcome)

def begin (_ : DBTransaction) (c : Connection ρ) : (Bool × Connection ρ) × DBTransaction :=
  (beginTransaction outcomes c, { state := .STATE_START })

def commit (t : DBTransaction) (c : Connection ρ) : (Bool × Connection ρ) × DBTransaction :=
  if t.state ≠ .STATE_START then ((false, c), t)
  else (Database.commit outcomes c, { state := .STEATE_COMMIT })

def destructor (t : DBTransaction) (c : Connection ρ) : Connection ρ :=
  if t.state = .STATE_START then (rollback outcomes c).2 else c

/-- A scope with a transaction: begin, the body, commit.  Every `return false`
before the commit leaves the scope. -/
def scope (body : Connection ρ → Bool × Connection ρ) (c : Connection ρ) :
    Bool × Connection ρ :=
  let ((success, c), transaction) := begin outcomes {} c
  if !success then (false, transaction.destructor outcomes c)
  else
    let (success, c) := body c
    if !success then (false, transaction.destructor outcomes c)
    else
      let ((success, c), transaction) := transaction.commit outcomes c
      (success, transaction.destructor outcomes c)

end DBTransaction

section ExecuteAll

variable {ρ : Type} (outcomes : ℕ → Outcome)

/-- One query after the other, stopping at the first that fails. -/
def andThen (first second : Connection ρ → Bool × Connection ρ) (c : Connection ρ) :
    Bool × Connection ρ :=
  let (success, c) := first c
  if success then second c else (false, c)

def executeAll : List (ρ → ρ) → Connection ρ → Bool × Connection ρ
  | [], c => (true, c)
  | statement :: rest, c => andThen (executeQuery outcomes statement) (executeAll rest) c

theorem executeAll_singleton (f : ρ → ρ) (c : Connection ρ) :
    executeAll outcomes [f] c = executeQuery outcomes f c := by
  simp only [executeAll, andThen]
  obtain ⟨success, c'⟩ := executeQuery outcomes f c
  cases success <;> rfl

theorem executeAll_append (xs ys : List (ρ → ρ)) (c : Connection ρ) :
    executeAll outcomes (xs ++ ys) c =
      andThen (executeAll outcomes xs) (executeAll outcomes ys) c := by
  induction xs generalizing c with
  | nil => rfl
  | cons x xs ih =>
    simp only [List.cons_append, executeAll, andThen]
    by_cases hx : (executeQuery outcomes x c).1 = true
    · simp only [hx, if_true, ih, andThen]
    · simp [hx]

/-- The effect of statements on rows. -/
def applyAll (statements : List (ρ → ρ)) (r : ρ) : ρ :=
  statements.foldl (fun r statement => statement r) r

@[simp] theorem applyAll_nil (r : ρ) : applyAll [] r = r := rfl

@[simp] theorem applyAll_cons (f : ρ → ρ) (fs : List (ρ → ρ)) (r : ρ) :
    applyAll (f :: fs) r = applyAll fs (f r) := rfl

theorem applyAll_append (xs ys : List (ρ → ρ)) (r : ρ) :
    applyAll (xs ++ ys) r = applyAll ys (applyAll xs r) := List.foldl_append ..

/-! Below, `n` is the number of the first statement of a list. -/

/-- No statement is answered with an error. -/
def succeeds (n : ℕ) : List (ρ → ρ) → Bool
  | [] => true
  | _ :: fs => (outcomes n).ok && succeeds (n + 1) fs

/-- The statements before the first error. -/
def executed (n : ℕ) : List (ρ → ρ) → List (ρ → ρ)
  | [] => []
  | f :: fs => if (outcomes n).ok then f :: executed (n + 1) fs else []

/-- When a statement that is reached loses its connection: the statements executed
from the first such loss on, each on its own. -/
def detached (n : ℕ) : List (ρ → ρ) → Option (List (ρ → ρ))
  | [] => none
  | f :: fs =>
    if (outcomes n).losses ≠ 0 then some (executed outcomes n (f :: fs))
    else if (outcomes n).ok then detached (n + 1) fs
    else none

theorem lose_eq (c : Connection ρ) (n : ℕ) :
    c.lose n = if n = 0 then c else c.reconnect := by
  cases n with
  | zero => rfl
  | succ n => simp [Connection.lose_succ]

@[simp] theorem lose_stored (c : Connection ρ) (n : ℕ) : (c.lose n).stored = c.stored := by
  rw [lose_eq]
  split <;> rfl

theorem lose_of_none {c : Connection ρ} (hc : c.transaction = none) (n : ℕ) : c.lose n = c := by
  rw [lose_eq]
  split
  · rfl
  · unfold Connection.reconnect
    rw [← hc]

theorem query_of_none {c : Connection ρ} (hc : c.transaction = none)
    (effect : Connection ρ → Connection ρ) :
    query outcomes effect c =
      if (outcomes c.sent).ok then (true, effect { c with sent := c.sent + 1 })
      else (false, { c with sent := c.sent + 1 }) := by
  simp only [query, lose_of_none hc]

theorem lose_transaction {c : Connection ρ} (hc : c.transaction = none) (n : ℕ) :
    (c.lose n).transaction = none := by
  rw [lose_of_none hc]
  exact hc

/-- With no transaction open a lost connection changes nothing. -/
theorem executeAll_alone (fs : List (ρ → ρ)) :
    ∀ c : Connection ρ, c.transaction = none →
      (executeAll outcomes fs c).1 = succeeds outcomes c.sent fs ∧
        (executeAll outcomes fs c).2.stored =
          applyAll (executed outcomes c.sent fs) c.stored ∧
        (executeAll outcomes fs c).2.transaction = none ∧
        (succeeds outcomes c.sent fs = true →
          (executeAll outcomes fs c).2.sent = c.sent + fs.length) := by
  induction fs with
  | nil => exact fun c hc => ⟨rfl, rfl, hc, fun _ => rfl⟩
  | cons f fs ih =>
    intro c hc
    have hlose : c.lose (outcomes c.sent).losses = c := lose_of_none hc _
    unfold executeAll andThen executeQuery query succeeds executed
    simp only [hlose]
    cases hok : (outcomes c.sent).ok with
    | false => simp [hc]
    | true =>
      have happly : Connection.apply f { c with sent := c.sent + 1 } =
          { c with stored := f c.stored, sent := c.sent + 1 } := by
        simp [Connection.apply, hc]
      obtain ⟨h1, h2, h3, h4⟩ := ih { c with stored := f c.stored, sent := c.sent + 1 } hc
      simp only [happly, if_true, Bool.true_and, applyAll_cons]
      refine ⟨h1, h2, h3, fun hsucc => ?_⟩
      have hsent := h4 hsucc
      rw [hsent, List.length_cons]
      exact Nat.succ_add_eq_add_succ c.sent fs.length

theorem executeAll_reconnect {f : ρ → ρ} {fs : List (ρ → ρ)} {c : Connection ρ}
    (hloss : (outcomes c.sent).losses ≠ 0) :
    executeAll outcomes (f :: fs) c = executeAll outcomes (f :: fs) c.reconnect := by
  have hsent : c.reconnect.sent = c.sent := rfl
  simp only [executeAll, andThen, executeQuery, query, lose_eq, hsent, if_neg hloss]
  rfl

/-- Inside a transaction the stored rows wait for the commit, unless a connection
is lost: then the statements from there on change them directly. -/
theorem executeAll_within (fs : List (ρ → ρ)) :
    ∀ (c : Connection ρ) (r : ρ), c.transaction = some r →
      (executeAll outcomes fs c).1 = succeeds outcomes c.sent fs ∧
        (succeeds outcomes c.sent fs = true →
          (executeAll outcomes fs c).2.sent = c.sent + fs.length) ∧
        (detached outcomes c.sent fs = none →
          (executeAll outcomes fs c).2.stored = c.stored ∧
            (executeAll outcomes fs c).2.transaction =
              some (applyAll (executed outcomes c.sent fs) r)) ∧
        ∀ gs, detached outcomes c.sent fs = some gs →
          (executeAll outcomes fs c).2.stored = applyAll gs c.stored ∧
            (executeAll outcomes fs c).2.transaction = none := by
  induction fs with
  | nil => exact fun c r hc => ⟨rfl, fun _ => rfl, fun _ => ⟨rfl, hc⟩, by simp [detached]⟩
  | cons f fs ih =>
    intro c r hc
    by_cases hloss : (outcomes c.sent).losses ≠ 0
    · obtain ⟨h1, h2, h3, h4⟩ := executeAll_alone outcomes (f :: fs) c.reconnect rfl
      rw [executeAll_reconnect outcomes hloss]
      refine ⟨h1, h4, fun hnone => ?_, fun gs hgs => ?_⟩
      · rw [detached, if_pos hloss] at hnone
        simp at hnone
      · rw [detached, if_pos hloss] at hgs
        obtain rfl := Option.some.inj hgs
        exact ⟨h2, h3⟩
    · have hlose : c.lose (outcomes c.sent).losses = c := by
        rw [lose_eq, if_pos (not_not.mp hloss)]
      unfold executeAll andThen executeQuery query succeeds executed detached
      simp only [hlose, if_neg hloss]
      cases hok : (outcomes c.sent).ok with
      | false => simp [hc]
      | true =>
        have happly : Connection.apply f { c with sent := c.sent + 1 } =
            { c with transaction := some (f r), sent := c.sent + 1 } := by
          simp [Connection.apply, hc]
        obtain ⟨h1, h2, h3, h4⟩ :=
          ih { c with transaction := some (f r), sent := c.sent + 1 } (f r) rfl
        simp only [happly, if_true, Bool.true_and, applyAll_cons]
        refine ⟨h1, fun hsucc => ?_, h3, h4⟩
        have hsent := h2 hsucc
        rw [hsent, List.length_cons]
        exact Nat.succ_add_eq_add_succ c.sent fs.length

theorem executed_of_succeeds (fs : List (ρ → ρ)) :
    ∀ n, succeeds outcomes n fs = true → executed outcomes n fs = fs := by
  induction fs with
  | nil => exact fun _ _ => rfl
  | cons f fs ih =>
    intro n h
    simp only [succeeds, Bool.and_eq_true] at h
    rw [executed, if_pos h.1, ih (n + 1) h.2]

/-- The commit sees what one more statement without effect would see. -/
theorem commit_eq (c : Connection ρ) :
    (commit outcomes c).1 = (executeAll outcomes [id] c).1 ∧
      (commit outcomes c).2.stored =
        if (executeAll outcomes [id] c).1 then (executeAll outcomes [id] c).2.rows
        else (executeAll outcomes [id] c).2.stored := by
  have hid : ∀ c : Connection ρ, Connection.apply id c = c := by
    intro c
    unfold Connection.apply
    split
    next r hr => rw [id, ← hr]
    next => rfl
  unfold commit
  simp only [executeAll, andThen, executeQuery, query]
  cases hok : (outcomes c.sent).ok <;> simp [hid, Connection.finish]

theorem rollback_stored (c : Connection ρ) : (rollback outcomes c).2.stored = c.stored := by
  unfold rollback query
  cases hok : (outcomes c.sent).ok <;> simp [hok, Connection.discard]

/-- A scope comes to its statements and the commit, run inside the transaction. -/
theorem scope_eq {c : Connection ρ} (hbegin : (outcomes c.sent).ok = true)
    (fs : List (ρ → ρ)) :
    (DBTransaction.scope outcomes (executeAll outcomes fs) c).1 =
        (executeAll outcomes (fs ++ [id]) (beginTransaction outcomes c).2).1 ∧
      (DBTransaction.scope outcomes (executeAll outcomes fs) c).2.stored =
        if (executeAll outcomes (fs ++ [id]) (beginTransaction outcomes c).2).1 then
          (executeAll outcomes (fs ++ [id]) (beginTransaction outcomes c).2).2.rows
        else (executeAll outcomes (fs ++ [id]) (beginTransaction outcomes c).2).2.stored := by
  have hok : (beginTransaction outcomes c).1 = true := by
    simp [beginTransaction, query, hbegin]
  rw [executeAll_append]
  unfold DBTransaction.scope DBTransaction.begin andThen
  simp only [hok, Bool.not_true, Bool.false_eq_true, if_false]
  cases hbody : (executeAll outcomes fs (beginTransaction outcomes c).2).1 with
  | false => simp [DBTransaction.destructor, rollback_stored]
  | true =>
    obtain ⟨h1, h2⟩ := commit_eq outcomes (executeAll outcomes fs (beginTransaction outcomes c).2).2
    simp [DBTransaction.commit, DBTransaction.destructor, h1, h2]

variable (c : Connection ρ) (fs : List (ρ → ρ))

/-- The rows are the old ones or the new ones, and the new ones on success. -/
def AllOrNothing (old new : ρ) (result : Bool × Connection ρ) : Prop :=
  (result.2.stored = old ∨ result.2.stored = new) ∧
    (result.1 = true → result.2.stored = new)

/-- No statement of the transaction, the commit included, loses its connection, or
the statements that run on their own after the loss happen to lead to the new rows,
or back to the old ones with the last of them failing. -/
def KeepsTogether (n : ℕ) (fs : List (ρ → ρ)) (old : ρ) : Prop :=
  ∀ gs, detached outcomes n (fs ++ [id]) = some gs →
    applyAll gs old = applyAll fs old ∨
      (applyAll gs old = old ∧ succeeds outcomes n (fs ++ [id]) = false)

theorem scope_allOrNothing_iff {c : Connection ρ} (hc : c.transaction = none)
    (fs : List (ρ → ρ)) :
    AllOrNothing c.stored (applyAll fs c.stored)
        (DBTransaction.scope outcomes (executeAll outcomes fs) c) ↔
      ((outcomes c.sent).ok = true → KeepsTogether outcomes (c.sent + 1) fs c.stored) := by
  cases hbegin : (outcomes c.sent).ok with
  | false =>
    -- nothing but the rollback of a transaction that was never open
    have hfails : (beginTransaction outcomes c).1 = false := by
      simp [beginTransaction, query, hbegin]
    have hstored : (beginTransaction outcomes c).2.stored = c.stored := by
      simp [beginTransaction, query, hbegin]
    simp [AllOrNothing, DBTransaction.scope, DBTransaction.begin, DBTransaction.destructor,
      hfails, rollback_stored, hstored]
  | true =>
    obtain ⟨hresult, hstored⟩ := scope_eq outcomes hbegin fs
    have hstart : (beginTransaction outcomes c).2.transaction = some c.stored ∧
        (beginTransaction outcomes c).2.stored = c.stored ∧
        (beginTransaction outcomes c).2.sent = c.sent + 1 := by
      simp [beginTransaction, query, hbegin, Connection.start, Connection.rows,
        lose_transaction hc]
    obtain ⟨htrans, hst, hsent⟩ := hstart
    obtain ⟨h1, -, h3, h4⟩ := executeAll_within outcomes (fs ++ [id])
      (beginTransaction outcomes c).2 c.stored htrans
    rw [hsent, hst] at *
    unfold AllOrNothing
    rw [hresult, hstored, h1]
    simp only [true_implies]
    cases hdet : detached outcomes (c.sent + 1) (fs ++ [id]) with
    | none =>
      obtain ⟨hs, ht⟩ := h3 hdet
      have hkeeps : KeepsTogether outcomes (c.sent + 1) fs c.stored := by
        intro gs hgs
        simp [hdet] at hgs
      refine iff_of_true ?_ hkeeps
      cases hsucc : succeeds outcomes (c.sent + 1) (fs ++ [id]) with
      | false => simp [hs]
      | true =>
        have hrows := executed_of_succeeds outcomes (fs ++ [id]) (c.sent + 1) hsucc
        simp [Connection.rows, ht, hrows, applyAll_append]
    | some gs =>
      obtain ⟨hs, ht⟩ := h4 gs hdet
      have hkeeps : KeepsTogether outcomes (c.sent + 1) fs c.stored ↔
          applyAll gs c.stored = applyAll fs c.stored ∨
            (applyAll gs c.stored = c.stored ∧
              succeeds outcomes (c.sent + 1) (fs ++ [id]) = false) := by
        unfold KeepsTogether
        simp [hdet]
      rw [hkeeps]
      cases hsucc : succeeds outcomes (c.sent + 1) (fs ++ [id]) with
      | false => simp [hs, or_comm]
      | true =>
        simp only [if_true, Connection.rows, ht, Option.getD_none, hs]
        tauto

end ExecuteAll

end TibiaServer.Database
