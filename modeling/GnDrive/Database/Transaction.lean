/-
  GnDrive.Database.Transaction

  `Database::transaction` (`database.rs`) over a connection to SQLite.

  SQLite is given by what it documents.  A connection is in autocommit mode or
  has one open transaction, whose changes are kept apart until `COMMIT`.  A
  statement that fails is undone; some failures (a full disk, an I/O error, no
  memory) roll back the whole transaction with it, and what comes next runs in
  autocommit mode.  `COMMIT` and `ROLLBACK` can fail and leave the transaction
  open.  Which statements fail, and how, is up to the environment.

  `transaction` rolls back for a body that returns an error and for nothing
  else.  `transaction_atomic_iff` says exactly when a call that does not return
  `Ok` has left the connection as it was.
-/

import GnDrive.Lib.Prog
import GnDrive.Lib.Text

namespace GnDrive.Database

inductive DatabaseError where
  | prepare (msg : Text)
  | step (msg : Text)
  | closed
deriving DecidableEq

/-- How SQLite takes a statement. -/
inductive Reply where
  | done
  /-- It fails and is undone. -/
  | fails (e : DatabaseError)
  /-- It fails, and the open transaction is rolled back. -/
  | rollsBack (e : DatabaseError)

/-- A statement over contents `α`, with rows `V`.  One that breaks a constraint
    is an `error` of its own. -/
inductive Sql (α V : Type) where
  | data (f : α → Except DatabaseError (V × α))
  | begin
  | commit
  | rollback

structure Conn (α : Type) where
  saved : α
  /-- The content as the open transaction sees it. -/
  working : Option α
  /-- The number of statements so far. -/
  count : Nat

/-- `panic` is a body that unwinds. -/
inductive Outcome (T E : Type) where
  | ok (v : T)
  | err (e : E)
  | panic

/-- What is done with a connection: statements, each depending on the answers to
    those before it. -/
abbrev Tx (α V : Type) := Prog (Sql α V) fun _ => Except DatabaseError (Option V)

def nestedTransaction : DatabaseError :=
  .step "cannot start a transaction within a transaction".toList

def noTransaction : DatabaseError := .step "no transaction is active".toList

section

variable {α V T E : Type}

/-- `run_exec` and `run_query`. -/
def exec (env : Nat → Reply) (q : Sql α V) (c : Conn α) :
    Except DatabaseError (Option V) × Conn α :=
  let next := { c with count := c.count + 1 }
  match env c.count with
  | .fails e => (.error e, next)
  | .rollsBack e => (.error e, { next with working := none })
  | .done =>
      match q, c.working with
      | .data f, some w =>
          match f w with
          | .ok (v, w) => (.ok (some v), { next with working := some w })
          | .error e => (.error e, next)
      | .data f, none =>
          match f c.saved with
          | .ok (v, w) => (.ok (some v), { next with saved := w })
          | .error e => (.error e, next)
      | .begin, none => (.ok none, { next with working := some c.saved })
      | .begin, some _ => (.error nestedTransaction, next)
      | .commit, some w => (.ok none, { next with saved := w, working := none })
      | .rollback, some _ => (.ok none, { next with working := none })
      | .commit, none | .rollback, none => (.error noTransaction, next)

/-- `BEGIN IMMEDIATE … COMMIT` around the body. -/
def inTransaction (fromDb : DatabaseError → E) (body : Tx α V (Outcome T E)) :
    Tx α V (Outcome T E) := do
  match ← Prog.call .begin with
  | .error e => return .err (fromDb e)
  | .ok _ =>
      match ← body with
      | .ok v =>
          match ← Prog.call .commit with
          | .error e => return .err (fromDb e)
          | .ok _ => return .ok v
      | .err e =>
          let _ ← Prog.call .rollback
          return .err e
      | .panic => return .panic

/-- `Database::transaction`; a closed database is `none`. -/
def transaction (env : Nat → Reply) (fromDb : DatabaseError → E)
    (body : Tx α V (Outcome T E)) : Option (Conn α) → Outcome T E × Option (Conn α)
  | none => (.err (fromDb .closed), none)
  | some c =>
      let r := Prog.run (exec env) (inTransaction fromDb body) c
      (r.1, some r.2)

/-- Outside of any transaction, and over the same content. -/
def Untouched (c c' : Conn α) : Prop := c'.working = none ∧ c'.saved = c.saved

/-- The database is as before, and not inside a transaction. -/
def Atomic (db : Option (Conn α)) : Outcome T E × Option (Conn α) → Prop
  | (.ok _, _) => True
  | (_, none) => db = none
  | (_, some c') => ∃ c, db = some c ∧ Untouched c c'

/-- After a `BEGIN` that goes through. -/
def Conn.begun (c : Conn α) : Conn α := ⟨c.saved, some c.saved, c.count + 1⟩

/-- The next statement fails and leaves the open transaction open. -/
def Sticks (env : Nat → Reply) (c : Conn α) : Prop :=
  c.working.isSome = true ∧ ∃ e, env c.count = .fails e

/-- The next statement goes through in an open transaction. -/
def GoesThrough (env : Nat → Reply) (c : Conn α) : Prop :=
  c.working.isSome = true ∧ env c.count = .done

/-- The body, started on `c`, leaves nothing behind that `transaction` does not
    put in order. -/
def Leaves (env : Nat → Reply) (c : Conn α) : Outcome T E × Conn α → Prop
  | (.ok _, c') => GoesThrough env c' ∨ c'.saved = c.saved ∧ ¬ Sticks env c'
  | (.err _, c') => c'.saved = c.saved ∧ ¬ Sticks env c'
  | (.panic, c') => c'.saved = c.saved ∧ c'.working = none

/-- `BEGIN` fails on a connection without a transaction, or the body leaves
    nothing behind; and a transaction that is open before is rolled back. -/
def Recovers (env : Nat → Reply) (body : Tx α V (Outcome T E)) (c : Conn α) : Prop :=
  match c.working, env c.count with
  | none, .done => Leaves env c (Prog.run (exec env) body c.begun)
  | none, _ => True
  | some _, .rollsBack _ => True
  | some _, _ => False

end

-- ============================================================================
-- The statements that control the transaction
-- ============================================================================

section

variable {α V T E : Type} {env : Nat → Reply} {c : Conn α} {fromDb : DatabaseError → E}
  {body : Tx α V (Outcome T E)} {db : Option (Conn α)}

/-- `COMMIT` and `ROLLBACK` leave the transaction open exactly if they fail
    without rolling it back. -/
theorem working_commit (V : Type) (env : Nat → Reply) (c : Conn α) :
    (exec env (.commit : Sql α V) c).2.working = none ↔ ¬ Sticks env c := by
  unfold exec Sticks
  cases henv : env c.count with
  | done => cases c.working <;> simp
  | fails e => cases c.working <;> simp
  | rollsBack e => simp

theorem working_rollback (V : Type) (env : Nat → Reply) (c : Conn α) :
    (exec env (.rollback : Sql α V) c).2.working = none ↔ ¬ Sticks env c := by
  unfold exec Sticks
  cases henv : env c.count with
  | done => cases c.working <;> simp
  | fails e => cases c.working <;> simp
  | rollsBack e => simp

/-- `ROLLBACK` saves nothing. -/
theorem saved_rollback (V : Type) (env : Nat → Reply) (c : Conn α) : (exec env (.rollback : Sql α V) c).2.saved = c.saved := by
  unfold exec
  cases henv : env c.count with
  | done => cases hw : c.working <;> simp
  | fails e => rfl
  | rollsBack e => rfl

/-- `COMMIT` succeeds, or saves nothing. -/
theorem commit_spec (V : Type) (env : Nat → Reply) (c : Conn α) :
    GoesThrough env c ∧ (∃ v, (exec env (.commit : Sql α V) c).1 = .ok v) ∨
      ¬ GoesThrough env c ∧ (∃ e, (exec env (.commit : Sql α V) c).1 = .error e) ∧
        (exec env (.commit : Sql α V) c).2.saved = c.saved := by
  unfold exec GoesThrough
  cases henv : env c.count with
  | done => cases c.working <;> simp
  | fails e => simp
  | rollsBack e => simp

/-- What a transaction comes to, once it has begun. -/
theorem transaction_begun (hc : c.working = none) (henv : env c.count = .done) :
    Prog.run (exec env) (inTransaction fromDb body) c =
      match Prog.run (exec env) body c.begun with
      | (.ok v, c') =>
          match exec env (.commit : Sql α V) c' with
          | (.ok _, c'') => (.ok v, c'')
          | (.error e, c'') => (.err (fromDb e), c'')
      | (.err e, c') => (.err e, (exec env (.rollback : Sql α V) c').2)
      | (.panic, c') => (.panic, c') := by
  have hbegin : exec env (.begin : Sql α V) c = (.ok none, c.begun) := by
    simp [exec, henv, hc, Conn.begun]
  simp only [inTransaction, Prog.bind_eq, Prog.call, Prog.cmd_bind, Prog.pure_bind, Prog.run,
    hbegin, Prog.run_bind, Prog.pure_eq]
  rcases Prog.run (exec env) body c.begun with ⟨v | e | -, c'⟩
  · rcases hcommit : exec env (.commit : Sql α V) c' with ⟨e | r, c''⟩
    · simp [Prog.run, hcommit]
    · simp [Prog.run, hcommit]
  · simp [Prog.run]
  · simp [Prog.run]

/-- A transaction whose `BEGIN` does not go through. -/
theorem transaction_not_begun (fromDb : DatabaseError → E) (body : Tx α V (Outcome T E))
    (h : c.working.isSome = true ∨ env c.count ≠ .done) :
    ∃ e, Prog.run (exec env) (inTransaction fromDb body) c =
      (.err (fromDb e), (exec env (.begin : Sql α V) c).2) := by
  have hbegin : ∃ e, (exec env (.begin : Sql α V) c).1 = .error e := by
    unfold exec
    cases henv : env c.count with
    | fails e => exact ⟨e, rfl⟩
    | rollsBack e => exact ⟨e, rfl⟩
    | done =>
      obtain ⟨w, hw⟩ : ∃ w, c.working = some w := by
        rcases h with h | h
        · exact Option.isSome_iff_exists.mp h
        · exact absurd henv h
      exact ⟨nestedTransaction, by simp [hw]⟩
  obtain ⟨e, he⟩ := hbegin
  refine ⟨e, ?_⟩
  simp only [inTransaction, Prog.bind_eq, Prog.call, Prog.cmd_bind, Prog.pure_bind, Prog.run, he,
    Prog.pure_eq]

theorem atomic_some {o : Outcome T E} {c' : Conn α} :
    Atomic (some c) (o, some c') ↔ (∃ v, o = .ok v) ∨ Untouched c c' := by
  cases o with
  | ok v => simp [Atomic]
  | err e => simp [Atomic]
  | panic => simp [Atomic]

/-- A transaction that does not begin. -/
theorem untouched_not_begun (h : c.working.isSome = true ∨ env c.count ≠ .done) :
    Untouched c (exec env (.begin : Sql α V) c).2 ↔ Recovers env body c := by
  unfold Untouched Recovers exec
  cases hw : c.working with
  | none =>
    cases henv : env c.count with
    | done => exact absurd henv (by simpa [hw] using h)
    | fails e => simp
    | rollsBack e => simp
  | some w => cases env c.count <;> simp

/-- One that has begun has returned `Ok` or been undone exactly if the body
    leaves nothing behind. -/
theorem begun_leaves (hc : c.working = none) (henv : env c.count = .done) :
    (∃ v, (Prog.run (exec env) (inTransaction fromDb body) c).1 = .ok v) ∨
        Untouched c (Prog.run (exec env) (inTransaction fromDb body) c).2 ↔
      Leaves env c (Prog.run (exec env) body c.begun) := by
  rw [transaction_begun hc henv]
  rcases Prog.run (exec env) body c.begun with ⟨v | e | -, c'⟩
  · have hworking := working_commit V env c'
    rcases commit_spec V env c' with
      ⟨hthrough, r, hr⟩ | ⟨hnot, ⟨e, he⟩, hsaved⟩
    · rcases hcommit : exec env (.commit : Sql α V) c' with ⟨r', c''⟩
      obtain rfl : r' = .ok r := by rw [← hr, hcommit]
      exact iff_of_true (.inl ⟨v, by simp only [hcommit]⟩) (.inl hthrough)
    · rcases hcommit : exec env (.commit : Sql α V) c' with ⟨r', c''⟩
      obtain rfl : r' = .error e := by rw [← he, hcommit]
      simp only [hcommit] at hsaved hworking
      simp only [Leaves, hnot, false_or, Untouched, hcommit, hworking, hsaved, reduceCtorEq,
        exists_false]
      exact and_comm
  · simp only [Leaves, Untouched, working_rollback, saved_rollback, reduceCtorEq, exists_false,
      false_or]
    exact and_comm
  · simp only [Leaves, Untouched, reduceCtorEq, exists_false, false_or]
    exact and_comm

/-- A call that does not return `Ok` leaves the database as it was and outside
    of any transaction, exactly if the transaction recovers. -/
theorem transaction_atomic_iff {α V T E : Type} (env : Nat → Reply) (fromDb : DatabaseError → E)
    (body : Tx α V (Outcome T E)) (db : Option (Conn α)) :
    Atomic db (transaction env fromDb body db) ↔ ∀ c, db = some c → Recovers env body c := by
  cases db with
  | none => simp [transaction, Atomic]
  | some c =>
    have hone : (∀ c', some c = some c' → Recovers env body c') ↔ Recovers env body c := by simp
    rw [hone, transaction, atomic_some]
    by_cases hbegun : c.working.isSome = true ∨ env c.count ≠ .done
    · obtain ⟨e, hrun⟩ := transaction_not_begun fromDb body hbegun
      rw [hrun]
      simp only [reduceCtorEq, exists_false, false_or]
      exact untouched_not_begun hbegun
    · obtain ⟨hc, henv⟩ : c.working = none ∧ env c.count = .done := by simpa using hbegun
      rw [begun_leaves hc henv]
      simp only [Recovers, hc, henv]

end

/-- A `COMMIT` that fails and leaves the transaction open: the write is neither
    stored nor undone, and the next transaction cannot begin. -/
theorem transaction_left_open :
    ∃ (env : Nat → Reply) (body : Tx Nat Unit (Outcome Unit DatabaseError)) (c : Conn Nat),
      c.working = none ∧ ¬ Atomic (some c) (transaction env id body (some c)) ∧
      ∃ c', (transaction env id body (some c)).2 = some c' ∧ c'.working = some 1 ∧
        (transaction env id body (some c')).1 = .err nestedTransaction := by
  refine ⟨fun n => if n = 2 then .fails (.step "database is locked".toList) else .done,
    (Prog.call (.data fun w => .ok ((), w + 1))).bind fun _ => .pure (.ok ()), ⟨0, none, 0⟩, rfl,
    ?_, _, rfl, rfl, rfl⟩
  rintro ⟨c, hc, hworking, -⟩
  cases hworking

/-- A body that panics leaves its transaction open. -/
theorem panic_leaves_open {α V T E : Type} (env : Nat → Reply) (fromDb : DatabaseError → E)
    (c : Conn α) (hc : c.working = none) (henv : env c.count = .done) :
    (transaction env fromDb (.pure .panic : Tx α V (Outcome T E)) (some c)).2 = some c.begun := by
  simp only [transaction, transaction_begun hc henv, Prog.run]

-- ============================================================================
-- Statements one after another
-- ============================================================================

section

variable {α V E : Type} {env : Nat → Reply} {c : Conn α} {fromDb : DatabaseError → E}

/-- The body of `save_flow`: statements, and checks that fail, each with `?`. -/
def statements (fromDb : DatabaseError → E) :
    List (Except E (α → Except DatabaseError (V × α))) → Tx α V (Outcome Unit E)
  | [] => return .ok ()
  | .error e :: _ => return .err e
  | .ok f :: rest => do
      match ← Prog.call (.data f) with
      | .error e => return .err (fromDb e)
      | .ok _ => statements fromDb rest

/-- A statement in an open transaction saves nothing, and one that succeeds
    leaves the transaction open. -/
theorem exec_data (env : Nat → Reply) (f : α → Except DatabaseError (V × α)) (hc : c.working.isSome = true) :
    (exec env (.data f) c).2.saved = c.saved ∧
      ((∃ v, (exec env (.data f) c).1 = .ok v) →
        (exec env (.data f) c).2.working.isSome = true) := by
  obtain ⟨w, hw⟩ := Option.isSome_iff_exists.mp hc
  unfold exec
  cases env c.count with
  | fails e => simp
  | rollsBack e => simp
  | done =>
    simp only [hw]
    rcases f w with e | ⟨v, w'⟩
    · simp
    · simp

/-- In a transaction, such a body saves nothing, and returns `Ok` only while the
    transaction is open. -/
theorem statements_run (env : Nat → Reply) (fromDb : DatabaseError → E)
    (fs : List (Except E (α → Except DatabaseError (V × α)))) (hc : c.working.isSome = true) :
    (Prog.run (exec env) (statements fromDb fs) c).2.saved = c.saved ∧
      (Prog.run (exec env) (statements fromDb fs) c).1 ≠ .panic ∧
      ((Prog.run (exec env) (statements fromDb fs) c).1 = .ok () →
        (Prog.run (exec env) (statements fromDb fs) c).2.working.isSome = true) := by
  induction fs generalizing c with
  | nil => exact ⟨rfl, by simp [statements, Prog.pure_eq], fun _ => hc⟩
  | cons x fs ih =>
    cases x with
    | error e => exact ⟨rfl, by simp [statements, Prog.pure_eq], fun _ => hc⟩
    | ok f =>
      obtain ⟨hsaved, hopen⟩ := exec_data env f hc
      have hrun : Prog.run (exec env) (statements fromDb (.ok f :: fs)) c =
          match exec env (.data f) c with
          | (.error e, c') => (.err (fromDb e), c')
          | (.ok _, c') => Prog.run (exec env) (statements fromDb fs) c' := by
        simp only [statements, Prog.bind_eq, Prog.call, Prog.cmd_bind, Prog.pure_bind, Prog.run]
        rcases exec env (.data f) c with ⟨e | v, c'⟩ <;> rfl
      rw [hrun]
      rcases hexec : exec env (.data f) c with ⟨e | v, c'⟩
      · simp only [hexec] at hsaved
        exact ⟨hsaved, by simp, by simp⟩
      · simp only [hexec] at hsaved hopen
        obtain ⟨hrest, hpanic, hok⟩ := ih (hopen ⟨v, rfl⟩)
        exact ⟨hrest.trans hsaved, hpanic, hok⟩

/-- It is undone unless it returns `Ok`, if `ROLLBACK`, and a `COMMIT` that
    fails, do not leave the transaction open. -/
theorem statements_atomic (fs : List (Except E (α → Except DatabaseError (V × α))))
    (hc : c.working = none)
    (hends : ¬ Sticks env (Prog.run (exec env) (statements fromDb fs) c.begun).2) :
    Atomic (some c) (transaction env fromDb (statements fromDb fs) (some c)) := by
  rw [transaction_atomic_iff]
  rintro c' hc'
  obtain rfl := Option.some.inj hc'
  unfold Recovers
  rw [hc]
  cases henv : env c.count with
  | fails e => trivial
  | rollsBack e => trivial
  | done =>
    obtain ⟨hsaved, hpanic, -⟩ := statements_run env fromDb fs (c := c.begun) rfl
    rcases hrun : Prog.run (exec env) (statements fromDb fs) c.begun with ⟨v | e | -, c'⟩
    · simp only [hrun] at hsaved hends
      exact .inr ⟨hsaved, hends⟩
    · simp only [hrun] at hsaved hends
      exact ⟨hsaved, hends⟩
    · simp only [hrun] at hpanic
      exact absurd rfl hpanic

end
end GnDrive.Database
