import Mathlib.Data.List.Basic

/-!
# Transactions

What one connection does to the tables of a store: statements that fail leave nothing, and a
transaction's changes are seen by others when it commits.
-/

namespace WasmAgent.Core

/-- The tables others see, and those of the open transaction. -/
structure Connection (Tables : Type) where
  committed : Tables
  working : Option Tables

/-- Statements on one connection, up to the first that fails. -/
def Session (Tables Fault Value : Type) : Type :=
  Connection Tables → Except Fault Value × Connection Tables

namespace Session

variable {Tables Fault Value Next : Type}

def done (value : Value) : Session Tables Fault Value :=
  fun connection => (.ok value, connection)

def bind (session : Session Tables Fault Value) (next : Value → Session Tables Fault Next) :
    Session Tables Fault Next :=
  fun connection =>
    match session connection with
    | (.ok value, reached) => next value reached
    | (.error fault, reached) => (.error fault, reached)

instance : Monad (Session Tables Fault) where
  pure := done
  bind := bind

def lift (answer : Except Fault Value) : Session Tables Fault Value :=
  fun connection => (answer, connection)

def tables : Session Tables Fault Tables :=
  fun connection => (.ok (connection.working.getD connection.committed), connection)

def start (answer : Except Fault Unit) : Session Tables Fault Unit := fun connection =>
  match answer with
  | .ok () => (.ok (), { connection with working := some connection.committed })
  | .error fault => (.error fault, connection)

/-- A statement that writes in the open transaction. -/
def write (answer : Except Fault Unit) (change : Tables → Tables) : Session Tables Fault Unit :=
  fun connection =>
    match answer with
    | .ok () => (.ok (), { connection with working := connection.working.map change })
    | .error fault => (.error fault, connection)

def commit (answer : Except Fault Unit) : Session Tables Fault Unit := fun connection =>
  match answer with
  | .ok () => (.ok (), ⟨connection.working.getD connection.committed, none⟩)
  | .error fault => (.error fault, connection)

/-- A statement that writes outside a transaction. -/
def execute (answer : Except Fault Unit) (change : Tables → Tables) : Session Tables Fault Unit :=
  fun connection =>
    match answer with
    | .ok () => (.ok (), { connection with committed := change connection.committed })
    | .error fault => (.error fault, connection)

def run (session : Session Tables Fault Value) (tables : Tables) : Except Fault Value × Tables :=
  ((session ⟨tables, none⟩).1, (session ⟨tables, none⟩).2.committed)

section Success

variable {session : Session Tables Fault Value} {next : Value → Session Tables Fault Next}
variable {connection reached : Connection Tables}

theorem bind_ok {result : Next} (hok : (session >>= next) connection = (.ok result, reached)) :
    ∃ value middle, session connection = (.ok value, middle) ∧
      next value middle = (.ok result, reached) := by
  change bind session next connection = _ at hok
  rw [bind] at hok
  cases hses : session connection with
  | mk answer middle =>
    rw [hses] at hok
    cases answer with
    | ok value => exact ⟨value, middle, rfl, hok⟩
    | error fault => cases hok

theorem lift_ok {answer : Except Fault Value} {value : Value}
    (hok : lift answer connection = (.ok value, reached)) :
    answer = .ok value ∧ reached = connection :=
  ⟨congrArg Prod.fst hok, (congrArg Prod.snd hok).symm⟩

theorem tables_ok {tables : Tables}
    (hok : (Session.tables : Session Tables Fault Tables) connection = (.ok tables, reached)) :
    tables = connection.working.getD connection.committed ∧ reached = connection := by
  cases hok
  exact ⟨rfl, rfl⟩

variable {answer : Except Fault Unit}

theorem start_ok (hok : start answer connection = (.ok (), reached)) :
    reached = { connection with working := some connection.committed } := by
  cases answer with
  | ok _ =>
    cases hok
    rfl
  | error fault => cases hok

theorem write_ok {change : Tables → Tables}
    (hok : write answer change connection = (.ok (), reached)) :
    reached = { connection with working := connection.working.map change } := by
  cases answer with
  | ok _ =>
    cases hok
    rfl
  | error fault => cases hok

theorem commit_ok (hok : commit answer connection = (.ok (), reached)) :
    reached = ⟨connection.working.getD connection.committed, none⟩ := by
  cases answer with
  | ok _ =>
    cases hok
    rfl
  | error fault => cases hok

end Success

section Refusals

variable {session : Session Tables Fault Value} {next : Value → Session Tables Fault Next}

def Quiet (session : Session Tables Fault Value) : Prop :=
  ∀ connection, (session connection).2.committed = connection.committed

/-- The session commits nothing unless it succeeds. -/
def Undone (session : Session Tables Fault Value) : Prop :=
  ∀ connection fault, (session connection).1 = .error fault →
    (session connection).2.committed = connection.committed

theorem Quiet.lift (answer : Except Fault Value) :
    Quiet (lift answer : Session Tables Fault Value) :=
  fun _ => rfl

theorem Quiet.tables : Quiet (tables : Session Tables Fault Tables) :=
  fun _ => rfl

variable (answer : Except Fault Unit)

theorem Quiet.start : Quiet (start answer : Session Tables Fault Unit) := by
  intro connection
  cases answer with
  | ok | error => rfl

theorem Quiet.write (change : Tables → Tables) : Quiet (write answer change) := by
  intro connection
  cases answer with
  | ok | error => rfl

theorem Quiet.undone (hses : Quiet session) : Undone session :=
  fun connection _ _ => hses connection

theorem Undone.commit : Undone (commit answer : Session Tables Fault Unit) := by
  intro connection fault hflt
  cases answer with
  | ok _ => cases hflt
  | error found => rfl

theorem Undone.bind (hses : Quiet session) (hnext : ∀ value, Undone (next value)) :
    Undone (session >>= next) := by
  intro connection fault hflt
  have hfst := hses connection
  change (Session.bind session next connection).2.committed = _
  change (Session.bind session next connection).1 = _ at hflt
  rw [Session.bind] at hflt ⊢
  cases hrch : session connection with
  | mk answer middle =>
    rw [hrch] at hfst hflt
    cases answer with
    | ok value => exact (hnext value middle fault hflt).trans hfst
    | error found => exact hfst

theorem Undone.last (hses : Undone session) (result : Value → Next) :
    Undone (session >>= fun value => (Session.done (result value) : Session Tables Fault Next)) := by
  intro connection fault hflt
  change (Session.bind session _ connection).2.committed = _
  change (Session.bind session _ connection).1 = _ at hflt
  rw [Session.bind] at hflt ⊢
  have hfst := hses connection
  cases hrch : session connection with
  | mk answer middle =>
    rw [hrch] at hfst hflt
    cases answer with
    | ok value => cases hflt
    | error found => exact hfst found rfl

theorem Undone.run (hses : Undone session) {tables : Tables} {fault : Fault}
    (hflt : (session.run tables).1 = .error fault) : (session.run tables).2 = tables :=
  hses ⟨tables, none⟩ fault hflt

end Refusals

section Moves

variable {session : Session Tables Fault Value} {next : Value → Session Tables Fault Next}
variable {Follows : Tables → Tables → Prop} {connection : Connection Tables}

structure Following (Follows : Tables → Tables → Prop) (origin : Tables)
    (connection : Connection Tables) : Prop where
  committed : Follows origin connection.committed
  working : ∀ working ∈ connection.working, Follows origin working

def Moves (Follows : Tables → Tables → Prop) (session : Session Tables Fault Value) : Prop :=
  ∀ origin connection, Following Follows origin connection →
    Following Follows origin (session connection).2

theorem Moves.done (value : Value) : Moves Follows (done value : Session Tables Fault Value) :=
  fun _ _ hfolg => hfolg

theorem Moves.lift (answer : Except Fault Value) :
    Moves Follows (lift answer : Session Tables Fault Value) :=
  fun _ _ hfolg => hfolg

theorem Moves.tables : Moves Follows (tables : Session Tables Fault Tables) :=
  fun _ _ hfolg => hfolg

theorem Moves.start (answer : Except Fault Unit) :
    Moves Follows (start answer : Session Tables Fault Unit) := by
  intro origin connection hfolg
  cases answer with
  | error fault => exact hfolg
  | ok _ =>
    refine ⟨hfolg.committed, ?_⟩
    intro working hwor
    cases hwor
    exact hfolg.committed

variable {change : Tables → Tables}

theorem Moves.write (answer : Except Fault Unit)
    (hchg : ∀ origin tables, Follows origin tables → Follows origin (change tables)) :
    Moves Follows (write answer change) := by
  intro origin connection hfolg
  cases answer with
  | error fault => exact hfolg
  | ok _ =>
    refine ⟨hfolg.committed, ?_⟩
    intro working hwor
    obtain ⟨before, hbef, rfl⟩ := Option.map_eq_some_iff.mp hwor
    exact hchg origin before (hfolg.working before hbef)

theorem Moves.commit (answer : Except Fault Unit) :
    Moves Follows (commit answer : Session Tables Fault Unit) := by
  intro origin connection hfolg
  cases answer with
  | error fault => exact hfolg
  | ok _ =>
    refine Following.mk ?_ (nofun)
    change Follows origin (connection.working.getD connection.committed)
    cases hwor : connection.working with
    | none => exact hfolg.committed
    | some working => exact hfolg.working working hwor

theorem Moves.execute (answer : Except Fault Unit)
    (hchg : ∀ origin tables, Follows origin tables → Follows origin (change tables)) :
    Moves Follows (execute answer change) := by
  intro origin connection hfolg
  cases answer with
  | error fault => exact hfolg
  | ok _ => exact ⟨hchg origin _ hfolg.committed, hfolg.working⟩

theorem Moves.bind (hses : Moves Follows session) (hnext : ∀ value, Moves Follows (next value)) :
    Moves Follows (session >>= next) := by
  intro origin connection hfolg
  have hfst := hses origin connection hfolg
  change Following Follows origin (Session.bind session next connection).2
  rw [Session.bind]
  cases hrch : session connection with
  | mk answer middle =>
    rw [hrch] at hfst
    cases answer with
    | ok value => exact hnext value origin middle hfst
    | error fault => exact hfst

theorem Moves.run (hses : Moves Follows session) (tables : Tables)
    (hrefl : Follows tables tables) : Follows tables (session.run tables).2 :=
  (hses tables ⟨tables, none⟩ ⟨hrefl, nofun⟩).committed

end Moves

end Session

end WasmAgent.Core
