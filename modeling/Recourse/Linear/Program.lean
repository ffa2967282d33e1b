import Recourse.Limit
/-!
Linear programs as values, and what a solver has to answer about them. The library never looks
inside a solver: it hands over a program and goes by the verdict.
-/

namespace Recourse

inductive Relation where
  | equal
  | atMost
  | atLeast
deriving DecidableEq, Repr, Inhabited

structure Column (α : Type) where
  name : String
  lower : Limit α
  upper : Limit α
  cost : α

/-- A constraint. Rows are known by an identifier, because rows come and go; a term is the position
of a column with its coefficient. -/
structure Row (α : Type) where
  id : Nat
  name : String
  terms : List (Nat × α)
  relation : Relation
  rhs : α

structure Program (α : Type) where
  sense : Sense
  columns : List (Column α)
  rows : List (Row α)
  constant : α

/-- An optimal point with its value and a dual price per row: the rate at which the value follows
the right-hand side. -/
structure Optimum (α : Type) where
  point : List α
  value : α
  duals : List α

inductive Verdict (α : Type) where
  | optimal (o : Optimum α)
  | infeasible
  | unbounded
  | gaveUp

abbrev Solver (α : Type) := Program α → Verdict α

namespace Row

variable {α : Type} [Scalar α]

def activity (r : Row α) (x : List α) : α :=
  Scalar.total (r.terms.map fun t => t.2 * x.getD t.1 0)

def Holds (r : Row α) (x : List α) : Prop :=
  match r.relation with
  | .equal => r.activity x ≤ r.rhs ∧ r.rhs ≤ r.activity x
  | .atMost => r.activity x ≤ r.rhs
  | .atLeast => r.rhs ≤ r.activity x

end Row

namespace Program

variable {α : Type} [Scalar α]

def objective (p : Program α) (x : List α) : α :=
  p.constant + Scalar.dot (p.columns.map (·.cost)) x

def Feasible (p : Program α) (x : List α) : Prop :=
  x.length = p.columns.length ∧
  (∀ cx ∈ p.columns.zip x,
    cx.1.lower.effective.leNumber cx.2 = true ∧ Limit.numberLe cx.2 cx.1.upper.effective = true) ∧
  ∀ r ∈ p.rows, r.Holds x

end Program

end Recourse
