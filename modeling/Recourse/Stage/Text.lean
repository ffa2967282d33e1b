import Recourse.Stage.Setup
import Recourse.Decimal.Read
/-!
How stage models, cost-to-go functions and pools of cuts present themselves.
-/

namespace Recourse

def Pool.shown (p : Pool Float) : String :=
  s!"<DefaultCutOracle, {p.cuts.length} cuts, {p.pruned} pruned>"

namespace CostToGo

def kindName (c : CostToGo Float) : String :=
  if c.lagged then "RHSAR1ValueFunction" else "DefaultValueFunction"

def shown (c : CostToGo Float) : String := s!"<{c.kindName}, {c.pool.cuts.length} cuts>"

end CostToGo

namespace Stage

def shownSettings (s : Stage Float) : String :=
  if s.settings.isEmpty then "No parameter changes"
  else
    let items := s.settings.map fun (name, value) => name ++ "=" ++ value.shown
    "Parameter changes: " ++ ", ".intercalate items

def shown (s : Stage Float) : String :=
  let name := if s.name.isEmpty then "Unnamed" else s.name
  let program :=
    s!"gurobi.Model Continuous instance {name}: {s.rows.length} constrs, {s.columns.length} vars, {s.shownSettings}"
  let random := if s.random.isEmpty then ""
    else ", discrete uncertainties on the RHS of constraints"
  let noise := if s.noise.isEmpty then "" else s!", {s.noise.length} autoregressive noise"
  s!"<Stochastic {program}, {s.states.length} state variables, {s.sampleCount} samples{random}{noise}>"

def magnitudes (xs : List Float) : List Float :=
  (xs.filter fun x => x.isFinite && x != 0.0).map Float.abs

def largest (xs : List Float) : Datum Float := .real (xs.foldl max 0.0)

def smallest : List Float → Datum Float
  | [] => .real 0.0
  | x :: xs => .real (xs.foldl min x)

def coefficientList (s : Stage Float) : List Float :=
  s.rows.flatMap fun r =>
    (r.terms.map (·.2)).filter fun a => decide (Constraint.negligible < Scalar.abs a)

def limitList (s : Stage Float) : List Float :=
  s.columns.flatMap fun c => [c.lower.toFloat, c.upper.toFloat]

/-- What can be asked of the linear program of a model, by a name in small letters. It has
continuous variables, linear constraints and one objective only; the value of the objective is there
once the program is solved. -/
def programProperty? (s : Stage Float) (name : String) : Option (Datum Float) :=
  match name with
  | "modelname" => some (.text s.name)
  | "numvars" => some (.int s.columns.length)
  | "numconstrs" => some (.int s.rows.length)
  | "numnzs" => some (.int s.coefficientList.length)
  | "dnumnzs" => some (.real (Float.ofNat s.coefficientList.length))
  | "modelsense" => some (.int (match s.sense with
      | .minimize => 1
      | .maximize => -1))
  | "numobj" => some (.int 1)
  | "objcon" => some (.real s.constant)
  | "status" => some (.int s.status.code)
  | "solcount" => some (.int (if s.solution.isSome then 1 else 0))
  | "objval" | "objbound" | "objboundc" => s.solution.map fun x => .real x.value
  | "maxrhs" => some (largest (magnitudes (s.rows.map (·.rhs))))
  | "minrhs" => some (smallest (magnitudes (s.rows.map (·.rhs))))
  | "maxcoeff" => some (largest (magnitudes s.coefficientList))
  | "mincoeff" => some (smallest (magnitudes s.coefficientList))
  | "maxbound" => some (largest (magnitudes s.limitList))
  | "minbound" => some (smallest (magnitudes s.limitList))
  | "maxobjcoeff" => some (largest (magnitudes (s.columns.map (·.cost))))
  | "minobjcoeff" => some (smallest (magnitudes (s.columns.map (·.cost))))
  | "numintvars" | "numbinvars" | "numsos" | "numqconstrs" | "numgenconstrs" | "numqnzs"
  | "numqcnzs" | "numpwlobjvars" | "ismip" | "isqp" | "isqcp" | "ismultiobj" | "numscenarios" =>
    some (.int 0)
  | _ => none

def columnDatum (s : Stage Float) (i : Nat) : Datum Float := .text (s.columnLabel i)

def rowDatum (s : Stage Float) (id : Nat) : Datum Float :=
  .text ("<gurobi.Constr " ++ ((s.rows.find? fun r => r.id = id).map (·.name)).getD "" ++ ">")

def randomDatum (s : Stage Float) : Datum Float :=
  .record (s.random.map fun r => match r with
    | .single row samples => ((s.rowDatum row).shown, .list (samples.map .real))
    | .block rows samples =>
      ((Datum.list (rows.map s.rowDatum)).shown,
        .list (samples.map fun xs => .list (xs.map .real))))

def part? (s : Stage Float) (name : String) : Option (Datum Float) :=
  let columns (is : List Nat) : Option (Datum Float) := some (.list (is.map s.columnDatum))
  let rows (ids : List Nat) : Option (Datum Float) := some (.list (ids.map s.rowDatum))
  match name with
  | "stage" => some s.stage
  | "Markov_state" => some s.markovState
  | "n_states" => some (.int s.states.length)
  | "n_samples" => some (.int s.sampleCount)
  | "n_noise_states" => some (.int s.noise.length)
  | "states" => columns s.states
  | "local_copies" => columns s.copies
  | "noise_states" => columns s.noise
  | "noise_local_copies" => columns s.noiseCopies
  | "link_constrs" => rows s.links
  | "noise_link_constrs" => rows s.noiseLinks
  | "_flag_link" => some (.int (if s.linked then 1 else 0))
  | "initial_values" => some (.list s.initial)
  | "uncertainty_rhs" => some s.randomDatum
  | "probability" => some (match s.probability with
    | some p => .list (p.map .real)
    | none => .null)
  | "ar_coefficients" => some (match s.coefficients with
    | some rows => .list (rows.map fun row => .list (row.map .real))
    | none => .null)
  | "alpha" => some ((s.costToGoColumn.map s.columnDatum).getD .null)
  | "value_function" => some ((s.costToGo.map fun c => .text c.shown).getD .null)
  | _ => none

/-- What can be asked of a model by name: its own parts, and what its program tells under a name in
any mixture of capital and small letters. -/
def property (s : Stage Float) (name : String) : Except (Fault Float) (Datum Float) :=
  match s.part? name with
  | some d => .ok d
  | none => match s.programProperty? name.toLower with
    | some d => .ok d
    | none => .error (.missingAttribute name)

end Stage

end Recourse
