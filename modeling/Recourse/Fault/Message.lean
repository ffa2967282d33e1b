import Recourse.Fault
import Recourse.Datum.Text
import Recourse.Decimal.Read
/-!
The wording of faults. A fault found by the arithmetic, and not by a check of the library, has none.
-/

namespace Recourse

def TailParameter.letter : TailParameter → String
  | .weight => "l"
  | .level => "a"

def ConstructionFault.message : ConstructionFault Float → String
  | .arguments => "Arguments of SDDP construction are not valid!"
  | .stateLimits name many =>
    let noun := if many then "variables" else "variable"
    s!"lower bound of state {noun} {name} exceeds the upper bound!"
  | .initialCount given states =>
    s!"{given} initial values are given to {states} state variables!"
  | .initialOutside value column lower upper =>
    s!"initial value {value.shown} of {column} is out of its bounds [{lower.shown}, {upper.shown}]!"
  | .chainLength given stages =>
    s!"The transition_matrix is of length {given}, expecting of length {stages.shown}!"
  | .chainEntries stage => s!"Transition matrix of stage {stage} must only contain numbers!"
  | .chainRows stage rows => s!"Transition matrix of stage {stage} must have {rows} rows!"
  | .chainRange stage => s!"Transition probabilities of stage {stage} must be between 0 and 1!"
  | .firstStageRandom => "First stage must be deterministic!"
  | .rowTotal state stage =>
    s!"Probability of Markov state {state} at stage {stage} does not sum to one!"
  | .idleRowTotal state stage =>
    s!"Probability of Markov state {state} at stage {stage} does not sum to zero or one!"
  | .noStates => "State variables must be set!"
  | .stateCounts stage =>
    s!"Markov states of stage {stage} have different numbers of state variables!"
  | .noiseCounts stage => s!"Markov states of stage {stage} have different dimensions of noise!"
  | .laggedNoise stage =>
    let previous : Int := stage - 1
    s!"Markov states of stage {stage} must either all or none depend on the noise of stage {previous}!"
  | .firstStageLagged => "AR1 noise of the first stage must not have coefficients!"
  | .copyCount stage copies states =>
    s!"Stage {stage} has {copies} local copies while stage {stage - 1} has {states} state variables!"
  | .laggedCount stage expected present =>
    s!"AR1 coefficients of stage {stage} expect noise of dimension {expected} while stage {stage - 1} has noise of dimension {present}!"

def ValueFault.message? : ValueFault Float → Option String
  | .scenarioEntries => some "Scenarios must only contains numbers!"
  | .scenarioShape given object =>
    let given := match given with
      | some n => toString n
      | none => "None"
    some s!"dimension of the scenarios is {given} while dimension of the added object is {object}!"
  | .noScenarios => some "Scenarios must not be empty!"
  | .noiseTwice => some "AR1 uncertainty has already been added!"
  | .innovationShape => some "innovations must be of shape (n_samples, dim)!"
  | .coefficientRows dimension => some s!"coefficients must be a matrix with {dimension} rows!"
  | .probabilityCount => some "probability tree != compatible with scenario tree"
  | .probabilityTotal => some "probability must be non-negative and sum to one!"
  | .chainTwice => some "Markovian uncertainty has already added!"
  | .chainLate => some "Markov chain must be added before building the stage models!"
  | .measureStage => some "Risk measures are set on stages 1 to T-1!"
  | .tailCount parameter => some s!"Length of {parameter.letter} must be T-1!"
  | .tailRange parameter => some s!"{parameter.letter} must be between 0 and 1!"
  | .tailLevel => some "a must be in (0,1]!"
  | .seedKind seed =>
    some s!"{seed.spelled} cannot be used to seed a numpy.random.RandomState instance"
  | _ => none

def KindFault.message? : KindFault → Option String
  | .uncertaintyForm => some "wrong uncertainty format!"
  | .uncertaintyKey => some "only uncertainty on the RHS of constraints is supported!"
  | .tailKind parameter kind =>
    some s!"{parameter.letter} should be float/array-like instead of <class '{kind}'>!"
  | _ => none

namespace SolveFailure

def subject (f : SolveFailure Float) : String :=
  let phase := if f.phase.isEmpty then "" else f.phase ++ " "
  s!"{phase}subproblem at stage {f.stage.shown}, Markov state {f.markovState.shown}, sample {f.sample.shown}"

def ending (f : SolveFailure Float) : String :=
  match f.status.number? with
  | none => "not optimal"
  | some x =>
    if x == 3 then "infeasible"
    else if x == 4 then "infeasible or unbounded"
    else if x == 5 then "unbounded"
    else if x == 12 then "numerical trouble"
    else "not optimal"

def message (f : SolveFailure Float) : String :=
  s!"{f.subject} is {f.ending} (status {f.status.shown}); check complete recourse condition!"

end SolveFailure

def sampleSizeMessage (model present samples given : Datum Float) : String :=
  s!"Dimensionality of stochasticModel {model.shown} is {present.shown} but dimension of the uncertainty {samples.shown} is {given.shown}"

def Fault.message? : Fault Float → Option String
  | .construction cause => some cause.message
  | .value cause => cause.message?
  | .kind cause => cause.message?
  | .sampleSize model present samples given =>
    some (sampleSizeMessage model present samples given)
  | .unsolved failure => some failure.message
  | .singleObservation | .interrupted => some ""
  | .missingAttribute name => some s!"no attribute named {name}"
  | _ => none

end Recourse
