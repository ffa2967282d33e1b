import Recourse.Datum
/-!
Why an operation fails. A fault names the cause and carries what its wording needs; the wording is
in `Fault.Message`. An interrupt from outside is a fault too, as far as it goes.
-/

namespace Recourse

inductive ConstructionFault (α : Type) where
  | arguments
  | stateLimits (name : String) (many : Bool)
  | initialCount (given states : Nat)
  | initialOutside (value : Datum α) (column : String) (lower upper : Limit α)
  | chainLength (given : Nat) (stages : Datum α)
  | chainEntries (stage : Nat)
  | chainRows (stage rows : Nat)
  | chainRange (stage : Nat)
  | firstStageRandom
  | rowTotal (state stage : Nat)
  | idleRowTotal (state stage : Nat)
  | noStates
  | stateCounts (stage : Nat)
  | noiseCounts (stage : Nat)
  | laggedNoise (stage : Nat)
  | firstStageLagged
  | copyCount (stage copies states : Nat)
  | laggedCount (stage expected present : Nat)

inductive TailParameter where
  | weight
  | level
deriving DecidableEq, Repr

inductive ValueFault (α : Type) where
  | scenarioEntries
  | scenarioShape (given : Option Nat) (object : Nat)
  | noScenarios
  | noiseTwice
  | innovationShape
  | coefficientRows (dimension : Nat)
  | probabilityCount
  | probabilityTotal
  | chainTwice
  | chainLate
  | measureStage
  | tailCount (parameter : TailParameter)
  | tailRange (parameter : TailParameter)
  | tailLevel
  | seedKind (seed : Datum α)
  | seedRange
  | lengths
  | notNumeric
  | distribution
  | population
  | zeroStep
  | noOutcomes
  | format

inductive KindFault where
  | uncertaintyForm
  | uncertaintyKey
  | tailKind (parameter : TailParameter) (kind : String)
  | arguments
  | number

/-- A linear program is asked for something that it does not have, or is given something that it
cannot hold. -/
inductive ProgramFault where
  | parameter
  | fileFormat
  | file
  | lengths
  | number
  | nameLength
  | keys

structure SolveFailure (α : Type) where
  stage : Datum α
  markovState : Datum α
  sample : Datum α
  status : Datum α
  phase : String

/-- Why an operation fails. Besides the causes that the library names: a whole number is beyond the
range of numbers, values given one by one are not as many as needed, two data have no order that
arithmetic knows, a part, a column, a file or the folder for it is missing, and somebody has
interrupted the work. -/
inductive Fault (α : Type) where
  | construction (cause : ConstructionFault α)
  | value (cause : ValueFault α)
  | kind (cause : KindFault)
  | program (cause : ProgramFault)
  | sampleSize (model : Datum α) (present : Datum α) (samples : Datum α) (given : Datum α)
  | unsolved (failure : SolveFailure α)
  | position
  | zeroDivision
  | overflow
  | count
  | incomparable
  | singleObservation
  | missingColumn
  | missingAttribute (name : String)
  | missingPart
  | missingFile
  | missingFolder
  | emptyTable
  | raggedTable
  | interrupted

end Recourse
