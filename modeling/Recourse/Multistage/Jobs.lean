import Recourse.Multistage.Trajectory
import Recourse.Schedule
/-!
Trajectories in numbers. Jobs are split into chunks; each chunk walks with a source of its own, made
from a common seed and the number of its first job, so that the answers do not depend on who does
the work.
-/

namespace Recourse.Multistage

variable {γ α : Type} [Scalar α] [Numeral α] [Source γ α]

def seedLimit : Int := 2147483647

/-- The number of workers that are of use where both the jobs and the workers are limited: at least
one. -/
def usefulWorkers (jobs workers : Datum α) : Except (Fault α) (Datum α) := do
  (Datum.int 1).greatest (← jobs.least workers)

def chunkSource (seed : Nat) (jobs : List Int) : Except (Fault α) γ :=
  match jobs with
  | [] => .error .position
  | j :: _ =>
    if 0 ≤ j ∧ j < Int.pow 2 32 then .ok (Source.ofSeeds [seed, j.toNat])
      else .error (.value .seedRange)

def walkEach (lp : Solver α) (guide : Int → Guide γ α) : List Int →
    Run α (Simulation γ α) (List (Trajectory α))
  | [] => pure []
  | j :: jobs => do
    let x ← walk lp (guide j)
    return x :: (← walkEach lp guide jobs)

def walkChunk (lp : Solver α) (guide : Int → Guide γ α) (seed : Nat) (jobs : List Int) :
    Run α (Multistage α) (List (Trajectory α)) := do
  let source : γ ← Run.ofExcept (chunkSource seed jobs)
  fun p =>
    let (r, x) := walkEach lp guide jobs { problem := p, source }
    (r, x.problem)

def walkChunks (lp : Solver α) (guide : Int → Guide γ α) (seed : Nat) (chunks : List (List Int)) :
    Run α (Multistage α) (List (Trajectory α)) := do
  return (← chunks.mapM (walkChunk lp guide seed)).flatten

/-- Walk for a number of jobs, split among workers. The walks break off behind a number of chunks if
there is a limit. -/
def walkJobs (lp : Solver α) (guide : Int → Guide γ α) (seed : Nat) (jobs workers : Datum α)
    (limit : Option Nat := none) : Run α (Multistage α) (List (Trajectory α)) := do
  let chunks ← Run.ofExcept (Schedule.allocateData jobs workers)
  let walks ← walkChunks lp guide seed (leading limit chunks)
  Run.breakOff limit.isSome
  return walks

end Recourse.Multistage
