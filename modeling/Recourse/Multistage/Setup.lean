import Recourse.Multistage
import Recourse.Stage.Setup
/-!
Preparing a problem: the models are checked against each other, then those that can be reached are
joined. Each model before the last stage gets a cost-to-go function, which depends on the noise
where the noise of the next stage does, and each model gets links to what comes in.
-/

namespace Recourse.Multistage

variable {α : Type} [Scalar α] [Numeral α]

def checkFirst (p : Multistage α) : Except (Fault α) Unit := do
  let m ← p.model 0 0
  if m.sampleCount ≠ 1 then throw (.construction .firstStageRandom)
  if 1 < p.horizon ∧ m.states.isEmpty then throw (.construction .noStates)

def checkAlike (t : Nat) (first m : Stage α) : Except (Fault α) Unit := do
  if m.states.length ≠ first.states.length then throw (.construction (.stateCounts t))
  if m.noise.length ≠ first.noise.length then throw (.construction (.noiseCounts t))
  if m.noiseCopies.length ≠ first.noiseCopies.length then throw (.construction (.laggedNoise t))

def checkIncoming (t : Nat) (previous m : Stage α) : Except (Fault α) Unit := do
  if m.copies.length ≠ previous.states.length then
    throw (.construction (.copyCount t m.copies.length previous.states.length))
  if m.noiseCopies.length ≠ 0 ∧ m.noiseCopies.length ≠ previous.noise.length then
    throw (.construction (.laggedCount t m.noiseCopies.length previous.noise.length))

def checkStage (p : Multistage α) (t : Nat) : Except (Fault α) Unit := do
  let models := p.reachableModels t
  match models with
  | [] => throw .position
  | first :: _ =>
    models.forM (checkAlike t first)
    if t = 0 then
      if models.any fun m => !m.noiseCopies.isEmpty then throw (.construction .firstStageLagged)
    else match p.reachableModels (t - 1) with
      | [] => throw .position
      | previous :: _ => models.forM (checkIncoming t previous)

def check (p : Multistage α) : Except (Fault α) Unit := do
  p.checkFirst
  (List.range p.horizon).forM p.checkStage

/-- Whether some reachable model of a stage depends on the noise of the stage before. -/
def isLagged (p : Multistage α) (t : Nat) : Bool :=
  (p.reachableModels t).any fun m => !m.noiseCopies.isEmpty

def onReachable (t : Nat) (act : Stage.Edit α Unit) : Run α (Multistage α) Unit := do
  let p ← get
  (p.reachableStates t).forM fun k => onModel t k act

def setUpCostToGo (t : Nat) : Run α (Multistage α) Unit := do
  let p ← get
  let lagged := p.isLagged (t + 1)
  onReachable t do
    Stage.setUpCostToGo (p.bound.map fun bound => (p.discount, bound))
    Stage.setUpPool p.sense p.pruning lagged

def setUpLinks (t : Nat) : Run α (Multistage α) Unit :=
  onReachable t (Stage.setUpLinks (t = 0))

def prepare : Run α (Multistage α) Unit := do
  let p ← get
  if p.prepared then return
  Run.ofExcept p.check
  (List.range (p.horizon - 1)).forM setUpCostToGo
  (List.range p.horizon).forM setUpLinks
  modify fun p => { p with prepared := true }

end Recourse.Multistage
