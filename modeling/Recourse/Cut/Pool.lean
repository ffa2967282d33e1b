import Recourse.Cut.Dominance
/-!
The pool of cuts of one Markov state of a stage. Cuts are numbered in the order in which they
arrive, whether they are kept or not; a pool that prunes drops dominated cuts on arrival.
-/

namespace Recourse

/-- A pool of cuts over a box. `issued` counts the cuts that arrived, `pruned` those that were
dropped or removed, and `version` changes exactly when the stored cuts do. -/
structure Pool (α : Type) where
  sense : Sense
  box : Box α
  pruning : Bool
  cuts : List (Cut α)
  issued : Nat
  pruned : Nat
  version : Nat

namespace Pool

variable {α : Type} [Scalar α]

def empty (sense : Sense) (box : Box α) (pruning : Bool) : Pool α :=
  { sense, box := box.effective, pruning, cuts := [], issued := 0, pruned := 0, version := 0 }

variable [Numeral α]

def dominates? (p : Pool α) (c other : Cut α) : Except (Fault α) Bool :=
  c.isDominated? p.sense p.box other

def survivors (p : Pool α) (c : Cut α) : Except (Fault α) (List (Cut α)) :=
  p.cuts.filterM fun other => do return !(← p.dominates? other c)

/-- The stored cuts after a cut arrived at a pruning pool; none if the cut is dominated itself. -/
def screen (p : Pool α) (c : Cut α) : Except (Fault α) (Option (List (Cut α))) := do
  if ← p.cuts.anyM fun other => p.dominates? c other then
    return none
  else
    return some ((← p.survivors c) ++ [c])

/-- A cut arrives. The answer is the stored cut, or none if it was dropped. A cut that does not fit
the others is a fault, but it has taken its number. -/
def add (c : Cut α) : Run α (Pool α) (Option (Cut α)) := fun p =>
  let c := { c with index := some p.issued }
  let p := { p with issued := p.issued + 1 }
  if p.pruning then
    match p.screen c with
    | .error e => (.error e, p)
    | .ok none => (.ok none, { p with pruned := p.pruned + 1 })
    | .ok (some cuts) =>
      (.ok (some c), { p with
        cuts
        pruned := p.pruned + (p.cuts.length + 1 - cuts.length)
        version := p.version + 1 })
  else (.ok (some c), { p with cuts := p.cuts ++ [c], version := p.version + 1 })

/-- Whether the stored cut `c` at position `i` is to go because of the one at position `j`: it is
dominated, and of two cuts that dominate each other the later stays. -/
def yields (p : Pool α) (c : Cut α) (i : Nat) (other : Cut α) (j : Nat) :
    Except (Fault α) Bool := do
  if j = i then return false
  else if ← p.dominates? c other then
    if i < j then return true
    else return !(← p.dominates? other c)
  else return false

/-- The stored cuts that no other one makes superfluous, each judged against the whole list. -/
def undominated (p : Pool α) : Except (Fault α) (List (Cut α)) := do
  let numbered := p.cuts.zipIdx
  let kept ← numbered.filterM fun (c, i) => do
    return !(← numbered.anyM fun (other, j) => p.yields c i other j)
  return kept.map (·.1)

/-- Remove every dominated cut. The answer is how many were removed. -/
def prune : Run α (Pool α) Nat := fun p =>
  match p.undominated with
  | .error e => (.error e, p)
  | .ok kept =>
    let removed := p.cuts.length - kept.length
    if removed = 0 then (.ok 0, p)
    else (.ok removed, { p with
      cuts := kept, pruned := p.pruned + removed, version := p.version + 1 })

end Pool

end Recourse
