import Recourse.Datum.Text
import Recourse.Decimal.Read
import Recourse.Multistage
import Recourse.Text.Layout
/-!
How problems present themselves, and the names of the files that their models are written to. The
format of a file is known by the end of its name.
-/

namespace Recourse.Multistage

def senseName : Sense → String
  | .minimize => "Minimization"
  | .maximize => "Maximization"

def riskName (p : Multistage Float) : String :=
  if p.riskAverse then "risk averse" else "risk neutral"

def uncertaintyName (p : Multistage Float) : String :=
  if p.markovian then "Markov chain" else "stage-wise independent"

def shown (p : Multistage Float) : String :=
  let o := p.outline
  s!"<SDDP instance {senseName p.sense} {p.riskName} {p.uncertaintyName} problem, {o.horizon.shown} stages, {o.discount.shown} discount, {o.bound.shown} known bound>"

end Recourse.Multistage

namespace Recourse.ModelFiles

def formats : List String :=
  [".mps", ".rew", ".lp", ".rlp", ".dua", ".dlp", ".prm", ".hnt", ".attr"]

def packings : List String := ["", ".gz", ".bz2", ".zip", ".7z"]

def isWritable (name : String) : Bool :=
  formats.any fun f => packings.any fun e => name.toLower.endsWith (f ++ e)

variable {α : Type}

def name (t k : Nat) (ending : String) : String :=
  "stage_" ++ toString t ++ "_" ++ toString k ++ ending

def names (p : Multistage α) (ending : String) : Except (Fault α) (List String) :=
  let all := p.models.zipIdx.flatMap fun (ms, t) =>
    (List.range ms.length).map fun k => name t k ending
  if !all.all isWritable then .error (.program .fileFormat)
  else if all.any fun path => (Text.fileName? path).isNone then .error (.program .file)
  else .ok (all.mergeSort fun x y => !decide (y < x))

end Recourse.ModelFiles
