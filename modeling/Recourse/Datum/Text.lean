import Recourse.Datum
import Recourse.Text.Quoted
/-!
The text of user data, as it stands in messages and reports.
-/

namespace Recourse.Datum

variable {α : Type}

def kindName : Datum α → String
  | .null => "NoneType"
  | .bool _ => "bool"
  | .int _ => "int"
  | .real _ => "float"
  | .text _ => "str"
  | .list _ => "list"
  | .record _ => "dict"

variable [Numeral α]

mutual

def spelled : Datum α → String
  | .null => "None"
  | .bool true => "True"
  | .bool false => "False"
  | .int n => toString n
  | .real x => Numeral.write x
  | .text s => Text.quoted s
  | .list items => "[" ++ ", ".intercalate (spelledAll items) ++ "]"
  | .record fields => "\x7b" ++ ", ".intercalate (spelledFields fields) ++ "\x7d"

def spelledAll : List (Datum α) → List String
  | [] => []
  | d :: ds => spelled d :: spelledAll ds

def spelledFields : List (String × Datum α) → List String
  | [] => []
  | (k, d) :: ds => (Text.quoted k ++ ": " ++ spelled d) :: spelledFields ds

end

def shown : Datum α → String
  | .text s => s
  | d => d.spelled

end Recourse.Datum

namespace Recourse.Limit

variable {α : Type} [Numeral α]

def shown : Limit α → String
  | .below => "-inf"
  | .fin x => Numeral.write x
  | .above => "inf"

def toFloat : Limit Float → Float
  | .below => -(1.0 / 0.0)
  | .fin x => x
  | .above => 1.0 / 0.0

end Recourse.Limit
