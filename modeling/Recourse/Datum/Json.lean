import Recourse.Datum.Text
import Recourse.Decimal.Read
/-!
Data as JSON text. A number with a point or an exponent is a real, any other a whole number.
-/

namespace Recourse.Datum.Json

def isSpace (c : Char) : Bool := c = ' ' || c = '\t' || c = '\n' || c = '\r'

def skip (cs : List Char) : List Char := cs.dropWhile isSpace

def hexValue (c : Char) : Nat :=
  if c.isDigit then c.toNat - '0'.toNat
  else (c.toLower.toNat - 'a'.toNat) + 10

def hexOf (cs : List Char) : Nat := cs.foldl (fun n c => 16 * n + hexValue c) 0

/-- The characters up to the closing quote and what follows it. Two escaped halves of a character
beyond the basic plane are joined. -/
def string : Nat → List Char → List Char → Option (String × List Char)
  | 0, _, _ => none
  | fuel + 1, acc, cs =>
    match cs with
    | [] => none
    | '"' :: rest => some (String.ofList acc.reverse, rest)
    | '\\' :: 'u' :: a :: b :: c :: d :: rest =>
      let high := hexOf [a, b, c, d]
      match rest with
      | '\\' :: 'u' :: e :: f :: g :: h :: more =>
        let low := hexOf [e, f, g, h]
        if 0xd800 ≤ high ∧ high < 0xdc00 ∧ 0xdc00 ≤ low ∧ low < 0xe000 then
          string fuel (Char.ofNat (0x10000 + (high - 0xd800) * 0x400 + (low - 0xdc00)) :: acc) more
        else string fuel (Text.charOf high :: acc) rest
      | _ => string fuel (Text.charOf high :: acc) rest
    | '\\' :: c :: rest =>
      let c := match c with
        | 'n' => '\n'
        | 't' => '\t'
        | 'r' => '\r'
        | 'b' => '\x08'
        | 'f' => '\x0c'
        | c => c
      string fuel (c :: acc) rest
    | c :: rest => string fuel (c :: acc) rest

def number (cs : List Char) : Option (Datum Float × List Char) :=
  let isPart (c : Char) : Bool :=
    c.isDigit || c = '-' || c = '+' || c = '.' || c = 'e' || c = 'E'
  let word := cs.takeWhile isPart
  let rest := cs.drop word.length
  if word.any fun c => c = '.' || c = 'e' || c = 'E' then
    (Decimal.read? (String.ofList word)).map fun x => (.real x, rest)
  else
    (String.ofList word).toInt?.map fun n => (.int n, rest)

mutual

def value : Nat → List Char → Option (Datum Float × List Char)
  | 0, _ => none
  | fuel + 1, cs =>
    match skip cs with
    | 'n' :: 'u' :: 'l' :: 'l' :: rest => some (.null, rest)
    | 't' :: 'r' :: 'u' :: 'e' :: rest => some (.bool true, rest)
    | 'f' :: 'a' :: 'l' :: 's' :: 'e' :: rest => some (.bool false, rest)
    | 'N' :: 'a' :: 'N' :: rest => some (.real (0.0 / 0.0), rest)
    | '-' :: 'I' :: 'n' :: 'f' :: 'i' :: 'n' :: 'i' :: 't' :: 'y' :: rest =>
      some (.real (-(1.0 / 0.0)), rest)
    | 'I' :: 'n' :: 'f' :: 'i' :: 'n' :: 'i' :: 't' :: 'y' :: rest => some (.real (1.0 / 0.0), rest)
    | '"' :: rest => (string (rest.length + 1) [] rest).map fun (s, rest) => (.text s, rest)
    | '[' :: rest =>
      match skip rest with
      | ']' :: rest => some (.list [], rest)
      | rest => (items fuel rest).map fun (ds, rest) => (.list ds, rest)
    | '{' :: rest =>
      match skip rest with
      | '}' :: rest => some (.record [], rest)
      | rest => (fields fuel rest).map fun (fs, rest) => (.record fs, rest)
    | cs => number cs

def items : Nat → List Char → Option (List (Datum Float) × List Char)
  | 0, _ => none
  | fuel + 1, cs => do
    let (d, rest) ← value fuel cs
    match skip rest with
    | ',' :: rest =>
      let (ds, rest) ← items fuel rest
      some (d :: ds, rest)
    | ']' :: rest => some ([d], rest)
    | _ => none

def fields : Nat → List Char → Option (List (String × Datum Float) × List Char)
  | 0, _ => none
  | fuel + 1, cs => do
    let (name, rest) ← match skip cs with
      | '"' :: rest => string (rest.length + 1) [] rest
      | _ => none
    let rest ← match skip rest with
      | ':' :: rest => some rest
      | _ => none
    let (d, rest) ← value fuel rest
    match skip rest with
    | ',' :: rest =>
      let (fs, rest) ← fields fuel rest
      some ((name, d) :: fs, rest)
    | '}' :: rest => some ([(name, d)], rest)
    | _ => none

end

def read? (s : String) : Option (Datum Float) :=
  let cs := s.toList
  match value (2 * cs.length + 2) cs with
  | some (d, rest) => if (skip rest).isEmpty then some d else none
  | none => none

def escape (c : Char) : String :=
  if c = '"' then "\\\""
  else if c = '\\' then "\\\\"
  else if c.toNat < 0x20 || c.toNat = 0x7f then "\\u" ++ Text.hex 4 c.toNat
  else match Text.half? c with
    | some n => "\\u" ++ Text.hex 4 n
    | none => c.toString

def quoted (s : String) : String :=
  "\"" ++ String.join (s.toList.map escape) ++ "\""

mutual

def write : Datum Float → String
  | .null => "null"
  | .bool true => "true"
  | .bool false => "false"
  | .int n => toString n
  | .real x => Decimal.text x
  | .text s => quoted s
  | .list ds => "[" ++ ", ".intercalate (writeAll ds) ++ "]"
  | .record fs => "\x7b" ++ ", ".intercalate (writeFields fs) ++ "\x7d"

def writeAll : List (Datum Float) → List String
  | [] => []
  | d :: ds => write d :: writeAll ds

def writeFields : List (String × Datum Float) → List String
  | [] => []
  | (k, d) :: fs => (quoted k ++ ": " ++ write d) :: writeFields fs

end

end Recourse.Datum.Json
