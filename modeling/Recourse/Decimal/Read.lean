import Recourse.Datum
import Recourse.Decimal.Shortest
import Recourse.Decimal.Whole
/-!
Numbers read from decimal text: a sign, digits with a point, an exponent; or one of the words for
infinity and for a value that is no number. Single underscores may stand between digits, and blanks
around the number; digits of any script count. The fields of a table are read in a plainer way,
without underscores and with arithmetic that keeps seventeen digits.
-/

namespace Recourse.Text

/-! ### Digits of all scripts

The tables follow version 15.0 of the Unicode character database. -/

/-- The code points of the digits zero; the digits up to nine follow each of them. -/
def zeroDigits : List Nat := [
  0x30, 0x660, 0x6f0, 0x7c0, 0x966, 0x9e6, 0xa66, 0xae6, 0xb66, 0xbe6, 0xc66, 0xce6, 0xd66, 0xde6,
  0xe50, 0xed0, 0xf20, 0x1040, 0x1090, 0x17e0, 0x1810, 0x1946, 0x19d0, 0x1a80, 0x1a90, 0x1b50,
  0x1bb0, 0x1c40, 0x1c50, 0xa620, 0xa8d0, 0xa900, 0xa9d0, 0xa9f0, 0xaa50, 0xabf0, 0xff10, 0x104a0,
  0x10d30, 0x11066, 0x110f0, 0x11136, 0x111d0, 0x112f0, 0x11450, 0x114d0, 0x11650, 0x116c0,
  0x11730, 0x118e0, 0x11950, 0x11c50, 0x11d50, 0x11da0, 0x11f50, 0x16a60, 0x16ac0, 0x16b50,
  0x1d7ce, 0x1d7d8, 0x1d7e2, 0x1d7ec, 0x1d7f6, 0x1e140, 0x1e2f0, 0x1e4f0, 0x1e950, 0x1fbf0]

def digitValue? (c : Char) : Option Nat :=
  (zeroDigits.find? fun z => z ≤ c.toNat && c.toNat < z + 10).map fun z => c.toNat - z

/-- Whether a character beyond the first hundred and twenty-eight is a blank. -/
def isWideBlank (c : Char) : Bool :=
  let n := c.toNat
  n = 0x85 || n = 0xa0 || n = 0x1680 || (0x2000 ≤ n && n ≤ 0x200a) || n = 0x2028 || n = 0x2029 ||
    n = 0x202f || n = 0x205f || n = 0x3000

def plain (c : Char) : Char :=
  if c.toNat < 0x80 then c
  else if isWideBlank c then ' '
  else match digitValue? c with
    | some d => Char.ofNat (0x30 + d)
    | none => c

end Recourse.Text

namespace Recourse.Decimal

def isBlank (c : Char) : Bool :=
  c = ' ' || c = '\t' || c = '\n' || c = '\r' || c = '\x0b' || c = '\x0c'

def trimBlanks (cs : List Char) : List Char :=
  ((cs.dropWhile isBlank).reverse.dropWhile isBlank).reverse

/-- Whether each underscore stands between two digits; the first argument tells whether a digit came
just before. -/
def grouped : Bool → List Char → Bool
  | afterDigit, [] => afterDigit
  | afterDigit, c :: cs => if c = '_' then afterDigit && grouped false cs else grouped true cs

def readDigits (cs : List Char) : List Char × List Char :=
  let run := cs.takeWhile fun c => c.isDigit || c = '_'
  if grouped false run then (run.filter Char.isDigit, cs.drop run.length)
  else (cs.takeWhile Char.isDigit, cs.dropWhile Char.isDigit)

def naturalOf (ds : List Char) : Nat :=
  ds.foldl (fun n c => 10 * n + (c.toNat - '0'.toNat)) 0

def readSign : List Char → Bool × List Char
  | '-' :: cs => (true, cs)
  | '+' :: cs => (false, cs)
  | cs => (false, cs)

def readExponent : List Char → Option Int
  | [] => some 0
  | c :: cs =>
    if c = 'e' || c = 'E' then
      let (negative, cs) := readSign cs
      match readDigits cs with
      | (d :: ds, []) =>
        let n := naturalOf (d :: ds)
        some (if negative then -(n : Int) else n)
      | _ => none
    else none

/-- The double nearest to `m · 10 ^ e`. Exponents beyond the range of doubles are cut off first. -/
def nearest (m : Nat) (e : Int) : Float :=
  let bound : Int := 400 + (digitCountOf m)
  if m = 0 then 0.0
  else if e < 0 then Float.ofScientific m true (min (-e) bound).toNat
  else Float.ofScientific m false (min e bound).toNat
where
  digitCountOf (m : Nat) : Int := (Nat.toDigits 10 m).length

def readUnsigned (cs : List Char) : Option Float :=
  let (whole, rest) := readDigits cs
  let (fraction, rest) := match rest with
    | '.' :: more => readDigits more
    | _ => ([], rest)
  if whole.isEmpty && fraction.isEmpty then none
  else (readExponent rest).map fun e =>
    nearest (naturalOf (whole ++ fraction)) (e - fraction.length)

def read? (s : String) : Option Float :=
  let (negative, cs) := readSign (trimBlanks (s.toList.map Text.plain))
  let word := String.ofList (cs.map Char.toLower)
  let magnitude :=
    if word = "inf" || word = "infinity" then some (1.0 / 0.0)
    else if word = "nan" then some (0.0 / 0.0)
    else readUnsigned cs
  magnitude.map fun x => if negative then -x else x

/-! ### Fields of a table -/

/-- The digits of a field gathered so far: their value, how many count, and the power of ten that is
still due. Digits beyond the seventeenth only shift the power. -/
structure Gathered where
  value : Float
  count : Nat
  power : Int

def Gathered.whole (g : Gathered) (c : Char) : Gathered :=
  if g.count < 17 then
    { g with value := g.value * 10.0 + (c.toNat - 48).toFloat, count := g.count + 1 }
  else { g with power := g.power + 1 }

def Gathered.fraction (g : Gathered) (c : Char) : Gathered :=
  if g.count < 17 then
    { value := g.value * 10.0 + (c.toNat - 48).toFloat, count := g.count + 1, power := g.power - 1 }
  else g

def powerOfTen (n : Nat) : Float := Float.ofScientific 1 false n

/-- A number times a power of ten; the power is taken in one step where it can be. -/
def scaled (x : Float) (power : Int) : Float :=
  if 308 < power then (if x == 0.0 then 0.0 else x / 0.0)
  else if 0 < power then x * powerOfTen power.toNat
  else if power < -616 then 0.0
  else if power < -308 then x / powerOfTen (-308 - power).toNat / powerOfTen 308
  else x / powerOfTen (-power).toNat

def scanExponent (cs : List Char) : Int × List Char :=
  match cs with
  | c :: rest =>
    if c = 'e' || c = 'E' then
      let (negative, rest) := readSign rest
      let ds := (rest.takeWhile Char.isDigit).take 17
      if ds.isEmpty then (0, cs)
      else
        let n : Int := naturalOf ds
        (if negative then -n else n, rest.drop ds.length)
    else (0, cs)
  | [] => (0, [])

def scanDigits (cs : List Char) : Option Float :=
  let (negative, cs) := readSign (cs.dropWhile isBlank)
  let whole := cs.takeWhile Char.isDigit
  let cs := cs.drop whole.length
  let (fraction, cs) := match cs with
    | '.' :: rest => (rest.takeWhile Char.isDigit, rest.dropWhile Char.isDigit)
    | _ => ([], cs)
  let g := fraction.foldl Gathered.fraction (whole.foldl Gathered.whole ⟨0.0, 0, 0⟩)
  let (exponent, cs) := scanExponent cs
  let x := scaled (if negative then -g.value else g.value) (g.power + exponent)
  if g.count = 0 || x.isInf || !(cs.dropWhile isBlank).isEmpty then none else some x

def scan? (s : String) : Option Float :=
  match scanDigits s.toList with
  | some x => some x
  | none =>
    let (negative, cs) := readSign s.toList
    let word := String.ofList (cs.map Char.toLower)
    if word = "inf" || word = "infinity" then
      some (if negative then -(1.0 / 0.0) else 1.0 / 0.0)
    else none

end Decimal

instance : Numeral Float where
  read? := Decimal.read?
  scan? := Decimal.scan?
  write := Decimal.text
  unknown := 0.0 / 0.0
  ofInt? := Decimal.ofInt?
  ofQuotient? := Decimal.ofQuotient?
  compareInt := Decimal.compareInt
  truncate? := Decimal.truncate?
  isMultiple := Decimal.isMultiple

end Recourse
