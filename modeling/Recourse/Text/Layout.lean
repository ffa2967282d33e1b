/-!
Text as it is laid out: in columns, in lines, and as the path to a file.
-/

namespace Recourse.Text

/-! ### Columns

A text is padded with blanks to a width, and one that is wider stays as it is. -/

def blanks (n : Nat) : String := String.ofList (List.replicate n ' ')

def right (width : Nat) (s : String) : String := blanks (width - s.length) ++ s

def left (width : Nat) (s : String) : String := s ++ blanks (width - s.length)

/-- A text in the middle of a column; an odd blank goes to the right. -/
def centre (width : Nat) (s : String) : String :=
  let space := width - s.length
  blanks (space / 2) ++ s ++ blanks (space - space / 2)

def rule (width : Nat) : String := String.ofList (List.replicate width '-')

/-! ### Lines

Besides the line feed a few other characters end a line; a carriage return and the line feed after
it end one line together. -/

def isBreak (c : Char) : Bool :=
  let n := c.toNat
  (0x0a ≤ n && n ≤ 0x0d) || (0x1c ≤ n && n ≤ 0x1e) || n == 0x85 || n == 0x2028 || n == 0x2029

def pieces : List Char → List (List Char)
  | [] => [[]]
  | '\r' :: '\n' :: cs => [] :: pieces cs
  | c :: cs =>
    if isBreak c then [] :: pieces cs
    else match pieces cs with
      | [] => [[c]]
      | l :: ls => (c :: l) :: ls

/-- The lines of a text to which a line feed is added. -/
def lines (s : String) : List String :=
  (pieces (s.toList ++ ['\n'])).dropLast.map String.ofList

/-! ### Paths

There is one folder; a path that enters another one leads nowhere. -/

def pathParts : List Char → List (List Char)
  | [] => [[]]
  | c :: cs =>
    if c = '/' then [] :: pathParts cs
    else match pathParts cs with
      | [] => [[c]]
      | p :: ps => (c :: p) :: ps

/-- The name of the file in the folder that a path leads to. Empty parts and single points stay in
the folder. -/
def fileName? (path : String) : Option String :=
  let parts := pathParts path.toList
  if parts.dropLast.all fun p => p.isEmpty || p == ['.'] then parts.getLast?.map String.ofList
  else none

end Recourse.Text
