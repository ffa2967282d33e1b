import Recourse.Random.Source
import Recourse.Datum.Grid
/-!
The Mersenne Twister with 624 words of state, seeded by one number or by a list of them.
-/

namespace Recourse

structure Twister where
  words : Array UInt32
  next : Nat
deriving Inhabited

namespace Twister

def size : Nat := 624

def wordAt (a : Array UInt32) (i : Nat) : UInt32 := a.getD i 0

def spread (seed : UInt32) : Array UInt32 :=
  (List.range (size - 1)).foldl (fun a i =>
    let prev := wordAt a i
    a.push ((1812433253 : UInt32) * (prev ^^^ (prev >>> 30)) + (i + 1).toUInt32)) #[seed]

def ofNumber (seed : Nat) : Twister := ⟨spread seed.toUInt32, size⟩

structure Mixing where
  words : Array UInt32
  i : Nat
  j : Nat

/-- Go on to the next word; after the last one the first takes its value. -/
def Mixing.advance (m : Mixing) (word : UInt32) : Mixing :=
  let words := m.words.set! m.i word
  if m.i + 1 < size then { m with words, i := m.i + 1 }
  else { m with words := words.set! 0 (wordAt words (size - 1)), i := 1 }

/-- The part of a word that the word before it contributes. -/
def Mixing.carry (m : Mixing) (factor : UInt32) : UInt32 :=
  let prev := wordAt m.words (m.i - 1)
  wordAt m.words m.i ^^^ ((prev ^^^ (prev >>> 30)) * factor)

def mix (key : Array UInt32) : Array UInt32 :=
  let start : Mixing := ⟨spread 19650218, 1, 0⟩
  let first := (List.range (max size key.size)).foldl (fun m _ =>
    let m' := m.advance (m.carry 1664525 + wordAt key m.j + m.j.toUInt32)
    { m' with j := if m.j + 1 < key.size then m.j + 1 else 0 }) start
  let second := (List.range (size - 1)).foldl (fun m _ =>
    m.advance (m.carry 1566083941 - m.i.toUInt32)) first
  second.words.set! 0 0x80000000

def ofKey (key : List Nat) : Twister := ⟨mix (key.map (·.toUInt32)).toArray, size⟩

def twistWord (a : Array UInt32) (i : Nat) : UInt32 :=
  let y := (wordAt a i &&& 0x80000000) ||| (wordAt a ((i + 1) % size) &&& 0x7fffffff)
  wordAt a ((i + 397) % size) ^^^ (y >>> 1) ^^^ (if y &&& 1 = 0 then 0 else 0x9908b0df)

def twist (a : Array UInt32) : Array UInt32 :=
  (List.range size).foldl (fun a i => a.set! i (twistWord a i)) a

def temper (y : UInt32) : UInt32 :=
  let y := y ^^^ (y >>> 11)
  let y := y ^^^ ((y <<< 7) &&& 0x9d2c5680)
  let y := y ^^^ ((y <<< 15) &&& 0xefc60000)
  y ^^^ (y >>> 18)

def word (g : Twister) : UInt32 × Twister :=
  let g := if g.next < size then g else ⟨twist g.words, 0⟩
  (temper (wordAt g.words g.next), { g with next := g.next + 1 })

/-- A number of 53 bits from two words. -/
def uniform (g : Twister) : Float × Twister :=
  let (a, g) := g.word
  let (b, g) := g.word
  (((a >>> 5).toNat.toFloat * 67108864.0 + (b >>> 6).toNat.toFloat) / 9007199254740992.0, g)

/-- The smallest number of the form `2 ^ k - 1` that is at least `n`. -/
def mask (n : Nat) : Nat := Nat.pow 2 (n.log2 + 1) - 1

/-- A word, or two of them for a wide range. -/
def raw (wide : Bool) (g : Twister) : Nat × Twister :=
  let (a, g) := g.word
  if wide then
    let (b, g) := g.word
    (a.toNat * Nat.pow 2 32 + b.toNat, g)
  else (a.toNat, g)

/-- Draw masked words until one is at most `top`. -/
def masked (top : Nat) : Nat → Twister → Nat × Twister
  | 0, g => (0, g)
  | fuel + 1, g =>
    let (v, g) := raw (Nat.pow 2 32 ≤ top) g
    let v := v % (mask top + 1)
    if v ≤ top then (v, g) else masked top fuel g

/-- A uniform whole number below `n`. Half of the draws at least are accepted, so that the limit on
their number is out of reach. -/
def below (n : Nat) (g : Twister) : Nat × Twister :=
  if n ≤ 1 then (0, g) else masked (n - 1) 100000 g

end Twister

instance : Source Twister Float where
  uniform := Twister.uniform
  below := Twister.below
  ofSeed := Twister.ofNumber
  ofSeeds := Twister.ofKey

def seeded? {γ α : Type} [Source γ α] (seed : Datum α) : Except (Fault α) γ :=
  match seed with
  | .bool b => .ok (Source.ofSeed (if b then 1 else 0))
  | .int n =>
    if 0 ≤ n ∧ n < Int.pow 2 32 then .ok (Source.ofSeed n.toNat) else .error (.value .seedRange)
  | d => .error (.value (.seedKind d))

def keyed? {γ α : Type} [Source γ α] (seed : Datum α) : Except (Fault α) γ :=
  match seed with
  | .bool _ | .int _ => seeded? seed
  | .list _ =>
    let key := seed.leaves.map Datum.int?
    match seed.shape? with
    | none => .error (.value .seedRange)
    | some shape =>
      if key.isEmpty then .error (.value .seedRange)
      else if !(key.all fun n => n.any Datum.fitsWord) then .error (.kind .number)
      else if shape.length = 1 && key.all fun n =>
        n.any fun n => decide (0 ≤ n) && decide (n < Int.pow 2 32) then
        .ok (Source.ofSeeds (key.filterMap fun n => n.map Int.toNat))
      else .error (.value .seedRange)
  | _ => .error (.kind .number)

end Recourse
