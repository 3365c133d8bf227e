namespace CheckedConfig

/-- A finite double is a whole number of least steps, `2 ^ -1074` each. -/
structure Double where
  negative : Bool
  steps : Nat
  deriving DecidableEq, Repr

namespace Double

def unit : Nat := Nat.pow 2 1074

def limit : Nat := Nat.pow 2 2098

def divRound (num den : Nat) : Nat :=
  let q := num / den
  let r := num % den
  if 2 * r < den then q else if den < 2 * r then q + 1 else q + q % 2

def spare (n : Nat) : Nat := n.log2 + 1 - 53

def nearest (num den : Nat) : Nat :=
  let gap := Nat.pow 2 (spare (num / den))
  divRound num (den * gap) * gap

def zero : Double := ⟨false, 0⟩

def neg (d : Double) : Double := ⟨!d.negative, d.steps⟩

def ofSteps? (negative : Bool) (steps : Nat) : Option Double :=
  if steps < limit then some ⟨negative, steps⟩ else none

def ofRatio? (negative : Bool) (num den : Nat) : Option Double :=
  ofSteps? negative (nearest (num * unit) den)

def ofNat (n : Nat) : Double := ⟨false, nearest n 1 * unit⟩

def ofInt (i : Int) : Double := ⟨decide (i < 0), nearest i.natAbs 1 * unit⟩

def signed (d : Double) : Int := if d.negative then -d.steps else d.steps

def same (a b : Double) : Bool := a.signed == b.signed

def less (a b : Double) : Bool := decide (a.signed < b.signed)

def isZero (d : Double) : Bool := d.steps == 0

def isWhole (d : Double) : Bool := d.steps % unit == 0

def truncate (d : Double) : Int :=
  if d.negative then -((d.steps / unit : Nat) : Int) else ((d.steps / unit : Nat) : Int)

def mul? (a b : Double) : Option Double :=
  ofSteps? (a.negative != b.negative) (nearest (a.steps * b.steps) unit)

def div? (a b : Double) : Option Double :=
  if b.isZero then none
  else ofSteps? (a.negative != b.negative) (nearest (a.steps * unit) b.steps)

end Double

end CheckedConfig
