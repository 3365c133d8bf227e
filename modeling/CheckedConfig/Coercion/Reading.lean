import CheckedConfig.Format.Json
import CheckedConfig.Text.Character

namespace CheckedConfig

def radixOf? : List Char → Option (Nat × List Char)
  | '0' :: 'x' :: rest => some (16, rest)
  | '0' :: 'X' :: rest => some (16, rest)
  | '0' :: 'o' :: rest => some (8, rest)
  | '0' :: 'O' :: rest => some (8, rest)
  | '0' :: 'b' :: rest => some (2, rest)
  | '0' :: 'B' :: rest => some (2, rest)
  | _ => none

def readNumeral (s : String) : Option Double :=
  let cs := Text.trim s.toList
  if cs.isEmpty then some Double.zero
  else match radixOf? cs with
    | some (radix, ds) =>
        (natOfRadix? radix ds).bind fun n => if n < Nat.pow 2 64 then some (Double.ofNat n) else none
    | none => (Decimal.ofChars? cs).bind Decimal.toDouble?

namespace Value

def readNumber : Value → Option Double
  | .number n => some n.toDouble
  | .bool b => some (Double.ofNat b.toNat)
  | .null => some Double.zero
  | .string s => readNumeral s
  | .array _ => none
  | .object _ => none

def safeSteps : Nat := Nat.pow 2 53 * Double.unit

def ofDouble (d : Double) : Value :=
  if d.isWhole && decide (d.steps ≤ safeSteps) then .int d.truncate else .number (.real d)

end Value

def Number.display (n : Number) : String :=
  match n.int64? with
  | some i => toString i
  | none => n.toDouble.write Double.plainLayout

namespace Value

mutual

def display : Value → String
  | .null => "null"
  | .bool true => "true"
  | .bool false => "false"
  | .number n => n.display
  | .string s => s
  | .array items => Text.joinWith "," (displayItems items)
  | .object fields => Json.text (.object fields)

def displayItems : List Value → List String
  | [] => []
  | .null :: rest => "" :: displayItems rest
  | v :: rest => v.display :: displayItems rest

end

def isTruthy : Value → Bool
  | .null => false
  | .bool b => b
  | .number n => !n.toDouble.isZero
  | .string s => !s.isEmpty
  | .array _ => true
  | .object _ => true

end Value

end CheckedConfig
