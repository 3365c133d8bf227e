import CheckedConfig.Fields
import CheckedConfig.Number.Decimal

namespace CheckedConfig

inductive Number where
  | int (i : Int)
  | real (d : Double)
  deriving DecidableEq, Repr

namespace Number

def toDouble : Number → Double
  | .int i => Double.ofInt i
  | .real d => d

def same : Number → Number → Bool
  | .int i, .int j => i == j
  | .real d, .real e => d.same e
  | _, _ => false

def isWhole : Number → Bool
  | .int _ => true
  | .real d => d.isWhole

def int64? : Number → Option Int
  | .int i => if fitsInt64 i then some i else none
  | .real _ => none

end Number

inductive Value where
  | null
  | bool (b : Bool)
  | number (n : Number)
  | string (s : String)
  | array (items : List Value)
  | object (fields : List (String × Value))
  deriving Repr, Inhabited

namespace Value

def int (i : Int) : Value := .number (.int i)

def isNumber : Value → Bool
  | .number _ => true
  | _ => false

def isArray : Value → Bool
  | .array _ => true
  | _ => false

def isObject : Value → Bool
  | .object _ => true
  | _ => false

def isContainer (v : Value) : Bool := v.isArray || v.isObject

def isWhole : Value → Bool
  | .number n => n.isWhole
  | _ => false

mutual

def same : Value → Value → Bool
  | .null, .null => true
  | .bool a, .bool b => a == b
  | .number a, .number b => a.same b
  | .string a, .string b => a == b
  | .array xs, .array ys => sameItems xs ys
  | .object fs, .object gs => fs.length == gs.length && sameFields fs gs
  | _, _ => false

def sameItems : List Value → List Value → Bool
  | [], [] => true
  | x :: xs, y :: ys => x.same y && sameItems xs ys
  | _, _ => false

def sameFields : List (String × Value) → List (String × Value) → Bool
  | [], _ => true
  | (name, v) :: rest, gs =>
      (match Fields.get? gs name with
        | some w => v.same w
        | none => false) && sameFields rest gs

end

def alike : Value → Value → Bool
  | .number a, .number b => a.toDouble.same b.toDouble
  | v, w => v.same w

def sameOption : Option Value → Option Value → Bool
  | none, none => true
  | some v, some w => v.same w
  | _, _ => false

end Value

end CheckedConfig
