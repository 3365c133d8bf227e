import CheckedConfig.Format.Yaml.Tree
import CheckedConfig.Value

namespace CheckedConfig

namespace Yaml

def isNull (s : String) : Bool := s == "" || s == "null" || s == "Null" || s == "NULL" || s == "~"

def bool? (s : String) : Option Bool :=
  if s == "true" || s == "True" || s == "TRUE" then some true
  else if s == "false" || s == "False" || s == "FALSE" then some false
  else none

def unsigned : List Char → List Char
  | '+' :: cs => cs
  | '-' :: cs => cs
  | cs => cs

def isPadded (cs : List Char) : Bool :=
  match unsigned cs with
  | '0' :: c :: rest => (c :: rest).all isDigit
  | _ => false

def digits? (radix : Nat) (cs : List Char) : Option Nat :=
  if cs.isEmpty then none else radixValue? radix cs

def natural? (cs : List Char) : Option Nat :=
  match cs with
  | '0' :: 'x' :: ds => digits? 16 ds
  | '0' :: 'o' :: ds => digits? 8 ds
  | '0' :: 'b' :: ds => digits? 2 ds
  | ds => digits? 10 ds

def integer? (cs : List Char) : Option Int :=
  if isPadded cs then none
  else match cs with
    | '+' :: ds => (natural? ds).map Int.ofNat
    | '-' :: ds => (natural? ds).map fun n => -(n : Int)
    | ds => (natural? ds).map Int.ofNat

inductive Whole where
  | small (i : Int)
  | large

def whole? (cs : List Char) : Option Whole :=
  (integer? cs).bind fun i =>
    if fitsInt64 i || fitsUInt64 i then some (.small i)
    else if -(Int.pow 2 127) ≤ i ∧ i < Int.pow 2 128 then some .large
    else none

def isUnbounded (s : String) : Bool :=
  [".inf", ".Inf", ".INF", "+.inf", "+.Inf", "+.INF", "-.inf", "-.Inf", "-.INF", ".nan", ".NaN",
    ".NAN"].contains s

def real? (s : String) : Option Value :=
  if isUnbounded s then some .null
  else match s.toList with
    | '+' :: '+' :: _ => none
    | '+' :: '-' :: _ => none
    | cs => (Decimal.ofChars? cs).bind Decimal.toDouble? |>.map fun d => .number (.real d)

def plainValue? (s : String) : Option Value :=
  let cs := s.toList
  if isNull s then some .null
  else match bool? s with
    | some b => some (.bool b)
    | none =>
        match whole? cs with
        | some (.small i) => some (.int i)
        | some .large => none
        | none => some ((if isPadded cs then none else real? s).getD (.string s))

def isCustom (tag : String) : Bool := Text.startsWith tag '!'

def scalarValue? (plain : Bool) (tag : Option String) (s : String) : Option Value :=
  match tag with
  | none => if plain then plainValue? s else some (.string s)
  | some t =>
      if isCustom t then none
      else if t = Lexer.coreTag ++ "bool" then (bool? s).map .bool
      else if t = Lexer.coreTag ++ "int" then
        match whole? s.toList with
        | some (.small i) => some (.int i)
        | _ => none
      else if t = Lexer.coreTag ++ "float" then real? s
      else if t = Lexer.coreTag ++ "null" then if isNull s && s != "" then some .null else none
      else some (.string s)

namespace Tree

def isPlainTag (tag : Option String) : Bool := !(tag.map isCustom).getD false

mutual

def toValue? : Nat → Tree → Option Value
  | _, .scalar plain tag s => scalarValue? plain tag s
  | 0, _ => none
  | depth + 1, .sequence tag ts =>
      if isPlainTag tag then (toValues? depth ts).map .array else none
  | depth + 1, .mapping tag ps =>
      if isPlainTag tag then (toFields? depth ps).map fun fs => .object (Fields.ofList fs)
      else none

def toValues? : Nat → List Tree → Option (List Value)
  | _, [] => some []
  | depth, t :: rest => (t.toValue? depth).bind fun v => (toValues? depth rest).map (v :: ·)

def toFields? : Nat → List (Tree × Tree) → Option (List (String × Value))
  | _, [] => some []
  | depth, (.scalar _ _ name, t) :: rest =>
      (t.toValue? depth).bind fun v => (toFields? depth rest).map ((name, v) :: ·)
  | _, _ :: _ => none

end

end Tree

def depthLimit : Nat := 128

def parse (s : String) : Option Value :=
  ((tokens? s).bind Tree.ofTokens?).bind (·.toValue? depthLimit)

end Yaml

end CheckedConfig
