import CheckedConfig.Coercion.Reading
import CheckedConfig.Schema.Kind

namespace CheckedConfig

inductive Reply where
  | replace (v : Value)
  | decline
  | fail (message : String)
  deriving Repr

structure Transformer where
  name : String
  output : Kind
  accepts : Option (List Kind)
  run : Value → Option KindSet → Reply

namespace Transformer

def admits (t : Transformer) (k : Kind) : Bool := t.accepts.all (·.contains k)

def ungated (t : Transformer) : Transformer := { t with accepts := none }

def number : Transformer where
  name := "number"
  output := .number
  accepts := some [.string, .boolean, .null]
  run v _ :=
    if v.isNumber then .decline
    else match v.readNumber with
      | some d => .replace (Value.ofDouble d)
      | none => .fail "Cannot convert to number"

def string : Transformer where
  name := "string"
  output := .string
  accepts := none
  run v _ := .replace (.string v.display)

/-- The bounds are doubles, so the greatest one lies beyond the range and is brought back to it. -/
def toInteger? (d : Double) : Option Int :=
  let i := d.truncate
  if -(Int.pow 2 63) ≤ i ∧ i ≤ Int.pow 2 63 then some (min i (Int.pow 2 63 - 1)) else none

def integer : Transformer where
  name := "integer"
  output := .integer
  accepts := some [.string, .number]
  run v _ :=
    match v.readNumber.bind toInteger? with
    | some i => .replace (.int i)
    | none => .fail "Cannot convert to integer"

def boolean : Transformer where
  name := "boolean"
  output := .boolean
  accepts := none
  run v _ := .replace (.bool v.isTruthy)

def array : Transformer where
  name := "array"
  output := .array
  accepts := none
  run v _ := if v.isArray then .decline else .replace (.array [v])

def builtins : List Transformer := [number, string, integer, boolean, array]

def builtin? (name : String) : Option Transformer := builtins.find? (·.name == name)

end Transformer

inductive Directive where
  | infer
  | single (t : Transformer)
  | list (ts : List Transformer)
  | group (name : Option String) (ts : List Transformer) (ignoreCheck : Bool)

structure Refusal where
  transformer : String
  message : String
  deriving DecidableEq, Repr

structure Coerced where
  value : Option Value
  refusals : List Refusal
  deriving Repr

namespace Directive

def candidates (target : Option KindSet) (k : Kind) : List Transformer :=
  match target with
  | none => []
  | some s => Transformer.builtins.filter fun t => s.has t.output && t.admits k

def attempt (gated : Bool) (v : Value) (target : Option KindSet) : List Transformer → Coerced
  | [] => ⟨none, []⟩
  | t :: rest =>
      if gated && !t.admits (Kind.of v) then attempt gated v target rest
      else match t.run v target with
        | .replace w => ⟨some w, []⟩
        | .decline => attempt gated v target rest
        | .fail m =>
            let later := attempt gated v target rest
            ⟨later.value, ⟨t.name, m⟩ :: later.refusals⟩

def apply (d : Directive) (v : Value) (target : Option KindSet) : Coerced :=
  match d with
  | .infer => attempt false v target (candidates target (Kind.of v))
  | .single t => attempt true v target [t]
  | .list ts => attempt true v target ts
  | .group _ ts ignoreCheck => attempt (!ignoreCheck) v target ts

def names (ts : List Transformer) : List String := ts.map Transformer.name

def same : Directive → Directive → Bool
  | .infer, .infer => true
  | .single t, .single u => t.name == u.name
  | .list ts, .list us => names ts == names us
  | .group n ts i, .group m us j => n == m && i == j && names ts == names us
  | _, _ => false

def nameList (ts : List Transformer) : Value := .array ((names ts).map .string)

def toValue : Directive → Value
  | .infer => .bool true
  | .single t => .string t.name
  | .list ts => nameList ts
  | .group name ts ignoreCheck =>
      .object [("name", (name.map Value.string).getD .null), ("transformers", nameList ts),
        ("ignoreCheck", .bool ignoreCheck)]

end Directive

end CheckedConfig
