import CheckedConfig.Text.Character
import CheckedConfig.Value

namespace CheckedConfig

inductive Kind where
  | object
  | array
  | string
  | boolean
  | number
  | integer
  | null
  | any
  deriving DecidableEq, Repr

namespace Kind

def all : List Kind := [.object, .array, .string, .boolean, .number, .integer, .null, .any]

def name : Kind → String
  | .object => "object"
  | .array => "array"
  | .string => "string"
  | .boolean => "boolean"
  | .number => "number"
  | .integer => "integer"
  | .null => "null"
  | .any => "any"

def ofName? (s : String) : Option Kind := all.find? (·.name == s)

def of : Value → Kind
  | .null => .null
  | .bool _ => .boolean
  | .number _ => .number
  | .string _ => .string
  | .array _ => .array
  | .object _ => .object

end Kind

inductive KindSet where
  | one (k : Kind)
  | many (ks : List Kind)
  deriving DecidableEq, Repr

namespace KindSet

def kinds : KindSet → List Kind
  | .one k => [k]
  | .many ks => ks

def has (s : KindSet) (k : Kind) : Bool := s.kinds.contains k

def acceptsAny (s : KindSet) : Bool := s.has .any

def text (s : KindSet) : String := Text.joinWith "," (s.kinds.map Kind.name)

def ofKinds? (ks : List Kind) : Option KindSet :=
  match ks.eraseDups with
  | [] => none
  | [k] => some (.one k)
  | ks => some (.many ks)

end KindSet

end CheckedConfig
