namespace CheckedConfig

inductive Keyword where
  | required
  | type
  | transform
  | additionalProperties
  | minItems
  | maxItems
  | uniqueItems
  | maxLength
  | minLength
  | minimum
  | maximum
  | pattern
  | enum
  | anyOf
  | allOf
  | oneOf
  | not
  deriving DecidableEq, Repr

namespace Keyword

def all : List Keyword :=
  [.required, .type, .transform, .additionalProperties, .minItems, .maxItems, .uniqueItems,
   .maxLength, .minLength, .minimum, .maximum, .pattern, .enum, .anyOf, .allOf, .oneOf, .not]

def name : Keyword → String
  | .required => "required"
  | .type => "type"
  | .transform => "transform"
  | .additionalProperties => "additionalProperties"
  | .minItems => "minItems"
  | .maxItems => "maxItems"
  | .uniqueItems => "uniqueItems"
  | .maxLength => "maxLength"
  | .minLength => "minLength"
  | .minimum => "minimum"
  | .maximum => "maximum"
  | .pattern => "pattern"
  | .enum => "enum"
  | .anyOf => "anyOf"
  | .allOf => "allOf"
  | .oneOf => "oneOf"
  | .not => "not"

def ofName? (s : String) : Option Keyword := all.find? (·.name == s)

end Keyword

end CheckedConfig
