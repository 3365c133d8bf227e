import CheckedConfig.Schema.Document
import CheckedConfig.Schema.Keyword

namespace CheckedConfig

structure Violation where
  message : String
  path : String
  keyword : Keyword
  schema : Node
  schemaPath : String
  reasons : List Violation

namespace Violation

def line (v : Violation) : String := v.path ++ ": <" ++ v.keyword.name ++ "> " ++ v.message

mutual

def toValue : Violation → Value
  | ⟨message, path, keyword, schema, schemaPath, reasons⟩ =>
      .object
        ([("message", .string message), ("path", .string path), ("keyword", .string keyword.name),
          ("schema", schema.toValue), ("schemaPath", .string schemaPath)]
          ++ reasonsField reasons)

def reasonsField : List Violation → List (String × Value)
  | [] => []
  | v :: vs => [("reasons", .array (v.toValue :: toValues vs))]

def toValues : List Violation → List Value
  | [] => []
  | v :: vs => v.toValue :: toValues vs

end

end Violation

end CheckedConfig
