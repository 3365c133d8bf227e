import CheckedConfig.Validation.Violation

namespace CheckedConfig

inductive FileFault where
  | notFound
  | notText
  | isDirectory
  | notDirectory
  deriving DecidableEq, Repr

def FileFault.message : FileFault → String
  | .notFound => "No such file or directory (os error 2)"
  | .notText => "stream did not contain valid UTF-8"
  | .isDirectory => "Is a directory (os error 21)"
  | .notDirectory => "Not a directory (os error 20)"

inductive PathFault where
  | empty
  | unresolved (schemaPath : String)
  | badIndex (segment parent : String)
  | notContainer (parent path : String)
  | refused (reason : String)
  deriving DecidableEq, Repr

def PathFault.message : PathFault → String
  | .empty => "cannot set an empty path"
  | .unresolved schemaPath => "schema path \"" ++ schemaPath ++ "\" does not resolve"
  | .badIndex segment parent =>
      "\"" ++ segment ++ "\" is not a valid index into the array at \"" ++ parent ++ "\""
  | .notContainer parent path =>
      "\"" ++ parent ++ "\" is not a container, so \"" ++ path ++ "\" cannot be set"
  | .refused reason => reason

inductive Format where
  | json
  | yaml
  | json5
  deriving DecidableEq, Repr

def Format.title : Format → String
  | .json => "JSON"
  | .yaml => "YAML"
  | .json5 => "JSON5"

structure StrictRefusal where
  length : Nat
  violations : List Violation

instance : Coe StrictRefusal (List Violation) := ⟨StrictRefusal.violations⟩

inductive Failure where
  | file (fault : FileFault)
  | malformed (format : Format)
  | mistyped
  | options
  | invalidSchema (fault : SchemaFault)
  | invalidPath (fault : PathFault)
  | missingParent (parent path : String)
  | missingVariables (names : List String) (path : String)
  | noSources
  | strict (refusal : StrictRefusal)

namespace Failure

def message : Failure → String
  | .file fault => "IO error: " ++ fault.message
  | .malformed format => format.title ++ " error: the text is not a document"
  | .mistyped => "JSON error: the value has another type"
  | .options => "Options error: the options cannot be read"
  | .invalidSchema fault => "Invalid schema: " ++ fault.message
  | .invalidPath fault => "Invalid path: " ++ fault.message
  | .missingParent parent path =>
      "No configuration item for \"" ++ parent ++ "\", so \"" ++ path ++ "\" cannot be set"
  | .missingVariables names path =>
      "Missing environment variables " ++ Text.joinWith "," names ++ " at " ++ path
  | .noSources => "No config sources found"
  | .strict refusal =>
      "Strict mode: got " ++ toString refusal.length ++ " validation error(s)"

def isFatal : Failure → Bool
  | .strict _ => true
  | .noSources => true
  | .missingVariables _ _ => true
  | _ => false

end Failure

end CheckedConfig
