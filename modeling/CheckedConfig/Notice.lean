import CheckedConfig.Validation.Collection

namespace CheckedConfig

inductive Notice where
  | schema (w : SchemaWarning)
  | late (method : String)
  | noMatch
  | noSources (fatal : Bool)
  | report (text : String)
  | missingVariables (names : List String) (path : String)
  | loadFailed (loader path : String) (failure : Failure)
  | parseFailed (parser path : String) (failure : Failure)

namespace Notice

inductive Level where
  | warning
  | error
  deriving DecidableEq, Repr

def level : Notice → Level
  | .schema _ => .warning
  | .late _ => .warning
  | .noMatch => .warning
  | _ => .error

def headline : Notice → String
  | .schema w => w.message
  | .late method => method ++ "() was called after load(), it will not take effect"
  | .noMatch => "No config sources matched"
  | .noSources true => "No config sources found"
  | .noSources false => "No config sources found, continuing without configuration"
  | .report text => text
  | .missingVariables names path => (Failure.missingVariables names path).message
  | .loadFailed loader path _ => loader ++ " load error for " ++ path
  | .parseFailed parser path _ => parser ++ " parse error for " ++ path

def cause? : Notice → Option Failure
  | .loadFailed _ _ failure => some failure
  | .parseFailed _ _ failure => some failure
  | _ => none

def text (n : Notice) : String :=
  match n.cause? with
  | some failure => n.headline ++ ": " ++ failure.message
  | none => n.headline

end Notice

def Collection.notices (p : Collection.Palette) (formatter : Option Collection.Formatter)
    (c : Collection) : List Notice :=
  if c.isEmpty then [] else [.report (c.render p formatter)]

def Failure.notices (p : Collection.Palette) (formatter : Option Collection.Formatter) :
    Failure → List Notice
  | .strict refusal => ((Collection.new true).recordAll refusal).notices p formatter
  | .missingVariables names path => [.missingVariables names path]
  | _ => []

end CheckedConfig
