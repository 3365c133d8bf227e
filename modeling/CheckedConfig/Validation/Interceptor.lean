import CheckedConfig.Failure

namespace CheckedConfig

structure Place where
  schema : Node
  schemaPath : String
  propertyPath : String
  name : Option String
  origin : Option Value

structure Interceptor where
  name : String
  traced : Bool
  intercept : Option Value → Place → Except Failure (Option Value)

structure Visit where
  place : Place
  given : List (Option Value)

namespace Interceptor

def run (place : Place) : List Interceptor → Option Value →
    List (Option Value) × Except Failure (Option Value)
  | [], v => ([], .ok v)
  | i :: rest, v =>
      match i.intercept v place with
      | .error e => ([v], .error e)
      | .ok replaced =>
          let (given, result) := run place rest (replaced <|> v)
          (v :: given, result)

def remove (name : String) (chain : List Interceptor) : List Interceptor :=
  chain.filter (·.name != name)

end Interceptor

end CheckedConfig
