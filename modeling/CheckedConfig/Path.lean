import CheckedConfig.Failure

namespace CheckedConfig

namespace Path

def split (path : String) : List String := if path.isEmpty then [] else Text.splitOn '.' path

def join (segments : List String) : String := Text.joinWith "." segments

def index? (segment : String) : Option Nat :=
  let cs := segment.toList
  if cs.isEmpty || !cs.all isDigit then none
  else if digitsValue cs < Nat.pow 2 64 then some (digitsValue cs)
  else none

end Path

namespace Value

def child? : Value → String → Option Value
  | .object fs, s => Fields.get? fs s
  | .array vs, s => (Path.index? s).bind (vs[·]?)
  | _, _ => none

def get? : Value → List String → Option Value
  | v, [] => some v
  | v, s :: rest => (v.child? s).bind (·.get? rest)

def lookup (v : Value) (path : String) : Option Value :=
  match v with
  | .object fs => Fields.get? fs path <|> v.get? (Path.split path)
  | _ => v.get? (Path.split path)

inductive Obstacle where
  | noParent
  | badIndex
  | notContainer
  deriving DecidableEq, Repr

def put : Value → String → Value → Except Obstacle Value
  | .object fs, s, x => .ok (.object (Fields.set fs s x))
  | .array vs, s, x =>
      match Path.index? s with
      | none => .error .badIndex
      | some i =>
          if i < vs.length then .ok (.array (vs.set i x))
          else if i = vs.length then .ok (.array (vs ++ [x]))
          else .error .badIndex
  | _, _, _ => .error .notContainer

def store : Value → List String → Value → Except Obstacle Value
  | _, [], x => .ok x
  | v, [last], x => v.put last x
  | v, s :: t :: rest, x =>
      match v.child? s with
      | none => .error .noParent
      | some w => (w.store (t :: rest) x).bind (v.put s)

end Value

def Path.failure (segments : List String) : Value.Obstacle → Failure
  | .noParent => .missingParent (join segments.dropLast) (join segments)
  | .badIndex =>
      .invalidPath (.badIndex (segments.getLast?.getD "") (join segments.dropLast))
  | .notContainer => .invalidPath (.notContainer (join segments.dropLast) (join segments))

def Value.write (v : Value) (segments : List String) (x : Value) : Except Failure Value :=
  (v.store segments x).mapError (Path.failure segments)

namespace Fields

def under (fs : Fields Value) (name : String) : Fields Value :=
  match fs.get? name with
  | some (.object gs) => gs
  | _ => []

def insertNested : Fields Value → List String → Value → Fields Value
  | fs, [], _ => fs
  | fs, [last], x => fs.set last x
  | fs, s :: t :: rest, x => fs.set s (.object (insertNested (fs.under s) (t :: rest) x))

end Fields

end CheckedConfig
