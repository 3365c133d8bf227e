import CheckedConfig.Options.Layers
import CheckedConfig.Validation.Interceptor

namespace CheckedConfig

namespace Substitution

inductive Piece where
  | literal (c : Char)
  | reference (name : List Char)
  deriving DecidableEq, Repr

def isNameChar (c : Char) : Bool := Character.isAsciiLetter c || c == '_'

def pieces : List Char → List Piece
  | [] => []
  | c :: cs =>
      if c = '$' ∧ cs.takeWhile isNameChar ≠ [] then
        .reference (cs.takeWhile isNameChar) :: pieces (cs.dropWhile isNameChar)
      else .literal c :: pieces cs
termination_by cs => cs.length
decreasing_by
  · exact Nat.lt_succ_of_le (List.dropWhile_sublist isNameChar).length_le
  · exact Nat.lt_succ_self _

def Piece.name? : Piece → Option String
  | .literal _ => none
  | .reference name => some (String.ofList name)

def referenced (ps : List Piece) : List String := ps.filterMap Piece.name?

def missing (env : Environment) (ps : List Piece) : List String :=
  (referenced ps).filter fun name => !env.has name

def Piece.fill (env : Environment) : Piece → List Char
  | .literal c => [c]
  | .reference name => ((env.get? (String.ofList name)).getD "").toList

def fill (env : Environment) (ps : List Piece) : String :=
  String.ofList (ps.flatMap (Piece.fill env))

def replace (env : Environment) (strict : Bool) (s : String) (place : Place) :
    Except Failure (Option Value) :=
  let ps := pieces s.toList
  let text : Value := .string (fill env ps)
  match missing env ps with
  | [] => .ok (some text)
  | names =>
      if (referenced ps).length = 1 then .ok (some (place.schema.own.default.getD text))
      else if strict then .error (.missingVariables names place.propertyPath)
      else .ok (some text)

def interceptor (env : Environment) (strict : Bool) : Interceptor where
  name := "env-replace"
  traced := false
  intercept v place :=
    match v with
    | some (.string s) =>
        if s.toList.contains '$' then replace env strict s place else .ok none
    | _ => .ok none

end Substitution

end CheckedConfig
