import CheckedConfig.Number.Decimal
import CheckedConfig.Schema.Node

namespace CheckedConfig

namespace Node

structure Found where
  node : Node
  path : String

def admits (n : Node) (k : Kind) : Bool :=
  match n.own.kind with
  | some s => s.has k || s.acceptsAny
  | none => false

def isIndex (segment : String) : Bool := !segment.isEmpty && segment.toList.all isDigit

def declared? (n : Node) (name : String) : Option Node := n.properties.bind (Fields.get? · name)

def extra? (n : Node) : Option Node :=
  match n.additional with
  | some (.schema m) => some m
  | _ => none

theorem extra?_eq_some {n m : Node} (h : n.extra? = some m) :
    n.additional = some (.schema m) := by
  unfold extra? at h
  split at h
  · next k hk => rw [hk, Option.some.inj h]
  · simp at h

def toProperty (n : Node) (name : String) : List (Node × String) :=
  match n.declared? name with
  | some m => [(m, "/properties/" ++ name)]
  | none => []

def toExtra (n : Node) (name : String) : List (Node × String) :=
  match n.extra? with
  | some m => if n.declares name then [] else [(m, "/additionalProperties/" ++ name)]
  | none => []

def toItem (n : Node) : List (Node × String) :=
  match n.items with
  | some m => [(m, "/items")]
  | none => []

def fieldSteps (n : Node) (segment : String) : List (Node × String) :=
  if n.admits .object then n.toProperty segment ++ n.toExtra segment else []

def itemSteps (n : Node) (segment : String) : List (Node × String) :=
  if isIndex segment && n.admits .array then n.toItem else []

def steps (n : Node) (segment : String) : List (Node × String) :=
  n.fieldSteps segment ++ n.itemSteps segment

def findFrom : List String → Node → String → Option Found
  | [], n, path => some ⟨n, path⟩
  | segment :: rest, n, path =>
      (n.steps segment).findSome? fun s => findFrom rest s.1 (path ++ s.2)

def find? (root : Node) (segments : List String) : Option Found := findFrom segments root "#"

inductive Step where
  | property (name : String)
  | items
  | extra
  | branch (operator : Keyword) (index : Nat)
  deriving DecidableEq, Repr

def follow (n : Node) : Step → Option Node
  | .property name => n.declared? name
  | .items => n.items
  | .extra => n.extra?
  | .branch operator i => (n.branches operator).bind (·[i]?)

/-- A schema path by segments. What stands after `additionalProperties` does not matter, and an index
that is too great leads to no branch, however great it is. -/
def readSteps : List String → Option (List Step)
  | [] => some []
  | [s] =>
      if s = "items" then some [.items]
      else if s = "additionalProperties" then some [.extra]
      else none
  | s :: t :: rest =>
      if s = "properties" then (readSteps rest).map (.property t :: ·)
      else if s = "items" then (readSteps (t :: rest)).map (.items :: ·)
      else if s = "additionalProperties" then (readSteps rest).map (.extra :: ·)
      else
        (operator? s).bind fun operator =>
          (natOfText? t).bind fun i => (readSteps rest).map (.branch operator i :: ·)
where
  operator? (s : String) : Option Keyword :=
    [Keyword.anyOf, .allOf, .oneOf, .not].find? (·.name == s)

def unrooted (schemaPath : String) : List Char :=
  match schemaPath.toList with
  | '#' :: rest => rest
  | cs => cs

def isSlash (c : Char) : Bool := c == '/'

def pathSegments (cs : List Char) : List String :=
  ((Text.splitChars '/' cs).filter (!·.isEmpty)).map String.ofList

def rooted (cs : List Char) : String :=
  String.ofList (('#' :: '/' :: cs.dropWhile isSlash).reverse.dropWhile isSlash).reverse

def resolve? (root : Node) (schemaPath : String) : Option Found :=
  let cs := unrooted schemaPath
  (readSteps (pathSegments cs)).bind fun steps =>
    (steps.foldlM follow root).map (⟨·, rooted cs⟩)

end Node

end CheckedConfig
