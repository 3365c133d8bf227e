import CheckedConfig.Text.Character

namespace CheckedConfig

namespace Pathname

inductive Part where
  | root
  | here
  | up
  | name (s : String)
  deriving DecidableEq, Repr

def part (s : String) : Part := if s = ".." then .up else .name s

def parts (path : String) : List Part :=
  match Text.splitOn '/' path with
  | [] => []
  | s :: rest =>
      let tail := (rest.filter fun t => t != "" && t != ".").map part
      if s = "" then (if rest.isEmpty then tail else .root :: tail)
      else if s = "." then .here :: tail
      else part s :: tail

def same (p q : String) : Bool := parts p == parts q

def suffix? (name : List Char) : Option (List Char) :=
  let after := name.reverse.takeWhile (· != '.')
  match name.reverse.dropWhile (· != '.') with
  | _ :: _ :: _ => some after.reverse
  | _ => none

def extension? (path : String) : Option String :=
  match (parts path).getLast? with
  | some (.name s) => (suffix? s.toList).map String.ofList
  | _ => none

def dottedExtension? (path : String) : Option String := (extension? path).map ("." ++ ·)

end Pathname

end CheckedConfig
