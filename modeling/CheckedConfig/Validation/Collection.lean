import CheckedConfig.Failure

namespace CheckedConfig

structure Collection where
  strict : Bool
  size : Nat
  groups : Fields (List Violation)

namespace Collection

def new (strict : Bool) : Collection := ⟨strict, 0, []⟩

def list (c : Collection) : List Violation := c.groups.flatMap Prod.snd

def isEmpty (c : Collection) : Bool := c.size == 0

def get? (c : Collection) (path : String) : Option (List Violation) := c.groups.get? path

def record (c : Collection) (v : Violation) : Collection :=
  { c with
    size := c.size + 1
    groups := c.groups.set v.path ((c.groups.get? v.path).getD [] ++ [v]) }

def recordAll (c : Collection) (vs : List Violation) : Collection := vs.foldl record c

def extend (c : Collection) (vs : List Violation) : Collection × Except Failure Unit :=
  let d := c.recordAll vs
  (d, if d.strict && !vs.isEmpty then .error (.strict ⟨d.size, d.list⟩) else .ok ())

def add (c : Collection) (v : Violation) : Collection × Except Failure Unit := c.extend [v]

abbrev Formatter := Collection → String

structure Palette where
  name : String → String
  mark : String → String

def colored (code : String) (s : String) : String := "\x1b[" ++ code ++ "m" ++ s ++ "\x1b[0m"

def Palette.plain : Palette := ⟨id, id⟩

def Palette.ansi : Palette := ⟨colored "36", colored "33"⟩

def entryLine (p : Palette) (v : Violation) : String :=
  "  <" ++ p.mark v.keyword.name ++ "> at " ++ p.name v.schemaPath ++ " " ++ v.message ++ "\n"

def groupText (p : Palette) (g : String × List Violation) : String :=
  "Got " ++ toString g.2.length ++ " errors on " ++ p.name g.1 ++ ":\n"
    ++ String.join (g.2.map (entryLine p))

def report (p : Palette) (c : Collection) : String :=
  "[schemaconf] got " ++ toString c.size ++ " errors:\n" ++ String.join (c.groups.map (groupText p))

def render (p : Palette) (formatter : Option Formatter) (c : Collection) : String :=
  match formatter with
  | some f => f c
  | none => c.report p

end Collection

end CheckedConfig
