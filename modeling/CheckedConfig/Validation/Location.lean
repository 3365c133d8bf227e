import CheckedConfig.Validation.Violation

namespace CheckedConfig

structure Location where
  propertyPath : String
  schemaPath : String
  name : Option String
  deriving DecidableEq, Repr

namespace Location

def rootProperty : String := "$ROOT"

def rootSchema : String := "#"

def root : Location := ⟨rootProperty, rootSchema, none⟩

def property (here : Location) (name via : String) : Location :=
  ⟨here.propertyPath ++ "." ++ name, here.schemaPath ++ "/" ++ via ++ "/" ++ name, some name⟩

def index (here : Location) (i : Nat) : Location :=
  ⟨here.propertyPath ++ "[" ++ toString i ++ "]", here.schemaPath ++ "/items", none⟩

def branch (here : Location) (keyword : Keyword) (i : Nat) : Location :=
  ⟨here.propertyPath, here.schemaPath ++ "/" ++ keyword.name ++ "/" ++ toString i, here.name⟩

def keywordPath (here : Location) (keyword : Keyword) : String :=
  here.schemaPath ++ "/" ++ keyword.name

end Location

end CheckedConfig
