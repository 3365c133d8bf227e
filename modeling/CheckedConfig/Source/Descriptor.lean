import CheckedConfig.Source.Checksum
import CheckedConfig.Source.Pathname
import CheckedConfig.Value

namespace CheckedConfig

inductive Origin where
  | file
  | defaults
  deriving DecidableEq, Repr

structure Candidate where
  path : String
  ext : String
  group : Option String
  origin : Origin
  deriving DecidableEq, Repr

def Candidate.defaults : Candidate := ⟨"", "", none, .defaults⟩

structure Source where
  config : Value
  candidate : Candidate
  checksum : Option Checksum

structure SourceOptions where
  ext : Option (List String)
  groups : List String
  groupSuffix : Option Bool
  deriving DecidableEq, Repr

structure Descriptor where
  path : String
  ext : List String
  groups : List String
  groupSuffix : Bool
  deriving DecidableEq, Repr

def normalizeExt (ext : String) : String := if Text.startsWith ext '.' then ext else "." ++ ext

namespace Descriptor

def new (path : String) (options : SourceOptions) (defaultExt : List String) : Descriptor :=
  ⟨path, (options.ext.getD defaultExt).map normalizeExt, options.groups,
   options.groupSuffix.getD true⟩

def same (a b : Descriptor) : Bool :=
  Pathname.same a.path b.path && a.ext == b.ext && a.groups == b.groups
    && a.groupSuffix == b.groupSuffix

def inGroup (d : Descriptor) (group : String) : Bool := d.groups.contains group

def suffixGroups (d : Descriptor) (selector : List String) : List String :=
  selector.filter d.inGroup ++ d.groups.filter (!selector.contains ·)

def stems (d : Descriptor) (selector : List String) (groupSuffix : Option Bool) :
    List (String × Option String) :=
  (if groupSuffix.getD d.groupSuffix then
      (d.suffixGroups selector).map fun g => (d.path ++ "." ++ g, some g)
    else [])
    ++ [(d.path, none)]

def candidates (d : Descriptor) (selector : List String) (groupSuffix : Option Bool) :
    List Candidate :=
  match Pathname.dottedExtension? d.path with
  | some ext => [⟨d.path, ext, d.groups.head?, .file⟩]
  | none =>
      (d.stems selector groupSuffix).flatMap fun stem =>
        d.ext.map fun ext => ⟨stem.1 ++ ext, ext, stem.2 <|> d.groups.head?, .file⟩

def rank (selector : List String) (d : Descriptor) : Option Nat :=
  if d.groups.isEmpty then some selector.length else selector.findIdx? d.inGroup

def order (selector : List String) (ds : List Descriptor) : List Descriptor :=
  if selector.isEmpty then ds
  else (List.range (selector.length + 1)).flatMap fun i => ds.filter (·.rank selector == some i)

end Descriptor

end CheckedConfig
