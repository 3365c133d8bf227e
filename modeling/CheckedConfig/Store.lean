import CheckedConfig.Arguments
import CheckedConfig.Notice
import CheckedConfig.Schema.Search
import CheckedConfig.Source.Plugin
import CheckedConfig.Validation.Walk

namespace CheckedConfig

structure Selection where
  groups : List String
  groupSuffix : Option Bool
  deriving DecidableEq, Repr

def Selection.any : Selection := ⟨[], none⟩

structure LoadResult where
  violations : List Violation
  matched : Option Candidate

inductive Call where
  | load (c : Candidate) (previous : Option String)
  | visit (place : Place) (given : Option Value)

structure Trail where
  notices : List Notice
  calls : List Call

namespace Trail

def none : Trail := ⟨[], []⟩

def append (s t : Trail) : Trail := ⟨s.notices ++ t.notices, s.calls ++ t.calls⟩

instance : Append Trail := ⟨append⟩

def notice (n : Notice) : Trail := ⟨[n], []⟩

end Trail

structure Store where
  options : Options
  loaders : Fields Loader
  parsers : Fields Parser
  plugins : Fields Plugin
  interceptors : List Interceptor
  sources : List Descriptor
  schema : Option Schema
  strictSchema : Bool
  formatter : Option Collection.Formatter
  arguments : Arguments
  loaded : Option LoadResult
  configSources : List Source

structure Step (α : Type) where
  result : Except Failure α
  store : Store
  trail : Trail

namespace Step

variable {α β : Type}

def done (store : Store) (a : α) : Step α := ⟨.ok a, store, .none⟩

def failed (store : Store) (f : Failure) : Step α := ⟨.error f, store, .none⟩

def bind (s : Step α) (f : α → Store → Step β) : Step β :=
  match s.result with
  | .error e => ⟨.error e, s.store, s.trail⟩
  | .ok a =>
      let t := f a s.store
      ⟨t.result, t.store, s.trail ++ t.trail⟩

def after (t : Trail) (s : Step α) : Step α := { s with trail := t ++ s.trail }

end Step

namespace Store

def new (o : Options) : Store where
  options := o.normalize
  loaders := []
  parsers := []
  plugins := []
  interceptors := []
  sources := []
  schema := none
  strictSchema := false
  formatter := none
  arguments := ⟨[], []⟩
  loaded := none
  configSources := []

def active (s : Store) : Option Source := s.configSources.head?

def late (s : Store) (method : String) : Trail :=
  if s.loaded.isSome then .notice (.late method) else .none

def setup (s : Store) (method : String) (t : Store) : Step Unit :=
  ⟨.ok (), t, s.late method⟩

def setOptions (s : Store) (p : OptionsPatch) (replace : Bool) : Step Unit :=
  s.setup "set_options"
    { s with options := (if replace then Options.default else s.options).patch p }

def addExtensions (s : Store) (ext : List String) : Step Unit :=
  s.setup "add_extension"
    { s with options := { s.options with ext := s.options.ext ++ ext.map normalizeExt } }

def addLoader (s : Store) (l : Loader) : Step Unit :=
  s.setup "add_loader" { s with loaders := s.loaders.set l.name l }

def addParser (s : Store) (p : Parser) : Step Unit :=
  s.setup "add_parser" { s with parsers := s.parsers.set p.name p }

def addPlugin (s : Store) (p : Plugin) : Step Unit :=
  s.setup "add_plugin" { s with plugins := s.plugins.set p.name p }

def setSchema (s : Store) (schema : Schema) (strict : Bool) : Step Unit :=
  s.setup "set_schema" { s with schema := some schema, strictSchema := strict }

def addInterceptor (s : Store) (i : Interceptor) : Store :=
  { s with interceptors := s.interceptors ++ [i] }

def hasInterceptor (s : Store) (name : String) : Bool := s.interceptors.any (·.name == name)

def removeInterceptor (s : Store) (name : String) : Store :=
  { s with interceptors := Interceptor.remove name s.interceptors }

def addSource (s : Store) (path : String) (o : SourceOptions) : Store :=
  { s with sources := s.sources ++ [Descriptor.new path o s.options.ext] }

def setFormatter (s : Store) (f : Collection.Formatter) : Store := { s with formatter := some f }

def setArguments (s : Store) (a : Arguments) : Store := { s with arguments := a }

def create (s : Store) (p : OptionsPatch) : Store :=
  { new (s.options.patch p) with parsers := s.parsers, plugins := s.plugins }

def install (s : Store) (b : Bundle) : Store :=
  { s with
    loaders := b.loaders.foldl (fun fs l => fs.set l.name l) s.loaders
    parsers := b.parsers.foldl (fun fs p => fs.set p.name p) s.parsers
    interceptors := s.interceptors ++ b.interceptors }

def installPlugins (s : Store) : Store :=
  s.plugins.values.foldl (fun s p => s.install (p.bundle s.options)) s

end Store

end CheckedConfig
