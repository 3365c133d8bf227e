import CheckedConfig.Substitution

namespace CheckedConfig

structure Loader where
  name : String
  traced : Bool
  load : Files → Option String → Candidate → Except Failure (Option String)

def Loader.files : Loader where
  name := "fs"
  traced := false
  load files previous c :=
    if previous.isSome || c.origin != .file || !files.isFile c.path then .ok none
    else (files.read c.path).map some |>.mapError .file

structure Parser where
  name : String
  parse : Option String → Option Value → Candidate → Except Failure (Option Value)

namespace Format

def read (f : Format) (text : String) : Except Failure Value :=
  let v :=
    match f with
    | .json => Json.parse text
    | .yaml => Yaml.parse text
    | .json5 => Json5.parse text
  match v with
  | some v => .ok v
  | none => .error (.malformed f)

def name : Format → String
  | .json => "json"
  | .yaml => "yaml"
  | .json5 => "json5"

def extensions : Format → List String
  | .json => [".json"]
  | .yaml => [".yaml", ".yml"]
  | .json5 => [".json5"]

def all : List Format := [.json, .yaml, .json5]

def ofExtension? (ext : String) : Option Format := all.find? (·.extensions.contains ext)

def parser (f : Format) : Parser where
  name := f.name
  parse text previous c :=
    match text with
    | some text =>
        if previous.isSome || !f.extensions.contains c.ext then .ok none
        else (f.read text).map some
    | none => .ok none

end Format

def readByExtension (text ext : String) : Except Failure (Option Value) :=
  match Format.ofExtension? ext with
  | some f => (f.read text).map some
  | none => .ok none

def Schema.ofFile (files : Files) (path : String) : Except Failure Node := do
  let text ← (files.read path).mapError .file
  match ← readByExtension text ((Pathname.dottedExtension? path).getD "") with
  | some v => (Schema.rootOfValue v).mapError .invalidSchema
  | none => .error (.invalidSchema (.unsupportedExtension path))

structure Bundle where
  loaders : List Loader
  parsers : List Parser
  interceptors : List Interceptor

structure Plugin where
  name : String
  bundle : Options → Bundle

namespace Plugin

def defaultFormats : Plugin where
  name := "default-formats"
  bundle _ := ⟨[Loader.files], Format.all.map Format.parser, []⟩

def environment (env : Environment) : Plugin where
  name := "env-replace"
  bundle o := ⟨[], [], [Substitution.interceptor env o.strict]⟩

end Plugin

end CheckedConfig
