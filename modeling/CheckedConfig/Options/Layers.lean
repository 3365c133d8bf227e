import CheckedConfig.Files
import CheckedConfig.Format.Json5
import CheckedConfig.Format.Yaml
import CheckedConfig.Options

namespace CheckedConfig

abbrev Environment := Fields String

namespace Options

def lower (s : String) : String := String.ofList (s.toList.map Character.lowerAscii)

def flag? : Value → Option Bool
  | .bool b => some b
  | .number n => some (!n.toDouble.isZero)
  | .string s =>
      if ["1", "true", "on", "yes"].contains (lower s) then some true
      else if ["0", "false", "off", "no"].contains (lower s) then some false
      else none
  | _ => none

def text? : Value → Option String
  | .string s => some s
  | .bool b => some (Value.bool b).display
  | .number n => some n.display
  | _ => none

def texts? : Value → Option (List String)
  | .array vs => vs.mapM text?
  | _ => none

def fieldOr {α : Type} (fs : Fields Value) (name : String) (read : Value → Option α)
    (otherwise : α) : Option α :=
  match fs.get? name with
  | some v => read v
  | none => some otherwise

def ofFields? (fs : Fields Value) : Option Options := do
  let ext ← fieldOr fs "ext" texts? default.ext
  let noConfigExit ← fieldOr fs "no_config_exit" flag? default.noConfigExit
  let log ← fieldOr fs "log" flag? default.log
  let strict ← fieldOr fs "strict" flag? default.strict
  pure (normalize ⟨ext, noConfigExit, log, strict⟩)

def nested : List String → Value → Value
  | [], v => v
  | name :: rest, v => .object [(name, nested rest v)]

def put (fs : Fields Value) (name : String) : Value → Fields Value
  | .object [] => if fs.has name then fs else fs.set name (.object [])
  | v => fs.set name v

def overlayField (fs : Fields Value) (name : String) (v : Value) : Fields Value :=
  match Text.splitOn '.' (lower name) with
  | first :: rest =>
      if (first :: rest).all (!·.isEmpty) then put fs first (nested rest v)
      else put fs (lower name) v
  | [] => put fs (lower name) v

def overlay (fs layer : Fields Value) : Fields Value :=
  layer.foldl (fun fs p => overlayField fs p.1 p.2) fs

def formats : List (String × (String → Option Value)) :=
  [("toml", Toml.parse), ("json", Json.parse), ("yaml", Yaml.parse), ("yml", Yaml.parse),
   ("json5", Json5.parse)]

def locate? (files : Files) (path : String) : Option String :=
  if files.isFile path then some path
  else (formats.map fun f => path ++ "." ++ f.1).find? files.isFile

def unmarked (s : String) : String :=
  match s.toList with
  | '\ufeff' :: cs => String.ofList cs
  | _ => s

def readLayer? (files : Files) (path : String) : Option (Fields Value) := do
  let text ← (files.read path).toOption
  let read ← (Pathname.extension? path).bind (formats.lookup ·)
  match ← read (unmarked text) with
  | .object fs => pure fs
  | _ => none

def optionalLayer? (files : Files) (path : String) : Option (Fields Value) :=
  match locate? files path with
  | some found => readLayer? files found
  | none => some []

def requiredLayer? (files : Files) (path : String) : Option (Fields Value) :=
  (locate? files path).bind (readLayer? files)

def isUnbounded (s : String) : Bool :=
  let cs := (lower s).toList
  let unsigned := match cs with
    | '+' :: rest => rest
    | '-' :: rest => rest
    | _ => cs
  ["inf", "infinity", "nan"].contains (String.ofList unsigned)

def readVariable (name text : String) : Value :=
  if lower text = "true" then .bool true
  else if lower text = "false" then .bool false
  else if isUnbounded text then .bool true
  else match Decimal.ofChars? text.toList with
    | some d => .bool (!(d.toDouble?.map Double.isZero).getD false)
    | none =>
        if name = "ext" then .array ((Text.splitOn ',' text).map .string) else .string text

def variablePrefix : List Char := "schemaconf__".toList

def dotted : List Char → List Char
  | '_' :: '_' :: cs => '.' :: dotted cs
  | c :: cs => c :: dotted cs
  | [] => []

def optionName? (name : String) : Option String :=
  let cs := (lower name).toList
  if variablePrefix.isPrefixOf cs then
    some (String.ofList (dotted (cs.drop variablePrefix.length)))
  else none

def environmentLayer (env : Environment) : Fields Value :=
  Fields.ofList (env.filterMap fun p =>
    (optionName? p.1).map fun name => (name, readVariable name p.2))

def locations : List String := ["schemaconf.toml", ".schemaconf.toml", "config/schemaconf.toml"]

def platformFile? (env : Environment) : Option String :=
  match (env.get? "XDG_CONFIG_HOME").filter (Text.startsWith · '/'), env.get? "HOME" with
  | some dir, _ => some (dir ++ "/schemaconf/schemaconf.toml")
  | none, some home => some (home ++ "/.config/schemaconf/schemaconf.toml")
  | none, none => none

def searched (platform explicit : Option String) : List String :=
  (locations ++ platform.toList ++ explicit.toList).flatMap fun path =>
    path :: formats.map fun f => path ++ "." ++ f.1

/-- `platform` is the user's own file, and `explicit` a file that has to be there. -/
def load? (files : Files) (env : Environment) (platform explicit : Option String) :
    Option Options := do
  let shared ← (locations ++ (platform.filter files.isFile).toList).mapM (optionalLayer? files)
  let chosen ← explicit.toList.mapM (requiredLayer? files)
  ofFields? ((shared ++ chosen ++ [environmentLayer env]).foldl overlay [])

def load (files : Files) (env : Environment) (platform explicit : Option String) :
    Except Failure Options :=
  match load? files env platform explicit with
  | some o => .ok o
  | none => .error .options

end Options

end CheckedConfig
