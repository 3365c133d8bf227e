import CheckedConfig.Store.Access

namespace CheckedConfig

namespace CommandLine

inductive Command where
  | check (json : Bool)
  | get (key : String)
  deriving DecidableEq, Repr

structure Options where
  sources : List String
  schema : Option String
  groups : List String
  strict : Bool
  env : Bool
  config : Option String
  deriving DecidableEq, Repr

def Options.none : Options := ⟨[], .none, [], false, false, .none⟩

inductive Request where
  | run (o : Options) (c : Command)
  | help (text : String)
  | misuse
  deriving Repr

def rootHelp : String :=
  "Load and validate grouped configuration files\n\n"
    ++ "Usage: schemaconf [OPTIONS] --source <SOURCES> <COMMAND>\n\n"
    ++ "Commands:\n"
    ++ "  check  Load the configuration and report schema errors\n"
    ++ "  get    Print the value at a dotted path\n"
    ++ "  help   Print this message or the help of the given subcommand(s)\n\n"
    ++ "Options:\n"
    ++ "  -s, --source <SOURCES>  Config source, optionally with groups: "
    ++ "`config/app@production,default`\n"
    ++ "      --schema <SCHEMA>   Schema file (JSON, YAML or JSON5)\n"
    ++ "  -g, --group <GROUPS>    Preferred group, most preferred first (repeatable)\n"
    ++ "      --strict            Abort on the first schema error\n"
    ++ "      --env               Substitute `$VAR` references from the environment\n"
    ++ "  -c, --config <CONFIG>   Options file (schemaconf.toml)\n"
    ++ "  -h, --help              Print help\n"

def checkHelp : String :=
  "Load the configuration and report schema errors\n\n"
    ++ "Usage: schemaconf --source <SOURCES> check [OPTIONS]\n\n"
    ++ "Options:\n"
    ++ "      --json  Print the result as JSON\n"
    ++ "  -h, --help  Print help\n"

def getHelp : String :=
  "Print the value at a dotted path\n\n"
    ++ "Usage: schemaconf --source <SOURCES> get [KEY]\n\n"
    ++ "Arguments:\n"
    ++ "  [KEY]  e.g. `server.port`; empty for the whole configuration [default: ]\n\n"
    ++ "Options:\n"
    ++ "  -h, --help  Print help\n"

def attached : List Char → String
  | '=' :: cs => String.ofList cs
  | cs => String.ofList cs

inductive Slot where
  | source
  | schema
  | group
  | config
  deriving DecidableEq, Repr

def slot? : String → Option Slot
  | "source" => some .source
  | "schema" => some .schema
  | "group" => some .group
  | "config" => some .config
  | _ => none

def shortSlot? : Char → Option Slot
  | 's' => some .source
  | 'g' => some .group
  | 'c' => some .config
  | _ => none

def fill (o : Options) : Slot → String → Option Options
  | .source, v => some { o with sources := o.sources ++ [v] }
  | .group, v => some { o with groups := o.groups ++ [v] }
  | .schema, v => if o.schema.isSome || v.isEmpty then none else some { o with schema := some v }
  | .config, v => if o.config.isSome then none else some { o with config := some v }

def raise (o : Options) : String → Option Options
  | "strict" => if o.strict then none else some { o with strict := true }
  | "env" => if o.env then none else some { o with env := true }
  | _ => none

inductive Word where
  | options (o : Options)
  | wanting (s : Slot)
  | command (name : String)
  | help
  | wrong

def ofOptions : Option Options → Word
  | some o => .options o
  | none => .wrong

def longWord (o : Options) (cs : List Char) : Word :=
  let name := String.ofList (cs.takeWhile (· != '='))
  match slot? name, cs.dropWhile (· != '=') with
  | some s, [] => .wanting s
  | some s, rest => ofOptions (fill o s (attached rest))
  | none, [] => if name = "help" then .help else ofOptions (raise o name)
  | none, _ => .wrong

def word (o : Options) (w : String) : Word :=
  match w.toList with
  | '-' :: '-' :: cs => if cs.isEmpty then .wrong else longWord o cs
  | ['-', c] =>
      match shortSlot? c with
      | some s => .wanting s
      | none => if c = 'h' then .help else .wrong
  | '-' :: c :: cs =>
      match shortSlot? c with
      | some s => ofOptions (fill o s (attached cs))
      | none => if c = 'h' then .help else .wrong
  | _ => .command w

def isValue (w : String) : Bool := w = "-" || !Text.startsWith w '-'

inductive CommandRequest where
  | command (c : Command)
  | help (text : String)
  | misuse

def isHelp (w : String) : Bool :=
  match w.toList with
  | '-' :: 'h' :: _ => true
  | _ => w = "--help"

def readCheck (json : Bool) : List String → CommandRequest
  | [] => .command (.check json)
  | w :: rest =>
      if w = "--json" then (if json then .misuse else readCheck true rest)
      else if isHelp w then .help checkHelp
      else if w = "--" ∧ rest = [] then .command (.check json)
      else .misuse

def readGet (key : Option String) : List String → CommandRequest
  | [] => .command (.get (key.getD ""))
  | w :: rest =>
      if w = "--" then
        match key, rest with
        | _, [] => .command (.get (key.getD ""))
        | none, [k] => .command (.get k)
        | _, _ => .misuse
      else if isHelp w then .help getHelp
      else if isValue w ∧ key = none then readGet (some w) rest
      else .misuse

def readHelp : List String → CommandRequest
  | [] => .help rootHelp
  | ["check"] => .help checkHelp
  | ["get"] => .help getHelp
  | ["help"] => .help rootHelp
  | _ => .misuse

def readCommand (name : String) (rest : List String) : CommandRequest :=
  match name with
  | "check" => readCheck false rest
  | "get" => readGet none rest
  | "help" => readHelp rest
  | _ => .misuse

def complete (o : Options) : CommandRequest → Request
  | .command c => if o.sources.isEmpty then .misuse else .run o c
  | .help text => .help text
  | .misuse => .misuse

def readFrom (o : Options) : List String → Request
  | [] => .misuse
  | [w] =>
      match word o w with
      | .command name => complete o (readCommand name [])
      | .help => .help rootHelp
      | _ => .misuse
  | w :: v :: rest =>
      match word o w with
      | .options o => readFrom o (v :: rest)
      | .wanting s =>
          if isValue v then
            match fill o s v with
            | some o => readFrom o rest
            | none => .misuse
          else .misuse
      | .command name => complete o (readCommand name (v :: rest))
      | .help => .help rootHelp
      | .wrong => .misuse

def read (words : List String) : Request := readFrom .none words

structure Output where
  code : Nat
  stdout : String
  stderr : String
  deriving DecidableEq, Repr

def sourceOf (raw : String) : String × SourceOptions :=
  let cs := raw.toList.reverse
  match cs.dropWhile (· != '@') with
  | _ :: path =>
      (String.ofList path.reverse,
        ⟨none, (Text.splitOn ',' (String.ofList (cs.takeWhile (· != '@')).reverse)).filter
          (!·.isEmpty), none⟩)
  | [] => (raw, ⟨none, [], none⟩)

inductive Fault where
  | options (f : Failure)
  | schema (path : String) (f : Failure)
  | store (f : Failure)
  | noValue (key : String)

def chain (f : Failure) : String :=
  match f with
  | .file fault => f.message ++ ": " ++ fault.message
  | _ => f.message

def Fault.message : Fault → String
  | .options f => "Failed to load schemaconf options: " ++ chain f
  | .schema path f => "Failed to read schema " ++ path ++ ": " ++ chain f
  | .store f => chain f
  | .noValue key => "No configuration value at \"" ++ key ++ "\""

def originName : Origin → String
  | .file => "fs"
  | .defaults => "default"

def candidateValue (c : Candidate) : Value :=
  .object [("path", .string c.path), ("ext", .string c.ext),
    ("group", (c.group.map Value.string).getD .null), ("sourceType", .string (originName c.origin))]

def report (r : LoadResult) (active : Option Source) : Value :=
  .object [("source", (active.map fun s => candidateValue s.candidate).getD .null),
    ("checksum", ((active.bind (·.checksum)).map fun c => Value.string c.hex).getD .null),
    ("errors", .array (Violation.toValues r.violations))]

def summary (r : LoadResult) (active : Option Source) : String :=
  (match r.matched with
    | some c => "Loaded " ++ c.path ++ "\n"
    | none => "No config file matched\n")
  ++ (match active.bind (·.checksum) with
    | some c => "  checksum " ++ c.short ++ "\n"
    | none => "")
  ++ (if r.violations.isEmpty then "  no schema errors\n"
    else ((Collection.new false).recordAll r.violations).render .plain none)

def searched (options : CheckedConfig.Options) (o : Options) : List String :=
  o.schema.toList ++ o.sources.flatMap fun raw =>
    let (path, groups) := sourceOf raw
    ((Descriptor.new path groups options.ext).candidates o.groups none).map Candidate.path

def prepare (files : Files) (env : Environment) (platform : Option String) (o : Options) :
    Except Fault Store := do
  let options ← (CheckedConfig.Options.load files env platform o.config).mapError .options
  let store := Store.new (if o.strict then options.patch ⟨none, none, none, some true⟩ else options)
  let plugins := [Plugin.defaultFormats] ++ if o.env then [Plugin.environment env] else []
  let store := plugins.foldl (fun s p => (s.addPlugin p).store) store
  let store := (o.sources.map sourceOf).foldl (fun s p => s.addSource p.1 p.2) store
  match o.schema with
  | none => pure store
  | some path => do
      let root ← (Schema.ofFile files path).mapError (.schema path)
      pure (store.setSchema (Schema.ofNode root) false).store

def perform (files : Files) (store : Store) (groups : List String) (c : Command) :
    Except Fault Output := do
  let step := store.load files ⟨groups, none⟩
  let r ← step.result.mapError .store
  let active := step.store.active
  match c with
  | .check json =>
      pure ⟨if r.violations.isEmpty then 0 else 1,
        if json then Json.pretty (report r active) ++ "\n" else summary r active, ""⟩
  | .get key =>
      match ← ((step.store.get files key).result).mapError .store with
      | some v => pure ⟨0, Json.pretty v ++ "\n", ""⟩
      | none => .error (.noValue key)

def execute (files : Files) (env : Environment) (platform : Option String) (o : Options)
    (c : Command) : Output :=
  match (prepare files env platform o).bind fun s => perform files s o.groups c with
  | .ok out => out
  | .error f => ⟨1, "", "Error: " ++ f.message ++ "\n"⟩

def run (files : Files) (env : Environment) (platform : Option String) (words : List String) :
    Output :=
  match read words with
  | .run o c => execute files env platform o c
  | .help text => ⟨0, text, ""⟩
  | .misuse => ⟨2, "", "error: wrong usage; try '--help'\n"⟩

end CommandLine

end CheckedConfig
