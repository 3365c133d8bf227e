import CheckedConfig.Path

namespace CheckedConfig

inductive Argument where
  | setting (key : String) (v : Value)
  | positional (v : Value)
  deriving Repr

structure Arguments where
  named : Fields Value
  positional : List Value

namespace Arguments

def positionalKey : String := "_"

def readDouble? (s : String) : Option Double := (Decimal.ofChars? s.toList).bind Decimal.toDouble?

def isNumber (s : String) : Bool := (readDouble? s).isSome

def readValue (s : String) : Value :=
  match int64OfText? s with
  | some i => .int i
  | none =>
      match readDouble? s with
      | some d => .number (.real d)
      | none => .string s

def readLongValue (s : String) : Value :=
  if s = "true" then .bool true else if s = "false" then .bool false else readValue s

def isValue (s : String) : Bool := !Text.startsWith s '-' || isNumber s

inductive Shape where
  | terminator
  | complete (a : Argument)
  | wanting (flags : List String) (key : String) (read : String → Value)

def afterEquals? : List Char → Option (List Char × List Char)
  | [] => none
  | '=' :: cs => some ([], cs)
  | c :: cs => (afterEquals? cs).map fun (key, v) => (c :: key, v)

def longShape (cs : List Char) : Shape :=
  match afterEquals? cs with
  | some (key, v) => .complete (.setting (String.ofList key) (readValue (String.ofList v)))
  | none =>
      match cs with
      | 'n' :: 'o' :: '-' :: key => .complete (.setting (String.ofList key) (.bool false))
      | _ => .wanting [] (String.ofList cs) readLongValue

def shape (s : String) : Shape :=
  match s.toList with
  | ['-', '-'] => .terminator
  | '-' :: '-' :: cs => longShape cs
  | '-' :: c :: cs =>
      if isNumber s then .complete (.positional (readValue s))
      else
        let letters := (c :: cs).map fun c => String.ofList [c]
        .wanting letters.dropLast (letters.getLast?.getD "") readValue
  | _ => .complete (.positional (readValue s))

def flag (key : String) : Argument := .setting key (.bool true)

def read : List String → List Argument
  | [] => []
  | [s] =>
      match shape s with
      | .terminator => []
      | .complete a => [a]
      | .wanting flags key _ => flags.map flag ++ [flag key]
  | s :: t :: rest =>
      match shape s with
      | .terminator => (t :: rest).map fun s => .positional (.string s)
      | .complete a => a :: read (t :: rest)
      | .wanting flags key value =>
          if isValue t then flags.map flag ++ .setting key (value t) :: read rest
          else flags.map flag ++ flag key :: read (t :: rest)

def collect (x : Value) : Option Value → Value
  | some (.array vs) => .array (vs ++ [x])
  | some (.object _) => x
  | some v => .array [v, x]
  | none => x

def add (a : Arguments) : Argument → Arguments
  | .setting key x =>
      let segments := Path.split key
      let held := (Value.object a.named).get? segments
      { a with named := a.named.insertNested segments (collect x held) }
  | .positional v => { a with positional := a.positional ++ [v] }

def ofList (arguments : List Argument) : Arguments := arguments.foldl add ⟨[], []⟩

def parse (words : List String) : Arguments := ofList (read words)

def all (a : Arguments) : Value := .object (a.named.set positionalKey (.array a.positional))

def get? (a : Arguments) (name : String) : Option Value := a.all.lookup name

end Arguments

end CheckedConfig
