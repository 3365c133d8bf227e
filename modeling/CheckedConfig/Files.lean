import CheckedConfig.Failure

namespace CheckedConfig

namespace Files

inductive Entry where
  | directory
  | text (s : String)
  | binary
  deriving DecidableEq, Repr

end Files

structure Files where
  entries : List (List String × Files.Entry)

namespace Files

def start (path : String) : List String := if Text.startsWith path '/' then ["/"] else []

def move (place : List String) (piece : String) : List String :=
  if piece = "" ∨ piece = "." then place
  else if piece = ".." then
    match place.getLast? with
    | some "/" => place
    | some ".." => place ++ [piece]
    | some _ => place.dropLast
    | none => [piece]
  else place ++ [piece]

def placeOf (path : String) : List String :=
  (Text.splitOn '/' path).foldl move (start path)

def entry? (files : Files) (place : List String) : Option Entry :=
  match files.entries.lookup place with
  | some e => some e
  | none =>
      if place.isEmpty || files.entries.any (fun e => place.isPrefixOf e.1) then some .directory
      else none

def enter (files : Files) (place : List String) (piece : String) :
    Except FileFault (List String) :=
  match files.entry? place with
  | none => .error .notFound
  | some .directory => .ok (move place piece)
  | some _ => .error .notDirectory

def find (files : Files) (path : String) : Except FileFault Entry :=
  if path = "" then .error .notFound
  else
    match (Text.splitOn '/' path).foldlM files.enter (start path) with
    | .error e => .error e
    | .ok place =>
        match files.entry? place with
        | some e => .ok e
        | none => .error .notFound

def isFile (files : Files) (path : String) : Bool :=
  match files.find path with
  | .ok .directory => false
  | .ok _ => true
  | .error _ => false

def read (files : Files) (path : String) : Except FileFault String :=
  match files.find path with
  | .ok (.text s) => .ok s
  | .ok .binary => .error .notText
  | .ok .directory => .error .isDirectory
  | .error e => .error e

def set (files : Files) (path : String) (e : Entry) : Files :=
  ⟨(placeOf path, e) :: files.entries.filter (·.1 != placeOf path)⟩

def remove (files : Files) (path : String) : Files :=
  ⟨files.entries.filter (·.1 != placeOf path)⟩

end Files

end CheckedConfig
