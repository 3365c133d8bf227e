import CheckedConfig.CommandLine

namespace CheckedConfig

namespace Program

def entry? (path : String) : IO (Option Files.Entry) := do
  try
    let bytes ← IO.FS.readBinFile path
    match String.fromUTF8? bytes with
    | some s => pure (some (.text s))
    | none => pure (some .binary)
  catch
    | .inappropriateType .. => pure (some .directory)
    | _ => pure none

def gather (files : Files) : List String → IO Files
  | [] => pure files
  | path :: rest => do
      match ← entry? path with
      | some e => gather (files.set path e) rest
      | none => gather files rest

def binding? (line : List Char) : Option (String × String) :=
  match line.dropWhile (· != '=') with
  | _ :: value => some (String.ofList (line.takeWhile (· != '=')), String.ofList value)
  | [] => none

def environment : IO Environment := do
  match ← entry? "/proc/self/environ" with
  | some (.text s) => pure ((Text.splitChars '\x00' s.toList).filterMap binding?)
  | _ => pure []

def perform (o : CommandLine.Options) (c : CommandLine.Command) : IO CommandLine.Output := do
  let env ← environment
  let platform := Options.platformFile? env
  let files ← gather ⟨[]⟩ (Options.searched platform o.config)
  let options := (Options.load files env platform o.config).toOption.getD Options.default
  let files ← gather files (CommandLine.searched options o)
  pure (CommandLine.execute files env platform o c)

def run (words : List String) : IO UInt32 := do
  let out ← match CommandLine.read words with
    | .run o c => perform o c
    | _ => pure (CommandLine.run ⟨[]⟩ [] none words)
  IO.print out.stdout
  IO.eprint out.stderr
  pure out.code.toUInt32

end Program

end CheckedConfig

def main (words : List String) : IO UInt32 := CheckedConfig.Program.run words
