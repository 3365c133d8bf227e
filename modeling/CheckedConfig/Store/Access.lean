import CheckedConfig.Store.Load

namespace CheckedConfig

inductive Shape where
  | word
  | long
  | double
  | flag
  | text
  | texts
  deriving DecidableEq, Repr

namespace Shape

def textOnly? : Value → Option Value
  | .string s => some (.string s)
  | _ => none

def read? : Shape → Value → Option Value
  | .word, .number (.int i) => if 0 ≤ i ∧ i < Int.pow 2 16 then some (.int i) else none
  | .long, .number (.int i) => if fitsInt64 i then some (.int i) else none
  | .double, .number n => some (.number (.real n.toDouble))
  | .flag, .bool b => some (.bool b)
  | .text, v => textOnly? v
  | .texts, .array vs => (vs.mapM textOnly?).map .array
  | _, _ => none

end Shape

structure SetResult where
  value : Option Value
  violations : List Violation

def SetResult.committed (r : SetResult) : Bool := r.violations.isEmpty && r.value.isSome

namespace Location

def looseIndex? (s : String) : Option Nat := (natOfText? s).filter (· < Nat.pow 2 64)

def towards (here : Location) (v : Option Value) (segment : String) : Location :=
  match (v.filter Value.isArray).bind fun _ => looseIndex? segment with
  | some i => here.index i
  | none => here.property segment "properties"

def along (here : Location) (v : Option Value) : List String → Location
  | [] => here
  | s :: rest => along (here.towards v s) (v.bind (·.child? s)) rest

end Location

def Value.location (v : Value) (segments : List String) : Location :=
  Location.root.along (some v) segments

namespace Store

variable {α : Type}

def withLoaded (files : Files) (s : Store) (f : Store → Step α) : Step α :=
  (s.load files .any).bind fun _ s => f s

def config? (s : Store) : Option Value := s.active.map Source.config

def get (files : Files) (path : String) (s : Store) : Step (Option Value) :=
  s.withLoaded files fun s => .done s (s.config?.bind (·.lookup path))

def has (files : Files) (path : String) (s : Store) : Step Bool :=
  (s.get files path).bind fun v s => .done s v.isSome

def getAs (files : Files) (path : String) (shape : Shape) (s : Store) : Step (Option Value) :=
  (s.get files path).bind fun v s =>
    match v with
    | none => .done s none
    | some v =>
        match shape.read? v with
        | some w => .done s (some w)
        | none => .failed s .mistyped

def target (s : Store) (segments : List String) (schemaPath : Option String) :
    Except Failure (Option Node.Found) :=
  match s.schema with
  | none => .ok none
  | some schema =>
      match schemaPath with
      | none => .ok (schema.root.find? segments)
      | some p =>
          match schema.root.resolve? p with
          | some found => .ok (some found)
          | none => .error (.invalidPath (.unresolved p))

def parentExists (v : Value) (segments : List String) : Bool :=
  ((v.get? segments.dropLast).map Value.isContainer).getD false

def commit (s : Store) (source : Source) (segments : List String) (v : Value) : Step SetResult :=
  match source.config.write segments v with
  | .error e => .failed s e
  | .ok config =>
      .done { s with configSources := s.configSources.modifyHead ({ · with config := config }) }
        ⟨some v, []⟩

def commitChecked (s : Store) (source : Source) (segments : List String) (v : Value)
    (found : Node.Found) : Step SetResult :=
  let here := { source.config.location segments with schemaPath := found.path }
  let w := found.node.walk s.interceptors false (some v) here
  Step.after (s.walkTrail w)
    (match w.result with
      | .error e => .failed s e
      | .ok r =>
          let c := w.collection false
          if c.isEmpty then s.commit source segments (r.getD .null)
          else .done s ⟨none, c.list⟩)

def setLoaded (s : Store) (path : String) (v : Value) (schemaPath : Option String) :
    Step SetResult :=
  let segments := Path.split path
  if segments.isEmpty then .failed s (.invalidPath .empty)
  else
    match s.active.filter fun source => parentExists source.config segments with
    | none => .failed s (.missingParent (Path.join segments.dropLast) path)
    | some source =>
        match s.target segments schemaPath with
        | .error e => .failed s e
        | .ok none => s.commit source segments v
        | .ok (some found) => s.commitChecked source segments v found

def set (files : Files) (path : String) (v : Value) (schemaPath : Option String) (s : Store) :
    Step SetResult :=
  s.withLoaded files fun s => s.setLoaded path v schemaPath

end Store

end CheckedConfig
