import CheckedConfig.Validation.Collection
import CheckedConfig.Validation.Interceptor
import CheckedConfig.Validation.Location

namespace CheckedConfig

structure Walk (α : Type) where
  visits : List Visit
  violations : List Violation
  result : Except Failure α

namespace Walk

variable {α β : Type}

def pure (a : α) : Walk α := ⟨[], [], .ok a⟩

def bind (w : Walk α) (f : α → Walk β) : Walk β :=
  match w.result with
  | .error e => ⟨w.visits, w.violations, .error e⟩
  | .ok a =>
      let v := f a
      ⟨w.visits ++ v.visits, w.violations ++ v.violations, v.result⟩

instance : Monad Walk where
  pure := pure
  bind := bind

theorem bind_assoc {γ : Type} (w : Walk α) (f : α → Walk β) (g : β → Walk γ) :
    (w >>= f) >>= g = w >>= fun a => f a >>= g := by
  change bind (bind w f) g = bind w fun a => bind (f a) g
  cases hw : w.result with
  | error e => simp only [bind, hw]
  | ok a => cases hf : (f a).result <;> simp only [bind, hw, hf, List.append_assoc]

def emit (strict : Bool) (vs : List Violation) : Walk Unit :=
  ⟨[], vs, ((Collection.new strict).extend vs).2⟩

def passes (w : Walk α) : Walk Bool :=
  ⟨w.visits, [], w.result.map fun _ => w.violations.isEmpty⟩

def collection (strict : Bool) (w : Walk α) : Collection :=
  (Collection.new strict).recordAll w.violations

end Walk

namespace Keywords

def inspect (own : Keywords) (v : Value) : Except String Kind :=
  let found := Kind.of v
  match own.kind with
  | Option.none => .ok found
  | some s =>
      if s.acceptsAny then .ok found
      else match s with
        | .one wanted =>
            let found := if wanted == .integer && v.isWhole then .integer else found
            if found == wanted then .ok found
            else .error ("Invalid type, must be a " ++ wanted.name ++ " type, got " ++ found.name)
        | .many ks =>
            if ks.contains found then .ok found
            else if found == .number && ks.contains .integer && v.isWhole then .ok .integer
            else .error ("Invalid type, must be one of the types " ++ s.text ++ ", got "
              ++ found.name)

def coerce (own : Keywords) (v : Value) : Except (List Refusal) Value :=
  match own.transform with
  | Option.none => .error []
  | some d =>
      let c := d.apply v own.kind
      match c.value with
      | some w =>
          match own.inspect w with
          | .ok _ => .ok w
          | .error _ => .error c.refusals
      | Option.none => .error c.refusals

def settle (own : Keywords) (v : Value) : Except (String × List Refusal) Value :=
  match own.inspect v with
  | .ok _ => .ok v
  | .error why => (own.coerce v).mapError fun rs => (why, rs)

def isUntyped (own : Keywords) : Bool :=
  match own.kind with
  | some s => s.acceptsAny
  | Option.none => true

end Keywords

def Value.lessThan : Value → Value → Bool
  | .number a, .number b => a.toDouble.less b.toDouble
  | .string a, .string b => decide (a < b)
  | .bool a, .bool b => !a && b
  | _, _ => false

def repeats : List Value → List Value → List Value → List Value
  | _, found, [] => found.reverse
  | earlier, found, v :: rest =>
      if earlier.any (·.alike v) && !found.any (·.alike v) then
        repeats (v :: earlier) (v :: found) rest
      else repeats (v :: earlier) found rest

def duplicated (vs : List Value) : List Value := repeats [] [] vs

namespace Node

def violation (n : Node) (here : Location) (keyword : Keyword) (message : String) : Violation :=
  ⟨message, here.propertyPath, keyword, n, here.keywordPath keyword, []⟩

def missingValue (n : Node) (here : Location) : List Violation :=
  if n.requiresValue then [n.violation here .required "Missing required value"] else []

def wrongKind (n : Node) (here : Location) (why : String) (rs : List Refusal) : Violation :=
  { n.violation here .type ("Type invalid: " ++ why) with
    reasons := rs.map fun r =>
      n.violation here .transform
        ("Transformer \"" ++ r.transformer ++ "\" failed: " ++ r.message) }

def missingNames (n : Node) (here : Location) (fs : Fields Value) : List Violation :=
  match n.own.required with
  | some (.names ns) =>
      match ns.filter (!fs.has ·) with
      | [] => []
      | missing =>
          [n.violation here .required
            ("Missing required properties, missing : [" ++ Text.joinWith "," missing ++ "]")]
  | _ => []

def undeclared (n : Node) (here : Location) (fs : Fields Value) : List Violation :=
  (fs.keys.filter (!n.declares ·)).map fun name =>
    n.violation here .additionalProperties
      ("No additional properties, got additional properties \"" ++ name ++ "\"")

def tooFewItems (n : Node) (here : Location) (vs : List Value) : List Violation :=
  match n.own.minItems with
  | some least =>
      if vs.length < least then
        [n.violation here .minItems
          ("There must be a minimum of " ++ toString least ++ " in the array")]
      else []
  | none => []

def tooManyItems (n : Node) (here : Location) (vs : List Value) : List Violation :=
  match n.own.maxItems with
  | some most =>
      if most < vs.length then
        [n.violation here .maxItems
          ("There must be a maximum of " ++ toString most ++ " in the array")]
      else []
  | none => []

def repeatedItems (n : Node) (here : Location) (vs : List Value) : List Violation :=
  if n.own.uniqueItems then
    match duplicated vs with
    | [] => []
    | ds =>
        [n.violation here .uniqueItems
          ("Duplicates items, duplicated items: " ++ Json.text (.array ds))]
  else []

def wrongLength (n : Node) (here : Location) : Value → List Violation
  | .string s =>
      (match n.own.maxLength with
        | some most =>
            if most < s.length then
              [n.violation here .maxLength
                ("Invalid characters length, may only be " ++ toString most
                  ++ " characters long, got " ++ toString s.length)]
            else []
        | none => [])
      ++ (match n.own.minLength with
        | some least =>
            if s.length < least then
              [n.violation here .minLength
                ("Invalid characters length, must be at least " ++ toString least
                  ++ " characters long, got " ++ toString s.length)]
            else []
        | none => [])
  | _ => []

def belowMinimum (n : Node) (here : Location) (v : Value) : List Violation :=
  match n.own.minimum with
  | some least =>
      if v.lessThan least then
        [n.violation here .minimum
          ("Invalid range, must have a minimum value of " ++ least.display ++ ", got "
            ++ v.display)]
      else []
  | none => []

def aboveMaximum (n : Node) (here : Location) (v : Value) : List Violation :=
  match n.own.maximum with
  | some most =>
      if most.lessThan v then
        [n.violation here .maximum
          ("Invalid range, must have a maximum value of " ++ most.display ++ ", got "
            ++ v.display)]
      else []
  | none => []

def offPattern (n : Node) (here : Location) : Value → List Violation
  | .string s =>
      match n.own.pattern with
      | some p =>
          if p.matchesText s then []
          else
            [n.violation here .pattern
              ("Pattern not match, string \"" ++ s ++ "\" not match the regex pattern "
                ++ p.source)]
      | none => []
  | _ => []

def notMember (n : Node) (here : Location) (v : Value) : List Violation :=
  match n.own.members with
  | some ms =>
      if ms.any (·.alike v) then []
      else
        [n.violation here .enum
          ("Invalid value, " ++ Json.text v ++ " not one of the enumeration "
            ++ Text.joinWith "," (ms.map Value.display))]
  | none => []

def scalarViolations (n : Node) (here : Location) (v : Value) : List Violation :=
  n.wrongLength here v ++ n.belowMinimum here v ++ n.aboveMaximum here v ++ n.offPattern here v
    ++ n.notMember here v

end Node

namespace Fields

def putBack (fs : Fields Value) (name : String) : Option Value → Fields Value
  | some v => fs.set name v
  | none => if fs.has name then fs.set name .null else fs

end Fields

namespace Walk

def fieldsWhere (test : String → Bool) (f : String → Value → Walk (Option Value)) :
    Fields Value → Walk (Fields Value)
  | [] => pure []
  | (name, v) :: rest =>
      if test name then do
        let w ← f name v
        let rest ← fieldsWhere test f rest
        pure ((name, w.getD .null) :: rest)
      else do
        let rest ← fieldsWhere test f rest
        pure ((name, v) :: rest)

def itemsFrom (f : Nat → Value → Walk (Option Value)) : Nat → List Value → Walk (List Value)
  | _, [] => pure []
  | i, v :: rest => do
      let w ← f i v
      let rest ← itemsFrom f (i + 1) rest
      pure (w.getD .null :: rest)

def somePasses : List (Walk Bool) → Walk Bool
  | [] => pure false
  | t :: ts => do
      if ← t then pure true else somePasses ts

def allPass : List (Walk Bool) → Walk Bool
  | [] => pure true
  | t :: ts => do
      if ← t then allPass ts else pure false

def countPasses : Nat → List (Walk Bool) → Walk Nat
  | n, [] => pure n
  | n, t :: ts => do
      let n := if ← t then n + 1 else n
      if 1 < n then pure n else countPasses n ts

end Walk

namespace Node

def matchAny (n : Node) (strict : Bool) (here : Location) (trials : List (Walk Bool)) :
    Walk Unit :=
  if trials.isEmpty then pure ()
  else do
    let matched ← Walk.somePasses trials
    Walk.emit strict (if matched then [] else
      [n.violation here .anyOf "The value must match at least one of the specified schemas."])

def matchNone (n : Node) (strict : Bool) (here : Location) (trials : List (Walk Bool)) :
    Walk Unit :=
  if trials.isEmpty then pure ()
  else do
    let matched ← Walk.somePasses trials
    Walk.emit strict (if matched then
      [n.violation here .not "The value must not match the specified schema."] else [])

def matchAll (n : Node) (strict : Bool) (here : Location) (trials : List (Walk Bool)) :
    Walk Unit :=
  if trials.isEmpty then pure ()
  else do
    let matched ← Walk.allPass trials
    Walk.emit strict (if matched then [] else
      [n.violation here .allOf "The value must match all of the specified schemas."])

def matchOne (n : Node) (strict : Bool) (here : Location) (trials : List (Walk Bool)) :
    Walk Unit :=
  if trials.isEmpty then pure ()
  else do
    let count ← Walk.countPasses 0 trials
    Walk.emit strict (match count with
      | 0 => [n.violation here .oneOf
          "The value must match exactly one of the specified schemas, but matched none."]
      | 1 => []
      | _ => [n.violation here .oneOf
          "The value must match exactly one of the specified schemas, but matched more than one."])

def matchBranches (n : Node) (strict : Bool) (here : Location) (w : Value)
    (anys nones alls ones : List (Walk Bool)) : Walk Unit :=
  if n.own.isUntyped || !w.isArray then do
    n.matchAny strict here anys
    n.matchNone strict here nones
    n.matchAll strict here alls
    n.matchOne strict here ones
  else pure ()

def enter (chain : List Interceptor) (n : Node) (origin : Option Value) (here : Location) :
    Walk (Option Value) :=
  let v := origin <|> n.own.default
  if chain.isEmpty then pure v
  else
    let place : Place := ⟨n, here.schemaPath, here.propertyPath, here.name, origin⟩
    let (given, result) := Interceptor.run place chain v
    ⟨[⟨place, given⟩], [], result⟩

mutual

def walk (chain : List Interceptor) : Node → Bool → Option Value → Location → Walk (Option Value)
  | n@⟨own, properties, items, additional, anyOf, allOf, oneOf, noneOf⟩, strict, origin, here => do
      match ← enter chain n origin here with
      | none => do
          Walk.emit strict (n.missingValue here)
          pure none
      | some v =>
          match own.settle v with
          | .error (why, rs) => do
              Walk.emit strict [n.wrongKind here why rs]
              pure (some v)
          | .ok v => do
              let w ← match v with
                | .object fs => do
                    Walk.emit strict (n.missingNames here fs)
                    let fs ← walkProperties chain properties strict fs here
                    let fs ← walkAdditional chain additional n strict fs here
                    pure (Value.object fs)
                | .array vs => do
                    let vs ← walkItems chain items strict vs here
                    Walk.emit strict (n.tooFewItems here vs)
                    Walk.emit strict (n.tooManyItems here vs)
                    Walk.emit strict (n.repeatedItems here vs)
                    pure (Value.array vs)
                | v => do
                    Walk.emit strict (n.scalarViolations here v)
                    pure v
              n.matchBranches strict here w (trials chain anyOf .anyOf w here)
                (trials chain noneOf .not w here) (trials chain allOf .allOf w here)
                (trials chain oneOf .oneOf w here)
              pure (some w)

def walkProperties (chain : List Interceptor) : Option (List (String × Node)) → Bool →
    Fields Value → Location → Walk (Fields Value)
  | none, _, fs, _ => pure fs
  | some ps, strict, fs, here => walkNamed chain ps strict fs here

def walkNamed (chain : List Interceptor) : List (String × Node) → Bool → Fields Value → Location →
    Walk (Fields Value)
  | [], _, fs, _ => pure fs
  | (name, n) :: rest, strict, fs, here => do
      let w ← n.walk chain strict (fs.get? name) (here.property name "properties")
      walkNamed chain rest strict (fs.putBack name w) here

def walkAdditional (chain : List Interceptor) : Option (Additional Node) → Node → Bool →
    Fields Value → Location → Walk (Fields Value)
  | some (.allowed false), n, strict, fs, here => do
      Walk.emit strict (n.undeclared here fs)
      pure fs
  | some (.schema extra), n, strict, fs, here =>
      Walk.fieldsWhere (!n.declares ·)
        (fun name v => extra.walk chain strict (some v) (here.property name "additionalProperties"))
        fs
  | some (.allowed true), _, _, fs, _ => pure fs
  | none, _, _, fs, _ => pure fs

def walkItems (chain : List Interceptor) : Option Node → Bool → List Value → Location →
    Walk (List Value)
  | none, _, vs, _ => pure vs
  | some n, strict, vs, here =>
      Walk.itemsFrom (fun i v => n.walk chain strict (some v) (here.index i)) 0 vs

def trials (chain : List Interceptor) : Option (List Node) → Keyword → Value → Location →
    List (Walk Bool)
  | none, _, _, _ => []
  | some ns, keyword, v, here => trialsFrom chain ns keyword 0 v here

def trialsFrom (chain : List Interceptor) : List Node → Keyword → Nat → Value → Location →
    List (Walk Bool)
  | [], _, _, _, _ => []
  | n :: ns, keyword, i, v, here =>
      (n.walk chain false (some v) (here.branch keyword i)).passes
        :: trialsFrom chain ns keyword (i + 1) v here

end

def walkContents (chain : List Interceptor) (n : Node) (strict : Bool) (here : Location) :
    Value → Walk Value
  | .object fs => do
      Walk.emit strict (n.missingNames here fs)
      let fs ← walkProperties chain n.properties strict fs here
      let fs ← walkAdditional chain n.additional n strict fs here
      pure (Value.object fs)
  | .array vs => do
      let vs ← walkItems chain n.items strict vs here
      Walk.emit strict (n.tooFewItems here vs)
      Walk.emit strict (n.tooManyItems here vs)
      Walk.emit strict (n.repeatedItems here vs)
      pure (Value.array vs)
  | v => do
      Walk.emit strict (n.scalarViolations here v)
      pure v

def walkBranches (chain : List Interceptor) (n : Node) (strict : Bool) (here : Location)
    (w : Value) : Walk Unit :=
  n.matchBranches strict here w (trials chain (n.branches .anyOf) .anyOf w here)
    (trials chain (n.branches .not) .not w here) (trials chain (n.branches .allOf) .allOf w here)
    (trials chain (n.branches .oneOf) .oneOf w here)

theorem walk_eq (chain : List Interceptor) (n : Node) (strict : Bool) (origin : Option Value)
    (here : Location) :
    n.walk chain strict origin here = (do
      match ← enter chain n origin here with
      | none => do
          Walk.emit strict (n.missingValue here)
          pure none
      | some v =>
          match n.own.settle v with
          | .error (why, rs) => do
              Walk.emit strict [n.wrongKind here why rs]
              pure (some v)
          | .ok v => do
              let w ← n.walkContents chain strict here v
              n.walkBranches chain strict here w
              pure (some w)) := by
  obtain ⟨own, properties, items, additional, anyOf, allOf, oneOf, noneOf⟩ := n
  rw [walk]
  congr 1
  funext given
  cases given with
  | none => rfl
  | some v =>
      cases hv : own.settle v with
      | error e => simp only [hv]
      | ok w =>
          simp only [hv]
          cases w <;> simp only [walkContents, Walk.bind_assoc] <;> rfl

end Node

def Schema.walk (chain : List Interceptor) (strict : Bool) (s : Schema) (v : Option Value) :
    Walk (Option Value) :=
  s.root.walk chain strict v Location.root

end CheckedConfig
