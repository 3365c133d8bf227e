import CheckedConfig.Schema.Normal

namespace CheckedConfig

inductive Field where
  | type
  | properties
  | required
  | items
  | additionalProperties
  | default
  | title
  | description
  | minimum
  | maximum
  | minLength
  | maxLength
  | minItems
  | maxItems
  | uniqueItems
  | pattern
  | enum
  | anyOf
  | allOf
  | oneOf
  | not
  | transform
  deriving DecidableEq, Repr

namespace Field

def all : List Field :=
  [.type, .properties, .required, .items, .additionalProperties, .default, .title, .description,
   .minimum, .maximum, .minLength, .maxLength, .minItems, .maxItems, .uniqueItems, .pattern, .enum,
   .anyOf, .allOf, .oneOf, .not, .transform]

def name : Field → String
  | .type => "type"
  | .properties => "properties"
  | .required => "required"
  | .items => "items"
  | .additionalProperties => "additionalProperties"
  | .default => "default"
  | .title => "title"
  | .description => "description"
  | .minimum => "minimum"
  | .maximum => "maximum"
  | .minLength => "minLength"
  | .maxLength => "maxLength"
  | .minItems => "minItems"
  | .maxItems => "maxItems"
  | .uniqueItems => "uniqueItems"
  | .pattern => "pattern"
  | .enum => "enum"
  | .anyOf => "anyOf"
  | .allOf => "allOf"
  | .oneOf => "oneOf"
  | .not => "not"
  | .transform => "transform"

def ofName? (s : String) : Option Field := all.find? (·.name == s)

end Field

inductive Wanted where
  | node
  | map
  | sequence
  | string
  | boolean
  | size
  deriving DecidableEq, Repr

def Wanted.text : Wanted → String
  | .node => "struct SchemaNode"
  | .map => "a map"
  | .sequence => "a sequence"
  | .string => "a string"
  | .boolean => "a boolean"
  | .size => "u64"

inductive Choice where
  | kinds
  | required
  | additional
  | branches
  | directive
  deriving DecidableEq, Repr

def Choice.text : Choice → String
  | .kinds => "TypeSpec"
  | .required => "Required"
  | .additional => "AdditionalProperties"
  | .branches => "OneOrMany"
  | .directive => "RawDirective"

inductive SchemaFault where
  | rootNotObject
  | unsupportedExtension (path : String)
  | unknownTransformer (name : String)
  | patternSyntax
  | pattern (source : String)
  | wrongKind (v : Value) (wanted : Wanted)
  | negativeSize (i : Int)
  | tooMany (count : Nat)
  | noForm (choice : Choice)
  deriving Repr

namespace SchemaFault

def found : Value → String
  | .null => "null"
  | .bool true => "boolean `true`"
  | .bool false => "boolean `false`"
  | .number (.int i) => "integer `" ++ toString i ++ "`"
  | .number (.real d) => "floating point `" ++ d.write Double.documentLayout ++ "`"
  | .string s => "string " ++ Text.inspected s
  | .array _ => "sequence"
  | .object _ => "map"

def message : SchemaFault → String
  | .rootNotObject => "schema root must be an object"
  | .unsupportedExtension path => "unsupported schema file extension: " ++ path
  | .unknownTransformer name => "unknown transformer \"" ++ name ++ "\""
  | .patternSyntax => "regex parse error"
  | .pattern source => "invalid pattern " ++ Text.inspected source ++ ": regex parse error"
  | .wrongKind v wanted => "invalid type: " ++ found v ++ ", expected " ++ wanted.text
  | .negativeSize i =>
      "invalid value: integer `" ++ toString i ++ "`, expected " ++ Wanted.size.text
  | .tooMany count => "invalid length " ++ toString count ++ ", expected fewer elements in array"
  | .noForm choice => "data did not match any variant of untagged enum " ++ choice.text

end SchemaFault

abbrev Read (α : Type) := Except SchemaFault α

def readString : Value → Read String
  | .string s => .ok s
  | v => .error (.wrongKind v .string)

def readBool : Value → Read Bool
  | .bool b => .ok b
  | v => .error (.wrongKind v .boolean)

def readSize : Value → Read Nat
  | .number (.int i) => if i < 0 then .error (.negativeSize i) else .ok i.toNat
  | v => .error (.wrongKind v .size)

def readValues : Value → Read (List Value)
  | .array vs => .ok vs
  | v => .error (.wrongKind v .sequence)

def readPattern (v : Value) : Read Pattern :=
  (readString v).bind fun s =>
    match Pattern.compile? s with
    | some p => .ok p
    | none => .error .patternSyntax

def optional {α : Type} (read : Value → Read α) : Value → Read (Option α)
  | .null => .ok none
  | v => (read v).map some

def strings? : List Value → Option (List String)
  | [] => some []
  | .string s :: rest => (strings? rest).map (s :: ·)
  | _ :: _ => none

def Kind.ofValue? : Value → Option Kind
  | .string s => Kind.ofName? s
  | .object [(name, .null)] => Kind.ofName? name
  | _ => none

def KindSet.ofValue (v : Value) : Read KindSet :=
  match Kind.ofValue? v, v with
  | some k, _ => .ok (.one k)
  | none, .array vs =>
      match vs.mapM Kind.ofValue? with
      | some ks => .ok (.many ks)
      | none => .error (.noForm .kinds)
  | none, _ => .error (.noForm .kinds)

def Required.ofValue : Value → Read Required
  | .bool b => .ok (.flag b)
  | .array vs =>
      match strings? vs with
      | some ns => .ok (.names ns)
      | none => .error (.noForm .required)
  | _ => .error (.noForm .required)

def resolve : List String → Read (List Transformer)
  | [] => .ok []
  | name :: rest =>
      match Transformer.builtin? name with
      | some t => (resolve rest).map (t :: ·)
      | none => .error (.unknownTransformer name)

def groupFields? (fs : Fields Value) : Option (Option String × List String × Bool) := do
  let name ← match fs.get? "name" with
    | none => some none
    | some .null => some none
    | some (.string s) => some (some s)
    | some _ => none
  let names ← match fs.get? "transformers" with
    | some (.array vs) => strings? vs
    | _ => none
  let ignoreCheck ← match fs.get? "ignoreCheck" with
    | none => some false
    | some (.bool b) => some b
    | some _ => none
  return (name, names, ignoreCheck)

def Directive.ofValue : Value → Read (Option Directive)
  | .bool false => .ok none
  | .bool true => .ok (some .infer)
  | .string s => (resolve [s]).map fun ts => ts.head?.map .single
  | .array vs =>
      match strings? vs with
      | some names => (resolve names).map fun ts => some (.list ts)
      | none => .error (.noForm .directive)
  | .object fs =>
      match groupFields? fs with
      | some (name, names, ignoreCheck) =>
          (resolve names).map fun ts => some (.group name ts ignoreCheck)
      | none => .error (.noForm .directive)
  | _ => .error (.noForm .directive)

namespace Node

structure Readings where
  node : Unit → Read Node
  nodes : Unit → Read (List Node)
  named : Unit → Read (List (String × Node))

def readAdditional (v : Value) (r : Readings) : Read (Additional Node) :=
  match v with
  | .bool b => .ok (.allowed b)
  | _ =>
      match r.node () with
      | .ok n => .ok (.schema n)
      | .error _ => .error (.noForm .additional)

def readNone (r : Readings) : Read (List Node) :=
  match r.nodes () with
  | .ok ns => .ok ns
  | .error _ =>
      match r.node () with
      | .ok n => .ok [n]
      | .error _ => .error (.noForm .branches)

def readField (f : Field) (v : Value) (r : Readings) (n : Node) : Read Node :=
  match f with
  | .type => (optional KindSet.ofValue v).map fun x => { n with own.kind := x }
  | .properties => (optional (fun _ => r.named ()) v).map fun x => { n with properties := x }
  | .required => (optional Required.ofValue v).map fun x => { n with own.required := x }
  | .items => (optional (fun _ => r.node ()) v).map fun x => { n with items := x }
  | .additionalProperties =>
      (optional (readAdditional · r) v).map fun x => { n with additional := x }
  | .default => .ok { n with own.default := some v }
  | .title => (optional readString v).map fun x => { n with own.title := x }
  | .description => (optional readString v).map fun x => { n with own.description := x }
  | .minimum => (optional .ok v).map fun x => { n with own.minimum := x }
  | .maximum => (optional .ok v).map fun x => { n with own.maximum := x }
  | .minLength => (optional readSize v).map fun x => { n with own.minLength := x }
  | .maxLength => (optional readSize v).map fun x => { n with own.maxLength := x }
  | .minItems => (optional readSize v).map fun x => { n with own.minItems := x }
  | .maxItems => (optional readSize v).map fun x => { n with own.maxItems := x }
  | .uniqueItems => (readBool v).map fun x => { n with own.uniqueItems := x }
  | .pattern => (optional readPattern v).map fun x => { n with own.pattern := x }
  | .enum => (optional readValues v).map fun x => { n with own.members := x }
  | .anyOf => (optional (fun _ => r.nodes ()) v).map fun x => { n with anyOf := x }
  | .allOf => (optional (fun _ => r.nodes ()) v).map fun x => { n with allOf := x }
  | .oneOf => (optional (fun _ => r.nodes ()) v).map fun x => { n with oneOf := x }
  | .not => (readNone r).map fun x => { n with noneOf := some x }
  | .transform => (Directive.ofValue v).map fun x => { n with own.transform := x }

mutual

def ofValue : Value → Read Node
  | .object fs => ofFields fs empty
  | .array vs => ofSlots vs.length vs Field.all empty
  | v => .error (.wrongKind v .node)

def allOfValue : Value → Read (List Node)
  | .array vs => ofValues vs
  | v => .error (.wrongKind v .sequence)

def namedOfValue : Value → Read (List (String × Node))
  | .object fs => ofEntries fs
  | v => .error (.wrongKind v .map)

def ofValues : List Value → Read (List Node)
  | [] => .ok []
  | v :: rest => (ofValue v).bind fun n => (ofValues rest).map (n :: ·)

def ofEntries : List (String × Value) → Read (List (String × Node))
  | [] => .ok []
  | (name, v) :: rest => (ofValue v).bind fun n => (ofEntries rest).map ((name, n) :: ·)

def ofFields : List (String × Value) → Node → Read Node
  | [], n => .ok n
  | (name, v) :: rest, n =>
      match Field.ofName? name with
      | none => ofFields rest n
      | some f =>
          (readField f v ⟨fun _ => ofValue v, fun _ => allOfValue v, fun _ => namedOfValue v⟩ n).bind
            fun n => ofFields rest n

def ofSlots (count : Nat) : List Value → List Field → Node → Read Node
  | [], _, n => .ok n
  | _ :: _, [], _ => .error (.tooMany count)
  | v :: rest, f :: fs, n =>
      (readField f v ⟨fun _ => ofValue v, fun _ => allOfValue v, fun _ => namedOfValue v⟩ n).bind
        fun n => ofSlots count rest fs n

end

end Node

def KindSet.toValue : KindSet → Value
  | .one k => .string k.name
  | .many ks => .array (ks.map fun k => .string k.name)

def Required.toValue : Required → Value
  | .flag b => .bool b
  | .names ns => .array (ns.map .string)

def ofSize (n : Nat) : Value := .int n

def entry (f : Field) (v : Option Value) : Fields Value :=
  match v with
  | some v => [(f.name, v)]
  | none => []

namespace Node

mutual

def toValue : Node → Value
  | ⟨own, properties, items, additional, anyOf, allOf, oneOf, noneOf⟩ =>
      .object
        (entry .type (own.kind.map KindSet.toValue)
          ++ entry .properties (propertiesToValue properties)
          ++ entry .required (own.required.map Required.toValue)
          ++ entry .items (itemsToValue items)
          ++ entry .additionalProperties (additionalToValue additional)
          ++ entry .default own.default
          ++ entry .title (own.title.map .string)
          ++ entry .description (own.description.map .string)
          ++ entry .minimum own.minimum
          ++ entry .maximum own.maximum
          ++ entry .minLength (own.minLength.map ofSize)
          ++ entry .maxLength (own.maxLength.map ofSize)
          ++ entry .minItems (own.minItems.map ofSize)
          ++ entry .maxItems (own.maxItems.map ofSize)
          ++ entry .uniqueItems (if own.uniqueItems then some (.bool true) else none)
          ++ entry .pattern (own.pattern.map (.string ·.source))
          ++ entry .enum (own.members.map .array)
          ++ entry .anyOf (branchesToValue anyOf)
          ++ entry .allOf (branchesToValue allOf)
          ++ entry .oneOf (branchesToValue oneOf)
          ++ entry .not (branchesToValue noneOf)
          ++ entry .transform (own.transform.map Directive.toValue))

def propertiesToValue : Option (List (String × Node)) → Option Value
  | none => none
  | some ps => some (.object (namedToValues ps))

def itemsToValue : Option Node → Option Value
  | none => none
  | some n => some n.toValue

def additionalToValue : Option (Additional Node) → Option Value
  | none => none
  | some (.allowed b) => some (.bool b)
  | some (.schema n) => some n.toValue

def branchesToValue : Option (List Node) → Option Value
  | none => none
  | some ns => some (.array (allToValues ns))

def allToValues : List Node → List Value
  | [] => []
  | n :: ns => n.toValue :: allToValues ns

def namedToValues : List (String × Node) → List (String × Value)
  | [] => []
  | (name, n) :: rest => (name, n.toValue) :: namedToValues rest

end

end Node

namespace Schema

def document (fs : Fields Value) : Value :=
  if fs.has "type" || fs.has "items" || fs.has "properties" then .object fs
  else .object [("properties", .object fs)]

def rootOfValue : Value → Read Node
  | .object fs => Node.ofValue (document fs)
  | _ => .error .rootNotObject

def ofValue (v : Value) : Read Schema := (rootOfValue v).map ofNode

end Schema

end CheckedConfig
