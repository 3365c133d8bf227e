import CheckedConfig.Coercion.Directive
import CheckedConfig.Pattern.Reader
import CheckedConfig.Schema.Keyword

namespace CheckedConfig

inductive Required where
  | flag (b : Bool)
  | names (ns : List String)
  deriving DecidableEq, Repr

inductive Additional (α : Type) where
  | allowed (b : Bool)
  | schema (node : α)
  deriving Repr

structure Keywords where
  kind : Option KindSet
  required : Option Required
  default : Option Value
  title : Option String
  description : Option String
  minimum : Option Value
  maximum : Option Value
  minLength : Option Nat
  maxLength : Option Nat
  minItems : Option Nat
  maxItems : Option Nat
  uniqueItems : Bool
  pattern : Option Pattern
  members : Option (List Value)
  transform : Option Directive

def Keywords.none : Keywords :=
  ⟨Option.none, Option.none, Option.none, Option.none, Option.none, Option.none, Option.none,
   Option.none, Option.none, Option.none, Option.none, false, Option.none, Option.none,
   Option.none⟩

structure Node where
  own : Keywords
  properties : Option (List (String × Node))
  items : Option Node
  additional : Option (Additional Node)
  anyOf : Option (List Node)
  allOf : Option (List Node)
  oneOf : Option (List Node)
  noneOf : Option (List Node)

namespace Keywords

def requiresValue (k : Keywords) : Bool :=
  match k.required with
  | some (.flag b) => b
  | some (.names ns) => !ns.isEmpty
  | Option.none => false

def sameDirective : Option Directive → Option Directive → Bool
  | Option.none, Option.none => true
  | some d, some e => d.same e
  | _, _ => false

def samePattern : Option Pattern → Option Pattern → Bool
  | Option.none, Option.none => true
  | some p, some q => p.source == q.source
  | _, _ => false

def sameMembers : Option (List Value) → Option (List Value) → Bool
  | Option.none, Option.none => true
  | some vs, some ws => Value.sameItems vs ws
  | _, _ => false

def same (a b : Keywords) : Bool :=
  a.kind == b.kind && a.required == b.required && Value.sameOption a.default b.default
    && a.title == b.title && a.description == b.description
    && Value.sameOption a.minimum b.minimum && Value.sameOption a.maximum b.maximum
    && a.minLength == b.minLength && a.maxLength == b.maxLength
    && a.minItems == b.minItems && a.maxItems == b.maxItems
    && a.uniqueItems == b.uniqueItems && samePattern a.pattern b.pattern
    && sameMembers a.members b.members && sameDirective a.transform b.transform

end Keywords

namespace Node

def empty : Node :=
  ⟨Keywords.none, none, none, none, none, none, none, none⟩

def ofKind (k : Kind) : Node :=
  { empty with own := { Keywords.none with kind := some (.one k) } }

def requiresValue (n : Node) : Bool := n.own.requiresValue

def declares (n : Node) (name : String) : Bool :=
  match n.properties with
  | some ps => Fields.has ps name
  | none => false

def branches (n : Node) : Keyword → Option (List Node)
  | .anyOf => n.anyOf
  | .allOf => n.allOf
  | .oneOf => n.oneOf
  | .not => n.noneOf
  | _ => none

inductive Child (c n : Node) : Prop where
  | property {ps : List (String × Node)} {name : String} :
      n.properties = some ps → (name, c) ∈ ps → Child c n
  | items : n.items = some c → Child c n
  | extra : n.additional = some (.schema c) → Child c n
  | branch {operator : Keyword} {ns : List Node} :
      n.branches operator = some ns → c ∈ ns → Child c n

theorem Child.sizeOf_lt {c n : Node} (h : c.Child n) : sizeOf c < sizeOf n := by
  obtain ⟨own, properties, items, additional, anyOf, allOf, oneOf, noneOf⟩ := n
  cases h with
  | property hps hmem =>
      have hlt := List.sizeOf_lt_of_mem hmem
      simp only at hps
      subst hps
      simp only [Prod.mk.sizeOf_spec] at hlt
      simp only [mk.sizeOf_spec, Option.some.sizeOf_spec]
      omega
  | items hm =>
      simp only at hm
      subst hm
      simp only [mk.sizeOf_spec, Option.some.sizeOf_spec]
      omega
  | extra hm =>
      simp only at hm
      subst hm
      simp only [mk.sizeOf_spec, Option.some.sizeOf_spec, Additional.schema.sizeOf_spec]
      omega
  | @branch operator ns hns hmem =>
      have hlt := List.sizeOf_lt_of_mem hmem
      cases operator <;> simp only [branches, reduceCtorEq] at hns <;> subst hns <;>
        simp only [mk.sizeOf_spec, Option.some.sizeOf_spec] <;> omega

theorem childInduction {P : Node → Prop} (step : ∀ n, (∀ c : Node, c.Child n → P c) → P n)
    (n : Node) : P n :=
  step n fun c _ => childInduction step c
termination_by sizeOf n
decreasing_by exact Child.sizeOf_lt ‹_›

inductive Within : Node → Node → Prop where
  | self (n : Node) : Within n n
  | under {m c n : Node} : Within m c → c.Child n → Within m n

theorem not_child_ofKind {c : Node} {k : Kind} : ¬ c.Child (ofKind k) := by
  intro hc
  cases hc with
  | property hps _ => cases hps
  | items hm => cases hm
  | extra hm => cases hm
  | @branch operator ns hns _ => cases operator <;> cases hns

theorem Within.eq_ofKind {m : Node} {k : Kind} (h : m.Within (ofKind k)) : m = ofKind k := by
  cases h with
  | self => rfl
  | under _ hc => exact absurd hc not_child_ofKind

mutual

def same : Node → Node → Bool
  | ⟨own, properties, items, additional, anyOf, allOf, oneOf, noneOf⟩, m =>
      own.same m.own && sameProperties properties m.properties && sameItems items m.items
        && sameAdditional additional m.additional && sameBranches anyOf m.anyOf
        && sameBranches allOf m.allOf && sameBranches oneOf m.oneOf && sameBranches noneOf m.noneOf

def sameProperties : Option (List (String × Node)) → Option (List (String × Node)) → Bool
  | none, none => true
  | some ps, some qs => ps.length == qs.length && sameNamed ps qs
  | _, _ => false

def sameItems : Option Node → Option Node → Bool
  | none, none => true
  | some n, some m => n.same m
  | _, _ => false

def sameAdditional : Option (Additional Node) → Option (Additional Node) → Bool
  | none, none => true
  | some (.allowed a), some (.allowed b) => a == b
  | some (.schema n), some (.schema m) => n.same m
  | _, _ => false

def sameBranches : Option (List Node) → Option (List Node) → Bool
  | none, none => true
  | some ns, some ms => sameAll ns ms
  | _, _ => false

def sameAll : List Node → List Node → Bool
  | [], [] => true
  | n :: ns, m :: ms => n.same m && sameAll ns ms
  | _, _ => false

def sameNamed : List (String × Node) → List (String × Node) → Bool
  | [], _ => true
  | (name, n) :: rest, qs =>
      (match Fields.get? qs name with
        | some m => n.same m
        | none => false) && sameNamed rest qs

end

end Node

end CheckedConfig
