import CheckedConfig.Schema.Node

namespace CheckedConfig

inductive SchemaWarning where
  | nullDefault
  | emptyRequired
  deriving DecidableEq, Repr

def SchemaWarning.message : SchemaWarning → String
  | .nullDefault => "Invalid default value type: null, the default has been discarded"
  | .emptyRequired => "object schema \"required\" field is an empty array, it has been ignored"

namespace Keywords

def isNullDefault (k : Keywords) : Bool :=
  match k.default with
  | some .null => true
  | _ => false

def defaultKinds (k : Keywords) : List Kind :=
  match k.default with
  | some .null => []
  | some v => [Kind.of v]
  | Option.none => []

def inferredKinds (hasProperties hasItems : Bool) (k : Keywords) : List Kind :=
  (if hasProperties then [.object] else []) ++ (if hasItems then [.array] else []) ++ k.defaultKinds

def normalizeKind (hasProperties hasItems : Bool) (k : Keywords) : Keywords :=
  match k.kind with
  | some _ => k
  | Option.none =>
      { k with
        kind := KindSet.ofKinds? (k.inferredKinds hasProperties hasItems)
        default := if k.isNullDefault then Option.none else k.default }

def normalizeRequired (k : Keywords) : Keywords :=
  match k.required with
  | some (.names []) => { k with required := Option.none }
  | _ => k

def normalize (hasProperties hasItems : Bool) (k : Keywords) : Keywords :=
  (k.normalizeKind hasProperties hasItems).normalizeRequired

def warnings (k : Keywords) : List SchemaWarning :=
  (if k.kind.isNone && k.isNullDefault then [.nullDefault] else [])
    ++ (if k.required == some (.names []) then [.emptyRequired] else [])

end Keywords

namespace Node

mutual

def normalize : Node → Node
  | ⟨own, properties, items, additional, anyOf, allOf, oneOf, noneOf⟩ =>
      ⟨own.normalize properties.isSome items.isSome, normalizeProperties properties,
       normalizeItems items, normalizeAdditional additional, normalizeBranches anyOf,
       normalizeBranches allOf, normalizeBranches oneOf, normalizeBranches noneOf⟩

def normalizeProperties : Option (List (String × Node)) → Option (List (String × Node))
  | none => none
  | some ps => some (Fields.ofList (normalizeNamed ps))

def normalizeItems : Option Node → Option Node
  | none => none
  | some n => some n.normalize

def normalizeAdditional : Option (Additional Node) → Option (Additional Node)
  | none => none
  | some (.allowed b) => some (.allowed b)
  | some (.schema n) => some (.schema n.normalize)

def normalizeBranches : Option (List Node) → Option (List Node)
  | none => none
  | some ns => some (normalizeAll ns)

def normalizeAll : List Node → List Node
  | [] => []
  | n :: ns => n.normalize :: normalizeAll ns

def normalizeNamed : List (String × Node) → List (String × Node)
  | [] => []
  | (name, n) :: rest => (name, n.normalize) :: normalizeNamed rest

end

mutual

def warnings : Node → List SchemaWarning
  | ⟨own, properties, items, additional, anyOf, allOf, oneOf, noneOf⟩ =>
      own.warnings ++ warningsProperties properties ++ warningsItems items
        ++ warningsAdditional additional ++ warningsBranches anyOf ++ warningsBranches allOf
        ++ warningsBranches oneOf ++ warningsBranches noneOf

def warningsProperties : Option (List (String × Node)) → List SchemaWarning
  | none => []
  | some ps => warningsNamed ps

def warningsItems : Option Node → List SchemaWarning
  | none => []
  | some n => n.warnings

def warningsAdditional : Option (Additional Node) → List SchemaWarning
  | none => []
  | some (.allowed _) => []
  | some (.schema n) => n.warnings

def warningsBranches : Option (List Node) → List SchemaWarning
  | none => []
  | some ns => warningsAll ns

def warningsAll : List Node → List SchemaWarning
  | [] => []
  | n :: ns => n.warnings ++ warningsAll ns

def warningsNamed : List (String × Node) → List SchemaWarning
  | [] => []
  | (_, n) :: rest => n.warnings ++ warningsNamed rest

end

end Node

namespace KindSet

theorem ofKinds?_eq_none {ks : List Kind} (h : ofKinds? ks = none) : ks = [] := by
  cases ks with
  | nil => rfl
  | cons k ks =>
      simp only [ofKinds?, List.eraseDups_cons] at h
      split at h <;> simp_all

end KindSet

namespace Keywords

theorem normalizeKind_normalizeKind (a b : Bool) (k : Keywords) :
    (k.normalizeKind a b).normalizeKind a b = k.normalizeKind a b := by
  cases hk : k.kind with
  | some s => simp [normalizeKind, hk]
  | none =>
      cases hs : KindSet.ofKinds? (k.inferredKinds a b) with
      | some s => simp [normalizeKind, hk, hs]
      | none =>
          have hnil := KindSet.ofKinds?_eq_none hs
          obtain ⟨hab, hd⟩ := List.append_eq_nil_iff.mp hnil
          have hdefault : (if k.isNullDefault then Option.none else k.default) = Option.none := by
            unfold defaultKinds at hd
            unfold isNullDefault
            split at hd <;> simp_all
          have hstep : k.normalizeKind a b =
              { k with kind := Option.none, default := Option.none } := by
            simp only [normalizeKind, hk, hs, hdefault]
          rw [hstep]
          simp only [normalizeKind, inferredKinds, hab, defaultKinds, List.append_nil]
          rfl

theorem normalizeKind_normalizeRequired (a b : Bool) (k : Keywords) :
    k.normalizeRequired.normalizeKind a b = (k.normalizeKind a b).normalizeRequired := by
  obtain ⟨kind, required, _⟩ := k
  rcases required with _ | _ | _ | _ <;> cases kind <;> rfl

theorem normalizeRequired_normalizeRequired (k : Keywords) :
    k.normalizeRequired.normalizeRequired = k.normalizeRequired := by
  obtain ⟨kind, required, _⟩ := k
  rcases required with _ | _ | _ | _ <;> rfl

theorem normalize_normalize (a b : Bool) (k : Keywords) :
    (k.normalize a b).normalize a b = k.normalize a b := by
  simp only [normalize, normalizeKind_normalizeRequired, normalizeKind_normalizeKind,
    normalizeRequired_normalizeRequired]

theorem kind_normalizeRequired (k : Keywords) : k.normalizeRequired.kind = k.kind := by
  unfold normalizeRequired
  split <;> rfl

theorem containers_of_kind_normalize {a b : Bool} {k : Keywords}
    (h : (k.normalize a b).kind = Option.none) : a = false ∧ b = false := by
  rw [normalize, kind_normalizeRequired] at h
  cases hk : k.kind with
  | some s => simp [normalizeKind, hk] at h
  | none =>
      simp only [normalizeKind, hk] at h
      have hnil := KindSet.ofKinds?_eq_none h
      simp only [inferredKinds, List.append_eq_nil_iff] at hnil
      cases a <;> cases b <;> simp at hnil
      exact ⟨rfl, rfl⟩

end Keywords

namespace Node

theorem normalizeAll_eq (ns : List Node) : normalizeAll ns = ns.map normalize := by
  induction ns with
  | nil => rfl
  | cons n ns ih => simp [normalizeAll, ih]

theorem normalizeNamed_eq (ps : List (String × Node)) :
    normalizeNamed ps = ps.map fun p => (p.1, p.2.normalize) := by
  induction ps with
  | nil => rfl
  | cons p ps ih => simp [normalizeNamed, ih]

theorem normalizeBranches_eq (b : Option (List Node)) :
    normalizeBranches b = b.map (List.map normalize) := by
  cases b with
  | none => rfl
  | some ns => simp [normalizeBranches, normalizeAll_eq]

theorem branches_normalize (n : Node) (operator : Keyword) :
    n.normalize.branches operator = (n.branches operator).map (List.map normalize) := by
  obtain ⟨own, properties, items, additional, anyOf, allOf, oneOf, noneOf⟩ := n
  cases operator <;> first | exact normalizeBranches_eq _ | rfl

theorem normalize_normalize (n : Node) : n.normalize.normalize = n.normalize := by
  induction n using childInduction with
  | step n ih =>
  have hbranches (operator : Keyword) :
      n.normalize.normalize.branches operator = n.normalize.branches operator := by
    rw [branches_normalize, branches_normalize, Option.map_map]
    cases hb : n.branches operator with
    | none => rfl
    | some ns =>
        simp only [Option.map_some, Function.comp_apply, List.map_map, Option.some.injEq]
        exact List.map_congr_left fun c hc => ih c (.branch hb hc)
  obtain ⟨own, properties, items, additional, anyOf, allOf, oneOf, noneOf⟩ := n
  have hnamed (ps : List (String × Node)) (hps : properties = some ps) :
      normalizeNamed (Fields.ofList (normalizeNamed ps)) = Fields.ofList (normalizeNamed ps) := by
    rw [normalizeNamed_eq (Fields.ofList _)]
    refine (List.map_congr_left fun p hp => ?_).trans (List.map_id _)
    have hmem := Fields.mem_of_mem_ofList hp
    rw [normalizeNamed_eq] at hmem
    obtain ⟨q, hq, rfl⟩ := List.mem_map.mp hmem
    simp only [ih q.2 (.property hps hq), id_eq]
  simp only [normalize, mk.injEq]
  refine ⟨?_, ?_, ?_, ?_, hbranches .anyOf, hbranches .allOf, hbranches .oneOf, hbranches .not⟩
  · cases properties <;> cases items <;> exact Keywords.normalize_normalize _ _ own
  · cases hps : properties with
    | none => rfl
    | some ps =>
        simp only [normalizeProperties, hnamed ps hps]
        rw [Fields.ofList_of_nodup (Fields.nodup_ofList _)]
  · cases hm : items with
    | none => rfl
    | some m => simp only [normalizeItems, ih m (.items hm)]
  · cases hm : additional with
    | none => rfl
    | some extra =>
        cases extra with
        | allowed b => rfl
        | schema m => simp only [normalizeAdditional, ih m (.extra hm)]

theorem keys_nodup_of_normal {n : Node} {ps : List (String × Node)} (hn : n.normalize = n)
    (hps : n.properties = some ps) : (Fields.keys ps).Nodup := by
  obtain ⟨own, properties, items, additional, anyOf, allOf, oneOf, noneOf⟩ := n
  simp only at hps
  subst hps
  simp only [normalize, normalizeProperties, mk.injEq, Option.some.injEq] at hn
  rw [← hn.2.1]
  exact Fields.nodup_ofList _

theorem containers_of_untyped {n : Node} (hn : n.normalize = n) (hk : n.own.kind = none) :
    n.properties = none ∧ n.items = none := by
  obtain ⟨own, properties, items, additional, anyOf, allOf, oneOf, noneOf⟩ := n
  simp only [normalize, mk.injEq] at hn
  rw [← hn.1] at hk
  have hcontainers := Keywords.containers_of_kind_normalize hk
  simpa using hcontainers

theorem Child.normal {c n : Node} (h : c.Child n) (hn : n.normalize = n) : c.normalize = c := by
  cases h with
  | @branch operator ns hns hmem =>
      have hb := branches_normalize n operator
      rw [hn, hns] at hb
      simp only [Option.map_some, Option.some.injEq] at hb
      exact List.map_inj_left.mp (hb.symm.trans (List.map_id _).symm) c hmem
  | @property ps name hps hmem =>
      have hd := keys_nodup_of_normal hn hps
      obtain ⟨own, properties, items, additional, anyOf, allOf, oneOf, noneOf⟩ := n
      simp only at hps
      subst hps
      simp only [normalize, normalizeProperties, mk.injEq, Option.some.injEq] at hn
      rw [Fields.ofList_of_nodup, normalizeNamed_eq] at hn
      · have hp := List.map_inj_left.mp (hn.2.1.trans (List.map_id _).symm) _ hmem
        exact congrArg Prod.snd hp
      · rw [normalizeNamed_eq, Fields.keys, List.map_map]
        exact hd
  | items hm =>
      obtain ⟨own, properties, items, additional, anyOf, allOf, oneOf, noneOf⟩ := n
      simp only at hm
      subst hm
      simp only [normalize, normalizeItems, mk.injEq, Option.some.injEq] at hn
      exact hn.2.2.1
  | extra hm =>
      obtain ⟨own, properties, items, additional, anyOf, allOf, oneOf, noneOf⟩ := n
      simp only at hm
      subst hm
      simp only [normalize, normalizeAdditional, mk.injEq, Option.some.injEq,
        Additional.schema.injEq] at hn
      exact hn.2.2.2.1

end Node

structure Schema where
  root : Node
  normal : root.normalize = root

def Schema.ofNode (n : Node) : Schema := ⟨n.normalize, n.normalize_normalize⟩

end CheckedConfig
