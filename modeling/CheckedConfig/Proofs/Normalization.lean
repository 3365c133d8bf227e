import CheckedConfig.Schema.Normal
import CheckedConfig.Schema.Search

namespace CheckedConfig

namespace KindSet

theorem nodup_eraseDups (ks : List Kind) : ks.eraseDups.Nodup := by
  match ks with
  | [] => exact List.nodup_nil
  | k :: ks =>
      rw [List.eraseDups_cons, List.nodup_cons, List.mem_eraseDups]
      have hk : k ∉ ks.filter fun b => !b == k := by simp
      exact ⟨hk, nodup_eraseDups _⟩
termination_by ks.length
decreasing_by exact Nat.lt_succ_of_le (List.length_filter_le ..)

theorem kinds_of_ofKinds? {ks : List Kind} {s : KindSet} (h : ofKinds? ks = some s) :
    s.kinds = ks.eraseDups := by
  unfold ofKinds? at h
  split at h
  · cases h
  · next k hk =>
      obtain rfl := Option.some.inj h
      exact hk.symm
  · obtain rfl := Option.some.inj h
    rfl

end KindSet

namespace Keywords

variable {hasProperties hasItems : Bool} {k : Keywords}

def Suggests (hasProperties hasItems : Bool) (k : Keywords) (kind : Kind) : Prop :=
  (kind = .object ∧ hasProperties = true) ∨ (kind = .array ∧ hasItems = true)
    ∨ ∃ v, k.default = some v ∧ v ≠ .null ∧ kind = Kind.of v

structure Settled (hasProperties hasItems : Bool) (k : Keywords) : Prop where
  required : k.required ≠ some (.names [])
  kind : hasProperties = true ∨ hasItems = true ∨ k.default.isSome = true → k.kind ≠ Option.none

structure Tidied (hasProperties hasItems : Bool) (k l : Keywords) : Prop where
  others : l = { k with kind := l.kind, required := l.required, default := l.default }
  declared : ∀ s, k.kind = some s → l.kind = some s
  inferred : k.kind = Option.none → ∀ s, l.kind = some s →
    s.kinds.Nodup ∧ ∀ kind, kind ∈ s.kinds ↔ k.Suggests hasProperties hasItems kind
  untyped : l.kind = Option.none → ∀ kind, ¬ k.Suggests hasProperties hasItems kind
  emptied : k.required = some (.names []) → l.required = Option.none
  required : k.required ≠ some (.names []) → l.required = k.required
  discarded : k.kind = Option.none → k.default = some .null → l.default = Option.none
  default : k.kind ≠ Option.none ∨ k.default ≠ some .null → l.default = k.default

theorem mem_defaultKinds {kind : Kind} :
    kind ∈ k.defaultKinds ↔ ∃ v, k.default = some v ∧ v ≠ .null ∧ kind = Kind.of v := by
  unfold defaultKinds
  split
  · next h => simp [h]
  · next v hne h =>
      have hv : v ≠ .null := hne
      simp +contextual [h, hv]
  · next h => simp [h]

theorem mem_inferredKinds {kind : Kind} :
    kind ∈ k.inferredKinds hasProperties hasItems ↔ k.Suggests hasProperties hasItems kind := by
  rw [inferredKinds, List.mem_append, List.mem_append, mem_defaultKinds, Suggests, or_assoc]
  cases hasProperties <;> cases hasItems <;> simp

theorem isNullDefault_iff : k.isNullDefault = true ↔ k.default = some .null := by
  unfold isNullDefault
  split
  · next h => simp [h]
  · next h => exact iff_of_false Bool.false_ne_true h

theorem normalize_of_kind (hk : k.kind ≠ Option.none) :
    k.normalize hasProperties hasItems = k.normalizeRequired := by
  obtain ⟨s, hs⟩ := Option.ne_none_iff_exists'.mp hk
  rw [normalize, normalizeKind, hs]

theorem normalize_of_untyped (hk : k.kind = Option.none) :
    k.normalize hasProperties hasItems =
      { k.normalizeRequired with
        kind := KindSet.ofKinds? (k.inferredKinds hasProperties hasItems)
        default := if k.isNullDefault then Option.none else k.default } := by
  rw [normalize, normalizeKind, hk]
  unfold normalizeRequired
  simp only
  split <;> rfl

theorem others_normalizeRequired (k : Keywords) :
    k.normalizeRequired = { k with required := k.normalizeRequired.required } := by
  unfold normalizeRequired
  split <;> rfl

theorem required_normalizeRequired (k : Keywords) :
    k.normalizeRequired.required
      = if k.required = some (.names []) then Option.none else k.required := by
  unfold normalizeRequired
  split
  · next h => rw [if_pos h]
  · next h => rw [if_neg h]

theorem required_normalize (k : Keywords) :
    (k.normalize hasProperties hasItems).required
      = if k.required = some (.names []) then Option.none else k.required := by
  rw [← required_normalizeRequired]
  by_cases hk : k.kind = Option.none
  · rw [normalize_of_untyped hk]
  · rw [normalize_of_kind hk]

theorem default_normalize_of_kind (hk : k.kind ≠ Option.none) :
    (k.normalize hasProperties hasItems).default = k.default := by
  rw [normalize_of_kind hk, others_normalizeRequired]

theorem default_normalize_of_untyped (hk : k.kind = Option.none) :
    (k.normalize hasProperties hasItems).default
      = if k.isNullDefault then Option.none else k.default := by
  rw [normalize_of_untyped hk]

theorem inferred_normalize (hk : k.kind = Option.none) {s : KindSet}
    (hs : (k.normalize hasProperties hasItems).kind = some s) :
    s.kinds.Nodup ∧ ∀ kind, kind ∈ s.kinds ↔ k.Suggests hasProperties hasItems kind := by
  rw [normalize_of_untyped hk] at hs
  rw [KindSet.kinds_of_ofKinds? hs]
  refine ⟨KindSet.nodup_eraseDups _, fun kind => ?_⟩
  rw [List.mem_eraseDups]
  exact mem_inferredKinds

theorem not_suggests_of_untyped (hk : (k.normalize hasProperties hasItems).kind = Option.none)
    (kind : Kind) : ¬ k.Suggests hasProperties hasItems kind := by
  by_cases hown : k.kind = Option.none
  · rw [normalize_of_untyped hown] at hk
    have hnil := KindSet.ofKinds?_eq_none hk
    rw [← mem_inferredKinds, hnil]
    exact List.not_mem_nil
  · rw [normalize_of_kind hown, kind_normalizeRequired] at hk
    exact absurd hk hown

theorem normalize_tidied (k : Keywords) :
    k.Tidied hasProperties hasItems (k.normalize hasProperties hasItems) where
  others := by
    by_cases hk : k.kind = Option.none
    · rw [normalize_of_untyped hk, others_normalizeRequired]
    · rw [normalize_of_kind hk, others_normalizeRequired]
  declared s hs := by
    have hk : k.kind ≠ Option.none := by simp [hs]
    rw [normalize_of_kind hk, kind_normalizeRequired, hs]
  inferred hk _ hs := inferred_normalize hk hs
  untyped hk := not_suggests_of_untyped hk
  emptied h := by rw [required_normalize, if_pos h]
  required h := by rw [required_normalize, if_neg h]
  discarded hk h := by rw [default_normalize_of_untyped hk, if_pos (isNullDefault_iff.mpr h)]
  default h := by
    by_cases hk : k.kind = Option.none
    · have hnull := h.resolve_left (not_not_intro hk)
      rw [default_normalize_of_untyped hk, if_neg fun hn => hnull (isNullDefault_iff.mp hn)]
    · exact default_normalize_of_kind hk

theorem Tidied.settled {l : Keywords} (h : k.Tidied hasProperties hasItems l) :
    l.Settled hasProperties hasItems where
  required hl := by
    by_cases hk : k.required = some (.names [])
    · have hnone := h.emptied hk
      rw [hl] at hnone
      cases hnone
    · exact hk ((h.required hk).symm.trans hl)
  kind hany hl := by
    have hno := h.untyped hl
    rcases hany with hproperties | hitems | hdefault
    · exact hno .object (.inl ⟨rfl, hproperties⟩)
    · exact hno .array (.inr (.inl ⟨rfl, hitems⟩))
    · obtain ⟨v, hv⟩ := Option.isSome_iff_exists.mp hdefault
      have hk : k.kind = Option.none := by
        cases hs : k.kind with
        | none => rfl
        | some s =>
            rw [h.declared s hs] at hl
            cases hl
      by_cases hnull : k.default = some .null
      · rw [h.discarded hk hnull] at hv
        cases hv
      · rw [h.default (.inr hnull)] at hv
        have hv' : v ≠ .null := by
          rintro rfl
          exact hnull hv
        exact hno (Kind.of v) (.inr (.inr ⟨v, hv, hv', rfl⟩))

end Keywords

namespace Node

theorem properties_normalize (n : Node) :
    n.normalize.properties
      = n.properties.map fun ps => (Fields.ofList ps).map fun p => (p.1, p.2.normalize) := by
  obtain ⟨own, properties, items, additional, anyOf, allOf, oneOf, noneOf⟩ := n
  cases properties with
  | none => rfl
  | some ps =>
      simp only [normalize, normalizeProperties, normalizeNamed_eq, Fields.ofList_map,
        Option.map_some]

theorem items_normalize (n : Node) : n.normalize.items = n.items.map normalize := by
  obtain ⟨own, properties, items, additional, anyOf, allOf, oneOf, noneOf⟩ := n
  cases items <;> rfl

theorem extra?_normalize (n : Node) : n.normalize.extra? = n.extra?.map normalize := by
  obtain ⟨own, properties, items, additional, anyOf, allOf, oneOf, noneOf⟩ := n
  rcases additional with _ | _ | _ <;> rfl

theorem allowed_normalize (n : Node) (b : Bool) :
    n.normalize.additional = some (.allowed b) ↔ n.additional = some (.allowed b) := by
  obtain ⟨own, properties, items, additional, anyOf, allOf, oneOf, noneOf⟩ := n
  rcases additional with _ | _ | _ <;> simp [normalize, normalizeAdditional]

theorem own_normalize (n : Node) :
    n.normalize.own = n.own.normalize n.properties.isSome n.items.isSome := by
  obtain ⟨own, properties, items, additional, anyOf, allOf, oneOf, noneOf⟩ := n
  rfl

structure SameShape (c d : Node) : Prop where
  properties : d.properties.map Fields.keys
    = c.properties.map fun ps => Fields.keys (Fields.ofList ps)
  items : d.items.isSome = c.items.isSome
  allowed : ∀ b, d.additional = some (.allowed b) ↔ c.additional = some (.allowed b)
  extra : d.extra?.isSome = c.extra?.isSome
  branches : ∀ operator, (d.branches operator).map List.length
    = (c.branches operator).map List.length

inductive Beside (n m : Node) : Node → Node → Prop where
  | root : Beside n m n m
  | property {c d c' d' : Node} {ps qs : List (String × Node)} {name : String} :
      Beside n m c d → c.properties = some ps → d.properties = some qs →
      Fields.get? (Fields.ofList ps) name = some c' →
      Fields.get? (Fields.ofList qs) name = some d' → Beside n m c' d'
  | items {c d c' d' : Node} :
      Beside n m c d → c.items = some c' → d.items = some d' → Beside n m c' d'
  | extra {c d c' d' : Node} :
      Beside n m c d → c.extra? = some c' → d.extra? = some d' → Beside n m c' d'
  | branch {c d c' d' : Node} {operator : Keyword} {ns ms : List Node} {i : Nat} :
      Beside n m c d → c.branches operator = some ns → d.branches operator = some ms →
      ns[i]? = some c' → ms[i]? = some d' → Beside n m c' d'

theorem Beside.trans {n m a b c d : Node} (hab : Beside n m a b) (h : Beside a b c d) :
    Beside n m c d := by
  induction h with
  | root => exact hab
  | property _ hps hqs hc hd ih => exact .property ih hps hqs hc hd
  | items _ hc hd ih => exact .items ih hc hd
  | extra _ hc hd ih => exact .extra ih hc hd
  | branch _ hns hms hc hd ih => exact .branch ih hns hms hc hd

theorem sameShape_normalize (n : Node) : n.SameShape n.normalize where
  properties := by
    rw [properties_normalize, Option.map_map]
    congr 1
    funext ps
    simp [Fields.keys]
  items := by rw [items_normalize, Option.isSome_map]
  allowed := allowed_normalize n
  extra := by rw [extra?_normalize, Option.isSome_map]
  branches operator := by
    rw [branches_normalize, Option.map_map]
    congr 1
    funext ns
    exact List.length_map ..

theorem get?_normalize {n d : Node} {ps qs : List (String × Node)} {name : String}
    (hps : n.properties = some ps) (hqs : n.normalize.properties = some qs)
    (hd : Fields.get? (Fields.ofList qs) name = some d) :
    ∃ c, Fields.get? (Fields.ofList ps) name = some c ∧ d = c.normalize := by
  rw [properties_normalize, hps, Option.map_some] at hqs
  obtain rfl := Option.some.inj hqs
  have hnodup : (Fields.keys ((Fields.ofList ps).map fun p => (p.1, p.2.normalize))).Nodup := by
    rw [← Fields.ofList_map]
    exact Fields.nodup_ofList _
  rw [Fields.ofList_of_nodup hnodup, Fields.get?_map fun _ => normalize] at hd
  obtain ⟨c, hc, rfl⟩ := Option.map_eq_some_iff.mp hd
  exact ⟨c, hc, rfl⟩

theorem Beside.eq_normalize {n c d : Node} (h : Beside n n.normalize c d) : d = c.normalize := by
  induction h with
  | root => rfl
  | property _ hps hqs hc hd ih =>
      subst ih
      obtain ⟨c', hc', rfl⟩ := get?_normalize hps hqs hd
      rw [Option.some.inj (hc.symm.trans hc')]
  | items _ hc hd ih =>
      rw [ih, items_normalize, hc] at hd
      exact (Option.some.inj hd).symm
  | extra _ hc hd ih =>
      rw [ih, extra?_normalize, hc] at hd
      exact (Option.some.inj hd).symm
  | branch _ hns hms hc hd ih =>
      rw [ih, branches_normalize, hns] at hms
      obtain rfl := Option.some.inj hms
      rw [List.getElem?_map, hc] at hd
      exact (Option.some.inj hd).symm

theorem Child.of_normalize {d n : Node} (h : d.Child n.normalize) :
    ∃ c : Node, c.Child n ∧ d = c.normalize ∧ Beside n n.normalize c d := by
  cases h with
  | @property qs name hqs hmem =>
      obtain ⟨ps, hps, -⟩ := Option.map_eq_some_iff.mp (n.properties_normalize ▸ hqs)
      have hd : Fields.get? (Fields.ofList qs) name = some d := by
        have hnodup := keys_nodup_of_normal n.normalize_normalize hqs
        rw [Fields.ofList_of_nodup hnodup]
        exact Fields.get?_of_mem hnodup hmem
      obtain ⟨c, hc, rfl⟩ := get?_normalize hps hqs hd
      have hchild : c.Child n := .property hps (Fields.mem_of_mem_ofList (Fields.mem_of_get? hc))
      exact ⟨c, hchild, rfl, .property .root hps hqs hc hd⟩
  | items hd =>
      obtain ⟨c, hc, rfl⟩ := Option.map_eq_some_iff.mp (n.items_normalize ▸ hd)
      exact ⟨c, .items hc, rfl, .items .root hc hd⟩
  | extra hd =>
      have hd : n.normalize.extra? = some d := by rw [extra?, hd]
      obtain ⟨c, hc, rfl⟩ := Option.map_eq_some_iff.mp (n.extra?_normalize ▸ hd)
      exact ⟨c, .extra (extra?_eq_some hc), rfl, .extra .root hc hd⟩
  | @branch operator ms hms hmem =>
      obtain ⟨ns, hns, rfl⟩ := Option.map_eq_some_iff.mp (n.branches_normalize operator ▸ hms)
      obtain ⟨i, hd⟩ := List.getElem?_of_mem hmem
      obtain ⟨c, hc, rfl⟩ := Option.map_eq_some_iff.mp (List.getElem?_map ▸ hd)
      exact ⟨c, .branch hns (List.mem_of_getElem? hc), rfl, .branch .root hns hms hc hd⟩

theorem Within.of_normalize {d n : Node} (h : d.Within n.normalize) :
    ∃ c, Beside n n.normalize c d := by
  generalize hm : n.normalize = m at h
  induction h generalizing n with
  | self => exact ⟨n, hm ▸ .root⟩
  | under _ hchild ih =>
      subst hm
      obtain ⟨c, -, rfl, hbeside⟩ := hchild.of_normalize
      obtain ⟨c', hc'⟩ := ih rfl
      exact ⟨c', hbeside.trans hc'⟩

theorem normalize_tidies (n : Node) :
    (∀ d : Node, d.Within n.normalize →
      d.own.Settled d.properties.isSome d.items.isSome ∧ ∃ c, Beside n n.normalize c d)
    ∧ (∀ c d, Beside n n.normalize c d →
      c.own.Tidied c.properties.isSome c.items.isSome d.own ∧ c.SameShape d)
    ∧ n.normalize.normalize = n.normalize := by
  have hbeside (c d : Node) (h : Beside n n.normalize c d) :
      c.own.Tidied c.properties.isSome c.items.isSome d.own ∧ c.SameShape d := by
    rw [h.eq_normalize, own_normalize]
    exact ⟨Keywords.normalize_tidied c.own, sameShape_normalize c⟩
  refine ⟨fun d hd => ?_, hbeside, n.normalize_normalize⟩
  obtain ⟨c, hc⟩ := hd.of_normalize
  have hproperties : d.properties.isSome = c.properties.isSome := by
    rw [hc.eq_normalize, properties_normalize, Option.isSome_map]
  have hitems := (hbeside c d hc).2.items
  have hsettled := (hbeside c d hc).1.settled
  rw [hproperties, hitems]
  exact ⟨hsettled, c, hc⟩

end Node

end CheckedConfig
