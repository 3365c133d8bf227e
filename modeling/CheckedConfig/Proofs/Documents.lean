import CheckedConfig.Proofs.Coercion
import CheckedConfig.Proofs.Normalization
import CheckedConfig.Schema.Document

namespace CheckedConfig

theorem Kind.ofName?_name (k : Kind) : Kind.ofName? k.name = some k := by
  cases k <;> rfl

theorem Field.ofName?_name (f : Field) : Field.ofName? f.name = some f := by
  cases f <;> rfl

theorem strings?_map (ns : List String) : strings? (ns.map .string) = some ns := by
  induction ns with
  | nil => rfl
  | cons n ns ih => rw [List.map_cons, strings?, ih, Option.map_some]

theorem KindSet.ofValue_toValue (s : KindSet) : KindSet.ofValue s.toValue = .ok s := by
  cases s with
  | one k =>
      have hk : Kind.ofValue? (.string k.name) = some k := k.ofName?_name
      simp only [toValue, ofValue, hk]
  | many ks =>
      have hks : (ks.map fun k => Value.string k.name).mapM Kind.ofValue? = some ks := by
        induction ks with
        | nil => rfl
        | cons k ks ih => simp [List.mapM_cons, Kind.ofValue?, Kind.ofName?_name, ih]
      have hmany : Kind.ofValue? (.array (ks.map fun k => .string k.name)) = none := rfl
      simp only [toValue, ofValue, hmany, hks]

theorem Required.ofValue_toValue (r : Required) : Required.ofValue r.toValue = .ok r := by
  cases r with
  | flag b => rfl
  | names ns => rw [toValue, ofValue, strings?_map]

theorem readSize_ofSize (n : Nat) : readSize (ofSize n) = .ok n := by
  have hn : ¬ (n : Int) < 0 := by omega
  rw [ofSize, Value.int, readSize, if_neg hn, Int.toNat_natCast]

theorem compile?_of_readPattern {v : Value} {p : Pattern} (h : readPattern v = .ok p) :
    Pattern.compile? p.source = some p := by
  unfold readPattern at h
  cases v with
  | string s =>
      simp only [readString, Except.bind] at h
      split at h
      · next q hq =>
          obtain rfl := Except.ok.inj h
          obtain ⟨regex, -, rfl⟩ := Option.map_eq_some_iff.mp hq
          exact hq
      · cases h
  | _ => cases h

theorem readPattern_source {p : Pattern} (h : Pattern.compile? p.source = some p) :
    readPattern (.string p.source) = .ok p := by
  simp only [readPattern, readString, Except.bind, h]

theorem ok_of_map {α β : Type} {f : α → β} {r : Read α} {b : β} (h : r.map f = .ok b) :
    ∃ a, r = .ok a ∧ f a = b := by
  cases r with
  | error e => cases h
  | ok a => exact ⟨a, rfl, Except.ok.inj h⟩

theorem ok_of_bind {α β : Type} {f : α → Read β} {r : Read α} {b : β} (h : r.bind f = .ok b) :
    ∃ a, r = .ok a ∧ f a = .ok b := by
  cases r with
  | error e => cases h
  | ok a => exact ⟨a, rfl, h⟩

theorem read_of_optional {α : Type} {read : Value → Read α} {v : Value} {a : α}
    (h : optional read v = .ok (some a)) : v ≠ .null ∧ read v = .ok a := by
  unfold optional at h
  split at h
  · cases h
  · next hv =>
      obtain ⟨b, hb, hsome⟩ := ok_of_map h
      obtain rfl := Option.some.inj hsome
      exact ⟨hv, hb⟩

theorem optional_of_read {α : Type} {read : Value → Read α} {v : Value} {a : α}
    (hv : v ≠ .null) (h : read v = .ok a) : optional read v = .ok (some a) := by
  unfold optional
  split
  · exact absurd rfl hv
  · rw [h]
    rfl

theorem ne_null_of_optional {v : Value} {x : Option Value} (h : optional .ok v = .ok x) :
    x ≠ some .null := by
  rintro rfl
  obtain ⟨hne, heq⟩ := read_of_optional h
  exact hne (Except.ok.inj heq)

theorem optional_of_bound {v : Value} {x : Option Value} (hx : x ≠ some .null)
    (hv : x = some v) : optional .ok v = .ok x := by
  subst hv
  exact optional_of_read (fun hnull => hx (congrArg some hnull)) rfl

namespace Directive

theorem mem_builtins_of_resolve {names : List String} {ts : List Transformer}
    (h : resolve names = .ok ts) : ∀ t ∈ ts, t ∈ Transformer.builtins := by
  induction names generalizing ts with
  | nil =>
      obtain rfl := Except.ok.inj h
      exact fun t ht => absurd ht List.not_mem_nil
  | cons name names ih =>
      rw [resolve] at h
      split at h
      · next t ht =>
          obtain ⟨rest, hrest, rfl⟩ := ok_of_map h
          exact List.forall_mem_cons.mpr ⟨Transformer.mem_of_builtin? ht, ih hrest⟩
      · cases h

theorem resolve_names {ts : List Transformer} (h : ∀ t ∈ ts, t ∈ Transformer.builtins) :
    resolve (names ts) = .ok ts := by
  induction ts with
  | nil => rfl
  | cons t ts ih =>
      obtain ⟨ht, hts⟩ := List.forall_mem_cons.mp h
      have hrest : resolve (ts.map Transformer.name) = .ok ts := ih hts
      rw [names, List.map_cons, resolve, Transformer.builtin?_name ht]
      simp only [hrest, Except.map]

theorem builtIn_of_ofValue {v : Value} {d : Directive} (h : ofValue v = .ok (some d)) :
    d.BuiltIn := by
  unfold ofValue at h
  split at h
  · cases h
  · obtain rfl := Option.some.inj (Except.ok.inj h)
    exact fun t ht => absurd ht List.not_mem_nil
  · obtain ⟨ts, hts, hd⟩ := ok_of_map h
    obtain ⟨t, ht, rfl⟩ := Option.map_eq_some_iff.mp hd
    have hmem := mem_builtins_of_resolve hts t (List.mem_of_mem_head? ht)
    exact List.forall_mem_singleton.mpr hmem
  · split at h
    · obtain ⟨ts, hts, hd⟩ := ok_of_map h
      obtain rfl := Option.some.inj hd
      exact mem_builtins_of_resolve hts
    · cases h
  · split at h
    · obtain ⟨ts, hts, hd⟩ := ok_of_map h
      obtain rfl := Option.some.inj hd
      exact mem_builtins_of_resolve hts
    · cases h
  · cases h

theorem groupFields?_toValue (name : Option String) (ts : List Transformer) (b : Bool) :
    groupFields? [("name", (name.map Value.string).getD .null), ("transformers", nameList ts),
        ("ignoreCheck", .bool b)] = some (name, names ts, b) := by
  have hnames : strings? ((names ts).map .string) = some (names ts) := strings?_map _
  cases name <;> simp [groupFields?, Fields.get?, nameList, hnames]

theorem ofValue_toValue {d : Directive} (h : d.BuiltIn) : ofValue d.toValue = .ok (some d) := by
  cases d with
  | infer => rfl
  | single t =>
      have ht : resolve [t.name] = .ok [t] := resolve_names h
      simp only [toValue, ofValue, ht, Except.map, List.head?_cons, Option.map_some]
  | list ts =>
      have hts : resolve (names ts) = .ok ts := resolve_names h
      simp only [toValue, nameList, ofValue, strings?_map, hts, Except.map]
  | group name ts b =>
      have hts : resolve (names ts) = .ok ts := resolve_names h
      simp only [toValue, ofValue, groupFields?_toValue, hts, Except.map]

end Directive

structure Keywords.Legible (k : Keywords) : Prop where
  minimum : k.minimum ≠ some .null
  maximum : k.maximum ≠ some .null
  pattern : ∀ p, k.pattern = some p → Pattern.compile? p.source = some p
  transform : ∀ d, k.transform = some d → d.BuiltIn

theorem Keywords.legible_none : Keywords.none.Legible :=
  ⟨nofun, nofun, nofun, nofun⟩

theorem Keywords.Legible.normalize {k : Keywords} (h : k.Legible) (hasProperties hasItems : Bool) :
    (k.normalize hasProperties hasItems).Legible := by
  have hothers : k.Tidied hasProperties hasItems _ := k.normalize_tidied
  rw [hothers.others]
  exact { h with }

namespace Node

structure Below (P : Node → Prop) (n : Node) : Prop where
  properties : ∀ ps, n.properties = some ps → ∀ p ∈ ps, P p.2
  items : ∀ c, n.items = some c → P c
  extra : ∀ c, n.additional = some (.schema c) → P c
  anyOf : ∀ ns, n.anyOf = some ns → ∀ c ∈ ns, P c
  allOf : ∀ ns, n.allOf = some ns → ∀ c ∈ ns, P c
  oneOf : ∀ ns, n.oneOf = some ns → ∀ c ∈ ns, P c
  noneOf : ∀ ns, n.noneOf = some ns → ∀ c ∈ ns, P c

theorem below_of_child {P : Node → Prop} {n : Node} (h : ∀ c : Node, c.Child n → P c) :
    Below P n where
  properties _ hps _ hp := h _ (.property hps hp)
  items _ hc := h _ (.items hc)
  extra _ hc := h _ (.extra hc)
  anyOf _ hns _ hc := h _ (@Child.branch _ _ .anyOf _ hns hc)
  allOf _ hns _ hc := h _ (@Child.branch _ _ .allOf _ hns hc)
  oneOf _ hns _ hc := h _ (@Child.branch _ _ .oneOf _ hns hc)
  noneOf _ hns _ hc := h _ (@Child.branch _ _ .not _ hns hc)

theorem Below.of_child {P : Node → Prop} {c n : Node} (h : Below P n) (hc : c.Child n) : P c := by
  cases hc with
  | property hps hmem => exact h.properties _ hps _ hmem
  | items hm => exact h.items _ hm
  | extra hm => exact h.extra _ hm
  | @branch operator ns hns hmem =>
      cases operator <;> simp only [branches, reduceCtorEq] at hns
      · exact h.anyOf _ hns _ hmem
      · exact h.allOf _ hns _ hmem
      · exact h.oneOf _ hns _ hmem
      · exact h.noneOf _ hns _ hmem

def Legible (n : Node) : Prop := ∀ m : Node, m.Within n → m.own.Legible

theorem legible_iff {n : Node} : n.Legible ↔ n.own.Legible ∧ Below Legible n := by
  constructor
  · intro h
    have hbelow : Below Legible n := below_of_child fun c hc m hm => h m (.under hm hc)
    exact ⟨h n (.self n), hbelow⟩
  · rintro ⟨hown, hbelow⟩ m hm
    cases hm with
    | self => exact hown
    | under hm hc => exact hbelow.of_child hc m hm

theorem Legible.child {c n : Node} (h : n.Legible) (hc : c.Child n) : c.Legible :=
  (legible_iff.mp h).2.of_child hc

theorem Legible.normalize {n : Node} (h : n.Legible) : n.normalize.Legible := by
  induction n using childInduction with
  | step n ih =>
  refine legible_iff.mpr ⟨?_, below_of_child fun d hd => ?_⟩
  · rw [own_normalize]
    exact (legible_iff.mp h).1.normalize _ _
  · obtain ⟨c, hc, rfl, -⟩ := hd.of_normalize
    exact ih c hc (h.child hc)

structure Readings.Legible (r : Readings) : Prop where
  node : ∀ n, r.node () = .ok n → n.Legible
  nodes : ∀ ns, r.nodes () = .ok ns → ∀ n ∈ ns, n.Legible
  named : ∀ ps, r.named () = .ok ps → ∀ p ∈ ps, p.2.Legible

theorem Readings.Legible.extra {r : Readings} (h : r.Legible) {v : Value} {n : Node}
    (hn : readAdditional v r = .ok (.schema n)) : n.Legible := by
  unfold readAdditional at hn
  split at hn
  · cases hn
  · split at hn
    · next m hm =>
        cases hn
        exact h.node n hm
    · cases hn

theorem Readings.Legible.noneOf {r : Readings} (h : r.Legible) {ns : List Node}
    (hns : readNone r = .ok ns) : ∀ n ∈ ns, n.Legible := by
  unfold readNone at hns
  split at hns
  · next ms hms =>
      cases hns
      exact h.nodes _ hms
  · split at hns
    · next m hm =>
        cases hns
        exact List.forall_mem_singleton.mpr (h.node m hm)
    · cases hns

theorem readField_legible {f : Field} {v : Value} {r : Readings} {n m : Node} (hr : r.Legible)
    (hn : n.Legible) (h : readField f v r n = .ok m) : m.Legible := by
  obtain ⟨hown, hbelow⟩ := legible_iff.mp hn
  rw [legible_iff]
  cases f with
  | default =>
      cases h
      exact ⟨{ hown with }, { hbelow with }⟩
  | minimum =>
      obtain ⟨x, hx, rfl⟩ := ok_of_map h
      exact ⟨{ hown with minimum := ne_null_of_optional hx }, { hbelow with }⟩
  | maximum =>
      obtain ⟨x, hx, rfl⟩ := ok_of_map h
      exact ⟨{ hown with maximum := ne_null_of_optional hx }, { hbelow with }⟩
  | pattern =>
      obtain ⟨x, hx, rfl⟩ := ok_of_map h
      have hpattern (p : Pattern) (hp : x = some p) : Pattern.compile? p.source = some p :=
        compile?_of_readPattern (read_of_optional (hp ▸ hx)).2
      exact ⟨{ hown with pattern := hpattern }, { hbelow with }⟩
  | transform =>
      obtain ⟨x, hx, rfl⟩ := ok_of_map h
      have htransform (d : Directive) (hd : x = some d) : d.BuiltIn :=
        Directive.builtIn_of_ofValue (hd ▸ hx)
      exact ⟨{ hown with transform := htransform }, { hbelow with }⟩
  | properties =>
      obtain ⟨x, hx, rfl⟩ := ok_of_map h
      have hnamed (ps : List (String × Node)) (hps : x = some ps) : ∀ p ∈ ps, p.2.Legible :=
        hr.named ps (read_of_optional (hps ▸ hx)).2
      exact ⟨hown, { hbelow with properties := hnamed }⟩
  | items =>
      obtain ⟨x, hx, rfl⟩ := ok_of_map h
      have hitems (c : Node) (hc : x = some c) : c.Legible :=
        hr.node c (read_of_optional (hc ▸ hx)).2
      exact ⟨hown, { hbelow with items := hitems }⟩
  | additionalProperties =>
      obtain ⟨x, hx, rfl⟩ := ok_of_map h
      have hextra (c : Node) (hc : x = some (.schema c)) : c.Legible :=
        hr.extra (read_of_optional (hc ▸ hx)).2
      exact ⟨hown, { hbelow with extra := hextra }⟩
  | anyOf =>
      obtain ⟨x, hx, rfl⟩ := ok_of_map h
      have hnodes (ns : List Node) (hns : x = some ns) : ∀ c ∈ ns, c.Legible :=
        hr.nodes ns (read_of_optional (hns ▸ hx)).2
      exact ⟨hown, { hbelow with anyOf := hnodes }⟩
  | allOf =>
      obtain ⟨x, hx, rfl⟩ := ok_of_map h
      have hnodes (ns : List Node) (hns : x = some ns) : ∀ c ∈ ns, c.Legible :=
        hr.nodes ns (read_of_optional (hns ▸ hx)).2
      exact ⟨hown, { hbelow with allOf := hnodes }⟩
  | oneOf =>
      obtain ⟨x, hx, rfl⟩ := ok_of_map h
      have hnodes (ns : List Node) (hns : x = some ns) : ∀ c ∈ ns, c.Legible :=
        hr.nodes ns (read_of_optional (hns ▸ hx)).2
      exact ⟨hown, { hbelow with oneOf := hnodes }⟩
  | not =>
      obtain ⟨x, hx, rfl⟩ := ok_of_map h
      have hnodes (ns : List Node) (hns : some x = some ns) : ∀ c ∈ ns, c.Legible :=
        hr.noneOf (Option.some.inj hns ▸ hx)
      exact ⟨hown, { hbelow with noneOf := hnodes }⟩
  | _ =>
      obtain ⟨x, -, rfl⟩ := ok_of_map h
      exact ⟨{ hown with }, { hbelow with }⟩

def readings (v : Value) : Readings :=
  ⟨fun _ => ofValue v, fun _ => allOfValue v, fun _ => namedOfValue v⟩

theorem legible_empty : empty.Legible :=
  legible_iff.mpr
    ⟨Keywords.legible_none, ⟨nofun, nofun, nofun, nofun, nofun, nofun, nofun⟩⟩

theorem ofFields_legible {fs : List (String × Value)} {n m : Node}
    (hfs : ∀ p ∈ fs, (readings p.2).Legible) (hn : n.Legible) (h : ofFields fs n = .ok m) :
    m.Legible := by
  induction fs generalizing n with
  | nil =>
      cases h
      exact hn
  | cons p fs ih =>
      obtain ⟨name, v⟩ := p
      obtain ⟨hv, hrest⟩ := List.forall_mem_cons.mp hfs
      rw [ofFields] at h
      split at h
      · exact ih hrest hn h
      · obtain ⟨k, hk, h⟩ := ok_of_bind h
        exact ih hrest (readField_legible hv hn hk) h

theorem ofSlots_legible {count : Nat} {vs : List Value} {fs : List Field} {n m : Node}
    (hvs : ∀ v ∈ vs, (readings v).Legible) (hn : n.Legible)
    (h : ofSlots count vs fs n = .ok m) : m.Legible := by
  induction vs generalizing fs n with
  | nil =>
      cases h
      exact hn
  | cons v vs ih =>
      obtain ⟨hv, hrest⟩ := List.forall_mem_cons.mp hvs
      cases fs with
      | nil => cases h
      | cons f fs =>
          obtain ⟨k, hk, h⟩ := ok_of_bind h
          exact ih hrest (readField_legible hv hn hk) h

theorem ofValues_legible {vs : List Value} {ns : List Node}
    (hvs : ∀ v ∈ vs, (readings v).Legible) (h : ofValues vs = .ok ns) :
    ∀ n ∈ ns, n.Legible := by
  induction vs generalizing ns with
  | nil =>
      cases h
      exact fun n hn => absurd hn List.not_mem_nil
  | cons v vs ih =>
      obtain ⟨hv, hrest⟩ := List.forall_mem_cons.mp hvs
      obtain ⟨n, hn, h⟩ := ok_of_bind h
      obtain ⟨ms, hms, rfl⟩ := ok_of_map h
      exact List.forall_mem_cons.mpr ⟨hv.node n hn, ih hrest hms⟩

theorem ofEntries_legible {fs : List (String × Value)} {ps : List (String × Node)}
    (hfs : ∀ p ∈ fs, (readings p.2).Legible) (h : ofEntries fs = .ok ps) :
    ∀ p ∈ ps, p.2.Legible := by
  induction fs generalizing ps with
  | nil =>
      cases h
      exact fun p hp => absurd hp List.not_mem_nil
  | cons p fs ih =>
      obtain ⟨hv, hrest⟩ := List.forall_mem_cons.mp hfs
      obtain ⟨n, hn, h⟩ := ok_of_bind h
      obtain ⟨qs, hqs, rfl⟩ := ok_of_map h
      exact List.forall_mem_cons.mpr ⟨hv.node n hn, ih hrest hqs⟩

theorem readings_legible (v : Value) : (readings v).Legible := by
  cases v with
  | array vs =>
      have hvs (w : Value) (hw : w ∈ vs) : (readings w).Legible := by
        have hlt := List.sizeOf_lt_of_mem hw
        exact readings_legible w
      have hnode (n : Node) (h : ofValue (.array vs) = .ok n) : n.Legible :=
        ofSlots_legible hvs legible_empty h
      exact ⟨hnode, fun _ h => ofValues_legible hvs h, nofun⟩
  | object fs =>
      have hfs (p : String × Value) (hp : p ∈ fs) : (readings p.2).Legible := by
        have hlt := List.sizeOf_lt_of_mem hp
        have hvalue : sizeOf p.2 < sizeOf p := by
          rw [Prod.mk.sizeOf_spec]
          omega
        exact readings_legible p.2
      have hnode (n : Node) (h : ofValue (.object fs) = .ok n) : n.Legible :=
        ofFields_legible hfs legible_empty h
      exact ⟨hnode, nofun, fun _ h => ofEntries_legible hfs h⟩
  | _ => exact ⟨nofun, nofun, nofun⟩
termination_by sizeOf v
decreasing_by all_goals simp only [Value.array.sizeOf_spec, Value.object.sizeOf_spec]; omega

theorem legible_of_ofValue {v : Value} {n : Node} (h : ofValue v = .ok n) : n.Legible :=
  (readings_legible v).node n h

def written (n : Node) : Field → Option Value
  | .type => n.own.kind.map KindSet.toValue
  | .properties => propertiesToValue n.properties
  | .required => n.own.required.map Required.toValue
  | .items => itemsToValue n.items
  | .additionalProperties => additionalToValue n.additional
  | .default => n.own.default
  | .title => n.own.title.map .string
  | .description => n.own.description.map .string
  | .minimum => n.own.minimum
  | .maximum => n.own.maximum
  | .minLength => n.own.minLength.map ofSize
  | .maxLength => n.own.maxLength.map ofSize
  | .minItems => n.own.minItems.map ofSize
  | .maxItems => n.own.maxItems.map ofSize
  | .uniqueItems => if n.own.uniqueItems then some (.bool true) else none
  | .pattern => n.own.pattern.map (.string ·.source)
  | .enum => n.own.members.map .array
  | .anyOf => branchesToValue n.anyOf
  | .allOf => branchesToValue n.allOf
  | .oneOf => branchesToValue n.oneOf
  | .not => branchesToValue n.noneOf
  | .transform => n.own.transform.map Directive.toValue

theorem toValue_eq (n : Node) :
    n.toValue = .object (Field.all.flatMap fun f => entry f (n.written f)) := by
  obtain ⟨own, properties, items, additional, anyOf, allOf, oneOf, noneOf⟩ := n
  simp only [toValue, Field.all, List.flatMap_cons, List.flatMap_nil, List.append_assoc,
    List.append_nil, written]

def give (n m : Node) : Field → Node
  | .type => { m with own.kind := n.own.kind <|> m.own.kind }
  | .properties => { m with properties := n.properties <|> m.properties }
  | .required => { m with own.required := n.own.required <|> m.own.required }
  | .items => { m with items := n.items <|> m.items }
  | .additionalProperties => { m with additional := n.additional <|> m.additional }
  | .default => { m with own.default := n.own.default <|> m.own.default }
  | .title => { m with own.title := n.own.title <|> m.own.title }
  | .description => { m with own.description := n.own.description <|> m.own.description }
  | .minimum => { m with own.minimum := n.own.minimum <|> m.own.minimum }
  | .maximum => { m with own.maximum := n.own.maximum <|> m.own.maximum }
  | .minLength => { m with own.minLength := n.own.minLength <|> m.own.minLength }
  | .maxLength => { m with own.maxLength := n.own.maxLength <|> m.own.maxLength }
  | .minItems => { m with own.minItems := n.own.minItems <|> m.own.minItems }
  | .maxItems => { m with own.maxItems := n.own.maxItems <|> m.own.maxItems }
  | .uniqueItems => { m with own.uniqueItems := n.own.uniqueItems || m.own.uniqueItems }
  | .pattern => { m with own.pattern := n.own.pattern <|> m.own.pattern }
  | .enum => { m with own.members := n.own.members <|> m.own.members }
  | .anyOf => { m with anyOf := n.anyOf <|> m.anyOf }
  | .allOf => { m with allOf := n.allOf <|> m.allOf }
  | .oneOf => { m with oneOf := n.oneOf <|> m.oneOf }
  | .not => { m with noneOf := n.noneOf <|> m.noneOf }
  | .transform => { m with own.transform := n.own.transform <|> m.own.transform }

theorem give_all (n : Node) : Field.all.foldl n.give empty = n := by
  obtain ⟨⟨_, _, _, _, _, _, _, _, _, _, _, _, _, _, _⟩, _, _, _, _, _, _, _⟩ := n
  simp [Field.all, give, empty, Keywords.none]

theorem itemsToValue_eq (x : Option Node) : itemsToValue x = x.map toValue := by
  cases x <;> rfl

theorem branchesToValue_eq (x : Option (List Node)) :
    branchesToValue x = x.map fun ns => .array (allToValues ns) := by
  cases x <;> rfl

theorem propertiesToValue_eq (x : Option (List (String × Node))) :
    propertiesToValue x = x.map fun ps => .object (namedToValues ps) := by
  cases x <;> rfl

theorem additionalToValue_eq_none {x : Option (Additional Node)} :
    additionalToValue x = none ↔ x = none := by
  rcases x with _ | _ | _ <;> simp [additionalToValue]

theorem give_of_not_written {n : Node} {f : Field} (h : n.written f = none) (m : Node) :
    n.give m f = m := by
  obtain ⟨own, properties, items, additional, anyOf, allOf, oneOf, noneOf⟩ := m
  cases f <;> simp only [written, propertiesToValue_eq, itemsToValue_eq, branchesToValue_eq,
    additionalToValue_eq_none, Option.map_eq_none_iff, ite_eq_right_iff, reduceCtorEq, imp_false,
    Bool.not_eq_true] at h <;> rw [give, h] <;> rfl

def Returns (n : Node) : Prop := ofValue n.toValue = .ok n

theorem toValue_ne_null (n : Node) : n.toValue ≠ .null := by
  rw [toValue_eq]
  exact nofun

theorem ofValues_allToValues {ns : List Node} (h : ∀ n ∈ ns, n.Returns) :
    ofValues (allToValues ns) = .ok ns := by
  induction ns with
  | nil => rfl
  | cons n ns ih =>
      obtain ⟨hn, hns⟩ := List.forall_mem_cons.mp h
      rw [Returns] at hn
      rw [allToValues, ofValues, hn, ih hns]
      rfl

theorem ofEntries_namedToValues {ps : List (String × Node)} (h : ∀ p ∈ ps, p.2.Returns) :
    ofEntries (namedToValues ps) = .ok ps := by
  induction ps with
  | nil => rfl
  | cons p ps ih =>
      obtain ⟨name, n⟩ := p
      obtain ⟨hn, hps⟩ := List.forall_mem_cons.mp h
      have hn : ofValue n.toValue = .ok n := hn
      rw [namedToValues, ofEntries, hn, ih hps]
      rfl

theorem readAdditional_toValue {n : Node} (h : n.Returns) :
    readAdditional n.toValue (readings n.toValue) = .ok (.schema n) := by
  have hnode : (readings n.toValue).node () = .ok n := h
  unfold readAdditional
  split
  · next b hb =>
      rw [toValue_eq] at hb
      cases hb
  · rw [hnode]

theorem optional_of_written {α : Type} {x : Option α} {write : α → Value} {v : Value}
    (read : Value → Read α) (hv : x.map write = some v)
    (hread : ∀ a, x = some a → v = write a → v ≠ .null ∧ read v = .ok a) :
    ∃ a, x = some a ∧ optional read v = .ok (some a) := by
  obtain ⟨a, ha, hwrite⟩ := Option.map_eq_some_iff.mp hv
  obtain ⟨hne, hok⟩ := hread a ha hwrite.symm
  exact ⟨a, ha, optional_of_read hne hok⟩

theorem optional_nodes_of_written {x : Option (List Node)} {v : Value}
    (hx : ∀ ns, x = some ns → ∀ c ∈ ns, c.Returns) (hv : branchesToValue x = some v) :
    ∃ ns, x = some ns ∧ optional (fun _ => (readings v).nodes ()) v = .ok (some ns) := by
  rw [branchesToValue_eq] at hv
  refine optional_of_written _ hv fun ns hns hs => ?_
  have hread : allOfValue v = .ok ns := hs ▸ ofValues_allToValues (hx ns hns)
  exact ⟨by simp [hs], hread⟩

theorem optional_additional_of_written {x : Option (Additional Node)} {v : Value}
    (hx : ∀ c, x = some (.schema c) → c.Returns) (hv : additionalToValue x = some v) :
    ∃ a, x = some a ∧ optional (readAdditional · (readings v)) v = .ok (some a) := by
  rcases x with _ | b | c
  · cases hv
  · obtain rfl := Option.some.inj hv
    exact ⟨.allowed b, rfl, rfl⟩
  · obtain rfl := Option.some.inj hv
    exact ⟨.schema c, rfl, optional_of_read c.toValue_ne_null (readAdditional_toValue (hx c rfl))⟩

theorem readNone_of_written {x : Option (List Node)} {v : Value}
    (hx : ∀ ns, x = some ns → ∀ c ∈ ns, c.Returns) (hv : branchesToValue x = some v) :
    ∃ ns, x = some ns ∧ readNone (readings v) = .ok ns := by
  rw [branchesToValue_eq] at hv
  obtain ⟨ns, hns, rfl⟩ := Option.map_eq_some_iff.mp hv
  have hnodes : (readings (.array (allToValues ns))).nodes () = .ok ns :=
    ofValues_allToValues (hx ns hns)
  refine ⟨ns, hns, ?_⟩
  rw [readNone, hnodes]

theorem readField_written {n : Node} {f : Field} {v : Value} (hn : n.own.Legible)
    (hbelow : Below Returns n) (hv : n.written f = some v) (m : Node) :
    readField f v (readings v) m = .ok (n.give m f) := by
  cases f with
  | type =>
      obtain ⟨s, hs, h⟩ := optional_of_written KindSet.ofValue hv fun s _ hs =>
        ⟨by cases s <;> simp [hs, KindSet.toValue], hs ▸ s.ofValue_toValue⟩
      rw [readField, h, give, hs]
      rfl
  | required =>
      obtain ⟨r, hr, h⟩ := optional_of_written Required.ofValue hv fun r _ hr =>
        ⟨by cases r <;> simp [hr, Required.toValue], hr ▸ r.ofValue_toValue⟩
      rw [readField, h, give, hr]
      rfl
  | default =>
      have hdefault : n.own.default = some v := hv
      rw [readField, give, hdefault]
      rfl
  | title | description =>
      obtain ⟨s, hs, h⟩ := optional_of_written readString hv fun s _ hs =>
        ⟨by simp [hs], by rw [hs, readString]⟩
      rw [readField, h, give, hs]
      rfl
  | minimum =>
      have hmin : n.own.minimum = some v := hv
      rw [readField, optional_of_bound hn.minimum hmin, give, hmin]
      rfl
  | maximum =>
      have hmax : n.own.maximum = some v := hv
      rw [readField, optional_of_bound hn.maximum hmax, give, hmax]
      rfl
  | minLength | maxLength | minItems | maxItems =>
      obtain ⟨size, hsize, h⟩ := optional_of_written readSize hv fun size _ hs =>
        ⟨by simp [hs, ofSize, Value.int], hs ▸ readSize_ofSize size⟩
      rw [readField, h, give, hsize]
      rfl
  | uniqueItems =>
      obtain ⟨hunique, hv⟩ := Option.ite_none_right_eq_some.mp hv
      obtain rfl := Option.some.inj hv
      rw [readField, give, hunique]
      rfl
  | pattern =>
      obtain ⟨p, hp, h⟩ := optional_of_written readPattern hv fun p hp hs =>
        ⟨by simp [hs], hs ▸ readPattern_source (hn.pattern p hp)⟩
      rw [readField, h, give, hp]
      rfl
  | enum =>
      obtain ⟨vs, hvs, h⟩ := optional_of_written readValues hv fun vs _ hs =>
        ⟨by simp [hs], by rw [hs, readValues]⟩
      rw [readField, h, give, hvs]
      rfl
  | transform =>
      obtain ⟨d, hd, rfl⟩ := Option.map_eq_some_iff.mp hv
      rw [readField, Directive.ofValue_toValue (hn.transform d hd), give, hd]
      rfl
  | properties =>
      rw [written, propertiesToValue_eq] at hv
      obtain ⟨ps, hps, h⟩ := optional_of_written (fun _ => (readings v).named ()) hv
        fun ps hps hs => by
          have hread : namedOfValue v = .ok ps :=
            hs ▸ ofEntries_namedToValues (hbelow.properties ps hps)
          exact ⟨by simp [hs], hread⟩
      rw [readField, h, give, hps]
      rfl
  | items =>
      rw [written, itemsToValue_eq] at hv
      obtain ⟨c, hc, h⟩ := optional_of_written (fun _ => (readings v).node ()) hv
        fun c hc hs => by
          have hread : ofValue v = .ok c := hs ▸ hbelow.items c hc
          exact ⟨hs ▸ c.toValue_ne_null, hread⟩
      rw [readField, h, give, hc]
      rfl
  | additionalProperties =>
      obtain ⟨a, ha, h⟩ := optional_additional_of_written hbelow.extra hv
      rw [readField, h, give, ha]
      rfl
  | anyOf =>
      obtain ⟨ns, hns, h⟩ := optional_nodes_of_written hbelow.anyOf hv
      rw [readField, h, give, hns]
      rfl
  | allOf =>
      obtain ⟨ns, hns, h⟩ := optional_nodes_of_written hbelow.allOf hv
      rw [readField, h, give, hns]
      rfl
  | oneOf =>
      obtain ⟨ns, hns, h⟩ := optional_nodes_of_written hbelow.oneOf hv
      rw [readField, h, give, hns]
      rfl
  | not =>
      obtain ⟨ns, hns, h⟩ := readNone_of_written hbelow.noneOf hv
      rw [readField, h, give, hns]
      rfl

theorem ofFields_written {n : Node} (hn : n.own.Legible) (hbelow : Below Returns n)
    (fs : List Field) (m : Node) :
    ofFields (fs.flatMap fun f => entry f (n.written f)) m = .ok (fs.foldl n.give m) := by
  induction fs generalizing m with
  | nil => rfl
  | cons f fs ih =>
      rw [List.flatMap_cons, List.foldl_cons]
      cases hv : n.written f with
      | none =>
          rw [give_of_not_written hv]
          exact ih m
      | some v =>
          have hread : readField f v ⟨fun _ => ofValue v, fun _ => allOfValue v,
              fun _ => namedOfValue v⟩ m = .ok (n.give m f) := readField_written hn hbelow hv m
          rw [entry, List.singleton_append, ofFields, Field.ofName?_name]
          simp only [hread, Except.bind]
          exact ih _

theorem Legible.returns {n : Node} (h : n.Legible) : n.Returns := by
  induction n using childInduction with
  | step n ih =>
  have hbelow : Below Returns n := below_of_child fun c hc => ih c hc (h.child hc)
  have hfields := ofFields_written (legible_iff.mp h).1 hbelow Field.all empty
  rw [Returns, toValue_eq, ofValue, hfields, give_all]

theorem reads_back {v : Value} {n : Node} (h : ofValue v = .ok n) :
    ofValue n.toValue = .ok n
    ∧ ∃ m, ofValue n.normalize.toValue = .ok m ∧ m = n.normalize ∧ m.normalize = m := by
  have hn := legible_of_ofValue h
  exact ⟨hn.returns, n.normalize, hn.normalize.returns, rfl, n.normalize_normalize⟩

theorem reads_back_forms :
    let v : Value := .object
      [("properties", .object [("port", .array [.string "integer", .null, .bool true])]),
        ("not", .object [("type", .object [("null", .null)])]), ("transform", .bool false),
        ("default", .null), ("vendor", .string "x")]
    ∃ n, ofValue v = .ok n ∧ n.noneOf.isSome = true ∧ n.own.transform.isNone = true
      ∧ ofValue n.toValue = .ok n
      ∧ ∃ m, ofValue n.normalize.toValue = .ok m ∧ m = n.normalize ∧ m.normalize = m := by
  intro v
  have h : ofValue v = .ok _ := rfl
  exact ⟨_, h, rfl, rfl, reads_back h⟩

end Node

end CheckedConfig
