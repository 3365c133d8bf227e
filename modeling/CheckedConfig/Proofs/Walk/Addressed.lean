import CheckedConfig.Proofs.Addresses
import CheckedConfig.Proofs.Coercion
import CheckedConfig.Proofs.Walk.Descent
import CheckedConfig.Proofs.Walk.Kept

namespace CheckedConfig

inductive Value.Keyed : Value → Prop where
  | scalar {v : Value} : v.isContainer = false → Keyed v
  | array {vs : List Value} : (∀ v ∈ vs, Keyed v) → Keyed (.array vs)
  | object {fs : Fields Value} :
      (∀ p ∈ fs, IsSegment p.1) → (∀ p ∈ fs, Keyed p.2) → Keyed (.object fs)

def Fields.Keyed (fs : Fields Value) : Prop := ∀ p ∈ fs, IsSegment p.1 ∧ p.2.Keyed

namespace Value.Keyed

theorem null : Value.null.Keyed := .scalar rfl

theorem of_fields {fs : Fields Value} (h : Fields.Keyed fs) : (Value.object fs).Keyed :=
  .object (fun p hp => (h p hp).1) fun p hp => (h p hp).2

theorem fields {fs : Fields Value} (h : (Value.object fs).Keyed) : Fields.Keyed fs := by
  cases h with
  | scalar hno => cases hno
  | object hkeys hvalues => exact fun p hp => ⟨hkeys p hp, hvalues p hp⟩

theorem items {vs : List Value} (h : (Value.array vs).Keyed) : ∀ v ∈ vs, v.Keyed := by
  cases h with
  | scalar hno => cases hno
  | array hvs => exact hvs

theorem getD {o : Option Value} (h : ∀ v ∈ o, v.Keyed) : (o.getD .null).Keyed := by
  cases o with
  | none => exact null
  | some v => exact h v rfl

end Value.Keyed

namespace Fields.Keyed

variable {fs : Fields Value}

theorem get? (h : Keyed fs) {name : String} : ∀ v ∈ Fields.get? fs name, v.Keyed :=
  fun _ hv => (h _ (Fields.mem_of_get? hv)).2

theorem putBack (h : Keyed fs) {name : String} {o : Option Value} (hname : IsSegment name)
    (ho : ∀ v ∈ o, v.Keyed) : Keyed (Fields.putBack fs name o) := by
  intro p hp
  rcases Fields.mem_putBack hp with hp | rfl
  · exact h p hp
  · exact ⟨hname, .getD ho⟩

end Fields.Keyed

structure Node.Addressable (n : Node) : Prop where
  names : ∀ ps, n.properties = some ps → ∀ name ∈ Fields.keys ps, IsSegment name
  default : ∀ v, n.own.default = some v → v.Keyed
  transform : ∀ d, n.own.transform = some d → d.BuiltIn

theorem Keywords.keyed_of_settle {own : Keywords} {v w : Value}
    (hd : ∀ d, own.transform = some d → d.BuiltIn) (hv : v.Keyed) (h : own.settle v = .ok w) :
    w.Keyed := by
  obtain ⟨-, rfl | ⟨d, htransform, hw⟩⟩ := kept_or_made_of_settle h
  · exact hv
  · obtain ⟨t, ht, hrun⟩ := Directive.replaced_of_apply (hd d htransform) hw
    rcases Transformer.replacement_of_builtin ht hrun with hscalar | rfl
    · exact .scalar hscalar
    · exact .array (List.forall_mem_singleton.mpr hv)

def Interceptor.NeverReplaces (chain : List Interceptor) : Prop :=
  ∀ i ∈ chain, ∀ v place w, i.intercept v place = .ok w → w = none

theorem Interceptor.NeverReplaces.run {chain : List Interceptor} (h : NeverReplaces chain)
    {place : Place} {v w : Option Value} (hw : (run place chain v).2 = .ok w) : w = v := by
  induction chain with
  | nil => exact (Except.ok.inj hw).symm
  | cons i chain ih =>
      rw [Interceptor.run] at hw
      split at hw
      · cases hw
      · next replaced hi =>
          obtain rfl := h i (List.mem_cons_self ..) v place _ hi
          have hrest : NeverReplaces chain := fun j hj => h j (List.mem_cons_of_mem _ hj)
          exact ih hrest hw

namespace Node

variable {n : Node} {here : Location}

def StandsAt (root n : Node) (here : Location) : Prop :=
  ∃ segments, here.schemaPath = Location.address segments ∧ Leads root segments n

namespace StandsAt

variable {root c : Node}

theorem self (n : Node) : StandsAt n n Location.root := ⟨[], Location.address_nil.symm, .root⟩

theorem property (h : StandsAt root n here) {name : String} (hname : IsSegment name)
    (hc : n.declared? name = some c) : StandsAt root c (here.property name "properties") := by
  obtain ⟨segments, hpath, hleads⟩ := h
  refine ⟨_, ?_, hleads.property hc hname⟩
  rw [Location.address_append_two, ← hpath, Location.property]

theorem extra (h : StandsAt root n here) {name : String} (hname : IsSegment name)
    (hc : n.extra? = some c) : StandsAt root c (here.property name "additionalProperties") := by
  obtain ⟨segments, hpath, hleads⟩ := h
  refine ⟨_, ?_, hleads.extra hc hname⟩
  rw [Location.address_append_two, ← hpath, Location.property]

theorem index (h : StandsAt root n here) (i : Nat) (hc : n.items = some c) :
    StandsAt root c (here.index i) := by
  obtain ⟨segments, hpath, hleads⟩ := h
  refine ⟨_, ?_, hleads.items hc⟩
  have hitems : "/items" = "/" ++ "items" := by decide
  rw [Location.address_append_one, ← hpath, Location.index, hitems]
  exact (String.append_assoc ..).symm

theorem branch (h : StandsAt root n here) {operator : Keyword} {ns : List Node} {i : Nat}
    (hns : n.branches operator = some ns) (hc : ns[i]? = some c) :
    StandsAt root c (here.branch operator i) := by
  obtain ⟨segments, hpath, hleads⟩ := h
  refine ⟨_, ?_, hleads.branch hns hc⟩
  rw [Location.address_append_two, ← hpath, Location.branch]

theorem resolves (h : StandsAt root n here) :
    root.resolve? here.schemaPath = some ⟨n, here.schemaPath⟩ := by
  obtain ⟨segments, hpath, hleads⟩ := h
  rw [hpath]
  exact hleads.resolves

end StandsAt

end Node

def Visit.Resolves (root : Node) (x : Visit) : Prop :=
  root.resolve? x.place.schemaPath = some ⟨x.place.schema, x.place.schemaPath⟩

def Violation.Resolves (root : Node) (u : Violation) : Prop :=
  ∃ path, u.schemaPath = path ++ "/" ++ u.keyword.name
    ∧ root.resolve? path = some ⟨u.schema, path⟩

def Violation.AllResolve (root : Node) (u : Violation) : Prop :=
  u.Resolves root ∧ ∀ r ∈ u.reasons, r.Resolves root

namespace Node

variable {root n : Node} {here : Location} {strict : Bool}

theorem StandsAt.resolves_of_reports (h : StandsAt root n here) {u : Violation}
    (hu : n.Reports here u) : u.Resolves root := by
  refine ⟨here.schemaPath, hu.schemaPath, ?_⟩
  rw [hu.schema]
  exact h.resolves

theorem StandsAt.resolves_of_notes (h : StandsAt root n here) {u : Violation}
    (hu : n.Notes here u) : u.AllResolve root := by
  refine ⟨h.resolves_of_reports hu.reports, ?_⟩
  obtain ⟨keyword, message, rfl⟩ := hu
  exact fun r hr => absurd hr List.not_mem_nil

theorem StandsAt.resolves_of_wrongKind (h : StandsAt root n here) (why : String)
    (rs : List Refusal) : (n.wrongKind here why rs).AllResolve root := by
  refine ⟨h.resolves_of_reports (reports_wrongKind n here why rs), fun r hr => ?_⟩
  obtain ⟨refusal, -, rfl⟩ := List.mem_map.mp hr
  exact h.resolves_of_reports ⟨rfl, rfl, rfl⟩

variable {chain : List Interceptor}

def Addressed (n root : Node) (chain : List Interceptor) : Prop :=
  ∀ strict origin here, StandsAt root n here → (∀ v ∈ origin, v.Keyed) →
    (n.walk chain strict origin here).Keeps (Visit.Resolves root) (Violation.AllResolve root)
      fun o => ∀ w ∈ o, w.Keyed

theorem keeps_enter (hchain : Interceptor.NeverReplaces chain) (hn : n.Addressable)
    (hstands : StandsAt root n here) {origin : Option Value} (horigin : ∀ v ∈ origin, v.Keyed) :
    (enter chain n origin here).Keeps (Visit.Resolves root) (Violation.AllResolve root)
      fun o => ∀ w ∈ o, w.Keyed := by
  have hgiven : ∀ v ∈ origin <|> n.own.default, v.Keyed := by
    cases origin with
    | none => exact hn.default
    | some v => exact horigin
  unfold enter
  split
  · exact .pure hgiven
  · constructor
    · exact List.forall_mem_singleton.mpr hstands.resolves
    · exact fun _ hu => absurd hu List.not_mem_nil
    · intro o ho
      rw [hchain.run ho]
      exact hgiven

theorem keeps_walkNamed {ps : List (String × Node)} (hchildren : ∀ p ∈ ps, p.2.Addressed root chain)
    (hstands : ∀ p ∈ ps, IsSegment p.1 ∧ StandsAt root p.2 (here.property p.1 "properties"))
    {fs : Fields Value} (hfs : Fields.Keyed fs) :
    (walkNamed chain ps strict fs here).Keeps (Visit.Resolves root) (Violation.AllResolve root)
      Fields.Keyed := by
  induction ps generalizing fs with
  | nil => exact .pure hfs
  | cons p ps ih =>
      obtain ⟨name, c⟩ := p
      obtain ⟨hc, hchildren⟩ := List.forall_mem_cons.mp hchildren
      obtain ⟨⟨hname, hplace⟩, hstands⟩ := List.forall_mem_cons.mp hstands
      refine (hc strict _ _ hplace hfs.get?).bind fun o ho => ?_
      exact ih hchildren hstands (hfs.putBack hname ho)

theorem keeps_walkProperties (hnormal : n.normalize = n) (hn : n.Addressable)
    (hchildren : ∀ c : Node, c.Child n → c.Addressed root chain) (hstands : StandsAt root n here)
    {fs : Fields Value} (hfs : Fields.Keyed fs) :
    (walkProperties chain n.properties strict fs here).Keeps (Visit.Resolves root)
      (Violation.AllResolve root) Fields.Keyed := by
  cases hps : n.properties with
  | none => exact .pure hfs
  | some ps =>
      refine keeps_walkNamed (fun p hp => hchildren p.2 (.property hps hp)) (fun p hp => ?_) hfs
      have hname : IsSegment p.1 := hn.names ps hps p.1 (Fields.mem_keys hp)
      exact ⟨hname, hstands.property hname (declared?_of_mem hnormal hps hp)⟩

theorem keeps_walkAdditional (hchildren : ∀ c : Node, c.Child n → c.Addressed root chain)
    (hstands : StandsAt root n here) {fs : Fields Value} (hfs : Fields.Keyed fs) :
    (walkAdditional chain n.additional n strict fs here).Keeps (Visit.Resolves root)
      (Violation.AllResolve root) Fields.Keyed := by
  cases hm : n.additional with
  | none => exact .pure hfs
  | some extra =>
      cases extra with
      | schema c =>
          have hextra : n.extra? = some c := by rw [extra?, hm]
          refine Walk.Keeps.fieldsWhere (Q := fun name v => IsSegment name ∧ v.Keyed)
            (fun p hp _ => hfs p hp) fun p hp _ => ?_
          obtain ⟨hname, hv⟩ := hfs p hp
          have horigin : ∀ w ∈ some p.2, w.Keyed := fun w hw => Option.some.inj hw ▸ hv
          have hwalk := hchildren c (.extra hm) strict _ _ (hstands.extra hname hextra) horigin
          exact hwalk.mono (fun _ => id) (fun _ => id) fun _ ho => ⟨hname, .getD ho⟩
      | allowed b =>
          cases b with
          | true => exact .pure hfs
          | false =>
              have hsaid : ∀ u ∈ n.undeclared here fs, u.AllResolve root :=
                fun u hu => hstands.resolves_of_notes (notes_of_mem_undeclared hu)
              exact (Walk.Keeps.emit hsaid).bind fun _ _ => .pure hfs

theorem keeps_walkItems (hchildren : ∀ c : Node, c.Child n → c.Addressed root chain)
    (hstands : StandsAt root n here) {vs : List Value} (hvs : ∀ v ∈ vs, v.Keyed) :
    (walkItems chain n.items strict vs here).Keeps (Visit.Resolves root)
      (Violation.AllResolve root) fun us => ∀ v ∈ us, v.Keyed := by
  cases hm : n.items with
  | none => exact .pure hvs
  | some c =>
      refine Walk.Keeps.itemsFrom fun i v hv => ?_
      have horigin : ∀ w ∈ some v, w.Keyed :=
        fun w hw => Option.some.inj hw ▸ hvs v (List.mem_of_getElem? hv)
      have hwalk := hchildren c (.items hm) strict _ _ (hstands.index (0 + i) hm) horigin
      exact hwalk.mono (fun _ => id) (fun _ => id) fun _ => .getD

theorem keeps_trials (hchildren : ∀ c : Node, c.Child n → c.Addressed root chain)
    (hstands : StandsAt root n here) (operator : Keyword) {w : Value} (hw : w.Keyed) :
    ∀ t ∈ trials chain (n.branches operator) operator w here,
      t.Keeps (Visit.Resolves root) (Violation.AllResolve root) fun _ => True := by
  intro t ht
  cases hns : n.branches operator with
  | none =>
      rw [hns] at ht
      exact absurd ht List.not_mem_nil
  | some ns =>
      rw [hns] at ht
      obtain ⟨i, c, hc, rfl⟩ := mem_trialsFrom ht
      rw [Nat.zero_add]
      have horigin : ∀ v ∈ some w, v.Keyed := fun v hv => Option.some.inj hv ▸ hw
      have hchild : c.Child n := .branch hns (List.mem_of_getElem? hc)
      exact (hchildren c hchild false _ _ (hstands.branch hns hc) horigin).passes

theorem keeps_walkContents (hnormal : n.normalize = n) (hn : n.Addressable)
    (hchildren : ∀ c : Node, c.Child n → c.Addressed root chain) (hstands : StandsAt root n here)
    {w : Value} (hw : w.Keyed) :
    (n.walkContents chain strict here w).Keeps (Visit.Resolves root) (Violation.AllResolve root)
      Value.Keyed := by
  have hsaid {u : Violation} (hu : n.Notes here u) : u.AllResolve root :=
    hstands.resolves_of_notes hu
  cases w with
  | object fs =>
      have hfs : Fields.Keyed fs := hw.fields
      refine (Walk.Keeps.emit fun u hu => hsaid (notes_of_mem_missingNames hu)).bind fun _ _ => ?_
      refine (keeps_walkProperties hnormal hn hchildren hstands hfs).bind fun gs hgs => ?_
      exact (keeps_walkAdditional hchildren hstands hgs).bind fun hs hhs =>
        .pure (Value.Keyed.of_fields hhs)
  | array vs =>
      refine (keeps_walkItems hchildren hstands hw.items).bind fun us hus => ?_
      refine (Walk.Keeps.emit fun u hu => hsaid (notes_of_mem_tooFewItems hu)).bind fun _ _ => ?_
      refine (Walk.Keeps.emit fun u hu => hsaid (notes_of_mem_tooManyItems hu)).bind fun _ _ => ?_
      exact (Walk.Keeps.emit fun u hu => hsaid (notes_of_mem_repeatedItems hu)).bind fun _ _ =>
        .pure (.array hus)
  | _ =>
      exact (Walk.Keeps.emit fun u hu => hsaid (notes_of_mem_scalarViolations hu)).bind fun _ _ =>
        .pure hw

theorem keeps_walkBranches (hchildren : ∀ c : Node, c.Child n → c.Addressed root chain)
    (hstands : StandsAt root n here) {w : Value} (hw : w.Keyed) :
    (n.walkBranches chain strict here w).Keeps (Visit.Resolves root) (Violation.AllResolve root)
      fun _ => True :=
  keeps_matchBranches (fun operator _ message => hstands.resolves_of_notes ⟨operator, message, rfl⟩)
    (keeps_trials hchildren hstands .anyOf hw) (keeps_trials hchildren hstands .not hw)
    (keeps_trials hchildren hstands .allOf hw) (keeps_trials hchildren hstands .oneOf hw)

theorem addressed (hchain : Interceptor.NeverReplaces chain) (hnormal : n.normalize = n)
    (hall : ∀ m : Node, m.Within n → m.Addressable) : n.Addressed root chain := by
  induction n using childInduction with
  | step n ih =>
  have hn : n.Addressable := hall n (.self n)
  have hchildren (c : Node) (hc : c.Child n) : c.Addressed root chain :=
    ih c hc (hc.normal hnormal) fun m hm => hall m (.under hm hc)
  intro strict origin here hstands horigin
  rw [walk_eq]
  refine (keeps_enter hchain hn hstands horigin).bind fun given hgiven => ?_
  cases given with
  | none =>
      refine (Walk.Keeps.emit fun u hu => ?_).bind fun _ _ => .pure nofun
      exact hstands.resolves_of_notes (notes_of_mem_missingValue hu)
  | some v =>
      have hv : v.Keyed := hgiven v rfl
      cases hsettle : n.own.settle v with
      | error e =>
          simp only [hsettle]
          refine (Walk.Keeps.emit fun u hu => ?_).bind fun _ _ => .pure hgiven
          rw [List.mem_singleton.mp hu]
          exact hstands.resolves_of_wrongKind e.1 e.2
      | ok w =>
          simp only [hsettle]
          have hw : w.Keyed := Keywords.keyed_of_settle hn.transform hv hsettle
          refine (keeps_walkContents hnormal hn hchildren hstands hw).bind fun u hu => ?_
          refine (keeps_walkBranches hchildren hstands hu).bind fun _ _ => .pure fun x hx => ?_
          exact Option.some.inj hx ▸ hu

end Node

theorem Schema.walk_addressed (s : Schema) {chain : List Interceptor} (strict : Bool)
    {v : Option Value} (hchain : Interceptor.NeverReplaces chain)
    (hschema : ∀ n : Node, n.Within s.root → n.Addressable) (hv : ∀ w, v = some w → w.Keyed) :
    (∀ x ∈ (s.walk chain strict v).visits,
      s.root.resolve? x.place.schemaPath = some ⟨x.place.schema, x.place.schemaPath⟩)
    ∧ ∀ u ∈ (s.walk chain strict v).violations,
      u.Resolves s.root ∧ ∀ r ∈ u.reasons, r.Resolves s.root := by
  have hwalk := Node.addressed hchain s.normal hschema strict v Location.root
    (Node.StandsAt.self s.root) hv
  exact ⟨hwalk.visits, hwalk.violations⟩

theorem Schema.walk_addressed_branch :
    let leaf : Node := .ofKind .integer
    let root : Node :=
      { Node.ofKind .object with
        properties := some [("port", leaf)], additional := some (.schema leaf), anyOf := some [leaf] }
    let s : Schema := ⟨root, rfl⟩
    let chain : List Interceptor := [⟨"watch", true, fun _ _ => .ok none⟩]
    let w := s.walk chain false (some (.object [("port", .string "x"), ("spare", .int 1)]))
    w.visits.map (·.place.schemaPath)
        = ["#", "#/properties/port", "#/additionalProperties/spare", "#/anyOf/0"]
      ∧ w.violations.map (·.schemaPath) = ["#/properties/port/type", "#/anyOf"]
      ∧ (∀ x ∈ w.visits,
        s.root.resolve? x.place.schemaPath = some ⟨x.place.schema, x.place.schemaPath⟩)
      ∧ ∀ u ∈ w.violations, u.Resolves s.root ∧ ∀ r ∈ u.reasons, r.Resolves s.root := by
  intro leaf root s chain w
  have hchain : Interceptor.NeverReplaces chain := by
    intro i hi v place given hgiven
    rw [List.mem_singleton.mp hi] at hgiven
    exact (Except.ok.inj hgiven).symm
  have hleaf (c : Node) : ¬ c.Child leaf := by
    intro hc
    cases hc with
    | property hps _ => cases hps
    | items hm => cases hm
    | extra hm => cases hm
    | @branch operator ns hns _ => cases operator <;> cases hns
  have hroot (c : Node) (hc : c.Child root) : c = leaf := by
    cases hc with
    | property hps hmem =>
        obtain rfl := Option.some.inj hps
        exact (Prod.mk.inj (List.mem_singleton.mp hmem)).2
    | items hm => cases hm
    | extra hm =>
        cases hm
        rfl
    | @branch operator ns hns hmem =>
        cases operator <;> cases hns
        exact List.mem_singleton.mp hmem
  have hport : IsSegment "port" := ⟨by decide, by decide⟩
  have hspare : IsSegment "spare" := ⟨by decide, by decide⟩
  have hnames (ps : List (String × Node)) (hps : root.properties = some ps) :
      ∀ name ∈ Fields.keys ps, IsSegment name := by
    obtain rfl := Option.some.inj hps
    exact List.forall_mem_singleton.mpr hport
  have hschema (n : Node) (hn : n.Within s.root) : n.Addressable := by
    cases hn with
    | self => exact ⟨hnames, nofun, nofun⟩
    | under hn hc =>
        obtain rfl := hroot _ hc
        cases hn with
        | self => exact ⟨nofun, nofun, nofun⟩
        | under _ hc => exact absurd hc (hleaf _)
  have hfields : Fields.Keyed [("port", .string "x"), ("spare", .int 1)] := by
    refine List.forall_mem_cons.mpr ⟨⟨hport, .scalar rfl⟩, ?_⟩
    exact List.forall_mem_singleton.mpr ⟨hspare, .scalar rfl⟩
  have hwalk := s.walk_addressed false hchain hschema fun v hv =>
    Option.some.inj hv ▸ Value.Keyed.of_fields hfields
  exact ⟨by decide +kernel, by decide +kernel, hwalk.1, hwalk.2⟩

end CheckedConfig
