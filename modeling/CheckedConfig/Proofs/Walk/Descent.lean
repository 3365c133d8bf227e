import CheckedConfig.Path
import CheckedConfig.Proofs.Walk.Keywords
import CheckedConfig.Proofs.Walk.Outcome
import CheckedConfig.Schema.Search

namespace CheckedConfig

structure Frame where
  node : Node
  origin : Option Value
  place : Location

def Schema.frame (s : Schema) (v : Option Value) : Frame := ⟨s.root, v, Location.root⟩

namespace Frame

def walk (chain : List Interceptor) (strict : Bool) (c : Frame) : Walk (Option Value) :=
  c.node.walk chain strict c.origin c.place

def taken? (c : Frame) : Option Value :=
  (c.origin <|> c.node.own.default).bind fun v => (c.node.own.settle v).toOption

def next? (c : Frame) (segment : String) : Option Frame :=
  match c.taken? with
  | some (.object fs) =>
      match c.node.declared? segment with
      | some m => some ⟨m, Fields.get? fs segment, c.place.property segment "properties"⟩
      | none =>
          c.node.extra?.bind fun m => (Fields.get? fs segment).map fun w =>
            ⟨m, some w, c.place.property segment "additionalProperties"⟩
  | some (.array vs) =>
      c.node.items.bind fun m => (Path.index? segment).bind fun i => vs[i]?.map fun w =>
        ⟨m, some w, c.place.index i⟩
  | _ => none

def at? : Frame → List String → Option Frame
  | c, [] => some c
  | c, segment :: rest => (c.next? segment).bind (·.at? rest)

def Along (P : Frame → String → Prop) : Frame → List String → Prop
  | _, [] => True
  | c, segment :: rest => P c segment ∧ ∀ d, c.next? segment = some d → d.Along P rest

def Clean (c : Frame) : Prop := c.node.found c.origin c.place = []

def outcome (c : Frame) : Option Value := c.node.outcome c.origin

theorem walk_eq_done (c : Frame) :
    c.walk [] false = Walk.done c.outcome (c.node.found c.origin c.place) :=
  c.node.walk_eq_done c.origin c.place

theorem settle_of_taken? {c : Frame} {w : Value} (h : c.taken? = some w) :
    ∃ v, (c.origin <|> c.node.own.default) = some v ∧ c.node.own.settle v = .ok w := by
  obtain ⟨v, hv, hw⟩ := Option.bind_eq_some_iff.mp h
  refine ⟨v, hv, ?_⟩
  cases hsettle : c.node.own.settle v with
  | error why =>
      rw [hsettle] at hw
      cases hw
  | ok u =>
      rw [hsettle] at hw
      exact congrArg Except.ok (Option.some.inj hw)

theorem taken?_of_clean {c : Frame} {y : Value} (hclean : c.Clean) (hy : c.outcome = some y) :
    ∃ w, c.taken? = some w ∧ y = c.node.inside w ∧ c.node.own.AcceptsKind w
      ∧ c.node.foundContents c.place w = [] := by
  obtain ⟨n, origin, place⟩ := c
  have hsome (v : Value) (hv : n.found (some v) place = []) (hy : n.outcome (some v) = some y) :
      ∃ w, (n.own.settle v).toOption = some w ∧ y = n.inside w ∧ n.own.AcceptsKind w
        ∧ n.foundContents place w = [] := by
    cases hw : n.own.settle v with
    | error e =>
        rw [Node.found_of_refused place hw] at hv
        exact absurd hv (List.cons_ne_nil _ _)
    | ok w =>
        rw [Node.found_of_settle place hw] at hv
        rw [Node.outcome_of_settle hw] at hy
        exact ⟨w, rfl, (Option.some.inj hy).symm, Keywords.accepts_of_settle hw,
          (List.append_eq_nil_iff.mp hv).1⟩
  cases origin with
  | some v => exact hsome v hclean hy
  | none =>
      cases hd : n.own.default with
      | none =>
          simp only [outcome] at hy
          rw [Node.outcome_none hd] at hy
          exact absurd hy (Option.some_ne_none y).symm
      | some d =>
          simp only [Clean, outcome] at hclean hy
          rw [Node.found_none_of_default place hd] at hclean
          rw [Node.outcome_none_of_default hd] at hy
          simpa [taken?, hd] using hsome d hclean hy

end Frame

namespace Node

theorem declares_eq (n : Node) (name : String) :
    n.declares name = (n.declared? name).isSome := by
  cases hps : n.properties <;> simp [declares, declared?, hps, Fields.has]

theorem declared?_eq_some {n m : Node} {name : String} (h : n.declared? name = some m) :
    ∃ ps, n.properties = some ps ∧ (name, m) ∈ ps := by
  cases hps : n.properties with
  | none => simp [declared?, hps] at h
  | some ps => exact ⟨ps, rfl, Fields.mem_of_get? (by simpa [declared?, hps] using h)⟩

theorem declared?_of_mem {n m : Node} {ps : List (String × Node)} {name : String}
    (hnormal : n.normalize = n) (hps : n.properties = some ps) (hm : (name, m) ∈ ps) :
    n.declared? name = some m := by
  rw [declared?, hps]
  exact Fields.get?_of_mem (keys_nodup_of_normal hnormal hps) hm

end Node

namespace Frame

inductive Enters (c : Frame) (segment : String) : Frame → Prop where
  | property {fs : Fields Value} {m : Node} : c.taken? = some (.object fs) →
      c.node.declared? segment = some m →
      Enters c segment ⟨m, fs.get? segment, c.place.property segment "properties"⟩
  | extra {fs : Fields Value} {m : Node} {w : Value} : c.taken? = some (.object fs) →
      c.node.declares segment = false → c.node.extra? = some m → fs.get? segment = some w →
      Enters c segment ⟨m, some w, c.place.property segment "additionalProperties"⟩
  | item {vs : List Value} {m : Node} {i : Nat} {w : Value} : c.taken? = some (.array vs) →
      c.node.items = some m → Path.index? segment = some i → vs[i]? = some w →
      Enters c segment ⟨m, some w, c.place.index i⟩

theorem enters_of_next? {c d : Frame} {segment : String} (h : c.next? segment = some d) :
    c.Enters segment d := by
  cases hw : c.taken? with
  | none => simp [next?, hw] at h
  | some w =>
      cases w with
      | object fs =>
          cases hm : c.node.declared? segment with
          | some m =>
              simp only [next?, hw, hm, Option.some.injEq] at h
              exact h ▸ .property hw hm
          | none =>
              have hundeclared : c.node.declares segment = false := by simp [Node.declares_eq, hm]
              simp only [next?, hw, hm, Option.bind_eq_some_iff, Option.map_eq_some_iff] at h
              obtain ⟨m, hextra, w, hget, rfl⟩ := h
              exact .extra hw hundeclared hextra hget
      | array vs =>
          simp only [next?, hw, Option.bind_eq_some_iff, Option.map_eq_some_iff] at h
          obtain ⟨m, hm, i, hi, w, hget, rfl⟩ := h
          exact .item hw hm hi hget
      | _ => simp [next?, hw] at h

theorem child_of_next? {c d : Frame} {segment : String} (h : c.next? segment = some d) :
    d.node.Child c.node := by
  cases enters_of_next? h with
  | property _ hm =>
      obtain ⟨ps, hps, hmem⟩ := Node.declared?_eq_some hm
      exact .property hps hmem
  | extra _ _ hextra _ => exact .extra (Node.extra?_eq_some hextra)
  | item _ hm _ _ => exact .items hm

structure Returns (d : Frame) (z : Option Value) : Prop where
  clean : d.Clean
  outcome : d.outcome = z

theorem returns_property {c : Frame} (hnormal : c.node.normalize = c.node) {fs : Fields Value}
    (hfound : c.node.foundContents c.place (.object fs) = []) {segment : String} {m : Node}
    (hm : c.node.declared? segment = some m) :
    Returns ⟨m, fs.get? segment, c.place.property segment "properties"⟩
      ((c.node.inside (.object fs)).child? segment) := by
  obtain ⟨ps, hps, hmem⟩ := Node.declared?_eq_some hm
  simp only [Node.foundContents, hps, Node.foundProperties, List.append_eq_nil_iff] at hfound
  have hnamed := hfound.1.2
  rw [Node.foundNamed_eq_flatMap (Node.keys_nodup_of_normal hnormal hps),
    List.flatMap_eq_nil_iff] at hnamed
  refine ⟨hnamed (segment, m) hmem, ?_⟩
  have hget := Node.outcomeFields_get? hnormal hps hmem fs
  simp only [Node.inside, Value.child?, hps, Node.outcomeProperties]
  exact hget.symm

theorem returns_extra {c : Frame} {fs : Fields Value}
    (hfound : c.node.foundContents c.place (.object fs) = []) {segment : String} {m : Node}
    (hm : c.node.extra? = some m) (hd : c.node.declares segment = false) {w : Value}
    (hw : fs.get? segment = some w) :
    Returns ⟨m, some w, c.place.property segment "additionalProperties"⟩
      ((c.node.inside (.object fs)).child? segment) := by
  have hadd := Node.extra?_eq_some hm
  have hw' : (Node.outcomeProperties c.node.properties fs).get? segment = some w := by
    rw [Node.outcomeProperties_get?_of_undeclared hd, hw]
  simp only [Node.foundContents, hadd, Node.foundAdditional, List.append_eq_nil_iff,
    List.flatMap_eq_nil_iff] at hfound
  have hclean := hfound.2 (segment, w) (Fields.mem_of_get? hw')
  refine ⟨by simpa [Clean, hd] using hclean, ?_⟩
  exact (Node.outcomeAdditional_get?_of_undeclared hadd hd hw').symm

theorem returns_item {c : Frame} {vs : List Value}
    (hfound : c.node.foundContents c.place (.array vs) = []) {segment : String} {m : Node} {i : Nat}
    {w : Value} (hm : c.node.items = some m) (hi : Path.index? segment = some i)
    (hw : vs[i]? = some w) :
    Returns ⟨m, some w, c.place.index i⟩ ((c.node.inside (.array vs)).child? segment) := by
  simp only [Node.foundContents, hm, Node.foundItems, List.append_eq_nil_iff,
    List.flatMap_eq_nil_iff] at hfound
  have hclean := hfound.1 (w, i) (List.mem_zipIdx_iff_getElem?.mpr hw)
  refine ⟨hclean, ?_⟩
  obtain ⟨u, hu⟩ := m.outcome_some w
  simp [outcome, Node.inside, Value.child?, hm, Node.outcomeItems, hi, hw, hu]

theorem returns_of_next? {c d : Frame} (hnormal : c.node.normalize = c.node) {y : Value}
    (hclean : c.Clean) (hy : c.outcome = some y) {segment : String}
    (hd : c.next? segment = some d) : d.Returns (y.child? segment) := by
  obtain ⟨w, hw, rfl, _, hfound⟩ := taken?_of_clean hclean hy
  cases enters_of_next? hd with
  | property hfs hm =>
      obtain rfl := Option.some.inj (hw.symm.trans hfs)
      exact returns_property hnormal hfound hm
  | extra hfs hundeclared hextra hget =>
      obtain rfl := Option.some.inj (hw.symm.trans hfs)
      exact returns_extra hfound hextra hundeclared hget
  | item hvs hm hi hget =>
      obtain rfl := Option.some.inj (hw.symm.trans hvs)
      exact returns_item hfound hm hi hget

theorem returns_of_at? {c d : Frame} (hnormal : c.node.normalize = c.node) {y : Value}
    (hclean : c.Clean) (hy : c.outcome = some y) {segments : List String} {z : Value}
    (hz : y.get? segments = some z) (hd : c.at? segments = some d) :
    d.Returns (some z) := by
  induction segments generalizing c y with
  | nil =>
      simp only [at?, Option.some.injEq] at hd
      simp only [Value.get?, Option.some.injEq] at hz
      subst hd hz
      exact ⟨hclean, hy⟩
  | cons segment rest ih =>
      simp only [at?, Option.bind_eq_some_iff] at hd
      simp only [Value.get?, Option.bind_eq_some_iff] at hz
      obtain ⟨e, he, hd⟩ := hd
      obtain ⟨x, hx, hz⟩ := hz
      have hreturns := returns_of_next? hnormal hclean hy he
      exact ih ((child_of_next? he).normal hnormal) hreturns.clean (hreturns.outcome.trans hx) hz hd

end Frame

end CheckedConfig
