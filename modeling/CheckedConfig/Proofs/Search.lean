import CheckedConfig.Proofs.Walk.Watched

namespace CheckedConfig

namespace Node

theorem admits_of_accepts {n : Node} {s : KindSet} {v : Value} (hs : n.own.kind = some s)
    (h : n.own.AcceptsKind v) (hv : v.isWhole = false) : n.admits (Kind.of v) = true := by
  rcases h s hs with hany | hkind | hwhole
  · simp [admits, hs, KindSet.acceptsAny, hany]
  · simp [admits, hs, hkind]
  · rw [hv] at hwhole
    exact absurd hwhole.2 Bool.false_ne_true

end Node

theorem Path.isIndex_of_index? {segment : String} {i : Nat} (h : Path.index? segment = some i) :
    Node.isIndex segment = true := by
  by_cases hno : (segment.toList.isEmpty || !segment.toList.all isDigit) = true
  · simp [Path.index?, hno] at h
  · simp only [Bool.or_eq_true, Bool.not_eq_true', not_or, Bool.not_eq_false] at hno
    have hne : segment ≠ "" := fun heq => hno.1 (heq ▸ rfl)
    simp [Node.isIndex, hno.2, hne]

namespace Frame

def found (c : Frame) : Node.Found := ⟨c.node, c.place.schemaPath⟩

def hides (c : Frame) : Bool :=
  match c.taken? with
  | some (.object _) => c.node.own.kind.isNone && c.node.extra?.isSome
  | _ => false

def strays (c : Frame) (segment : String) : Bool :=
  match c.taken? with
  | some (.object _) => Node.isIndex segment && c.node.admits .array && c.node.items.isSome
  | some (.array _) => c.node.admits .object && (c.node.declares segment || c.node.extra?.isSome)
  | _ => false

inductive Leads (path : String) : List (Node × String) → Option Frame → Prop where
  | nowhere : Leads path [] none
  | toward (d : Frame) (step : String) : d.place.schemaPath = path ++ step →
      Leads path [(d.node, step)] (some d)

theorem Leads.none {path : String} {steps : List (Node × String)}
    (h : Leads path steps .none) : steps = [] := by
  cases h
  rfl

theorem Leads.some {path : String} {steps : List (Node × String)} {d : Frame}
    (h : Leads path steps (.some d)) :
    ∃ step, steps = [(d.node, step)] ∧ d.place.schemaPath = path ++ step := by
  cases h with
  | toward d step hpath => exact ⟨step, rfl, hpath⟩

theorem get?_of_inside {n : Node} {fs : Fields Value} {segment : String} {z : Value}
    (hd : n.declares segment = false)
    (hz : (n.inside (.object fs)).child? segment = some z) : ∃ w, fs.get? segment = some w := by
  have hhas : (Node.outcomeAdditional n.additional n
      (Node.outcomeProperties n.properties fs)).has segment = true := by
    simp only [Node.inside, Value.child?] at hz
    rw [Fields.has, hz]
    rfl
  rw [Fields.has_iff, Node.keys_outcomeAdditional, ← Fields.has_iff, Fields.has,
    Node.outcomeProperties_get?_of_undeclared hd] at hhas
  exact Option.isSome_iff_exists.mp hhas

theorem leads_fieldSteps {c : Frame} (hnormal : c.node.normalize = c.node)
    (hhides : c.hides = false) {fs : Fields Value} (hw : c.taken? = some (.object fs))
    (haccepts : c.node.own.AcceptsKind (.object fs)) {segment : String} {z : Value}
    (hz : (c.node.inside (.object fs)).child? segment = some z) :
    Leads c.place.schemaPath (c.node.fieldSteps segment) (c.next? segment) := by
  cases hk : c.node.own.kind with
  | none =>
      have hdeclared : c.node.declared? segment = none := by
        simp [Node.declared?, (Node.containers_of_untyped hnormal hk).1]
      have hextra : c.node.extra? = none := by simpa [hides, hw, hk] using hhides
      have hnext : c.next? segment = none := by simp [next?, hw, hdeclared, hextra]
      have hsteps : c.node.fieldSteps segment = [] := by simp [Node.fieldSteps, Node.admits, hk]
      rw [hnext, hsteps]
      exact .nowhere
  | some s =>
      have hadmits : c.node.admits .object = true := Node.admits_of_accepts hk haccepts rfl
      cases hm : c.node.declared? segment with
      | some m =>
          have hdeclares : c.node.declares segment = true := by simp [Node.declares_eq, hm]
          have hnext : c.next? segment =
              some ⟨m, fs.get? segment, c.place.property segment "properties"⟩ := by
            simp [next?, hw, hm]
          have hsteps : c.node.fieldSteps segment = [(m, "/properties/" ++ segment)] := by
            cases he : c.node.extra? <;>
              simp [Node.fieldSteps, hadmits, Node.toProperty, Node.toExtra, hm, hdeclares, he]
          rw [hnext, hsteps]
          refine .toward ⟨m, _, _⟩ _ ?_
          simp [Location.property, String.append_assoc]
      | none =>
          have hdeclares : c.node.declares segment = false := by simp [Node.declares_eq, hm]
          cases he : c.node.extra? with
          | none =>
              have hnext : c.next? segment = none := by simp [next?, hw, hm, he]
              have hsteps : c.node.fieldSteps segment = [] := by
                simp [Node.fieldSteps, Node.toProperty, Node.toExtra, hm, he]
              rw [hnext, hsteps]
              exact .nowhere
          | some m =>
              obtain ⟨w, hget⟩ := get?_of_inside hdeclares hz
              have hnext : c.next? segment =
                  some ⟨m, some w, c.place.property segment "additionalProperties"⟩ := by
                simp [next?, hw, hm, he, hget]
              have hsteps : c.node.fieldSteps segment =
                  [(m, "/additionalProperties/" ++ segment)] := by
                simp [Node.fieldSteps, hadmits, Node.toProperty, Node.toExtra, hm, hdeclares, he]
              rw [hnext, hsteps]
              refine .toward ⟨m, _, _⟩ _ ?_
              simp [Location.property, String.append_assoc]

theorem leads_itemSteps {c : Frame} (hnormal : c.node.normalize = c.node) {vs : List Value}
    (hw : c.taken? = some (.array vs)) (haccepts : c.node.own.AcceptsKind (.array vs))
    {segment : String} {z : Value}
    (hz : (c.node.inside (.array vs)).child? segment = some z) :
    Leads c.place.schemaPath (c.node.itemSteps segment) (c.next? segment) := by
  cases hm : c.node.items with
  | none =>
      have hnext : c.next? segment = none := by simp [next?, hw, hm]
      have hsteps : c.node.itemSteps segment = [] := by simp [Node.itemSteps, Node.toItem, hm]
      rw [hnext, hsteps]
      exact .nowhere
  | some m =>
      simp only [Node.inside, Value.child?, hm, Node.outcomeItems, Option.bind_eq_some_iff,
        List.getElem?_map, Option.map_eq_some_iff] at hz
      obtain ⟨i, hi, w, hget, _⟩ := hz
      have hkind : c.node.own.kind ≠ none := by
        intro hk
        have hnone := (Node.containers_of_untyped hnormal hk).2
        rw [hm] at hnone
        exact absurd hnone (Option.some_ne_none m)
      obtain ⟨s, hs⟩ := Option.ne_none_iff_exists'.mp hkind
      have hadmits : c.node.admits .array = true := Node.admits_of_accepts hs haccepts rfl
      have hnext : c.next? segment = some ⟨m, some w, c.place.index i⟩ := by
        simp [next?, hw, hm, hi, hget]
      have hsteps : c.node.itemSteps segment = [(m, "/items")] := by
        simp [Node.itemSteps, Path.isIndex_of_index? hi, hadmits, Node.toItem, hm]
      rw [hnext, hsteps]
      exact .toward ⟨m, _, _⟩ _ rfl

theorem step_of_next? {c d : Frame} (hnormal : c.node.normalize = c.node) {y z : Value}
    (hclean : c.Clean) (hy : c.outcome = some y) (hhides : c.hides = false) {segment : String}
    (hz : y.child? segment = some z) (hd : c.next? segment = some d) :
    ∃ step, (d.node, step) ∈ c.node.steps segment := by
  obtain ⟨w, hw, rfl, haccepts, _⟩ := taken?_of_clean hclean hy
  cases w with
  | object fs =>
      have hleads := leads_fieldSteps hnormal hhides hw haccepts hz
      rw [hd] at hleads
      obtain ⟨step, hsteps, _⟩ := hleads.some
      refine ⟨step, List.mem_append_left _ ?_⟩
      rw [hsteps]
      exact List.mem_singleton_self _
  | array vs =>
      have hleads := leads_itemSteps hnormal hw haccepts hz
      rw [hd] at hleads
      obtain ⟨step, hsteps, _⟩ := hleads.some
      refine ⟨step, List.mem_append_right _ ?_⟩
      rw [hsteps]
      exact List.mem_singleton_self _
  | _ => simp [Node.inside, Value.child?] at hz

theorem fieldSteps_of_array {c : Frame} {vs : List Value} (hw : c.taken? = some (.array vs))
    {segment : String} (hstrays : c.strays segment = false) :
    c.node.fieldSteps segment = [] := by
  simp only [strays, hw, Node.declares_eq] at hstrays
  cases hm : c.node.declared? segment with
  | some m =>
      have hno : c.node.admits .object = false := by simpa [hm] using hstrays
      simp [Node.fieldSteps, hno]
  | none =>
      cases he : c.node.extra? with
      | some m =>
          have hno : c.node.admits .object = false := by simpa [hm, he] using hstrays
          simp [Node.fieldSteps, hno]
      | none => simp [Node.fieldSteps, Node.toProperty, Node.toExtra, hm, he]

theorem leads_steps {c : Frame} (hnormal : c.node.normalize = c.node) {y z : Value}
    (hclean : c.Clean) (hy : c.outcome = some y) {segment : String} (hhides : c.hides = false)
    (hstrays : c.strays segment = false) (hz : y.child? segment = some z) :
    Leads c.place.schemaPath (c.node.steps segment) (c.next? segment) := by
  obtain ⟨w, hw, rfl, haccepts, _⟩ := taken?_of_clean hclean hy
  cases w with
  | object fs =>
      have hitems : c.node.itemSteps segment = [] := by
        simp only [strays, hw] at hstrays
        cases hm : c.node.items with
        | none => simp [Node.itemSteps, Node.toItem, hm]
        | some m =>
            have hno : (Node.isIndex segment && c.node.admits .array) = false := by
              simpa [hm] using hstrays
            rw [Node.itemSteps, hno]
            rfl
      rw [Node.steps, hitems, List.append_nil]
      exact leads_fieldSteps hnormal hhides hw haccepts hz
  | array vs =>
      rw [Node.steps, fieldSteps_of_array hw hstrays, List.nil_append]
      exact leads_itemSteps hnormal hw haccepts hz
  | _ => simp [Node.inside, Value.child?] at hz

theorem isSome_findFrom {c d : Frame} (hnormal : c.node.normalize = c.node) {y z : Value}
    (hclean : c.Clean) (hy : c.outcome = some y) {segments : List String}
    (hz : y.get? segments = some z)
    (hhides : c.Along (fun e _ => e.hides = false) segments) (hd : c.at? segments = some d)
    (path : String) :
    (Node.findFrom segments c.node path).isSome = true := by
  induction segments generalizing c y path with
  | nil => rfl
  | cons segment rest ih =>
      simp only [at?, Option.bind_eq_some_iff] at hd
      simp only [Value.get?, Option.bind_eq_some_iff] at hz
      obtain ⟨e, he, hd⟩ := hd
      obtain ⟨x, hx, hz⟩ := hz
      obtain ⟨hc, hway⟩ := hhides
      obtain ⟨step, hstep⟩ := step_of_next? hnormal hclean hy hc hx he
      have hreturns := returns_of_next? hnormal hclean hy he
      have hrest := ih ((child_of_next? he).normal hnormal) hreturns.clean
        (hreturns.outcome.trans hx) hz (hway e he) hd (path ++ step)
      rw [Node.findFrom, List.findSome?_isSome_iff]
      exact ⟨(e.node, step), hstep, hrest⟩

theorem findFrom_eq {c : Frame} (hnormal : c.node.normalize = c.node) {y z : Value}
    (hclean : c.Clean) (hy : c.outcome = some y) {segments : List String}
    (hz : y.get? segments = some z)
    (hhides : c.Along (fun e _ => e.hides = false) segments)
    (hstrays : c.Along (fun e segment => e.strays segment = false) segments) :
    Node.findFrom segments c.node c.place.schemaPath = (c.at? segments).map found := by
  induction segments generalizing c y with
  | nil => rfl
  | cons segment rest ih =>
      simp only [Value.get?, Option.bind_eq_some_iff] at hz
      obtain ⟨x, hx, hz⟩ := hz
      obtain ⟨hc, hway⟩ := hhides
      obtain ⟨hc', hway'⟩ := hstrays
      have hleads := leads_steps hnormal hclean hy hc hc' hx
      rw [Node.findFrom, at?]
      cases he : c.next? segment with
      | none =>
          rw [he] at hleads
          rw [hleads.none]
          rfl
      | some e =>
          rw [he] at hleads
          obtain ⟨step, hsteps, hpath⟩ := hleads.some
          have hreturns := returns_of_next? hnormal hclean hy he
          have hrest := ih ((child_of_next? he).normal hnormal) hreturns.clean
            (hreturns.outcome.trans hx) hz (hway e he) (hway' e he)
          rw [hsteps, List.findSome?_singleton, ← hpath, hrest]
          rfl

end Frame

theorem Schema.find_agrees (s : Schema) {v : Option Value} {r x : Value} {segments : List String}
    (hwalk : (s.walk [] false v).result = .ok (some r))
    (hclean : ((s.walk [] false v).collection false).list = [])
    (hx : r.get? segments = some x)
    (hhides : (s.frame v).Along (fun c _ => c.hides = false) segments) :
    (∀ d, (s.frame v).at? segments = some d →
        (d.walk [] false).result = .ok (some x)
          ∧ (∀ chain, chain ≠ [] → Interceptor.Keeping chain →
              ∃ visit ∈ (s.walk chain false v).visits, visit.place = d.seen)
          ∧ (Node.find? s.root segments).isSome = true)
      ∧ ((s.frame v).Along (fun c segment => c.strays segment = false) segments →
          Node.find? s.root segments = ((s.frame v).at? segments).map Frame.found) := by
  rw [s.walk_eq_done] at hwalk hclean
  have hr : (s.frame v).outcome = some r := Except.ok.inj hwalk
  have hfound : (s.frame v).Clean := Collection.list_new_eq_nil_iff.mp hclean
  refine ⟨fun d hd => ⟨?_, ?_, ?_⟩, fun hstrays => ?_⟩
  · rw [d.walk_eq_done, (Frame.returns_of_at? s.normal hfound hr hx hd).outcome]
    rfl
  · exact fun chain hne hkeeping => Frame.exists_visit_of_at? hkeeping hne s.normal hd
  · exact Frame.isSome_findFrom s.normal hfound hr hx hhides hd Location.rootSchema
  · exact Frame.findFrom_eq s.normal hfound hr hx hhides hstrays

theorem Schema.find_strays_and_stops :
    let mixed : Schema :=
      ⟨{ Node.empty with
          own := { Keywords.none with kind := some (.many [.object, .array]) }
          properties := some [("0", Node.ofKind .string)]
          items := some (Node.ofKind .number) }, rfl⟩
    let list : Value := .array [.int 5]
    let untyped : Schema :=
      ⟨{ Node.empty with additional := some (.schema (Node.ofKind .string)) }, rfl⟩
    let labels : Value := .object [("team", .string "core")]
    ((mixed.walk [] false (some list)).result = .ok (some list)
        ∧ ((mixed.walk [] false (some list)).collection false).list = []
        ∧ list.get? ["0"] = some (.int 5)
        ∧ ((mixed.frame (some list)).at? ["0"]).map Frame.found =
            some ⟨Node.ofKind .number, "#/items"⟩
        ∧ Node.find? mixed.root ["0"] = some ⟨Node.ofKind .string, "#/properties/0"⟩
        ∧ Node.find? mixed.root ["0"] ≠ ((mixed.frame (some list)).at? ["0"]).map Frame.found)
      ∧ (untyped.walk [] false (some labels)).result = .ok (some labels)
      ∧ ((untyped.walk [] false (some labels)).collection false).list = []
      ∧ labels.get? ["team"] = some (.string "core")
      ∧ ((untyped.frame (some labels)).at? ["team"]).map Frame.found =
          some ⟨Node.ofKind .string, "#/additionalProperties/team"⟩
      ∧ Node.find? untyped.root ["team"] = none := by
  intro mixed list untyped labels
  have hstrays : Node.find? mixed.root ["0"] ≠
      ((mixed.frame (some list)).at? ["0"]).map Frame.found := by
    intro h
    exact absurd (congrArg (Option.map Node.Found.path) h) (by decide)
  exact ⟨⟨rfl, rfl, rfl, rfl, rfl, hstrays⟩, rfl, rfl, rfl, rfl, rfl⟩

theorem Schema.find_agrees_in_ports :
    let s : Schema := Schema.ofNode
      { Node.ofKind .object with
        properties := some [("ports", { Node.ofKind .array with
          items := some (Node.ofKind .integer) })] }
    let v : Value := .object [("ports", .array [.int 80, .int 443])]
    let segments := ["ports", "1"]
    (s.walk [] false (some v)).result = .ok (some v)
      ∧ ((s.walk [] false (some v)).collection false).list = []
      ∧ v.get? segments = some (.int 443)
      ∧ (s.frame (some v)).Along (fun c _ => c.hides = false) segments
      ∧ (s.frame (some v)).Along (fun c segment => c.strays segment = false) segments
      ∧ Node.find? s.root segments = ((s.frame (some v)).at? segments).map Frame.found
      ∧ Node.find? s.root segments =
          some ⟨Node.ofKind .integer, "#/properties/ports/items"⟩ := by
  intro s v segments
  have hwalk : (s.walk [] false (some v)).result = .ok (some v) := rfl
  have hclean : ((s.walk [] false (some v)).collection false).list = [] := rfl
  have hx : v.get? segments = some (.int 443) := rfl
  have hhides : (s.frame (some v)).Along (fun c _ => c.hides = false) segments := by
    refine ⟨rfl, fun d hd => ⟨?_, fun _ _ => trivial⟩⟩
    obtain rfl := Option.some.inj hd
    rfl
  have hstrays : (s.frame (some v)).Along (fun c segment => c.strays segment = false) segments := by
    refine ⟨rfl, fun d hd => ⟨?_, fun _ _ => trivial⟩⟩
    obtain rfl := Option.some.inj hd
    rfl
  have hfind := (Schema.find_agrees s hwalk hclean hx hhides).2 hstrays
  exact ⟨hwalk, hclean, hx, hhides, hstrays, hfind, rfl⟩

end CheckedConfig
