import CheckedConfig.Proofs.Walk.Rewritten

namespace CheckedConfig

namespace Node

variable {n m : Node} {found : Found}

theorem child_of_mem_steps {segment step : String} (h : (m, step) ∈ n.steps segment) :
    m.Child n := by
  rcases List.mem_append.mp h with h | h
  · unfold fieldSteps at h
    split at h
    · rcases List.mem_append.mp h with h | h
      · unfold toProperty at h
        split at h
        · next hc =>
            rw [List.mem_singleton, Prod.mk.injEq] at h
            obtain ⟨ps, hps, hmem⟩ := declared?_eq_some hc
            exact h.1 ▸ .property hps hmem
        · exact absurd h List.not_mem_nil
      · unfold toExtra at h
        split at h
        · next hc =>
            split at h
            · exact absurd h List.not_mem_nil
            · rw [List.mem_singleton, Prod.mk.injEq] at h
              exact h.1 ▸ .extra (extra?_eq_some hc)
        · exact absurd h List.not_mem_nil
    · exact absurd h List.not_mem_nil
  · unfold itemSteps at h
    split at h
    · unfold toItem at h
      split at h
      · next hc =>
          rw [List.mem_singleton, Prod.mk.injEq] at h
          exact h.1 ▸ .items hc
      · exact absurd h List.not_mem_nil
    · exact absurd h List.not_mem_nil

theorem child_of_follow {step : Step} (h : n.follow step = some m) : m.Child n := by
  cases step with
  | property name =>
      obtain ⟨ps, hps, hmem⟩ := declared?_eq_some h
      exact .property hps hmem
  | items => exact .items h
  | extra => exact .extra (extra?_eq_some h)
  | branch operator i =>
      obtain ⟨ns, hns, hget⟩ := Option.bind_eq_some_iff.mp h
      exact .branch hns (List.mem_of_getElem? hget)

theorem normal_of_findFrom {segments : List String} {path : String} (hnormal : n.normalize = n)
    (h : findFrom segments n path = some found) : found.node.normalize = found.node := by
  induction segments generalizing n path with
  | nil =>
      obtain rfl := Option.some.inj h
      exact hnormal
  | cons segment rest ih =>
      obtain ⟨⟨m, step⟩, hmem, hrest⟩ := List.exists_of_findSome?_eq_some h
      exact ih ((child_of_mem_steps hmem).normal hnormal) hrest

theorem normal_of_follow {steps : List Step} (hnormal : n.normalize = n)
    (h : steps.foldlM follow n = some m) : m.normalize = m := by
  induction steps generalizing n with
  | nil =>
      obtain rfl := Option.some.inj h
      exact hnormal
  | cons step rest ih =>
      rw [List.foldlM_cons] at h
      obtain ⟨c, hc, hrest⟩ := Option.bind_eq_some_iff.mp h
      exact ih ((child_of_follow hc).normal hnormal) hrest

theorem normal_of_resolve? {schemaPath : String} (hnormal : n.normalize = n)
    (h : n.resolve? schemaPath = some found) : found.node.normalize = found.node := by
  obtain ⟨steps, -, hsteps⟩ := Option.bind_eq_some_iff.mp h
  obtain ⟨m, hm, rfl⟩ := Option.map_eq_some_iff.mp hsteps
  exact normal_of_follow hnormal hm

end Node

namespace Store

variable {s : Store} {segments : List String} {v w : Value} {schemaPath : Option String}
  {found : Node.Found}

theorem target_normal (h : s.target segments schemaPath = .ok (some found)) :
    found.node.normalize = found.node := by
  unfold target at h
  split at h
  · cases h
  · next schema _ =>
      split at h
      · exact Node.normal_of_findFrom schema.normal (Except.ok.inj h)
      · split at h
        · next hresolve =>
            obtain rfl := Option.some.inj (Except.ok.inj h)
            exact Node.normal_of_resolve? schema.normal hresolve
        · cases h

inductive Accepted (s : Store) (segments : List String) (v : Value) (schemaPath : Option String) :
    Value → Prop where
  | asIs : s.target segments schemaPath = .ok none → Accepted s segments v schemaPath v
  | walked {found : Node.Found} {here : Location} {r : Option Value} :
      s.target segments schemaPath = .ok (some found) →
      (found.node.walk s.interceptors false (some v) here).result = .ok r →
      (found.node.walk s.interceptors false (some v) here).violations = [] →
      Accepted s segments v schemaPath (r.getD .null)

inductive SetsTo (s : Store) (segments : List String) (v : Value) (schemaPath : Option String) :
    Except Failure SetResult → Store → Prop where
  | failed (f : Failure) : SetsTo s segments v schemaPath (.error f) s
  | refused {vs : List Violation} : vs ≠ [] → SetsTo s segments v schemaPath (.ok ⟨none, vs⟩) s
  | committed {source : Source} {rest : List Source} {w config : Value} :
      s.configSources = source :: rest → w.Stores segments source.config config →
      Accepted s segments v schemaPath w →
      SetsTo s segments v schemaPath (.ok ⟨some w, []⟩)
        { s with configSources := { source with config := config } :: rest }

theorem setsTo_commit {source : Source} (hactive : s.active = some source) (hne : segments ≠ [])
    (hw : s.Accepted segments v schemaPath w) :
    SetsTo s segments v schemaPath (s.commit source segments w).result
      (s.commit source segments w).store := by
  unfold commit Value.write
  cases hstore : source.config.store segments w with
  | error obstacle => exact .failed _
  | ok config =>
      obtain ⟨rest, hsources⟩ := List.head?_eq_some_iff.mp hactive
      simp only [Step.done, hsources, List.modifyHead_cons]
      exact .committed hsources (Value.stores_of_store hne hstore) hw

theorem setsTo_commitChecked {source : Source} (hactive : s.active = some source)
    (hne : segments ≠ []) (hfound : s.target segments schemaPath = .ok (some found)) :
    SetsTo s segments v schemaPath (s.commitChecked source segments v found).result
      (s.commitChecked source segments v found).store := by
  unfold commitChecked
  cases hw : (found.node.walk s.interceptors false (some v)
      { source.config.location segments with schemaPath := found.path }).result with
  | error f =>
      simp only [hw, Step.after, Step.failed]
      exact .failed f
  | ok r =>
      simp only [hw, Step.after, Walk.collection, Collection.isEmpty_new_recordAll]
      split
      · next hempty =>
          exact setsTo_commit hactive hne (.walked hfound hw (List.isEmpty_iff.mp hempty))
      · next hsome =>
          apply SetsTo.refused
          intro hnil
          rw [Collection.list_new_eq_nil_iff] at hnil
          exact hsome (List.isEmpty_iff.mpr hnil)

theorem setsTo_of_loaded (hloaded : s.loaded.isSome = true) (files : Files) (path : String)
    (v : Value) (schemaPath : Option String) :
    SetsTo s (Path.split path) v schemaPath (s.set files path v schemaPath).result
      (s.set files path v schemaPath).store := by
  obtain ⟨r, hr⟩ := Option.isSome_iff_exists.mp hloaded
  have hset : SetsTo s (Path.split path) v schemaPath (s.setLoaded path v schemaPath).result
      (s.setLoaded path v schemaPath).store := by
    unfold setLoaded
    simp only
    split
    · exact .failed _
    · next hne =>
        split
        · exact .failed _
        · next source hsource =>
            have hactive : s.active = some source := (Option.filter_eq_some_iff.mp hsource).1
            have hne : Path.split path ≠ [] := by simpa using hne
            split
            · exact .failed _
            · next hnone => exact setsTo_commit hactive hne (.asIs hnone)
            · next found hfound => exact setsTo_commitChecked hactive hne hfound
  rw [set, withLoaded, load, hr]
  exact hset

theorem Accepted.again (h : s.Accepted segments v schemaPath w) (hchain : s.interceptors = [])
    (hfound : s.target segments schemaPath = .ok (some found)) :
    found.node.outcome (some w) = some w ∧ ∀ here, found.node.found (some w) here = [] := by
  cases h with
  | asIs hnone => cases hfound.symm.trans hnone
  | @walked found' here r hfound' hr hclean =>
      obtain rfl := Option.some.inj (Except.ok.inj (hfound.symm.trans hfound'))
      rw [hchain, Node.walk_eq_done] at hr hclean
      obtain ⟨u, hu⟩ := found.node.outcome_some v
      obtain rfl : some u = r := Except.ok.inj (hu ▸ hr)
      obtain ⟨hvalue, hfixed⟩ := Node.fixed_of_normal (target_normal hfound) (some v)
      rw [hu] at hvalue hfixed
      have hfirst : found.node.found (some v) here = [] := hclean
      have hagain : FoundAgain [] (found.node.found (some u) here) := hfirst ▸ hfixed here
      constructor
      · exact hvalue
      · intro there
        exact found.node.placeless _ here there hagain.eq_nil

theorem SetsTo.committed_of_ok {r : SetResult} {t : Store}
    (h : SetsTo s segments v schemaPath (.ok r) t) (hr : r.violations = []) :
    ∃ source rest w config, s.configSources = source :: rest ∧ r.value = some w
      ∧ t = { s with configSources := { source with config := config } :: rest }
      ∧ w.Stores segments source.config config ∧ s.Accepted segments v schemaPath w := by
  cases h with
  | refused hne => exact absurd hr hne
  | committed hsources hstores haccepted =>
      exact ⟨_, _, _, _, hsources, rfl, rfl, hstores, haccepted⟩

theorem set_all_or_nothing {s : Store} (hloaded : s.loaded.isSome = true) (files : Files)
    (path : String) (v : Value) (schemaPath : Option String) :
    let step := s.set files path v schemaPath
    (∀ f, step.result = .error f → step.store = s)
      ∧ (∀ r, step.result = .ok r → r.violations ≠ [] → step.store = s)
      ∧ ∀ r, step.result = .ok r → r.violations = [] →
          ∃ source rest w config, s.configSources = source :: rest ∧ r.value = some w
            ∧ step.store = { s with configSources := { source with config := config } :: rest }
            ∧ config.get? (Path.split path) = some w
            ∧ w.Rewritten (Path.split path) source.config config
            ∧ (s.interceptors = [] → ∀ found,
                s.target (Path.split path) schemaPath = .ok (some found) → ∀ here,
                  (found.node.walk [] false (some w) here).result = .ok (some w)
                    ∧ (found.node.walk [] false (some w) here).violations = []) := by
  intro step
  have hsets : SetsTo s (Path.split path) v schemaPath step.result step.store :=
    setsTo_of_loaded hloaded files path v schemaPath
  refine ⟨?_, ?_, ?_⟩
  · intro f hf
    rw [hf] at hsets
    generalize step.store = t at hsets
    cases hsets
    rfl
  · intro r hr hne
    rw [hr] at hsets
    generalize step.store = t at hsets
    cases hsets with
    | refused _ => rfl
    | committed _ _ _ => exact absurd rfl hne
  · intro r hr hnil
    rw [hr] at hsets
    obtain ⟨source, rest, w, config, hsources, hw, ht, hstores, haccepted⟩ :=
      hsets.committed_of_ok hnil
    refine ⟨source, rest, w, config, hsources, hw, ht, hstores.get?_self, hstores.rewritten, ?_⟩
    intro hchain found hfound here
    obtain ⟨hvalue, hfixed⟩ := haccepted.again hchain hfound
    rw [Node.walk_eq_done, hvalue, hfixed here]
    constructor <;> rfl

def holding (schema : Option Schema) (config : Value) : Store :=
  { new Options.default with
    schema := schema
    loaded := some ⟨[], none⟩
    configSources := [⟨config, .defaults, none⟩] }

theorem ok_of_committed {result : Except Failure SetResult}
    (h : result.toOption.any SetResult.committed = true) :
    ∃ w, result = .ok ⟨some w, []⟩ := by
  cases result with
  | error f => cases h
  | ok r =>
      obtain ⟨value, violations⟩ := r
      simp only [Except.toOption, Option.any_some, SetResult.committed, Bool.and_eq_true,
        List.isEmpty_iff, Option.isSome_iff_exists] at h
      obtain ⟨rfl, w, rfl⟩ := h
      exact ⟨w, rfl⟩

theorem set_server :
    let host : Node := { Node.ofKind .string with
      own := { Keywords.none with kind := some (.one .string), default := some (.string "local") } }
    let server : Node := { Node.ofKind .object with properties := some [("host", host)] }
    let schema : Schema := ⟨{ Node.ofKind .object with
      properties := some [("servers", { Node.ofKind .array with items := some server })] }, rfl⟩
    let config : Value := .object [("servers", .array []), ("name", .string "web")]
    let s := holding (some schema) config
    s.loaded.isSome = true
      ∧ ∃ w config', (s.set ⟨[]⟩ "servers.0" (.object []) none).result = .ok ⟨some w, []⟩
          ∧ (s.set ⟨[]⟩ "servers.0" (.object []) none).store.config? = some config'
          ∧ w.Rewritten ["servers", "0"] config config'
          ∧ config'.get? ["name"] = some (.string "web") := by
  intro host server schema config s
  have hloaded : s.loaded.isSome = true := rfl
  obtain ⟨w, hset⟩ : ∃ w, (s.set ⟨[]⟩ "servers.0" (.object []) none).result = .ok ⟨some w, []⟩ :=
    ok_of_committed (by decide +kernel)
  obtain ⟨source, rest, u, config', hsources, hu, hstore, -, hrewritten, -⟩ :=
    (set_all_or_nothing hloaded ⟨[]⟩ "servers.0" (.object []) none).2.2 _ hset rfl
  obtain ⟨rfl, rfl⟩ := List.cons.inj hsources
  obtain rfl := Option.some.inj hu
  have hsplit : Path.split "servers.0" = ["servers", "0"] := rfl
  rw [hsplit] at hrewritten
  have hname : config.Apart ["servers", "0"] ["name"] := .here (by simp [config, Value.Meets])
  exact ⟨hloaded, w, config', hset, congrArg config? hstore, hrewritten, hrewritten.apart _ hname⟩

theorem get_of_set {s : Store} (hloaded : s.loaded.isSome = true) {files : Files} {path : String}
    {v w : Value} {schemaPath : Option String}
    (hset : (s.set files path v schemaPath).result = .ok ⟨some w, []⟩) :
    let t := (s.set files path v schemaPath).store
    (t.get files path).result = .ok (s.config?.bind (·.verbatim? path) <|> some w)
      ∧ (t.has files path).result = .ok true := by
  intro t
  have hsets : SetsTo s (Path.split path) v schemaPath (.ok ⟨some w, []⟩) t :=
    hset ▸ setsTo_of_loaded hloaded files path v schemaPath
  obtain ⟨source, rest, u, config, hsources, hu, ht, hstores, -⟩ := hsets.committed_of_ok rfl
  obtain rfl := Option.some.inj hu
  obtain ⟨r, hr⟩ := Option.isSome_iff_exists.mp hloaded
  have hget : (t.get files path).result
      = .ok (s.config?.bind (·.verbatim? path) <|> some w) := by
    rw [ht, config?, active, hsources, List.head?_cons, Option.map_some, Option.bind_some,
      ← hstores.lookup, get, withLoaded, load, hr]
    rfl
  have hsome : (s.config?.bind (·.verbatim? path) <|> some w).isSome = true := by
    cases s.config?.bind (·.verbatim? path) <;> rfl
  constructor
  · exact hget
  · rw [has, Step.bind, hget]
    exact congrArg Except.ok hsome

theorem get_of_set_port :
    let s := holding none (.object [("app", .object [("port", .int 80)])])
    s.loaded.isSome = true
      ∧ (s.set ⟨[]⟩ "app.port" (.int 8080) none).result = .ok ⟨some (.int 8080), []⟩
      ∧ (((s.set ⟨[]⟩ "app.port" (.int 8080) none).store).get ⟨[]⟩ "app.port").result
          = .ok (some (.int 8080)) := by
  intro s
  have hloaded : s.loaded.isSome = true := rfl
  have hset : (s.set ⟨[]⟩ "app.port" (.int 8080) none).result = .ok ⟨some (.int 8080), []⟩ := rfl
  exact ⟨hloaded, hset, (get_of_set hloaded hset).1⟩

theorem set_behind_dotted_name :
    let s := holding none (.object [("a.b", .int 1), ("a", .object [("b", .int 2)])])
    let t := (s.set ⟨[]⟩ "a.b" (.int 3) none).store
    s.loaded.isSome = true
      ∧ (s.set ⟨[]⟩ "a.b" (.int 3) none).result = .ok ⟨some (.int 3), []⟩
      ∧ (t.get ⟨[]⟩ "a.b").result = .ok (some (.int 1))
      ∧ (t.get ⟨[]⟩ "a.b").result ≠ .ok (some (.int 3)) := by
  intro s t
  have hset : (s.set ⟨[]⟩ "a.b" (.int 3) none).result = .ok ⟨some (.int 3), []⟩ := rfl
  have hget : (t.get ⟨[]⟩ "a.b").result = .ok (some (.int 1)) := rfl
  have hne : (t.get ⟨[]⟩ "a.b").result ≠ .ok (some (.int 3)) := by
    rw [hget]
    intro h
    cases h
  exact ⟨rfl, hset, hget, hne⟩

theorem set_keeps_place {s : Store} {schema : Schema} {source : Source} {files : Files}
    {path : String} {v w : Value} (hloaded : s.loaded.isSome = true)
    (hschema : s.schema = some schema) (hchain : s.interceptors = [])
    (hactive : s.active = some source)
    (hclean : ((schema.walk [] false (some source.config)).collection false).list = [])
    (hset : (s.set files path v none).result = .ok ⟨some w, []⟩) :
    ∃ config, (s.set files path v none).store.config? = some config
      ∧ (∀ front last, Path.split path = front ++ [last] →
          ∀ e ∈ ((schema.walk [] false (some config)).collection false).list,
            e.keyword = .additionalProperties → e.path = (config.location front).propertyPath →
            ∃ c, (schema.frame (some config)).at? front = some c
              ∧ c.node.additional = some (.allowed false)
              ∧ (c.taken? = c.origin → c.node.declares last = false))
      ∧ ((schema.frame (some config)).Along
            (fun c segment => c.hides = false ∧ c.mixes segment = false) (Path.split path) →
          ∀ e ∈ ((schema.walk [] false (some config)).collection false).list,
            ¬ (config.location (Path.split path)).Reaches e.path) := by
  have hsets : SetsTo s (Path.split path) v none (.ok ⟨some w, []⟩) (s.set files path v none).store :=
    hset ▸ setsTo_of_loaded hloaded files path v none
  obtain ⟨source', rest, u, config, hsources, hu, ht, hstores, haccepted⟩ :=
    hsets.committed_of_ok rfl
  obtain rfl := Option.some.inj hu
  rw [active, hsources, List.head?_cons] at hactive
  obtain rfl := Option.some.inj hactive
  have hself := hstores.get?_self
  rw [Schema.walk_eq_done, Walk.done_collection, Collection.list_new_eq_nil_iff] at hclean
  have htells (e : Violation)
      (he : e ∈ ((schema.walk [] false (some config)).collection false).list) :
      (schema.frame (some config)).Tells w (Path.split path) e := by
    rw [Schema.walk_eq_done, Walk.done_collection, Collection.mem_list_new] at he
    exact Frame.tells_of_mem_found schema.normal rfl hstores hclean he
  refine ⟨config, congrArg config? ht, ?_, ?_⟩
  · intro front last hsplit e he hk hpath
    exact (htells e he).closed schema.normal rfl hself hk hsplit hpath
  · intro hway e he
    have hfit (found : Node.Found)
        (hfound : Node.findFrom (Path.split path) schema.root Location.rootSchema = some found) :
        ∀ here, found.node.found (some w) here = [] := by
      have htarget : s.target (Path.split path) none = .ok (some found) := by
        rw [target, hschema]
        exact congrArg Except.ok hfound
      exact (haccepted.again hchain htarget).2
    exact (htells e he).not_reaches schema.normal rfl hself hway _ hfit

theorem set_keeps_place_of_flag :
    let schema : Schema := ⟨{ Node.ofKind .object with
      properties := some [("log", Node.ofKind .boolean)]
      additional := some (.allowed false) }, rfl⟩
    let s := holding (some schema) (.object [])
    let config : Value := .object [("log", .bool true)]
    s.loaded.isSome = true
      ∧ ((schema.walk [] false (some (.object []))).collection false).list = []
      ∧ (s.set ⟨[]⟩ "log" (.bool true) none).result = .ok ⟨some (.bool true), []⟩
      ∧ (s.set ⟨[]⟩ "log" (.bool true) none).store.config? = some config
      ∧ (schema.frame (some config)).Along
          (fun c segment => c.hides = false ∧ c.mixes segment = false) ["log"]
      ∧ ∀ e ∈ ((schema.walk [] false (some config)).collection false).list,
          ¬ (config.location ["log"]).Reaches e.path := by
  intro schema s config
  have hloaded : s.loaded.isSome = true := rfl
  have hschema : s.schema = some schema := rfl
  have hchain : s.interceptors = [] := rfl
  have hactive : s.active = some ⟨.object [], .defaults, none⟩ := rfl
  have hclean : ((schema.walk [] false (some (.object []))).collection false).list = [] := rfl
  have hset : (s.set ⟨[]⟩ "log" (.bool true) none).result = .ok ⟨some (.bool true), []⟩ := rfl
  have hconfig : (s.set ⟨[]⟩ "log" (.bool true) none).store.config? = some config := rfl
  have hway : (schema.frame (some config)).Along
      (fun c segment => c.hides = false ∧ c.mixes segment = false) ["log"] :=
    ⟨⟨rfl, rfl⟩, fun _ _ => trivial⟩
  obtain ⟨config', hconfig', -, hplace⟩ :=
    set_keeps_place hloaded hschema hchain hactive hclean hset
  obtain rfl := Option.some.inj (hconfig.symm.trans hconfig')
  exact ⟨hloaded, hclean, hset, hconfig, hway, hplace hway⟩

theorem set_beside_names_and_kinds :
    let closed : Schema := ⟨{ Node.ofKind .object with
      properties := some [("log", Node.ofKind .boolean)]
      additional := some (.allowed false) }, rfl⟩
    let s := holding (some closed) (.object [("log", .bool true)])
    let entry : Node := { Node.empty with
      own := { Keywords.none with kind := some (.many [.object, .array]) }
      properties := some [("0", Node.ofKind .boolean)]
      items := some (Node.ofKind .number) }
    let mixed : Schema := ⟨{ Node.ofKind .object with properties := some [("entry", entry)] }, rfl⟩
    let t := holding (some mixed) (.object [("entry", .array [.int 5])])
    let found (schema : Schema) (config : Option Value) : List Violation :=
      ((schema.walk [] false config).collection false).list
    ((found closed s.config?).isEmpty = true
        ∧ (s.set ⟨[]⟩ "level" (.int 1) none).result.toOption.any SetResult.committed = true
        ∧ (found closed (s.set ⟨[]⟩ "level" (.int 1) none).store.config?).any
            (fun e => e.keyword == .additionalProperties && e.path == "$ROOT") = true)
      ∧ (found mixed t.config?).isEmpty = true
      ∧ (t.set ⟨[]⟩ "entry.0" (.bool true) none).result.toOption.any SetResult.committed = true
      ∧ (found mixed (t.set ⟨[]⟩ "entry.0" (.bool true) none).store.config?).any
          (fun e => e.path == "$ROOT.entry[0]") = true := by
  decide +kernel

end Store

end CheckedConfig
