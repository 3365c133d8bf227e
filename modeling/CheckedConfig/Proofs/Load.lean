import CheckedConfig.Proofs.Walk.Strictness
import CheckedConfig.Store.Load

namespace CheckedConfig

theorem Descriptor.eq_of_same {d e : Descriptor} (h : d.same e = true) (hpath : d.path = e.path) :
    d = e := by
  obtain ⟨path, ext, groups, groupSuffix⟩ := d
  simp only [Descriptor.same, Bool.and_eq_true, beq_iff_eq] at h
  obtain ⟨⟨⟨-, hext⟩, hgroups⟩, hsuffix⟩ := h
  rw [Descriptor.mk.injEq]
  exact ⟨hpath, hext, hgroups, hsuffix⟩

namespace Scan

variable {α β : Type}

def keep (files : Files) (c : Candidate) (text : Option String) (l : Loader) : Option String :=
  match l.load files text c with
  | .ok (some next) => some next
  | .ok none => text
  | .error _ => text

def textOf (files : Files) (loaders : List Loader) (c : Candidate) : Option String :=
  loaders.foldl (keep files c) none

def readWith (text : String) (c : Candidate) (p : Parser) : Option Value :=
  match p.parse (some text) none c with
  | .ok v => v
  | .error _ => none

def valueOf (parsers : List Parser) (text : String) (c : Candidate) : Option Value :=
  parsers.findSome? (readWith text c)

def sourceOf (files : Files) (loaders : List Loader) (parsers : List Parser) (c : Candidate) :
    Option Source :=
  (textOf files loaders c).bind fun text =>
    (valueOf parsers text c).map (⟨·, c, some (Checksum.of text)⟩)

theorem load_found (files : Files) (c : Candidate) (text : Option String) (ls : List Loader) :
    (load files c text ls).found = ls.foldl (keep files c) text := by
  induction ls generalizing text with
  | nil => rfl
  | cons l ls ih =>
      rw [load, List.foldl_cons, keep]
      cases l.load files text c with
      | error e => exact ih text
      | ok loaded =>
          cases loaded with
          | none => exact ih text
          | some next => exact ih (some next)

theorem parse_found (text : String) (c : Candidate) (ps : List Parser) :
    (parse text c ps).found = valueOf ps text c := by
  induction ps with
  | nil => rfl
  | cons p ps ih =>
      rw [parse, valueOf, List.findSome?_cons, readWith]
      cases p.parse (some text) none c with
      | error e => exact ih
      | ok read =>
          cases read with
          | none => exact ih
          | some v => rfl

theorem candidate_found (files : Files) (loaders : List Loader) (parsers : List Parser)
    (c : Candidate) :
    (candidate files loaders parsers c).found = sourceOf files loaders parsers c := by
  have htext : (load files c none loaders).found = textOf files loaders c :=
    load_found files c none loaders
  rw [candidate, sourceOf, ← htext]
  cases (load files c none loaders).found with
  | none => rfl
  | some text =>
      rw [Option.bind_some, ← parse_found]

theorem sourceOf_eq_some {files : Files} {loaders : List Loader} {parsers : List Parser}
    {c : Candidate} {source : Source} (h : sourceOf files loaders parsers c = some source) :
    source.candidate = c ∧ ∃ text, textOf files loaders c = some text
      ∧ source.checksum = some (Checksum.of text) := by
  obtain ⟨text, htext, hvalue⟩ := Option.bind_eq_some_iff.mp h
  obtain ⟨v, -, rfl⟩ := Option.map_eq_some_iff.mp hvalue
  exact ⟨rfl, text, htext, rfl⟩

theorem first_found (try_ : α → Attempt β) (l : List α) :
    (first try_ l).found = l.findSome? fun a => (try_ a).found := by
  induction l with
  | nil => rfl
  | cons a l ih =>
      rw [first, List.findSome?_cons]
      cases h : (try_ a).found with
      | none => simpa only [h] using ih
      | some b => rfl

theorem findSome?_distinct {outcome : Descriptor → Option β} {seen ds : List Descriptor}
    (hseen : ∀ d ∈ seen, ∀ e ∈ ds, d.same e = true → outcome e = none)
    (hsame : ds.Pairwise fun d e => d.same e = true → outcome d = none → outcome e = none) :
    (distinct seen ds).findSome? outcome = ds.findSome? outcome := by
  induction ds generalizing seen with
  | nil => rfl
  | cons e ds ih =>
      obtain ⟨hahead, hrest⟩ := List.pairwise_cons.mp hsame
      have hlater : ∀ d ∈ seen, ∀ e' ∈ ds, d.same e' = true → outcome e' = none :=
        fun d hd e' he' => hseen d hd e' (List.mem_cons_of_mem _ he')
      rw [distinct, List.findSome?_cons]
      split
      · next hany =>
          obtain ⟨d, hd, hde⟩ := List.any_eq_true.mp hany
          rw [hseen d hd e (List.mem_cons_self ..) hde]
          exact ih hlater hrest
      · rw [List.findSome?_cons]
        cases hnone : outcome e with
        | some b => rfl
        | none =>
            refine ih ?_ hrest
            intro d hd e' he' hde
            rcases List.mem_cons.mp hd with rfl | hd
            · exact hahead e' he' hde hnone
            · exact hlater d hd e' he' hde

theorem findSome?_flatMap (f : α → List β) {γ : Type} (g : β → Option γ) (l : List α) :
    (l.flatMap f).findSome? g = l.findSome? fun a => (f a).findSome? g := by
  induction l with
  | nil => rfl
  | cons a l ih =>
      rw [List.flatMap_cons, List.findSome?_append, ih, List.findSome?_cons]
      cases (f a).findSome? g <;> rfl

theorem mem_of_mem_distinct {seen ds : List Descriptor} {d : Descriptor}
    (h : d ∈ distinct seen ds) : d ∈ ds := by
  induction ds generalizing seen with
  | nil => exact h
  | cons e ds ih =>
      rw [distinct] at h
      split at h
      · exact List.mem_cons_of_mem _ (ih h)
      · rcases List.mem_cons.mp h with rfl | h
        · exact List.mem_cons_self ..
        · exact List.mem_cons_of_mem _ (ih h)

end Scan

namespace Store

variable {s t : Store} {files : Files} {sel : Selection}

theorem foldl_install (ps : List Plugin) (s : Store) :
    ∃ loaders parsers interceptors,
      ps.foldl (fun s p => s.install (p.bundle s.options)) s
        = { s with loaders := loaders, parsers := parsers, interceptors := interceptors } := by
  induction ps generalizing s with
  | nil => exact ⟨s.loaders, s.parsers, s.interceptors, rfl⟩
  | cons p ps ih => exact ih (s.install (p.bundle s.options))

theorem installPlugins_eq (s : Store) :
    s.installPlugins = { s with
      loaders := s.installPlugins.loaders
      parsers := s.installPlugins.parsers
      interceptors := s.installPlugins.interceptors } := by
  obtain ⟨loaders, parsers, interceptors, h⟩ := foldl_install s.plugins.values s
  rw [installPlugins, h]

@[simp] theorem installPlugins_schema (s : Store) : s.installPlugins.schema = s.schema := by
  rw [installPlugins_eq]

@[simp] theorem installPlugins_options (s : Store) : s.installPlugins.options = s.options := by
  rw [installPlugins_eq]

@[simp] theorem installPlugins_strictWalk (s : Store) :
    s.installPlugins.strictWalk = s.strictWalk := by
  rw [installPlugins_eq]
  rfl

@[simp] theorem installPlugins_configSources (s : Store) :
    s.installPlugins.configSources = s.configSources := by
  rw [installPlugins_eq]

@[simp] theorem installPlugins_loaded (s : Store) : s.installPlugins.loaded = s.loaded := by
  rw [installPlugins_eq]

def exitsWithout (s : Store) : Bool := s.options.noConfigExit || s.options.strict

def scanned (files : Files) (sel : Selection) (s : Store) : Option Source :=
  (s.installPlugins.scan files sel).found

def walked (files : Files) (sel : Selection) (s : Store) (schema : Schema) : Walk (Option Value) :=
  schema.walk s.installPlugins.interceptors s.strictWalk
    (initial schema (s.scanned files sel).toList)

def keeping (files : Files) (sel : Selection) (s : Store) (violations : List Violation)
    (sources : List Source) : Store :=
  { s.installPlugins with
    configSources := sources
    loaded := some ⟨violations, (s.scanned files sel).map Source.candidate⟩ }

inductive LoadsTo (files : Files) (sel : Selection) (s : Store) :
    Except Failure LoadResult → Store → Prop where
  | again {r : LoadResult} : s.loaded = some r → LoadsTo files sel s (.ok r) s
  | without : s.loaded = none → s.schema = none → s.scanned files sel = none →
      s.exitsWithout = true → LoadsTo files sel s (.error .noSources) s.installPlugins
  | refused {schema : Schema} {e : Failure} : s.loaded = none → s.schema = some schema →
      (s.walked files sel schema).result = .error e →
      LoadsTo files sel s (.error e) s.installPlugins
  | unchecked : s.loaded = none → s.schema = none →
      (s.scanned files sel = none → s.exitsWithout = false) →
      LoadsTo files sel s (.ok ⟨[], (s.scanned files sel).map Source.candidate⟩)
        (s.keeping files sel [] (s.scanned files sel).toList)
  | checked {schema : Schema} {v : Option Value} : s.loaded = none → s.schema = some schema →
      (s.walked files sel schema).result = .ok v →
      LoadsTo files sel s
        (.ok ⟨((s.walked files sel schema).collection s.strictWalk).list,
          (s.scanned files sel).map Source.candidate⟩)
        (s.keeping files sel ((s.walked files sel schema).collection s.strictWalk).list
          (withConfig (v.getD .null) (s.scanned files sel).toList))

theorem exitsWithout_installPlugins (s : Store) :
    s.installPlugins.exitsWithout = s.exitsWithout := by
  rw [exitsWithout, installPlugins_options, exitsWithout]

theorem finish_kept (s : Store) (vs : List Violation) (matched : Option Candidate)
    {sources : List Source} (h : sources = [] → s.exitsWithout = false) :
    (s.finish vs matched sources).result = .ok ⟨vs, matched⟩
      ∧ (s.finish vs matched sources).store
        = { s with configSources := sources, loaded := some ⟨vs, matched⟩ } := by
  cases sources with
  | cons source rest => exact ⟨rfl, rfl⟩
  | nil =>
      have hgoes : (s.options.noConfigExit || s.options.strict) = false := h rfl
      simp [finish, requireSource, Step.bind, Step.done, hgoes]

theorem finish_without (vs : List Violation) (matched : Option Candidate)
    (h : s.exitsWithout = true) :
    (s.finish vs matched []).result = .error .noSources
      ∧ (s.finish vs matched []).store = s := by
  have hfatal : (s.options.noConfigExit || s.options.strict) = true := h
  simp [finish, requireSource, Step.bind, hfatal]

theorem finish_withConfig (s : Store) (vs : List Violation) (matched : Option Candidate) (v : Value)
    (sources : List Source) :
    (s.finish vs matched (withConfig v sources)).result = .ok ⟨vs, matched⟩
      ∧ (s.finish vs matched (withConfig v sources)).store
        = { s with configSources := withConfig v sources, loaded := some ⟨vs, matched⟩ } := by
  cases sources <;> exact ⟨rfl, rfl⟩

theorem loadsTo_of_unchecked (hloaded : s.loaded = none) (hschema : s.schema = none) :
    s.LoadsTo files sel
      (s.installPlugins.finish [] ((s.scanned files sel).map Source.candidate)
        (s.scanned files sel).toList).result
      (s.installPlugins.finish [] ((s.scanned files sel).map Source.candidate)
        (s.scanned files sel).toList).store := by
  by_cases hgoes : s.scanned files sel = none → s.exitsWithout = false
  · obtain ⟨hresult, hstore⟩ := s.installPlugins.finish_kept []
      ((s.scanned files sel).map Source.candidate)
      (fun hfound => (exitsWithout_installPlugins s).trans
        (hgoes (Option.toList_eq_nil_iff.mp hfound)))
    rw [hresult, hstore]
    exact .unchecked hloaded hschema hgoes
  · obtain ⟨hfound, hexits⟩ := Classical.not_imp.mp hgoes
    have hexits : s.exitsWithout = true := by simpa using hexits
    obtain ⟨hresult, hstore⟩ := finish_without [] (Option.map Source.candidate none)
      ((exitsWithout_installPlugins s).trans hexits)
    rw [hfound, Option.toList_none, hresult, hstore]
    exact .without hloaded hschema hfound hexits

theorem loadsTo (files : Files) (sel : Selection) (s : Store) :
    s.LoadsTo files sel (s.load files sel).result (s.load files sel).store := by
  rw [load]
  cases hloaded : s.loaded with
  | some r => exact .again hloaded
  | none =>
      simp only [loadSources, installPlugins_schema, Option.head?_toList]
      cases hschema : s.schema with
      | none => exact loadsTo_of_unchecked hloaded hschema
      | some schema =>
          have hwalk : (schema.walk s.installPlugins.interceptors s.installPlugins.strictWalk
              (initial schema (s.installPlugins.scan files sel).found.toList)).result
                = (s.walked files sel schema).result := by
            rw [installPlugins_strictWalk, walked, scanned]
          cases hw : (s.walked files sel schema).result with
          | error e =>
              simp only [validate, hwalk, hw]
              exact .refused hloaded hschema hw
          | ok v =>
              simp only [validate, hwalk, hw]
              have hchecked := LoadsTo.checked hloaded hschema hw
              rw [walked, scanned, ← installPlugins_strictWalk] at hchecked
              rw [Step.after, Step.after, (finish_withConfig ..).1, (finish_withConfig ..).2]
              exact hchecked

theorem scan_found (files : Files) (s : Store) (sel : Selection) :
    (s.scan files sel).found = (Scan.candidates s.sources sel).findSome?
      (Scan.sourceOf files s.loaders.values s.parsers.values) := by
  simp only [scan, Scan.first_found, Scan.candidate_found]

theorem scan_first_match (files : Files) (s : Store) (sel : Selection) :
    let pick := Scan.sourceOf files s.loaders.values s.parsers.values
    let ordered := Descriptor.order sel.groups s.sources
    let listed (d : Descriptor) := d.candidates sel.groups sel.groupSuffix
    (ordered.Pairwise (fun d e => d.same e = true → d.path ≠ e.path →
          (listed d).findSome? pick = none → (listed e).findSome? pick = none) →
        (s.scan files sel).found = (ordered.flatMap listed).findSome? pick)
      ∧ (∀ source, (s.scan files sel).found = some source →
          ∃ c ∈ ordered.flatMap listed, ∃ text v,
            Scan.textOf files s.loaders.values c = some text
              ∧ Scan.valueOf s.parsers.values text c = some v
              ∧ source = ⟨v, c, some (Checksum.of text)⟩)
      ∧ ∀ e, (s.load files sel).result = .error e → e = .noSources
          ∨ ∃ schema, s.schema = some schema ∧ (s.walked files sel schema).result = .error e := by
  intro pick ordered listed
  have hscan : (s.scan files sel).found
      = ((Scan.distinct [] ordered).flatMap listed).findSome? pick := scan_found files s sel
  refine ⟨?_, ?_, ?_⟩
  · intro hspelled
    have hsame : ordered.Pairwise fun d e => d.same e = true →
        (listed d).findSome? pick = none → (listed e).findSome? pick = none := by
      apply hspelled.imp
      intro d e hother hde hnone
      by_cases hpath : d.path = e.path
      · rw [← Descriptor.eq_of_same hde hpath]
        exact hnone
      · exact hother hde hpath hnone
    rw [hscan, Scan.findSome?_flatMap, Scan.findSome?_flatMap]
    exact Scan.findSome?_distinct (fun d hd => absurd hd List.not_mem_nil) hsame
  · intro source hfound
    rw [hscan] at hfound
    obtain ⟨c, hc, hpick⟩ := List.exists_of_findSome?_eq_some hfound
    obtain ⟨d, hd, hcd⟩ := List.mem_flatMap.mp hc
    obtain ⟨text, htext, hvalue⟩ := Option.bind_eq_some_iff.mp hpick
    obtain ⟨v, hv, rfl⟩ := Option.map_eq_some_iff.mp hvalue
    exact ⟨c, List.mem_flatMap.mpr ⟨d, Scan.mem_of_mem_distinct hd, hcd⟩, text, v, htext, hv, rfl⟩
  · intro e he
    have hloads := s.loadsTo files sel
    rw [he] at hloads
    generalize (s.load files sel).store = t at hloads
    cases hloads with
    | without => exact Or.inl rfl
    | refused _ hschema hwalk => exact Or.inr ⟨_, hschema, hwalk⟩

theorem scan_first_match_behind_repeated :
    let o : SourceOptions := ⟨none, [], none⟩
    let s := ((({ new Options.default with
      loaders := [("fs", Loader.files)]
      parsers := [("json", Format.json.parser)] }).addSource "app" o).addSource "app" o).addSource
        "web" o
    let files : Files := ⟨[(["web.json"], .text "\x7b\"port\":80\x7d")]⟩
    let pick := Scan.sourceOf files s.loaders.values s.parsers.values
    let ordered := Descriptor.order [] s.sources
    let listed (d : Descriptor) := d.candidates [] none
    ordered.Pairwise (fun d e => d.same e = true → d.path = e.path)
      ∧ (s.scan files .any).found = (ordered.flatMap listed).findSome? pick
      ∧ (s.scan files .any).found.any (·.candidate.path == "web.json") = true := by
  intro o s files pick ordered listed
  have hspelled : ordered.Pairwise fun d e => d.same e = true → d.path = e.path := by
    decide +kernel
  refine ⟨hspelled, ?_, by decide +kernel⟩
  apply (scan_first_match files s .any).1
  apply hspelled.imp
  intro d e hpath hde hne
  exact absurd (hpath hde) hne

theorem scan_passes_over_spelling :
    let o : SourceOptions := ⟨none, [], none⟩
    let s := (((new Options.default).addPlugin .defaultFormats).store.addSource "app/" o).addSource
      "app" o
    let ready := s.installPlugins
    let files : Files := ⟨[(["app.json"], .text "\x7b\"port\":80\x7d")]⟩
    let pick := Scan.sourceOf files ready.loaders.values ready.parsers.values
    let ordered := Descriptor.order [] ready.sources
    (ready.scan files .any).found.isNone = true
      ∧ ((ordered.flatMap (·.candidates [] none)).findSome? pick).any
          (·.candidate.path == "app.json") = true := by
  decide +kernel

theorem LoadsTo.without_schema {result : Except Failure LoadResult}
    (h : s.LoadsTo files sel result t) (hfresh : s.loaded = none) (hschema : s.schema = none) :
    ((∃ e, result = .error e) ↔ s.scanned files sel = none ∧ s.exitsWithout = true)
      ∧ (∀ e, result = .error e → e = .noSources)
      ∧ ∀ r, result = .ok r → r.violations = []
        ∧ t.configSources = (s.scanned files sel).toList := by
  cases h with
  | again hloaded => cases hloaded.symm.trans hfresh
  | refused _ hsome => cases hsome.symm.trans hschema
  | checked _ hsome => cases hsome.symm.trans hschema
  | without _ _ hfound hexits =>
      refine ⟨iff_of_true ⟨_, rfl⟩ ⟨hfound, hexits⟩, ?_, nofun⟩
      intro e he
      exact (Except.error.inj he).symm
  | unchecked _ _ hgoes =>
      refine ⟨iff_of_false nofun ?_, nofun, ?_⟩
      · rintro ⟨hnone, hfatal⟩
        cases (hgoes hnone).symm.trans hfatal
      · intro r hr
        obtain rfl := Except.ok.inj hr
        exact ⟨rfl, rfl⟩

theorem violations_of_strict (hstrict : s.strictWalk = true) {schema : Schema} {v : Option Value}
    (h : (s.walked files sel schema).result = .ok v) :
    ((s.walked files sel schema).collection s.strictWalk).list = [] := by
  have hclean : (s.walked files sel schema).Clean := by
    rw [walked, hstrict]
    exact Node.clean_walk s.installPlugins.interceptors schema.root _ Location.root
  rw [Walk.collection, hclean v h]
  rfl

theorem withConfig_toList (v : Value) (found : Option Source) :
    ∃ source, withConfig v found.toList = [source] ∧ source.config = v := by
  cases found with
  | some source => exact ⟨{ source with config := v }, rfl, rfl⟩
  | none => exact ⟨⟨v, .defaults, none⟩, rfl, rfl⟩

theorem LoadsTo.with_schema {result : Except Failure LoadResult} {schema : Schema}
    (h : s.LoadsTo files sel result t) (hfresh : s.loaded = none)
    (hschema : s.schema = some schema) :
    let w := s.walked files sel schema
    (∀ e, result = .error e ↔ w.result = .error e)
      ∧ (∀ v, w.result = .ok v → ∃ r source, result = .ok r ∧ t.configSources = [source]
        ∧ source.config = v.getD .null ∧ r.violations = (w.collection s.strictWalk).list)
      ∧ (s.strictWalk = true → ∀ r, result = .ok r → r.violations = []) := by
  intro w
  cases h with
  | again hloaded => cases hloaded.symm.trans hfresh
  | without _ hnone => cases hnone.symm.trans hschema
  | unchecked _ hnone => cases hnone.symm.trans hschema
  | refused _ hsome hwalk =>
      obtain rfl := Option.some.inj (hsome.symm.trans hschema)
      have hw : w.result = .error _ := hwalk
      refine ⟨?_, ?_, nofun⟩
      · intro e
        rw [hw]
        simp only [Except.error.injEq]
      · intro v hv
        cases hw.symm.trans hv
  | checked _ hsome hwalk =>
      obtain rfl := Option.some.inj (hsome.symm.trans hschema)
      have hw : w.result = .ok _ := hwalk
      refine ⟨?_, ?_, ?_⟩
      · intro e
        rw [hw]
        simp only [reduceCtorEq]
      · intro v hv
        obtain rfl := Except.ok.inj (hw.symm.trans hv)
        obtain ⟨source, hsources, hconfig⟩ :=
          withConfig_toList (Option.getD _ .null) (s.scanned files sel)
        exact ⟨_, source, rfl, hsources, hconfig, rfl⟩
      · intro hstrict r hr
        obtain rfl := Except.ok.inj hr
        exact violations_of_strict hstrict hwalk

theorem initial_eq (schema : Schema) (found : Option Source) :
    initial schema found.toList = match found with
      | some source => some source.config
      | none => if schema.root.own.kind.any (·.has .object) then some (.object []) else none := by
  cases found with
  | some source => rfl
  | none =>
      rw [Option.toList_none, initial]
      cases schema.root.own.kind <;> rfl

theorem load_outcome {s : Store} (hfresh : s.loaded = none) (files : Files) (sel : Selection) :
    let ready := s.installPlugins
    let found := (ready.scan files sel).found
    let strict := s.options.strict || s.strictSchema
    let step := s.load files sel
    (s.schema = none →
        ((∃ e, step.result = .error e) ↔
            found = none ∧ (s.options.noConfigExit = true ∨ s.options.strict = true))
          ∧ (∀ e, step.result = .error e → e = .noSources)
          ∧ ∀ r, step.result = .ok r → r.violations = []
              ∧ step.store.configSources = found.toList)
      ∧ ∀ schema, s.schema = some schema →
          let given := match found with
            | some source => some source.config
            | none => if schema.root.own.kind.any (·.has .object) then some (.object []) else none
          let w := schema.walk ready.interceptors strict given
          (∀ e, step.result = .error e ↔ w.result = .error e)
            ∧ (∀ v, w.result = .ok v → ∃ r source, step.result = .ok r
                ∧ step.store.configSources = [source] ∧ source.config = v.getD .null
                ∧ r.violations = (w.collection strict).list)
            ∧ (strict = true → ∀ r, step.result = .ok r → r.violations = []) := by
  intro ready found strict step
  have hloads : s.LoadsTo files sel step.result step.store := s.loadsTo files sel
  refine ⟨?_, ?_⟩
  · intro hschema
    obtain ⟨hfails, hsources, hkept⟩ := hloads.without_schema hfresh hschema
    rw [exitsWithout, Bool.or_eq_true_iff] at hfails
    exact ⟨hfails, hsources, hkept⟩
  · intro schema hschema given w
    have hwalked : s.walked files sel schema = w := by
      rw [walked, initial_eq]
      rfl
    rw [← hwalked]
    exact hloads.with_schema hfresh hschema

theorem load_outcome_of_default :
    let port : Node := { Node.ofKind .integer with
      own := { Keywords.none with kind := some (.one .integer), default := some (.int 80) } }
    let schema := Schema.ofNode { Node.ofKind .object with properties := some [("port", port)] }
    let s := (((new Options.default).addPlugin .defaultFormats).store.setSchema schema true).store
    s.loaded = none
      ∧ ∃ r source, (s.load ⟨[]⟩ .any).result = .ok r
        ∧ (s.load ⟨[]⟩ .any).store.configSources = [source]
        ∧ source.config = .object [("port", .int 80)] ∧ r.violations = [] := by
  intro port schema s
  have hfresh : s.loaded = none := rfl
  obtain ⟨-, hchecked⟩ := load_outcome hfresh ⟨[]⟩ .any
  obtain ⟨-, hkept, hstrict⟩ := hchecked schema rfl
  obtain ⟨r, source, hresult, hsources, hconfig, -⟩ :=
    hkept (some (.object [("port", .int 80)])) rfl
  exact ⟨hfresh, r, source, hresult, hsources, hconfig, hstrict rfl r hresult⟩

end Store

end CheckedConfig
