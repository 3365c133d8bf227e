import CheckedConfig.Proofs.Access
import CheckedConfig.Proofs.Load

namespace CheckedConfig

namespace Store

inductive Setup where
  | options (p : OptionsPatch) (replace : Bool)
  | extensions (ext : List String)
  | loader (l : Loader)
  | parser (p : Parser)
  | plugin (p : Plugin)
  | schema (root : Schema) (strict : Bool)
  | interceptor (i : Interceptor)
  | withoutInterceptor (name : String)
  | source (path : String) (o : SourceOptions)
  | formatter (f : Collection.Formatter)
  | arguments (a : Arguments)

def Setup.step (s : Store) : Setup → Step Unit
  | .options p replace => s.setOptions p replace
  | .extensions ext => s.addExtensions ext
  | .loader l => s.addLoader l
  | .parser p => s.addParser p
  | .plugin p => s.addPlugin p
  | .schema root strict => s.setSchema root strict
  | .interceptor i => .done (s.addInterceptor i) ()
  | .withoutInterceptor name => .done (s.removeInterceptor name) ()
  | .source path o => .done (s.addSource path o) ()
  | .formatter f => .done (s.setFormatter f) ()
  | .arguments a => .done (s.setArguments a) ()

inductive Access where
  | load (sel : Selection)
  | get (path : String)
  | has (path : String)
  | set (path : String) (v : Value) (schemaPath : Option String)
  | listing

inductive Reply where
  | loaded (r : LoadResult)
  | value (v : Option Value)
  | present (b : Bool)
  | written (r : SetResult)
  | listing (sources : List Source)

def replying {α : Type} (f : α → Reply) (s : Step α) : Step Reply :=
  ⟨s.result.map f, s.store, s.trail⟩

def Access.step (files : Files) (s : Store) : Access → Step Reply
  | .load sel => replying .loaded (s.load files sel)
  | .get path => replying .value (s.get files path)
  | .has path => replying .present (s.has files path)
  | .set path v schemaPath => replying .written (s.set files path v schemaPath)
  | .listing => .done s (.listing s.configSources)

inductive Request where
  | setup (k : Setup)
  | access (a : Access)

namespace Request

def after (files : Files) (s : Store) : Request → Store
  | .setup k => (k.step s).store
  | .access a => (a.step files s).store

end Request

def run (s : Store) : List (Files × Request) → Store
  | [] => s
  | (files, q) :: rest => (q.after files s).run rest

variable {s t : Store} {files : Files} {sel : Selection} {r : LoadResult}

theorem Setup.step_loaded (s : Store) (k : Setup) : (k.step s).store.loaded = s.loaded := by
  cases k <;> rfl

theorem Setup.step_configSources (s : Store) (k : Setup) :
    (k.step s).store.configSources = s.configSources := by
  cases k <;> rfl

theorem load_of_loaded (h : s.loaded = some r) : s.load files sel = .done s r := by
  rw [load, h]

theorem LoadsTo.fresh {result : Except Failure LoadResult} (h : s.LoadsTo files sel result t)
    (hfresh : s.loaded = none) :
    (t.loaded = none ∧ t.configSources = s.configSources ∧ ∃ e, result = .error e)
      ∨ ∃ r, t.loaded = some r ∧ result = .ok r := by
  cases h with
  | again hloaded => cases hloaded.symm.trans hfresh
  | without => exact Or.inl ⟨by simpa using hfresh, by simp, _, rfl⟩
  | refused => exact Or.inl ⟨by simpa using hfresh, by simp, _, rfl⟩
  | unchecked => exact Or.inr ⟨_, rfl, rfl⟩
  | checked => exact Or.inr ⟨_, rfl, rfl⟩

theorem withLoaded_of_error {α : Type} {e : Failure} (h : (s.load files .any).result = .error e)
    (f : Store → Step α) :
    s.withLoaded files f = ⟨.error e, (s.load files .any).store, (s.load files .any).trail⟩ := by
  rw [withLoaded, Step.bind, h]

theorem withLoaded_of_ok {α : Type} (h : (s.load files .any).result = .ok r)
    (f : Store → Step α) :
    s.withLoaded files f = (f (s.load files .any).store).after (s.load files .any).trail := by
  rw [withLoaded, Step.bind, h]
  rfl

theorem get_store (files : Files) (path : String) (s : Store) :
    (s.get files path).store = (s.load files .any).store := by
  rw [get]
  cases h : (s.load files .any).result with
  | error e => rw [withLoaded_of_error h]
  | ok r =>
      rw [withLoaded_of_ok h]
      rfl

theorem has_store (files : Files) (path : String) (s : Store) :
    (s.has files path).store = (s.load files .any).store := by
  rw [has, ← get_store files path, Step.bind]
  cases (s.get files path).result <;> rfl

theorem loaded_of_load (h : (s.load files sel).result = .ok r) :
    (s.load files sel).store.loaded = some r := by
  have hloads := s.loadsTo files sel
  rw [h] at hloads
  generalize (s.load files sel).store = t at hloads
  cases hloads with
  | again hloaded => exact hloaded
  | unchecked => rfl
  | checked => rfl

theorem set_of_load (h : (s.load files .any).result = .ok r) (path : String) (v : Value)
    (schemaPath : Option String) :
    s.set files path v schemaPath
      = ((s.load files .any).store.set files path v schemaPath).after
          (s.load files .any).trail := by
  have hloaded := loaded_of_load h
  rw [set, withLoaded_of_ok h, set, withLoaded, load_of_loaded hloaded]
  rfl

inductive Access.Leaves (files : Files) (s : Store) (a : Access) : Store → Prop where
  | asIs : a = .listing → Leaves files s a s
  | loaded (sel : Selection) : Leaves files s a (s.load files sel).store
  | written {r : LoadResult} {path : String} {v w : Value} {schemaPath : Option String}
      {source : Source} {rest : List Source} {config : Value} :
      (s.load files .any).result = .ok r → a = .set path v schemaPath →
      (s.set files path v schemaPath).result = .ok ⟨some w, []⟩ →
      (s.load files .any).store.configSources = source :: rest →
      Leaves files s a
        { (s.load files .any).store with
          configSources := { source with config := config } :: rest }

theorem SetsTo.leaves {segments : List String} {v : Value} {schemaPath : Option String}
    {result : Except Failure SetResult} (h : SetsTo s segments v schemaPath result t) :
    t = s ∨ ∃ w source rest config, result = .ok ⟨some w, []⟩ ∧ s.configSources = source :: rest
      ∧ t = { s with configSources := { source with config := config } :: rest } := by
  cases h with
  | failed => exact Or.inl rfl
  | refused => exact Or.inl rfl
  | committed hsources => exact Or.inr ⟨_, _, _, _, rfl, hsources, rfl⟩

theorem Access.leaves_of_set {path : String} {v : Value} {schemaPath : Option String}
    (h : (s.load files .any).result = .ok r) :
    (Access.set path v schemaPath).Leaves files s (s.set files path v schemaPath).store := by
  have hloaded : (s.load files .any).store.loaded.isSome = true := by
    rw [loaded_of_load h]
    rfl
  have hset := set_of_load h path v schemaPath
  rcases (setsTo_of_loaded hloaded files path v schemaPath).leaves with
    hstore | ⟨w, source, rest, config, hresult, hsources, hstore⟩
  · rw [hset, Step.after, hstore]
    exact .loaded .any
  · have hwritten : (s.set files path v schemaPath).result = .ok ⟨some w, []⟩ := by
      rw [hset]
      exact hresult
    rw [hset, Step.after, hstore]
    exact .written h rfl hwritten hsources

theorem Access.leaves (files : Files) (s : Store) (a : Access) :
    a.Leaves files s (a.step files s).store := by
  cases a with
  | load sel => exact .loaded sel
  | get path =>
      rw [Access.step, replying, get_store]
      exact .loaded .any
  | has path =>
      rw [Access.step, replying, has_store]
      exact .loaded .any
  | set path v schemaPath =>
      cases h : (s.load files .any).result with
      | error e =>
          rw [Access.step, replying, Store.set, withLoaded_of_error h]
          exact .loaded .any
      | ok r => exact leaves_of_set h
  | listing => exact .asIs rfl

def marks (s : Store) : List (Candidate × Option Checksum) :=
  s.configSources.map fun source => (source.candidate, source.checksum)

theorem length_marks (s : Store) : s.marks.length = s.configSources.length :=
  List.length_map ..

theorem configSources_of_marks {c : Candidate} {sum : Option Checksum}
    (h : s.marks = [(c, sum)]) : ∃ config, s.configSources = [⟨config, c, sum⟩] := by
  obtain ⟨source, hsources, hsource⟩ := List.map_eq_singleton_iff.mp h
  obtain ⟨rfl, rfl⟩ := Prod.mk.inj hsource
  exact ⟨source.config, hsources⟩

theorem after_of_loaded (h : s.loaded = some r) (files : Files) (q : Request) :
    (q.after files s).loaded = some r ∧ (q.after files s).marks = s.marks := by
  cases q with
  | setup k =>
      rw [Request.after, marks, k.step_loaded, k.step_configSources]
      exact ⟨h, rfl⟩
  | access a =>
      rw [Request.after]
      have hleaves := a.leaves files s
      generalize (a.step files s).store = t at hleaves
      cases hleaves with
      | asIs => exact ⟨h, rfl⟩
      | loaded sel =>
          rw [load_of_loaded h]
          exact ⟨h, rfl⟩
      | written _ _ _ hwritten =>
          rw [load_of_loaded h] at hwritten ⊢
          have hsources : s.configSources = _ :: _ := hwritten
          refine ⟨h, ?_⟩
          rw [marks, marks, hsources]
          rfl

theorem run_of_loaded (h : s.loaded = some r) (qs : List (Files × Request)) :
    (s.run qs).loaded = some r ∧ (s.run qs).marks = s.marks := by
  induction qs generalizing s with
  | nil => exact ⟨h, rfl⟩
  | cons p qs ih =>
      obtain ⟨files, q⟩ := p
      obtain ⟨hloaded, hmarks⟩ := after_of_loaded h files q
      obtain ⟨hrun, hkept⟩ := ih hloaded
      exact ⟨hrun, hkept.trans hmarks⟩

theorem configSources_after (h : s.loaded = some r) (files : Files) (q : Request) :
    (q.after files s).configSources = s.configSources
      ∨ ∃ path v schemaPath w source rest config, q = .access (.set path v schemaPath)
        ∧ (s.set files path v schemaPath).result = .ok ⟨some w, []⟩
        ∧ s.configSources = source :: rest
        ∧ (q.after files s).configSources = { source with config := config } :: rest := by
  cases q with
  | setup k => exact Or.inl (k.step_configSources s)
  | access a =>
      rw [Request.after]
      have hleaves := a.leaves files s
      generalize (a.step files s).store = t at hleaves
      cases hleaves with
      | asIs => exact Or.inl rfl
      | loaded sel =>
          rw [load_of_loaded h]
          exact Or.inl rfl
      | written _ ha hresult hsources =>
          rw [load_of_loaded h] at hsources
          exact Or.inr ⟨_, _, _, _, _, _, _, congrArg Request.access ha, hresult, hsources, rfl⟩

theorem origin_of_mem_candidates {d : Descriptor} {groups : List String} {groupSuffix : Option Bool}
    {c : Candidate} (h : c ∈ d.candidates groups groupSuffix) : c.origin = .file := by
  unfold Descriptor.candidates at h
  split at h
  · rw [List.mem_singleton.mp h]
  · obtain ⟨stem, -, hext⟩ := List.mem_flatMap.mp h
    obtain ⟨ext, -, rfl⟩ := List.mem_map.mp hext
    rfl

theorem marks_of_scanned {source : Source} (h : s.scanned files sel = some source) :
    source.candidate.origin = .file
      ∧ ∃ text, Scan.textOf files s.installPlugins.loaders.values source.candidate = some text
        ∧ source.checksum = some (Checksum.of text) := by
  rw [scanned, scan_found] at h
  obtain ⟨c, hc, hpick⟩ := List.exists_of_findSome?_eq_some h
  obtain ⟨rfl, hsum⟩ := Scan.sourceOf_eq_some hpick
  obtain ⟨d, -, hd⟩ := List.mem_flatMap.mp hc
  exact ⟨origin_of_mem_candidates hd, hsum⟩

theorem LoadsTo.marks_eq (h : s.LoadsTo files sel (.ok r) t) (hfresh : s.loaded = none) :
    r.matched = (s.scanned files sel).map Source.candidate
      ∧ (t.marks = (s.scanned files sel).toList.map
          (fun source => (source.candidate, source.checksum))
        ∨ s.scanned files sel = none ∧ t.marks = [(.defaults, none)]) := by
  cases h with
  | again hloaded => cases hloaded.symm.trans hfresh
  | unchecked => exact ⟨rfl, Or.inl rfl⟩
  | checked =>
      refine ⟨rfl, ?_⟩
      rw [marks, keeping]
      cases hfound : s.scanned files sel with
      | some source => exact Or.inl rfl
      | none => exact Or.inr ⟨rfl, rfl⟩

theorem marks_of_load (hfresh : s.loaded = none) (h : (s.load files sel).result = .ok r) :
    (∀ m, r.matched = some m → m.origin = .file
        ∧ ∃ text, Scan.textOf files s.installPlugins.loaders.values m = some text
          ∧ (s.load files sel).store.marks = [(m, some (Checksum.of text))])
      ∧ (r.matched = none → (s.load files sel).store.marks = []
        ∨ (s.load files sel).store.marks = [(.defaults, none)]) := by
  have hloads := s.loadsTo files sel
  rw [h] at hloads
  obtain ⟨hmatched, hmarks⟩ := hloads.marks_eq hfresh
  cases hfound : s.scanned files sel with
  | some source =>
      rw [hfound] at hmatched hmarks
      obtain ⟨horigin, text, htext, hsum⟩ := marks_of_scanned hfound
      refine ⟨?_, fun hnone => absurd (hmatched.symm.trans hnone) (by simp)⟩
      intro m hm
      obtain rfl : source.candidate = m := Option.some.inj (hmatched.symm.trans hm)
      refine ⟨horigin, text, htext, ?_⟩
      rcases hmarks with hmarks | ⟨hnone, -⟩
      · rw [hmarks, Option.toList_some, List.map_singleton, hsum]
      · cases hnone
  | none =>
      rw [hfound] at hmatched hmarks
      refine ⟨fun m hm => absurd (hmatched.symm.trans hm) (by simp), ?_⟩
      intro _
      rcases hmarks with hmarks | ⟨-, hmarks⟩
      · exact Or.inl hmarks
      · exact Or.inr hmarks

theorem after_of_fresh (hfresh : s.loaded = none) (hempty : s.configSources = [])
    (files : Files) (q : Request) :
    ((q.after files s).loaded = none ∧ (q.after files s).configSources = [])
      ∨ ∃ sel r, (s.load files sel).result = .ok r ∧ (q.after files s).loaded = some r
        ∧ (q.after files s).marks = (s.load files sel).store.marks := by
  cases q with
  | setup k =>
      rw [Request.after, k.step_loaded, k.step_configSources]
      exact Or.inl ⟨hfresh, hempty⟩
  | access a =>
      rw [Request.after]
      have hleaves := a.leaves files s
      generalize (a.step files s).store = t at hleaves
      cases hleaves with
      | asIs => exact Or.inl ⟨hfresh, hempty⟩
      | loaded sel =>
          rcases (s.loadsTo files sel).fresh hfresh with ⟨hnone, hkept, -⟩ | ⟨r, hloaded, hok⟩
          · exact Or.inl ⟨hnone, hkept.trans hempty⟩
          · exact Or.inr ⟨sel, r, hok, hloaded, rfl⟩
      | @written r _ _ _ _ _ _ _ hok _ _ hsources =>
          refine Or.inr ⟨.any, r, hok, loaded_of_load hok, ?_⟩
          rw [marks, marks, hsources]
          rfl

theorem run_of_fresh (hfresh : s.loaded = none) (hempty : s.configSources = [])
    (qs : List (Files × Request)) :
    ((s.run qs).loaded = none ∧ (s.run qs).configSources = [])
      ∨ ∃ before files q rest sel r, qs = before ++ (files, q) :: rest
        ∧ (s.run before).loaded = none ∧ ((s.run before).load files sel).result = .ok r
        ∧ (q.after files (s.run before)).loaded = some r ∧ (s.run qs).loaded = some r
        ∧ (s.run qs).marks = ((s.run before).load files sel).store.marks := by
  induction qs generalizing s with
  | nil => exact Or.inl ⟨hfresh, hempty⟩
  | cons p qs ih =>
      obtain ⟨files, q⟩ := p
      rcases after_of_fresh hfresh hempty files q with
        ⟨hnone, hnil⟩ | ⟨sel, r, hok, hloaded, hmarks⟩
      · rcases ih hnone hnil with hstill | ⟨before, files', q', rest, sel, r, hqs, hrest⟩
        · exact Or.inl hstill
        · refine Or.inr ⟨(files, q) :: before, files', q', rest, sel, r, ?_, hrest⟩
          rw [hqs, List.cons_append]
      · obtain ⟨hrun, hkept⟩ := run_of_loaded hloaded qs
        exact Or.inr ⟨[], files, q, qs, sel, r, rfl, hfresh, hok, hloaded, hrun, hkept.trans hmarks⟩

theorem length_marks_of_load (hfresh : s.loaded = none) (h : (s.load files sel).result = .ok r) :
    (s.load files sel).store.marks.length ≤ 1 := by
  obtain ⟨hmatched, hunmatched⟩ := marks_of_load hfresh h
  cases hm : r.matched with
  | some m =>
      obtain ⟨-, text, -, hmarks⟩ := hmatched m hm
      simp [hmarks]
  | none =>
      rcases hunmatched hm with hmarks | hmarks <;> simp [hmarks]

theorem length_run_new (o : Options) (qs : List (Files × Request)) :
    ((new o).run qs).configSources.length ≤ 1 := by
  rcases run_of_fresh (s := new o) rfl rfl qs with
    ⟨-, hempty⟩ | ⟨before, files, q, rest, sel, r, -, hfresh, hok, -, -, hmarks⟩
  · simp [hempty]
  · rw [← length_marks, hmarks]
    exact length_marks_of_load hfresh hok

theorem session_settles (o : Options) (qs : List (Files × Request)) :
    let s := (new o).run qs
    s.configSources.length ≤ 1
      ∧ (s.loaded = none → s.configSources = [])
      ∧ ∀ r, s.loaded = some r →
          (∀ more, (s.run more).loaded = some r)
            ∧ (∀ m, r.matched = some m → m.origin = .file
                ∧ ∃ before files q rest text config, qs = before ++ (files, q) :: rest
                  ∧ ((new o).run before).loaded = none
                  ∧ (q.after files ((new o).run before)).loaded = some r
                  ∧ Scan.textOf files ((new o).run before).installPlugins.loaders.values m
                    = some text
                  ∧ s.configSources = [⟨config, m, some (Checksum.of text)⟩])
            ∧ (r.matched = none →
                s.configSources = [] ∨ ∃ config, s.configSources = [⟨config, .defaults, none⟩])
            ∧ ∀ files (q : Request), (q.after files s).configSources = s.configSources
                ∨ ∃ path v schemaPath w source config, q = .access (.set path v schemaPath)
                  ∧ (s.set files path v schemaPath).result = .ok ⟨some w, []⟩
                  ∧ s.configSources = [source]
                  ∧ (q.after files s).configSources = [{ source with config := config }] := by
  intro s
  have hruns := run_of_fresh (s := new o) rfl rfl qs
  have hlength : s.configSources.length ≤ 1 := length_run_new o qs
  refine ⟨hlength, ?_, ?_⟩
  · intro hnone
    rcases hruns with ⟨-, hempty⟩ | ⟨_, _, _, _, _, _, _, _, _, _, hloaded, _⟩
    · exact hempty
    · cases hnone.symm.trans hloaded
  · intro r hr
    rcases hruns with ⟨hnone, -⟩ |
      ⟨before, files, q, rest, sel, r', hqs, hfresh, hok, hloaded, hrun, hmarks⟩
    · cases hnone.symm.trans hr
    obtain rfl : r' = r := Option.some.inj (hrun.symm.trans hr)
    obtain ⟨hmatched, hunmatched⟩ := marks_of_load hfresh hok
    refine ⟨fun more => (run_of_loaded hr more).1, ?_, ?_, ?_⟩
    · intro m hm
      obtain ⟨horigin, text, htext, hsource⟩ := hmatched m hm
      obtain ⟨config, hsources⟩ := configSources_of_marks (hmarks.trans hsource)
      exact ⟨horigin, before, files, q, rest, text, config, hqs, hfresh, hloaded, htext, hsources⟩
    · intro hm
      rcases hunmatched hm with hsource | hsource
      · exact Or.inl (List.map_eq_nil_iff.mp (hmarks.trans hsource))
      · exact Or.inr (configSources_of_marks (hmarks.trans hsource))
    · intro files q
      rcases configSources_after hr files q with hsame |
        ⟨path, v, schemaPath, w, source, rest, config, hq, hset, hsources, hafter⟩
      · exact Or.inl hsame
      · obtain rfl : rest = [] := by
          rw [hsources, List.length_cons] at hlength
          exact List.eq_nil_of_length_eq_zero (by omega)
        exact Or.inr ⟨path, v, schemaPath, w, source, config, hq, hset, hsources, hafter⟩

def answers (s : Store) : List (Files × Access) → List (Except Failure Reply × Trail)
  | [] => []
  | (files, a) :: rest =>
      ((a.step files s).result, (a.step files s).trail) :: (a.step files s).store.answers rest

structure Alike (s t : Store) : Prop where
  loaded : t.loaded = s.loaded
  sources : t.configSources = s.configSources
  interceptors : t.interceptors = s.interceptors
  formatter : t.formatter = s.formatter

structure StepsAlike {α : Type} (a b : Step α) : Prop where
  result : b.result = a.result
  trail : b.trail = a.trail
  store : a.store.Alike b.store

def Access.FindsSame (s t : Store) : Access → Prop
  | .set path _ schemaPath =>
      t.target (Path.split path) schemaPath = s.target (Path.split path) schemaPath
  | _ => True

section

variable {α β : Type} {source : Source} {segments : List String} {v : Value}

theorem Alike.done (h : s.Alike t) (a : α) : StepsAlike (.done s a) (.done t a) :=
  ⟨rfl, rfl, h⟩

theorem Alike.failed (h : s.Alike t) (f : Failure) :
    StepsAlike (.failed s f : Step α) (.failed t f) :=
  ⟨rfl, rfl, h⟩

theorem StepsAlike.after {a b : Step α} (h : StepsAlike a b) (trail : Trail) :
    StepsAlike (a.after trail) (b.after trail) :=
  ⟨h.result, congrArg (trail ++ ·) h.trail, h.store⟩

theorem StepsAlike.replying {a b : Step α} (h : StepsAlike a b) (f : α → Reply) :
    StepsAlike (replying f a) (replying f b) :=
  ⟨congrArg (Except.map f) h.result, h.trail, h.store⟩

theorem Alike.walkTrail (h : s.Alike t) (w : Walk α) : t.walkTrail w = s.walkTrail w := by
  rw [Store.walkTrail, h.formatter, h.interceptors, Store.walkTrail]

theorem Alike.commit (h : s.Alike t) :
    StepsAlike (s.commit source segments v) (t.commit source segments v) := by
  unfold Store.commit
  cases source.config.write segments v with
  | error e => exact h.failed e
  | ok config =>
      have hsources : t.configSources.modifyHead ({ · with config := config })
          = s.configSources.modifyHead ({ · with config := config }) := by
        rw [h.sources]
      exact ⟨rfl, rfl, ⟨h.loaded, hsources, h.interceptors, h.formatter⟩⟩

theorem Alike.commitChecked (h : s.Alike t) (found : Node.Found) :
    StepsAlike (s.commitChecked source segments v found)
      (t.commitChecked source segments v found) := by
  simp only [Store.commitChecked, h.interceptors, h.walkTrail]
  apply StepsAlike.after
  split
  · exact h.failed _
  · split
    · exact h.commit
    · exact h.done _

theorem Alike.setLoaded (h : s.Alike t) {path : String} {schemaPath : Option String}
    (hfinds : (Access.set path v schemaPath).FindsSame s t) :
    StepsAlike (s.setLoaded path v schemaPath) (t.setLoaded path v schemaPath) := by
  have htarget : t.target (Path.split path) schemaPath = s.target (Path.split path) schemaPath :=
    hfinds
  simp only [Store.setLoaded, active, h.sources, htarget]
  split
  · exact h.failed _
  · split
    · exact h.failed _
    · split
      · exact h.failed _
      · exact h.commit
      · exact h.commitChecked _

theorem withLoaded_of_loaded (h : s.loaded = some r) (f : Store → Step α) :
    s.withLoaded files f = f s := by
  rw [withLoaded, load_of_loaded h]
  rfl

theorem get_of_loaded (h : s.loaded = some r) (path : String) :
    s.get files path = .done s (s.config?.bind (·.lookup path)) := by
  rw [get, withLoaded_of_loaded h]

theorem has_of_loaded (h : s.loaded = some r) (path : String) :
    s.has files path = .done s (s.config?.bind (·.lookup path)).isSome := by
  rw [has, get_of_loaded h]
  rfl

end

theorem Alike.step (h : s.Alike t) (hloaded : s.loaded = some r) {a : Access}
    (hfinds : a.FindsSame s t) (files : Files) :
    StepsAlike (a.step files s) (a.step files t) := by
  have hloaded' : t.loaded = some r := h.loaded.trans hloaded
  have hconfig : t.config? = s.config? := by
    rw [config?, active, h.sources, config?, active]
  cases a with
  | load sel =>
      rw [Access.step, Access.step, load_of_loaded hloaded, load_of_loaded hloaded']
      exact (h.done r).replying _
  | get path =>
      rw [Access.step, Access.step, get_of_loaded hloaded, get_of_loaded hloaded', hconfig]
      exact (h.done _).replying _
  | has path =>
      rw [Access.step, Access.step, has_of_loaded hloaded, has_of_loaded hloaded', hconfig]
      exact (h.done _).replying _
  | set path v schemaPath =>
      rw [Access.step, Access.step, Store.set, Store.set, withLoaded_of_loaded hloaded,
        withLoaded_of_loaded hloaded']
      exact (h.setLoaded hfinds).replying _
  | listing =>
      rw [Access.step, Access.step, h.sources]
      exact h.done _

theorem target_congr (h : t.schema = s.schema) (segments : List String)
    (schemaPath : Option String) : t.target segments schemaPath = s.target segments schemaPath := by
  rw [target, h, target]

theorem Access.step_schema (hloaded : s.loaded = some r) (files : Files) (a : Access) :
    (a.step files s).store.schema = s.schema := by
  have hleaves := a.leaves files s
  generalize (a.step files s).store = t at hleaves
  cases hleaves with
  | asIs => rfl
  | loaded sel => rw [load_of_loaded hloaded]; rfl
  | written => rw [load_of_loaded hloaded]; rfl

theorem Access.FindsSame.congr {s' t' : Store} {a : Access} (h : a.FindsSame s t)
    (hs : s'.schema = s.schema) (ht : t'.schema = t.schema) : a.FindsSame s' t' := by
  cases a with
  | set path v schemaPath => exact (target_congr ht _ _).trans (h.trans (target_congr hs _ _).symm)
  | _ => trivial

theorem Alike.answers (h : s.Alike t) (hloaded : s.loaded = some r) {as : List (Files × Access)}
    (hfinds : ∀ p ∈ as, p.2.FindsSame s t) : t.answers as = s.answers as := by
  induction as generalizing s t with
  | nil => rfl
  | cons p as ih =>
      obtain ⟨files, a⟩ := p
      have hstep : StepsAlike (a.step files s) (a.step files t) :=
        h.step hloaded (hfinds (files, a) (List.mem_cons_self ..)) files
      have hkept : (a.step files s).store.loaded = some r :=
        (after_of_loaded hloaded files (.access a)).1
      have hrest : ∀ p ∈ as, p.2.FindsSame (a.step files s).store (a.step files t).store :=
        fun p hp => (hfinds p (List.mem_cons_of_mem _ hp)).congr (a.step_schema hloaded files)
          (a.step_schema (h.loaded.trans hloaded) files)
      rw [Store.answers, Store.answers, hstep.result, hstep.trail, ih hstep.store hkept hrest]

def Setup.method? : Setup → Option String
  | .options .. => some "set_options"
  | .extensions _ => some "add_extension"
  | .loader _ => some "add_loader"
  | .parser _ => some "add_parser"
  | .plugin _ => some "add_plugin"
  | .schema .. => some "set_schema"
  | .interceptor _ | .withoutInterceptor _ | .source .. | .formatter _ | .arguments _ => none

variable {k : Setup} {method : String}

theorem Setup.notices_of_loaded (hloaded : s.loaded = some r) (hk : k.method? = some method) :
    (k.step s).trail.notices = [.late method] := by
  have hlate : (s.late method).notices = [.late method] := by
    rw [late, hloaded]
    rfl
  cases k with
  | interceptor | withoutInterceptor | source | formatter | arguments => cases hk
  | _ =>
      obtain rfl := Option.some.inj hk
      exact hlate

theorem Setup.alike (s : Store) (hk : k.method? = some method) : s.Alike (k.step s).store := by
  cases k with
  | interceptor | withoutInterceptor | source | formatter | arguments => cases hk
  | _ => exact ⟨rfl, rfl, rfl, rfl⟩

theorem Setup.findsSame (s : Store) (hk : ∀ root strict, k ≠ .schema root strict) (a : Access) :
    a.FindsSame s (k.step s).store := by
  have hschema : (k.step s).store.schema = s.schema := by
    cases k with
    | schema root strict => exact absurd rfl (hk root strict)
    | _ => rfl
  cases a with
  | set path v schemaPath => exact target_congr hschema _ _
  | _ => trivial

theorem late_setup_unheard (hloaded : s.loaded = some r) (hk : k.method? = some method) :
    (k.step s).trail.notices = [.late method]
      ∧ (∀ as : List (Files × Access), (∀ p ∈ as, p.2.FindsSame s (k.step s).store) →
        (k.step s).store.answers as = s.answers as)
      ∧ ((∀ root strict, k ≠ .schema root strict) →
        ∀ as, (k.step s).store.answers as = s.answers as) := by
  have halike : s.Alike (k.step s).store := Setup.alike s hk
  refine ⟨Setup.notices_of_loaded hloaded hk, ?_, ?_⟩
  · intro as hfinds
    exact halike.answers hloaded hfinds
  · intro hother as
    exact halike.answers hloaded fun p _ => Setup.findsSame s hother p.2

theorem late_setup_unheard_strict :
    let opened := Schema.ofNode (Node.ofKind .object)
    let s := (((new Options.default).setSchema opened false).store.load ⟨[]⟩ .any).store
    let k : Setup := .options ⟨none, some true, none, some true⟩ false
    let as : List (Files × Access) :=
      [(⟨[]⟩, .load .any), (⟨[]⟩, .set "log" (.int 1) none), (⟨[]⟩, .get "log")]
    s.loaded = some ⟨[], none⟩
      ∧ k.method? = some "set_options"
      ∧ (k.step s).store.options ≠ s.options
      ∧ (k.step s).store.answers as = s.answers as := by
  intro opened s k as
  have hloaded : s.loaded = some ⟨[], none⟩ := rfl
  have hk : k.method? = some "set_options" := rfl
  have hother : ∀ root strict, k ≠ .schema root strict := fun _ _ => Setup.noConfusion
  exact ⟨hloaded, hk, by decide, (late_setup_unheard hloaded hk).2.2 hother as⟩

theorem late_schema_refuses_sets :
    let closed := Schema.ofNode { Node.ofKind .object with
      properties := some [("log", Node.ofKind .boolean)] }
    let opened := Schema.ofNode (Node.ofKind .object)
    let s := (((new Options.default).setSchema opened false).store.load ⟨[]⟩ .any).store
    let late := s.setSchema closed false
    let as : List (Files × Access) := [(⟨[]⟩, .set "log" (.int 1) none)]
    let goesThrough (p : Except Failure Reply × Trail) : Bool := match p.1 with
      | .ok (.written r) => r.committed
      | _ => false
    Notice.late "set_schema" ∈ late.trail.notices
      ∧ (s.answers as).any goesThrough = true
      ∧ (late.store.answers as).any goesThrough = false
      ∧ late.store.answers as ≠ s.answers as := by
  intro closed opened s late as goesThrough
  have hbefore : (s.answers as).any goesThrough = true := by decide +kernel
  have hafter : (late.store.answers as).any goesThrough = false := by decide +kernel
  refine ⟨List.mem_singleton.mpr rfl, hbefore, hafter, ?_⟩
  intro h
  rw [h, hbefore] at hafter
  cases hafter

end Store

end CheckedConfig
