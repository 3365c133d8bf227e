import CheckedConfig.Proofs.Session

namespace CheckedConfig

namespace Fields

variable {α : Type}

theorem has_set_iff (fs : Fields α) (n m : String) (v : α) :
    (fs.set n v).has m = true ↔ n = m ∨ fs.has m = true := by
  by_cases h : n = m
  · subst h
    rw [has, get?_set_self]
    simp
  · rw [has, get?_set_of_ne fs v h, has]
    simp [h]

theorem set_comm {fs : Fields α} {n m : String} (v w : α) (hne : n ≠ m)
    (h : fs.has n = true ∨ fs.has m = true) :
    (fs.set n v).set m w = (fs.set m w).set n v := by
  induction fs with
  | nil => simp [has, get?] at h
  | cons p rest ih =>
      obtain ⟨k, u⟩ := p
      by_cases hn : k = n
      · subst hn
        simp [set, hne]
      · by_cases hm : k = m
        · subst hm
          simp [set, hn]
        · have hrest : has rest n = true ∨ has rest m = true := by simpa [has, get?, hn, hm] using h
          simp [set, hn, hm, ih hrest]

def setAll (key : α → String) (l : List α) (fs : Fields α) : Fields α :=
  l.foldl (fun fs a => fs.set (key a) a) fs

variable {key : α → String} {l m : List α} {fs gs : Fields α} {n : String}

theorem setAll_append : setAll key (l ++ m) fs = setAll key m (setAll key l fs) :=
  List.foldl_append ..

theorem has_setAll (h : fs.has n = true) : (setAll key l fs).has n = true := by
  induction l generalizing fs with
  | nil => exact h
  | cons a l ih => exact ih ((has_set_iff fs _ n a).mpr (.inr h))

theorem get?_setAll (h : n ∉ l.map key) : (setAll key l fs).get? n = fs.get? n := by
  induction l generalizing fs with
  | nil => rfl
  | cons a l ih =>
      rw [List.map_cons, List.mem_cons, not_or] at h
      have hrest : get? (setAll key l (fs.set (key a) a)) n = get? (fs.set (key a) a) n := ih h.2
      exact hrest.trans (get?_set_of_ne fs a (Ne.symm h.1))

theorem setAll_set (v : α) (h : fs.has n = true ∨ ∀ a ∈ l, fs.has (key a) = true) :
    setAll key l (fs.set n v)
      = if n ∈ l.map key then setAll key l fs else (setAll key l fs).set n v := by
  induction l generalizing fs with
  | nil => rfl
  | cons a l ih =>
      by_cases ha : key a = n
      · have hoverwritten : (fs.set n v).set (key a) a = fs.set (key a) a := by
          rw [ha, set_set]
        have hmem : n ∈ (a :: l).map key := by simp [ha]
        rw [if_pos hmem]
        exact congrArg (setAll key l) hoverwritten
      · have hhas : fs.has n = true ∨ fs.has (key a) = true :=
          h.imp_right fun hall => hall a (List.mem_cons_self ..)
        have hswap : (fs.set n v).set (key a) a = (fs.set (key a) a).set n v :=
          set_comm v a (Ne.symm ha) hhas
        have hrest : (fs.set (key a) a).has n = true
            ∨ ∀ b ∈ l, (fs.set (key a) a).has (key b) = true :=
          h.imp (has_of_has_set _ _) fun hall b hb =>
            has_of_has_set _ _ (hall b (List.mem_cons_of_mem _ hb))
        have hmem : n ∈ (a :: l).map key ↔ n ∈ l.map key := by simp [Ne.symm ha]
        simp only [hmem]
        exact (congrArg (setAll key l) hswap).trans (ih hrest)

theorem setAll_setAll : setAll key l (setAll key l fs) = setAll key l fs := by
  induction l generalizing fs with
  | nil => rfl
  | cons a l ih =>
      have hself : (fs.set (key a) a).get? (key a) = some a := get?_set_self fs _ a
      have hhas : (setAll key l (fs.set (key a) a)).has (key a) = true :=
        has_setAll (by rw [has, hself]; rfl)
      have hstep : setAll key l ((setAll key l (fs.set (key a) a)).set (key a) a) = _ :=
        setAll_set a (.inl hhas)
      rw [ih] at hstep
      refine hstep.trans ?_
      split
      · rfl
      · next hno => exact set_get?_self ((get?_setAll hno).trans hself)

structure Primed (key : α → String) (l : List α) (fs gs : Fields α) : Prop where
  has : ∀ n, fs.has n = true → gs.has n = true
  same : setAll key l gs = setAll key l fs

theorem primed_setAll (key : α → String) (l : List α) (fs : Fields α) :
    Primed key l fs (setAll key l fs) :=
  ⟨fun _ => has_setAll, setAll_setAll⟩

theorem Primed.extend (h : Primed key l fs gs) (hl : l <+: m) : Primed key m fs gs := by
  obtain ⟨more, rfl⟩ := hl
  refine ⟨h.has, ?_⟩
  rw [setAll_append, setAll_append, h.same]

theorem Primed.set (h : Primed key l fs gs) {a : α}
    (ha : fs.has (key a) = true ∨ ∀ b ∈ l, fs.has (key b) = true) :
    Primed key l (fs.set (key a) a) (gs.set (key a) a) := by
  have hgs : gs.has (key a) = true ∨ ∀ b ∈ l, gs.has (key b) = true :=
    ha.imp (h.has _) fun hall b hb => h.has _ (hall b hb)
  constructor
  · intro n hn
    rw [has_set_iff] at hn ⊢
    exact hn.imp_right (h.has n)
  · rw [setAll_set a ha, setAll_set a hgs, h.same]

end Fields

namespace Store

variable {s t : Store} {files : Files} {sel : Selection} {e : Failure}

def brought (s : Store) : Bundle :=
  let bundles := s.plugins.values.map (·.bundle s.options)
  ⟨bundles.flatMap Bundle.loaders, bundles.flatMap Bundle.parsers,
    bundles.flatMap Bundle.interceptors⟩

theorem install_eq (s : Store) (b : Bundle) :
    s.install b = { s with
      loaders := Fields.setAll Loader.name b.loaders s.loaders
      parsers := Fields.setAll Parser.name b.parsers s.parsers
      interceptors := s.interceptors ++ b.interceptors } := rfl

theorem installPlugins_eq_install (s : Store) : s.installPlugins = s.install s.brought := by
  have hfold (ps : List Plugin) (s : Store) :
      ps.foldl (fun s p => s.install (p.bundle s.options)) s
        = s.install ⟨(ps.map (·.bundle s.options)).flatMap Bundle.loaders,
            (ps.map (·.bundle s.options)).flatMap Bundle.parsers,
            (ps.map (·.bundle s.options)).flatMap Bundle.interceptors⟩ := by
    induction ps generalizing s with
    | nil => simp [install]
    | cons p ps ih =>
        rw [List.foldl_cons, ih]
        simp only [install_eq, List.map_cons, List.flatMap_cons, Fields.setAll_append,
          List.append_assoc]
  exact hfold s.plugins.values s

theorem LoadsTo.store_of_error (h : s.LoadsTo files sel (.error e) t) : t = s.installPlugins := by
  cases h with
  | without => rfl
  | refused => rfl

theorem store_of_failed_load (h : (s.load files sel).result = .error e) :
    (s.load files sel).store = s.install s.brought := by
  have hloads := s.loadsTo files sel
  rw [h] at hloads
  rw [hloads.store_of_error, installPlugins_eq_install]

inductive Answer where
  | options (o : Options)
  | extensions (ext : List String)
  | removed (b : Bool)
  | nothing
  | reply (r : Except Failure Reply)

def Setup.answer (s : Store) (k : Setup) : Answer :=
  match k with
  | .options _ _ => .options (k.step s).store.options
  | .extensions _ => .extensions (k.step s).store.options.ext
  | .withoutInterceptor name => .removed (s.hasInterceptor name)
  | _ => .nothing

def Request.answer (files : Files) (s : Store) : Request → Answer × Trail
  | .setup k => (k.answer s, (k.step s).trail)
  | .access a => (.reply (a.step files s).result, (a.step files s).trail)

def replies (s : Store) : List (Files × Request) → List (Answer × Trail)
  | [] => []
  | (files, q) :: rest => q.answer files s :: (q.after files s).replies rest

structure Primed (s t : Store) : Prop where
  fresh : s.loaded = none
  others : t = { s with loaders := t.loaders, parsers := t.parsers }
  loaders : Fields.Primed Loader.name s.brought.loaders s.loaders t.loaders
  parsers : Fields.Primed Parser.name s.brought.parsers s.parsers t.parsers

/-- The call registers no loader or parser for which the order of the plugins' own ones would show,
and what the plugins bring after it starts with what they brought before. -/
structure Setup.KeepsOrder (s : Store) (k : Setup) : Prop where
  loader : ∀ l, k = .loader l →
    s.loaders.has l.name = true ∨ ∀ b ∈ s.brought.loaders, s.loaders.has b.name = true
  parser : ∀ p, k = .parser p →
    s.parsers.has p.name = true ∨ ∀ b ∈ s.brought.parsers, s.parsers.has b.name = true
  loaders : s.brought.loaders <+: (k.step s).store.brought.loaders
  parsers : s.brought.parsers <+: (k.step s).store.brought.parsers

def Orderly : Store → List (Files × Request) → Prop
  | _, [] => True
  | s, (_, .setup k) :: rest => k.KeepsOrder s ∧ Orderly (k.step s).store rest
  | s, (_, .access .listing) :: rest => Orderly s rest
  | _, (_, .access _) :: _ => True

theorem primed_of_failed_load (hfresh : s.loaded = none)
    (h : (s.load files sel).result = .error e) (hquiet : s.brought.interceptors = []) :
    s.Primed (s.load files sel).store := by
  rw [store_of_failed_load h]
  refine ⟨hfresh, ?_, Fields.primed_setAll _ _ _, Fields.primed_setAll _ _ _⟩
  rw [install_eq, hquiet, List.append_nil]

theorem Primed.installPlugins (h : s.Primed t) : t.installPlugins = s.installPlugins := by
  have hbrought : t.brought = s.brought := by
    rw [h.others]
    rfl
  rw [installPlugins_eq_install, installPlugins_eq_install, hbrought, install_eq, install_eq,
    h.loaders.same, h.parsers.same, h.others]

theorem Primed.load (h : s.Primed t) (files : Files) (sel : Selection) :
    t.load files sel = s.load files sel := by
  have hfresh : t.loaded = none := by
    rw [h.others]
    exact h.fresh
  rw [Store.load, hfresh, Store.load, h.fresh]
  simp only [loadSources, h.installPlugins]

theorem Primed.step (h : s.Primed t) {a : Access} (ha : a ≠ .listing) (files : Files) :
    a.step files t = a.step files s := by
  cases a with
  | load sel => rw [Access.step, h.load, Access.step]
  | get path => rw [Access.step, Store.get, withLoaded, h.load, Access.step, Store.get, withLoaded]
  | has path =>
      rw [Access.step, Store.has, Store.get, withLoaded, h.load, Access.step, Store.has, Store.get,
        withLoaded]
  | set path v schemaPath =>
      rw [Access.step, Store.set, withLoaded, h.load, Access.step, Store.set, withLoaded]
  | listing => exact absurd rfl ha

theorem Primed.setup (h : s.Primed t) {k : Setup} (hk : k.KeepsOrder s) :
    (k.step s).store.Primed (k.step t).store ∧ k.answer t = k.answer s
      ∧ (k.step t).trail = (k.step s).trail := by
  have hfresh : (k.step s).store.loaded = none := (k.step_loaded s).trans h.fresh
  obtain ⟨-, hothers, hloaders, hparsers⟩ := h
  generalize t.loaders = ls at hothers hloaders
  generalize t.parsers = ps at hothers hparsers
  subst hothers
  cases k with
  | loader l =>
      have hset := (hloaders.set (hk.loader l rfl)).extend hk.loaders
      exact ⟨⟨hfresh, rfl, hset, hparsers.extend hk.parsers⟩, rfl, rfl⟩
  | parser p =>
      have hset := (hparsers.set (hk.parser p rfl)).extend hk.parsers
      exact ⟨⟨hfresh, rfl, hloaders.extend hk.loaders, hset⟩, rfl, rfl⟩
  | _ => exact ⟨⟨hfresh, rfl, hloaders.extend hk.loaders, hparsers.extend hk.parsers⟩, rfl, rfl⟩

theorem Primed.configSources (h : s.Primed t) : t.configSources = s.configSources := by
  rw [h.others]

theorem Primed.replies (h : s.Primed t) {qs : List (Files × Request)} (hqs : s.Orderly qs) :
    t.replies qs = s.replies qs := by
  induction qs generalizing s t with
  | nil => rfl
  | cons p qs ih =>
      obtain ⟨files, q⟩ := p
      cases q with
      | setup k =>
          obtain ⟨hk, hrest⟩ := hqs
          obtain ⟨hnext, hanswer, htrail⟩ := h.setup hk
          simp only [Store.replies, Request.answer, Request.after, hanswer, htrail, ih hnext hrest]
      | access a =>
          by_cases ha : a = .listing
          · subst ha
            have hrest : t.replies qs = s.replies qs := ih h hqs
            simp only [Store.replies, Request.answer, Request.after, Access.step, Step.done,
              h.configSources, hrest]
          · simp only [Store.replies, Request.answer, Request.after, h.step ha files]

theorem failed_load_leaves_plugins (hfresh : s.loaded = none)
    (h : (s.load files sel).result = .error e) :
    (s.load files sel).store = { s with
        loaders := Fields.setAll Loader.name s.brought.loaders s.loaders
        parsers := Fields.setAll Parser.name s.brought.parsers s.parsers
        interceptors := s.interceptors ++ s.brought.interceptors }
      ∧ (s.load files sel).store.installPlugins = { s.installPlugins with
        interceptors := s.interceptors ++ s.brought.interceptors ++ s.brought.interceptors }
      ∧ (s.brought.interceptors = [] → ∀ qs : List (Files × Request), s.Orderly qs →
        (s.load files sel).store.replies qs = s.replies qs) := by
  have hstore := store_of_failed_load h
  refine ⟨hstore, ?_, fun hquiet qs hqs => (primed_of_failed_load hfresh h hquiet).replies hqs⟩
  have hbrought : (s.install s.brought).brought = s.brought := rfl
  rw [hstore, installPlugins_eq_install, hbrought, installPlugins_eq_install]
  simp only [install_eq, Fields.setAll_setAll]

theorem failed_load_leaves_plugins_formats :
    let s := ((new { Options.default with noConfigExit := true }).addPlugin
      Plugin.defaultFormats).store
    let files : Files := ⟨[(["app.json"], .text "\x7b\"port\":80\x7d")]⟩
    let qs : List (Files × Request) :=
      [(files, .setup (.source "app" ⟨none, [], none⟩)), (files, .access (.has "port"))]
    let found (p : Answer × Trail) : Bool := match p.1 with
      | .reply (.ok (.present b)) => b
      | _ => false
    s.loaded = none ∧ (s.load files .any).result = .error .noSources ∧ s.brought.interceptors = []
      ∧ s.Orderly qs ∧ (s.replies qs).any found = true
      ∧ (s.load files .any).store.replies qs = s.replies qs := by
  intro s files qs found
  have hfresh : s.loaded = none := rfl
  have herror : (s.load files .any).result = .error .noSources := rfl
  have hquiet : s.brought.interceptors = [] := rfl
  have horderly : s.Orderly qs := by
    refine ⟨⟨?_, ?_, List.prefix_refl _, List.prefix_refl _⟩, trivial⟩
    · intro l hl
      cases hl
    · intro p hp
      cases hp
  have hfound : (s.replies qs).any found = true := by decide +kernel
  have hsame := (failed_load_leaves_plugins hfresh herror).2.2 hquiet qs horderly
  exact ⟨hfresh, herror, hquiet, horderly, hfound, hsame⟩

theorem failed_load_repeats_interceptors :
    let env : Environment := [("A", "$B"), ("B", "x")]
    let root : Schema := Schema.ofNode { Node.ofKind .object with
      properties := some [("host", { Node.ofKind .string with
        own := { (Node.ofKind .string).own with default := some (.string "$A") } })] }
    let s := ((new { Options.default with noConfigExit := true }).addPlugin
      (Plugin.environment env)).store
    let qs : List (Files × Request) :=
      [(⟨[]⟩, .setup (.schema root false)), (⟨[]⟩, .access (.get "host"))]
    let gives (text : String) (p : Answer × Trail) : Bool := match p.1 with
      | .reply (.ok (.value (some (.string s)))) => s == text
      | _ => false
    s.loaded = none ∧ (s.load ⟨[]⟩ .any).result = .error .noSources
      ∧ (s.replies qs).any (gives "$B") = true
      ∧ ((s.load ⟨[]⟩ .any).store.replies qs).any (gives "$B") = false
      ∧ (s.load ⟨[]⟩ .any).store.replies qs ≠ s.replies qs := by
  intro env root s qs gives
  have hwithout : (s.replies qs).any (gives "$B") = true := by decide +kernel
  have hafter : ((s.load ⟨[]⟩ .any).store.replies qs).any (gives "$B") = false := by decide +kernel
  refine ⟨rfl, rfl, hwithout, hafter, ?_⟩
  intro h
  rw [h, hwithout] at hafter
  cases hafter

end Store

end CheckedConfig
