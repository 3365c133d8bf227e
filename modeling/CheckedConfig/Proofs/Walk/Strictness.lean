import CheckedConfig.Proofs.Collection
import CheckedConfig.Proofs.Walk.Simulation

namespace CheckedConfig

namespace Walk

variable {α β : Type}

def Quiet (w : Walk α) : Prop := (∃ a, w.result = .ok a) ∧ w.violations = []

inductive Agrees (lenient strict : Walk α) : Prop where
  | clean (a : α) : lenient.result = .ok a → lenient.violations = [] →
      strict.result = .ok a → strict.violations = [] → Agrees lenient strict
  | stops (a : α) (path : String) (batch rest : List Violation) :
      lenient.result = .ok a → lenient.violations = batch ++ rest →
      batch ≠ [] → (∀ v ∈ batch, v.path = path) →
      strict.result = .error (.strict ⟨batch.length, batch⟩) → strict.violations = batch →
      Agrees lenient strict

theorem quiet_pure (a : α) : (Pure.pure a : Walk α).Quiet := ⟨⟨a, rfl⟩, rfl⟩

theorem quiet_passes {w : Walk α} {a : α} (h : w.result = .ok a) : w.passes.Quiet :=
  ⟨⟨w.violations.isEmpty, by rw [passes, h]; rfl⟩, rfl⟩

theorem Quiet.agrees {w : Walk α} (h : w.Quiet) : Agrees w w := by
  obtain ⟨⟨a, ha⟩, hnil⟩ := h
  exact .clean a ha hnil ha hnil

theorem Agrees.pure (a : α) : Agrees (Pure.pure a) (Pure.pure a) := (quiet_pure a).agrees

theorem Agrees.returns {l s : Walk α} (h : Agrees l s) : ∃ a, l.result = .ok a := by
  cases h with
  | clean a ha => exact ⟨a, ha⟩
  | stops a _ _ _ ha => exact ⟨a, ha⟩

theorem Agrees.bind {l s : Walk α} {f g : α → Walk β} (h : Agrees l s)
    (hfg : ∀ a, Agrees (f a) (g a)) : Agrees (l >>= f) (s >>= g) := by
  cases h with
  | clean a hl hlnil hs hsnil =>
      rw [bind_of_ok hl, bind_of_ok hs, hlnil, hsnil]
      cases hfg a with
      | clean b hf hfnil hg hgnil => exact .clean b hf hfnil hg hgnil
      | stops b path batch rest hf hfeq hne hpath hg hgeq =>
          exact .stops b path batch rest hf hfeq hne hpath hg hgeq
  | stops a path batch rest hl hleq hne hpath hs hseq =>
      obtain ⟨b, hb⟩ := (hfg a).returns
      rw [bind_of_ok hl, bind_of_error hs]
      refine .stops b path batch (rest ++ (f a).violations) hb ?_ hne hpath rfl hseq
      simp only [hleq, List.append_assoc]

theorem Agrees.emit {path : String} {vs : List Violation} (h : ∀ v ∈ vs, v.path = path) :
    Agrees (emit false vs) (emit true vs) := by
  have hlenient : (Walk.emit false vs).result = .ok () := by
    simp [Walk.emit, Collection.extend, Collection.strict_recordAll, Collection.new]
  by_cases hvs : vs = []
  · subst hvs
    exact .clean () rfl rfl rfl rfl
  · have hlist := Collection.list_new_recordAll_of_path true h
    have hsize := Collection.size_new_recordAll true vs
    have hstrict : (Walk.emit true vs).result = .error (.strict ⟨vs.length, vs⟩) := by
      rw [hlist] at hsize
      have htrue : ((Collection.new true).recordAll vs).strict = true :=
        Collection.strict_recordAll _ vs
      simp [Walk.emit, Collection.extend, htrue, hvs, hlist, hsize]
    exact .stops () path vs [] hlenient (List.append_nil vs).symm hvs h hstrict rfl

theorem simulation_agrees : Simulation Agrees false true := ⟨.pure, .bind, .emit⟩

end Walk

def Interceptor.Sound (chain : List Interceptor) : Prop :=
  ∀ i ∈ chain, ∀ v place, ∃ w, i.intercept v place = .ok w

theorem Interceptor.Sound.run {chain : List Interceptor} (h : Sound chain) (place : Place)
    (v : Option Value) : ∃ w, (run place chain v).2 = .ok w := by
  induction chain generalizing v with
  | nil => exact ⟨v, rfl⟩
  | cons i chain ih =>
      obtain ⟨w, hw⟩ := h i (List.mem_cons_self ..) v place
      have hrest : Sound chain := fun j hj => h j (List.mem_cons_of_mem _ hj)
      obtain ⟨u, hu⟩ := ih hrest (w <|> v)
      refine ⟨u, ?_⟩
      rw [Interceptor.run, hw]
      exact hu

namespace Node

variable {chain : List Interceptor}

theorem quiet_enter (h : Interceptor.Sound chain) (n : Node) (origin : Option Value)
    (here : Location) : (enter chain n origin here).Quiet := by
  by_cases hnil : chain.isEmpty = true
  · simp only [enter, hnil, if_true]
    exact Walk.quiet_pure _
  · simp only [enter, hnil]
    exact ⟨h.run _ _, rfl⟩

theorem agrees_trials : SimTrials Walk.Agrees false true chain chain := by
  intro n hn w here
  obtain ⟨a, ha⟩ := (hn (some w) here).returns
  exact (Walk.quiet_passes ha).agrees

theorem agrees_walk (hchain : Interceptor.Sound chain) (n : Node) :
    n.Sim Walk.Agrees false true chain chain :=
  sim_walk Walk.simulation_agrees (fun n origin here => (quiet_enter hchain n origin here).agrees)
    agrees_trials n

theorem quiet_trialsFrom (hchain : Interceptor.Sound chain) (ns : List Node) (operator : Keyword)
    (i : Nat) (w : Value) (here : Location) :
    ∀ t ∈ trialsFrom chain ns operator i w here, t.Quiet := by
  induction ns generalizing i with
  | nil => simp [trialsFrom]
  | cons c ns ih =>
      intro t ht
      rw [trialsFrom] at ht
      rcases List.mem_cons.mp ht with rfl | ht
      · obtain ⟨a, ha⟩ := (agrees_walk hchain c (some w) (here.branch operator i)).returns
        exact Walk.quiet_passes ha
      · exact ih (i + 1) t ht

theorem quiet_trials (hchain : Interceptor.Sound chain) (branches : Option (List Node))
    (operator : Keyword) (w : Value) (here : Location) :
    ∀ t ∈ trials chain branches operator w here, t.Quiet := by
  cases branches with
  | none => simp [trials]
  | some ns => exact quiet_trialsFrom hchain ns operator 0 w here

end Node

namespace Walk

variable {α : Type}

def Clean (w : Walk α) : Prop := ∀ a, w.result = .ok a → w.violations = []

theorem clean_bind {β : Type} {w : Walk α} {f : α → Walk β} (hw : w.Clean)
    (hf : ∀ a, (f a).Clean) : (w >>= f).Clean := by
  intro b hb
  cases ha : w.result with
  | error e =>
      rw [bind_of_error ha] at hb
      cases hb
  | ok a =>
      rw [bind_of_ok ha] at hb ⊢
      simp only [hw a ha, hf a b hb, List.append_nil]

theorem clean_emit (vs : List Violation) : (emit true vs).Clean := by
  intro a ha
  have hstrict : ((Collection.new true).recordAll vs).strict = true :=
    Collection.strict_recordAll _ vs
  by_cases hvs : vs = []
  · exact hvs
  · simp [emit, Collection.extend, hstrict, hvs] at ha

theorem simulation_clean : Simulation (fun w _ => w.Clean) true true :=
  ⟨fun _ _ _ => rfl, clean_bind, fun {_ vs} _ => clean_emit vs⟩

end Walk

theorem Node.clean_walk (chain : List Interceptor) (n : Node) (origin : Option Value)
    (here : Location) : (n.walk chain true origin here).Clean := by
  have hsim : n.Sim (fun w _ => w.Clean) true true chain chain := by
    apply Node.sim_walk Walk.simulation_clean
    · intro n origin here
      unfold Node.enter
      split <;> exact fun _ _ => rfl
    · exact fun _ _ _ _ _ _ => rfl
  exact hsim origin here

theorem Walk.Agrees.ok_iff {α : Type} {l s : Walk α} (h : Agrees l s) (a : α) :
    s.result = .ok a ↔ l.result = .ok a ∧ (l.collection false).list = [] := by
  rw [collection, Collection.list_new_eq_nil_iff]
  cases h with
  | clean b hl hlnil hs hsnil => simp [hl, hlnil, hs]
  | stops b path batch rest hl hleq hne hpath hs hseq => simp [hs, hleq, hne]

theorem Walk.Agrees.refuses {α : Type} {l s : Walk α} (h : Agrees l s)
    (hfound : (l.collection false).list ≠ []) :
    ∃ path vs, vs ≠ [] ∧ s.result = .error (.strict ⟨vs.length, vs⟩)
      ∧ vs <+: (l.collection false).list ∧ ∀ e ∈ vs, e.path = path := by
  cases h with
  | clean b hl hlnil hs hsnil =>
      rw [collection, hlnil] at hfound
      exact absurd rfl hfound
  | stops b path batch rest hl hleq hne hpath hs hseq =>
      refine ⟨path, batch, hne, hs, ?_, hpath⟩
      rw [collection, hleq]
      exact Collection.prefix_list_new_recordAll false hpath rest

theorem Schema.strict_walk_agrees {chain : List Interceptor} (hchain : Interceptor.Sound chain)
    (s : Schema) (v : Option Value) :
    (∃ r, (s.walk chain false v).result = .ok r)
      ∧ (∀ r, (s.walk chain true v).result = .ok r ↔
          (s.walk chain false v).result = .ok r
            ∧ ((s.walk chain false v).collection false).list = [])
      ∧ (((s.walk chain false v).collection false).list ≠ [] →
          ∃ path vs, vs ≠ [] ∧ (s.walk chain true v).result = .error (.strict ⟨vs.length, vs⟩)
            ∧ vs <+: ((s.walk chain false v).collection false).list
            ∧ ∀ e ∈ vs, e.path = path)
      ∧ ∀ (n : Node) operator w here,
          ∀ t ∈ Node.trials chain (n.branches operator) operator w here,
            ∃ passed, t.result = .ok passed ∧ t.violations = [] := by
  have hagrees := Node.agrees_walk hchain s.root v Location.root
  refine ⟨hagrees.returns, hagrees.ok_iff, hagrees.refuses, ?_⟩
  intro n operator w here t ht
  obtain ⟨⟨passed, hpassed⟩, hnil⟩ :=
    Node.quiet_trials hchain (n.branches operator) operator w here t ht
  exact ⟨passed, hpassed, hnil⟩

theorem Schema.strict_walk_agrees_default :
    let fallback : Interceptor := ⟨"fallback", true, fun v place =>
      if v.isNone && place.name == some "host" then .ok (some (.string "localhost"))
      else .ok none⟩
    let s : Schema := Schema.ofNode
      { Node.ofKind .object with properties := some [("host", Node.ofKind .integer)] }
    let v : Value := .object []
    Interceptor.Sound [fallback]
      ∧ ((s.walk [fallback] false (some v)).collection false).list ≠ []
      ∧ ∃ path vs, vs ≠ []
          ∧ (s.walk [fallback] true (some v)).result = .error (.strict ⟨vs.length, vs⟩)
          ∧ vs <+: ((s.walk [fallback] false (some v)).collection false).list
          ∧ ∀ e ∈ vs, e.path = path := by
  intro fallback s v
  have hsound : Interceptor.Sound [fallback] := by
    intro i hi w place
    rw [List.mem_singleton.mp hi]
    by_cases hhost : (w.isNone && place.name == some "host") = true
    · exact ⟨_, if_pos hhost⟩
    · exact ⟨_, if_neg hhost⟩
  have hfound : ((s.walk [fallback] false (some v)).collection false).list ≠ [] := by
    rw [Walk.collection, ne_eq, Collection.list_new_eq_nil_iff, ← List.length_eq_zero_iff]
    decide
  obtain ⟨_, _, hrefuses, _⟩ := Schema.strict_walk_agrees hsound s (some v)
  exact ⟨hsound, hfound, hrefuses hfound⟩

end CheckedConfig
