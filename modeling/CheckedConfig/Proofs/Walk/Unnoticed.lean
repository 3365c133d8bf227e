import CheckedConfig.Proofs.Walk.Watched

namespace CheckedConfig

namespace Interceptor

def shifted (n i : Nat) : Nat := if i < n then i else i + 1

theorem shifted_succ (n i : Nat) : shifted (n + 1) (i + 1) = shifted n i + 1 := by
  unfold shifted
  split <;> split <;> omega

variable {k : Interceptor}

theorem run_insert (hk : ∀ v place, k.intercept v place = .ok none) (place : Place)
    (before after : List Interceptor) (v : Option Value) :
    (run place (before ++ k :: after) v).2 = (run place (before ++ after) v).2
      ∧ ∀ i, (run place (before ++ k :: after) v).1[shifted before.length i]?
          = (run place (before ++ after) v).1[i]? := by
  induction before generalizing v with
  | nil =>
      have hrun : run place (k :: after) v
          = (v :: (run place after v).1, (run place after v).2) := by
        rw [run, hk]
        rfl
      rw [List.nil_append, List.nil_append, hrun]
      exact ⟨rfl, fun i => List.getElem?_cons_succ⟩
  | cons b before ih =>
      rw [List.cons_append, List.cons_append, run, run]
      cases hb : b.intercept v place with
      | error e =>
          -- The chain breaks off before it comes to `k`.
          refine ⟨rfl, fun i => ?_⟩
          cases i with
          | zero => rfl
          | succ i =>
              rw [List.length_cons, shifted_succ]
              rfl
      | ok replaced =>
          obtain ⟨hresult, hgiven⟩ := ih (replaced <|> v)
          refine ⟨hresult, fun i => ?_⟩
          cases i with
          | zero => rfl
          | succ i =>
              rw [List.length_cons, shifted_succ]
              exact hgiven i

end Interceptor

def Visit.call? (i : Nat) (x : Visit) : Option (Option Value × Place) :=
  x.given[i]?.map (·, x.place)

namespace Walk

variable {α β : Type}

def calls (w : Walk α) (i : Nat) : List (Option Value × Place) := w.visits.filterMap (Visit.call? i)

theorem calls_bind {w : Walk α} {a : α} (h : w.result = .ok a) (f : α → Walk β) (i : Nat) :
    (w >>= f).calls i = w.calls i ++ (f a).calls i := by
  rw [calls, visits_bind h, List.filterMap_append]
  rfl

structure Omits (n : Nat) (w u : Walk α) : Prop where
  sameEnd : SameEnd w u
  calls : ∀ i, w.calls (Interceptor.shifted n i) = u.calls i

namespace Omits

variable {n : Nat}

theorem of_unvisited {w : Walk α} (h : w.visits = []) : Omits n w w := by
  have hcalls (i : Nat) : w.calls i = [] := by rw [Walk.calls, h, List.filterMap_nil]
  exact ⟨⟨rfl, rfl⟩, fun i => by rw [hcalls, hcalls]⟩

theorem bind {w u : Walk α} {f g : α → Walk β} (h : Omits n w u) (hfg : ∀ a, Omits n (f a) (g a)) :
    Omits n (w >>= f) (u >>= g) := by
  refine ⟨h.sameEnd.bind fun a => (hfg a).sameEnd, fun i => ?_⟩
  cases hu : u.result with
  | error e =>
      rw [bind_of_error (h.sameEnd.2.trans hu), bind_of_error hu]
      exact h.calls i
  | ok a => rw [calls_bind (h.sameEnd.2.trans hu), calls_bind hu, h.calls i, (hfg a).calls i]

theorem passes {w u : Walk α} (h : Omits n w u) : Omits n w.passes u.passes :=
  ⟨h.sameEnd.passes, h.calls⟩

end Omits

theorem simulation_omits (n : Nat) (strict : Bool) : Simulation (Omits n) strict strict :=
  ⟨fun _ => .of_unvisited rfl, .bind, fun _ => .of_unvisited rfl⟩

theorem simulation_unvisited (strict : Bool) :
    Simulation (fun w _ => w.visits = []) strict strict where
  pure _ := rfl
  bind {_ _ w _ _ _} hw hf := by
    cases hresult : w.result with
    | error e => rw [bind_of_error hresult, hw]
    | ok a => rw [visits_bind hresult, hw, hf a, List.nil_append]
  emit _ := rfl

end Walk

namespace Node

variable {k : Interceptor}

theorem enter_eq_run (chain : List Interceptor) (n : Node) (origin : Option Value)
    (here : Location) :
    (enter chain n origin here).violations = []
      ∧ (enter chain n origin here).result =
          (Interceptor.run (Frame.seen ⟨n, origin, here⟩) chain (origin <|> n.own.default)).2
      ∧ ∀ i, (enter chain n origin here).calls i =
          ((Interceptor.run (Frame.seen ⟨n, origin, here⟩) chain
            (origin <|> n.own.default)).1[i]?.map (·, Frame.seen ⟨n, origin, here⟩)).toList := by
  cases chain with
  | nil => exact ⟨rfl, rfl, fun _ => rfl⟩
  | cons b chain =>
      refine ⟨rfl, rfl, fun i => ?_⟩
      let visit : Visit := ⟨Frame.seen ⟨n, origin, here⟩, (Interceptor.run
        (Frame.seen ⟨n, origin, here⟩) (b :: chain) (origin <|> n.own.default)).1⟩
      change [visit].filterMap (Visit.call? i) = (visit.call? i).toList
      cases hgiven : visit.call? i <;> simp [hgiven]

theorem omits_enter (hk : ∀ v place, k.intercept v place = .ok none)
    (before after : List Interceptor) (n : Node) (origin : Option Value) (here : Location) :
    Walk.Omits before.length (enter (before ++ k :: after) n origin here)
      (enter (before ++ after) n origin here) := by
  obtain ⟨hviolations, hresult, hcalls⟩ := enter_eq_run (before ++ k :: after) n origin here
  obtain ⟨hviolations', hresult', hcalls'⟩ := enter_eq_run (before ++ after) n origin here
  obtain ⟨hsame, hgiven⟩ := Interceptor.run_insert hk (Frame.seen ⟨n, origin, here⟩) before after
    (origin <|> n.own.default)
  refine ⟨⟨hviolations.trans hviolations'.symm, ?_⟩, fun i => ?_⟩
  · rw [hresult, hresult', hsame]
  · rw [hcalls, hcalls', hgiven]

theorem sim_walk_of_passes {R : {α : Type} → Walk α → Walk α → Prop} {strict : Bool}
    {chain chain' : List Interceptor} (hlenient : Walk.Simulation R false false)
    (hstrict : Walk.Simulation R strict strict)
    (henter : ∀ n origin here, R (enter chain n origin here) (enter chain' n origin here))
    (hpasses : ∀ {w u : Walk (Option Value)}, R w u → R w.passes u.passes) (n : Node) :
    n.Sim R strict strict chain chain' := by
  have hn (m : Node) : m.Sim R false false chain chain' :=
    sim_walk hlenient henter (fun _ hm w here => hpasses (hm (some w) here)) m
  exact sim_walk hstrict henter (fun m _ w here => hpasses (hn m (some w) here)) n

theorem omits_walk (hk : ∀ v place, k.intercept v place = .ok none)
    (before after : List Interceptor) (strict : Bool) (n : Node) :
    n.Sim (Walk.Omits before.length) strict strict (before ++ k :: after) (before ++ after) :=
  sim_walk_of_passes (Walk.simulation_omits before.length false)
    (Walk.simulation_omits before.length strict) (omits_enter hk before after) .passes n

theorem visits_walk_nil (strict : Bool) (n : Node) (origin : Option Value) (here : Location) :
    (n.walk [] strict origin here).visits = [] := by
  have hsim : n.Sim (fun w _ => w.visits = []) strict strict [] [] :=
    sim_walk_of_passes (Walk.simulation_unvisited false) (Walk.simulation_unvisited strict)
      (fun _ _ _ => rfl) id n
  exact hsim origin here

theorem sameEnd_walk_nil {chain : List Interceptor} (h : Interceptor.Keeping chain) (strict : Bool)
    (n : Node) (origin : Option Value) (here : Location) :
    Walk.SameEnd (n.walk chain strict origin here) (n.walk [] strict origin here) := by
  induction chain with
  | nil => exact ⟨rfl, rfl⟩
  | cons k chain ih =>
      have hk : ∀ v place, k.intercept v place = .ok none := h k (List.mem_cons_self ..)
      have hrest := ih fun i hi => h i (List.mem_cons_of_mem _ hi)
      obtain ⟨hviolations, hresult⟩ := (omits_walk hk [] chain strict n origin here).sameEnd
      exact ⟨hviolations.trans hrest.1, hresult.trans hrest.2⟩

end Node

theorem Schema.walk_insert_keeping {k : Interceptor}
    (hk : ∀ v place, k.intercept v place = .ok none) (before after : List Interceptor)
    (strict : Bool) (s : Schema) (v : Option Value) :
    (s.walk (before ++ k :: after) strict v).result = (s.walk (before ++ after) strict v).result
      ∧ (s.walk (before ++ k :: after) strict v).violations
          = (s.walk (before ++ after) strict v).violations
      ∧ (∀ i, (s.walk (before ++ k :: after) strict v).calls
            (Interceptor.shifted before.length i)
          = (s.walk (before ++ after) strict v).calls i)
      ∧ ∀ keepers, Interceptor.Keeping keepers →
          (s.walk keepers strict v).result = (s.walk [] strict v).result
            ∧ (s.walk keepers strict v).violations = (s.walk [] strict v).violations
            ∧ (s.walk [] strict v).visits = [] := by
  have homits := Node.omits_walk hk before after strict s.root v Location.root
  refine ⟨homits.sameEnd.2, homits.sameEnd.1, homits.calls, fun keepers hkeepers => ?_⟩
  have hsame := Node.sameEnd_walk_nil hkeepers strict s.root v Location.root
  exact ⟨hsame.2, hsame.1, Node.visits_walk_nil strict s.root v Location.root⟩

theorem Schema.walk_insert_keeping_watch :
    let watch : Interceptor := ⟨"watch", true, fun _ _ => .ok none⟩
    let fallback : Interceptor := ⟨"fallback", true, fun v place =>
      if v.isNone && place.name == some "host" then .ok (some (.string "localhost"))
      else .ok none⟩
    let last : Interceptor := ⟨"last", true, fun v place =>
      if v.isNone then .error (.invalidPath (.refused place.propertyPath)) else .ok none⟩
    let s : Schema := Schema.ofNode
      { Node.ofKind .object with
        properties := some [("host", Node.ofKind .integer), ("port", Node.ofKind .integer)] }
    let v : Value := .object []
    (∀ w place, watch.intercept w place = .ok none)
      ∧ (s.walk [fallback, watch, last] false (some v)).result
          = (s.walk [fallback, last] false (some v)).result
      ∧ (s.walk [fallback, watch, last] false (some v)).violations
          = (s.walk [fallback, last] false (some v)).violations
      ∧ (s.walk [fallback, watch, last] false (some v)).calls 2
          = (s.walk [fallback, last] false (some v)).calls 1
      ∧ ((s.walk [fallback, last] false (some v)).calls 1).map (·.2.propertyPath)
          = ["$ROOT", "$ROOT.host", "$ROOT.port"] := by
  intro watch fallback last s v
  have hwatch : ∀ w place, watch.intercept w place = .ok none := fun _ _ => rfl
  obtain ⟨hresult, hviolations, hcalls, -⟩ :=
    Schema.walk_insert_keeping hwatch [fallback] [last] false s (some v)
  exact ⟨hwatch, hresult, hviolations, hcalls 1, by decide +kernel⟩

end CheckedConfig
