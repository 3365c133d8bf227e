import CheckedConfig.Proofs.Walk.Simulation

namespace CheckedConfig

namespace Walk

variable {α β : Type} {i : Interceptor}

def Blames (i : Interceptor) (w : Walk α) : Prop :=
  ∀ e, w.result = .error e → (∃ r, e = .strict r)
    ∨ ∃ x ∈ w.visits, ∃ v, x.given = [v] ∧ i.intercept v x.place = .error e

theorem Blames.bind {w : Walk α} {f : α → Walk β} (h : Blames i w) (hf : ∀ a, Blames i (f a)) :
    Blames i (w >>= f) := by
  intro e he
  cases hw : w.result with
  | error e' =>
      rw [bind_of_error hw] at he ⊢
      cases he
      exact h e hw
  | ok a =>
      rw [bind_of_ok hw] at he ⊢
      refine (hf a e he).imp_right ?_
      rintro ⟨x, hx, hfails⟩
      exact ⟨x, List.mem_append_right _ hx, hfails⟩

theorem Blames.emit (strict : Bool) (vs : List Violation) : Blames i (Walk.emit strict vs) := by
  intro e he
  simp only [Walk.emit, Collection.extend] at he
  split at he
  · cases he
    exact .inl ⟨_, rfl⟩
  · cases he

theorem Blames.passes {w : Walk α} (h : Blames i w) : Blames i w.passes := by
  intro e he
  cases hw : w.result with
  | error e' =>
      rw [Walk.passes, hw] at he
      cases he
      exact h e hw
  | ok a =>
      rw [Walk.passes, hw] at he
      cases he

theorem simulation_blames (strict : Bool) : Simulation (fun w _ => w.Blames i) strict strict :=
  ⟨fun _ => nofun, .bind, fun {_ vs} _ => .emit strict vs⟩

end Walk

namespace Node

variable {i : Interceptor}

def placeAt (n : Node) (origin : Option Value) (here : Location) : Place :=
  ⟨n, here.schemaPath, here.propertyPath, here.name, origin⟩

theorem enter_single (i : Interceptor) (n : Node) (origin : Option Value) (here : Location) :
    enter [i] n origin here =
      ⟨[⟨n.placeAt origin here, [origin <|> n.own.default]⟩], [],
        (i.intercept (origin <|> n.own.default) (n.placeAt origin here)).map
          (· <|> (origin <|> n.own.default))⟩ := by
  unfold enter
  simp only [List.isEmpty_cons, Bool.false_eq_true, if_false, Interceptor.run, placeAt]
  split
  · next e he => rw [he]; rfl
  · next r hr => rw [hr]; rfl

theorem blames_enter (n : Node) (origin : Option Value) (here : Location) :
    (enter [i] n origin here).Blames i := by
  rw [enter_single]
  intro e he
  refine .inr ⟨_, List.mem_singleton_self _, _, rfl, ?_⟩
  cases hi : i.intercept (origin <|> n.own.default) (n.placeAt origin here) with
  | error e' =>
      simp only [hi] at he
      cases he
      rfl
  | ok replaced =>
      simp only [hi] at he
      cases he

theorem sim_blames {strict : Bool}
    (htrial : SimTrials (fun w _ => w.Blames i) strict strict [i] [i]) (n : Node) :
    n.Sim (fun w _ => w.Blames i) strict strict [i] [i] :=
  sim_walk (Walk.simulation_blames strict) blames_enter htrial n

theorem blames_trial (n : Node) (w : Value) (here : Location) :
    (n.walk [i] false (some w) here).passes.Blames i := by
  have hsim : n.Sim (fun w _ => w.Blames i) false false [i] [i] :=
    sim_blames (fun _ hn w here => (hn (some w) here).passes) n
  exact (hsim (some w) here).passes

theorem blames_walk (n : Node) (strict : Bool) (origin : Option Value) (here : Location) :
    (n.walk [i] strict origin here).Blames i := by
  have hsim : n.Sim (fun w _ => w.Blames i) strict strict [i] [i] :=
    sim_blames (fun n _ w here => blames_trial n w here) n
  exact hsim origin here

end Node

end CheckedConfig
