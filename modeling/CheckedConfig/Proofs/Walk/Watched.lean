import CheckedConfig.Proofs.Walk.Descent
import CheckedConfig.Proofs.Walk.Simulation

namespace CheckedConfig

def Interceptor.Keeping (chain : List Interceptor) : Prop :=
  ∀ i ∈ chain, ∀ v place, i.intercept v place = .ok none

theorem Interceptor.Keeping.run {chain : List Interceptor} (h : Keeping chain) (place : Place)
    (v : Option Value) : (run place chain v).2 = .ok v := by
  induction chain with
  | nil => rfl
  | cons i chain ih =>
      have hi : i.intercept v place = .ok none := h i (List.mem_cons_self ..) v place
      have hrest : Keeping chain := fun j hj => h j (List.mem_cons_of_mem _ hj)
      rw [Interceptor.run, hi]
      exact ih hrest

namespace Walk

variable {α β : Type}

def SameEnd (w u : Walk α) : Prop := w.violations = u.violations ∧ w.result = u.result

theorem SameEnd.bind {w u : Walk α} {f g : α → Walk β} (h : SameEnd w u)
    (hfg : ∀ a, SameEnd (f a) (g a)) : SameEnd (w >>= f) (u >>= g) := by
  obtain ⟨hviolations, hresult⟩ := h
  cases hu : u.result with
  | error e =>
      rw [bind_of_error (hresult.trans hu), bind_of_error hu]
      exact ⟨hviolations, rfl⟩
  | ok a =>
      obtain ⟨hf, hg⟩ := hfg a
      rw [bind_of_ok (hresult.trans hu), bind_of_ok hu, SameEnd, hviolations, hf]
      exact ⟨rfl, hg⟩

theorem SameEnd.passes {w u : Walk α} (h : SameEnd w u) : SameEnd w.passes u.passes :=
  ⟨rfl, by rw [Walk.passes, Walk.passes, h.1, h.2]⟩

theorem simulation_sameEnd : Simulation SameEnd false false :=
  ⟨fun _ => ⟨rfl, rfl⟩, .bind, fun _ => ⟨rfl, rfl⟩⟩

theorem SameEnd.result_of_done {w u : Walk α} {a : α} {vs : List Violation} (h : SameEnd w u)
    (hu : u = done a vs) : w.result = .ok a := by
  rw [h.2, hu]
  rfl

theorem visits_bind {w : Walk α} {a : α} (h : w.result = .ok a) (f : α → Walk β) :
    (w >>= f).visits = w.visits ++ (f a).visits := by
  rw [bind_of_ok h]

end Walk

namespace Node

variable {chain : List Interceptor}

theorem sameEnd_enter (h : Interceptor.Keeping chain) (n : Node) (origin : Option Value)
    (here : Location) : Walk.SameEnd (enter chain n origin here) (enter [] n origin here) := by
  cases chain with
  | nil => exact ⟨rfl, rfl⟩
  | cons i chain => exact ⟨rfl, h.run _ _⟩

theorem sameEnd_trials : SimTrials Walk.SameEnd false false chain [] :=
  fun _ hn w here => (hn (some w) here).passes

theorem sameEnd_walk (h : Interceptor.Keeping chain) (n : Node) :
    n.Sim Walk.SameEnd false false chain [] :=
  sim_walk Walk.simulation_sameEnd (sameEnd_enter h) sameEnd_trials n

theorem sameEnd_child (h : Interceptor.Keeping chain) (n c : Node) (_ : c.Child n) :
    c.Sim Walk.SameEnd false false chain [] := sameEnd_walk h c

theorem completes_child (n c : Node) (_ : c.Child n) : c.Completes := c.walk_eq_done

theorem result_walk (h : Interceptor.Keeping chain) (n : Node) (origin : Option Value)
    (here : Location) : (n.walk chain false origin here).result = .ok (n.outcome origin) :=
  (sameEnd_walk h n origin here).result_of_done (n.walk_eq_done origin here)

theorem result_enter (h : Interceptor.Keeping chain) (n : Node) (origin : Option Value)
    (here : Location) : (enter chain n origin here).result = .ok (origin <|> n.own.default) :=
  (sameEnd_enter h n origin here).result_of_done rfl

theorem visits_walkNamed (h : Interceptor.Keeping chain) {ps : List (String × Node)}
    (hd : (Fields.keys ps).Nodup) (fs : Fields Value) (here : Location) :
    (walkNamed chain ps false fs here).visits =
      ps.flatMap fun p =>
        (p.2.walk chain false (fs.get? p.1) (here.property p.1 "properties")).visits := by
  induction ps generalizing fs with
  | nil => rfl
  | cons p ps ih =>
      obtain ⟨name, c⟩ := p
      obtain ⟨hname, hrest⟩ := List.nodup_cons.mp hd
      rw [walkNamed, Walk.visits_bind (result_walk h c _ _), ih hrest, List.flatMap_cons]
      congr 1
      refine congrArg List.flatten (List.map_congr_left fun q hq => ?_)
      have hne : name ≠ q.1 := fun heq => hname (heq ▸ List.mem_map.mpr ⟨q, hq, rfl⟩)
      rw [Fields.get?_putBack_of_ne fs _ hne]

theorem visits_fieldsWhere {test : String → Bool} {f : String → Value → Walk (Option Value)}
    {g : Value → Option Value} (h : ∀ name v, (f name v).result = .ok (g v)) (fs : Fields Value) :
    (∃ gs, (Walk.fieldsWhere test f fs).result = .ok gs)
      ∧ (Walk.fieldsWhere test f fs).visits =
          (fs.filter (test ·.1)).flatMap fun p => (f p.1 p.2).visits := by
  induction fs with
  | nil => exact ⟨⟨[], rfl⟩, rfl⟩
  | cons p fs ih =>
      obtain ⟨name, v⟩ := p
      obtain ⟨⟨gs, hgs⟩, hvisits⟩ := ih
      cases ht : test name with
      | true =>
          simp only [Walk.fieldsWhere, ht, if_true]
          rw [Walk.bind_of_ok (h name v), Walk.bind_of_ok hgs]
          refine ⟨⟨_, rfl⟩, ?_⟩
          simp [ht, hvisits]
      | false =>
          simp only [Walk.fieldsWhere, ht]
          rw [if_neg Bool.false_ne_true, Walk.bind_of_ok hgs]
          refine ⟨⟨_, rfl⟩, ?_⟩
          simp [ht, hvisits]

theorem visits_itemsFrom {f : Nat → Value → Walk (Option Value)} {g : Value → Option Value}
    (h : ∀ i v, (f i v).result = .ok (g v)) (i : Nat) (vs : List Value) :
    (∃ us, (Walk.itemsFrom f i vs).result = .ok us)
      ∧ (Walk.itemsFrom f i vs).visits = (vs.zipIdx i).flatMap fun p => (f p.2 p.1).visits := by
  induction vs generalizing i with
  | nil => exact ⟨⟨[], rfl⟩, rfl⟩
  | cons v vs ih =>
      obtain ⟨⟨us, hus⟩, hvisits⟩ := ih (i + 1)
      rw [Walk.itemsFrom, Walk.bind_of_ok (h i v), Walk.bind_of_ok hus]
      refine ⟨⟨_, rfl⟩, ?_⟩
      simp [hvisits]

theorem result_walkProperties (h : Interceptor.Keeping chain) (n : Node) (fs : Fields Value)
    (here : Location) :
    (walkProperties chain n.properties false fs here).result
      = .ok (outcomeProperties n.properties fs) := by
  have hsame := sim_walkProperties Walk.simulation_sameEnd (sameEnd_child h n) fs here
  exact hsame.result_of_done (walkProperties_eq_done (completes_child n) fs here)

theorem result_walkAdditional (h : Interceptor.Keeping chain) (n : Node) (fs : Fields Value)
    (here : Location) :
    (walkAdditional chain n.additional n false fs here).result
      = .ok (outcomeAdditional n.additional n fs) := by
  have hsame := sim_walkAdditional Walk.simulation_sameEnd (sameEnd_child h n) fs here
  exact hsame.result_of_done (walkAdditional_eq_done (completes_child n) fs here)

theorem result_walkItems (h : Interceptor.Keeping chain) (n : Node) (vs : List Value)
    (here : Location) :
    (walkItems chain n.items false vs here).result = .ok (outcomeItems n.items vs) := by
  have hsame := sim_walkItems Walk.simulation_sameEnd (sameEnd_child h n) vs here
  exact hsame.result_of_done (walkItems_eq_done (completes_child n) vs here)

theorem result_walkBranches (h : Interceptor.Keeping chain) (n : Node) (here : Location)
    (w : Value) : (n.walkBranches chain false here w).result = .ok () := by
  have hsame := sim_walkBranches Walk.simulation_sameEnd sameEnd_trials (sameEnd_child h n) here w
  exact hsame.result_of_done (walkBranches_eq_done (completes_child n) here w)

theorem visits_walkProperties (h : Interceptor.Keeping chain) {n : Node}
    (hnormal : n.normalize = n) (fs : Fields Value) (here : Location) :
    (walkProperties chain n.properties false fs here).visits =
      (n.properties.getD []).flatMap fun p =>
        (p.2.walk chain false (fs.get? p.1) (here.property p.1 "properties")).visits := by
  cases hps : n.properties with
  | none => rfl
  | some ps => exact visits_walkNamed h (keys_nodup_of_normal hnormal hps) fs here

theorem visits_walkAdditional (h : Interceptor.Keeping chain) (n : Node) (fs : Fields Value)
    (here : Location) :
    (walkAdditional chain n.additional n false fs here).visits =
      match n.extra? with
      | some m => (fs.filter (!n.declares ·.1)).flatMap fun p =>
          (m.walk chain false (some p.2) (here.property p.1 "additionalProperties")).visits
      | none => [] := by
  cases hm : n.additional with
  | none => simp [extra?, hm, walkAdditional]
  | some extra =>
      cases extra with
      | schema m =>
          simp only [extra?, hm, walkAdditional]
          exact (visits_fieldsWhere (fun name v =>
            result_walk h m (some v) (here.property name "additionalProperties")) fs).2
      | allowed b =>
          cases b with
          | true => simp [extra?, hm, walkAdditional]
          | false =>
              simp only [extra?, hm, walkAdditional, Walk.emit_false, Walk.done_bind]
              rfl

theorem visits_walkItems (h : Interceptor.Keeping chain) (n : Node) (vs : List Value)
    (here : Location) :
    (walkItems chain n.items false vs here).visits =
      match n.items with
      | some m => vs.zipIdx.flatMap fun p =>
          (m.walk chain false (some p.1) (here.index p.2)).visits
      | none => [] := by
  cases hm : n.items with
  | none => rfl
  | some m =>
      exact (visits_itemsFrom (fun i v => result_walk h m (some v) (here.index i)) 0 vs).2

end Node

namespace Frame

variable {chain : List Interceptor}

def below (c : Frame) : List Frame :=
  match c.taken? with
  | some (.object fs) =>
      ((c.node.properties.getD []).map fun p =>
          ⟨p.2, Fields.get? fs p.1, c.place.property p.1 "properties"⟩)
        ++ match c.node.extra? with
          | some m =>
              ((Node.outcomeProperties c.node.properties fs).filter (!c.node.declares ·.1)).map
                fun p => ⟨m, some p.2, c.place.property p.1 "additionalProperties"⟩
          | none => []
  | some (.array vs) =>
      match c.node.items with
      | some m => vs.zipIdx.map fun p => ⟨m, some p.1, c.place.index p.2⟩
      | none => []
  | _ => []

theorem mem_below_of_next? {c d : Frame} {segment : String} (h : c.next? segment = some d) :
    d ∈ c.below := by
  cases enters_of_next? h with
  | property hw hm =>
      obtain ⟨ps, hps, hmem⟩ := Node.declared?_eq_some hm
      simp only [below, hw, hps, Option.getD_some]
      exact List.mem_append_left _ (List.mem_map.mpr ⟨_, hmem, rfl⟩)
  | @extra fs m w hw hundeclared hextra hget =>
      rw [← Node.outcomeProperties_get?_of_undeclared hundeclared] at hget
      simp only [below, hw, hextra]
      refine List.mem_append_right _ (List.mem_map.mpr ⟨(segment, w), ?_, rfl⟩)
      exact List.mem_filter.mpr ⟨Fields.mem_of_get? hget, by simp [hundeclared]⟩
  | @item vs m i w hw hm hi hget =>
      simp only [below, hw, hm]
      exact List.mem_map.mpr ⟨(w, i), List.mem_zipIdx_iff_getElem?.mpr hget, rfl⟩

def branchVisits (chain : List Interceptor) (c : Frame) : List Visit :=
  match c.taken? with
  | some w => (c.node.walkBranches chain false c.place (c.node.inside w)).visits
  | none => []

theorem walkContents_of_keeping (hchain : Interceptor.Keeping chain) {c : Frame}
    (hnormal : c.node.normalize = c.node) {w : Value} (hw : c.taken? = some w) :
    (c.node.walkContents chain false c.place w).result = .ok (c.node.inside w)
      ∧ (c.node.walkContents chain false c.place w).visits =
          c.below.flatMap fun d => (d.walk chain false).visits := by
  cases w with
  | object fs =>
      rw [Node.walkContents, Walk.emit_false, Walk.done_bind,
        Walk.bind_of_ok (c.node.result_walkProperties hchain fs c.place),
        Walk.bind_of_ok (c.node.result_walkAdditional hchain _ c.place)]
      refine ⟨rfl, ?_⟩
      have hprops := Node.visits_walkProperties hchain hnormal fs c.place
      have hextra := c.node.visits_walkAdditional hchain
        (Node.outcomeProperties c.node.properties fs) c.place
      simp only [below, hw, List.flatMap_append, List.flatMap_map, Walk.after_visits, hprops, hextra,
        Walk.pure_eq_done, Walk.done_visits, List.append_nil]
      congr 1
      cases c.node.extra? with
      | none => rfl
      | some m =>
          rw [List.flatMap_map]
          rfl
  | array vs =>
      rw [Node.walkContents, Walk.bind_of_ok (c.node.result_walkItems hchain vs c.place)]
      have hitems := c.node.visits_walkItems hchain vs c.place
      simp only [below, hw, hitems, Walk.emit_false, Walk.done_bind, Walk.pure_eq_done]
      refine ⟨rfl, ?_⟩
      cases c.node.items with
      | none => rfl
      | some m =>
          rw [List.flatMap_map]
          exact List.append_nil _
  | _ =>
      simp only [below, hw, Node.walkContents, Walk.emit_false]
      exact ⟨rfl, rfl⟩

theorem visits_walk (hchain : Interceptor.Keeping chain) {c : Frame}
    (hnormal : c.node.normalize = c.node) :
    (c.walk chain false).visits =
      (c.node.enter chain c.origin c.place).visits
        ++ (c.below.flatMap (fun d => (d.walk chain false).visits) ++ c.branchVisits chain) := by
  rw [walk, Node.walk_eq, Walk.visits_bind (c.node.result_enter hchain c.origin c.place)]
  congr 1
  cases horigin : c.origin <|> c.node.own.default with
  | none => simp [below, branchVisits, taken?, horigin]
  | some v =>
      cases hv : c.node.own.settle v with
      | error e => simp [below, branchVisits, taken?, horigin, hv, Except.toOption]
      | ok w =>
          have hw : c.taken? = some w := by simp [taken?, horigin, hv, Except.toOption]
          obtain ⟨hresult, hvisits⟩ := walkContents_of_keeping hchain hnormal hw
          have hbranches := c.node.result_walkBranches hchain c.place (c.node.inside w)
          simp only [hv, branchVisits, hw]
          rw [Walk.visits_bind hresult, Walk.visits_bind hbranches, hvisits]
          simp

def seen (c : Frame) : Place :=
  ⟨c.node, c.place.schemaPath, c.place.propertyPath, c.place.name, c.origin⟩

theorem exists_visit (hchain : Interceptor.Keeping chain) (hne : chain ≠ []) {c : Frame}
    (hnormal : c.node.normalize = c.node) :
    ∃ visit ∈ (c.walk chain false).visits, visit.place = c.seen := by
  have hempty : chain.isEmpty = false := by simpa using hne
  rw [visits_walk hchain hnormal]
  refine ⟨⟨c.seen, (Interceptor.run c.seen chain (c.origin <|> c.node.own.default)).1⟩, ?_, rfl⟩
  refine List.mem_append_left _ ?_
  rw [Node.enter, hempty]
  exact List.mem_singleton_self _

theorem visits_subset_of_at? (hchain : Interceptor.Keeping chain) {c d : Frame}
    (hnormal : c.node.normalize = c.node) {segments : List String}
    (hd : c.at? segments = some d) :
    d.node.normalize = d.node ∧ (d.walk chain false).visits ⊆ (c.walk chain false).visits := by
  induction segments generalizing c with
  | nil =>
      simp only [at?, Option.some.injEq] at hd
      subst hd
      exact ⟨hnormal, fun _ h => h⟩
  | cons segment rest ih =>
      simp only [at?, Option.bind_eq_some_iff] at hd
      obtain ⟨e, he, hd⟩ := hd
      obtain ⟨hdnormal, hsubset⟩ := ih ((child_of_next? he).normal hnormal) hd
      refine ⟨hdnormal, fun visit h => ?_⟩
      rw [visits_walk hchain hnormal]
      refine List.mem_append_right _ (List.mem_append_left _ ?_)
      exact List.mem_flatMap.mpr ⟨e, mem_below_of_next? he, hsubset h⟩

theorem exists_visit_of_at? (hchain : Interceptor.Keeping chain) (hne : chain ≠ []) {c d : Frame}
    (hnormal : c.node.normalize = c.node) {segments : List String}
    (hd : c.at? segments = some d) :
    ∃ visit ∈ (c.walk chain false).visits, visit.place = d.seen := by
  obtain ⟨hdnormal, hsubset⟩ := visits_subset_of_at? hchain hnormal hd
  obtain ⟨visit, hmem, hplace⟩ := exists_visit hchain hne hdnormal
  exact ⟨visit, hsubset hmem, hplace⟩

end Frame

end CheckedConfig
