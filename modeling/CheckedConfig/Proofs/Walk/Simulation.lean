import Mathlib.Data.List.Defs
import CheckedConfig.Proofs.Walk.Reported

namespace CheckedConfig

namespace Walk

variable {α β : Type}

theorem bind_of_ok {w : Walk α} {a : α} (h : w.result = .ok a) (f : α → Walk β) :
    (w >>= f) = ⟨w.visits ++ (f a).visits, w.violations ++ (f a).violations, (f a).result⟩ := by
  change bind w f = _
  rw [bind, h]

theorem bind_of_error {w : Walk α} {e : Failure} (h : w.result = .error e) (f : α → Walk β) :
    (w >>= f) = ⟨w.visits, w.violations, .error e⟩ := by
  change bind w f = _
  rw [bind, h]

structure Simulation (R : {α : Type} → Walk α → Walk α → Prop) (strict strict' : Bool) : Prop where
  pure {α : Type} (a : α) : R (Pure.pure a) (Pure.pure a)
  bind {α β : Type} {w u : Walk α} {f g : α → Walk β} :
    R w u → (∀ a, R (f a) (g a)) → R (w >>= f) (u >>= g)
  emit {path : String} {vs : List Violation} :
    (∀ v ∈ vs, v.path = path) → R (Walk.emit strict vs) (Walk.emit strict' vs)

namespace Simulation

variable {R : {α : Type} → Walk α → Walk α → Prop} {strict strict' : Bool}

theorem fieldsWhere (hR : Simulation R strict strict') {test : String → Bool}
    {f g : String → Value → Walk (Option Value)} (h : ∀ name v, R (f name v) (g name v))
    (fs : Fields Value) : R (Walk.fieldsWhere test f fs) (Walk.fieldsWhere test g fs) := by
  induction fs with
  | nil => exact hR.pure []
  | cons p fs ih =>
      obtain ⟨name, v⟩ := p
      by_cases ht : test name = true
      · simp only [Walk.fieldsWhere, ht, if_true]
        exact hR.bind (h name v) fun w => hR.bind ih fun rest => hR.pure _
      · simp only [Walk.fieldsWhere, ht]
        exact hR.bind ih fun rest => hR.pure _

theorem itemsFrom (hR : Simulation R strict strict') {f g : Nat → Value → Walk (Option Value)}
    (h : ∀ i v, R (f i v) (g i v)) (i : Nat) (vs : List Value) :
    R (Walk.itemsFrom f i vs) (Walk.itemsFrom g i vs) := by
  induction vs generalizing i with
  | nil => exact hR.pure []
  | cons v vs ih => exact hR.bind (h i v) fun w => hR.bind (ih (i + 1)) fun rest => hR.pure _

theorem somePasses (hR : Simulation R strict strict') {ts us : List (Walk Bool)}
    (h : List.Forall₂ R ts us) : R (Walk.somePasses ts) (Walk.somePasses us) := by
  induction h with
  | nil => exact hR.pure false
  | cons ht _ ih =>
      refine hR.bind ht fun b => ?_
      cases b with
      | true => exact hR.pure true
      | false => exact ih

theorem allPass (hR : Simulation R strict strict') {ts us : List (Walk Bool)}
    (h : List.Forall₂ R ts us) : R (Walk.allPass ts) (Walk.allPass us) := by
  induction h with
  | nil => exact hR.pure true
  | cons ht _ ih =>
      refine hR.bind ht fun b => ?_
      cases b with
      | true => exact ih
      | false => exact hR.pure false

theorem countPasses (hR : Simulation R strict strict') {ts us : List (Walk Bool)}
    (h : List.Forall₂ R ts us) (n : Nat) :
    R (Walk.countPasses n ts) (Walk.countPasses n us) := by
  induction h generalizing n with
  | nil => exact hR.pure n
  | cons ht _ ih =>
      refine hR.bind ht fun b => ?_
      by_cases hn : 1 < if b = true then n + 1 else n
      · simp only [hn, if_true]
        exact hR.pure _
      · simp only [hn, if_false]
        exact ih _

end Simulation

end Walk

namespace Node

variable {R : {α : Type} → Walk α → Walk α → Prop} {strict strict' : Bool}

theorem sim_emit (hR : Walk.Simulation R strict strict') (n : Node) (here : Location)
    {vs : List Violation} (h : ∀ v ∈ vs, n.Reports here v) :
    R (Walk.emit strict vs) (Walk.emit strict' vs) :=
  hR.emit fun v hv => (h v hv).path

theorem sim_matchAny (hR : Walk.Simulation R strict strict') (n : Node) (here : Location)
    {ts us : List (Walk Bool)} (h : List.Forall₂ R ts us) :
    R (n.matchAny strict here ts) (n.matchAny strict' here us) := by
  unfold matchAny
  cases h with
  | nil => exact hR.pure ()
  | cons ht hrest =>
      refine hR.bind (hR.somePasses (.cons ht hrest)) fun matched => sim_emit hR n here ?_
      intro v hv
      cases matched with
      | true => exact absurd hv List.not_mem_nil
      | false => exact (notes_of_mem_singleton hv).reports

theorem sim_matchNone (hR : Walk.Simulation R strict strict') (n : Node) (here : Location)
    {ts us : List (Walk Bool)} (h : List.Forall₂ R ts us) :
    R (n.matchNone strict here ts) (n.matchNone strict' here us) := by
  unfold matchNone
  cases h with
  | nil => exact hR.pure ()
  | cons ht hrest =>
      refine hR.bind (hR.somePasses (.cons ht hrest)) fun matched => sim_emit hR n here ?_
      intro v hv
      cases matched with
      | true => exact (notes_of_mem_singleton hv).reports
      | false => exact absurd hv List.not_mem_nil

theorem sim_matchAll (hR : Walk.Simulation R strict strict') (n : Node) (here : Location)
    {ts us : List (Walk Bool)} (h : List.Forall₂ R ts us) :
    R (n.matchAll strict here ts) (n.matchAll strict' here us) := by
  unfold matchAll
  cases h with
  | nil => exact hR.pure ()
  | cons ht hrest =>
      refine hR.bind (hR.allPass (.cons ht hrest)) fun matched => sim_emit hR n here ?_
      intro v hv
      cases matched with
      | true => exact absurd hv List.not_mem_nil
      | false => exact (notes_of_mem_singleton hv).reports

theorem sim_matchOne (hR : Walk.Simulation R strict strict') (n : Node) (here : Location)
    {ts us : List (Walk Bool)} (h : List.Forall₂ R ts us) :
    R (n.matchOne strict here ts) (n.matchOne strict' here us) := by
  unfold matchOne
  cases h with
  | nil => exact hR.pure ()
  | cons ht hrest =>
      refine hR.bind (hR.countPasses (.cons ht hrest) 0) fun count => sim_emit hR n here ?_
      intro v hv
      rcases count with _ | _ | k
      · exact (notes_of_mem_singleton hv).reports
      · exact absurd hv List.not_mem_nil
      · exact (notes_of_mem_singleton hv).reports

theorem sim_matchBranches (hR : Walk.Simulation R strict strict') (n : Node) (here : Location)
    (w : Value) {anys nones alls ones anys' nones' alls' ones' : List (Walk Bool)}
    (hany : List.Forall₂ R anys anys') (hnone : List.Forall₂ R nones nones')
    (hall : List.Forall₂ R alls alls') (hone : List.Forall₂ R ones ones') :
    R (n.matchBranches strict here w anys nones alls ones)
      (n.matchBranches strict' here w anys' nones' alls' ones') := by
  unfold matchBranches
  split
  · exact hR.bind (sim_matchAny hR n here hany) fun _ =>
      hR.bind (sim_matchNone hR n here hnone) fun _ =>
        hR.bind (sim_matchAll hR n here hall) fun _ => sim_matchOne hR n here hone
  · exact hR.pure ()

variable {chain chain' : List Interceptor}

def Sim (R : {α : Type} → Walk α → Walk α → Prop) (strict strict' : Bool)
    (chain chain' : List Interceptor) (n : Node) : Prop :=
  ∀ origin here, R (n.walk chain strict origin here) (n.walk chain' strict' origin here)

theorem sim_walkNamed (hR : Walk.Simulation R strict strict') {ps : List (String × Node)}
    (h : ∀ p ∈ ps, p.2.Sim R strict strict' chain chain') (fs : Fields Value) (here : Location) :
    R (walkNamed chain ps strict fs here) (walkNamed chain' ps strict' fs here) := by
  induction ps generalizing fs with
  | nil => exact hR.pure fs
  | cons p ps ih =>
      obtain ⟨name, c⟩ := p
      exact hR.bind (h (name, c) (List.mem_cons_self ..) _ _) fun w =>
        ih (fun q hq => h q (List.mem_cons_of_mem _ hq)) _

theorem sim_walkProperties (hR : Walk.Simulation R strict strict') {n : Node}
    (h : ∀ c : Node, c.Child n → c.Sim R strict strict' chain chain') (fs : Fields Value)
    (here : Location) :
    R (walkProperties chain n.properties strict fs here)
      (walkProperties chain' n.properties strict' fs here) := by
  cases hps : n.properties with
  | none => exact hR.pure fs
  | some ps => exact sim_walkNamed hR (fun p hp => h p.2 (.property hps hp)) fs here

theorem sim_walkAdditional (hR : Walk.Simulation R strict strict') {n : Node}
    (h : ∀ c : Node, c.Child n → c.Sim R strict strict' chain chain') (fs : Fields Value)
    (here : Location) :
    R (walkAdditional chain n.additional n strict fs here)
      (walkAdditional chain' n.additional n strict' fs here) := by
  cases hm : n.additional with
  | none => exact hR.pure fs
  | some extra =>
      cases extra with
      | schema m => exact hR.fieldsWhere (fun name v => h m (.extra hm) _ _) fs
      | allowed b =>
          cases b with
          | true => exact hR.pure fs
          | false =>
              have hreports : ∀ v ∈ n.undeclared here fs, n.Reports here v :=
                fun v hv => (notes_of_mem_undeclared hv).reports
              exact hR.bind (sim_emit hR n here hreports) fun _ => hR.pure fs

theorem sim_walkItems (hR : Walk.Simulation R strict strict') {n : Node}
    (h : ∀ c : Node, c.Child n → c.Sim R strict strict' chain chain') (vs : List Value)
    (here : Location) :
    R (walkItems chain n.items strict vs here) (walkItems chain' n.items strict' vs here) := by
  cases hm : n.items with
  | none => exact hR.pure vs
  | some m => exact hR.itemsFrom (fun i v => h m (.items hm) _ _) 0 vs

def SimTrials (R : {α : Type} → Walk α → Walk α → Prop) (strict strict' : Bool)
    (chain chain' : List Interceptor) : Prop :=
  ∀ n : Node, n.Sim R strict strict' chain chain' → ∀ w here,
    R (n.walk chain false (some w) here).passes (n.walk chain' false (some w) here).passes

theorem sim_trialsFrom (htrial : SimTrials R strict strict' chain chain') {ns : List Node}
    (h : ∀ c ∈ ns, c.Sim R strict strict' chain chain') (operator : Keyword) (i : Nat) (w : Value)
    (here : Location) :
    List.Forall₂ R (trialsFrom chain ns operator i w here)
      (trialsFrom chain' ns operator i w here) := by
  induction ns generalizing i with
  | nil => exact .nil
  | cons c ns ih =>
      have hc := htrial c (h c (List.mem_cons_self ..)) w (here.branch operator i)
      exact .cons hc (ih (fun d hd => h d (List.mem_cons_of_mem _ hd)) (i + 1))

theorem sim_trials (htrial : SimTrials R strict strict' chain chain') {n : Node}
    (h : ∀ c : Node, c.Child n → c.Sim R strict strict' chain chain') (operator : Keyword)
    (w : Value) (here : Location) :
    List.Forall₂ R (trials chain (n.branches operator) operator w here)
      (trials chain' (n.branches operator) operator w here) := by
  cases hns : n.branches operator with
  | none => exact .nil
  | some ns => exact sim_trialsFrom htrial (fun c hc => h c (.branch hns hc)) operator 0 w here

theorem sim_walkContents (hR : Walk.Simulation R strict strict') {n : Node}
    (h : ∀ c : Node, c.Child n → c.Sim R strict strict' chain chain') (here : Location)
    (w : Value) : R (n.walkContents chain strict here w) (n.walkContents chain' strict' here w) := by
  cases w with
  | object fs =>
      exact hR.bind (sim_emit hR n here fun v hv => (notes_of_mem_missingNames hv).reports) fun _ =>
        hR.bind (sim_walkProperties hR h fs here) fun gs =>
          hR.bind (sim_walkAdditional hR h gs here) fun hs => hR.pure _
  | array vs =>
      exact hR.bind (sim_walkItems hR h vs here) fun us =>
        hR.bind (sim_emit hR n here fun v hv => (notes_of_mem_tooFewItems hv).reports) fun _ =>
          hR.bind (sim_emit hR n here fun v hv => (notes_of_mem_tooManyItems hv).reports) fun _ =>
            hR.bind (sim_emit hR n here fun v hv => (notes_of_mem_repeatedItems hv).reports) fun _ =>
              hR.pure _
  | _ =>
      exact hR.bind (sim_emit hR n here fun v hv => (notes_of_mem_scalarViolations hv).reports) fun _ =>
        hR.pure _

theorem sim_walkBranches (hR : Walk.Simulation R strict strict')
    (htrial : SimTrials R strict strict' chain chain') {n : Node}
    (h : ∀ c : Node, c.Child n → c.Sim R strict strict' chain chain') (here : Location)
    (w : Value) : R (n.walkBranches chain strict here w) (n.walkBranches chain' strict' here w) :=
  sim_matchBranches hR n here w (sim_trials htrial h .anyOf w here) (sim_trials htrial h .not w here)
    (sim_trials htrial h .allOf w here) (sim_trials htrial h .oneOf w here)

theorem sim_walk (hR : Walk.Simulation R strict strict')
    (henter : ∀ n origin here, R (enter chain n origin here) (enter chain' n origin here))
    (htrial : SimTrials R strict strict' chain chain') (n : Node) :
    n.Sim R strict strict' chain chain' := by
  induction n using childInduction with
  | step n ih =>
  intro origin here
  rw [walk_eq, walk_eq]
  refine hR.bind (henter n origin here) fun given => ?_
  cases given with
  | none =>
      exact hR.bind (sim_emit hR n here fun v hv => (notes_of_mem_missingValue hv).reports) fun _ =>
        hR.pure none
  | some v =>
      cases hv : n.own.settle v with
      | error e =>
          simp only [hv]
          refine hR.bind (sim_emit hR n here fun u hu => ?_) fun _ => hR.pure (some v)
          rw [List.mem_singleton.mp hu]
          exact reports_wrongKind n here e.1 e.2
      | ok w =>
          simp only [hv]
          exact hR.bind (sim_walkContents hR ih here w) fun u =>
            hR.bind (sim_walkBranches hR htrial ih here u) fun _ => hR.pure (some u)

end Node

end CheckedConfig
