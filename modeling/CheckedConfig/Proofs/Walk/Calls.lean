import Mathlib.Logic.Relation
import CheckedConfig.Proofs.Walk.Descent
import CheckedConfig.Proofs.Walk.Kept

namespace CheckedConfig

open Relation

namespace Frame

def enter (chain : List Interceptor) (c : Frame) : Walk (Option Value) :=
  Node.enter chain c.node c.origin c.place

structure Takes (chain : List Interceptor) (c : Frame) (v w : Value) : Prop where
  entered : (c.enter chain).result = .ok (some v)
  settled : c.node.own.settle v = .ok w

inductive Down (c : Frame) : Value → Frame → Prop where
  | property {fs : Fields Value} {ps : List (String × Node)} {name : String} {m : Node} :
      c.node.properties = some ps → (name, m) ∈ ps →
      Down c (.object fs) ⟨m, fs.get? name, c.place.property name "properties"⟩
  | extra {fs : Fields Value} {name : String} {u : Value} {m : Node} :
      c.node.additional = some (.schema m) → c.node.declares name = false → (name, u) ∈ fs →
      Down c (.object fs) ⟨m, some u, c.place.property name "additionalProperties"⟩
  | item {vs : List Value} {i : Nat} {u : Value} {m : Node} :
      c.node.items = some m → vs[i]? = some u → Down c (.array vs) ⟨m, some u, c.place.index i⟩

inductive Turn (c : Frame) : Value → Frame → Prop where
  | branch {u : Value} {operator : Keyword} {ns : List Node} {i : Nat} {m : Node} :
      c.node.branches operator = some ns → ns[i]? = some m →
      Turn c u ⟨m, some u, c.place.branch operator i⟩

inductive Makes (chain : List Interceptor) (c : Frame) : Frame → Prop where
  | down {v w : Value} {d : Frame} : c.Takes chain v w → c.Down w d → Makes chain c d
  | turn {strict : Bool} {v w u : Value} {d : Frame} : c.Takes chain v w →
      (c.node.walkContents chain strict c.place w).result = .ok u → c.Turn u d → Makes chain c d

variable {chain : List Interceptor} {c d : Frame} {u w : Value} {x : Visit}

theorem Down.child (h : c.Down w d) : d.node.Child c.node := by
  cases h with
  | property hps hmem => exact .property hps hmem
  | extra hm _ _ => exact .extra hm
  | item hm _ => exact .items hm

theorem Turn.child (h : c.Turn u d) : d.node.Child c.node := by
  cases h with
  | branch hns hm => exact .branch hns (List.mem_of_getElem? hm)

theorem Turn.exists_branches (h : c.Turn u d) :
    ∃ operator, (c.node.branches operator).getD [] ≠ [] := by
  cases h with
  | @branch operator ns i m hns hm =>
      refine ⟨operator, ?_⟩
      rw [hns]
      exact List.ne_nil_of_mem (List.mem_of_getElem? hm)

theorem Makes.child (h : c.Makes chain d) : d.node.Child c.node := by
  cases h with
  | down _ hdown => exact hdown.child
  | turn _ _ hturn => exact hturn.child

theorem within_of_reaches (h : ReflTransGen (Makes chain) c d) : Node.Within d.node c.node := by
  induction h using ReflTransGen.head_induction_on with
  | refl => exact .self _
  | head hmakes _ ih => exact .under ih hmakes.child

def Sees (chain : List Interceptor) (c : Frame) (x : Visit) : Prop :=
  ∃ d, ReflTransGen (Makes chain) c d ∧ x ∈ (d.enter chain).visits

theorem Sees.of_makes (h : c.Makes chain d) (hx : d.Sees chain x) : c.Sees chain x := by
  obtain ⟨e, hreaches, hvisit⟩ := hx
  exact ⟨e, .head h hreaches, hvisit⟩

def SeesBelow (chain : List Interceptor) (c : Frame) (w : Value) (x : Visit) : Prop :=
  ∃ d, c.Down w d ∧ d.Sees chain x

end Frame

namespace Node

variable {chain : List Interceptor} {n : Node} {origin : Option Value} {here : Location}
  {strict : Bool}

def CallsAll (n : Node) (chain : List Interceptor) : Prop :=
  ∀ strict origin here,
    (n.walk chain strict origin here).Keeps (Frame.Sees chain ⟨n, origin, here⟩) (fun _ => True)
      fun _ => True

theorem calls_walkNamed {qs : List (String × Node)} (hqs : n.properties = some qs)
    (hchildren : ∀ c : Node, c.Child n → c.CallsAll chain) {fs : Fields Value}
    {ps : List (String × Node)} (hd : (Fields.keys ps).Nodup) (hps : ∀ p ∈ ps, p ∈ qs)
    {gs : Fields Value}
    (hnext : ∀ name ∈ Fields.keys ps, Fields.get? gs name = Fields.get? fs name)
    (hleft : ∀ p ∈ gs, n.declares p.1 = false → p ∈ fs) :
    (walkNamed chain ps strict gs here).Keeps
      (Frame.SeesBelow chain ⟨n, origin, here⟩ (.object fs)) (fun _ => True)
      fun hs => ∀ p ∈ hs, n.declares p.1 = false → p ∈ fs := by
  -- Invariant: the properties still to be walked, and what is not declared, are as they came.
  induction ps generalizing gs with
  | nil => exact .pure hleft
  | cons q ps ih =>
      obtain ⟨name, c⟩ := q
      obtain ⟨hname, hrest⟩ := List.nodup_cons.mp hd
      obtain ⟨hmem, hps⟩ := List.forall_mem_cons.mp hps
      have hget : Fields.get? gs name = Fields.get? fs name := hnext name (List.mem_cons_self ..)
      have hwalk := hchildren c (.property hqs hmem) strict (Fields.get? fs name)
        (here.property name "properties")
      rw [walkNamed, hget]
      refine Walk.Keeps.bind (hwalk.mono (fun x hx => ?_) (fun _ => id) fun _ => id) fun o _ =>
        ih hrest hps (fun key hkey => ?_) fun p hp hno => ?_
      · exact ⟨_, .property hqs hmem, hx⟩
      · have hne : name ≠ key := fun heq => hname (heq ▸ hkey)
        rw [Fields.get?_putBack_of_ne gs o hne]
        exact hnext key (List.mem_cons_of_mem _ hkey)
      · rcases Fields.mem_putBack hp with hp | rfl
        · exact hleft p hp hno
        · rw [declares_of_mem hqs hmem] at hno
          cases hno

theorem calls_walkProperties (hnormal : n.normalize = n)
    (hchildren : ∀ c : Node, c.Child n → c.CallsAll chain) (fs : Fields Value) :
    (walkProperties chain n.properties strict fs here).Keeps
      (Frame.SeesBelow chain ⟨n, origin, here⟩ (.object fs)) (fun _ => True)
      fun gs => ∀ p ∈ gs, n.declares p.1 = false → p ∈ fs := by
  cases hps : n.properties with
  | none => exact .pure fun p hp _ => hp
  | some ps =>
      exact calls_walkNamed hps hchildren (keys_nodup_of_normal hnormal hps) (fun _ => id)
        (fun _ _ => rfl) fun p hp _ => hp

theorem calls_walkAdditional (hchildren : ∀ c : Node, c.Child n → c.CallsAll chain)
    {fs gs : Fields Value} (hgs : ∀ p ∈ gs, n.declares p.1 = false → p ∈ fs) :
    (walkAdditional chain n.additional n strict gs here).Keeps
      (Frame.SeesBelow chain ⟨n, origin, here⟩ (.object fs)) (fun _ => True) fun _ => True := by
  cases hm : n.additional with
  | none => exact .pure trivial
  | some extra =>
      cases extra with
      | allowed b =>
          cases b with
          | true => exact .pure trivial
          | false => exact (Walk.Keeps.emit fun _ _ => trivial).bind fun _ _ => .pure trivial
      | schema c =>
          refine (Walk.Keeps.fieldsWhere (Q := fun _ _ => True) (fun _ _ _ => trivial)
            fun p hp htest => ?_).mono (fun _ => id) (fun _ => id) fun _ _ => trivial
          have hno : n.declares p.1 = false := by simpa using htest
          have hwalk := hchildren c (.extra hm) strict (some p.2)
            (here.property p.1 "additionalProperties")
          exact hwalk.mono (fun x hx => ⟨_, .extra hm hno (hgs p hp hno), hx⟩) (fun _ => id)
            fun _ => id

theorem calls_walkItems (hchildren : ∀ c : Node, c.Child n → c.CallsAll chain)
    (vs : List Value) :
    (walkItems chain n.items strict vs here).Keeps
      (Frame.SeesBelow chain ⟨n, origin, here⟩ (.array vs)) (fun _ => True) fun _ => True := by
  cases hm : n.items with
  | none => exact .pure trivial
  | some c =>
      refine (Walk.Keeps.itemsFrom (Q := fun _ => True) fun i v hv => ?_).mono (fun _ => id)
        (fun _ => id) fun _ _ => trivial
      have hwalk := hchildren c (.items hm) strict (some v) (here.index i)
      rw [Nat.zero_add]
      exact hwalk.mono (fun x hx => ⟨_, .item hm hv, hx⟩) (fun _ => id) fun _ => id

theorem calls_walkContents (hnormal : n.normalize = n)
    (hchildren : ∀ c : Node, c.Child n → c.CallsAll chain) (w : Value) :
    (n.walkContents chain strict here w).Keeps (Frame.SeesBelow chain ⟨n, origin, here⟩ w)
      (fun _ => True) fun _ => True := by
  have hemit (vs : List Violation) : (Walk.emit strict vs).Keeps
      (Frame.SeesBelow chain ⟨n, origin, here⟩ w) (fun _ => True) fun _ => True :=
    .emit fun _ _ => trivial
  cases w with
  | object fs =>
      refine (hemit _).bind fun _ _ => ?_
      refine (calls_walkProperties hnormal hchildren fs).bind fun gs hgs => ?_
      exact (calls_walkAdditional hchildren hgs).bind fun _ _ => .pure trivial
  | array vs =>
      refine (calls_walkItems hchildren vs).bind fun us _ => ?_
      exact (hemit _).bind fun _ _ => (hemit _).bind fun _ _ => (hemit _).bind fun _ _ =>
        .pure trivial
  | _ => exact (hemit _).bind fun _ _ => .pure trivial

theorem calls_trials (hchildren : ∀ c : Node, c.Child n → c.CallsAll chain)
    (origin : Option Value) (operator : Keyword) (u : Value) :
    ∀ t ∈ trials chain (n.branches operator) operator u here,
      t.Keeps (fun x => ∃ d, Frame.Turn ⟨n, origin, here⟩ u d ∧ d.Sees chain x) (fun _ => True)
        fun _ => True := by
  intro t ht
  cases hns : n.branches operator with
  | none =>
      rw [hns] at ht
      exact absurd ht List.not_mem_nil
  | some ns =>
      rw [hns] at ht
      obtain ⟨i, c, hc, rfl⟩ := mem_trialsFrom ht
      have hchild : c.Child n := .branch hns (List.mem_of_getElem? hc)
      have hwalk := hchildren c hchild false (some u) (here.branch operator i)
      rw [Nat.zero_add]
      exact (hwalk.mono (fun x hx => ⟨_, .branch hns hc, hx⟩) (fun _ => id) fun _ => id).passes

theorem callsAll (hnormal : n.normalize = n) : n.CallsAll chain := by
  induction n using childInduction with
  | step n ih =>
  have hchildren (c : Node) (hc : c.Child n) : c.CallsAll chain := ih c hc (hc.normal hnormal)
  intro strict origin here
  have hemit (vs : List Violation) : (Walk.emit strict vs).Keeps
      (Frame.Sees chain ⟨n, origin, here⟩) (fun _ => True) fun _ => True := .emit fun _ _ => trivial
  have henter : (enter chain n origin here).Keeps (Frame.Sees chain ⟨n, origin, here⟩)
      (fun _ => True) fun o => (enter chain n origin here).result = .ok o := by
    refine ⟨fun x hx => ⟨_, .refl, hx⟩, fun _ _ => trivial, fun _ => id⟩
  rw [walk_eq]
  refine henter.bind fun given hgiven => ?_
  cases given with
  | none => exact (hemit _).bind fun _ _ => .pure trivial
  | some v =>
      cases hsettle : n.own.settle v with
      | error e =>
          simp only [hsettle]
          exact (hemit _).bind fun _ _ => .pure trivial
      | ok w =>
          simp only [hsettle]
          have htakes : Frame.Takes chain ⟨n, origin, here⟩ v w := ⟨hgiven, hsettle⟩
          have hcontents : (n.walkContents chain strict here w).Keeps
              (Frame.SeesBelow chain ⟨n, origin, here⟩ w) (fun _ => True) fun _ => True :=
            calls_walkContents hnormal hchildren w
          refine (hcontents.and_result.mono (fun x hx => ?_) (fun _ => id) fun _ => id).bind
            fun u hu => ?_
          · obtain ⟨d, hdown, hx⟩ := hx
            exact hx.of_makes (.down htakes hdown)
          · have htrials (operator : Keyword) :
                ∀ t ∈ trials chain (n.branches operator) operator u here,
                  t.Keeps (Frame.Sees chain ⟨n, origin, here⟩) (fun _ => True) fun _ => True := by
              intro t ht
              refine (calls_trials hchildren origin operator u t ht).mono (fun x hx => ?_) (fun _ => id)
                fun _ => id
              obtain ⟨d, hturn, hx⟩ := hx
              exact hx.of_makes (.turn htakes hu.2 hturn)
            exact (keeps_matchBranches (fun _ _ _ => trivial) (htrials .anyOf) (htrials .not)
              (htrials .allOf) (htrials .oneOf)).bind fun _ _ => .pure trivial

end Node

theorem Frame.sees_of_visit {chain : List Interceptor} {strict : Bool} {c : Frame} {x : Visit}
    (hnormal : c.node.normalize = c.node) (hx : x ∈ (c.walk chain strict).visits) :
    c.Sees chain x :=
  (Node.callsAll hnormal strict c.origin c.place).visits x hx

end CheckedConfig
