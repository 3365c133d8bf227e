import CheckedConfig.Proofs.Walk.Completed

namespace CheckedConfig

namespace Node

mutual

def outcome : Node → Option Value → Option Value
  | ⟨own, properties, items, additional, anyOf, allOf, oneOf, noneOf⟩, origin =>
      (origin <|> own.default).map fun v =>
        match own.settle v with
        | .error _ => v
        | .ok (.object fs) =>
            .object (outcomeAdditional additional
              ⟨own, properties, items, additional, anyOf, allOf, oneOf, noneOf⟩
              (outcomeProperties properties fs))
        | .ok (.array vs) => .array (outcomeItems items vs)
        | .ok w => w

def outcomeProperties : Option (List (String × Node)) → Fields Value → Fields Value
  | none, fs => fs
  | some ps, fs => outcomeNamed ps fs

def outcomeNamed : List (String × Node) → Fields Value → Fields Value
  | [], fs => fs
  | (name, n) :: rest, fs => outcomeNamed rest (fs.putBack name (n.outcome (fs.get? name)))

def outcomeAdditional : Option (Additional Node) → Node → Fields Value → Fields Value
  | some (.schema extra), n, fs =>
      fs.map fun p =>
        (p.1, if n.declares p.1 then p.2 else (extra.outcome (some p.2)).getD .null)
  | some (.allowed _), _, fs => fs
  | none, _, fs => fs

def outcomeItems : Option Node → List Value → List Value
  | none, vs => vs
  | some n, vs => vs.map fun v => (n.outcome (some v)).getD .null

end

def inside (n : Node) : Value → Value
  | .object fs => .object (outcomeAdditional n.additional n (outcomeProperties n.properties fs))
  | .array vs => .array (outcomeItems n.items vs)
  | w => w

theorem outcome_eq (n : Node) (origin : Option Value) :
    n.outcome origin = (origin <|> n.own.default).map fun v =>
      match n.own.settle v with
      | .error _ => v
      | .ok w => n.inside w := by
  obtain ⟨own, properties, items, additional, anyOf, allOf, oneOf, noneOf⟩ := n
  rw [outcome]
  congr 1
  funext v
  cases own.settle v with
  | error e => rfl
  | ok w => cases w <;> rfl

def arrayViolations (n : Node) (here : Location) (vs : List Value) : List Violation :=
  n.tooFewItems here vs ++ n.tooManyItems here vs ++ n.repeatedItems here vs

mutual

def found : Node → Option Value → Location → List Violation
  | ⟨own, properties, items, additional, anyOf, allOf, oneOf, noneOf⟩, origin, here =>
      let n : Node := ⟨own, properties, items, additional, anyOf, allOf, oneOf, noneOf⟩
      match origin <|> own.default with
      | none => n.missingValue here
      | some v =>
          match own.settle v with
          | .error (why, rs) => [n.wrongKind here why rs]
          | .ok w =>
              (match w with
                | .object fs =>
                    n.missingNames here fs ++ foundProperties properties fs here
                      ++ foundAdditional additional n (outcomeProperties properties fs) here
                | .array vs =>
                    foundItems items vs here ++ n.arrayViolations here (outcomeItems items vs)
                | w => n.scalarViolations here w)
              ++ n.branchViolations here (n.inside w) (passing anyOf .anyOf (n.inside w) here)
                (passing noneOf .not (n.inside w) here) (passing allOf .allOf (n.inside w) here)
                (passing oneOf .oneOf (n.inside w) here)

def foundProperties : Option (List (String × Node)) → Fields Value → Location → List Violation
  | none, _, _ => []
  | some ps, fs, here => foundNamed ps fs here

def foundNamed : List (String × Node) → Fields Value → Location → List Violation
  | [], _, _ => []
  | (name, n) :: rest, fs, here =>
      n.found (fs.get? name) (here.property name "properties")
        ++ foundNamed rest (fs.putBack name (n.outcome (fs.get? name))) here

def foundAdditional : Option (Additional Node) → Node → Fields Value → Location → List Violation
  | some (.allowed false), n, fs, here => n.undeclared here fs
  | some (.schema extra), n, fs, here =>
      fs.flatMap fun p =>
        if n.declares p.1 then []
        else extra.found (some p.2) (here.property p.1 "additionalProperties")
  | some (.allowed true), _, _, _ => []
  | none, _, _, _ => []

def foundItems : Option Node → List Value → Location → List Violation
  | none, _, _ => []
  | some n, vs, here =>
      vs.zipIdx.flatMap fun p => n.found (some p.1) (here.index p.2)

def passing : Option (List Node) → Keyword → Value → Location → List Bool
  | none, _, _, _ => []
  | some ns, operator, w, here => passingFrom ns operator 0 w here

def passingFrom : List Node → Keyword → Nat → Value → Location → List Bool
  | [], _, _, _, _ => []
  | n :: ns, operator, i, w, here =>
      (n.found (some w) (here.branch operator i)).isEmpty
        :: passingFrom ns operator (i + 1) w here

end

def foundContents (n : Node) (here : Location) : Value → List Violation
  | .object fs =>
      n.missingNames here fs ++ foundProperties n.properties fs here
        ++ foundAdditional n.additional n (outcomeProperties n.properties fs) here
  | .array vs => foundItems n.items vs here ++ n.arrayViolations here (outcomeItems n.items vs)
  | w => n.scalarViolations here w

def foundBranches (n : Node) (here : Location) (w : Value) : List Violation :=
  n.branchViolations here w (passing n.anyOf .anyOf w here) (passing n.noneOf .not w here)
    (passing n.allOf .allOf w here) (passing n.oneOf .oneOf w here)

theorem outcome_of_settle {n : Node} {v w : Value} (h : n.own.settle v = .ok w) :
    n.outcome (some v) = some (n.inside w) := by
  rw [outcome_eq]
  simp [h]

theorem outcome_of_refused {n : Node} {v : Value} {e : String × List Refusal}
    (h : n.own.settle v = .error e) : n.outcome (some v) = some v := by
  rw [outcome_eq]
  simp [h]

theorem found_of_settle {n : Node} {v w : Value} (here : Location) (h : n.own.settle v = .ok w) :
    n.found (some v) here = n.foundContents here w ++ n.foundBranches here (n.inside w) := by
  obtain ⟨own, properties, items, additional, anyOf, allOf, oneOf, noneOf⟩ := n
  simp only at h
  rw [found]
  cases w <;> simp [h, foundContents, foundBranches]

theorem found_of_refused {n : Node} {v : Value} {why : String} {rs : List Refusal}
    (here : Location) (h : n.own.settle v = .error (why, rs)) :
    n.found (some v) here = [n.wrongKind here why rs] := by
  obtain ⟨own, properties, items, additional, anyOf, allOf, oneOf, noneOf⟩ := n
  simp only at h
  rw [found]
  simp [h]

theorem outcome_none_of_default {n : Node} {d : Value} (h : n.own.default = some d) :
    n.outcome none = n.outcome (some d) := by
  simp [outcome_eq, h]

theorem found_none_of_default {n : Node} {d : Value} (here : Location)
    (h : n.own.default = some d) : n.found none here = n.found (some d) here := by
  obtain ⟨own, properties, items, additional, anyOf, allOf, oneOf, noneOf⟩ := n
  simp only at h
  simp [found, h]

theorem outcome_none {n : Node} (h : n.own.default = none) : n.outcome none = none := by
  simp [outcome_eq, h]

theorem found_none {n : Node} (here : Location) (h : n.own.default = none) :
    n.found none here = n.missingValue here := by
  obtain ⟨own, properties, items, additional, anyOf, allOf, oneOf, noneOf⟩ := n
  simp only at h
  simp [found, h]

theorem outcome_eq_none {n : Node} {origin : Option Value} (h : n.outcome origin = none) :
    origin = none := by
  cases origin with
  | none => rfl
  | some v => simp [outcome_eq] at h

theorem outcome_some (n : Node) (v : Value) : ∃ w, n.outcome (some v) = some w := by
  rw [outcome_eq]
  exact ⟨_, rfl⟩

def Completes (n : Node) : Prop :=
  ∀ origin here, n.walk [] false origin here = Walk.done (n.outcome origin) (n.found origin here)

theorem walkNamed_eq_done {ps : List (String × Node)} (h : ∀ p ∈ ps, p.2.Completes)
    (fs : Fields Value) (here : Location) :
    walkNamed [] ps false fs here = Walk.done (outcomeNamed ps fs) (foundNamed ps fs here) := by
  induction ps generalizing fs with
  | nil => rfl
  | cons p ps ih =>
      obtain ⟨name, c⟩ := p
      have hc : c.Completes := h (name, c) (List.mem_cons_self ..)
      rw [walkNamed, hc, Walk.done_bind, ih fun q hq => h q (List.mem_cons_of_mem _ hq)]
      rfl

theorem fieldsWhere_eq_done (test : String → Bool) (f : String → Value → Walk (Option Value))
    (g : Value → Option Value) (e : String → Value → List Violation)
    (h : ∀ name v, f name v = Walk.done (g v) (e name v)) (fs : Fields Value) :
    Walk.fieldsWhere test f fs =
      Walk.done (fs.map fun p => (p.1, if test p.1 then (g p.2).getD .null else p.2))
        (fs.flatMap fun p => if test p.1 then e p.1 p.2 else []) := by
  induction fs with
  | nil => rfl
  | cons p fs ih =>
      obtain ⟨name, v⟩ := p
      rw [Walk.fieldsWhere, ih, h]
      by_cases ht : test name = true <;> simp [ht]

theorem itemsFrom_eq_done (f : Nat → Value → Walk (Option Value)) (g : Value → Option Value)
    (e : Nat → Value → List Violation) (h : ∀ i v, f i v = Walk.done (g v) (e i v)) (i : Nat)
    (vs : List Value) :
    Walk.itemsFrom f i vs =
      Walk.done (vs.map fun v => (g v).getD .null)
        ((vs.zipIdx i).flatMap fun p => e p.2 p.1) := by
  induction vs generalizing i with
  | nil => rfl
  | cons v vs ih =>
      rw [Walk.itemsFrom, h, Walk.done_bind, ih]
      simp

theorem walkProperties_eq_done {n : Node} (h : ∀ c : Node, c.Child n → c.Completes)
    (fs : Fields Value) (here : Location) :
    walkProperties [] n.properties false fs here =
      Walk.done (outcomeProperties n.properties fs) (foundProperties n.properties fs here) := by
  cases hps : n.properties with
  | none => rfl
  | some ps => exact walkNamed_eq_done (fun p hp => h p.2 (.property hps hp)) fs here

theorem walkAdditional_eq_done {n : Node} (h : ∀ c : Node, c.Child n → c.Completes)
    (fs : Fields Value) (here : Location) :
    walkAdditional [] n.additional n false fs here =
      Walk.done (outcomeAdditional n.additional n fs) (foundAdditional n.additional n fs here) := by
  cases hm : n.additional with
  | none => rfl
  | some extra =>
      cases extra with
      | allowed b =>
          cases b with
          | true => rfl
          | false => simp [walkAdditional, outcomeAdditional, foundAdditional]
      | schema m =>
          rw [walkAdditional, fieldsWhere_eq_done _ _ (fun v => m.outcome (some v))
            (fun name v => m.found (some v) (here.property name "additionalProperties"))
            fun name v => h m (.extra hm) _ _]
          simp only [outcomeAdditional, foundAdditional, Bool.not_eq_true', ite_not,
            ← Bool.not_eq_true]

theorem walkItems_eq_done {n : Node} (h : ∀ c : Node, c.Child n → c.Completes)
    (vs : List Value) (here : Location) :
    walkItems [] n.items false vs here =
      Walk.done (outcomeItems n.items vs) (foundItems n.items vs here) := by
  cases hm : n.items with
  | none => rfl
  | some m =>
      exact itemsFrom_eq_done _ (fun v => m.outcome (some v))
        (fun i v => m.found (some v) (here.index i)) (fun i v => h m (.items hm) _ _) 0 vs

theorem trialsFrom_eq {ns : List Node} (h : ∀ c ∈ ns, c.Completes) (operator : Keyword) (i : Nat)
    (w : Value) (here : Location) :
    trialsFrom [] ns operator i w here = Walk.trialsOf (passingFrom ns operator i w here) := by
  induction ns generalizing i with
  | nil => rfl
  | cons c ns ih =>
      rw [trialsFrom, h c (List.mem_cons_self ..), Walk.done_passes,
        ih fun d hd => h d (List.mem_cons_of_mem _ hd)]
      rfl

theorem trials_eq {n : Node} (h : ∀ c : Node, c.Child n → c.Completes) (operator : Keyword)
    (w : Value) (here : Location) :
    trials [] (n.branches operator) operator w here =
      Walk.trialsOf (passing (n.branches operator) operator w here) := by
  cases hns : n.branches operator with
  | none => rfl
  | some ns => exact trialsFrom_eq (fun c hc => h c (.branch hns hc)) operator 0 w here

theorem walkContents_eq_done {n : Node} (h : ∀ c : Node, c.Child n → c.Completes)
    (here : Location) (w : Value) :
    n.walkContents [] false here w = Walk.done (n.inside w) (n.foundContents here w) := by
  cases w with
  | object fs =>
      simp [walkContents, foundContents, inside, walkProperties_eq_done h, walkAdditional_eq_done h]
  | array vs =>
      simp [walkContents, foundContents, inside, walkItems_eq_done h, arrayViolations]
  | _ => simp [walkContents, foundContents, inside]

theorem walkBranches_eq_done {n : Node} (h : ∀ c : Node, c.Child n → c.Completes)
    (here : Location) (w : Value) :
    n.walkBranches [] false here w = Walk.done () (n.foundBranches here w) := by
  rw [walkBranches, trials_eq h, trials_eq h, trials_eq h, trials_eq h]
  exact matchBranches_trialsOf n here w _ _ _ _

theorem completes (n : Node) : n.Completes := by
  induction n using childInduction with
  | step n ih =>
  intro origin here
  have hsome (v : Value) (horigin : (origin <|> n.own.default) = some v) :
      n.walk [] false origin here = Walk.done (n.outcome (some v)) (n.found (some v) here) := by
    rw [walk_eq, enter, List.isEmpty_nil, if_pos rfl, Walk.pure_eq_done, Walk.done_bind, horigin]
    cases hv : n.own.settle v with
    | error e => simp [hv, outcome_of_refused hv, found_of_refused here hv]
    | ok w =>
        simp [hv, outcome_of_settle hv, found_of_settle here hv, walkContents_eq_done ih,
          walkBranches_eq_done ih]
  cases origin with
  | some v => exact hsome v rfl
  | none =>
      cases hd : n.own.default with
      | some d =>
          rw [outcome_none_of_default hd, found_none_of_default here hd]
          exact hsome d (by simp [hd])
      | none =>
          rw [walk_eq, enter, outcome_none hd, found_none here hd]
          simp [hd]

theorem walk_eq_done (n : Node) (origin : Option Value) (here : Location) :
    n.walk [] false origin here = Walk.done (n.outcome origin) (n.found origin here) :=
  n.completes origin here

end Node

namespace Fields

theorem putBack_cases (fs : Fields Value) (n : String) (o : Option Value) :
    fs.putBack n o = fs.set n (o.getD .null) ∨ fs.putBack n o = fs := by
  cases o with
  | some v => exact .inl rfl
  | none =>
      rw [putBack]
      split
      · exact .inl rfl
      · exact .inr rfl

theorem get?_putBack_of_ne (fs : Fields Value) {n m : String} (o : Option Value) (h : n ≠ m) :
    (fs.putBack n o).get? m = fs.get? m := by
  rcases fs.putBack_cases n o with heq | heq
  · rw [heq, get?_set_of_ne fs _ h]
  · rw [heq]

theorem get?_putBack_self {fs : Fields Value} {n : String} {o : Option Value}
    (h : o = none → fs.get? n = none) : (fs.putBack n o).get? n = o := by
  cases o with
  | some v => exact get?_set_self fs n v
  | none => simp [putBack, has, h rfl]

theorem putBack_get? (fs : Fields Value) (n : String) : fs.putBack n (fs.get? n) = fs := by
  cases h : fs.get? n with
  | some v => exact set_get?_self h
  | none => simp [putBack, has, h]

theorem has_putBack {fs : Fields Value} {m : String} (n : String) (o : Option Value)
    (h : fs.has m = true) : (fs.putBack n o).has m = true := by
  rcases fs.putBack_cases n o with heq | heq
  · rw [heq, has_of_has_set n _ h]
  · rw [heq, h]

theorem mem_putBack {fs : Fields Value} {n : String} {o : Option Value} {p : String × Value}
    (h : p ∈ fs.putBack n o) : p ∈ fs ∨ p = (n, o.getD .null) := by
  rcases fs.putBack_cases n o with heq | heq
  · exact mem_set (heq ▸ h)
  · exact .inl (heq ▸ h)

theorem nodup_putBack {fs : Fields Value} (hd : fs.keys.Nodup) (n : String) (o : Option Value) :
    (fs.putBack n o).keys.Nodup := by
  rcases fs.putBack_cases n o with heq | heq
  · rw [heq]
    exact nodup_set hd n _
  · rw [heq]
    exact hd

end Fields

namespace Node

theorem outcomeNamed_get?_of_not_mem {ps : List (String × Node)} {name : String}
    (h : name ∉ Fields.keys ps) (fs : Fields Value) :
    (outcomeNamed ps fs).get? name = fs.get? name := by
  induction ps generalizing fs with
  | nil => rfl
  | cons p ps ih =>
      obtain ⟨m, c⟩ := p
      rw [Fields.keys_cons, List.mem_cons, not_or] at h
      rw [outcomeNamed, ih h.2, Fields.get?_putBack_of_ne fs _ (Ne.symm h.1)]

theorem outcomeNamed_get? {ps : List (String × Node)} (hd : (Fields.keys ps).Nodup) {name : String}
    {c : Node} (hc : (name, c) ∈ ps) (fs : Fields Value) :
    (outcomeNamed ps fs).get? name = c.outcome (fs.get? name) := by
  induction ps generalizing fs with
  | nil => simp at hc
  | cons p ps ih =>
      obtain ⟨m, d⟩ := p
      obtain ⟨hm, hrest⟩ := List.nodup_cons.mp hd
      rw [outcomeNamed]
      rcases List.mem_cons.mp hc with heq | hmem
      · obtain ⟨rfl, rfl⟩ := Prod.mk.inj heq
        rw [outcomeNamed_get?_of_not_mem hm]
        exact Fields.get?_putBack_self outcome_eq_none
      · have hne : m ≠ name := fun heq => hm (heq ▸ List.mem_map.mpr ⟨(name, c), hmem, rfl⟩)
        rw [ih hrest hmem, Fields.get?_putBack_of_ne fs _ hne]

theorem foundNamed_eq_flatMap {ps : List (String × Node)} (hd : (Fields.keys ps).Nodup)
    (fs : Fields Value) (here : Location) :
    foundNamed ps fs here =
      ps.flatMap fun p => p.2.found (fs.get? p.1) (here.property p.1 "properties") := by
  induction ps generalizing fs with
  | nil => rfl
  | cons p ps ih =>
      obtain ⟨name, c⟩ := p
      obtain ⟨hname, hrest⟩ := List.nodup_cons.mp hd
      rw [foundNamed, ih hrest, List.flatMap_cons]
      congr 1
      refine congrArg List.flatten (List.map_congr_left fun q hq => ?_)
      have hne : name ≠ q.1 := fun heq => hname (heq ▸ List.mem_map.mpr ⟨q, hq, rfl⟩)
      rw [Fields.get?_putBack_of_ne fs _ hne]

theorem outcomeNamed_eq_self {ps : List (String × Node)} {fs : Fields Value}
    (h : ∀ p ∈ ps, p.2.outcome (fs.get? p.1) = fs.get? p.1) : outcomeNamed ps fs = fs := by
  induction ps with
  | nil => rfl
  | cons p ps ih =>
      obtain ⟨name, c⟩ := p
      rw [outcomeNamed, h (name, c) (List.mem_cons_self ..), Fields.putBack_get?]
      exact ih fun q hq => h q (List.mem_cons_of_mem _ hq)

theorem has_outcomeNamed {fs : Fields Value} {m : String} (h : fs.has m = true)
    (ps : List (String × Node)) : (outcomeNamed ps fs).has m = true := by
  induction ps generalizing fs with
  | nil => exact h
  | cons p ps ih => exact ih (Fields.has_putBack p.1 _ h)

theorem declares_of_mem {n c : Node} {ps : List (String × Node)} {name : String}
    (hps : n.properties = some ps) (hc : (name, c) ∈ ps) : n.declares name = true := by
  rw [declares, hps]
  exact (Fields.has_iff ps name).mpr (List.mem_map.mpr ⟨(name, c), hc, rfl⟩)

theorem keys_outcomeAdditional (n : Node) (fs : Fields Value) :
    Fields.keys (outcomeAdditional n.additional n fs) = Fields.keys fs := by
  cases hm : n.additional with
  | none => rfl
  | some extra =>
      cases extra with
      | allowed b => rfl
      | schema m => simp [outcomeAdditional, Fields.keys]

theorem get?_outcomeAdditional (c n : Node) (fs : Fields Value) (name : String) :
    Fields.get? (outcomeAdditional (some (.schema c)) n fs) name = (Fields.get? fs name).map fun v =>
      if n.declares name then v else (c.outcome (some v)).getD .null := by
  rw [outcomeAdditional, Fields.get?_map
    (fun k v => if n.declares k then v else (c.outcome (some v)).getD .null)]

theorem outcomeAdditional_get?_of_declares {n : Node} {name : String} (h : n.declares name = true)
    (fs : Fields Value) : (outcomeAdditional n.additional n fs).get? name = fs.get? name := by
  cases hm : n.additional with
  | none => rfl
  | some extra =>
      cases extra with
      | allowed b => rfl
      | schema m =>
          rw [get?_outcomeAdditional]
          simp [h]

theorem outcomeFields_get? {n c : Node} {ps : List (String × Node)} {name : String}
    (hnormal : n.normalize = n) (hps : n.properties = some ps) (hc : (name, c) ∈ ps)
    (fs : Fields Value) :
    (outcomeAdditional n.additional n (outcomeNamed ps fs)).get? name
      = c.outcome (fs.get? name) := by
  rw [outcomeAdditional_get?_of_declares (declares_of_mem hps hc)]
  exact outcomeNamed_get? (keys_nodup_of_normal hnormal hps) hc fs

theorem outcomeProperties_get?_of_undeclared {n : Node} {name : String}
    (h : n.declares name = false) (fs : Fields Value) :
    (outcomeProperties n.properties fs).get? name = fs.get? name := by
  cases hps : n.properties with
  | none => rfl
  | some ps =>
      refine outcomeNamed_get?_of_not_mem ?_ fs
      rw [← Fields.has_iff]
      simpa [declares, hps] using h

theorem outcomeAdditional_get?_of_undeclared {n m : Node} {name : String}
    (hm : n.additional = some (.schema m)) (h : n.declares name = false) {fs : Fields Value}
    {w : Value} (hw : fs.get? name = some w) :
    (outcomeAdditional n.additional n fs).get? name = m.outcome (some w) := by
  obtain ⟨u, hu⟩ := m.outcome_some w
  rw [hm, get?_outcomeAdditional]
  simp [h, hw, hu]

end Node

theorem Schema.walk_eq_done (s : Schema) (v : Option Value) :
    s.walk [] false v = Walk.done (s.root.outcome v) (s.root.found v Location.root) :=
  s.root.walk_eq_done v Location.root

end CheckedConfig
