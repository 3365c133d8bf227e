import CheckedConfig.Proofs.Walk.Spine

namespace CheckedConfig

namespace Keyword

def checks : List Keyword :=
  [.required, .additionalProperties, .minItems, .maxItems, .uniqueItems, .minLength, .maxLength,
   .minimum, .maximum, .pattern, .enum, .anyOf, .allOf, .oneOf, .not]

def erase {α : Type} (ks : List Keyword) (k : Keyword) (field : Option α) : Option α :=
  if k ∈ ks then none else field

end Keyword

namespace Keywords

def without (ks : List Keyword) (own : Keywords) : Keywords :=
  { own with
    required := Keyword.erase ks .required own.required
    minimum := Keyword.erase ks .minimum own.minimum
    maximum := Keyword.erase ks .maximum own.maximum
    minLength := Keyword.erase ks .minLength own.minLength
    maxLength := Keyword.erase ks .maxLength own.maxLength
    minItems := Keyword.erase ks .minItems own.minItems
    maxItems := Keyword.erase ks .maxItems own.maxItems
    uniqueItems := own.uniqueItems && .uniqueItems ∉ ks
    pattern := Keyword.erase ks .pattern own.pattern
    members := Keyword.erase ks .enum own.members }

variable (ks : List Keyword) (own : Keywords)

theorem settle_without (v : Value) : (own.without ks).settle v = own.settle v := rfl

theorem normalizeKind_without (a b : Bool) :
    (own.without ks).normalizeKind a b = (own.normalizeKind a b).without ks := by
  cases hk : own.kind with
  | some s => simp only [normalizeKind, without, hk]
  | none =>
      simp only [normalizeKind, without, hk]
      rfl

theorem normalizeRequired_without :
    (own.without ks).normalizeRequired = own.normalizeRequired.without ks := by
  rcases hr : own.required with _ | _ | _ | _ <;> by_cases hks : .required ∈ ks <;>
    simp [normalizeRequired, without, Keyword.erase, hks, hr]

theorem normalize_without (a b : Bool) :
    (own.without ks).normalize a b = (own.normalize a b).without ks := by
  rw [normalize, normalize, normalizeKind_without, normalizeRequired_without]

end Keywords

namespace Node

mutual

def without (ks : List Keyword) : Node → Node
  | ⟨own, properties, items, additional, anyOf, allOf, oneOf, noneOf⟩ =>
      ⟨own.without ks, withoutProperties ks properties, withoutItems ks items,
       withoutAdditional ks additional, Keyword.erase ks .anyOf anyOf,
       Keyword.erase ks .allOf allOf, Keyword.erase ks .oneOf oneOf, Keyword.erase ks .not noneOf⟩

def withoutProperties (ks : List Keyword) :
    Option (List (String × Node)) → Option (List (String × Node))
  | none => none
  | some ps => some (withoutNamed ks ps)

def withoutItems (ks : List Keyword) : Option Node → Option Node
  | none => none
  | some n => some (n.without ks)

def withoutAdditional (ks : List Keyword) : Option (Additional Node) → Option (Additional Node)
  | none => none
  | some (.allowed true) => some (.allowed true)
  | some (.allowed false) => Keyword.erase ks .additionalProperties (some (.allowed false))
  | some (.schema n) => some (.schema (n.without ks))

def withoutNamed (ks : List Keyword) : List (String × Node) → List (String × Node)
  | [] => []
  | (name, n) :: rest => (name, n.without ks) :: withoutNamed ks rest

end

variable (ks : List Keyword) (n : Node)

theorem own_without : (n.without ks).own = n.own.without ks := by
  cases n
  rfl

theorem properties_without : (n.without ks).properties = withoutProperties ks n.properties := by
  cases n
  rfl

theorem items_without : (n.without ks).items = withoutItems ks n.items := by
  cases n
  rfl

theorem additional_without : (n.without ks).additional = withoutAdditional ks n.additional := by
  cases n
  rfl

theorem branches_without (operator : Keyword) :
    (n.without ks).branches operator = Keyword.erase ks operator (n.branches operator) := by
  cases n
  cases operator <;> simp only [branches, without, Keyword.erase, ite_self]

theorem withoutNamed_eq (ps : List (String × Node)) :
    withoutNamed ks ps = ps.map fun p => (p.1, p.2.without ks) := by
  induction ps with
  | nil => rfl
  | cons p ps ih => rw [withoutNamed, ih, List.map_cons]

theorem declares_without (name : String) : (n.without ks).declares name = n.declares name := by
  rw [declares, declares, properties_without]
  cases n.properties with
  | none => rfl
  | some ps =>
      simp only [withoutProperties, withoutNamed_eq, Fields.has,
        Fields.get?_map fun _ c => without ks c, Option.isSome_map]

theorem normalizeBranches_erase (k : Keyword) (b : Option (List Node)) :
    normalizeBranches (Keyword.erase ks k b) = Keyword.erase ks k (normalizeBranches b) := by
  unfold Keyword.erase
  split <;> rfl

variable {n}

theorem normal_without (hn : n.normalize = n) : (n.without ks).normalize = n.without ks := by
  induction n using childInduction with
  | step n ih =>
  have hbelow (c : Node) (hc : c.Child n) : (c.without ks).normalize = c.without ks :=
    ih c hc (hc.normal hn)
  have hkeys := @keys_nodup_of_normal n
  obtain ⟨own, properties, items, additional, anyOf, allOf, oneOf, noneOf⟩ := n
  have hparts := hn
  simp only [normalize, mk.injEq] at hparts
  obtain ⟨hown, -, -, -, hany, hall, hone, hnone⟩ := hparts
  simp only [without, normalize, mk.injEq, normalizeBranches_erase, hany, hall, hone, hnone,
    and_true]
  refine ⟨?_, ?_, ?_, ?_⟩
  · have hp : (withoutProperties ks properties).isSome = properties.isSome := by
      cases properties <;> rfl
    have hi : (withoutItems ks items).isSome = items.isSome := by cases items <;> rfl
    rw [hp, hi, Keywords.normalize_without, hown]
  · cases hps : properties with
    | none => rfl
    | some ps =>
        subst hps
        have hnamed : normalizeNamed (withoutNamed ks ps) = withoutNamed ks ps := by
          rw [withoutNamed_eq, normalizeNamed_eq, List.map_map]
          refine List.map_congr_left fun p hp => ?_
          simp only [Function.comp_apply, hbelow p.2 (.property rfl hp)]
        have hd : (Fields.keys (withoutNamed ks ps)).Nodup := by
          rw [withoutNamed_eq, Fields.keys, List.map_map]
          exact hkeys hn rfl
        simp only [withoutProperties, normalizeProperties, hnamed, Fields.ofList_of_nodup hd]
  · cases hm : items with
    | none => rfl
    | some m => simp only [withoutItems, normalizeItems, hbelow m (.items hm)]
  · cases hm : additional with
    | none => rfl
    | some extra =>
        cases extra with
        | schema m => simp only [withoutAdditional, normalizeAdditional, hbelow m (.extra hm)]
        | allowed b =>
            cases b with
            | true => rfl
            | false =>
                simp only [withoutAdditional, Keyword.erase]
                split <;> rfl

end Node

def Schema.without (ks : List Keyword) (s : Schema) : Schema :=
  ⟨s.root.without ks, Node.normal_without ks s.normal⟩

namespace Node

variable {ks : List Keyword} {n : Node}

def KeepsOutcome (ks : List Keyword) (n : Node) : Prop :=
  ∀ origin, (n.without ks).outcome origin = n.outcome origin

theorem outcomeNamed_without {ps : List (String × Node)} (h : ∀ p ∈ ps, p.2.KeepsOutcome ks)
    (fs : Fields Value) : outcomeNamed (withoutNamed ks ps) fs = outcomeNamed ps fs := by
  induction ps generalizing fs with
  | nil => rfl
  | cons p ps ih =>
      obtain ⟨name, c⟩ := p
      rw [withoutNamed, outcomeNamed, outcomeNamed, h (name, c) (List.mem_cons_self ..)]
      exact ih (fun q hq => h q (List.mem_cons_of_mem _ hq)) _

theorem outcomeProperties_without (h : ∀ c : Node, c.Child n → c.KeepsOutcome ks)
    (fs : Fields Value) :
    outcomeProperties (n.without ks).properties fs = outcomeProperties n.properties fs := by
  rw [properties_without]
  cases hps : n.properties with
  | none => rfl
  | some ps => exact outcomeNamed_without (fun p hp => h p.2 (.property hps hp)) fs

theorem outcomeAdditional_without (h : ∀ c : Node, c.Child n → c.KeepsOutcome ks)
    (fs : Fields Value) :
    outcomeAdditional (n.without ks).additional (n.without ks) fs
      = outcomeAdditional n.additional n fs := by
  rw [additional_without]
  cases hm : n.additional with
  | none => rfl
  | some extra =>
      cases extra with
      | schema m =>
          simp only [withoutAdditional, outcomeAdditional, declares_without, h m (.extra hm) _]
      | allowed b =>
          cases b with
          | true => rfl
          | false =>
              simp only [withoutAdditional, Keyword.erase]
              split <;> rfl

theorem outcomeItems_without (h : ∀ c : Node, c.Child n → c.KeepsOutcome ks) (vs : List Value) :
    outcomeItems (n.without ks).items vs = outcomeItems n.items vs := by
  rw [items_without]
  cases hm : n.items with
  | none => rfl
  | some m => simp only [withoutItems, outcomeItems, h m (.items hm) _]

theorem inside_without_of_below (h : ∀ c : Node, c.Child n → c.KeepsOutcome ks) (w : Value) :
    (n.without ks).inside w = n.inside w := by
  cases w with
  | object fs => rw [inside, inside, outcomeProperties_without h, outcomeAdditional_without h]
  | array vs => rw [inside, inside, outcomeItems_without h]
  | _ => rfl

variable (ks n)

theorem outcome_without (origin : Option Value) :
    (n.without ks).outcome origin = n.outcome origin := by
  induction n using childInduction generalizing origin with
  | step n ih =>
  have hinside : (n.without ks).inside = n.inside := funext (inside_without_of_below ih)
  rw [outcome_eq, outcome_eq, own_without, hinside]
  rfl

theorem keepsOutcome_child (c : Node) (_ : c.Child n) : c.KeepsOutcome ks := c.outcome_without ks

theorem inside_without (w : Value) : (n.without ks).inside w = n.inside w :=
  inside_without_of_below (keepsOutcome_child ks n) w

end Node

def Violation.told (v : Violation) : String × String × Keyword × String :=
  (v.path, v.schemaPath, v.keyword, v.message)

def Left (ks : List Keyword) (us vs : List Violation) : Prop :=
  vs.map Violation.told = (us.filter (·.keyword ∉ ks)).map Violation.told

namespace Left

variable {ks : List Keyword} {us vs us' vs' : List Violation}

theorem append (h : Left ks us vs) (h' : Left ks us' vs') : Left ks (us ++ us') (vs ++ vs') := by
  unfold Left at *
  rw [List.map_append, List.filter_append, List.map_append, h, h']

theorem flatMap {α : Type} {xs : List α} {f g : α → List Violation}
    (h : ∀ x ∈ xs, Left ks (f x) (g x)) : Left ks (xs.flatMap f) (xs.flatMap g) := by
  induction xs with
  | nil => rfl
  | cons x xs ih =>
      rw [List.flatMap_cons, List.flatMap_cons]
      exact (h x (List.mem_cons_self ..)).append (ih fun y hy => h y (List.mem_cons_of_mem _ hy))

theorem recorded (h : Left ks us vs) (path : String) :
    Left ks (((Collection.new false).recordAll us).recorded path)
      (((Collection.new false).recordAll vs).recorded path) := by
  have hpath (ws : List Violation) :
      (ws.filter (·.path == path)).map Violation.told
        = (ws.map Violation.told).filter (·.1 == path) := by
    rw [List.filter_map]
    rfl
  unfold Left at *
  rw [Collection.recorded_new, Collection.recorded_new, hpath, h, ← hpath, List.filter_filter,
    List.filter_filter]
  simp only [Bool.and_comm]

end Left

namespace Node

variable (ks : List Keyword) (n : Node) (here : Location)

theorem left_missingValue : Left ks (n.missingValue here) ((n.without ks).missingValue here) := by
  unfold Left missingValue requiresValue Keywords.requiresValue
  rw [own_without]
  grind [Keywords.without, Keyword.erase, violation, Violation.told]

theorem left_missingNames (fs : Fields Value) :
    Left ks (n.missingNames here fs) ((n.without ks).missingNames here fs) := by
  unfold Left missingNames
  rw [own_without]
  grind [Keywords.without, Keyword.erase, violation, Violation.told]

theorem left_undeclared (fs : Fields Value) :
    Left ks (n.undeclared here fs)
      (foundAdditional (Keyword.erase ks .additionalProperties (some (.allowed false)))
        (n.without ks) fs here) := by
  unfold Left undeclared
  by_cases hk : .additionalProperties ∈ ks
  · have hgone : Keyword.erase ks .additionalProperties (some (.allowed false)) =
        (none : Option (Additional Node)) := if_pos hk
    rw [hgone, foundAdditional, List.filter_map, List.map_nil, eq_comm, List.map_eq_nil_iff,
      List.map_eq_nil_iff, List.filter_eq_nil_iff]
    intro name _ h
    exact absurd hk (of_decide_eq_true h)
  · have hkept : Keyword.erase ks .additionalProperties (some (.allowed false)) =
        some (.allowed false : Additional Node) := if_neg hk
    simp only [hkept, foundAdditional, undeclared, declares_without]
    simp [violation, hk, Violation.told, List.filter_map, Function.comp_def]

theorem left_tooFewItems (vs : List Value) :
    Left ks (n.tooFewItems here vs) ((n.without ks).tooFewItems here vs) := by
  unfold Left tooFewItems
  rw [own_without]
  grind [Keywords.without, Keyword.erase, violation, Violation.told]

theorem left_tooManyItems (vs : List Value) :
    Left ks (n.tooManyItems here vs) ((n.without ks).tooManyItems here vs) := by
  unfold Left tooManyItems
  rw [own_without]
  grind [Keywords.without, Keyword.erase, violation, Violation.told]

theorem left_repeatedItems (vs : List Value) :
    Left ks (n.repeatedItems here vs) ((n.without ks).repeatedItems here vs) := by
  unfold Left repeatedItems
  rw [own_without]
  grind [Keywords.without, Keyword.erase, violation, Violation.told]

theorem left_wrongLength (v : Value) :
    Left ks (n.wrongLength here v) ((n.without ks).wrongLength here v) := by
  unfold Left wrongLength
  rw [own_without]
  cases v <;> grind [Keywords.without, Keyword.erase, violation, Violation.told]

theorem left_belowMinimum (v : Value) :
    Left ks (n.belowMinimum here v) ((n.without ks).belowMinimum here v) := by
  unfold Left belowMinimum
  rw [own_without]
  grind [Keywords.without, Keyword.erase, violation, Violation.told]

theorem left_aboveMaximum (v : Value) :
    Left ks (n.aboveMaximum here v) ((n.without ks).aboveMaximum here v) := by
  unfold Left aboveMaximum
  rw [own_without]
  grind [Keywords.without, Keyword.erase, violation, Violation.told]

theorem left_offPattern (v : Value) :
    Left ks (n.offPattern here v) ((n.without ks).offPattern here v) := by
  unfold Left offPattern
  rw [own_without]
  cases v <;> grind [Keywords.without, Keyword.erase, violation, Violation.told]

theorem left_notMember (v : Value) :
    Left ks (n.notMember here v) ((n.without ks).notMember here v) := by
  unfold Left notMember
  rw [own_without]
  grind [Keywords.without, Keyword.erase, violation, Violation.told]

theorem left_scalarViolations (v : Value) :
    Left ks (n.scalarViolations here v) ((n.without ks).scalarViolations here v) :=
  ((((left_wrongLength ks n here v).append (left_belowMinimum ks n here v)).append
    (left_aboveMaximum ks n here v)).append (left_offPattern ks n here v)).append
      (left_notMember ks n here v)

theorem left_unmatchedAny (w : Value) :
    Left ks (n.unmatchedAny here (passing n.anyOf .anyOf w here))
      ((n.without ks).unmatchedAny here (passing (n.without ks).anyOf .anyOf w here)) := by
  have hbranches : (n.without ks).anyOf = Keyword.erase ks .anyOf n.anyOf :=
    branches_without ks n .anyOf
  unfold Left unmatchedAny
  grind [Keyword.erase, passing, violation, Violation.told]

theorem left_matchedNone (w : Value) :
    Left ks (n.matchedNone here (passing n.noneOf .not w here))
      ((n.without ks).matchedNone here (passing (n.without ks).noneOf .not w here)) := by
  have hbranches : (n.without ks).noneOf = Keyword.erase ks .not n.noneOf :=
    branches_without ks n .not
  unfold Left matchedNone
  grind [Keyword.erase, passing, violation, Violation.told]

theorem left_unmatchedAll (w : Value) :
    Left ks (n.unmatchedAll here (passing n.allOf .allOf w here))
      ((n.without ks).unmatchedAll here (passing (n.without ks).allOf .allOf w here)) := by
  have hbranches : (n.without ks).allOf = Keyword.erase ks .allOf n.allOf :=
    branches_without ks n .allOf
  unfold Left unmatchedAll
  grind [Keyword.erase, passing, violation, Violation.told]

theorem left_unmatchedOne (w : Value) :
    Left ks (n.unmatchedOne here (passing n.oneOf .oneOf w here))
      ((n.without ks).unmatchedOne here (passing (n.without ks).oneOf .oneOf w here)) := by
  have hbranches : (n.without ks).oneOf = Keyword.erase ks .oneOf n.oneOf :=
    branches_without ks n .oneOf
  unfold Left unmatchedOne
  grind [Keyword.erase, passing, violation, Violation.told]

theorem left_foundBranches (w : Value) :
    Left ks (n.foundBranches here w) ((n.without ks).foundBranches here w) := by
  have huntyped : (n.without ks).own.isUntyped = n.own.isUntyped := by
    rw [own_without]
    rfl
  rw [foundBranches, foundBranches, branchViolations, branchViolations, huntyped]
  split
  · exact (((left_unmatchedAny ks n here w).append (left_matchedNone ks n here w)).append
      (left_unmatchedAll ks n here w)).append (left_unmatchedOne ks n here w)
  · rfl

def Leaves (ks : List Keyword) (n : Node) : Prop :=
  ∀ origin here, Left ks (n.found origin here) ((n.without ks).found origin here)

variable {ks n}

theorem left_foundNamed {ps : List (String × Node)} (h : ∀ p ∈ ps, p.2.Leaves ks)
    (fs : Fields Value) :
    Left ks (foundNamed ps fs here) (foundNamed (withoutNamed ks ps) fs here) := by
  induction ps generalizing fs with
  | nil => rfl
  | cons p ps ih =>
      obtain ⟨name, c⟩ := p
      rw [withoutNamed, foundNamed, foundNamed, outcome_without]
      exact (h (name, c) (List.mem_cons_self ..) _ _).append
        (ih (fun q hq => h q (List.mem_cons_of_mem _ hq)) _)

theorem left_foundProperties (h : ∀ c : Node, c.Child n → c.Leaves ks) (fs : Fields Value) :
    Left ks (foundProperties n.properties fs here)
      (foundProperties (n.without ks).properties fs here) := by
  rw [properties_without]
  cases hps : n.properties with
  | none => rfl
  | some ps => exact left_foundNamed here (fun p hp => h p.2 (.property hps hp)) fs

theorem left_foundAdditional (h : ∀ c : Node, c.Child n → c.Leaves ks) (fs : Fields Value) :
    Left ks (foundAdditional n.additional n fs here)
      (foundAdditional (n.without ks).additional (n.without ks) fs here) := by
  rw [additional_without]
  cases hm : n.additional with
  | none => rfl
  | some extra =>
      cases extra with
      | schema m =>
          refine Left.flatMap fun p _ => ?_
          rw [declares_without]
          split
          · rfl
          · exact h m (.extra hm) _ _
      | allowed b =>
          cases b with
          | true => rfl
          | false => exact left_undeclared ks n here fs

theorem left_foundItems (h : ∀ c : Node, c.Child n → c.Leaves ks) (vs : List Value) :
    Left ks (foundItems n.items vs here) (foundItems (n.without ks).items vs here) := by
  rw [items_without]
  cases hm : n.items with
  | none => rfl
  | some m => exact Left.flatMap fun p _ => h m (.items hm) _ _

theorem left_foundContents (h : ∀ c : Node, c.Child n → c.Leaves ks) (w : Value) :
    Left ks (n.foundContents here w) ((n.without ks).foundContents here w) := by
  cases w with
  | object fs =>
      simp only [foundContents, outcomeProperties_without (keepsOutcome_child ks n)]
      exact ((left_missingNames ks n here fs).append (left_foundProperties here h fs)).append
        (left_foundAdditional here h _)
  | array vs =>
      simp only [foundContents, arrayViolations, outcomeItems_without (keepsOutcome_child ks n)]
      exact (left_foundItems here h vs).append (((left_tooFewItems ks n here _).append
        (left_tooManyItems ks n here _)).append (left_repeatedItems ks n here _))
  | _ => exact left_scalarViolations ks n here _

theorem left_found_some (hks : ks ⊆ Keyword.checks) (h : ∀ c : Node, c.Child n → c.Leaves ks)
    (v : Value) : Left ks (n.found (some v) here) ((n.without ks).found (some v) here) := by
  have hsettle : (n.without ks).own.settle v = n.own.settle v := by
    rw [own_without, Keywords.settle_without]
  cases hv : n.own.settle v with
  | error e =>
      -- a wrong kind is no check: the node cannot do without it
      have htype : .type ∉ ks := fun hmem => absurd (hks hmem) (by decide)
      rw [found_of_refused here hv, found_of_refused here (hsettle.trans hv)]
      simp [Left, wrongKind, violation, Violation.told, htype]
  | ok w =>
      rw [found_of_settle here hv, found_of_settle here (hsettle.trans hv), inside_without]
      exact (left_foundContents here h w).append (left_foundBranches ks n here _)

theorem leaves (hks : ks ⊆ Keyword.checks) (n : Node) : n.Leaves ks := by
  induction n using childInduction with
  | step n ih =>
  intro origin here
  cases origin with
  | some v => exact left_found_some here hks ih v
  | none =>
      have hdefault : (n.without ks).own.default = n.own.default := by
        rw [own_without]
        rfl
      cases hd : n.own.default with
      | some d =>
          rw [found_none_of_default here hd, found_none_of_default here (hdefault.trans hd)]
          exact left_found_some here hks ih d
      | none =>
          rw [found_none here hd, found_none here (hdefault.trans hd)]
          exact left_missingValue ks n here

end Node

theorem Schema.checks_independent {ks : List Keyword} (hks : ks ⊆ Keyword.checks) (s : Schema)
    (v : Option Value) :
    (∃ r, (s.walk [] false v).result = .ok r ∧ ((s.without ks).walk [] false v).result = .ok r)
      ∧ (∀ path,
          (((s.without ks).walk [] false v).collection false |>.recorded path).map Violation.told
            = (((s.walk [] false v).collection false |>.recorded path).filter
                (·.keyword ∉ ks)).map Violation.told)
      ∧ ∀ e ∈ ((s.walk [] false v).collection false).list,
          ∃ m there, s.root.Spine Location.root m there ∧ m.Reports there e := by
  rw [s.walk_eq_done, (s.without ks).walk_eq_done]
  refine ⟨⟨s.root.outcome v, rfl, ?_⟩, (Node.leaves hks s.root v Location.root).recorded, ?_⟩
  · exact congrArg Except.ok (s.root.outcome_without ks v)
  · intro e he
    exact Node.reported_on_spine s.normal (Collection.mem_list_new.mp he)

theorem Schema.checks_independent_host :
    let s : Schema := Schema.ofNode
      { Node.ofKind .object with
        properties := some [("host",
          { Node.ofKind .string with
            own := { Keywords.none with
              kind := some (.one .string), minLength := some 4, members := some [.string "db"] }
            anyOf := some [Node.ofKind .boolean] })] }
    let v : Value := .object [("host", .string "web")]
    let ks : List Keyword := [.minLength, .anyOf]
    ks ⊆ Keyword.checks
      ∧ ((s.walk [] false (some v)).collection false |>.recorded "$ROOT.host").map
          Violation.keyword = [.minLength, .enum, .anyOf]
      ∧ ((((s.without ks).walk [] false (some v)).collection false
            |>.recorded "$ROOT.host").map Violation.told
          = (((s.walk [] false (some v)).collection false |>.recorded "$ROOT.host").filter
              (·.keyword ∉ ks)).map Violation.told) := by
  intro s v ks
  have hks : ks ⊆ Keyword.checks := by decide
  exact ⟨hks, rfl, (Schema.checks_independent hks s (some v)).2.1 "$ROOT.host"⟩

end CheckedConfig
