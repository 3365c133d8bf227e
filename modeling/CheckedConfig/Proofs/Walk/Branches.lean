import CheckedConfig.Proofs.Walk.Places

namespace CheckedConfig

def Keyword.isOperator : Keyword → Bool
  | .anyOf | .allOf | .oneOf | .not => true
  | _ => false

namespace Node

variable {n : Node} {here : Location}

def passed (n : Node) (operator : Keyword) (w : Value) (here : Location) : Nat :=
  ((n.branches operator).getD []).zipIdx.countP fun p =>
    ((p.1.walk [] false (some w) (here.branch operator p.2)).collection false).isEmpty

theorem any_id_eq (bs : List Bool) : bs.any id = decide (0 < bs.count true) := by
  rw [Bool.eq_iff_iff, decide_eq_true_iff, List.count_pos_iff]
  simp

theorem all_id_eq (bs : List Bool) : bs.all id = decide (bs.count true = bs.length) := by
  rw [Bool.eq_iff_iff, decide_eq_true_iff, List.count_eq_length, List.all_eq_true]
  exact forall₂_congr fun b _ => eq_comm

theorem passingFrom_eq_zipIdx (ns : List Node) (operator : Keyword) (i : Nat) (w : Value)
    (here : Location) :
    passingFrom ns operator i w here =
      (ns.zipIdx i).map fun p => (p.1.found (some w) (here.branch operator p.2)).isEmpty := by
  induction ns generalizing i with
  | nil => rfl
  | cons c ns ih => rw [passingFrom, ih, List.zipIdx_cons, List.map_cons]

theorem passing_eq_zipIdx (ns : Option (List Node)) (operator : Keyword) (w : Value)
    (here : Location) :
    passing ns operator w here =
      (ns.getD []).zipIdx.map fun p => (p.1.found (some w) (here.branch operator p.2)).isEmpty := by
  cases ns with
  | none => rfl
  | some ns => exact passingFrom_eq_zipIdx ns operator 0 w here

theorem count_passing (n : Node) (operator : Keyword) (w : Value) (here : Location) :
    (passing (n.branches operator) operator w here).count true = n.passed operator w here := by
  rw [passing_eq_zipIdx, List.count, List.countP_map, passed]
  refine List.countP_congr fun p _ => ?_
  simp [walk_eq_done, Collection.isEmpty_new_recordAll]

theorem length_passing (n : Node) (operator : Keyword) (w : Value) (here : Location) :
    (passing (n.branches operator) operator w here).length
      = ((n.branches operator).getD []).length := by
  rw [passing_eq_zipIdx, List.length_map, List.length_zipIdx]

def verdicts (n : Node) (w : Value) (here : Location) : List Violation :=
  (if (n.branches .anyOf).getD [] ≠ [] ∧ n.passed .anyOf w here = 0 then
    [n.violation here .anyOf "The value must match at least one of the specified schemas."] else [])
  ++ (if 0 < n.passed .not w here then
    [n.violation here .not "The value must not match the specified schema."] else [])
  ++ (if n.passed .allOf w here < ((n.branches .allOf).getD []).length then
    [n.violation here .allOf "The value must match all of the specified schemas."] else [])
  ++ (if (n.branches .oneOf).getD [] ≠ [] ∧ n.passed .oneOf w here ≠ 1 then
    [n.violation here .oneOf (if n.passed .oneOf w here = 0 then
      "The value must match exactly one of the specified schemas, but matched none."
    else "The value must match exactly one of the specified schemas, but matched more than one.")]
    else [])

theorem isEmpty_passing (n : Node) (operator : Keyword) (w : Value) (here : Location) :
    (passing (n.branches operator) operator w here).isEmpty
      = decide ((n.branches operator).getD [] = []) := by
  rw [passing_eq_zipIdx]
  cases (n.branches operator).getD [] <;> rfl

theorem passed_le_length (n : Node) (operator : Keyword) (w : Value) (here : Location) :
    n.passed operator w here ≤ ((n.branches operator).getD []).length := by
  rw [← count_passing, ← length_passing]
  exact List.count_le_length

theorem unmatchedAny_passing (n : Node) (w : Value) (here : Location) :
    n.unmatchedAny here (passing (n.branches .anyOf) .anyOf w here) =
      if (n.branches .anyOf).getD [] ≠ [] ∧ n.passed .anyOf w here = 0 then
        [n.violation here .anyOf "The value must match at least one of the specified schemas."]
      else [] := by
  rw [unmatchedAny, isEmpty_passing, any_id_eq, count_passing]
  by_cases hnil : (n.branches .anyOf).getD [] = []
  · simp [hnil]
  · by_cases hpassed : n.passed .anyOf w here = 0
    · simp [hnil, hpassed]
    · simp [hpassed, Nat.pos_of_ne_zero hpassed]

theorem matchedNone_passing (n : Node) (w : Value) (here : Location) :
    n.matchedNone here (passing (n.branches .not) .not w here) =
      if 0 < n.passed .not w here then
        [n.violation here .not "The value must not match the specified schema."] else [] := by
  rw [matchedNone, any_id_eq, count_passing]
  simp only [decide_eq_true_iff]

theorem unmatchedAll_passing (n : Node) (w : Value) (here : Location) :
    n.unmatchedAll here (passing (n.branches .allOf) .allOf w here) =
      if n.passed .allOf w here < ((n.branches .allOf).getD []).length then
        [n.violation here .allOf "The value must match all of the specified schemas."] else [] := by
  have hle := n.passed_le_length .allOf w here
  rw [unmatchedAll, all_id_eq, count_passing, length_passing]
  by_cases hall : n.passed .allOf w here = ((n.branches .allOf).getD []).length
  · simp [hall]
  · have hlt : n.passed .allOf w here < ((n.branches .allOf).getD []).length := by omega
    simp [hall, hlt]

theorem unmatchedOne_passing (n : Node) (w : Value) (here : Location) :
    n.unmatchedOne here (passing (n.branches .oneOf) .oneOf w here) =
      if (n.branches .oneOf).getD [] ≠ [] ∧ n.passed .oneOf w here ≠ 1 then
        [n.violation here .oneOf (if n.passed .oneOf w here = 0 then
          "The value must match exactly one of the specified schemas, but matched none."
        else "The value must match exactly one of the specified schemas, but matched more than one.")]
      else [] := by
  rw [unmatchedOne, isEmpty_passing, count_passing]
  by_cases hnil : (n.branches .oneOf).getD [] = []
  · simp [hnil]
  · simp only [hnil, decide_false, Bool.false_eq_true, if_false, ne_eq, not_false_eq_true, true_and]
    rcases n.passed .oneOf w here with _ | _ | k <;> simp

theorem foundBranches_eq_verdicts {w : Value} (h : n.own.isUntyped = true ∨ w.isArray = false) :
    n.foundBranches here w = n.verdicts w here := by
  have hany := n.unmatchedAny_passing w here
  have hnone := n.matchedNone_passing w here
  have hall := n.unmatchedAll_passing w here
  have hone := n.unmatchedOne_passing w here
  simp only [branches] at hany hnone hall hone
  rw [foundBranches, branchViolations, if_pos (by simpa using h), hany, hnone, hall, hone, verdicts]
  rfl

theorem isOperator_of_mem_own {w : Value} {e : Violation} (h : e ∈ n.ownViolations here w) :
    e.keyword.isOperator = false := by
  have hcheck (keywords : List Keyword) (hmem : e.keyword ∈ keywords)
      (hall : keywords.all (!·.isOperator) = true) : e.keyword.isOperator = false := by
    simpa using List.all_eq_true.mp hall _ hmem
  cases w with
  | object fs =>
      rcases List.mem_append.mp h with h | h
      · rw [keyword_of_mem_missingNames h]
        rfl
      · split at h
        · rw [keyword_of_mem_undeclared h]
          rfl
        · exact absurd h List.not_mem_nil
  | array vs => exact hcheck _ (keyword_of_mem_arrayViolations h) rfl
  | _ => exact hcheck _ (keyword_of_mem_scalarViolations h) rfl

theorem elsewhere_of_mem_foundContents (hnormal : n.normalize = n) {w : Value} {e : Violation}
    (h : e ∈ n.foundContents here w) (hoperator : e.keyword.isOperator = true) :
    e.path ≠ here.propertyPath := by
  rcases own_or_below hnormal h with hown | hbelow
  · rw [isOperator_of_mem_own hown] at hoperator
    cases hoperator
  · intro heq
    have hlt := (hbelow.goesOn hnormal).length_lt
    rw [heq] at hlt
    exact absurd hlt (Nat.lt_irrefl _)

theorem isArray_inside (n : Node) (u : Value) : (n.inside u).isArray = u.isArray := by
  cases u <;> rfl

theorem branches_counted (hnormal : n.normalize = n) {v u : Value} (hv : n.own.settle v = .ok u)
    (happly : n.own.isUntyped = true ∨ u.isArray = false) (here : Location) :
    let walk := n.walk [] false (some v) here
    ∃ w others, walk.result = .ok (some w) ∧ walk.violations = others ++ n.verdicts w here
      ∧ ∀ e, e ∈ others → e.keyword.isOperator = true → e.path ≠ here.propertyPath := by
  have hinside : n.own.isUntyped = true ∨ (n.inside u).isArray = false := by
    rw [isArray_inside]
    exact happly
  refine ⟨n.inside u, n.foundContents here u, ?_, ?_, ?_⟩
  · rw [walk_eq_done, outcome_of_settle hv]
    rfl
  · rw [walk_eq_done, found_of_settle here hv, foundBranches_eq_verdicts hinside]
    rfl
  · exact fun e he hoperator => elsewhere_of_mem_foundContents hnormal he hoperator

theorem branches_counted_of_flag :
    let n : Node := { ofKind .string with
      own := { (ofKind .string).own with transform := some .infer }
      anyOf := some [ofKind .boolean, ofKind .number]
      noneOf := some [ofKind .number, ofKind .string]
      allOf := some [ofKind .string, ofKind .any]
      oneOf := some [ofKind .boolean, ofKind .string, ofKind .any] }
    let here : Location := Location.root.property "flag" "properties"
    let walk := n.walk [] false (some (.bool true)) here
    n.normalize = n ∧ n.own.settle (.bool true) = .ok (.string "true")
      ∧ (n.own.isUntyped = true ∨ (Value.string "true").isArray = false)
      ∧ (n.verdicts (.string "true") here).map (·.keyword) = [.anyOf, .not, .oneOf]
      ∧ ∃ w others, walk.result = .ok (some w) ∧ walk.violations = others ++ n.verdicts w here
          ∧ ∀ e, e ∈ others → e.keyword.isOperator = true → e.path ≠ here.propertyPath := by
  intro n here walk
  have hnormal : n.normalize = n := rfl
  have hsettle : n.own.settle (.bool true) = .ok (.string "true") := rfl
  have happly : n.own.isUntyped = true ∨ (Value.string "true").isArray = false := .inr rfl
  have hverdicts : (n.verdicts (.string "true") here).map (·.keyword) = [.anyOf, .not, .oneOf] := by
    decide +kernel
  exact ⟨hnormal, hsettle, happly, hverdicts, branches_counted hnormal hsettle happly here⟩

end Node

end CheckedConfig
