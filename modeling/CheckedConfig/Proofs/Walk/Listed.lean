import CheckedConfig.Proofs.Walk.Places

namespace CheckedConfig

def Keywords.unlisted (own : Keywords) : Keywords := { own with members := Option.none }

theorem Keywords.settle_unlisted (own : Keywords) (v : Value) :
    own.unlisted.settle v = own.settle v := rfl

namespace Node

def unlisted (n : Node) : Node := { n with own := n.own.unlisted }

variable {n : Node} {here : Location}

theorem outcomeAdditional_unlisted (extra : Option (Additional Node)) (n : Node)
    (fs : Fields Value) : outcomeAdditional extra n.unlisted fs = outcomeAdditional extra n fs := by
  rcases extra with _ | _ | _ <;> rfl

theorem inside_unlisted (n : Node) (w : Value) : n.unlisted.inside w = n.inside w := by
  cases w with
  | object fs =>
      rw [inside, inside]
      exact congrArg Value.object (outcomeAdditional_unlisted n.additional n _)
  | _ => rfl

theorem outcome_unlisted (n : Node) (origin : Option Value) :
    n.unlisted.outcome origin = n.outcome origin := by
  have hsettle (v : Value) : n.unlisted.own.settle v = n.own.settle v := n.own.settle_unlisted v
  rw [outcome_eq, outcome_eq]
  simp only [hsettle, inside_unlisted]
  rfl

theorem isContainer_inside (n : Node) (w : Value) : (n.inside w).isContainer = w.isContainer := by
  cases w <;> rfl

theorem inside_of_scalar (n : Node) {w : Value} (h : w.isContainer = false) : n.inside w = w := by
  cases w with
  | object fs => cases h
  | array vs => cases h
  | _ => rfl

theorem foundAdditional_unlisted (n : Node) (here : Location) (fs : Fields Value) :
    foundAdditional n.additional n.unlisted fs here = [] ↔
      foundAdditional n.additional n fs here = [] := by
  cases hm : n.additional with
  | none => exact Iff.rfl
  | some extra =>
      cases extra with
      | schema m => exact Iff.rfl
      | allowed b =>
          cases b with
          | true => exact Iff.rfl
          | false =>
              rw [foundAdditional, foundAdditional, undeclared_eq_nil_iff, undeclared_eq_nil_iff]
              exact Iff.rfl

theorem arrayViolations_unlisted (n : Node) (here : Location) (vs : List Value) :
    n.unlisted.arrayViolations here vs = [] ↔ n.arrayViolations here vs = [] := by
  simp only [arrayViolations, List.append_eq_nil_iff, tooFewItems_eq_nil_iff,
    tooManyItems_eq_nil_iff, repeatedItems_eq_nil_iff]
  exact Iff.rfl

theorem scalarViolations_listed {ms : List Value} (h : n.own.members = some ms) (here : Location)
    (v : Value) :
    n.scalarViolations here v = [] ↔
      n.unlisted.scalarViolations here v = [] ∧ ∃ m ∈ ms, m.alike v = true := by
  have hmember : n.notMember here v = [] ↔ ∃ m ∈ ms, m.alike v = true := by
    rw [notMember_eq_nil_iff, h]
    simp
  have hunlisted : n.unlisted.notMember here v = [] := rfl
  simp only [scalarViolations, List.append_eq_nil_iff, hmember, hunlisted, and_true,
    wrongLength_eq_nil_iff, belowMinimum_eq_nil_iff, aboveMaximum_eq_nil_iff,
    offPattern_eq_nil_iff]
  exact Iff.rfl

theorem foundBranches_unlisted (n : Node) (here : Location) (w : Value) :
    n.unlisted.foundBranches here w = [] ↔ n.foundBranches here w = [] := by
  have happly : n.unlisted.own.isUntyped = n.own.isUntyped := rfl
  rw [foundBranches, foundBranches, branchViolations, branchViolations, happly]
  split
  · simp only [List.append_eq_nil_iff, unmatchedAny_eq_nil, matchedNone_eq_nil,
      unmatchedAll_eq_nil, unmatchedOne_eq_nil]
    exact Iff.rfl
  · exact Iff.rfl

theorem foundContents_listed {ms : List Value} (h : n.own.members = some ms) (here : Location)
    (w : Value) :
    n.foundContents here w = [] ↔
      n.unlisted.foundContents here w = [] ∧ (w.isContainer = true ∨ ∃ m ∈ ms, m.alike w = true) := by
  have hscalar (v : Value) := scalarViolations_listed h here v
  cases w with
  | object fs =>
      have hadditional := foundAdditional_unlisted n here (outcomeProperties n.properties fs)
      simp only [foundContents, List.append_eq_nil_iff, missingNames_eq_nil_iff,
        Value.isContainer, Value.isArray, Value.isObject, Bool.false_or, true_or, and_true]
      exact and_congr Iff.rfl hadditional.symm
  | array vs =>
      have harray := arrayViolations_unlisted n here (outcomeItems n.items vs)
      simp only [foundContents, List.append_eq_nil_iff,
        Value.isContainer, Value.isArray, Bool.true_or, true_or, and_true]
      exact and_congr Iff.rfl harray.symm
  | _ =>
      simp only [foundContents, hscalar, Value.isContainer, Value.isArray, Value.isObject,
        Bool.or_self, Bool.false_eq_true, false_or]

theorem found_listed {ms : List Value} (h : n.own.members = some ms) (v : Value) (here : Location) :
    n.found (some v) here = [] ↔
      n.unlisted.found (some v) here = []
        ∧ ∃ w, n.outcome (some v) = some w
          ∧ (w.isContainer = true ∨ ∃ m ∈ ms, m.alike w = true) := by
  have hsettle : n.unlisted.own.settle v = n.own.settle v := n.own.settle_unlisted v
  cases hv : n.own.settle v with
  | error e =>
      rw [found_of_refused here hv, found_of_refused here (hsettle.trans hv)]
      simp
  | ok w =>
      have hmember : (n.inside w).isContainer = true ∨ (∃ m ∈ ms, m.alike (n.inside w) = true) ↔
          w.isContainer = true ∨ ∃ m ∈ ms, m.alike w = true := by
        rw [isContainer_inside]
        cases hw : w.isContainer with
        | true => simp
        | false => rw [inside_of_scalar n hw]
      rw [found_of_settle here hv, found_of_settle here (hsettle.trans hv), outcome_of_settle hv,
        inside_unlisted, List.append_eq_nil_iff, List.append_eq_nil_iff,
        foundContents_listed h, foundBranches_unlisted]
      simp only [Option.some.injEq, exists_eq_left', hmember]
      exact and_right_comm

theorem walk_listed {ms : List Value} (h : n.own.members = some ms) (v : Value) (here : Location) :
    ∃ w, (n.walk [] false (some v) here).result = .ok (some w)
      ∧ (n.unlisted.walk [] false (some v) here).result = .ok (some w)
      ∧ (((n.walk [] false (some v) here).collection false).list = [] ↔
          ((n.unlisted.walk [] false (some v) here).collection false).list = []
            ∧ (w.isContainer = true ∨ ∃ m ∈ ms, m.alike w = true)) := by
  obtain ⟨w, hw⟩ := n.outcome_some v
  refine ⟨w, ?_, ?_, ?_⟩
  · rw [walk_eq_done, hw]
    rfl
  · rw [walk_eq_done, outcome_unlisted, hw]
    rfl
  · rw [walk_eq_done, walk_eq_done, Walk.done_collection, Walk.done_collection,
      Collection.list_new_eq_nil_iff, Collection.list_new_eq_nil_iff, found_listed h, hw]
    simp

theorem walk_listed_mended :
    let n : Node := { ofKind .string with
      own := { (ofKind .string).own with
        members := some [.string "80", .string "443"]
        transform := some .infer } }
    n.own.members = some [.string "80", .string "443"]
      ∧ ∃ w, (n.walk [] false (some (.int 80)) .root).result = .ok (some w)
        ∧ (n.unlisted.walk [] false (some (.int 80)) .root).result = .ok (some w)
        ∧ (((n.walk [] false (some (.int 80)) .root).collection false).list = [] ↔
            ((n.unlisted.walk [] false (some (.int 80)) .root).collection false).list = []
              ∧ (w.isContainer = true ∨
                ∃ m ∈ [Value.string "80", .string "443"], m.alike w = true)) := by
  intro n
  have hmembers : n.own.members = some [.string "80", .string "443"] := rfl
  exact ⟨hmembers, walk_listed hmembers (.int 80) .root⟩

theorem array_beside_list :
    let n : Node := { empty with own := { Keywords.none with members := some [.string "a"] } }
    n.normalize = n
      ∧ (n.walk [] false (some (.array [])) .root).result = .ok (some (.array []))
      ∧ ((n.walk [] false (some (.array [])) .root).collection false).list = []
      ∧ ¬ ∃ m ∈ [Value.string "a"], m.alike (.array []) = true := by
  intro n
  refine ⟨rfl, rfl, ?_, ?_⟩
  · rw [walk_eq_done, Walk.done_collection, Collection.list_new_eq_nil_iff]
    rfl
  · decide

end Node

end CheckedConfig
