import CheckedConfig.Proofs.Integers
import CheckedConfig.Proofs.Walk.Keywords
import CheckedConfig.Proofs.Walk.Spine

namespace CheckedConfig

namespace Value

theorem lessThan_int_iff {i j : Int} :
    (int i).lessThan (int j) = true ↔ i < j ∧ Double.ofInt i ≠ Double.ofInt j :=
  Double.less_ofInt_iff

theorem alike_int_iff {i j : Int} :
    (int i).alike (int j) = true ↔ Double.ofInt i = Double.ofInt j :=
  Double.same_ofInt_iff

theorem pairwise_int_iff (is : List Int) :
    (is.map int).Pairwise (fun a b => a.alike b = false) ↔ (is.map Double.ofInt).Nodup := by
  rw [List.Nodup, List.pairwise_map, List.pairwise_map]
  simp only [← Bool.not_eq_true, alike_int_iff, ne_eq]

end Value

namespace Node

variable {n : Node} {here : Location} {v : Value} {i b : Int} {is : List Int}

def Records (n : Node) (here : Location) (v : Value) (keyword : Keyword) : Prop :=
  ∃ e ∈ ((n.walk [] false (some v) here).collection false).list, e.keyword = keyword

theorem records_iff {keyword : Keyword} :
    n.Records here v keyword ↔ ∃ e ∈ n.found (some v) here, e.keyword = keyword := by
  simp only [Records, walk_eq_done, Walk.done_collection, Collection.mem_list_new]

def compared (n : Node) (here : Location) (v : Value) : Keyword → List Violation
  | .minimum => n.belowMinimum here v
  | .maximum => n.aboveMaximum here v
  | .enum => n.notMember here v
  | _ => []

theorem keyword_of_mem_compared {keyword : Keyword} {e : Violation}
    (h : e ∈ n.compared here v keyword) : e.keyword = keyword := by
  unfold compared belowMinimum aboveMaximum notMember at h
  grind [violation]

theorem mem_scalarViolations_int {e : Violation} :
    e ∈ n.scalarViolations here (.int i) ↔ e ∈ n.compared here (.int i) e.keyword := by
  have hsplit : e ∈ n.scalarViolations here (.int i) ↔
      e ∈ n.compared here (.int i) .minimum ∨ e ∈ n.compared here (.int i) .maximum
        ∨ e ∈ n.compared here (.int i) .enum := by
    simp only [Value.int, scalarViolations, wrongLength, offPattern, compared, List.mem_append,
      List.not_mem_nil, false_or, or_false, or_assoc]
  rw [hsplit]
  constructor
  · rintro (h | h | h)
    · rwa [keyword_of_mem_compared h]
    · rwa [keyword_of_mem_compared h]
    · rwa [keyword_of_mem_compared h]
  · intro h
    cases hkey : e.keyword <;> simp_all [compared]

theorem found_of_settle_int (hv : n.own.settle v = .ok (.int i)) (here : Location) :
    n.found (some v) here = n.scalarViolations here (.int i) ++ n.foundBranches here (.int i) :=
  found_of_settle here hv

theorem records_of_settle_int (hv : n.own.settle v = .ok (.int i)) {keyword : Keyword}
    (hkey : keyword ∉ [Keyword.anyOf, .not, .allOf, .oneOf]) :
    n.Records here v keyword ↔ n.compared here (.int i) keyword ≠ [] := by
  rw [records_iff, found_of_settle_int hv]
  constructor
  · rintro ⟨e, he, rfl⟩
    rcases List.mem_append.mp he with he | he
    · exact List.ne_nil_of_mem (mem_scalarViolations_int.mp he)
    · exact absurd (keyword_of_mem_foundBranches he) hkey
  · intro hne
    obtain ⟨e, he⟩ := List.exists_mem_of_ne_nil _ hne
    obtain rfl := keyword_of_mem_compared he
    exact ⟨e, List.mem_append_left _ (mem_scalarViolations_int.mpr he), rfl⟩

theorem records_minimum_iff (hv : n.own.settle v = .ok (.int i))
    (hb : n.own.minimum = some (.int b)) :
    n.Records here v .minimum ↔ i < b ∧ Double.ofInt i ≠ Double.ofInt b := by
  rw [records_of_settle_int hv (by decide), compared, ne_eq, belowMinimum_eq_nil_iff, hb,
    ← Value.lessThan_int_iff]
  simp

theorem records_maximum_iff (hv : n.own.settle v = .ok (.int i))
    (hb : n.own.maximum = some (.int b)) :
    n.Records here v .maximum ↔ b < i ∧ Double.ofInt b ≠ Double.ofInt i := by
  rw [records_of_settle_int hv (by decide), compared, ne_eq, aboveMaximum_eq_nil_iff, hb,
    ← Value.lessThan_int_iff]
  simp

theorem records_enum_iff (hv : n.own.settle v = .ok (.int i))
    (hm : n.own.members = some (is.map .int)) :
    n.Records here v .enum ↔ ∀ j ∈ is, Double.ofInt j ≠ Double.ofInt i := by
  rw [records_of_settle_int hv (by decide), compared, ne_eq, notMember_eq_nil_iff, hm]
  simp [Value.alike_int_iff]

theorem keyword_of_outcome_int (h : n.outcome (some v) = some (.int i)) {e : Violation}
    (he : e ∈ n.found (some v) here) : e.keyword ≠ .uniqueItems := by
  cases hv : n.own.settle v with
  | error why =>
      rw [found_of_refused here hv] at he
      obtain rfl := List.mem_singleton.mp he
      exact Keyword.noConfusion
  | ok w =>
      -- a container comes out as a container, so the integer is what was taken
      have hw : w = .int i := by
        rw [outcome_of_settle hv] at h
        cases w with
        | object fs => cases h
        | array vs => cases h
        | _ => exact Option.some.inj h
      rw [found_of_settle_int (hw ▸ hv), List.mem_append] at he
      intro hkey
      rcases he with he | he
      · exact absurd (hkey ▸ keyword_of_mem_scalarViolations he) (by decide)
      · exact absurd (hkey ▸ keyword_of_mem_foundBranches he) (by decide)

theorem keyword_of_mem_foundItems_int {vs : List Value}
    (his : outcomeItems n.items vs = is.map .int) {e : Violation}
    (he : e ∈ foundItems n.items vs here) : e.keyword ≠ .uniqueItems := by
  cases hm : n.items with
  | none =>
      rw [hm] at he
      exact absurd he List.not_mem_nil
  | some m =>
      rw [hm, foundItems, List.mem_flatMap] at he
      obtain ⟨⟨x, k⟩, hx, he⟩ := he
      obtain ⟨w, hw⟩ := m.outcome_some x
      have hmem : w ∈ outcomeItems n.items vs := by
        rw [hm, outcomeItems, List.mem_map]
        exact ⟨x, List.fst_mem_of_mem_zipIdx hx, by rw [hw, Option.getD_some]⟩
      rw [his, List.mem_map] at hmem
      obtain ⟨i, -, rfl⟩ := hmem
      exact keyword_of_outcome_int hw he

theorem mem_repeatedItems_iff {vs : List Value} {e : Violation} :
    e ∈ n.repeatedItems here vs ↔ e ∈ n.arrayViolations here vs ∧ e.keyword = .uniqueItems := by
  unfold arrayViolations tooFewItems tooManyItems repeatedItems
  grind [violation]

theorem records_uniqueItems_iff {vs : List Value} (hv : n.own.settle v = .ok (.array vs))
    (his : outcomeItems n.items vs = is.map .int) (hu : n.own.uniqueItems = true) :
    n.Records here v .uniqueItems ↔ ¬ (is.map Double.ofInt).Nodup := by
  have hrepeated : n.repeatedItems here (is.map .int) = [] ↔ (is.map Double.ofInt).Nodup := by
    rw [repeatedItems_eq_nil_iff, Value.pairwise_int_iff]
    simp [hu]
  rw [records_iff, found_of_settle here hv, ← hrepeated]
  simp only [foundContents, his, List.mem_append]
  constructor
  · rintro ⟨e, (he | he) | he, hkey⟩
    · exact absurd hkey (keyword_of_mem_foundItems_int his he)
    · exact List.ne_nil_of_mem (mem_repeatedItems_iff.mpr ⟨he, hkey⟩)
    · exact absurd (hkey ▸ keyword_of_mem_foundBranches he) (by decide)
  · intro hne
    obtain ⟨e, he⟩ := List.exists_mem_of_ne_nil _ hne
    obtain ⟨harray, hkey⟩ := mem_repeatedItems_iff.mp he
    exact ⟨e, .inl (.inr harray), hkey⟩

theorem integers_compared_as_doubles (n : Node) (here : Location) (v : Value) :
    (∀ i, n.own.settle v = .ok (.int i) →
      (∀ b, n.own.minimum = some (.int b) →
        (n.Records here v .minimum ↔ i < b ∧ Double.ofInt i ≠ Double.ofInt b))
      ∧ (∀ b, n.own.maximum = some (.int b) →
        (n.Records here v .maximum ↔ b < i ∧ Double.ofInt b ≠ Double.ofInt i))
      ∧ ∀ is : List Int, n.own.members = some (is.map .int) →
        (n.Records here v .enum ↔ ∀ j ∈ is, Double.ofInt j ≠ Double.ofInt i))
    ∧ (∀ vs (is : List Int), n.own.settle v = .ok (.array vs) →
      outcomeItems n.items vs = is.map .int → n.own.uniqueItems = true →
        (n.Records here v .uniqueItems ↔ ¬ (is.map Double.ofInt).Nodup))
    ∧ ∀ i j : Int,
      (Significant i.natAbs → Significant j.natAbs →
        (Double.ofInt i = Double.ofInt j ↔ i = j))
      ∧ (Double.ofInt i = Double.ofInt j →
        (i - j).natAbs ≤ 2 ^ Double.spare (max i.natAbs j.natAbs)) := by
  refine ⟨?_, ?_, ?_⟩
  · intro i hv
    exact ⟨fun _ => records_minimum_iff hv, fun _ => records_maximum_iff hv,
      fun _ => records_enum_iff hv⟩
  · intro vs is hv his hu
    exact records_uniqueItems_iff hv his hu
  · intro i j
    exact ⟨Double.ofInt_eq_iff, Double.natAbs_sub_le_of_ofInt_eq⟩

theorem integers_compared_two_apart :
    let n : Node := { ofKind .integer with
      own := { (ofKind .integer).own with
        minimum := some (.int (2 ^ 53 + 4))
        maximum := some (.int (2 ^ 53))
        members := some ([2 ^ 53, 2 ^ 53 + 4].map .int) } }
    let a : Node := { ofKind .array with
      own := { (ofKind .array).own with uniqueItems := true }
      items := some (ofKind .integer) }
    let is : List Int := [2 ^ 53, 2 ^ 53 + 2]
    n.own.settle (.int (2 ^ 53 + 2)) = .ok (.int (2 ^ 53 + 2))
      ∧ a.own.settle (.array (is.map .int)) = .ok (.array (is.map .int))
      ∧ outcomeItems a.items (is.map .int) = is.map .int
      ∧ n.Records .root (.int (2 ^ 53 + 2)) .minimum
      ∧ n.Records .root (.int (2 ^ 53 + 2)) .maximum
      ∧ n.Records .root (.int (2 ^ 53 + 2)) .enum
      ∧ ¬ a.Records .root (.array (is.map .int)) .uniqueItems := by
  intro n a is
  have hn : n.own.settle (.int (2 ^ 53 + 2)) = .ok (.int (2 ^ 53 + 2)) := rfl
  have ha : a.own.settle (.array (is.map .int)) = .ok (.array (is.map .int)) := rfl
  have his : outcomeItems a.items (is.map .int) = is.map .int := rfl
  obtain ⟨hminimum, hmaximum, hmembers⟩ :=
    (integers_compared_as_doubles n .root (.int (2 ^ 53 + 2))).1 _ hn
  have hunique := (integers_compared_as_doubles a .root (.array (is.map .int))).2.1 _ _ ha his rfl
  refine ⟨hn, ha, his, (hminimum _ rfl).mpr (by decide +kernel),
    (hmaximum _ rfl).mpr (by decide +kernel), (hmembers _ rfl).mpr (by decide +kernel), ?_⟩
  rw [hunique]
  decide +kernel

theorem neighbours_taken_for_equal :
    let low : Int := 2 ^ 53
    let high : Int := 2 ^ 53 + 1
    low < high
      ∧ ¬ Records { empty with own := { Keywords.none with minimum := some (.int high) } } .root
          (.int low) .minimum
      ∧ ¬ Records { empty with own := { Keywords.none with maximum := some (.int low) } } .root
          (.int high) .maximum
      ∧ ¬ Records { empty with own := { Keywords.none with members := some ([low].map .int) } }
          .root (.int high) .enum
      ∧ Records { empty with own := { Keywords.none with uniqueItems := true } } .root
          (.array ([low, high].map .int)) .uniqueItems := by
  intro low high
  refine ⟨by decide, ?_, ?_, ?_, ?_⟩
  · rw [records_minimum_iff rfl rfl]
    decide +kernel
  · rw [records_maximum_iff rfl rfl]
    decide +kernel
  · rw [records_enum_iff rfl rfl]
    decide +kernel
  · rw [records_uniqueItems_iff rfl rfl rfl]
    decide +kernel

end Node

end CheckedConfig
