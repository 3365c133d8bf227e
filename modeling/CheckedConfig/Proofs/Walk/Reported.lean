import CheckedConfig.Validation.Walk

namespace CheckedConfig

namespace Node

structure Reports (n : Node) (here : Location) (v : Violation) : Prop where
  path : v.path = here.propertyPath
  schema : v.schema = n
  schemaPath : v.schemaPath = here.keywordPath v.keyword

variable {n : Node} {here : Location} {v : Violation}

def Notes (n : Node) (here : Location) (v : Violation) : Prop :=
  ∃ keyword message, v = n.violation here keyword message

theorem Notes.reports (h : n.Notes here v) : n.Reports here v := by
  obtain ⟨keyword, message, rfl⟩ := h
  exact ⟨rfl, rfl, rfl⟩

theorem notes_of_mem_singleton {keyword : Keyword} {message : String}
    (h : v ∈ [n.violation here keyword message]) : n.Notes here v :=
  ⟨keyword, message, List.mem_singleton.mp h⟩

theorem notes_of_mem_missingValue (h : v ∈ n.missingValue here) : n.Notes here v := by
  unfold missingValue at h
  split at h
  · exact notes_of_mem_singleton h
  · exact absurd h List.not_mem_nil

theorem reports_wrongKind (n : Node) (here : Location) (why : String) (rs : List Refusal) :
    n.Reports here (n.wrongKind here why rs) := ⟨rfl, rfl, rfl⟩

theorem notes_of_mem_missingNames {fs : Fields Value} (h : v ∈ n.missingNames here fs) :
    n.Notes here v := by
  unfold missingNames at h
  split at h
  · split at h
    · exact absurd h List.not_mem_nil
    · exact notes_of_mem_singleton h
  · exact absurd h List.not_mem_nil

theorem notes_of_mem_undeclared {fs : Fields Value} (h : v ∈ n.undeclared here fs) :
    n.Notes here v := by
  obtain ⟨name, _, rfl⟩ := List.mem_map.mp h
  exact ⟨_, _, rfl⟩

theorem notes_of_mem_tooFewItems {vs : List Value} (h : v ∈ n.tooFewItems here vs) :
    n.Notes here v := by
  unfold tooFewItems at h
  split at h
  · split at h
    · exact notes_of_mem_singleton h
    · exact absurd h List.not_mem_nil
  · exact absurd h List.not_mem_nil

theorem notes_of_mem_tooManyItems {vs : List Value} (h : v ∈ n.tooManyItems here vs) :
    n.Notes here v := by
  unfold tooManyItems at h
  split at h
  · split at h
    · exact notes_of_mem_singleton h
    · exact absurd h List.not_mem_nil
  · exact absurd h List.not_mem_nil

theorem notes_of_mem_repeatedItems {vs : List Value} (h : v ∈ n.repeatedItems here vs) :
    n.Notes here v := by
  unfold repeatedItems at h
  split at h
  · split at h
    · exact absurd h List.not_mem_nil
    · exact notes_of_mem_singleton h
  · exact absurd h List.not_mem_nil

theorem notes_of_mem_wrongLength {w : Value} (h : v ∈ n.wrongLength here w) :
    n.Notes here v := by
  unfold wrongLength at h
  split at h
  · rcases List.mem_append.mp h with h | h <;> split at h
    · split at h
      · exact notes_of_mem_singleton h
      · exact absurd h List.not_mem_nil
    · exact absurd h List.not_mem_nil
    · split at h
      · exact notes_of_mem_singleton h
      · exact absurd h List.not_mem_nil
    · exact absurd h List.not_mem_nil
  · exact absurd h List.not_mem_nil

theorem notes_of_mem_belowMinimum {w : Value} (h : v ∈ n.belowMinimum here w) :
    n.Notes here v := by
  unfold belowMinimum at h
  split at h
  · split at h
    · exact notes_of_mem_singleton h
    · exact absurd h List.not_mem_nil
  · exact absurd h List.not_mem_nil

theorem notes_of_mem_aboveMaximum {w : Value} (h : v ∈ n.aboveMaximum here w) :
    n.Notes here v := by
  unfold aboveMaximum at h
  split at h
  · split at h
    · exact notes_of_mem_singleton h
    · exact absurd h List.not_mem_nil
  · exact absurd h List.not_mem_nil

theorem notes_of_mem_offPattern {w : Value} (h : v ∈ n.offPattern here w) :
    n.Notes here v := by
  unfold offPattern at h
  split at h
  · split at h
    · split at h
      · exact absurd h List.not_mem_nil
      · exact notes_of_mem_singleton h
    · exact absurd h List.not_mem_nil
  · exact absurd h List.not_mem_nil

theorem notes_of_mem_notMember {w : Value} (h : v ∈ n.notMember here w) :
    n.Notes here v := by
  unfold notMember at h
  split at h
  · split at h
    · exact absurd h List.not_mem_nil
    · exact notes_of_mem_singleton h
  · exact absurd h List.not_mem_nil

theorem notes_of_mem_scalarViolations {w : Value} (h : v ∈ n.scalarViolations here w) :
    n.Notes here v := by
  simp only [scalarViolations, List.mem_append] at h
  rcases h with (((h | h) | h) | h) | h
  · exact notes_of_mem_wrongLength h
  · exact notes_of_mem_belowMinimum h
  · exact notes_of_mem_aboveMaximum h
  · exact notes_of_mem_offPattern h
  · exact notes_of_mem_notMember h

end Node

end CheckedConfig
