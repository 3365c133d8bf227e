import CheckedConfig.Proofs.Walk.Outcome
import CheckedConfig.Proofs.Walk.Reported

namespace CheckedConfig

namespace Fields

theorem mem_set_of_ne (fs : Fields Value) {n m : String} (v w : Value) (h : m ≠ n) :
    (m, w) ∈ fs.set n v ↔ (m, w) ∈ fs := by
  induction fs with
  | nil => simp [set, h]
  | cons p rest ih =>
      obtain ⟨k, u⟩ := p
      by_cases hk : k = n
      · subst hk
        simp [set, h]
      · simp [set, hk, ih]

theorem mem_putBack_of_ne (fs : Fields Value) {n m : String} (o : Option Value) (w : Value)
    (h : m ≠ n) : (m, w) ∈ fs.putBack n o ↔ (m, w) ∈ fs := by
  rcases fs.putBack_cases n o with heq | heq
  · rw [heq, mem_set_of_ne fs _ w h]
  · rw [heq]

end Fields

namespace Node

theorem mem_outcomeNamed {ps : List (String × Node)} {name : String} (h : name ∉ Fields.keys ps)
    (w : Value) (fs : Fields Value) : (name, w) ∈ outcomeNamed ps fs ↔ (name, w) ∈ fs := by
  induction ps generalizing fs with
  | nil => rfl
  | cons p ps ih =>
      obtain ⟨m, c⟩ := p
      rw [Fields.keys_cons, List.mem_cons, not_or] at h
      rw [outcomeNamed, ih h.2, Fields.mem_putBack_of_ne fs _ w h.1]

inductive Spine : Node → Location → Node → Location → Prop where
  | self (n : Node) (here : Location) : Spine n here n here
  | property {n c m : Node} {here there : Location} {ps : List (String × Node)} {name : String} :
      n.properties = some ps → (name, c) ∈ ps →
      Spine c (here.property name "properties") m there → Spine n here m there
  | item {n c m : Node} {here there : Location} (i : Nat) :
      n.items = some c → Spine c (here.index i) m there → Spine n here m there
  | extra {n c m : Node} {here there : Location} (name : String) :
      n.additional = some (.schema c) →
      Spine c (here.property name "additionalProperties") m there → Spine n here m there

variable {n : Node} {here : Location} {v : Violation}

theorem notes_of_mem_unmatchedAny {bs : List Bool} (h : v ∈ n.unmatchedAny here bs) :
    n.Notes here v := by
  unfold unmatchedAny at h
  split at h
  · exact absurd h List.not_mem_nil
  · exact notes_of_mem_singleton h

theorem notes_of_mem_matchedNone {bs : List Bool} (h : v ∈ n.matchedNone here bs) :
    n.Notes here v := by
  unfold matchedNone at h
  split at h
  · exact notes_of_mem_singleton h
  · exact absurd h List.not_mem_nil

theorem notes_of_mem_unmatchedAll {bs : List Bool} (h : v ∈ n.unmatchedAll here bs) :
    n.Notes here v := by
  unfold unmatchedAll at h
  split at h
  · exact absurd h List.not_mem_nil
  · exact notes_of_mem_singleton h

theorem notes_of_mem_unmatchedOne {bs : List Bool} (h : v ∈ n.unmatchedOne here bs) :
    n.Notes here v := by
  unfold unmatchedOne at h
  split at h
  · exact absurd h List.not_mem_nil
  · split at h
    · exact notes_of_mem_singleton h
    · exact absurd h List.not_mem_nil
    · exact notes_of_mem_singleton h

theorem notes_of_mem_foundBranches {w : Value} (h : v ∈ n.foundBranches here w) :
    n.Notes here v := by
  unfold foundBranches branchViolations at h
  split at h
  · simp only [List.mem_append] at h
    rcases h with ((h | h) | h) | h
    · exact notes_of_mem_unmatchedAny h
    · exact notes_of_mem_matchedNone h
    · exact notes_of_mem_unmatchedAll h
    · exact notes_of_mem_unmatchedOne h
  · exact absurd h List.not_mem_nil

theorem keyword_of_mem_missingNames {fs : Fields Value} (h : v ∈ n.missingNames here fs) :
    v.keyword = .required := by
  unfold missingNames at h
  grind [violation]

theorem keyword_of_mem_undeclared {fs : Fields Value} (h : v ∈ n.undeclared here fs) :
    v.keyword = .additionalProperties := by
  obtain ⟨name, -, rfl⟩ := List.mem_map.mp h
  rfl

theorem keyword_of_mem_arrayViolations {vs : List Value} (h : v ∈ n.arrayViolations here vs) :
    v.keyword ∈ [Keyword.minItems, .maxItems, .uniqueItems] := by
  unfold arrayViolations tooFewItems tooManyItems repeatedItems at h
  grind [violation]

theorem keyword_of_mem_scalarViolations {w : Value} (h : v ∈ n.scalarViolations here w) :
    v.keyword ∈ [Keyword.maxLength, .minLength, .minimum, .maximum, .pattern, .enum] := by
  simp only [scalarViolations, List.mem_append] at h
  rcases h with (((h | h) | h) | h) | h
  · unfold wrongLength at h
    grind [violation]
  · unfold belowMinimum at h
    grind [violation]
  · unfold aboveMaximum at h
    grind [violation]
  · unfold offPattern at h
    grind [violation]
  · unfold notMember at h
    grind [violation]

theorem keyword_of_mem_foundBranches {w : Value} (h : v ∈ n.foundBranches here w) :
    v.keyword ∈ [Keyword.anyOf, .not, .allOf, .oneOf] := by
  unfold foundBranches branchViolations unmatchedAny matchedNone unmatchedAll unmatchedOne at h
  grind [violation]

structure Owns (n : Node) (here : Location) (w : Value) (v : Violation) : Prop where
  reports : n.Reports here v
  closed : v.keyword = .additionalProperties → n.additional = some (.allowed false)
    ∧ ∃ fs name, w = .object fs ∧ name ∈ Fields.keys fs ∧ n.declares name = false

inductive FoundBelow (n : Node) (here : Location) : Value → Violation → Prop where
  | property {fs : Fields Value} {v : Violation} {ps : List (String × Node)} {name : String}
      {c : Node} : n.properties = some ps → (name, c) ∈ ps →
      v ∈ c.found (fs.get? name) (here.property name "properties") → FoundBelow n here (.object fs) v
  | extra {fs : Fields Value} {v : Violation} {c : Node} {name : String} {w : Value} :
      n.additional = some (.schema c) → n.declares name = false → (name, w) ∈ fs →
      v ∈ c.found (some w) (here.property name "additionalProperties") →
      FoundBelow n here (.object fs) v
  | item {vs : List Value} {v : Violation} {c : Node} {i : Nat} {w : Value} :
      n.items = some c → vs[i]? = some w → v ∈ c.found (some w) (here.index i) →
      FoundBelow n here (.array vs) v

theorem mem_outcomeProperties {name : String} (hd : n.declares name = false) (w : Value)
    (fs : Fields Value) : (name, w) ∈ outcomeProperties n.properties fs ↔ (name, w) ∈ fs := by
  cases hps : n.properties with
  | none => rfl
  | some ps =>
      refine mem_outcomeNamed ?_ w fs
      rw [← Fields.has_iff]
      simpa [declares, hps] using hd

theorem owns_undeclared (hm : n.additional = some (.allowed false)) {fs : Fields Value}
    (h : v ∈ n.undeclared here (outcomeProperties n.properties fs)) :
    n.Owns here (.object fs) v := by
  refine ⟨(notes_of_mem_undeclared h).reports, fun _ => ⟨hm, ?_⟩⟩
  obtain ⟨name, hname, -⟩ := List.mem_map.mp h
  obtain ⟨hkey, hno⟩ := List.mem_filter.mp hname
  have hd : n.declares name = false := by simpa using hno
  obtain ⟨⟨_, w⟩, hmem, rfl⟩ := List.mem_map.mp hkey
  exact ⟨fs, _, rfl, Fields.mem_keys ((mem_outcomeProperties hd w fs).mp hmem), hd⟩

def ownViolations (n : Node) (here : Location) : Value → List Violation
  | .object fs =>
      n.missingNames here fs ++ match n.additional with
        | some (.allowed false) => n.undeclared here (outcomeProperties n.properties fs)
        | _ => []
  | .array vs => n.arrayViolations here (outcomeItems n.items vs)
  | w => n.scalarViolations here w

theorem own_or_below (hnormal : n.normalize = n) {w : Value} (h : v ∈ n.foundContents here w) :
    v ∈ n.ownViolations here w ∨ n.FoundBelow here w v := by
  cases w with
  | object fs =>
      simp only [foundContents, List.mem_append] at h
      rcases h with (h | h) | h
      · exact .inl (List.mem_append_left _ h)
      · cases hps : n.properties with
        | none => simp [hps, foundProperties] at h
        | some ps =>
            rw [hps, foundProperties, foundNamed_eq_flatMap (keys_nodup_of_normal hnormal hps)] at h
            obtain ⟨⟨name, c⟩, hc, hv⟩ := List.mem_flatMap.mp h
            exact .inr (.property hps hc hv)
      · cases hm : n.additional with
        | none => simp [hm, foundAdditional] at h
        | some extra =>
            rw [hm] at h
            cases extra with
            | allowed b =>
                cases b with
                | true => simp [foundAdditional] at h
                | false =>
                    refine .inl (List.mem_append_right _ ?_)
                    rw [hm]
                    exact h
            | schema c =>
                obtain ⟨p, hp, hv⟩ := List.mem_flatMap.mp h
                split at hv
                · exact absurd hv List.not_mem_nil
                · next hno =>
                    have hd : n.declares p.1 = false := by simpa using hno
                    exact .inr (.extra hm hd ((mem_outcomeProperties hd p.2 fs).mp hp) hv)
  | array vs =>
      simp only [foundContents, List.mem_append] at h
      rcases h with h | h
      · cases hm : n.items with
        | none => simp [hm, foundItems] at h
        | some c =>
            rw [hm] at h
            obtain ⟨p, hp, hv⟩ := List.mem_flatMap.mp h
            exact .inr (.item hm (List.mem_zipIdx_iff_getElem?.mp hp) hv)
      · exact .inl h
  | _ => exact .inl h

theorem owns_of_mem_own {w : Value} (h : v ∈ n.ownViolations here w) : n.Owns here w v := by
  cases w with
  | object fs =>
      rcases List.mem_append.mp h with h | h
      · exact ⟨(notes_of_mem_missingNames h).reports,
          fun hk => absurd (hk ▸ keyword_of_mem_missingNames h) (by decide)⟩
      · split at h
        · next hm => exact owns_undeclared hm h
        · exact absurd h List.not_mem_nil
  | array vs =>
      refine ⟨?_, fun hk => absurd (hk ▸ keyword_of_mem_arrayViolations h) (by decide)⟩
      simp only [ownViolations, arrayViolations, List.mem_append] at h
      rcases h with (h | h) | h
      · exact (notes_of_mem_tooFewItems h).reports
      · exact (notes_of_mem_tooManyItems h).reports
      · exact (notes_of_mem_repeatedItems h).reports
  | _ =>
      exact ⟨(notes_of_mem_scalarViolations h).reports,
        fun hk => absurd (hk ▸ keyword_of_mem_scalarViolations h) (by decide)⟩

theorem owns_or_below (hnormal : n.normalize = n) {w : Value} (h : v ∈ n.foundContents here w) :
    n.Owns here w v ∨ n.FoundBelow here w v :=
  (own_or_below hnormal h).imp_left owns_of_mem_own

theorem mem_foundContents_of_below (hnormal : n.normalize = n) {w : Value}
    (h : n.FoundBelow here w v) : v ∈ n.foundContents here w := by
  cases h with
  | property hps hc hv =>
      rw [foundContents, hps, foundProperties,
        foundNamed_eq_flatMap (keys_nodup_of_normal hnormal hps)]
      exact List.mem_append_left _
        (List.mem_append_right _ (List.mem_flatMap.mpr ⟨_, hc, hv⟩))
  | extra hm hd hw hv =>
      rw [foundContents, hm]
      refine List.mem_append_right _
        (List.mem_flatMap.mpr ⟨_, (mem_outcomeProperties hd _ _).mpr hw, ?_⟩)
      rw [hd]
      exact hv
  | @item vs _ c i w hm hw hv =>
      rw [foundContents, hm]
      exact List.mem_append_left _
        (List.mem_flatMap.mpr ⟨(w, i), List.mem_zipIdx_iff_getElem?.mpr hw, hv⟩)

theorem mem_found {origin : Option Value} (h : v ∈ n.found origin here) :
    n.Reports here v ∨ ∃ w, v ∈ n.foundContents here w := by
  have hsome (u : Value) (hu : v ∈ n.found (some u) here) :
      n.Reports here v ∨ ∃ w, v ∈ n.foundContents here w := by
    cases hw : n.own.settle u with
    | error e =>
        rw [found_of_refused here hw, List.mem_singleton] at hu
        exact .inl (hu ▸ reports_wrongKind n here _ _)
    | ok w =>
        rw [found_of_settle here hw] at hu
        rcases List.mem_append.mp hu with hu | hu
        · exact .inr ⟨w, hu⟩
        · exact .inl ((notes_of_mem_foundBranches hu).reports)
  cases origin with
  | some u => exact hsome u h
  | none =>
      cases hd : n.own.default with
      | some d =>
          rw [found_none_of_default here hd] at h
          exact hsome d h
      | none =>
          rw [found_none here hd] at h
          exact .inl ((notes_of_mem_missingValue h).reports)

theorem reported_on_spine (hnormal : n.normalize = n) {origin : Option Value}
    (h : v ∈ n.found origin here) : ∃ m there, n.Spine here m there ∧ m.Reports there v := by
  induction n using childInduction generalizing origin here with
  | step n ih =>
  rcases mem_found h with hown | ⟨w, hw⟩
  · exact ⟨n, here, .self n here, hown⟩
  · rcases owns_or_below hnormal hw with hown | hbelow
    · exact ⟨n, here, .self n here, hown.reports⟩
    · cases hbelow with
      | property hps hc hv =>
          have hchild : Child _ n := .property hps hc
          obtain ⟨m, there, hspine, hreports⟩ := ih _ hchild (hchild.normal hnormal) hv
          exact ⟨m, there, .property hps hc hspine, hreports⟩
      | extra hm _ _ hv =>
          have hchild : Child _ n := .extra hm
          obtain ⟨m, there, hspine, hreports⟩ := ih _ hchild (hchild.normal hnormal) hv
          exact ⟨m, there, .extra _ hm hspine, hreports⟩
      | item hm _ hv =>
          have hchild : Child _ n := .items hm
          obtain ⟨m, there, hspine, hreports⟩ := ih _ hchild (hchild.normal hnormal) hv
          exact ⟨m, there, .item _ hm hspine, hreports⟩

end Node

end CheckedConfig
