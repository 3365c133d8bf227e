import CheckedConfig.Proofs.Walk.Keywords
import CheckedConfig.Proofs.Walk.Outcome

namespace CheckedConfig

structure FoundAgain (us vs : List Violation) : Prop where
  others : vs.filter (·.keyword != .required) = us.filter (·.keyword != .required)
  required : ∀ v ∈ vs, v.keyword = .required →
    ∃ u ∈ us, u.keyword = .required ∧ u.path = v.path ∧ u.schemaPath = v.schemaPath

namespace FoundAgain

theorem refl (us : List Violation) : FoundAgain us us :=
  ⟨rfl, fun v hv hk => ⟨v, hv, hk, rfl, rfl⟩⟩

theorem append {us vs us' vs' : List Violation} (h : FoundAgain us vs) (h' : FoundAgain us' vs') :
    FoundAgain (us ++ us') (vs ++ vs') := by
  constructor
  · rw [List.filter_append, List.filter_append, h.others, h'.others]
  · intro v hv hk
    rcases List.mem_append.mp hv with hv | hv
    · obtain ⟨u, hu, hsame⟩ := h.required v hv hk
      exact ⟨u, List.mem_append_left _ hu, hsame⟩
    · obtain ⟨u, hu, hsame⟩ := h'.required v hv hk
      exact ⟨u, List.mem_append_right _ hu, hsame⟩

theorem flatMap {α : Type} {xs : List α} {f g : α → List Violation}
    (h : ∀ x ∈ xs, FoundAgain (f x) (g x)) : FoundAgain (xs.flatMap f) (xs.flatMap g) := by
  induction xs with
  | nil => exact refl []
  | cons x xs ih =>
      rw [List.flatMap_cons, List.flatMap_cons]
      exact (h x (List.mem_cons_self ..)).append (ih fun y hy => h y (List.mem_cons_of_mem _ hy))

theorem eq_nil {vs : List Violation} (h : FoundAgain [] vs) : vs = [] := by
  rw [List.eq_nil_iff_forall_not_mem]
  intro v hv
  by_cases hk : v.keyword = .required
  · obtain ⟨u, hu, _⟩ := h.required v hv hk
    exact absurd hu List.not_mem_nil
  · have hmem : v ∈ vs.filter (·.keyword != .required) := List.mem_filter.mpr ⟨hv, by simpa using hk⟩
    rw [h.others] at hmem
    simp at hmem

end FoundAgain

namespace Node

def Fixed (n : Node) : Prop :=
  ∀ origin, n.outcome (n.outcome origin) = n.outcome origin
    ∧ ∀ here, FoundAgain (n.found origin here) (n.found (n.outcome origin) here)

theorem Fixed.getD {m : Node} (hm : m.Fixed) (v : Value) :
    m.outcome (some ((m.outcome (some v)).getD .null)) = some ((m.outcome (some v)).getD .null) := by
  obtain ⟨w, hw⟩ := m.outcome_some v
  have hfix := (hm (some v)).1
  rw [hw] at hfix ⊢
  exact hfix

theorem outcomeProperties_outcome {n : Node} (hnormal : n.normalize = n)
    (ih : ∀ c : Node, c.Child n → c.Fixed) (fs : Fields Value) :
    outcomeProperties n.properties
        (outcomeAdditional n.additional n (outcomeProperties n.properties fs))
      = outcomeAdditional n.additional n (outcomeProperties n.properties fs) := by
  cases hps : n.properties with
  | none => rfl
  | some ps =>
      refine outcomeNamed_eq_self fun p hp => ?_
      rw [outcomeProperties, outcomeFields_get? hnormal hps hp]
      exact (ih p.2 (.property hps hp) _).1

theorem outcomeAdditional_outcome {n : Node} (ih : ∀ c : Node, c.Child n → c.Fixed)
    (fs : Fields Value) :
    outcomeAdditional n.additional n (outcomeAdditional n.additional n fs)
      = outcomeAdditional n.additional n fs := by
  cases hm : n.additional with
  | none => rfl
  | some extra =>
      cases extra with
      | allowed b => rfl
      | schema m =>
          rw [outcomeAdditional, outcomeAdditional, List.map_map]
          refine List.map_congr_left fun p hp => ?_
          by_cases hd : n.declares p.1 = true
          · simp [hd]
          · simp [hd, (ih m (.extra hm)).getD p.2]

theorem outcomeItems_outcome {n : Node} (ih : ∀ c : Node, c.Child n → c.Fixed) (vs : List Value) :
    outcomeItems n.items (outcomeItems n.items vs) = outcomeItems n.items vs := by
  cases hm : n.items with
  | none => rfl
  | some m =>
      rw [outcomeItems, outcomeItems, List.map_map]
      refine List.map_congr_left fun v hv => ?_
      simp [(ih m (.items hm)).getD v]

theorem inside_inside {n : Node} (hnormal : n.normalize = n)
    (ih : ∀ c : Node, c.Child n → c.Fixed) (w : Value) : n.inside (n.inside w) = n.inside w := by
  cases w with
  | object fs =>
      rw [inside, inside, outcomeProperties_outcome hnormal ih, outcomeAdditional_outcome ih]
  | array vs => rw [inside, inside, outcomeItems_outcome ih]
  | _ => rfl

theorem missingNames_again {n : Node} (here : Location) {fs gs : Fields Value}
    (h : ∀ name, fs.has name = true → gs.has name = true) :
    FoundAgain (n.missingNames here fs) (n.missingNames here gs) := by
  have hrequired : ∀ fs, ∀ v ∈ n.missingNames here fs, v.keyword = .required
      ∧ v.path = here.propertyPath ∧ v.schemaPath = here.keywordPath .required := by
    intro fs v hv
    unfold missingNames at hv
    split at hv
    · split at hv
      · simp at hv
      · rw [List.mem_singleton] at hv
        subst hv
        exact ⟨rfl, rfl, rfl⟩
    · simp at hv
  have hnone : ∀ fs, (n.missingNames here fs).filter (·.keyword != .required) = [] :=
    fun fs => List.filter_eq_nil_iff.mpr fun v hv => by simp [(hrequired fs v hv).1]
  constructor
  · rw [hnone, hnone]
  · intro v hv hk
    have hne : n.missingNames here fs ≠ [] := by
      intro hnil
      rw [missingNames_eq_nil_iff] at hnil
      have hgs : n.missingNames here gs = [] :=
        (missingNames_eq_nil_iff n here gs).mpr fun ns hns name hname =>
          h name (hnil ns hns name hname)
      exact absurd hv (hgs ▸ List.not_mem_nil)
    obtain ⟨u, hu⟩ := List.exists_mem_of_ne_nil _ hne
    have hv' := hrequired gs v hv
    have hu' := hrequired fs u hu
    exact ⟨u, hu, hu'.1, hu'.2.1.trans hv'.2.1.symm, hu'.2.2.trans hv'.2.2.symm⟩

theorem has_outcomeFields (n : Node) {fs : Fields Value} {name : String}
    (h : fs.has name = true) :
    (outcomeAdditional n.additional n (outcomeProperties n.properties fs)).has name = true := by
  rw [Fields.has_iff, keys_outcomeAdditional, ← Fields.has_iff]
  cases n.properties with
  | none => exact h
  | some ps => exact has_outcomeNamed h ps

theorem foundProperties_again {n : Node} (hnormal : n.normalize = n)
    (ih : ∀ c : Node, c.Child n → c.Fixed) (fs : Fields Value) (here : Location) :
    FoundAgain (foundProperties n.properties fs here)
      (foundProperties n.properties
        (outcomeAdditional n.additional n (outcomeProperties n.properties fs)) here) := by
  cases hps : n.properties with
  | none => exact .refl []
  | some ps =>
      have hd := keys_nodup_of_normal hnormal hps
      simp only [foundProperties, outcomeProperties]
      rw [foundNamed_eq_flatMap hd, foundNamed_eq_flatMap hd]
      refine FoundAgain.flatMap fun p hp => ?_
      rw [outcomeFields_get? hnormal hps hp]
      exact (ih p.2 (.property hps hp) _).2 _

theorem foundAdditional_again {n : Node} (ih : ∀ c : Node, c.Child n → c.Fixed)
    (fs : Fields Value) (here : Location) :
    FoundAgain (foundAdditional n.additional n fs here)
      (foundAdditional n.additional n (outcomeAdditional n.additional n fs) here) := by
  cases hm : n.additional with
  | none => exact .refl []
  | some extra =>
      cases extra with
      | allowed b => exact .refl _
      | schema m =>
          rw [foundAdditional, foundAdditional, outcomeAdditional, List.flatMap_map]
          refine FoundAgain.flatMap fun p hp => ?_
          by_cases hd : n.declares p.1 = true
          · simp only [hd, if_true]
            exact .refl []
          · obtain ⟨w, hw⟩ := m.outcome_some p.2
            have hagain := (ih m (.extra hm) (some p.2)).2
              (here.property p.1 "additionalProperties")
            rw [hw] at hagain
            simpa [hd, hw] using hagain

theorem foundItems_again {n : Node} (ih : ∀ c : Node, c.Child n → c.Fixed) (vs : List Value)
    (here : Location) :
    FoundAgain (foundItems n.items vs here)
      (foundItems n.items (outcomeItems n.items vs) here) := by
  cases hm : n.items with
  | none => exact .refl []
  | some m =>
      rw [foundItems, foundItems, outcomeItems, List.zipIdx_map, List.flatMap_map]
      refine FoundAgain.flatMap fun p hp => ?_
      obtain ⟨w, hw⟩ := m.outcome_some p.1
      have hagain := (ih m (.items hm) (some p.1)).2 (here.index p.2)
      rw [hw] at hagain
      simpa [hw] using hagain

theorem foundContents_again {n : Node} (hnormal : n.normalize = n)
    (ih : ∀ c : Node, c.Child n → c.Fixed) (w : Value) (here : Location) :
    FoundAgain (n.foundContents here w) (n.foundContents here (n.inside w)) := by
  cases w with
  | object fs =>
      simp only [foundContents, inside, outcomeProperties_outcome hnormal ih]
      refine ((missingNames_again here fun name => has_outcomeFields n).append
        (foundProperties_again hnormal ih fs here)).append ?_
      exact foundAdditional_again ih _ here
  | array vs =>
      simp only [foundContents, inside, outcomeItems_outcome ih]
      exact (foundItems_again ih vs here).append (.refl _)
  | _ => exact .refl _

theorem accepts_inside {n : Node} {w : Value} (h : n.own.AcceptsKind w) :
    n.own.AcceptsKind (n.inside w) := by
  cases w <;> exact h

theorem fixed_some {n : Node} (hnormal : n.normalize = n) (ih : ∀ c : Node, c.Child n → c.Fixed)
    (v : Value) :
    n.outcome (n.outcome (some v)) = n.outcome (some v)
      ∧ ∀ here, FoundAgain (n.found (some v) here) (n.found (n.outcome (some v)) here) := by
  cases hv : n.own.settle v with
  | error e =>
      have hself : n.outcome (some v) = some v := outcome_of_refused hv
      rw [hself]
      exact ⟨hself, fun here => .refl _⟩
  | ok w =>
      have hagain : n.own.settle (n.inside w) = .ok (n.inside w) :=
        Keywords.settle_of_accepts (accepts_inside (Keywords.accepts_of_settle hv))
      rw [outcome_of_settle hv, outcome_of_settle hagain, inside_inside hnormal ih]
      refine ⟨rfl, fun here => ?_⟩
      rw [found_of_settle here hv, found_of_settle here hagain, inside_inside hnormal ih]
      exact (foundContents_again hnormal ih w here).append (.refl _)

theorem fixed_of_normal {n : Node} (hnormal : n.normalize = n) : n.Fixed := by
  induction n using childInduction with
  | step n ih =>
  have hsome := fixed_some hnormal fun c hc => ih c hc (hc.normal hnormal)
  intro origin
  cases origin with
  | some v => exact hsome v
  | none =>
      cases hd : n.own.default with
      | none =>
          rw [outcome_none hd]
          exact ⟨outcome_none hd, fun here => .refl _⟩
      | some d =>
          rw [outcome_none_of_default hd]
          refine ⟨(hsome d).1, fun here => ?_⟩
          rw [found_none_of_default here hd]
          exact (hsome d).2 here

end Node

theorem FoundAgain.recorded {us vs : List Violation} (h : FoundAgain us vs) (path : String) :
    (((Collection.new false).recordAll vs).recorded path).filter (·.keyword != .required)
      = (((Collection.new false).recordAll us).recorded path).filter (·.keyword != .required) := by
  have hswap (ws : List Violation) :
      (ws.filter (·.path == path)).filter (·.keyword != .required)
        = (ws.filter (·.keyword != .required)).filter (·.path == path) := by
    simp only [List.filter_filter, Bool.and_comm]
  rw [Collection.recorded_new, Collection.recorded_new, hswap, hswap, h.others]

theorem Schema.walk_idempotent (s : Schema) (v : Option Value) :
    ∃ r, (s.walk [] false v).result = .ok r
      ∧ (s.walk [] false r).result = .ok r
      ∧ (∀ path,
          (((s.walk [] false r).collection false).recorded path).filter (·.keyword != .required)
            = (((s.walk [] false v).collection false).recorded path).filter
                (·.keyword != .required))
      ∧ (∀ e ∈ ((s.walk [] false r).collection false).list, e.keyword = .required →
          ∃ d ∈ ((s.walk [] false v).collection false).list,
            d.keyword = .required ∧ d.path = e.path ∧ d.schemaPath = e.schemaPath)
      ∧ (((s.walk [] false v).collection false).isEmpty = true →
          ((s.walk [] false r).collection false).isEmpty = true) := by
  obtain ⟨hvalue, hfound⟩ := Node.fixed_of_normal s.normal v
  have hagain := hfound Location.root
  refine ⟨s.root.outcome v, ?_⟩
  rw [s.walk_eq_done, s.walk_eq_done, hvalue]
  refine ⟨rfl, rfl, hagain.recorded, ?_, ?_⟩
  · intro e he hk
    obtain ⟨d, hd, hsame⟩ := hagain.required e (Collection.mem_list_new.mp he) hk
    exact ⟨d, Collection.mem_list_new.mpr hd, hsame⟩
  · intro hempty
    rw [Walk.done_collection, Collection.isEmpty_new_recordAll, List.isEmpty_iff] at hempty ⊢
    exact (hempty ▸ hagain).eq_nil

end CheckedConfig
