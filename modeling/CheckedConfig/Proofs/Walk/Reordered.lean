import CheckedConfig.Proofs.Walk.Branches
import CheckedConfig.Proofs.Walk.Twins

namespace CheckedConfig

namespace Node

variable {n m : Node}

def AgreesWith (n m : Node) : Prop :=
  ∀ {v w : Option Value} (here : Location), Option.Rel Value.Agree v w →
    Option.Rel Value.Agree (n.outcome v) (m.outcome w)
      ∧ (marks (n.found v here)).Perm (marks (m.found w here))

section Parts

variable {fs gs : Fields Value} {vs ws : List Value} {v w : Value}
  (ih : ∀ c d : Node, c.Child n → Twin c d → c.AgreesWith d)

theorem nodup_outcomeNamed (ps : List (String × Node)) {fs : Fields Value}
    (hd : (Fields.keys fs).Nodup) : (Fields.keys (outcomeNamed ps fs)).Nodup := by
  induction ps generalizing fs with
  | nil => exact hd
  | cons p ps ihs => exact ihs (Fields.nodup_putBack hd _ _)

include ih in
theorem agree_outcomeProperties (h : Twin n m) (hfs : Fields.Rel Value.Agree fs gs) :
    Fields.Rel Value.Agree (outcomeProperties n.properties fs)
      (outcomeProperties m.properties gs) := by
  rcases h.properties with ⟨hps, hqs⟩ | ⟨ps, qs, hps, hqs, hrel⟩
  · rw [hps, hqs]
    exact hfs
  · rw [hps, hqs]
    refine ⟨nodup_outcomeNamed ps hfs.left, nodup_outcomeNamed qs hfs.right, fun name => ?_⟩
    rcases hrel.get?_cases name with ⟨hc, hd⟩ | ⟨c, d, hc, hd, hcd⟩
    · rw [outcomeProperties, outcomeProperties,
        outcomeNamed_get?_of_not_mem ((Fields.get?_eq_none_iff ps name).mp hc),
        outcomeNamed_get?_of_not_mem ((Fields.get?_eq_none_iff qs name).mp hd)]
      exact hfs.each name
    · have hmem := Fields.mem_of_get? hc
      rw [outcomeProperties, outcomeProperties, outcomeNamed_get? hrel.left hmem,
        outcomeNamed_get? hrel.right (Fields.mem_of_get? hd)]
      exact (ih c d (.property hps hmem) hcd Location.root (hfs.each name)).1

include ih in
theorem agree_foundProperties (h : Twin n m) (here : Location)
    (hfs : Fields.Rel Value.Agree fs gs) :
    (marks (foundProperties n.properties fs here)).Perm
      (marks (foundProperties m.properties gs here)) := by
  rcases h.properties with ⟨hps, hqs⟩ | ⟨ps, qs, hps, hqs, hrel⟩
  · rw [hps, hqs]
    exact .refl _
  · rw [hps, hqs, foundProperties, foundProperties, foundNamed_eq_flatMap hrel.left,
      foundNamed_eq_flatMap hrel.right, marks_flatMap, marks_flatMap]
    exact hrel.flatMap_perm (fun name c d hc _ hcd =>
      (ih c d (.property hps hc) hcd (here.property name "properties") (hfs.each name)).2)

theorem agree_getD {v w : Option Value} (h : Option.Rel Value.Agree v w) :
    (v.getD .null).Agree (w.getD .null) := by
  cases h with
  | some hvw => exact hvw
  | none => exact ⟨rfl, .scalar rfl, .scalar rfl⟩

include ih in
theorem agree_outcomeAdditional (h : Twin n m) (hfs : Fields.Rel Value.Agree fs gs) :
    Fields.Rel Value.Agree (outcomeAdditional n.additional n fs)
      (outcomeAdditional m.additional m gs) := by
  have hleft : (Fields.keys (outcomeAdditional n.additional n fs)).Nodup := by
    rw [keys_outcomeAdditional]
    exact hfs.left
  have hright : (Fields.keys (outcomeAdditional m.additional m gs)).Nodup := by
    rw [keys_outcomeAdditional]
    exact hfs.right
  rcases h.additional with ⟨hn, hm⟩ | ⟨b, hn, hm⟩ | ⟨c, d, hn, hm, hcd⟩
  · rw [hn, hm]
    exact hfs
  · rw [hn, hm]
    exact hfs
  · refine .of_cases hleft hright fun name => ?_
    rw [hn, hm, get?_outcomeAdditional, get?_outcomeAdditional, ← h.declares_eq]
    rcases hfs.get?_cases name with ⟨hv, hw⟩ | ⟨v, w, hv, hw, hvw⟩
    · exact .inl ⟨by rw [hv]; rfl, by rw [hw]; rfl⟩
    · rw [hv, hw]
      refine .inr ⟨_, _, rfl, rfl, ?_⟩
      split
      · exact hvw
      · exact agree_getD (ih c d (.extra hn) hcd Location.root (.some hvw)).1

include ih in
theorem agree_foundAdditional (h : Twin n m) (here : Location)
    (hfs : Fields.Rel Value.Agree fs gs) :
    (marks (foundAdditional n.additional n fs here)).Perm
      (marks (foundAdditional m.additional m gs here)) := by
  rcases h.additional with ⟨hn, hm⟩ | ⟨b, hn, hm⟩ | ⟨c, d, hn, hm, hcd⟩
  · rw [hn, hm]
    exact .refl _
  · rw [hn, hm]
    cases b with
    | true => exact .refl _
    | false => exact marks_undeclared h here hfs
  · rw [hn, hm, foundAdditional, foundAdditional, marks_flatMap, marks_flatMap]
    refine hfs.flatMap_perm
      (f := fun name v => marks (if n.declares name then [] else
        c.found (some v) (here.property name "additionalProperties")))
      (g := fun name w => marks (if m.declares name then [] else
        d.found (some w) (here.property name "additionalProperties")))
      fun name v w _ _ hvw => ?_
    rw [← h.declares_eq]
    split
    · exact .refl _
    · exact (ih c d (.extra hn) hcd _ (.some hvw)).2

include ih in
theorem agree_outcomeItems (h : Twin n m) (hvs : List.Forall₂ Value.Agree vs ws) :
    List.Forall₂ Value.Agree (outcomeItems n.items vs) (outcomeItems m.items ws) := by
  have hitems := h.items
  cases hc : n.items with
  | none =>
      rw [hc] at hitems
      generalize m.items = d at hitems ⊢
      cases hitems
      exact hvs
  | some c =>
      rw [hc] at hitems
      generalize m.items = o at hitems ⊢
      cases hitems with
      | some hcd =>
          rw [outcomeItems, outcomeItems, List.forall₂_map_left_iff, List.forall₂_map_right_iff]
          exact hvs.imp fun v w hvw => agree_getD (ih c _ (.items hc) hcd Location.root (.some hvw)).1

include ih in
theorem agree_foundItems (h : Twin n m) (here : Location) (hvs : List.Forall₂ Value.Agree vs ws) :
    (marks (foundItems n.items vs here)).Perm (marks (foundItems m.items ws here)) := by
  have hitems := h.items
  cases hc : n.items with
  | none =>
      rw [hc] at hitems
      generalize m.items = d at hitems ⊢
      cases hitems
      exact .refl _
  | some c =>
      rw [hc] at hitems
      generalize m.items = o at hitems ⊢
      cases hitems with
      | some hcd =>
          rw [foundItems, foundItems, marks_flatMap, marks_flatMap]
          refine flatMap_perm_of_forall₂ (forall₂_zipIdx hvs 0) fun p q hpq => ?_
          rw [← hpq.2]
          exact (ih c _ (.items hc) hcd (here.index p.2) (.some hpq.1)).2

theorem isEmpty_eq_of_marks {vs us : List Violation} (h : (marks vs).Perm (marks us)) :
    vs.isEmpty = us.isEmpty := by
  have hlength := h.length_eq
  simp only [marks, List.length_map] at hlength
  cases vs <;> cases us <;> first | rfl | cases hlength

include ih in
theorem agree_passing (h : Twin n m) (operator : Keyword) (here : Location) (hvw : v.Agree w) :
    passing (n.branches operator) operator v here =
      passing (m.branches operator) operator w here := by
  rw [passing_eq_zipIdx, passing_eq_zipIdx]
  refine map_eq_of_forall₂ (forall₂_zipIdx (h.branches operator) 0) ?_
  rintro ⟨c, i⟩ ⟨d, _⟩ ⟨⟨hc, hcd⟩, rfl⟩
  exact isEmpty_eq_of_marks (ih c d hc hcd (here.branch operator i) (.some hvw)).2

include ih in
theorem agree_foundBranches (h : Twin n m) (here : Location) (hvw : v.Agree w) :
    marks (n.foundBranches here v) = marks (m.foundBranches here w) := by
  have hany := agree_passing ih h .anyOf here hvw
  have hnone := agree_passing ih h .not here hvw
  have hall := agree_passing ih h .allOf here hvw
  have hone := agree_passing ih h .oneOf here hvw
  simp only [branches] at hany hnone hall hone
  rw [foundBranches, foundBranches, hany, hnone, hall, hone]
  exact marks_branchViolations h here hvw _ _ _ _

include ih in
theorem agree_inside (h : Twin n m) (hvw : v.Agree w) : (n.inside v).Agree (m.inside w) := by
  cases v with
  | array vs =>
      obtain ⟨ws, rfl, hvs⟩ := hvw.of_array
      exact Value.agree_array_iff.mpr (agree_outcomeItems ih h hvs)
  | object fs =>
      obtain ⟨gs, rfl, hfs⟩ := hvw.of_object
      exact Value.agree_object_iff.mpr
        (agree_outcomeAdditional ih h (agree_outcomeProperties ih h hfs))
  | _ => obtain rfl | ⟨a, b, heq, rfl, hab⟩ := hvw.of_scalar rfl <;> exact hvw

include ih in
theorem agree_foundContents (h : Twin n m) (here : Location) (hvw : v.Agree w) :
    (marks (n.foundContents here v)).Perm (marks (m.foundContents here w)) := by
  cases v with
  | array vs =>
      obtain ⟨ws, rfl, hvs⟩ := hvw.of_array
      rw [foundContents, foundContents, marks_append, marks_append,
        marks_arrayViolations h here (agree_outcomeItems ih h hvs)]
      exact (agree_foundItems ih h here hvs).append_right _
  | object fs =>
      obtain ⟨gs, rfl, hfs⟩ := hvw.of_object
      rw [foundContents, foundContents, marks_append, marks_append, marks_append, marks_append,
        marks_missingNames h here hfs]
      exact ((agree_foundProperties ih h here hfs).append_left _).append
        (agree_foundAdditional ih h here (agree_outcomeProperties ih h hfs))
  | _ =>
      obtain rfl | ⟨a, b, heq, rfl, hab⟩ := hvw.of_scalar rfl <;>
        exact .of_eq (marks_scalarViolations h here hvw)

end Parts

theorem agrees_of_twin (h : Twin n m) : n.AgreesWith m := by
  -- Along the children of the first; each has its twin among those of the second.
  induction n using childInduction generalizing m with
  | step n ih =>
  have hih (c d : Node) (hc : c.Child n) (hcd : Twin c d) : c.AgreesWith d := ih c hc hcd
  have hsome (here : Location) {v w : Value} (hvw : v.Agree w) :
      Option.Rel Value.Agree (n.outcome (some v)) (m.outcome (some w))
        ∧ (marks (n.found (some v) here)).Perm (marks (m.found (some w) here)) := by
    rcases h.own.settle hvw with ⟨hv, hw⟩ | ⟨⟨why, rs⟩, ⟨why', rs'⟩, hv, hw⟩
    · rw [outcome_of_settle hv, outcome_of_settle hw, found_of_settle here hv,
        found_of_settle here hw, marks_append, marks_append]
      have hinside := agree_inside hih h hvw
      rw [agree_foundBranches hih h here hinside]
      exact ⟨.some hinside, (agree_foundContents hih h here hvw).append_right _⟩
    · rw [outcome_of_refused hv, outcome_of_refused hw, found_of_refused here hv,
        found_of_refused here hw]
      exact ⟨.some hvw, .refl _⟩
  intro v w here hvw
  cases hvw with
  | some hvw => exact hsome here hvw
  | none =>
      have hdefault := h.own.default
      cases hd : n.own.default with
      | none =>
          rw [hd] at hdefault
          cases hd' : m.own.default with
          | none =>
              rw [outcome_none hd, outcome_none hd', found_none here hd, found_none here hd',
                marks_missingValue h]
              exact ⟨.none, .refl _⟩
          | some e =>
              rw [hd'] at hdefault
              cases hdefault
      | some d =>
          rw [hd] at hdefault
          cases hd' : m.own.default with
          | none =>
              rw [hd'] at hdefault
              cases hdefault
          | some e =>
              rw [hd'] at hdefault
              rw [outcome_none_of_default hd, outcome_none_of_default hd',
                found_none_of_default here hd, found_none_of_default here hd']
              cases hdefault with
              | some hde => exact hsome here hde

end Node

theorem marks_list_perm (strict : Bool) {α : Type} (walk : Walk α) :
    (marks (walk.collection strict).list).Perm (marks walk.violations) :=
  (Collection.list_recordAll_perm (Collection.new strict) walk.violations).map _

theorem Schema.walk_reordered {s t : Schema} {v w : Option Value}
    (hst : s.root.same t.root = true) (hvw : Value.sameOption v w = true)
    (hunchanged : ∀ n, Node.Within n s.root → n.own.transform = none)
    (hs : ∀ n, Node.Within n s.root → n.own.Proper)
    (ht : ∀ n, Node.Within n t.root → n.own.Proper)
    (hv : ∀ u, v = some u → u.Distinct) (hw : ∀ u, w = some u → u.Distinct) :
    ∃ r r', (s.walk [] false v).result = .ok r ∧ (t.walk [] false w).result = .ok r'
      ∧ Value.sameOption r r' = true
      ∧ (((s.walk [] false v).collection false).list.map Violation.mark).Perm
          (((t.walk [] false w).collection false).list.map Violation.mark) := by
  have htwin : Node.Twin s.root t.root := ⟨hst, s.normal, t.normal, hunchanged, hs, ht⟩
  obtain ⟨hresult, hmarks⟩ :=
    Node.agrees_of_twin htwin Location.root (Value.agree_of_sameOption hvw hv hw)
  refine ⟨s.root.outcome v, t.root.outcome w, by rw [Schema.walk_eq_done]; rfl,
    by rw [Schema.walk_eq_done]; rfl, ?_, ?_⟩
  · generalize s.root.outcome v = r, t.root.outcome w = r' at hresult ⊢
    cases hresult with
    | none => rfl
    | some h => exact h.same
  · refine (marks_list_perm false _).trans (.trans ?_ (marks_list_perm false _).symm)
    rw [Schema.walk_eq_done, Schema.walk_eq_done]
    exact hmarks

theorem Schema.walk_reordered_of_two_keys :
    let row (ps : List (String × Node)) : Node :=
      { Node.ofKind .object with properties := some ps, additional := some (.allowed false) }
    let s := Schema.ofNode (row [("a", Node.ofKind .number), ("b", Node.ofKind .string)])
    let t := Schema.ofNode (row [("b", Node.ofKind .string), ("a", Node.ofKind .number)])
    let v := Value.object [("a", .string "x"), ("b", .int 1), ("c", .null)]
    let w := Value.object [("c", .null), ("b", .int 1), ("a", .string "x")]
    s.root.same t.root = true ∧ Value.sameOption (some v) (some w) = true
      ∧ (s.walk [] false (some v)).violations.map (·.path) = ["$ROOT.a", "$ROOT.b", "$ROOT"]
      ∧ (t.walk [] false (some w)).violations.map (·.path) = ["$ROOT.b", "$ROOT.a", "$ROOT"]
      ∧ ∃ r r', (s.walk [] false (some v)).result = .ok r
          ∧ (t.walk [] false (some w)).result = .ok r' ∧ Value.sameOption r r' = true
          ∧ (((s.walk [] false (some v)).collection false).list.map Violation.mark).Perm
              (((t.walk [] false (some w)).collection false).list.map Violation.mark) := by
  intro row s t v w
  have hrow (ps : List (String × Node)) (hps : ∀ p ∈ ps, ∃ k, p.2 = Node.ofKind k) (n : Node)
      (hn : n.Within (row ps)) : n.own.transform = none ∧ n.own.Proper := by
    cases hn with
    | self => exact ⟨rfl, nofun, nofun, nofun⟩
    | under hn hc =>
        cases hc with
        | property heq hmem =>
            cases heq
            obtain ⟨k, rfl⟩ := hps _ hmem
            obtain rfl := hn.eq_ofKind
            exact ⟨rfl, nofun, nofun, nofun⟩
        | items hm => cases hm
        | extra hm => cases hm
        | @branch operator ns hns _ => cases operator <;> cases hns
  have hs (n : Node) (hn : n.Within s.root) : n.own.transform = none ∧ n.own.Proper :=
    hrow [("a", Node.ofKind .number), ("b", Node.ofKind .string)] (by simp) n hn
  have ht (n : Node) (hn : n.Within t.root) : n.own.transform = none ∧ n.own.Proper :=
    hrow [("b", Node.ofKind .string), ("a", Node.ofKind .number)] (by simp) n hn
  have hfields {fs : Fields Value} (hkeys : (Fields.keys fs).Nodup)
      (hfs : ∀ p ∈ fs, p.2.isContainer = false) : (Value.object fs).Distinct :=
    .object hkeys fun p hp => .scalar (hfs p hp)
  have hv : v.Distinct := hfields (by decide) (by decide)
  have hw : w.Distinct := hfields (by decide) (by decide)
  have hst : s.root.same t.root = true := by decide +kernel
  have hvw : Value.sameOption (some v) (some w) = true := by decide +kernel
  exact ⟨hst, hvw, by decide +kernel, by decide +kernel,
    Schema.walk_reordered hst hvw (fun n hn => (hs n hn).1) (fun n hn => (hs n hn).2)
      (fun n hn => (ht n hn).2) (fun _ hu => Option.some.inj hu ▸ hv)
      fun _ hu => Option.some.inj hu ▸ hw⟩

end CheckedConfig
