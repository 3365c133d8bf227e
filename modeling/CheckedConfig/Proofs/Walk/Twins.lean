import CheckedConfig.Proofs.Sameness
import CheckedConfig.Proofs.Walk.Keywords
import CheckedConfig.Proofs.Walk.Outcome

namespace CheckedConfig

def Violation.mark (v : Violation) : String × String × Keyword := (v.path, v.schemaPath, v.keyword)

def marks (vs : List Violation) : List (String × String × Keyword) := vs.map Violation.mark

@[simp] theorem marks_nil : marks [] = [] := rfl

@[simp] theorem marks_append (vs us : List Violation) : marks (vs ++ us) = marks vs ++ marks us :=
  List.map_append

theorem marks_flatMap {α : Type} (xs : List α) (f : α → List Violation) :
    marks (xs.flatMap f) = xs.flatMap fun x => marks (f x) :=
  List.map_flatMap ..

section Lists

variable {α β γ : Type} {R : α → β → Prop} {xs : List α} {ys : List β}

theorem any_eq_of_forall₂ {p : α → Bool} {q : β → Bool} (h : List.Forall₂ R xs ys)
    (hpq : ∀ x y, R x y → p x = q y) : xs.any p = ys.any q := by
  induction h with
  | nil => rfl
  | cons hxy _ ih => rw [List.any_cons, List.any_cons, hpq _ _ hxy, ih]

theorem map_eq_of_forall₂ {f : α → γ} {g : β → γ} (h : List.Forall₂ R xs ys)
    (hfg : ∀ x y, R x y → f x = g y) : xs.map f = ys.map g := by
  induction h with
  | nil => rfl
  | cons hxy _ ih => rw [List.map_cons, List.map_cons, hfg _ _ hxy, ih]

theorem flatMap_perm_of_forall₂ {f : α → List γ} {g : β → List γ} (h : List.Forall₂ R xs ys)
    (hfg : ∀ x y, R x y → (f x).Perm (g y)) : (xs.flatMap f).Perm (ys.flatMap g) := by
  induction h with
  | nil => exact .refl _
  | cons hxy _ ih =>
      rw [List.flatMap_cons, List.flatMap_cons]
      exact (hfg _ _ hxy).append ih

theorem forall₂_zipIdx (h : List.Forall₂ R xs ys) (i : Nat) :
    List.Forall₂ (fun p q => R p.1 q.1 ∧ p.2 = q.2) (xs.zipIdx i) (ys.zipIdx i) := by
  induction h generalizing i with
  | nil => exact .nil
  | cons hxy _ ih => exact .cons ⟨hxy, rfl⟩ (ih (i + 1))

end Lists

structure Keywords.Proper (k : Keywords) : Prop where
  default : ∀ v, k.default = some v → v.Distinct
  members : ∀ vs, k.members = some vs → ∀ v ∈ vs, v.Distinct
  pattern : ∀ p, k.pattern = some p → Pattern.compile? p.source = some p

structure Keywords.Twin (a b : Keywords) : Prop where
  kind : a.kind = b.kind
  required : a.required = b.required
  default : Option.Rel Value.Agree a.default b.default
  minimum : Option.Rel (fun v w => Value.same v w = true) a.minimum b.minimum
  maximum : Option.Rel (fun v w => Value.same v w = true) a.maximum b.maximum
  minLength : a.minLength = b.minLength
  maxLength : a.maxLength = b.maxLength
  minItems : a.minItems = b.minItems
  maxItems : a.maxItems = b.maxItems
  uniqueItems : a.uniqueItems = b.uniqueItems
  pattern : a.pattern = b.pattern
  members : Option.Rel (List.Forall₂ Value.Agree) a.members b.members
  unchanged : a.transform = Option.none ∧ b.transform = Option.none

theorem Value.rel_of_sameOption {v w : Option Value} (h : Value.sameOption v w = true) :
    Option.Rel (fun v w => Value.same v w = true) v w := by
  cases v <;> cases w <;> first | exact .none | exact .some h | cases h

theorem Value.agree_of_sameOption {v w : Option Value} (h : Value.sameOption v w = true)
    (hv : ∀ u, v = some u → u.Distinct) (hw : ∀ u, w = some u → u.Distinct) :
    Option.Rel Value.Agree v w := by
  cases v with
  | none => cases w <;> first | exact .none | cases h
  | some v =>
      cases w with
      | none => cases h
      | some w => exact .some ⟨h, hv v rfl, hw w rfl⟩

namespace Keywords

variable {a b : Keywords}

theorem pattern_eq_of_same (h : samePattern a.pattern b.pattern = true) (ha : a.Proper)
    (hb : b.Proper) : a.pattern = b.pattern := by
  cases hp : a.pattern with
  | none => cases hq : b.pattern <;> simp_all [samePattern]
  | some p =>
      cases hq : b.pattern with
      | none => simp [hp, hq, samePattern] at h
      | some q =>
          have hsource : p.source = q.source := by simpa [hp, hq, samePattern] using h
          have hread := ha.pattern p hp
          rw [hsource, hb.pattern q hq] at hread
          exact hread.symm

theorem members_of_same (h : sameMembers a.members b.members = true) (ha : a.Proper)
    (hb : b.Proper) : Option.Rel (List.Forall₂ Value.Agree) a.members b.members := by
  cases hp : a.members with
  | none =>
      cases hq : b.members with
      | none => exact .none
      | some ws => simp [hp, hq, sameMembers] at h
  | some vs =>
      cases hq : b.members with
      | none => simp [hp, hq, sameMembers] at h
      | some ws =>
          rw [hp, hq] at h
          exact .some (Value.agreeItems_iff.mp ⟨h, ha.members vs hp, hb.members ws hq⟩)

theorem twin_of_same (h : a.same b = true) (ha : a.Proper) (hb : b.Proper)
    (hunchanged : a.transform = Option.none) : a.Twin b := by
  simp only [same, Bool.and_eq_true, beq_iff_eq] at h
  obtain ⟨⟨⟨⟨⟨⟨⟨⟨⟨⟨⟨⟨⟨⟨hkind, hrequired⟩, hdefault⟩, -⟩, -⟩, hminimum⟩, hmaximum⟩, hminLength⟩,
    hmaxLength⟩, hminItems⟩, hmaxItems⟩, hunique⟩, hpattern⟩, hmembers⟩, htransform⟩ := h
  refine
    { kind := hkind
      required := hrequired
      default := Value.agree_of_sameOption hdefault ha.default hb.default
      minimum := Value.rel_of_sameOption hminimum
      maximum := Value.rel_of_sameOption hmaximum
      minLength := hminLength
      maxLength := hmaxLength
      minItems := hminItems
      maxItems := hmaxItems
      uniqueItems := hunique
      pattern := pattern_eq_of_same hpattern ha hb
      members := members_of_same hmembers ha hb
      unchanged := ⟨hunchanged, ?_⟩ }
  rw [hunchanged] at htransform
  cases hd : b.transform with
  | none => rfl
  | some d => simp [hd, sameDirective] at htransform

namespace Twin

variable {v w : Value}

theorem accepts_iff (h : a.Twin b) (hvw : v.Agree w) : a.AcceptsKind v ↔ b.AcceptsKind w := by
  rw [AcceptsKind, AcceptsKind, h.kind, hvw.kind_eq, hvw.isWhole_eq]

theorem isUntyped_eq (h : a.Twin b) : a.isUntyped = b.isUntyped := by
  rw [isUntyped, isUntyped, h.kind]

theorem requiresValue_eq (h : a.Twin b) : a.requiresValue = b.requiresValue := by
  rw [requiresValue, requiresValue, h.required]

theorem settle (h : a.Twin b) (hvw : v.Agree w) :
    (a.settle v = .ok v ∧ b.settle w = .ok w)
      ∨ ∃ e e', a.settle v = .error e ∧ b.settle w = .error e' := by
  by_cases haccepts : a.AcceptsKind v
  · exact .inl ⟨settle_of_accepts haccepts, settle_of_accepts ((h.accepts_iff hvw).mp haccepts)⟩
  · obtain ⟨why, hv⟩ := settle_of_not_accepts h.unchanged.1 haccepts
    obtain ⟨why', hw⟩ := settle_of_not_accepts h.unchanged.2 (mt (h.accepts_iff hvw).mpr haccepts)
    exact .inr ⟨_, _, hv, hw⟩

end Twin

end Keywords

namespace Node

variable {n m : Node} {here : Location}

structure Twin (n m : Node) : Prop where
  same : n.same m = true
  left : n.normalize = n
  right : m.normalize = m
  unchanged : ∀ k, Within k n → k.own.transform = none
  properLeft : ∀ k, Within k n → k.own.Proper
  properRight : ∀ k, Within k m → k.own.Proper

theorem sameNamed_iff {ps qs : List (String × Node)} :
    sameNamed ps qs = true ↔
      ∀ p ∈ ps, ∃ d, Fields.get? qs p.1 = some d ∧ p.2.same d = true := by
  induction ps with
  | nil => simp [sameNamed]
  | cons p ps ih =>
      obtain ⟨name, c⟩ := p
      rw [sameNamed, Bool.and_eq_true, ih, List.forall_mem_cons]
      cases Fields.get? qs name <;> simp

theorem sameAll_iff {ns ms : List Node} :
    sameAll ns ms = true ↔ List.Forall₂ (fun c d => c.same d = true) ns ms := by
  induction ns generalizing ms with
  | nil => cases ms <;> simp [sameAll]
  | cons c ns ih => cases ms <;> simp [sameAll, ih]

theorem same_iff (n m : Node) :
    n.same m = true ↔ n.own.same m.own = true ∧ sameProperties n.properties m.properties = true
      ∧ sameItems n.items m.items = true ∧ sameAdditional n.additional m.additional = true
      ∧ sameBranches n.anyOf m.anyOf = true ∧ sameBranches n.allOf m.allOf = true
      ∧ sameBranches n.oneOf m.oneOf = true ∧ sameBranches n.noneOf m.noneOf = true := by
  obtain ⟨own, properties, items, additional, anyOf, allOf, oneOf, noneOf⟩ := n
  rw [Node.same.eq_def]
  simp only [Bool.and_eq_true, and_assoc]

namespace Twin

theorem child {c d : Node} (h : Twin n m) (hc : c.Child n) (hd : d.Child m)
    (hsame : c.same d = true) : Twin c d where
  same := hsame
  left := hc.normal h.left
  right := hd.normal h.right
  unchanged k hk := h.unchanged k (.under hk hc)
  properLeft k hk := h.properLeft k (.under hk hc)
  properRight k hk := h.properRight k (.under hk hd)

theorem own (h : Twin n m) : n.own.Twin m.own :=
  Keywords.twin_of_same ((same_iff n m).mp h.same).1 (h.properLeft n (.self n))
    (h.properRight m (.self m)) (h.unchanged n (.self n))

theorem properties (h : Twin n m) :
    (n.properties = none ∧ m.properties = none)
      ∨ ∃ ps qs, n.properties = some ps ∧ m.properties = some qs ∧ Fields.Rel Twin ps qs := by
  have hsame := ((same_iff n m).mp h.same).2.1
  cases hps : n.properties with
  | none =>
      cases hqs : m.properties with
      | none => exact .inl ⟨rfl, rfl⟩
      | some qs => simp [hps, hqs, sameProperties] at hsame
  | some ps =>
      cases hqs : m.properties with
      | none => simp [hps, hqs, sameProperties] at hsame
      | some qs =>
          simp only [hps, hqs, sameProperties, Bool.and_eq_true, beq_iff_eq, sameNamed_iff]
            at hsame
          have hrel : Fields.Rel (fun c d => c.same d = true) ps qs :=
            (Fields.rel_iff (keys_nodup_of_normal h.left hps)
              (keys_nodup_of_normal h.right hqs)).mpr hsame
          refine .inr ⟨ps, qs, rfl, rfl, hrel.imp fun name c d hc hd hcd => ?_⟩
          exact h.child (.property hps hc) (.property hqs hd) hcd

theorem items (h : Twin n m) : Option.Rel Twin n.items m.items := by
  have hsame := ((same_iff n m).mp h.same).2.2.1
  cases hc : n.items with
  | none =>
      cases hd : m.items with
      | none => exact .none
      | some d => simp [hc, hd, sameItems] at hsame
  | some c =>
      cases hd : m.items with
      | none => simp [hc, hd, sameItems] at hsame
      | some d =>
          rw [hc, hd, sameItems] at hsame
          exact .some (h.child (.items hc) (.items hd) hsame)

theorem additional (h : Twin n m) :
    (n.additional = none ∧ m.additional = none)
      ∨ (∃ b, n.additional = some (.allowed b) ∧ m.additional = some (.allowed b))
      ∨ ∃ c d, n.additional = some (.schema c) ∧ m.additional = some (.schema d) ∧ Twin c d := by
  have hsame := ((same_iff n m).mp h.same).2.2.2.1
  rcases hc : n.additional with _ | _ | c <;> rcases hd : m.additional with _ | _ | d <;>
    simp only [hc, hd, sameAdditional, beq_iff_eq, Bool.false_eq_true] at hsame
  · exact .inl ⟨rfl, rfl⟩
  · subst hsame
    exact .inr (.inl ⟨_, rfl, rfl⟩)
  · exact .inr (.inr ⟨c, d, rfl, rfl, h.child (.extra hc) (.extra hd) hsame⟩)

theorem branches (h : Twin n m) (operator : Keyword) :
    List.Forall₂ (fun c d => c.Child n ∧ Twin c d) ((n.branches operator).getD [])
      ((m.branches operator).getD []) := by
  have hsame : sameBranches (n.branches operator) (m.branches operator) = true := by
    obtain ⟨-, -, -, -, hany, hall, hone, hnone⟩ := (same_iff n m).mp h.same
    cases operator <;> simp only [Node.branches, sameBranches, hany, hall, hone, hnone]
  cases hns : n.branches operator with
  | none =>
      cases hms : m.branches operator with
      | none => exact .nil
      | some ms => simp [hns, hms, sameBranches] at hsame
  | some ns =>
      cases hms : m.branches operator with
      | none => simp [hns, hms, sameBranches] at hsame
      | some ms =>
          rw [hns, hms, sameBranches, sameAll_iff] at hsame
          refine List.forall₂_iff_zip.mpr ⟨hsame.length_eq, fun hmem => ?_⟩
          obtain ⟨hc, hd⟩ := List.of_mem_zip hmem
          exact ⟨.branch hns hc,
            h.child (.branch hns hc) (.branch hms hd) (List.forall₂_zip hsame hmem)⟩

theorem declares_eq (h : Twin n m) (name : String) : n.declares name = m.declares name := by
  rcases h.properties with ⟨hps, hqs⟩ | ⟨ps, qs, hps, hqs, hrel⟩
  · rw [declares, declares, hps, hqs]
  · rw [declares, declares, hps, hqs]
    exact hrel.has_eq name

end Twin

section Checks

variable {fs gs : Fields Value} {vs ws : List Value} {v w : Value}

theorem marks_ite {p q : Prop} [Decidable p] [Decidable q] (h : p ↔ q) (n m : Node)
    (here : Location) (keyword : Keyword) (a b : String) :
    marks (if p then [n.violation here keyword a] else []) =
      marks (if q then [m.violation here keyword b] else []) := by
  by_cases hp : p
  · rw [if_pos hp, if_pos (h.mp hp)]
    rfl
  · rw [if_neg hp, if_neg (mt h.mpr hp)]

theorem marks_missingValue (h : Twin n m) (here : Location) :
    marks (n.missingValue here) = marks (m.missingValue here) :=
  marks_ite (by rw [requiresValue, requiresValue, h.own.requiresValue_eq]) n m here _ _ _

theorem marks_missingNames (h : Twin n m) (here : Location) (hfs : Fields.Rel Value.Agree fs gs) :
    marks (n.missingNames here fs) = marks (m.missingNames here gs) := by
  unfold missingNames
  rw [← h.own.required]
  split
  · next ns _ =>
      have hfilter : ns.filter (!Fields.has fs ·) = ns.filter (!Fields.has gs ·) :=
        List.filter_congr fun name _ => by rw [hfs.has_eq]
      rw [hfilter]
      split <;> rfl
  · rfl

theorem marks_undeclared (h : Twin n m) (here : Location) (hfs : Fields.Rel Value.Agree fs gs) :
    (marks (n.undeclared here fs)).Perm (marks (m.undeclared here gs)) := by
  have hperm := (hfs.keys_perm.filter (!n.declares ·)).map
    fun _ => (here.propertyPath, here.keywordPath .additionalProperties, Keyword.additionalProperties)
  have hfilter : (Fields.keys gs).filter (!n.declares ·) = (Fields.keys gs).filter (!m.declares ·) :=
    List.filter_congr fun name _ => by rw [h.declares_eq]
  rw [hfilter] at hperm
  rw [marks, marks, undeclared, undeclared, List.map_map, List.map_map]
  exact hperm

theorem pairwise_iff_of_agree (h : List.Forall₂ Value.Agree vs ws) :
    vs.Pairwise (fun a b => a.alike b = false) ↔ ws.Pairwise fun a b => a.alike b = false := by
  induction h with
  | nil => simp
  | @cons a b vs ws hab hrest ih =>
      have hany : vs.any (a.alike ·) = ws.any (b.alike ·) :=
        any_eq_of_forall₂ hrest fun _ _ => Value.alike_eq_of_agree hab
      have hall (c : Value) (us : List Value) :
          (∀ u ∈ us, c.alike u = false) ↔ us.any (c.alike ·) = false := by simp
      rw [List.pairwise_cons, List.pairwise_cons, hall, hall, hany, ih]

theorem marks_tooFewItems (h : Twin n m) (here : Location) (hlength : vs.length = ws.length) :
    marks (n.tooFewItems here vs) = marks (m.tooFewItems here ws) := by
  unfold tooFewItems
  rw [← h.own.minItems, hlength]
  cases n.own.minItems with
  | none => rfl
  | some least => exact marks_ite .rfl n m here _ _ _

theorem marks_tooManyItems (h : Twin n m) (here : Location) (hlength : vs.length = ws.length) :
    marks (n.tooManyItems here vs) = marks (m.tooManyItems here ws) := by
  unfold tooManyItems
  rw [← h.own.maxItems, hlength]
  cases n.own.maxItems with
  | none => rfl
  | some most => exact marks_ite .rfl n m here _ _ _

theorem marks_repeatedItems (h : Twin n m) (here : Location)
    (hvs : List.Forall₂ Value.Agree vs ws) :
    marks (n.repeatedItems here vs) = marks (m.repeatedItems here ws) := by
  have hnil : duplicated vs = [] ↔ duplicated ws = [] := by
    rw [duplicated_eq_nil_iff, duplicated_eq_nil_iff, pairwise_iff_of_agree hvs]
  unfold repeatedItems
  rw [← h.own.uniqueItems]
  cases hd : duplicated vs with
  | nil => rw [hnil.mp hd]
  | cons d ds =>
      cases hd' : duplicated ws with
      | nil => simp [hnil.mpr hd'] at hd
      | cons d' ds' => split <;> rfl

theorem marks_arrayViolations (h : Twin n m) (here : Location)
    (hvs : List.Forall₂ Value.Agree vs ws) :
    marks (n.arrayViolations here vs) = marks (m.arrayViolations here ws) := by
  rw [arrayViolations, arrayViolations, marks_append, marks_append, marks_append, marks_append,
    marks_tooFewItems h here hvs.length_eq, marks_tooManyItems h here hvs.length_eq,
    marks_repeatedItems h here hvs]

theorem lessThan_of_container {u : Value} (h : v.isContainer = true) :
    v.lessThan u = false ∧ u.lessThan v = false := by
  cases v with
  | array | object => cases u <;> exact ⟨rfl, rfl⟩
  | _ => cases h

theorem lessThan_eq {u : Value} (h : v.same w = true) :
    v.lessThan u = w.lessThan u ∧ u.lessThan v = u.lessThan w := by
  cases hv : v.isContainer with
  | true =>
      have hw : w.isContainer = true := (Value.isContainer_eq_of_same h).symm.trans hv
      rw [(lessThan_of_container hv).1, (lessThan_of_container hv).2,
        (lessThan_of_container hw).1, (lessThan_of_container hw).2]
      exact ⟨rfl, rfl⟩
  | false =>
      obtain rfl | ⟨a, b, rfl, rfl, hab⟩ := Value.scalar_of_same h hv
      · exact ⟨rfl, rfl⟩
      · have hsigned := Number.signed_of_same hab
        cases u with
        | number c => simp only [Value.lessThan, Double.less, hsigned, and_self]
        | _ => exact ⟨rfl, rfl⟩

theorem marks_wrongLength (h : Twin n m) (here : Location) (hvw : v.Agree w) :
    marks (n.wrongLength here v) = marks (m.wrongLength here w) := by
  rcases hvw.string_cases with ⟨s, rfl, rfl⟩ | ⟨hv, hw⟩
  · rw [wrongLength, wrongLength, ← h.own.maxLength, ← h.own.minLength, marks_append, marks_append]
    congr 1
    · cases n.own.maxLength with
      | none => rfl
      | some most => exact marks_ite .rfl n m here _ _ _
    · cases n.own.minLength with
      | none => rfl
      | some least => exact marks_ite .rfl n m here _ _ _
  · have hleft : n.wrongLength here v = [] :=
      (wrongLength_eq_nil_iff n here v).mpr ⟨fun s hs => absurd hs (hv s), fun s hs => absurd hs (hv s)⟩
    have hright : m.wrongLength here w = [] :=
      (wrongLength_eq_nil_iff m here w).mpr ⟨fun s hs => absurd hs (hw s), fun s hs => absurd hs (hw s)⟩
    rw [hleft, hright]

theorem marks_offPattern (h : Twin n m) (here : Location) (hvw : v.Agree w) :
    marks (n.offPattern here v) = marks (m.offPattern here w) := by
  rcases hvw.string_cases with ⟨s, rfl, rfl⟩ | ⟨hv, hw⟩
  · rw [offPattern, offPattern, ← h.own.pattern]
    cases n.own.pattern with
    | none => rfl
    | some p =>
        simp only
        split <;> rfl
  · have hleft : n.offPattern here v = [] :=
      (offPattern_eq_nil_iff n here v).mpr fun s hs => absurd hs (hv s)
    have hright : m.offPattern here w = [] :=
      (offPattern_eq_nil_iff m here w).mpr fun s hs => absurd hs (hw s)
    rw [hleft, hright]

theorem marks_belowMinimum (h : Twin n m) (here : Location) (hvw : v.Agree w) :
    marks (n.belowMinimum here v) = marks (m.belowMinimum here w) := by
  unfold belowMinimum
  have hbound := h.own.minimum
  generalize n.own.minimum = least, m.own.minimum = least' at hbound ⊢
  cases hbound with
  | none => rfl
  | some hsame =>
      exact marks_ite (by rw [(lessThan_eq hvw.same).1, (lessThan_eq hsame).2]) n m here _ _ _

theorem marks_aboveMaximum (h : Twin n m) (here : Location) (hvw : v.Agree w) :
    marks (n.aboveMaximum here v) = marks (m.aboveMaximum here w) := by
  unfold aboveMaximum
  have hbound := h.own.maximum
  generalize n.own.maximum = most, m.own.maximum = most' at hbound ⊢
  cases hbound with
  | none => rfl
  | some hsame =>
      exact marks_ite (by rw [(lessThan_eq hvw.same).2, (lessThan_eq hsame).1]) n m here _ _ _

theorem marks_notMember (h : Twin n m) (here : Location) (hvw : v.Agree w) :
    marks (n.notMember here v) = marks (m.notMember here w) := by
  unfold notMember
  have hmembers := h.own.members
  generalize n.own.members = ms, m.own.members = ms' at hmembers ⊢
  cases hmembers with
  | none => rfl
  | some hms =>
      have hany := any_eq_of_forall₂ hms fun _ _ hab => Value.alike_eq_of_agree hab hvw
      simp only [hany]
      split <;> rfl

theorem marks_scalarViolations (h : Twin n m) (here : Location) (hvw : v.Agree w) :
    marks (n.scalarViolations here v) = marks (m.scalarViolations here w) := by
  simp only [scalarViolations, marks_append, marks_wrongLength h here hvw,
    marks_belowMinimum h here hvw, marks_aboveMaximum h here hvw, marks_offPattern h here hvw,
    marks_notMember h here hvw]

theorem marks_branchViolations (h : Twin n m) (here : Location) (hvw : v.Agree w)
    (anys nones alls ones : List Bool) :
    marks (n.branchViolations here v anys nones alls ones) =
      marks (m.branchViolations here w anys nones alls ones) := by
  have hany : marks (n.unmatchedAny here anys) = marks (m.unmatchedAny here anys) := by
    unfold unmatchedAny
    split <;> rfl
  have hnone : marks (n.matchedNone here nones) = marks (m.matchedNone here nones) := by
    unfold matchedNone
    split <;> rfl
  have hall : marks (n.unmatchedAll here alls) = marks (m.unmatchedAll here alls) := by
    unfold unmatchedAll
    split <;> rfl
  have hone : marks (n.unmatchedOne here ones) = marks (m.unmatchedOne here ones) := by
    unfold unmatchedOne
    split
    · rfl
    · split <;> rfl
  rw [branchViolations, branchViolations, h.own.isUntyped_eq, hvw.isArray_eq]
  split
  · simp only [marks_append, hany, hnone, hall, hone]
  · rfl

end Checks

end Node

end CheckedConfig
