import CheckedConfig.Validation.Walk

namespace CheckedConfig

namespace Keywords

def AcceptsKind (own : Keywords) (v : Value) : Prop :=
  ∀ s, own.kind = some s →
    s.has .any = true ∨ s.has (Kind.of v) = true ∨ (s.has .integer = true ∧ v.isWhole = true)

def NamesPresent (own : Keywords) (fs : Fields Value) : Prop :=
  ∀ ns, own.required = some (.names ns) → ∀ name ∈ ns, fs.has name = true

structure ItemsFit (own : Keywords) (vs : List Value) : Prop where
  atLeast : ∀ least, own.minItems = some least → least ≤ vs.length
  atMost : ∀ most, own.maxItems = some most → vs.length ≤ most
  unique : own.uniqueItems = true → vs.Pairwise fun a b => a.alike b = false

structure ScalarFits (own : Keywords) (v : Value) : Prop where
  notLonger : ∀ s, v = .string s → ∀ most, own.maxLength = some most → s.length ≤ most
  notShorter : ∀ s, v = .string s → ∀ least, own.minLength = some least → least ≤ s.length
  notLess : ∀ least, own.minimum = some least → v.lessThan least = false
  notGreater : ∀ most, own.maximum = some most → most.lessThan v = false
  matching : ∀ s, v = .string s → ∀ p, own.pattern = some p → p.matchesText s = true
  member : ∀ ms, own.members = some ms → ∃ m ∈ ms, m.alike v = true

theorem kind_of_isWhole {v : Value} (h : v.isWhole = true) : Kind.of v = .number := by
  cases v <;> simp_all [Value.isWhole, Kind.of]

theorem inspect_one_ok_iff (own : Keywords) (v : Value) {wanted : Kind}
    (hk : own.kind = some (.one wanted)) :
    (∃ k, own.inspect v = .ok k) ↔
      .any = wanted ∨ Kind.of v = wanted ∨ (.integer = wanted ∧ v.isWhole = true) := by
  by_cases hany : Kind.any = wanted
  · simp [inspect, hk, KindSet.acceptsAny, KindSet.has, KindSet.kinds, hany]
  · by_cases hint : Kind.integer = wanted ∧ v.isWhole = true
    · simp [inspect, hk, KindSet.acceptsAny, KindSet.has, KindSet.kinds, ← hint.1, hint.2]
    · have hfound : (if wanted == .integer && v.isWhole then Kind.integer else Kind.of v)
          = Kind.of v := by simpa using fun h hw => absurd ⟨h.symm, hw⟩ hint
      simp only [inspect, hk, KindSet.acceptsAny, KindSet.has, KindSet.kinds, hfound]
      by_cases heq : Kind.of v = wanted
      · simp [heq]
      · simp [heq, hany, hint]

theorem inspect_many_ok_iff (own : Keywords) (v : Value) {ks : List Kind}
    (hk : own.kind = some (.many ks)) :
    (∃ k, own.inspect v = .ok k) ↔
      .any ∈ ks ∨ Kind.of v ∈ ks ∨ (.integer ∈ ks ∧ v.isWhole = true) := by
  by_cases hany : Kind.any ∈ ks
  · simp [inspect, hk, KindSet.acceptsAny, KindSet.has, KindSet.kinds, hany]
  · by_cases hmem : Kind.of v ∈ ks
    · simp [inspect, hk, KindSet.acceptsAny, KindSet.has, KindSet.kinds, hany, hmem]
    · by_cases hint : Kind.integer ∈ ks ∧ v.isWhole = true
      · have hnum := kind_of_isWhole hint.2
        rw [hnum] at hmem
        simp [inspect, hk, KindSet.acceptsAny, KindSet.has, KindSet.kinds, hany, hnum, hmem, hint]
      · have hno : ¬ ((Kind.of v = .number ∧ Kind.integer ∈ ks) ∧ v.isWhole = true) :=
          fun h => hint ⟨h.1.2, h.2⟩
        simp [inspect, hk, KindSet.acceptsAny, KindSet.has, KindSet.kinds, hany, hmem, hno, hint]

theorem inspect_ok_iff (own : Keywords) (v : Value) :
    (∃ k, own.inspect v = .ok k) ↔ own.AcceptsKind v := by
  cases hk : own.kind with
  | none => simp [inspect, AcceptsKind, hk]
  | some s =>
      cases s with
      | one wanted =>
          rw [inspect_one_ok_iff own v hk]
          simp [AcceptsKind, hk, KindSet.has, KindSet.kinds]
      | many ks =>
          rw [inspect_many_ok_iff own v hk]
          simp [AcceptsKind, hk, KindSet.has, KindSet.kinds]

theorem settle_of_accepts {own : Keywords} {v : Value} (h : own.AcceptsKind v) :
    own.settle v = .ok v := by
  obtain ⟨k, hk⟩ := (own.inspect_ok_iff v).mpr h
  simp [settle, hk]

theorem made_of_coerce {own : Keywords} {v w : Value} (h : own.coerce v = .ok w) :
    own.AcceptsKind w ∧ ∃ d, own.transform = some d ∧ (d.apply v own.kind).value = some w := by
  unfold coerce at h
  cases hd : own.transform with
  | none => simp [hd] at h
  | some d =>
      cases hu : (d.apply v own.kind).value with
      | none => simp [hd, hu] at h
      | some u =>
          cases hk : own.inspect u with
          | error why => simp [hd, hu, hk] at h
          | ok k =>
              simp only [hd, hu, hk, Except.ok.injEq] at h
              subst h
              exact ⟨(own.inspect_ok_iff u).mp ⟨k, hk⟩, d, rfl, hu⟩

theorem kept_or_made_of_settle {own : Keywords} {v w : Value} (h : own.settle v = .ok w) :
    own.AcceptsKind w
      ∧ (w = v ∨ ∃ d, own.transform = some d ∧ (d.apply v own.kind).value = some w) := by
  unfold settle at h
  cases hv : own.inspect v with
  | ok k =>
      simp only [hv, Except.ok.injEq] at h
      subst h
      exact ⟨(own.inspect_ok_iff v).mp ⟨k, hv⟩, .inl rfl⟩
  | error why =>
      cases hc : own.coerce v with
      | error rs =>
          simp only [hv, hc] at h
          cases h
      | ok u =>
          simp only [hv, hc] at h
          cases h
          exact (made_of_coerce hc).imp_right .inr

theorem accepts_of_settle {own : Keywords} {v w : Value} (h : own.settle v = .ok w) :
    own.AcceptsKind w :=
  (kept_or_made_of_settle h).1

theorem settle_of_not_accepts {own : Keywords} {v : Value} (ht : own.transform = Option.none)
    (h : ¬ own.AcceptsKind v) : ∃ why, own.settle v = .error (why, []) := by
  cases hi : own.inspect v with
  | ok k => exact absurd ((own.inspect_ok_iff v).mp ⟨k, hi⟩) h
  | error why =>
      have hc : own.coerce v = .error [] := by rw [coerce, ht]
      refine ⟨why, ?_⟩
      rw [settle, hi, hc]
      rfl

end Keywords

theorem found_mem_repeats (earlier found vs : List Value) {v : Value} (h : v ∈ found) :
    v ∈ repeats earlier found vs := by
  induction vs generalizing earlier found with
  | nil => simpa [repeats] using h
  | cons w vs ih =>
      simp only [repeats]
      split
      · exact ih (w :: earlier) (w :: found) (List.mem_cons_of_mem _ h)
      · exact ih (w :: earlier) found h

theorem repeats_eq_nil_iff (earlier vs : List Value) :
    repeats earlier [] vs = [] ↔
      (∀ e ∈ earlier, ∀ v ∈ vs, e.alike v = false)
        ∧ vs.Pairwise fun a b => a.alike b = false := by
  induction vs generalizing earlier with
  | nil => simp [repeats]
  | cons v vs ih =>
      simp only [repeats, List.any_nil, Bool.not_false, Bool.and_true]
      by_cases hany : earlier.any (·.alike v) = true
      · obtain ⟨e, he, hv⟩ := List.any_eq_true.mp hany
        have hne : repeats (v :: earlier) [v] vs ≠ [] :=
          List.ne_nil_of_mem (found_mem_repeats (v :: earlier) [v] vs (List.mem_singleton_self v))
        refine ⟨fun h => absurd (by simpa [hany] using h) hne, fun h => ?_⟩
        have hno := h.1 e he v (List.mem_cons_self ..)
        exact absurd hv (by simp [hno])
      · have hall : ∀ e ∈ earlier, e.alike v = false := by simpa using hany
        rw [if_neg hany, ih]
        simp only [List.forall_mem_cons, List.pairwise_cons]
        constructor
        · intro h
          exact ⟨fun e he => ⟨hall e he, h.1.2 e he⟩, h.1.1, h.2⟩
        · intro h
          exact ⟨⟨h.2.1, fun e he => (h.1 e he).2⟩, h.2.2⟩

theorem duplicated_eq_nil_iff (vs : List Value) :
    duplicated vs = [] ↔ vs.Pairwise fun a b => a.alike b = false := by
  simp [duplicated, repeats_eq_nil_iff]

namespace Node

theorem missingNames_eq_nil_iff (n : Node) (here : Location) (fs : Fields Value) :
    n.missingNames here fs = [] ↔ n.own.NamesPresent fs := by
  unfold missingNames Keywords.NamesPresent
  cases n.own.required with
  | none => simp
  | some r =>
      cases r with
      | flag b => simp
      | names ns =>
          have hfilter : ns.filter (!fs.has ·) = [] ↔ ∀ name ∈ ns, fs.has name = true := by
            simp [List.filter_eq_nil_iff]
          cases hm : ns.filter (!fs.has ·) with
          | nil => simpa [hm] using hfilter.mp hm
          | cons m ms => simpa [hm] using hfilter

theorem undeclared_eq_nil_iff (n : Node) (here : Location) (fs : Fields Value) :
    n.undeclared here fs = [] ↔ ∀ name ∈ fs.keys, n.declares name = true := by
  simp [undeclared, List.filter_eq_nil_iff]

theorem missingValue_eq_nil_iff (n : Node) (here : Location) :
    n.missingValue here = [] ↔ n.requiresValue = false := by
  simp [missingValue]

theorem tooFewItems_eq_nil_iff (n : Node) (here : Location) (vs : List Value) :
    n.tooFewItems here vs = [] ↔ ∀ least, n.own.minItems = some least → least ≤ vs.length := by
  unfold tooFewItems
  cases n.own.minItems <;> simp

theorem tooManyItems_eq_nil_iff (n : Node) (here : Location) (vs : List Value) :
    n.tooManyItems here vs = [] ↔ ∀ most, n.own.maxItems = some most → vs.length ≤ most := by
  unfold tooManyItems
  cases n.own.maxItems <;> simp

theorem repeatedItems_eq_nil_iff (n : Node) (here : Location) (vs : List Value) :
    n.repeatedItems here vs = [] ↔
      (n.own.uniqueItems = true → vs.Pairwise fun a b => a.alike b = false) := by
  unfold repeatedItems
  rw [← duplicated_eq_nil_iff]
  by_cases hu : n.own.uniqueItems = true
  · cases duplicated vs <;> simp [hu]
  · simp [hu]

theorem wrongLength_eq_nil_iff (n : Node) (here : Location) (v : Value) :
    n.wrongLength here v = [] ↔
      (∀ s, v = .string s → ∀ most, n.own.maxLength = some most → s.length ≤ most)
        ∧ ∀ s, v = .string s → ∀ least, n.own.minLength = some least → least ≤ s.length := by
  unfold wrongLength
  cases v with
  | string s => cases n.own.maxLength <;> cases n.own.minLength <;> simp
  | _ => simp

theorem belowMinimum_eq_nil_iff (n : Node) (here : Location) (v : Value) :
    n.belowMinimum here v = [] ↔
      ∀ least, n.own.minimum = some least → v.lessThan least = false := by
  unfold belowMinimum
  cases n.own.minimum <;> simp

theorem aboveMaximum_eq_nil_iff (n : Node) (here : Location) (v : Value) :
    n.aboveMaximum here v = [] ↔
      ∀ most, n.own.maximum = some most → most.lessThan v = false := by
  unfold aboveMaximum
  cases n.own.maximum <;> simp

theorem offPattern_eq_nil_iff (n : Node) (here : Location) (v : Value) :
    n.offPattern here v = [] ↔
      ∀ s, v = .string s → ∀ p, n.own.pattern = some p → p.matchesText s = true := by
  unfold offPattern
  cases v with
  | string s => cases n.own.pattern <;> simp
  | _ => simp

theorem notMember_eq_nil_iff (n : Node) (here : Location) (v : Value) :
    n.notMember here v = [] ↔ ∀ ms, n.own.members = some ms → ∃ m ∈ ms, m.alike v = true := by
  unfold notMember
  cases n.own.members <;> simp

theorem scalarViolations_eq_nil_iff (n : Node) (here : Location) (v : Value) :
    n.scalarViolations here v = [] ↔ n.own.ScalarFits v := by
  simp only [scalarViolations, List.append_eq_nil_iff, wrongLength_eq_nil_iff,
    belowMinimum_eq_nil_iff, aboveMaximum_eq_nil_iff, offPattern_eq_nil_iff, notMember_eq_nil_iff]
  constructor
  · rintro ⟨⟨⟨⟨⟨hlong, hshort⟩, hless⟩, hgreater⟩, hpattern⟩, hmember⟩
    exact ⟨hlong, hshort, hless, hgreater, hpattern, hmember⟩
  · rintro ⟨hlong, hshort, hless, hgreater, hpattern, hmember⟩
    exact ⟨⟨⟨⟨⟨hlong, hshort⟩, hless⟩, hgreater⟩, hpattern⟩, hmember⟩

end Node

end CheckedConfig
