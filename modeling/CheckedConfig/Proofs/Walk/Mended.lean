import CheckedConfig.Proofs.Coercion
import CheckedConfig.Proofs.Walk.Kept
import CheckedConfig.Proofs.Walk.Places

namespace CheckedConfig

namespace Keywords

variable {own : Keywords} {s : KindSet} {v w : Value}

theorem accepts_of_replacement {t : Transformer} (ht : t ∈ Transformer.builtins)
    (hkind : own.kind = some s) (houtput : s.has t.output = true) {target : Option KindSet}
    (hrun : t.run v target = .replace w) : own.AcceptsKind w := by
  intro s' hs'
  obtain rfl := Option.some.inj (hkind.symm.trans hs')
  rcases Transformer.output_of_replacement ht hrun with hw | ⟨hinteger, hwhole⟩
  · exact .inr (.inl (hw ▸ houtput))
  · exact .inr (.inr ⟨hinteger ▸ houtput, hwhole⟩)

theorem inspect_of_inferred (hkind : own.kind = some s)
    (h : (Directive.infer.apply v (some s)).value = some w) : ∃ k, own.inspect w = .ok k := by
  obtain ⟨t, ht, hrun⟩ := Directive.replaced_of_attempt h
  obtain ⟨hbuiltin, houtput, -⟩ := Directive.mem_candidates.mp ht
  exact (own.inspect_ok_iff w).mpr (accepts_of_replacement hbuiltin hkind houtput hrun)

variable {why : String}

theorem settle_of_inferred (hkind : own.kind = some s) (htransform : own.transform = some .infer)
    (hv : own.inspect v = .error why)
    (h : (Directive.infer.apply v (some s)).value = some w) : own.settle v = .ok w := by
  obtain ⟨k, hk⟩ := inspect_of_inferred hkind h
  have hcoerce : own.coerce v = .ok w := by simp only [coerce, htransform, hkind, h, hk]
  rw [settle, hv, hcoerce]
  rfl

theorem settle_of_none_inferred (hkind : own.kind = some s)
    (htransform : own.transform = some .infer) (hv : own.inspect v = .error why)
    (h : ∀ t ∈ Directive.candidates (some s) (Kind.of v), ∀ w, t.run v (some s) ≠ .replace w) :
    own.settle v = .error
      (why, (Directive.candidates (some s) (Kind.of v)).filterMap (·.refusal? v (some s))) := by
  have happly := Directive.attempt_of_none_replaces h
  have hcoerce : own.coerce v = .error
      ((Directive.candidates (some s) (Kind.of v)).filterMap (·.refusal? v (some s))) := by
    simp only [coerce, htransform, hkind, Directive.apply, happly]
  rw [settle, hv, hcoerce]
  rfl

end Keywords

abbrev Walk.Says {α : Type} (said : Violation → Prop) (w : Walk α) : Prop :=
  w.Keeps (fun _ => True) said fun _ => True

namespace Node

variable {n : Node} {here : Location} {strict : Bool} {chain : List Interceptor}

def SaysFurther (n : Node) (here : Location) (u : Violation) : Prop :=
  n.Notes here u ∧ u.keyword ≠ .type ∨ ∃ w, here.GoesOn w u.path

namespace SaysFurther

variable {u : Violation}

theorem reaches (h : n.SaysFurther here u) : here.Reaches u.path := by
  rcases h with ⟨hnotes, -⟩ | ⟨w, hgoes⟩
  · exact hnotes.reports.path ▸ .refl here
  · exact hgoes.reaches

theorem path_ne (h : n.SaysFurther here u) (htype : u.keyword = .type) :
    u.path ≠ here.propertyPath := by
  rcases h with ⟨-, hother⟩ | ⟨w, hgoes⟩
  · exact absurd htype hother
  · intro heq
    have hlt := hgoes.length_lt
    rw [heq] at hlt
    exact Nat.lt_irrefl _ hlt

theorem of_mem_missingNames {fs : Fields Value} (h : u ∈ n.missingNames here fs) :
    n.SaysFurther here u := by
  refine .inl ⟨notes_of_mem_missingNames h, ?_⟩
  rw [keyword_of_mem_missingNames h]
  decide

theorem of_mem_undeclared {fs : Fields Value} (h : u ∈ n.undeclared here fs) :
    n.SaysFurther here u := by
  refine .inl ⟨notes_of_mem_undeclared h, ?_⟩
  rw [keyword_of_mem_undeclared h]
  decide

theorem of_mem_arrayViolations {vs : List Value} (h : u ∈ n.arrayViolations here vs) :
    n.SaysFurther here u := by
  have hkeyword := keyword_of_mem_arrayViolations h
  refine .inl ⟨?_, fun htype => ?_⟩
  · simp only [arrayViolations, List.mem_append] at h
    rcases h with (h | h) | h
    · exact notes_of_mem_tooFewItems h
    · exact notes_of_mem_tooManyItems h
    · exact notes_of_mem_repeatedItems h
  · rw [htype] at hkeyword
    exact absurd hkeyword (by decide)

theorem of_mem_scalarViolations {w : Value} (h : u ∈ n.scalarViolations here w) :
    n.SaysFurther here u := by
  refine .inl ⟨notes_of_mem_scalarViolations h, fun htype => ?_⟩
  have hkeyword := keyword_of_mem_scalarViolations h
  rw [htype] at hkeyword
  exact absurd hkeyword (by decide)

theorem of_operator {operator : Keyword}
    (h : operator ∈ [Keyword.anyOf, .not, .allOf, .oneOf]) (message : String) :
    n.SaysFurther here (n.violation here operator message) := by
  refine .inl ⟨⟨operator, message, rfl⟩, ?_⟩
  rintro rfl
  exact absurd h (by decide)

end SaysFurther

def Onward (chain : List Interceptor) (n : Node) : Prop :=
  ∀ strict origin here, (n.walk chain strict origin here).Says fun u => here.Reaches u.path

theorem Onward.further {c : Node} (h : c.Onward chain) {there : Location} {w : Value}
    (hthere : here.GoesOn w there.propertyPath) (origin : Option Value) :
    (c.walk chain strict origin there).Says (n.SaysFurther here) :=
  (h strict origin there).mono (fun _ => id) (fun _ hu => .inr ⟨w, hthere.trans hu⟩) fun _ => id

theorem further_walkNamed {ps : List (String × Node)} (h : ∀ p ∈ ps, p.2.Onward chain)
    (fs : Fields Value) :
    (walkNamed chain ps strict fs here).Says (n.SaysFurther here) := by
  induction ps generalizing fs with
  | nil => exact .pure trivial
  | cons p ps ih =>
      obtain ⟨name, c⟩ := p
      obtain ⟨hc, hrest⟩ := List.forall_mem_cons.mp h
      exact (hc.further (here.goesOn_property name "properties" fs) _).bind fun o _ => ih hrest _

theorem further_walkProperties (h : ∀ c : Node, c.Child n → c.Onward chain) (fs : Fields Value) :
    (walkProperties chain n.properties strict fs here).Says (n.SaysFurther here) := by
  cases hps : n.properties with
  | none => exact .pure trivial
  | some ps => exact further_walkNamed (fun p hp => h p.2 (.property hps hp)) fs

theorem further_walkAdditional (h : ∀ c : Node, c.Child n → c.Onward chain) (fs : Fields Value) :
    (walkAdditional chain n.additional n strict fs here).Says (n.SaysFurther here) := by
  cases hm : n.additional with
  | none => exact .pure trivial
  | some extra =>
      cases extra with
      | schema c =>
          refine (Walk.Keeps.fieldsWhere (Q := fun _ _ => True) (fun _ _ _ => trivial)
            fun p hp _ => ?_).mono (fun _ => id) (fun _ => id) fun _ _ => trivial
          exact (h c (.extra hm)).further (here.goesOn_property p.1 "additionalProperties" fs) _
      | allowed b =>
          cases b with
          | true => exact .pure trivial
          | false =>
              exact (Walk.Keeps.emit fun u => .of_mem_undeclared).bind fun _ _ => .pure trivial

theorem further_walkItems (h : ∀ c : Node, c.Child n → c.Onward chain) (vs : List Value) :
    (walkItems chain n.items strict vs here).Says (n.SaysFurther here) := by
  cases hm : n.items with
  | none => exact .pure trivial
  | some c =>
      refine (Walk.Keeps.itemsFrom (Q := fun _ => True) fun i v _ => ?_).mono (fun _ => id)
        (fun _ => id) fun _ _ => trivial
      exact (h c (.items hm)).further (here.goesOn_index (0 + i) vs) _

theorem further_walkContents (h : ∀ c : Node, c.Child n → c.Onward chain) (w : Value) :
    (n.walkContents chain strict here w).Says (n.SaysFurther here) := by
  cases w with
  | object fs =>
      refine (Walk.Keeps.emit fun u => .of_mem_missingNames).bind fun _ _ => ?_
      refine (further_walkProperties h fs).bind fun gs _ => ?_
      exact (further_walkAdditional h gs).bind fun _ _ => .pure trivial
  | array vs =>
      refine (further_walkItems h vs).bind fun us _ => ?_
      have hown {u : Violation} (hu : u ∈ n.arrayViolations here us) : n.SaysFurther here u :=
        .of_mem_arrayViolations hu
      simp only [arrayViolations, List.mem_append] at hown
      refine (Walk.Keeps.emit fun u hu => hown (.inl (.inl hu))).bind fun _ _ => ?_
      refine (Walk.Keeps.emit fun u hu => hown (.inl (.inr hu))).bind fun _ _ => ?_
      exact (Walk.Keeps.emit fun u hu => hown (.inr hu)).bind fun _ _ => .pure trivial
  | _ => exact (Walk.Keeps.emit fun u => .of_mem_scalarViolations).bind fun _ _ => .pure trivial

theorem further_trials (operator : Keyword) (w : Value) :
    ∀ t ∈ trials chain (n.branches operator) operator w here,
      t.Says (n.SaysFurther here) := by
  intro t ht
  cases hns : n.branches operator with
  | none =>
      rw [hns] at ht
      exact absurd ht List.not_mem_nil
  | some ns =>
      rw [hns] at ht
      obtain ⟨i, c, -, rfl⟩ := mem_trialsFrom ht
      exact ⟨fun _ _ => trivial, fun _ hu => absurd hu List.not_mem_nil, fun _ _ => trivial⟩

theorem further_walkBranches (w : Value) :
    (n.walkBranches chain strict here w).Says (n.SaysFurther here) :=
  keeps_matchBranches (fun _ => SaysFurther.of_operator) (further_trials .anyOf w)
    (further_trials .not w) (further_trials .allOf w) (further_trials .oneOf w)

theorem violations_enter (chain : List Interceptor) (n : Node) (origin : Option Value)
    (here : Location) : (enter chain n origin here).violations = [] := by
  unfold enter
  split <;> rfl

theorem further_walkSettled (h : ∀ c : Node, c.Child n → c.Onward chain) (w : Value) :
    (do
      let u ← n.walkContents chain strict here w
      n.walkBranches chain strict here u
      pure (some u) : Walk (Option Value)).Says (n.SaysFurther here) :=
  (further_walkContents h w).bind fun u _ => (further_walkBranches u).bind fun _ _ => .pure trivial

theorem onward (chain : List Interceptor) (n : Node) : n.Onward chain := by
  induction n using childInduction with
  | step n ih =>
  intro strict origin here
  have henter : (enter chain n origin here).Says fun u => here.Reaches u.path := by
    refine ⟨fun _ _ => trivial, fun u hu => ?_, fun _ _ => trivial⟩
    rw [violations_enter] at hu
    exact absurd hu List.not_mem_nil
  rw [walk_eq]
  refine henter.bind fun given _ => ?_
  cases given with
  | none =>
      refine (Walk.Keeps.emit fun u hu => ?_).bind fun _ _ => .pure trivial
      exact (notes_of_mem_missingValue hu).reports.path ▸ .refl here
  | some v =>
      cases hsettle : n.own.settle v with
      | error e =>
          simp only [hsettle]
          refine (Walk.Keeps.emit fun u hu => ?_).bind fun _ _ => .pure trivial
          rw [List.mem_singleton.mp hu]
          exact .refl here
      | ok w =>
          simp only [hsettle]
          exact (further_walkSettled ih w).mono (fun _ => id) (fun _ => SaysFurther.reaches)
            fun _ => id

variable {origin : Option Value} {v : Value}

theorem further_of_settle (henter : (enter chain n origin here).result = .ok (some v)) {w : Value}
    (hsettle : n.own.settle v = .ok w) :
    ∀ u ∈ (n.walk chain strict origin here).violations, n.SaysFurther here u := by
  rw [walk_eq, Walk.bind_of_ok henter, violations_enter, List.nil_append]
  simp only [hsettle]
  exact (further_walkSettled (fun c _ => onward chain c) w).violations

theorem violations_of_refused (henter : (enter chain n origin here).result = .ok (some v))
    {why : String} {rs : List Refusal} (hsettle : n.own.settle v = .error (why, rs)) :
    (n.walk chain strict origin here).violations = [n.wrongKind here why rs] := by
  rw [walk_eq, Walk.bind_of_ok henter, violations_enter, List.nil_append]
  simp only [hsettle]
  cases strict <;> rfl

def reason? (n : Node) (here : Location) (v : Value) (target : Option KindSet) (t : Transformer) :
    Option Violation :=
  match t.run v target with
  | .fail m =>
      some (n.violation here .transform ("Transformer \"" ++ t.name ++ "\" failed: " ++ m))
  | _ => none

theorem reasons_wrongKind (why : String) (target : Option KindSet) (ts : List Transformer) :
    (n.wrongKind here why (ts.filterMap (·.refusal? v target))).reasons
      = ts.filterMap (n.reason? here v target) := by
  rw [wrongKind, List.map_filterMap]
  refine congrArg (ts.filterMap ·) (funext fun t => ?_)
  unfold Transformer.refusal? reason?
  cases t.run v target <;> rfl

theorem infer_lands (n : Node) {s : KindSet} (hkind : n.own.kind = some s)
    (htransform : n.own.transform = some .infer) (v : Value) :
    (∀ w, (Directive.infer.apply v (some s)).value = some w → ∃ k, n.own.inspect w = .ok k)
    ∧ ∀ why, n.own.inspect v = .error why →
      ∀ chain strict origin here, (enter chain n origin here).result = .ok (some v) →
        ((∃ u ∈ (n.walk chain strict origin here).violations,
            u.keyword = .type ∧ u.path = here.propertyPath)
          ↔ ∀ t ∈ Transformer.builtins, s.has t.output = true → t.admits (Kind.of v) = true →
              ∀ w, t.run v (some s) ≠ .replace w)
        ∧ ∀ u ∈ (n.walk chain strict origin here).violations,
            u.keyword = .type → u.path = here.propertyPath →
              u.reasons = (Transformer.builtins.filter fun t =>
                s.has t.output && t.admits (Kind.of v)).filterMap (n.reason? here v (some s)) := by
  refine ⟨fun w => Keywords.inspect_of_inferred hkind, ?_⟩
  intro why hv chain strict origin here henter
  have hcandidates : (∀ t ∈ Directive.candidates (some s) (Kind.of v),
      ∀ w, t.run v (some s) ≠ .replace w) ↔
        ∀ t ∈ Transformer.builtins, s.has t.output = true → t.admits (Kind.of v) = true →
          ∀ w, t.run v (some s) ≠ .replace w := by
    simp only [Directive.mem_candidates, and_imp]
  rw [← hcandidates]
  cases hvalue : (Directive.infer.apply v (some s)).value with
  | none =>
      have hnone := Directive.attempt_value_eq_none_iff.mp hvalue
      rw [violations_of_refused henter
        (Keywords.settle_of_none_inferred hkind htransform hv hnone)]
      constructor
      · exact ⟨fun _ => hnone, fun _ => ⟨_, List.mem_singleton_self _, rfl, rfl⟩⟩
      · intro u hu _ _
        rw [List.mem_singleton.mp hu, reasons_wrongKind]
        rfl
  | some w =>
      have hsettle := Keywords.settle_of_inferred hkind htransform hv hvalue
      have hquiet : ∀ u ∈ (n.walk chain strict origin here).violations,
          u.keyword = .type → u.path ≠ here.propertyPath :=
        fun u hu => (further_of_settle henter hsettle u hu).path_ne
      constructor
      · constructor
        · rintro ⟨u, hu, htype, hpath⟩
          exact absurd hpath (hquiet u hu htype)
        · intro hnone
          have hno := Directive.attempt_value_eq_none_iff.mpr hnone
          exact absurd (hno.symm.trans hvalue) (Option.some_ne_none w).symm
      · exact fun u hu htype hpath => absurd hpath (hquiet u hu htype)

theorem infer_lands_integer_or_number :
    let s : KindSet := .many [.integer, .number]
    let n : Node :=
      { empty with own := { Keywords.none with kind := some s, transform := some .infer } }
    let here : Location := Location.root.property "port" "properties"
    (∃ w, (Directive.infer.apply (.string "0x1f") (some s)).value = some w
        ∧ w.display = "31" ∧ ∃ k, n.own.inspect w = .ok k)
      ∧ n.own.inspect (.string "x")
        = .error "Invalid type, must be one of the types integer,number, got string"
      ∧ ∃ u ∈ (n.walk [] false (some (.string "x")) here).violations,
        u.keyword = .type ∧ u.path = "$ROOT.port"
          ∧ u.reasons.map (·.message) = ["Transformer \"number\" failed: Cannot convert to number",
            "Transformer \"integer\" failed: Cannot convert to integer"] := by
  intro s n here
  have hdisplay : (Directive.infer.apply (.string "0x1f") (some s)).value.map Value.display
      = some "31" := by decide +kernel
  obtain ⟨w, hw, h31⟩ := Option.map_eq_some_iff.mp hdisplay
  have hinspect : n.own.inspect (.string "x")
      = .error "Invalid type, must be one of the types integer,number, got string" := rfl
  obtain ⟨hcomplains, hreasons⟩ :=
    (infer_lands n rfl rfl (.string "x")).2 _ hinspect [] false (some (.string "x")) here rfl
  have hno : (Directive.infer.apply (.string "x") (some s)).value.isNone = true := by
    decide +kernel
  have hnone := Directive.attempt_value_eq_none_iff.mp (Option.isNone_iff_eq_none.mp hno)
  obtain ⟨u, hu, htype, hpath⟩ := hcomplains.mpr fun t ht houtput hadmits =>
    hnone t (Directive.mem_candidates.mpr ⟨ht, houtput, hadmits⟩)
  have hlands := (infer_lands n rfl rfl (.string "0x1f")).1 w hw
  refine ⟨⟨w, hw, h31, hlands⟩, hinspect, u, hu, htype, hpath, ?_⟩
  rw [hreasons u hu htype hpath]
  decide +kernel

end Node

end CheckedConfig
