import CheckedConfig.Proofs.Walk.Conformance
import CheckedConfig.Proofs.Walk.Spine
import CheckedConfig.Store.Access

namespace CheckedConfig

namespace Node

variable {n : Node}

def Placeless (n : Node) : Prop :=
  ∀ origin here there, n.found origin here = [] → n.found origin there = []

theorem passingFrom_of_placeless {ns : List Node} (h : ∀ c ∈ ns, c.Placeless) (operator : Keyword)
    (i : Nat) (w : Value) (here there : Location) :
    passingFrom ns operator i w there = passingFrom ns operator i w here := by
  induction ns generalizing i with
  | nil => rfl
  | cons c ns ih =>
      have hc := h c (List.mem_cons_self ..)
      have hempty : (c.found (some w) (there.branch operator i)).isEmpty
          = (c.found (some w) (here.branch operator i)).isEmpty := by
        rw [Bool.eq_iff_iff, List.isEmpty_iff, List.isEmpty_iff]
        constructor
        · apply hc
        · apply hc
      rw [passingFrom, passingFrom, hempty, ih fun d hd => h d (List.mem_cons_of_mem _ hd)]

theorem passing_of_placeless (ih : ∀ c : Node, c.Child n → c.Placeless) (operator : Keyword)
    (w : Value) (here there : Location) :
    passing (n.branches operator) operator w there
      = passing (n.branches operator) operator w here := by
  cases hns : n.branches operator with
  | none => rfl
  | some ns => exact passingFrom_of_placeless (fun c hc => ih c (.branch hns hc)) operator 0 w _ _

theorem unmatchedAny_eq_nil (n : Node) (here : Location) (bs : List Bool) :
    n.unmatchedAny here bs = [] ↔ bs = [] ∨ bs.any id = true := by
  by_cases hnil : bs = [] <;> simp [unmatchedAny, hnil]

theorem matchedNone_eq_nil (n : Node) (here : Location) (bs : List Bool) :
    n.matchedNone here bs = [] ↔ bs.any id = false := by
  simp [matchedNone]

theorem unmatchedAll_eq_nil (n : Node) (here : Location) (bs : List Bool) :
    n.unmatchedAll here bs = [] ↔ bs.all id = true := by
  simp [unmatchedAll]

theorem foundBranches_of_placeless (ih : ∀ c : Node, c.Child n → c.Placeless) {w : Value}
    {here there : Location} (h : n.foundBranches here w = []) : n.foundBranches there w = [] := by
  have hany : passing n.anyOf .anyOf w there = _ := passing_of_placeless ih .anyOf w here there
  have hnone : passing n.noneOf .not w there = _ := passing_of_placeless ih .not w here there
  have hall : passing n.allOf .allOf w there = _ := passing_of_placeless ih .allOf w here there
  have hone : passing n.oneOf .oneOf w there = _ := passing_of_placeless ih .oneOf w here there
  rw [foundBranches, branchViolations] at h ⊢
  split
  · next happlies =>
      rw [if_pos happlies] at h
      simp only [List.append_eq_nil_iff, unmatchedAny_eq_nil, matchedNone_eq_nil,
        unmatchedAll_eq_nil, unmatchedOne_eq_nil] at h ⊢
      rw [hany, hnone, hall, hone]
      exact h
  · rfl

theorem foundNamed_of_placeless {ps : List (String × Node)} (ih : ∀ p ∈ ps, p.2.Placeless)
    {fs : Fields Value} {here there : Location} (h : foundNamed ps fs here = []) :
    foundNamed ps fs there = [] := by
  induction ps generalizing fs with
  | nil => rfl
  | cons p ps ihps =>
      obtain ⟨name, c⟩ := p
      rw [foundNamed, List.append_eq_nil_iff] at h ⊢
      constructor
      · exact ih (name, c) (List.mem_cons_self ..) _ _ _ h.1
      · exact ihps (fun q hq => ih q (List.mem_cons_of_mem _ hq)) h.2

theorem foundProperties_of_placeless (ih : ∀ c : Node, c.Child n → c.Placeless)
    {fs : Fields Value} {here there : Location} (h : foundProperties n.properties fs here = []) :
    foundProperties n.properties fs there = [] := by
  cases hps : n.properties with
  | none => rfl
  | some ps =>
      rw [hps] at h
      exact foundNamed_of_placeless (fun p hp => ih p.2 (.property hps hp)) h

theorem foundAdditional_of_placeless (ih : ∀ c : Node, c.Child n → c.Placeless)
    {fs : Fields Value} {here there : Location}
    (h : foundAdditional n.additional n fs here = []) :
    foundAdditional n.additional n fs there = [] := by
  cases hm : n.additional with
  | none => rfl
  | some extra =>
      rw [hm] at h
      cases extra with
      | allowed b =>
          cases b with
          | true => rfl
          | false =>
              rw [foundAdditional, undeclared_eq_nil_iff] at h ⊢
              exact h
      | schema m =>
          rw [foundAdditional, List.flatMap_eq_nil_iff] at h ⊢
          intro p hp
          have hone := h p hp
          split at hone
          · next hd => exact if_pos hd
          · next hd =>
              rw [if_neg hd]
              exact ih m (.extra hm) _ _ _ hone

theorem foundItems_of_placeless (ih : ∀ c : Node, c.Child n → c.Placeless) {vs : List Value}
    {here there : Location} (h : foundItems n.items vs here = []) :
    foundItems n.items vs there = [] := by
  cases hm : n.items with
  | none => rfl
  | some m =>
      rw [hm, foundItems, List.flatMap_eq_nil_iff] at h
      rw [foundItems, List.flatMap_eq_nil_iff]
      intro p hp
      exact ih m (.items hm) _ _ _ (h p hp)

theorem foundContents_of_placeless (ih : ∀ c : Node, c.Child n → c.Placeless) {w : Value}
    {here there : Location} (h : n.foundContents here w = []) : n.foundContents there w = [] := by
  cases w with
  | object fs =>
      simp only [foundContents, List.append_eq_nil_iff] at h ⊢
      refine ⟨⟨?_, foundProperties_of_placeless ih h.1.2⟩, foundAdditional_of_placeless ih h.2⟩
      rw [missingNames_eq_nil_iff]
      exact (missingNames_eq_nil_iff n here fs).mp h.1.1
  | array vs =>
      simp only [foundContents, List.append_eq_nil_iff] at h ⊢
      constructor
      · exact foundItems_of_placeless ih h.1
      · rw [arrayViolations_eq_nil_iff]
        exact (arrayViolations_eq_nil_iff n here _).mp h.2
  | _ => exact (scalarViolations_eq_nil_iff n there _).mpr ((scalarViolations_eq_nil_iff n here _).mp h)

theorem placeless (n : Node) : n.Placeless := by
  induction n using childInduction with
  | step n ih =>
  have hsome (v : Value) (here there : Location) (h : n.found (some v) here = []) :
      n.found (some v) there = [] := by
    cases hw : n.own.settle v with
    | error e =>
        rw [found_of_refused here hw] at h
        exact absurd h (List.cons_ne_nil _ _)
    | ok w =>
        rw [found_of_settle here hw, List.append_eq_nil_iff] at h
        rw [found_of_settle there hw, List.append_eq_nil_iff]
        constructor
        · exact foundContents_of_placeless ih h.1
        · exact foundBranches_of_placeless ih h.2
  intro origin here there h
  cases origin with
  | some v => exact hsome v here there h
  | none =>
      cases hd : n.own.default with
      | some d =>
          rw [found_none_of_default here hd] at h
          rw [found_none_of_default there hd]
          exact hsome d here there h
      | none =>
          rw [found_none here hd, missingValue_eq_nil_iff] at h
          rw [found_none there hd, missingValue_eq_nil_iff]
          exact h

end Node

def Value.mark : Value → String
  | .array _ => "["
  | _ => "."

namespace Location

variable {here there : Location} {path : String}

def Reaches (here : Location) (path : String) : Prop := ∃ rest, path = here.propertyPath ++ rest

def GoesOn (here : Location) (v : Value) (path : String) : Prop :=
  ∃ rest, path = here.propertyPath ++ (v.mark ++ rest)

theorem Reaches.refl (here : Location) : here.Reaches here.propertyPath := ⟨"", by simp⟩

theorem Reaches.trans (h : here.Reaches there.propertyPath) (h' : there.Reaches path) :
    here.Reaches path := by
  obtain ⟨rest, h⟩ := h
  obtain ⟨more, h'⟩ := h'
  exact ⟨rest ++ more, by rw [h', h, String.append_assoc]⟩

theorem goesOn_property (here : Location) (name via : String) (fs : Fields Value) :
    here.GoesOn (.object fs) (here.property name via).propertyPath :=
  ⟨name, String.append_assoc ..⟩

theorem goesOn_index (here : Location) (i : Nat) (vs : List Value) :
    here.GoesOn (.array vs) (here.index i).propertyPath :=
  ⟨toString i ++ "]", by simp [index, Value.mark, String.append_assoc]⟩

namespace GoesOn

variable {v w : Value}

theorem reaches (h : here.GoesOn v path) : here.Reaches path := by
  obtain ⟨rest, h⟩ := h
  exact ⟨v.mark ++ rest, h⟩

theorem trans (h : here.GoesOn v there.propertyPath) (h' : there.Reaches path) :
    here.GoesOn v path := by
  obtain ⟨rest, h⟩ := h
  obtain ⟨more, h'⟩ := h'
  exact ⟨rest ++ more, by rw [h', h, String.append_assoc, String.append_assoc]⟩

theorem length_lt (h : here.GoesOn v path) : here.propertyPath.length < path.length := by
  obtain ⟨rest, rfl⟩ := h
  have hmark : v.mark.length = 1 := by cases v <;> simp only [Value.mark] <;> decide
  rw [String.length_append, String.length_append, hmark]
  omega

theorem isArray_eq (h : here.GoesOn v path) (h' : here.GoesOn w path) : v.isArray = w.isArray := by
  obtain ⟨rest, h⟩ := h
  obtain ⟨more, h'⟩ := h'
  have hlist := congrArg String.toList (h.symm.trans h')
  simp only [String.toList_append, List.append_cancel_left_eq] at hlist
  cases v <;> cases w <;> first | rfl | exact absurd hlist (by simp [Value.mark])

end GoesOn

theorem Reaches.length_le (h : here.Reaches path) : here.propertyPath.length ≤ path.length := by
  obtain ⟨rest, rfl⟩ := h
  rw [String.length_append]
  exact Nat.le_add_right ..

theorem looseIndex?_of_index? {s : String} {i : Nat} (h : Path.index? s = some i) :
    looseIndex? s = some i := by
  simp only [Path.index?] at h
  split at h
  · cases h
  · next hdigits =>
      simp only [Bool.or_eq_true, Bool.not_eq_true', not_or, Bool.not_eq_false] at hdigits
      split at h
      · next hlt =>
          have hvalue : natOfText? s = some (digitsValue s.toList) :=
            natOfRadix?_of_digits (by simpa using hdigits.1) hdigits.2
          rw [looseIndex?, hvalue, Option.filter_some, if_pos (by simpa using hlt)]
          exact h
      · cases h

theorem towards_of_index? (here : Location) (vs : List Value) {s : String} {i : Nat}
    (h : Path.index? s = some i) : here.towards (some (.array vs)) s = here.index i := by
  rw [towards, looseIndex?_of_index? h]
  rfl

variable {v w : Value} {s : String}

theorem towards_congr (h : here.propertyPath = there.propertyPath) (v : Option Value) (s : String) :
    (here.towards v s).propertyPath = (there.towards v s).propertyPath := by
  unfold towards
  split <;> simp only [index, property, h]

theorem along_congr (h : here.propertyPath = there.propertyPath) (v : Option Value)
    (segments : List String) :
    (here.along v segments).propertyPath = (there.along v segments).propertyPath := by
  induction segments generalizing here there v with
  | nil => exact h
  | cons s rest ih => exact ih (towards_congr h v s) _

theorem reaches_towards (here : Location) (v : Option Value) (s : String) :
    here.Reaches (here.towards v s).propertyPath := by
  unfold towards
  split
  · exact (here.goesOn_index _ []).reaches
  · exact (here.goesOn_property s _ []).reaches

theorem reaches_along (here : Location) (v : Option Value) (segments : List String) :
    here.Reaches (here.along v segments).propertyPath := by
  induction segments generalizing here v with
  | nil => exact .refl here
  | cons s rest ih => exact (here.reaches_towards v s).trans (ih _ _)

theorem goesOn_towards (here : Location) (h : v.child? s = some w) :
    here.GoesOn v (here.towards (some v) s).propertyPath := by
  cases v with
  | object fs => exact here.goesOn_property s _ fs
  | array vs =>
      obtain ⟨i, hi, -⟩ := Option.bind_eq_some_iff.mp h
      rw [here.towards_of_index? vs hi]
      exact here.goesOn_index i vs
  | _ => simp [Value.child?] at h

theorem goesOn_along (here : Location) (h : v.child? s = some w) (rest : List String) :
    here.GoesOn v (here.along (some v) (s :: rest)).propertyPath :=
  (here.goesOn_towards h).trans (reaches_along _ _ _)

end Location

namespace Node

variable {n m : Node} {here there : Location} {v : Violation}

theorem Spine.reaches (h : n.Spine here m there) : here.Reaches there.propertyPath := by
  induction h with
  | self n here => exact .refl here
  | property _ _ _ ih => exact (Location.goesOn_property _ _ _ []).reaches.trans ih
  | item i _ _ ih => exact (Location.goesOn_index _ i []).reaches.trans ih
  | extra name _ _ ih => exact (Location.goesOn_property _ name _ []).reaches.trans ih

theorem reaches_of_mem_found (hnormal : n.normalize = n) {origin : Option Value}
    (h : v ∈ n.found origin here) : here.Reaches v.path := by
  obtain ⟨m, there, hspine, hreports⟩ := reported_on_spine hnormal h
  rw [hreports.path]
  exact hspine.reaches

theorem FoundBelow.goesOn (hnormal : n.normalize = n) {w : Value} (h : n.FoundBelow here w v) :
    here.GoesOn w v.path := by
  cases h with
  | @property fs _ ps name c hps hc hv =>
      have hchild : Child c n := .property hps hc
      exact (here.goesOn_property name _ fs).trans
        (reaches_of_mem_found (hchild.normal hnormal) hv)
  | @extra fs _ c name w hm _ _ hv =>
      have hchild : Child c n := .extra hm
      exact (here.goesOn_property name _ fs).trans
        (reaches_of_mem_found (hchild.normal hnormal) hv)
  | @item vs _ c i w hm _ hv =>
      have hchild : Child c n := .items hm
      exact (here.goesOn_index i vs).trans (reaches_of_mem_found (hchild.normal hnormal) hv)

end Node

end CheckedConfig
