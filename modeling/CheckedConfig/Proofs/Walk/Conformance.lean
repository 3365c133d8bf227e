import CheckedConfig.Proofs.Walk.Keywords
import CheckedConfig.Proofs.Walk.Outcome

namespace CheckedConfig

namespace Node

theorem mem_of_mem_around {ns before after : List Node} {c d : Node}
    (hns : ns = before ++ c :: after) (hd : d ∈ before ++ after) : d ∈ ns := by
  subst hns
  rcases List.mem_append.mp hd with hd | hd
  · exact List.mem_append_left _ hd
  · exact List.mem_append_right _ (List.mem_cons_of_mem _ hd)

mutual

def Conforms (n : Node) (v : Value) : Prop :=
  n.own.AcceptsKind v ∧ n.ContentsConform v
    ∧ (n.own.isUntyped = true ∨ v.isArray = false → n.BranchesConform v)
termination_by (sizeOf n, 1)

def ContentsConform (n : Node) (v : Value) : Prop :=
  match v with
  | .object fs =>
      n.own.NamesPresent fs
        ∧ (∀ ps, n.properties = some ps → ∀ name c, (name, c) ∈ ps →
            (∀ w, Fields.get? fs name = some w → c.Conforms w)
              ∧ (Fields.get? fs name = none → c.requiresValue = false))
        ∧ (n.additional = some (.allowed false) →
            ∀ name ∈ Fields.keys fs, n.declares name = true)
        ∧ (∀ extra, n.additional = some (.schema extra) →
            ∀ name w, (name, w) ∈ fs → n.declares name = false → extra.Conforms w)
  | .array vs => (∀ m, n.items = some m → ∀ w ∈ vs, m.Conforms w) ∧ n.own.ItemsFit vs
  | w => n.own.ScalarFits w
termination_by (sizeOf n, 0)
decreasing_by
  · exact .left _ _ (Child.sizeOf_lt (.property ‹_› ‹_›))
  · exact .left _ _ (Child.sizeOf_lt (.extra ‹_›))
  · exact .left _ _ (Child.sizeOf_lt (.items ‹_›))

def BranchesConform (n : Node) (v : Value) : Prop :=
  (∀ ns, n.anyOf = some ns → ns ≠ [] → ∃ c, ∃ _ : c ∈ ns, c.Conforms v)
    ∧ (∀ ns, n.noneOf = some ns → ∀ c ∈ ns, ¬ c.Conforms v)
    ∧ (∀ ns, n.allOf = some ns → ∀ c ∈ ns, c.Conforms v)
    ∧ (∀ ns, n.oneOf = some ns → ns ≠ [] →
        ∃ before c after, ∃ _ : ns = before ++ c :: after,
          c.Conforms v ∧ ∀ d ∈ before ++ after, ¬ d.Conforms v)
termination_by (sizeOf n, 0)
decreasing_by
  · exact .left _ _ (Child.sizeOf_lt (@Child.branch _ _ .anyOf _ ‹_› ‹_›))
  · exact .left _ _ (Child.sizeOf_lt (@Child.branch _ _ .not _ ‹_› ‹_›))
  · exact .left _ _ (Child.sizeOf_lt (@Child.branch _ _ .allOf _ ‹_› ‹_›))
  · exact .left _ _ (Child.sizeOf_lt (@Child.branch _ _ .oneOf _ ‹_› (by simp [*])))
  · exact .left _ _ (Child.sizeOf_lt (@Child.branch _ _ .oneOf _ ‹_› (mem_of_mem_around ‹_› ‹_›)))

end

def Plain (n : Node) : Prop :=
  ∀ m, Within m n → m.own.default = none ∧ m.own.transform = none

theorem plain_of_child {n : Node} (hd : n.own.default = none) (ht : n.own.transform = none)
    (h : ∀ c : Node, c.Child n → c.Plain) : n.Plain := by
  intro m hm
  cases hm with
  | self => exact ⟨hd, ht⟩
  | under hm hc => exact h _ hc m hm

theorem plain_ofKind (k : Kind) : (ofKind k).Plain :=
  plain_of_child rfl rfl fun _ h => absurd h not_child_ofKind

theorem Plain.child {n c : Node} (h : n.Plain) (hc : c.Child n) : c.Plain :=
  fun m hm => h m (.under hm hc)

def KeepsBelow (n : Node) : Prop :=
  ∀ c : Node, c.Child n → ∀ origin, c.outcome origin = origin

theorem KeepsBelow.outcomeProperties_eq {n : Node} (h : n.KeepsBelow) (fs : Fields Value) :
    outcomeProperties n.properties fs = fs := by
  cases hps : n.properties with
  | none => rfl
  | some ps => exact outcomeNamed_eq_self fun p hp => h p.2 (.property hps hp) _

theorem KeepsBelow.outcomeAdditional_eq {n : Node} (h : n.KeepsBelow) (fs : Fields Value) :
    outcomeAdditional n.additional n fs = fs := by
  cases hm : n.additional with
  | none => rfl
  | some extra =>
      cases extra with
      | allowed b => rfl
      | schema m => simp [outcomeAdditional, h m (.extra hm)]

theorem KeepsBelow.outcomeItems_eq {n : Node} (h : n.KeepsBelow) (vs : List Value) :
    outcomeItems n.items vs = vs := by
  cases hm : n.items with
  | none => rfl
  | some m => simp [outcomeItems, h m (.items hm)]

theorem KeepsBelow.inside_eq {n : Node} (h : n.KeepsBelow) (v : Value) : n.inside v = v := by
  cases v with
  | object fs => rw [inside, h.outcomeProperties_eq, h.outcomeAdditional_eq]
  | array vs => rw [inside, h.outcomeItems_eq]
  | _ => rfl

theorem Plain.outcome_eq {n : Node} (hn : n.Plain) (origin : Option Value) :
    n.outcome origin = origin := by
  induction n using childInduction generalizing origin with
  | step n ih =>
  obtain ⟨hd, ht⟩ := hn n (.self n)
  cases origin with
  | none => exact outcome_none hd
  | some v =>
      by_cases hk : n.own.AcceptsKind v
      · have hkeeps : n.KeepsBelow := fun c hc => ih c hc (hn.child hc)
        rw [outcome_of_settle (Keywords.settle_of_accepts hk), hkeeps.inside_eq]
      · obtain ⟨why, hv⟩ := Keywords.settle_of_not_accepts ht hk
        exact outcome_of_refused hv

theorem Plain.keepsBelow {n : Node} (hn : n.Plain) : n.KeepsBelow :=
  fun _ hc => (hn.child hc).outcome_eq

theorem arrayViolations_eq_nil_iff (n : Node) (here : Location) (vs : List Value) :
    n.arrayViolations here vs = [] ↔ n.own.ItemsFit vs := by
  simp only [arrayViolations, List.append_eq_nil_iff, tooFewItems_eq_nil_iff,
    tooManyItems_eq_nil_iff, repeatedItems_eq_nil_iff]
  constructor
  · rintro ⟨⟨hfew, hmany⟩, hunique⟩
    exact ⟨hfew, hmany, hunique⟩
  · rintro ⟨hfew, hmany, hunique⟩
    exact ⟨⟨hfew, hmany⟩, hunique⟩

def Decides (n : Node) : Prop :=
  ∀ v here, n.found (some v) here = [] ↔ n.Conforms v

theorem foundNamed_eq_nil_iff {n : Node} (hnormal : n.normalize = n) (hn : n.Plain)
    (ih : ∀ c : Node, c.Child n → c.Decides) {ps : List (String × Node)}
    (hps : n.properties = some ps) (fs : Fields Value) (here : Location) :
    foundNamed ps fs here = [] ↔
      ∀ name c, (name, c) ∈ ps →
        (∀ w, Fields.get? fs name = some w → c.Conforms w)
          ∧ (Fields.get? fs name = none → c.requiresValue = false) := by
  rw [foundNamed_eq_flatMap (keys_nodup_of_normal hnormal hps), List.flatMap_eq_nil_iff]
  have hone (name : String) (c : Node) (hc : (name, c) ∈ ps) :
      c.found (fs.get? name) (here.property name "properties") = [] ↔
        (∀ w, Fields.get? fs name = some w → c.Conforms w)
          ∧ (Fields.get? fs name = none → c.requiresValue = false) := by
    have hchild : c.Child n := .property hps hc
    cases hv : fs.get? name with
    | some v => simp [ih c hchild v]
    | none =>
        have hd := (hn.child hchild c (.self c)).1
        simp [found_none _ hd, missingValue_eq_nil_iff]
  constructor
  · intro h name c hc
    exact (hone name c hc).mp (h (name, c) hc)
  · intro h p hp
    exact (hone p.1 p.2 hp).mpr (h p.1 p.2 hp)

theorem foundProperties_eq_nil_iff {n : Node} (hnormal : n.normalize = n) (hn : n.Plain)
    (ih : ∀ c : Node, c.Child n → c.Decides) (fs : Fields Value) (here : Location) :
    foundProperties n.properties fs here = [] ↔
      ∀ ps, n.properties = some ps → ∀ name c, (name, c) ∈ ps →
        (∀ w, Fields.get? fs name = some w → c.Conforms w)
          ∧ (Fields.get? fs name = none → c.requiresValue = false) := by
  cases hps : n.properties with
  | none => simp [foundProperties]
  | some ps =>
      rw [foundProperties, foundNamed_eq_nil_iff hnormal hn ih hps]
      simp

theorem foundAdditional_eq_nil_iff {n : Node} (ih : ∀ c : Node, c.Child n → c.Decides)
    (fs : Fields Value) (here : Location) :
    foundAdditional n.additional n fs here = [] ↔
      (n.additional = some (.allowed false) →
          ∀ name ∈ Fields.keys fs, n.declares name = true)
        ∧ (∀ extra, n.additional = some (.schema extra) →
            ∀ name w, (name, w) ∈ fs → n.declares name = false → extra.Conforms w) := by
  cases hm : n.additional with
  | none => simp [foundAdditional]
  | some extra =>
      cases extra with
      | allowed b =>
          cases b with
          | true => simp [foundAdditional]
          | false => simp [foundAdditional, undeclared_eq_nil_iff]
      | schema m =>
          have hiff (name : String) (w : Value) :
              (if n.declares name then []
                else m.found (some w) (here.property name "additionalProperties")) = [] ↔
                (n.declares name = false → m.Conforms w) := by
            cases n.declares name <;> simp [ih m (.extra hm) w]
          simp [foundAdditional, List.flatMap_eq_nil_iff, hiff]

theorem foundItems_eq_nil_iff {n : Node} (ih : ∀ c : Node, c.Child n → c.Decides)
    (vs : List Value) (here : Location) :
    foundItems n.items vs here = [] ↔ ∀ m, n.items = some m → ∀ w ∈ vs, m.Conforms w := by
  cases hm : n.items with
  | none => simp [foundItems]
  | some m =>
      simp only [foundItems, List.flatMap_eq_nil_iff, ih m (.items hm) _ _, Option.some.injEq,
        forall_eq']
      constructor
      · intro h w hw
        obtain ⟨i, hi⟩ := List.mem_iff_getElem?.mp hw
        exact h (w, i) (List.mem_zipIdx_iff_getElem?.mpr hi)
      · intro h p hp
        exact h p.1 (List.fst_mem_of_mem_zipIdx hp)

theorem foundContents_eq_nil_iff {n : Node} (hnormal : n.normalize = n) (hn : n.Plain)
    (ih : ∀ c : Node, c.Child n → c.Decides) (v : Value) (here : Location) :
    n.foundContents here v = [] ↔ n.ContentsConform v := by
  unfold ContentsConform
  cases v with
  | object fs =>
      simp only [foundContents, hn.keepsBelow.outcomeProperties_eq, List.append_eq_nil_iff,
        missingNames_eq_nil_iff, foundProperties_eq_nil_iff hnormal hn ih,
        foundAdditional_eq_nil_iff ih, and_assoc]
  | array vs =>
      simp only [foundContents, hn.keepsBelow.outcomeItems_eq, List.append_eq_nil_iff,
        foundItems_eq_nil_iff ih, arrayViolations_eq_nil_iff]
  | _ => exact scalarViolations_eq_nil_iff n here _

theorem countP_eq_one_iff {α : Type} (p : α → Bool) (xs : List α) :
    xs.countP p = 1 ↔
      ∃ before x after, xs = before ++ x :: after ∧ p x = true
        ∧ ∀ y ∈ before ++ after, p y = false := by
  constructor
  · intro h
    obtain ⟨x, hx, hp⟩ := List.countP_pos_iff.mp (by omega : 0 < xs.countP p)
    obtain ⟨before, after, rfl⟩ := List.append_of_mem hx
    have hrest : (before ++ after).countP p = 0 := by
      rw [List.countP_append, List.countP_cons_of_pos hp] at h
      rw [List.countP_append]
      omega
    refine ⟨before, x, after, rfl, hp, fun y hy => ?_⟩
    simpa using List.countP_eq_zero.mp hrest y hy
  · rintro ⟨before, x, after, rfl, hp, hrest⟩
    have hzero : (before ++ after).countP p = 0 :=
      List.countP_eq_zero.mpr fun y hy => by simp [hrest y hy]
    rw [List.countP_append] at hzero
    rw [List.countP_append, List.countP_cons_of_pos hp]
    omega

open Classical in
theorem passingFrom_eq_map {ns : List Node} {w : Value} {here : Location}
    (h : ∀ c ∈ ns, c.Decides) (operator : Keyword) (i : Nat) :
    passingFrom ns operator i w here = ns.map fun c => decide (c.Conforms w) := by
  induction ns generalizing i with
  | nil => rfl
  | cons c ns ih =>
      have hc : (c.found (some w) (here.branch operator i)).isEmpty = decide (c.Conforms w) := by
        rw [Bool.eq_iff_iff, List.isEmpty_iff, decide_eq_true_iff]
        exact h c (List.mem_cons_self ..) w _
      rw [passingFrom, hc, ih fun d hd => h d (List.mem_cons_of_mem _ hd), List.map_cons]

theorem unmatchedAny_eq_nil_iff {n : Node} (ih : ∀ c : Node, c.Child n → c.Decides) (w : Value)
    (here : Location) :
    n.unmatchedAny here (passing n.anyOf .anyOf w here) = [] ↔
      ∀ ns, n.anyOf = some ns → ns ≠ [] → ∃ c, ∃ _ : c ∈ ns, c.Conforms w := by
  cases hns : n.anyOf with
  | none => simp [unmatchedAny, passing]
  | some ns =>
      have h : ∀ c ∈ ns, c.Decides := fun c hc => ih c (@Child.branch _ _ .anyOf _ hns hc)
      rw [passing, passingFrom_eq_map h, unmatchedAny]
      by_cases hnil : ns = [] <;> simp [hnil]

theorem matchedNone_eq_nil_iff {n : Node} (ih : ∀ c : Node, c.Child n → c.Decides) (w : Value)
    (here : Location) :
    n.matchedNone here (passing n.noneOf .not w here) = [] ↔
      ∀ ns, n.noneOf = some ns → ∀ c ∈ ns, ¬ c.Conforms w := by
  cases hns : n.noneOf with
  | none => simp [matchedNone, passing]
  | some ns =>
      have h : ∀ c ∈ ns, c.Decides := fun c hc => ih c (@Child.branch _ _ .not _ hns hc)
      rw [passing, passingFrom_eq_map h, matchedNone]
      simp

theorem unmatchedAll_eq_nil_iff {n : Node} (ih : ∀ c : Node, c.Child n → c.Decides) (w : Value)
    (here : Location) :
    n.unmatchedAll here (passing n.allOf .allOf w here) = [] ↔
      ∀ ns, n.allOf = some ns → ∀ c ∈ ns, c.Conforms w := by
  cases hns : n.allOf with
  | none => simp [unmatchedAll, passing]
  | some ns =>
      have h : ∀ c ∈ ns, c.Decides := fun c hc => ih c (@Child.branch _ _ .allOf _ hns hc)
      rw [passing, passingFrom_eq_map h, unmatchedAll]
      simp

theorem unmatchedOne_eq_nil (n : Node) (here : Location) (bs : List Bool) :
    n.unmatchedOne here bs = [] ↔ bs = [] ∨ bs.count true = 1 := by
  unfold unmatchedOne
  cases bs with
  | nil => simp
  | cons b bs => rcases (b :: bs).count true with _ | _ | k <;> simp

theorem unmatchedOne_eq_nil_iff {n : Node} (ih : ∀ c : Node, c.Child n → c.Decides) (w : Value)
    (here : Location) :
    n.unmatchedOne here (passing n.oneOf .oneOf w here) = [] ↔
      ∀ ns, n.oneOf = some ns → ns ≠ [] →
        ∃ before c after, ∃ _ : ns = before ++ c :: after,
          c.Conforms w ∧ ∀ d ∈ before ++ after, ¬ d.Conforms w := by
  classical
  cases hns : n.oneOf with
  | none => simp [unmatchedOne, passing]
  | some ns =>
      have h : ∀ c ∈ ns, c.Decides := fun c hc => ih c (@Child.branch _ _ .oneOf _ hns hc)
      have hcount : (ns.map fun c => decide (c.Conforms w)).count true
          = ns.countP fun c => decide (c.Conforms w) := by
        rw [List.count, List.countP_map]
        congr 1
        funext c
        simp
      rw [unmatchedOne_eq_nil, passing, passingFrom_eq_map h, hcount, countP_eq_one_iff]
      simp only [List.map_eq_nil_iff, decide_eq_true_iff, decide_eq_false_iff_not,
        Option.some.injEq, forall_eq', exists_prop]
      by_cases hnil : ns = []
      · simp [hnil]
      · simp only [hnil, false_or, ne_eq, not_false_eq_true, forall_const]

theorem foundBranches_eq_nil_iff {n : Node} (ih : ∀ c : Node, c.Child n → c.Decides) (w : Value)
    (here : Location) :
    n.foundBranches here w = [] ↔
      (n.own.isUntyped = true ∨ w.isArray = false → n.BranchesConform w) := by
  rw [foundBranches, branchViolations, BranchesConform]
  split
  · rename_i happlies
    have happlies : n.own.isUntyped = true ∨ w.isArray = false := by simpa using happlies
    simp only [List.append_eq_nil_iff, unmatchedAny_eq_nil_iff ih, matchedNone_eq_nil_iff ih,
      unmatchedAll_eq_nil_iff ih, unmatchedOne_eq_nil_iff ih, happlies, forall_const, and_assoc]
  · rename_i hskipped
    have hskipped : ¬ (n.own.isUntyped = true ∨ w.isArray = false) := by simpa using hskipped
    simp [hskipped]

theorem Plain.decides {n : Node} (hn : n.Plain) (hnormal : n.normalize = n) : n.Decides := by
  induction n using childInduction with
  | step n ih =>
  have hbelow : ∀ c : Node, c.Child n → c.Decides := fun c hc =>
    ih c hc (hn.child hc) (hc.normal hnormal)
  intro v here
  unfold Conforms
  by_cases hk : n.own.AcceptsKind v
  · rw [found_of_settle here (Keywords.settle_of_accepts hk), hn.keepsBelow.inside_eq,
      List.append_eq_nil_iff, foundContents_eq_nil_iff hnormal hn hbelow,
      foundBranches_eq_nil_iff hbelow]
    simp only [hk, true_and]
  · obtain ⟨why, hv⟩ := Keywords.settle_of_not_accepts (hn n (.self n)).2 hk
    rw [found_of_refused here hv]
    simp [hk]

end Node

theorem Schema.walk_plain {s : Schema} (hs : s.root.Plain) (v : Value) :
    (s.walk [] false (some v)).result = .ok (some v)
      ∧ (((s.walk [] false (some v)).collection false).list = [] ↔ s.root.Conforms v) := by
  rw [s.walk_eq_done, hs.outcome_eq, Walk.done_collection, Collection.list_new_eq_nil_iff]
  exact ⟨rfl, hs.decides s.normal v Location.root⟩

theorem Schema.walk_plain_integers :
    let s : Schema := ⟨{ Node.ofKind .array with items := some (Node.ofKind .integer) }, rfl⟩
    let v : Value := .array [.int 1, .string "2"]
    s.root.Plain ∧ (s.walk [] false (some v)).result = .ok (some v)
      ∧ (((s.walk [] false (some v)).collection false).list = [] ↔ s.root.Conforms v) := by
  intro s v
  have hs : s.root.Plain := by
    refine Node.plain_of_child rfl rfl fun c hc => ?_
    cases hc with
    | items h =>
        have hc : Node.ofKind .integer = c := Option.some.inj h
        exact hc ▸ Node.plain_ofKind .integer
    | property h _ => cases h
    | extra h => cases h
    | @branch operator ns h _ => cases operator <;> cases h
  exact ⟨hs, Schema.walk_plain hs v⟩

end CheckedConfig
