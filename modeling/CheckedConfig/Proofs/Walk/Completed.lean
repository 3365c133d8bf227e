import CheckedConfig.Proofs.Collection
import CheckedConfig.Validation.Walk

namespace CheckedConfig

namespace Walk

variable {α β : Type}

def done (a : α) (vs : List Violation) : Walk α := ⟨[], vs, .ok a⟩

def after (vs : List Violation) (w : Walk α) : Walk α := ⟨w.visits, vs ++ w.violations, w.result⟩

@[simp] theorem pure_eq_done (a : α) : (Pure.pure a : Walk α) = done a [] := rfl

@[simp] theorem walk_pure_eq_done (a : α) : Walk.pure a = done a [] := rfl

@[simp] theorem done_bind (a : α) (vs : List Violation) (f : α → Walk β) :
    (done a vs >>= f) = (f a).after vs := rfl

@[simp] theorem after_done (vs us : List Violation) (a : α) :
    (done a us).after vs = done a (vs ++ us) := rfl

@[simp] theorem after_visits (vs : List Violation) (w : Walk α) :
    (w.after vs).visits = w.visits := rfl

@[simp] theorem done_passes (a : α) (vs : List Violation) :
    (done a vs).passes = done vs.isEmpty [] := rfl

@[simp] theorem done_visits (a : α) (vs : List Violation) : (done a vs).visits = [] := rfl

@[simp] theorem done_collection (strict : Bool) (a : α) (vs : List Violation) :
    (done a vs).collection strict = (Collection.new strict).recordAll vs := rfl

@[simp] theorem emit_false (vs : List Violation) : emit false vs = done () vs := by
  have hs : ((Collection.new false).recordAll vs).strict = false :=
    Collection.strict_recordAll _ vs
  simp [emit, Collection.extend, hs, done]

def trialsOf (bs : List Bool) : List (Walk Bool) := bs.map (done · [])

theorem isEmpty_trialsOf (bs : List Bool) : (trialsOf bs).isEmpty = bs.isEmpty := by
  cases bs <;> rfl

theorem somePasses_trialsOf (bs : List Bool) :
    somePasses (trialsOf bs) = done (bs.any id) [] := by
  induction bs with
  | nil => rfl
  | cons b bs ih =>
      simp only [trialsOf, List.map_cons, somePasses, done_bind]
      cases b with
      | true => rfl
      | false =>
          simp only [Bool.false_eq_true, if_false]
          exact congrArg (after []) ih

theorem allPass_trialsOf (bs : List Bool) : allPass (trialsOf bs) = done (bs.all id) [] := by
  induction bs with
  | nil => rfl
  | cons b bs ih =>
      simp only [trialsOf, List.map_cons, allPass, done_bind]
      cases b with
      | false => rfl
      | true =>
          simp only [if_true]
          exact congrArg (after []) ih

theorem countPasses_trialsOf (n : Nat) (hn : n ≤ 1) (bs : List Bool) :
    countPasses n (trialsOf bs) = done (min 2 (n + bs.count true)) [] := by
  induction bs generalizing n with
  | nil =>
      have hmin : min 2 (n + 0) = n := by omega
      simp only [trialsOf, List.map_nil, countPasses, List.count_nil, hmin]
      rfl
  | cons b bs ih =>
      simp only [trialsOf, List.map_cons, countPasses, done_bind]
      cases b with
      | false =>
          have hlt : ¬ 1 < n := by omega
          simp only [Bool.false_eq_true, if_false, hlt, List.count_cons, beq_iff_eq, Nat.add_zero]
          exact congrArg (after []) (ih n hn)
      | true =>
          simp only [if_true, List.count_cons_self]
          by_cases h : 1 < n + 1
          · have hmin : min 2 (n + (bs.count true + 1)) = n + 1 := by omega
            simp only [h, if_true, hmin]
            rfl
          · have hsum : n + (bs.count true + 1) = n + 1 + bs.count true := by omega
            simp only [h, if_false, hsum]
            exact congrArg (after []) (ih (n + 1) (by omega))

end Walk

namespace Node

def unmatchedAny (n : Node) (here : Location) (bs : List Bool) : List Violation :=
  if bs.isEmpty || bs.any id then []
  else [n.violation here .anyOf "The value must match at least one of the specified schemas."]

def matchedNone (n : Node) (here : Location) (bs : List Bool) : List Violation :=
  if bs.any id then [n.violation here .not "The value must not match the specified schema."]
  else []

def unmatchedAll (n : Node) (here : Location) (bs : List Bool) : List Violation :=
  if bs.all id then []
  else [n.violation here .allOf "The value must match all of the specified schemas."]

def unmatchedOne (n : Node) (here : Location) (bs : List Bool) : List Violation :=
  if bs.isEmpty then []
  else match bs.count true with
    | 0 => [n.violation here .oneOf
        "The value must match exactly one of the specified schemas, but matched none."]
    | 1 => []
    | _ => [n.violation here .oneOf
        "The value must match exactly one of the specified schemas, but matched more than one."]

theorem matchAny_trialsOf (n : Node) (here : Location) (bs : List Bool) :
    n.matchAny false here (Walk.trialsOf bs) = Walk.done () (n.unmatchedAny here bs) := by
  rw [matchAny, Walk.isEmpty_trialsOf, Walk.somePasses_trialsOf, Walk.done_bind, Walk.emit_false,
    Walk.after_done, unmatchedAny]
  cases bs with
  | nil => rfl
  | cons b bs => rfl

theorem matchNone_trialsOf (n : Node) (here : Location) (bs : List Bool) :
    n.matchNone false here (Walk.trialsOf bs) = Walk.done () (n.matchedNone here bs) := by
  rw [matchNone, Walk.isEmpty_trialsOf, Walk.somePasses_trialsOf, Walk.done_bind, Walk.emit_false,
    Walk.after_done, matchedNone]
  cases bs with
  | nil => rfl
  | cons b bs => rfl

theorem matchAll_trialsOf (n : Node) (here : Location) (bs : List Bool) :
    n.matchAll false here (Walk.trialsOf bs) = Walk.done () (n.unmatchedAll here bs) := by
  rw [matchAll, Walk.isEmpty_trialsOf, Walk.allPass_trialsOf, Walk.done_bind, Walk.emit_false,
    Walk.after_done, unmatchedAll]
  cases bs with
  | nil => rfl
  | cons b bs => rfl

theorem matchOne_trialsOf (n : Node) (here : Location) (bs : List Bool) :
    n.matchOne false here (Walk.trialsOf bs) = Walk.done () (n.unmatchedOne here bs) := by
  rw [matchOne, Walk.isEmpty_trialsOf, Walk.countPasses_trialsOf 0 (by omega), Walk.done_bind,
    Walk.emit_false, Walk.after_done, unmatchedOne, Nat.zero_add]
  cases bs with
  | nil => rfl
  | cons b bs =>
      rcases hc : (b :: bs).count true with _ | _ | k
      · rfl
      · rfl
      · have hmin : min 2 (k + 1 + 1) = 2 := by omega
        simp only [hmin]
        rfl

def branchViolations (n : Node) (here : Location) (w : Value) (anys nones alls ones : List Bool) :
    List Violation :=
  if n.own.isUntyped || !w.isArray then
    n.unmatchedAny here anys ++ n.matchedNone here nones ++ n.unmatchedAll here alls
      ++ n.unmatchedOne here ones
  else []

theorem matchBranches_trialsOf (n : Node) (here : Location) (w : Value)
    (anys nones alls ones : List Bool) :
    n.matchBranches false here w (Walk.trialsOf anys) (Walk.trialsOf nones) (Walk.trialsOf alls)
        (Walk.trialsOf ones)
      = Walk.done () (n.branchViolations here w anys nones alls ones) := by
  rw [matchBranches, branchViolations]
  split
  · simp only [matchAny_trialsOf, matchNone_trialsOf, matchAll_trialsOf, matchOne_trialsOf,
      Walk.done_bind, Walk.after_done, List.append_assoc]
  · rfl

end Node

end CheckedConfig
