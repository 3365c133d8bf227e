import Mathlib.Data.List.TakeWhile
import CheckedConfig.Coercion.Directive

namespace CheckedConfig

namespace Transformer

theorem mem_of_builtin? {name : String} {t : Transformer} (h : builtin? name = some t) :
    t ∈ builtins :=
  List.mem_of_find?_eq_some h

theorem builtin?_name {t : Transformer} (h : t ∈ builtins) : builtin? t.name = some t := by
  simp only [builtins, List.mem_cons, List.not_mem_nil, or_false] at h
  rcases h with rfl | rfl | rfl | rfl | rfl <;> rfl

inductive Makes (v : Value) : Transformer → Value → Prop where
  | number {d : Double} : v.isNumber = false → v.readNumber = some d →
      Makes v Transformer.number (Value.ofDouble d)
  | string : Makes v Transformer.string (.string v.display)
  | integer {i : Int} : v.readNumber.bind toInteger? = some i →
      Makes v Transformer.integer (.int i)
  | boolean : Makes v Transformer.boolean (.bool v.isTruthy)
  | array : v.isArray = false → Makes v Transformer.array (.array [v])

theorem makes_of_run {t : Transformer} (ht : t ∈ builtins) {v w : Value}
    {target : Option KindSet} (h : t.run v target = .replace w) : Makes v t w := by
  simp only [builtins, List.mem_cons, List.not_mem_nil, or_false] at ht
  rcases ht with rfl | rfl | rfl | rfl | rfl
  · simp only [number] at h
    split at h
    · cases h
    · next hno =>
        split at h
        · next d hd =>
            cases h
            exact .number (Bool.eq_false_iff.mpr hno) hd
        · cases h
  · cases h
    exact .string
  · simp only [integer] at h
    split at h
    · next i hi =>
        cases h
        exact .integer hi
    · cases h
  · cases h
    exact .boolean
  · simp only [array] at h
    split at h
    · cases h
    · next hno =>
        cases h
        exact .array (Bool.eq_false_iff.mpr hno)

theorem exists_ofDouble_eq (d : Double) : ∃ n, Value.ofDouble d = .number n := by
  unfold Value.ofDouble
  split
  · exact ⟨_, rfl⟩
  · exact ⟨_, rfl⟩

theorem replacement_of_builtin {t : Transformer} (ht : t ∈ builtins) {v w : Value}
    {target : Option KindSet} (h : t.run v target = .replace w) :
    w.isContainer = false ∨ w = .array [v] := by
  cases makes_of_run ht h with
  | @number d _ _ =>
      obtain ⟨n, hn⟩ := exists_ofDouble_eq d
      rw [hn]
      exact .inl rfl
  | string => exact .inl rfl
  | integer _ => exact .inl rfl
  | boolean => exact .inl rfl
  | array _ => exact .inr rfl

theorem output_of_replacement {t : Transformer} (ht : t ∈ builtins) {v w : Value}
    {target : Option KindSet} (h : t.run v target = .replace w) :
    Kind.of w = t.output ∨ t.output = .integer ∧ w.isWhole = true := by
  cases makes_of_run ht h with
  | @number d _ _ =>
      obtain ⟨n, hn⟩ := exists_ofDouble_eq d
      rw [hn]
      exact .inl rfl
  | string => exact .inl rfl
  | integer _ => exact .inr ⟨rfl, rfl⟩
  | boolean => exact .inl rfl
  | array _ => exact .inl rfl

def replacement? (v : Value) (target : Option KindSet) (t : Transformer) : Option Value :=
  match t.run v target with
  | .replace w => some w
  | _ => none

def refusal? (v : Value) (target : Option KindSet) (t : Transformer) : Option Refusal :=
  match t.run v target with
  | .fail m => some ⟨t.name, m⟩
  | _ => none

theorem replacement?_eq_none_iff {t : Transformer} {v : Value} {target : Option KindSet} :
    t.replacement? v target = none ↔ ∀ w, t.run v target ≠ .replace w := by
  unfold replacement?
  cases t.run v target <;> simp

end Transformer

namespace Directive

def transformers : Directive → List Transformer
  | .infer => []
  | .single t => [t]
  | .list ts => ts
  | .group _ ts _ => ts

def BuiltIn (d : Directive) : Prop := ∀ t ∈ d.transformers, t ∈ Transformer.builtins

theorem replaced_of_attempt {gated : Bool} {v w : Value} {target : Option KindSet}
    {ts : List Transformer} (h : (attempt gated v target ts).value = some w) :
    ∃ t ∈ ts, t.run v target = .replace w := by
  induction ts with
  | nil => cases h
  | cons t ts ih =>
      rw [attempt] at h
      split at h
      · obtain ⟨u, hu, hrun⟩ := ih h
        exact ⟨u, List.mem_cons_of_mem _ hu, hrun⟩
      · split at h
        · next x hx =>
            obtain rfl := Option.some.inj h
            exact ⟨t, List.mem_cons_self .., hx⟩
        · obtain ⟨u, hu, hrun⟩ := ih h
          exact ⟨u, List.mem_cons_of_mem _ hu, hrun⟩
        · obtain ⟨u, hu, hrun⟩ := ih h
          exact ⟨u, List.mem_cons_of_mem _ hu, hrun⟩

theorem attempt_eq (v : Value) (target : Option KindSet) (ts : List Transformer) :
    attempt false v target ts =
      ⟨ts.findSome? (·.replacement? v target),
        (ts.takeWhile fun t => (t.replacement? v target).isNone).filterMap
          (·.refusal? v target)⟩ := by
  induction ts with
  | nil => rfl
  | cons t ts ih =>
      rw [attempt, Bool.false_and, if_neg Bool.false_ne_true, ih]
      cases hrun : t.run v target with
      | replace w => simp [Transformer.replacement?, hrun]
      | decline => simp [Transformer.replacement?, Transformer.refusal?, hrun]
      | fail m => simp [Transformer.replacement?, Transformer.refusal?, hrun]

theorem attempt_value_eq_none_iff {v : Value} {target : Option KindSet} {ts : List Transformer} :
    (attempt false v target ts).value = none ↔ ∀ t ∈ ts, ∀ w, t.run v target ≠ .replace w := by
  simp only [attempt_eq, List.findSome?_eq_none_iff, Transformer.replacement?_eq_none_iff]

theorem attempt_of_none_replaces {v : Value} {target : Option KindSet} {ts : List Transformer}
    (h : ∀ t ∈ ts, ∀ w, t.run v target ≠ .replace w) :
    attempt false v target ts = ⟨none, ts.filterMap (·.refusal? v target)⟩ := by
  have hnone : ∀ t ∈ ts, t.replacement? v target = none := fun t ht =>
    Transformer.replacement?_eq_none_iff.mpr (h t ht)
  have hall : (ts.takeWhile fun t => (t.replacement? v target).isNone) = ts :=
    List.takeWhile_eq_self_iff.mpr fun t ht => Option.isNone_iff_eq_none.mpr (hnone t ht)
  rw [attempt_eq, List.findSome?_eq_none_iff.mpr hnone, hall]

theorem mem_candidates {s : KindSet} {k : Kind} {t : Transformer} :
    t ∈ candidates (some s) k ↔
      t ∈ Transformer.builtins ∧ s.has t.output = true ∧ t.admits k = true := by
  simp [candidates]

theorem replaced_of_apply {d : Directive} (hd : d.BuiltIn) {v w : Value} {target : Option KindSet}
    (h : (d.apply v target).value = some w) :
    ∃ t ∈ Transformer.builtins, t.run v target = .replace w := by
  cases d with
  | infer =>
      obtain ⟨t, ht, hrun⟩ := replaced_of_attempt h
      refine ⟨t, ?_, hrun⟩
      unfold candidates at ht
      split at ht
      · exact absurd ht List.not_mem_nil
      · exact (List.mem_filter.mp ht).1
  | single t =>
      obtain ⟨u, hu, hrun⟩ := replaced_of_attempt h
      exact ⟨u, hd u hu, hrun⟩
  | list ts =>
      obtain ⟨u, hu, hrun⟩ := replaced_of_attempt h
      exact ⟨u, hd u hu, hrun⟩
  | group name ts ignoreCheck =>
      obtain ⟨u, hu, hrun⟩ := replaced_of_attempt h
      exact ⟨u, hd u hu, hrun⟩

end Directive

namespace Coerced

def orElse (a b : Coerced) : Coerced :=
  if a.value.isSome then a else ⟨b.value, a.refusals ++ b.refusals⟩

theorem refuse_orElse (r : Refusal) (a b : Coerced) :
    orElse ⟨a.value, r :: a.refusals⟩ b
      = ⟨(a.orElse b).value, r :: (a.orElse b).refusals⟩ := by
  unfold orElse
  split
  · rfl
  · rfl

end Coerced

namespace Directive

variable (v : Value) (target : Option KindSet)

theorem attempt_append (gated : Bool) (xs ys : List Transformer) :
    attempt gated v target (xs ++ ys)
      = (attempt gated v target xs).orElse (attempt gated v target ys) := by
  induction xs with
  | nil => rfl
  | cons t xs ih =>
      rw [List.cons_append, attempt, attempt]
      split
      · exact ih
      · cases t.run v target with
        | replace w => rfl
        | decline => exact ih
        | fail m =>
            simp only [ih]
            exact (Coerced.refuse_orElse ⟨t.name, m⟩ _ _).symm

theorem attempt_gated (ts : List Transformer) :
    attempt true v target ts = attempt false v target (ts.filter (·.admits (Kind.of v))) := by
  induction ts with
  | nil => rfl
  | cons t ts ih =>
      by_cases hadmits : t.admits (Kind.of v) = true
      · rw [List.filter_cons, if_pos hadmits, attempt, attempt, hadmits, ih]
        rfl
      · rw [List.filter_cons, if_neg hadmits, attempt, Bool.eq_false_iff.mpr hadmits, ← ih]
        rfl

theorem attempt_ungated (ts : List Transformer) :
    attempt true v target (ts.map Transformer.ungated) = attempt false v target ts := by
  induction ts with
  | nil => rfl
  | cons t ts ih =>
      rw [List.map_cons, attempt, attempt, ih]
      rfl

theorem candidates_some (s : KindSet) (k : Kind) :
    candidates (some s) k
      = (Transformer.builtins.filter (s.has ·.output)).filter (·.admits k) := by
  rw [List.filter_filter, candidates]
  exact List.filter_congr fun t _ => Bool.and_comm ..

def inferable : Option KindSet → List Transformer
  | none => []
  | some s => Transformer.builtins.filter (s.has ·.output)

theorem apply_infer : infer.apply v target = (list (inferable target)).apply v target := by
  cases target with
  | none => rfl
  | some s =>
      calc infer.apply v (some s)
          = attempt false v (some s) ((inferable (some s)).filter (·.admits (Kind.of v))) := by
            rw [apply, candidates_some]
            rfl
        _ = (list (inferable (some s))).apply v (some s) := (attempt_gated v (some s) _).symm

theorem directives_are_lists :
    (∀ t, (single t).apply v target = (list [t]).apply v target)
    ∧ (∀ name ts, (group name ts false).apply v target = (list ts).apply v target)
    ∧ (∀ name ts, (group name ts true).apply v target
        = (list (ts.map Transformer.ungated)).apply v target)
    ∧ infer.apply v target = (list (inferable target)).apply v target
    ∧ ∀ xs ys, (list (xs ++ ys)).apply v target
        = ((list xs).apply v target).orElse ((list ys).apply v target) := by
  refine ⟨fun t => rfl, fun name ts => rfl, fun name ts => ?_, apply_infer v target, ?_⟩
  · exact (attempt_ungated v target ts).symm
  · exact fun xs ys => attempt_append v target true xs ys

end Directive

end CheckedConfig
