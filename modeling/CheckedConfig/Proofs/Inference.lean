import CheckedConfig.Proofs.Coercion
import CheckedConfig.Proofs.Rounding

namespace CheckedConfig

namespace Transformer

def offer? (s : KindSet) (v : Value) (t : Transformer) : Option Value :=
  if s.has t.output && t.admits (Kind.of v) then t.replacement? v (some s) else none

variable (s : KindSet) (v : Value)

theorem offer?_number :
    number.offer? s v
      = if s.has .number && number.admits (Kind.of v) then
          v.readNumber.map Value.ofDouble
        else none := by
  cases v with
  | number n => simp [offer?, admits, number, Kind.of]
  | array vs => simp [offer?, admits, number, Kind.of]
  | object fs => simp [offer?, admits, number, Kind.of]
  | null => rfl
  | bool b => rfl
  | string t =>
      simp only [offer?, number, replacement?, Value.isNumber]
      cases Value.readNumber (.string t) <;> rfl

theorem offer?_string :
    string.offer? s v = if s.has .string then some (.string v.display) else none := by
  rw [offer?, show string.admits (Kind.of v) = true from rfl, Bool.and_true]
  rfl

theorem offer?_integer :
    integer.offer? s v
      = if s.has .integer && integer.admits (Kind.of v) then
          (v.readNumber.bind toInteger?).map Value.int
        else none := by
  simp only [offer?, integer, replacement?]
  cases v.readNumber.bind toInteger? <;> rfl

theorem offer?_boolean :
    boolean.offer? s v = if s.has .boolean then some (.bool v.isTruthy) else none := by
  rw [offer?, show boolean.admits (Kind.of v) = true from rfl, Bool.and_true]
  rfl

theorem offer?_array :
    array.offer? s v = if s.has .array && !v.isArray then some (.array [v]) else none := by
  rw [offer?, show array.admits (Kind.of v) = true from rfl, Bool.and_true]
  simp only [array, replacement?]
  cases v.isArray <;> simp

end Transformer

namespace Directive

open Transformer

theorem findSome?_filter {α β : Type} (p : α → Bool) (f : α → Option β) (l : List α) :
    (l.filter p).findSome? f = l.findSome? fun a => if p a then f a else none := by
  induction l with
  | nil => rfl
  | cons a l ih =>
      rw [List.filter_cons, List.findSome?_cons]
      split
      · rw [List.findSome?_cons, ih]
      · exact ih

theorem infer_eq (s : KindSet) (v : Value) :
    (infer.apply v (some s)).value
      = (number.offer? s v).or ((string.offer? s v).or
          ((integer.offer? s v).or ((boolean.offer? s v).or (array.offer? s v)))) := by
  have hfirst : (infer.apply v (some s)).value = builtins.findSome? (·.offer? s v) := by
    rw [apply, attempt_eq, candidates, findSome?_filter]
    rfl
  rw [hfirst, builtins]
  simp only [List.findSome?_cons, List.findSome?_nil]
  cases number.offer? s v <;> cases string.offer? s v <;> cases integer.offer? s v
    <;> cases boolean.offer? s v <;> cases array.offer? s v <;> rfl

variable {s : KindSet} {v w : Value}

inductive Infers (s : KindSet) (v : Value) : Value → Prop where
  | number {d : Double} : s.has .number = true → v.readNumber = some d →
      Infers s v (Value.ofDouble d)
  | string : s.has .string = true → Infers s v (.string v.display)
  | integer {i : Int} : s.has .string = false → s.has .integer = true →
      v.readNumber.bind toInteger? = some i → Infers s v (.int i)
  | boolean : s.has .string = false → s.has .boolean = true → Infers s v (.bool v.isTruthy)
  | array : s.has .string = false → s.has .boolean = false → Infers s v (.array [v])

theorem infers_of_infer (h : (infer.apply v (some s)).value = some w) : Infers s v w := by
  rw [infer_eq] at h
  simp only [offer?_number, offer?_string, offer?_integer, offer?_boolean, offer?_array] at h
  rcases Option.or_eq_some_iff.mp h with hnumber | ⟨-, h⟩
  · obtain ⟨hgate, hread⟩ := Option.ite_none_right_eq_some.mp hnumber
    obtain ⟨d, hd, rfl⟩ := Option.map_eq_some_iff.mp hread
    exact .number (Bool.and_eq_true_iff.mp hgate).1 hd
  rcases Option.or_eq_some_iff.mp h with hstring | ⟨hstring, h⟩
  · obtain ⟨hhas, hw⟩ := Option.ite_none_right_eq_some.mp hstring
    obtain rfl := Option.some.inj hw
    exact .string hhas
  have hstring : s.has .string = false := by simpa using hstring
  rcases Option.or_eq_some_iff.mp h with hinteger | ⟨-, h⟩
  · obtain ⟨hgate, hread⟩ := Option.ite_none_right_eq_some.mp hinteger
    obtain ⟨i, hi, rfl⟩ := Option.map_eq_some_iff.mp hread
    exact .integer hstring (Bool.and_eq_true_iff.mp hgate).1 hi
  rcases Option.or_eq_some_iff.mp h with hboolean | ⟨hboolean, h⟩
  · obtain ⟨hhas, hw⟩ := Option.ite_none_right_eq_some.mp hboolean
    obtain rfl := Option.some.inj hw
    exact .boolean hstring hhas
  · have hboolean : s.has .boolean = false := by simpa using hboolean
    obtain ⟨-, hw⟩ := Option.ite_none_right_eq_some.mp h
    obtain rfl := Option.some.inj hw
    exact .array hstring hboolean

theorem infer_string (t : String) (hstring : s.has .string = true) :
    (infer.apply (.string t) (some s)).value
      = (if s.has .number then (readNumeral t).map Value.ofDouble else none).or
          (some (.string t)) := by
  rw [infer_eq, offer?_number, offer?_string, if_pos hstring,
    show number.admits (Kind.of (.string t)) = true from rfl,
    Bool.and_true, Option.some_or]
  rfl

theorem infer_bool (b : Bool) (hstring : s.has .string = false) (hboolean : s.has .boolean = true) :
    (infer.apply (.bool b) (some s)).value
      = (if s.has .number then some (Value.ofDouble (.ofNat b.toNat)) else none).or
          (some (.bool b)) := by
  rw [infer_eq, offer?_number, offer?_string, offer?_integer, offer?_boolean, if_pos hboolean,
    show number.admits (Kind.of (.bool b)) = true from rfl,
    show integer.admits (Kind.of (.bool b)) = false from rfl,
    Bool.and_true, Bool.and_false, hstring, if_neg Bool.false_ne_true, if_neg Bool.false_ne_true,
    Option.none_or, Option.none_or, Option.some_or]
  rfl

theorem infer_number (n : Number) :
    (infer.apply (.number n) (some s)).value
      = (if s.has .string then some (.string n.display) else none).or
          ((if s.has .integer then (toInteger? n.toDouble).map Value.int else none).or
            ((if s.has .boolean then some (.bool (Value.number n).isTruthy) else none).or
              (if s.has .array then some (.array [.number n]) else none))) := by
  rw [infer_eq, offer?_number, offer?_string, offer?_integer, offer?_boolean, offer?_array,
    show number.admits (Kind.of (.number n)) = false from rfl,
    show integer.admits (Kind.of (.number n)) = true from rfl,
    show (!(Value.number n).isArray) = true from rfl,
    Bool.and_false, Bool.and_true, Bool.and_true, if_neg Bool.false_ne_true, Option.none_or]
  rfl

theorem infer_array (vs : List Value) (hstring : s.has .string = false)
    (hboolean : s.has .boolean = false) :
    (infer.apply (.array vs) (some s)).value = none := by
  rw [infer_eq, offer?_number, offer?_string, offer?_integer, offer?_boolean, offer?_array,
    hstring, hboolean]
  simp [admits, number, integer, Kind.of, Value.isArray]

def unsettled (s : KindSet) : Value → Bool
  | .string t => s.has .number && (readNumeral t).isSome
  | .bool _ => s.has .number
  | .number (.int _) => s.has .string || !s.has .integer && (s.has .boolean || s.has .array)
  | .number (.real d) =>
      s.has .string || s.has .integer && (toInteger? d).isSome || s.has .boolean || s.has .array
  | _ => false

structure Foretold (s : KindSet) (w : Value) : Prop where
  stays : unsettled s w = false → ∀ u, (infer.apply w (some s)).value = some u → u = w
  turns : unsettled s w = true → ∃ u, (infer.apply w (some s)).value = some u ∧ u.same w = false

theorem foretold_of_or {other again : Option Value}
    (h : (infer.apply w (some s)).value = other.or again) (hagain : ∀ u, again = some u → u = w)
    (hother : other.isSome = unsettled s w) (hdiffers : ∀ u, other = some u → u.same w = false) :
    Foretold s w := by
  constructor
  · intro hstays u hu
    rw [hstays] at hother
    rw [h, Option.not_isSome_iff_eq_none.mp (Bool.eq_false_iff.mp hother), Option.none_or] at hu
    exact hagain u hu
  · intro hturns
    obtain ⟨u, hu⟩ := Option.isSome_iff_exists.mp (hother.trans hturns)
    exact ⟨u, by rw [h, hu, Option.some_or], hdiffers u hu⟩

theorem foretold_string (t : String) (hstring : s.has .string = true) :
    Foretold s (.string t) := by
  refine foretold_of_or (infer_string t hstring) (fun u hu => (Option.some.inj hu).symm) ?_ ?_
  · rw [unsettled]
    cases s.has .number
    · rfl
    · exact Option.isSome_map ..
  · intro u hu
    obtain ⟨-, hread⟩ := Option.ite_none_right_eq_some.mp hu
    obtain ⟨d, -, rfl⟩ := Option.map_eq_some_iff.mp hread
    obtain ⟨n, hn⟩ := exists_ofDouble_eq d
    rw [hn]
    rfl

theorem foretold_bool (b : Bool) (hstring : s.has .string = false)
    (hboolean : s.has .boolean = true) : Foretold s (.bool b) := by
  have heq := infer_bool b hstring hboolean
  refine foretold_of_or heq (fun u hu => (Option.some.inj hu).symm) ?_ ?_
  · rw [unsettled]
    cases s.has .number <;> rfl
  · intro u hu
    obtain ⟨-, hread⟩ := Option.ite_none_right_eq_some.mp hu
    obtain ⟨n, hn⟩ := exists_ofDouble_eq (.ofNat b.toNat)
    rw [← Option.some.inj hread, hn]
    rfl

theorem foretold_array (vs : List Value) (hstring : s.has .string = false)
    (hboolean : s.has .boolean = false) : Foretold s (.array vs) := by
  have heq : (infer.apply (.array vs) (some s)).value = (none : Option Value).or none :=
    infer_array vs hstring hboolean
  exact foretold_of_or heq (fun _ hu => nomatch hu) rfl fun _ hu => nomatch hu

theorem foretold_real (d : Double) : Foretold s (.number (.real d)) := by
  refine foretold_of_or ((infer_number (.real d)).trans Option.or_none.symm) ?_ ?_ ?_
  · exact fun _ hu => nomatch hu
  · simp only [Option.isSome_or, unsettled]
    cases s.has .string <;> cases s.has .integer <;> cases s.has .boolean <;> cases s.has .array
      <;> simp [Number.toDouble]
  · intro u hu
    simp only [Option.or_eq_some_iff, Option.ite_none_right_eq_some, Option.map_eq_some_iff,
      Option.some.injEq] at hu
    rcases hu with ⟨-, rfl⟩ | ⟨-, ⟨-, i, -, rfl⟩ | ⟨-, ⟨-, rfl⟩ | ⟨-, -, rfl⟩⟩⟩
    · rfl
    · rfl
    · rfl
    · rfl

theorem foretold_int {i : Int} (hi : toInteger? (.ofInt i) = some i) : Foretold s (.int i) := by
  have heq := infer_number (s := s) (.int i)
  cases hinteger : s.has .integer with
  | true =>
      rw [hinteger, if_pos rfl, show (Number.int i).toDouble = .ofInt i from rfl, hi,
        Option.map_some, Option.some_or] at heq
      refine foretold_of_or heq (fun u hu => (Option.some.inj hu).symm) ?_ ?_
      · rw [Value.int, unsettled, hinteger]
        cases s.has .string <;> rfl
      · intro u hu
        obtain ⟨-, hu⟩ := Option.ite_none_right_eq_some.mp hu
        rw [← Option.some.inj hu]
        rfl
  | false =>
      rw [hinteger, if_neg Bool.false_ne_true, Option.none_or] at heq
      refine foretold_of_or (heq.trans Option.or_none.symm) (fun _ hu => nomatch hu) ?_ ?_
      · rw [Value.int, unsettled, hinteger]
        cases s.has .string <;> cases s.has .boolean <;> cases s.has .array <;> rfl
      · intro u hu
        simp only [Option.or_eq_some_iff, Option.ite_none_right_eq_some, Option.some.injEq] at hu
        rcases hu with ⟨-, rfl⟩ | ⟨-, ⟨-, rfl⟩ | ⟨-, -, rfl⟩⟩
        · rfl
        · rfl
        · rfl

theorem foretold_ofDouble {d : Double} (hd : Significant d.steps) :
    Foretold s (Value.ofDouble d) := by
  unfold Value.ofDouble
  split
  · next hsafe =>
      refine foretold_int (toInteger?_ofInt hd (toInteger?_of_safe ?_))
      exact of_decide_eq_true (Bool.and_eq_true_iff.mp hsafe).2
  · exact foretold_real d

theorem foretold_of_infers (hv : v.Rounded) (h : Infers s v w) : Foretold s w := by
  cases h with
  | number _ hd => exact foretold_ofDouble (hv.readNumber hd)
  | string hstring => exact foretold_string v.display hstring
  | integer _ _ hi =>
      obtain ⟨d, hd, hint⟩ := Option.bind_eq_some_iff.mp hi
      exact foretold_int (toInteger?_ofInt (hv.readNumber hd) hint)
  | boolean hstring hboolean => exact foretold_bool v.isTruthy hstring hboolean
  | array hstring hboolean => exact foretold_array [v] hstring hboolean

def Single (s : KindSet) : Prop := ∀ j k, s.has j = true → s.has k = true → j = k

theorem settled_of_single (hs : Single s) (h : Infers s v w) : unsettled s w = false := by
  have hother {j : Kind} (hj : s.has j = true) (k : Kind) (hne : j ≠ k) : s.has k = false :=
    Bool.eq_false_iff.mpr fun hk => hne (hs j k hj hk)
  cases h with
  | @number d hnumber _ =>
      have hstring := hother hnumber .string (by decide)
      have hinteger := hother hnumber .integer (by decide)
      have hboolean := hother hnumber .boolean (by decide)
      have harray := hother hnumber .array (by decide)
      obtain ⟨n, hn⟩ := exists_ofDouble_eq d
      rw [hn]
      cases n with
      | int i => simp [unsettled, hstring, hboolean, harray]
      | real e => simp [unsettled, hstring, hinteger, hboolean, harray]
  | string hstring =>
      have hnumber := hother hstring .number (by decide)
      simp [unsettled, hnumber]
  | integer hstring hinteger _ => simp [unsettled, hstring, hinteger, Value.int]
  | boolean _ hboolean =>
      have hnumber := hother hboolean .number (by decide)
      simp [unsettled, hnumber]
  | array _ _ => rfl

theorem infer_again (hv : v.Rounded) (h : (infer.apply v (some s)).value = some w) :
    (unsettled s w = false → ∀ u, (infer.apply w (some s)).value = some u → u = w)
    ∧ (unsettled s w = true →
        ∃ u, (infer.apply w (some s)).value = some u ∧ u.same w = false)
    ∧ (Single s → unsettled s w = false) := by
  have hinfers := infers_of_infer h
  have hforetold := foretold_of_infers hv hinfers
  exact ⟨hforetold.stays, hforetold.turns, fun hs => settled_of_single hs hinfers⟩

theorem infer_again_integer_or_boolean :
    let s : KindSet := .many [.integer, .boolean]
    ∃ w, (infer.apply (.string "12.9") (some s)).value = some w ∧ w.display = "12"
      ∧ unsettled s w = false
      ∧ ∀ u, (infer.apply w (some s)).value = some u → u = w := by
  intro s
  have hfirst : (infer.apply (.string "12.9") (some s)).value.map
      (fun w => (w.display, unsettled s w)) = some ("12", false) := by decide +kernel
  obtain ⟨w, hw, hlook⟩ := Option.map_eq_some_iff.mp hfirst
  obtain ⟨hdisplay, hsettled⟩ := Prod.mk.inj hlook
  have hrounded : (Value.string "12.9").Rounded := fun _ hreal => nomatch hreal
  exact ⟨w, hw, hdisplay, hsettled, (infer_again hrounded hw).1 hsettled⟩

theorem infer_turns_back :
    let s : KindSet := .many [.string, .number]
    ∃ w u, (infer.apply (.string "12") (some s)).value = some w
      ∧ (infer.apply w (some s)).value = some u
      ∧ w.same (.int 12) = true ∧ u.same (.string "12") = true ∧ u.same w = false := by
  intro s
  have hruns : ((infer.apply (.string "12") (some s)).value.bind fun w =>
      (infer.apply w (some s)).value.map fun u =>
        (w.same (.int 12), u.same (.string "12"), u.same w)) = some (true, true, false) := by
    decide +kernel
  obtain ⟨w, hw, hagain⟩ := Option.bind_eq_some_iff.mp hruns
  obtain ⟨u, hu, hlook⟩ := Option.map_eq_some_iff.mp hagain
  simp only [Prod.mk.injEq] at hlook
  exact ⟨w, u, hw, hu, hlook⟩

end Directive

end CheckedConfig
