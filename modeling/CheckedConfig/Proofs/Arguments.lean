import Mathlib.Data.List.Basic
import CheckedConfig.Proofs.Nesting
import CheckedConfig.Proofs.Words

namespace CheckedConfig

namespace Arguments

def valuesOf (key : String) (settings : List (String × Value)) : List Value :=
  settings.filterMap fun s => if s.1 = key then some s.2 else none

def gathered : List Value → Option Value
  | [] => none
  | [x] => some x
  | xs => some (.array xs)

def Beside (key other : String) : Prop :=
  other ≠ "" → ¬ Path.Below other key ∧ ¬ Path.Below key other

instance (key other : String) : Decidable (Beside key other) :=
  inferInstanceAs (Decidable (other ≠ "" → ¬ Path.Below other key ∧ ¬ Path.Below key other))

def setting? : Argument → Option (String × Value)
  | .setting key x => some (key, x)
  | .positional _ => none

def positional? : Argument → Option Value
  | .setting _ _ => none
  | .positional x => some x

variable {words : List String} {us : List Use} {a : Arguments} {key : String} {x : Value}
  {xs : List Value} {done : List (String × Value)}

theorem some_collect (h : ∀ v ∈ xs, v.isContainer = false) :
    some (collect x (gathered xs)) = gathered (xs ++ [x]) := by
  match xs, h with
  | [], _ => rfl
  | [v], h =>
      have hv := h v List.mem_cons_self
      cases v with
      | array vs => cases hv
      | object fs => cases hv
      | _ => rfl
  | v :: w :: vs, _ => rfl

theorem valuesOf_append_self (key : String) (done : List (String × Value)) (x : Value) :
    valuesOf key (done ++ [(key, x)]) = valuesOf key done ++ [x] := by
  simp [valuesOf]

theorem valuesOf_append_of_ne {other : String} (h : other ≠ key) :
    valuesOf key (done ++ [(other, x)]) = valuesOf key done := by
  simp [valuesOf, h]

theorem isContainer_of_mem_valuesOf (h : ∀ s ∈ done, s.2.isContainer = false) :
    ∀ v ∈ valuesOf key done, v.isContainer = false := by
  intro v hv
  obtain ⟨s, hs, hsv⟩ := List.mem_filterMap.mp hv
  obtain ⟨-, rfl⟩ := Option.ite_some_none_eq_some.mp hsv
  exact h s hs

structure Keeps (key : String) (done : List (String × Value)) (a : Arguments) : Prop where
  holds : a.named.Holds (Path.split key) (gathered (valuesOf key done))
  dotless : a.named.Dotless

theorem Keeps.add (h : Keeps key done a) (hscalar : ∀ s ∈ done, s.2.isContainer = false)
    {other : String} (hother : Beside key other) :
    Keeps key (done ++ [(other, x)]) (a.add (.setting other x)) := by
  refine ⟨?_, h.dotless.insertNested other _⟩
  by_cases hkey : other = key
  · subst hkey
    rw [valuesOf_append_self, ← some_collect (isContainer_of_mem_valuesOf hscalar),
      ← h.holds.get?]
    exact Fields.holds_insertNested _ _ h.holds.ne_nil
  · rw [valuesOf_append_of_ne hkey]
    by_cases hempty : other = ""
    · subst hempty
      exact h.holds
    · obtain ⟨hbelow, habove⟩ := hother hempty
      exact h.holds.insertNested (Path.not_prefix_of_not_below (Ne.symm hkey) habove)
        (Path.not_prefix_of_not_below hkey hbelow)

theorem Keeps.foldl {arguments : List Argument} (h : Keeps key done a)
    (hscalar : ∀ s ∈ done ++ arguments.filterMap setting?, s.2.isContainer = false)
    (hbeside : ∀ s ∈ arguments.filterMap setting?, Beside key s.1) :
    Keeps key (done ++ arguments.filterMap setting?) (arguments.foldl Arguments.add a) := by
  induction arguments generalizing done a with
  | nil => simpa using h
  | cons argument arguments ih =>
      cases argument with
      | positional v => exact ih (a := a.add (.positional v)) ⟨h.holds, h.dotless⟩ hscalar hbeside
      | setting other x =>
          rw [List.filterMap_cons] at hscalar hbeside ⊢
          simp only [setting?] at hscalar hbeside ⊢
          rw [List.append_cons] at hscalar ⊢
          have hdone : ∀ s ∈ done, s.2.isContainer = false :=
            fun s hs => hscalar s (by simp [hs])
          rw [List.forall_mem_cons] at hbeside
          exact ih (h.add hdone hbeside.1) hscalar hbeside.2

end Arguments

end CheckedConfig
