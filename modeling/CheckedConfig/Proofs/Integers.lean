import Mathlib.Data.Rat.Floor
import CheckedConfig.Proofs.Rounding
import CheckedConfig.Proofs.Sameness

namespace CheckedConfig

def towardZero (x : ℚ) : Int := if x < 0 then ⌈x⌉ else ⌊x⌋

namespace Double

def value (d : Double) : ℚ := d.signed / unit

theorem steps_ofInt (i : Int) : (ofInt i).steps = nearest i.natAbs 1 * unit := rfl

theorem signed_ofInt_of_neg {i : Int} (h : i < 0) :
    (ofInt i).signed = -((nearest i.natAbs 1 * unit : Nat) : Int) := by
  have hnegative : (ofInt i).negative = true := decide_eq_true h
  rw [signed, if_pos hnegative, steps_ofInt]

theorem signed_ofInt_of_nonneg {i : Int} (h : 0 ≤ i) :
    (ofInt i).signed = ((nearest i.natAbs 1 * unit : Nat) : Int) := by
  have hnegative : ¬ (ofInt i).negative = true := by
    rw [Bool.not_eq_true]
    exact decide_eq_false (Int.not_lt.mpr h)
  rw [signed, if_neg hnegative, steps_ofInt]

theorem signed_ofInt_lt_zero_iff (i : Int) : (ofInt i).signed < 0 ↔ i < 0 := by
  constructor
  · intro h
    by_contra hi
    rw [signed_ofInt_of_nonneg (Int.not_lt.mp hi)] at h
    omega
  · intro h
    have hpos : 0 < nearest i.natAbs 1 * unit :=
      Nat.mul_pos (nearest_pos (Int.natAbs_pos.mpr (by omega))) unit_pos
    rw [signed_ofInt_of_neg h]
    omega

theorem signed_ofInt_mono {i j : Int} (h : i ≤ j) : (ofInt i).signed ≤ (ofInt j).signed := by
  have hsteps {n m : Nat} (hnm : n ≤ m) : nearest n 1 * unit ≤ nearest m 1 * unit :=
    Nat.mul_le_mul_right _ (nearest_mono hnm)
  by_cases hi : i < 0
  · rw [signed_ofInt_of_neg hi]
    by_cases hj : j < 0
    · rw [signed_ofInt_of_neg hj]
      have hle := hsteps (n := j.natAbs) (m := i.natAbs) (by omega)
      omega
    · rw [signed_ofInt_of_nonneg (Int.not_lt.mp hj)]
      omega
  · rw [signed_ofInt_of_nonneg (Int.not_lt.mp hi), signed_ofInt_of_nonneg (by omega)]
    have hle := hsteps (n := i.natAbs) (m := j.natAbs) (by omega)
    omega

theorem signed_ofInt_eq_iff {i j : Int} : (ofInt i).signed = (ofInt j).signed ↔ ofInt i = ofInt j := by
  constructor
  · intro h
    have hsteps := steps_of_signed_eq h
    have hsign : i < 0 ↔ j < 0 := by
      rw [← signed_ofInt_lt_zero_iff i, ← signed_ofInt_lt_zero_iff j, h]
    simp only [ofInt] at hsteps ⊢
    rw [hsteps, decide_eq_decide.mpr hsign]
  · exact congrArg signed

theorem same_ofInt_iff {i j : Int} : (ofInt i).same (ofInt j) = true ↔ ofInt i = ofInt j := by
  rw [same_iff, signed_ofInt_eq_iff]

theorem less_ofInt_iff {i j : Int} :
    (ofInt i).less (ofInt j) = true ↔ i < j ∧ ofInt i ≠ ofInt j := by
  rw [less, decide_eq_true_iff, ne_eq, ← signed_ofInt_eq_iff]
  constructor
  · intro h
    refine ⟨?_, Int.ne_of_lt h⟩
    by_contra hij
    have hle := signed_ofInt_mono (Int.not_lt.mp hij)
    omega
  · rintro ⟨hij, hne⟩
    have hle := signed_ofInt_mono (Int.le_of_lt hij)
    omega

theorem ofInt_eq_iff {i j : Int} (hi : Significant i.natAbs) (hj : Significant j.natAbs) :
    ofInt i = ofInt j ↔ i = j := by
  constructor
  · intro h
    rw [← truncate_ofInt hi, h, truncate_ofInt hj]
  · exact congrArg ofInt

theorem natAbs_sub_le_of_ofInt_eq {i j : Int} (h : ofInt i = ofInt j) :
    (i - j).natAbs ≤ 2 ^ spare (max i.natAbs j.natAbs) := by
  have hsign : i < 0 ↔ j < 0 := by
    rw [← signed_ofInt_lt_zero_iff i, ← signed_ofInt_lt_zero_iff j, h]
  have hsteps : nearest i.natAbs 1 = nearest j.natAbs 1 := by
    have hunits := congrArg steps h
    rw [steps_ofInt, steps_ofInt] at hunits
    exact Nat.eq_of_mul_eq_mul_right unit_pos hunits
  have hgap {n : Nat} (hn : n ≤ max i.natAbs j.natAbs) :
      2 * ((nearest n 1 : Nat) - n : Int).natAbs ≤ 2 ^ spare (max i.natAbs j.natAbs) :=
    Nat.le_trans (nearest_error n) (Nat.pow_le_pow_right (by decide) (spare_mono hn))
  have hi := hgap (Nat.le_max_left i.natAbs j.natAbs)
  have hj := hgap (Nat.le_max_right i.natAbs j.natAbs)
  rw [hsteps] at hi
  omega

theorem floor_div_unit (n : Nat) : ⌊(n : ℚ) / unit⌋ = ((n / unit : Nat) : Int) := by
  have h := Rat.floor_intCast_div_natCast (n : Int) unit
  rw [Int.cast_natCast] at h
  exact h

theorem truncate_eq (d : Double) : d.truncate = towardZero d.value := by
  have hquotient : (0 : ℚ) ≤ d.steps / unit := div_nonneg (Nat.cast_nonneg _) (Nat.cast_nonneg _)
  by_cases hneg : d.negative = true
  · have hvalue : d.value = -((d.steps : ℚ) / unit) := by
      rw [value, signed, if_pos hneg, Int.cast_neg, Int.cast_natCast, neg_div]
    have hceil : towardZero d.value = ⌈d.value⌉ := by
      rcases lt_or_eq_of_le (neg_nonpos.mpr hquotient) with hlt | heq
      · rw [towardZero, hvalue, if_pos hlt]
      · rw [hvalue, heq]
        rfl
    rw [hceil, hvalue, Int.ceil_neg, floor_div_unit, truncate, if_pos hneg]
  · have hvalue : d.value = (d.steps : ℚ) / unit := by
      rw [value, signed, if_neg hneg, Int.cast_natCast]
    rw [towardZero, hvalue, if_neg (not_lt.mpr hquotient), floor_div_unit, truncate, if_neg hneg]

end Double

namespace Transformer

theorem run_integer (target : Option KindSet) {v : Value} {d : Double}
    (h : v.readNumber = some d) :
    integer.run v target =
      match toInteger? d with
      | some i => .replace (.int i)
      | none => .fail "Cannot convert to integer" := by
  cases hi : toInteger? d with
  | some i => simp only [integer, h, Option.bind_some, hi]
  | none => simp only [integer, h, Option.bind_some, hi]

theorem integer_cuts (target : Option KindSet) {v : Value} {d : Double}
    (h : v.readNumber = some d) :
    let i := towardZero d.value
    (fitsInt64 i = true → integer.run v target = .replace (.int i))
      ∧ (i = 2 ^ 63 → integer.run v target = .replace (.int (2 ^ 63 - 1)))
      ∧ (fitsInt64 i = false → i ≠ 2 ^ 63 →
          integer.run v target = .fail "Cannot convert to integer") := by
  intro i
  have hi : d.truncate = i := d.truncate_eq
  have hpow : Int.pow 2 63 = 2 ^ 63 := rfl
  rw [run_integer target h, toInteger?, hi, fitsInt64, hpow]
  refine ⟨?_, ?_, ?_⟩
  · intro hfits
    simp only [Bool.and_eq_true, decide_eq_true_iff] at hfits
    rw [if_pos ⟨hfits.1, Int.le_of_lt hfits.2⟩, Int.min_eq_left (by omega)]
  · intro heq
    rw [if_pos (by omega), Int.min_eq_right (by omega)]
  · intro hout hne
    simp only [Bool.and_eq_false_iff, decide_eq_false_iff_not] at hout
    rw [if_neg (by omega)]

theorem integer_cuts_least :
    ∃ d, (Value.string " -9223372036854775808.9").readNumber = some d
      ∧ fitsInt64 (towardZero d.value) = true
      ∧ integer.run (.string " -9223372036854775808.9") none
          = .replace (.int (towardZero d.value))
      ∧ towardZero d.value = -2 ^ 63 := by
  obtain ⟨d, hd, hcut⟩ : ∃ d, (Value.string " -9223372036854775808.9").readNumber = some d
      ∧ d.truncate = -2 ^ 63 := by
    have h : (Value.string " -9223372036854775808.9").readNumber.map Double.truncate
        = some (-2 ^ 63) := by decide +kernel
    exact Option.map_eq_some_iff.mp h
  rw [Double.truncate_eq] at hcut
  have hfits : fitsInt64 (towardZero d.value) = true := by
    rw [hcut]
    decide
  exact ⟨d, hd, hfits, (integer_cuts none hd).1 hfits, hcut⟩

theorem integer_beyond_greatest :
    ∃ d, (Value.string "9223372036854775808").readNumber = some d
      ∧ integer.run (.string "9223372036854775808") none = .replace (.int (2 ^ 63 - 1))
      ∧ towardZero d.value ≠ 2 ^ 63 - 1 := by
  obtain ⟨d, hd, hcut⟩ : ∃ d, (Value.string "9223372036854775808").readNumber = some d
      ∧ d.truncate = 2 ^ 63 := by
    have h : (Value.string "9223372036854775808").readNumber.map Double.truncate
        = some (2 ^ 63) := by decide +kernel
    exact Option.map_eq_some_iff.mp h
  have hrun : toInteger? d = some (2 ^ 63 - 1) := by
    rw [toInteger?, hcut]
    rfl
  refine ⟨d, hd, ?_, ?_⟩
  · rw [run_integer none hd, hrun]
  · rw [← Double.truncate_eq, hcut]
    decide

end Transformer

end CheckedConfig
