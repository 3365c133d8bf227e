import Mathlib.Algebra.Order.Ring.Int
import CheckedConfig.Coercion.Directive

namespace CheckedConfig

def Significant (n : Nat) : Prop := ∃ m e, m < 2 ^ 53 ∧ n = m * 2 ^ e

namespace Significant

theorem zero : Significant 0 := ⟨0, 0, by decide, rfl⟩

theorem of_le {m : Nat} (h : m ≤ 2 ^ 53) (e : Nat) : Significant (m * 2 ^ e) := by
  rcases Nat.lt_or_eq_of_le h with hlt | rfl
  · exact ⟨m, e, hlt, rfl⟩
  · refine ⟨2 ^ 52, e + 1, by decide, ?_⟩
    rw [Nat.pow_succ 2 e]
    omega

theorem mul_pow {n : Nat} (h : Significant n) (k : Nat) : Significant (n * 2 ^ k) := by
  obtain ⟨m, e, hm, rfl⟩ := h
  exact ⟨m, e + k, hm, by rw [Nat.mul_assoc, ← Nat.pow_add]⟩

theorem div_pow {n : Nat} (h : Significant n) (k : Nat) : Significant (n / 2 ^ k) := by
  obtain ⟨m, e, hm, rfl⟩ := h
  rcases Nat.le_total k e with hke | hek
  · refine ⟨m, e - k, hm, ?_⟩
    have hsplit : 2 ^ e = 2 ^ (e - k) * 2 ^ k := by rw [← Nat.pow_add, Nat.sub_add_cancel hke]
    rw [hsplit, ← Nat.mul_assoc, Nat.mul_div_cancel _ (Nat.two_pow_pos k)]
  · refine ⟨m / 2 ^ (k - e), 0, Nat.lt_of_le_of_lt (Nat.div_le_self ..) hm, ?_⟩
    have hsplit : 2 ^ k = 2 ^ (k - e) * 2 ^ e := by rw [← Nat.pow_add, Nat.sub_add_cancel hek]
    rw [hsplit, Nat.mul_div_mul_right _ _ (Nat.two_pow_pos e), Nat.pow_zero, Nat.mul_one]

theorem pow_spare_dvd {n : Nat} (h : Significant n) : 2 ^ Double.spare n ∣ n := by
  obtain ⟨m, e, hm, rfl⟩ := h
  by_cases hzero : m * 2 ^ e = 0
  · rw [hzero]
    exact Nat.dvd_zero _
  · have hlt : m * 2 ^ e < 2 ^ (53 + e) := by
      rw [Nat.pow_add]
      exact Nat.mul_lt_mul_of_pos_right hm (Nat.two_pow_pos e)
    have hlog : (m * 2 ^ e).log2 < 53 + e := (Nat.log2_lt hzero).mpr hlt
    have hspare : Double.spare (m * 2 ^ e) ≤ e := by
      unfold Double.spare
      omega
    exact Nat.dvd_trans (Nat.pow_dvd_pow 2 hspare) (Nat.dvd_mul_left ..)

end Significant

namespace Double

theorem divRound_mul (k : Nat) {g : Nat} (hg : 0 < g) : divRound (k * g) g = k := by
  simp [divRound, Nat.mul_div_cancel _ hg, hg]

theorem divRound_cases (num den : Nat) :
    (divRound num den = num / den ∧ 2 * (num % den) ≤ den)
      ∨ (divRound num den = num / den + 1 ∧ den ≤ 2 * (num % den)) := by
  simp only [divRound]
  split
  · omega
  · split
    · omega
    · omega

theorem divRound_le (num den : Nat) : divRound num den ≤ num / den + 1 := by
  rcases divRound_cases num den with ⟨hround, -⟩ | ⟨hround, -⟩
  · omega
  · omega

theorem nearest_one (n : Nat) : nearest n 1 = divRound n (2 ^ spare n) * 2 ^ spare n := by
  simp only [nearest, Nat.div_one, Nat.one_mul]
  rfl

theorem nearest_of_significant {n : Nat} (h : Significant n) : nearest n 1 = n := by
  obtain ⟨k, hk⟩ := h.pow_spare_dvd
  have hround := divRound_mul k (Nat.two_pow_pos (spare n))
  rw [Nat.mul_comm k, ← hk] at hround
  calc nearest n 1 = divRound n (2 ^ spare n) * 2 ^ spare n := by
        rw [nearest_one]
    _ = k * 2 ^ spare n := by rw [hround]
    _ = n := by rw [Nat.mul_comm, ← hk]

theorem divRound_spare_le (num den : Nat) :
    divRound num (den * 2 ^ spare (num / den)) ≤ 2 ^ 53 := by
  have hbound : num / den < 2 ^ 53 * 2 ^ spare (num / den) := by
    rw [← Nat.pow_add]
    refine Nat.lt_of_lt_of_le Nat.lt_log2_self (Nat.pow_le_pow_right (by decide) ?_)
    unfold spare
    omega
  have hquotient : num / (den * 2 ^ spare (num / den)) < 2 ^ 53 := by
    rw [← Nat.div_div_eq_div_mul]
    exact Nat.div_lt_of_lt_mul (Nat.mul_comm .. ▸ hbound)
  have hround := divRound_le num (den * 2 ^ spare (num / den))
  omega

theorem significant_nearest (num den : Nat) : Significant (nearest num den) :=
  Significant.of_le (divRound_spare_le num den) (spare (num / den))

theorem unit_eq_pow : ∃ k, unit = 2 ^ k := by
  unfold unit
  generalize 1074 = k
  exact ⟨k, Nat.pow_eq⟩

theorem unit_pos : 0 < unit := by
  obtain ⟨k, hk⟩ := unit_eq_pow
  rw [hk]
  exact Nat.two_pow_pos k

theorem significant_mul_unit {n : Nat} (h : Significant n) : Significant (n * unit) := by
  obtain ⟨k, hk⟩ := unit_eq_pow
  rw [hk]
  exact h.mul_pow k

theorem significant_div_unit {n : Nat} (h : Significant n) : Significant (n / unit) := by
  obtain ⟨k, hk⟩ := unit_eq_pow
  rw [hk]
  exact h.div_pow k

theorem natAbs_truncate (d : Double) : d.truncate.natAbs = d.steps / unit := by
  unfold truncate
  split
  · exact Int.natAbs_neg _
  · rfl

theorem truncate_of_steps {d : Double} {n : Nat} (h : d.steps = n * unit) :
    d.truncate = if d.negative then -(n : Int) else n := by
  rw [truncate, h, Nat.mul_div_cancel n unit_pos]

theorem truncate_ofInt {i : Int} (h : Significant i.natAbs) : (ofInt i).truncate = i := by
  have hsteps : (ofInt i).steps = i.natAbs * unit := by rw [ofInt, nearest_of_significant h]
  rw [truncate_of_steps hsteps, ofInt]
  split
  · next hi =>
      have hneg : i < 0 := of_decide_eq_true hi
      omega
  · next hi =>
      have hpos : ¬i < 0 := of_decide_eq_false (Bool.eq_false_iff.mpr hi)
      omega

theorem significant_natAbs_truncate {d : Double} (h : Significant d.steps) :
    Significant d.truncate.natAbs :=
  natAbs_truncate d ▸ significant_div_unit h

theorem significant_of_ofSteps? {negative : Bool} {n : Nat} {d : Double} (hn : Significant n)
    (h : ofSteps? negative n = some d) : Significant d.steps := by
  unfold ofSteps? at h
  split at h
  · obtain rfl := Option.some.inj h
    exact hn
  · cases h

theorem divRound_mono (den : Nat) {a b : Nat} (h : a ≤ b) : divRound a den ≤ divRound b den := by
  have hquotient : a / den ≤ b / den := Nat.div_le_div_right h
  have ha := divRound_cases a den
  have hb := divRound_cases b den
  rcases Nat.lt_or_eq_of_le hquotient with hlt | heq
  · omega
  · -- with one quotient, the remainders decide; only equal ones can tie
    have hsplit := Nat.div_add_mod a den
    have hsplit' := Nat.div_add_mod b den
    rw [heq] at hsplit
    by_cases hab : a = b
    · rw [hab]
    · omega

theorem spare_mono {n m : Nat} (h : n ≤ m) : spare n ≤ spare m := by
  have hlog : n.log2 ≤ m.log2 := by
    by_cases hn : n = 0
    · subst hn
      exact Nat.zero_le _
    · exact (Nat.le_log2 (by omega)).mpr (Nat.le_trans (Nat.log2_self_le hn) h)
  unfold spare
  omega

theorem le_divRound_spare {n : Nat} (h : 0 < spare n) : 2 ^ 52 ≤ divRound n (2 ^ spare n) := by
  have hne : n ≠ 0 := by
    rintro rfl
    simp [spare] at h
  have hlog : n.log2 = 52 + spare n := by
    unfold spare at h ⊢
    omega
  have hquotient : 2 ^ 52 ≤ n / 2 ^ spare n := by
    rw [Nat.le_div_iff_mul_le (Nat.two_pow_pos _), ← Nat.pow_add, ← hlog]
    exact Nat.log2_self_le hne
  have hround := divRound_cases n (2 ^ spare n)
  omega

theorem nearest_mono {n m : Nat} (h : n ≤ m) : nearest n 1 ≤ nearest m 1 := by
  rw [nearest_one, nearest_one]
  -- where the gap grows, the greatest double with the smaller gap lies between the two
  rcases Nat.lt_or_eq_of_le (spare_mono h) with hlt | heq
  · have hn : divRound n (2 ^ spare n) ≤ 2 ^ 53 := by
      have hle := divRound_spare_le n 1
      rwa [Nat.div_one, Nat.one_mul] at hle
    have hm : 2 ^ 52 ≤ divRound m (2 ^ spare m) := le_divRound_spare (by omega)
    calc divRound n (2 ^ spare n) * 2 ^ spare n
        ≤ 2 ^ 53 * 2 ^ spare n := Nat.mul_le_mul_right _ hn
      _ = 2 ^ 52 * 2 ^ (spare n + 1) := by
          rw [Nat.pow_succ 2 (spare n)]
          omega
      _ ≤ 2 ^ 52 * 2 ^ spare m := Nat.mul_le_mul_left _ (Nat.pow_le_pow_right (by decide) hlt)
      _ ≤ divRound m (2 ^ spare m) * 2 ^ spare m := Nat.mul_le_mul_right _ hm
  · rw [heq]
    exact Nat.mul_le_mul_right _ (divRound_mono _ h)

theorem nearest_pos {n : Nat} (h : 0 < n) : 0 < nearest n 1 := by
  have hone : nearest 1 1 = 1 := nearest_of_significant ⟨1, 0, by decide, rfl⟩
  calc 0 < 1 := Nat.one_pos
    _ = nearest 1 1 := hone.symm
    _ ≤ nearest n 1 := nearest_mono h

theorem divRound_error (num : Nat) {den : Nat} (hden : 0 < den) :
    2 * ((divRound num den * den : Nat) - num : Int).natAbs ≤ den := by
  have hsplit : num / den * den + num % den = num := Nat.div_add_mod' num den
  have hlt := Nat.mod_lt num hden
  rcases divRound_cases num den with ⟨hdown, hrest⟩ | ⟨hup, hrest⟩
  · rw [hdown]
    omega
  · rw [hup, Nat.add_one_mul (num / den) den]
    omega

theorem nearest_error (n : Nat) : 2 * ((nearest n 1 : Nat) - n : Int).natAbs ≤ 2 ^ spare n := by
  rw [nearest_one]
  exact divRound_error n (Nat.two_pow_pos _)

end Double

theorem Decimal.significant_of_toDouble? {c : Decimal} {d : Double} (h : c.toDouble? = some d) :
    Significant d.steps := by
  simp only [toDouble?] at h
  split at h
  · obtain rfl := Option.some.inj h
    exact .zero
  · split at h
    · cases h
    · split at h
      · exact Double.significant_of_ofSteps? (Double.significant_nearest ..) h
      · exact Double.significant_of_ofSteps? (Double.significant_nearest ..) h

theorem significant_of_readNumeral {s : String} {d : Double} (h : readNumeral s = some d) :
    Significant d.steps := by
  simp only [readNumeral] at h
  split at h
  · obtain rfl := Option.some.inj h
    exact .zero
  · split at h
    · obtain ⟨n, -, hn⟩ := Option.bind_eq_some_iff.mp h
      split at hn
      · obtain rfl := Option.some.inj hn
        exact Double.significant_mul_unit (Double.significant_nearest n 1)
      · cases hn
    · obtain ⟨c, -, hc⟩ := Option.bind_eq_some_iff.mp h
      exact Decimal.significant_of_toDouble? hc

namespace Value

def Rounded (v : Value) : Prop := ∀ d, v = .number (.real d) → Significant d.steps

theorem Rounded.readNumber {v : Value} (hv : v.Rounded) {d : Double}
    (h : v.readNumber = some d) : Significant d.steps := by
  cases v with
  | null =>
      obtain rfl := Option.some.inj h
      exact .zero
  | bool b =>
      obtain rfl := Option.some.inj h
      exact Double.significant_mul_unit (Double.significant_nearest b.toNat 1)
  | number n =>
      obtain rfl := Option.some.inj h
      cases n with
      | int i => exact Double.significant_mul_unit (Double.significant_nearest i.natAbs 1)
      | real d => exact hv d rfl
  | string s => exact significant_of_readNumeral h
  | array vs => cases h
  | object fs => cases h

end Value

namespace Transformer

theorem toInteger?_of_safe {d : Double} (h : d.steps ≤ Value.safeSteps) :
    toInteger? d = some d.truncate := by
  have habs : d.truncate.natAbs ≤ 2 ^ 53 := by
    rw [Double.natAbs_truncate]
    unfold Value.safeSteps at h
    generalize Double.unit = u at h ⊢
    exact Nat.div_le_of_le_mul (by rwa [Nat.mul_comm u])
  have hpow : Int.pow 2 63 = 2 ^ 63 := rfl
  simp only [toInteger?, hpow]
  rw [if_pos (by omega), Int.min_eq_left (by omega)]

theorem toInteger?_ofInt_limit : toInteger? (Double.ofInt (2 ^ 63 - 1)) = some (2 ^ 63 - 1) := by
  decide +kernel

theorem toInteger?_ofInt {d : Double} {i : Int} (hd : Significant d.steps)
    (h : toInteger? d = some i) : toInteger? (Double.ofInt i) = some i := by
  simp only [toInteger?, Option.ite_none_right_eq_some, Option.some.injEq] at h
  obtain ⟨⟨hlow, hhigh⟩, hmin⟩ := h
  rcases Int.le_total d.truncate (Int.pow 2 63 - 1) with hin | hout
  · obtain rfl : d.truncate = i := by omega
    simp only [toInteger?, Double.truncate_ofInt (Double.significant_natAbs_truncate hd)]
    rw [if_pos ⟨hlow, hhigh⟩, Int.min_eq_left hin]
  · obtain rfl : 2 ^ 63 - 1 = i := by
      rw [← hmin, Int.min_eq_right hout]
      rfl
    exact toInteger?_ofInt_limit

end Transformer

end CheckedConfig
