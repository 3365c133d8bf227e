import Mathlib.Order.Bounds.Basic
import CheckedConfig.Source.Descriptor

namespace CheckedConfig

section Stable

variable {α : Type} {key : α → Nat} {l : List α}

def sortBy (key : α → Nat) (l : List α) : List α := l.mergeSort fun a b => decide (key a ≤ key b)

theorem sortBy_perm (key : α → Nat) (l : List α) : (sortBy key l).Perm l := l.mergeSort_perm _

theorem key_trans (a b c : α) (hab : decide (key a ≤ key b) = true)
    (hbc : decide (key b ≤ key c) = true) : decide (key a ≤ key c) = true :=
  decide_eq_true (Nat.le_trans (of_decide_eq_true hab) (of_decide_eq_true hbc))

theorem key_total (a b : α) : (decide (key a ≤ key b) || decide (key b ≤ key a)) = true := by
  simpa using Nat.le_total (key a) (key b)

theorem sorted_sortBy (key : α → Nat) (l : List α) :
    (sortBy key l).Pairwise fun a b => key a ≤ key b :=
  (List.pairwise_mergeSort key_trans key_total l).imp of_decide_eq_true

theorem filter_sortBy (key : α → Nat) (l : List α) (k : Nat) :
    (sortBy key l).filter (key · == k) = l.filter (key · == k) := by
  have htied : (l.filter (key · == k)).Pairwise fun a b => decide (key a ≤ key b) = true := by
    refine List.pairwise_of_forall_mem_list ?_
    intro a ha b hb
    have hka : key a = k := eq_of_beq (List.mem_filter.mp ha).2
    have hkb : key b = k := eq_of_beq (List.mem_filter.mp hb).2
    exact decide_eq_true (Nat.le_of_eq (hka.trans hkb.symm))
  have hsub : (l.filter (key · == k)).Sublist (sortBy key l) :=
    List.sublist_mergeSort key_trans key_total htied List.filter_sublist
  have hkept := hsub.filter (key · == k)
  rw [List.filter_filter, List.filter_congr fun a _ => Bool.and_self (key a == k)] at hkept
  exact (hkept.eq_of_length ((sortBy_perm key l).filter _).length_eq.symm).symm

theorem filter_append_filter_not {p : α → Bool}
    (h : l.Pairwise fun a b => p b = true → p a = true) :
    l.filter p ++ l.filter (!p ·) = l := by
  induction l with
  | nil => rfl
  | cons a l ih =>
      obtain ⟨hfirst, hrest⟩ := List.pairwise_cons.mp h
      cases hp : p a with
      | true => simp [hp, ih hrest]
      | false =>
          have hnone : ∀ b ∈ a :: l, p b = false := by
            intro b hb
            rcases List.mem_cons.mp hb with rfl | hb
            · exact hp
            · exact Bool.eq_false_iff.mpr fun hpb => by simp [hfirst b hb hpb] at hp
          rw [List.filter_eq_nil_iff.mpr fun b hb => by simp [hnone b hb],
            List.filter_eq_self.mpr fun b hb => by simp [hnone b hb], List.nil_append]

theorem flatMap_range_of_sorted {n : Nat} (h : l.Pairwise fun a b => key a ≤ key b)
    (hbound : ∀ a ∈ l, key a < n) :
    ((List.range n).flatMap fun k => l.filter (key · == k)) = l := by
  induction n generalizing l with
  | zero =>
      obtain rfl := List.eq_nil_iff_forall_not_mem.mpr fun a ha => Nat.not_lt_zero _ (hbound a ha)
      rfl
  | succ n ih =>
      let below (a : α) : Bool := decide (key a < n)
      have hbelow : ((List.range n).flatMap fun k => l.filter (key · == k)) = l.filter below := by
        rw [← ih (h.filter below) fun a ha => of_decide_eq_true (List.mem_filter.mp ha).2,
          List.flatMap_def, List.flatMap_def]
        refine congrArg List.flatten (List.map_congr_left fun k hk => ?_)
        rw [List.filter_filter]
        refine List.filter_congr fun a _ => ?_
        by_cases hka : key a = k
        · simp [below, hka, List.mem_range.mp hk]
        · simp [hka]
      have hlast : l.filter (key · == n) = l.filter (!below ·) := by
        refine List.filter_congr fun a ha => ?_
        have hlt := hbound a ha
        rw [Bool.eq_iff_iff, beq_iff_eq, Bool.not_eq_true', decide_eq_false_iff_not]
        omega
      rw [List.range_succ, List.flatMap_append, hbelow, List.flatMap_singleton, hlast]
      refine filter_append_filter_not (h.imp fun {a b} hab hb => ?_)
      exact decide_eq_true (Nat.lt_of_le_of_lt hab (of_decide_eq_true hb))

theorem flatMap_range_eq_sortBy {n : Nat} (hbound : ∀ a ∈ l, key a < n) :
    ((List.range n).flatMap fun k => l.filter (key · == k)) = sortBy key l := by
  simp only [← filter_sortBy key l]
  exact flatMap_range_of_sorted (sorted_sortBy key l) fun a ha =>
    hbound a ((sortBy_perm key l).mem_iff.mp ha)

end Stable

namespace Descriptor

section Order

variable {selector : List String} {d : Descriptor}

def Selected (selector : List String) (d : Descriptor) : Prop :=
  d.groups = [] ∨ ∃ g ∈ selector, g ∈ d.groups

instance (selector : List String) (d : Descriptor) : Decidable (d.Selected selector) :=
  inferInstanceAs (Decidable (_ ∨ _))

def position (selector : List String) (d : Descriptor) : Nat :=
  if d.groups.isEmpty then selector.length else selector.findIdx d.inGroup

theorem inGroup_iff {g : String} : d.inGroup g = true ↔ g ∈ d.groups := List.contains_iff_mem

theorem position_of_ungrouped (h : d.groups = []) : d.position selector = selector.length := by
  rw [position, h]
  rfl

theorem position_of_grouped (h : d.groups ≠ []) :
    d.position selector = selector.findIdx d.inGroup := by
  rw [position, if_neg (by simpa using h)]

theorem findIdx_lt_iff (h : d.groups ≠ []) :
    selector.findIdx d.inGroup < selector.length ↔ d.Selected selector := by
  rw [List.findIdx_lt_length]
  simp only [Selected, h, false_or, inGroup_iff]

theorem position_isLeast (h : d.groups ≠ []) (hd : d.Selected selector) :
    IsLeast {i | ∃ g ∈ d.groups, selector[i]? = some g} (d.position selector) := by
  rw [position_of_grouped h]
  have hlt := (findIdx_lt_iff h).mpr hd
  constructor
  · exact ⟨selector[selector.findIdx d.inGroup], inGroup_iff.mp List.findIdx_getElem,
      List.getElem?_eq_getElem hlt⟩
  · rintro i ⟨g, hg, hi⟩
    obtain ⟨hlen, rfl⟩ := List.getElem?_eq_some_iff.mp hi
    refine Nat.le_of_not_lt fun hbefore => ?_
    have hnot := List.not_of_lt_findIdx hbefore
    rw [inGroup_iff.mpr hg] at hnot
    cases hnot

theorem position_lt (hd : d.Selected selector) : d.position selector < selector.length + 1 := by
  by_cases h : d.groups = []
  · rw [position_of_ungrouped h]
    exact Nat.lt_succ_self _
  · rw [position_of_grouped h]
    exact Nat.lt_succ_of_lt ((findIdx_lt_iff h).mpr hd)

theorem rank_eq_some_iff {i : Nat} :
    d.rank selector = some i ↔ d.Selected selector ∧ d.position selector = i := by
  by_cases h : d.groups = []
  · rw [position_of_ungrouped h, rank, h]
    simp [Selected, h]
  · rw [position_of_grouped h, rank, if_neg (by simpa using h),
      List.findIdx?_eq_some_iff_findIdx_eq, ← findIdx_lt_iff h]
    refine and_congr_left ?_
    rintro rfl
    rfl

theorem order_eq_sortBy (h : selector ≠ []) (ds : List Descriptor) :
    order selector ds
      = sortBy (position selector) (ds.filter fun d => decide (d.Selected selector)) := by
  have hbuckets (i : Nat) : ds.filter (·.rank selector == some i)
      = (ds.filter fun d => decide (d.Selected selector)).filter (position selector · == i) := by
    rw [List.filter_filter]
    refine List.filter_congr fun d _ => ?_
    rw [Bool.eq_iff_iff, beq_iff_eq, rank_eq_some_iff, Bool.and_eq_true, beq_iff_eq,
      decide_eq_true_eq, and_comm]
  rw [order, if_neg (by simpa using h)]
  simp only [hbuckets]
  refine flatMap_range_eq_sortBy fun d hd => position_lt ?_
  exact of_decide_eq_true (List.mem_filter.mp hd).2

theorem order_stable (selector : List String) (ds : List Descriptor) :
    order [] ds = ds
    ∧ (selector ≠ [] →
        order selector ds
          = sortBy (position selector) (ds.filter fun d => decide (d.Selected selector))
        ∧ (∀ d, d.Selected selector → (order selector ds).count d = ds.count d)
        ∧ (∀ d, ¬d.Selected selector → d ∉ order selector ds)
        ∧ ∀ i, (order selector ds).filter (position selector · == i)
            = (ds.filter fun d => decide (d.Selected selector)).filter (position selector · == i))
    ∧ ∀ d : Descriptor, (d.groups = [] → d.position selector = selector.length)
        ∧ (d.groups ≠ [] → d.Selected selector →
          IsLeast {i | ∃ g ∈ d.groups, selector[i]? = some g} (d.position selector)) := by
  refine ⟨rfl, fun h => ?_, fun d => ⟨position_of_ungrouped, position_isLeast⟩⟩
  rw [order_eq_sortBy h]
  have hperm := sortBy_perm (position selector) (ds.filter fun d => decide (d.Selected selector))
  refine ⟨rfl, fun d hd => ?_, fun d hd hmem => ?_, filter_sortBy _ _⟩
  · rw [hperm.count_eq]
    exact List.count_filter (decide_eq_true hd)
  · exact hd (of_decide_eq_true (List.mem_filter.mp (hperm.mem_iff.mp hmem)).2)

theorem order_stable_overlapping :
    let source (path : String) (groups : List String) : Descriptor :=
      ⟨path, [".json"], groups, true⟩
    let a := source "a" ["prod", "default"]
    let b := source "b" ["dev", "prod"]
    let d := source "d" ["test"]
    let ds := [a, b, source "c" [], d, a]
    let selector := ["dev", "prod", "dev"]
    (order selector ds).map path = ["b", "a", "a", "c"]
      ∧ (order selector ds).count a = 2 ∧ d ∉ order selector ds
      ∧ IsLeast {i | ∃ g ∈ b.groups, selector[i]? = some g} 0 := by
  intro source a b d ds selector
  obtain ⟨-, hselector, hposition⟩ := order_stable selector ds
  obtain ⟨-, hcount, hdropped, -⟩ := hselector (by decide)
  refine ⟨by decide +kernel, ?_, hdropped d (by decide +kernel), ?_⟩
  · rw [hcount a (by decide +kernel)]
    decide +kernel
  · exact (hposition b).2 (by decide) (by decide +kernel)

end Order

section Candidates

variable {d : Descriptor} {selector : List String} {groupSuffix : Option Bool}

def suffixText (suffix : Option String) : String := suffix.elim "" ("." ++ ·)

def named (d : Descriptor) (suffix : Option String) (ext : String) : Candidate :=
  ⟨d.path ++ suffixText suffix ++ ext, ext, suffix <|> d.groups.head?, .file⟩

def block (d : Descriptor) (suffix : Option String) : List Candidate := d.ext.map (d.named suffix)

theorem stems_eq (d : Descriptor) (selector : List String) (groupSuffix : Option Bool) :
    d.stems selector groupSuffix
      = ((if groupSuffix.getD d.groupSuffix then (d.suffixGroups selector).map some else [])
          ++ [none]).map fun suffix => (d.path ++ suffixText suffix, suffix) := by
  have hgroup (g : String) : d.path ++ "." ++ g = d.path ++ suffixText (some g) :=
    String.append_assoc ..
  have hbare : d.path = d.path ++ suffixText none := String.append_empty.symm
  rw [stems, List.map_append, List.map_singleton, ← hbare]
  congr 1
  split
  · rw [List.map_map]
    exact List.map_congr_left fun g _ => by rw [hgroup]; rfl
  · rfl

theorem candidates_eq (hext : Pathname.dottedExtension? d.path = none) :
    d.candidates selector groupSuffix
      = ((if groupSuffix.getD d.groupSuffix then (d.suffixGroups selector).map some else [])
          ++ [none]).flatMap d.block := by
  rw [candidates, hext, stems_eq, List.flatMap_map]
  rfl

theorem candidates_suffixed (hext : Pathname.dottedExtension? d.path = none)
    (hsuffix : groupSuffix.getD d.groupSuffix = true) :
    d.candidates selector groupSuffix
      = ((d.suffixGroups selector).map some).flatMap d.block ++ d.block none := by
  rw [candidates_eq hext, if_pos hsuffix, List.flatMap_append, List.flatMap_singleton]

theorem candidates_bare (hext : Pathname.dottedExtension? d.path = none)
    (hsuffix : groupSuffix.getD d.groupSuffix = false) :
    d.candidates selector groupSuffix = d.block none := by
  rw [candidates_eq hext, hsuffix, if_neg Bool.false_ne_true, List.nil_append,
    List.flatMap_singleton]

theorem suffixGroups_perm (hgroups : d.groups.Nodup) (hselector : selector.Nodup) :
    (d.suffixGroups selector).Perm d.groups := by
  have hapart : (d.suffixGroups selector).Nodup := by
    refine List.nodup_append.mpr ⟨hselector.filter _, hgroups.filter _, ?_⟩
    rintro g hchosen _ hother rfl
    have hmem := (List.mem_filter.mp hchosen).1
    simpa [hmem] using (List.mem_filter.mp hother).2
  refine (List.perm_ext_iff_of_nodup hapart hgroups).mpr fun g => ?_
  by_cases hmem : g ∈ selector
  · simp [suffixGroups, inGroup, hmem]
  · simp [suffixGroups, hmem]

theorem suffixGroups_filter (d : Descriptor) (selector : List String) :
    d.suffixGroups (selector.filter d.inGroup) = d.suffixGroups selector := by
  rw [suffixGroups, suffixGroups, List.filter_filter,
    List.filter_congr fun g _ => Bool.and_self (d.inGroup g)]
  congr 1
  refine List.filter_congr fun g hg => ?_
  simp [inGroup, hg]

theorem candidates_reordered (hext : Pathname.dottedExtension? d.path = none)
    (hgroups : d.groups.Nodup) :
    (∀ (selector : List String) (groupSuffix : Option Bool), selector.Nodup →
      groupSuffix.getD d.groupSuffix = true →
        ∃ chosen others : List String, (chosen ++ others).Perm d.groups
          ∧ chosen.Sublist selector ∧ others.Sublist d.groups ∧ (∀ g ∈ others, g ∉ selector)
          ∧ d.candidates selector groupSuffix
            = ((chosen ++ others).map some ++ [none]).flatMap d.block)
    ∧ (∀ (selector selector' : List String) (groupSuffix groupSuffix' : Option Bool),
        selector.Nodup → selector'.Nodup →
        groupSuffix.getD d.groupSuffix = true → groupSuffix'.getD d.groupSuffix = true →
          ∃ front front' : List Candidate, front.Perm front'
            ∧ d.candidates selector groupSuffix = front ++ d.block none
            ∧ d.candidates selector' groupSuffix' = front' ++ d.block none)
    ∧ (∀ selector groupSuffix,
        d.candidates (selector.filter d.inGroup) groupSuffix = d.candidates selector groupSuffix)
    ∧ (∀ selector groupSuffix, groupSuffix.getD d.groupSuffix = false →
        d.candidates selector groupSuffix = d.block none)
    ∧ ∀ c ∈ d.block none, c.group = d.groups.head? := by
  refine ⟨?_, ?_, ?_, fun _ _ => candidates_bare hext, ?_⟩
  · intro selector groupSuffix hselector hsuffix
    refine ⟨selector.filter d.inGroup, d.groups.filter (!selector.contains ·),
      suffixGroups_perm hgroups hselector, List.filter_sublist, List.filter_sublist, ?_, ?_⟩
    · intro g hg hmem
      simpa [hmem] using (List.mem_filter.mp hg).2
    · rw [candidates_eq hext, if_pos hsuffix]
      rfl
  · intro selector selector' groupSuffix groupSuffix' hselector hselector' hsuffix hsuffix'
    refine ⟨_, _, ?_, candidates_suffixed hext hsuffix, candidates_suffixed hext hsuffix'⟩
    have hperm := (suffixGroups_perm hgroups hselector).trans
      (suffixGroups_perm hgroups hselector').symm
    exact (hperm.map some).flatMap_right d.block
  · intro selector groupSuffix
    rw [candidates_eq hext, candidates_eq hext, suffixGroups_filter]
  · intro c hc
    obtain ⟨ext, -, rfl⟩ := List.mem_map.mp hc
    exact Option.none_or

theorem candidates_reordered_of_two_groups :
    let d : Descriptor := ⟨"conf/app", [".json", ".yaml"], ["prod", "default"], false⟩
    (d.candidates ["default", "test"] (some true)).map Candidate.path
        = ["conf/app.default.json", "conf/app.default.yaml", "conf/app.prod.json",
          "conf/app.prod.yaml", "conf/app.json", "conf/app.yaml"]
      ∧ (∃ front front' : List Candidate, front.Perm front'
        ∧ d.candidates ["default", "test"] (some true) = front ++ d.block none
        ∧ d.candidates [] (some true) = front' ++ d.block none)
      ∧ d.candidates ["default"] none = d.block none := by
  intro d
  have hext : Pathname.dottedExtension? d.path = none := by decide +kernel
  have hgroups : d.groups.Nodup := by decide
  obtain ⟨-, hpermuted, -, hbare, -⟩ := candidates_reordered hext hgroups
  refine ⟨by decide +kernel, ?_, hbare ["default"] none rfl⟩
  exact hpermuted ["default", "test"] [] (some true) (some true) (by decide) (by decide) rfl rfl

end Candidates

end Descriptor

end CheckedConfig
