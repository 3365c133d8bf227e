import CheckedConfig.Proofs.Path

namespace CheckedConfig

namespace Text

variable {separator : Char} {cs piece : List Char}

theorem splitChars_of_not_mem (h : separator ∉ cs) : splitChars separator cs = [cs] := by
  induction cs with
  | nil => rfl
  | cons c cs ih =>
      rw [List.mem_cons, not_or] at h
      rw [splitChars, if_neg (Ne.symm h.1), ih h.2]

theorem not_mem_of_mem_splitChars (h : piece ∈ splitChars separator cs) : separator ∉ piece := by
  induction cs generalizing piece with
  | nil =>
      obtain rfl := List.mem_singleton.mp h
      exact List.not_mem_nil
  | cons c cs ih =>
      obtain ⟨first, pieces, hsplit⟩ := List.exists_cons_of_ne_nil (splitChars_ne_nil separator cs)
      simp only [splitChars, hsplit] at h ih
      split at h
      · rcases List.mem_cons.mp h with rfl | h
        · exact List.not_mem_nil
        · exact ih h
      · next hc =>
          rcases List.mem_cons.mp h with rfl | h
          · rw [List.mem_cons, not_or]
            exact ⟨Ne.symm hc, ih List.mem_cons_self⟩
          · exact ih (List.mem_cons_of_mem _ h)

end Text

namespace Path

variable {path other segment : String}

def Below (path other : String) : Prop := split other <+: split path ∧ split other ≠ split path

instance (path other : String) : Decidable (Below path other) :=
  inferInstanceAs (Decidable (split other <+: split path ∧ split other ≠ split path))

theorem eq_of_split_eq (h : split path = split other) : path = other := by
  rw [← join_split path, h, join_split]

theorem split_ne_nil (h : path ≠ "") : split path ≠ [] :=
  fun hnil => h (eq_of_split_eq (hnil.trans rfl))

theorem dotless_of_mem_split (h : segment ∈ split path) : '.' ∉ segment.toList := by
  unfold split at h
  split at h
  · exact absurd h List.not_mem_nil
  · obtain ⟨piece, hpiece, rfl⟩ := List.mem_map.mp h
    rw [String.toList_ofList]
    exact Text.not_mem_of_mem_splitChars hpiece

theorem split_of_dotless (hne : path ≠ "") (h : '.' ∉ path.toList) : split path = [path] := by
  have hempty : ¬ path.isEmpty = true := fun he => hne (String.isEmpty_iff.mp he)
  rw [split, if_neg hempty, Text.splitOn, Text.splitChars_of_not_mem h,
    List.map_singleton, String.ofList_toList]

theorem not_prefix_of_not_below (hne : path ≠ other) (h : ¬ Below path other) :
    ¬ split other <+: split path :=
  fun hpre => h ⟨hpre, fun heq => hne (eq_of_split_eq heq).symm⟩

end Path

namespace Fields

variable {fs gs : Fields Value} {s t : String} {rest p q : List String} {o : Option Value}
  {x : Value}

inductive Holds : Fields Value → List String → Option Value → Prop where
  | here {fs : Fields Value} {s : String} {o : Option Value} : fs.get? s = o → Holds fs [s] o
  | absent {fs : Fields Value} {s t : String} {rest : List String} :
      fs.get? s = none → Holds fs (s :: t :: rest) none
  | under {fs gs : Fields Value} {s t : String} {rest : List String} {o : Option Value} :
      fs.get? s = some (.object gs) → Holds gs (t :: rest) o → Holds fs (s :: t :: rest) o

namespace Holds

theorem get? (h : Holds fs p o) : (Value.object fs).get? p = o := by
  induction h with
  | @here _ _ o hget => cases o <;> simp [Value.get?, Value.child?, hget]
  | absent hnone => simp [Value.get?, Value.child?, hnone]
  | under hget _ ih => rw [Value.get?, Value.child?, hget, Option.bind_some, ih]

theorem ne_nil (h : Holds fs p o) : p ≠ [] := by
  cases h <;> exact List.cons_ne_nil _ _

theorem of_get?_eq (h : Holds fs (s :: rest) o) (heq : gs.get? s = fs.get? s) :
    Holds gs (s :: rest) o := by
  cases h with
  | here hget => exact .here (heq.trans hget)
  | absent hnone => exact .absent (heq.trans hnone)
  | under hget hrest => exact .under (heq.trans hget) hrest

theorem empty (h : p ≠ []) : Holds [] p none := by
  match p, h with
  | [_], _ => exact .here rfl
  | _ :: _ :: _, _ => exact .absent rfl

theorem inside (h : Holds fs (s :: t :: rest) o) : Holds (fs.under s) (t :: rest) o := by
  cases h with
  | absent hnone =>
      rw [Fields.under, hnone]
      exact empty (List.cons_ne_nil _ _)
  | under hget hrest =>
      rw [Fields.under, hget]
      exact hrest

end Holds

theorem holds_insertNested (fs : Fields Value) (x : Value) (h : p ≠ []) :
    Holds (fs.insertNested p x) p (some x) := by
  induction p generalizing fs with
  | nil => exact absurd rfl h
  | cons s p ih =>
      cases p with
      | nil => exact .here (get?_set_self fs s x)
      | cons t rest => exact .under (get?_set_self ..) (ih (fs.under s) (List.cons_ne_nil _ _))

theorem get?_insertNested_of_ne (h : s ≠ t) :
    (fs.insertNested (s :: rest) x).get? t = fs.get? t := by
  cases rest <;> exact get?_set_of_ne fs _ h

theorem Holds.insertNested (h : Holds fs q o) (hpq : ¬ p <+: q) (hqp : ¬ q <+: p) :
    Holds (fs.insertNested p x) q o := by
  induction p generalizing fs q with
  | nil => exact absurd List.nil_prefix hpq
  | cons s p ih =>
      obtain ⟨t, rest, rfl⟩ := List.exists_cons_of_ne_nil h.ne_nil
      by_cases hst : s = t
      · subst hst
        rw [List.cons_prefix_cons, and_iff_right rfl] at hpq hqp
        have hp : p ≠ [] := fun hnil => hpq (by rw [hnil]; exact List.nil_prefix)
        have hq : rest ≠ [] := fun hnil => hqp (by rw [hnil]; exact List.nil_prefix)
        obtain ⟨u, p, rfl⟩ := List.exists_cons_of_ne_nil hp
        obtain ⟨w, rest, rfl⟩ := List.exists_cons_of_ne_nil hq
        exact .under (get?_set_self ..) (ih h.inside hpq hqp)
      · exact h.of_get?_eq (get?_insertNested_of_ne hst)

def Dotless (fs : Fields Value) : Prop := ∀ n ∈ fs.keys, '.' ∉ n.toList

theorem Dotless.insertNested (h : fs.Dotless) (path : String) (x : Value) :
    (fs.insertNested (Path.split path) x).Dotless := by
  cases hsplit : Path.split path with
  | nil => exact h
  | cons s rest =>
      have hset : ∃ y, fs.insertNested (s :: rest) x = fs.set s y := by
        cases rest <;> exact ⟨_, rfl⟩
      obtain ⟨y, hy⟩ := hset
      rw [hy]
      intro n hn
      obtain ⟨pair, hpair, rfl⟩ := List.mem_map.mp hn
      rcases mem_set hpair with hold | rfl
      · exact h _ (mem_keys hold)
      · exact Path.dotless_of_mem_split (hsplit ▸ List.mem_cons_self)

theorem Holds.lookup {path : String} (h : Holds fs (Path.split path) o) (hdotless : fs.Dotless) :
    (Value.object fs).lookup path = o := by
  rw [Value.lookup, h.get?]
  by_cases hdot : '.' ∈ path.toList
  · have hnone : fs.get? path = none :=
      (get?_eq_none_iff fs path).mpr fun hmem => hdotless path hmem hdot
    rw [hnone]
    rfl
  · have hne : path ≠ "" := by
      rintro rfl
      exact h.ne_nil rfl
    rw [Path.split_of_dotless hne hdot] at h
    cases h with
    | here hget =>
        rw [hget]
        cases o <;> rfl

end Fields

end CheckedConfig
