import Mathlib.Data.List.Chain
import Mathlib.Data.List.TakeWhile
import CheckedConfig.Substitution

namespace CheckedConfig

namespace Substitution

namespace Piece

def chars : Piece → List Char
  | literal c => [c]
  | reference name => '$' :: name

def isOpen : Piece → Bool
  | literal c => c == '$'
  | reference _ => true

def isNamePart : Piece → Bool
  | literal c => isNameChar c
  | reference _ => false

end Piece

structure Splits (cs : List Char) (ps : List Piece) : Prop where
  chars : ps.flatMap Piece.chars = cs
  named : ∀ name, .reference name ∈ ps → name ≠ [] ∧ ∀ c ∈ name, isNameChar c = true
  longest : ps.IsChain fun p q => p.isOpen = true → q.isNamePart = false

def Begins (cs : List Char) : Prop := ∃ c rest, cs = '$' :: c :: rest ∧ isNameChar c = true

def Ends (cs : List Char) : Prop := ∀ c ∈ cs.head?, isNameChar c = false

inductive Scans : List Char → List Piece → Prop where
  | last {cs : List Char} : (∀ after, after <:+ cs → ¬ Begins after) → Scans cs (cs.map .literal)
  | next (before : List Char) {name after : List Char} {ps : List Piece} :
      (∀ more, more <:+ before → more ≠ [] → ¬ Begins (more ++ '$' :: (name ++ after))) →
      name ≠ [] → (∀ c ∈ name, isNameChar c = true) → Ends after → Scans after ps →
      Scans (before ++ '$' :: (name ++ after)) (before.map .literal ++ .reference name :: ps)

variable {c : Char} {cs name after : List Char} {p q : Piece} {ps qs : List Piece}
  {env : Environment} {strict : Bool} {place : Place} {s : String}

theorem takeWhile_eq_nil_iff : cs.takeWhile isNameChar = [] ↔ Ends cs := by
  cases cs with
  | nil => simp [Ends]
  | cons c cs => cases h : isNameChar c <;> simp [Ends, h]

theorem begins_cons_iff : Begins (c :: cs) ↔ c = '$' ∧ cs.takeWhile isNameChar ≠ [] := by
  rw [ne_eq, takeWhile_eq_nil_iff]
  cases cs with
  | nil => simp [Begins, Ends]
  | cons d cs => simp [Begins, Ends, and_assoc]

theorem pieces_literal (h : ¬ Begins (c :: cs)) :
    pieces (c :: cs) = .literal c :: pieces cs := by
  rw [begins_cons_iff] at h
  rw [pieces, if_neg h]

theorem pieces_reference (hne : name ≠ []) (hname : ∀ c ∈ name, isNameChar c = true)
    (hends : Ends after) : pieces ('$' :: (name ++ after)) = .reference name :: pieces after := by
  have hafter : after.takeWhile isNameChar = [] := takeWhile_eq_nil_iff.mpr hends
  have htake : (name ++ after).takeWhile isNameChar = name := by
    rw [List.takeWhile_append_of_pos hname, hafter, List.append_nil]
  have hdrop : (name ++ after).dropWhile isNameChar = after := by
    have hall := List.takeWhile_append_dropWhile (p := isNameChar) (l := name ++ after)
    rw [htake] at hall
    exact List.append_cancel_left hall
  rw [pieces, htake, hdrop, if_pos ⟨rfl, hne⟩]

theorem Splits.ends_iff (h : Splits cs ps) : Ends cs ↔ ∀ q ∈ ps.head?, q.isNamePart = false := by
  have hdollar : isNameChar '$' = false := by decide
  obtain ⟨rfl, -, -⟩ := h
  cases ps with
  | nil => simp [Ends]
  | cons p ps => cases p <;> simp [Ends, Piece.chars, Piece.isNamePart, hdollar]

theorem Splits.tail (h : Splits cs (p :: ps)) : Splits (ps.flatMap Piece.chars) ps :=
  ⟨rfl, fun name hname => h.named name (List.mem_cons_of_mem _ hname), h.longest.tail⟩

theorem Splits.ends_tail (h : Splits cs (p :: ps)) (hopen : p.isOpen = true) :
    Ends (ps.flatMap Piece.chars) := by
  rw [h.tail.ends_iff]
  intro q hq
  obtain ⟨rest, rfl⟩ := List.head?_eq_some_iff.mp hq
  exact (List.isChain_cons_cons.mp h.longest).1 hopen

theorem Splits.eq_pieces (h : Splits cs ps) : ps = pieces cs := by
  induction ps generalizing cs with
  | nil =>
      rw [← h.chars, List.flatMap_nil, pieces]
  | cons p ps ih =>
      rw [← h.chars, List.flatMap_cons]
      cases p with
      | literal c =>
          have hno : ¬ Begins (c :: ps.flatMap Piece.chars) := by
            rw [begins_cons_iff]
            rintro ⟨rfl, hne⟩
            exact hne (takeWhile_eq_nil_iff.mpr (h.ends_tail rfl))
          exact (congrArg _ (ih h.tail)).trans (pieces_literal hno).symm
      | reference name =>
          obtain ⟨hne, hname⟩ := h.named name List.mem_cons_self
          exact (congrArg _ (ih h.tail)).trans (pieces_reference hne hname (h.ends_tail rfl)).symm

theorem Splits.cons (h : Splits cs ps) (hnamed : ∀ name, p = .reference name →
      name ≠ [] ∧ ∀ c ∈ name, isNameChar c = true) (hends : p.isOpen = true → Ends cs) :
    Splits (p.chars ++ cs) (p :: ps) := by
  refine ⟨by rw [List.flatMap_cons, h.chars], fun name hname => ?_, ?_⟩
  · rcases List.mem_cons.mp hname with rfl | hname
    · exact hnamed name rfl
    · exact h.named name hname
  · cases ps with
    | nil => exact .singleton p
    | cons q ps =>
        exact .cons_cons (fun hopen => h.ends_iff.mp (hends hopen) q rfl) h.longest

theorem ends_dropWhile (cs : List Char) : Ends (cs.dropWhile isNameChar) :=
  fun c hc => by
    have hhead := List.head?_dropWhile_not isNameChar cs
    simpa [Option.mem_def.mp hc] using hhead

theorem splits_pieces (cs : List Char) : Splits cs (pieces cs) := by
  fun_induction pieces cs with
  | case1 => exact ⟨rfl, nofun, .nil⟩
  | case2 c cs hbegins ih =>
      obtain ⟨rfl, hne⟩ := hbegins
      have hsplits := ih.cons (p := .reference (cs.takeWhile isNameChar))
        (fun name hname => ?_) fun _ => ends_dropWhile cs
      · rwa [Piece.chars, List.cons_append, List.takeWhile_append_dropWhile] at hsplits
      · obtain rfl := Piece.reference.inj hname
        exact ⟨hne, fun c hc => List.mem_takeWhile_imp hc⟩
  | case3 c cs hno ih =>
      refine ih.cons (p := .literal c) nofun fun hopen => ?_
      obtain rfl := eq_of_beq hopen
      exact takeWhile_eq_nil_iff.mp (Decidable.not_not.mp fun hne => hno ⟨rfl, hne⟩)

theorem splits_iff : Splits cs ps ↔ ps = pieces cs :=
  ⟨Splits.eq_pieces, fun h => h ▸ splits_pieces cs⟩

theorem Scans.eq_pieces (h : Scans cs ps) : ps = pieces cs := by
  induction h with
  | @last cs hno =>
      induction cs with
      | nil => rw [pieces, List.map_nil]
      | cons c cs ih =>
          rw [pieces_literal (hno _ List.suffix_rfl), List.map_cons,
            ← ih fun after hafter => hno after (hafter.trans (List.suffix_cons c cs))]
  | @next before name after ps hno hne hname hends _ ih =>
      induction before with
      | nil =>
          rw [List.map_nil, List.nil_append, List.nil_append, pieces_reference hne hname hends, ih]
      | cons c before ihbefore =>
          have hfirst : ¬ Begins (c :: (before ++ '$' :: (name ++ after))) :=
            hno _ List.suffix_rfl (List.cons_ne_nil _ _)
          rw [List.cons_append, pieces_literal hfirst,
            ← ihbefore fun more hmore => hno more (hmore.trans (List.suffix_cons c before))]
          rfl

theorem Scans.literal (h : Scans cs ps) (hno : ¬ Begins (c :: cs)) :
    Scans (c :: cs) (.literal c :: ps) := by
  cases h with
  | last hrest =>
      refine .last fun after hafter => ?_
      rcases List.suffix_cons_iff.mp hafter with rfl | hafter
      · exact hno
      · exact hrest after hafter
  | @next before name after ps hbefore hne hname hends hscans =>
      refine .next (c :: before) (fun more hmore hne => ?_) hne hname hends hscans
      rcases List.suffix_cons_iff.mp hmore with rfl | hmore
      · exact hno
      · exact hbefore more hmore hne

theorem scans_pieces (cs : List Char) : Scans cs (pieces cs) := by
  fun_induction pieces cs with
  | case1 =>
      refine .last fun after hafter => ?_
      rw [List.suffix_nil.mp hafter]
      rintro ⟨c, rest, hcs, -⟩
      cases hcs
  | case2 c cs hbegins ih =>
      obtain ⟨rfl, hne⟩ := hbegins
      have hscans := Scans.next [] (fun more hmore hmore' => ?_) hne
        (fun c hc => List.mem_takeWhile_imp hc) (ends_dropWhile cs) ih
      · rwa [List.takeWhile_append_dropWhile] at hscans
      · exact absurd (List.suffix_nil.mp hmore) hmore'
  | case3 c cs hno ih => exact ih.literal (mt begins_cons_iff.mp hno)

theorem scans_iff : Scans cs ps ↔ ps = pieces cs :=
  ⟨Scans.eq_pieces, fun h => h ▸ scans_pieces cs⟩

structure Tally where
  text : String
  referenced : Nat
  missing : List String
  deriving DecidableEq, Repr

namespace Tally

def start : Tally := ⟨"", 0, []⟩

def take (env : Environment) (t : Tally) : Piece → Tally
  | .literal c => { t with text := t.text.push c }
  | .reference name =>
      match env.get? (String.ofList name) with
      | some v => { t with text := t.text ++ v, referenced := t.referenced + 1 }
      | none =>
          { t with
            referenced := t.referenced + 1
            missing := t.missing ++ [String.ofList name] }

def pass (env : Environment) (ps : List Piece) : Tally := ps.foldl (take env) start

def Lone (t : Tally) : Prop := t.referenced = 1 ∧ t.missing ≠ []

def Lacking (t : Tally) : Prop := 2 ≤ t.referenced ∧ t.missing ≠ []

theorem foldl_take (ps : List Piece) (t : Tally) :
    ps.foldl (take env) t =
      ⟨t.text ++ fill env ps, t.referenced + (Substitution.referenced ps).length,
        t.missing ++ Substitution.missing env ps⟩ := by
  induction ps generalizing t with
  | nil => simp [fill, Substitution.referenced, Substitution.missing]
  | cons p ps ih =>
      rw [List.foldl_cons, ih]
      have hfill : fill env (p :: ps) = String.ofList (p.fill env) ++ fill env ps := by
        rw [fill, List.flatMap_cons, String.ofList_append, fill]
      cases p with
      | literal c =>
          have hpush : t.text.push c = t.text ++ String.ofList [c] := by
            rw [String.push_eq_append]
            rfl
          rw [hfill, ← String.append_assoc, take, hpush]
          rfl
      | reference name =>
          have hreferenced : (Substitution.referenced (.reference name :: ps)).length
              = 1 + (Substitution.referenced ps).length := Nat.add_comm _ _
          rw [hfill, hreferenced, ← String.append_assoc, ← Nat.add_assoc, take]
          cases hv : env.get? (String.ofList name) with
          | some v =>
              simp [Piece.fill, hv, Substitution.missing, Substitution.referenced, Piece.name?,
                Fields.has]
          | none =>
              simp [Piece.fill, hv, Substitution.missing, Substitution.referenced, Piece.name?,
                Fields.has]

theorem pass_eq (env : Environment) (ps : List Piece) :
    pass env ps =
      ⟨fill env ps, (Substitution.referenced ps).length, Substitution.missing env ps⟩ := by
  rw [pass, foldl_take]
  simp [start]

instance : DecidablePred Lone :=
  fun t => inferInstanceAs (Decidable (t.referenced = 1 ∧ t.missing ≠ []))

instance : DecidablePred Lacking :=
  fun t => inferInstanceAs (Decidable (2 ≤ t.referenced ∧ t.missing ≠ []))

theorem not_lacking_of_lone {t : Tally} (h : t.Lone) : ¬ t.Lacking := by
  rintro ⟨hmany, -⟩
  rw [h.1] at hmany
  exact absurd hmany (by decide)

end Tally

theorem length_missing_le (env : Environment) (ps : List Piece) :
    (missing env ps).length ≤ (referenced ps).length :=
  List.length_filter_le ..

theorem replace_eq (env : Environment) (strict : Bool) (s : String) (place : Place) :
    let t := Tally.pass env (pieces s.toList)
    replace env strict s place =
      if t.Lone then .ok (some (place.schema.own.default.getD (.string t.text)))
      else if strict = true ∧ t.Lacking then .error (.missingVariables t.missing place.propertyPath)
      else .ok (some (.string t.text)) := by
  intro t
  have ht : t = _ := Tally.pass_eq env (pieces s.toList)
  have hle := length_missing_le env (pieces s.toList)
  rw [ht]
  unfold replace Tally.Lone Tally.Lacking
  cases hmissing : missing env (pieces s.toList) with
  | nil => simp [hmissing]
  | cons name names =>
      rw [hmissing, List.length_cons] at hle
      by_cases hone : (referenced (pieces s.toList)).length = 1
      · simp [hmissing, hone]
      · have hmany : 2 ≤ (referenced (pieces s.toList)).length := by omega
        cases strict <;> simp [hmissing, hone, hmany]

theorem intercept_of_dollar (h : '$' ∈ s.toList) :
    (interceptor env strict).intercept (some (.string s)) place = replace env strict s place := by
  have hdollar : s.toList.contains '$' = true := List.contains_iff_mem.mpr h
  simp only [interceptor, hdollar, if_true]

theorem intercept_of_no_dollar {v : Option Value}
    (h : ∀ s, v = some (.string s) → '$' ∉ s.toList) :
    (interceptor env strict).intercept v place = .ok none := by
  simp only [interceptor]
  split
  · next s =>
      have hno : ¬ s.toList.contains '$' = true := mt List.contains_iff_mem.mp (h s rfl)
      rw [if_neg hno]
  · rfl

theorem substitutes_in_one_pass (env : Environment) (strict : Bool) (place : Place) :
    (∀ v, (∀ s, v = some (.string s) → '$' ∉ s.toList) →
        (interceptor env strict).intercept v place = .ok none)
      ∧ ∀ s, ∃ ps, (∀ qs, Splits s.toList qs ↔ qs = ps) ∧ (∀ qs, Scans s.toList qs ↔ qs = ps)
        ∧ let t := Tally.pass env ps
          t = ⟨fill env ps, (referenced ps).length, missing env ps⟩
          ∧ ('$' ∈ s.toList →
              (∀ o, (interceptor env strict).intercept (some (.string s)) place = .ok o ↔
                (t.Lone ∧ place.schema.own.default ≠ none ∧ o = place.schema.own.default)
                  ∨ ¬ (t.Lone ∧ place.schema.own.default ≠ none) ∧ ¬ (strict = true ∧ t.Lacking)
                    ∧ o = some (.string t.text))
              ∧ ∀ e, (interceptor env strict).intercept (some (.string s)) place = .error e ↔
                  strict = true ∧ t.Lacking ∧ e = .missingVariables t.missing place.propertyPath) := by
  refine ⟨fun v => intercept_of_no_dollar, fun s => ⟨pieces s.toList, fun _ => splits_iff,
    fun _ => scans_iff, Tally.pass_eq env _, fun hdollar => ?_⟩⟩
  rw [intercept_of_dollar hdollar, replace_eq]
  by_cases hlone : (Tally.pass env (pieces s.toList)).Lone
  · have hno := Tally.not_lacking_of_lone hlone
    cases hd : place.schema.own.default with
    | none => simp [hlone, hno, eq_comm]
    | some d => simp [hlone, hno, eq_comm]
  · by_cases hfails : strict = true ∧ (Tally.pass env (pieces s.toList)).Lacking
    · simp [hlone, hfails, eq_comm]
    · simp [hlone, hfails, eq_comm, ← and_assoc]

example : Tally.pass [("A", "$B"), ("B", "x")] (pieces "$A$C-$1$A_é$".toList)
    = ⟨"$B-$1é$", 3, ["C", "A_"]⟩ := by decide +kernel

end Substitution

end CheckedConfig
