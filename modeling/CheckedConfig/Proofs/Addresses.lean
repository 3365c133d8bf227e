import CheckedConfig.Schema.Normal
import CheckedConfig.Schema.Search
import CheckedConfig.Validation.Location

namespace CheckedConfig

structure IsSegment (name : String) : Prop where
  nonempty : name ≠ ""
  slashless : '/' ∉ name.toList

namespace IsSegment

variable {name : String}

theorem toList_ne_nil (h : IsSegment name) : name.toList ≠ [] :=
  fun hnil => h.nonempty (String.toList_eq_nil_iff.mp hnil)

theorem ne_slash (h : IsSegment name) {c : Char} (hc : c ∈ name.toList) : c ≠ '/' :=
  fun heq => h.slashless (heq ▸ hc)

theorem index (i : Nat) : IsSegment (toString i) where
  nonempty := Nat.repr_ne_empty
  slashless hmem := by
    rw [Nat.toString_eq_ofList_toDigits, String.toList_ofList] at hmem
    have hdigit : '/'.isDigit = true := Nat.isDigit_of_mem_toDigits (by omega) (by omega) hmem
    exact absurd hdigit (by decide)

theorem keyword (keyword : Keyword) : IsSegment keyword.name := by
  cases keyword <;> exact ⟨by decide, by decide⟩

end IsSegment

namespace Text

theorem splitChars_append {separator : Char} {piece rest : List Char} {pieces : List (List Char)}
    (hpiece : separator ∉ piece) (hrest : splitChars separator rest = [] :: pieces) :
    splitChars separator (piece ++ rest) = piece :: pieces := by
  induction piece with
  | nil => exact hrest
  | cons c piece ih =>
      rw [List.mem_cons, not_or] at hpiece
      obtain ⟨hc, hpiece⟩ := hpiece
      rw [List.cons_append, splitChars, if_neg (Ne.symm hc), ih hpiece]

end Text

namespace Location

def slashed (segments : List String) : List Char := segments.flatMap fun s => '/' :: s.toList

def address (segments : List String) : String := String.ofList ('#' :: slashed segments)

theorem address_nil : address [] = rootSchema := rfl

theorem address_append_one (segments : List String) (s : String) :
    address (segments ++ [s]) = address segments ++ "/" ++ s := by
  rw [← String.toList_inj]
  simp [address, slashed]

theorem address_append_two (segments : List String) (s t : String) :
    address (segments ++ [s, t]) = address segments ++ "/" ++ s ++ "/" ++ t := by
  rw [← String.toList_inj]
  simp [address, slashed]

variable {segments : List String}

theorem splitChars_slashed (h : ∀ s ∈ segments, IsSegment s) :
    Text.splitChars '/' (slashed segments) = [] :: segments.map String.toList := by
  induction segments with
  | nil => rfl
  | cons s segments ih =>
      obtain ⟨hs, hrest⟩ := List.forall_mem_cons.mp h
      have hpieces : Text.splitChars '/' (s.toList ++ slashed segments)
          = s.toList :: segments.map String.toList :=
        Text.splitChars_append hs.slashless (ih hrest)
      change Text.splitChars '/' ('/' :: (s.toList ++ slashed segments)) = _
      rw [Text.splitChars, if_pos rfl, hpieces, List.map_cons]

theorem pathSegments_slashed (h : ∀ s ∈ segments, IsSegment s) :
    Node.pathSegments (slashed segments) = segments := by
  have hkept : (segments.map String.toList).filter (!·.isEmpty) = segments.map String.toList := by
    rw [List.filter_eq_self]
    intro cs hcs
    obtain ⟨s, hs, rfl⟩ := List.mem_map.mp hcs
    simpa using (h s hs).toList_ne_nil
  have hdropped : ([] :: segments.map String.toList).filter (!·.isEmpty)
      = (segments.map String.toList).filter (!·.isEmpty) := rfl
  rw [Node.pathSegments, splitChars_slashed h, hdropped, hkept, List.map_map]
  exact List.map_id'' (fun s => String.ofList_toList) segments

theorem dropWhile_slashed {s : String} (hs : IsSegment s) (segments : List String) :
    (slashed (s :: segments)).dropWhile Node.isSlash = s.toList ++ slashed segments := by
  obtain ⟨c, cs, hcs⟩ := List.exists_cons_of_ne_nil hs.toList_ne_nil
  have hc : Node.isSlash c = false := by
    simpa [Node.isSlash] using hs.ne_slash (hcs ▸ List.mem_cons_self ..)
  have hslash : Node.isSlash '/' = true := rfl
  rw [slashed, List.flatMap_cons, hcs, List.cons_append, List.dropWhile_cons_of_pos hslash,
    List.cons_append, List.dropWhile_cons_of_neg (by simp [hc])]
  rfl

theorem dropWhile_reverse_slashed (h : ∀ s ∈ segments, IsSegment s) (hne : segments ≠ []) :
    ('#' :: slashed segments).reverse.dropWhile Node.isSlash
      = ('#' :: slashed segments).reverse := by
  obtain ⟨before, s, rfl⟩ := (List.eq_nil_or_concat segments).resolve_left hne
  have hs : IsSegment s := h s (by simp)
  obtain ⟨cs, c, hcs⟩ := (List.eq_nil_or_concat s.toList).resolve_left hs.toList_ne_nil
  have hc : Node.isSlash c = false := by
    simpa [Node.isSlash] using hs.ne_slash (hcs ▸ by simp)
  simp [slashed, hcs, hc]

theorem rooted_slashed (h : ∀ s ∈ segments, IsSegment s) :
    Node.rooted (slashed segments) = address segments := by
  cases segments with
  | nil => rfl
  | cons s segments =>
      have hs : IsSegment s := h s (List.mem_cons_self ..)
      have hslash : '/' :: (s.toList ++ slashed segments) = slashed (s :: segments) := rfl
      rw [Node.rooted, dropWhile_slashed hs, hslash,
        dropWhile_reverse_slashed h (List.cons_ne_nil _ _), List.reverse_reverse, address]

theorem unrooted_address (segments : List String) :
    Node.unrooted (address segments) = slashed segments := by
  simp only [Node.unrooted, address, String.toList_ofList]

end Location

namespace Node

def Spells (segments : List String) (steps : List Step) : Prop :=
  ∀ rest, readSteps (segments ++ rest) = (readSteps rest).map (steps ++ ·)

namespace Spells

theorem nil : Spells [] [] := by
  intro rest
  cases h : readSteps rest <;> simp [h]

theorem append {segments more : List String} {steps later : List Step} (h : Spells segments steps)
    (h' : Spells more later) : Spells (segments ++ more) (steps ++ later) := by
  intro rest
  rw [List.append_assoc, h, h', Option.map_map]
  congr 1
  funext tail
  exact (List.append_assoc ..).symm

theorem property (name : String) : Spells ["properties", name] [.property name] := by
  intro rest
  exact (readSteps.eq_def _).trans (if_pos rfl)

theorem items : Spells ["items"] [.items] := by
  intro rest
  have hne : "items" ≠ "properties" := by decide
  cases rest with
  | nil => rfl
  | cons t rest =>
      rw [List.singleton_append, readSteps, if_neg hne, if_pos rfl]
      rfl

theorem extra (name : String) : Spells ["additionalProperties", name] [.extra] := by
  intro rest
  have hproperties : "additionalProperties" ≠ "properties" := by decide
  have hitems : "additionalProperties" ≠ "items" := by decide
  change readSteps ("additionalProperties" :: name :: rest) = _
  rw [readSteps, if_neg hproperties, if_neg hitems, if_pos rfl]
  rfl

theorem branch {n : Node} {operator : Keyword} {ns : List Node}
    (hns : n.branches operator = some ns) (i : Nat) :
    Spells [operator.name, toString i] [.branch operator i] := by
  intro rest
  change readSteps (operator.name :: toString i :: rest) = _
  have hoperator : operator.name ≠ "properties" ∧ operator.name ≠ "items"
      ∧ operator.name ≠ "additionalProperties"
      ∧ readSteps.operator? operator.name = some operator := by
    cases operator <;> first | decide | cases hns
  obtain ⟨hproperties, hitems, hextra, hread⟩ := hoperator
  rw [readSteps, if_neg hproperties, if_neg hitems, if_neg hextra, hread, natOfText?_toString]
  rfl

end Spells

inductive Leads (root : Node) : List String → Node → Prop where
  | root : Leads root [] root
  | property {segments : List String} {n c : Node} {name : String} :
      Leads root segments n → n.declared? name = some c → IsSegment name →
      Leads root (segments ++ ["properties", name]) c
  | items {segments : List String} {n c : Node} :
      Leads root segments n → n.items = some c → Leads root (segments ++ ["items"]) c
  | extra {segments : List String} {n c : Node} {name : String} :
      Leads root segments n → n.extra? = some c → IsSegment name →
      Leads root (segments ++ ["additionalProperties", name]) c
  | branch {segments : List String} {n c : Node} {operator : Keyword} {ns : List Node} {i : Nat} :
      Leads root segments n → n.branches operator = some ns → ns[i]? = some c →
      Leads root (segments ++ [operator.name, toString i]) c

variable {root m : Node} {segments : List String}

theorem Leads.isSegment (h : Leads root segments m) : ∀ s ∈ segments, IsSegment s := by
  induction h with
  | root => exact fun s hs => absurd hs List.not_mem_nil
  | property _ _ hname ih =>
      have hvia : IsSegment "properties" := ⟨by decide, by decide⟩
      simpa [or_imp, forall_and] using ⟨ih, hvia, hname⟩
  | items _ _ ih =>
      have hvia : IsSegment "items" := ⟨by decide, by decide⟩
      simpa [or_imp, forall_and] using ⟨ih, hvia⟩
  | extra _ _ hname ih =>
      have hvia : IsSegment "additionalProperties" := ⟨by decide, by decide⟩
      simpa [or_imp, forall_and] using ⟨ih, hvia, hname⟩
  | branch _ _ _ ih =>
      simpa [or_imp, forall_and] using ⟨ih, IsSegment.keyword _, IsSegment.index _⟩

theorem Leads.spells (h : Leads root segments m) :
    ∃ steps : List Step, Spells segments steps ∧ steps.foldlM follow root = some m := by
  have hfollow {steps : List Step} {n c : Node} {step : Step}
      (hsteps : steps.foldlM follow root = some n) (hstep : n.follow step = some c) :
      (steps ++ [step]).foldlM follow root = some c := by
    rw [List.foldlM_append, hsteps]
    simp [hstep]
  induction h with
  | root => exact ⟨[], Spells.nil, rfl⟩
  | property _ hc _ ih =>
      obtain ⟨steps, hspells, hsteps⟩ := ih
      exact ⟨_, hspells.append (Spells.property _), hfollow hsteps hc⟩
  | items _ hc ih =>
      obtain ⟨steps, hspells, hsteps⟩ := ih
      exact ⟨_, hspells.append Spells.items, hfollow hsteps hc⟩
  | extra _ hc _ ih =>
      obtain ⟨steps, hspells, hsteps⟩ := ih
      exact ⟨_, hspells.append (Spells.extra _), hfollow hsteps hc⟩
  | branch _ hns hc ih =>
      obtain ⟨steps, hspells, hsteps⟩ := ih
      refine ⟨_, hspells.append (Spells.branch hns _), hfollow hsteps ?_⟩
      rw [follow, hns]
      exact hc

theorem Leads.resolves (h : Leads root segments m) :
    root.resolve? (Location.address segments) = some ⟨m, Location.address segments⟩ := by
  obtain ⟨steps, hspells, hsteps⟩ := h.spells
  have hread : readSteps segments = some steps := by
    have hall := hspells []
    rw [List.append_nil, readSteps] at hall
    simpa using hall
  rw [resolve?, Location.unrooted_address, Location.pathSegments_slashed h.isSegment, hread,
    Location.rooted_slashed h.isSegment]
  simp only [Option.bind_some, hsteps, Option.map_some]

end Node

end CheckedConfig
