import Mathlib.Data.List.Induction
import CheckedConfig.Proofs.Collection

namespace CheckedConfig

namespace Fields

variable {α : Type}

theorem get?_tabulate (f : String → α) (names : List String) (n : String) :
    get? (names.map fun m => (m, f m)) n = if n ∈ names then some (f n) else none := by
  induction names with
  | nil => rfl
  | cons m names ih =>
      by_cases hm : m = n
      · subst hm
        simp [get?]
      · simp [get?, hm, Ne.symm hm, ih]

theorem set_tabulate (f : String → α) {names : List String} (hd : names.Nodup) {n : String}
    (hn : n ∈ names) (v : α) :
    set (names.map fun m => (m, f m)) n v = names.map fun m => (m, if m = n then v else f m) := by
  induction names with
  | nil => exact absurd hn List.not_mem_nil
  | cons m names ih =>
      obtain ⟨hm, hrest⟩ := List.nodup_cons.mp hd
      by_cases heq : m = n
      · subst heq
        have hsame : names.map (fun k => (k, if k = m then v else f k))
            = names.map fun k => (k, f k) :=
          List.map_congr_left fun k hk => by
            rw [if_neg (ne_of_mem_of_not_mem hk hm)]
        simp [set, hsame]
      · have hmem : n ∈ names := (List.mem_cons.mp hn).resolve_left (Ne.symm heq)
        simp [set, heq, ih hrest hmem]

end Fields

namespace Collection

def grouped (vs : List Violation) : Fields (List Violation) :=
  (vs.map (·.path)).eraseDups.map fun path => (path, vs.filter (·.path == path))

theorem keys_grouped (vs : List Violation) :
    Fields.keys (grouped vs) = (vs.map (·.path)).eraseDups := by
  rw [grouped, Fields.keys, List.map_map]
  exact List.map_id _

theorem get?_grouped (vs : List Violation) (path : String) :
    Fields.get? (grouped vs) path =
      if path ∈ vs.map (·.path) then some (vs.filter (·.path == path)) else none := by
  rw [grouped, Fields.get?_tabulate fun path => vs.filter (·.path == path)]
  simp only [List.mem_eraseDups]

theorem eraseDups_append_singleton (paths : List String) (path : String) :
    (paths ++ [path]).eraseDups =
      if path ∈ paths then paths.eraseDups else paths.eraseDups ++ [path] := by
  rw [List.eraseDups_append]
  by_cases h : path ∈ paths <;> simp [List.removeAll, List.eraseDups_cons, h]

theorem grouped_append_singleton {vs : List Violation} (hd : (Fields.keys (grouped vs)).Nodup)
    (v : Violation) :
    grouped (vs ++ [v]) =
      (grouped vs).set v.path ((Fields.get? (grouped vs) v.path).getD [] ++ [v]) := by
  have hothers {path : String} (hne : path ≠ v.path) :
      (vs ++ [v]).filter (·.path == path) = vs.filter (·.path == path) := by
    simp [Ne.symm hne]
  by_cases hmem : v.path ∈ vs.map (·.path)
  · have hpaths : ((vs ++ [v]).map (·.path)).eraseDups = (vs.map (·.path)).eraseDups := by
      rw [List.map_append, List.map_singleton, eraseDups_append_singleton, if_pos hmem]
    have hkey : v.path ∈ (vs.map (·.path)).eraseDups := List.mem_eraseDups.mpr hmem
    rw [keys_grouped] at hd
    rw [get?_grouped, if_pos hmem, Option.getD_some, grouped, grouped, hpaths,
      Fields.set_tabulate _ hd hkey]
    refine List.map_congr_left fun path _ => ?_
    by_cases heq : path = v.path
    · simp [heq]
    · simp [heq, hothers heq]
  · have hpaths : ((vs ++ [v]).map (·.path)).eraseDups = (vs.map (·.path)).eraseDups ++ [v.path] := by
      rw [List.map_append, List.map_singleton, eraseDups_append_singleton, if_neg hmem]
    have hkey : v.path ∉ Fields.keys (grouped vs) := by
      rw [keys_grouped, List.mem_eraseDups]
      exact hmem
    have hnone : vs.filter (·.path == v.path) = [] := by
      refine List.filter_eq_nil_iff.mpr fun u hu heq => hmem ?_
      exact List.mem_map.mpr ⟨u, hu, eq_of_beq heq⟩
    rw [get?_grouped, if_neg hmem, Option.getD_none, List.nil_append, Fields.set_of_not_mem _ hkey]
    rw [grouped, grouped, hpaths, List.map_append]
    congr 1
    · refine List.map_congr_left fun path hpath => ?_
      have hne : path ≠ v.path := by
        rintro rfl
        exact hmem (List.mem_eraseDups.mp hpath)
      rw [hothers hne]
    · simp [hnone]

theorem nodup_recordAll {c : Collection} (hd : (Fields.keys c.groups).Nodup)
    (vs : List Violation) : (Fields.keys (c.recordAll vs).groups).Nodup := by
  induction vs generalizing c with
  | nil => exact hd
  | cons v vs ih => exact ih (c := c.record v) (Fields.nodup_set hd _ _)

theorem nodup_new_recordAll (strict : Bool) (vs : List Violation) :
    (Fields.keys ((new strict).recordAll vs).groups).Nodup :=
  nodup_recordAll (c := new strict) List.nodup_nil vs

theorem groups_new_recordAll (strict : Bool) (vs : List Violation) :
    ((new strict).recordAll vs).groups = grouped vs := by
  -- From the end: the last violation joins the group of its path, or opens one behind all others.
  induction vs using List.reverseRecOn with
  | nil => rfl
  | append_singleton vs v ih =>
      have hd := nodup_new_recordAll strict vs
      rw [ih] at hd
      have hrecord : ((new strict).recordAll (vs ++ [v])).groups =
          Fields.set ((new strict).recordAll vs).groups v.path
            ((Fields.get? ((new strict).recordAll vs).groups v.path).getD [] ++ [v]) := by
        rw [recordAll_append]
        rfl
      rw [hrecord, ih, grouped_append_singleton hd]

theorem path_of_mem_grouped {vs us : List Violation} {path : String}
    (h : (path, us) ∈ grouped vs) : us ≠ [] ∧ ∀ u ∈ us, u.path = path := by
  obtain ⟨_, hpath, heq⟩ := List.mem_map.mp h
  obtain ⟨rfl, rfl⟩ := Prod.mk.inj heq
  obtain ⟨v, hv, rfl⟩ := List.mem_map.mp (List.mem_eraseDups.mp hpath)
  constructor
  · exact List.ne_nil_of_mem (List.mem_filter.mpr ⟨hv, beq_self_eq_true _⟩)
  · exact fun u hu => eq_of_beq (List.mem_filter.mp hu).2

theorem groups_recordAll_flatMap {gs : Fields (List Violation)} {c : Collection}
    (hd : (Fields.keys (c.groups ++ gs)).Nodup)
    (hgs : ∀ g ∈ gs, g.2 ≠ [] ∧ ∀ v ∈ g.2, v.path = g.1) :
    (c.recordAll (gs.flatMap Prod.snd)).groups = c.groups ++ gs := by
  induction gs generalizing c with
  | nil => simp [recordAll]
  | cons g gs ih =>
      obtain ⟨path, vs⟩ := g
      obtain ⟨⟨hne, hpath⟩, hgs⟩ := List.forall_mem_cons.mp hgs
      have hfresh : path ∉ Fields.keys c.groups := by
        intro hmem
        rw [Fields.keys, List.map_append] at hd
        exact (List.nodup_append.mp hd).2.2 path hmem path (List.mem_cons_self ..) rfl
      have hgroup : (c.recordAll vs).groups = c.groups ++ [(path, vs)] :=
        groups_recordAll_of_fresh hfresh hne hpath
      -- The first group is now one of those before, so the hypothesis is about all of them together.
      have hcons : c.groups ++ (path, vs) :: gs = (c.recordAll vs).groups ++ gs := by
        rw [hgroup, List.append_assoc, List.singleton_append]
      rw [List.flatMap_cons, recordAll_append, hcons]
      rw [hcons] at hd
      exact ih hd hgs

theorem groups_recordAll_list (strict again : Bool) (vs : List Violation) :
    ((new again).recordAll ((new strict).recordAll vs).list).groups
      = ((new strict).recordAll vs).groups := by
  have hgroups := groups_new_recordAll strict vs
  have hd := nodup_new_recordAll strict vs
  refine groups_recordAll_flatMap (c := new again) hd fun g hg => ?_
  rw [hgroups] at hg
  exact path_of_mem_grouped hg

inductive Call where
  | add (v : Violation)
  | extend (vs : List Violation)

def Call.batch : Call → List Violation
  | .add v => [v]
  | .extend vs => vs

def call (c : Collection) : Call → Collection × Except Failure Unit
  | .add v => c.add v
  | .extend vs => c.extend vs

def calls (c : Collection) : List Call → Collection × List (Except Failure Unit)
  | [] => (c, [])
  | q :: qs =>
      let after := (c.call q).1.calls qs
      (after.1, (c.call q).2 :: after.2)

def reply (c : Collection) (q : Call) : Except Failure Unit :=
  if c.strict = true ∧ q.batch ≠ [] then .error (.strict ⟨c.size, c.list⟩) else .ok ()

theorem call_eq (c : Collection) (q : Call) :
    c.call q = (c.recordAll q.batch, (c.recordAll q.batch).reply q) := by
  have hboth (vs : List Violation) :
      c.extend vs = (c.recordAll vs, (c.recordAll vs).reply (.extend vs)) := by
    by_cases hvs : vs = [] <;> simp [extend, reply, Call.batch, hvs]
  cases q with
  | add v => exact hboth [v]
  | extend vs => exact hboth vs

theorem fst_calls (c : Collection) (qs : List Call) :
    (c.calls qs).1 = c.recordAll (qs.flatMap Call.batch) := by
  induction qs generalizing c with
  | nil => rfl
  | cons q qs ih => rw [calls, ih, call_eq, List.flatMap_cons, recordAll_append]

theorem snd_calls_append (c : Collection) (before after : List Call) :
    (c.calls (before ++ after)).2 = (c.calls before).2 ++ ((c.calls before).1.calls after).2 := by
  induction before generalizing c with
  | nil => rfl
  | cons q before ih => simp [calls, ih]

theorem length_snd_calls (c : Collection) (qs : List Call) : (c.calls qs).2.length = qs.length := by
  induction qs generalizing c with
  | nil => rfl
  | cons q qs ih => simp [calls, ih]

theorem reply_of_call (c : Collection) (before : List Call) (q : Call) (after : List Call) :
    (c.calls (before ++ q :: after)).2[before.length]? =
      some ((c.calls (before ++ [q])).1.reply q) := by
  have hthen : (c.calls (before ++ [q])).1 = (c.calls before).1.recordAll q.batch := by
    simp only [fst_calls, List.flatMap_append, List.flatMap_singleton, recordAll_append]
  have hlength := length_snd_calls c before
  rw [snd_calls_append, List.getElem?_append_right (by omega), hlength, Nat.sub_self, hthen, calls,
    call_eq]
  rfl

theorem render_of_same {c d : Collection} (hgroups : d.groups = c.groups) (hsize : d.size = c.size)
    (palette : Palette) : d.render palette none = c.render palette none := by
  obtain ⟨_, _, _⟩ := c
  obtain ⟨_, _, _⟩ := d
  simp only at hgroups hsize
  subst hgroups hsize
  rfl

theorem calls_keep_all (strict : Bool) (qs : List Call) :
    let c := ((new strict).calls qs).1
    let all := qs.flatMap Call.batch
    c.size = all.length ∧ (c.isEmpty = true ↔ all = [])
      ∧ c.groups = (all.map (·.path)).eraseDups.map (fun path =>
          (path, all.filter (·.path == path)))
      ∧ (Fields.keys c.groups).Nodup ∧ [] ∉ Fields.values c.groups
      ∧ (∀ path, c.get? path =
          if path ∈ all.map (·.path) then some (all.filter (·.path == path)) else none)
      ∧ c.list = c.groups.flatMap Prod.snd ∧ c.list.Perm all
      ∧ (∀ before q after,
          let now := ((new strict).calls (before ++ [q])).1
          ((new strict).calls (before ++ q :: after)).2[before.length]? =
            some (if strict = true ∧ q.batch ≠ [] then .error (.strict ⟨now.size, now.list⟩)
              else .ok ()))
      ∧ ∀ again,
          let d := ((new again).extend c.list).1
          d.groups = c.groups ∧ d.size = c.size
            ∧ ∀ palette, d.render palette none = c.render palette none := by
  intro c all
  have hc : c = (new strict).recordAll all := fst_calls (new strict) qs
  have hgroups : c.groups = grouped all := hc ▸ groups_new_recordAll strict all
  have hsize : c.size = all.length := by
    rw [hc, size_recordAll, new, Nat.zero_add]
  have hperm : c.list.Perm all := hc ▸ list_recordAll_perm (new strict) all
  refine ⟨hsize, ?_, hgroups, hc ▸ nodup_new_recordAll strict all, ?_, ?_, rfl, hperm, ?_, ?_⟩
  · rw [hc, isEmpty_new_recordAll, List.isEmpty_iff]
  · intro hmem
    rw [hgroups] at hmem
    obtain ⟨⟨path, us⟩, hg, hnil⟩ := List.mem_map.mp hmem
    exact (path_of_mem_grouped hg).1 hnil
  · intro path
    rw [get?, hgroups, get?_grouped]
  · intro before q after now
    have hstrict : now.strict = strict := by
      rw [show now = _ from fst_calls (new strict) (before ++ [q]), strict_recordAll, new]
    rw [reply_of_call, reply, hstrict]
  · intro again d
    have hlisted := groups_recordAll_list strict again all
    rw [← hc] at hlisted
    have hd : d.groups = c.groups := hlisted
    have hdsize : d.size = c.size := by
      have hlength : d.size = (new again).size + c.list.length := size_recordAll (new again) c.list
      rw [hlength, hperm.length_eq, hsize, new, Nat.zero_add]
    exact ⟨hd, hdsize, render_of_same hd hdsize⟩

end Collection

end CheckedConfig
