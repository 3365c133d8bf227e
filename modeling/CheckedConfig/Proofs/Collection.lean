import CheckedConfig.Validation.Collection

namespace CheckedConfig

namespace Collection

def recorded (c : Collection) (path : String) : List Violation := (c.get? path).getD []

theorem recordAll_cons (c : Collection) (v : Violation) (vs : List Violation) :
    c.recordAll (v :: vs) = (c.record v).recordAll vs := rfl

theorem recordAll_append (c : Collection) (vs us : List Violation) :
    c.recordAll (vs ++ us) = (c.recordAll vs).recordAll us := by
  simp [recordAll]

theorem strict_recordAll (c : Collection) (vs : List Violation) :
    (c.recordAll vs).strict = c.strict := by
  induction vs generalizing c with
  | nil => rfl
  | cons v vs ih => exact ih (c.record v)

theorem size_recordAll (c : Collection) (vs : List Violation) :
    (c.recordAll vs).size = c.size + vs.length := by
  induction vs generalizing c with
  | nil => rfl
  | cons v vs ih =>
      have hs : (c.record v).size = c.size + 1 := rfl
      rw [recordAll_cons, ih, hs, List.length_cons]
      omega

theorem flatMap_set_perm (fs : Fields (List Violation)) (path : String) (v : Violation) :
    ((fs.set path ((fs.get? path).getD [] ++ [v])).flatMap Prod.snd).Perm
      (fs.flatMap Prod.snd ++ [v]) := by
  induction fs with
  | nil => simp [Fields.set, Fields.get?]
  | cons g fs ih =>
      obtain ⟨p, us⟩ := g
      by_cases h : p = path
      · simp only [Fields.set, Fields.get?, h, if_true, Option.getD_some, List.flatMap_cons,
          List.append_assoc]
        exact List.perm_append_comm.append_left us
      · simp only [Fields.set, Fields.get?, h, if_false, List.flatMap_cons, List.append_assoc]
        exact ih.append_left us

theorem list_recordAll_perm (c : Collection) (vs : List Violation) :
    (c.recordAll vs).list.Perm (c.list ++ vs) := by
  induction vs generalizing c with
  | nil => simp [recordAll]
  | cons v vs ih =>
      have hv : (c.record v).list.Perm (c.list ++ [v]) := flatMap_set_perm c.groups v.path v
      have happ := hv.append_right vs
      rw [List.append_assoc, List.singleton_append] at happ
      exact (ih (c.record v)).trans happ

theorem recorded_recordAll (c : Collection) (vs : List Violation) (path : String) :
    (c.recordAll vs).recorded path = c.recorded path ++ vs.filter (·.path == path) := by
  induction vs generalizing c with
  | nil => simp [recordAll]
  | cons v vs ih =>
      rw [recordAll_cons, ih]
      by_cases h : v.path = path
      · have hv : (c.record v).recorded path = c.recorded path ++ [v] := by
          simp [recorded, get?, record, h, Fields.get?_set_self]
        simp [hv, h]
      · have hv : (c.record v).recorded path = c.recorded path := by
          simp [recorded, get?, record, Fields.get?_set_of_ne _ _ h]
        simp [hv, h]

theorem mem_list_new {strict : Bool} {vs : List Violation} {v : Violation} :
    v ∈ ((new strict).recordAll vs).list ↔ v ∈ vs :=
  (list_recordAll_perm (new strict) vs).mem_iff

theorem list_new_eq_nil_iff {strict : Bool} {vs : List Violation} :
    ((new strict).recordAll vs).list = [] ↔ vs = [] := by
  simp only [List.eq_nil_iff_forall_not_mem, mem_list_new]

theorem recorded_new (strict : Bool) (vs : List Violation) (path : String) :
    ((new strict).recordAll vs).recorded path = vs.filter (·.path == path) := by
  rw [recorded_recordAll]
  rfl

theorem isEmpty_new_recordAll (strict : Bool) (vs : List Violation) :
    ((new strict).recordAll vs).isEmpty = vs.isEmpty := by
  rw [isEmpty, size_recordAll]
  cases vs <;> simp [new]

theorem size_new_recordAll (strict : Bool) (vs : List Violation) :
    ((new strict).recordAll vs).size = ((new strict).recordAll vs).list.length := by
  have hperm := (list_recordAll_perm (new strict) vs).length_eq
  rw [size_recordAll, hperm]
  simp [new, list]

theorem groups_record_cons {c : Collection} {p : String} {us : List Violation}
    {gs : Fields (List Violation)} (h : c.groups = (p, us) :: gs) (v : Violation) :
    ∃ us' gs', (c.record v).groups = (p, us ++ us') :: gs' := by
  by_cases hp : p = v.path
  · exact ⟨[v], gs, by simp [record, h, Fields.set, Fields.get?, hp]⟩
  · exact ⟨[], gs.set v.path ((Fields.get? gs v.path).getD [] ++ [v]),
      by simp [record, h, Fields.set, Fields.get?, hp]⟩

theorem groups_recordAll_cons {c : Collection} {p : String} {us : List Violation}
    {gs : Fields (List Violation)} (h : c.groups = (p, us) :: gs) (vs : List Violation) :
    ∃ us' gs', (c.recordAll vs).groups = (p, us ++ us') :: gs' := by
  induction vs generalizing c us gs with
  | nil => exact ⟨[], gs, by simpa [recordAll] using h⟩
  | cons v vs ih =>
      obtain ⟨us', gs', hv⟩ := groups_record_cons h v
      obtain ⟨us'', gs'', hvs⟩ := ih hv
      exact ⟨us' ++ us'', gs'', by rw [recordAll_cons, hvs, List.append_assoc]⟩

theorem groups_recordAll_of_path {p : String} {vs : List Violation} (hp : ∀ v ∈ vs, v.path = p)
    {c : Collection} {gs : Fields (List Violation)} {us : List Violation} (hgs : p ∉ Fields.keys gs)
    (h : c.groups = gs ++ [(p, us)]) : (c.recordAll vs).groups = gs ++ [(p, us ++ vs)] := by
  induction vs generalizing c us with
  | nil => simpa [recordAll] using h
  | cons v vs ih =>
      have hv : v.path = p := hp v (List.mem_cons_self ..)
      have hget : Fields.get? c.groups p = some us := by
        rw [h, Fields.get?_append, (Fields.get?_eq_none_iff gs p).mpr hgs]
        simp [Fields.get?]
      have hc : (c.record v).groups = gs ++ [(p, us ++ [v])] := by
        have hset : (c.record v).groups = c.groups.set p (us ++ [v]) := by
          simp only [record, hv, hget, Option.getD_some]
        rw [hset, h, Fields.set_append_of_not_mem hgs]
        simp [Fields.set]
      rw [recordAll_cons, ih (fun u hu => hp u (List.mem_cons_of_mem _ hu)) hc, List.append_assoc,
        List.singleton_append]

theorem groups_recordAll_of_fresh {p : String} {vs : List Violation} {c : Collection}
    (hfresh : p ∉ Fields.keys c.groups) (hne : vs ≠ []) (hp : ∀ v ∈ vs, v.path = p) :
    (c.recordAll vs).groups = c.groups ++ [(p, vs)] := by
  obtain ⟨v, us, rfl⟩ := List.exists_cons_of_ne_nil hne
  have hv : (c.record v).groups = c.groups ++ [(p, [v])] := by
    have hnone := (Fields.get?_eq_none_iff c.groups p).mpr hfresh
    simp only [record, hp v (List.mem_cons_self ..), hnone, Option.getD_none, List.nil_append]
    exact Fields.set_of_not_mem _ hfresh
  exact groups_recordAll_of_path (fun u hu => hp u (List.mem_cons_of_mem _ hu)) hfresh hv

theorem groups_new_recordAll_of_path (strict : Bool) {p : String} {vs : List Violation}
    (hne : vs ≠ []) (hp : ∀ v ∈ vs, v.path = p) :
    ((new strict).recordAll vs).groups = [(p, vs)] :=
  groups_recordAll_of_fresh (c := new strict) List.not_mem_nil hne hp

theorem list_new_recordAll_of_path (strict : Bool) {p : String} {vs : List Violation}
    (hp : ∀ v ∈ vs, v.path = p) : ((new strict).recordAll vs).list = vs := by
  by_cases hne : vs = []
  · subst hne
    rfl
  · rw [list, groups_new_recordAll_of_path strict hne hp]
    simp

theorem prefix_list_new_recordAll (strict : Bool) {p : String} {vs : List Violation}
    (hp : ∀ v ∈ vs, v.path = p) (us : List Violation) :
    vs <+: ((new strict).recordAll (vs ++ us)).list := by
  by_cases hne : vs = []
  · subst hne
    exact List.nil_prefix
  · have hvs := groups_new_recordAll_of_path strict hne hp
    obtain ⟨us', gs', hall⟩ := groups_recordAll_cons hvs us
    rw [recordAll_append, list, hall, List.flatMap_cons, List.append_assoc]
    exact List.prefix_append vs _

end Collection

end CheckedConfig
