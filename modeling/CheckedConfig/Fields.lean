namespace CheckedConfig

abbrev Fields (α : Type) := List (String × α)

namespace Fields

variable {α β : Type}

def get? : Fields α → String → Option α
  | [], _ => none
  | (m, v) :: rest, n => if m = n then some v else get? rest n

def set : Fields α → String → α → Fields α
  | [], n, v => [(n, v)]
  | (m, w) :: rest, n, v => if m = n then (m, v) :: rest else (m, w) :: set rest n v

def has (fs : Fields α) (n : String) : Bool := (fs.get? n).isSome

def keys (fs : Fields α) : List String := fs.map Prod.fst

def values (fs : Fields α) : List α := fs.map Prod.snd

def ofList (pairs : List (String × α)) : Fields α :=
  pairs.foldl (fun fs p => fs.set p.1 p.2) []

theorem get?_set_self (fs : Fields α) (n : String) (v : α) : (fs.set n v).get? n = some v := by
  induction fs with
  | nil => simp [set, get?]
  | cons p rest ih =>
      obtain ⟨m, w⟩ := p
      by_cases h : m = n <;> simp [set, get?, h, ih]

theorem get?_set_of_ne (fs : Fields α) {n m : String} (v : α) (h : n ≠ m) :
    (fs.set n v).get? m = fs.get? m := by
  induction fs with
  | nil => simp [set, get?, h]
  | cons p rest ih =>
      obtain ⟨k, w⟩ := p
      by_cases hk : k = n
      · subst hk; simp [set, get?, h]
      · simp [set, get?, hk, ih]

theorem set_get?_self {fs : Fields α} {n : String} {v : α} (h : fs.get? n = some v) :
    fs.set n v = fs := by
  induction fs with
  | nil => simp [get?] at h
  | cons p rest ih =>
      obtain ⟨m, w⟩ := p
      by_cases hm : m = n
      · simp only [get?, hm, if_true, Option.some.injEq] at h
        simp [set, hm, h]
      · simp only [get?, hm, if_false] at h
        simp [set, hm, ih h]

theorem set_set (fs : Fields α) (n : String) (v w : α) : (fs.set n v).set n w = fs.set n w := by
  induction fs with
  | nil => simp [set]
  | cons p rest ih =>
      obtain ⟨m, u⟩ := p
      by_cases h : m = n <;> simp [set, h, ih]

theorem keys_cons (m : String) (w : α) (rest : Fields α) :
    keys ((m, w) :: rest) = m :: keys rest := rfl

theorem get?_eq_none_iff (fs : Fields α) (n : String) : fs.get? n = none ↔ n ∉ fs.keys := by
  induction fs with
  | nil => simp [get?, keys]
  | cons p rest ih =>
      obtain ⟨m, w⟩ := p
      by_cases hm : m = n
      · simp [get?, keys_cons, hm]
      · simp [get?, keys_cons, hm, Ne.symm hm, ih]

theorem has_iff (fs : Fields α) (n : String) : fs.has n = true ↔ n ∈ fs.keys := by
  rw [has, Option.isSome_iff_ne_none, ne_eq, get?_eq_none_iff, Decidable.not_not]

theorem mem_of_get? {fs : Fields α} {n : String} {v : α} (h : fs.get? n = some v) :
    (n, v) ∈ fs := by
  induction fs with
  | nil => simp [get?] at h
  | cons p rest ih =>
      obtain ⟨m, w⟩ := p
      by_cases hm : m = n
      · simp only [get?, hm, if_true, Option.some.injEq] at h
        simp [hm, h]
      · simp only [get?, hm, if_false] at h
        exact List.mem_cons_of_mem _ (ih h)

theorem mem_keys {fs : Fields α} {n : String} {v : α} (h : (n, v) ∈ fs) : n ∈ fs.keys :=
  List.mem_map.mpr ⟨(n, v), h, rfl⟩

theorem get?_of_mem {fs : Fields α} (hd : fs.keys.Nodup) {n : String} {v : α}
    (h : (n, v) ∈ fs) : fs.get? n = some v := by
  induction fs with
  | nil => exact absurd h List.not_mem_nil
  | cons p rest ih =>
      obtain ⟨m, w⟩ := p
      obtain ⟨hm, hrest⟩ := List.nodup_cons.mp hd
      rcases List.mem_cons.mp h with heq | hmem
      · obtain ⟨rfl, rfl⟩ := Prod.mk.inj heq
        simp [get?]
      · have hne : m ≠ n := fun heq => hm (heq ▸ mem_keys hmem)
        simp [get?, hne, ih hrest hmem]

theorem get?_map (f : String → α → β) (fs : Fields α) (n : String) :
    get? (fs.map fun p => (p.1, f p.1 p.2)) n = (fs.get? n).map (f n) := by
  induction fs with
  | nil => rfl
  | cons p rest ih =>
      obtain ⟨m, w⟩ := p
      by_cases hm : m = n <;> simp [get?, hm, ih]

theorem get?_append (fs gs : Fields α) (n : String) :
    get? (fs ++ gs) n = (fs.get? n <|> gs.get? n) := by
  induction fs with
  | nil => rfl
  | cons p rest ih =>
      obtain ⟨m, w⟩ := p
      by_cases hm : m = n <;> simp [get?, hm, ih]

theorem has_of_has_set {fs : Fields α} {m : String} (n : String) (v : α) (h : fs.has m = true) :
    (fs.set n v).has m = true := by
  by_cases hm : n = m
  · rw [has, hm, get?_set_self]
    rfl
  · rw [has, get?_set_of_ne fs v hm]
    exact h

theorem set_of_not_mem {fs : Fields α} {n : String} (v : α) (h : n ∉ fs.keys) :
    fs.set n v = fs ++ [(n, v)] := by
  induction fs with
  | nil => rfl
  | cons p rest ih =>
      obtain ⟨m, w⟩ := p
      simp only [keys, List.map_cons, List.mem_cons, not_or] at h
      simp [set, Ne.symm h.1, ih h.2]

theorem set_append_of_not_mem {fs : Fields α} {n : String} (h : n ∉ fs.keys) (gs : Fields α)
    (v : α) : set (fs ++ gs) n v = fs ++ set gs n v := by
  induction fs with
  | nil => rfl
  | cons p fs ih =>
      obtain ⟨m, w⟩ := p
      rw [keys_cons, List.mem_cons, not_or] at h
      simp [set, Ne.symm h.1, ih h.2]

theorem keys_set_of_mem {fs : Fields α} {n : String} (v : α) (h : n ∈ fs.keys) :
    (fs.set n v).keys = fs.keys := by
  induction fs with
  | nil => simp [keys] at h
  | cons p rest ih =>
      obtain ⟨m, w⟩ := p
      by_cases hm : m = n
      · simp [set, keys, hm]
      · have hrest : n ∈ keys rest := by simpa [keys, Ne.symm hm] using h
        simpa [set, keys, hm] using ih hrest

theorem nodup_set {fs : Fields α} (hd : fs.keys.Nodup) (n : String) (v : α) :
    (fs.set n v).keys.Nodup := by
  by_cases h : n ∈ fs.keys
  · rw [keys_set_of_mem v h]
    exact hd
  · rw [set_of_not_mem v h]
    simp only [keys, List.map_append, List.map_cons, List.map_nil, List.nodup_append]
    refine ⟨hd, List.nodup_cons.mpr ⟨by simp, List.nodup_nil⟩, ?_⟩
    intro a ha b hb heq
    simp only [List.mem_singleton] at hb
    exact h (hb ▸ heq ▸ ha)

theorem mem_set {fs : Fields α} {n : String} {v : α} {p : String × α} (h : p ∈ fs.set n v) :
    p ∈ fs ∨ p = (n, v) := by
  induction fs with
  | nil => simpa [set] using h
  | cons q rest ih =>
      obtain ⟨m, w⟩ := q
      by_cases hm : m = n
      · simp only [set, hm, if_true, List.mem_cons] at h
        rcases h with rfl | h
        · exact Or.inr rfl
        · exact Or.inl (List.mem_cons_of_mem _ h)
      · simp only [set, hm, if_false, List.mem_cons] at h
        rcases h with rfl | h
        · exact Or.inl (List.mem_cons_self ..)
        · exact (ih h).imp_left (List.mem_cons_of_mem _)

theorem ofList_induction {P : Fields α → Prop} (pairs : List (String × α)) (hnil : P [])
    (hset : ∀ fs, P fs → ∀ p ∈ pairs, P (fs.set p.1 p.2)) : P (ofList pairs) := by
  have go (done rest : List (String × α)) (fs : Fields α) (he : pairs = done ++ rest) (h : P fs) :
      P (rest.foldl (fun fs p => fs.set p.1 p.2) fs) := by
    induction rest generalizing done fs with
    | nil => exact h
    | cons p rest ih =>
        exact ih (done ++ [p]) _ (by simpa using he) (hset fs h p (by simp [he]))
  exact go [] pairs [] rfl hnil

theorem nodup_ofList (pairs : List (String × α)) : (ofList pairs).keys.Nodup :=
  ofList_induction (P := fun fs => fs.keys.Nodup) pairs List.nodup_nil
    fun _ hd p _ => nodup_set hd p.1 p.2

theorem mem_of_mem_ofList {pairs : List (String × α)} {p : String × α} (h : p ∈ ofList pairs) :
    p ∈ pairs := by
  have hall : ∀ q ∈ ofList pairs, q ∈ pairs :=
    ofList_induction (P := fun fs => ∀ q ∈ fs, q ∈ pairs) pairs (by simp)
      fun _ hfs _ hq _ hr => (mem_set hr).elim (hfs _) (· ▸ hq)
  exact hall p h

theorem ofList_of_nodup {pairs : List (String × α)} (hd : keys pairs |>.Nodup) :
    ofList pairs = pairs := by
  have go (fs rest : Fields α) (hd : (fs ++ rest).keys.Nodup) :
      rest.foldl (fun fs p => fs.set p.1 p.2) fs = fs ++ rest := by
    induction rest generalizing fs with
    | nil => simp
    | cons p rest ih =>
        have hp : p.1 ∉ keys fs := by
          simp only [keys, List.map_append, List.map_cons, List.nodup_append] at hd
          exact fun hmem => hd.2.2 _ hmem _ (List.mem_cons_self ..) rfl
        have happ : fs.set p.1 p.2 = fs ++ [p] := set_of_not_mem p.2 hp
        rw [List.foldl_cons, happ, ih _ (by simpa using hd)]
        simp
  exact go [] pairs hd

theorem map_set (f : α → β) (fs : Fields α) (n : String) (v : α) :
    (fs.set n v).map (fun p => (p.1, f p.2)) = set (fs.map fun p => (p.1, f p.2)) n (f v) := by
  induction fs with
  | nil => rfl
  | cons p rest ih =>
      obtain ⟨m, w⟩ := p
      by_cases hm : m = n <;> simp [set, hm, ih]

theorem ofList_map (f : α → β) (pairs : List (String × α)) :
    ofList (pairs.map fun p => (p.1, f p.2)) = (ofList pairs).map fun p => (p.1, f p.2) := by
  have go (fs : Fields α) :
      (pairs.map fun p => (p.1, f p.2)).foldl (fun gs p => set gs p.1 p.2)
          (fs.map fun p => (p.1, f p.2))
        = (pairs.foldl (fun fs p => fs.set p.1 p.2) fs).map fun p => (p.1, f p.2) := by
    induction pairs generalizing fs with
    | nil => rfl
    | cons p pairs ih => rw [List.map_cons, List.foldl_cons, List.foldl_cons, ← map_set, ih]
  exact go []

end Fields

end CheckedConfig
