import CheckedConfig.Proofs.Sameness
import CheckedConfig.Proofs.Walk.Keywords

namespace CheckedConfig

variable {vs ws ds : List Value} {js : List Nat} {v w : Value} {i j k : Nat}

def AlikeAt (vs : List Value) (i j : Nat) : Prop :=
  ∃ v w, vs[i]? = some v ∧ vs[j]? = some w ∧ v.alike w = true

def RepeatAt (vs : List Value) (j : Nat) : Prop := ∃ i < j, AlikeAt vs i j

def FirstRepeatAt (vs : List Value) (j : Nat) : Prop :=
  RepeatAt vs j ∧ ∀ k < j, AlikeAt vs k j → ¬ RepeatAt vs k

theorem AlikeAt.left_lt (h : AlikeAt vs i j) : i < vs.length := by
  obtain ⟨v, w, hv, -, -⟩ := h
  exact (List.getElem?_eq_some_iff.mp hv).1

theorem AlikeAt.right_lt (h : AlikeAt vs i j) : j < vs.length := by
  obtain ⟨v, w, -, hw, -⟩ := h
  exact (List.getElem?_eq_some_iff.mp hw).1

theorem RepeatAt.lt (h : RepeatAt vs j) : j < vs.length := by
  obtain ⟨i, -, hij⟩ := h
  exact hij.right_lt

theorem alikeAt_iff (hv : vs[i]? = some v) (hw : vs[j]? = some w) :
    AlikeAt vs i j ↔ v.alike w = true := by
  simp [AlikeAt, hv, hw]

theorem pairwise_iff_not_alikeAt_of_lt :
    vs.Pairwise (fun a b => a.alike b = false) ↔ ∀ i j, i < j → ¬ AlikeAt vs i j := by
  rw [List.pairwise_iff_getElem]
  constructor
  · intro h i j hij halike
    have hi := halike.left_lt
    have hj := halike.right_lt
    rw [alikeAt_iff (List.getElem?_eq_getElem hi) (List.getElem?_eq_getElem hj),
      h i j hi hj hij] at halike
    cases halike
  · intro h i j hi hj hij
    have hno := h i j hij
    rw [alikeAt_iff (List.getElem?_eq_getElem hi) (List.getElem?_eq_getElem hj)] at hno
    exact Bool.eq_false_iff.mpr hno

section Distinct

variable (hvs : ∀ v ∈ vs, v.Distinct)

include hvs

theorem AlikeAt.symm (h : AlikeAt vs i j) : AlikeAt vs j i := by
  obtain ⟨v, w, hv, hw, hvw⟩ := h
  exact ⟨w, v, hw, hv, Value.alike_symm (hvs v (List.mem_of_getElem? hv))
    (hvs w (List.mem_of_getElem? hw)) hvw⟩

theorem AlikeAt.trans (h : AlikeAt vs i j) (h' : AlikeAt vs j k) : AlikeAt vs i k := by
  obtain ⟨u, v, hu, hv, huv⟩ := h
  obtain ⟨v', w, hv', hw, hvw⟩ := h'
  obtain rfl : v = v' := Option.some.inj (hv.symm.trans hv')
  exact ⟨u, w, hu, hw, Value.alike_trans (hvs u (List.mem_of_getElem? hu))
    (hvs v (List.mem_of_getElem? hv)) (hvs w (List.mem_of_getElem? hw)) huv hvw⟩

theorem alikeAt_self (hj : j < vs.length) : AlikeAt vs j j :=
  ⟨vs[j], vs[j], List.getElem?_eq_getElem hj, List.getElem?_eq_getElem hj,
    Value.alike_refl (hvs _ (List.getElem_mem hj))⟩

theorem RepeatAt.exists_first (h : RepeatAt vs j) :
    ∃ k ≤ j, AlikeAt vs k j ∧ FirstRepeatAt vs k := by
  induction j using Nat.strongRecOn with
  | ind j ih =>
      by_cases hfirst : ∀ k < j, AlikeAt vs k j → ¬ RepeatAt vs k
      · exact ⟨j, Nat.le_refl j, alikeAt_self hvs h.lt, h, hfirst⟩
      · -- an alike value before it repeats already, and the search goes on from there
        push Not at hfirst
        obtain ⟨k, hkj, halike, hrepeat⟩ := hfirst
        obtain ⟨i, hik, halike', hi⟩ := ih k hkj hrepeat
        exact ⟨i, Nat.le_trans hik (Nat.le_of_lt hkj), halike'.trans hvs halike, hi⟩

theorem pairwise_iff_not_alikeAt :
    vs.Pairwise (fun a b => a.alike b = false) ↔ ∀ i j, i ≠ j → ¬ AlikeAt vs i j := by
  rw [pairwise_iff_not_alikeAt_of_lt]
  constructor
  · intro h i j hne halike
    rcases Nat.lt_or_gt_of_ne hne with hij | hji
    · exact h i j hij halike
    · exact h j i hji (halike.symm hvs)
  · exact fun h i j hij => h i j (Nat.ne_of_lt hij)

theorem countP_alike_eq_one (hpairwise : vs.Pairwise fun a b => a.alike b = false) (hv : v ∈ vs)
    (hw : w.Distinct) (hvw : v.alike w = true) : vs.countP (·.alike w) = 1 := by
  have hwv : w.alike v = true := Value.alike_symm (hvs v hv) hw hvw
  obtain ⟨as, bs, rfl⟩ := List.append_of_mem hv
  obtain ⟨-, hafter, hbefore⟩ := List.pairwise_append.mp hpairwise
  have hleft : as.countP (·.alike w) = 0 := by
    refine List.countP_eq_zero.mpr fun a ha haw => ?_
    have hav := Value.alike_trans (hvs a (List.mem_append_left _ ha)) hw (hvs v hv) haw hwv
    rw [hbefore a ha v (List.mem_cons_self ..)] at hav
    cases hav
  have hright : bs.countP (·.alike w) = 0 := by
    refine List.countP_eq_zero.mpr fun b hb hbw => ?_
    have hbs : b.Distinct := hvs b (List.mem_append_right _ (List.mem_cons_of_mem _ hb))
    have hvb := Value.alike_trans (hvs v hv) hw hbs hvw (Value.alike_symm hbs hw hbw)
    rw [(List.pairwise_cons.mp hafter).1 b hb] at hvb
    cases hvb
  rw [List.countP_append, List.countP_cons, hleft, hright, if_pos hvw]

end Distinct

theorem alikeAt_append (hi : i < vs.length) (hj : j < vs.length) :
    AlikeAt (vs ++ ws) i j ↔ AlikeAt vs i j := by
  simp only [AlikeAt, List.getElem?_append_left hi, List.getElem?_append_left hj]

theorem repeatAt_append (hj : j < vs.length) : RepeatAt (vs ++ ws) j ↔ RepeatAt vs j :=
  exists_congr fun _ => and_congr_right fun hij => alikeAt_append (Nat.lt_trans hij hj) hj

theorem firstRepeatAt_append (hj : j < vs.length) :
    FirstRepeatAt (vs ++ ws) j ↔ FirstRepeatAt vs j := by
  refine and_congr (repeatAt_append hj) (forall₂_congr fun k hkj => ?_)
  have hk : k < vs.length := Nat.lt_trans hkj hj
  rw [alikeAt_append hk hj, repeatAt_append hk]

theorem alikeAt_length_iff (hi : vs[i]? = some w) :
    AlikeAt (vs ++ [v]) i vs.length ↔ w.alike v = true := by
  have hlt := (List.getElem?_eq_some_iff.mp hi).1
  exact alikeAt_iff (by rw [List.getElem?_append_left hlt, hi]) List.getElem?_concat_length

theorem repeatAt_length_iff :
    RepeatAt (vs ++ [v]) vs.length ↔ vs.any (·.alike v) = true := by
  rw [List.any_eq_true]
  constructor
  · rintro ⟨i, hi, halike⟩
    rw [alikeAt_length_iff (List.getElem?_eq_getElem hi)] at halike
    exact ⟨vs[i], List.getElem_mem hi, halike⟩
  · rintro ⟨w, hw, halike⟩
    obtain ⟨i, hi⟩ := List.getElem?_of_mem hw
    exact ⟨i, (List.getElem?_eq_some_iff.mp hi).1, (alikeAt_length_iff hi).mpr halike⟩

structure Found (vs ds : List Value) (js : List Nat) : Prop where
  increasing : js.Pairwise (· < ·)
  first : ∀ j, j ∈ js ↔ FirstRepeatAt vs j
  values : js.map (vs[·]?) = ds.map some

namespace Found

theorem nil : Found [] [] [] := by
  refine ⟨.nil, fun j => ?_, rfl⟩
  simp only [List.not_mem_nil, false_iff]
  exact fun h => absurd h.1.lt (Nat.not_lt_zero j)

theorem lt_length (h : Found vs ds js) (hj : j ∈ js) : j < vs.length :=
  ((h.first j).mp hj).1.lt

theorem mem_iff (h : Found vs ds js) : v ∈ ds ↔ ∃ j, FirstRepeatAt vs j ∧ vs[j]? = some v := by
  have hmem : some v ∈ ds.map some ↔ v ∈ ds := by simp
  rw [← hmem, ← h.values, List.mem_map]
  simp only [h.first]

theorem distinct (hvs : ∀ v ∈ vs, v.Distinct) (h : Found vs ds js) : ∀ d ∈ ds, d.Distinct := by
  intro d hd
  obtain ⟨j, -, hj⟩ := h.mem_iff.mp hd
  exact hvs d (List.mem_of_getElem? hj)

theorem first_length_iff (hvs : ∀ u ∈ vs ++ [v], u.Distinct) (h : Found vs ds js) :
    FirstRepeatAt (vs ++ [v]) vs.length ↔
      (vs.any (·.alike v) && !ds.any (·.alike v)) = true := by
  rw [FirstRepeatAt, repeatAt_length_iff, Bool.and_eq_true, Bool.not_eq_true', List.any_eq_false]
  refine and_congr_right fun _ => ⟨fun hfirst d hd halike => ?_, fun hnone k hk halike hrepeat => ?_⟩
  · obtain ⟨j, hj, hget⟩ := h.mem_iff.mp hd
    have hlt := hj.1.lt
    exact hfirst j hlt ((alikeAt_length_iff hget).mpr halike) ((repeatAt_append hlt).mpr hj.1)
  · -- the first repeat of the value at `k` has been found, and it is alike to the new one
    obtain ⟨j, hjk, hjk', hj⟩ := hrepeat.exists_first hvs
    have hlt : j < vs.length := Nat.lt_of_le_of_lt hjk hk
    have hget : vs[j]? = some vs[j] := List.getElem?_eq_getElem hlt
    refine hnone _ (h.mem_iff.mpr ⟨j, (firstRepeatAt_append hlt).mp hj, hget⟩) ?_
    exact (alikeAt_length_iff hget).mp (hjk'.trans hvs halike)

theorem map_getElem?_append (h : Found vs ds js) :
    js.map ((vs ++ ws)[·]?) = ds.map some := by
  rw [← h.values]
  exact List.map_congr_left fun j hj => List.getElem?_append_left (h.lt_length hj)

theorem first_append_singleton_iff (h : Found vs ds js) (v : Value) (j : Nat) :
    FirstRepeatAt (vs ++ [v]) j ↔
      j ∈ js ∨ (j = vs.length ∧ FirstRepeatAt (vs ++ [v]) vs.length) := by
  rw [h.first]
  constructor
  · intro hj
    have hle : j < vs.length + 1 := by simpa using hj.1.lt
    rcases Nat.lt_succ_iff_lt_or_eq.mp hle with hlt | rfl
    · exact .inl ((firstRepeatAt_append hlt).mp hj)
    · exact .inr ⟨rfl, hj⟩
  · rintro (hj | ⟨rfl, hj⟩)
    · exact (firstRepeatAt_append hj.1.lt).mpr hj
    · exact hj

theorem push (h : Found vs ds js) (hfirst : FirstRepeatAt (vs ++ [v]) vs.length) :
    Found (vs ++ [v]) (ds ++ [v]) (js ++ [vs.length]) where
  increasing := List.pairwise_append.mpr
    ⟨h.increasing, List.pairwise_singleton .., by simpa using fun _ => h.lt_length⟩
  first j := by simp [h.first_append_singleton_iff v j, hfirst]
  values := by simp [h.map_getElem?_append]

theorem pass (h : Found vs ds js) (hno : ¬ FirstRepeatAt (vs ++ [v]) vs.length) :
    Found (vs ++ [v]) ds js where
  increasing := h.increasing
  first j := by simp [h.first_append_singleton_iff v j, hno]
  values := h.map_getElem?_append

theorem run (earlier found rest : List Value) (hvs : ∀ u ∈ earlier.reverse ++ rest, u.Distinct)
    (h : Found earlier.reverse found.reverse js) :
    ∃ ks, Found (earlier.reverse ++ rest) (repeats earlier found rest) ks := by
  induction rest generalizing earlier found js with
  | nil => exact ⟨js, by simpa [repeats] using h⟩
  | cons v rest ih =>
      rw [List.append_cons] at hvs ⊢
      have htest := h.first_length_iff fun u hu => hvs u (List.mem_append_left _ hu)
      rw [List.any_reverse, List.any_reverse] at htest
      rw [← List.reverse_cons] at hvs ⊢
      rw [repeats]
      split
      · next hnew =>
          have hpush := h.push (htest.mpr hnew)
          rw [← List.reverse_cons, ← List.reverse_cons] at hpush
          exact ih _ _ hvs hpush
      · next hold =>
          have hpass := h.pass (mt htest.mp hold)
          rw [← List.reverse_cons] at hpass
          exact ih _ _ hvs hpass

theorem pairwise (h : Found vs ds js) : ds.Pairwise fun a b => a.alike b = false := by
  have hplaces : js.Pairwise fun i j => ¬ AlikeAt vs i j :=
    h.increasing.imp_of_mem fun hi hj hij halike =>
      ((h.first _).mp hj).2 _ hij halike ((h.first _).mp hi).1
  have hvalues : (js.map (vs[·]?)).Pairwise fun o p =>
      ∀ a b, o = some a → p = some b → a.alike b = false :=
    List.pairwise_map.mpr (hplaces.imp fun hno a b ha hb =>
      Bool.eq_false_iff.mpr (mt (alikeAt_iff ha hb).mpr hno))
  rw [h.values, List.pairwise_map] at hvalues
  exact hvalues.imp fun hab => hab _ _ rfl rfl

theorem countP_eq_one (hvs : ∀ v ∈ vs, v.Distinct) (h : Found vs ds js)
    (hw : vs[j]? = some w) (hrepeat : RepeatAt vs j) : ds.countP (·.alike w) = 1 := by
  obtain ⟨k, -, ⟨d, w', hd, hw', hdw⟩, hk⟩ := hrepeat.exists_first hvs
  obtain rfl : w' = w := Option.some.inj (hw'.symm.trans hw)
  exact countP_alike_eq_one (h.distinct hvs) h.pairwise (h.mem_iff.mpr ⟨k, hk, hd⟩)
    (hvs w' (List.mem_of_getElem? hw)) hdw

end Found

theorem exists_found_duplicated (hvs : ∀ v ∈ vs, v.Distinct) :
    ∃ js, Found vs (duplicated vs) js :=
  Found.run [] [] vs hvs .nil

theorem duplicated_exact (vs : List Value) (hvs : ∀ v ∈ vs, v.Distinct) :
    (duplicated vs = [] ↔ ∀ i j, i ≠ j → ¬ AlikeAt vs i j)
      ∧ (∀ i j, i ≠ j → ¬ AlikeAt (duplicated vs) i j)
      ∧ (∃ js : List Nat, js.Pairwise (· < ·) ∧ (∀ j, j ∈ js ↔ FirstRepeatAt vs j)
          ∧ js.map (vs[·]?) = (duplicated vs).map some)
      ∧ ∀ j w, vs[j]? = some w → RepeatAt vs j → (duplicated vs).countP (·.alike w) = 1 := by
  obtain ⟨js, h⟩ := exists_found_duplicated hvs
  refine ⟨?_, ?_, ⟨js, h.increasing, h.first, h.values⟩, fun j w hw hrepeat => ?_⟩
  · rw [duplicated_eq_nil_iff]
    exact pairwise_iff_not_alikeAt hvs
  · exact (pairwise_iff_not_alikeAt (h.distinct hvs)).mp h.pairwise
  · exact h.countP_eq_one hvs hw hrepeat

theorem duplicated_exact_mixed :
    let one : Value := .number (.real ⟨false, Double.unit⟩)
    let point : Value := .object [("x", .int 1), ("y", .null)]
    let turned : Value := .object [("y", .null), ("x", .int 1)]
    let vs : List Value :=
      [.int 1, point, .array [.int 1], one, .array [one], turned, .string "1", .int 1]
    (∀ v ∈ vs, v.Distinct) ∧ vs[7]? = some (.int 1) ∧ RepeatAt vs 7
      ∧ Value.sameItems (duplicated vs) [one, turned] = true
      ∧ (∀ i j, i ≠ j → ¬ AlikeAt (duplicated vs) i j)
      ∧ (∃ js : List Nat, js.Pairwise (· < ·) ∧ (∀ j, j ∈ js ↔ FirstRepeatAt vs j)
          ∧ js.map (vs[·]?) = (duplicated vs).map some)
      ∧ (duplicated vs).countP (·.alike (.int 1)) = 1 := by
  intro one point turned vs
  have harray {v : Value} (hv : v.isContainer = false) : (Value.array [v]).Distinct :=
    .array (List.forall_mem_singleton.mpr (.scalar hv))
  have hobject {fs : Fields Value} (hkeys : (Fields.keys fs).Nodup)
      (hfs : ∀ p ∈ fs, p.2.isContainer = false) : (Value.object fs).Distinct :=
    .object hkeys fun p hp => .scalar (hfs p hp)
  have hvs : ∀ v ∈ vs, v.Distinct := by
    simp only [vs, List.forall_mem_cons]
    exact ⟨.scalar rfl, hobject (by decide) (by decide), harray rfl, .scalar rfl, harray rfl,
      hobject (by decide) (by decide), .scalar rfl, .scalar rfl, nofun⟩
  have hrepeat : RepeatAt vs 7 := ⟨0, by decide, .int 1, .int 1, rfl, rfl, by decide +kernel⟩
  obtain ⟨-, hpairwise, hplaces, hone⟩ := duplicated_exact vs hvs
  exact ⟨hvs, rfl, hrepeat, by decide +kernel, hpairwise, hplaces, hone 7 _ rfl hrepeat⟩

end CheckedConfig
