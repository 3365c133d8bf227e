import CheckedConfig.Proofs.Walk.Simulation

namespace CheckedConfig

namespace Walk

variable {α β : Type}

structure Keeps (seen : Visit → Prop) (said : Violation → Prop) (P : α → Prop) (w : Walk α) :
    Prop where
  visits : ∀ x ∈ w.visits, seen x
  violations : ∀ u ∈ w.violations, said u
  result : ∀ a, w.result = .ok a → P a

namespace Keeps

variable {seen : Visit → Prop} {said : Violation → Prop}

theorem pure {P : α → Prop} {a : α} (h : P a) : Keeps seen said P (Pure.pure a) where
  visits _ hx := absurd hx List.not_mem_nil
  violations _ hu := absurd hu List.not_mem_nil
  result _ hb := Except.ok.inj hb ▸ h

theorem bind {P : α → Prop} {Q : β → Prop} {w : Walk α} {f : α → Walk β}
    (h : Keeps seen said P w) (hf : ∀ a, P a → Keeps seen said Q (f a)) :
    Keeps seen said Q (w >>= f) := by
  cases hw : w.result with
  | error e =>
      rw [bind_of_error hw]
      exact ⟨h.visits, h.violations, nofun⟩
  | ok a =>
      rw [bind_of_ok hw]
      have hfa := hf a (h.result a hw)
      constructor
      · exact List.forall_mem_append.mpr ⟨h.visits, hfa.visits⟩
      · exact List.forall_mem_append.mpr ⟨h.violations, hfa.violations⟩
      · exact hfa.result

theorem emit {strict : Bool} {vs : List Violation} (h : ∀ u ∈ vs, said u) :
    Keeps seen said (fun _ => True) (Walk.emit strict vs) where
  visits _ hx := absurd hx List.not_mem_nil
  violations := h
  result _ _ := trivial

theorem passes {P : α → Prop} {w : Walk α} (h : Keeps seen said P w) :
    Keeps seen said (fun _ => True) w.passes where
  visits := h.visits
  violations _ hu := absurd hu List.not_mem_nil
  result _ _ := trivial

theorem mono {seen' : Visit → Prop} {said' : Violation → Prop} {P P' : α → Prop} {w : Walk α}
    (h : Keeps seen said P w) (hseen : ∀ x, seen x → seen' x) (hsaid : ∀ u, said u → said' u)
    (hP : ∀ a, P a → P' a) : Keeps seen' said' P' w where
  visits x hx := hseen x (h.visits x hx)
  violations u hu := hsaid u (h.violations u hu)
  result a ha := hP a (h.result a ha)

theorem and_result {P : α → Prop} {w : Walk α} (h : Keeps seen said P w) :
    Keeps seen said (fun a => P a ∧ w.result = .ok a) w where
  visits := h.visits
  violations := h.violations
  result a ha := ⟨h.result a ha, ha⟩

theorem fieldsWhere {Q : String → Value → Prop} {test : String → Bool}
    {f : String → Value → Walk (Option Value)} {fs : Fields Value}
    (hleft : ∀ p ∈ fs, test p.1 = false → Q p.1 p.2)
    (h : ∀ p ∈ fs, test p.1 = true → Keeps seen said (fun o => Q p.1 (o.getD .null)) (f p.1 p.2)) :
    Keeps seen said (fun gs => ∀ p ∈ gs, Q p.1 p.2) (Walk.fieldsWhere test f fs) := by
  induction fs with
  | nil => exact .pure fun p hp => absurd hp List.not_mem_nil
  | cons p fs ih =>
      obtain ⟨name, v⟩ := p
      obtain ⟨hpleft, hleft⟩ := List.forall_mem_cons.mp hleft
      obtain ⟨hp, hrest⟩ := List.forall_mem_cons.mp h
      cases ht : test name with
      | true =>
          simp only [Walk.fieldsWhere, ht, if_true]
          refine (hp ht).bind fun o ho => (ih hleft hrest).bind fun gs hgs => ?_
          exact .pure (List.forall_mem_cons.mpr ⟨ho, hgs⟩)
      | false =>
          simp only [Walk.fieldsWhere, ht]
          exact (ih hleft hrest).bind fun gs hgs => .pure (List.forall_mem_cons.mpr ⟨hpleft ht, hgs⟩)

theorem itemsFrom {Q : Value → Prop} {f : Nat → Value → Walk (Option Value)} {vs : List Value}
    {i : Nat} (h : ∀ j v, vs[j]? = some v →
      Keeps seen said (fun o => Q (o.getD .null)) (f (i + j) v)) :
    Keeps seen said (fun us => ∀ v ∈ us, Q v) (Walk.itemsFrom f i vs) := by
  induction vs generalizing i with
  | nil => exact .pure fun v hv => absurd hv List.not_mem_nil
  | cons v vs ih =>
      have hrest : Keeps seen said (fun us => ∀ v ∈ us, Q v) (Walk.itemsFrom f (i + 1) vs) := by
        refine ih fun j u hu => ?_
        rw [Nat.add_right_comm]
        exact h (j + 1) u hu
      refine (h 0 v rfl).bind fun o ho => hrest.bind fun us hus => ?_
      exact .pure (List.forall_mem_cons.mpr ⟨ho, hus⟩)

theorem somePasses {ts : List (Walk Bool)} (h : ∀ t ∈ ts, Keeps seen said (fun _ => True) t) :
    Keeps seen said (fun _ => True) (Walk.somePasses ts) := by
  induction ts with
  | nil => exact .pure trivial
  | cons t ts ih =>
      obtain ⟨ht, hrest⟩ := List.forall_mem_cons.mp h
      refine ht.bind fun b _ => ?_
      cases b with
      | true => exact .pure trivial
      | false => exact ih hrest

theorem allPass {ts : List (Walk Bool)} (h : ∀ t ∈ ts, Keeps seen said (fun _ => True) t) :
    Keeps seen said (fun _ => True) (Walk.allPass ts) := by
  induction ts with
  | nil => exact .pure trivial
  | cons t ts ih =>
      obtain ⟨ht, hrest⟩ := List.forall_mem_cons.mp h
      refine ht.bind fun b _ => ?_
      cases b with
      | true => exact ih hrest
      | false => exact .pure trivial

theorem countPasses {ts : List (Walk Bool)} (h : ∀ t ∈ ts, Keeps seen said (fun _ => True) t)
    (count : Nat) : Keeps seen said (fun _ => True) (Walk.countPasses count ts) := by
  induction ts generalizing count with
  | nil => exact .pure trivial
  | cons t ts ih =>
      obtain ⟨ht, hrest⟩ := List.forall_mem_cons.mp h
      refine ht.bind fun b _ => ?_
      by_cases hmany : 1 < if b = true then count + 1 else count
      · simp only [hmany, if_true]
        exact .pure trivial
      · simp only [hmany, if_false]
        exact ih hrest _

end Keeps

end Walk

namespace Node

variable {n : Node} {here : Location} {strict : Bool}

section Branches

variable {seen : Visit → Prop} {said : Violation → Prop} {ts : List (Walk Bool)}

theorem keeps_matchAny (hsaid : ∀ message, said (n.violation here .anyOf message))
    (h : ∀ t ∈ ts, t.Keeps seen said fun _ => True) :
    (n.matchAny strict here ts).Keeps seen said fun _ => True := by
  unfold matchAny
  split
  · exact .pure trivial
  · refine (Walk.Keeps.somePasses h).bind fun matched _ => .emit ?_
    cases matched with
    | true => exact fun u hu => absurd hu List.not_mem_nil
    | false => exact List.forall_mem_singleton.mpr (hsaid _)

theorem keeps_matchNone (hsaid : ∀ message, said (n.violation here .not message))
    (h : ∀ t ∈ ts, t.Keeps seen said fun _ => True) :
    (n.matchNone strict here ts).Keeps seen said fun _ => True := by
  unfold matchNone
  split
  · exact .pure trivial
  · refine (Walk.Keeps.somePasses h).bind fun matched _ => .emit ?_
    cases matched with
    | true => exact List.forall_mem_singleton.mpr (hsaid _)
    | false => exact fun u hu => absurd hu List.not_mem_nil

theorem keeps_matchAll (hsaid : ∀ message, said (n.violation here .allOf message))
    (h : ∀ t ∈ ts, t.Keeps seen said fun _ => True) :
    (n.matchAll strict here ts).Keeps seen said fun _ => True := by
  unfold matchAll
  split
  · exact .pure trivial
  · refine (Walk.Keeps.allPass h).bind fun matched _ => .emit ?_
    cases matched with
    | true => exact fun u hu => absurd hu List.not_mem_nil
    | false => exact List.forall_mem_singleton.mpr (hsaid _)

theorem keeps_matchOne (hsaid : ∀ message, said (n.violation here .oneOf message))
    (h : ∀ t ∈ ts, t.Keeps seen said fun _ => True) :
    (n.matchOne strict here ts).Keeps seen said fun _ => True := by
  unfold matchOne
  split
  · exact .pure trivial
  · refine (Walk.Keeps.countPasses h 0).bind fun count _ => .emit ?_
    rcases count with _ | _ | k
    · exact List.forall_mem_singleton.mpr (hsaid _)
    · exact fun u hu => absurd hu List.not_mem_nil
    · exact List.forall_mem_singleton.mpr (hsaid _)

theorem keeps_matchBranches {anys nones alls ones : List (Walk Bool)} {w : Value}
    (hsaid : ∀ operator ∈ [Keyword.anyOf, .not, .allOf, .oneOf], ∀ message,
      said (n.violation here operator message))
    (hany : ∀ t ∈ anys, t.Keeps seen said fun _ => True)
    (hnone : ∀ t ∈ nones, t.Keeps seen said fun _ => True)
    (hall : ∀ t ∈ alls, t.Keeps seen said fun _ => True)
    (hone : ∀ t ∈ ones, t.Keeps seen said fun _ => True) :
    (n.matchBranches strict here w anys nones alls ones).Keeps seen said fun _ => True := by
  simp only [List.forall_mem_cons] at hsaid
  obtain ⟨hsaidAny, hsaidNone, hsaidAll, hsaidOne, -⟩ := hsaid
  unfold matchBranches
  split
  · refine (keeps_matchAny hsaidAny hany).bind fun _ _ => ?_
    refine (keeps_matchNone hsaidNone hnone).bind fun _ _ => ?_
    exact (keeps_matchAll hsaidAll hall).bind fun _ _ => keeps_matchOne hsaidOne hone
  · exact .pure trivial

end Branches

variable {chain : List Interceptor}

theorem mem_trialsFrom {ns : List Node} {operator : Keyword} {i : Nat} {w : Value}
    {t : Walk Bool} (h : t ∈ trialsFrom chain ns operator i w here) :
    ∃ j, ∃ c : Node, ns[j]? = some c
      ∧ t = (c.walk chain false (some w) (here.branch operator (i + j))).passes := by
  induction ns generalizing i with
  | nil => exact absurd h List.not_mem_nil
  | cons c ns ih =>
      rw [trialsFrom] at h
      rcases List.mem_cons.mp h with rfl | h
      · exact ⟨0, c, rfl, rfl⟩
      · obtain ⟨j, d, hd, rfl⟩ := ih h
        have hj : i + 1 + j = i + (j + 1) := by omega
        exact ⟨j + 1, d, hd, by rw [hj]⟩

end Node

end CheckedConfig
