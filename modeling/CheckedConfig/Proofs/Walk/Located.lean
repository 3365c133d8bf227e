import CheckedConfig.Proofs.Slots
import CheckedConfig.Proofs.Walk.Rewritten
import CheckedConfig.Proofs.Walk.Watched

namespace CheckedConfig

namespace Location

structure SamePlace (here there : Location) : Prop where
  propertyPath : here.propertyPath = there.propertyPath
  name : here.name = there.name

variable {here there : Location}

theorem SamePlace.refl (here : Location) : here.SamePlace here := ⟨rfl, rfl⟩

theorem SamePlace.trans {last : Location} (h : here.SamePlace there) (h' : there.SamePlace last) :
    here.SamePlace last :=
  ⟨h.propertyPath.trans h'.propertyPath, h.name.trans h'.name⟩

theorem SamePlace.eq (h : here.SamePlace there) :
    { there with schemaPath := here.schemaPath } = here := by
  rw [← h.propertyPath, ← h.name]

theorem SamePlace.towards (h : here.SamePlace there) (v : Option Value) (s : String) :
    (here.towards v s).SamePlace (there.towards v s) := by
  refine ⟨towards_congr h.propertyPath v s, ?_⟩
  unfold Location.towards
  split <;> rfl

theorem SamePlace.along (h : here.SamePlace there) (v : Option Value) (segments : List String) :
    (here.along v segments).SamePlace (there.along v segments) := by
  induction segments generalizing here there v with
  | nil => exact h
  | cons s rest ih => exact ih (h.towards v s) _

end Location

namespace Value

inductive PutsAt (x : Value) (segment : String) (here : Location) :
    Value → Value → Location → Prop where
  | key {fs : Fields Value} :
      PutsAt x segment here (.object fs) (.object (fs.set segment x))
        (here.property segment "properties")
  | item {vs : List Value} {i : Nat} : Path.index? segment = some i → i < vs.length →
      PutsAt x segment here (.array vs) (.array (vs.set i x)) (here.index i)
  | push {vs : List Value} : Path.index? segment = some vs.length →
      PutsAt x segment here (.array vs) (.array (vs ++ [x])) (here.index vs.length)

inductive StoresAt (x : Value) : Location → List String → Value → Value → Location → Prop where
  | slot {here there : Location} {segment : String} {a b : Value} :
      PutsAt x segment here a b there → StoresAt x here [segment] a b there
  | under {here there last : Location} {segment : String} {rest : List String}
      {a b c d : Value} : a.child? segment = some c → PutsAt d segment here a b there →
      StoresAt x there rest c d last → StoresAt x here (segment :: rest) a b last

variable {x a b : Value} {segment : String} {segments : List String} {here there : Location}

theorem putsAt_iff :
    x.PutsAt segment here a b there ↔
      a.put segment x = .ok b ∧ there = here.towards (some a) segment := by
  constructor
  · intro h
    cases h with
    | key => exact ⟨rfl, rfl⟩
    | @item vs i hi hlt => exact ⟨by simp [put, hi, hlt], (here.towards_of_index? vs hi).symm⟩
    | @push vs hi => exact ⟨by simp [put, hi], (here.towards_of_index? vs hi).symm⟩
  · rintro ⟨h, rfl⟩
    cases a with
    | object fs =>
        obtain rfl := Except.ok.inj h
        exact .key
    | array vs =>
        cases hi : Path.index? segment with
        | none => simp [put, hi] at h
        | some i =>
            rw [here.towards_of_index? vs hi]
            simp only [put, hi] at h
            split at h
            · next hlt =>
                obtain rfl := Except.ok.inj h
                exact .item hi hlt
            · split at h
              · next hlen =>
                  obtain rfl := Except.ok.inj h
                  subst hlen
                  exact .push hi
              · cases h
    | _ => cases h

namespace PutsAt

theorem child?_self (h : x.PutsAt segment here a b there) : b.child? segment = some x :=
  (puts_of_put (putsAt_iff.mp h).1).child?_self

theorem towards_after (h : x.PutsAt segment here a b there) :
    here.towards (some b) segment = there := by
  cases h with
  | key => rfl
  | item hi _ => exact here.towards_of_index? _ hi
  | push hi => exact here.towards_of_index? _ hi

end PutsAt

theorem store_cons {rest : List String} (hne : rest ≠ []) (v : Value) (s : String) :
    v.store (s :: rest) x =
      match v.child? s with
      | none => .error .noParent
      | some w => (w.store rest x).bind (v.put s) := by
  obtain ⟨t, more, rfl⟩ := List.exists_cons_of_ne_nil hne
  rfl

namespace StoresAt

theorem ne_nil (h : x.StoresAt here segments a b there) : segments ≠ [] := by
  cases h <;> exact List.cons_ne_nil _ _

theorem store_eq (h : x.StoresAt here segments a b there) : a.store segments x = .ok b := by
  induction h with
  | slot hput => exact (putsAt_iff.mp hput).1
  | under hc hput hstores ih =>
      rw [store_cons hstores.ne_nil, hc]
      simp only [ih]
      exact (putsAt_iff.mp hput).1

theorem along_before (h : x.StoresAt here segments a b there) :
    here.along (some a) segments = there := by
  induction h with
  | slot hput => exact (putsAt_iff.mp hput).2.symm
  | under hc hput _ ih =>
      rw [Location.along, Option.bind_some, hc, ← (putsAt_iff.mp hput).2]
      exact ih

theorem along_after (h : x.StoresAt here segments a b there) :
    here.along (some b) segments = there := by
  induction h with
  | slot hput => exact hput.towards_after
  | under _ hput _ ih =>
      rw [Location.along, Option.bind_some, hput.child?_self, hput.towards_after]
      exact ih

theorem get?_self (h : x.StoresAt here segments a b there) : b.get? segments = some x :=
  (stores_of_store h.ne_nil h.store_eq).get?_self

end StoresAt

theorem storesAt_of_store (hne : segments ≠ []) (h : a.store segments x = .ok b)
    (here : Location) : x.StoresAt here segments a b (here.along (some a) segments) := by
  induction segments generalizing a b here with
  | nil => exact absurd rfl hne
  | cons s rest ih =>
      by_cases hrest : rest = []
      · subst hrest
        exact .slot (putsAt_iff.mpr ⟨h, rfl⟩)
      · rw [store_cons hrest] at h
        cases hc : a.child? s with
        | none =>
            rw [hc] at h
            cases h
        | some c =>
            rw [hc] at h
            cases hd : c.store rest x with
            | error e =>
                simp only [hd] at h
                cases h
            | ok d =>
                simp only [hd] at h
                rw [Location.along, Option.bind_some, hc]
                exact .under hc (putsAt_iff.mpr ⟨h, rfl⟩) (ih hrest hd _)

theorem storesAt_iff (hne : segments ≠ []) :
    x.StoresAt .root segments a b there ↔
      a.write segments x = .ok b ∧ there = a.location segments := by
  rw [write_ok_iff]
  constructor
  · intro h
    exact ⟨h.store_eq, h.along_before.symm⟩
  · rintro ⟨h, rfl⟩
    exact storesAt_of_store hne h .root

end Value

namespace Frame

variable {c d : Frame} {v w x : Value} {segment : String} {segments : List String} {e : Violation}

inductive ComesTo : Frame → List String → Frame → Prop where
  | here (c : Frame) : ComesTo c [] c
  | next {c d last : Frame} {segment : String} {rest : List String} :
      c.taken? = c.origin → c.next? segment = some d → ComesTo d rest last →
      ComesTo c (segment :: rest) last
  | branch {c last : Frame} {segments : List String} {operator : Keyword} {ms : List Node} {i : Nat}
      {m : Node} : c.outcome = c.origin → c.node.branches operator = some ms → ms[i]? = some m →
      ComesTo ⟨m, c.outcome, c.place.branch operator i⟩ segments last → ComesTo c segments last

theorem comesTo_of_at? (hway : c.Along (fun f _ => f.taken? = f.origin) segments)
    (h : c.at? segments = some d) : c.ComesTo segments d := by
  induction segments generalizing c with
  | nil =>
      obtain rfl := Option.some.inj h
      exact .here c
  | cons s rest ih =>
      obtain ⟨f, hf, h⟩ := Option.bind_eq_some_iff.mp h
      exact .next hway.1 hf (ih (hway.2 f hf) h)

theorem place_of_next? (hv : c.taken? = some v) (h : c.next? segment = some d) :
    d.origin = v.child? segment ∧ d.place.SamePlace (c.place.towards (some v) segment) := by
  cases enters_of_next? h with
  | property hfs _ =>
      obtain rfl := Option.some.inj (hv.symm.trans hfs)
      exact ⟨rfl, rfl, rfl⟩
  | extra hfs _ _ hget =>
      obtain rfl := Option.some.inj (hv.symm.trans hfs)
      exact ⟨hget.symm, rfl, rfl⟩
  | @item vs _ i w hvs _ hi hget =>
      obtain rfl := Option.some.inj (hv.symm.trans hvs)
      rw [c.place.towards_of_index? vs hi]
      exact ⟨by simp [Value.child?, hi, hget], .refl _⟩

theorem ComesTo.place (h : c.ComesTo segments d) (hc : c.origin = some v)
    (hx : v.get? segments = some x) :
    d.origin = some x ∧ d.place.SamePlace (c.place.along (some v) segments) := by
  induction h generalizing v with
  | here c =>
      obtain rfl := Option.some.inj hx
      exact ⟨hc, .refl _⟩
  | @next c f last s rest htaken hnext _ ih =>
      obtain ⟨horigin, hplace⟩ := place_of_next? (htaken.trans hc) hnext
      obtain ⟨y, hy, hx⟩ := Option.bind_eq_some_iff.mp hx
      obtain ⟨hlast, hsame⟩ := ih (horigin.trans hy) hx
      refine ⟨hlast, hsame.trans ?_⟩
      rw [Location.along, Option.bind_some, hy]
      exact hplace.along (some y) rest
  | @branch c last segments operator ms i m houtcome _ _ _ ih =>
      -- a branch goes on in the schema's path only
      obtain ⟨hlast, hsame⟩ := ih (houtcome.trans hc) hx
      have hbranch : (c.place.branch operator i).SamePlace c.place := ⟨rfl, rfl⟩
      exact ⟨hlast, hsame.trans (hbranch.along (some v) segments)⟩

theorem below_of_next? (h : c.next? segment = some d)
    (he : e ∈ d.node.found d.origin d.place) :
    ∃ w, c.taken? = some w ∧ c.node.FoundBelow c.place w e := by
  cases enters_of_next? h with
  | property hw hm =>
      obtain ⟨ps, hps, hmem⟩ := Node.declared?_eq_some hm
      exact ⟨_, hw, .property hps hmem he⟩
  | extra hw hundeclared hextra hget =>
      exact ⟨_, hw, .extra (Node.extra?_eq_some hextra) hundeclared (Fields.mem_of_get? hget) he⟩
  | item hw hm _ hget => exact ⟨_, hw, .item hm hget he⟩

theorem found_of_taken? (hw : c.taken? = some w) :
    c.node.found c.origin c.place
      = c.node.foundContents c.place w ++ c.node.foundBranches c.place (c.node.inside w) := by
  obtain ⟨v, hv, hsettle⟩ := settle_of_taken? hw
  cases ho : c.origin with
  | some u =>
      obtain rfl : u = v := by simpa [ho] using hv
      exact Node.found_of_settle c.place hsettle
  | none =>
      have hdefault : c.node.own.default = some v := by simpa [ho] using hv
      rw [Node.found_none_of_default c.place hdefault]
      exact Node.found_of_settle c.place hsettle

theorem mem_found_of_at? (hnormal : c.node.normalize = c.node) (h : c.at? segments = some d)
    (he : e ∈ d.node.found d.origin d.place) : e ∈ c.node.found c.origin c.place := by
  induction segments generalizing c with
  | nil =>
      obtain rfl := Option.some.inj h
      exact he
  | cons s rest ih =>
      obtain ⟨f, hf, h⟩ := Option.bind_eq_some_iff.mp h
      obtain ⟨w, hw, hbelow⟩ := below_of_next? hf (ih ((child_of_next? hf).normal hnormal) h)
      rw [found_of_taken? hw]
      exact List.mem_append_left _ (Node.mem_foundContents_of_below hnormal hbelow)

end Frame

theorem Schema.write_located (s : Schema) {a b x : Value} {segments : List String}
    (hne : segments ≠ []) (hwrite : a.write segments x = .ok b) :
    (∀ there, x.StoresAt .root segments a b there ↔ there = a.location segments)
      ∧ (∀ d, (s.frame (some b)).ComesTo segments d →
          d.origin = some x ∧ d.place.SamePlace (a.location segments))
      ∧ ∀ d, (s.frame (some b)).at? segments = some d →
          (s.frame (some b)).Along (fun c _ => c.taken? = c.origin) segments →
          let here := { a.location segments with schemaPath := d.place.schemaPath }
          (∀ e ∈ (d.node.walk [] false (some x) here).violations,
              e ∈ (s.walk [] false (some b)).violations)
            ∧ ∀ chain, Interceptor.Keeping chain → chain ≠ [] →
                ∃ visit ∈ (s.walk chain false (some b)).visits,
                  visit.place = ⟨d.node, here.schemaPath, here.propertyPath, here.name, some x⟩ := by
  have hiff (there : Location) : x.StoresAt .root segments a b there ↔ there = a.location segments := by
    rw [Value.storesAt_iff hne]
    exact and_iff_right hwrite
  have hstores := (hiff _).mpr rfl
  have hcomes (d : Frame) (hd : (s.frame (some b)).ComesTo segments d) :
      d.origin = some x ∧ d.place.SamePlace (a.location segments) := by
    obtain ⟨horigin, hsame⟩ := hd.place rfl hstores.get?_self
    have hafter : (s.frame (some b)).place.along (some b) segments = a.location segments :=
      hstores.along_after
    exact ⟨horigin, hafter ▸ hsame⟩
  refine ⟨hiff, hcomes, ?_⟩
  intro d hd hway here
  obtain ⟨horigin, hsame⟩ := hcomes d (Frame.comesTo_of_at? hway hd)
  have hhere : here = d.place := hsame.eq
  constructor
  · intro e he
    rw [hhere, Node.walk_eq_done] at he
    rw [Schema.walk_eq_done]
    exact Frame.mem_found_of_at? s.normal hd (horigin ▸ he)
  · intro chain hchain hchain_ne
    obtain ⟨visit, hvisit, hplace⟩ := Frame.exists_visit_of_at? hchain hchain_ne s.normal hd
    rw [hhere, ← horigin]
    exact ⟨visit, hvisit, hplace⟩

theorem Schema.write_located_past_end :
    let ports : Node := { Node.ofKind .array with items := some (Node.ofKind .string) }
    let server : Node := { Node.ofKind .object with properties := some [("ports", ports)] }
    let s : Schema := ⟨{ Node.ofKind .object with additional := some (.schema server) }, rfl⟩
    let a : Value := .object [("8080", .object [("ports", .array [.string "80"])])]
    let b : Value := .object [("8080", .object [("ports", .array [.string "80", .int 443])])]
    let segments := ["8080", "ports", "01"]
    segments ≠ [] ∧ a.write segments (.int 443) = .ok b
      ∧ (Value.int 443).StoresAt .root segments a b (a.location segments)
      ∧ (a.location segments).propertyPath = "$ROOT.8080.ports[1]"
      ∧ ∃ e ∈ (s.walk [] false (some b)).violations,
          e.path = "$ROOT.8080.ports[1]" ∧ e.keyword = .type := by
  intro ports server s a b segments
  have hne : segments ≠ [] := List.cons_ne_nil _ _
  have hwrite : a.write segments (.int 443) = .ok b := rfl
  obtain ⟨hiff, -, hcalls⟩ := s.write_located hne hwrite
  have hat : (s.frame (some b)).at? segments =
      some ⟨Node.ofKind .string, some (.int 443), "$ROOT.8080.ports[1]",
        "#/additionalProperties/8080/properties/ports/items", none⟩ := rfl
  have hway : (s.frame (some b)).Along (fun c _ => c.taken? = c.origin) segments := by
    refine ⟨rfl, fun c hc => ?_⟩
    obtain rfl := Option.some.inj hc
    refine ⟨rfl, fun c hc => ?_⟩
    obtain rfl := Option.some.inj hc
    exact ⟨rfl, fun _ _ => trivial⟩
  refine ⟨hne, hwrite, (hiff _).mpr rfl, rfl, ?_⟩
  exact ⟨_, (hcalls _ hat hway).1 _ (List.mem_singleton_self _), rfl, rfl⟩

end CheckedConfig
