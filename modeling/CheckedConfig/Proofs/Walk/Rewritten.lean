import CheckedConfig.Proofs.Path
import CheckedConfig.Proofs.Search
import CheckedConfig.Proofs.Walk.Idempotence
import CheckedConfig.Proofs.Walk.Places

namespace CheckedConfig

theorem Keywords.accepts_of_kind {own : Keywords} {v w : Value} (hkind : Kind.of v = Kind.of w)
    (hw : Kind.of w ≠ .number) (h : own.AcceptsKind v) : own.AcceptsKind w := by
  intro s hs
  rcases h s hs with hany | hhas | hwhole
  · exact .inl hany
  · exact .inr (.inl (hkind ▸ hhas))
  · exact absurd (hkind.symm.trans (kind_of_isWhole hwhole.2)) hw

theorem Value.Puts.kind_ne_number {x a b : Value} {segment : String} (h : x.Puts segment a b) :
    Kind.of a ≠ .number := by
  cases h <;> exact Kind.noConfusion

namespace Node

def governs (n : Node) (here : Location) (v : Value) (segment : String) :
    Option (Node × Location) :=
  match v with
  | .object _ =>
      match n.declared? segment with
      | some m => some (m, here.property segment "properties")
      | none => n.extra?.map (·, here.property segment "additionalProperties")
  | .array _ => n.items.bind fun m => (Path.index? segment).map fun i => (m, here.index i)
  | _ => none

variable {n m : Node} {here there : Location} {x a b v w : Value} {segment : String}

theorem governs_of_puts (h : v.Puts segment a b) :
    n.governs here b segment = n.governs here a segment := by
  cases h <;> rfl

theorem below_of_governs (h : n.governs here v segment = some (m, there))
    (hw : v.child? segment = some w) {e : Violation} (he : e ∈ m.found (some w) there) :
    n.FoundBelow here v e := by
  cases v with
  | object fs =>
      have hget : Fields.get? fs segment = some w := hw
      cases hm : n.declared? segment with
      | some c =>
          simp only [governs, hm, Option.some.injEq, Prod.mk.injEq] at h
          obtain ⟨rfl, rfl⟩ := h
          obtain ⟨ps, hps, hmem⟩ := declared?_eq_some hm
          exact .property hps hmem (hget ▸ he)
      | none =>
          simp only [governs, hm, Option.map_eq_some_iff, Prod.mk.injEq] at h
          obtain ⟨c, hc, rfl, rfl⟩ := h
          have hd : n.declares segment = false := by simp [declares_eq, hm]
          exact .extra (extra?_eq_some hc) hd (Fields.mem_of_get? hget) he
  | array vs =>
      simp only [governs, Option.bind_eq_some_iff, Option.map_eq_some_iff, Prod.mk.injEq] at h
      obtain ⟨c, hc, i, hi, rfl, rfl⟩ := h
      simp only [Value.child?, hi, Option.bind_some] at hw
      exact .item hc hw he
  | _ => cases h

theorem governs_path (h : n.governs here v segment = some (m, there))
    (hw : v.child? segment = some w) :
    (here.towards (some v) segment).propertyPath = there.propertyPath := by
  cases v with
  | object fs =>
      cases hm : n.declared? segment with
      | some c =>
          simp only [governs, hm, Option.some.injEq, Prod.mk.injEq] at h
          rw [← h.2]
          rfl
      | none =>
          simp only [governs, hm, Option.map_eq_some_iff, Prod.mk.injEq] at h
          obtain ⟨c, -, -, rfl⟩ := h
          rfl
  | array vs =>
      simp only [governs, Option.bind_eq_some_iff, Option.map_eq_some_iff, Prod.mk.injEq] at h
      obtain ⟨c, hc, i, hi, rfl, rfl⟩ := h
      rw [here.towards_of_index? vs hi]
  | _ => cases h

theorem governs_along (h : n.governs here v segment = some (m, there))
    (hw : v.child? segment = some w) (rest : List String) :
    (here.along (some v) (segment :: rest)).propertyPath
      = (there.along (some w) rest).propertyPath := by
  rw [Location.along, Option.bind_some, hw]
  exact Location.along_congr (governs_path h hw) _ rest

theorem declares_of_clean (hm : n.additional = some (.allowed false)) {fs : Fields Value}
    (hclean : n.foundContents here (.object fs) = []) {name : String} {w : Value}
    (hw : (name, w) ∈ fs) : n.declares name = true := by
  rw [foundContents, hm, foundAdditional, List.append_eq_nil_iff, undeclared_eq_nil_iff] at hclean
  cases hd : n.declares name with
  | true => rfl
  | false =>
      have hkey := Fields.mem_keys ((mem_outcomeProperties hd w fs).mpr hw)
      rw [hclean.2 name hkey] at hd
      exact hd.symm

theorem owns_or_governs (hnormal : n.normalize = n) (hput : x.Puts segment a b)
    (hclean : n.foundContents here a = []) {e : Violation} (he : e ∈ n.foundContents here b) :
    (n.Reports here e ∧ (e.keyword = .additionalProperties →
        n.additional = some (.allowed false) ∧ n.declares segment = false))
      ∨ ∃ m there, n.governs here b segment = some (m, there) ∧ e ∈ m.found (some x) there := by
  have hold (hbelow : n.FoundBelow here a e) : False :=
    List.not_mem_nil (hclean ▸ mem_foundContents_of_below hnormal hbelow)
  rcases owns_or_below hnormal he with hown | hbelow
  · left
    refine ⟨hown.reports, ?_⟩
    intro hk
    obtain ⟨hm, gs, name, rfl, hkey, hd⟩ := hown.closed hk
    obtain ⟨fs, rfl, hmem, -⟩ := hput.of_object
    obtain ⟨⟨_, w⟩, hw, rfl⟩ := List.mem_map.mp hkey
    rcases hmem _ hw with hw | heq
    · rw [declares_of_clean hm hclean hw] at hd
      exact Bool.noConfusion hd
    · rw [Prod.mk.injEq] at heq
      exact ⟨hm, heq.1 ▸ hd⟩
  · right
    cases hbelow with
    | @property gs _ ps name c hps hc he =>
        obtain ⟨fs, rfl, -, hget⟩ := hput.of_object
        by_cases hname : segment = name
        · subst hname
          have hself : Fields.get? gs segment = some x := hput.child?_self
          refine ⟨c, here.property segment "properties", ?_, hself ▸ he⟩
          simp only [governs, declared?_of_mem hnormal hps hc]
        · exact (hold (.property hps hc (hget name hname ▸ he))).elim
    | @extra gs _ c name w hm hd hw he =>
        obtain ⟨fs, rfl, hmem, -⟩ := hput.of_object
        rcases hmem _ hw with hw | heq
        · exact (hold (.extra hm hd hw he)).elim
        · obtain ⟨rfl, rfl⟩ := Prod.mk.inj heq
          have hno : n.declared? name = none := by simpa [declares_eq] using hd
          have hextra : n.extra? = some c := by simp [extra?, hm]
          refine ⟨c, here.property name "additionalProperties", ?_, he⟩
          simp only [governs, hno, hextra, Option.map_some]
    | @item ws _ c i w hm hw he =>
        obtain ⟨vs, j, rfl, hj, hget⟩ := hput.of_array
        by_cases hi : i = j
        · subst hi
          have hself := hput.child?_self
          simp only [Value.child?, hj, Option.bind_some, hw, Option.some.injEq] at hself
          refine ⟨c, here.index i, ?_, hself ▸ he⟩
          simp only [governs, hm, hj, Option.bind_some, Option.map_some]
        · exact (hold (.item hm (hget i hi ▸ hw) he)).elim

end Node

namespace Frame

variable {c d : Frame} {x a b v w : Value} {segment : String} {segments : List String}
  {e : Violation}

theorem next?_of_governs (hw : c.taken? = some v) (hx : v.child? segment = some w) {m : Node}
    {there : Location} (h : c.node.governs c.place v segment = some (m, there)) :
    c.next? segment = some ⟨m, some w, there⟩ := by
  cases v with
  | object fs =>
      have hget : Fields.get? fs segment = some w := hx
      cases hm : c.node.declared? segment with
      | some k =>
          simp only [Node.governs, hm, Option.some.injEq, Prod.mk.injEq] at h
          simp only [next?, hw, hm, hget, h.1, h.2]
      | none =>
          simp only [Node.governs, hm, Option.map_eq_some_iff, Prod.mk.injEq] at h
          obtain ⟨k, hk, rfl, rfl⟩ := h
          simp only [next?, hw, hm, hk, hget, Option.bind_some, Option.map_some]
  | array vs =>
      simp only [Node.governs, Option.bind_eq_some_iff, Option.map_eq_some_iff,
        Prod.mk.injEq] at h
      obtain ⟨k, hk, i, hi, rfl, rfl⟩ := h
      simp only [Value.child?, hi, Option.bind_some] at hx
      simp only [next?, hw, hk, hi, hx, Option.bind_some, Option.map_some]
  | _ => cases h

inductive Tells (x : Value) : Frame → List String → Violation → Prop where
  | there {c : Frame} {e : Violation} :
      c.origin = some x → e ∈ c.node.found (some x) c.place → Tells x c [] e
  | own {c : Frame} {segment : String} {rest : List String} {e : Violation} :
      c.node.Reports c.place e →
      (e.keyword = .additionalProperties → c.node.additional = some (.allowed false)
        ∧ (c.taken? = c.origin → c.node.declares segment = false)) →
      Tells x c (segment :: rest) e
  | aside {c : Frame} {segment : String} {rest : List String} {e : Violation} {v w : Value} :
      c.origin = some v → w.isArray ≠ v.isArray → c.node.FoundBelow c.place w e →
      Tells x c (segment :: rest) e
  | under {c : Frame} {m : Node} {there : Location} {segment : String} {rest : List String}
      {e : Violation} {v w : Value} :
      c.origin = some v → c.taken? = some v → v.child? segment = some w →
      c.node.governs c.place v segment = some (m, there) → Tells x ⟨m, some w, there⟩ rest e →
      Tells x c (segment :: rest) e

theorem kind_of_below {n : Node} {here : Location} (h : n.FoundBelow here w e)
    (hput : x.Puts segment a b) (harray : w.isArray = b.isArray) : Kind.of w = Kind.of b := by
  cases hput <;> cases h <;> first | rfl | cases harray

theorem tells_or_governs (hnormal : c.node.normalize = c.node) (hb : c.origin = some b)
    (hput : w.Puts segment a b) (hclean : c.node.found (some a) c.place = [])
    (he : e ∈ c.node.found (some b) c.place) :
    (∀ rest, c.Tells x (segment :: rest) e)
      ∨ c.taken? = some b ∧ c.node.foundContents c.place a = []
        ∧ ∃ m there, c.node.governs c.place b segment = some (m, there)
            ∧ e ∈ m.found (some w) there := by
  cases ht : c.node.own.settle b with
  | error why =>
      rw [Node.found_of_refused c.place ht, List.mem_singleton] at he
      subst he
      left
      intro rest
      apply Tells.own (Node.reports_wrongKind ..)
      intro hk
      cases hk
  | ok t =>
      have htaken : c.taken? = some t := by simp [taken?, hb, ht, Except.toOption]
      have haccepts := Keywords.accepts_of_settle ht
      -- a value of the kind that stands there is taken as it stands
      have hself (hkind : Kind.of t = Kind.of b) : t = b := by
        have hne : Kind.of b ≠ .number := hput.kind ▸ hput.kind_ne_number
        have ht' := Keywords.settle_of_accepts (Keywords.accepts_of_kind hkind hne haccepts)
        exact Except.ok.inj (ht.symm.trans ht')
      rw [Node.found_of_settle c.place ht, List.mem_append] at he
      rcases he with he | he
      · by_cases htb : t = b
        · subst htb
          have hsettle := Keywords.settle_of_accepts
            (Keywords.accepts_of_kind hput.kind hput.kind_ne_number haccepts)
          rw [Node.found_of_settle c.place hsettle, List.append_eq_nil_iff] at hclean
          rcases Node.owns_or_governs hnormal hput hclean.1 he with ⟨hreports, hclosed⟩ | hbelow
          · left
            intro rest
            apply Tells.own hreports
            intro hk
            exact ⟨(hclosed hk).1, fun _ => (hclosed hk).2⟩
          · exact .inr ⟨htaken, hclean.1, hbelow⟩
        · left
          intro rest
          rcases Node.owns_or_below hnormal he with hown | hbelow
          · apply Tells.own hown.reports
            intro hk
            refine ⟨(hown.closed hk).1, ?_⟩
            intro heq
            exact absurd (Option.some.inj (htaken.symm.trans (heq.trans hb))) htb
          · apply Tells.aside hb _ hbelow
            intro harray
            exact htb (hself (kind_of_below hbelow hput harray))
      · left
        intro rest
        apply Tells.own (Node.notes_of_mem_foundBranches he).reports
        intro hk
        exact absurd (hk ▸ Node.keyword_of_mem_foundBranches he) (by decide)

theorem tells_of_mem_found (hnormal : c.node.normalize = c.node) (hb : c.origin = some b)
    (hstores : x.Stores segments a b) (hclean : c.node.found (some a) c.place = [])
    (he : e ∈ c.node.found (some b) c.place) : c.Tells x segments e := by
  induction hstores generalizing c with
  | slot hput =>
      rcases tells_or_governs hnormal hb hput hclean he with htells | ⟨hw, -, m, there, hg, he⟩
      · exact htells []
      · exact .under hb hw hput.child?_self hg (.there rfl he)
  | @under segment rest a b u w hu _ hput ih =>
      rcases tells_or_governs hnormal hb hput hclean he with htells | ⟨hw, hold, m, there, hg, he⟩
      · exact htells rest
      · have hclean : m.found (some u) there = [] := by
          rw [List.eq_nil_iff_forall_not_mem]
          intro e' he'
          have hbelow := Node.below_of_governs (Node.governs_of_puts hput ▸ hg) hu he'
          exact List.not_mem_nil (hold ▸ Node.mem_foundContents_of_below hnormal hbelow)
        have hchild : m.Child c.node := child_of_next? (next?_of_governs hw hput.child?_self hg)
        exact .under hb hw hput.child?_self hg (ih (hchild.normal hnormal) rfl hclean he)

def mixes (c : Frame) (segment : String) : Bool :=
  c.taken?.any Value.isArray && c.node.items.isSome && c.strays segment

theorem accepts_of_taken? (h : c.taken? = some v) : c.node.own.AcceptsKind v := by
  obtain ⟨u, -, hu⟩ := settle_of_taken? h
  exact Keywords.accepts_of_settle hu

theorem child?_inside (n : Node) (h : v.child? segment = some w) :
    ∃ z, (n.inside v).child? segment = some z := by
  cases v with
  | object fs =>
      have hhas : Fields.has fs segment = true := Option.isSome_iff_exists.mpr ⟨w, h⟩
      exact Option.isSome_iff_exists.mp (Node.has_outcomeFields n hhas)
  | array vs =>
      obtain ⟨i, hi, hw⟩ := Option.bind_eq_some_iff.mp h
      cases hm : n.items with
      | none => exact ⟨w, by simp [Node.inside, hm, Node.outcomeItems, Value.child?, hi, hw]⟩
      | some m =>
          exact ⟨(m.outcome (some w)).getD .null,
            by simp [Node.inside, hm, Node.outcomeItems, Value.child?, hi, hw]⟩
  | _ => cases h

theorem steps_of_governs (hnormal : c.node.normalize = c.node) (hv : c.taken? = some v)
    (hw : v.child? segment = some w) {m : Node} {there : Location}
    (hg : c.node.governs c.place v segment = some (m, there)) (hhides : c.hides = false)
    (hmixes : c.mixes segment = false) :
    ∃ step tail, c.node.steps segment = (m, step) :: tail := by
  obtain ⟨z, hz⟩ := child?_inside c.node hw
  have hnext := next?_of_governs hv hw hg
  cases v with
  | object fs =>
      have hleads := leads_fieldSteps hnormal hhides hv (accepts_of_taken? hv) hz
      rw [hnext] at hleads
      obtain ⟨step, hsteps, -⟩ := hleads.some
      exact ⟨step, c.node.itemSteps segment, by rw [Node.steps, hsteps, List.singleton_append]⟩
  | array vs =>
      have hitems : c.node.items.isSome = true := by
        obtain ⟨k, hk, -⟩ := Option.bind_eq_some_iff.mp hg
        exact Option.isSome_iff_exists.mpr ⟨k, hk⟩
      have hstrays : c.strays segment = false := by
        simpa [mixes, hv, Value.isArray, hitems] using hmixes
      have hleads := leads_itemSteps hnormal hv (accepts_of_taken? hv) hz
      rw [hnext] at hleads
      obtain ⟨step, hsteps, -⟩ := hleads.some
      exact ⟨step, [], by rw [Node.steps, fieldSteps_of_array hv hstrays, List.nil_append, hsteps]⟩
  | _ => cases hw

namespace Tells

theorem not_reaches (h : c.Tells x segments e) (hnormal : c.node.normalize = c.node) {z : Value}
    (hb : c.origin = some b) (hz : b.get? segments = some z)
    (hway : c.Along (fun d s => d.hides = false ∧ d.mixes s = false) segments) (path : String)
    (hfit : ∀ f, Node.findFrom segments c.node path = some f →
      ∀ here, f.node.found (some x) here = []) :
    ¬ (c.place.along (some b) segments).Reaches e.path := by
  induction h generalizing b path with
  | there _ he => exact absurd he (hfit _ rfl _ ▸ List.not_mem_nil)
  | @own c segment rest e hreports _ =>
      obtain ⟨y, hy, -⟩ := Option.bind_eq_some_iff.mp hz
      intro hreaches
      have hlt := (c.place.goesOn_along hy rest).length_lt
      have hle := hreaches.length_le
      rw [hreports.path] at hle
      omega
  | @aside c segment rest e v w hv harray hbelow =>
      obtain rfl : v = b := Option.some.inj (hv.symm.trans hb)
      obtain ⟨y, hy, -⟩ := Option.bind_eq_some_iff.mp hz
      intro hreaches
      exact harray ((hbelow.goesOn hnormal).isArray_eq
        ((c.place.goesOn_along hy rest).trans hreaches))
  | @under c m there segment rest e v w hv htaken hw hg _ ih =>
      obtain rfl : v = b := Option.some.inj (hv.symm.trans hb)
      have hnext := next?_of_governs htaken hw hg
      have hz' : w.get? rest = some z := by rwa [Value.get?, hw, Option.bind_some] at hz
      obtain ⟨step, tail, hsteps⟩ :=
        steps_of_governs hnormal htaken hw hg hway.1.1 hway.1.2
      have hrest (f : Node.Found) (hf : Node.findFrom rest m (path ++ step) = some f) :
          ∀ here, f.node.found (some x) here = [] :=
        hfit f (by rw [Node.findFrom, hsteps, List.findSome?_cons, hf])
      have hreaches := ih ((child_of_next? hnext).normal hnormal) rfl hz' (hway.2 _ hnext) _ hrest
      rwa [Location.Reaches, ← Node.governs_along hg hw rest] at hreaches

theorem closed (h : c.Tells x segments e) (hnormal : c.node.normalize = c.node) {z : Value}
    (hb : c.origin = some b) (hz : b.get? segments = some z)
    (hk : e.keyword = .additionalProperties) {front : List String} {last : String}
    (hsplit : segments = front ++ [last])
    (hpath : e.path = (c.place.along (some b) front).propertyPath) :
    ∃ d, c.at? front = some d ∧ d.node.additional = some (.allowed false)
      ∧ (d.taken? = d.origin → d.node.declares last = false) := by
  induction h generalizing b front with
  | there _ _ => exact absurd hsplit.symm (by simp)
  | @own c segment rest e hreports hclosed =>
      obtain ⟨y, hy, -⟩ := Option.bind_eq_some_iff.mp hz
      cases front with
      | nil =>
          obtain rfl : segment = last := (List.cons.inj hsplit).1
          exact ⟨c, rfl, hclosed hk⟩
      | cons s front =>
          obtain rfl : segment = s := (List.cons.inj hsplit).1
          have hlt := (c.place.goesOn_along hy front).length_lt
          rw [← hpath, hreports.path] at hlt
          omega
  | @aside c segment rest e v w hv harray hbelow =>
      obtain rfl : v = b := Option.some.inj (hv.symm.trans hb)
      obtain ⟨y, hy, -⟩ := Option.bind_eq_some_iff.mp hz
      have hgoes := hbelow.goesOn hnormal
      cases front with
      | nil =>
          have hlt := hgoes.length_lt
          rw [hpath] at hlt
          exact absurd hlt (Nat.lt_irrefl _)
      | cons s front =>
          obtain rfl : segment = s := (List.cons.inj hsplit).1
          rw [hpath] at hgoes
          exact absurd (hgoes.isArray_eq (c.place.goesOn_along hy front)) harray
  | @under c m there segment rest e v w hv htaken hw hg htells ih =>
      obtain rfl : v = b := Option.some.inj (hv.symm.trans hb)
      have hnext := next?_of_governs htaken hw hg
      have hchild := (child_of_next? hnext).normal hnormal
      cases front with
      | nil =>
          obtain rfl : rest = [] := (List.cons.inj hsplit).2
          cases htells with
          | there _ he =>
              have hgoes := c.place.goesOn_towards hw
              rw [Node.governs_path hg hw] at hgoes
              have hlt := (hgoes.trans (Node.reaches_of_mem_found hchild he)).length_lt
              rw [hpath] at hlt
              exact absurd hlt (Nat.lt_irrefl _)
      | cons s front =>
          obtain ⟨rfl, hrest⟩ := List.cons.inj hsplit
          have hz' : w.get? rest = some z := by rwa [Value.get?, hw, Option.bind_some] at hz
          obtain ⟨d, hd, hclosed⟩ := ih hchild rfl hz' hk hrest
            (hpath.trans (Node.governs_along hg hw front))
          exact ⟨d, by rw [at?, hnext, Option.bind_some, hd], hclosed⟩

end Tells

end Frame

end CheckedConfig
