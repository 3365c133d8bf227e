import CheckedConfig.Proofs.Coercion
import CheckedConfig.Proofs.Walk.Blamed
import CheckedConfig.Proofs.Walk.Calls
import CheckedConfig.Proofs.Walk.Keywords
import CheckedConfig.Proofs.Walk.Outcome
import CheckedConfig.Substitution

namespace CheckedConfig

open Relation Substitution

inductive Value.Covered (env : Environment) : Value → Prop where
  | scalar {v : Value} : v.isContainer = false →
      (∀ s, v = .string s → ∀ name ∈ referenced (pieces s.toList), env.has name = true) →
      Covered env v
  | array {vs : List Value} : (∀ v ∈ vs, Covered env v) → Covered env (.array vs)
  | object {fs : Fields Value} : (∀ p ∈ fs, Covered env p.2) → Covered env (.object fs)

namespace Value.Covered

variable {env : Environment}

theorem items {vs : List Value} (h : (Value.array vs).Covered env) : ∀ v ∈ vs, v.Covered env := by
  cases h with
  | scalar hno _ => cases hno
  | array hvs => exact hvs

theorem fields {fs : Fields Value} (h : (Value.object fs).Covered env) :
    ∀ p ∈ fs, p.2.Covered env := by
  cases h with
  | scalar hno _ => cases hno
  | object hfs => exact hfs

theorem missing_eq_nil {s : String} (h : (Value.string s).Covered env) :
    missing env (pieces s.toList) = [] := by
  cases h with
  | scalar _ hs => exact List.filter_eq_nil_iff.mpr fun name hname => by simp [hs s rfl name hname]

end Value.Covered

namespace Substitution

variable {env : Environment} {strict : Bool} {v : Option Value} {place : Place}

theorem replace_cases (env : Environment) (strict : Bool) (s : String) (place : Place) :
    replace env strict s place = .ok (some (.string (fill env (pieces s.toList))))
      ∨ (∃ d, place.schema.own.default = some d ∧ replace env strict s place = .ok (some d))
      ∨ (missing env (pieces s.toList) ≠ [] ∧ replace env strict s place =
          .error (.missingVariables (missing env (pieces s.toList)) place.propertyPath)) := by
  cases hmissing : missing env (pieces s.toList) with
  | nil => exact .inl (by simp only [replace, hmissing])
  | cons name names =>
      by_cases hone : (referenced (pieces s.toList)).length = 1
      · cases hd : place.schema.own.default with
        | none => exact .inl (by simp only [replace, hmissing, hone, hd, if_true]; rfl)
        | some d =>
            refine .inr (.inl ⟨d, rfl, ?_⟩)
            simp only [replace, hmissing, hone, hd, if_true]
            rfl
      · cases strict with
        | true =>
            refine .inr (.inr ⟨List.cons_ne_nil _ _, ?_⟩)
            simp only [replace, hmissing, hone, if_true, if_false]
        | false => exact .inl (by simp only [replace, hmissing, hone, if_false]; rfl)

theorem intercept_cases (env : Environment) (strict : Bool) (v : Option Value) (place : Place) :
    (interceptor env strict).intercept v place = .ok none
      ∨ (∃ s, v = some (.string s) ∧ (interceptor env strict).intercept v place =
          .ok (some (.string (fill env (pieces s.toList)))))
      ∨ (∃ d, place.schema.own.default = some d
          ∧ (interceptor env strict).intercept v place = .ok (some d))
      ∨ ∃ s, v = some (.string s) ∧ missing env (pieces s.toList) ≠ []
          ∧ (interceptor env strict).intercept v place =
              .error (.missingVariables (missing env (pieces s.toList)) place.propertyPath) := by
  unfold interceptor
  simp only
  split
  · next s =>
      split
      · rcases replace_cases env strict s place with htext | hdefault | herror
        · exact .inr (.inl ⟨s, rfl, htext⟩)
        · exact .inr (.inr (.inl hdefault))
        · exact .inr (.inr (.inr ⟨s, rfl, herror⟩))
      · exact .inl rfl
  · exact .inl rfl

theorem missing_of_error {e : Failure} (h : (interceptor env strict).intercept v place = .error e) :
    ∃ s, v = some (.string s) ∧ missing env (pieces s.toList) ≠ []
      ∧ e = .missingVariables (missing env (pieces s.toList)) place.propertyPath := by
  rcases intercept_cases env strict v place with
    heq | ⟨s, -, heq⟩ | ⟨d, -, heq⟩ | ⟨s, hv, hne, heq⟩
  · cases heq.symm.trans h
  · cases heq.symm.trans h
  · cases heq.symm.trans h
  · exact ⟨s, hv, hne, Except.error.inj (h.symm.trans heq)⟩

end Substitution

def Failure.misses (names : List String) (path : String) : Failure → Bool
  | .missingVariables ns p => ns == names && p == path
  | _ => false

theorem Walk.eq_missing_of_misses {α : Type} {w : Walk α} {names : List String} {path : String}
    (h : (match w.result with | .error e => e.misses names path | .ok _ => false) = true) :
    w.result = .error (.missingVariables names path) := by
  cases hw : w.result with
  | ok a =>
      rw [hw] at h
      cases h
  | error e =>
      rw [hw] at h
      cases e with
      | missingVariables ns p =>
          simp only [Failure.misses, Bool.and_eq_true, beq_iff_eq] at h
          rw [h.1, h.2]
      | _ => cases h

def Keywords.Wraps (own : Keywords) : Prop :=
  ∃ v w, own.settle v = .ok w ∧ w ≠ v ∧ w.isContainer = true

theorem Keywords.not_wraps {own : Keywords} (h : own.transform = Option.none) : ¬ own.Wraps := by
  rintro ⟨v, w, hsettle, hne, -⟩
  rcases (Keywords.kept_or_made_of_settle hsettle).2 with heq | ⟨d, hd, -⟩
  · exact hne heq
  · cases h.symm.trans hd

namespace Frame

variable {env : Environment} {c d : Frame} {v w : Value}

def given (c : Frame) : Option Value := c.origin <|> c.node.own.default

def visit (c : Frame) : Visit := ⟨c.node.placeAt c.origin c.place, [c.given]⟩

def Covered (env : Environment) (c : Frame) : Prop := ∀ v, c.given = some v → v.Covered env

theorem given_cases (h : c.given = some v) :
    c.origin = some v ∨ (c.origin = none ∧ c.node.own.default = some v) := by
  unfold given at h
  cases ho : c.origin with
  | none =>
      rw [ho] at h
      exact .inr ⟨rfl, h⟩
  | some u =>
      rw [ho] at h
      exact .inl h

theorem visits_enter (i : Interceptor) (c : Frame) : (c.enter [i]).visits = [c.visit] := by
  rw [enter, Node.enter_single]
  rfl

theorem left_cases (h : (c.enter [interceptor env true]).result = .ok (some v)) :
    c.given = some v ∨ c.node.own.default = some v
      ∨ ∃ s, c.given = some (.string s) ∧ v = .string (fill env (pieces s.toList)) := by
  rw [enter, Node.enter_single] at h
  change (((interceptor env true).intercept c.given (c.node.placeAt c.origin c.place)).map
    (· <|> c.given)) = _ at h
  rcases intercept_cases env true c.given (c.node.placeAt c.origin c.place) with
    heq | ⟨s, hs, heq⟩ | ⟨u, hu, heq⟩ | ⟨s, -, -, heq⟩
  · rw [heq] at h
    exact .inl (Except.ok.inj h)
  · rw [heq] at h
    cases h
    exact .inr (.inr ⟨s, hs, rfl⟩)
  · rw [heq] at h
    cases h
    exact .inr (.inl hu)
  · rw [heq] at h
    cases h

theorem left_covered_or_filled (hdefault : ∀ u, c.node.own.default = some u → u.Covered env)
    (hc : c.Covered env) (h : (c.enter [interceptor env true]).result = .ok (some v)) :
    v.Covered env
      ∨ ∃ s, c.given = some (.string s) ∧ v = .string (fill env (pieces s.toList)) := by
  rcases left_cases h with hkept | hset | hfilled
  · exact .inl (hc v hkept)
  · exact .inl (hdefault v hset)
  · exact .inr hfilled

theorem Down.isContainer (h : c.Down w d) : w.isContainer = true := by
  cases h <;> rfl

theorem Down.covered (hdefault : ∀ u, d.node.own.default = some u → u.Covered env)
    (hw : w.Covered env) (h : c.Down w d) : d.Covered env := by
  intro v hv
  cases h with
  | @property fs ps name m hps hmem =>
      rcases given_cases hv with hget | ⟨-, hset⟩
      · exact hw.fields _ (Fields.mem_of_get? hget)
      · exact hdefault v hset
  | extra _ _ hmem =>
      cases hv
      exact hw.fields _ hmem
  | item _ hget =>
      cases hv
      exact hw.items _ (List.mem_of_getElem? hget)

/-- A call comes back with what the walk has put together: in a branch with what has become of the
value, below a node whose directive has wrapped the text that was put in, or below one whose own
transformer has made some other container there. -/
inductive ComesBack (env : Environment) (c : Frame) : Frame → Prop where
  | turned {strict : Bool} {v w u : Value} {d : Frame} : c.Takes [interceptor env true] v w →
      (c.node.walkContents [interceptor env true] strict c.place w).result = .ok u → c.Turn u d →
      ComesBack env c d
  | wrapped {s : String} {d : Frame} : c.given = some (.string s) →
      c.Takes [interceptor env true] (.string (fill env (pieces s.toList)))
        (.array [.string (fill env (pieces s.toList))]) →
      c.Down (.array [.string (fill env (pieces s.toList))]) d → ComesBack env c d
  | made {t : Directive} {v w : Value} {d : Frame} : c.node.own.transform = some t → ¬ t.BuiltIn →
      c.Takes [interceptor env true] v w → w ≠ v → c.Down w d → ComesBack env c d

theorem comesBack_of_makes (hdefault : ∀ u, c.node.own.default = some u → u.Covered env)
    (hdefault' : ∀ u, d.node.own.default = some u → u.Covered env) (hc : c.Covered env)
    (h : c.Makes [interceptor env true] d) (hd : ¬ d.Covered env) : c.ComesBack env d := by
  cases h with
  | turn htakes hcontents hturn => exact .turned htakes hcontents hturn
  | @down v w _ htakes hdown =>
      have hw : ¬ w.Covered env := fun hw => hd (hdown.covered hdefault' hw)
      have hleft := left_covered_or_filled hdefault hc htakes.entered
      obtain ⟨-, rfl | ⟨t, ht, happly⟩⟩ := Keywords.kept_or_made_of_settle htakes.settled
      · rcases hleft with hcovered | ⟨s, -, rfl⟩
        · exact absurd hcovered hw
        · cases hdown.isContainer
      · have hne : w ≠ v := by
          rintro rfl
          rcases hleft with hcovered | ⟨s, -, rfl⟩
          · exact hw hcovered
          · cases hdown.isContainer
        by_cases hbuiltIn : t.BuiltIn
        · obtain ⟨r, hr, hrun⟩ := Directive.replaced_of_apply hbuiltIn happly
          rcases Transformer.replacement_of_builtin hr hrun with hscalar | rfl
          · cases hscalar.symm.trans hdown.isContainer
          · rcases hleft with hcovered | ⟨s, hs, rfl⟩
            · exact absurd (.array (List.forall_mem_singleton.mpr hcovered)) hw
            · exact .wrapped hs htakes hdown
        · exact .made ht hbuiltIn htakes hne hdown

theorem ComesBack.exists_text (h : c.ComesBack env d)
    (hbuiltIn : ∀ t, c.node.own.transform = some t → t.BuiltIn)
    (hbranches : ∀ operator, (c.node.branches operator).getD [] = []) :
    ∃ s, c.given = some (.string s) := by
  cases h with
  | turned _ _ hturn =>
      obtain ⟨operator, hne⟩ := hturn.exists_branches
      exact absurd (hbranches operator) hne
  | wrapped hs _ _ => exact ⟨_, hs⟩
  | made ht hno _ _ _ => exact absurd (hbuiltIn _ ht) hno

theorem ComesBack.cause (h : c.ComesBack env d) :
    c.node.own.Wraps ∨ ∃ operator, (c.node.branches operator).getD [] ≠ [] := by
  cases h with
  | turned _ _ hturn => exact .inr hturn.exists_branches
  | wrapped _ htakes _ => exact .inl ⟨_, _, htakes.settled, nofun, rfl⟩
  | made _ _ htakes hne hdown => exact .inl ⟨_, _, htakes.settled, hne, hdown.isContainer⟩

theorem exists_first_uncovered {chain : List Interceptor} (h : ReflTransGen (Makes chain) c d)
    (hc : c.Covered env) (hd : ¬ d.Covered env) :
    ∃ a b, ReflTransGen (Makes chain) c a ∧ a.Covered env ∧ a.Makes chain b ∧ ¬ b.Covered env
      ∧ ReflTransGen (Makes chain) b d := by
  induction h using ReflTransGen.head_induction_on with
  | refl => exact absurd hc hd
  | @head a b hmakes hrest ih =>
      by_cases hb : b.Covered env
      · obtain ⟨a', b', hreaches, hfound⟩ := ih hb
        exact ⟨a', b', .head hmakes hreaches, hfound⟩
      · exact ⟨a, b, .refl, hc, hmakes, hb, hrest⟩

theorem comesBack_of_missing (hnormal : c.node.normalize = c.node)
    (hdefaults : ∀ m, Node.Within m c.node → ∀ u, m.own.default = some u → u.Covered env)
    (hc : c.Covered env) {strict : Bool} {names : List String} {path : String}
    (hfails : (c.walk [interceptor env true] strict).result
      = .error (.missingVariables names path)) :
    ∃ a b e : Frame, ReflTransGen (Makes [interceptor env true]) c a ∧ a.Covered env
      ∧ a.ComesBack env b ∧ ¬ b.Covered env ∧ ReflTransGen (Makes [interceptor env true]) b e
      ∧ e.visit ∈ (c.walk [interceptor env true] strict).visits ∧ e.place.propertyPath = path
      ∧ ∃ s, e.given = some (.string s) ∧ names = missing env (pieces s.toList) ∧ names ≠ [] := by
  obtain ⟨_, hr⟩ | ⟨x, hx, v, hgiven, hintercept⟩ :=
    Node.blames_walk c.node strict c.origin c.place _ hfails
  · cases hr
  · obtain ⟨s, rfl, hmissing, he⟩ := missing_of_error hintercept
    cases he
    obtain ⟨e, hreaches, hvisit⟩ := sees_of_visit hnormal hx
    rw [visits_enter, List.mem_singleton] at hvisit
    subst hvisit
    have hstring : e.given = some (.string s) := List.singleton_inj.mp hgiven
    have huncovered : ¬ e.Covered env := fun he => hmissing (he _ hstring).missing_eq_nil
    obtain ⟨a, b, hbefore, ha, hmakes, hb, hafter⟩ := exists_first_uncovered hreaches hc huncovered
    have hwithin : Node.Within a.node c.node := within_of_reaches hbefore
    have hback : a.ComesBack env b := comesBack_of_makes (hdefaults _ hwithin)
      (hdefaults _ (within_of_reaches (hbefore.tail hmakes))) ha hmakes hb
    exact ⟨a, b, e, hbefore, ha, hback, hb, hafter, hx, rfl, s, hstring, rfl, hmissing⟩

end Frame

theorem Schema.missing_where_walk_comes_back {env : Environment} {s : Schema} {v : Option Value}
    (hv : ∀ u, v = some u → u.Covered env)
    (hdefaults : ∀ n, Node.Within n s.root → ∀ d, n.own.default = some d → d.Covered env)
    (strict : Bool) :
    (∀ names path, (s.walk [interceptor env true] strict v).result
        = .error (.missingVariables names path) →
      ∃ a b e : Frame, ReflTransGen (Frame.Makes [interceptor env true]) (s.frame v) a
        ∧ a.Covered env ∧ a.ComesBack env b ∧ ¬ b.Covered env
        ∧ ReflTransGen (Frame.Makes [interceptor env true]) b e
        ∧ e.visit ∈ (s.walk [interceptor env true] strict v).visits ∧ e.place.propertyPath = path
        ∧ ∃ text, e.given = some (.string text) ∧ names = missing env (pieces text.toList)
            ∧ names ≠ [])
    ∧ ((∀ n, Node.Within n s.root →
          ¬ n.own.Wraps ∧ ∀ operator, (n.branches operator).getD [] = []) →
        ∀ names path, (s.walk [interceptor env true] strict v).result
          ≠ .error (.missingVariables names path)) := by
  have hroot : (s.frame v).Covered env := by
    intro u hu
    rcases Frame.given_cases hu with hset | ⟨-, hset⟩
    · exact hv u hset
    · exact hdefaults _ (.self _) u hset
  constructor
  · exact fun _ _ hfails => Frame.comesBack_of_missing s.normal hdefaults hroot hfails
  · intro hstraight names path hfails
    obtain ⟨a, b, -, hbefore, -, hback, -⟩ :=
      Frame.comesBack_of_missing (c := s.frame v) s.normal hdefaults hroot hfails
    obtain ⟨hwraps, hbranches⟩ := hstraight a.node (Frame.within_of_reaches hbefore)
    rcases hback.cause with hcause | ⟨operator, hcause⟩
    · exact hwraps hcause
    · exact hcause (hbranches operator)

theorem Schema.missing_where_walk_comes_back_wrapped :
    let env : Environment := [("A", "$B$C")]
    let s := Schema.ofNode { Node.ofKind .array with
      own := { (Node.ofKind .array).own with transform := some .infer }
      items := some (Node.ofKind .string) }
    let bare := Value.string "$A"
    let listed := Value.array [bare]
    let walk (v : Value) := s.walk [interceptor env true] false (some v)
    let plain := Schema.ofNode (Node.ofKind .string)
    (∀ u, some bare = some u → u.Covered env) ∧ (∀ u, some listed = some u → u.Covered env)
      ∧ (∀ n, Node.Within n s.root → ∀ d, n.own.default = some d → d.Covered env)
      ∧ (walk bare).result = .error (.missingVariables ["B", "C"] "$ROOT[0]")
      ∧ (∃ a b e : Frame,
          ReflTransGen (Frame.Makes [interceptor env true]) (s.frame (some bare)) a
            ∧ a.Covered env ∧ a.ComesBack env b ∧ ¬ b.Covered env
            ∧ ReflTransGen (Frame.Makes [interceptor env true]) b e
            ∧ e.visit ∈ (walk bare).visits ∧ e.place.propertyPath = "$ROOT[0]"
            ∧ ∃ text, e.given = some (.string text)
                ∧ ["B", "C"] = missing env (pieces text.toList) ∧ ["B", "C"] ≠ [])
      ∧ (∀ names path, (walk listed).result ≠ .error (.missingVariables names path))
      ∧ (∀ n, Node.Within n plain.root →
          ¬ n.own.Wraps ∧ ∀ operator, (n.branches operator).getD [] = [])
      ∧ ∀ names path, (plain.walk [interceptor env true] false (some bare)).result
          ≠ .error (.missingVariables names path) := by
  intro env s bare listed walk plain
  have hbare : bare.Covered env := by
    refine .scalar rfl fun text htext => ?_
    obtain rfl : "$A" = text := Value.string.inj htext
    decide +kernel
  have hlisted : listed.Covered env := .array (List.forall_mem_singleton.mpr hbare)
  have hitem (n : Node) (hn : n.Child s.root) : n = Node.ofKind .string := by
    cases hn with
    | items hm =>
        cases hm
        rfl
    | property hps _ => cases hps
    | extra hm => cases hm
    | @branch operator ns hns _ => cases operator <;> cases hns
  have hdefaults (n : Node) (hn : n.Within s.root) (d : Value) (hd : n.own.default = some d) :
      d.Covered env := by
    cases hn with
    | self => cases hd
    | under hn hc =>
        rw [hitem _ hc] at hn
        obtain rfl := hn.eq_ofKind
        cases hd
  have hfails : (walk bare).result = .error (.missingVariables ["B", "C"] "$ROOT[0]") :=
    Walk.eq_missing_of_misses (by decide +kernel)
  have hbareRoot (u : Value) (hu : some bare = some u) : u.Covered env := Option.some.inj hu ▸ hbare
  have hlistedRoot (u : Value) (hu : some listed = some u) : u.Covered env :=
    Option.some.inj hu ▸ hlisted
  have hnever (names : List String) (path : String) :
      (walk listed).result ≠ .error (.missingVariables names path) := by
    intro hfails
    obtain ⟨a, b, -, hbefore, -, hback, -⟩ :=
      (Schema.missing_where_walk_comes_back hlistedRoot hdefaults false).1 _ _ hfails
    -- the only calls are the one for the array, which is one already, and those for its items
    rcases hbefore.cases_head with rfl | ⟨c, hmakes, hrest⟩
    · have hbuiltIn (t : Directive) (ht : s.root.own.transform = some t) : t.BuiltIn := by
        cases ht
        exact fun t ht => absurd ht List.not_mem_nil
      obtain ⟨text, htext⟩ :=
        hback.exists_text hbuiltIn fun operator => by cases operator <;> rfl
      have harray : Value.array [bare] = .string text := Option.some.inj htext
      cases harray
    · have hwithin := Frame.within_of_reaches hrest
      rw [hitem c.node hmakes.child] at hwithin
      have hnode : a.node = Node.ofKind .string := hwithin.eq_ofKind
      rcases hback.cause with hwraps | ⟨operator, hne⟩
      · rw [hnode] at hwraps
        exact Keywords.not_wraps rfl hwraps
      · rw [hnode] at hne
        cases operator <;> exact hne rfl
  have hstraight (n : Node) (hn : n.Within plain.root) :
      ¬ n.own.Wraps ∧ ∀ operator, (n.branches operator).getD [] = [] := by
    obtain rfl := hn.eq_ofKind
    exact ⟨Keywords.not_wraps rfl, fun operator => by cases operator <;> rfl⟩
  have hplain (n : Node) (hn : n.Within plain.root) (d : Value) (hd : n.own.default = some d) :
      d.Covered env := by
    obtain rfl := hn.eq_ofKind
    cases hd
  exact ⟨hbareRoot, hlistedRoot, hdefaults, hfails,
    (Schema.missing_where_walk_comes_back hbareRoot hdefaults false).1 _ _ hfails, hnever, hstraight,
    (Schema.missing_where_walk_comes_back hbareRoot hplain false).2 hstraight⟩

-- a transformer of one's own may make items of the text
example :
    let split : Transformer := ⟨"split", .array, none, fun v _ => .replace (.array [v, v])⟩
    let s := Schema.ofNode { Node.ofKind .array with
      own := { (Node.ofKind .array).own with transform := some (.single split) }
      items := some (Node.ofKind .string) }
    let w := s.walk [interceptor [("A", "$B$C")] true] false (some (.string "$A"))
    (match w.result with | .error e => e.misses ["B", "C"] "$ROOT[0]" | .ok _ => false) = true := by
  decide +kernel

theorem Schema.missing_in_branch :
    let env : Environment := [("A", "$B$C")]
    let host : Node := { Node.ofKind .string with anyOf := some [Node.ofKind .string] }
    let s := Schema.ofNode { Node.ofKind .object with properties := some [("host", host)] }
    let v := Value.object [("host", .string "$A")]
    v.Covered env ∧ (∀ n, Node.Within n s.root → ∀ d, n.own.default = some d → d.Covered env)
      ∧ ∃ names path, (s.walk [interceptor env true] true (some v)).result
          = .error (.missingVariables names path) := by
  intro env host s v
  have hcovered : (Value.string "$A").Covered env := by
    refine .scalar rfl fun text htext => ?_
    cases htext
    decide +kernel
  have hhost (n : Node) (hn : n.Within host) : n.own.default = none := by
    cases hn with
    | self => rfl
    | under hn hc =>
        cases hc with
        | @branch operator ns hns hmem =>
            cases operator <;> cases hns
            obtain rfl := List.mem_singleton.mp hmem
            obtain rfl := hn.eq_ofKind
            rfl
        | property hps _ => cases hps
        | items hm => cases hm
        | extra hm => cases hm
  have hdefault (n : Node) (hn : n.Within s.root) : n.own.default = none := by
    cases hn with
    | self => rfl
    | under hn hc =>
        cases hc with
        | property hps hmem =>
            cases hps
            obtain ⟨rfl, rfl⟩ := Prod.mk.inj (List.mem_singleton.mp hmem)
            exact hhost n hn
        | items hm => cases hm
        | extra hm => cases hm
        | @branch operator ns hns _ => cases operator <;> cases hns
  have hfails : (s.walk [interceptor env true] true (some v)).result
      = .error (.missingVariables ["B", "C"] "$ROOT.host") :=
    Walk.eq_missing_of_misses (by decide +kernel)
  refine ⟨.object (List.forall_mem_singleton.mpr hcovered), fun n hn d hd => ?_, _, _, hfails⟩
  rw [hdefault n hn] at hd
  cases hd

end CheckedConfig
