import Mathlib.Data.List.Basic
import CheckedConfig.Proofs.Addresses

namespace CheckedConfig

namespace Node

inductive Move where
  | property
  | extra
  | item
  deriving DecidableEq, Repr

namespace Move

def all : List Move := [.property, .extra, .item]

def rank : Move → Nat
  | .property => 0
  | .extra => 1
  | .item => 2

def Before (t u : Move) : Prop := t.rank < u.rank

def printed (segment : String) : Move → List String
  | .property => ["properties", segment]
  | .extra => ["additionalProperties", segment]
  | .item => ["items"]

def text (segment : String) : Move → String
  | .property => "/properties/" ++ segment
  | .extra => "/additionalProperties/" ++ segment
  | .item => "/items"

theorem mem_all (t : Move) : t ∈ all := by
  cases t <;> decide

theorem pairwise_all : all.Pairwise Before := by
  unfold Before
  decide

end Move

inductive Route : Node → List String → List Move → Node → Prop where
  | stay (n : Node) : Route n [] [] n
  | property {n c m : Node} {name : String} {rest : List String} {moves : List Move} :
      n.admits .object = true → n.declared? name = some c → Route c rest moves m →
      Route n (name :: rest) (.property :: moves) m
  | extra {n c m : Node} {name : String} {rest : List String} {moves : List Move} :
      n.admits .object = true → n.declares name = false → n.extra? = some c →
      Route c rest moves m → Route n (name :: rest) (.extra :: moves) m
  | item {n c m : Node} {index : String} {rest : List String} {moves : List Move} :
      n.admits .array = true → isIndex index = true → n.items = some c → Route c rest moves m →
      Route n (index :: rest) (.item :: moves) m

def printed (segments : List String) (moves : List Move) : List String :=
  (List.zipWith Move.printed segments moves).flatten

def toward? (n : Node) (segment : String) : Move → Option Node
  | .property => if n.admits .object then n.declared? segment else none
  | .extra => if n.admits .object && !n.declares segment then n.extra? else none
  | .item => if isIndex segment && n.admits .array then n.items else none

variable {n m : Node} {segment : String} {rest : List String} {moves : List Move}

theorem route_cons_iff :
    Route n (segment :: rest) moves m ↔
      ∃ t us c, moves = t :: us ∧ n.toward? segment t = some c ∧ Route c rest us m := by
  constructor
  · intro h
    cases h with
    | property hadmits hc hrest =>
        exact ⟨.property, _, _, rfl, by simp [toward?, hadmits, hc], hrest⟩
    | extra hadmits hd hc hrest =>
        exact ⟨.extra, _, _, rfl, by simp [toward?, hadmits, hd, hc], hrest⟩
    | item hadmits hi hc hrest =>
        exact ⟨.item, _, _, rfl, by simp [toward?, hadmits, hi, hc], hrest⟩
  · rintro ⟨t, us, c, rfl, ht, hrest⟩
    cases t with
    | property =>
        simp only [toward?, Option.ite_none_right_eq_some] at ht
        exact .property ht.1 ht.2 hrest
    | extra =>
        simp only [toward?, Option.ite_none_right_eq_some, Bool.and_eq_true,
          Bool.not_eq_true'] at ht
        exact .extra ht.1.1 ht.1.2 ht.2 hrest
    | item =>
        simp only [toward?, Option.ite_none_right_eq_some, Bool.and_eq_true] at ht
        exact .item ht.1.2 ht.1.1 ht.2 hrest

theorem address_printed (segments : List String) (segment : String) (t : Move) :
    Location.address (segments ++ t.printed segment) =
      Location.address segments ++ t.text segment := by
  cases t with
  | property =>
      have hvia : "/" ++ "properties" ++ "/" = "/properties/" := by simp
      change Location.address (segments ++ ["properties", segment]) =
        Location.address segments ++ ("/properties/" ++ segment)
      rw [Location.address_append_two, ← hvia]
      simp only [String.append_assoc]
  | extra =>
      have hvia : "/" ++ "additionalProperties" ++ "/" = "/additionalProperties/" := by simp
      change Location.address (segments ++ ["additionalProperties", segment]) =
        Location.address segments ++ ("/additionalProperties/" ++ segment)
      rw [Location.address_append_two, ← hvia]
      simp only [String.append_assoc]
  | item =>
      have hvia : "/" ++ "items" = "/items" := by simp
      change Location.address (segments ++ ["items"]) = Location.address segments ++ "/items"
      rw [Location.address_append_one, ← hvia, String.append_assoc]

theorem steps_eq (n : Node) (segment : String) :
    n.steps segment =
      Move.all.filterMap fun t => (n.toward? segment t).map (·, t.text segment) := by
  have hproperty : n.toProperty segment =
      ((n.declared? segment).map (·, Move.text segment .property)).toList := by
    rw [toProperty]
    cases n.declared? segment <;> rfl
  have hextra : n.toExtra segment =
      ((if n.declares segment then none else n.extra?).map
        (·, Move.text segment .extra)).toList := by
    rw [toExtra]
    cases n.extra? <;> cases n.declares segment <;> rfl
  have hitem : n.toItem = (n.items.map (·, Move.text segment .item)).toList := by
    rw [toItem]
    cases n.items <;> rfl
  rw [List.filterMap_eq_flatMap_toList, steps, fieldSteps, itemSteps, hproperty, hextra, hitem]
  cases hobject : n.admits .object <;> cases hdeclares : n.declares segment <;>
    cases hitems : isIndex segment && n.admits .array <;>
      simp [Move.all, toward?, hobject, hdeclares, hitems]

theorem findFrom_cons (segments : List String) :
    findFrom (segment :: rest) n (Location.address segments) =
      Move.all.findSome? fun t => (n.toward? segment t).bind fun c =>
        findFrom rest c (Location.address (segments ++ t.printed segment)) := by
  rw [findFrom, steps_eq, ← List.head?_filterMap, List.filterMap_filterMap, List.head?_filterMap]
  congr 1
  funext t
  rw [address_printed]
  cases n.toward? segment t <;> rfl

theorem isSome_findFrom_iff (segments : List String) (n : Node) (start : List String) :
    (findFrom segments n (Location.address start)).isSome = true
      ↔ ∃ moves m, Route n segments moves m := by
  induction segments generalizing n start with
  | nil => exact ⟨fun _ => ⟨[], n, .stay n⟩, fun _ => rfl⟩
  | cons segment rest ih =>
      rw [findFrom_cons, List.findSome?_isSome_iff]
      constructor
      · rintro ⟨t, -, ht⟩
        obtain ⟨found, hfound⟩ := Option.isSome_iff_exists.mp ht
        obtain ⟨c, hc, hrest⟩ := Option.bind_eq_some_iff.mp hfound
        obtain ⟨moves, m, hroute⟩ := (ih c _).mp (Option.isSome_iff_exists.mpr ⟨found, hrest⟩)
        exact ⟨t :: moves, m, route_cons_iff.mpr ⟨t, moves, c, rfl, hc, hroute⟩⟩
      · rintro ⟨moves, m, hroute⟩
        obtain ⟨t, us, c, -, hc, hrest⟩ := route_cons_iff.mp hroute
        refine ⟨t, t.mem_all, ?_⟩
        rw [hc]
        exact (ih c _).mpr ⟨us, m, hrest⟩

theorem first_of_findFrom {segments : List String} {n : Node} {start : List String} {found : Found}
    (h : findFrom segments n (Location.address start) = some found) :
    ∃ moves, Route n segments moves found.node
      ∧ found.path = Location.address (start ++ printed segments moves)
      ∧ ∀ others m, Route n segments others m →
          others = moves ∨ List.Lex Move.Before moves others := by
  induction segments generalizing n start with
  | nil =>
      obtain rfl := Option.some.inj h
      refine ⟨[], .stay n, by simp [printed], fun others m hothers => ?_⟩
      cases hothers
      exact .inl rfl
  | cons segment rest ih =>
      rw [findFrom_cons] at h
      obtain ⟨earlier, t, later, hall, ht, hnone⟩ := List.findSome?_eq_some_iff.mp h
      obtain ⟨c, hc, hrest⟩ := Option.bind_eq_some_iff.mp ht
      obtain ⟨moves, hroute, hpath, hfirst⟩ := ih hrest
      refine ⟨t :: moves, route_cons_iff.mpr ⟨t, moves, c, rfl, hc, hroute⟩, ?_, ?_⟩
      · simp [hpath, printed]
      · intro others m hothers
        obtain ⟨u, us, d, rfl, hd, hus⟩ := route_cons_iff.mp hothers
        have hu : u ∈ earlier ++ t :: later := hall ▸ u.mem_all
        rcases List.mem_append.mp hu with hu | hu
        · -- What was tried before has no route to the end.
          have hno := hnone u hu
          rw [hd, Option.bind_some] at hno
          have hsome := (isSome_findFrom_iff rest d (start ++ u.printed segment)).mpr ⟨us, m, hus⟩
          rw [hno] at hsome
          cases hsome
        · rcases List.mem_cons.mp hu with rfl | hu
          · obtain rfl : d = c := Option.some.inj (hd.symm.trans hc)
            rcases hfirst us m hus with rfl | hlex
            · exact .inl rfl
            · exact .inr (.cons hlex)
          · have hpairs := hall ▸ Move.pairwise_all
            exact .inr (.rel (List.rel_of_pairwise_cons (List.pairwise_append.mp hpairs).2.1 hu))

theorem Route.leads {root : Node} {segments start : List String} (h : Route n segments moves m)
    (hstart : Leads root start n) (hsegments : ∀ s ∈ segments, IsSegment s) :
    Leads root (start ++ printed segments moves) m := by
  induction h generalizing start with
  | stay n => simpa [printed] using hstart
  | property _ hc _ ih =>
      obtain ⟨hname, hrest⟩ := List.forall_mem_cons.mp hsegments
      simpa [printed, Move.printed] using ih (hstart.property hc hname) hrest
  | extra _ _ hc _ ih =>
      obtain ⟨hname, hrest⟩ := List.forall_mem_cons.mp hsegments
      simpa [printed, Move.printed] using ih (hstart.extra hc hname) hrest
  | item _ _ hc _ ih =>
      obtain ⟨-, hrest⟩ := List.forall_mem_cons.mp hsegments
      simpa [printed, Move.printed] using ih (hstart.items hc) hrest

theorem find_first_route (root : Node) (segments : List String) :
    ((root.find? segments).isSome = true ↔ ∃ moves m, Route root segments moves m)
      ∧ ∀ found, root.find? segments = some found →
          ∃ moves, Route root segments moves found.node
            ∧ (∀ others m, Route root segments others m →
                others = moves ∨ List.Lex Move.Before moves others)
            ∧ found.path = Location.address (printed segments moves)
            ∧ ((∀ s ∈ segments, IsSegment s) → root.resolve? found.path = some found) := by
  have hroot : root.find? segments = findFrom segments root (Location.address []) := rfl
  refine ⟨hroot ▸ isSome_findFrom_iff segments root [], fun found hfound => ?_⟩
  obtain ⟨moves, hroute, hpath, hfirst⟩ := first_of_findFrom (hroot ▸ hfound)
  refine ⟨moves, hroute, hfirst, hpath, fun hsegments => ?_⟩
  have hleads := hroute.leads Leads.root hsegments
  rw [hpath, hleads.resolves, ← hpath]

example :
    let root : Node :=
      { Node.empty with
        own := { Keywords.none with kind := some (.many [.object, .array]) }
        properties := some [("0", Node.ofKind .string)]
        items := some { Node.ofKind .object with properties := some [("x", Node.ofKind .number)] } }
    (root.find? ["0", "x"]).map Found.path = some "#/items/properties/x" := rfl

end Node

end CheckedConfig
