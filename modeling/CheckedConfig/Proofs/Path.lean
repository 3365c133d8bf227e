import CheckedConfig.Path

namespace CheckedConfig

namespace Text

theorem splitChars_ne_nil (separator : Char) (cs : List Char) : splitChars separator cs ≠ [] := by
  cases cs with
  | nil => exact List.cons_ne_nil _ _
  | cons c cs =>
      rw [splitChars]
      split
      · exact List.cons_ne_nil _ _
      · split <;> exact List.cons_ne_nil _ _

theorem joinWith_splitChars (separator : Char) (cs : List Char) :
    joinWith (String.ofList [separator]) ((splitChars separator cs).map String.ofList)
      = String.ofList cs := by
  induction cs with
  | nil => rfl
  | cons c cs ih =>
      obtain ⟨piece, pieces, h⟩ := List.exists_cons_of_ne_nil (splitChars_ne_nil separator cs)
      rw [h] at ih
      have hcons (d : Char) (ds : List Char) :
          String.ofList (d :: ds) = String.ofList [d] ++ String.ofList ds := by
        rw [← String.ofList_append, List.singleton_append]
      by_cases hc : c = separator
      · subst hc
        rw [splitChars, if_pos rfl, h, List.map_cons, List.map_cons, joinWith, ← List.map_cons, ih,
          hcons c cs]
        · exact congrArg (· ++ _) (String.empty_append)
        · exact List.cons_ne_nil _ _
      · simp only [splitChars, hc, if_false, h]
        rw [hcons c cs, ← ih, List.map_cons, List.map_cons, hcons c piece]
        cases pieces with
        | nil => rfl
        | cons p pieces => simp only [List.map_cons, joinWith, String.append_assoc]

end Text

theorem Path.join_split (path : String) : join (split path) = path := by
  unfold split
  split
  · next h =>
      rw [String.isEmpty_iff] at h
      rw [h]
      rfl
  · rw [join, Text.splitOn]
    exact (Text.joinWith_splitChars '.' path.toList).trans String.ofList_toList

theorem Path.eq_of_split {path segment : String} (h : split path = [segment]) : segment = path := by
  rw [← join_split path, h]
  rfl

theorem Path.ne_of_split {path s t : String} {rest : List String}
    (h : split path = s :: t :: rest) : s ≠ path := by
  intro heq
  have hjoin : s ++ "." ++ join (t :: rest) = path := by
    rw [← join_split path, h]
    rfl
  have hlength := congrArg String.length hjoin
  rw [heq, String.length_append, String.length_append] at hlength
  have hdot : ".".length = 1 := by decide
  omega

namespace Fields

variable {α : Type}

theorem set_of_mem {fs : Fields α} {n : String} (v : α) (h : n ∈ fs.keys) :
    ∃ before w after, n ∉ keys before ∧ fs = before ++ (n, w) :: after
      ∧ fs.set n v = before ++ (n, v) :: after := by
  induction fs with
  | nil => exact absurd h List.not_mem_nil
  | cons p rest ih =>
      obtain ⟨m, u⟩ := p
      by_cases hm : m = n
      · subst hm
        exact ⟨[], u, rest, List.not_mem_nil, rfl, by simp [set]⟩
      · have hrest : n ∈ keys rest := by simpa [keys_cons, Ne.symm hm] using h
        obtain ⟨before, w, after, hbefore, hfs, hset⟩ := ih hrest
        refine ⟨(m, u) :: before, w, after, ?_, by rw [hfs, List.cons_append], ?_⟩
        · rw [keys_cons, List.mem_cons, not_or]
          exact ⟨Ne.symm hm, hbefore⟩
        · simp only [set, hm, if_false, hset, List.cons_append]

end Fields

namespace Value

inductive Puts (x : Value) (segment : String) : Value → Value → Prop where
  | newKey {fs : Fields Value} : segment ∉ fs.keys →
      Puts x segment (.object fs) (.object (fs ++ [(segment, x)]))
  | oldKey {before after : Fields Value} (y : Value) : segment ∉ before.keys →
      Puts x segment (.object (before ++ (segment, y) :: after))
        (.object (before ++ (segment, x) :: after))
  | oldItem {before after : List Value} (y : Value) :
      Path.index? segment = some before.length →
      Puts x segment (.array (before ++ y :: after)) (.array (before ++ x :: after))
  | newItem {vs : List Value} : Path.index? segment = some vs.length →
      Puts x segment (.array vs) (.array (vs ++ [x]))

inductive Stores (x : Value) : List String → Value → Value → Prop where
  | slot {segment : String} {a b : Value} : Puts x segment a b → Stores x [segment] a b
  | under {segment : String} {rest : List String} {a b c d : Value} :
      a.child? segment = some c → Stores x rest c d → Puts d segment a b →
      Stores x (segment :: rest) a b

def verbatim? (v : Value) (path : String) : Option Value :=
  match v, Path.split path with
  | .object fs, _ :: _ :: _ => Fields.get? fs path
  | _, _ => none

def Meets : Value → String → String → Prop
  | .array _, s, t => Path.index? s = Path.index? t
  | _, s, t => s = t

inductive Apart : Value → List String → List String → Prop where
  | here {v : Value} {s t : String} {rest more : List String} :
      ¬ v.Meets s t → Apart v (s :: rest) (t :: more)
  | under {v w : Value} {s t : String} {rest more : List String} :
      v.Meets s t → v.child? s = some w → Apart w rest more → Apart v (s :: rest) (t :: more)

structure Rewritten (x : Value) (segments : List String) (a b : Value) : Prop where
  stores : Stores x segments a b
  above : ∀ start rest, segments = start ++ rest → rest ≠ [] →
    ∃ c d, a.get? start = some c ∧ b.get? start = some d ∧ Stores x rest c d
  below : ∀ more, b.get? (segments ++ more) = x.get? more
  apart : ∀ route, a.Apart segments route → b.get? route = a.get? route

variable {x a b : Value} {segment : String}

theorem child?_of_meets {s t : String} (h : a.Meets s t) : a.child? t = a.child? s := by
  cases a <;> simp only [Meets] at h <;> simp [child?, h]

theorem puts_of_put (h : a.put segment x = .ok b) : Puts x segment a b := by
  cases a with
  | object fs =>
      obtain rfl := Except.ok.inj h
      by_cases hmem : segment ∈ Fields.keys fs
      · obtain ⟨before, y, after, hbefore, hfs, hset⟩ := Fields.set_of_mem x hmem
        rw [hset, hfs]
        exact .oldKey y hbefore
      · rw [Fields.set_of_not_mem x hmem]
        exact .newKey hmem
  | array vs =>
      cases hi : Path.index? segment with
      | none => simp [put, hi] at h
      | some i =>
          simp only [put, hi] at h
          split at h
          · next hlt =>
              obtain rfl := Except.ok.inj h
              have hvs : vs = vs.take i ++ vs[i] :: vs.drop (i + 1) := by
                rw [← List.drop_eq_getElem_cons hlt, List.take_append_drop]
              have hlen : (vs.take i).length = i := List.length_take_of_le (Nat.le_of_lt hlt)
              have hput : Puts x segment (.array (vs.take i ++ vs[i] :: vs.drop (i + 1)))
                  (.array (vs.take i ++ x :: vs.drop (i + 1))) :=
                .oldItem _ (by rw [hi, hlen])
              rw [← hvs] at hput
              rwa [List.set_eq_take_append_cons_drop, if_pos hlt]
          · next hge =>
              split at h
              · next hlen =>
                  obtain rfl := Except.ok.inj h
                  exact .newItem (hlen ▸ hi)
              · exact absurd h (by simp)
  | _ => simp [put] at h

namespace Puts

theorem child?_self (h : Puts x segment a b) : b.child? segment = some x := by
  cases h with
  | newKey hmem =>
      simp only [child?]
      rw [Fields.get?_append, (Fields.get?_eq_none_iff _ _).mpr hmem]
      simp [Fields.get?]
  | oldKey y hmem =>
      simp only [child?]
      rw [Fields.get?_append, (Fields.get?_eq_none_iff _ _).mpr hmem]
      simp [Fields.get?]
  | oldItem y hi => simp [child?, hi]
  | newItem hi => simp [child?, hi]

theorem of_object {gs : Fields Value} (h : Puts x segment a (.object gs)) :
    ∃ fs, a = .object fs ∧ (∀ p ∈ gs, p ∈ fs ∨ p = (segment, x))
      ∧ ∀ t, segment ≠ t → gs.get? t = Fields.get? fs t := by
  cases h with
  | @newKey fs hmem =>
      refine ⟨fs, rfl, ?_, ?_⟩
      · intro p hp
        simpa using hp
      · intro t ht
        simp [Fields.get?_append, Fields.get?, ht]
  | @oldKey before after y hmem =>
      refine ⟨_, rfl, ?_, ?_⟩
      · intro p hp
        simp only [List.mem_append, List.mem_cons] at hp ⊢
        rcases hp with hp | hp | hp
        · exact .inl (.inl hp)
        · exact .inr hp
        · exact .inl (.inr (.inr hp))
      · intro t ht
        simp [Fields.get?_append, Fields.get?, ht]

theorem of_array {ws : List Value} (h : Puts x segment a (.array ws)) :
    ∃ vs i, a = .array vs ∧ Path.index? segment = some i ∧ ∀ j, j ≠ i → ws[j]? = vs[j]? := by
  cases h with
  | @oldItem before after y hi =>
      refine ⟨_, _, rfl, hi, ?_⟩
      intro j hj
      rw [List.getElem?_append, List.getElem?_append]
      split
      · rfl
      · obtain ⟨k, hk⟩ : ∃ k, j - before.length = k + 1 :=
          Nat.exists_eq_succ_of_ne_zero (by omega)
        rw [hk, List.getElem?_cons_succ, List.getElem?_cons_succ]
  | @newItem vs hi =>
      refine ⟨vs, _, rfl, hi, ?_⟩
      intro j hj
      rw [List.getElem?_append]
      split
      · rfl
      · rw [List.getElem?_eq_none (by simp; omega), List.getElem?_eq_none (by omega)]

theorem child?_apart (h : Puts x segment a b) {t : String} (ht : ¬ a.Meets segment t) :
    b.child? t = a.child? t := by
  cases b with
  | object gs =>
      obtain ⟨fs, rfl, -, hget⟩ := h.of_object
      exact hget t ht
  | array ws =>
      obtain ⟨vs, i, rfl, hi, hget⟩ := h.of_array
      simp only [Meets, hi] at ht
      cases hj : Path.index? t with
      | none => simp [child?, hj]
      | some j =>
          have hne : j ≠ i := fun heq => ht (by rw [hj, heq])
          simp only [child?, hj, Option.bind_some, hget j hne]
  | _ => cases h

theorem kind (h : Puts x segment a b) : Kind.of b = Kind.of a := by
  cases h <;> rfl

theorem meets (h : Puts x segment a b) {t : String} (ht : a.Meets segment t) :
    b.Meets segment t := by
  cases h <;> exact ht

end Puts

theorem stores_of_store {segments : List String} (hne : segments ≠ [])
    (h : a.store segments x = .ok b) : Stores x segments a b := by
  induction segments generalizing a b with
  | nil => exact absurd rfl hne
  | cons s rest ih =>
      cases rest with
      | nil => exact .slot (puts_of_put h)
      | cons t rest =>
          cases hc : a.child? s with
          | none => simp [store, hc] at h
          | some c =>
              simp only [store, hc] at h
              cases hd : c.store (t :: rest) x with
              | error e =>
                  rw [hd] at h
                  cases h
              | ok d =>
                  rw [hd] at h
                  exact .under hc (ih (List.cons_ne_nil _ _) hd) (puts_of_put h)

namespace Stores

variable {segments : List String}

theorem ne_nil (h : Stores x segments a b) : segments ≠ [] := by
  cases h <;> exact List.cons_ne_nil _ _

theorem exists_puts {s : String} {rest : List String} (h : Stores x (s :: rest) a b) :
    ∃ y, Puts y s a b := by
  cases h with
  | slot hput => exact ⟨x, hput⟩
  | under _ _ hput => exact ⟨_, hput⟩

theorem get?_above (h : Stores x segments a b) {start rest : List String}
    (hsplit : segments = start ++ rest) (hne : rest ≠ []) :
    ∃ c d, a.get? start = some c ∧ b.get? start = some d ∧ Stores x rest c d := by
  induction start generalizing segments a b with
  | nil =>
      obtain rfl : segments = rest := hsplit
      exact ⟨a, b, rfl, rfl, h⟩
  | cons s start ih =>
      cases h with
      | slot hput =>
          have hnil : [] = start ++ rest := (List.cons.inj hsplit).2
          exact absurd (List.append_eq_nil_iff.mp hnil.symm).2 hne
      | under hc hstores hput =>
          obtain ⟨rfl, hrest⟩ := List.cons.inj hsplit
          obtain ⟨u, w, hu, hw, hbelow⟩ := ih hstores hrest
          refine ⟨u, w, ?_, ?_, hbelow⟩
          · rw [get?, hc, Option.bind_some, hu]
          · rw [get?, hput.child?_self, Option.bind_some, hw]

theorem get?_below (h : Stores x segments a b) (more : List String) :
    b.get? (segments ++ more) = x.get? more := by
  induction h with
  | slot hput => rw [List.singleton_append, get?, hput.child?_self, Option.bind_some]
  | under hc _ hput ih => rw [List.cons_append, get?, hput.child?_self, Option.bind_some, ih]

theorem get?_self (h : Stores x segments a b) : b.get? segments = some x := by
  have hbelow := h.get?_below []
  rwa [List.append_nil] at hbelow

theorem get?_apart (h : Stores x segments a b) {route : List String} (hroute : a.Apart segments route) :
    b.get? route = a.get? route := by
  induction h generalizing route with
  | slot hput =>
      cases hroute with
      | here hmeets => rw [get?, get?, hput.child?_apart hmeets]
      | under _ _ hrest => cases hrest
  | @under s rest a b c d hc _ hput ih =>
      cases hroute with
      | here hmeets => rw [get?, get?, hput.child?_apart hmeets]
      | @under _ w _ t _ more hmeets hw hrest =>
          have hwc : w = c := Option.some.inj (hw.symm.trans hc)
          rw [get?, get?, child?_of_meets (hput.meets hmeets), hput.child?_self,
            child?_of_meets hmeets, hc]
          exact ih (hwc ▸ hrest)

theorem lookup {path : String} (h : Stores x (Path.split path) a b) :
    b.lookup path = (a.verbatim? path <|> some x) := by
  have hself := h.get?_self
  unfold Value.lookup verbatim?
  cases hsplit : Path.split path with
  | nil => exact absurd hsplit h.ne_nil
  | cons s rest =>
      rw [hsplit] at h hself
      obtain ⟨y, hput⟩ := h.exists_puts
      cases b with
      | object gs =>
          obtain ⟨fs, rfl, -, hget⟩ := hput.of_object
          cases rest with
          | nil =>
              obtain rfl := Path.eq_of_split hsplit
              have hx : Fields.get? gs s = some x := by
                simpa [get?, child?] using hself
              simp [hx]
          | cons t rest =>
              have hne : s ≠ path := Path.ne_of_split hsplit
              simp only [hself, hget path hne]
      | array ws =>
          obtain ⟨vs, i, rfl, -⟩ := hput.of_array
          simpa using hself
      | _ => cases hput

theorem rewritten (h : Stores x segments a b) : Rewritten x segments a b where
  stores := h
  above := fun _ _ => h.get?_above
  below := h.get?_below
  apart := fun _ => h.get?_apart

end Stores

end Value

end CheckedConfig
