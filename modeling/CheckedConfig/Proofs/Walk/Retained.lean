import CheckedConfig.Proofs.Walk.Descent
import CheckedConfig.Proofs.Walk.Strictness

namespace CheckedConfig

theorem Interceptor.present_of_run {chain : List Interceptor} {place : Place} {v : Value}
    {o : Option Value} (h : (run place chain (some v)).2 = .ok o) : ∃ w, o = some w := by
  induction chain generalizing v with
  | nil => exact ⟨v, (Except.ok.inj h).symm⟩
  | cons i chain ih =>
      rw [run] at h
      split at h
      · cases h
      · next replaced _ =>
          cases replaced with
          | none => exact ih h
          | some w => exact ih h

theorem Fields.keys_putBack (fs : Fields Value) (n : String) (o : Option Value) :
    keys (fs.putBack n o) = keys fs ++ if !fs.has n && o.isSome then [n] else [] := by
  cases hn : fs.has n with
  | true =>
      have hmem : n ∈ keys fs := (has_iff fs n).mp hn
      cases o <;> simp [putBack, hn, keys_set_of_mem _ hmem]
  | false =>
      have hmem : n ∉ keys fs := by simp [← has_iff, hn]
      cases o with
      | none => simp [putBack, hn]
      | some v => simp [putBack, set_of_not_mem v hmem, keys]

namespace Walk

variable {α β : Type}

theorem result_bind_eq_ok {w : Walk α} {f : α → Walk β} {b : β} :
    (w >>= f).result = .ok b ↔ ∃ a, w.result = .ok a ∧ (f a).result = .ok b := by
  cases h : w.result with
  | error e => simp [bind_of_error h]
  | ok a => simp [bind_of_ok h]

theorem result_fieldsWhere_cons {test : String → Bool}
    {f : String → Value → Walk (Option Value)} {key : String} {u : Value} {fs gs : Fields Value}
    (h : (fieldsWhere test f ((key, u) :: fs)).result = .ok gs) :
    ∃ w hs, gs = (key, w) :: hs ∧ (fieldsWhere test f fs).result = .ok hs
      ∧ if test key then ∃ o, (f key u).result = .ok o ∧ w = o.getD .null else w = u := by
  cases ht : test key with
  | true =>
      simp only [fieldsWhere, ht, if_true, result_bind_eq_ok] at h
      obtain ⟨o, ho, hs, hrest, heq⟩ := h
      exact ⟨_, hs, (Except.ok.inj heq).symm, hrest, o, ho, rfl⟩
  | false =>
      simp only [fieldsWhere, ht, Bool.false_eq_true, if_false, result_bind_eq_ok] at h
      obtain ⟨hs, hrest, heq⟩ := h
      exact ⟨_, hs, (Except.ok.inj heq).symm, hrest, rfl⟩

theorem result_fieldsWhere {test : String → Bool} {f : String → Value → Walk (Option Value)}
    {fs gs : Fields Value} (h : (fieldsWhere test f fs).result = .ok gs) :
    Fields.keys gs = Fields.keys fs
      ∧ ∀ name v, Fields.get? fs name = some v → ∃ w, Fields.get? gs name = some w
          ∧ if test name then ∃ o, (f name v).result = .ok o ∧ w = o.getD .null else w = v := by
  induction fs generalizing gs with
  | nil =>
      obtain rfl := Except.ok.inj h
      exact ⟨rfl, nofun⟩
  | cons p fs ih =>
      obtain ⟨key, u⟩ := p
      obtain ⟨w, hs, rfl, hrest, hw⟩ := result_fieldsWhere_cons h
      obtain ⟨hkeys, hget⟩ := ih hrest
      refine ⟨by rw [Fields.keys_cons, Fields.keys_cons, hkeys], fun name v hv => ?_⟩
      by_cases hname : key = name
      · subst hname
        simp only [Fields.get?, if_true, Option.some.injEq] at hv ⊢
        exact ⟨w, rfl, hv ▸ hw⟩
      · simp only [Fields.get?, hname, if_false] at hv ⊢
        exact hget name v hv

theorem result_itemsFrom {f : Nat → Value → Walk (Option Value)} {i : Nat} {vs us : List Value}
    (h : (itemsFrom f i vs).result = .ok us) :
    us.length = vs.length
      ∧ ∀ j v, vs[j]? = some v →
          ∃ o, (f (i + j) v).result = .ok o ∧ us[j]? = some (o.getD .null) := by
  induction vs generalizing i us with
  | nil =>
      obtain rfl := Except.ok.inj h
      exact ⟨rfl, fun j v hv => by simp at hv⟩
  | cons v vs ih =>
      simp only [itemsFrom, result_bind_eq_ok] at h
      obtain ⟨o, ho, ws, hrest, heq⟩ := h
      obtain rfl := Except.ok.inj heq
      obtain ⟨hlength, hget⟩ := ih hrest
      refine ⟨by rw [List.length_cons, List.length_cons, hlength], fun j u hu => ?_⟩
      cases j with
      | zero =>
          obtain rfl := Option.some.inj hu
          exact ⟨o, ho, rfl⟩
      | succ j =>
          have hj : i + 1 + j = i + (j + 1) := by omega
          rw [← hj]
          exact hget j u hu

end Walk

namespace Node

variable {chain : List Interceptor} {strict : Bool} {n : Node} {here : Location}

theorem present_of_enter {v : Value} {o : Option Value}
    (h : (enter chain n (some v) here).result = .ok o) : ∃ w, o = some w := by
  unfold enter at h
  split at h
  · exact ⟨v, (Except.ok.inj h).symm⟩
  · exact Interceptor.present_of_run h

theorem walk_cases {v : Value} {o : Option Value}
    (h : (n.walk chain strict (some v) here).result = .ok o) :
    ∃ u, (enter chain n (some v) here).result = .ok (some u)
      ∧ ((∃ e, n.own.settle u = .error e ∧ o = some u)
        ∨ ∃ w x, n.own.settle u = .ok w ∧ (n.walkContents chain strict here w).result = .ok x
            ∧ o = some x) := by
  rw [walk_eq, Walk.result_bind_eq_ok] at h
  obtain ⟨given, hgiven, h⟩ := h
  obtain ⟨u, rfl⟩ := present_of_enter hgiven
  refine ⟨u, hgiven, ?_⟩
  cases hu : n.own.settle u with
  | error e =>
      simp only [hu, Walk.result_bind_eq_ok] at h
      obtain ⟨_, _, heq⟩ := h
      exact .inl ⟨e, rfl, (Except.ok.inj heq).symm⟩
  | ok w =>
      simp only [hu, Walk.result_bind_eq_ok] at h
      obtain ⟨x, hx, _, _, heq⟩ := h
      exact .inr ⟨w, x, rfl, hx, (Except.ok.inj heq).symm⟩

theorem present_of_walk {v : Value} {o : Option Value}
    (h : (n.walk chain strict (some v) here).result = .ok o) : ∃ w, o = some w := by
  obtain ⟨u, -, ⟨e, -, rfl⟩ | ⟨w, x, -, -, rfl⟩⟩ := walk_cases h
  · exact ⟨u, rfl⟩
  · exact ⟨x, rfl⟩

inductive Became (chain : List Interceptor) (strict : Bool) (n : Node) (here : Location)
    (name : String) : Option Value → Option Value → Prop where
  | declared {c : Node} {o o' : Option Value} : n.declared? name = some c →
      (c.walk chain strict o (here.property name "properties")).result = .ok o' →
      Became chain strict n here name o o'
  | extra {c : Node} {v : Value} {o' : Option Value} :
      n.declares name = false → n.extra? = some c →
      (c.walk chain strict (some v) (here.property name "additionalProperties")).result = .ok o' →
      Became chain strict n here name (some v) o'
  | left {o : Option Value} : n.declares name = false → (n.extra? = none ∨ o = none) →
      Became chain strict n here name o o

inductive ItemBecame (chain : List Interceptor) (strict : Bool) (n : Node) (here : Location)
    (i : Nat) : Value → Value → Prop where
  | walked {c : Node} {v w : Value} : n.items = some c →
      (c.walk chain strict (some v) (here.index i)).result = .ok (some w) →
      ItemBecame chain strict n here i v w
  | left {v : Value} : n.items = none → ItemBecame chain strict n here i v v

theorem get?_putBack_walked {c : Node} {fs : Fields Value} {name : String} {o : Option Value}
    (h : (c.walk chain strict (Fields.get? fs name) here).result = .ok o) :
    Fields.get? (Fields.putBack fs name o) name = o := by
  refine Fields.get?_putBack_self fun hnone => ?_
  cases hv : Fields.get? fs name with
  | none => rfl
  | some v =>
      rw [hv, hnone] at h
      obtain ⟨w, hw⟩ := present_of_walk h
      cases hw

theorem get?_walkNamed_of_not_mem {ps : List (String × Node)} {fs gs : Fields Value}
    (h : (walkNamed chain ps strict fs here).result = .ok gs) {name : String}
    (hname : name ∉ Fields.keys ps) : Fields.get? gs name = Fields.get? fs name := by
  induction ps generalizing fs with
  | nil =>
      obtain rfl := Except.ok.inj h
      rfl
  | cons p ps ih =>
      rw [walkNamed, Walk.result_bind_eq_ok] at h
      obtain ⟨o, -, hrest⟩ := h
      rw [Fields.keys_cons, List.mem_cons, not_or] at hname
      rw [ih hrest hname.2, Fields.get?_putBack_of_ne fs o (Ne.symm hname.1)]

theorem get?_walkNamed {ps : List (String × Node)} (hd : (Fields.keys ps).Nodup)
    {fs gs : Fields Value} (h : (walkNamed chain ps strict fs here).result = .ok gs)
    {name : String} {c : Node} (hc : (name, c) ∈ ps) :
    (c.walk chain strict (Fields.get? fs name) (here.property name "properties")).result
      = .ok (Fields.get? gs name) := by
  induction ps generalizing fs with
  | nil => exact absurd hc List.not_mem_nil
  | cons p ps ih =>
      obtain ⟨key, d⟩ := p
      obtain ⟨hkey, hrest⟩ := List.nodup_cons.mp hd
      rw [walkNamed, Walk.result_bind_eq_ok] at h
      obtain ⟨o, ho, h⟩ := h
      rcases List.mem_cons.mp hc with heq | hmem
      · obtain ⟨rfl, rfl⟩ := Prod.mk.inj heq
        rw [get?_walkNamed_of_not_mem h hkey, get?_putBack_walked ho]
        exact ho
      · have hne : key ≠ name := fun heq => hkey (heq ▸ Fields.mem_keys hmem)
        rw [← Fields.get?_putBack_of_ne fs o hne]
        exact ih hrest h hmem

theorem keys_walkNamed {ps : List (String × Node)} (hd : (Fields.keys ps).Nodup)
    {fs gs : Fields Value} (h : (walkNamed chain ps strict fs here).result = .ok gs) :
    Fields.keys gs = Fields.keys fs
      ++ Fields.keys (ps.filter fun p => !Fields.has fs p.1 && Fields.has gs p.1) := by
  induction ps generalizing fs with
  | nil =>
      obtain rfl := Except.ok.inj h
      exact (List.append_nil _).symm
  | cons p ps ih =>
      obtain ⟨key, d⟩ := p
      obtain ⟨hkey, hrest⟩ := List.nodup_cons.mp hd
      rw [walkNamed, Walk.result_bind_eq_ok] at h
      obtain ⟨o, ho, h⟩ := h
      have hgs : Fields.has gs key = o.isSome := by
        rw [Fields.has, get?_walkNamed_of_not_mem h hkey, get?_putBack_walked ho]
      have hlater (q : String × Node) (hq : q ∈ ps) :
          Fields.has (Fields.putBack fs key o) q.1 = Fields.has fs q.1 := by
        have hne : key ≠ q.1 := fun heq => hkey (heq ▸ List.mem_map.mpr ⟨q, hq, rfl⟩)
        rw [Fields.has, Fields.get?_putBack_of_ne fs o hne, Fields.has]
      have hfilter : ps.filter (fun q => !Fields.has (Fields.putBack fs key o) q.1
            && Fields.has gs q.1)
          = ps.filter fun q => !Fields.has fs q.1 && Fields.has gs q.1 :=
        List.filter_congr fun q hq => by rw [hlater q hq]
      rw [ih hrest h, hfilter, Fields.keys_putBack, List.append_assoc, List.filter_cons, hgs]
      split <;> rfl

theorem became_of_walkProperties (hnormal : n.normalize = n) {fs gs : Fields Value}
    (h : (walkProperties chain n.properties strict fs here).result = .ok gs) :
    (∀ name c, n.declared? name = some c →
        (c.walk chain strict (Fields.get? fs name) (here.property name "properties")).result
          = .ok (Fields.get? gs name))
      ∧ (∀ name, n.declares name = false → Fields.get? gs name = Fields.get? fs name)
      ∧ Fields.keys gs = Fields.keys fs ++ Fields.keys ((n.properties.getD []).filter fun p =>
          !Fields.has fs p.1 && Fields.has gs p.1) := by
  cases hps : n.properties with
  | none =>
      rw [hps] at h
      obtain rfl := Except.ok.inj h
      refine ⟨fun name c hc => ?_, fun _ _ => rfl, (List.append_nil _).symm⟩
      simp [declared?, hps] at hc
  | some ps =>
      rw [hps] at h
      have hd : (Fields.keys ps).Nodup := keys_nodup_of_normal hnormal hps
      refine ⟨fun name c hc => ?_, fun name hname => ?_, keys_walkNamed hd h⟩
      · exact get?_walkNamed hd h (Fields.mem_of_get? (by simpa [declared?, hps] using hc))
      · refine get?_walkNamed_of_not_mem h ?_
        rw [← Fields.has_iff]
        simpa [declares, hps] using hname

theorem became_of_walkAdditional {gs hs : Fields Value}
    (h : (walkAdditional chain n.additional n strict gs here).result = .ok hs) :
    Fields.keys hs = Fields.keys gs
      ∧ (∀ name, n.declares name = true → Fields.get? hs name = Fields.get? gs name)
      ∧ ∀ name, n.declares name = false →
          n.Became chain strict here name (Fields.get? gs name) (Fields.get? hs name) := by
  cases hm : n.extra? with
  | none =>
      have hsame : hs = gs := by
        cases hadd : n.additional with
        | none => exact (Except.ok.inj (hadd ▸ h)).symm
        | some extra =>
            cases extra with
            | schema m => simp [extra?, hadd] at hm
            | allowed b =>
                rw [hadd] at h
                cases b with
                | true => exact (Except.ok.inj h).symm
                | false =>
                    obtain ⟨_, -, heq⟩ := Walk.result_bind_eq_ok.mp h
                    exact (Except.ok.inj heq).symm
      subst hsame
      exact ⟨rfl, fun _ _ => rfl, fun _ hname => .left hname (.inl hm)⟩
  | some m =>
      rw [extra?_eq_some hm, walkAdditional] at h
      obtain ⟨hkeys, hget⟩ := Walk.result_fieldsWhere h
      have hnone (name : String) (hgs : Fields.get? gs name = none) :
          Fields.get? hs name = none := by
        rw [Fields.get?_eq_none_iff] at hgs ⊢
        rwa [hkeys]
      refine ⟨hkeys, fun name hname => ?_, fun name hname => ?_⟩
      · cases hgs : Fields.get? gs name with
        | none => exact hnone name hgs
        | some v =>
            obtain ⟨w, hw, hkept⟩ := hget name v hgs
            simp only [hname, Bool.not_true, Bool.false_eq_true, if_false] at hkept
            rw [hw, hkept]
      · cases hgs : Fields.get? gs name with
        | none =>
            rw [hnone name hgs]
            exact .left hname (.inr rfl)
        | some v =>
            obtain ⟨w, hw, hwalked⟩ := hget name v hgs
            simp only [hname, Bool.not_false, if_true] at hwalked
            obtain ⟨o, ho, rfl⟩ := hwalked
            obtain ⟨u, rfl⟩ := present_of_walk ho
            rw [hw]
            exact .extra hname hm ho

theorem became_of_object (hnormal : n.normalize = n) {fs : Fields Value} {x : Value}
    (h : (n.walkContents chain strict here (.object fs)).result = .ok x) :
    ∃ gs, x = .object gs
      ∧ (∀ name, n.Became chain strict here name (Fields.get? fs name) (Fields.get? gs name))
      ∧ Fields.keys gs = Fields.keys fs ++ Fields.keys ((n.properties.getD []).filter fun p =>
          !Fields.has fs p.1 && Fields.has gs p.1) := by
  simp only [walkContents, Walk.result_bind_eq_ok] at h
  obtain ⟨_, -, gs, hgs, hs, hhs, heq⟩ := h
  obtain ⟨hdeclared, hundeclared, hkeys⟩ := became_of_walkProperties hnormal hgs
  obtain ⟨hsame, hleft, hextra⟩ := became_of_walkAdditional hhs
  refine ⟨hs, (Except.ok.inj heq).symm, fun name => ?_, ?_⟩
  · cases hc : n.declared? name with
    | some c =>
        rw [hleft name (by simp [declares_eq, hc])]
        exact .declared hc (hdeclared name c hc)
    | none =>
        have hname : n.declares name = false := by simp [declares_eq, hc]
        rw [← hundeclared name hname]
        exact hextra name hname
  · have hhas (name : String) : Fields.has hs name = Fields.has gs name := by
      rw [Bool.eq_iff_iff, Fields.has_iff, Fields.has_iff, hsame]
    simp only [hsame, hkeys, hhas]

theorem became_of_array {vs : List Value} {x : Value}
    (h : (n.walkContents chain strict here (.array vs)).result = .ok x) :
    ∃ us, x = .array us ∧ us.length = vs.length
      ∧ ∀ i v, vs[i]? = some v → ∃ w, us[i]? = some w ∧ n.ItemBecame chain strict here i v w := by
  simp only [walkContents, Walk.result_bind_eq_ok] at h
  obtain ⟨us, hus, _, -, _, -, _, -, heq⟩ := h
  refine ⟨us, (Except.ok.inj heq).symm, ?_⟩
  cases hm : n.items with
  | none =>
      rw [hm] at hus
      obtain rfl := Except.ok.inj hus
      exact ⟨rfl, fun i v hv => ⟨v, hv, .left hm⟩⟩
  | some m =>
      rw [hm, walkItems] at hus
      obtain ⟨hlength, hget⟩ := Walk.result_itemsFrom hus
      refine ⟨hlength, fun i v hv => ?_⟩
      obtain ⟨o, ho, hu⟩ := hget i v hv
      rw [Nat.zero_add] at ho
      obtain ⟨w, rfl⟩ := present_of_walk ho
      exact ⟨w, hu, .walked hm ho⟩

inductive Retains (chain : List Interceptor) (strict : Bool) (n : Node) (here : Location) :
    Value → Value → Prop where
  | object {fs gs : Fields Value} :
      (∀ name, Became chain strict n here name (Fields.get? fs name) (Fields.get? gs name)) →
      (∀ name v, Fields.get? fs name = some v → ∃ w, Fields.get? gs name = some w) →
      Retains chain strict n here (.object fs) (.object gs)
  | array {vs us : List Value} : us.length = vs.length →
      (∀ i v, vs[i]? = some v → ∃ w, us[i]? = some w ∧ ItemBecame chain strict n here i v w) →
      Retains chain strict n here (.array vs) (.array us)
  | scalar {v : Value} : v.isContainer = false → Retains chain strict n here v v

theorem retains_of_walkContents (hnormal : n.normalize = n) {w x : Value}
    (h : (n.walkContents chain strict here w).result = .ok x) :
    n.Retains chain strict here w x := by
  cases w with
  | object fs =>
      obtain ⟨gs, rfl, hbecame, hkeys⟩ := became_of_object hnormal h
      refine .object hbecame fun name v hv => ?_
      have hmem : name ∈ Fields.keys gs := by
        rw [hkeys]
        exact List.mem_append_left _ (Fields.mem_keys (Fields.mem_of_get? hv))
      exact Option.isSome_iff_exists.mp ((Fields.has_iff gs name).mpr hmem)
  | array vs =>
      obtain ⟨us, rfl, hlength, hitems⟩ := became_of_array h
      exact .array hlength hitems
  | _ =>
      obtain ⟨_, -, heq⟩ := Walk.result_bind_eq_ok.mp h
      obtain rfl := Except.ok.inj heq
      exact .scalar rfl

def defaulted (n : Node) (fs : Fields Value) : List String :=
  Fields.keys ((n.properties.getD []).filter fun p => !fs.has p.1 && p.2.own.default.isSome)

theorem isSome_of_walk_none {c : Node} {o : Option Value}
    (h : (c.walk [] false none here).result = .ok o) : o.isSome = c.own.default.isSome := by
  rw [c.walk_eq_done] at h
  obtain rfl := Except.ok.inj h
  rw [outcome_eq, Option.isSome_map]
  rfl

theorem keys_eq_defaulted (hnormal : n.normalize = n) {fs gs : Fields Value}
    (hbecame : ∀ name, n.Became [] false here name (fs.get? name) (gs.get? name)) :
    Fields.keys ((n.properties.getD []).filter fun p => !fs.has p.1 && gs.has p.1)
      = n.defaulted fs := by
  refine congrArg Fields.keys (List.filter_congr fun p hp => ?_)
  cases hps : n.properties with
  | none => simp [hps] at hp
  | some ps =>
      have hmem : (p.1, p.2) ∈ ps := by simpa [hps] using hp
      have hdeclared : n.declared? p.1 = some p.2 := declared?_of_mem hnormal hps hmem
      cases hfs : fs.get? p.1 with
      | some v => simp [Fields.has, hfs]
      | none =>
          have hgs : (gs.get? p.1).isSome = p.2.own.default.isSome := by
            have hp := hbecame p.1
            rw [hfs] at hp
            generalize gs.get? p.1 = o at hp ⊢
            cases hp with
            | declared hc hwalk =>
                obtain rfl := Option.some.inj (hc.symm.trans hdeclared)
                exact isSome_of_walk_none hwalk
            | left hname _ => simp [declares_eq, hdeclared] at hname
          simp [Fields.has, hfs, hgs]

theorem exists_walkContents (here : Location) {v : Value} {k : Kind} (h : n.own.inspect v = .ok k) :
    ∃ x, (n.walkContents [] false here v).result = .ok x
      ∧ (n.walk [] false (some v) here).result = .ok (some x) := by
  have hsettle : n.own.settle v = .ok v := by simp [Keywords.settle, h]
  refine ⟨n.inside v, ?_, ?_⟩
  · rw [walkContents_eq_done fun c _ => c.walk_eq_done]
    rfl
  · rw [n.walk_eq_done, outcome_of_settle hsettle]
    rfl

theorem walk_retains (hnormal : n.normalize = n) (v : Value) (here : Location) :
    (∀ chain, Interceptor.Sound chain →
        ∃ w, (n.walk chain false (some v) here).result = .ok (some w))
      ∧ (∀ why rs, n.own.inspect v = .error why → n.own.coerce v = .error rs →
          (n.walk [] false (some v) here).result = .ok (some v))
      ∧ (∀ fs k, v = .object fs → n.own.inspect v = .ok k →
          ∃ gs, (n.walk [] false (some v) here).result = .ok (some (.object gs))
            ∧ Fields.keys gs = Fields.keys fs ++ n.defaulted fs
            ∧ ∀ name, n.Became [] false here name (Fields.get? fs name) (Fields.get? gs name))
      ∧ (∀ vs k, v = .array vs → n.own.inspect v = .ok k →
          ∃ us, (n.walk [] false (some v) here).result = .ok (some (.array us))
            ∧ us.length = vs.length
            ∧ ∀ i x, vs[i]? = some x → ∃ y, us[i]? = some y ∧ n.ItemBecame [] false here i x y)
      ∧ ∀ chain strict o, (n.walk chain strict (some v) here).result = .ok o →
          ∃ u, (enter chain n (some v) here).result = .ok (some u)
            ∧ ((∃ e, n.own.settle u = .error e ∧ o = some u)
              ∨ ∃ w x, n.own.settle u = .ok w ∧ o = some x
                  ∧ n.Retains chain strict here w x) := by
  refine ⟨fun chain hchain => ?_, fun why rs hinspect hcoerce => ?_, fun fs k hv hk => ?_,
    fun vs k hv hk => ?_, fun chain strict o ho => ?_⟩
  · obtain ⟨o, ho⟩ := (agrees_walk hchain n (some v) here).returns
    obtain ⟨w, rfl⟩ := present_of_walk ho
    exact ⟨w, ho⟩
  · have hsettle : n.own.settle v = .error (why, rs) := by
      rw [Keywords.settle, hinspect, hcoerce]
      rfl
    rw [n.walk_eq_done, outcome_of_refused hsettle]
    rfl
  · obtain ⟨x, hx, hwalk⟩ := exists_walkContents here hk
    obtain ⟨gs, rfl, hbecame, hkeys⟩ := became_of_object hnormal (hv ▸ hx)
    exact ⟨gs, hwalk, keys_eq_defaulted hnormal hbecame ▸ hkeys, hbecame⟩
  · obtain ⟨x, hx, hwalk⟩ := exists_walkContents here hk
    obtain ⟨us, rfl, hlength, hitems⟩ := became_of_array (hv ▸ hx)
    exact ⟨us, hwalk, hlength, hitems⟩
  · obtain ⟨u, hu, ⟨e, he, ho⟩ | ⟨w, x, hw, hx, ho⟩⟩ := walk_cases ho
    · exact ⟨u, hu, .inl ⟨e, he, ho⟩⟩
    · exact ⟨u, hu, .inr ⟨w, x, hw, ho, retains_of_walkContents hnormal hx⟩⟩

theorem walk_retains_service :
    let host : Node := { Node.empty with
      own := { Keywords.none with
        kind := some (.one .string)
        default := some (.string "localhost") } }
    let n : Node := { Node.ofKind .object with
      properties := some [("host", host), ("port", .ofKind .integer), ("name", .ofKind .string)]
      additional := some (.schema host) }
    let fs : Fields Value := [("label", .null), ("port", .string "x")]
    n.normalize = n
      ∧ n.own.inspect (.object fs) = .ok .object
      ∧ ∃ gs, (n.walk [] false (some (.object fs)) Location.root).result = .ok (some (.object gs))
          ∧ Fields.keys gs = ["label", "port", "host"]
          ∧ ∀ name, n.Became [] false Location.root name (Fields.get? fs name)
              (Fields.get? gs name) := by
  intro host n fs
  have hnormal : n.normalize = n := rfl
  have hinspect : n.own.inspect (.object fs) = .ok .object := rfl
  obtain ⟨-, -, hobject, -⟩ := walk_retains hnormal (.object fs) Location.root
  exact ⟨hnormal, hinspect, hobject fs .object rfl hinspect⟩

end Node

end CheckedConfig
