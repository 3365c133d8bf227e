import CheckedConfig.Proofs.Path

namespace CheckedConfig

theorem Path.index?_eq_some_iff {segment : String} {i : Nat} :
    index? segment = some i ↔ segment ≠ "" ∧ (∀ c ∈ segment.toList, isDigit c = true)
      ∧ digitsValue segment.toList = i ∧ i < Nat.pow 2 64 := by
  simp only [index?, Bool.or_eq_true, List.isEmpty_iff, String.toList_eq_nil_iff,
    Bool.not_eq_true']
  by_cases hempty : segment = ""
  · simp [hempty]
  · cases hall : segment.toList.all isDigit with
    | false =>
        have hno : ¬ ∀ c ∈ segment.toList, isDigit c = true := by
          rw [← List.all_eq_true, hall]
          exact Bool.false_ne_true
        simp [hno]
    | true =>
        have hdigits := List.all_eq_true.mp hall
        by_cases hlt : digitsValue segment.toList < Nat.pow 2 64
        · simp only [hempty, Bool.true_eq_false, or_self, if_false, hlt, if_true, Option.some.injEq]
          exact ⟨fun heq => ⟨hempty, hdigits, heq, heq ▸ hlt⟩, fun h => h.2.2.1⟩
        · simp only [hempty, Bool.true_eq_false, or_self, if_false, hlt]
          exact ⟨nofun, fun h => absurd (h.2.2.1 ▸ h.2.2.2) hlt⟩

namespace Value

structure Slot where
  held : Value
  refill : Value → Value

def slotAt? : Value → String → Option Slot
  | .object fs, s => (Fields.get? fs s).map fun w => ⟨w, fun x => .object (Fields.set fs s x)⟩
  | .array vs, s =>
      (Path.index? s).bind fun i => vs[i]?.map fun w => ⟨w, fun x => .array (vs.set i x)⟩
  | _, _ => none

def Slot.inside (d c : Slot) : Slot := ⟨d.held, fun x => c.refill (d.refill x)⟩

def slot? : Value → List String → Option Slot
  | v, [] => some ⟨v, id⟩
  | v, s :: rest => (v.slotAt? s).bind fun c => (c.held.slot? rest).map (·.inside c)

def assign (root : Value) (parents : List String) (last : String) (x : Value) :
    Value × Except Failure Unit :=
  match root.slot? parents with
  | none => (root, .error (Path.failure (parents ++ [last]) .noParent))
  | some c =>
      match c.held.put last x with
      | .ok w => (c.refill w, .ok ())
      | .error e => (c.refill c.held, .error (Path.failure (parents ++ [last]) e))

def Takes (v : Value) (s : String) : Prop :=
  (∃ fs, v = .object fs) ∨ ∃ vs i, v = .array vs ∧ Path.index? s = some i ∧ i ≤ vs.length

variable {v w x y : Value} {s last : String} {parents segments : List String} {c : Slot}

theorem held_slotAt? (v : Value) (s : String) : (v.slotAt? s).map Slot.held = v.child? s := by
  cases v with
  | object fs => cases h : Fields.get? fs s <;> simp [slotAt?, child?, h]
  | array vs =>
      cases hi : Path.index? s with
      | none => simp [slotAt?, child?, hi]
      | some i => cases hw : vs[i]? <;> simp [slotAt?, child?, hi, hw]
  | _ => rfl

theorem refill_slotAt? (h : v.slotAt? s = some c) : c.refill c.held = v := by
  cases v with
  | object fs =>
      obtain ⟨w, hw, rfl⟩ := Option.map_eq_some_iff.mp h
      exact congrArg Value.object (Fields.set_get?_self hw)
  | array vs =>
      obtain ⟨i, -, h⟩ := Option.bind_eq_some_iff.mp h
      obtain ⟨w, hw, rfl⟩ := Option.map_eq_some_iff.mp h
      obtain ⟨hlt, rfl⟩ := List.getElem?_eq_some_iff.mp hw
      exact congrArg Value.array (List.set_getElem_self hlt)
  | _ => cases h

theorem put_slotAt? (h : v.slotAt? s = some c) (x : Value) : v.put s x = .ok (c.refill x) := by
  cases v with
  | object fs =>
      obtain ⟨w, -, rfl⟩ := Option.map_eq_some_iff.mp h
      rfl
  | array vs =>
      obtain ⟨i, hi, h⟩ := Option.bind_eq_some_iff.mp h
      obtain ⟨w, hw, rfl⟩ := Option.map_eq_some_iff.mp h
      obtain ⟨hlt, -⟩ := List.getElem?_eq_some_iff.mp hw
      simp only [put, hi, hlt, if_true]
  | _ => cases h

theorem put_put (h : v.put s x = .ok w) (y : Value) : w.put s y = v.put s y := by
  cases v with
  | object fs =>
      obtain rfl := Except.ok.inj h
      exact congrArg (fun gs => Except.ok (Value.object gs)) (Fields.set_set fs s x y)
  | array vs =>
      cases hi : Path.index? s with
      | none => simp [put, hi] at h
      | some i =>
          simp only [put, hi] at h
          split at h
          · next hlt =>
              obtain rfl := Except.ok.inj h
              simp [put, hi, hlt]
          · split at h
            · next hlen =>
                obtain rfl := Except.ok.inj h
                simp [put, hi, hlen]
            · cases h
  | _ => cases h

theorem put_ok_iff : (∃ w, v.put s x = .ok w) ↔ v.Takes s := by
  unfold Takes
  cases v with
  | object fs => simp [put]
  | array vs =>
      cases hi : Path.index? s with
      | none => simp [put, hi]
      | some i =>
          rcases Nat.lt_trichotomy i vs.length with hlt | heq | hgt
          · simp [put, hi, hlt, Nat.le_of_lt hlt]
          · simp [put, hi, heq]
          · simp [put, hi, Nat.not_lt_of_gt hgt, Nat.ne_of_gt hgt, hgt]
  | _ => simp [put]

theorem held_slot? (v : Value) (segments : List String) :
    (v.slot? segments).map Slot.held = v.get? segments := by
  induction segments generalizing v with
  | nil => rfl
  | cons s rest ih =>
      rw [slot?, get?, ← held_slotAt?]
      cases v.slotAt? s with
      | none => rfl
      | some c =>
          rw [Option.bind_some, Option.map_map, Option.map_some, Option.bind_some, ← ih]
          rfl

theorem refill_slot? (h : v.slot? segments = some c) : c.refill c.held = v := by
  induction segments generalizing v c with
  | nil =>
      obtain rfl := Option.some.inj h
      rfl
  | cons s rest ih =>
      obtain ⟨d, hd, h⟩ := Option.bind_eq_some_iff.mp h
      obtain ⟨e, he, rfl⟩ := Option.map_eq_some_iff.mp h
      calc (e.inside d).refill (e.inside d).held
          = d.refill (e.refill e.held) := rfl
        _ = d.refill d.held := by rw [ih he]
        _ = v := refill_slotAt? hd

theorem store_slot? (h : v.slot? segments = some c) (hne : segments ≠ []) (x : Value) :
    v.store segments x = .ok (c.refill x) := by
  induction segments generalizing v c with
  | nil => exact absurd rfl hne
  | cons s rest ih =>
      obtain ⟨d, hd, h⟩ := Option.bind_eq_some_iff.mp h
      obtain ⟨e, he, rfl⟩ := Option.map_eq_some_iff.mp h
      have hput := put_slotAt? hd
      cases rest with
      | nil =>
          obtain rfl := Option.some.inj he
          exact hput x
      | cons t rest =>
          have hchild : v.child? s = some d.held := by rw [← held_slotAt?, hd, Option.map_some]
          simp only [store, hchild, ih he (List.cons_ne_nil _ _)]
          exact hput _

theorem store_eq (v : Value) (parents : List String) (last : String) (x : Value) :
    v.store (parents ++ [last]) x =
      match v.slot? parents with
      | none => .error .noParent
      | some c => (c.held.put last x).map c.refill := by
  induction parents generalizing v with
  | nil =>
      simp only [List.nil_append, store, slot?]
      cases v.put last x <;> rfl
  | cons s rest ih =>
      obtain ⟨t, more, hmore⟩ : ∃ t more, rest ++ [last] = t :: more :=
        List.exists_cons_of_ne_nil (by simp)
      rw [List.cons_append, hmore, store, slot?, ← held_slotAt?]
      cases hd : v.slotAt? s with
      | none => rfl
      | some d =>
          simp only [Option.map_some, Option.bind_some, ← hmore, ih d.held]
          cases d.held.slot? rest with
          | none => rfl
          | some e =>
              simp only [Option.map_some, Slot.inside]
              cases e.held.put last x with
              | error e => rfl
              | ok u => exact put_slotAt? hd _

theorem store_ok_iff :
    (∃ r, v.store (parents ++ [last]) x = .ok r) ↔ ∃ w, v.get? parents = some w ∧ w.Takes last := by
  rw [store_eq, ← held_slot?]
  cases v.slot? parents with
  | none => simp
  | some c =>
      simp only [Option.map_some, Option.some.injEq, exists_eq_left', ← put_ok_iff (x := x)]
      cases c.held.put last x <;> simp [Except.map]

theorem store_store (h : v.store segments x = .ok w) (y : Value) :
    w.store segments y = v.store segments y := by
  induction segments generalizing v w with
  | nil => simp [store]
  | cons s rest ih =>
      cases rest with
      | nil => exact put_put h y
      | cons t rest =>
          cases hu : v.child? s with
          | none => simp [store, hu] at h
          | some u =>
              simp only [store, hu] at h
              cases hd : u.store (t :: rest) x with
              | error e =>
                  rw [hd] at h
                  cases h
              | ok d =>
                  rw [hd] at h
                  have hput : v.put s d = .ok w := h
                  have hchild : w.child? s = some d := (puts_of_put hput).child?_self
                  simp only [store, hu, hchild, ih hd, funext (put_put hput)]

theorem write_ok_iff : v.write segments x = .ok w ↔ v.store segments x = .ok w := by
  rw [write]
  cases v.store segments x with
  | error e => exact ⟨nofun, nofun⟩
  | ok u =>
      change Except.ok u = .ok w ↔ _
      rw [Except.ok.injEq, Except.ok.injEq]

theorem assign_eq (root : Value) (parents : List String) (last : String) (x : Value) :
    root.assign parents last x =
      match root.write (parents ++ [last]) x with
      | .ok r => (r, .ok ())
      | .error e => (root, .error e) := by
  rw [write, store_eq, assign]
  cases h : root.slot? parents with
  | none => rfl
  | some c =>
      simp only
      cases c.held.put last x with
      | ok w => rfl
      | error e => exact congrArg (·, Except.error _) (refill_slot? h)

theorem takes_iff (h : ∀ vs, v.get? parents = some (.array vs) → vs.length < Nat.pow 2 64) :
    (∃ w, v.get? parents = some w ∧ w.Takes last) ↔
      (∃ fs, v.get? parents = some (.object fs))
        ∨ ∃ vs, v.get? parents = some (.array vs) ∧ last ≠ ""
          ∧ (∀ c ∈ last.toList, isDigit c = true) ∧ digitsValue last.toList ≤ vs.length := by
  constructor
  · rintro ⟨w, hw, ⟨fs, rfl⟩ | ⟨vs, i, rfl, hi, hle⟩⟩
    · exact .inl ⟨fs, hw⟩
    · obtain ⟨hne, hdigits, rfl, -⟩ := Path.index?_eq_some_iff.mp hi
      exact .inr ⟨vs, hw, hne, hdigits, hle⟩
  · rintro (⟨fs, hw⟩ | ⟨vs, hw, hne, hdigits, hle⟩)
    · exact ⟨_, hw, .inl ⟨fs, rfl⟩⟩
    · have hi := Path.index?_eq_some_iff.mpr ⟨hne, hdigits, rfl, Nat.lt_of_le_of_lt hle (h vs hw)⟩
      exact ⟨_, hw, .inr ⟨vs, _, rfl, hi, hle⟩⟩

theorem get?_refill (h : v.slot? segments = some c) (x : Value) :
    (c.refill x).get? segments = some x
      ∧ ∀ route, v.Apart segments route → (c.refill x).get? route = v.get? route := by
  by_cases hne : segments = []
  · subst hne
    obtain rfl := Option.some.inj h
    exact ⟨rfl, nofun⟩
  · have hstores := stores_of_store hne (store_slot? h hne x)
    exact ⟨hstores.get?_self, fun route => hstores.get?_apart⟩

theorem write_laws (root : Value) (parents : List String) (last : String) (x : Value) :
    ((∀ vs, root.get? parents = some (.array vs) → vs.length < Nat.pow 2 64) →
      ((∃ r, root.write (parents ++ [last]) x = .ok r) ↔
        (∃ fs, root.get? parents = some (.object fs))
          ∨ ∃ vs, root.get? parents = some (.array vs) ∧ last ≠ ""
            ∧ (∀ c ∈ last.toList, isDigit c = true) ∧ digitsValue last.toList ≤ vs.length))
      ∧ (∀ e, root.write (parents ++ [last]) x = .error e →
          root.assign parents last x = (root, .error e))
      ∧ (∀ r, root.write (parents ++ [last]) x = .ok r →
          root.assign parents last x = (r, .ok ())
            ∧ r.get? (parents ++ [last]) = some x
            ∧ (∀ y, ∃ u, root.write (parents ++ [last]) y = .ok u
                ∧ r.write (parents ++ [last]) y = .ok u)
            ∧ ∀ route, root.Apart (parents ++ [last]) route → r.get? route = root.get? route)
      ∧ ∀ route, (root.slot? route).map Slot.held = root.get? route
          ∧ ∀ c, root.slot? route = some c → c.refill c.held = root
              ∧ ∀ y, (c.refill y).get? route = some y
                ∧ ∀ other, root.Apart route other → (c.refill y).get? other = root.get? other := by
  refine ⟨fun hsize => ?_, fun e he => ?_, fun r hr => ?_, fun route => ?_⟩
  · rw [← takes_iff hsize, ← store_ok_iff (x := x)]
    simp only [write_ok_iff]
  · rw [assign_eq, he]
  · have hstore := write_ok_iff.mp hr
    have hstores := stores_of_store (by simp) hstore
    refine ⟨by rw [assign_eq, hr], hstores.get?_self, fun y => ?_, fun _ => hstores.get?_apart⟩
    obtain ⟨u, hu⟩ := store_ok_iff (x := y).mpr (store_ok_iff.mp ⟨r, hstore⟩)
    exact ⟨u, write_ok_iff.mpr hu, write_ok_iff.mpr ((store_store hstore y).trans hu)⟩
  · exact ⟨root.held_slot? route, fun c hc => ⟨refill_slot? hc, get?_refill hc⟩⟩

example : (Value.object [("ports", .array [.int 80])]).write ["ports", "01"] (.int 443)
    = .ok (.object [("ports", .array [.int 80, .int 443])]) := rfl

end Value

end CheckedConfig
