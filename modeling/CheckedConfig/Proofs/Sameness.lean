import Mathlib.Data.List.Forall2
import Mathlib.Data.List.Nodup
import Mathlib.Data.List.Perm.Subperm
import Mathlib.Data.Option.Basic
import CheckedConfig.Schema.Kind

namespace CheckedConfig

namespace Fields

variable {α β γ : Type} {R : α → β → Prop} {fs : Fields α} {gs : Fields β}

structure Rel (R : α → β → Prop) (fs : Fields α) (gs : Fields β) : Prop where
  left : fs.keys.Nodup
  right : gs.keys.Nodup
  each : ∀ name, Option.Rel R (fs.get? name) (gs.get? name)

theorem Rel.get?_cases (h : Rel R fs gs) (name : String) :
    (fs.get? name = none ∧ gs.get? name = none)
      ∨ ∃ v w, fs.get? name = some v ∧ gs.get? name = some w ∧ R v w := by
  have hrel := h.each name
  generalize fs.get? name = o, gs.get? name = o' at hrel ⊢
  cases hrel with
  | none => exact .inl ⟨rfl, rfl⟩
  | some hr => exact .inr ⟨_, _, rfl, rfl, hr⟩

theorem Rel.of_cases (hfs : fs.keys.Nodup) (hgs : gs.keys.Nodup)
    (h : ∀ name, (fs.get? name = none ∧ gs.get? name = none)
      ∨ ∃ v w, fs.get? name = some v ∧ gs.get? name = some w ∧ R v w) : Rel R fs gs := by
  refine ⟨hfs, hgs, fun name => ?_⟩
  rcases h name with ⟨hv, hw⟩ | ⟨v, w, hv, hw, hr⟩
  · rw [hv, hw]
    exact .none
  · rw [hv, hw]
    exact .some hr

theorem Rel.imp {S : α → β → Prop} (h : Rel R fs gs)
    (himp : ∀ name v w, (name, v) ∈ fs → (name, w) ∈ gs → R v w → S v w) : Rel S fs gs := by
  refine .of_cases h.left h.right fun name => (h.get?_cases name).imp_right ?_
  rintro ⟨v, w, hv, hw, hr⟩
  exact ⟨v, w, hv, hw, himp name v w (mem_of_get? hv) (mem_of_get? hw) hr⟩

theorem Rel.flip (h : Rel R fs gs) : Rel (fun w v => R v w) gs fs := by
  refine .of_cases h.right h.left fun name => (h.get?_cases name).imp And.symm ?_
  rintro ⟨v, w, hv, hw, hr⟩
  exact ⟨w, v, hw, hv, hr⟩

theorem Rel.comp {S : β → γ → Prop} {ks : Fields γ} (h : Rel R fs gs) (h' : Rel S gs ks) :
    Rel (fun v u => ∃ w, R v w ∧ S w u) fs ks := by
  refine .of_cases h.left h'.right fun name => ?_
  rcases h.get?_cases name with ⟨hv, hw⟩ | ⟨v, w, hv, hw, hr⟩
  · rcases h'.get?_cases name with ⟨-, hu⟩ | ⟨w, u, hw', -, -⟩
    · exact .inl ⟨hv, hu⟩
    · rw [hw] at hw'
      cases hw'
  · rcases h'.get?_cases name with ⟨hw', -⟩ | ⟨w', u, hw', hu, hs⟩
    · rw [hw] at hw'
      cases hw'
    · rw [hw] at hw'
      cases hw'
      exact .inr ⟨v, u, hv, hu, w, hr, hs⟩

theorem Rel.has_eq (h : Rel R fs gs) (name : String) : fs.has name = gs.has name := by
  rcases h.get?_cases name with ⟨hv, hw⟩ | ⟨v, w, hv, hw, -⟩ <;> simp [has, hv, hw]

theorem Rel.keys_perm (h : Rel R fs gs) : fs.keys.Perm gs.keys := by
  refine (List.perm_ext_iff_of_nodup h.left h.right).mpr fun name => ?_
  rw [← has_iff, ← has_iff, h.has_eq]

theorem Rel.of_mem (h : Rel R fs gs) {name : String} {v : α} (hv : (name, v) ∈ fs) :
    ∃ w, gs.get? name = some w ∧ R v w := by
  have hget := get?_of_mem h.left hv
  rcases h.get?_cases name with ⟨hnone, -⟩ | ⟨v', w, hv', hw, hr⟩
  · rw [hget] at hnone
    cases hnone
  · rw [hget] at hv'
    cases hv'
    exact ⟨w, hw, hr⟩

theorem rel_iff (hfs : fs.keys.Nodup) (hgs : gs.keys.Nodup) :
    Rel R fs gs ↔
      fs.length = gs.length ∧ ∀ p ∈ fs, ∃ w, gs.get? p.1 = some w ∧ R p.2 w := by
  constructor
  · intro h
    refine ⟨?_, fun p hp => h.of_mem hp⟩
    simpa [keys] using h.keys_perm.length_eq
  · rintro ⟨hlength, hall⟩
    have hsubset : fs.keys ⊆ gs.keys := by
      intro name hname
      obtain ⟨p, hp, rfl⟩ := List.mem_map.mp hname
      obtain ⟨w, hw, -⟩ := hall p hp
      exact mem_keys (mem_of_get? hw)
    -- One direction is enough: as many keys, none of them twice, leave no room for others.
    have hle : gs.keys.length ≤ fs.keys.length := by simp [keys, hlength]
    have hperm : fs.keys.Perm gs.keys := (hfs.subperm hsubset).perm_of_length_le hle
    refine .of_cases hfs hgs fun name => ?_
    cases hv : fs.get? name with
    | some v =>
        obtain ⟨w, hw, hr⟩ := hall _ (mem_of_get? hv)
        exact .inr ⟨v, w, rfl, hw, hr⟩
    | none =>
        rw [get?_eq_none_iff, hperm.mem_iff, ← get?_eq_none_iff] at hv
        exact .inl ⟨rfl, hv⟩

theorem flatMap_eq_keys (hd : fs.keys.Nodup) (f : String → α → List γ) :
    fs.flatMap (fun p => f p.1 p.2) =
      fs.keys.flatMap fun name => (fs.get? name).elim [] (f name) := by
  rw [keys, List.flatMap_map]
  refine congrArg List.flatten (List.map_congr_left fun p hp => ?_)
  rw [get?_of_mem hd (v := p.2) hp]
  rfl

theorem Rel.flatMap_perm (h : Rel R fs gs) {f : String → α → List γ} {g : String → β → List γ}
    (hfg : ∀ name v w, (name, v) ∈ fs → (name, w) ∈ gs → R v w → (f name v).Perm (g name w)) :
    (fs.flatMap fun p => f p.1 p.2).Perm (gs.flatMap fun p => g p.1 p.2) := by
  rw [flatMap_eq_keys h.left, flatMap_eq_keys h.right]
  refine (List.Perm.flatMap_left _ fun name _ => ?_).trans (h.keys_perm.flatMap_right _)
  rcases h.get?_cases name with ⟨hv, hw⟩ | ⟨v, w, hv, hw, hr⟩
  · rw [hv, hw]
    exact .refl _
  · rw [hv, hw]
    exact hfg name v w (mem_of_get? hv) (mem_of_get? hw) hr

end Fields

namespace Double

theorem same_iff (a b : Double) : a.same b = true ↔ a.signed = b.signed := by
  simp [same]

theorem steps_of_signed_eq {a b : Double} (h : a.signed = b.signed) : a.steps = b.steps := by
  simp only [signed] at h
  split at h <;> split at h <;> omega

end Double

namespace Number

theorem same_refl (a : Number) : a.same a = true := by
  cases a <;> simp [same, Double.same]

theorem same_symm {a b : Number} (h : a.same b = true) : b.same a = true := by
  cases a <;> cases b <;> simp_all [same, Double.same]

theorem same_trans {a b c : Number} (h : a.same b = true) (h' : b.same c = true) :
    a.same c = true := by
  cases a <;> cases b <;> cases c <;> simp_all [same, Double.same]

theorem signed_of_same {a b : Number} (h : a.same b = true) :
    a.toDouble.signed = b.toDouble.signed := by
  cases a <;> cases b <;> simp_all [same, toDouble, Double.same]

theorem isWhole_of_same {a b : Number} (h : a.same b = true) : a.isWhole = b.isWhole := by
  cases a with
  | int i => cases b <;> simp_all [same, isWhole]
  | real d =>
      cases b with
      | int j => simp [same] at h
      | real e =>
          have hsteps := Double.steps_of_signed_eq ((Double.same_iff d e).mp h)
          simp only [isWhole, Double.isWhole, hsteps]

end Number

namespace Value

variable {u v w : Value} {fs gs : Fields Value} {vs ws : List Value}

inductive Distinct : Value → Prop where
  | scalar {v : Value} : v.isContainer = false → Distinct v
  | array {vs : List Value} : (∀ v ∈ vs, Distinct v) → Distinct (.array vs)
  | object {fs : Fields Value} : (Fields.keys fs).Nodup → (∀ p ∈ fs, Distinct p.2) →
      Distinct (.object fs)

theorem Distinct.items (h : (Value.array vs).Distinct) : ∀ v ∈ vs, v.Distinct := by
  cases h with
  | scalar hno => cases hno
  | array hvs => exact hvs

theorem Distinct.keys (h : (Value.object fs).Distinct) : (Fields.keys fs).Nodup := by
  cases h with
  | scalar hno => cases hno
  | object hd _ => exact hd

theorem Distinct.fields (h : (Value.object fs).Distinct) : ∀ p ∈ fs, p.2.Distinct := by
  cases h with
  | scalar hno => cases hno
  | object _ hfs => exact hfs

structure Agree (v w : Value) : Prop where
  same : v.same w = true
  left : v.Distinct
  right : w.Distinct

theorem same_number (a b : Number) : (Value.number a).same (.number b) = a.same b := by rw [same]

theorem same_array (vs ws : List Value) :
    (Value.array vs).same (.array ws) = sameItems vs ws := by rw [same]

theorem same_object (fs gs : Fields Value) :
    (Value.object fs).same (.object gs) = (fs.length == gs.length && sameFields fs gs) := by rw [same]

theorem same_cases (h : v.same w = true) :
    (v = w ∧ v.isContainer = false)
      ∨ (∃ a b, v = .number a ∧ w = .number b ∧ a.same b = true)
      ∨ (∃ vs ws, v = .array vs ∧ w = .array ws ∧ sameItems vs ws = true)
      ∨ ∃ fs gs, v = .object fs ∧ w = .object gs ∧ (fs.length == gs.length) = true
          ∧ sameFields fs gs = true := by
  cases v <;> cases w <;>
    simp_all [same, isContainer, isArray, isObject]

theorem sameItems_iff :
    sameItems vs ws = true ↔ List.Forall₂ (fun v w => v.same w = true) vs ws := by
  induction vs generalizing ws with
  | nil => cases ws <;> simp [sameItems]
  | cons v vs ih => cases ws <;> simp [sameItems, ih]

theorem sameFields_iff :
    sameFields fs gs = true ↔ ∀ p ∈ fs, ∃ w, Fields.get? gs p.1 = some w ∧ p.2.same w = true := by
  induction fs with
  | nil => simp [sameFields]
  | cons p fs ih =>
      obtain ⟨name, v⟩ := p
      rw [sameFields, Bool.and_eq_true, ih, List.forall_mem_cons]
      cases Fields.get? gs name <;> simp

theorem agreeItems_iff :
    sameItems vs ws = true ∧ (∀ v ∈ vs, v.Distinct) ∧ (∀ w ∈ ws, w.Distinct) ↔
      List.Forall₂ Agree vs ws := by
  rw [sameItems_iff]
  constructor
  · rintro ⟨hsame, hvs, hws⟩
    induction hsame with
    | nil => exact .nil
    | cons hvw _ ih =>
        rw [List.forall_mem_cons] at hvs hws
        exact .cons ⟨hvw, hvs.1, hws.1⟩ (ih hvs.2 hws.2)
  · intro h
    induction h with
    | nil => simp
    | cons hvw _ ih =>
        obtain ⟨hsame, hvs, hws⟩ := ih
        exact ⟨.cons hvw.same hsame, List.forall_mem_cons.mpr ⟨hvw.left, hvs⟩,
          List.forall_mem_cons.mpr ⟨hvw.right, hws⟩⟩

theorem agree_array_iff : Agree (.array vs) (.array ws) ↔ List.Forall₂ Agree vs ws := by
  rw [← agreeItems_iff, ← same_array]
  constructor
  · rintro ⟨hsame, hv, hw⟩
    exact ⟨hsame, hv.items, hw.items⟩
  · rintro ⟨hsame, hvs, hws⟩
    exact ⟨hsame, .array hvs, .array hws⟩

theorem same_object_iff (hfs : (Fields.keys fs).Nodup) (hgs : (Fields.keys gs).Nodup) :
    (Value.object fs).same (.object gs) = true ↔
      Fields.Rel (fun v w => v.same w = true) fs gs := by
  rw [Fields.rel_iff hfs hgs, same_object, Bool.and_eq_true, beq_iff_eq, sameFields_iff]

theorem agree_object_iff : Agree (.object fs) (.object gs) ↔ Fields.Rel Agree fs gs := by
  constructor
  · rintro ⟨hsame, hv, hw⟩
    refine ((same_object_iff hv.keys hw.keys).mp hsame).imp fun name v w hmem hmem' hvw => ?_
    exact ⟨hvw, hv.fields _ hmem, hw.fields _ hmem'⟩
  · intro h
    have hsame : Fields.Rel (fun v w => v.same w = true) fs gs := h.imp fun _ _ _ _ _ hvw => hvw.same
    refine ⟨(same_object_iff h.left h.right).mpr hsame, .object h.left fun p hp => ?_,
      .object h.right fun q hq => ?_⟩
    · obtain ⟨w, -, hpw⟩ := h.of_mem hp
      exact hpw.left
    · obtain ⟨v, -, hvq⟩ := h.flip.of_mem hq
      exact hvq.right

theorem scalar_of_same (h : v.same w = true) (hv : v.isContainer = false) :
    v = w ∨ ∃ a b, v = .number a ∧ w = .number b ∧ a.same b = true := by
  obtain ⟨rfl, -⟩ | hnumbers | ⟨vs, ws, rfl, -⟩ | ⟨fs, gs, rfl, -⟩ := same_cases h
  · exact .inl rfl
  · exact .inr hnumbers
  · cases hv
  · cases hv

theorem isContainer_eq_of_same (h : v.same w = true) : v.isContainer = w.isContainer := by
  obtain ⟨rfl, -⟩ | ⟨a, b, rfl, rfl, -⟩ | ⟨vs, ws, rfl, rfl, -⟩ | ⟨fs, gs, rfl, rfl, -⟩ :=
    same_cases h <;> rfl

theorem Agree.of_scalar (h : Agree v w) (hv : v.isContainer = false) :
    v = w ∨ ∃ a b, v = .number a ∧ w = .number b ∧ a.same b = true :=
  scalar_of_same h.same hv

theorem Agree.of_array (h : Agree (.array vs) w) :
    ∃ ws, w = .array ws ∧ List.Forall₂ Agree vs ws := by
  obtain ⟨-, hno⟩ | ⟨a, b, hno, -⟩ | ⟨_, ws, -, rfl, -⟩ | ⟨fs, gs, hno, -⟩ := same_cases h.same
  · cases hno
  · cases hno
  · exact ⟨ws, rfl, agree_array_iff.mp h⟩
  · cases hno

theorem Agree.of_object (h : Agree (.object fs) w) :
    ∃ gs, w = .object gs ∧ Fields.Rel Agree fs gs := by
  obtain ⟨-, hno⟩ | ⟨a, b, hno, -⟩ | ⟨vs, ws, hno, -⟩ | ⟨_, gs, -, rfl, -⟩ := same_cases h.same
  · cases hno
  · cases hno
  · cases hno
  · exact ⟨gs, rfl, agree_object_iff.mp h⟩

theorem Agree.number {a b : Number} (h : a.same b = true) : Agree (.number a) (.number b) :=
  ⟨(same_number a b).trans h, .scalar rfl, .scalar rfl⟩

theorem Agree.symm (h : Agree v w) : Agree w v := by
  have hv := h.left
  induction hv generalizing w with
  | scalar hno =>
      obtain rfl | ⟨a, b, rfl, rfl, hab⟩ := h.of_scalar hno
      · exact h
      · exact .number (Number.same_symm hab)
  | @array vs _ ih =>
      obtain ⟨ws, rfl, hvs⟩ := h.of_array
      have hflip : List.Forall₂ (fun v w => Agree w v) vs ws :=
        List.forall₂_iff_zip.mpr ⟨hvs.length_eq, fun hmem =>
          ih _ (List.of_mem_zip hmem).1 (List.forall₂_zip hvs hmem)⟩
      exact agree_array_iff.mpr hflip.flip
  | object _ _ ih =>
      obtain ⟨gs, rfl, hfs⟩ := h.of_object
      exact agree_object_iff.mpr (hfs.flip.imp fun _ _ _ _ hmem hvw => ih _ hmem hvw)

theorem Agree.trans (h : Agree u v) (h' : Agree v w) : Agree u w := by
  have hu := h.left
  induction hu generalizing v w with
  | scalar hno =>
      obtain rfl | ⟨a, b, rfl, rfl, hab⟩ := h.of_scalar hno
      · exact h'
      · obtain rfl | ⟨_, c, heq, rfl, hbc⟩ := h'.of_scalar rfl
        · exact h
        · cases heq
          exact .number (Number.same_trans hab hbc)
  | array hd ih =>
      obtain ⟨vs, rfl, hus⟩ := h.of_array
      obtain ⟨ws, rfl, hvs⟩ := h'.of_array
      refine agree_array_iff.mpr ?_
      clear h h' hd
      induction hus generalizing ws with
      | nil =>
          cases hvs with
          | nil => exact .nil
      | cons hab _ ihs =>
          rw [List.forall_mem_cons] at ih
          cases hvs with
          | cons hbc hvs => exact .cons (ih.1 hab hbc) (ihs ih.2 _ hvs)
  | object _ _ ih =>
      obtain ⟨gs, rfl, hfs⟩ := h.of_object
      obtain ⟨ks, rfl, hgs⟩ := h'.of_object
      refine agree_object_iff.mpr ((hfs.comp hgs).imp fun name a c hmem _ hac => ?_)
      obtain ⟨b, hab, hbc⟩ := hac
      exact ih _ hmem hab hbc

theorem Agree.refl (h : v.Distinct) : Agree v v := by
  induction h with
  | @scalar v hno =>
      refine ⟨?_, .scalar hno, .scalar hno⟩
      cases v with
      | number a => exact (same_number a a).trans (Number.same_refl a)
      | array vs => cases hno
      | object fs => cases hno
      | _ => simp [Value.same]
  | array _ ih => exact agree_array_iff.mpr (List.forall₂_same.mpr ih)
  | @object fs hd _ ih =>
      refine agree_object_iff.mpr (.of_cases hd hd fun name => ?_)
      cases hget : Fields.get? fs name with
      | none => exact .inl ⟨rfl, rfl⟩
      | some v => exact .inr ⟨v, v, rfl, rfl, ih _ (Fields.mem_of_get? hget)⟩

theorem Agree.kind_eq (h : Agree v w) : Kind.of v = Kind.of w := by
  obtain ⟨rfl, -⟩ | ⟨a, b, rfl, rfl, -⟩ | ⟨vs, ws, rfl, rfl, -⟩ | ⟨fs, gs, rfl, rfl, -⟩ :=
    same_cases h.same <;> rfl

theorem Agree.isArray_eq (h : Agree v w) : v.isArray = w.isArray := by
  obtain ⟨rfl, -⟩ | ⟨a, b, rfl, rfl, -⟩ | ⟨vs, ws, rfl, rfl, -⟩ | ⟨fs, gs, rfl, rfl, -⟩ :=
    same_cases h.same <;> rfl

theorem Agree.isNumber_eq (h : Agree v w) : v.isNumber = w.isNumber := by
  obtain ⟨rfl, -⟩ | ⟨a, b, rfl, rfl, -⟩ | ⟨vs, ws, rfl, rfl, -⟩ | ⟨fs, gs, rfl, rfl, -⟩ :=
    same_cases h.same <;> rfl

theorem Agree.isWhole_eq (h : Agree v w) : v.isWhole = w.isWhole := by
  obtain ⟨rfl, -⟩ | ⟨a, b, rfl, rfl, hab⟩ | ⟨vs, ws, rfl, rfl, -⟩ | ⟨fs, gs, rfl, rfl, -⟩ :=
    same_cases h.same
  · rfl
  · exact Number.isWhole_of_same hab
  · rfl
  · rfl

theorem same_eq_of_agree {v' w' : Value} (hv : Agree v v') (hw : Agree w w') :
    v.same w = v'.same w' := by
  rw [Bool.eq_iff_iff]
  constructor
  · intro h
    have hvw : Agree v w := ⟨h, hv.left, hw.left⟩
    exact ((hv.symm.trans hvw).trans hw).same
  · intro h
    have hvw : Agree v' w' := ⟨h, hv.right, hw.right⟩
    exact ((hv.trans hvw).trans hw.symm).same

theorem Agree.string_cases (h : Agree v w) :
    (∃ s, v = .string s ∧ w = .string s) ∨ ((∀ s, v ≠ .string s) ∧ ∀ s, w ≠ .string s) := by
  obtain ⟨rfl, -⟩ | ⟨a, b, rfl, rfl, -⟩ | ⟨vs, ws, rfl, rfl, -⟩ | ⟨fs, gs, rfl, rfl, -⟩ :=
    same_cases h.same
  · cases v with
    | string s => exact .inl ⟨s, rfl, rfl⟩
    | _ => exact .inr ⟨nofun, nofun⟩
  · exact .inr ⟨nofun, nofun⟩
  · exact .inr ⟨nofun, nofun⟩
  · exact .inr ⟨nofun, nofun⟩

theorem Agree.signed_eq {a b : Number} (h : Agree (.number a) (.number b)) :
    a.toDouble.signed = b.toDouble.signed :=
  Number.signed_of_same ((same_number a b).symm.trans h.same)

theorem alike_eq_same (h : (v.isNumber && w.isNumber) = false) : v.alike w = v.same w := by
  cases v <;> cases w <;> first | rfl | cases h

theorem exists_of_isNumber (h : v.isNumber = true) : ∃ a, v = .number a := by
  cases v with
  | number a => exact ⟨a, rfl⟩
  | _ => cases h

theorem alike_eq_of_agree {v' w' : Value} (hv : Agree v v') (hw : Agree w w') :
    v.alike w = v'.alike w' := by
  cases hboth : v.isNumber && w.isNumber with
  | false =>
      rw [alike_eq_same hboth, alike_eq_same (by rw [← hv.isNumber_eq, ← hw.isNumber_eq, hboth]),
        same_eq_of_agree hv hw]
  | true =>
      obtain ⟨hvn, hwn⟩ := Bool.and_eq_true_iff.mp hboth
      obtain ⟨a, rfl⟩ := exists_of_isNumber hvn
      obtain ⟨b, rfl⟩ := exists_of_isNumber hwn
      obtain ⟨a', rfl⟩ := exists_of_isNumber (hv.isNumber_eq.symm.trans hvn)
      obtain ⟨b', rfl⟩ := exists_of_isNumber (hw.isNumber_eq.symm.trans hwn)
      simp only [alike, Double.same, hv.signed_eq, hw.signed_eq]

theorem alike_number_iff {a b : Number} :
    (Value.number a).alike (.number b) = true ↔ a.toDouble.signed = b.toDouble.signed :=
  Double.same_iff ..

theorem alike_cases (h : v.alike w = true) :
    (∃ a b, v = .number a ∧ w = .number b ∧ a.toDouble.signed = b.toDouble.signed)
      ∨ (v.isNumber = false ∧ w.isNumber = false ∧ v.same w = true) := by
  cases hboth : v.isNumber && w.isNumber with
  | true =>
      obtain ⟨hv, hw⟩ := Bool.and_eq_true_iff.mp hboth
      obtain ⟨a, rfl⟩ := exists_of_isNumber hv
      obtain ⟨b, rfl⟩ := exists_of_isNumber hw
      exact .inl ⟨a, b, rfl, rfl, alike_number_iff.mp h⟩
  | false =>
      have hsame : v.same w = true := (alike_eq_same hboth).symm.trans h
      obtain ⟨rfl, -⟩ | ⟨a, b, rfl, rfl, -⟩ | ⟨vs, ws, rfl, rfl, -⟩ | ⟨fs, gs, rfl, rfl, -⟩ :=
        same_cases hsame
      · rw [Bool.and_self] at hboth
        exact .inr ⟨hboth, hboth, hsame⟩
      · cases hboth
      · exact .inr ⟨rfl, rfl, hsame⟩
      · exact .inr ⟨rfl, rfl, hsame⟩

theorem alike_of_same (hv : v.isNumber = false) (h : v.same w = true) : v.alike w = true := by
  rw [alike_eq_same (by rw [hv, Bool.false_and])]
  exact h

theorem alike_refl (h : v.Distinct) : v.alike v = true := by
  cases hv : v.isNumber with
  | true =>
      obtain ⟨a, rfl⟩ := exists_of_isNumber hv
      exact alike_number_iff.mpr rfl
  | false => exact alike_of_same hv (Agree.refl h).same

theorem alike_symm (hv : v.Distinct) (hw : w.Distinct) (h : v.alike w = true) :
    w.alike v = true := by
  obtain ⟨a, b, rfl, rfl, hab⟩ | ⟨-, hno, hsame⟩ := alike_cases h
  · exact alike_number_iff.mpr hab.symm
  · exact alike_of_same hno (Agree.symm ⟨hsame, hv, hw⟩).same

theorem alike_trans (hu : u.Distinct) (hv : v.Distinct) (hw : w.Distinct)
    (h : u.alike v = true) (h' : v.alike w = true) : u.alike w = true := by
  obtain ⟨a, b, rfl, rfl, hab⟩ | ⟨hu', hv', huv⟩ := alike_cases h
  · obtain ⟨b, c, heq, rfl, hbc⟩ | ⟨hno, -, -⟩ := alike_cases h'
    · cases heq
      exact alike_number_iff.mpr (hab.trans hbc)
    · cases hno
  · obtain ⟨b, c, rfl, -, -⟩ | ⟨-, -, hvw⟩ := alike_cases h'
    · cases hv'
    · exact alike_of_same hu' (Agree.trans ⟨huv, hu, hv⟩ ⟨hvw, hv, hw⟩).same

end Value

end CheckedConfig
