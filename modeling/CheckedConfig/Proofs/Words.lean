import CheckedConfig.Arguments

namespace CheckedConfig

namespace Arguments

inductive Form where
  | assigns (key value : String)
  | negates (key : String)
  | long (key : String)
  | short (flags : List Char) (last : Char)
  deriving DecidableEq, Repr

namespace Form

def word : Form → String
  | assigns key value => "--" ++ key ++ "=" ++ value
  | negates key => "--no-" ++ key
  | long key => "--" ++ key
  | short flags last => "-" ++ String.ofList (flags ++ [last])

def Proper (f : Form) : Prop :=
  match f with
  | assigns key _ => '=' ∉ key.toList
  | negates key => '=' ∉ key.toList
  | long key => key ≠ "" ∧ '=' ∉ key.toList ∧ ¬ ['n', 'o', '-'] <+: key.toList
  | short flags last => (flags ++ [last]).head? ≠ some '-' ∧ isNumber f.word = false

structure Spells (f : Form) (w : String) : Prop where
  word : f.word = w
  proper : f.Proper

instance : DecidablePred Proper
  | assigns key _ => inferInstanceAs (Decidable ('=' ∉ key.toList))
  | negates key => inferInstanceAs (Decidable ('=' ∉ key.toList))
  | long key =>
      inferInstanceAs (Decidable (key ≠ "" ∧ '=' ∉ key.toList ∧ ¬ ['n', 'o', '-'] <+: key.toList))
  | short flags last =>
      inferInstanceAs (Decidable ((flags ++ [last]).head? ≠ some '-'
        ∧ isNumber (short flags last).word = false))

instance (f : Form) (w : String) : Decidable (f.Spells w) :=
  decidable_of_iff (f.word = w ∧ f.Proper) ⟨fun h => ⟨h.1, h.2⟩, fun h => ⟨h.word, h.proper⟩⟩

def awaits : Form → Bool
  | assigns _ _ => false
  | negates _ => false
  | long _ => true
  | short _ _ => true

def letter (c : Char) : String := String.ofList [c]

def settings : Form → Option String → List (String × Value)
  | assigns key value, _ => [(key, readValue value)]
  | negates key, _ => [(key, .bool false)]
  | long key, next => [(key, next.elim (.bool true) readLongValue)]
  | short flags last, next =>
      flags.map (fun c => (letter c, .bool true))
        ++ [(letter last, next.elim (.bool true) readValue)]

end Form

inductive Use where
  | option (f : Form) (value : Option String)
  | positional (w : String)
  | terminator
  | verbatim (w : String)
  deriving DecidableEq, Repr

namespace Use

def words : Use → List String
  | option f value => f.word :: value.toList
  | positional w => [w]
  | terminator => ["--"]
  | verbatim w => [w]

def settings : Use → List (String × Value)
  | option f value => f.settings value
  | _ => []

def positional? : Use → Option Value
  | positional w => some (readValue w)
  | verbatim w => some (.string w)
  | _ => none

end Use

def Plain (w : String) : Prop := w = "-" ∨ isValue w = true

inductive Uses : List String → List Use → Prop where
  | done : Uses [] []
  | terminator (rest : List String) : Uses ("--" :: rest) (.terminator :: rest.map .verbatim)
  | positional {w : String} {rest : List String} {us : List Use} :
      Plain w → Uses rest us → Uses (w :: rest) (.positional w :: us)
  | valued {f : Form} {w t : String} {rest : List String} {us : List Use} :
      f.Spells w → f.awaits = true → isValue t = true → Uses rest us →
      Uses (w :: t :: rest) (.option f (some t) :: us)
  | alone {f : Form} {w : String} {rest : List String} {us : List Use} :
      f.Spells w → (f.awaits = true → ∀ t ∈ rest.head?, isValue t = false) → Uses rest us →
      Uses (w :: rest) (.option f none :: us)

variable {f g : Form} {t w key : String} {rest words : List String} {us vs : List Use}

theorem afterEquals?_append {cs ds : List Char} (h : '=' ∉ cs) :
    afterEquals? (cs ++ '=' :: ds) = some (cs, ds) := by
  induction cs with
  | nil => rfl
  | cons c cs ih =>
      rw [List.mem_cons, not_or] at h
      rw [List.cons_append, afterEquals?, ih h.2]
      · rfl
      · exact fun hc => h.1 hc.symm

theorem afterEquals?_eq_none {cs : List Char} (h : '=' ∉ cs) : afterEquals? cs = none := by
  induction cs with
  | nil => rfl
  | cons c cs ih =>
      rw [List.mem_cons, not_or] at h
      rw [afterEquals?, ih h.2]
      · rfl
      · exact fun hc => h.1 hc.symm

theorem isNumber_of_hyphens {cs : List Char} (h : w.toList = '-' :: '-' :: cs) :
    isNumber w = false := by
  have hhyphen : isDigit '-' = false := by decide
  have hnone : Decimal.ofChars? w.toList = none := by
    rw [h, Decimal.ofChars?, Decimal.unsigned?]
    simp [hhyphen]
  rw [isNumber, readDouble?, hnone]
  rfl

theorem plain_of_head?_ne (h : w.toList.head? ≠ some '-') : Plain w := by
  refine .inr ?_
  rw [isValue, Text.startsWith, beq_eq_false_iff_ne.mpr h]
  rfl

theorem plain_of_isNumber (h : isNumber w = true) : Plain w := by
  rw [Plain, isValue, h, Bool.or_true]
  exact .inr rfl

theorem Plain.not_hyphens (h : Plain w) (cs : List Char) : w.toList ≠ '-' :: '-' :: cs := by
  intro heq
  rcases h with rfl | hvalue
  · simp at heq
  · rw [isValue, isNumber_of_hyphens heq, Text.startsWith, heq] at hvalue
    simp at hvalue

namespace Form

def chars : Form → List Char
  | assigns key value => '-' :: '-' :: (key.toList ++ '=' :: value.toList)
  | negates key => '-' :: '-' :: 'n' :: 'o' :: '-' :: key.toList
  | long key => '-' :: '-' :: key.toList
  | short flags last => '-' :: (flags ++ [last])

theorem toList_word (f : Form) : f.word.toList = f.chars := by
  cases f <;> simp [word, chars]

theorem Spells.toList (h : f.Spells w) : w.toList = f.chars := by
  rw [← h.word, toList_word]

theorem spells_of_chars (hproper : f.Proper) (h : w.toList = f.chars) : f.Spells w :=
  ⟨String.toList_injective ((toList_word f).trans h.symm), hproper⟩

theorem Spells.not_plain (h : f.Spells w) : ¬ Plain w := by
  intro hplain
  have hchars := h.toList
  cases f with
  | assigns key value => exact hplain.not_hyphens _ hchars
  | negates key => exact hplain.not_hyphens _ hchars
  | long key => exact hplain.not_hyphens _ hchars
  | short flags last =>
      obtain ⟨hword, -, hnumber⟩ := h
      rw [hword] at hnumber
      rcases hplain with rfl | hvalue
      · simp [chars] at hchars
      · rw [isValue, hnumber, Text.startsWith, hchars] at hvalue
        simp [chars] at hvalue

theorem Spells.ne_terminator (h : f.Spells w) : w ≠ "--" := by
  rintro rfl
  have hchars : ['-', '-'] = f.chars := h.toList
  have hproper := h.proper
  cases f with
  | assigns key value => simp [chars] at hchars
  | negates key => simp [chars] at hchars
  | long key =>
      simp only [chars, List.cons.injEq, true_and] at hchars
      exact hproper.1 (String.toList_eq_nil_iff.mp hchars.symm)
  | short flags last =>
      simp only [chars, List.cons.injEq, true_and] at hchars
      exact hproper.1 (by rw [← hchars]; rfl)

theorem afterEquals?_of_negates (h : (negates key).Proper) :
    afterEquals? ('n' :: 'o' :: '-' :: key.toList) = none :=
  afterEquals?_eq_none (by simpa [Proper] using h)

def ofChars : List Char → Form
  | '-' :: '-' :: cs =>
      match afterEquals? cs with
      | some (key, value) => .assigns (String.ofList key) (String.ofList value)
      | none =>
          match cs with
          | 'n' :: 'o' :: '-' :: key => .negates (String.ofList key)
          | _ => .long (String.ofList cs)
  | cs => .short cs.tail.dropLast (cs.getLast?.getD '-')

theorem ofChars_chars (h : f.Proper) : ofChars f.chars = f := by
  cases f with
  | assigns key value =>
      simp only [chars, ofChars, afterEquals?_append h, String.ofList_toList]
  | negates key =>
      simp only [chars, ofChars, afterEquals?_of_negates h, String.ofList_toList]
  | long key =>
      simp only [chars, ofChars, afterEquals?_eq_none h.2.1]
      split
      · next rest hkey => exact absurd ⟨rest, hkey.symm⟩ h.2.2
      · rw [String.ofList_toList]
  | short flags last =>
      have hlast : ('-' :: (flags ++ [last])).getLast? = some last := by
        rw [← List.cons_append, List.getLast?_concat]
      simp only [chars]
      unfold ofChars
      split
      · next cs hcs =>
          exact absurd (congrArg List.head? (List.cons.inj hcs).2) h.1
      · rw [hlast, List.tail_cons, List.dropLast_concat, Option.getD_some]

theorem Spells.unique (hf : f.Spells w) (hg : g.Spells w) : f = g := by
  rw [← ofChars_chars hf.proper, ← hf.toList, hg.toList, ofChars_chars hg.proper]

end Form

theorem exists_spells_of_hyphens {cs : List Char} (h : w.toList = '-' :: '-' :: cs)
    (hne : cs ≠ []) : ∃ f : Form, f.Spells w := by
  by_cases hequals : '=' ∈ cs
  · obtain ⟨key, value, rfl, hkey⟩ := List.eq_append_cons_of_mem hequals
    refine ⟨.assigns (String.ofList key) (String.ofList value), Form.spells_of_chars ?_ ?_⟩
    · simpa [Form.Proper] using hkey
    · simpa [Form.chars] using h
  by_cases hno : ['n', 'o', '-'] <+: cs
  · obtain ⟨key, rfl⟩ := hno
    refine ⟨.negates (String.ofList key), Form.spells_of_chars ?_ ?_⟩
    · simpa [Form.Proper] using hequals
    · simpa [Form.chars] using h
  · refine ⟨.long (String.ofList cs), Form.spells_of_chars ⟨?_, ?_, ?_⟩ ?_⟩
    · simpa using hne
    · simpa using hequals
    · simpa using hno
    · simpa [Form.chars] using h

theorem exists_spells_of_hyphen {c : Char} {cs : List Char} (h : w.toList = '-' :: c :: cs)
    (hc : c ≠ '-') (hnumber : isNumber w = false) : ∃ f : Form, f.Spells w := by
  obtain ⟨flags, last, hletters⟩ : ∃ flags last, flags ++ [last] = c :: cs :=
    ⟨_, _, List.dropLast_concat_getLast (List.cons_ne_nil c cs)⟩
  have hchars : w.toList = (Form.short flags last).chars := by rw [h, Form.chars, hletters]
  have hword : (Form.short flags last).word = w :=
    String.toList_injective ((Form.toList_word _).trans hchars.symm)
  refine ⟨.short flags last, hword, ?_, ?_⟩
  · rw [hletters]
    simpa using hc
  · rw [hword]
    exact hnumber

theorem word_cases (w : String) : w = "--" ∨ Plain w ∨ ∃ f : Form, f.Spells w := by
  cases h : w.toList with
  | nil => exact .inr (.inl (plain_of_head?_ne (by simp [h])))
  | cons c cs =>
      by_cases hc : c = '-'
      · subst hc
        cases cs with
        | nil => exact .inr (.inl (.inl (String.toList_injective h)))
        | cons d ds =>
            by_cases hd : d = '-'
            · subst hd
              cases ds with
              | nil => exact .inl (String.toList_injective h)
              | cons e es =>
                  exact .inr (.inr (exists_spells_of_hyphens h (List.cons_ne_nil e es)))
            · by_cases hnumber : isNumber w = true
              · exact .inr (.inl (plain_of_isNumber hnumber))
              · rw [Bool.not_eq_true] at hnumber
                exact .inr (.inr (exists_spells_of_hyphen h hd hnumber))
      · exact .inr (.inl (plain_of_head?_ne (by simpa [h] using hc)))

theorem exists_uses (words : List String) : ∃ us, Uses words us := by
  match words with
  | [] => exact ⟨[], .done⟩
  | w :: rest =>
      rcases word_cases w with rfl | hplain | ⟨f, hf⟩
      · exact ⟨_, .terminator rest⟩
      · obtain ⟨us, hus⟩ := exists_uses rest
        exact ⟨_, .positional hplain hus⟩
      · by_cases hnext : f.awaits = true ∧ ∃ t more, rest = t :: more ∧ isValue t = true
        · obtain ⟨hawaits, t, more, rfl, ht⟩ := hnext
          obtain ⟨us, hus⟩ := exists_uses more
          exact ⟨_, .valued hf hawaits ht hus⟩
        · obtain ⟨us, hus⟩ := exists_uses rest
          refine ⟨_, .alone hf ?_ hus⟩
          intro hawaits t ht
          rw [← Bool.not_eq_true]
          intro hvalue
          obtain ⟨more, hrest⟩ := List.head?_eq_some_iff.mp ht
          exact hnext ⟨hawaits, t, more, hrest, hvalue⟩
termination_by words.length

theorem Uses.unique (h : Uses words us) (h' : Uses words vs) : us = vs := by
  induction h generalizing vs with
  | done =>
      cases h'
      rfl
  | terminator rest =>
      cases h' with
      | terminator => rfl
      | positional hplain _ => exact absurd rfl (hplain.not_hyphens [])
      | valued hf _ _ _ => exact absurd rfl hf.ne_terminator
      | alone hf _ _ => exact absurd rfl hf.ne_terminator
  | positional hplain _ ih =>
      cases h' with
      | terminator => exact absurd rfl (hplain.not_hyphens [])
      | positional _ hrest => rw [ih hrest]
      | valued hf _ _ _ => exact absurd hplain hf.not_plain
      | alone hf _ _ => exact absurd hplain hf.not_plain
  | valued hf hawaits ht _ ih =>
      cases h' with
      | terminator => exact absurd rfl hf.ne_terminator
      | positional hplain _ => exact absurd hplain hf.not_plain
      | valued hg _ _ hrest => rw [hf.unique hg, ih hrest]
      | alone hg hnext _ =>
          have hno := hnext (hf.unique hg ▸ hawaits) _ rfl
          rw [ht] at hno
          cases hno
  | alone hf hnext _ ih =>
      cases h' with
      | terminator => exact absurd rfl hf.ne_terminator
      | positional hplain _ => exact absurd hplain hf.not_plain
      | valued hg hawaits ht _ =>
          have hno := hnext (hg.unique hf ▸ hawaits) _ rfl
          rw [ht] at hno
          cases hno
      | alone hg _ hrest => rw [hf.unique hg, ih hrest]

def Form.shape : Form → Shape
  | assigns key value => .complete (.setting key (readValue value))
  | negates key => .complete (.setting key (.bool false))
  | long key => .wanting [] key readLongValue
  | short flags last => .wanting (flags.map letter) (letter last) readValue

theorem shape_of_plain (h : Plain w) : shape w = .complete (.positional (readValue w)) := by
  unfold shape
  split
  · next hw => exact absurd hw (h.not_hyphens _)
  · next hw => exact absurd hw (h.not_hyphens _)
  · next hw =>
      rcases h with rfl | hvalue
      · simp at hw
      · have hnumber : isNumber w = true := by
          simpa [isValue, Text.startsWith, hw] using hvalue
        rw [if_pos hnumber]
  · rfl

theorem shape_of_hyphens {cs : List Char} (h : w.toList = '-' :: '-' :: cs) (hne : cs ≠ []) :
    shape w = longShape cs := by
  unfold shape
  rw [h]
  cases cs with
  | nil => exact absurd rfl hne
  | cons c cs => rfl

theorem shape_of_hyphen {c : Char} {cs : List Char} (h : w.toList = '-' :: c :: cs) (hc : c ≠ '-')
    (hnumber : isNumber w = false) :
    shape w = .wanting (((c :: cs).map Form.letter).dropLast)
      (((c :: cs).map Form.letter).getLast?.getD "") readValue := by
  unfold shape
  rw [h]
  split
  · next heq => exact absurd (List.cons.inj (List.cons.inj heq).2).1 hc
  · next heq => exact absurd (List.cons.inj (List.cons.inj heq).2).1 hc
  · next heq =>
      obtain ⟨rfl, rfl⟩ := List.cons.inj (List.cons.inj heq).2
      rw [hnumber, if_neg Bool.false_ne_true]
      rfl
  · next hno => exact absurd rfl (hno c cs)

theorem shape_of_spells (h : f.Spells w) : shape w = f.shape := by
  have hchars := h.toList
  have hproper := h.proper
  cases f with
  | assigns key value =>
      rw [shape_of_hyphens hchars (by simp)]
      unfold longShape
      rw [afterEquals?_append hproper]
      simp only [Form.shape, String.ofList_toList]
  | negates key =>
      rw [shape_of_hyphens hchars (List.cons_ne_nil _ _)]
      unfold longShape
      rw [Form.afterEquals?_of_negates hproper]
      simp only [Form.shape, String.ofList_toList]
  | long key =>
      obtain ⟨hne, hequals, hno⟩ := hproper
      rw [shape_of_hyphens hchars (mt String.toList_eq_nil_iff.mp hne)]
      unfold longShape
      rw [afterEquals?_eq_none hequals]
      simp only
      split
      · next rest hkey => exact absurd ⟨rest, hkey.symm⟩ hno
      · rw [Form.shape, String.ofList_toList]
  | short flags last =>
      obtain ⟨hhead, hnumber⟩ := hproper
      obtain ⟨c, cs, hcs⟩ : ∃ c cs, flags ++ [last] = c :: cs :=
        List.exists_cons_of_ne_nil (by simp)
      rw [hcs] at hhead
      rw [h.word] at hnumber
      rw [Form.chars, hcs] at hchars
      rw [shape_of_hyphen hchars (by simpa using hhead) hnumber, ← hcs]
      simp [Form.shape]

theorem read_terminator (rest : List String) :
    read ("--" :: rest) = rest.map fun s => .positional (.string s) := by
  have hshape : shape "--" = .terminator := rfl
  cases rest <;> simp [read, hshape]

theorem read_of_complete {a : Argument} (h : shape w = .complete a) (rest : List String) :
    read (w :: rest) = a :: read rest := by
  cases rest <;> simp [read, h]

section

variable {flags : List String} {value : String → Value}

theorem read_valued (h : shape w = .wanting flags key value) (ht : isValue t = true)
    (rest : List String) :
    read (w :: t :: rest) = flags.map flag ++ .setting key (value t) :: read rest := by
  simp [read, h, ht]

theorem read_alone (h : shape w = .wanting flags key value)
    (hnext : ∀ t ∈ rest.head?, isValue t = false) :
    read (w :: rest) = flags.map flag ++ flag key :: read rest := by
  cases rest with
  | nil => simp [read, h]
  | cons t rest => simp [read, h, hnext t rfl]

end

def Use.arguments (u : Use) : List Argument :=
  u.settings.map (fun s => .setting s.1 s.2) ++ u.positional?.toList.map .positional

theorem Uses.read_eq (h : Uses words us) : read words = us.flatMap Use.arguments := by
  induction h with
  | done => rfl
  | terminator rest =>
      rw [read_terminator, List.flatMap_cons, List.flatMap_map, List.map_eq_flatMap]
      rfl
  | positional hplain _ ih =>
      rw [read_of_complete (shape_of_plain hplain), ih]
      rfl
  | @valued f w t rest us hf hawaits ht _ ih =>
      have hshape := shape_of_spells hf
      rw [List.flatMap_cons, ← ih]
      cases f with
      | assigns key value => cases hawaits
      | negates key => cases hawaits
      | long key =>
          rw [read_valued hshape ht]
          rfl
      | short flags last =>
          rw [read_valued hshape ht]
          simp [Use.arguments, Use.settings, Form.settings, Use.positional?, flag]
  | @alone f w rest us hf hnext _ ih =>
      have hshape := shape_of_spells hf
      rw [List.flatMap_cons, ← ih]
      cases f with
      | assigns key value =>
          rw [read_of_complete hshape]
          rfl
      | negates key =>
          rw [read_of_complete hshape]
          rfl
      | long key =>
          rw [read_alone hshape (hnext rfl)]
          rfl
      | short flags last =>
          rw [read_alone hshape (hnext rfl)]
          simp [Use.arguments, Use.settings, Form.settings, Use.positional?, flag]

end Arguments

end CheckedConfig
