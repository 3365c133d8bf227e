import CheckedConfig.Proofs.Arguments

namespace CheckedConfig

namespace Arguments

variable {words more : List String} {us vs : List Use} {key value w : String} {x : Value}

theorem Uses.append (h : Uses words us) (hopen : "--" ∉ words)
    (hnext : ∀ t ∈ more.head?, isValue t = false) (hmore : Uses more vs) :
    Uses (words ++ more) (us ++ vs) := by
  induction h with
  | done => exact hmore
  | terminator rest => exact absurd List.mem_cons_self hopen
  | positional hplain _ ih => exact .positional hplain (ih (List.not_mem_of_not_mem_cons hopen))
  | valued hf hawaits ht _ ih =>
      have hrest := List.not_mem_of_not_mem_cons (List.not_mem_of_not_mem_cons hopen)
      exact .valued hf hawaits ht (ih hrest)
  | @alone f w rest us hf hno _ ih =>
      refine .alone hf (fun hawaits t ht => ?_) (ih (List.not_mem_of_not_mem_cons hopen))
      cases rest with
      | nil => exact hnext t ht
      | cons u rest => exact hno hawaits t ht

theorem read_append (hopen : "--" ∉ words) (hnext : ∀ t ∈ more.head?, isValue t = false) :
    read (words ++ more) = read words ++ read more := by
  obtain ⟨us, hus⟩ := exists_uses words
  obtain ⟨vs, hvs⟩ := exists_uses more
  rw [(hus.append hopen hnext hvs).read_eq, hus.read_eq, hvs.read_eq, List.flatMap_append]

theorem read_append_option {f : Form} (h : f.Spells w) (hopen : "--" ∉ words)
    (more : List String) : read (words ++ w :: more) = read words ++ read (w :: more) := by
  refine read_append hopen fun t ht => ?_
  obtain rfl := Option.some.inj ht
  rw [← Bool.not_eq_true]
  exact fun hvalue => h.not_plain (.inr hvalue)

theorem read_assigned (hequals : '=' ∉ key.toList) (hopen : "--" ∉ words) (more : List String) :
    read (words ++ ("--" ++ key ++ "=" ++ value) :: more)
      = read words ++ .setting key (readValue value) :: read more := by
  have hspells : (Form.assigns key value).Spells ("--" ++ key ++ "=" ++ value) := ⟨rfl, hequals⟩
  rw [read_append_option hspells hopen, read_of_complete (shape_of_spells hspells)]

theorem read_apart (hkey : (Form.long key).Proper) (hvalue : isValue value = true)
    (hopen : "--" ∉ words) (more : List String) :
    read (words ++ ("--" ++ key) :: value :: more)
      = read words ++ .setting key (readLongValue value) :: read more := by
  have hspells : (Form.long key).Spells ("--" ++ key) := ⟨rfl, hkey⟩
  rw [read_append_option hspells hopen, read_valued (shape_of_spells hspells) hvalue]
  rfl

theorem readLongValue_eq (htrue : value ≠ "true") (hfalse : value ≠ "false") :
    readLongValue value = readValue value := by
  rw [readLongValue, if_neg htrue, if_neg hfalse]

theorem readLongValue_ne (h : value = "true" ∨ value = "false") :
    readLongValue value ≠ readValue value := by
  rcases h with rfl | rfl
  · have hread : readValue "true" = .string "true" := rfl
    rw [hread]
    exact nofun
  · have hread : readValue "false" = .string "false" := rfl
    rw [hread]
    exact nofun

theorem get?_of_setting (hne : key ≠ "") (x : Value) :
    (Value.object (ofList [.setting key x]).named).get? (Path.split key) = some x := by
  have hsplit := Path.split_ne_nil hne
  have hempty : (Value.object []).get? (Path.split key) = none := (Fields.Holds.empty hsplit).get?
  have hnamed : (ofList [.setting key x]).named
      = Fields.insertNested [] (Path.split key) (collect x none) := by rw [← hempty]; rfl
  rw [hnamed]
  exact (Fields.holds_insertNested [] x hsplit).get?

theorem parse_spellings (hne : key ≠ "") (hequals : '=' ∉ key.toList)
    (hno : ¬ ['n', 'o', '-'] <+: key.toList) (hvalue : isValue value = true) :
    (∀ before after, "--" ∉ before →
        parse (before ++ ["--" ++ key ++ "=" ++ value] ++ after)
          = parse (before ++ ["--" ++ key, value] ++ after))
      ↔ value ≠ "true" ∧ value ≠ "false" := by
  have hkey : (Form.long key).Proper := ⟨hne, hequals, hno⟩
  constructor
  · intro h
    have hone : read ["--" ++ key ++ "=" ++ value] = [.setting key (readValue value)] :=
      read_assigned hequals List.not_mem_nil []
    have htwo : read ["--" ++ key, value] = [.setting key (readLongValue value)] :=
      read_apart hkey hvalue List.not_mem_nil []
    have halone : ofList (read ["--" ++ key ++ "=" ++ value])
        = ofList (read ["--" ++ key, value]) := h [] [] List.not_mem_nil
    have hget := get?_of_setting hne (readLongValue value)
    rw [← htwo, ← halone, hone, get?_of_setting hne] at hget
    rw [← not_or]
    exact fun htruth => readLongValue_ne htruth (Option.some.inj hget).symm
  · rintro ⟨htrue, hfalse⟩ before after hopen
    have hone : read (before ++ ["--" ++ key ++ "=" ++ value] ++ after)
        = read before ++ .setting key (readValue value) :: read after := by
      rw [List.append_assoc]
      exact read_assigned hequals hopen after
    have htwo : read (before ++ ["--" ++ key, value] ++ after)
        = read before ++ .setting key (readLongValue value) :: read after := by
      rw [List.append_assoc]
      exact read_apart hkey hvalue hopen after
    rw [parse, parse, hone, htwo, readLongValue_eq htrue hfalse]

theorem parse_spellings_offset :
    let before := ["up", "--tag"]
    let after := ["-v", "--", "x"]
    isValue "-5" = true ∧ ("-5" ≠ "true" ∧ "-5" ≠ "false") ∧ "--" ∉ before
      ∧ parse (before ++ ["--db.offset=-5"] ++ after)
          = parse (before ++ ["--db.offset", "-5"] ++ after) := by
  intro before after
  have hkey : "db.offset" ≠ "" := by decide
  have hopen : "--" ∉ before := by decide
  have hvalue : isValue "-5" = true := by decide +kernel
  have hplain : "-5" ≠ "true" ∧ "-5" ≠ "false" := by decide
  have hagree := (parse_spellings hkey (by decide) (by decide) hvalue).mpr hplain before after hopen
  exact ⟨hvalue, hplain, hopen, hagree⟩

theorem truth_word_behind_equals :
    isValue "true" = true
      ∧ (parse ["--debug=true"]).get? "debug" = some (.string "true")
      ∧ (parse ["--debug", "true"]).get? "debug" = some (.bool true)
      ∧ parse ["--debug=true"] ≠ parse ["--debug", "true"] := by
  have hone : (parse ["--debug=true"]).get? "debug" = some (.string "true") := rfl
  have htwo : (parse ["--debug", "true"]).get? "debug" = some (.bool true) := rfl
  refine ⟨by decide, hone, htwo, fun heq => ?_⟩
  rw [heq, htwo] at hone
  cases hone

end Arguments

end CheckedConfig
