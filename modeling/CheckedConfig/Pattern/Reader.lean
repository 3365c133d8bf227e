import CheckedConfig.Pattern.Regex

namespace CheckedConfig

namespace Regex

structure Flags where
  folded : Bool
  multiline : Bool
  dotAll : Bool
  spaced : Bool
  deriving DecidableEq, Repr

def Flags.plain : Flags := ⟨false, false, false, false⟩

/-- What is covered of the flags: `i`, `m`, `s` and `x` count. `U` only asks for shorter matches, so
it does not change whether there is one. `u` and `R` are read and change nothing: without `u`,
classes are those of Unicode still, and with `R`, lines end with `\n` alone still. -/
def Flags.set (f : Flags) (on : Bool) : Char → Option Flags
  | 'i' => some { f with folded := on }
  | 'm' => some { f with multiline := on }
  | 's' => some { f with dotAll := on }
  | 'x' => some { f with spaced := on }
  | 'U' => some f
  | 'u' => some f
  | 'R' => some f
  | _ => none

def flags? (on : Bool) (seen : List Char) (f : Flags) : List Char → Option (Flags × List Char)
  | [] => none
  | c :: cs =>
      if c = ':' ∨ c = ')' then
        if seen.head? == some '-' then none else some (f, c :: cs)
      else if c = '-' then
        if on then flags? false ('-' :: seen) f cs else none
      else if seen.contains c then none
      else (f.set on c).bind fun f => flags? on (c :: seen) f cs

def oneOf (f : Flags) (set : CharSet) : Regex := .one (if f.folded then .folded set else set)

def literal (f : Flags) (c : Char) : Regex := oneOf f (CharSet.single c)

def isEscapable (c : Char) : Bool :=
  Character.isAscii c && !Character.isAsciiLetter c && !isDigit c && c != '<' && c != '>'

def codePoint? (n : Nat) : Option Char :=
  if n < 0xD800 ∨ (0xE000 ≤ n ∧ n < 0x110000) then some (Char.ofNat n) else none

def fixedHex? (count : Nat) (cs : List Char) : Option (Char × List Char) :=
  if cs.length < count then none
  else (radixValue? 16 (cs.take count)).bind fun n => (codePoint? n).map (·, cs.drop count)

def hex? (count : Nat) : List Char → Option (Char × List Char)
  | '\x7b' :: cs =>
      let ds := cs.takeWhile (· != '\x7d')
      if ds.isEmpty || ds.length == cs.length then none
      else (radixValue? 16 ds).bind fun n => (codePoint? n).map (·, cs.drop (ds.length + 1))
  | cs => fixedHex? count cs

def escaped? : List Char → Option (Char × List Char)
  | [] => none
  | 'n' :: cs => some ('\n', cs)
  | 'r' :: cs => some ('\r', cs)
  | 't' :: cs => some ('\t', cs)
  | 'a' :: cs => some ('\x07', cs)
  | 'f' :: cs => some ('\x0c', cs)
  | 'v' :: cs => some ('\x0b', cs)
  | 'x' :: cs => hex? 2 cs
  | 'u' :: cs => hex? 4 cs
  | 'U' :: cs => hex? 8 cs
  | c :: cs => if isEscapable c then some (c, cs) else none

/-- What is covered of the properties: these names, in any case of letters. Numbers are the decimal
digits only, and a pattern with any other property is refused. -/
def property? (name : List Char) : Option CharSet :=
  match String.ofList (name.map Character.lowerAscii) with
  | "l" | "letter" | "alphabetic" | "alpha" => some .letter
  | "n" | "nd" | "number" | "decimal_number" | "digit" => some .decimal
  | "white_space" | "whitespace" | "space" => some .blank
  | "word" => some .word
  | "any" => some .any
  | "ascii" => some (.range 0 127)
  | _ => none

def namedSet? : List Char → Option (CharSet × List Char)
  | 'd' :: cs => some (.decimal, cs)
  | 'D' :: cs => some (.complement .decimal, cs)
  | 'w' :: cs => some (.word, cs)
  | 'W' :: cs => some (.complement .word, cs)
  | 's' :: cs => some (.blank, cs)
  | 'S' :: cs => some (.complement .blank, cs)
  | 'p' :: cs => property cs
  | 'P' :: cs => (property cs).map fun (set, rest) => (.complement set, rest)
  | _ => none
where
  property : List Char → Option (CharSet × List Char)
    | '\x7b' :: cs =>
        let name := cs.takeWhile (· != '\x7d')
        if name.length == cs.length then none
        else (property? name).map (·, cs.drop (name.length + 1))
    | c :: cs => (property? [c]).map (·, cs)
    | [] => none

def anchor? (f : Flags) : Char → Option Anchor
  | '^' => some (if f.multiline then .lineStart else .start)
  | '$' => some (if f.multiline then .lineFinish else .finish)
  | _ => none

def escapedAnchor? : Char → Option Anchor
  | 'A' => some .start
  | 'z' => some .finish
  | 'b' => some .wordEdge
  | 'B' => some .insideWord
  | _ => none

def posixSet? (name : List Char) : Option CharSet :=
  let lower := CharSet.range 0x61 0x7A
  let upper := CharSet.range 0x41 0x5A
  let digit := CharSet.range 0x30 0x39
  match String.ofList name with
  | "alnum" => some (.union digit (.union upper lower))
  | "alpha" => some (.union upper lower)
  | "ascii" => some (.range 0 127)
  | "blank" => some (.union (CharSet.single ' ') (CharSet.single '\t'))
  | "cntrl" => some (.union (.range 0 31) (.range 127 127))
  | "digit" => some digit
  | "graph" => some (.range 0x21 0x7E)
  | "lower" => some lower
  | "print" => some (.range 0x20 0x7E)
  | "punct" =>
      some (.union (.range 0x21 0x2F) (.union (.range 0x3A 0x40)
        (.union (.range 0x5B 0x60) (.range 0x7B 0x7E))))
  | "space" => some (.union (.range 9 13) (CharSet.single ' '))
  | "upper" => some upper
  | "word" => some (.union digit (.union upper (.union lower (CharSet.single '_'))))
  | "xdigit" => some (.union digit (.union (.range 0x41 0x46) (.range 0x61 0x66)))
  | _ => none

def posix? : List Char → Option (CharSet × List Char)
  | ':' :: cs =>
      let (negated, cs) := match cs with
        | '^' :: rest => (true, rest)
        | _ => (false, cs)
      let name := cs.takeWhile Character.isAsciiLetter
      match cs.drop name.length with
      | ':' :: ']' :: rest =>
          (posixSet? name).map fun set => (if negated then .complement set else set, rest)
      | _ => none
  | _ => none

def setItem? : List Char → Option ((Char ⊕ CharSet) × List Char)
  | [] => none
  | '\\' :: cs =>
      match namedSet? cs with
      | some (set, rest) => some (.inr set, rest)
      | none => (escaped? cs).map fun (c, rest) => (.inl c, rest)
  | c :: cs => some (.inl c, cs)

def itemSet : Char ⊕ CharSet → CharSet
  | .inl c => CharSet.single c
  | .inr set => set

def setRange? (cs : List Char) : Option (CharSet × List Char) :=
  (setItem? cs).bind fun (first, rest) =>
    match rest with
    | '-' :: ']' :: _ => some (itemSet first, rest)
    | '-' :: '-' :: _ => some (itemSet first, rest)
    | '-' :: more =>
        (setItem? more).bind fun (last, rest) =>
          match first, last with
          | .inl a, .inl b => if a ≤ b then some (.range a.toNat b.toNat, rest) else none
          | _, _ => none
    | _ => some (itemSet first, rest)

def setFront (done : List CharSet) : List Char → List CharSet × List Char
  | '-' :: cs => setFront (CharSet.single '-' :: done) cs
  | ']' :: cs => if done.isEmpty then ([CharSet.single ']'], cs) else (done, ']' :: cs)
  | cs => (done, cs)

def combine : Option (Char × CharSet) → CharSet → CharSet
  | none, b => b
  | some ('&', a), b => .inter a b
  | some ('-', a), b => CharSet.difference a b
  | some (_, a), b => CharSet.symmetric a b

mutual

def set? : Nat → Flags → List Char → Option (CharSet × List Char)
  | 0, _, _ => none
  | fuel + 1, f, cs =>
      let (negated, cs) := match cs with
        | '^' :: rest => (true, rest)
        | _ => (false, cs)
      let (front, cs) := setFront [] cs
      (setBody? fuel f none front cs).map fun (set, rest) =>
        let set := if f.folded then .folded set else set
        (if negated then .complement set else set, rest)

def setBody? : Nat → Flags → Option (Char × CharSet) → List CharSet → List Char →
    Option (CharSet × List Char)
  | 0, _, _, _, _ => none
  | _, _, _, _, [] => none
  | _, _, left, done, ']' :: cs => some (combine left (CharSet.unionAll done), cs)
  | fuel + 1, f, left, done, '[' :: cs =>
      match posix? cs with
      | some (set, rest) => setBody? fuel f left (set :: done) rest
      | none => (set? fuel f cs).bind fun (set, rest) => setBody? fuel f left (set :: done) rest
  | fuel + 1, f, left, done, '&' :: '&' :: cs =>
      setBody? fuel f (some ('&', combine left (CharSet.unionAll done))) [] cs
  | fuel + 1, f, left, done, '-' :: '-' :: cs =>
      setBody? fuel f (some ('-', combine left (CharSet.unionAll done))) [] cs
  | fuel + 1, f, left, done, '~' :: '~' :: cs =>
      setBody? fuel f (some ('~', combine left (CharSet.unionAll done))) [] cs
  | fuel + 1, f, left, done, cs =>
      (setRange? cs).bind fun (set, rest) => setBody? fuel f left (set :: done) rest

end

def skipBlanks (cs : List Char) : List Char := cs.dropWhile Character.isBlank

def count? (cs : List Char) : Option (Nat × List Char) :=
  let cs := skipBlanks cs
  let ds := cs.takeWhile isDigit
  if ds.isEmpty then none else some (digitsValue ds, skipBlanks (cs.drop ds.length))

def counts? (cs : List Char) : Option ((Nat × Option Nat) × List Char) :=
  (count? cs).bind fun (least, rest) =>
    match rest with
    | '\x7d' :: rest => some ((least, some least), rest)
    | ',' :: more =>
        match skipBlanks more with
        | '\x7d' :: rest => some ((least, none), rest)
        | more => (count? more).bind fun (most, rest) =>
            match rest with
            | '\x7d' :: rest => if least ≤ most then some ((least, some most), rest) else none
            | _ => none
    | _ => none

def dropLazy : List Char → List Char
  | '?' :: cs => cs
  | cs => cs

def repetition? (r : Regex) : List Char → Option (Regex × List Char)
  | '*' :: cs => some (.star r, dropLazy cs)
  | '+' :: cs => some (.seq r (.star r), dropLazy cs)
  | '?' :: cs => some (.alt r .empty, dropLazy cs)
  | '\x7b' :: cs =>
      (counts? cs).map fun (n, rest) => (.repeated r n.1 n.2, dropLazy rest)
  | _ => none

def isRepetition (c : Char) : Bool := c == '*' || c == '+' || c == '?' || c == '\x7b'

def isNameStart (c : Char) : Bool := c == '_' || Character.isAsciiLetter c

def isNameChar (c : Char) : Bool :=
  isNameStart c || isDigit c || c == '.' || c == '[' || c == ']'

def groupName? (cs : List Char) : Option (List Char) :=
  let name := cs.takeWhile isNameChar
  match name, cs.drop name.length with
  | c :: _, '>' :: rest => if isNameStart c then some rest else none
  | _, _ => none

def sequence : List (Option Regex) → Regex
  | [] => .empty
  | [some r] => r
  | some r :: rest => .seq (sequence rest) r
  | none :: rest => sequence rest

def alternatives : List Regex → Regex
  | [] => .empty
  | [r] => r
  | r :: rest => .alt (alternatives rest) r

def skipComment (cs : List Char) : List Char := cs.dropWhile (· != '\n')

mutual

def body? : Nat → Flags → List Regex → List (Option Regex) → List Char →
    Option (Regex × List Char)
  | 0, _, _, _, _ => none
  | _, _, done, items, [] => some (alternatives (sequence items :: done), [])
  | fuel + 1, f, done, items, c :: cs =>
      if c = ')' then some (alternatives (sequence items :: done), c :: cs)
      else if c = '|' then body? fuel f (sequence items :: done) [] cs
      else if f.spaced && Character.isBlank c then body? fuel f done items cs
      else if f.spaced && c == '#' then body? fuel f done items (skipComment cs)
      else if isRepetition c then
        match items with
        | some r :: rest =>
            (repetition? r (c :: cs)).bind fun (r, cs) => body? fuel f done (some r :: rest) cs
        | _ => none
      else if c = '(' then
        match group? fuel f cs with
        | some (.inl g, cs) => body? fuel g done (none :: items) cs
        | some (.inr r, cs) => body? fuel f done (some r :: items) cs
        | none => none
      else if c = '[' then
        (set? fuel f cs).bind fun (set, cs) => body? fuel f done (some (.one set) :: items) cs
      else if c = '.' then
        body? fuel f done (some (.one (if f.dotAll then .any else CharSet.notNewline)) :: items) cs
      else if c = '\\' then
        match cs.head?.bind escapedAnchor? with
        | some a => body? fuel f done (some (.anchor a) :: items) (cs.drop 1)
        | none =>
            match namedSet? cs with
            | some (set, cs) => body? fuel f done (some (oneOf f set) :: items) cs
            | none =>
                (escaped? cs).bind fun (e, cs) => body? fuel f done (some (literal f e) :: items) cs
      else match anchor? f c with
        | some a => body? fuel f done (some (.anchor a) :: items) cs
        | none => body? fuel f done (some (literal f c) :: items) cs

def group? : Nat → Flags → List Char → Option ((Flags ⊕ Regex) × List Char)
  | 0, _, _ => none
  | fuel + 1, f, cs =>
      match cs with
      | '?' :: 'P' :: '<' :: cs => (groupName? cs).bind (inside? fuel f)
      | '?' :: '<' :: cs => (groupName? cs).bind (inside? fuel f)
      | '?' :: cs =>
          (flags? true [] f cs).bind fun (g, rest) =>
            match rest with
            | ':' :: rest => inside? fuel g rest
            | _ :: rest => if cs.head? == some ')' then none else some (.inl g, rest)
            | [] => none
      | cs => inside? fuel f cs

def inside? : Nat → Flags → List Char → Option ((Flags ⊕ Regex) × List Char)
  | 0, _, _ => none
  | fuel + 1, f, cs =>
      (body? fuel f [] [] cs).bind fun (r, rest) =>
        match rest with
        | ')' :: rest => some (.inr r, rest)
        | _ => none

end

def read? (source : String) : Option Regex :=
  let cs := source.toList
  match body? (4 * cs.length + 4) Flags.plain [] [] cs with
  | some (r, []) => some r
  | _ => none

end Regex

structure Pattern where
  source : String
  regex : Regex
  deriving DecidableEq, Repr

namespace Pattern

def compile? (source : String) : Option Pattern := (Regex.read? source).map (⟨source, ·⟩)

def matchesText (p : Pattern) (text : String) : Bool := p.regex.search text

end Pattern

end CheckedConfig
