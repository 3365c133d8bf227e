import CheckedConfig.Number.Decimal

namespace CheckedConfig

namespace Yaml

structure Cursor where
  rest : List Char
  line : Nat
  column : Nat
  index : Nat

def isBreak (c : Char) : Bool := c == '\n' || c == '\u2028' || c == '\u2029'

def isBlank (c : Char) : Bool := c == ' ' || c == '\t'

def isGap (c : Char) : Bool := isBlank c || isBreak c

def gapFirst : List Char → Bool
  | [] => true
  | c :: _ => isGap c

def unifyBreaks : List Char → List Char
  | [] => []
  | '\r' :: '\n' :: cs => '\n' :: unifyBreaks cs
  | '\r' :: cs => '\n' :: unifyBreaks cs
  | '\u0085' :: cs => '\n' :: unifyBreaks cs
  | c :: cs => c :: unifyBreaks cs

namespace Cursor

def start (cs : List Char) : Cursor := ⟨cs, 0, 0, 0⟩

def next (c : Cursor) : Cursor :=
  match c.rest with
  | [] => c
  | ch :: rest =>
      if isBreak ch then ⟨rest, c.line + 1, 0, c.index + 1⟩
      else ⟨rest, c.line, c.column + 1, c.index + 1⟩

def skip (c : Cursor) (n : Nat) : Cursor :=
  ⟨c.rest.drop n, c.line, c.column + n, c.index + n⟩

def skipWhile (c : Cursor) (p : Char → Bool) : Cursor := c.skip (c.rest.takeWhile p).length

def atMark (c : Cursor) : Bool :=
  c.column == 0 &&
    match c.rest with
    | '-' :: '-' :: '-' :: rest => gapFirst rest
    | '.' :: '.' :: '.' :: rest => gapFirst rest
    | _ => false

end Cursor

structure Between where
  blanks : List Char
  first : Option (List Char)
  breaks : List Char

namespace Between

def none : Between := ⟨[], .none, []⟩

def escaped : Between := ⟨[], some [], []⟩

def add (b : Between) (c : Char) : Between :=
  match b.first with
  | .none => if isBlank c then { b with blanks := c :: b.blanks } else ⟨[], some [c], []⟩
  | some _ => if isBlank c then b else { b with breaks := c :: b.breaks }

def text (b : Between) : List Char :=
  match b.first with
  | .none => b.blanks
  | some ['\n'] => if b.breaks.isEmpty then [' '] else b.breaks
  | some cs => b.breaks ++ cs

def spansLines (b : Between) : Bool := b.first.isSome

end Between

def isFlowMark (c : Char) : Bool :=
  c == ',' || c == '[' || c == ']' || c == '\x7b' || c == '\x7d'

def endsPlain (flow : Bool) : List Char → Bool
  | ':' :: rest => gapFirst rest
  | c :: _ => flow && isFlowMark c
  | [] => true

def badColon (flow : Bool) : List Char → Bool
  | ':' :: c :: _ => flow && (isFlowMark c || c == '?')
  | _ => false

structure Scalar where
  text : String
  after : Cursor
  endsLine : Bool

def finish (done : List Char) (after : Cursor) (endsLine : Bool) : Scalar :=
  ⟨String.ofList done.reverse, after, endsLine⟩

def plain? (flow : Bool) (least : Int) :
    Nat → List Char → Between → Cursor → Option Scalar
  | 0, _, _, _ => none
  | fuel + 1, done, between, c =>
      match c.rest with
      | [] => some (finish done c between.spansLines)
      | ch :: _ =>
          if isGap ch then
            if ch == '\t' && between.spansLines && decide ((c.column : Int) < least) then none
            else plain? flow least fuel done (between.add ch) c.next
          else if between.spansLines && !flow && decide ((c.column : Int) < least) then
            some (finish done c true)
          else if c.atMark then some (finish done c between.spansLines)
          else if ch == '#' && (!between.blanks.isEmpty || between.spansLines) then
            some (finish done c between.spansLines)
          else if badColon flow c.rest then none
          else if endsPlain flow c.rest then some (finish done c between.spansLines)
          else plain? flow least fuel (ch :: (between.text ++ done)) .none c.next

def isValid (n : Nat) : Bool :=
  decide (n < 0xD800) || (decide (0xE000 ≤ n) && decide (n ≤ 0x10FFFF))

def hex? (count : Nat) (cs : List Char) : Option Char :=
  let ds := cs.take count
  if ds.length < count then none
  else (radixValue? 16 ds).bind fun n => if isValid n then some (Char.ofNat n) else none

def escape? : List Char → Option (Char × Nat)
  | '0' :: _ => some ('\x00', 1)
  | 'a' :: _ => some ('\x07', 1)
  | 'b' :: _ => some ('\x08', 1)
  | 't' :: _ => some ('\t', 1)
  | '\t' :: _ => some ('\t', 1)
  | 'n' :: _ => some ('\n', 1)
  | 'v' :: _ => some ('\x0b', 1)
  | 'f' :: _ => some ('\x0c', 1)
  | 'r' :: _ => some ('\r', 1)
  | 'e' :: _ => some ('\x1b', 1)
  | ' ' :: _ => some (' ', 1)
  | '"' :: _ => some ('"', 1)
  | '/' :: _ => some ('/', 1)
  | '\\' :: _ => some ('\\', 1)
  | 'N' :: _ => some ('\u0085', 1)
  | '_' :: _ => some ('\u00a0', 1)
  | 'L' :: _ => some ('\u2028', 1)
  | 'P' :: _ => some ('\u2029', 1)
  | 'x' :: cs => (hex? 2 cs).map (·, 3)
  | 'u' :: cs => (hex? 4 cs).map (·, 5)
  | 'U' :: cs => (hex? 8 cs).map (·, 9)
  | _ => none

def quoted? (quote : Char) : Nat → List Char → Between → Cursor → Option Scalar
  | 0, _, _, _ => none
  | fuel + 1, done, between, c =>
      match c.rest with
      | [] => none
      | ch :: rest =>
          if c.atMark then none
          else if isGap ch then quoted? quote fuel done (between.add ch) c.next
          else
            let done := between.text ++ done
            if ch == quote then
              if quote == '\'' && rest.head? == some '\'' then
                quoted? quote fuel ('\'' :: done) .none (c.skip 2)
              else some (finish done c.next false)
            else if ch == '\\' && quote == '"' then
              match rest with
              | [] => none
              | d :: _ =>
                  if isBreak d then quoted? quote fuel done .escaped c.next.next
                  else (escape? rest).bind fun (e, n) =>
                    quoted? quote fuel (e :: done) .none (c.skip (n + 1))
            else quoted? quote fuel (ch :: done) .none c.next

inductive Chomp where
  | strip
  | clip
  | keep
  deriving DecidableEq, Repr

structure BlockHeader where
  literal : Bool
  chomp : Chomp
  increment : Option Nat

def indicator? (c : Char) : Option Chomp :=
  if c = '+' then some .keep else if c = '-' then some .strip else none

def increment? (c : Char) : Option Nat :=
  if isDigit c && c != '0' then some (digitValue c) else none

def header (literal : Bool) : List Char → BlockHeader × Nat
  | a :: b :: _ =>
      match indicator? a, increment? a with
      | some ch, _ =>
          match increment? b with
          | some n => (⟨literal, ch, some n⟩, 2)
          | none => (⟨literal, ch, none⟩, 1)
      | none, some n =>
          match indicator? b with
          | some ch => (⟨literal, ch, some n⟩, 2)
          | none => (⟨literal, .clip, some n⟩, 1)
      | none, none => (⟨literal, .clip, none⟩, 0)
  | [a] =>
      match indicator? a, increment? a with
      | some ch, _ => (⟨literal, ch, none⟩, 1)
      | none, some n => (⟨literal, .clip, some n⟩, 1)
      | none, none => (⟨literal, .clip, none⟩, 0)
  | [] => (⟨literal, .clip, none⟩, 0)

def skipIndent (indent : Nat) (c : Cursor) : Cursor :=
  let blanks := (c.rest.takeWhile (· == ' ')).length
  c.skip (if indent = 0 then blanks else min blanks (indent - c.column))

def emptyLines? (least : Nat) : Nat → Nat → Nat → List Char → Cursor →
    Option (Nat × List Char × Cursor)
  | 0, _, _, _, _ => none
  | fuel + 1, indent, most, breaks, c =>
      let c := skipIndent indent c
      let most := max most c.column
      let inside := decide (indent = 0) || decide (c.column < indent)
      match c.rest with
      | [] => some (if indent = 0 then max most least else indent, breaks, c)
      | ch :: _ =>
          if ch == '\t' && inside then none
          else if isBreak ch then emptyLines? least fuel indent most (ch :: breaks) c.next
          else some (if indent = 0 then max most least else indent, breaks, c)

def takeLine (c : Cursor) : List Char × List Char × Cursor :=
  let text := c.rest.takeWhile (!isBreak ·)
  let after := c.skip text.length
  (text, after.rest.take 1, after.next)

def foldedBreak (literal : Bool) (lead breaks : List Char) (wasBlank isBlank : Bool) : List Char :=
  if !literal && lead == ['\n'] && !wasBlank && !isBlank then
    if breaks.isEmpty then [' '] else breaks
  else breaks ++ lead

def blockLines? (h : BlockHeader) (indent : Nat) :
    Nat → List Char → List Char → List Char → Bool → Cursor → Option Scalar
  | 0, _, _, _, _, _ => none
  | fuel + 1, done, lead, breaks, wasBlank, c =>
      if c.column = indent ∧ c.rest ≠ [] then
        let startsBlank := (c.rest.head?.map isBlank).getD false
        let done := foldedBreak h.literal lead breaks wasBlank startsBlank ++ done
        let (text, lead, c) := takeLine c
        (emptyLines? indent (c.rest.length + 1) indent 0 [] c).bind fun (_, breaks, c) =>
          blockLines? h indent fuel (text.reverse ++ done) lead breaks startsBlank c
      else
        let ending :=
          match h.chomp with
          | .strip => []
          | .clip => lead
          | .keep => breaks ++ lead
        some (finish (ending ++ done) c true)

def block? (literal : Bool) (parent : Int) (c : Cursor) : Option Scalar :=
  let (h, n) := header literal c.rest
  let c := (c.skip n).skipWhile isBlank
  let c := if c.rest.head? == some '#' then c.skipWhile (!isBreak ·) else c
  match c.rest with
  | ch :: _ =>
      if isBreak ch then body h c.next else none
  | [] => body h c
where
  body (h : BlockHeader) (c : Cursor) : Option Scalar :=
    let indent :=
      match h.increment with
      | some n => parent.toNat + n
      | none => 0
    let least := max (parent + 1).toNat 1
    (emptyLines? least (c.rest.length + 1) indent 0 [] c).bind fun (indent, breaks, c) =>
      blockLines? h indent (c.rest.length + 1) [] [] breaks false c

end Yaml

end CheckedConfig
