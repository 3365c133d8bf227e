import CheckedConfig.Format.Yaml.Cursor
import CheckedConfig.Text.Character

namespace CheckedConfig

namespace Yaml

inductive Token where
  | directive
  | documentStart
  | documentEnd
  | openSequence
  | openMapping
  | closeBlock
  | openBracket
  | closeBracket
  | openBrace
  | closeBrace
  | comma
  | item
  | key
  | value
  | alias (name : String)
  | anchor (name : String)
  | tag (name : String)
  | scalar (plain : Bool) (text : String)
  deriving DecidableEq, Repr

structure KeyStart where
  required : Bool
  place : Nat
  line : Nat
  column : Nat
  index : Nat

structure Lexer where
  cursor : Cursor
  tokens : Array Token
  indent : Int
  outer : List Int
  keys : List (Option KeyStart)
  mayBegin : Bool

namespace Lexer

def start (cs : List Char) : Lexer := ⟨Cursor.start cs, #[], -1, [], [none], true⟩

def inFlow (l : Lexer) : Bool := decide (1 < l.keys.length)

def push (l : Lexer) (t : Token) : Lexer := { l with tokens := l.tokens.push t }

def skip (l : Lexer) (n : Nat) : Lexer := { l with cursor := l.cursor.skip n }

def column (l : Lexer) : Int := l.cursor.column

def setKey (l : Lexer) (k : Option KeyStart) : Lexer := { l with keys := k :: l.keys.drop 1 }

def dropKey? (l : Lexer) : Option Lexer :=
  match l.keys.head? with
  | some (some k) => if k.required then none else some (l.setKey none)
  | _ => some l

def saveKey? (l : Lexer) : Option Lexer :=
  if l.mayBegin then
    let required := !l.inFlow && l.indent == l.column
    l.dropKey?.map (·.setKey (some ⟨required, l.tokens.size, l.cursor.line, l.cursor.column,
      l.cursor.index⟩))
  else some l

def isStale (c : Cursor) (k : KeyStart) : Bool :=
  decide (k.line < c.line) || decide (k.index + 1024 < c.index)

def freshKeys? (c : Cursor) : List (Option KeyStart) → Option (List (Option KeyStart))
  | [] => some []
  | none :: rest => (freshKeys? c rest).map (none :: ·)
  | some k :: rest =>
      if isStale c k then
        if k.required then none else (freshKeys? c rest).map (none :: ·)
      else (freshKeys? c rest).map (some k :: ·)

def dropStale? (l : Lexer) : Option Lexer :=
  (freshKeys? l.cursor l.keys).map fun keys => { l with keys := keys }

def unroll (column : Int) (l : Lexer) : Lexer :=
  if l.inFlow then l
  else
    let (tokens, indent, outer) := go l.tokens l.indent l.outer
    { l with tokens := tokens, indent := indent, outer := outer }
where
  go (tokens : Array Token) (indent : Int) : List Int → Array Token × Int × List Int
    | [] => (tokens, indent, [])
    | next :: rest =>
        if column < indent then go (tokens.push .closeBlock) next rest
        else (tokens, indent, next :: rest)

def roll (column : Int) (place : Nat) (t : Token) (l : Lexer) : Lexer :=
  if l.inFlow || decide (column ≤ l.indent) then l
  else
    { l with
      tokens := l.tokens.insertIdxIfInBounds place t
      indent := column
      outer := l.indent :: l.outer }

def skipGap : Nat → Lexer → Lexer
  | 0, l => l
  | fuel + 1, l =>
      match l.cursor.rest with
      | [] => l
      | c :: _ =>
          if c == ' ' || (c == '\t' && (l.inFlow || !l.mayBegin)) then skipGap fuel (l.skip 1)
          else if c == '#' then
            skipGap fuel { l with cursor := l.cursor.skipWhile (!isBreak ·) }
          else if isBreak c then
            skipGap fuel
              { l with cursor := l.cursor.next, mayBegin := l.mayBegin || !l.inFlow }
          else l

def openFlow? (t : Token) (l : Lexer) : Option Lexer :=
  l.saveKey?.map fun l =>
    { (l.push t).skip 1 with keys := none :: l.keys, mayBegin := true }

def closeFlow? (t : Token) (l : Lexer) : Option Lexer :=
  l.dropKey?.map fun l =>
    { (l.push t).skip 1 with
      keys := if l.inFlow then l.keys.drop 1 else l.keys
      mayBegin := false }

def comma? (l : Lexer) : Option Lexer :=
  l.dropKey?.map fun l => { (l.push .comma).skip 1 with mayBegin := true }

def item? (l : Lexer) : Option Lexer :=
  if !l.inFlow && !l.mayBegin then none
  else (l.roll l.column l.tokens.size .openSequence).dropKey?.map fun l =>
    { (l.push .item).skip 1 with mayBegin := true }

def key? (l : Lexer) : Option Lexer :=
  if !l.inFlow && !l.mayBegin then none
  else (l.roll l.column l.tokens.size .openMapping).dropKey?.map fun l =>
    { (l.push .key).skip 1 with mayBegin := !l.inFlow }

def value? (l : Lexer) : Option Lexer :=
  match l.keys.head? with
  | some (some k) =>
      let l := { l with tokens := l.tokens.insertIdxIfInBounds k.place .key }
      let l := (l.roll k.column k.place .openMapping).setKey none
      some { (l.push .value).skip 1 with mayBegin := false }
  | _ =>
      if !l.inFlow && !l.mayBegin then none
      else
        let l := l.roll l.column l.tokens.size .openMapping
        some { (l.push .value).skip 1 with mayBegin := !l.inFlow }

def mark? (t : Token) (l : Lexer) : Option Lexer :=
  ((l.unroll (-1)).dropKey?).map fun l => { (l.push t).skip 3 with mayBegin := false }

def isNameChar (c : Char) : Bool :=
  isDigit c || Character.isAsciiLetter c || c == '_' || c == '-'

def mayFollowName (c : Char) : Bool :=
  isGap c || c == '?' || c == ':' || c == ',' || c == ']' || c == '\x7d' || c == '%' || c == '@'
    || c == '\x60'

def named? (t : String → Token) (l : Lexer) : Option Lexer :=
  l.saveKey?.bind fun l =>
    let name := (l.cursor.rest.drop 1).takeWhile isNameChar
    let l := { l.skip (name.length + 1) with mayBegin := false }
    if name.isEmpty || !(l.cursor.rest.head?.map mayFollowName).getD true then none
    else some (l.push (t (String.ofList name)))

def isUriChar (c : Char) : Bool :=
  isNameChar c || [';', '/', '?', ':', '@', '&', '=', '+', '$', '.', '!', '~', '*', '\'', '(',
    ')', '%'].contains c

def isVerbatimChar (c : Char) : Bool := isUriChar c || c == ',' || c == '[' || c == ']'

def coreTag : String := "tag:yaml.org,2002:"

/-- A tag and how many characters spell it: in full between angles, with the core's handle `!!`,
or as it stands. Other handles are not known. -/
def readTag? : List Char → Option (String × Nat)
  | '!' :: '<' :: cs =>
      let uri := cs.takeWhile isVerbatimChar
      match cs.drop uri.length with
      | '>' :: _ => if uri.isEmpty then none else some (String.ofList uri, uri.length + 3)
      | _ => none
  | '!' :: '!' :: cs =>
      let uri := cs.takeWhile isUriChar
      if uri.isEmpty then none else some (coreTag ++ String.ofList uri, uri.length + 2)
  | '!' :: cs =>
      let uri := cs.takeWhile isUriChar
      match (uri.dropWhile isNameChar).head? with
      | some '!' => none
      | _ => some ("!" ++ String.ofList uri, uri.length + 1)
  | _ => none

def tag? (l : Lexer) : Option Lexer :=
  l.saveKey?.bind fun l =>
    (readTag? l.cursor.rest).bind fun (name, n) =>
      let l := { l.skip n with mayBegin := false }
      if gapFirst l.cursor.rest || (l.inFlow && l.cursor.rest.head? == some ',') then
        some (l.push (.tag name))
      else none

def block? (literal : Bool) (l : Lexer) : Option Lexer :=
  l.dropKey?.bind fun l =>
    (Yaml.block? literal l.indent (l.cursor.skip 1)).map fun s =>
      { l.push (.scalar false s.text) with cursor := s.after, mayBegin := true }

def quoted? (quote : Char) (l : Lexer) : Option Lexer :=
  l.saveKey?.bind fun l =>
    (Yaml.quoted? quote (l.cursor.rest.length + 1) [] .none (l.cursor.skip 1)).map fun s =>
      { l.push (.scalar false s.text) with cursor := s.after, mayBegin := false }

def plain? (l : Lexer) : Option Lexer :=
  l.saveKey?.bind fun l =>
    (Yaml.plain? l.inFlow (l.indent + 1) (l.cursor.rest.length + 1) [] .none l.cursor).map fun s =>
      { l.push (.scalar true s.text) with cursor := s.after, mayBegin := s.endsLine }

def directive? (l : Lexer) : Option Lexer :=
  ((l.unroll (-1)).dropKey?).bind fun l =>
    let line := l.cursor.rest.takeWhile (!isBreak ·)
    let words := ((Text.splitChars ' ' (line.takeWhile (· != '#'))).filter (!·.isEmpty)).map
      String.ofList
    if words == ["%YAML", "1.1"] || words == ["%YAML", "1.2"] then
      some { (l.push .directive).skip line.length with mayBegin := false }
    else none

def startsPlain (flow : Bool) : List Char → Bool
  | [] => false
  | '-' :: rest => !(rest.head?.map isBlank).getD false
  | c :: rest =>
      if c == '?' || c == ':' then !flow && !gapFirst rest
      else !(isGap c || isFlowMark c || ['#', '&', '*', '!', '|', '>', '\'', '"', '%', '@',
        '\x60'].contains c)

def token? (l : Lexer) : Option Lexer :=
  let flow := l.inFlow
  if l.cursor.column == 0 && l.cursor.rest.head? == some '%' then l.directive?
  else if l.cursor.atMark then
    l.mark? (if l.cursor.rest.head? == some '-' then .documentStart else .documentEnd)
  else match l.cursor.rest with
    | '[' :: _ => l.openFlow? .openBracket
    | '\x7b' :: _ => l.openFlow? .openBrace
    | ']' :: _ => l.closeFlow? .closeBracket
    | '\x7d' :: _ => l.closeFlow? .closeBrace
    | ',' :: _ => l.comma?
    | '*' :: _ => l.named? .alias
    | '&' :: _ => l.named? .anchor
    | '!' :: _ => l.tag?
    | '\'' :: _ => l.quoted? '\''
    | '"' :: _ => l.quoted? '"'
    | c :: rest =>
        if c == '-' && gapFirst rest then l.item?
        else if c == '?' && (flow || gapFirst rest) then l.key?
        else if c == ':' && (flow || gapFirst rest) then l.value?
        else if c == '|' && !flow then l.block? true
        else if c == '>' && !flow then l.block? false
        else if startsPlain flow l.cursor.rest then l.plain?
        else none
    | [] => none

def tokensFrom? : Nat → Lexer → Option (List Token)
  | 0, _ => none
  | fuel + 1, l =>
      (skipGap (l.cursor.rest.length + 1) l).dropStale?.bind fun l =>
        let l := l.unroll l.column
        if l.cursor.rest.isEmpty then (l.unroll (-1)).dropKey?.map (·.tokens.toList)
        else l.token?.bind (tokensFrom? fuel)

end Lexer

def isPrintable (c : Char) : Bool :=
  let n := c.toNat
  n == 0x09 || n == 0x0A || n == 0x0D || (decide (0x20 ≤ n) && decide (n ≤ 0x7E)) || n == 0x85
    || (decide (0xA0 ≤ n) && n != 0xFFFE && n != 0xFFFF)

def unmarked : List Char → List Char
  | '\ufeff' :: cs => cs
  | cs => cs

def tokens? (s : String) : Option (List Token) :=
  let cs := unmarked s.toList
  if cs.all isPrintable then
    let cs := unifyBreaks cs
    Lexer.tokensFrom? (cs.length + 2) (Lexer.start cs)
  else none

end Yaml

end CheckedConfig
