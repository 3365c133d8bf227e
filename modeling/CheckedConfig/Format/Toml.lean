import CheckedConfig.Text.Character
import CheckedConfig.Value

namespace CheckedConfig

namespace Toml

def isBlank (c : Char) : Bool := c == ' ' || c == '\t'

def skipBlanks (cs : List Char) : List Char := cs.dropWhile isBlank

def isControl (c : Char) : Bool := decide (c.toNat < 32) || c.toNat == 127

def isText (c : Char) : Bool := !isControl c || c == '\t'

def endLine? (cs : List Char) : Option (List Char) :=
  let cs := skipBlanks cs
  let cs := if cs.head? == some '#' then cs.dropWhile isText else cs
  match cs with
  | [] => some []
  | '\n' :: rest => some rest
  | '\r' :: '\n' :: rest => some rest
  | _ => none

def skipLines : Nat → List Char → List Char
  | 0, cs => cs
  | fuel + 1, cs =>
      match skipBlanks cs with
      | '#' :: rest => skipLines fuel (rest.dropWhile isText)
      | '\n' :: rest => skipLines fuel rest
      | '\r' :: '\n' :: rest => skipLines fuel rest
      | rest => rest

def codePoint? (count : Nat) (cs : List Char) : Option (Char × List Char) :=
  let ds := cs.take count
  if ds.length < count then none
  else (radixValue? 16 ds).bind fun n =>
    if n < 0xD800 ∨ 0xE000 ≤ n ∧ n ≤ 0x10FFFF then some (Char.ofNat n, cs.drop count) else none

def escape? : List Char → Option (Char × List Char)
  | 'b' :: cs => some ('\x08', cs)
  | 't' :: cs => some ('\t', cs)
  | 'n' :: cs => some ('\n', cs)
  | 'f' :: cs => some ('\x0c', cs)
  | 'r' :: cs => some ('\r', cs)
  | '"' :: cs => some ('"', cs)
  | '\\' :: cs => some ('\\', cs)
  | 'u' :: cs => codePoint? 4 cs
  | 'U' :: cs => codePoint? 8 cs
  | _ => none

def line? (quote : Char) : Nat → List Char → List Char → Option (List Char × List Char)
  | 0, _, _ => none
  | _, _, [] => none
  | fuel + 1, done, c :: cs =>
      if c = quote then some (done, cs)
      else if c = '\\' ∧ quote = '"' then
        (escape? cs).bind fun (d, rest) => line? quote fuel (d :: done) rest
      else if isText c then line? quote fuel (c :: done) cs
      else none

def afterEscapedBreak? (cs : List Char) : Option (List Char) :=
  match skipBlanks cs with
  | '\n' :: rest => some (rest.dropWhile fun c => isBlank c || c == '\n' || c == '\r')
  | '\r' :: '\n' :: rest => some (rest.dropWhile fun c => isBlank c || c == '\n' || c == '\r')
  | _ => none

def lines? (quote : Char) : Nat → List Char → List Char → Option (List Char × List Char)
  | 0, _, _ => none
  | _, _, [] => none
  | fuel + 1, done, c :: cs =>
      let run := ((c :: cs).takeWhile (· == quote)).length
      if 3 ≤ run then
        if run ≤ 5 then some (List.replicate (run - 3) quote ++ done, (c :: cs).drop run) else none
      else if c = '\\' ∧ quote = '"' then
        match afterEscapedBreak? cs with
        | some rest => lines? quote fuel done rest
        | none => (escape? cs).bind fun (d, rest) => lines? quote fuel (d :: done) rest
      else if isText c || c == '\n' then lines? quote fuel (c :: done) cs
      else if c = '\r' ∧ cs.head? = some '\n' then lines? quote fuel (c :: done) cs
      else none

def afterOpening : List Char → List Char
  | '\n' :: cs => cs
  | '\r' :: '\n' :: cs => cs
  | cs => cs

def ofReversed (r : List Char × List Char) : String × List Char :=
  (String.ofList r.1.reverse, r.2)

def string? : List Char → Option (String × List Char)
  | '"' :: '"' :: '"' :: cs => (lines? '"' (cs.length + 1) [] (afterOpening cs)).map ofReversed
  | '\'' :: '\'' :: '\'' :: cs => (lines? '\'' (cs.length + 1) [] (afterOpening cs)).map ofReversed
  | '"' :: cs => (line? '"' (cs.length + 1) [] cs).map ofReversed
  | '\'' :: cs => (line? '\'' (cs.length + 1) [] cs).map ofReversed
  | _ => none

def isKeyChar (c : Char) : Bool :=
  isDigit c || Character.isAsciiLetter c || c == '_' || c == '-'

def simpleKey? : List Char → Option (String × List Char)
  | '"' :: cs => (line? '"' (cs.length + 1) [] cs).map ofReversed
  | '\'' :: cs => (line? '\'' (cs.length + 1) [] cs).map ofReversed
  | cs =>
      let key := cs.takeWhile isKeyChar
      if key.isEmpty then none else some (String.ofList key, cs.dropWhile isKeyChar)

def keys? : Nat → List Char → Option (List String × List Char)
  | 0, _ => none
  | fuel + 1, cs =>
      (simpleKey? (skipBlanks cs)).bind fun (key, rest) =>
        match skipBlanks rest with
        | '.' :: rest => (keys? fuel rest).map fun (more, rest) => (key :: more, rest)
        | rest => some ([key], rest)

def ungrouped? (isDigit : Char → Bool) (cs : List Char) : Option (List Char) :=
  let groups := Text.splitChars '_' cs
  if groups.all (fun g => !g.isEmpty && g.all isDigit) then some groups.flatten else none

def isNumberChar (c : Char) : Bool :=
  isDigit c || Character.isAsciiLetter c || c == '_' || c == '.' || c == '+' || c == '-'

def signed (negative : Bool) (n : Nat) : Int := if negative then -n else n

def inRadix? (radix : Nat) (cs : List Char) : Option Value :=
  (ungrouped? (fun c => (radixDigit? radix c).isSome) cs).bind fun ds =>
    (radixValue? radix ds).bind fun n => if fitsInt64 n then some (.int n) else none

def isPadded : List Char → Bool
  | '0' :: _ :: _ => true
  | _ => false

def integer? (negative : Bool) (cs : List Char) : Option Value :=
  (ungrouped? isDigit cs).bind fun ds =>
    let i := signed negative (digitsValue ds)
    if !isPadded ds && fitsInt64 i then some (.int i) else none

def exponentOf? : List Char → Option Int
  | [] => some 0
  | '+' :: ds => (ungrouped? isDigit ds).map fun ds => (digitsValue ds : Int)
  | '-' :: ds => (ungrouped? isDigit ds).map fun ds => -(digitsValue ds : Int)
  | ds => (ungrouped? isDigit ds).map fun ds => (digitsValue ds : Int)

def real? (negative : Bool) (cs : List Char) : Option Value :=
  let isExponent (c : Char) : Bool := c == 'e' || c == 'E'
  let mantissa := cs.takeWhile (!isExponent ·)
  let whole := mantissa.takeWhile (· != '.')
  let fraction := mantissa.drop (whole.length + 1)
  let power := cs.drop (mantissa.length + 1)
  if mantissa.length = cs.length ∧ whole.length = mantissa.length then none
  else if mantissa.length < cs.length ∧ power = [] then none
  else
    (ungrouped? isDigit whole).bind fun ds =>
      if isPadded ds then none
      else
        (if whole.length = mantissa.length then some [] else ungrouped? isDigit fraction).bind
          fun part =>
            (exponentOf? power).bind fun e =>
              (Decimal.mk negative (digitsValue (ds ++ part)) (e - part.length)).toDouble?.map
                fun d => .number (.real d)

def number? (cs : List Char) : Option Value :=
  match cs with
  | '0' :: 'x' :: ds => inRadix? 16 ds
  | '0' :: 'o' :: ds => inRadix? 8 ds
  | '0' :: 'b' :: ds => inRadix? 2 ds
  | '+' :: ds => integer? false ds <|> real? false ds
  | '-' :: ds => integer? true ds <|> real? true ds
  | ds => integer? false ds <|> real? false ds

def define? : List String → Value → Fields Value → Option (Fields Value)
  | [], _, _ => none
  | [key], v, fs => if fs.has key then none else some (fs.set key v)
  | key :: k :: more, v, fs =>
      match fs.get? key with
      | none => (define? (k :: more) v []).map fun gs => fs.set key (.object gs)
      | some (.object gs) => (define? (k :: more) v gs).map fun gs => fs.set key (.object gs)
      | some _ => none

mutual

def value? : Nat → List Char → Option (Value × List Char)
  | 0, _ => none
  | fuel + 1, cs =>
      match cs with
      | '"' :: _ => (string? cs).map fun (s, rest) => (.string s, rest)
      | '\'' :: _ => (string? cs).map fun (s, rest) => (.string s, rest)
      | '[' :: rest => (items? fuel [] rest).map fun (vs, rest) => (.array vs, rest)
      | '\x7b' :: rest =>
          match skipBlanks rest with
          | '\x7d' :: rest => some (.object [], rest)
          | rest => (inline? fuel [] rest).map fun (fs, rest) => (.object fs, rest)
      | cs =>
          let word := cs.takeWhile isNumberChar
          let rest := cs.dropWhile isNumberChar
          if word = ['t', 'r', 'u', 'e'] then some (.bool true, rest)
          else if word = ['f', 'a', 'l', 's', 'e'] then some (.bool false, rest)
          else (number? word).map (·, rest)

def items? : Nat → List Value → List Char → Option (List Value × List Char)
  | 0, _, _ => none
  | fuel + 1, done, cs =>
      match skipLines cs.length cs with
      | ']' :: rest => some (done.reverse, rest)
      | cs =>
          (value? fuel cs).bind fun (v, rest) =>
            match skipLines rest.length rest with
            | ',' :: rest => items? fuel (v :: done) rest
            | ']' :: rest => some ((v :: done).reverse, rest)
            | _ => none

def inline? : Nat → Fields Value → List Char → Option (Fields Value × List Char)
  | 0, _, _ => none
  | fuel + 1, done, cs =>
      (keys? cs.length cs).bind fun (keys, rest) =>
        match rest with
        | '=' :: rest =>
            (value? fuel (skipBlanks rest)).bind fun (v, rest) =>
              (define? keys v done).bind fun done =>
                match skipBlanks rest with
                | ',' :: rest => inline? fuel done rest
                | '\x7d' :: rest => some (done, rest)
                | _ => none
        | _ => none

end

def change? : List String → (Fields Value → Option (Fields Value)) → Fields Value →
    Option (Fields Value)
  | [], f, fs => f fs
  | key :: more, f, fs =>
      match fs.get? key with
      | none => (change? more f []).map fun gs => fs.set key (.object gs)
      | some (.object gs) => (change? more f gs).map fun gs => fs.set key (.object gs)
      | some (.array vs) =>
          match vs.getLast? with
          | some (.object gs) =>
              (change? more f gs).map fun gs => fs.set key (.array (vs.dropLast ++ [.object gs]))
          | _ => none
      | some _ => none

def append? (key : String) (fs : Fields Value) : Option (Fields Value) :=
  match fs.get? key with
  | none => some (fs.set key (.array [.object []]))
  | some (.array vs) =>
      if vs.all Value.isObject then some (fs.set key (.array (vs ++ [.object []]))) else none
  | some _ => none

structure State where
  root : Fields Value
  table : List String
  opened : List (List String)

def openTable? (s : State) (keys : List String) : Option State :=
  if s.opened.contains keys then none
  else (change? keys some s.root).map fun root => ⟨root, keys, keys :: s.opened⟩

def openItem? (s : State) (keys : List String) : Option State :=
  if s.opened.contains keys then none
  else (change? keys.dropLast (append? (keys.getLast?.getD "")) s.root).map fun root =>
    ⟨root, keys, s.opened.filter fun k => !keys.isPrefixOf k⟩

def expression? (s : State) (cs : List Char) : Option (State × List Char) :=
  match cs with
  | '[' :: '[' :: rest =>
      (keys? rest.length rest).bind fun (keys, rest) =>
        match rest with
        | ']' :: ']' :: rest => (openItem? s keys).map (·, rest)
        | _ => none
  | '[' :: rest =>
      (keys? rest.length rest).bind fun (keys, rest) =>
        match rest with
        | ']' :: rest => (openTable? s keys).map (·, rest)
        | _ => none
  | cs =>
      (keys? cs.length cs).bind fun (keys, rest) =>
        match rest with
        | '=' :: rest =>
            (value? (2 * rest.length + 2) (skipBlanks rest)).bind fun (v, rest) =>
              (change? s.table (define? keys v) s.root).map fun root =>
                ({ s with root := root }, rest)
        | _ => none

def linesFrom? : Nat → State → List Char → Option State
  | 0, _, _ => none
  | fuel + 1, s, cs =>
      match skipLines cs.length cs with
      | [] => some s
      | cs =>
          (expression? s cs).bind fun (s, rest) =>
            (endLine? rest).bind (linesFrom? fuel s)

def parse (s : String) : Option Value :=
  let cs := s.toList
  (linesFrom? (cs.length + 1) ⟨[], [], []⟩ cs).map fun s => .object s.root

def longestRun (c : Char) (cs : List Char) : Nat := go 0 0 cs
where
  go (run most : Nat) : List Char → Nat
    | [] => max run most
    | d :: ds => if d = c then go (run + 1) most ds else go 0 (max run most) ds

def hexDigit (n : Nat) : Char := (Nat.digitChar (n % 16)).toUpper

def escape (multiline : Bool) (c : Char) : List Char :=
  if c = '\\' then ['\\', '\\']
  else if c = '\x08' then ['\\', 'b']
  else if c = '\t' then ['\\', 't']
  else if c = '\n' then (if multiline then ['\n'] else ['\\', 'n'])
  else if c = '\x0c' then ['\\', 'f']
  else if c = '\r' then ['\\', 'r']
  else if isControl c then ['\\', 'u', '0', '0', hexDigit (c.toNat / 16), hexDigit c.toNat]
  else [c]

def escapeAll (multiline : Bool) : Nat → List Char → List Char
  | _, [] => []
  | run, c :: cs =>
      if c = '"' then
        if (if multiline then 2 else 0) ≤ run then '\\' :: '"' :: escapeAll multiline 0 cs
        else '"' :: escapeAll multiline (run + 1) cs
      else escape multiline c ++ escapeAll multiline 0 cs

def quote (s : String) : String :=
  let cs := s.toList
  let breaks := cs.contains '\n'
  let codes := cs.any fun c => isControl c && c != '\t' && c != '\n'
  let backslash := cs.contains '\\'
  let doubles := longestRun '"' cs
  let singles := longestRun '\'' cs
  let opening := if breaks then "\n" else ""
  if !codes && !backslash && !breaks && doubles = 0 then basic cs
  else if !codes && !breaks && singles = 0 then "'" ++ s ++ "'"
  else if !codes && !backslash && doubles ≤ 2 then basicLines opening cs
  else if !codes && singles ≤ 2 then "'''" ++ opening ++ s ++ "'''"
  else if breaks then basicLines opening cs
  else basic cs
where
  basic (cs : List Char) : String := "\"" ++ String.ofList (escapeAll false 0 cs) ++ "\""
  basicLines (opening : String) (cs : List Char) : String :=
    "\"\"\"" ++ opening ++ String.ofList (escapeAll true 0 cs) ++ "\"\"\""

def list : List String → String
  | [] => "[]"
  | [s] => "[" ++ quote s ++ "]"
  | ss => "[" ++ String.join (ss.map fun s => "\n    " ++ quote s ++ ",") ++ "\n]"

def flag (b : Bool) : String := if b then "true" else "false"

end Toml

end CheckedConfig
