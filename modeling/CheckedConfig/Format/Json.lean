import CheckedConfig.Value

namespace CheckedConfig

namespace Json

def hexDigit (n : Nat) : Char := (Nat.digitChar (n % 16))

def escape (c : Char) : List Char :=
  if c = '"' then ['\\', '"']
  else if c = '\\' then ['\\', '\\']
  else if c = '\n' then ['\\', 'n']
  else if c = '\r' then ['\\', 'r']
  else if c = '\t' then ['\\', 't']
  else if c = '\x08' then ['\\', 'b']
  else if c = '\x0c' then ['\\', 'f']
  else if c.toNat < 32 then
    ['\\', 'u', '0', '0', hexDigit (c.toNat / 16), hexDigit c.toNat]
  else [c]

def quote (s : String) : String :=
  "\"" ++ String.ofList (s.toList.flatMap escape) ++ "\""

def numberText : Number → String
  | .int i => toString i
  | .real d => d.write Double.documentLayout

mutual

def text : Value → String
  | .null => "null"
  | .bool true => "true"
  | .bool false => "false"
  | .number n => numberText n
  | .string s => quote s
  | .array items => "[" ++ textItems items ++ "]"
  | .object fields => "\x7b" ++ textFields fields ++ "\x7d"

def textItems : List Value → String
  | [] => ""
  | [v] => text v
  | v :: rest => text v ++ "," ++ textItems rest

def textFields : List (String × Value) → String
  | [] => ""
  | [(name, v)] => quote name ++ ":" ++ text v
  | (name, v) :: rest => quote name ++ ":" ++ text v ++ "," ++ textFields rest

end

def newline (depth : Nat) : String := "\n" ++ String.ofList (List.replicate (2 * depth) ' ')

mutual

def indented (depth : Nat) : Value → String
  | .array (v :: rest) =>
      "[" ++ newline (depth + 1) ++ indented (depth + 1) v ++ indentedItems (depth + 1) rest
        ++ newline depth ++ "]"
  | .object ((name, v) :: rest) =>
      "\x7b" ++ newline (depth + 1) ++ quote name ++ ": " ++ indented (depth + 1) v
        ++ indentedFields (depth + 1) rest ++ newline depth ++ "\x7d"
  | .array [] => "[]"
  | .object [] => "\x7b\x7d"
  | .null => "null"
  | .bool true => "true"
  | .bool false => "false"
  | .number n => numberText n
  | .string s => quote s

def indentedItems (depth : Nat) : List Value → String
  | [] => ""
  | v :: rest => "," ++ newline depth ++ indented depth v ++ indentedItems depth rest

def indentedFields (depth : Nat) : List (String × Value) → String
  | [] => ""
  | (name, v) :: rest =>
      "," ++ newline depth ++ quote name ++ ": " ++ indented depth v ++ indentedFields depth rest

end

def pretty (v : Value) : String := indented 0 v

def absorb (n : Nat) : List Char → Nat × List Char
  | [] => (n, [])
  | c :: cs =>
      if 10 * n + digitValue c < Nat.pow 2 64 then absorb (10 * n + digitValue c) cs else (n, c :: cs)

def signed (negative : Bool) (d : Double) : Double := if negative then d.neg else d

def real? (negative : Bool) (n : Nat) (exponent : Int) : Option Number :=
  (Decimal.scale? (Double.ofNat n) exponent).map fun d => .real (signed negative d)

def whole? (negative : Bool) (ds : List Char) : Option Number :=
  match absorb 0 ds with
  | (n, []) =>
      if !negative then some (.int n)
      else if n = 0 ∨ Nat.pow 2 63 < n then some (.real (Double.ofNat n).neg)
      else some (.int (-n))
  | (n, left) => real? negative n left.length

def fraction? (negative : Bool) (ds part : List Char) (exponent : Int) : Option Number :=
  let (n, left) := absorb 0 ds
  let (n, skipped) := absorb n part
  real? negative n (left.length - (part.length - skipped.length : Nat) + exponent)

def number? (negative : Bool) (cs : List Char) : Option (Number × List Char) :=
  let ds := cs.takeWhile isDigit
  let rest := cs.dropWhile isDigit
  if ds.isEmpty || (ds.head? == some '0' && ds.length != 1) then none
  else
    match rest with
    | '.' :: more =>
        let part := more.takeWhile isDigit
        let rest := more.dropWhile isDigit
        if part.isEmpty then none
        else (exponent? rest).bind fun (e, rest) =>
          (fraction? negative ds part (e.getD 0)).map (·, rest)
    | _ => (exponent? rest).bind fun (e, rest) =>
        match e with
        | none => (whole? negative ds).map (·, rest)
        | some e => (fraction? negative ds [] e).map (·, rest)
where
  exponent? : List Char → Option (Option Int × List Char)
    | [] => some (none, [])
    | c :: cs =>
        if c = 'e' ∨ c = 'E' then
          match cs with
          | '-' :: cs => (digits? cs).map fun (n, rest) => (some (-(n : Int)), rest)
          | '+' :: cs => (digits? cs).map fun (n, rest) => (some (n : Int), rest)
          | cs => (digits? cs).map fun (n, rest) => (some (n : Int), rest)
        else some (none, c :: cs)
  digits? (cs : List Char) : Option (Nat × List Char) :=
    let ds := cs.takeWhile isDigit
    if ds.isEmpty then none else some (digitsValue ds, cs.dropWhile isDigit)

def hex4? : List Char → Option (Nat × List Char)
  | a :: b :: c :: d :: rest => (radixValue? 16 [a, b, c, d]).map (·, rest)
  | _ => none

def isLead (n : Nat) : Bool := decide (0xD800 ≤ n) && decide (n < 0xDC00)

def isTrail (n : Nat) : Bool := decide (0xDC00 ≤ n) && decide (n < 0xE000)

def unescape? : List Char → Option (Char × List Char)
  | '"' :: cs => some ('"', cs)
  | '\\' :: cs => some ('\\', cs)
  | '/' :: cs => some ('/', cs)
  | 'b' :: cs => some ('\x08', cs)
  | 'f' :: cs => some ('\x0c', cs)
  | 'n' :: cs => some ('\n', cs)
  | 'r' :: cs => some ('\r', cs)
  | 't' :: cs => some ('\t', cs)
  | 'u' :: cs =>
      (hex4? cs).bind fun (n, rest) =>
        if isLead n then
          match rest with
          | '\\' :: 'u' :: more =>
              (hex4? more).bind fun (m, rest) =>
                if isTrail m then
                  some (Char.ofNat (0x10000 + (n - 0xD800) * 0x400 + (m - 0xDC00)), rest)
                else none
          | _ => none
        else if isTrail n then none
        else some (Char.ofNat n, rest)
  | _ => none

def stringBody? : Nat → List Char → List Char → Option (List Char × List Char)
  | 0, _, _ => none
  | _, _, [] => none
  | _, done, '"' :: cs => some (done, cs)
  | fuel + 1, done, '\\' :: cs =>
      (unescape? cs).bind fun (c, rest) => stringBody? fuel (c :: done) rest
  | fuel + 1, done, c :: cs =>
      if c.toNat < 32 then none else stringBody? fuel (c :: done) cs

def string? (cs : List Char) : Option (String × List Char) :=
  (stringBody? (cs.length + 1) [] cs).map fun (done, rest) => (String.ofList done.reverse, rest)

def isBlank (c : Char) : Bool := c == ' ' || c == '\n' || c == '\t' || c == '\r'

def skip (cs : List Char) : List Char := cs.dropWhile isBlank

def word? (w : List Char) (v : Value) (cs : List Char) : Option (Value × List Char) :=
  if w.isPrefixOf cs then some (v, cs.drop w.length) else none

mutual

def value? : Nat → Nat → List Char → Option (Value × List Char)
  | 0, _, _ => none
  | fuel + 1, depth, cs =>
      match skip cs with
      | 'n' :: rest => word? ['u', 'l', 'l'] .null rest
      | 't' :: rest => word? ['r', 'u', 'e'] (.bool true) rest
      | 'f' :: rest => word? ['a', 'l', 's', 'e'] (.bool false) rest
      | '"' :: rest => (string? rest).map fun (s, rest) => (.string s, rest)
      | '-' :: rest => (number? true rest).map fun (n, rest) => (.number n, rest)
      | '[' :: rest =>
          if depth ≤ 1 then none
          else match skip rest with
            | ']' :: rest => some (.array [], rest)
            | _ => (items? fuel (depth - 1) [] rest).map fun (vs, rest) => (.array vs, rest)
      | '\x7b' :: rest =>
          if depth ≤ 1 then none
          else match skip rest with
            | '\x7d' :: rest => some (.object [], rest)
            | _ => (fields? fuel (depth - 1) [] rest).map fun (fs, rest) => (.object fs, rest)
      | rest => (number? false rest).map fun (n, rest) => (.number n, rest)

def items? : Nat → Nat → List Value → List Char → Option (List Value × List Char)
  | 0, _, _, _ => none
  | fuel + 1, depth, done, cs =>
      (value? fuel depth cs).bind fun (v, rest) =>
        match skip rest with
        | ',' :: rest => items? fuel depth (v :: done) rest
        | ']' :: rest => some ((v :: done).reverse, rest)
        | _ => none

def fields? : Nat → Nat → Fields Value → List Char → Option (Fields Value × List Char)
  | 0, _, _, _ => none
  | fuel + 1, depth, done, cs =>
      match skip cs with
      | '"' :: rest =>
          (string? rest).bind fun (name, rest) =>
            match skip rest with
            | ':' :: rest =>
                (value? fuel depth rest).bind fun (v, rest) =>
                  let done := done.set name v
                  match skip rest with
                  | ',' :: rest => fields? fuel depth done rest
                  | '\x7d' :: rest => some (done, rest)
                  | _ => none
            | _ => none
      | _ => none

end

def depthLimit : Nat := 128

def parse (s : String) : Option Value :=
  let cs := s.toList
  match value? (2 * cs.length + 2) depthLimit cs with
  | some (v, rest) => if (skip rest).isEmpty then some v else none
  | none => none

end Json

end CheckedConfig
