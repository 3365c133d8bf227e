import CheckedConfig.Format.Json
import CheckedConfig.Text.Character

namespace CheckedConfig

namespace Json5

def isLineEnd (c : Char) : Bool := c == '\n' || c == '\r' || c == '\u2028' || c == '\u2029'

def isBlank (c : Char) : Bool := (Character.isBlank c && c != '\u0085') || c == '\ufeff'

inductive Gap where
  | blank
  | line
  | block

def skipGap : Gap → List Char → Option (List Char)
  | .blank, '/' :: '*' :: cs => skipGap .block cs
  | .blank, '/' :: '/' :: cs => skipGap .line cs
  | .blank, c :: cs => if isBlank c then skipGap .blank cs else some (c :: cs)
  | .line, c :: cs => if isLineEnd c then skipGap .blank cs else skipGap .line cs
  | .block, '*' :: '/' :: cs => skipGap .blank cs
  | .block, _ :: cs => skipGap .block cs
  | .block, [] => none
  | _, [] => some []

def skip (cs : List Char) : Option (List Char) := skipGap .blank cs

def isHexDigit (c : Char) : Bool := (radixDigit? 16 c).isSome

def whole : List Char → List Char × List Char
  | '0' :: cs => (['0'], cs)
  | cs => (cs.takeWhile isDigit, cs.dropWhile isDigit)

def exponent : List Char → Option Int × List Char
  | [] => (none, [])
  | c :: cs =>
      if c = 'e' ∨ c = 'E' then
        match cs with
        | '-' :: ds => signedDigits c '-' ds fun n => -n
        | '+' :: ds => signedDigits c '+' ds id
        | ds =>
            if (ds.takeWhile isDigit).isEmpty then (none, c :: ds)
            else (some (digitsValue (ds.takeWhile isDigit)), ds.dropWhile isDigit)
      else (none, c :: cs)
where
  signedDigits (c sign : Char) (ds : List Char) (f : Int → Int) : Option Int × List Char :=
    if (ds.takeWhile isDigit).isEmpty then (none, c :: sign :: ds)
    else (some (f (digitsValue (ds.takeWhile isDigit))), ds.dropWhile isDigit)

def signedInt (negative : Bool) (n : Nat) : Int := if negative then -n else n

def integer? (negative : Bool) (ds : List Char) : Option Value :=
  let i := signedInt negative (digitsValue ds)
  if fitsInt64 i then some (.int i) else none

def real? (negative : Bool) (ds part : List Char) (e : Int) : Option Value :=
  (Decimal.mk negative (digitsValue (ds ++ part)) (e - part.length)).toDouble?.map fun d =>
    .number (.real d)

def decimal? (negative : Bool) (cs : List Char) : Option (Value × List Char) :=
  let (ds, rest) := whole cs
  match rest with
  | '.' :: more =>
      let part := more.takeWhile isDigit
      let (e, rest) := exponent (more.dropWhile isDigit)
      if ds.isEmpty && part.isEmpty then none
      else (real? negative ds part (e.getD 0)).map (·, rest)
  | _ =>
      if ds.isEmpty then none
      else match exponent rest with
        | (some e, rest) => (real? negative ds [] e).map (·, rest)
        | (none, rest) => (integer? negative ds).map (·, rest)

def hex? (cs : List Char) : Option (Value × List Char) :=
  let ds := cs.takeWhile isHexDigit
  if ds.isEmpty then none
  else (radixValue? 16 ds).bind fun n =>
    if n < Nat.pow 2 32 then some (.int n, cs.dropWhile isHexDigit) else none

def infinity : List Char := ['I', 'n', 'f', 'i', 'n', 'i', 't', 'y']

def notANumber : List Char := ['N', 'a', 'N']

def unbounded? (cs : List Char) : Option (Value × List Char) :=
  if infinity.isPrefixOf cs then some (.null, cs.drop infinity.length)
  else if notANumber.isPrefixOf cs then some (.null, cs.drop notANumber.length)
  else none

def number? : List Char → Option (Value × List Char)
  | '+' :: cs => decimal? false cs
  | '-' :: cs => unbounded? cs <|> decimal? true cs
  | '0' :: 'x' :: cs => hex? cs
  | '0' :: 'X' :: cs => hex? cs
  | cs => unbounded? cs <|> decimal? false cs

def simpleEscape (c : Char) : Char :=
  if c = 'b' then '\x08'
  else if c = 'f' then '\x0c'
  else if c = 'n' then '\n'
  else if c = 'r' then '\r'
  else if c = 't' then '\t'
  else if c = 'v' then '\x0b'
  else if c = '0' then '\x00'
  else c

def unicode? (cs : List Char) : Option (Char × List Char) :=
  (Json.hex4? cs).bind fun (n, rest) =>
    if Json.isLead n then
      match rest with
      | '\\' :: 'u' :: more =>
          (Json.hex4? more).bind fun (m, rest) =>
            if Json.isTrail m then
              some (Char.ofNat (0x10000 + (n - 0xD800) * 0x400 + (m - 0xDC00)), rest)
            else none
      | _ => none
    else if Json.isTrail n then none
    else some (Char.ofNat n, rest)

def unescape? : List Char → Option (Option Char × List Char)
  | [] => none
  | '\r' :: '\n' :: cs => some (none, cs)
  | 'x' :: a :: b :: cs => (radixValue? 16 [a, b]).map fun n => (some (Char.ofNat n), cs)
  | 'x' :: _ => none
  | 'u' :: cs => (unicode? cs).map fun (c, rest) => (some c, rest)
  | c :: cs =>
      if isLineEnd c then some (none, cs)
      else if isDigit c && c != '0' then none
      else some (some (simpleEscape c), cs)

def stringBody? (quote : Char) : Nat → List Char → List Char → Option (List Char × List Char)
  | 0, _, _ => none
  | _, _, [] => none
  | fuel + 1, done, c :: cs =>
      if c = quote then some (done, cs)
      else if c = '\\' then
        (unescape? cs).bind fun (d, rest) => stringBody? quote fuel (d.toList ++ done) rest
      else if c = '\n' ∨ c = '\r' then none
      else stringBody? quote fuel (c :: done) cs

def string? (quote : Char) (cs : List Char) : Option (String × List Char) :=
  (stringBody? quote (cs.length + 1) [] cs).map fun (done, rest) =>
    (String.ofList done.reverse, rest)

def startsName (c : Char) : Bool := Character.isLetter c || c == '$' || c == '_'

def continuesName (c : Char) : Bool := Character.isWord c || c == '$'

def nameBody? : Nat → List Char → List Char → Option (List Char × List Char)
  | fuel + 1, done, '\\' :: 'u' :: cs =>
      (unicode? cs).bind fun (c, rest) => nameBody? fuel (c :: done) rest
  | fuel + 1, done, c :: cs =>
      if (if done.isEmpty then startsName c else continuesName c) then nameBody? fuel (c :: done) cs
      else some (done, c :: cs)
  | _, done, cs => some (done, cs)

def key? : List Char → Option (String × List Char)
  | '"' :: cs => string? '"' cs
  | '\'' :: cs => string? '\'' cs
  | cs =>
      (nameBody? (cs.length + 1) [] cs).bind fun (done, rest) =>
        if done.isEmpty then none else some (String.ofList done.reverse, rest)

def word? (w : List Char) (v : Value) (cs : List Char) : Option (Value × List Char) :=
  if w.isPrefixOf cs then some (v, cs.drop w.length) else none

mutual

def value? : Nat → List Char → Option (Value × List Char)
  | 0, _ => none
  | fuel + 1, cs =>
      match skip cs with
      | some ('n' :: rest) => word? ['u', 'l', 'l'] .null rest
      | some ('t' :: rest) => word? ['r', 'u', 'e'] (.bool true) rest
      | some ('f' :: rest) => word? ['a', 'l', 's', 'e'] (.bool false) rest
      | some ('"' :: rest) => (string? '"' rest).map fun (s, rest) => (.string s, rest)
      | some ('\'' :: rest) => (string? '\'' rest).map fun (s, rest) => (.string s, rest)
      | some ('[' :: rest) =>
          match skip rest with
          | some (']' :: rest) => some (.array [], rest)
          | _ => (items? fuel [] rest).map fun (vs, rest) => (.array vs, rest)
      | some ('\x7b' :: rest) =>
          match skip rest with
          | some ('\x7d' :: rest) => some (.object [], rest)
          | _ => (fields? fuel [] rest).map fun (fs, rest) => (.object fs, rest)
      | some rest => number? rest
      | none => none

def items? : Nat → List Value → List Char → Option (List Value × List Char)
  | 0, _, _ => none
  | fuel + 1, done, cs =>
      (value? fuel cs).bind fun (v, rest) =>
        match skip rest with
        | some (']' :: rest) => some ((v :: done).reverse, rest)
        | some (',' :: rest) =>
            match skip rest with
            | some (']' :: rest) => some ((v :: done).reverse, rest)
            | some rest => items? fuel (v :: done) rest
            | none => none
        | _ => none

def fields? : Nat → Fields Value → List Char → Option (Fields Value × List Char)
  | 0, _, _ => none
  | fuel + 1, done, cs =>
      ((skip cs).bind key?).bind fun (name, rest) =>
        match skip rest with
        | some (':' :: rest) =>
            (value? fuel rest).bind fun (v, rest) =>
              let done := done.set name v
              match skip rest with
              | some ('\x7d' :: rest) => some (done, rest)
              | some (',' :: rest) =>
                  match skip rest with
                  | some ('\x7d' :: rest) => some (done, rest)
                  | some rest => fields? fuel done rest
                  | none => none
              | _ => none
        | _ => none

end

def parse (s : String) : Option Value :=
  let cs := s.toList
  match value? (2 * cs.length + 2) cs with
  | some (v, rest) => if skip rest == some [] then some v else none
  | none => none

end Json5

end CheckedConfig
