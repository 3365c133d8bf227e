import CheckedConfig.Number.Decimal
import CheckedConfig.Text.Category

namespace CheckedConfig

namespace Character

def isBlank (c : Char) : Bool :=
  let n := c.toNat
  (decide (9 ≤ n) && decide (n ≤ 13)) || n == 0x20 || n == 0x85 || n == 0xA0 || n == 0x1680
    || (decide (0x2000 ≤ n) && decide (n ≤ 0x200A)) || n == 0x2028 || n == 0x2029 || n == 0x202F
    || n == 0x205F || n == 0x3000

def isAscii (c : Char) : Bool := decide (c.toNat < 128)

def isAsciiLetter (c : Char) : Bool :=
  (decide ('a' ≤ c) && decide (c ≤ 'z')) || (decide ('A' ≤ c) && decide (c ≤ 'Z'))

def isLetter (c : Char) : Bool :=
  if isAscii c then isAsciiLetter c else Category.covers Category.letters c

def isDecimal (c : Char) : Bool :=
  if isAscii c then isDigit c else Category.covers Category.digits c

def isJoiner (c : Char) : Bool := c == '\u200c' || c == '\u200d'

def enclosed : List (Nat × Nat) :=
  [(0x24B6, 0x24E9), (0x1F130, 0x1F149), (0x1F150, 0x1F169), (0x1F170, 0x1F189)]

def isWord (c : Char) : Bool :=
  if isAscii c then isAsciiLetter c || isDigit c || c == '_'
  else isLetter c || isDecimal c || Category.covers Category.marks c
    || Category.covers Category.connectors c || isJoiner c || Category.covers enclosed c

def hidden : List (Nat × Nat) :=
  [(0x00, 0x1F), (0x7F, 0xA0), (0xAD, 0xAD), (0x300, 0x36F), (0x483, 0x489), (0x591, 0x5BD),
   (0x600, 0x605), (0x61C, 0x61C), (0x64B, 0x65F), (0x6DD, 0x6DD), (0x70F, 0x70F),
   (0x1680, 0x1680), (0x180E, 0x180E), (0x1AB0, 0x1ACE), (0x1DC0, 0x1DFF), (0x2000, 0x200F),
   (0x2028, 0x202F), (0x205F, 0x206F), (0x20D0, 0x20F0), (0x3000, 0x3000), (0xE000, 0xF8FF),
   (0xFE00, 0xFE0F), (0xFE20, 0xFE2F), (0xFEFF, 0xFEFF), (0xFFF0, 0xFFFB), (0xFFFE, 0xFFFF),
   (0xE0000, 0x10FFFF)]

def isHidden (c : Char) : Bool := Category.covers hidden c

def lowerAscii (c : Char) : Char :=
  if decide ('A' ≤ c) && decide (c ≤ 'Z') then Char.ofNat (c.toNat + 32) else c

/-- The other case of a letter of the Latin, Greek and Cyrillic alphabets. -/
def swapCase (c : Char) : Char :=
  let n := c.toNat
  let within (a b : Nat) : Bool := decide (a ≤ n) && decide (n ≤ b)
  if within 0x41 0x5A then Char.ofNat (n + 32)
  else if within 0x61 0x7A then Char.ofNat (n - 32)
  else if within 0xC0 0xDE && n != 0xD7 then Char.ofNat (n + 32)
  else if within 0xE0 0xFE && n != 0xF7 then Char.ofNat (n - 32)
  else if within 0x100 0x12F then Char.ofNat (if n % 2 = 0 then n + 1 else n - 1)
  else if within 0x391 0x3A9 && n != 0x3A2 then Char.ofNat (n + 32)
  else if within 0x3B1 0x3C9 && n != 0x3C2 then Char.ofNat (n - 32)
  else if within 0x410 0x42F then Char.ofNat (n + 32)
  else if within 0x430 0x44F then Char.ofNat (n - 32)
  else if within 0x400 0x40F then Char.ofNat (n + 80)
  else if within 0x450 0x45F then Char.ofNat (n - 80)
  else c

end Character

namespace Text

def trim (cs : List Char) : List Char :=
  ((cs.dropWhile Character.isBlank).reverse.dropWhile Character.isBlank).reverse

def hexDigits (n : Nat) : List Char := Nat.toDigits 16 n

def inspect (c : Char) : List Char :=
  if c = '"' then ['\\', '"']
  else if c = '\\' then ['\\', '\\']
  else if c = '\n' then ['\\', 'n']
  else if c = '\r' then ['\\', 'r']
  else if c = '\t' then ['\\', 't']
  else if c.toNat = 0 then ['\\', '0']
  else if Character.isHidden c then ['\\', 'u', '\x7b'] ++ hexDigits c.toNat ++ ['\x7d']
  else [c]

def inspected (s : String) : String :=
  "\"" ++ String.ofList (s.toList.flatMap inspect) ++ "\""

def joinWith (separator : String) : List String → String
  | [] => ""
  | [s] => s
  | s :: rest => s ++ separator ++ joinWith separator rest

def splitChars (separator : Char) : List Char → List (List Char)
  | [] => [[]]
  | c :: cs =>
      if c = separator then [] :: splitChars separator cs
      else match splitChars separator cs with
        | [] => [[c]]
        | piece :: pieces => (c :: piece) :: pieces

def splitOn (separator : Char) (s : String) : List String :=
  (splitChars separator s.toList).map String.ofList

def startsWith (s : String) (c : Char) : Bool := s.toList.head? == some c

end Text

end CheckedConfig
