import CheckedConfig.Text.Character

namespace CheckedConfig

inductive CharSet where
  | none
  | any
  | range (low high : Nat)
  | letter
  | decimal
  | word
  | blank
  | union (a b : CharSet)
  | inter (a b : CharSet)
  | complement (a : CharSet)
  | folded (a : CharSet)
  deriving DecidableEq, Repr

namespace CharSet

def mem (c : Char) : CharSet → Bool
  | .none => false
  | .any => true
  | .range low high => decide (low ≤ c.toNat) && decide (c.toNat ≤ high)
  | .letter => Character.isLetter c
  | .decimal => Character.isDecimal c
  | .word => Character.isWord c
  | .blank => Character.isBlank c
  | .union a b => a.mem c || b.mem c
  | .inter a b => a.mem c && b.mem c
  | .complement a => !a.mem c
  | .folded a => a.mem c || a.mem (Character.swapCase c)

def single (c : Char) : CharSet := .range c.toNat c.toNat

def difference (a b : CharSet) : CharSet := .inter a (.complement b)

def symmetric (a b : CharSet) : CharSet := .union (difference a b) (difference b a)

def notNewline : CharSet := .complement (single '\n')

def unionAll : List CharSet → CharSet
  | [] => .none
  | [a] => a
  | a :: rest => .union a (unionAll rest)

end CharSet

inductive Anchor where
  | start
  | finish
  | lineStart
  | lineFinish
  | wordEdge
  | insideWord
  deriving DecidableEq, Repr

inductive Regex where
  | empty
  | one (set : CharSet)
  | anchor (a : Anchor)
  | seq (a b : Regex)
  | alt (a b : Regex)
  | star (a : Regex)
  | repeated (a : Regex) (least : Nat) (most : Option Nat)
  deriving DecidableEq, Repr, Inhabited

namespace Regex

def maskOf (test : Nat → Bool) : Nat → Nat
  | 0 => 0
  | n + 1 => maskOf test n ||| (if test n then 1 <<< n else 0)

def charAt (text : Array Char) (test : Char → Bool) (i : Nat) : Bool :=
  match text[i]? with
  | some c => test c
  | none => false

def before (text : Array Char) (test : Char → Bool) (i : Nat) : Bool :=
  i != 0 && charAt text test (i - 1)

def holds (text : Array Char) (i : Nat) : Anchor → Bool
  | .start => i == 0
  | .finish => i == text.size
  | .lineStart => i == 0 || before text (· == '\n') i
  | .lineFinish => i == text.size || charAt text (· == '\n') i
  | .wordEdge => before text Character.isWord i != charAt text Character.isWord i
  | .insideWord => before text Character.isWord i == charAt text Character.isWord i

def closure (step : Nat → Nat) : Nat → Nat → Nat
  | 0, s => s
  | fuel + 1, s =>
      let t := s ||| step s
      if t = s then s else closure step fuel t

def iterate (step : Nat → Nat) : Nat → Nat → Nat
  | 0, s => s
  | n + 1, s => if s = 0 then 0 else iterate step n (step s)

def upTo (step : Nat → Nat) : Nat → Nat → Nat
  | 0, s => s
  | n + 1, s => if s = 0 then 0 else s ||| upTo step n (step s)

/-- A set of positions is a number with one bit a position. -/
def ends (text : Array Char) : Regex → Nat → Nat
  | .empty, s => s
  | .one set, s => (s &&& maskOf (charAt text (set.mem ·)) text.size) <<< 1
  | .anchor a, s => s &&& maskOf (holds text · a) (text.size + 1)
  | .seq a b, s => ends text b (ends text a s)
  | .alt a b, s => ends text a s ||| ends text b s
  | .star a, s => closure (ends text a) (text.size + 1) s
  | .repeated a least most, s =>
      let reached := iterate (ends text a) least s
      match most with
      | none => closure (ends text a) (text.size + 1) reached
      | some n => upTo (ends text a) (n - least) reached

def search (r : Regex) (text : String) : Bool :=
  let cs := text.toList.toArray
  r.ends cs (Nat.pow 2 (cs.size + 1) - 1) != 0

end Regex

end CheckedConfig
