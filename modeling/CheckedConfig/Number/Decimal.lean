import CheckedConfig.Number.Double

namespace CheckedConfig

def isDigit (c : Char) : Bool := decide ('0' ≤ c) && decide (c ≤ '9')

def digitValue (c : Char) : Nat := c.toNat - '0'.toNat

def digitsValue (cs : List Char) : Nat := cs.foldl (fun n c => 10 * n + digitValue c) 0

def radixDigit? (radix : Nat) (c : Char) : Option Nat :=
  let n :=
    if isDigit c then digitValue c
    else if decide ('a' ≤ c) && decide (c ≤ 'z') then c.toNat - 'a'.toNat + 10
    else if decide ('A' ≤ c) && decide (c ≤ 'Z') then c.toNat - 'A'.toNat + 10
    else radix
  if n < radix then some n else none

def radixValue? (radix : Nat) (cs : List Char) : Option Nat :=
  cs.foldlM (fun n c => (radixDigit? radix c).map (radix * n + ·)) 0

def natOfRadix? (radix : Nat) (cs : List Char) : Option Nat :=
  match cs with
  | [] => none
  | ['+'] => none
  | '+' :: rest => radixValue? radix rest
  | _ => radixValue? radix cs

def natOfText? (s : String) : Option Nat := natOfRadix? 10 s.toList

theorem radixDigit?_of_isDigit {c : Char} (h : isDigit c = true) :
    radixDigit? 10 c = some (digitValue c) := by
  have hlt : digitValue c < 10 := by
    simp only [isDigit, Bool.and_eq_true, decide_eq_true_eq] at h
    have hle : c.toNat ≤ '9'.toNat := h.2
    simp only [digitValue]
    have hnine : '9'.toNat = 57 := rfl
    have hzero : '0'.toNat = 48 := rfl
    omega
  simp [radixDigit?, h, hlt]

theorem radixValue?_of_digits {cs : List Char} (h : cs.all isDigit = true) :
    radixValue? 10 cs = some (digitsValue cs) := by
  have hfrom (n : Nat) : cs.foldlM (fun n c => (radixDigit? 10 c).map (10 * n + ·)) n
      = some (cs.foldl (fun n c => 10 * n + digitValue c) n) := by
    induction cs generalizing n with
    | nil => rfl
    | cons c cs ih =>
        rw [List.all_cons, Bool.and_eq_true] at h
        rw [List.foldlM_cons, radixDigit?_of_isDigit h.1, List.foldl_cons]
        exact ih h.2 _
  exact hfrom 0

theorem natOfRadix?_of_digits {cs : List Char} (hne : cs ≠ []) (h : cs.all isDigit = true) :
    natOfRadix? 10 cs = some (digitsValue cs) := by
  rw [← radixValue?_of_digits h]
  have hplus : isDigit '+' = false := by decide
  unfold natOfRadix?
  split
  · exact absurd rfl hne
  · simp [hplus] at h
  · simp [hplus] at h
  · rfl

theorem natOfText?_toString (n : Nat) : natOfText? (toString n) = some n := by
  have hdigits : (Nat.toDigits 10 n).all isDigit = true := by
    rw [List.all_eq_true]
    intro c hc
    exact Nat.isDigit_of_mem_toDigits (by omega) (by omega) hc
  have hvalue : digitsValue (Nat.toDigits 10 n) = n := Nat.ofDigitChars_ten_toDigits
  rw [natOfText?, Nat.toString_eq_ofList_toDigits, String.toList_ofList,
    natOfRadix?_of_digits Nat.toDigits_ne_nil hdigits, hvalue]

def intOfRadix? (radix : Nat) (cs : List Char) : Option Int :=
  match cs with
  | '-' :: '+' :: _ => none
  | '-' :: rest => (natOfRadix? radix rest).map fun n => -(n : Int)
  | _ => (natOfRadix? radix cs).map Int.ofNat

def fitsInt64 (i : Int) : Bool := decide (-(Int.pow 2 63) ≤ i) && decide (i < Int.pow 2 63)

def fitsUInt64 (i : Int) : Bool := decide (0 ≤ i) && decide (i < Int.pow 2 64)

def int64OfText? (s : String) : Option Int := (intOfRadix? 10 s.toList).filter fitsInt64

structure Decimal where
  negative : Bool
  digits : Nat
  exponent : Int
  deriving DecidableEq, Repr

namespace Decimal

def exponentOf? : List Char → Option Int
  | [] => some 0
  | e :: rest =>
      if e = 'e' ∨ e = 'E' then
        match rest with
        | '+' :: ds => natural? ds
        | '-' :: ds => (natural? ds).map (- ·)
        | ds => natural? ds
      else none
where
  natural? (ds : List Char) : Option Int :=
    if ds.isEmpty || !ds.all isDigit then none else some (digitsValue ds)

def unsigned? (negative : Bool) (cs : List Char) : Option Decimal :=
  let whole := cs.takeWhile isDigit
  match cs.dropWhile isDigit with
  | '.' :: rest =>
      let part := rest.takeWhile isDigit
      if whole.isEmpty && part.isEmpty then none
      else (exponentOf? (rest.dropWhile isDigit)).map fun e =>
        ⟨negative, digitsValue (whole ++ part), e - part.length⟩
  | rest =>
      if whole.isEmpty then none
      else (exponentOf? rest).map fun e => ⟨negative, digitsValue whole, e⟩

def ofChars? : List Char → Option Decimal
  | '-' :: cs => unsigned? true cs
  | '+' :: cs => unsigned? false cs
  | cs => unsigned? false cs

def digitCount (n : Nat) : Nat := (Nat.toDigits 10 n).length

def toDouble? (d : Decimal) : Option Double :=
  let top := d.exponent + digitCount d.digits
  if d.digits = 0 || decide (top < -400) then some ⟨d.negative, 0⟩
  else if 400 < top then none
  else if 0 ≤ d.exponent then
    Double.ofRatio? d.negative (d.digits * Nat.pow 10 d.exponent.toNat) 1
  else Double.ofRatio? d.negative d.digits (Nat.pow 10 (-d.exponent).toNat)

def powerOfTen (n : Nat) : Double := Double.ofNat (Nat.pow 10 n)

/-- Digits that fit 64 bits, times a power of ten, in double arithmetic: one multiplication or
division by a power up to `10 ^ 308`, after divisions by `10 ^ 308` while more are due. Out of
range is `none`. -/
def scale? (d : Double) (exponent : Int) : Option Double :=
  if exponent.natAbs ≤ 308 then
    if 0 ≤ exponent then d.mul? (powerOfTen exponent.natAbs)
    else d.div? (powerOfTen exponent.natAbs)
  else if d.isZero then some d
  else if 0 ≤ exponent then none
  else (d.div? (powerOfTen 308)).bind fun e =>
    if e.isZero then some e else scale? e (exponent + 308)
termination_by exponent.natAbs

end Decimal

structure Digits where
  digits : List Char
  exponent : Int
  deriving DecidableEq, Repr

namespace Double

def decimalExponent (d : Double) : Int :=
  (Decimal.digitCount (d.steps * Nat.pow 10 400 / unit) : Int) - 401

def interval (d : Double) : Nat × Nat × Bool :=
  let gap := Nat.pow 2 (spare d.steps)
  let below := if d.steps = Nat.pow 2 52 * gap && decide (1 < gap) then gap else 2 * gap
  (4 * d.steps - below, 4 * d.steps + 2 * gap, d.steps / gap % 2 == 0)

def hits (d : Double) (c : Nat) (e : Int) : Bool :=
  let (low, high, closed) := d.interval
  let up := Nat.pow 10 e.toNat
  let down := Nat.pow 10 (-e).toNat
  let x := 4 * c * up * unit
  if closed then decide (low * down ≤ x) && decide (x ≤ high * down)
  else decide (low * down < x) && decide (x < high * down)

def onGrid? (d : Double) (e : Int) : Option Nat :=
  let up := Nat.pow 10 e.toNat * unit
  let num := d.steps * Nat.pow 10 (-e).toNat
  let c := num / up
  let r := num % up
  match d.hits c e && decide (c ≠ 0), d.hits (c + 1) e with
  | true, true => some (if 2 * r < up || (2 * r == up && c % 2 == 0) then c else c + 1)
  | true, false => some c
  | false, true => some (c + 1)
  | false, false => none

def shortestFrom (d : Double) (top : Int) : Nat → Nat → Nat × Int
  | 0, n => (d.steps * Nat.pow 10 (n - top.toNat) / unit, top - n)
  | fuel + 1, n =>
      let e := top + 1 - n
      match d.onGrid? e with
      | some c => (c, e)
      | none => shortestFrom d top fuel (n + 1)

def dropZeros (c : Nat) (e : Int) : Nat → Nat × Int
  | 0 => (c, e)
  | fuel + 1 => if c % 10 = 0 then dropZeros (c / 10) (e + 1) fuel else (c, e)

def shortest (d : Double) : Digits :=
  if d.isZero then ⟨['0'], 0⟩
  else
    let (c, e) := shortestFrom d d.decimalExponent 17 1
    let (c, e) := dropZeros c e 20
    let ds := Nat.toDigits 10 c
    ⟨ds, e + ds.length - 1⟩

structure Layout where
  least : Option Int
  greatest : Option Int
  point : Bool
  deriving DecidableEq, Repr

def documentLayout : Layout := ⟨some (-5), some 15, true⟩

def plainLayout : Layout := ⟨none, none, false⟩

def positional (point : Bool) (d : Digits) : List Char :=
  if d.exponent < 0 then
    ['0', '.'] ++ List.replicate ((-d.exponent).toNat - 1) '0' ++ d.digits
  else
    let whole := d.exponent.toNat + 1
    let padded := d.digits ++ List.replicate (whole - d.digits.length) '0'
    let part := padded.drop whole
    padded.take whole ++ (if part.isEmpty then (if point then ['.', '0'] else []) else '.' :: part)

def scientific (d : Digits) : List Char :=
  let tail := match d.digits.drop 1 with
    | [] => []
    | rest => '.' :: rest
  let sign := if d.exponent < 0 then '-' else '+'
  d.digits.take 1 ++ tail ++ ['e', sign] ++ Nat.toDigits 10 d.exponent.natAbs

def Layout.isPositional (l : Layout) (e : Int) : Bool :=
  l.least.all (decide <| · ≤ e) && l.greatest.all (decide <| e ≤ ·)

def write (l : Layout) (d : Double) : String :=
  let s := d.shortest
  let body := if l.isPositional s.exponent then positional l.point s else scientific s
  String.ofList (if d.negative then '-' :: body else body)

end Double

end CheckedConfig
