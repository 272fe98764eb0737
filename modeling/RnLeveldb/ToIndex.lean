import RnLeveldb.Js
import Mathlib.Data.List.DropRight

/-!
# `new Uint8Array` of a string

Given anything but an object, the constructor of a typed array takes its argument for a
length: it applies `ToIndex`, which reads a string as a number, rounds it to a double, cuts
off the fraction and throws a `RangeError` unless the result lies in `[0, 2 ^ 53)`. A string
that is no number stands for NaN, and the length is zero. The array is zero-filled.
-/

namespace RnLeveldb

/-! ## `StringToNumber` -/

/-- The value of a numeric string, before it is rounded: `p / q`, with a sign. -/
inductive StringNumber where
  | nan
  | infinity
  | ratio (negative : Bool) (p q : ℕ)
deriving DecidableEq

/-- The code units of an ASCII literal. -/
def units (s : String) : JsString := s.toList.map fun c => UInt16.ofNat c.toNat

/-- `StrWhiteSpaceChar`: white space, line terminators and the byte order mark. -/
def isStrWhiteSpaceChar (u : UInt16) : Bool :=
  [0x09, 0x0A, 0x0B, 0x0C, 0x0D, 0x20, 0xA0, 0x1680, 0x2028, 0x2029, 0x202F, 0x205F, 0x3000,
    0xFEFF].contains u || 0x2000 ≤ u && u ≤ 0x200A

def trim (s : JsString) : JsString :=
  (s.dropWhile isStrWhiteSpaceChar).rdropWhile isStrWhiteSpaceChar

/-- The value of a digit or letter, if it is below the radix. -/
def digitValue (radix : ℕ) (u : UInt16) : Option ℕ :=
  let n := u.toNat
  let d :=
    if 0x30 ≤ n ∧ n ≤ 0x39 then some (n - 0x30)
    else if 0x41 ≤ n ∧ n ≤ 0x5A then some (n - 0x41 + 10)
    else if 0x61 ≤ n ∧ n ≤ 0x7A then some (n - 0x61 + 10)
    else none
  d.filter (· < radix)

def isDigit (radix : ℕ) (u : UInt16) : Bool := (digitValue radix u).isSome

def digitsValue (radix : ℕ) (s : JsString) : ℕ :=
  s.foldl (fun n u => n * radix + (digitValue radix u).getD 0) 0

/-- Digits, at least one, and nothing else. -/
def digits (radix : ℕ) (s : JsString) : Option ℕ :=
  if s ≠ [] ∧ s.all (isDigit radix) then some (digitsValue radix s) else none

/-- A sign, which may be missing, and what follows it. -/
def splitSign (s : JsString) : Bool × JsString :=
  if s.head? = some 0x2D then (true, s.tail)
  else if s.head? = some 0x2B then (false, s.tail)
  else (false, s)

/-- `ExponentPart`, which may be missing. -/
def exponentPart (s : JsString) : Option ℤ :=
  if s = [] then some 0
  else if s.head? = some 0x65 ∨ s.head? = some 0x45 then
    let (negative, s) := splitSign s.tail
    (digits 10 s).map fun n => if negative then -(n : ℤ) else n
  else none

/-- `NonDecimalIntegerLiteral`: after `0x`, `0o` or `0b`. -/
def nonDecimalInteger (s : JsString) : Option ℕ :=
  if s.head? ≠ some 0x30 then none
  else
    match s.tail.head? with
    | none => none
    | some u =>
      if u = 0x78 ∨ u = 0x58 then digits 16 (s.drop 2)
      else if u = 0x6F ∨ u = 0x4F then digits 8 (s.drop 2)
      else if u = 0x62 ∨ u = 0x42 then digits 2 (s.drop 2)
      else none

/-- `StrUnsignedDecimalLiteral`: digits on at least one side of the point. -/
def unsignedDecimal (s : JsString) : Option (ℕ × ℕ) :=
  let whole := s.takeWhile (isDigit 10)
  let rest := s.dropWhile (isDigit 10)
  let point := rest.head? = some 0x2E
  let fraction := if point then rest.tail.takeWhile (isDigit 10) else []
  let rest := if point then rest.tail.dropWhile (isDigit 10) else rest
  if whole = [] ∧ fraction = [] then none
  else
    (exponentPart rest).map fun exponent =>
      let e : ℤ := exponent - fraction.length
      (digitsValue 10 (whole ++ fraction) * 10 ^ e.toNat, 10 ^ (-e).toNat)

def stringToNumber (s : JsString) : StringNumber :=
  if trim s = [] then .ratio false 0 1
  else
    match nonDecimalInteger (trim s) with
    | some n => .ratio false n 1
    | none =>
      let (negative, s) := splitSign (trim s)
      if s = units "Infinity" then .infinity
      else
        match unsignedDecimal s with
        | some (p, q) => .ratio negative p q
        | none => .nan

/-! ## `ToIndex` -/

/-- The integer nearest to `p / q`, of two the even one. -/
def roundHalfEven (p q : ℕ) : ℕ :=
  if 2 * (p % q) < q then p / q
  else if q < 2 * (p % q) then p / q + 1
  else p / q + p / q % 2

/-- The integer part of the double nearest to `p / q`, as long as that is below `2 ^ 53`; a
double has 53 significant bits, so `fractionBits` of them stand after the point. Larger
values keep being at least `2 ^ 53`. -/
def truncDouble (p q : ℕ) : ℕ :=
  let fractionBits := if p < q then 53 else 52 - Nat.log2 (p / q)
  roundHalfEven (p * 2 ^ fractionBits) q / 2 ^ fractionBits

/-- `ToIndex` of a string; `none` is a `RangeError`. -/
def toIndex (s : JsString) : Option ℕ :=
  match stringToNumber s with
  | .nan => some 0
  | .infinity => none
  | .ratio negative p q =>
    let n := truncDouble p q
    if negative ∧ n ≠ 0 then none
    else if n < 2 ^ 53 then some n
    else none

/-- NUL is neither white space nor part of a number. -/
lemma toIndex_replicate_zero (n : ℕ) : toIndex (List.replicate n 0) = some 0 := by
  cases n with
  | zero => rfl
  | succ n =>
    have htrim : trim (List.replicate (n + 1) 0) = List.replicate (n + 1) 0 := by
      have hnot : isStrWhiteSpaceChar 0 ≠ true := by decide
      rw [trim, List.replicate_succ, List.dropWhile_cons_of_neg hnot, ← List.replicate_succ,
        List.replicate_succ', List.rdropWhile_concat_neg _ _ _ hnot]
    have hdigit : isDigit 10 0 ≠ true := by decide
    have hnan : stringToNumber (List.replicate (n + 1) 0) = .nan := by
      unfold stringToNumber
      rw [htrim, List.replicate_succ]
      have hdecimal : unsignedDecimal (0 :: List.replicate n 0) = none := by
        unfold unsignedDecimal
        rw [List.takeWhile_cons_of_neg hdigit, List.dropWhile_cons_of_neg hdigit]
        rfl
      have hsign : splitSign (0 :: List.replicate n 0) = (false, 0 :: List.replicate n 0) := rfl
      have hinfinity : 0 :: List.replicate n 0 ≠ units "Infinity" := by
        intro h
        have hhead : some 0 = (units "Infinity").head? := congrArg List.head? h
        exact absurd hhead (by decide)
      rw [if_neg (List.cons_ne_nil _ _), hsign]
      dsimp only
      rw [if_neg hinfinity, hdecimal]
      rfl
    rw [toIndex, hnan]

example : toIndex (units " 0x1f\n") = some 31 := by decide +kernel
example : toIndex (units "-0.5e-1") = some 0 ∧ toIndex (units "-1") = none := by decide +kernel
-- a tie between the two largest doubles up to one, and the first value that is too large
example : toIndex (units "0.999999999999999944488848768742172978818416595458984375") = some 1 ∧
    toIndex (units "9007199254740991.5") = none := by decide +kernel

end RnLeveldb
