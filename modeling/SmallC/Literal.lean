import SmallC.Decimal.Nearest
import SmallC.Fault
import SmallC.Value

/-!
# The value of a literal

There are five grammars: the two `bool` words, quoted characters, decimal and
hexadecimal integers, and floating-point numbers. They are tried in that order,
and a text in the grammar of integers that is too large is an error, never a
floating-point number.
-/

namespace SmallC.Literal

/-- The value of a hexadecimal digit. -/
def digit? (c : Char) : Option Nat :=
  if c.isDigit then some (c.toNat - '0'.toNat)
  else if 'a' ≤ c ∧ c ≤ 'f' then some (c.toNat - 'a'.toNat + 10)
  else if 'A' ≤ c ∧ c ≤ 'F' then some (c.toNat - 'A'.toNat + 10)
  else none

/-- The number written by digits in some base. -/
def number (base : Nat) (digits : List Char) : Nat :=
  digits.foldl (fun n c => base * n + (digit? c).getD 0) 0

/-- Whether there is at least one digit, and nothing else. -/
def isDecimal (cs : List Char) : Bool := !cs.isEmpty && cs.all Char.isDigit

/-- The digits after the mark of a hexadecimal integer. -/
def hexDigits? : List Char → Option (List Char)
  | '0' :: mark :: digits =>
    if (mark = 'x' ∨ mark = 'X') ∧ !digits.isEmpty ∧ digits.all (digit? · |>.isSome) then
      some digits
    else none
  | _ => none

/-- The bound up to which the digits of an exponent count. No exponent that large gives a number in
range, unless about as many zeros or digits make up for it. -/
def exponentBound : Nat := 10000

/-- The number written by the digits of an exponent. Once it has reached the bound, the digits that
follow add nothing to it. -/
def exponentNumber (digits : List Char) : Nat :=
  digits.foldl (fun n c => if n < exponentBound then 10 * n + (digit? c).getD 0 else n) 0

/-- The exponent at the end of a floating-point number, which may be absent. -/
def exponent? : List Char → Option Int
  | [] => some 0
  | mark :: rest =>
    if mark = 'e' ∨ mark = 'E' then
      match rest with
      | '-' :: digits => if isDecimal digits then some (-(exponentNumber digits : Int)) else none
      | '+' :: digits => if isDecimal digits then some (exponentNumber digits) else none
      | digits => if isDecimal digits then some (exponentNumber digits) else none
    else none

/-- A floating-point number as a decimal `n * 10 ^ k`. A digit must stand before or after the
point. -/
def decimal? (cs : List Char) : Option (Nat × Int) :=
  let whole := cs.takeWhile Char.isDigit
  let (fraction, rest) := match cs.dropWhile Char.isDigit with
    | '.' :: rest => (rest.takeWhile Char.isDigit, rest.dropWhile Char.isDigit)
    | rest => ([], rest)
  if whole.isEmpty && fraction.isEmpty then none
  else (exponent? rest).map fun k => (number 10 (whole ++ fraction), k - fraction.length)

/-- The code of a character written with a backslash. -/
def escape? : Char → Option Nat
  | 'n' => some 10
  | 't' => some 9
  | 'r' => some 13
  | '0' => some 0
  | '\\' => some 92
  | '\'' => some 39
  | _ => none

/-- Whether a character is in the ASCII range. -/
def isAscii (c : Char) : Bool := c.toNat < 128

/-- The value of a quoted character, from what stands after the opening quote. -/
def decodeChar (text : String) (rest : List Char) : Except Cause Value :=
  match rest with
  | [c, quote] =>
    if quote = '\'' ∧ isAscii c ∧ c ≠ '\\' ∧ c ≠ '\'' then .ok (.char c.toNat)
    else .error (.malformedChar text)
  | [backslash, c, quote] =>
    if backslash = '\\' ∧ quote = '\'' ∧ isAscii c then
      match escape? c with
      | some code => .ok (.char code)
      | none => .error (.unknownEscape text)
    else .error (.malformedChar text)
  | _ => .error (.malformedChar text)

/-- An `int` from its digits, if it fits. -/
def decodeInt (text : String) (n : Nat) : Except Cause Value :=
  if n < 0x80000000 then .ok (.int n) else .error (.integerOverflow text)

/-- The value of a literal. -/
def decode (text : String) : Except Cause Value :=
  if text = "true" then .ok (.bool true)
  else if text = "false" then .ok (.bool false)
  else match text.toList with
    | '\'' :: rest => decodeChar text rest
    | cs =>
      if isDecimal cs then decodeInt text (number 10 cs)
      else match hexDigits? cs with
        | some digits => decodeInt text (number 16 digits)
        | none =>
          match decimal? cs with
          | none => .error (.undecodable text)
          | some (n, k) =>
            match Decimal.nearestDouble n k with
            | some bits => .ok (.real bits)
            | none => .error (.floatRange text)

end SmallC.Literal
