import SmallC.Text.Printable

/-!
# Quoted text

A text inside quotes is written so that nothing in it can be mistaken: the quote
and the backslash get a backslash, a printable character stands for itself, and
everything else is an escape, by name where it has one and by number otherwise.
-/

namespace SmallC.Text

/-- A number in lower-case hexadecimal, padded with zeros to a given width. -/
def hex (width n : Nat) : List Char :=
  let digits := Nat.toDigits 16 n
  List.replicate (width - digits.length) '0' ++ digits

/-- The letter that names a control character in an escape. -/
def escapeLetter? (n : Nat) : Option Char :=
  match n with
  | 7 => some 'a'
  | 8 => some 'b'
  | 9 => some 't'
  | 10 => some 'n'
  | 11 => some 'v'
  | 12 => some 'f'
  | 13 => some 'r'
  | _ => none

/-- A character as it is written between two `quote` characters. -/
def quoteChar (quote c : Char) : List Char :=
  if c = quote ∨ c = '\\' then ['\\', c]
  else if isPrintable c then [c]
  else
    let n := c.toNat
    match escapeLetter? n with
    | some letter => ['\\', letter]
    | none =>
      if n < 0x20 ∨ n = 0x7F then '\\' :: 'x' :: hex 2 n
      else if n < 0x10000 then '\\' :: 'u' :: hex 4 n
      else '\\' :: 'U' :: hex 8 n

/-- A text in double quotes. -/
def quote (s : String) : String :=
  String.ofList ('"' :: s.toList.flatMap (quoteChar '"') ++ ['"'])

/-- Whether a number is the code of a character. -/
def isCode (n : Int) : Bool :=
  (0 ≤ n && n < 0xD800) || (0xDFFF < n && n ≤ 0x10FFFF)

/-- The character with a given code in single quotes. A number that is no code stands for the
replacement character. -/
def quoteCode (n : Int) : String :=
  let c := if isCode n then Char.ofNat n.toNat else Char.ofNat 0xFFFD
  String.ofList ('\'' :: quoteChar '\'' c ++ ['\''])

end SmallC.Text
