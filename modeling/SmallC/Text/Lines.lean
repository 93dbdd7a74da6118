import SmallC.Decimal.Logarithm
import SmallC.Text.Blank

/-!
# Lines of text

A listing is text in lines. Two ways of cutting are needed. `lines` cuts after
each newline and keeps it, so that the lines put together are the text again;
`split` cuts at each newline and drops it, so that a text always has at least
one line, perhaps an empty one.
-/

namespace SmallC.Text

/-- The items one after the other, with `sep` between two of them. -/
def join (sep : String) (items : List String) : String := String.intercalate sep items

/-- The texts made of items one after the other, with `sep` between two of them. Each is made knowing
its place, and the first that cannot be made decides. -/
def joinMapIdx {ε α : Type} (sep : String) (f : Nat → α → Except ε String) (items : List α) :
    Except ε String :=
  return join sep (← items.zipIdx.mapM fun (item, i) => f i item)

/-- The lines of a text, each with its newline; the last one may lack it. -/
def linesOf : List Char → List (List Char)
  | [] => []
  | c :: rest =>
    if c = '\n' then [c] :: linesOf rest
    else match linesOf rest with
      | [] => [[c]]
      | line :: more => (c :: line) :: more

/-- The lines of a text, each with its newline; the last one may lack it. -/
def lines (s : String) : List String := (linesOf s.toList).map String.ofList

/-- The pieces of a text between newlines, of which there is always at least one. -/
def splitOf : List Char → List (List Char)
  | [] => [[]]
  | c :: rest =>
    if c = '\n' then [] :: splitOf rest
    else match splitOf rest with
      | [] => [[c]]
      | line :: more => (c :: line) :: more

/-- The pieces of a text between newlines, of which there is always at least one. -/
def split (s : String) : List String := (splitOf s.toList).map String.ofList

/-- The lines of a text without the newlines at its end, each line trimmed. -/
def trimmedLines (s : String) : List (List Char) :=
  (splitOf (dropWhileEnd (· = '\n') s.toList)).map trim

/-- A numeral padded with zeros on the left to a given width. -/
def padded (width n : Nat) : String :=
  let digits := Nat.toDigits 10 n
  String.ofList (List.replicate (width - digits.length) '0' ++ digits)

/-- The width of the numbers of `n` lines. It is one more than the whole part of the decimal logarithm
of `n`, which is computed in double precision. -/
def numberWidth (n : Nat) : Nat := (Decimal.Double.ofInt n).log10.truncate.toNat + 1

/-- Puts the number of each line in front of it. All numbers are as wide as the last one. -/
def number (s : String) : String :=
  let all := lines s
  let width := numberWidth all.length
  String.join (all.mapIdx fun i line => padded width (i + 1) ++ " " ++ line)

/-- Puts `pad` in front of each line that is not blank. -/
def indent (pad s : String) : String :=
  String.join ((lines s).map fun line => if line.toList.all isBlank then line else pad ++ line)

end SmallC.Text
