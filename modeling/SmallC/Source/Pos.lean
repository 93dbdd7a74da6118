/-!
# Positions in a source text

Every node of a tree and every fault carries a place. A place is a line and a
column counted from one; anything at line zero or below means "nowhere", which
is what a node made by the compiler itself, or a fault without a node, carries.
-/

namespace SmallC

/-- A place in a source text. Lines and columns are counted from one. -/
structure Pos where
  line : Int
  column : Int
deriving DecidableEq, Repr, Inhabited

namespace Pos

/-- The place of something that stands nowhere in the source. -/
def nowhere : Pos := ⟨0, 0⟩

/-- The first character of a text. -/
def start : Pos := ⟨1, 1⟩

/-- Only a positive line number names a place. -/
def isValid (p : Pos) : Bool := 0 < p.line

/-- `line:column`, or a dash for no place at all. -/
def text (p : Pos) : String :=
  if p.isValid then toString p.line ++ ":" ++ toString p.column else "-"

/-- The place just after the character `c` read at `p`. -/
def after (p : Pos) (c : Char) : Pos :=
  if c = '\n' then ⟨p.line + 1, 1⟩ else ⟨p.line, p.column + 1⟩

end Pos

end SmallC
