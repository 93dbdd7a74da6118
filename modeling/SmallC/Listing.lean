import SmallC.Text.Lines

/-!
# Listings

A listing is what a target produces: instructions with directives between them,
each at some depth of indentation. A label on its own marks a place to branch to
and is written one step to the left of the instructions around it.
-/

namespace SmallC

/-- An instruction of some target. -/
structure Listing.Instr where
  /-- The name of a place to branch to. -/
  label : String := ""
  /-- The register that the instruction defines. -/
  dest : String := ""
  op : String := ""
  args : List String := []
deriving DecidableEq, Repr, Inhabited

namespace Listing.Instr

/-- Whether an instruction does nothing but mark a place to branch to. -/
def isLabel (i : Instr) : Bool := i.op.isEmpty && !i.label.isEmpty

/-- An instruction without its label. -/
def body (i : Instr) : String :=
  (if i.dest.isEmpty then "" else i.dest ++ " = ") ++ i.op ++
    (if i.args.isEmpty then "" else " " ++ Text.join ", " i.args)

/-- An instruction written out. -/
def text (i : Instr) : String :=
  if i.label.isEmpty then i.body
  else if i.op.isEmpty then i.label ++ ":"
  else i.label ++ ": " ++ i.body

end Listing.Instr

/-- An instruction, or a line that is none. -/
inductive Listing.Line where
  | instr (i : Listing.Instr)
  | directive (text : String)
deriving DecidableEq, Repr

namespace Listing.Line

/-- A line written out. -/
def text : Line → String
  | instr i => i.text
  | directive text => text

/-- Whether a line stands one step to the left. -/
def isOutdented : Line → Bool
  | instr i => i.isLabel
  | directive _ => false

/-- A line at some depth, with a newline at its end. -/
def render (depth : Nat) (l : Line) : String :=
  let depth := if l.isOutdented then depth - 1 else depth
  Text.indent (String.ofList (List.replicate depth '\t')) (l.text ++ "\n")

end Listing.Line

/-- Lines, each with its depth, and the depth of those to come. -/
structure Listing where
  lines : Array (Nat × Listing.Line) := #[]
  depth : Nat := 0
deriving DecidableEq, Repr

namespace Listing

/-- A listing without lines. -/
def empty : Listing := {}

/-- Adds a line. -/
def push (l : Listing) (line : Line) : Listing := { l with lines := l.lines.push (l.depth, line) }

/-- Adds an instruction. -/
def instr (l : Listing) (i : Instr) : Listing := l.push (.instr i)

/-- Adds a line that is no instruction. -/
def directive (l : Listing) (text : String) : Listing := l.push (.directive text)

/-- Adds lines that are no instructions. -/
def directives (l : Listing) (texts : List String) : Listing := texts.foldl directive l

/-- Adds instructions. -/
def instrs (l : Listing) (is : List Instr) : Listing := is.foldl instr l

/-- Moves the lines to come one step to the right. -/
def indent (l : Listing) : Listing := { l with depth := l.depth + 1 }

/-- Moves the lines to come one step to the left. -/
def dedent (l : Listing) : Listing := { l with depth := l.depth - 1 }

/-- Adds the lines of another listing, with the depth they have there on top of the present one. -/
def append (l other : Listing) : Listing :=
  { l with lines := l.lines ++ other.lines.map fun (depth, line) => (depth + l.depth, line) }

/-- The number of lines. -/
def size (l : Listing) : Nat := l.lines.size

/-- The instructions alone. -/
def instructions (l : Listing) : List Instr :=
  l.lines.toList.filterMap fun
    | (_, .instr i) => some i
    | (_, .directive _) => none

/-- A listing written out. -/
def text (l : Listing) : String :=
  String.join (l.lines.toList.map fun (depth, line) => line.render depth)

/-- A listing written out with line numbers. -/
def numbered (l : Listing) : String := Text.number l.text

end Listing

end SmallC
