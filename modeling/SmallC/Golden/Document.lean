import SmallC.Text.Lines

/-!
# Documents with fenced blocks

A golden test is written in a Markdown document. Of such a document only two
things count, in the order in which they stand: headings, and blocks of text
between two fences. Everything else is for the reader.

A fence is a run of three or more backquotes or tildes at the start of a line.
The run that closes a block is at least as long, of the same character, and
alone on its line; a block that is never closed goes on to the end of the text.
-/

namespace SmallC.Golden

/-- What counts in a document. -/
inductive Item where
  | heading (line : Nat) (text : String)
  /-- A block of text, the line it starts at, and the language it is said to be in. -/
  | fence (line : Nat) (language content : String)
deriving DecidableEq, Repr

/-- Blank characters of a document's markup: the space, the tab, and the ends of lines. -/
def isMarkupBlank (c : Char) : Bool := c = ' ' || c = '\t' || c = '\n' || c = '\r'

/-- Drops the blank characters at both ends. -/
def trimMarkup (cs : List Char) : List Char :=
  Text.dropWhileEnd isMarkupBlank (cs.dropWhile isMarkupBlank)

/-- A heading without the run of `#` that may close it, which has a blank before it. -/
def dropClosing (cs : List Char) : List Char :=
  let body := Text.dropWhileEnd (· = '#') cs
  if body.getLast?.all isMarkupBlank then Text.dropWhileEnd isMarkupBlank body else cs

/-- The text of a heading, if a line is one: up to six `#`, a blank, and the text. The line may be
indented by up to three spaces. -/
def heading? (line : List Char) : Option String :=
  let spaces := (line.takeWhile (· = ' ')).length
  let line := line.dropWhile (· = ' ')
  let level := (line.takeWhile (· = '#')).length
  let rest := line.dropWhile (· = '#')
  if spaces ≤ 3 && 1 ≤ level && level ≤ 6 && rest.head?.all isMarkupBlank then
    some (String.ofList (dropClosing (trimMarkup rest)))
  else none

/-- An open block. -/
structure Fence where
  /-- The character of the opening run. -/
  mark : Char
  /-- The length of the opening run. -/
  length : Nat
  language : String
  /-- The line after the opening run. -/
  line : Nat
  /-- The lines of the block, last one first. -/
  content : List (List Char)

namespace Fence

/-- The character of a run that may open a block. -/
def mark? (line : List Char) : Option Char :=
  match line with
  | c :: _ => if c = '\x60' || c = '~' then some c else none
  | [] => none

/-- What is said about a block after the run that opens it. At the end of the text, where no line
break follows, a single byte says nothing. -/
def info (rest : List Char) : List Char :=
  match rest with
  | [c] => if c.utf8Size = 1 then [] else trimMarkup rest
  | _ => trimMarkup rest

/-- The block that a line opens, if it opens one. What follows a run of backquotes has none in it,
or the line is text. -/
def open? (number : Nat) (line : List Char) : Option Fence := do
  let mark ← mark? line
  let length := (line.takeWhile (· = mark)).length
  let info := info (line.dropWhile (· = mark))
  if 3 ≤ length && !(mark = '\x60' && info.contains mark) then
    some ⟨mark, length, String.ofList (info.takeWhile (· ≠ ' ')), number + 1, []⟩
  else none

/-- Whether a line closes a block. It may be indented by up to three spaces. -/
def closes (f : Fence) (line : List Char) : Bool :=
  let spaces := (line.takeWhile (· = ' ')).length
  let rest := line.dropWhile (· = ' ')
  spaces ≤ 3 && f.length ≤ (rest.takeWhile (· = f.mark)).length &&
    (rest.dropWhile (· = f.mark)).all isMarkupBlank

/-- Adds a line to a block. -/
def add (f : Fence) (line : List Char) : Fence := { f with content := line :: f.content }

/-- A block as it counts. One without lines is said to be at line one. -/
def item (f : Fence) : Item :=
  .fence (if f.content.isEmpty then 1 else f.line) f.language
    (String.ofList f.content.reverse.flatten)

end Fence

/-- Reads lines from number `number` on, inside of an open block or not. -/
def itemsFrom (number : Nat) : Option Fence → List (List Char) → List Item
  | none, [] => []
  | some f, [] => [f.item]
  | none, line :: rest =>
    match Fence.open? number line with
    | some f => itemsFrom (number + 1) (some f) rest
    | none =>
      match heading? line with
      | some text => .heading number text :: itemsFrom (number + 1) none rest
      | none => itemsFrom (number + 1) none rest
  | some f, line :: rest =>
    if f.closes line then f.item :: itemsFrom (number + 1) none rest
    else itemsFrom (number + 1) (some (f.add line)) rest

/-- The headings and blocks of a document. -/
def items (text : String) : List Item := itemsFrom 1 none (Text.linesOf text.toList)

end SmallC.Golden
