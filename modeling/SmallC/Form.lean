import SmallC.Source.Pos
import SmallC.Text.Lines

/-!
# Forms

The notation of programs is made of forms: an atom, or a list of forms in
parentheses. Reading goes in two steps. `Token.scan` cuts the text into tokens,
one character at a time, and never fails: a quoted character without an end
becomes a token of its own. `Form.ofTokens` then puts the tokens together with a
stack of the lists that are still open, and fails at the first token that does
not fit. So of two faults in a text the one that stands first is reported.
-/

namespace SmallC

/-- A piece of the text of a program. -/
inductive Token where
  | opening (pos : Pos)
  | closing (pos : Pos)
  | atom (pos : Pos) (text : String)
  /-- A quoted character that the text ends in the middle of. -/
  | torn (pos : Pos)
deriving DecidableEq, Repr

namespace Token

/-- What the scanner is in the middle of. Characters read so far come last first. -/
inductive State where
  | between
  | comment
  | word (start : Pos) (read : List Char)
  | quoted (start : Pos) (read : List Char)
  /-- In a quoted character, right after a backslash. -/
  | escaped (start : Pos) (read : List Char)
deriving DecidableEq, Repr

/-- The characters between forms. -/
def isSpace (c : Char) : Bool := c == ' ' || c == '\t' || c == '\n' || c == '\r'

/-- The characters that end an atom. -/
def isDelimiter (c : Char) : Bool := c == '(' || c == ')' || c == '#' || isSpace c

/-- An atom made of the characters read. -/
def ofRead (start : Pos) (read : List Char) : Token := atom start (String.ofList read.reverse)

/-- Reads a character that stands between tokens. -/
def begin (pos : Pos) (c : Char) : List Token × State :=
  if c = '#' then ([], .comment)
  else if isSpace c then ([], .between)
  else if c = '(' then ([opening pos], .between)
  else if c = ')' then ([closing pos], .between)
  else if c = '\'' then ([], .quoted pos [c])
  else ([], .word pos [c])

/-- Reads a character: the tokens it completes and what the scanner is in the middle of then. -/
def step (state : State) (pos : Pos) (c : Char) : List Token × State :=
  match state with
  | .between => begin pos c
  | .comment => ([], if c = '\n' then .between else .comment)
  | .word start read =>
    if isDelimiter c then
      let (tokens, next) := begin pos c
      (ofRead start read :: tokens, next)
    else ([], .word start (c :: read))
  | .quoted start read =>
    if c = '\\' then ([], .escaped start (c :: read))
    else if c = '\'' then ([ofRead start (c :: read)], .between)
    else ([], .quoted start (c :: read))
  | .escaped start read => ([], .quoted start (c :: read))

/-- The token that the end of the text completes. -/
def finish : State → List Token
  | .between | .comment => []
  | .word start read => [ofRead start read]
  | .quoted start _ | .escaped start _ => [torn start]

/-- The tokens of a text that goes on from `pos`. -/
def scanFrom (state : State) (pos : Pos) : List Char → List Token
  | [] => finish state
  | c :: rest =>
    let (tokens, next) := step state pos c
    tokens ++ scanFrom next (pos.after c) rest

/-- The tokens of a text. -/
def scan (text : String) : List Token := scanFrom .between .start text.toList

end Token

/-- An atom or a list of forms. -/
inductive Form where
  | atom (pos : Pos) (text : String)
  | list (pos : Pos) (items : List Form)
deriving Repr, Inhabited

namespace Form

/-- Where a form starts. -/
def pos : Form → Pos
  | atom pos _ | list pos _ => pos

/-- Whether a form is a list. -/
def isList : Form → Bool
  | list _ _ => true
  | atom _ _ => false

/-- Whether a form is a given atom. -/
def isAtom (text : String) : Form → Bool
  | atom _ t => t == text
  | list _ _ => false

/-- The items of a list; an atom has none. -/
def items : Form → List Form
  | atom _ _ => []
  | list _ items => items

/-- The atom at the head of some items, or nothing. -/
def headOf : List Form → String
  | atom _ text :: _ => text
  | _ => ""

mutual

/-- A form written out, with a single space between the items of a list. -/
def text : Form → String
  | atom _ text => text
  | list _ items => "(" ++ Text.join " " (texts items) ++ ")"

/-- Forms written out. -/
def texts : List Form → List String
  | [] => []
  | f :: rest => f.text :: texts rest

end

/-- What can stand in the way of reading forms. -/
inductive Unbalanced where
  | unexpectedClosing (pos : Pos)
  | missingClosing (pos : Pos)
  | unterminated (pos : Pos)
deriving DecidableEq, Repr

/-- What is said of a text that is not balanced. -/
def Unbalanced.message : Unbalanced → String
  | unexpectedClosing pos => pos.text ++ ": unexpected )"
  | missingClosing pos => pos.text ++ ": missing )"
  | unterminated pos => pos.text ++ ": unterminated character"

/-- Puts tokens together. `items` are the forms read at the current depth, last first; `stack` holds
the place of each open list and the forms in front of it, innermost list first. -/
def assemble (stack : List (Pos × List Form)) (items : List Form) :
    List Token → Except Unbalanced (List Form)
  | [] =>
    match stack with
    | [] => .ok items.reverse
    | (pos, _) :: _ => .error (.missingClosing pos)
  | .atom pos text :: rest => assemble stack (atom pos text :: items) rest
  | .opening pos :: rest => assemble ((pos, items) :: stack) [] rest
  | .closing pos :: rest =>
    match stack with
    | [] => .error (.unexpectedClosing pos)
    | (start, outer) :: stack => assemble stack (list start items.reverse :: outer) rest
  | .torn pos :: _ => .error (.unterminated pos)

/-- The forms that tokens make up. -/
def ofTokens (tokens : List Token) : Except Unbalanced (List Form) := assemble [] [] tokens

/-- The forms of a text. -/
def read (text : String) : Except Unbalanced (List Form) := ofTokens (Token.scan text)

end Form

end SmallC
