/-!
# Templates

A template is a text with fields to be filled in, written as a path of keys with
points in front, in double braces. The value of a key is a text. A text has no
keys of its own, so a longer path cannot be filled in; but where its first key
has no value, there is nothing to look further into, and it has no value either.
-/

namespace SmallC.Text

/-- A piece of a template. -/
inductive Part where
  | words (text : String)
  | field (path : List String)
deriving DecidableEq, Repr

/-- A template. -/
abbrev Template := List Part

namespace Template

/-- A field that asks for a key of a text. -/
structure Unfillable where
  path : List String
deriving DecidableEq, Repr

/-- What stands for a key without a value. -/
def noValue : String := "<no value>"

/-- The text of a field. -/
def fillPath (data : List (String × String)) : List String → Except Unfillable String
  | [] => .ok noValue
  | key :: more =>
    match data.lookup key with
    | none => .ok noValue
    | some text => if more.isEmpty then .ok text else .error ⟨key :: more⟩

/-- The text of one piece. -/
def fill (data : List (String × String)) : Part → Except Unfillable String
  | .words text => .ok text
  | .field path => fillPath data path

/-- The text of a template with its fields filled in. -/
def render (data : List (String × String)) (t : Template) : Except Unfillable String :=
  return String.join (← t.mapM (fill data))

/-- Cuts a list of characters at the points in it. -/
def splitPoints : List Char → List (List Char)
  | [] => [[]]
  | c :: rest =>
    if c = '.' then [] :: splitPoints rest
    else match splitPoints rest with
      | [] => [[c]]
      | key :: more => (c :: key) :: more

/-- The field written between double braces, if it is one. -/
def field? (inside : List Char) : Option Part :=
  match splitPoints inside with
  | [] :: path =>
    if !path.isEmpty && path.all (!·.isEmpty) then some (.field (path.map String.ofList)) else none
  | _ => none

/-- What the reader of a template is in the middle of. Characters read so far come last first. -/
inductive State where
  | words (read : List Char)
  /-- After the double brace that opens a field. -/
  | inside (read : List Char)

/-- The characters read as a piece of text, if there are any. -/
def flush (read : List Char) : Template :=
  if read.isEmpty then [] else [.words (String.ofList read.reverse)]

/-- Reads a template. What looks like a field but is not one is text. -/
def parseFrom : State → List Char → Template
  | .words read, [] => flush read
  | .inside read, [] => flush (read ++ ['\x7b', '\x7b'])
  | .words read, '\x7b' :: '\x7b' :: rest => flush read ++ parseFrom (.inside []) rest
  | .words read, c :: rest => parseFrom (.words (c :: read)) rest
  | .inside read, '\x7d' :: '\x7d' :: rest =>
    match field? read.reverse with
    | some part => part :: parseFrom (.words []) rest
    | none =>
      flush ('\x7d' :: '\x7d' :: read ++ ['\x7b', '\x7b']) ++ parseFrom (.words []) rest
  | .inside read, c :: rest => parseFrom (.inside (c :: read)) rest

/-- The template that a text is. -/
def parse (text : String) : Template := parseFrom (.words []) text.toList

end Template

end SmallC.Text
