import SmallC.Fault
import SmallC.Text.Lines

/-!
# How a golden test compares

A listing is compared with an excerpt: the lines of the excerpt have to stand in
it one right after the other, where blanks at the ends of a line do not count.

A fault is compared with its kind, and with its place if one is given after
` at `. What differs is said in words, nothing if it is the fault expected.
-/

namespace SmallC.Golden

/-- Whether a list stands in another one without a gap. -/
def occursIn {α : Type} [BEq α] (xs : List α) : List α → Bool
  | [] => xs.isEmpty
  | y :: ys => xs.isPrefixOf (y :: ys) || occursIn xs ys

/-- Whether the lines of an excerpt stand in a listing one right after the other. -/
def containsLines (listing excerpt : String) : Bool :=
  occursIn (Text.trimmedLines excerpt) (Text.trimmedLines listing)

/-- What went wrong, and which rule of the language was broken, if it was one. -/
structure Report where
  message : String
  rule : Option (Kind × Pos)
deriving Repr

/-- The report of a fault. -/
def Report.ofFault (f : Fault) : Report := ⟨f.message, f.rule?⟩

/-- How what went wrong differs from what is expected. -/
inductive Mismatch where
  | noFault (want : String)
  | noRule (message want : String)
  | otherKind (message kind : String)
  | otherPlace (place : Pos) (want message : String)
deriving DecidableEq, Repr

/-- A difference in words. -/
def Mismatch.text : Mismatch → String
  | noFault want => "no error but want " ++ want
  | noRule message want => "got error " ++ message ++ " but want " ++ want
  | otherKind message kind => "got error " ++ message ++ " but want a " ++ kind ++ " error"
  | otherPlace place want message =>
    "got error at " ++ place.text ++ " but want " ++ want ++ ": " ++ message

/-- Cuts a list where a separator stands in it for the first time. -/
def cut (sep : List Char) : List Char → List Char × Option (List Char)
  | [] => if sep.isEmpty then ([], some []) else ([], none)
  | c :: rest =>
    if sep.isPrefixOf (c :: rest) then ([], some ((c :: rest).drop sep.length))
    else let (before, after) := cut sep rest; (c :: before, after)

/-- The kind of fault expected, and its place if it is given. -/
def expected (want : String) : String × Option String :=
  let (kind, place) := cut " at ".toList want.toList
  (String.ofList kind, place.map String.ofList)

/-- How what went wrong, if anything did, differs from what is expected. -/
def mismatch? (got : Option Report) (want : String) : Option Mismatch :=
  match got with
  | none => some (.noFault want)
  | some ⟨message, none⟩ => some (.noRule message want)
  | some ⟨message, some (kind, pos)⟩ =>
    let (wantKind, wantPlace) := expected want
    if kind.text ≠ wantKind then some (.otherKind message wantKind)
    else match wantPlace with
      | some place => if pos.text ≠ place then some (.otherPlace pos place message) else none
      | none => none

end SmallC.Golden
