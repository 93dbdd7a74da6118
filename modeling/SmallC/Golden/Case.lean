import SmallC.Golden.Document
import SmallC.Text.Quoted

/-!
# Golden tests

A test starts at a heading that says so and goes on to the next such heading.
It has one block with a program, and blocks with what compiling the program
should give. Other headings, and blocks in no language, are for the reader.
-/

namespace SmallC.Golden

/-- What a block of a test is compared with. -/
inductive Subject where
  | cil | cilUnfolded | llvm | llvmUnfolded
  /-- The fault that analysis finds. -/
  | fault
deriving DecidableEq, Repr

namespace Subject

/-- All subjects. -/
def all : List Subject := [cil, cilUnfolded, llvm, llvmUnfolded, fault]

/-- The language that the block is said to be in. -/
def text : Subject → String
  | cil => "cil"
  | cilUnfolded => "cil-nofold"
  | llvm => "llvm"
  | llvmUnfolded => "llvm-nofold"
  | fault => "error"

/-- The subject of a block in a given language. -/
def ofText? (language : String) : Option Subject := all.find? (·.text == language)

end Subject

/-- What compiling a program should give. -/
structure Assertion where
  subject : Subject
  content : String
  line : Nat
deriving DecidableEq, Repr

/-- A test. -/
structure Case where
  name : String
  /-- The program, empty if it has not been given. -/
  input : String
  line : Nat
  assertions : List Assertion
deriving DecidableEq, Repr

/-- The language of the block with the program. -/
def inputLanguage : String := "minic"

/-- Why a document has no well-formed tests. -/
inductive Case.Error where
  | noInput (line : Nat) (test : String)
  | noAssertion (line : Nat) (test : String)
  | secondInput (line : Nat) (test : String)
  | unknownLanguage (line : Nat) (language test : String)
  | outsideTest (line : Nat) (language : String)
deriving DecidableEq, Repr

/-- The message of an error. -/
def Case.Error.message : Case.Error → String
  | noInput line test =>
    "line " ++ toString line ++ ": test " ++ Text.quote test ++ " has no " ++ inputLanguage ++
      " fence"
  | noAssertion line test =>
    "line " ++ toString line ++ ": test " ++ Text.quote test ++ " has no assertion"
  | secondInput line test =>
    "line " ++ toString line ++ ": test " ++ Text.quote test ++ " has more than one " ++
      inputLanguage ++ " fence"
  | unknownLanguage line language test =>
    "line " ++ toString line ++ ": unknown fence " ++ Text.quote language ++ " in test " ++
      Text.quote test
  | outsideTest line language =>
    "line " ++ toString line ++ ": " ++ language ++ " fence outside of a test"

/-- What a heading says before the name of a test. -/
def testMark : List Char := "Test: ".toList

/-- The name of the test that a heading starts, if it starts one. -/
def testName? (heading : String) : Option String :=
  if testMark.isPrefixOf heading.toList then
    some (String.ofList (heading.toList.drop testMark.length))
  else none

namespace Case

/-- A test of which only the heading has been read. -/
def new (name : String) (line : Nat) : Case := ⟨name, "", line, []⟩

/-- A test of which all has been read. -/
def finish (c : Case) : Except Error Case :=
  if c.input.isEmpty then .error (.noInput c.line c.name)
  else if c.assertions.isEmpty then .error (.noAssertion c.line c.name)
  else .ok c

/-- Adds a block to a test. -/
def addFence (c : Case) (line : Nat) (language content : String) : Except Error Case :=
  let content := String.ofList (Text.dropWhileEnd (· = '\n') content.toList)
  if language == inputLanguage then
    if c.input.isEmpty then .ok { c with input := content } else .error (.secondInput line c.name)
  else match Subject.ofText? language with
    | some subject => .ok { c with assertions := c.assertions ++ [⟨subject, content, line⟩] }
    | none => .error (.unknownLanguage line language c.name)

/-- The tests among items, where `c` is the one being read. -/
def collect : Option Case → List Item → Except Error (List Case)
  | none, [] => .ok []
  | some c, [] => return [← c.finish]
  | none, .heading line text :: rest => collect ((testName? text).map (new · line)) rest
  | some c, .heading line text :: rest =>
    match testName? text with
    | none => collect (some c) rest
    | some name => do
      let c ← c.finish
      return c :: (← collect (some (new name line)) rest)
  | none, .fence line language _ :: rest =>
    if language.isEmpty then collect none rest else .error (.outsideTest line language)
  | some c, .fence line language content :: rest =>
    if language.isEmpty then collect (some c) rest
    else do
      let c ← c.addFence line language content
      collect (some c) rest

/-- The tests of a document. -/
def ofDocument (text : String) : Except Error (List Case) := collect none (items text)

end Case

end SmallC.Golden
