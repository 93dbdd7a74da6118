import SmallC.Source.Op
import SmallC.Symbol
import SmallC.Text.Quoted

/-!
# Faults

Two sorts of things go wrong. A program can break a rule of the language: such
a fault has a kind, a place, and one or more causes. Or the compiler can find
itself in a state that no program should bring about: such a fault is internal,
and says that it is a bug.

What went wrong is a `Cause`, one constructor for each reason, and all wording
is in `Cause.text`. A `Fault` puts causes into context. Several faults at once
are a list, and so is the content of a fault that groups others: an empty list
is no fault, a list of one is that fault.
-/

namespace SmallC

/-- The rule of the language that a program breaks. -/
inductive Kind where
  | unknownIdentifier | unknownType | duplicateIdentifier | incompatibleOperator | incompatibleTypes
  | argumentCountMismatch | argumentTypeMismatch | notAnArray | notAFunction
  | nestedFunctionNotSupported | returnOutsideFunction | invalidLiteral | reservedName
  | unnamed (n : Int)
deriving DecidableEq, Repr, Inhabited

namespace Kind

/-- The kinds with a name, in the order of their numbers, which start at one. -/
def all : List Kind :=
  [unknownIdentifier, unknownType, duplicateIdentifier, incompatibleOperator, incompatibleTypes,
   argumentCountMismatch, argumentTypeMismatch, notAnArray, notAFunction,
   nestedFunctionNotSupported, returnOutsideFunction, invalidLiteral, reservedName]

/-- The kind with a given number. -/
def ofNumber (n : Int) : Kind :=
  if n < 1 then unnamed n else (all[n.toNat - 1]?).getD (unnamed n)

/-- How a kind is named in messages. -/
def text : Kind → String
  | unknownIdentifier => "unknown identifier"
  | unknownType => "unknown type"
  | duplicateIdentifier => "duplicate identifier"
  | incompatibleOperator => "incompatible operator"
  | incompatibleTypes => "incompatible types"
  | argumentCountMismatch => "argument count mismatch"
  | argumentTypeMismatch => "argument type mismatch"
  | notAnArray => "not an array"
  | notAFunction => "not a function"
  | nestedFunctionNotSupported => "nested function not supported"
  | returnOutsideFunction => "return outside function"
  | invalidLiteral => "invalid literal"
  | reservedName => "reserved name"
  | unnamed n => "Kind(" ++ toString n ++ ")"

end Kind

/-- What went wrong. -/
inductive Cause where
  /-- Anything said in the words of the caller. -/
  | words (text : String)
  /- Names. -/
  | undefined (name : String)
  | notAType (name : String)
  | redeclared (name : String) (previous : Option Pos)
  | reserved (name : String)
  /- Types. -/
  | inconvertible (src dst : Ty)
  | unaryOperator (op : Op) (x : Ty)
  | binaryOperator (op : Op) (x y : Ty)
  | notArray (name : String) (type : Ty)
  | notFunction (name : String) (type : Ty)
  | argumentCount (name : String) (wanted given : Nat)
  | assignedFunction (name : String)
  /- Functions. -/
  | nestedFunction (name outer : String)
  | strayReturn
  | missingResult (name : String) (result : Ty)
  | unwantedResult (name : String)
  /- Literals. -/
  | integerOverflow (text : String)
  | floatRange (text : String)
  | undecodable (text : String)
  | malformedChar (text : String)
  | unknownEscape (text : String)
  /- Trees that no source text gives rise to. -/
  | noProgram
  | unsupportedStmt (node : String)
  | unsupportedExpr (node : String)
  | undeclarable (node : String)
  | unassignable (node : String)
  | foreignNode
  | absentNode
  /- Misuse of the symbol table. -/
  | strayParameter (name : String)
  | strayVariable (name : String)
  | strayFunction (name : String)
  /- Gaps in an analysis. -/
  | untyped (node : String)
  | unresolved (name : String)
  | uncallable (name : String)
  | uncheckedFunction (name : String)
  | undecoded (text : String)
  | unsupportedOperator (op : Op) (type : Ty)
  | untypedConversion
  | unsupportedConversion (src : Option Ty) (dst : Base)
  | unloadable (id : Symbol)
  | unstorable (id : Symbol)
  | unaddressable (id : Symbol)
  | unsupportedBuiltin (name : String)
  | misplacedLocal (name : String) (place : Nat) (slot : Int)
  | noArgument (place size : Nat)
deriving DecidableEq, Repr, Inhabited

/-- The wording of a cause. -/
def Cause.text : Cause → String
  | words text => text
  | undefined name => name ++ " is not defined"
  | notAType name => name ++ " is not a type"
  | redeclared name (some previous) =>
    name ++ " redeclared, previous declaration at " ++ previous.text
  | redeclared name none => name ++ " redeclared"
  | reserved name => "cannot use " ++ name ++ " as a name"
  | inconvertible src dst => "cannot convert " ++ src.text ++ " to " ++ dst.text
  | unaryOperator op x => "operator " ++ op.text ++ " not applicable to " ++ x.text
  | binaryOperator op x y =>
    "operator " ++ op.text ++ " not applicable to (" ++ x.text ++ ", " ++ y.text ++ ")"
  | notArray name type => name ++ " of type " ++ type.text ++ " is not an array"
  | notFunction name type => name ++ " of type " ++ type.text ++ " is not a function"
  | argumentCount name wanted given =>
    name ++ " expects " ++ toString wanted ++ " arguments but got " ++ toString given
  | assignedFunction name => "cannot assign to function " ++ name
  | nestedFunction name outer => "function " ++ name ++ " declared in function " ++ outer
  | strayReturn => "return statement outside of a function"
  | missingResult name result =>
    "missing return value in function " ++ name ++ " returning " ++ result.text
  | unwantedResult name => "function " ++ name ++ " does not return a value"
  | integerOverflow text => "integer " ++ text ++ " overflows int"
  | floatRange text => "float " ++ text ++ " out of range"
  | undecodable text => "cannot decode " ++ Text.quote text
  | malformedChar text => "malformed character " ++ text
  | unknownEscape text => "unknown escape sequence in " ++ text
  | noProgram => "nil program"
  | unsupportedStmt node => "statement " ++ node ++ " not supported"
  | unsupportedExpr node => "expression " ++ node ++ " not supported"
  | undeclarable node => "cannot declare " ++ node
  | unassignable node => "cannot assign to " ++ node
  | foreignNode => "ast node token.Pos not supported"
  | absentNode => "runtime error: invalid memory address or nil pointer dereference"
  | strayParameter name => "parameter " ++ name ++ " declared outside of a function"
  | strayVariable name => "variable " ++ name ++ " declared in the universe"
  | strayFunction name => "function " ++ name ++ " declared in the universe"
  | untyped node => "no type for expression " ++ node
  | unresolved name => "identifier " ++ name ++ " has not been resolved"
  | uncallable name => name ++ " is not a function"
  | uncheckedFunction name => "function " ++ name ++ " has not been checked"
  | undecoded text => "literal " ++ text ++ " has not been decoded"
  | unsupportedOperator op type => "operator " ++ op.text ++ " not supported on " ++ type.text
  | untypedConversion => "conversion of an expression without a type"
  | unsupportedConversion src dst =>
    "conversion from " ++ (src.map Ty.text).getD "<nil>" ++ " to " ++ dst.text ++ " not supported"
  | unloadable id => "cannot load " ++ id.text
  | unstorable id => "cannot store into " ++ id.text
  | unaddressable id => id.text ++ " has no address"
  | unsupportedBuiltin name => "builtin " ++ name ++ " not supported"
  | misplacedLocal name place slot =>
    "local " ++ name ++ " stored at " ++ toString place ++ " but allocated to slot " ++
      toString slot
  | noArgument place size =>
    "runtime error: index out of range [" ++ toString place ++ "] with length " ++ toString size

/-- A fault. Faults inside a fault are a list: none, one, or several that happened together. -/
inductive Fault where
  /-- A kind, with nothing said about a program. -/
  | kind (k : Kind)
  /-- A cause on its own. -/
  | plain (cause : Cause)
  /-- A cause that remembers where in the compiler it was found. -/
  | traced (cause : Cause)
  /-- Faults met while doing what `context` says. -/
  | within (context : String) (inner : List Fault)
  /-- A bug in the compiler. -/
  | internal (pos : Pos) (inner : List Fault)
  /-- A rule of the language broken at a place. -/
  | located (k : Kind) (pos : Pos) (inner : List Fault)
deriving Repr, Inhabited

namespace Fault

/-- A rule broken for a single reason. -/
def broken (k : Kind) (pos : Pos) (cause : Cause) : Fault := located k pos [traced cause]

/-- A bug found at a place. -/
def bug (pos : Pos) (cause : Cause) : Fault := internal pos [traced cause]

/-- A bug met at no place in particular. -/
def crash (cause : Cause) : Fault := internal .nowhere [plain cause]

/-- Groups faults under one kind and place, if there are any. -/
def aggregate? (k : Kind) (pos : Pos) : List Fault → Option Fault
  | [] => none
  | inner => some (located k pos inner)

/-- A place in front of a text, if it is a place at all. -/
def placed (pos : Pos) (text : String) : String :=
  if pos.isValid then pos.text ++ ": " ++ text else text

/-- What an internal fault says before its cause. -/
def bugText : String :=
  "minic internal error. This is a bug in minic. Please report it. Error:\n"

mutual

/-- The message of a fault. -/
def message : Fault → String
  | kind k => k.text
  | plain cause => cause.text
  | traced cause => cause.text
  | within context inner => context ++ ": " ++ Text.join "; " (messages inner)
  | internal pos inner =>
    bugText ++ placed pos
      (if inner.isEmpty then "%!s(<nil>)" else Text.join "; " (messages inner))
  | located k pos inner =>
    placed pos
      (if inner.isEmpty then k.text else k.text ++ ": " ++ Text.join "; " (messages inner))

/-- The messages of faults. -/
def messages : List Fault → List String
  | [] => []
  | f :: rest => f.message :: messages rest

end

mutual

/-- Whether a fault, or one inside it, is internal. -/
def isInternal : Fault → Bool
  | kind _ | plain _ | traced _ => false
  | within _ inner | located _ _ inner => anyInternal inner
  | internal _ _ => true

/-- Whether one of several faults is internal. -/
def anyInternal : List Fault → Bool
  | [] => false
  | f :: rest => f.isInternal || anyInternal rest

end

mutual

/-- Whether a fault, or one inside it, is of a given kind. -/
def hasKind (k : Kind) : Fault → Bool
  | kind k' => k == k'
  | plain _ | traced _ => false
  | within _ inner | internal _ inner => anyHasKind k inner
  | located k' _ inner => k == k' || anyHasKind k inner

/-- Whether one of several faults is of a given kind. -/
def anyHasKind (k : Kind) : List Fault → Bool
  | [] => false
  | f :: rest => f.hasKind k || anyHasKind k rest

end

mutual

/-- Whether a fault, or one inside it, remembers where in the compiler it was found. -/
def isTraced : Fault → Bool
  | kind _ | plain _ => false
  | traced _ | within _ _ => true
  | internal _ inner | located _ _ inner => anyTraced inner

/-- Whether one of several faults remembers where in the compiler it was found. -/
def anyTraced : List Fault → Bool
  | [] => false
  | f :: rest => f.isTraced || anyTraced rest

end

mutual

/-- The outermost broken rule of a fault, with its place. -/
def rule? : Fault → Option (Kind × Pos)
  | kind _ | plain _ | traced _ => none
  | within _ inner | internal _ inner => anyRule? inner
  | located k pos _ => some (k, pos)

/-- The outermost broken rule of the first of several faults that has one. -/
def anyRule? : List Fault → Option (Kind × Pos)
  | [] => none
  | f :: rest => f.rule?.or (anyRule? rest)

end

end Fault

/-- Several faults at once: none, one, or more. -/
abbrev Faults := List Fault

namespace Faults

/-- The messages of all faults, one after the other. -/
def message (fs : Faults) : String := Text.join "; " (Fault.messages fs)

/-- Adds a context to what went wrong; nothing stays nothing. -/
def within (context : String) : Faults → Faults
  | [] => []
  | fs => [Fault.within context fs]

end Faults

end SmallC
