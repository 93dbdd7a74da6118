import SmallC.Decimal.Layout
import SmallC.Listing
import SmallC.Value

/-!
# CIL instructions

The stack machine of the Common Intermediate Language, as far as it is needed. A
program becomes a class, so a global is a static field of it and a function a
static method. Instructions are data here; how they are written is in `render`.

A scalar kind without a name has no place on this machine. Where a tree was
tampered with and such a kind turns up, its name is empty.
-/

namespace SmallC.Cil

/-- The class that holds the methods and fields of a program. -/
def className : String := "Program"

/-- The name of a scalar kind in signatures. -/
def kindName : Base → String
  | .void => "void"
  | .int => "int32"
  | .char => "char"
  | .float => "float32"
  | .bool => "bool"
  | .unnamed _ => ""

/-- The name of a type in signatures. -/
def typeName : Ty → String
  | .array elem => kindName elem ++ "[]"
  | t => kindName t.kind

/-- The class of the elements of a new array. -/
def elementClass : Base → String
  | .int => "[mscorlib]System.Int32"
  | .char => "[mscorlib]System.Char"
  | .float => "[mscorlib]System.Single"
  | .bool => "[mscorlib]System.Boolean"
  | .void | .unnamed _ => ""

/-- The instruction that stores an element. -/
def storeElement : Base → String
  | .int => "stelem.i4"
  | .char => "stelem.i2"
  | .float => "stelem.r4"
  | .bool => "stelem.i1"
  | .void | .unnamed _ => ""

/-- The instruction that loads an element. -/
def loadElement : Base → String
  | .int => "ldelem.i4"
  | .char => "ldelem.u2"
  | .float => "ldelem.r4"
  | .bool => "ldelem.u1"
  | .void | .unnamed _ => ""

/-- A place to branch to. Its number tells control structures apart. -/
inductive Label where
  | ifFalse (n : Nat)
  | ifEnd (n : Nat)
  | loopBody (n : Nat)
  | loopCtrl (n : Nat)
deriving DecidableEq, Repr

/-- The name of a label. -/
def Label.text : Label → String
  | ifFalse n => "IL_IF_FALSE_" ++ toString n
  | ifEnd n => "IL_IF_END_" ++ toString n
  | loopBody n => "IL_WHILE_BODY_" ++ toString n
  | loopCtrl n => "IL_WHILE_CTRL_" ++ toString n

/-- A method of the class library. -/
inductive Library where
  | write (kind : Base)
  | writeString
  | newString
  | readLine
  | parse (kind : Base)
  | charAt
  | toChars
deriving DecidableEq, Repr

/-- An instruction. -/
inductive Instr where
  /-- Pushes a 32-bit integer, written in hexadecimal. -/
  | ldcHex (n : Int)
  /-- Pushes an integer, written in decimal. -/
  | ldcDec (n : Int)
  /-- Pushes an integer of one byte. -/
  | ldcShort (n : Int)
  | ldcZero
  | ldcOne
  /-- Pushes a number of single precision, given by its double-precision bits. -/
  | ldcReal (bits : UInt64)
  | ldnull
  | add | sub | mul | div | neg
  | and | or | xor
  | ceq | cgt | clt | cgtUn | cltUn
  | convR4 | convI4 | convU2
  | ldarg (name : String)
  | starg (name : String)
  | ldloc (name : String)
  | stloc (name : String)
  | ldsfld (type : Ty) (name : String)
  | stsfld (type : Ty) (name : String)
  | newarr (elem : Base)
  | ldelem (elem : Base)
  | stelem (elem : Base)
  /-- Calls a method of the program. -/
  | call (result : Ty) (name : String) (params : List Ty)
  | library (m : Library)
  | pop | ret | nop
  | br (l : Label)
  | brtrue (l : Label)
  | brfalse (l : Label)
  | label (l : Label)
deriving DecidableEq, Repr

/-- An integer as a 32-bit word in upper-case hexadecimal. -/
def wordText (n : Int) : String :=
  "0x" ++ String.ofList ((Nat.toDigits 16 (n % 0x100000000).toNat).map Char.toUpper)

/-- A number of single precision. It is written with a point, and the infinities by their bits. -/
def realText (bits : UInt64) : String :=
  match Decimal.Format.single.decode (Float.ofBits bits).toFloat32.toBits.toNat with
  | .infinite false => "float32(0x7F800000)"
  | .infinite true => "float32(0xFF800000)"
  | x =>
    let text := x.text Decimal.Digits.plain
    if text.toList.contains '.' then text else text ++ ".0"

/-- A field of the program with its type. -/
def fieldText (type : Ty) (name : String) : String :=
  typeName type ++ " " ++ className ++ "::" ++ name

/-- A call of a method of the class library. -/
def Library.render : Library → Listing.Instr
  | write kind =>
    { op := "call", args := ["void [mscorlib]System.Console::WriteLine(" ++ kindName kind ++ ")"] }
  | writeString =>
    { op := "call", args := ["void [mscorlib]System.Console::WriteLine(string)"] }
  | newString =>
    { op := "newobj", args := ["instance void [mscorlib]System.String::.ctor(char[])"] }
  | readLine => { op := "call", args := ["string [mscorlib]System.Console::ReadLine()"] }
  | parse kind =>
    { op := "call", args := [kindName kind ++ " " ++ elementClass kind ++ "::Parse(string)"] }
  | charAt =>
    { op := "callvirt", args := ["instance char [mscorlib]System.String::get_Chars(int32)"] }
  | toChars =>
    { op := "callvirt", args := ["instance char[] [mscorlib]System.String::ToCharArray()"] }

/-- An instruction as it is written. -/
def Instr.render : Instr → Listing.Instr
  | ldcHex n => { op := "ldc.i4", args := [wordText n] }
  | ldcDec n => { op := "ldc.i4", args := [toString n] }
  | ldcShort n => { op := "ldc.i4.s", args := [toString n] }
  | ldcZero => { op := "ldc.i4.0" }
  | ldcOne => { op := "ldc.i4.1" }
  | ldcReal bits => { op := "ldc.r4", args := [realText bits] }
  | ldnull => { op := "ldnull" }
  | add => { op := "add" }
  | sub => { op := "sub" }
  | mul => { op := "mul" }
  | div => { op := "div" }
  | neg => { op := "neg" }
  | and => { op := "and" }
  | or => { op := "or" }
  | xor => { op := "xor" }
  | ceq => { op := "ceq" }
  | cgt => { op := "cgt" }
  | clt => { op := "clt" }
  | cgtUn => { op := "cgt.un" }
  | cltUn => { op := "clt.un" }
  | convR4 => { op := "conv.r4" }
  | convI4 => { op := "conv.i4" }
  | convU2 => { op := "conv.u2" }
  | ldarg name => { op := "ldarg.s", args := [name] }
  | starg name => { op := "starg.s", args := [name] }
  | ldloc name => { op := "ldloc.s", args := [name] }
  | stloc name => { op := "stloc.s", args := [name] }
  | ldsfld type name => { op := "ldsfld", args := [fieldText type name] }
  | stsfld type name => { op := "stsfld", args := [fieldText type name] }
  | newarr elem => { op := "newarr", args := [elementClass elem] }
  | ldelem elem => { op := loadElement elem }
  | stelem elem => { op := storeElement elem }
  | call result name params =>
    { op := "call"
      args := [fieldText result name ++ "(" ++ Text.join ", " (params.map typeName) ++ ")"] }
  | library m => m.render
  | pop => { op := "pop" }
  | ret => { op := "ret" }
  | nop => { op := "nop" }
  | br l => { op := "br", args := [l.text] }
  | brtrue l => { op := "brtrue", args := [l.text] }
  | brfalse l => { op := "brfalse", args := [l.text] }
  | label l => { label := l.text }

end SmallC.Cil
