import SmallC.Fresh
import SmallC.Listing
import SmallC.Value

/-!
# LLVM instructions

The part of the LLVM intermediate representation that is needed. Every variable
has a place in memory, so there are no phi nodes: a value that outlives its
block is stored and loaded again. An array is a pointer to its first element.

Code is a flat list in which labels are instructions of their own. A block runs
from a label to the first instruction that leaves it.

A scalar kind without a name has no type here. Where a tree was tampered with
and such a kind turns up, the name of its type is empty.
-/

namespace SmallC.Llvm

/-- The type of an operand. -/
inductive IrType where
  | void | i32 | i8 | double | i1 | ptr | i64
  | unknown
deriving DecidableEq, Repr

namespace IrType

/-- The name of a type. -/
def text : IrType → String
  | void => "void"
  | i32 => "i32"
  | i8 => "i8"
  | double => "double"
  | i1 => "i1"
  | ptr => "ptr"
  | i64 => "i64"
  | unknown => ""

/-- The type of a scalar. -/
def ofBase : Base → IrType
  | .void => void
  | .int => i32
  | .char => i8
  | .float => double
  | .bool => i1
  | .unnamed _ => unknown

/-- The type that stands for a type of the language. -/
def ofTy : Ty → IrType
  | .array _ => ptr
  | t => ofBase t.kind

/-- How the zero of a type is written; `void` has none. -/
def zeroText : IrType → String
  | i32 | i8 | i64 => "0"
  | double => "0.0"
  | i1 => "false"
  | ptr => "null"
  | void | unknown => ""

end IrType

/-- The number of bytes of an element of an array. -/
def elementSize : Base → Nat
  | .int => 4
  | .char => 1
  | .float => 8
  | .bool => 1
  | .void | .unnamed _ => 0

/-- What the builtin functions are made of: formats for output and input, places to read into, and
functions of the C library. -/
inductive Support where
  | fmtInt | fmtFloat | fmtChar | fmtStr
  | strTrue | strFalse
  | scanInt | scanFloat | scanChar | scanStr
  | readInt | readFloat | readChar
  | printf | scanf | calloc
deriving DecidableEq, Repr

/-- The size of the buffer for a string that is read, its terminating zero included. -/
def readBufferSize : Nat := 256

namespace Support

/-- All of it, in the order in which a module declares it. -/
def all : List Support :=
  [fmtInt, fmtFloat, fmtChar, fmtStr, strTrue, strFalse, scanInt, scanFloat, scanChar, scanStr,
   readInt, readFloat, readChar, printf, scanf, calloc]

/-- The name under which it is declared. -/
def name : Support → String
  | fmtInt => ".fmt.int"
  | fmtFloat => ".fmt.float"
  | fmtChar => ".fmt.char"
  | fmtStr => ".fmt.str"
  | strTrue => ".str.true"
  | strFalse => ".str.false"
  | scanInt => ".scan.int"
  | scanFloat => ".scan.float"
  | scanChar => ".scan.char"
  | scanStr => ".scan.str"
  | readInt => ".read.int"
  | readFloat => ".read.float"
  | readChar => ".read.char"
  | printf => "printf"
  | scanf => "scanf"
  | calloc => "calloc"

/-- A character of a string constant. -/
def stringChar (c : Char) : String :=
  match c with
  | '\n' => "\\0A"
  | '"' => "\\22"
  | c => c.toString

/-- The declaration of a string that ends with a zero. -/
def stringDecl (name text : String) : String :=
  "@" ++ name ++ " = private unnamed_addr constant [" ++ toString (text.utf8ByteSize + 1) ++
    " x i8] c\"" ++ String.join (text.toList.map stringChar) ++ "\\00\""

/-- The declaration of a place to read into. -/
def placeDecl (name : String) (type : IrType) : String :=
  "@" ++ name ++ " = private global " ++ type.text ++ " " ++ type.zeroText

/-- The declaration. -/
def decl (s : Support) : String :=
  match s with
  | fmtInt => stringDecl s.name "%d\n"
  | fmtFloat => stringDecl s.name "%f\n"
  | fmtChar => stringDecl s.name "%c\n"
  | fmtStr => stringDecl s.name "%s\n"
  | strTrue => stringDecl s.name "true"
  | strFalse => stringDecl s.name "false"
  | scanInt => stringDecl s.name " %d"
  | scanFloat => stringDecl s.name " %lf"
  | scanChar => stringDecl s.name " %c"
  | scanStr => stringDecl s.name (" %" ++ toString (readBufferSize - 1) ++ "s")
  | readInt => placeDecl s.name .i32
  | readFloat => placeDecl s.name .double
  | readChar => placeDecl s.name .i8
  | printf | scanf => "declare i32 @" ++ s.name ++ "(ptr, ...)"
  | calloc => "declare ptr @" ++ s.name ++ "(i64, i64)"

/-- The functions of the C library, whose names a program may want for itself. -/
def functions : List Support := [printf, scanf, calloc]

end Support

/-- What a global name stands for. -/
inductive Global where
  /-- A variable or function of the program. -/
  | user (name : String)
  | support (s : Support)
  /-- The function that does what the program does outside of its functions. -/
  | initializer
deriving DecidableEq, Repr

/-- A global name. A name of the program that the C library has taken gets a suffix. -/
def Global.text : Global → String
  | user name =>
    if Support.functions.any (·.name == name) then "@" ++ name ++ ".user" else "@" ++ name
  | support s => "@" ++ s.name
  | initializer => "@minic.init"

/-- A place to branch to. Its number tells control structures apart. -/
inductive Label where
  | entry
  | ifThen (n : Nat)
  | ifElse (n : Nat)
  | ifEnd (n : Nat)
  | loopBody (n : Nat)
  | loopCond (n : Nat)
  | loopEnd (n : Nat)
  /-- Code that follows an instruction that leaves its block. -/
  | after (n : Nat)
deriving DecidableEq, Repr

/-- The name of a label. Only `entry` has no point in it, and names of values all have one. -/
def Label.text : Label → String
  | entry => "entry"
  | ifThen n => "if.then." ++ toString n
  | ifElse n => "if.else." ++ toString n
  | ifEnd n => "if.end." ++ toString n
  | loopBody n => "while.body." ++ toString n
  | loopCond n => "while.cond." ++ toString n
  | loopEnd n => "while.end." ++ toString n
  | after n => "ret.after." ++ toString n

/-- A register, named by a root and a number. -/
structure Reg where
  root : String
  number : Nat
deriving DecidableEq, Repr

/-- An operand. -/
inductive Operand where
  /-- The result of a call that has none. -/
  | nothing
  | int (n : Int)
  | bool (b : Bool)
  /-- A number, given by its double-precision bits. -/
  | float (bits : UInt64)
  | zero (type : IrType)
  | reg (r : Reg)
  /-- A parameter as it is passed. -/
  | arg (name : String)
  /-- The place of a parameter or a local. -/
  | slot (name : String)
  | global (g : Global)
deriving DecidableEq, Repr

/-- The bits of a number in upper-case hexadecimal, all sixteen digits. -/
def bitsText (bits : UInt64) : String :=
  let digits := (Nat.toDigits 16 bits.toNat).map Char.toUpper
  "0x" ++ String.ofList (List.replicate (16 - digits.length) '0' ++ digits)

/-- An operand as it is written. -/
def Operand.text : Operand → String
  | nothing => ""
  | int n => toString n
  | bool b => if b then "true" else "false"
  | float bits => bitsText bits
  | zero type => type.zeroText
  | reg r => "%" ++ Fresh.name r.root r.number
  | arg name => "%" ++ name ++ ".arg"
  | slot name => "%" ++ name ++ ".addr"
  | global g => g.text

/-- How two integers or pointers are compared. -/
inductive IntCmp where
  | eq | ne | slt | sle | sgt | sge | ult | ule | ugt | uge
deriving DecidableEq, Repr

/-- The name of a comparison. -/
def IntCmp.text : IntCmp → String
  | eq => "eq" | ne => "ne"
  | slt => "slt" | sle => "sle" | sgt => "sgt" | sge => "sge"
  | ult => "ult" | ule => "ule" | ugt => "ugt" | uge => "uge"

/-- How two numbers are compared. -/
inductive FloatCmp where
  | oeq | une | olt | ole | ogt | oge
deriving DecidableEq, Repr

/-- The name of a comparison. -/
def FloatCmp.text : FloatCmp → String
  | oeq => "oeq" | une => "une" | olt => "olt" | ole => "ole" | ogt => "ogt" | oge => "oge"

/-- An instruction on two operands of one type. -/
inductive BinOp where
  | add | sub | mul | sdiv
  | and | or | xor
  | fadd | fsub | fmul | fdiv
  | icmp (c : IntCmp)
  | fcmp (c : FloatCmp)
deriving DecidableEq, Repr

/-- The first word of an instruction, after which its result is named. -/
def BinOp.mnemonic : BinOp → String
  | add => "add" | sub => "sub" | mul => "mul" | sdiv => "sdiv"
  | and => "and" | or => "or" | xor => "xor"
  | fadd => "fadd" | fsub => "fsub" | fmul => "fmul" | fdiv => "fdiv"
  | icmp _ => "icmp"
  | fcmp _ => "fcmp"

/-- The name of an instruction. -/
def BinOp.text : BinOp → String
  | icmp c => "icmp " ++ c.text
  | fcmp c => "fcmp " ++ c.text
  | op => op.mnemonic

/-- An instruction that changes the type of an operand. -/
inductive Cast where
  | sitofp | uitofp | fptosi | fptoui | trunc | zext | sext
deriving DecidableEq, Repr

/-- The name of an instruction. -/
def Cast.text : Cast → String
  | sitofp => "sitofp" | uitofp => "uitofp" | fptosi => "fptosi" | fptoui => "fptoui"
  | trunc => "trunc" | zext => "zext" | sext => "sext"

/-- An operand with its type. -/
structure Typed where
  type : IrType
  operand : Operand
deriving DecidableEq, Repr

/-- A pointer operand. -/
def Typed.ptr (operand : Operand) : Typed := ⟨.ptr, operand⟩

/-- An operand after its type. -/
def Typed.text (t : Typed) : String := t.type.text ++ " " ++ t.operand.text

/-- An instruction. -/
inductive Instr where
  | label (l : Label)
  /-- Makes a place for a parameter or a local. -/
  | alloca (name : String) (type : IrType)
  | store (value : Typed) (addr : Operand)
  | load (dest : Reg) (type : IrType) (addr : Operand)
  | binary (dest : Reg) (op : BinOp) (x : Typed) (y : Operand)
  | fneg (dest : Reg) (x : Operand)
  | cast (dest : Reg) (op : Cast) (x : Typed) (type : IrType)
  /-- The address of an element of an array. -/
  | element (dest : Reg) (elem : IrType) (base index : Operand)
  | select (dest : Reg) (cond yes no : Operand)
  /-- Calls a function. One of those that take any number of arguments is called with its type. -/
  | call (dest : Option Reg) (result : IrType) (variadic : Bool) (callee : Global)
      (args : List Typed)
  | br (l : Label)
  | condBr (cond : Operand) (yes no : Label)
  | ret (value : Option Typed)
  | unreachable
deriving DecidableEq, Repr

namespace Instr

/-- Whether control leaves the block after an instruction. -/
def isTerminator : Instr → Bool
  | br _ | condBr _ _ _ | ret _ | unreachable => true
  | _ => false

/-- The register that an instruction defines. -/
def dest? : Instr → Option Reg
  | load dest _ _ | binary dest _ _ _ | fneg dest _ | cast dest _ _ _ | element dest _ _ _
  | select dest _ _ _ => some dest
  | call dest _ _ _ _ => dest
  | label _ | alloca _ _ | store _ _ | br _ | condBr _ _ _ | ret _ | unreachable => none

/-- The operands of an instruction with the types they are used at. -/
def operands : Instr → List Typed
  | label _ | alloca _ _ | br _ | unreachable => []
  | store value addr => [value, .ptr addr]
  | load _ _ addr => [.ptr addr]
  | binary _ _ x y => [x, ⟨x.type, y⟩]
  | fneg _ x => [⟨.double, x⟩]
  | cast _ _ x _ => [x]
  | element _ _ base index => [.ptr base, ⟨.i32, index⟩]
  | select _ cond yes no => [⟨.i1, cond⟩, .ptr yes, .ptr no]
  | call _ _ _ callee args => .ptr (.global callee) :: args
  | condBr cond _ _ => [⟨.i1, cond⟩]
  | ret value => value.toList

/-- The places that an instruction can branch to. -/
def targets : Instr → List Label
  | br l => [l]
  | condBr _ yes no => [yes, no]
  | _ => []

/-- A label as an operand. -/
def labelText (l : Label) : String := "label %" ++ l.text

/-- An instruction that defines a register. -/
def definition (dest : Reg) (op : String) (args : List String) : Listing.Instr :=
  { dest := (Operand.reg dest).text, op, args }

/-- What a call says after its first word. -/
def callText (result : IrType) (variadic : Bool) (callee : Global) (args : List Typed) : String :=
  result.text ++ (if variadic then " (ptr, ...) " else " ") ++ callee.text ++ "(" ++
    Text.join ", " (args.map Typed.text) ++ ")"

/-- An instruction as it is written. -/
def render : Instr → Listing.Instr
  | label l => { label := l.text }
  | alloca name type => { dest := (Operand.slot name).text, op := "alloca", args := [type.text] }
  | store value addr => { op := "store", args := [value.text, (Typed.ptr addr).text] }
  | load dest type addr => definition dest "load" [type.text, (Typed.ptr addr).text]
  | binary dest op x y => definition dest op.text [x.text, y.text]
  | fneg dest x => definition dest "fneg" [(Typed.mk .double x).text]
  | cast dest op x type => definition dest op.text [x.text ++ " to " ++ type.text]
  | element dest elem base index =>
    definition dest "getelementptr" [elem.text, (Typed.ptr base).text, (Typed.mk .i32 index).text]
  | select dest cond yes no =>
    definition dest "select"
      [(Typed.mk .i1 cond).text, (Typed.ptr yes).text, (Typed.ptr no).text]
  | call (some dest) result variadic callee args =>
    definition dest "call" [callText result variadic callee args]
  | call none result variadic callee args =>
    { op := "call", args := [callText result variadic callee args] }
  | br l => { op := "br", args := [labelText l] }
  | condBr cond yes no =>
    { op := "br", args := [(Typed.mk .i1 cond).text, labelText yes, labelText no] }
  | ret none => { op := "ret", args := ["void"] }
  | ret (some value) => { op := "ret", args := [value.text] }
  | unreachable => { op := "unreachable" }

end Instr

end SmallC.Llvm
