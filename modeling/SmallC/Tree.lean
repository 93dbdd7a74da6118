import SmallC.Source.Op
import SmallC.Symbol
import SmallC.Value

/-!
# Programs as trees

A program is a tree of statements and expressions. The same tree type serves
before and after analysis: an expression has room for what analysis finds out
about it, a `Note`, which is empty in a tree fresh from its source. So there is
no table on the side that a node has to be looked up in, and a fact about a
checked node is a fact about the node itself.

An implicit conversion is such a note too. It does not become a node of the
tree: an expression with a conversion is *used* as the converted value, and
every reader of the tree asks for the value as used.

A tree may come from elsewhere than a source text, with parts missing or of the
wrong sort. `missing` stands for an absent expression or statement, an absent
name is `none`, and `Node.foreign` is something that is no part of a program.
-/

namespace SmallC

/-- A conversion applied to the value of an expression. -/
structure Conversion where
  /-- The kind converted to. -/
  dst : Base
  /-- The type of the converted value. -/
  type : Option Ty
deriving DecidableEq, Repr, Inhabited

/-- What analysis finds out about an expression. -/
structure Note where
  /-- The type of the expression before any conversion. -/
  type : Option Ty := none
  /-- The conversion applied to its value. -/
  conv : Option Conversion := none
deriving DecidableEq, Repr, Inhabited

/-- The type of a value as used, that is after conversion. -/
def Note.usedType (n : Note) : Option Ty :=
  match n.conv with
  | some c => c.type
  | none => n.type

/-- A name where it is declared or referred to. -/
structure Ident where
  pos : Pos
  name : String
  /-- What the name stands for. -/
  symbol : Option Symbol := none
  note : Note := {}
deriving DecidableEq, Repr, Inhabited

/-- An expression. -/
inductive Expr where
  | missing
  | literal (pos : Pos) (text : String) (value : Option Value) (note : Note)
  | ident (id : Ident)
  | unary (pos : Pos) (op : Op) (x : Expr) (note : Note)
  | binary (pos : Pos) (op : Op) (x y : Expr) (note : Note)
  | index (pos : Pos) (array : Option Ident) (i : Expr) (note : Note)
  | call (pos : Pos) (func : Option Ident) (args : List Expr) (note : Note)
  /-- An explicit conversion, which no source text can express. -/
  | convert (pos : Pos) (x : Expr) (dst : Base)
deriving Repr, Inhabited

namespace Expr

/-- Where an expression starts. -/
def pos : Expr → Pos
  | missing => .nowhere
  | literal pos _ _ _ | unary pos _ _ _ | binary pos _ _ _ _ | index pos _ _ _ | call pos _ _ _
  | convert pos _ _ => pos
  | ident id => id.pos

/-- What is known about an expression. -/
def note : Expr → Note
  | missing | convert _ _ _ => {}
  | literal _ _ _ note | unary _ _ _ note | binary _ _ _ _ note | index _ _ _ note
  | call _ _ _ note => note
  | ident id => id.note

/-- The same expression with something else known about it. -/
def withNote (note : Note) : Expr → Expr
  | missing => missing
  | convert pos x dst => convert pos x dst
  | literal pos text value _ => literal pos text value note
  | unary pos op x _ => unary pos op x note
  | binary pos op x y _ => binary pos op x y note
  | index pos array i _ => index pos array i note
  | call pos func args _ => call pos func args note
  | ident id => ident { id with note := note }

/-- Whether there is no expression at all. -/
def isMissing : Expr → Bool
  | missing => true
  | _ => false

/-- Whether an expression is a literal. -/
def isLiteral : Expr → Bool
  | literal _ _ _ _ => true
  | _ => false

end Expr

/-- A parameter of a function. -/
structure Param where
  pos : Pos
  type : Option Ident
  name : Option Ident
  isArray : Bool
deriving DecidableEq, Repr, Inhabited

/-- The parameters of a function. -/
structure Params where
  pos : Pos
  list : List (Option Param)
deriving DecidableEq, Repr, Inhabited

mutual

/-- A statement. -/
inductive Stmt where
  | missing
  | call (pos : Pos) (func : Option Ident) (args : List Expr) (note : Note)
  /-- Stores a value. The target is a name or an element of an array. -/
  | assign (pos : Pos) (target value : Expr) (type : Option Ty)
  /-- Declares variables of a scalar type. Each is a name, or an assignment to one. -/
  | varDecl (pos : Pos) (type : Option Ident) (vars : List Node)
  /-- Declares an array and allocates its elements. -/
  | arrayDecl (pos : Pos) (elem name : Option Ident) (size : Expr)
  | ifElse (pos : Pos) (cond : Expr) (yes no : Block)
  | whileLoop (pos : Pos) (cond : Expr) (body : Block)
  /-- A loop with all parts optional. Analysis inserts a condition if there is none. -/
  | forLoop (pos : Pos) (init : Stmt) (cond inserted : Expr) (step : Stmt) (body : Block)
  | block (b : Block)
  | funcDecl (pos : Pos) (result : Option Ident) (isArray : Bool) (name : Option Ident)
      (params : Option Params) (body : Block) (function : Option Function)
  | ret (pos : Pos) (value : Expr)

/-- A sequence of statements, such as a whole program. -/
inductive Block where
  | missing
  | of (pos : Pos) (stmts : List Stmt)

/-- Anything that can stand in a tree. -/
inductive Node where
  | expr (e : Expr)
  | stmt (s : Stmt)
  | param (p : Param)
  | params (ps : Params)
  | foreign (pos : Pos)

end

instance : Inhabited Stmt := ⟨.missing⟩
instance : Inhabited Block := ⟨.missing⟩
instance : Inhabited Node := ⟨.expr .missing⟩

namespace Block

/-- The statements of a block; an absent block has none. -/
def stmts : Block → List Stmt
  | missing => []
  | of _ stmts => stmts

/-- Where a block starts. -/
def pos : Block → Pos
  | missing => .nowhere
  | of pos _ => pos

end Block

namespace Stmt

/-- Where a statement starts. -/
def pos : Stmt → Pos
  | missing => .nowhere
  | call pos _ _ _ | assign pos _ _ _ | varDecl pos _ _ | arrayDecl pos _ _ _ | ifElse pos _ _ _
  | whileLoop pos _ _ | forLoop pos _ _ _ _ _ | funcDecl pos _ _ _ _ _ _ | ret pos _ => pos
  | block b => b.pos

/-- Whether there is no statement at all. -/
def isMissing : Stmt → Bool
  | missing => true
  | _ => false

/-- Whether a statement declares a function. -/
def isFuncDecl : Stmt → Bool
  | funcDecl _ _ _ _ _ _ _ => true
  | _ => false

end Stmt

/-- The parts of a function declaration that lowering needs. -/
structure FuncDecl where
  pos : Pos
  name : Option Ident
  body : Block
  /-- What analysis finds out about the function. -/
  function : Option Function

end SmallC
