import SmallC.Tree

/-!
# Changing what is known about a tree

An `Edit` says how each sort of note is changed; applying it changes the notes
all over a tree and leaves its shape alone. Taking the notes away again, giving
every node another place, or describing a symbol differently are all edits.
-/

namespace SmallC

/-- How to change the notes and places of a tree. -/
structure Edit where
  pos : Pos → Pos := id
  type : Option Ty → Option Ty := id
  conv : Option Conversion → Option Conversion := id
  symbol : Option Symbol → Option Symbol := id
  value : Option Value → Option Value := id
  function : Option Function → Option Function := id

namespace Edit

/-- Changes a note. A conversion keeps its own type, which is a type like any other. -/
def note (ed : Edit) (n : Note) : Note :=
  ⟨ed.type n.type, ed.conv (n.conv.map fun c => { c with type := ed.type c.type })⟩

/-- Changes a name. -/
def ident (ed : Edit) (id : Ident) : Ident :=
  ⟨ed.pos id.pos, id.name, ed.symbol id.symbol, ed.note id.note⟩

/-- Changes a parameter. -/
def param (ed : Edit) (p : Param) : Param :=
  ⟨ed.pos p.pos, p.type.map ed.ident, p.name.map ed.ident, p.isArray⟩

/-- Changes a parameter list. -/
def params (ed : Edit) (ps : Params) : Params :=
  ⟨ed.pos ps.pos, ps.list.map fun p => p.map ed.param⟩

mutual

/-- Changes an expression. -/
def expr (ed : Edit) : Expr → Expr
  | .missing => .missing
  | .literal pos text value note => .literal (ed.pos pos) text (ed.value value) (ed.note note)
  | .ident id => .ident (ed.ident id)
  | .unary pos op x note => .unary (ed.pos pos) op (ed.expr x) (ed.note note)
  | .binary pos op x y note => .binary (ed.pos pos) op (ed.expr x) (ed.expr y) (ed.note note)
  | .index pos array i note =>
    .index (ed.pos pos) (array.map ed.ident) (ed.expr i) (ed.note note)
  | .call pos func args note =>
    .call (ed.pos pos) (func.map ed.ident) (ed.exprs args) (ed.note note)
  | .convert pos x dst => .convert (ed.pos pos) (ed.expr x) dst

/-- Changes expressions. -/
def exprs (ed : Edit) : List Expr → List Expr
  | [] => []
  | e :: rest => ed.expr e :: ed.exprs rest

end

mutual

/-- Changes a statement. -/
def stmt (ed : Edit) : Stmt → Stmt
  | .missing => .missing
  | .call pos func args note =>
    .call (ed.pos pos) (func.map ed.ident) (ed.exprs args) (ed.note note)
  | .assign pos target value type =>
    .assign (ed.pos pos) (ed.expr target) (ed.expr value) (ed.type type)
  | .varDecl pos type vars => .varDecl (ed.pos pos) (type.map ed.ident) (ed.nodes vars)
  | .arrayDecl pos elem name size =>
    .arrayDecl (ed.pos pos) (elem.map ed.ident) (name.map ed.ident) (ed.expr size)
  | .ifElse pos cond yes no => .ifElse (ed.pos pos) (ed.expr cond) (ed.block yes) (ed.block no)
  | .whileLoop pos cond body => .whileLoop (ed.pos pos) (ed.expr cond) (ed.block body)
  | .forLoop pos init cond inserted step body =>
    .forLoop (ed.pos pos) (ed.stmt init) (ed.expr cond) (ed.expr inserted) (ed.stmt step)
      (ed.block body)
  | .block b => .block (ed.block b)
  | .funcDecl pos result isArray name params body function =>
    .funcDecl (ed.pos pos) (result.map ed.ident) isArray (name.map ed.ident)
      (params.map ed.params) (ed.block body) (ed.function function)
  | .ret pos value => .ret (ed.pos pos) (ed.expr value)

/-- Changes a block. -/
def block (ed : Edit) : Block → Block
  | .missing => .missing
  | .of pos stmts => .of (ed.pos pos) (ed.stmts stmts)

/-- Changes statements. -/
def stmts (ed : Edit) : List Stmt → List Stmt
  | [] => []
  | s :: rest => ed.stmt s :: ed.stmts rest

/-- Changes any node. -/
def node (ed : Edit) : Node → Node
  | .expr e => .expr (ed.expr e)
  | .stmt s => .stmt (ed.stmt s)
  | .param p => .param (ed.param p)
  | .params ps => .params (ed.params ps)
  | .foreign pos => .foreign (ed.pos pos)

/-- Changes nodes. -/
def nodes (ed : Edit) : List Node → List Node
  | [] => []
  | n :: rest => ed.node n :: ed.nodes rest

end

/-- Describes symbols differently, wherever they are mentioned. -/
def ofSymbols (change : Symbol → Symbol) : Edit where
  symbol := Option.map change
  function := Option.map fun f =>
    { f with
      symbol := f.symbol.map change
      params := f.params.map change
      locals := f.locals.map change }

end Edit

end SmallC
