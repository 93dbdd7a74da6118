import SmallC.Fault
import SmallC.Tree

/-!
# Walking through a tree

The children of a node are its parts in source order, absent parts left out. An
`Outline` is a tree of nothing but nodes and their children, so that a walk in
depth-first order has one rule instead of one for each sort of node.

What is no part of a program has no children to speak of: a walk that wants to
go below it fails.
-/

namespace SmallC

namespace Expr

/-- The name of the sort of an expression. -/
def sort : Expr → String
  | missing => ""
  | literal _ _ _ _ => "Literal"
  | ident _ => "Ident"
  | unary _ _ _ _ => "Unary"
  | binary _ _ _ _ _ => "Binary"
  | index _ _ _ _ => "Index"
  | call _ _ _ _ => "Call"
  | convert _ _ _ => "TypeConversion"

/-- The sort of an expression as messages name it. -/
def typeText (e : Expr) : String := if e.isMissing then "<nil>" else "*ast." ++ e.sort

end Expr

namespace Stmt

/-- The name of the sort of a statement. -/
def sort : Stmt → String
  | missing => ""
  | call _ _ _ _ => "Call"
  | assign _ _ _ _ => "Assign"
  | varDecl _ _ _ => "VarDecl"
  | arrayDecl _ _ _ _ => "ArrayDecl"
  | ifElse _ _ _ _ => "If"
  | whileLoop _ _ _ => "While"
  | forLoop _ _ _ _ _ _ => "For"
  | block _ => "StmtList"
  | funcDecl _ _ _ _ _ _ _ => "FunctionDecl"
  | ret _ _ => "Return"

/-- The sort of a statement as messages name it. -/
def typeText (s : Stmt) : String := if s.isMissing then "<nil>" else "*ast." ++ s.sort

end Stmt

namespace Node

/-- Where a node starts. -/
def pos : Node → Pos
  | expr e => e.pos
  | stmt s => s.pos
  | param p => p.pos
  | params ps => ps.pos
  | foreign pos => pos

/-- The name of the sort of a node. -/
def sort : Node → String
  | expr e => e.sort
  | stmt s => s.sort
  | param _ => "Argument"
  | params _ => "ArgumentList"
  | foreign _ => "token.Pos"

/-- The sort of a node as messages name it. -/
def typeText : Node → String
  | expr e => e.typeText
  | stmt s => s.typeText
  | foreign _ => "token.Pos"
  | n => "*ast." ++ n.sort

/-- What tells a node from others of its sort. -/
def detail : Node → String
  | expr (.literal _ text _ _) => " " ++ text
  | expr (.ident id) => " " ++ id.name
  | expr (.unary _ op _ _) => " " ++ op.text
  | expr (.binary _ op _ _ _) => " " ++ op.text
  | expr (.convert _ _ dst) => " " ++ dst.text
  | stmt (.funcDecl _ _ true _ _ _ _) => " []"
  | param p => if p.isArray then " []" else ""
  | _ => ""

/-- A short description of a node: `Binary@1:18 +`. -/
def label (n : Node) : String := n.sort ++ "@" ++ n.pos.text ++ n.detail

/-- What is known about the value of a node. -/
def note : Node → Note
  | expr e => e.note
  | stmt (.call _ _ _ note) => note
  | stmt (.assign _ _ _ type) => { type := type }
  | _ => {}

/-- The expression at a node, if it is one. A call is an expression also where it is a statement. -/
def expr? : Node → Option Expr
  | expr e => some e
  | stmt (.call pos func args note) => some (.call pos func args note)
  | _ => none

/-- The condition that analysis inserted in a loop without one. -/
def inserted : Node → List Node
  | stmt (.forLoop _ _ .missing cond _ _) => if cond.isMissing then [] else [expr cond]
  | _ => []

end Node

/-- A tree of nodes and their children. -/
inductive Outline where
  | node (n : Node) (children : List Outline)

namespace Outline

/-- A node without children. -/
def leaf (n : Node) : Outline := node n []

/-- The node at the top. -/
def top : Outline → Node
  | node n _ => n

/-- The parts below the top. -/
def children : Outline → List Outline
  | node _ children => children

/-- The outline of a name, if there is one. -/
def ofIdent (id : Option Ident) : List Outline := id.toList.map fun id => leaf (.expr (.ident id))

/-- The outline of a parameter. -/
def ofParam (p : Param) : Outline := node (.param p) (ofIdent p.type ++ ofIdent p.name)

/-- The outline of a parameter list, if there is one. -/
def ofParams (ps : Option Params) : List Outline :=
  ps.toList.map fun ps => node (.params ps) ((ps.list.filterMap id).map ofParam)

mutual

/-- The outline of an expression, if there is one. -/
def ofExpr : Expr → List Outline
  | .missing => []
  | e@(.literal _ _ _ _) => [leaf (.expr e)]
  | .ident id => [leaf (.expr (.ident id))]
  | e@(.unary _ _ x _) => [node (.expr e) (ofExpr x)]
  | e@(.binary _ _ x y _) => [node (.expr e) (ofExpr x ++ ofExpr y)]
  | e@(.index _ array i _) => [node (.expr e) (ofIdent array ++ ofExpr i)]
  | e@(.call _ func args _) => [node (.expr e) (ofIdent func ++ ofExprs args)]
  | e@(.convert _ x _) => [node (.expr e) (ofExpr x)]

/-- The outlines of expressions. -/
def ofExprs : List Expr → List Outline
  | [] => []
  | e :: rest => ofExpr e ++ ofExprs rest

end

mutual

/-- The outline of a statement, if there is one. -/
def ofStmt : Stmt → List Outline
  | .missing => []
  | s@(.call _ func args _) => [node (.stmt s) (ofIdent func ++ ofExprs args)]
  | s@(.assign _ target value _) => [node (.stmt s) (ofExpr target ++ ofExpr value)]
  | s@(.varDecl _ type vars) => [node (.stmt s) (ofIdent type ++ ofNodes vars)]
  | s@(.arrayDecl _ elem name size) =>
    [node (.stmt s) (ofIdent elem ++ ofIdent name ++ ofExpr size)]
  | s@(.ifElse _ cond yes no) => [node (.stmt s) (ofExpr cond ++ ofBlock yes ++ ofBlock no)]
  | s@(.whileLoop _ cond body) => [node (.stmt s) (ofExpr cond ++ ofBlock body)]
  | s@(.forLoop _ init cond _ step body) =>
    [node (.stmt s) (ofStmt init ++ ofExpr cond ++ ofStmt step ++ ofBlock body)]
  | .block b => ofBlock b
  | s@(.funcDecl _ result _ name params body _) =>
    [node (.stmt s) (ofIdent result ++ ofIdent name ++ ofParams params ++ ofBlock body)]
  | s@(.ret _ value) => [node (.stmt s) (ofExpr value)]

/-- The outline of a block, if there is one. -/
def ofBlock : Block → List Outline
  | .missing => []
  | b@(.of _ stmts) => [node (.stmt (.block b)) (ofStmts stmts)]

/-- The outlines of statements. -/
def ofStmts : List Stmt → List Outline
  | [] => []
  | s :: rest => ofStmt s ++ ofStmts rest

/-- The outline of any node, if there is one. -/
def ofNode : Node → List Outline
  | .expr e => ofExpr e
  | .stmt s => ofStmt s
  | .param p => [ofParam p]
  | .params ps => ofParams (some ps)
  | .foreign pos => [leaf (.foreign pos)]

/-- The outlines of nodes. -/
def ofNodes : List Node → List Outline
  | [] => []
  | n :: rest => ofNode n ++ ofNodes rest

end

mutual

/-- The nodes met by a walk in depth-first order that goes below a node only if `enter` says so. -/
def visit (enter : Node → Bool) : Outline → Except Fault (List Node)
  | node (.foreign pos) _ =>
    if enter (.foreign pos) then .error (.plain .foreignNode) else .ok [.foreign pos]
  | node n children => do
    if enter n then return n :: (← visitAll enter children) else return [n]

/-- The nodes met by walks through several outlines, one after the other. -/
def visitAll (enter : Node → Bool) : List Outline → Except Fault (List Node)
  | [] => .ok []
  | o :: rest => do
    let here ← visit enter o
    return here ++ (← visitAll enter rest)

end

end Outline

namespace Block

/-- The nodes of a program met by a walk that goes below a node only if `enter` says so. -/
def visit (enter : Node → Bool) (b : Block) : Except Fault (List Node) :=
  Outline.visitAll enter (Outline.ofBlock b)

/-- All nodes of a program, an inserted condition right after its loop. A tree with a part that does
not belong there has none. -/
def nodes (b : Block) : List Node :=
  match b.visit (fun _ => true) with
  | .ok ns => ns.flatMap fun n => n :: n.inserted
  | .error _ => []

end Block

mutual

/-- The functions declared by a statement or inside it, functions in functions left out. -/
def Stmt.functions : Stmt → Except Fault (List FuncDecl)
  | .varDecl _ _ vars => Node.functionsIn vars
  | .ifElse _ _ yes no => do
    let here ← yes.functions
    return here ++ (← no.functions)
  | .whileLoop _ _ body => body.functions
  | .forLoop _ init _ _ step body => do
    let first ← init.functions
    let second ← step.functions
    return first ++ second ++ (← body.functions)
  | .block b => b.functions
  | .funcDecl pos _ _ name _ body function => .ok [⟨pos, name, body, function⟩]
  | _ => .ok []

/-- The functions declared in a block. -/
def Block.functions : Block → Except Fault (List FuncDecl)
  | .missing => .ok []
  | .of _ stmts => Stmt.functionsIn stmts

/-- The functions declared in statements. -/
def Stmt.functionsIn : List Stmt → Except Fault (List FuncDecl)
  | [] => .ok []
  | s :: rest => do
    let here ← s.functions
    return here ++ (← Stmt.functionsIn rest)

/-- The functions declared in a node, which must be part of a program. -/
def Node.functions : Node → Except Fault (List FuncDecl)
  | .stmt s => s.functions
  | .foreign _ => .error (.crash .foreignNode)
  | _ => .ok []

/-- The functions declared in nodes. -/
def Node.functionsIn : List Node → Except Fault (List FuncDecl)
  | [] => .ok []
  | n :: rest => do
    let here ← n.functions
    return here ++ (← Node.functionsIn rest)

end

/-- The symbol a name was resolved to, if both are there. -/
def Ident.symbols (id : Option Ident) : List Symbol := (id.bind (·.symbol)).toList

/-- The symbol declared by one item of a variable declaration. -/
def Node.declared : Node → List Symbol
  | .expr (.ident id) => id.symbol.toList
  | .stmt (.assign _ (.ident id) _ _) => id.symbol.toList
  | _ => []

mutual

/-- The variables and arrays declared by a statement, those of nested blocks included, in order. -/
def Stmt.declared : Stmt → List Symbol
  | .varDecl _ _ vars => vars.flatMap Node.declared
  | .arrayDecl _ _ name _ => Ident.symbols name
  | .ifElse _ _ yes no => yes.declared ++ no.declared
  | .whileLoop _ _ body => body.declared
  | .forLoop _ init _ _ step body => init.declared ++ step.declared ++ body.declared
  | .block b => b.declared
  | _ => []

/-- The variables and arrays declared in a block. -/
def Block.declared : Block → List Symbol
  | .missing => []
  | .of _ stmts => Stmt.declaredIn stmts

/-- The variables and arrays declared in statements. -/
def Stmt.declaredIn : List Stmt → List Symbol
  | [] => []
  | s :: rest => s.declared ++ Stmt.declaredIn rest

end

mutual

/-- Whether a statement surely ends with a return. -/
def Stmt.returns : Stmt → Bool
  | .ret _ _ => true
  | .block b => b.returns
  | _ => false

/-- Whether the last statement of a block is a return. -/
def Block.returns : Block → Bool
  | .missing => false
  | .of _ stmts => Stmt.lastReturns stmts

/-- Whether the last of several statements is a return. -/
def Stmt.lastReturns : List Stmt → Bool
  | [] => false
  | [s] => s.returns
  | _ :: rest => Stmt.lastReturns rest

end

end SmallC
