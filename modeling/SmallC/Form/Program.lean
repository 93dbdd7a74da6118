import SmallC.Form
import SmallC.Tree

/-!
# Programs from forms

A program is a sequence of forms, each a statement:

    (var int (= x 2) y)
    (array char s 10)
    (= (index s 0) 'a')
    (func int add ((int a) (int[] b)) (block (return (+ a (index b 0)))))
    (if c (block ...) (block ...))
    (while c (block ...))
    (for (= i 0) (< i 10) (= i (+ i 1)) (block ...))
    (call print_int x)

Each item after the type of a `var` declares one variable. An absent part of a
`for` is written `_`, and a unary minus `(- x)`. An atom that starts with a
digit, a point or a quote is a literal, and so are `true` and `false`; any other
atom is a name.
-/

namespace SmallC

namespace Form

/-- What a form was expected to be. -/
inductive Expected where
  | identifier | type | block | statement | assignment | parameters | parameter | element
deriving DecidableEq, Repr

/-- How an expected form is named in messages. -/
def Expected.text : Expected → String
  | identifier => "an identifier"
  | type => "a type"
  | block => "a block"
  | statement => "a statement"
  | assignment => "an assignment"
  | parameters => "a parameter list"
  | parameter => "(type name)"
  | element => "an array element"

/-- What can stand in the way of a program. -/
inductive Error where
  | unbalanced (e : Unbalanced)
  | wanted (what : Expected) (got : Form)
  | operandCount (pos : Pos) (head : String) (count : Nat)
  | unknownStatement (pos : Pos) (head : String)
  | unknownOperator (pos : Pos) (head : String)
deriving Repr

/-- What is said of a text that is no program. -/
def Error.message : Error → String
  | unbalanced e => e.message
  | wanted what got => got.pos.text ++ ": want " ++ what.text ++ " but got " ++ got.text
  | operandCount pos head count =>
    pos.text ++ ": " ++ head ++ ": wrong number of operands: " ++ toString count
  | unknownStatement pos head => pos.text ++ ": unknown statement " ++ head
  | unknownOperator pos head => pos.text ++ ": unknown operator " ++ head

/-- Whether an atom is a literal. -/
def isLiteral (atom : String) : Bool :=
  atom == "true" || atom == "false" ||
    match atom.toList with
    | [] => false
    | c :: _ => c.isDigit || c == '.' || c == '\''

/-- A name. -/
def toIdent : Form → Except Error Ident
  | f@(.atom pos text) =>
    if isLiteral text || text == "_" then .error (.wanted .identifier f)
    else .ok { pos := pos, name := text }
  | f@(.list _ _) => .error (.wanted .identifier f)

/-- A type written `name` or `name[]`, and whether it is an array. -/
def toType : Form → Except Error (Ident × Bool)
  | .atom pos text =>
    match text.toList.reverse with
    | ']' :: '[' :: name => .ok ({ pos := pos, name := String.ofList name.reverse }, true)
    | _ => .ok ({ pos := pos, name := text }, false)
  | f@(.list _ _) => .error (.wanted .type f)

/-- A list with the wrong number of operands after its head. -/
def miscounted (pos : Pos) (items : List Form) : Error :=
  .operandCount pos (headOf items) (items.length - 1)

mutual

/-- An expression. -/
def toExpr : Form → Except Error Expr
  | f@(.atom pos text) =>
    if isLiteral text then .ok (.literal pos text none {}) else f.toIdent.map .ident
  | .list pos items =>
    if headOf items = "index" then
      match items with
      | [_, array, i] => do
        let array ← array.toIdent
        let i ← toExpr i
        return .index pos (some array) i {}
      | items => .error (miscounted pos items)
    else if headOf items = "call" then
      match items with
      | _ :: func :: args => do
        let func ← func.toIdent
        let args ← toExprs args
        return .call pos (some func) args {}
      | items => .error (miscounted pos items)
    else
      match Op.ofText? (headOf items) with
      | none => .error (.unknownOperator pos (headOf items))
      | some op =>
        match items with
        | [head, x] =>
          if op = .sub ∨ op = .add then do
            let x ← toExpr x
            return .unary pos op x {}
          else .error (miscounted pos [head, x])
        | [_, x, y] => do
          let x ← toExpr x
          let y ← toExpr y
          return .binary pos op x y {}
        | items => .error (miscounted pos items)

/-- Expressions. -/
def toExprs : List Form → Except Error (List Expr)
  | [] => .ok []
  | f :: rest => do
    let e ← toExpr f
    return e :: (← toExprs rest)

end

/-- What can be assigned to: a name or an element of an array. -/
def toTarget : Form → Except Error Expr
  | f@(.atom _ _) => f.toIdent.map .ident
  | f@(.list _ items) =>
    if headOf items = "index" then f.toExpr else .error (.wanted .element f)

/-- An assignment. -/
def toAssign : Form → Except Error Stmt
  | f@(.atom _ _) => .error (.wanted .assignment f)
  | f@(.list pos items) =>
    if headOf items ≠ "=" then .error (.wanted .assignment f)
    else match items with
      | [_, target, value] => do
        let target ← target.toTarget
        let value ← value.toExpr
        return .assign pos target value none
      | items => .error (miscounted pos items)

/-- One item of a variable declaration. -/
def toVar (f : Form) : Except Error Node :=
  if f.isList then f.toAssign.map .stmt else f.toIdent.map fun id => .expr (.ident id)

/-- A parameter of a function. -/
def toParam : Form → Except Error (Option Param)
  | .list pos [type, name] => do
    let (type, isArray) ← type.toType
    let name ← name.toIdent
    return some ⟨pos, some type, some name, isArray⟩
  | f => .error (.wanted .parameter f)

/-- The parameters of a function. -/
def toParams : Form → Except Error Params
  | .list pos items => return ⟨pos, ← items.mapM toParam⟩
  | f => .error (.wanted .parameters f)

/-- An expression that may be absent. -/
def toOptExpr (f : Form) : Except Error Expr :=
  if f.isAtom "_" then .ok .missing else f.toExpr

mutual

/-- A statement. -/
def toStmt : Form → Except Error Stmt
  | f@(.atom _ _) => .error (.wanted .statement f)
  | f@(.list pos items) =>
    match headOf items with
    | "block" =>
      match items with
      | [] => .ok (.block (.of pos []))
      | _ :: rest => do
        let stmts ← toStmts rest
        return .block (.of pos stmts)
    | "var" =>
      match items with
      | _ :: type :: var :: vars => do
        let type ← type.toIdent
        let vars ← (var :: vars).mapM toVar
        return .varDecl pos (some type) vars
      | items => .error (miscounted pos items)
    | "array" =>
      match items with
      | [_, elem, name, size] => do
        let elem ← elem.toIdent
        let name ← name.toIdent
        let size ← size.toExpr
        return .arrayDecl pos (some elem) (some name) size
      | items => .error (miscounted pos items)
    | "=" => f.toAssign
    | "call" =>
      match items with
      | _ :: func :: args => do
        let func ← func.toIdent
        let args ← toExprs args
        return .call pos (some func) args {}
      | items => .error (miscounted pos items)
    | "if" =>
      match items with
      | [_, cond, yes] => do
        let cond ← cond.toExpr
        let yes ← toBlock yes
        return .ifElse pos cond yes .missing
      | [_, cond, yes, no] => do
        let cond ← cond.toExpr
        let yes ← toBlock yes
        let no ← toBlock no
        return .ifElse pos cond yes no
      | items => .error (miscounted pos items)
    | "while" =>
      match items with
      | [_, cond, body] => do
        let cond ← cond.toExpr
        let body ← toBlock body
        return .whileLoop pos cond body
      | items => .error (miscounted pos items)
    | "for" =>
      match items with
      | [_, init, cond, step, body] => do
        let init ← if init.isAtom "_" then .ok .missing else toStmt init
        let cond ← cond.toOptExpr
        let step ← if step.isAtom "_" then .ok .missing else toStmt step
        let body ← toBlock body
        return .forLoop pos init cond .missing step body
      | items => .error (miscounted pos items)
    | "func" =>
      match items with
      | [_, result, name, params, body] => do
        let (result, isArray) ← result.toType
        let name ← name.toIdent
        let params ← params.toParams
        let body ← toBlock body
        return .funcDecl pos (some result) isArray (some name) (some params) body none
      | items => .error (miscounted pos items)
    | "return" =>
      match items with
      | [_] => .ok (.ret pos .missing)
      | [_, value] => do
        let value ← value.toExpr
        return .ret pos value
      | items => .error (miscounted pos items)
    | head => .error (.unknownStatement pos head)

/-- A block. -/
def toBlock : Form → Except Error Block
  | f@(.atom _ _) => .error (.wanted .block f)
  | f@(.list pos items) =>
    if headOf items ≠ "block" then .error (.wanted .block f)
    else match items with
      | [] => .ok (.of pos [])
      | _ :: rest => do
        let stmts ← toStmts rest
        return .of pos stmts

/-- Statements. -/
def toStmts : List Form → Except Error (List Stmt)
  | [] => .ok []
  | f :: rest => do
    let s ← toStmt f
    return s :: (← toStmts rest)

end

end Form

/-- The program that a text is. -/
def Block.parse (text : String) : Except Form.Error Block := do
  let forms ← (Form.read text).mapError .unbalanced
  return .of .start (← Form.toStmts forms)

end SmallC
