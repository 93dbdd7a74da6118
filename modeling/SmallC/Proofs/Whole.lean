import SmallC.Form.Program
import SmallC.Proofs.Reading
import SmallC.Proofs.Typing

/-!
# Trees with all their parts

A tree can lack a part that has to be there, or have something in its place that
does not belong there. A tree that comes from a text is whole: its names are
names, its expressions are expressions all the way down, what is assigned to can
be assigned to, and nothing is absent but the parts that a text may leave out.

One thing the reader lets through that has no meaning. An item of a declaration
may be any assignment, also one to an element of an array, and that is no name
to declare. So an item is whole whatever its target is, and `Stmt.elements`
lists where a program does that.
-/

namespace SmallC

/-- A name that does not look like a literal. -/
def Ident.IsName (id : Ident) : Prop := Form.isLiteral id.name = false

/-- The expressions that have all their parts. -/
inductive Expr.Whole : Expr → Prop where
  | literal {pos : Pos} {text : String} {value : Option Value} {note : Note} :
      Whole (.literal pos text value note)
  | ident {id : Ident} (name : id.IsName) : Whole (.ident id)
  | unary {pos : Pos} {op : Op} {x : Expr} {note : Note} (operand : Whole x) :
      Whole (.unary pos op x note)
  | binary {pos : Pos} {op : Op} {x y : Expr} {note : Note} (left : Whole x) (right : Whole y) :
      Whole (.binary pos op x y note)
  | index {pos : Pos} {array : Ident} {i : Expr} {note : Note} (operand : Whole i) :
      Whole (.index pos (some array) i note)
  | call {pos : Pos} {func : Ident} {args : List Expr} {note : Note}
      (operands : ∀ e ∈ args, Whole e) : Whole (.call pos (some func) args note)

/-- An assignment to a name or to an element. -/
structure AssignWhole (target value : Expr) : Prop where
  place : target.isPlace = true
  target : target.Whole
  value : value.Whole

/-- A parameter with a type and a name. -/
def Param.Whole (p : Option Param) : Prop :=
  ∃ q type name, p = some q ∧ q.type = some type ∧ q.name = some name

/-- An item of a declaration is a name or an assignment. -/
def Node.Whole : Node → Prop
  | .expr (.ident id) => id.IsName
  | .stmt (.assign _ target value _) => AssignWhole target value
  | _ => False

mutual

/-- The statements that have all their parts. -/
def Stmt.Whole : Stmt → Prop
  | .missing => False
  | .call _ func args _ => (∃ id, func = some id) ∧ ∀ e ∈ args, e.Whole
  | .assign _ target value _ => AssignWhole target value
  | .varDecl _ type vars => (∃ id, type = some id) ∧ ∀ n ∈ vars, n.Whole
  | .arrayDecl _ elem name size =>
    (∃ id, elem = some id) ∧ (∃ id, name = some id ∧ id.IsName) ∧ size.Whole
  | .ifElse _ cond yes no => cond.Whole ∧ yes.Whole ∧ no.Whole
  | .whileLoop _ cond body => cond.Whole ∧ body.Whole
  | .forLoop _ init cond _ step body =>
    (init = .missing ∨ init.Whole) ∧ (cond = .missing ∨ cond.Whole) ∧
      (step = .missing ∨ step.Whole) ∧ body.Whole
  | .block b => b.Whole
  | .funcDecl _ result _ name params body _ =>
    (∃ id, result = some id) ∧ (∃ id, name = some id ∧ id.IsName) ∧
      (∃ ps, params = some ps ∧ ∀ p ∈ ps.list, Param.Whole p) ∧ body.Whole
  | .ret _ value => value = .missing ∨ value.Whole

/-- The blocks that have all their parts. A conditional may do without its second one. -/
def Block.Whole : Block → Prop
  | .missing => True
  | .of _ stmts => Stmt.AllWhole stmts

/-- The lists of statements that have all their parts. -/
def Stmt.AllWhole : List Stmt → Prop
  | [] => True
  | s :: rest => s.Whole ∧ Stmt.AllWhole rest

end

/-- The place of an item of a declaration that assigns to an element of an array. -/
def Node.elements : Node → List Pos
  | .stmt (.assign pos (.index _ _ _ _) _ _) => [pos]
  | _ => []

mutual

/-- The places where a statement declares an element of an array, those of nested blocks and
functions included. -/
def Stmt.elements : Stmt → List Pos
  | .varDecl _ _ vars => vars.flatMap Node.elements
  | .ifElse _ _ yes no => yes.elements ++ no.elements
  | .whileLoop _ _ body => body.elements
  | .forLoop _ init _ _ step body => init.elements ++ step.elements ++ body.elements
  | .block b => b.elements
  | .funcDecl _ _ _ _ _ body _ => body.elements
  | .missing | .call _ _ _ _ | .assign _ _ _ _ | .arrayDecl _ _ _ _ | .ret _ _ => []

/-- The places where a block declares an element of an array. -/
def Block.elements : Block → List Pos
  | .missing => []
  | .of _ stmts => Stmt.elementsIn stmts

/-- The places where several statements declare an element of an array. -/
def Stmt.elementsIn : List Stmt → List Pos
  | [] => []
  | s :: rest => s.elements ++ Stmt.elementsIn rest

end

/-! ## Parsing -/

namespace Form

theorem toIdent_isName {f : Form} {id : Ident} (h : f.toIdent = .ok id) : id.IsName := by
  cases f with
  | list _ _ => cases h
  | atom pos text =>
      rw [toIdent] at h
      split at h
      · cases h
      · next hname =>
          cases h
          simp only [Bool.or_eq_true, not_or, Bool.not_eq_true] at hname
          exact hname.1

mutual

theorem toExpr_whole : ∀ {f : Form} {e : Expr}, f.toExpr = .ok e → e.Whole
  | .atom pos text, e, h => by
      rw [toExpr] at h
      split at h
      · cases h
        exact .literal
      · obtain ⟨id, hid, rfl⟩ := toIdent_map_ok h
        exact .ident (toIdent_isName hid)
  | .list pos items, e, h => by
      cases toExpr_list h with
      | index _ operand => exact .index (toExpr_whole operand)
      | call _ operands => exact .call (toExprs_whole operands)
      | unary _ operand => exact .unary (toExpr_whole operand)
      | binary left right => exact .binary (toExpr_whole left) (toExpr_whole right)
termination_by f => sizeOf f
decreasing_by all_goals (subst_vars; simp only [list.sizeOf_spec, List.cons.sizeOf_spec]; omega)

theorem toExprs_whole : ∀ {fs : List Form} {es : List Expr}, toExprs fs = .ok es →
    ∀ e ∈ es, e.Whole
  | [], _, h => by
      cases h
      exact fun e he => (nomatch he)
  | f :: rest, _, h => by
      obtain ⟨e, es, he, hes, rfl⟩ := toExprs_cons h
      exact List.forall_mem_cons.2 ⟨toExpr_whole he, toExprs_whole hes⟩
termination_by fs => sizeOf fs
decreasing_by all_goals (simp only [List.cons.sizeOf_spec]; omega)

end

theorem toTarget_whole {f : Form} {e : Expr} (h : f.toTarget = .ok e) :
    e.isPlace = true ∧ e.Whole := by
  rcases toTarget_ok h with ⟨id, hid, rfl⟩ | ⟨he, _, _, _, rfl⟩
  · exact ⟨rfl, .ident (toIdent_isName hid)⟩
  · exact ⟨rfl, toExpr_whole he⟩

theorem toAssign_whole {target value : Form} {t v : Expr} (ht : target.toTarget = .ok t)
    (hv : value.toExpr = .ok v) : AssignWhole t v :=
  ⟨(toTarget_whole ht).1, (toTarget_whole ht).2, toExpr_whole hv⟩

theorem toVar_whole {f : Form} {n : Node} (h : f.toVar = .ok n) : n.Whole := by
  rcases toVar_ok h with ⟨id, hid, rfl⟩ | ⟨s, hs, rfl⟩
  · exact toIdent_isName hid
  · obtain ⟨_, _, _, _, _, _, -, ht, hv, rfl⟩ := toAssign_ok hs
    exact toAssign_whole ht hv

theorem toParam_whole {f : Form} {p : Option Param} (h : f.toParam = .ok p) : Param.Whole p := by
  obtain ⟨_, _, _, _, _, -, -, -, rfl⟩ := toParam_ok h
  exact ⟨_, _, _, rfl, rfl, rfl⟩

/-- What holds of everything that a reader makes of one form holds of what it makes of several. -/
theorem forall_mem_mapM {α : Type} {read : Form → Except Error α} {P : α → Prop}
    (hread : ∀ {f a}, read f = .ok a → P a) {fs : List Form} {as : List α}
    (h : fs.mapM read = .ok as) : ∀ a ∈ as, P a := by
  induction fs generalizing as with
  | nil =>
      cases h
      exact fun a ha => (nomatch ha)
  | cons f rest ih =>
      rw [List.mapM_cons] at h
      simp only [Except.bind_eq_ok_iff] at h
      obtain ⟨a, ha, as', has, h⟩ := h
      cases h
      exact List.forall_mem_cons.2 ⟨hread ha, ih has⟩

theorem toParams_whole {f : Form} {ps : Params} (h : f.toParams = .ok ps) :
    ∀ p ∈ ps.list, Param.Whole p := by
  obtain ⟨_, _, _, -, hps, rfl⟩ := toParams_ok h
  exact forall_mem_mapM toParam_whole hps

mutual

theorem toStmt_whole : ∀ {f : Form} {s : Stmt}, f.toStmt = .ok s → s.Whole
  | .atom pos text, s, h => by cases h
  | .list pos items, s, h => by
      cases toStmt_list h with
      | block body => exact toStmts_whole body
      | varDecl _ items => exact ⟨⟨_, rfl⟩, forall_mem_mapM toVar_whole items⟩
      | arrayDecl _ declared operand =>
          exact ⟨⟨_, rfl⟩, ⟨_, rfl, toIdent_isName declared⟩, toExpr_whole operand⟩
      | assign left right => exact toAssign_whole left right
      | call _ operands => exact ⟨⟨_, rfl⟩, toExprs_whole operands⟩
      | ifThen test first => exact ⟨toExpr_whole test, toBlock_whole first, trivial⟩
      | ifElse test first second =>
          exact ⟨toExpr_whole test, toBlock_whole first, toBlock_whole second⟩
      | whileLoop test round => exact ⟨toExpr_whole test, toBlock_whole round⟩
      | forLoop first test next round =>
          exact ⟨(toPart_ok first).imp_right toStmt_whole,
            (toOptExpr_ok test).imp_right toExpr_whole,
            (toPart_ok next).imp_right toStmt_whole, toBlock_whole round⟩
      | funcDecl _ declared takes round =>
          exact ⟨⟨_, rfl⟩, ⟨_, rfl, toIdent_isName declared⟩, ⟨_, rfl, toParams_whole takes⟩,
            toBlock_whole round⟩
      | ret => exact .inl rfl
      | retValue operand => exact .inr (toExpr_whole operand)
termination_by f => sizeOf f
decreasing_by all_goals (subst_vars; simp only [list.sizeOf_spec, List.cons.sizeOf_spec]; omega)

theorem toBlock_whole : ∀ {f : Form} {b : Block}, f.toBlock = .ok b → b.Whole
  | .atom pos text, b, h => by cases h
  | .list pos items, b, h => by
      obtain ⟨head, rest, stmts, rfl, hs, rfl⟩ := toBlock_list h
      exact toStmts_whole hs
termination_by f => sizeOf f
decreasing_by all_goals (subst_vars; simp only [list.sizeOf_spec, List.cons.sizeOf_spec]; omega)

theorem toStmts_whole : ∀ {fs : List Form} {stmts : List Stmt}, toStmts fs = .ok stmts →
    Stmt.AllWhole stmts
  | [], _, h => by
      cases h
      exact trivial
  | f :: rest, _, h => by
      obtain ⟨s, stmts, hs, hstmts, rfl⟩ := toStmts_cons h
      exact ⟨toStmt_whole hs, toStmts_whole hstmts⟩
termination_by fs => sizeOf fs
decreasing_by all_goals (simp only [List.cons.sizeOf_spec]; omega)

end

end Form

/-- A program that was parsed has all its parts. -/
theorem Block.parse_whole {text : String} {b : Block} (h : Block.parse text = .ok b) :
    ∃ pos stmts, b = .of pos stmts ∧ Stmt.AllWhole stmts := by
  unfold Block.parse at h
  simp only [Except.bind_eq_ok_iff] at h
  obtain ⟨forms, -, stmts, hs, h⟩ := h
  cases h
  exact ⟨_, stmts, rfl, Form.toStmts_whole hs⟩

end SmallC
