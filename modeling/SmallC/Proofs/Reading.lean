import SmallC.Form.Program
import SmallC.Proofs.CheckSteps

/-!
# What the reader makes of a form

A list is read by the name at its head, and then by how many items it has. For
each kind of tree there is one relation between the items of a list and the
tree that they are read as, with one rule for each way to read them, and one
lemma that nothing else comes out of the reader. The rules leave out the heads
of the lists, since no tree keeps them.
-/

namespace SmallC.Form

/-! ## Expressions -/

/-- The items of a list and the expression that they are read as. -/
inductive ReadsExpr (pos : Pos) : List Form → Expr → Prop where
  | index {head array i : Form} {id : Ident} {e : Expr} (name : array.toIdent = .ok id)
      (operand : i.toExpr = .ok e) : ReadsExpr pos [head, array, i] (.index pos (some id) e {})
  | call {head func : Form} {args : List Form} {id : Ident} {es : List Expr}
      (name : func.toIdent = .ok id) (operands : toExprs args = .ok es) :
      ReadsExpr pos (head :: func :: args) (.call pos (some id) es {})
  | unary {head x : Form} {op : Op} {e : Expr} (sign : op = .sub ∨ op = .add)
      (operand : x.toExpr = .ok e) : ReadsExpr pos [head, x] (.unary pos op e {})
  | binary {head x y : Form} {op : Op} {e e' : Expr} (left : x.toExpr = .ok e)
      (right : y.toExpr = .ok e') : ReadsExpr pos [head, x, y] (.binary pos op e e' {})

section

variable {pos : Pos} {items : List Form} {f : Form} {e : Expr} {s : Stmt}

theorem toIdent_map_ok {α : Type} {g : Ident → α} {a : α} (h : f.toIdent.map g = .ok a) :
    ∃ id, f.toIdent = .ok id ∧ a = g id := by
  cases hid : f.toIdent with
  | error e => rw [hid] at h; cases h
  | ok id =>
      rw [hid] at h
      cases h
      exact ⟨id, rfl, rfl⟩

/-- A list with the head of an element is read as an element. -/
theorem toExpr_index (hhead : headOf items = "index") (h : (list pos items).toExpr = .ok e) :
    ∃ head array i id x, items = [head, array, i] ∧ array.toIdent = .ok id ∧ i.toExpr = .ok x ∧
      e = .index pos (some id) x {} := by
  unfold toExpr at h
  rw [if_pos hhead] at h
  split at h
  · simp only [Except.bind_eq_ok_iff] at h
    obtain ⟨id, hid, x, hx, h⟩ := h
    cases h
    exact ⟨_, _, _, id, x, rfl, hid, hx, rfl⟩
  · cases h

theorem toExpr_list (h : (list pos items).toExpr = .ok e) : ReadsExpr pos items e := by
  by_cases hhead : headOf items = "index"
  · obtain ⟨head, array, i, id, x, rfl, hid, hx, rfl⟩ := toExpr_index hhead h
    exact .index hid hx
  unfold toExpr at h
  rw [if_neg hhead] at h
  split at h
  · split at h
    · simp only [Except.bind_eq_ok_iff] at h
      obtain ⟨id, hid, es, hes, h⟩ := h
      cases h
      exact .call hid hes
    · cases h
  · split at h
    · cases h
    · split at h
      · split at h
        · next hsign =>
            simp only [Except.bind_eq_ok_iff] at h
            obtain ⟨x, hx, h⟩ := h
            cases h
            exact .unary hsign hx
        · cases h
      · simp only [Except.bind_eq_ok_iff] at h
        obtain ⟨x, hx, y, hy, h⟩ := h
        cases h
        exact .binary hx hy
      · cases h

theorem toExprs_cons {rest : List Form} {es : List Expr} (h : toExprs (f :: rest) = .ok es) :
    ∃ e es', f.toExpr = .ok e ∧ toExprs rest = .ok es' ∧ es = e :: es' := by
  rw [toExprs] at h
  simp only [Except.bind_eq_ok_iff] at h
  obtain ⟨e, he, es', hes, h⟩ := h
  cases h
  exact ⟨e, es', he, hes, rfl⟩

theorem toOptExpr_ok (h : f.toOptExpr = .ok e) : e = .missing ∨ f.toExpr = .ok e := by
  unfold toOptExpr at h
  split at h
  · exact .inl (Except.ok.inj h).symm
  · exact .inr h

theorem toTarget_ok (h : f.toTarget = .ok e) :
    (∃ id, f.toIdent = .ok id ∧ e = .ident id) ∨
      f.toExpr = .ok e ∧ ∃ pos array i, e = .index pos array i {} := by
  unfold toTarget at h
  split at h
  · exact .inl (toIdent_map_ok h)
  · split at h
    · next hhead =>
        obtain ⟨_, _, _, _, _, rfl, -, -, rfl⟩ := toExpr_index hhead h
        exact .inr ⟨h, _, _, _, rfl⟩
    · cases h

theorem toAssign_ok (h : f.toAssign = .ok s) :
    ∃ pos head target value t v, f = list pos [head, target, value] ∧ target.toTarget = .ok t ∧
      value.toExpr = .ok v ∧ s = .assign pos t v none := by
  unfold toAssign at h
  split at h
  · cases h
  · split at h
    · cases h
    · split at h
      · simp only [Except.bind_eq_ok_iff] at h
        obtain ⟨t, ht, v, hv, h⟩ := h
        cases h
        exact ⟨_, _, _, _, t, v, rfl, ht, hv, rfl⟩
      · cases h

/-- An item of a declaration is a name or an assignment. -/
theorem toVar_ok {n : Node} (h : f.toVar = .ok n) :
    (∃ id, f.toIdent = .ok id ∧ n = .expr (.ident id)) ∨
      ∃ s, f.toAssign = .ok s ∧ n = .stmt s := by
  unfold toVar at h
  split at h
  · cases hs : f.toAssign with
    | error e => rw [hs] at h; cases h
    | ok s =>
        rw [hs] at h
        cases h
        exact .inr ⟨s, rfl, rfl⟩
  · exact .inl (toIdent_map_ok h)

theorem toParam_ok {p : Option Param} (h : f.toParam = .ok p) :
    ∃ pos type name out id, f = list pos [type, name] ∧ type.toType = .ok out ∧
      name.toIdent = .ok id ∧ p = some ⟨pos, some out.1, some id, out.2⟩ := by
  unfold toParam at h
  split at h
  · simp only [Except.bind_eq_ok_iff] at h
    obtain ⟨out, hout, id, hid, h⟩ := h
    cases h
    exact ⟨_, _, _, out, id, rfl, hout, hid, rfl⟩
  · cases h

theorem toParams_ok {ps : Params} (h : f.toParams = .ok ps) :
    ∃ pos items ps', f = list pos items ∧ items.mapM toParam = .ok ps' ∧ ps = ⟨pos, ps'⟩ := by
  unfold toParams at h
  split at h
  · simp only [Except.bind_eq_ok_iff] at h
    obtain ⟨ps', hps, h⟩ := h
    cases h
    exact ⟨_, _, ps', rfl, hps, rfl⟩
  · cases h

end

/-! ## Statements -/

/-- A part of a loop that may be absent. -/
def toPart (f : Form) : Except Error Stmt := if f.isAtom "_" then .ok .missing else f.toStmt

theorem toPart_bind {α : Type} (f : Form) (k : Stmt → Except Error α) :
    (if f.isAtom "_" then Except.ok Stmt.missing >>= k else f.toStmt >>= k) = f.toPart >>= k := by
  unfold toPart
  split <;> rfl

theorem toPart_ok {f : Form} {s : Stmt} (h : f.toPart = .ok s) :
    s = .missing ∨ f.toStmt = .ok s := by
  unfold toPart at h
  split at h
  · exact .inl (Except.ok.inj h).symm
  · exact .inr h

/-- The items of a list and the statement that they are read as. -/
inductive ReadsStmt (pos : Pos) : List Form → Stmt → Prop where
  | block {head : Form} {rest : List Form} {stmts : List Stmt} (body : toStmts rest = .ok stmts) :
      ReadsStmt pos (head :: rest) (.block (.of pos stmts))
  | varDecl {head type : Form} {vars : List Form} {id : Ident} {ns : List Node}
      (name : type.toIdent = .ok id) (items : vars.mapM toVar = .ok ns) :
      ReadsStmt pos (head :: type :: vars) (.varDecl pos (some id) ns)
  | arrayDecl {head elem name size : Form} {id id' : Ident} {e : Expr}
      (type : elem.toIdent = .ok id) (declared : name.toIdent = .ok id')
      (operand : size.toExpr = .ok e) :
      ReadsStmt pos [head, elem, name, size] (.arrayDecl pos (some id) (some id') e)
  | assign {head target value : Form} {t v : Expr} (left : target.toTarget = .ok t)
      (right : value.toExpr = .ok v) :
      ReadsStmt pos [head, target, value] (.assign pos t v none)
  | call {head func : Form} {args : List Form} {id : Ident} {es : List Expr}
      (name : func.toIdent = .ok id) (operands : toExprs args = .ok es) :
      ReadsStmt pos (head :: func :: args) (.call pos (some id) es {})
  | ifThen {head cond yes : Form} {e : Expr} {b : Block} (test : cond.toExpr = .ok e)
      (first : yes.toBlock = .ok b) :
      ReadsStmt pos [head, cond, yes] (.ifElse pos e b .missing)
  | ifElse {head cond yes no : Form} {e : Expr} {b b' : Block} (test : cond.toExpr = .ok e)
      (first : yes.toBlock = .ok b) (second : no.toBlock = .ok b') :
      ReadsStmt pos [head, cond, yes, no] (.ifElse pos e b b')
  | whileLoop {head cond body : Form} {e : Expr} {b : Block} (test : cond.toExpr = .ok e)
      (round : body.toBlock = .ok b) : ReadsStmt pos [head, cond, body] (.whileLoop pos e b)
  | forLoop {head init cond step body : Form} {s s' : Stmt} {e : Expr} {b : Block}
      (first : init.toPart = .ok s) (test : cond.toOptExpr = .ok e) (next : step.toPart = .ok s')
      (round : body.toBlock = .ok b) :
      ReadsStmt pos [head, init, cond, step, body] (.forLoop pos s e .missing s' b)
  | funcDecl {head result name params body : Form} {type : Ident × Bool} {id : Ident}
      {ps : Params} {b : Block} (returns : result.toType = .ok type)
      (declared : name.toIdent = .ok id) (takes : params.toParams = .ok ps)
      (round : body.toBlock = .ok b) :
      ReadsStmt pos [head, result, name, params, body]
        (.funcDecl pos (some type.1) type.2 (some id) (some ps) b none)
  | ret {head : Form} : ReadsStmt pos [head] (.ret pos .missing)
  | retValue {head value : Form} {e : Expr} (operand : value.toExpr = .ok e) :
      ReadsStmt pos [head, value] (.ret pos e)

section

variable {pos : Pos} {items : List Form} {f : Form} {s : Stmt}

theorem toStmt_list (h : (list pos items).toStmt = .ok s) : ReadsStmt pos items s := by
  unfold toStmt at h
  split at h
  · split at h
    · next hhead _ _ => exact absurd hhead (by decide)
    · simp only [Except.bind_eq_ok_iff] at h
      obtain ⟨stmts, hs, h⟩ := h
      cases h
      exact .block hs
  · split at h
    · simp only [Except.bind_eq_ok_iff] at h
      obtain ⟨id, hid, vars, hvars, h⟩ := h
      cases h
      exact .varDecl hid hvars
    · cases h
  · split at h
    · simp only [Except.bind_eq_ok_iff] at h
      obtain ⟨id, hid, id', hid', size, hsize, h⟩ := h
      cases h
      exact .arrayDecl hid hid' hsize
    · cases h
  · obtain ⟨_, _, _, _, _, _, heq, ht, hv, rfl⟩ := toAssign_ok h
    cases heq
    exact .assign ht hv
  · split at h
    · simp only [Except.bind_eq_ok_iff] at h
      obtain ⟨id, hid, args, hargs, h⟩ := h
      cases h
      exact .call hid hargs
    · cases h
  · split at h
    · simp only [Except.bind_eq_ok_iff] at h
      obtain ⟨cond, hc, yes, hyes, h⟩ := h
      cases h
      exact .ifThen hc hyes
    · simp only [Except.bind_eq_ok_iff] at h
      obtain ⟨cond, hc, yes, hyes, no, hno, h⟩ := h
      cases h
      exact .ifElse hc hyes hno
    · cases h
  · split at h
    · simp only [Except.bind_eq_ok_iff] at h
      obtain ⟨cond, hc, body, hbody, h⟩ := h
      cases h
      exact .whileLoop hc hbody
    · cases h
  · split at h
    · simp only [toPart_bind, Except.bind_eq_ok_iff] at h
      obtain ⟨init, hinit, cond, hc, step, hstep, body, hbody, h⟩ := h
      cases h
      exact .forLoop hinit hc hstep hbody
    · cases h
  · split at h
    · simp only [Except.bind_eq_ok_iff] at h
      obtain ⟨type, htype, id, hid, params, hparams, body, hbody, h⟩ := h
      cases h
      exact .funcDecl htype hid hparams hbody
    · cases h
  · split at h
    · cases h
      exact .ret
    · simp only [Except.bind_eq_ok_iff] at h
      obtain ⟨value, hv, h⟩ := h
      cases h
      exact .retValue hv
    · cases h
  · cases h

theorem toBlock_list {b : Block} (h : (list pos items).toBlock = .ok b) :
    ∃ head rest stmts, items = head :: rest ∧ toStmts rest = .ok stmts ∧ b = .of pos stmts := by
  unfold toBlock at h
  split at h
  · cases h
  · next hhead =>
      split at h
      · exact absurd (by decide) hhead
      · simp only [Except.bind_eq_ok_iff] at h
        obtain ⟨stmts, hs, h⟩ := h
        cases h
        exact ⟨_, _, stmts, rfl, hs, rfl⟩

theorem toStmts_cons {rest : List Form} {stmts : List Stmt}
    (h : toStmts (f :: rest) = .ok stmts) :
    ∃ s stmts', f.toStmt = .ok s ∧ toStmts rest = .ok stmts' ∧ stmts = s :: stmts' := by
  rw [toStmts] at h
  simp only [Except.bind_eq_ok_iff] at h
  obtain ⟨s, hs, stmts', hstmts, h⟩ := h
  cases h
  exact ⟨s, stmts', hs, hstmts, rfl⟩

end

end SmallC.Form

namespace SmallC

/-- A text is a program if it is made of forms that are statements. -/
theorem Block.parse_ok_iff {text : String} {b : Block} :
    Block.parse text = .ok b ↔
      ∃ forms stmts, Form.read text = .ok forms ∧ Form.toStmts forms = .ok stmts ∧
        b = .of .start stmts := by
  unfold Block.parse
  simp only [Except.bind_eq_ok_iff, Except.mapError_eq_ok_iff]
  constructor
  · rintro ⟨forms, hread, stmts, hstmts, h⟩
    cases h
    exact ⟨forms, stmts, hread, hstmts, rfl⟩
  · rintro ⟨forms, stmts, hread, hstmts, rfl⟩
    exact ⟨forms, hread, stmts, hstmts, rfl⟩

end SmallC
