import SmallC.Proofs.CheckTyping
import SmallC.Proofs.Reading

/-!
# What a source text can express

A tree may hold an operator in a place where no text can put it. A text has only
the two signs for operators with one operand, and it matters: the evaluator of
constants takes every other operator for a minus, while the targets take it for
a plus. Here is shown that a tree parsed from a text has no other, and that
checking the tree does not change that.
-/

namespace SmallC

/-- The expressions that a source text can express. -/
inductive Expr.Written : Expr → Prop where
  | literal {pos : Pos} {text : String} {value : Option Value} {note : Note} :
      Written (.literal pos text value note)
  | ident {id : Ident} : Written (.ident id)
  | unary {pos : Pos} {op : Op} {x : Expr} {note : Note} (sign : op = .add ∨ op = .sub)
      (operand : Written x) : Written (.unary pos op x note)
  | binary {pos : Pos} {op : Op} {x y : Expr} {note : Note} (left : Written x)
      (right : Written y) : Written (.binary pos op x y note)
  | index {pos : Pos} {array : Option Ident} {i : Expr} {note : Note} (operand : Written i) :
      Written (.index pos array i note)
  | call {pos : Pos} {func : Option Ident} {args : List Expr} {note : Note}
      (operands : ∀ e ∈ args, Written e) : Written (.call pos func args note)

/-- Several expressions that a source text can express. -/
def Expr.AllWritten (es : List Expr) : Prop := ∀ e ∈ es, e.Written

theorem Expr.AllWritten.nil : Expr.AllWritten [] := List.forall_mem_nil _

theorem Expr.allWritten_append {es fs : List Expr} :
    Expr.AllWritten (es ++ fs) ↔ Expr.AllWritten es ∧ Expr.AllWritten fs :=
  List.forall_mem_append

theorem Expr.allWritten_cons {e : Expr} {es : List Expr} :
    Expr.AllWritten (e :: es) ↔ e.Written ∧ Expr.AllWritten es :=
  List.forall_mem_cons

theorem Ident.asExpr_written (id : Option Ident) : Expr.AllWritten (Ident.asExpr id) := by
  intro e he
  obtain ⟨id', -, rfl⟩ := List.mem_map.1 he
  exact .ident

theorem Expr.partsAll_written {es : List Expr} (h : ∀ e ∈ es, Expr.AllWritten e.parts) :
    Expr.AllWritten (Expr.partsAll es) := by
  intro x hx
  obtain ⟨e, he, hx⟩ := Expr.mem_partsAll hx
  exact h e he x hx

/-- Whatever a written expression is made of is written. -/
theorem Expr.Written.parts {e : Expr} (h : e.Written) : Expr.AllWritten e.parts := by
  induction h with
  | literal => exact Expr.allWritten_cons.2 ⟨.literal, .nil⟩
  | ident => exact Expr.allWritten_cons.2 ⟨.ident, .nil⟩
  | unary sign operand ih => exact Expr.allWritten_cons.2 ⟨.unary sign operand, ih⟩
  | binary left right ihx ihy =>
      exact Expr.allWritten_cons.2 ⟨.binary left right, Expr.allWritten_append.2 ⟨ihx, ihy⟩⟩
  | index operand ih =>
      refine Expr.allWritten_cons.2 ⟨.index operand, Expr.allWritten_append.2 ⟨?_, ih⟩⟩
      exact Ident.asExpr_written _
  | call operands ih =>
      refine Expr.allWritten_cons.2 ⟨.call operands, Expr.allWritten_append.2 ⟨?_, ?_⟩⟩
      · exact Ident.asExpr_written _
      · exact Expr.partsAll_written ih

theorem Expr.mem_parts {e : Expr} (h : e.isMissing = false) : e ∈ e.parts := by
  cases e with
  | missing => cases h
  | _ => exact List.mem_cons_self

/-! ## Parsing -/

namespace Form

mutual

theorem toExpr_written : ∀ {f : Form} {e : Expr}, f.toExpr = .ok e → e.Written
  | .atom pos text, e, h => by
      rw [toExpr] at h
      split at h
      · cases h
        exact .literal
      · obtain ⟨id, -, rfl⟩ := toIdent_map_ok h
        exact .ident
  | .list pos items, e, h => by
      cases toExpr_list h with
      | index _ operand => exact .index (toExpr_written operand)
      | call _ operands => exact .call (toExprs_written operands)
      | unary sign operand => exact .unary sign.symm (toExpr_written operand)
      | binary left right => exact .binary (toExpr_written left) (toExpr_written right)
termination_by f => sizeOf f
decreasing_by all_goals (subst_vars; simp only [list.sizeOf_spec, List.cons.sizeOf_spec]; omega)

theorem toExprs_written : ∀ {fs : List Form} {es : List Expr}, toExprs fs = .ok es →
    ∀ e ∈ es, e.Written
  | [], _, h => by
      cases h
      exact fun e he => (nomatch he)
  | f :: rest, _, h => by
      obtain ⟨e, es, he, hes, rfl⟩ := toExprs_cons h
      exact List.forall_mem_cons.2 ⟨toExpr_written he, toExprs_written hes⟩
termination_by fs => sizeOf fs
decreasing_by all_goals (simp only [List.cons.sizeOf_spec]; omega)

end

theorem toTarget_written {f : Form} {e : Expr} (h : f.toTarget = .ok e) : e.Written := by
  rcases toTarget_ok h with ⟨id, -, rfl⟩ | ⟨he, -⟩
  · exact .ident
  · exact toExpr_written he

theorem toAssign_exprs {target value : Form} {t v : Expr} (ht : target.toTarget = .ok t)
    (hv : value.toExpr = .ok v) : Expr.AllWritten (t.parts ++ v.parts) :=
  Expr.allWritten_append.2 ⟨(toTarget_written ht).parts, (toExpr_written hv).parts⟩

theorem toVar_exprs {f : Form} {n : Node} (h : f.toVar = .ok n) : Expr.AllWritten n.exprs := by
  rcases toVar_ok h with ⟨id, -, rfl⟩ | ⟨s, hs, rfl⟩
  · exact .nil
  · obtain ⟨_, _, _, _, _, _, -, ht, hv, rfl⟩ := toAssign_ok hs
    exact toAssign_exprs ht hv

theorem toVars_exprs {fs : List Form} {ns : List Node} (h : fs.mapM toVar = .ok ns) :
    Expr.AllWritten (ns.flatMap Node.exprs) := by
  induction fs generalizing ns with
  | nil => cases h; exact .nil
  | cons f rest ih =>
      rw [List.mapM_cons] at h
      simp only [Except.bind_eq_ok_iff] at h
      obtain ⟨n, hn, ns', hns, h⟩ := h
      cases h
      exact Expr.allWritten_append.2 ⟨toVar_exprs hn, ih hns⟩

theorem toOptExpr_parts {f : Form} {e : Expr} (h : f.toOptExpr = .ok e) :
    Expr.AllWritten e.parts := by
  rcases toOptExpr_ok h with rfl | he
  · exact .nil
  · exact (toExpr_written he).parts

mutual

theorem toStmt_exprs : ∀ {f : Form} {s : Stmt}, f.toStmt = .ok s → Expr.AllWritten s.exprs
  | .atom pos text, s, h => by cases h
  | .list pos items, s, h => by
      cases toStmt_list h with
      | block body => exact toStmts_exprs body
      | varDecl _ items => exact toVars_exprs items
      | arrayDecl _ _ operand => exact (toExpr_written operand).parts
      | assign left right => exact toAssign_exprs left right
      | call _ operands => exact (Expr.Written.call (toExprs_written operands)).parts
      | ifThen test first =>
          have hall := Expr.allWritten_append.2 ⟨(toExpr_written test).parts, toBlock_exprs first⟩
          exact Expr.allWritten_append.2 ⟨hall, .nil⟩
      | ifElse test first second =>
          have hall := Expr.allWritten_append.2 ⟨(toExpr_written test).parts, toBlock_exprs first⟩
          exact Expr.allWritten_append.2 ⟨hall, toBlock_exprs second⟩
      | whileLoop test round =>
          exact Expr.allWritten_append.2 ⟨(toExpr_written test).parts, toBlock_exprs round⟩
      | @forLoop _ _ _ _ _ s s' _ _ first test next round =>
          have hfirst : Expr.AllWritten s.exprs := by
            rcases toPart_ok first with rfl | hs
            · exact .nil
            · exact toStmt_exprs hs
          have hnext : Expr.AllWritten s'.exprs := by
            rcases toPart_ok next with rfl | hs
            · exact .nil
            · exact toStmt_exprs hs
          simp only [Stmt.exprs, Expr.allWritten_append]
          exact ⟨⟨⟨⟨hfirst, toOptExpr_parts test⟩, .nil⟩, hnext⟩, toBlock_exprs round⟩
      | funcDecl _ _ _ round => exact toBlock_exprs round
      | ret => exact .nil
      | retValue operand => exact (toExpr_written operand).parts
termination_by f => sizeOf f
decreasing_by all_goals (subst_vars; simp only [list.sizeOf_spec, List.cons.sizeOf_spec]; omega)

theorem toBlock_exprs : ∀ {f : Form} {b : Block}, f.toBlock = .ok b → Expr.AllWritten b.exprs
  | .atom pos text, b, h => by cases h
  | .list pos items, b, h => by
      obtain ⟨head, rest, stmts, rfl, hs, rfl⟩ := toBlock_list h
      exact toStmts_exprs hs
termination_by f => sizeOf f
decreasing_by all_goals (subst_vars; simp only [list.sizeOf_spec, List.cons.sizeOf_spec]; omega)

theorem toStmts_exprs : ∀ {fs : List Form} {stmts : List Stmt}, toStmts fs = .ok stmts →
    Expr.AllWritten (Stmt.exprsIn stmts)
  | [], _, h => by
      cases h
      exact .nil
  | f :: rest, _, h => by
      obtain ⟨s, stmts, hs, hstmts, rfl⟩ := toStmts_cons h
      exact Expr.allWritten_append.2 ⟨toStmt_exprs hs, toStmts_exprs hstmts⟩
termination_by fs => sizeOf fs
decreasing_by all_goals (simp only [List.cons.sizeOf_spec]; omega)

end

end Form

/-- Every expression of a parsed program is one that a text can express. -/
theorem Block.parse_written {text : String} {b : Block} (h : Block.parse text = .ok b) :
    Expr.AllWritten b.exprs := by
  unfold Block.parse at h
  simp only [Except.bind_eq_ok_iff] at h
  obtain ⟨forms, -, stmts, hs, h⟩ := h
  cases h
  exact Form.toStmts_exprs hs

/-! ## Checking -/

theorem Expr.Written.withNote {e : Expr} {note : Note} (h : e.Written) :
    (e.withNote note).Written := by
  cases h with
  | literal => exact .literal
  | ident => exact .ident
  | unary sign operand => exact .unary sign operand
  | binary left right => exact .binary left right
  | index operand => exact .index operand
  | call operands => exact .call operands

theorem Expr.coerce_written {e e' : Expr} {src dst : Ty} (h : e.coerce src dst = .ok e')
    (he : e.Written) : e'.Written := by
  rcases Expr.coerce_ok h with ⟨-, rfl⟩ | ⟨b, -, -, -, rfl⟩
  · exact he
  · exact he.withNote

section

variable {t : Table} {s : Nat}

mutual

theorem Expr.check_written : ∀ {e e' : Expr} {ty : Ty}, e.check t s = .ok (ty, e') →
    e.Written → e'.Written
  | .missing, _, _, h, _ => by simp [Expr.check] at h
  | .convert _ _ _, _, _, h, _ => by simp [Expr.check] at h
  | .literal _ _ _ _, _, _, h, _ => by
      obtain ⟨v, -, rfl, rfl⟩ := Expr.check_literal_ok h
      exact .literal
  | .ident _, _, _, h, _ => by
      obtain ⟨sym, -, rfl, rfl⟩ := Expr.check_ident_ok h
      exact .ident
  | .unary _ _ _ _, _, _, h, .unary sign operand => by
      obtain ⟨_, x₁, x', hx, hx', -, rfl⟩ := Expr.check_unary_ok h
      exact .unary sign (Expr.coerce_written hx' (Expr.check_written hx operand))
  | .binary _ _ _ _ _, _, _, h, .binary left right => by
      obtain ⟨_, x₁, x', _, y₁, y', _, _, _, hx, hy, hx', hy', -, -, rfl, rfl⟩ :=
        Expr.check_binary_ok h
      exact .binary (Expr.coerce_written hx' (Expr.check_written hx left))
        (Expr.coerce_written hy' (Expr.check_written hy right))
  | .index _ _ _ _, _, _, h, .index operand => by
      obtain ⟨id, sym, _, _, i₁, i', rfl, -, -, hi, hi', rfl, rfl⟩ := Expr.check_index_ok h
      exact .index (Expr.coerce_written hi' (Expr.check_written hi operand))
  | .call _ _ _ _, _, _, h, .call operands => by
      obtain ⟨id, sym, params, args', rfl, -, -, hcount, hargs, rfl⟩ := Expr.check_call_ok h
      exact .call (Expr.checkArgs_written hcount hargs operands)

theorem Expr.checkArgs_written : ∀ {args args' : List Expr} {params : List Ty} {name : String}
    {i : Nat}, params.length = args.length →
      Expr.checkArgs t s name i params args = .ok (args', []) →
      (∀ e ∈ args, e.Written) → ∀ e ∈ args', e.Written
  | [], args', params, _, _, hcount, h, _ => by
      obtain rfl := List.length_eq_zero_iff.1 hcount
      cases h
      exact fun e he => (nomatch he)
  | e :: rest, args', [], _, _, hcount, _, _ => by cases hcount
  | e :: rest, args', param :: params, _, _, hcount, h, hw => by
      obtain ⟨_, e₁, e', rest', he, he', hrest, rfl⟩ := Expr.checkArgs_cons_ok h
      obtain ⟨hfirst, hmore⟩ := List.forall_mem_cons.1 hw
      refine List.forall_mem_cons.2 ⟨?_, ?_⟩
      · exact Expr.coerce_written he' (Expr.check_written he hfirst)
      · exact Expr.checkArgs_written (Nat.succ.inj hcount) hrest hmore

end

/-- Where all parts of an expression are written, so are all parts of what checking makes of it. -/
theorem Expr.check_parts {e e₁ e' : Expr} {ty ty' : Ty} (h : e.check t s = .ok (ty, e₁))
    (hco : e₁.coerce ty ty' = .ok e') (he : Expr.AllWritten e.parts) :
    Expr.AllWritten e'.parts := by
  have hm : e.isMissing = false := by
    cases e with
    | missing => simp [Expr.check] at h
    | _ => rfl
  have hwritten := Expr.check_written h (he e (Expr.mem_parts hm))
  exact (Expr.coerce_written hco hwritten).parts

theorem Expr.checkCond_parts {e e' : Expr} (h : e.checkCond t s = .ok e')
    (he : Expr.AllWritten e.parts) : Expr.AllWritten e'.parts := by
  obtain ⟨_, e₁, hcheck, hco⟩ := Expr.checkCond_ok h
  exact Expr.check_parts hcheck hco he

theorem checkLoopCond_parts {pos : Pos} {cond cond' inserted : Expr}
    (h : checkLoopCond t s pos cond = .ok (cond', inserted)) (hc : Expr.AllWritten cond.parts) :
    Expr.AllWritten cond'.parts ∧ Expr.AllWritten inserted.parts := by
  rcases checkLoopCond_ok h with ⟨-, rfl, hi⟩ | ⟨-, hcond, rfl⟩
  · exact ⟨.nil, Expr.checkCond_parts hi Expr.Written.literal.parts⟩
  · exact ⟨Expr.checkCond_parts hcond hc, .nil⟩

theorem checkAssign_exprs {pos : Pos} {target value : Expr} {stmt : Stmt}
    (h : checkAssign t s pos target value = .ok stmt)
    (hw : Expr.AllWritten (target.parts ++ value.parts)) :
    ∃ target' value' noted, stmt = .assign pos target' value' noted ∧
      Expr.AllWritten (target'.parts ++ value'.parts) := by
  obtain ⟨ty, target', _, value₁, value', ht, hv, hco, rfl⟩ := checkAssign_ok h
  obtain ⟨hwt, hwv⟩ := Expr.allWritten_append.1 hw
  refine ⟨target', value', some ty, rfl, Expr.allWritten_append.2 ⟨?_, ?_⟩⟩
  · rcases checkTarget_ok ht with ⟨id, sym, -, -, -, -, rfl⟩ | ⟨ipos, array, i, note, rfl, ht⟩
    · exact Expr.Written.ident.parts
    · exact (Expr.check_written ht (hwt _ List.mem_cons_self)).parts
  · exact Expr.check_parts hv hco hwv

end

theorem checkVars_exprs {s : Nat} {type : Ty} :
    ∀ {vars vars' : List Node} {t t' : Table}, checkVars t s type vars = .ok (t', vars') →
      Expr.AllWritten (vars.flatMap Node.exprs) → Expr.AllWritten (vars'.flatMap Node.exprs)
  | [], _, _, _, h, _ => by
      cases h
      exact .nil
  | n :: rest, _, _, _, h, hw => by
      obtain ⟨t₁, n', rest', hn, hrest, rfl⟩ := checkVars_cons_ok h
      obtain ⟨hwn, hwrest⟩ := Expr.allWritten_append.1 hw
      refine Expr.allWritten_append.2 ⟨?_, checkVars_exprs hrest hwrest⟩
      rcases checkVar_ok hn with ⟨id, id', rfl, -, rfl⟩ | ⟨pos, id, value, noted, id', assign, rfl,
        -, ha, rfl⟩
      · exact .nil
      · obtain ⟨-, hwv⟩ := Expr.allWritten_append.1 hwn
        obtain ⟨target', value', noted', rfl, hall⟩ :=
          checkAssign_exprs ha (Expr.allWritten_append.2 ⟨Expr.Written.ident.parts, hwv⟩)
        exact hall

mutual

theorem Stmt.check_exprs : ∀ {stmt stmt' : Stmt} {t t' : Table} {s : Nat},
    stmt.check t s = .ok (t', stmt') → Expr.AllWritten stmt.exprs → Expr.AllWritten stmt'.exprs
  | .missing, _, _, _, _, h, _ => by cases h
  | .call _ _ _ _, _, _, _, _, h, hw => by
      obtain ⟨id, sym, _, _, args', rfl, rfl, -, -, hcount, hargs, rfl⟩ := Stmt.check_call_ok h
      cases hw _ List.mem_cons_self with
      | call operands => exact (Expr.Written.call (Expr.checkArgs_written hcount hargs operands)).parts
  | .assign _ _ _ _, _, _, _, _, h, hw => by
      obtain ⟨rfl, ha⟩ := Stmt.check_assign_ok h
      obtain ⟨_, _, _, rfl, hall⟩ := checkAssign_exprs ha hw
      exact hall
  | .varDecl _ _ _, _, _, _, _, h, hw => by
      obtain ⟨kind, vars', -, hvars, rfl⟩ := Stmt.check_varDecl_ok h
      exact checkVars_exprs hvars hw
  | .arrayDecl _ _ _ _, _, _, _, _, h, hw => by
      obtain ⟨kind, _, size₁, size', id, id', -, hsize, hco, -, -, rfl⟩ :=
        Stmt.check_arrayDecl_ok h
      exact Expr.check_parts hsize hco hw
  | .ifElse _ _ _ _, _, _, _, _, h, hw => by
      obtain ⟨cond', t₁, yes', no', hc, hyes, hno, rfl⟩ := Stmt.check_ifElse_ok h
      simp only [Stmt.exprs, Expr.allWritten_append] at hw ⊢
      exact ⟨⟨Expr.checkCond_parts hc hw.1.1, Block.check_exprs hyes hw.1.2⟩,
        Block.check_exprs hno hw.2⟩
  | .whileLoop _ _ _, _, _, _, _, h, hw => by
      obtain ⟨cond', body', hc, hbody, rfl⟩ := Stmt.check_whileLoop_ok h
      simp only [Stmt.exprs, Expr.allWritten_append] at hw ⊢
      exact ⟨Expr.checkCond_parts hc hw.1, Block.check_exprs hbody hw.2⟩
  | .forLoop _ _ _ _ _ _, _, _, _, _, h, hw => by
      obtain ⟨t₁, init', cond', inserted', t₂, step', body', hinit, hc, hstep, hbody, rfl⟩ :=
        Stmt.check_forLoop_ok h
      simp only [Stmt.exprs, Expr.allWritten_append] at hw ⊢
      obtain ⟨⟨⟨⟨hwi, hwc⟩, -⟩, hws⟩, hwb⟩ := hw
      have hi : Expr.AllWritten init'.exprs := by
        rcases Stmt.checkPart_ok hinit with ⟨-, -, rfl⟩ | ⟨-, hinit⟩
        · exact .nil
        · exact Stmt.check_exprs hinit hwi
      have hs : Expr.AllWritten step'.exprs := by
        rcases Stmt.checkPart_ok hstep with ⟨-, -, rfl⟩ | ⟨-, hstep⟩
        · exact .nil
        · exact Stmt.check_exprs hstep hws
      obtain ⟨hcond, hinserted⟩ := checkLoopCond_parts hc hwc
      exact ⟨⟨⟨⟨hi, hcond⟩, hinserted⟩, hs⟩, Block.check_exprs hbody hwb⟩
  | .block _, _, _, _, _, h, hw => by
      obtain ⟨b', hb, rfl⟩ := Stmt.check_block_ok h
      exact Block.check_exprs hb hw
  | .funcDecl _ _ _ _ _ _ _, _, _, _, _, h, hw => by
      obtain ⟨t₁, head, body', -, hb, rfl⟩ := Stmt.check_funcDecl_ok h
      exact Block.check_exprs hb hw
  | .ret _ _, _, _, _, _, h, hw => by
      obtain ⟨rfl, hr⟩ := Stmt.check_ret_ok h
      obtain ⟨f, -, ⟨-, -, rfl⟩ | ⟨_, value₁, value', -, -, hv, hco, rfl⟩⟩ := checkReturn_ok hr
      · exact .nil
      · exact Expr.check_parts hv hco hw

theorem Block.check_exprs : ∀ {b b' : Block} {t t' : Table} {s : Nat},
    b.check t s = .ok (t', b') → Expr.AllWritten b.exprs → Expr.AllWritten b'.exprs
  | .missing, _, _, _, _, h, _ => by
      cases h
      exact .nil
  | .of _ _, _, _, _, _, h, hw => by
      obtain ⟨stmts', hs, rfl⟩ := Block.check_of_ok h
      exact Stmt.checkAll_exprs hs hw

theorem Stmt.checkAll_exprs : ∀ {stmts stmts' : List Stmt} {t t' : Table} {s : Nat},
    Stmt.checkAll t s stmts = .ok (t', stmts') → Expr.AllWritten (Stmt.exprsIn stmts) →
      Expr.AllWritten (Stmt.exprsIn stmts')
  | [], _, _, _, _, h, _ => by
      cases h
      exact .nil
  | _ :: _, _, _, _, _, h, hw => by
      obtain ⟨t₁, stmt', rest', hstmt, hrest, rfl⟩ := Stmt.checkAll_cons_ok h
      obtain ⟨hws, hwrest⟩ := Expr.allWritten_append.1 hw
      exact Expr.allWritten_append.2
        ⟨Stmt.check_exprs hstmt hws, Stmt.checkAll_exprs hrest hwrest⟩

end

/-- Every expression of a checked program that was parsed from a text is one that a text can
express. -/
theorem Analysis.written {text : String} {b : Block} {a : Analysis}
    (hb : Block.parse text = .ok b) (ha : Analysis.ofProgram b = .ok a) :
    Expr.AllWritten a.program.exprs := by
  have hw := Block.parse_written hb
  obtain ⟨pos, stmts, t, stmts', rfl, hs, rfl⟩ := Analysis.ofProgram_ok ha
  exact Stmt.checkAll_exprs hs hw

end SmallC
