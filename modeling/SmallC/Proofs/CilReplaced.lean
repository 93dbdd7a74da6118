import Mathlib.Data.List.Forall2
import SmallC.Proofs.CilTotal
import SmallC.Proofs.Kinds

/-!
# What folding replaces in CIL

Folding is asked for at every node of every expression, and may fail at a node
and succeed further down. What it does to the code is the same everywhere: where
the code of a constant expression would stand, one instruction stands that loads
the value of the expression. `Replaced` says that of two pieces of code and
nothing about trees, and it passes from pieces to what is put together from them,
so it holds of whole methods.

The lowering takes the same steps in both cases, with pieces related in this way.
`Corresponds` is what that comes to for steps that may fail. Nothing is said
where only one side succeeds, so no type of any expression has to be known.
-/

namespace SmallC

/-- Whenever two computations both succeed, their results are related. -/
def Corresponds {ε α β : Type} (R : α → β → Prop) (x : Except ε α) (y : Except ε β) : Prop :=
  ∀ a b, x = .ok a → y = .ok b → R a b

namespace Corresponds

variable {ε α β γ δ : Type} {R : α → β → Prop} {S : γ → δ → Prop}

theorem ok {a : α} {b : β} (h : R a b) : Corresponds R (.ok a : Except ε α) (.ok b) := by
  intro a' b' ha hb
  cases ha
  cases hb
  exact h

theorem error_left {e : ε} {y : Except ε β} : Corresponds R (.error e) y :=
  fun _ _ hx _ => nomatch hx

theorem bind {x : Except ε α} {y : Except ε β} (h : Corresponds R x y) {k : α → Except ε γ}
    {k' : β → Except ε δ} (hk : ∀ a b, R a b → Corresponds S (k a) (k' b)) :
    Corresponds S (x >>= k) (y >>= k') := by
  intro c d hx hy
  obtain ⟨a, ha, hc⟩ := Except.bind_eq_ok_iff.1 hx
  obtain ⟨b, hb, hd⟩ := Except.bind_eq_ok_iff.1 hy
  exact hk a b (h a b ha hb) c d hc hd

/-- The same computation on both sides. -/
theorem bind_same {x : Except ε α} {k : α → Except ε γ} {k' : α → Except ε δ}
    (hk : ∀ a, Corresponds S (k a) (k' a)) : Corresponds S (x >>= k) (x >>= k') := by
  cases x with
  | error e => exact error_left
  | ok a => exact hk a

end Corresponds

namespace Cil

/-- The code of an expression, before conversion or as used, in a method that does not fold, and the
value of the expression. -/
inductive Evaluates (f : Option Function) (e : Expr) : List Instr → Value → Prop where
  | raw {code : List Instr} {v : Value} (lowered : lowerRaw ⟨false, f⟩ e = .ok code)
      (value : precision.eval e = some v) : Evaluates f e code v
  | used {code : List Instr} {v : Value} (lowered : lowerExpr ⟨false, f⟩ e = .ok code)
      (value : precision.evalUsed e = some v) : Evaluates f e code v

/-- The second piece of code is the first one, except that some segments of it, none of which touch
each other's instructions, are replaced: each is the code of a constant expression, and one
instruction that loads the value of the expression stands in its place. -/
inductive Replaced (f : Option Function) : List Instr → List Instr → Prop where
  | nil : Replaced f [] []
  | keep (i : Instr) {code code' : List Instr} (rest : Replaced f code code') :
      Replaced f (i :: code) (i :: code')
  | load {e : Expr} {segment code code' : List Instr} {v : Value} (constant : e.isConstant = true)
      (evaluates : Evaluates f e segment v) (rest : Replaced f code code') :
      Replaced f (segment ++ code) (immediate v :: code')

namespace Replaced

variable {f : Option Function} {code code' more more' : List Instr}

theorem refl (code : List Instr) : Replaced f code code := by
  induction code with
  | nil => exact .nil
  | cons i rest ih => exact .keep i ih

theorem append (h : Replaced f code code') (h' : Replaced f more more') :
    Replaced f (code ++ more) (code' ++ more') := by
  induction h with
  | nil => exact h'
  | keep i _ ih => exact .keep i ih
  | load constant evaluates _ ih =>
      rw [List.append_assoc]
      exact .load constant evaluates ih

/-- The same code at the end. -/
theorem then_same (h : Replaced f code code') (more : List Instr) :
    Replaced f (code ++ more) (code' ++ more) :=
  h.append (.refl more)

theorem single {e : Expr} {v : Value} (constant : e.isConstant = true)
    (evaluates : Evaluates f e code v) : Replaced f code [immediate v] := by
  simpa using Replaced.load constant evaluates .nil

end Replaced

/-! ## Expressions -/

section

variable {f : Option Function} {e : Expr}

theorem plain_false {raw : Except Fault (List Instr)} : plain ⟨false, f⟩ e raw = raw := by
  unfold plain
  split
  · rfl
  · rw [Context.folded?_false]

variable (h : Corresponds (Replaced f) (lowerRaw ⟨false, f⟩ e) (lowerRaw ⟨true, f⟩ e))

include h

theorem plain_replaced :
    Corresponds (Replaced f) (plain ⟨false, f⟩ e (lowerRaw ⟨false, f⟩ e))
      (plain ⟨true, f⟩ e (lowerRaw ⟨true, f⟩ e)) := by
  rw [plain_false]
  unfold plain
  split
  · exact h
  · split
    · next v hv =>
        intro code code' hcode hcode'
        cases hcode'
        exact .single (Context.isConstant_of_folded hv) (.raw hcode (Context.eval_of_folded hv))
    · exact h

theorem used_replaced :
    Corresponds (Replaced f) (used ⟨false, f⟩ e (lowerRaw ⟨false, f⟩ e))
      (used ⟨true, f⟩ e (lowerRaw ⟨true, f⟩ e)) := by
  have hplain := plain_replaced h
  intro code code' hcode hcode'
  have hsame : lowerExpr ⟨false, f⟩ e = .ok code := hcode
  revert hcode hcode'
  unfold used
  split
  · exact hplain code code'
  · rw [Context.folded?_false]
    dsimp only
    split
    · next v hv =>
        intro _ hcode'
        cases hcode'
        exact .single (Context.isConstant_of_folded hv) (.used hsame (Context.eval_of_folded hv))
    · refine Corresponds.bind hplain (fun _ _ hr => .bind_same fun more => .ok ?_) code code'
      exact hr.then_same more

end

theorem callCode_replaced {f : Option Function} {pos : Pos} {func : Option Ident}
    {args args' : Except Fault (List Instr)} (h : Corresponds (Replaced f) args args') :
    Corresponds (Replaced f) (callCode pos func args) (callCode pos func args') := by
  unfold callCode
  refine .bind_same fun callee => ?_
  split
  · split
    · exact .error_left
    · exact h.bind fun _ _ hr => .ok (hr.then_same _)
  · exact h.bind fun _ _ hr => .bind_same fun _ => .ok (hr.then_same _)

mutual

theorem lowerRaw_replaced (f : Option Function) :
    ∀ e : Expr, Corresponds (Replaced f) (lowerRaw ⟨false, f⟩ e) (lowerRaw ⟨true, f⟩ e)
  | .missing => by
      rw [lowerRaw, lowerRaw]
      exact .error_left
  | .literal _ _ _ _ => by
      rw [lowerRaw, lowerRaw]
      exact .bind_same fun _ => .ok (.refl _)
  | .ident _ => by
      rw [lowerRaw, lowerRaw]
      exact .bind_same fun _ => .bind_same fun _ => .ok (.refl _)
  | .convert _ x _ => by
      rw [lowerRaw, lowerRaw]
      exact (plain_replaced (lowerRaw_replaced f x)).bind fun _ _ hr =>
        .bind_same fun _ => .ok (hr.then_same _)
  | .unary _ _ x _ => by
      rw [lowerRaw, lowerRaw]
      exact (used_replaced (lowerRaw_replaced f x)).bind fun _ _ hr => .ok (hr.then_same _)
  | .binary _ _ x y _ => by
      rw [lowerRaw, lowerRaw]
      refine (used_replaced (lowerRaw_replaced f x)).bind fun _ _ hx => ?_
      refine (used_replaced (lowerRaw_replaced f y)).bind fun _ _ hy => .bind_same fun _ => ?_
      split
      · exact .ok ((hx.append hy).then_same _)
      · exact .error_left
  | .index _ _ i _ => by
      rw [lowerRaw, lowerRaw]
      refine .bind_same fun _ => .bind_same fun _ => ?_
      exact (used_replaced (lowerRaw_replaced f i)).bind fun _ _ hr =>
        .bind_same fun _ => .ok ((hr.keep _).then_same _)
  | .call _ _ args _ => by
      rw [lowerRaw, lowerRaw]
      exact callCode_replaced (lowerArgs_replaced f args)

theorem lowerArgs_replaced (f : Option Function) :
    ∀ args : List Expr,
      Corresponds (Replaced f) (lowerArgs ⟨false, f⟩ args) (lowerArgs ⟨true, f⟩ args)
  | [] => by
      rw [lowerArgs, lowerArgs]
      exact .ok .nil
  | e :: rest => by
      rw [lowerArgs, lowerArgs]
      exact (used_replaced (lowerRaw_replaced f e)).bind fun _ _ he =>
        (lowerArgs_replaced f rest).bind fun _ _ hrest => .ok (he.append hrest)

end

/-! ## Statements -/

section

variable (f : Option Function)

theorem lowerExpr_replaced (e : Expr) :
    Corresponds (Replaced f) (lowerExpr ⟨false, f⟩ e) (lowerExpr ⟨true, f⟩ e) :=
  used_replaced (lowerRaw_replaced f e)

theorem lowerAssign_replaced (pos : Pos) (target value : Expr) :
    Corresponds (Replaced f) (lowerAssign ⟨false, f⟩ pos target value)
      (lowerAssign ⟨true, f⟩ pos target value) := by
  unfold lowerAssign
  split
  · exact (lowerExpr_replaced f value).bind fun _ _ hr =>
      .bind_same fun _ => .bind_same fun _ => .ok (hr.then_same _)
  · refine .bind_same fun _ => .bind_same fun _ => ?_
    refine (lowerExpr_replaced f _).bind fun _ _ hi => ?_
    exact (lowerExpr_replaced f value).bind fun _ _ hr =>
      .bind_same fun _ => .ok (((hi.keep _).append hr).then_same _)
  · exact .error_left

theorem lowerVars_replaced (vars : List Node) :
    Corresponds (Replaced f) (lowerVars ⟨false, f⟩ vars) (lowerVars ⟨true, f⟩ vars) := by
  induction vars with
  | nil => exact .ok .nil
  | cons n rest ih =>
      unfold lowerVars
      split
      · exact .ok .nil
      · next heq =>
          cases heq
          exact (lowerAssign_replaced f _ _ _).bind fun _ _ hr =>
            ih.bind fun _ _ hrest => .ok (hr.append hrest)
      · next heq =>
          cases heq
          exact ih

theorem lowerLoopCond_replaced (cond inserted : Expr) :
    Corresponds (Replaced f) (lowerLoopCond ⟨false, f⟩ cond inserted)
      (lowerLoopCond ⟨true, f⟩ cond inserted) := by
  unfold lowerLoopCond
  split
  · exact lowerExpr_replaced f cond
  · split
    · exact .error_left
    · exact lowerExpr_replaced f inserted

/-- The same number of labels, and code in which constants are replaced. -/
def Renewed (f : Option Function) (out out' : Nat × List Instr) : Prop :=
  out.1 = out'.1 ∧ Replaced f out.2 out'.2

variable {f}

theorem ifCode_replaced {n : Nat} {cond cond' yes yes' no no' : List Instr}
    (hcond : Replaced f cond cond') (hyes : Replaced f yes yes') (hno : Replaced f no no') :
    Replaced f (ifCode n cond yes no) (ifCode n cond' yes' no') :=
  ((((hcond.then_same _).append hyes).then_same _).append hno).then_same _

theorem loopCode_replaced {n : Nat} {body body' step step' cond cond' : List Instr}
    (hbody : Replaced f body body') (hstep : Replaced f step step')
    (hcond : Replaced f cond cond') :
    Replaced f (loopCode n body step cond) (loopCode n body' step' cond') :=
  (((((Replaced.refl _).append hbody).append hstep).then_same _).append hcond).then_same _

theorem lowerPart_replaced {part : Stmt} {n : Nat}
    (h : Corresponds (Renewed f) (lowerStmt ⟨false, f⟩ n part) (lowerStmt ⟨true, f⟩ n part)) :
    Corresponds (Renewed f) (lowerPart ⟨false, f⟩ n part) (lowerPart ⟨true, f⟩ n part) := by
  unfold lowerPart
  split
  · exact .ok ⟨rfl, .nil⟩
  · exact h

end

mutual

theorem lowerStmt_replaced (f : Option Function) :
    ∀ (stmt : Stmt) (n : Nat),
      Corresponds (Renewed f) (lowerStmt ⟨false, f⟩ n stmt) (lowerStmt ⟨true, f⟩ n stmt)
  | .missing, _ => by
      rw [lowerStmt, lowerStmt]
      exact .error_left
  | .call _ _ args _, _ => by
      rw [lowerStmt, lowerStmt]
      exact (callCode_replaced (lowerArgs_replaced f args)).bind fun _ _ hr =>
        .ok ⟨rfl, hr.then_same _⟩
  | .assign pos target value _, _ => by
      rw [lowerStmt, lowerStmt]
      exact (lowerAssign_replaced f pos target value).bind fun _ _ hr => .ok ⟨rfl, hr⟩
  | .varDecl _ _ vars, _ => by
      rw [lowerStmt, lowerStmt]
      exact (lowerVars_replaced f vars).bind fun _ _ hr => .ok ⟨rfl, hr⟩
  | .arrayDecl _ _ _ size, _ => by
      rw [lowerStmt, lowerStmt]
      refine .bind_same fun _ => (lowerExpr_replaced f size).bind fun _ _ hr => ?_
      exact .bind_same fun _ => .bind_same fun _ => .ok ⟨rfl, hr.then_same _⟩
  | .ifElse _ cond yes no, n => by
      rw [lowerStmt, lowerStmt]
      refine (lowerExpr_replaced f cond).bind fun _ _ hcond => ?_
      refine (lowerBlock_replaced f yes (n + 1)).bind fun ⟨_, _⟩ ⟨_, _⟩ ⟨hn, hyes⟩ => ?_
      cases hn
      refine (lowerBlock_replaced f no _).bind fun ⟨_, _⟩ ⟨_, _⟩ ⟨hn, hno⟩ => ?_
      cases hn
      exact .ok ⟨rfl, ifCode_replaced hcond hyes hno⟩
  | .whileLoop _ cond body, n => by
      rw [lowerStmt, lowerStmt]
      refine (lowerBlock_replaced f body (n + 1)).bind fun ⟨_, _⟩ ⟨_, _⟩ ⟨hn, hbody⟩ => ?_
      cases hn
      exact (lowerExpr_replaced f cond).bind fun _ _ hcond =>
        .ok ⟨rfl, loopCode_replaced hbody .nil hcond⟩
  | .forLoop _ init cond inserted step body, n => by
      rw [lowerStmt_forLoop, lowerStmt_forLoop]
      refine (lowerPart_replaced (lowerStmt_replaced f init n)).bind
        fun ⟨_, _⟩ ⟨_, _⟩ ⟨hn, hinit⟩ => ?_
      cases hn
      refine (lowerBlock_replaced f body _).bind fun ⟨_, _⟩ ⟨_, _⟩ ⟨hn, hbody⟩ => ?_
      cases hn
      refine (lowerPart_replaced (lowerStmt_replaced f step _)).bind
        fun ⟨_, _⟩ ⟨_, _⟩ ⟨hn, hstep⟩ => ?_
      cases hn
      exact (lowerLoopCond_replaced f cond inserted).bind fun _ _ hcond =>
        .ok ⟨rfl, hinit.append (loopCode_replaced hbody hstep hcond)⟩
  | .block b, n => by
      rw [lowerStmt, lowerStmt]
      exact lowerBlock_replaced f b n
  | .funcDecl _ _ _ _ _ _ _, _ => by
      rw [lowerStmt, lowerStmt]
      exact .ok ⟨rfl, .nil⟩
  | .ret _ value, _ => by
      rw [lowerStmt, lowerStmt]
      split
      · exact .ok ⟨rfl, .refl _⟩
      · exact (lowerExpr_replaced f value).bind fun _ _ hr => .ok ⟨rfl, hr.then_same _⟩

theorem lowerBlock_replaced (f : Option Function) :
    ∀ (b : Block) (n : Nat),
      Corresponds (Renewed f) (lowerBlock ⟨false, f⟩ n b) (lowerBlock ⟨true, f⟩ n b)
  | .missing, _ => by
      rw [lowerBlock, lowerBlock]
      exact .ok ⟨rfl, .nil⟩
  | .of _ stmts, n => by
      rw [lowerBlock, lowerBlock]
      exact lowerStmts_replaced f stmts n

theorem lowerStmts_replaced (f : Option Function) :
    ∀ (stmts : List Stmt) (n : Nat),
      Corresponds (Renewed f) (lowerStmts ⟨false, f⟩ n stmts) (lowerStmts ⟨true, f⟩ n stmts)
  | [], _ => by
      rw [lowerStmts, lowerStmts]
      exact .ok ⟨rfl, .nil⟩
  | s :: rest, n => by
      rw [lowerStmts, lowerStmts]
      refine (lowerStmt_replaced f s n).bind fun ⟨_, _⟩ ⟨_, _⟩ ⟨hn, hs⟩ => ?_
      cases hn
      refine (lowerStmts_replaced f rest _).bind fun ⟨_, _⟩ ⟨_, _⟩ ⟨hn, hrest⟩ => ?_
      cases hn
      exact .ok ⟨rfl, hs.append hrest⟩

end

/-! ## How long the code is -/

theorem length_used {f : Option Function} {e : Expr} {code : List Instr}
    (hraw : ∀ code, lowerRaw ⟨false, f⟩ e = .ok code → 0 < code.length)
    (h : lowerExpr ⟨false, f⟩ e = .ok code) : 0 < code.length := by
  unfold lowerExpr used at h
  split at h
  · rw [plain_false] at h
    exact hraw code h
  · rw [Context.folded?_false] at h
    obtain ⟨first, hfirst, h⟩ := Except.bind_eq_ok_iff.1 h
    obtain ⟨more, -, h⟩ := Except.bind_eq_ok_iff.1 h
    cases h
    rw [plain_false] at hfirst
    have hpos := hraw first hfirst
    rw [List.length_append]
    omega

/-- The code of a constant expression has an instruction, since it ends with a literal somewhere. -/
theorem length_raw {f : Option Function} :
    ∀ {e : Expr} {code : List Instr}, e.isConstant = true →
      lowerRaw ⟨false, f⟩ e = .ok code → 0 < code.length
  | .missing, _, hc, _ | .ident _, _, hc, _ | .index _ _ _ _, _, hc, _ | .call _ _ _ _, _, hc, _ => by
      simp [Expr.isConstant] at hc
  | .literal _ _ _ _, _, _, h => by
      rw [lowerRaw] at h
      obtain ⟨value, -, h⟩ := Except.bind_eq_ok_iff.1 h
      cases h
      exact Nat.one_pos
  | .convert _ _ _, _, hc, h => by
      rw [lowerRaw] at h
      obtain ⟨first, hfirst, h⟩ := Except.bind_eq_ok_iff.1 h
      obtain ⟨more, -, h⟩ := Except.bind_eq_ok_iff.1 h
      cases h
      rw [plain_false] at hfirst
      rw [Expr.isConstant] at hc
      have hpos := length_raw hc hfirst
      rw [List.length_append]
      omega
  | .unary _ _ _ _, _, hc, h => by
      rw [lowerRaw] at h
      obtain ⟨first, hfirst, h⟩ := Except.bind_eq_ok_iff.1 h
      cases h
      rw [Expr.isConstant] at hc
      have hpos := length_used (fun _ => length_raw hc) hfirst
      rw [List.length_append]
      omega
  | .binary _ _ _ _ _, _, hc, h => by
      rw [lowerRaw] at h
      obtain ⟨first, hfirst, h⟩ := Except.bind_eq_ok_iff.1 h
      obtain ⟨second, -, h⟩ := Except.bind_eq_ok_iff.1 h
      obtain ⟨_, -, h⟩ := Except.bind_eq_ok_iff.1 h
      split at h
      · cases h
        rw [Expr.isConstant, Bool.and_eq_true_iff] at hc
        have hpos := length_used (fun _ => length_raw hc.1) hfirst
        rw [List.length_append, List.length_append]
        omega
      · cases h

theorem Evaluates.length_pos {f : Option Function} {e : Expr} {code : List Instr} {v : Value}
    (h : Evaluates f e code v) (hc : e.isConstant = true) : 0 < code.length := by
  cases h with
  | raw lowered _ => exact length_raw hc lowered
  | used lowered _ => exact length_used (fun _ => length_raw hc) lowered

/-- A segment that is replaced was at least as long as the instruction that stands there now. -/
theorem Replaced.length_le {f : Option Function} {code code' : List Instr}
    (h : Replaced f code code') : code'.length ≤ code.length := by
  induction h with
  | nil => exact Nat.le_refl _
  | keep i _ ih => exact Nat.succ_le_succ ih
  | load constant evaluates _ ih =>
      have hpos := evaluates.length_pos constant
      rw [List.length_cons, List.length_append]
      omega

end Cil

/-! ## Methods -/

/-- The function that code comes from, if it comes from one. -/
def Origin.function? : Origin → Option Function
  | .function f => some f
  | .initializer => none

namespace Cil

/-- The second method is the first one with constants replaced in its body, and its body is not
longer. -/
structure Method.Renewed (m m' : Method) : Prop where
  origin : m.origin = m'.origin
  locals : m.locals = m'.locals
  body : Replaced m.origin.function? m.body m'.body
  length_le : m'.body.length ≤ m.body.length

theorem Method.renewed (o : Origin) {locals : List Symbol} {code code' : List Instr}
    (h : Replaced o.function? code code') (more : List Instr) :
    Method.Renewed ⟨o, locals, code ++ more⟩ ⟨o, locals, code' ++ more⟩ :=
  ⟨rfl, rfl, h.then_same more, (h.then_same more).length_le⟩

theorem lowerFunction_renewed (n : Nat) (d : FuncDecl) :
    Corresponds (fun out out' => out.1 = out'.1 ∧ Method.Renewed out.2 out'.2)
      (lowerFunction false n d) (lowerFunction true n d) := by
  unfold lowerFunction
  refine .bind_same fun f => .bind_same fun _ => .bind_same fun _ => ?_
  refine (lowerBlock_replaced (some f) d.body n).bind fun ⟨_, _⟩ ⟨_, _⟩ ⟨hn, hr⟩ => ?_
  exact .ok ⟨hn, Method.renewed (.function f) hr _⟩

theorem lowerFunctions_renewed (ds : List FuncDecl) (n : Nat) :
    Corresponds (fun out out' => out.1 = out'.1 ∧ List.Forall₂ Method.Renewed out.2 out'.2)
      (lowerFunctions false n ds) (lowerFunctions true n ds) := by
  induction ds generalizing n with
  | nil => exact .ok ⟨rfl, .nil⟩
  | cons d rest ih =>
      rw [lowerFunctions, lowerFunctions]
      refine (lowerFunction_renewed n d).bind ?_
      rintro ⟨_, _⟩ ⟨_, _⟩ ⟨hn, hd⟩
      cases hn
      refine (ih _).bind ?_
      rintro ⟨_, _⟩ ⟨_, _⟩ ⟨hn, hrest⟩
      exact .ok ⟨hn, .cons hd hrest⟩

theorem lowerInitializer_renewed (n : Nat) (program : Block) :
    Corresponds Method.Renewed (lowerInitializer false n program)
      (lowerInitializer true n program) :=
  (lowerBlock_replaced none program n).bind fun ⟨_, _⟩ ⟨_, _⟩ ⟨_, hr⟩ =>
    .ok (Method.renewed .initializer hr _)

/-- The second assembly is the first one with constants replaced in its methods. -/
structure Assembly.Renewed (asm asm' : Assembly) : Prop where
  name : asm.name = asm'.name
  fields : asm.fields = asm'.fields
  methods : List.Forall₂ Method.Renewed asm.methods asm'.methods

theorem Assembly.ofAnalysis_renewed (a : Analysis) (name : String) :
    Corresponds Assembly.Renewed (Assembly.ofAnalysis a ⟨false, name⟩)
      (Assembly.ofAnalysis a ⟨true, name⟩) := by
  unfold Assembly.ofAnalysis
  refine .bind_same fun _ => .bind_same fun ds => ?_
  refine (lowerFunctions_renewed ds 0).bind fun ⟨_, _⟩ ⟨_, _⟩ ⟨hn, hms⟩ => ?_
  cases hn
  refine .bind_same fun initialized => ?_
  split
  · exact (lowerInitializer_renewed _ a.program).bind fun _ _ hm =>
      .ok ⟨rfl, rfl, List.rel_append hms (.cons hm .nil)⟩
  · exact .ok ⟨rfl, rfl, hms⟩

end Cil

end SmallC
