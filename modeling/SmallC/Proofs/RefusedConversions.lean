import SmallC.Proofs.CallArguments
import SmallC.Proofs.CheckFaults
import SmallC.Proofs.TypeTexts

/-!
# Conversions that are refused

A fault can say that one type does not convert to another. That is said at one
place only, and there it is true: the two types differ, and no conversion leads
from the first to the second. What has to be seen is that nothing on the way to a
report says it for another reason, and that arguments, which are reported
together, are no exception. Nothing needs to be known about the symbol table or
about the tree for this, so it holds of every analysis.

Types that differ are told apart by their texts, so the message never shows one
text twice.
-/

namespace SmallC

/-! ## What a fault says of conversions -/

mutual

/-- The causes in a fault, in the order in which its message tells them. -/
def Fault.causes : Fault → List Cause
  | .kind _ => []
  | .plain cause | .traced cause => [cause]
  | .within _ inner | .internal _ inner | .located _ _ inner => Fault.causesAll inner

/-- The causes in several faults. -/
def Fault.causesAll : List Fault → List Cause
  | [] => []
  | f :: rest => f.causes ++ Fault.causesAll rest

end

/-- Whether a cause is right about the conversion that it says is not possible, if it says so. -/
def Cause.justified : Cause → Bool
  | .inconvertible src dst => !src.assignable dst
  | _ => true

/-- A fault that is right about the conversions that it says are not possible. -/
def Fault.Justified (f : Fault) : Prop := f.causes.all Cause.justified = true

theorem Fault.Justified.text_ne {f : Fault} (h : f.Justified) {x y : Ty}
    (hxy : .inconvertible x y ∈ f.causes) : x.text ≠ y.text := by
  have hrefused : x.assignable y = false := by
    simpa [Cause.justified] using List.all_eq_true.1 h _ hxy
  exact fun htext => (Ty.not_assignable_iff.1 hrefused).1 (Ty.text_inj htext)

theorem Fault.causesAll_append (fs gs : List Fault) :
    causesAll (fs ++ gs) = causesAll fs ++ causesAll gs := by
  induction fs with
  | nil => rfl
  | cons f rest ih => rw [List.cons_append, causesAll, causesAll, ih, List.append_assoc]

/-! ## Expressions -/

/-- What is said where a conversion fails is justified. All of it is one cause. -/
theorem Expr.coerce_justified {e : Expr} {src dst : Ty} {cause : Cause}
    (h : e.coerce src dst = .error cause) : [cause].all Cause.justified = true := by
  rw [Expr.coerce_eq] at h
  split at h
  · cases h
  · next hrefused =>
      cases h
      simpa [Cause.justified] using hrefused

theorem Expr.coerceFor_justified (context : String) (e : Expr) (src dst : Ty) :
    FailsOnly Fault.Justified (e.coerceFor context src dst) := by
  unfold Expr.coerceFor
  cases hcoerce : e.coerce src dst with
  | ok e' => exact .ok e'
  | error cause => exact .error (Expr.coerce_justified hcoerce)

theorem coerceOperand_justified (e : Expr) (src : Ty) (dst : Option Base) :
    FailsOnly Fault.Justified (coerceOperand e src dst) := by
  cases dst with
  | none => exact .ok e
  | some dst =>
      rw [coerceOperand]
      cases hcoerce : e.coerce src (.base dst) with
      | ok e' => exact .ok e'
      | error cause => exact .error (Expr.coerce_justified hcoerce)

theorem Ident.present_justified (name : Option Ident) :
    FailsOnly Fault.Justified (Ident.present name) := by
  cases name with
  | none => exact .error rfl
  | some id => exact .ok id

theorem checkUnary_justified (pos : Pos) (op : Op) (x : Expr) (type : Ty) :
    FailsOnly Fault.Justified (checkUnary pos op x type) := by
  unfold checkUnary
  split
  · exact .ok _
  · split
    · exact .ok _
    · exact .error rfl

theorem checkBinary_justified (pos : Pos) (op : Op) (x y : Expr) (xType yType : Ty) :
    FailsOnly Fault.Justified (checkBinary pos op x y xType yType) := by
  unfold checkBinary
  split
  · exact .error rfl
  · exact (coerceOperand_justified _ _ _).bind fun _ _ => (coerceOperand_justified _ _ _).bind
      fun _ _ => .ok _

section

variable (t : Table) (s : Nat)

theorem Ident.resolve_justified (id : Ident) : FailsOnly Fault.Justified (id.resolve t s) := by
  unfold Ident.resolve
  split
  · exact .ok _
  · exact .error rfl

theorem checkArray_justified (array : Option Ident) :
    FailsOnly Fault.Justified (checkArray t s array) := by
  refine (Ident.present_justified array).bind fun id _ =>
    (id.resolve_justified t s).bind fun _ _ => ?_
  dsimp only
  split
  · exact .ok _
  · exact .error rfl

theorem checkCall_justified (pos : Pos) (func : Option Ident) (count : Nat)
    {args : String → List Ty → Except Fault (List Expr × List Fault)}
    (hargs : ∀ name params, FailsOnly Fault.Justified (args name params))
    (hmismatches : ∀ name params xs fs, args name params = .ok (xs, fs) →
      (Fault.causesAll fs).all Cause.justified = true) :
    FailsOnly Fault.Justified (checkCall t s pos func count args) := by
  refine (Ident.present_justified func).bind fun id _ =>
    (id.resolve_justified t s).bind fun _ _ => ?_
  dsimp only
  split
  · split
    · exact .error rfl
    · refine (hargs _ _).bind fun out hout => ?_
      have hinner := hmismatches _ _ _ _ hout
      split
      · next fault hfault =>
          unfold Fault.aggregate? at hfault
          split at hfault <;> cases hfault
          exact .error hinner
      · exact .ok _
  · exact .error rfl

/-- All that is said of arguments that do not fit is justified. -/
theorem Expr.checkArgs_mismatches_justified {name : String} {args : List Expr} :
    ∀ {i : Nat} {params : List Ty} {xs : List Expr} {fs : List Fault},
      Expr.checkArgs t s name i params args = .ok (xs, fs) →
      (Fault.causesAll fs).all Cause.justified = true := by
  induction args with
  | nil =>
      intro i params xs fs h
      cases params <;> cases h <;> rfl
  | cons e rest ih =>
      intro i params xs fs h
      cases params with
      | nil =>
          cases h
          rfl
      | cons p params =>
          rw [Expr.checkArgs] at h
          simp only [Except.bind_eq_ok_iff] at h
          obtain ⟨⟨type, e'⟩, -, ⟨more, fs'⟩, hmore, h⟩ := h
          have hrest := ih hmore
          cases h
          rw [Fault.causesAll_append, List.all_append, hrest, Bool.and_true]
          split
          · rfl
          · next cause hcause => exact Expr.coerce_justified hcause

mutual

theorem Expr.check_justified : ∀ e : Expr, FailsOnly Fault.Justified (e.check t s)
  | .missing | .convert _ _ _ => by
      simp only [Expr.check]
      exact .error rfl
  | .literal pos text _ _ => by
      rw [Expr.check]
      split
      · exact .ok _
      · next cause hcause =>
          rcases Literal.decode_error hcause with rfl | rfl | rfl | rfl | rfl <;> exact .error rfl
  | .ident id => by
      rw [Expr.check]
      exact (id.resolve_justified t s).bind fun _ _ => .ok _
  | .unary _ _ x _ => by
      rw [Expr.check]
      exact (Expr.check_justified x).bind fun _ _ => checkUnary_justified _ _ _ _
  | .binary _ _ x y _ => by
      rw [Expr.check]
      exact (Expr.check_justified x).bind fun _ _ => (Expr.check_justified y).bind fun _ _ =>
        checkBinary_justified _ _ _ _ _ _
  | .index _ array i _ => by
      rw [Expr.check]
      exact (checkArray_justified t s array).bind fun _ _ => (Expr.check_justified i).bind
        fun _ _ => (Expr.coerceFor_justified _ _ _ _).bind fun _ _ => .ok _
  | .call pos func args _ => by
      rw [Expr.check]
      exact (checkCall_justified t s pos func _
        (fun name params => Expr.checkArgs_justified args name 1 params)
        fun _ _ _ _ => Expr.checkArgs_mismatches_justified t s).bind fun _ _ => .ok _

theorem Expr.checkArgs_justified : ∀ (args : List Expr) (name : String) (i : Nat)
    (params : List Ty), FailsOnly Fault.Justified (Expr.checkArgs t s name i params args)
  | [], _, _, [] | [], _, _, _ :: _ | _ :: _, _, _, [] => .ok _
  | e :: rest, name, i, p :: params => by
      rw [Expr.checkArgs]
      exact (Expr.check_justified e).bind fun _ _ =>
        (Expr.checkArgs_justified rest name (i + 1) params).bind fun _ _ => .ok _

end

theorem Expr.checkCond_justified (e : Expr) : FailsOnly Fault.Justified (e.checkCond t s) :=
  (Expr.check_justified t s e).bind fun _ _ => Expr.coerceFor_justified _ _ _ _

end

/-! ## Declarations -/

namespace Table

variable (t : Table) (s : Nat) (id : Symbol)

theorem checkName_justified : FailsOnly Fault.Justified (checkName id) := by
  unfold checkName
  split
  · exact .error rfl
  · exact .ok _

theorem checkFree_justified (previous : Option Symbol) :
    FailsOnly Fault.Justified (checkFree id previous) := by
  cases previous with
  | none => exact .ok _
  | some p => exact .error rfl

theorem define_justified : FailsOnly Fault.Justified (t.define s id) := by
  rw [define_eq]
  exact (checkFree_justified _ _).bind fun _ _ => .ok _

theorem addVar_justified : FailsOnly Fault.Justified (t.addVar s id) := by
  have hlocal : ∀ f, FailsOnly Fault.Justified (t.addLocal s f id) := by
    intro f
    rw [addLocal_eq]
    exact (checkFree_justified _ _).bind fun _ _ => (define_justified _ _ _).bind fun _ _ => .ok _
  have hstatic : ∀ g, FailsOnly Fault.Justified (t.addStatic s g id) := by
    intro g
    have hconflict := checkFree_justified id (t.globalConflict g id.name)
    rw [addStatic_eq]
    dsimp only
    split
    · exact (checkFree_justified _ _).bind fun _ _ => hconflict.bind fun _ _ =>
        (define_justified _ _ _).bind fun _ _ => .ok _
    · exact hconflict.bind fun _ _ => (define_justified _ _ _).bind fun _ _ => .ok _
  rw [addVar_eq]
  split
  · refine (checkName_justified id).bind fun _ _ => ?_
    split
    · exact hlocal _
    · exact hstatic _
  · exact .error rfl

theorem addParam_justified : FailsOnly Fault.Justified (t.addParam s id) := by
  rw [addParam_eq]
  split
  · exact (checkName_justified id).bind fun _ _ => (checkFree_justified _ _).bind fun _ _ =>
      (define_justified _ _ _).bind fun _ _ => .ok _
  · exact .error rfl

theorem addFunc_justified : FailsOnly Fault.Justified (t.addFunc s id) := by
  rw [addFunc_eq]
  split
  · exact (checkName_justified id).bind fun _ _ => (checkFree_justified _ _).bind fun _ _ =>
      (define_justified _ _ _).bind fun _ _ => .ok _
  · exact .error rfl

end Table

theorem checkTypeName_justified (name : Option Ident) (allowVoid : Bool) :
    FailsOnly Fault.Justified (checkTypeName name allowVoid) := by
  refine (Ident.present_justified name).bind fun _ _ => ?_
  split
  · split
    · exact .error rfl
    · exact .ok _
  · exact .error rfl

section

variable (t : Table) (s : Nat)

theorem declare_justified (id : Ident) (type : Ty) (size : Option Pos) :
    FailsOnly Fault.Justified (declare t s id type size) :=
  (Table.addVar_justified _ _ _).bind fun _ _ => .ok _

theorem checkAssign_justified (pos : Pos) (target value : Expr) :
    FailsOnly Fault.Justified (checkAssign t s pos target value) := by
  have htarget : FailsOnly Fault.Justified (checkTarget t s pos target) := by
    unfold checkTarget
    split
    · refine (Ident.resolve_justified t s _).bind fun _ _ => ?_
      dsimp only
      split
      · exact .error rfl
      · exact .ok _
    · exact Expr.check_justified t s _
    · exact .error rfl
  exact htarget.bind fun _ _ => (Expr.check_justified t s value).bind fun _ _ =>
    (Expr.coerceFor_justified _ _ _ _).bind fun _ _ => .ok _

theorem checkVar_justified (type : Ty) (n : Node) :
    FailsOnly Fault.Justified (checkVar t s type n) := by
  unfold checkVar
  split
  · exact (declare_justified t s _ _ _).bind fun _ _ => .ok _
  · split
    · exact (declare_justified t s _ _ _).bind fun _ _ =>
        (checkAssign_justified _ _ _ _ _).bind fun _ _ => .ok _
    · exact .error rfl
  · exact .error rfl

theorem checkVars_justified (type : Ty) : ∀ (ns : List Node) (t : Table),
    FailsOnly Fault.Justified (checkVars t s type ns)
  | [], _ => .ok _
  | n :: rest, t => by
      rw [checkVars]
      exact (checkVar_justified t s type n).bind fun _ _ =>
        (checkVars_justified type rest _).bind fun _ _ => .ok _

theorem checkParams_justified : ∀ (ps : List (Option Param)) (t : Table),
    FailsOnly Fault.Justified (checkParams t s ps)
  | [], _ => .ok _
  | p :: rest, t => by
      have hparam : FailsOnly Fault.Justified (checkParam t s p) := by
        cases p with
        | none => exact .error rfl
        | some q =>
            exact (checkTypeName_justified _ _).bind fun _ _ => (Ident.present_justified _).bind
              fun _ _ => (Table.addParam_justified _ _ _).bind fun _ _ => .ok _
      rw [checkParams]
      exact hparam.bind fun _ _ => (checkParams_justified rest _).bind fun _ _ => .ok _

theorem checkFuncHead_justified (result : Option Ident) (isArray : Bool) (name : Option Ident)
    (params : Option Params) :
    FailsOnly Fault.Justified (checkFuncHead t s result isArray name params) := by
  refine (Ident.present_justified name).bind fun _ _ => ?_
  split
  · exact .error rfl
  · exact (checkTypeName_justified _ _).bind fun _ _ => (checkParams_justified _ _ _).bind
      fun _ _ => (Table.addFunc_justified _ _ _).bind fun _ _ => .ok _

theorem checkReturn_justified (pos : Pos) (value : Expr) :
    FailsOnly Fault.Justified (checkReturn t s pos value) := by
  unfold checkReturn
  split
  · exact .error rfl
  · split
    · split
      · exact .ok _
      · exact .error rfl
    · refine (Expr.check_justified t s value).bind fun _ _ => ?_
      dsimp only
      split
      · exact .error rfl
      · exact (Expr.coerceFor_justified _ _ _ _).bind fun _ _ => .ok _

theorem checkLoopCond_justified (pos : Pos) (cond : Expr) :
    FailsOnly Fault.Justified (checkLoopCond t s pos cond) := by
  unfold checkLoopCond
  split
  · exact (Expr.checkCond_justified t s _).bind fun _ _ => .ok _
  · exact (Expr.checkCond_justified t s _).bind fun _ _ => .ok _

end

/-! ## Statements -/

theorem Stmt.checkPart_justified {t : Table} {s : Nat} {part : Stmt}
    (h : FailsOnly Fault.Justified (part.check t s)) :
    FailsOnly Fault.Justified (part.checkPart t s) := by
  unfold Stmt.checkPart
  split
  · exact .ok _
  · exact h

mutual

theorem Stmt.check_justified : ∀ (stmt : Stmt) (t : Table) (s : Nat),
    FailsOnly Fault.Justified (stmt.check t s)
  | .missing, _, _ => by
      rw [Stmt.check]
      exact .error rfl
  | .call pos func args _, t, s => by
      rw [Stmt.check]
      exact (checkCall_justified t s pos func _
        (fun name params => Expr.checkArgs_justified t s args name 1 params)
        fun _ _ _ _ => Expr.checkArgs_mismatches_justified t s).bind fun _ _ => .ok _
  | .assign _ _ _ _, _, _ => by
      rw [Stmt.check]
      exact (checkAssign_justified _ _ _ _ _).bind fun _ _ => .ok _
  | .varDecl _ _ _, _, _ => by
      rw [Stmt.check]
      exact (checkTypeName_justified _ _).bind fun _ _ => (checkVars_justified _ _ _ _).bind
        fun _ _ => .ok _
  | .arrayDecl _ _ _ size, t, s => by
      rw [Stmt.check]
      exact (checkTypeName_justified _ _).bind fun _ _ => (Expr.check_justified t s size).bind
        fun _ _ => (Expr.coerceFor_justified _ _ _ _).bind fun _ _ =>
          (Ident.present_justified _).bind fun _ _ => (declare_justified _ _ _ _ _).bind
            fun _ _ => .ok _
  | .ifElse _ _ yes no, t, s => by
      rw [Stmt.check]
      exact (Expr.checkCond_justified t s _).bind fun _ _ => (Block.check_justified yes _ _).bind
        fun _ _ => (Block.check_justified no _ _).bind fun _ _ => .ok _
  | .whileLoop _ _ body, t, s => by
      rw [Stmt.check]
      exact (Expr.checkCond_justified t s _).bind fun _ _ => (Block.check_justified body _ _).bind
        fun _ _ => .ok _
  | .forLoop _ init _ _ step body, t, s => by
      rw [Stmt.check_forLoop]
      exact (Stmt.checkPart_justified (Stmt.check_justified init _ _)).bind fun _ _ =>
        (checkLoopCond_justified _ _ _ _).bind fun _ _ =>
          (Stmt.checkPart_justified (Stmt.check_justified step _ _)).bind fun _ _ =>
            (Block.check_justified body _ _).bind fun _ _ => .ok _
  | .block b, _, _ => by
      rw [Stmt.check]
      exact (Block.check_justified b _ _).bind fun _ _ => .ok _
  | .funcDecl _ _ _ _ _ body _, _, _ => by
      rw [Stmt.check]
      exact (checkFuncHead_justified _ _ _ _ _ _).bind fun _ _ =>
        (Block.check_justified body _ _).bind fun _ _ => .ok _
  | .ret _ _, _, _ => by
      rw [Stmt.check]
      exact (checkReturn_justified _ _ _ _).bind fun _ _ => .ok _

theorem Block.check_justified : ∀ (b : Block) (t : Table) (s : Nat),
    FailsOnly Fault.Justified (b.check t s)
  | .missing, _, _ => .ok _
  | .of _ stmts, _, _ => by
      rw [Block.check]
      exact (Stmt.checkAll_justified stmts _ _).bind fun _ _ => .ok _

theorem Stmt.checkAll_justified : ∀ (stmts : List Stmt) (t : Table) (s : Nat),
    FailsOnly Fault.Justified (Stmt.checkAll t s stmts)
  | [], _, _ => .ok _
  | stmt :: rest, _, _ => by
      rw [Stmt.checkAll]
      exact (Stmt.check_justified stmt _ _).bind fun _ _ =>
        (Stmt.checkAll_justified rest _ _).bind fun _ _ => .ok _

end

/-! ## Programs -/

theorem Block.analyse_justified (t : Table) (s : Nat) (b : Block) :
    FailsOnly Fault.Justified (b.analyse t s) := by
  cases b with
  | missing => exact .error rfl
  | of pos stmts => exact (Stmt.checkAll_justified stmts _ _).bind fun _ _ => .ok _

theorem Ty.equal_iff_text {x y : Ty} : x.equal y = true ↔ x.text = y.text :=
  (equal_iff x y).trans ⟨congrArg text, text_inj⟩

/-- Two types are the same, component by component, just if they have the same text. So no analysis
ends with the message that a type does not convert to another in which both have one text. -/
theorem Ty.identified_by_text :
    (∀ x y : Ty, (x.equal y = true ↔ x = y) ∧ (x.equal y = true ↔ x.text = y.text)) ∧
      Equivalence (fun x y : Ty => x.equal y = true) ∧
      ∀ (t : Table) (s : Nat) (b : Block) (f : Fault), b.analyse t s = .error f →
        ∀ x y, .inconvertible x y ∈ f.causes → x.text ≠ y.text := by
  refine ⟨fun x y => ⟨equal_iff x y, equal_iff_text⟩, ⟨fun x => ?_, fun h => ?_, fun h h' => ?_⟩,
    fun t s b f hf x y hxy => ?_⟩
  · exact (equal_iff x x).2 rfl
  · exact (equal_iff _ _).2 ((equal_iff _ _).1 h).symm
  · exact (equal_iff _ _).2 (((equal_iff _ _).1 h).trans ((equal_iff _ _).1 h'))
  · exact (Block.analyse_justified t s b f hf).text_ne hxy

theorem Ty.identified_by_text_function_argument :
    ∃ b f, Block.parse "(func int f ((int[] x)) (block (return (call f f))))" = .ok b ∧
      Analysis.ofProgram b = .error f ∧
      .inconvertible (.func (.base .int) [.array .int]) (.array .int) ∈ f.causes ∧
      (Ty.func (.base .int) [.array .int]).text ≠ (Ty.array .int).text := by
  have htext : ((Block.parse "(func int f ((int[] x)) (block (return (call f f))))").toOption.any
      fun b => match Analysis.ofProgram b with
        | .ok _ => false
        | .error f =>
          f.causes.contains (.inconvertible (.func (.base .int) [.array .int]) (.array .int))) =
      true := by
    decide +kernel
  obtain ⟨b, hb, hfault⟩ := Except.any_toOption htext
  split at hfault
  · cases hfault
  · next f hf =>
      have hcause := List.contains_iff_mem.1 hfault
      exact ⟨b, f, hb, hf, hcause, Ty.identified_by_text.2.2 _ _ b f hf _ _ hcause⟩

end SmallC
