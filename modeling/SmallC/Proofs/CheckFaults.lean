import SmallC.Proofs.CheckTyping
import SmallC.Proofs.Whole

/-!
# What can go wrong in a check

A check reports two sorts of faults: that the program breaks a rule of the
language, and that the compiler is at fault. No text should be able to bring
about the second. This file goes through all faults that the check of a whole
tree can end with. An absent part is never met, because there is none, and the
symbol table is never misused, because it stays sound for as long as nothing has
gone wrong.

One way is left. An item of a declaration that assigns to an element of an array
has all its parts, and yet it is reported as a fault of the compiler.
-/

namespace SmallC

/-! ## Faults of a program -/

/-- A fault of the program: it breaks one of the rules that have a name, and nothing in it is a
fault of the compiler. -/
structure Fault.IsSemantic (f : Fault) : Prop where
  rule : ∃ k ∈ Kind.all, ∃ pos inner, f = .located k pos inner
  isInternal : f.isInternal = false

theorem Fault.isSemantic_located {k : Kind} {pos : Pos} {inner : List Fault} (hk : k ∈ Kind.all)
    (h : Fault.anyInternal inner = false) : (Fault.located k pos inner).IsSemantic :=
  ⟨⟨k, hk, pos, inner, rfl⟩, h⟩

theorem Fault.isSemantic_broken {k : Kind} {pos : Pos} {cause : Cause} (hk : k ∈ Kind.all) :
    (Fault.broken k pos cause).IsSemantic :=
  Fault.isSemantic_located hk rfl

/-! ## Computations that fail -/

/-- Whatever fault a computation ends with, it is one of these. -/
def FailsOnly {α : Type} (P : Fault → Prop) (x : Except Fault α) : Prop := ∀ f, x = .error f → P f

namespace FailsOnly

variable {α β : Type} {P Q : Fault → Prop}

theorem ok (a : α) : FailsOnly P (.ok a : Except Fault α) := fun _ h => (nomatch h)

theorem error {f : Fault} (h : P f) : FailsOnly P (.error f : Except Fault α) := by
  intro f' hf'
  cases hf'
  exact h

theorem bind {x : Except Fault α} {g : α → Except Fault β} (hx : FailsOnly P x)
    (hg : ∀ a, x = .ok a → FailsOnly P (g a)) : FailsOnly P (x >>= g) := by
  cases x with
  | error f => exact fun f' hf' => hx f' (by cases hf'; rfl)
  | ok a => exact hg a rfl

theorem mono {x : Except Fault α} (h : FailsOnly P x) (hPQ : ∀ f, P f → Q f) : FailsOnly Q x :=
  fun f hf => hPQ f (h f hf)

theorem broken {k : Kind} {pos : Pos} {cause : Cause} (hk : k ∈ Kind.all) :
    FailsOnly Fault.IsSemantic (.error (.broken k pos cause) : Except Fault α) :=
  error (Fault.isSemantic_broken hk)

end FailsOnly

/-! ## Expressions -/

/-- All that can be wrong with a literal. -/
theorem Literal.decode_error {text : String} {cause : Cause} (h : decode text = .error cause) :
    cause = .malformedChar text ∨ cause = .unknownEscape text ∨ cause = .integerOverflow text ∨
      cause = .undecodable text ∨ cause = .floatRange text := by
  have hchar : ∀ {rest}, decodeChar text rest = .error cause →
      cause = .malformedChar text ∨ cause = .unknownEscape text := by
    intro rest h
    unfold decodeChar at h
    split at h
    · split at h <;> cases h
      exact .inl rfl
    · split at h
      · split at h <;> cases h
        exact .inr rfl
      · cases h
        exact .inl rfl
    · cases h
      exact .inl rfl
  have hint : ∀ {n}, decodeInt text n = .error cause → cause = .integerOverflow text := by
    intro n h
    unfold decodeInt at h
    split at h <;> cases h
    rfl
  unfold decode at h
  split at h
  · cases h
  · split at h
    · cases h
    · split at h
      · rcases hchar h with rfl | rfl
        · exact .inl rfl
        · exact .inr (.inl rfl)
      · split at h
        · exact .inr (.inr (.inl (hint h)))
        · split at h
          · exact .inr (.inr (.inl (hint h)))
          · split at h
            · cases h
              exact .inr (.inr (.inr (.inl rfl)))
            · split at h <;> cases h
              exact .inr (.inr (.inr (.inr rfl)))

theorem Expr.coerceFor_fails (context : String) (e : Expr) (src dst : Ty) :
    FailsOnly Fault.IsSemantic (e.coerceFor context src dst) := by
  unfold Expr.coerceFor
  cases e.coerce src dst with
  | ok e' => exact .ok e'
  | error cause => exact .error (Fault.isSemantic_located (by decide) rfl)

theorem coerceOperand_fails (e : Expr) (src : Ty) (dst : Option Base) :
    FailsOnly Fault.IsSemantic (coerceOperand e src dst) := by
  cases dst with
  | none => exact .ok e
  | some dst =>
      rw [coerceOperand]
      cases e.coerce src (.base dst) with
      | ok e' => exact .ok e'
      | error cause => exact .broken (by decide)

section

variable (t : Table) (s : Nat)

theorem Ident.resolve_fails (id : Ident) : FailsOnly Fault.IsSemantic (id.resolve t s) := by
  unfold Ident.resolve
  split
  · exact .ok _
  · exact .broken (by decide)

theorem checkArray_fails (array : Ident) :
    FailsOnly Fault.IsSemantic (checkArray t s (some array)) := by
  refine .bind (.ok _) fun id _ => (id.resolve_fails t s).bind fun r _ => ?_
  dsimp only
  split
  · exact .ok _
  · exact .broken (by decide)

theorem checkUnary_fails (pos : Pos) (op : Op) (x : Expr) (type : Ty) :
    FailsOnly Fault.IsSemantic (checkUnary pos op x type) := by
  unfold checkUnary
  split
  · exact .ok _
  · split
    · exact .ok _
    · exact .broken (by decide)

theorem checkBinary_fails (pos : Pos) (op : Op) (x y : Expr) (xType yType : Ty) :
    FailsOnly Fault.IsSemantic (checkBinary pos op x y xType yType) := by
  unfold checkBinary
  split
  · exact .broken (by decide)
  · exact (coerceOperand_fails _ _ _).bind fun _ _ => (coerceOperand_fails _ _ _).bind
      fun _ _ => .ok _

/-- A call fails if an argument does, and otherwise breaks a rule by itself. Arguments that do not
fit are reported together, so none of these reports may be internal. -/
theorem checkCall_fails (pos : Pos) (func : Ident) (count : Nat)
    {args : String → List Ty → Except Fault (List Expr × List Fault)}
    (hargs : ∀ name params, FailsOnly Fault.IsSemantic (args name params))
    (hmismatches : ∀ name params xs fs, args name params = .ok (xs, fs) →
      Fault.anyInternal fs = false) :
    FailsOnly Fault.IsSemantic (checkCall t s pos (some func) count args) := by
  refine .bind (.ok _) fun id _ => (id.resolve_fails t s).bind fun r _ => ?_
  dsimp only
  split
  · split
    · exact .broken (by decide)
    · refine (hargs _ _).bind fun out hout => ?_
      have hinner := hmismatches _ _ _ _ hout
      split
      · next fault hfault =>
          unfold Fault.aggregate? at hfault
          split at hfault <;> cases hfault
          exact .error (Fault.isSemantic_located (by decide) hinner)
      · exact .ok _
  · exact .broken (by decide)

/-- Arguments that do not fit are faults of the program. -/
theorem Expr.checkArgs_mismatches {name : String} {args : List Expr} :
    ∀ {i : Nat} {params : List Ty} {xs : List Expr} {fs : List Fault},
      Expr.checkArgs t s name i params args = .ok (xs, fs) → Fault.anyInternal fs = false := by
  induction args with
  | nil =>
      intro i params xs fs h
      cases params <;> cases h <;> rfl
  | cons e rest ih =>
      intro i params xs fs h
      cases params with
      | nil =>
          cases h
          rfl
      | cons p params =>
          rw [Expr.checkArgs] at h
          simp only [Except.bind_eq_ok_iff] at h
          obtain ⟨⟨type, e'⟩, -, ⟨more, fs'⟩, hmore, h⟩ := h
          have hrest := ih hmore
          cases h
          dsimp only
          split
          · exact hrest
          · exact hrest

theorem Expr.checkArgs_fails {args : List Expr}
    (h : ∀ e ∈ args, FailsOnly Fault.IsSemantic (e.check t s)) (name : String) :
    ∀ (i : Nat) (params : List Ty),
      FailsOnly Fault.IsSemantic (Expr.checkArgs t s name i params args) := by
  induction args with
  | nil =>
      intro i params
      cases params <;> exact .ok _
  | cons e rest ih =>
      intro i params
      cases params with
      | nil => exact .ok _
      | cons p params =>
          obtain ⟨he, hrest⟩ := List.forall_mem_cons.1 h
          rw [Expr.checkArgs]
          exact he.bind fun _ _ => (ih hrest _ _).bind fun _ _ => .ok _

theorem Expr.check_fails {e : Expr} (h : e.Whole) : FailsOnly Fault.IsSemantic (e.check t s) := by
  induction h with
  | literal =>
      rw [Expr.check]
      split
      · exact .ok _
      · exact .broken (by decide)
  | ident name =>
      rw [Expr.check]
      exact (Ident.resolve_fails t s _).bind fun _ _ => .ok _
  | unary operand ih =>
      rw [Expr.check]
      exact ih.bind fun _ _ => checkUnary_fails _ _ _ _
  | binary left right ihx ihy =>
      rw [Expr.check]
      exact ihx.bind fun _ _ => ihy.bind fun _ _ => checkBinary_fails _ _ _ _ _ _
  | index operand ih =>
      rw [Expr.check]
      exact (checkArray_fails t s _).bind fun _ _ => ih.bind fun _ _ =>
        (Expr.coerceFor_fails _ _ _ _).bind fun _ _ => .ok _
  | call operands ih =>
      rw [Expr.check]
      refine (checkCall_fails t s _ _ _ (fun name params => ?_) fun _ _ _ _ => ?_).bind
        fun _ _ => .ok _
      · exact Expr.checkArgs_fails t s ih name 1 params
      · exact Expr.checkArgs_mismatches t s

theorem Expr.checkCond_fails {e : Expr} (h : e.Whole) :
    FailsOnly Fault.IsSemantic (e.checkCond t s) :=
  (Expr.check_fails t s h).bind fun _ _ => Expr.coerceFor_fails _ _ _ _

end

/-! ## Declarations -/

namespace Table

variable {t : Table} {s : Nat}

theorem checkName_fails (id : Symbol) : FailsOnly Fault.IsSemantic (checkName id) := by
  unfold checkName
  split
  · exact .broken (by decide)
  · exact .ok _

theorem checkFree_fails (id : Symbol) (previous : Option Symbol) :
    FailsOnly Fault.IsSemantic (checkFree id previous) := by
  cases previous with
  | none => exact .ok _
  | some p => exact .broken (by decide)

theorem define_fails (id : Symbol) : FailsOnly Fault.IsSemantic (t.define s id) := by
  rw [define_eq]
  exact (checkFree_fails _ _).bind fun _ _ => .ok _

theorem addLocal_fails (f : Function) (id : Symbol) :
    FailsOnly Fault.IsSemantic (t.addLocal s f id) := by
  rw [addLocal_eq]
  exact (checkFree_fails _ _).bind fun _ _ => (define_fails _).bind fun _ _ => .ok _

theorem addStatic_fails (g : Nat) (id : Symbol) :
    FailsOnly Fault.IsSemantic (t.addStatic s g id) := by
  rw [addStatic_eq]
  dsimp only
  split
  · exact (checkFree_fails _ _).bind fun _ _ => (checkFree_fails _ _).bind fun _ _ =>
      (define_fails _).bind fun _ _ => .ok _
  · exact (checkFree_fails _ _).bind fun _ _ => (define_fails _).bind fun _ _ => .ok _

theorem addVar_fails {g : Nat} (hg : t.global? s = some g) (id : Symbol) :
    FailsOnly Fault.IsSemantic (t.addVar s id) := by
  rw [addVar_eq, hg]
  refine (checkName_fails id).bind fun _ _ => ?_
  split
  · exact addLocal_fails _ id
  · exact addStatic_fails g id

theorem addParam_fails {f : Function} (hf : t.function? s = some f) (id : Symbol) :
    FailsOnly Fault.IsSemantic (t.addParam s id) := by
  rw [addParam_eq, hf]
  exact (checkName_fails id).bind fun _ _ => (checkFree_fails _ _).bind fun _ _ =>
    (define_fails _).bind fun _ _ => .ok _

theorem addFunc_fails {g : Nat} (hg : t.global? s = some g) (id : Symbol) :
    FailsOnly Fault.IsSemantic (t.addFunc s id) := by
  rw [addFunc_eq, hg]
  exact (checkName_fails id).bind fun _ _ => (checkFree_fails _ _).bind fun _ _ =>
    (define_fails _).bind fun _ _ => .ok _

end Table

/-- What the check of a whole tree can end with: a fault of the program, or a fault of the compiler
at one of the places where an element of an array is declared. -/
def Fault.Possible (elements : List Pos) (f : Fault) : Prop :=
  f.IsSemantic ∨ ∃ pos ∈ elements, f = .bug pos (.undeclarable "*ast.Index")

theorem FailsOnly.possible {α : Type} {x : Except Fault α} (h : FailsOnly Fault.IsSemantic x)
    (elements : List Pos) : FailsOnly (Fault.Possible elements) x :=
  h.mono fun _ hf => .inl hf

theorem FailsOnly.subset {α : Type} {x : Except Fault α} {elements more : List Pos}
    (h : FailsOnly (Fault.Possible elements) x) (hsub : elements ⊆ more) :
    FailsOnly (Fault.Possible more) x :=
  h.mono fun _ hf => hf.imp_right fun ⟨pos, hpos, heq⟩ => ⟨pos, hsub hpos, heq⟩

theorem checkTypeName_fails (id : Ident) (allowVoid : Bool) :
    FailsOnly Fault.IsSemantic (checkTypeName (some id) allowVoid) := by
  refine .bind (.ok _) fun name _ => ?_
  split
  · split
    · exact .broken (by decide)
    · exact .ok _
  · exact .broken (by decide)

section

variable {t : Table} {s g : Nat}

theorem declare_fails (hg : t.global? s = some g) (id : Ident) (type : Ty) (size : Option Pos) :
    FailsOnly Fault.IsSemantic (declare t s id type size) :=
  (Table.addVar_fails hg _).bind fun _ _ => .ok _

theorem checkTarget_fails {target : Expr} (hplace : target.isPlace = true) (h : target.Whole)
    (pos : Pos) : FailsOnly Fault.IsSemantic (checkTarget t s pos target) := by
  cases h with
  | ident name =>
      refine (Ident.resolve_fails t s _).bind fun _ _ => ?_
      dsimp only
      split
      · exact .broken (by decide)
      · exact .ok _
  | index operand => exact Expr.check_fails t s (.index operand)
  | literal | unary _ | binary _ _ | call _ => cases hplace

theorem checkAssign_fails {target value : Expr} (h : AssignWhole target value) (pos : Pos) :
    FailsOnly Fault.IsSemantic (checkAssign t s pos target value) :=
  (checkTarget_fails h.place h.target pos).bind fun _ _ =>
    (Expr.check_fails t s h.value).bind fun _ _ =>
      (Expr.coerceFor_fails _ _ _ _).bind fun _ _ => .ok _

theorem checkVar_fails (hg : t.global? s = some g) {n : Node} (h : n.Whole) (type : Ty) :
    FailsOnly (Fault.Possible n.elements) (checkVar t s type n) := by
  unfold Node.Whole at h
  split at h
  · next id => exact ((declare_fails hg id type none).bind fun _ _ => .ok _).possible _
  · next pos target value noted =>
      cases h.target with
      | @ident id name =>
          refine ((declare_fails hg id type none).bind fun out hout => ?_).possible _
          obtain ⟨sym, -, hid⟩ := declare_ok hout
          have hname : out.2.IsName := by rw [hid]; exact name
          exact (checkAssign_fails ⟨rfl, .ident hname, h.value⟩ pos).bind fun _ _ => .ok _
      | index operand => exact .error (.inr ⟨pos, List.mem_singleton_self pos, rfl⟩)
      | literal | unary _ | binary _ _ | call _ => cases h.place
  · exact h.elim

theorem checkVars_fails {type : Ty} (htype : type.isData = true) :
    ∀ {ns : List Node} {t : Table}, t.Sound → t.global? s = some g → (∀ n ∈ ns, n.Whole) →
      FailsOnly (Fault.Possible (ns.flatMap Node.elements)) (checkVars t s type ns)
  | [], _, _, _, _ => .ok _
  | n :: rest, t, ht, hg, h => by
      obtain ⟨hn, hrest⟩ := List.forall_mem_cons.1 h
      have hs := Table.lt_size_of_global hg
      rw [checkVars, List.flatMap_cons]
      refine ((checkVar_fails hg hn type).subset (List.subset_append_left _ _)).bind
        fun out hout => ?_
      have hfirst := checkVar_typed ht htype hout
      have hmore := checkVars_fails htype hfirst.sound ((hfirst.grows.global s hs).trans hg) hrest
      exact (hmore.subset (List.subset_append_right _ _)).bind fun _ _ => .ok _

theorem checkParams_fails :
    ∀ {ps : List (Option Param)} {t : Table} {f : Function}, t.Sound →
      t.functionAt? s = some f → f.locals = [] → (∀ p ∈ ps, Param.Whole p) →
      FailsOnly Fault.IsSemantic (checkParams t s ps)
  | [], _, _, _, _, _, _ => .ok _
  | p :: rest, t, f, ht, hf, hlocals, h => by
      obtain ⟨⟨q, type, name, rfl, htype, hname⟩, hrest⟩ := List.forall_mem_cons.1 h
      have hfun : t.function? s = some f := by
        rw [Table.function?_eq_owner?, ht.owner?_self hf, Option.bind_some, hf]
      have hparam : FailsOnly Fault.IsSemantic (checkParam t s (some q)) := by
        rw [checkParam, htype, hname]
        exact (checkTypeName_fails type false).bind fun _ _ => .bind (.ok _) fun _ _ =>
          (Table.addParam_fails hfun _).bind fun _ _ => .ok _
      rw [checkParams]
      refine hparam.bind fun out hout => ?_
      obtain ⟨_, kind, _, sym, heq, hkind, -, hadd, -⟩ := checkParam_ok hout
      cases heq
      have hdata := Ty.isData_ofKind q.isArray (checkTypeName_isData hkind)
      obtain ⟨hsound, -, -, hf'⟩ := ht.addParam hdata hf hlocals hadd
      exact (checkParams_fails hsound hf' hlocals hrest).bind fun _ _ => .ok _

theorem checkFuncHead_fails (ht : t.Sound) (hg : t.global? s = some g) (result name : Ident)
    (isArray : Bool) {params : Params} (h : ∀ p ∈ params.list, Param.Whole p) :
    FailsOnly Fault.IsSemantic
      (checkFuncHead t s (some result) isArray (some name) (some params)) := by
  have hs := Table.lt_size_of_global hg
  refine .bind (.ok _) fun id _ => ?_
  split
  · exact .broken (by decide)
  · next hnone =>
      refine (checkTypeName_fails result _).bind fun kind hkind => ?_
      have hresult : (Ty.ofKind kind isArray).isResult = true := checkTypeName_isResult hkind
      obtain ⟨hsound, hmarked⟩ := ht.openFunction hg hnone id.name hresult
      have hscope : (t.child s).2 = t.size := ht.scope_child
      rw [← hscope] at hsound hmarked
      refine (checkParams_fails hsound hmarked rfl h).bind fun out hout => ?_
      obtain ⟨-, hext, -, -⟩ := checkParams_sound hsound hmarked rfl hout
      have hglobal : out.1.global? s = some g := by
        rw [hext.global, Table.global?_setFunction, Table.global?_child hs, hg]
      exact (Table.addFunc_fails hglobal _).bind fun _ _ => .ok _

theorem checkReturn_fails {value : Expr} (h : value = .missing ∨ value.Whole) (pos : Pos) :
    FailsOnly Fault.IsSemantic (checkReturn t s pos value) := by
  unfold checkReturn
  split
  · exact .broken (by decide)
  · split
    · split
      · exact .ok _
      · exact .broken (by decide)
    · next hhere =>
        have hvalue : value.Whole := h.resolve_left (by rintro rfl; exact hhere rfl)
        refine (Expr.check_fails t s hvalue).bind fun _ _ => ?_
        dsimp only
        split
        · exact .broken (by decide)
        · exact (Expr.coerceFor_fails _ _ _ _).bind fun _ _ => .ok _

theorem checkLoopCond_fails {cond : Expr} (h : cond = .missing ∨ cond.Whole) (pos : Pos) :
    FailsOnly Fault.IsSemantic (checkLoopCond t s pos cond) := by
  unfold checkLoopCond
  split
  · exact (Expr.checkCond_fails t s .literal).bind fun _ _ => .ok _
  · next hhere =>
      have hcond : cond.Whole := h.resolve_left (by rintro rfl; exact hhere rfl)
      exact (Expr.checkCond_fails t s hcond).bind fun _ _ => .ok _

end

/-! ## Statements -/

/-- A part of a loop that is there is checked, and one that is not is left alone. -/
theorem Stmt.checkPart_fails {t : Table} {s : Nat} {part : Stmt} {elements : List Pos}
    (h : part = .missing ∨ FailsOnly (Fault.Possible elements) (part.check t s)) :
    FailsOnly (Fault.Possible elements) (part.checkPart t s) := by
  unfold Stmt.checkPart
  split
  · exact .ok _
  · next hhere => exact h.resolve_left (by rintro rfl; exact hhere rfl)

theorem Stmt.check_forLoop (t : Table) (s : Nat) (pos : Pos) (init : Stmt) (cond inserted : Expr)
    (step : Stmt) (body : Block) :
    (Stmt.forLoop pos init cond inserted step body).check t s = (do
      let (t, s) := t.child s
      let (t, init) ← init.checkPart t s
      let (cond, inserted) ← checkLoopCond t s pos cond
      let (t, step) ← step.checkPart t s
      let (t, inner) := t.child s
      let (t, body) ← body.check t inner
      return (t, .forLoop pos init cond inserted step body)) := by
  rw [Stmt.check]
  unfold Stmt.checkPart
  cases init.isMissing <;> cases step.isMissing <;> rfl

section

variable {g : Nat}

mutual

/-- The check of a whole statement goes wrong in one of the possible ways. What it meets on the
way is a sound table, for it only goes on from steps that have not gone wrong. -/
theorem Stmt.check_fails :
    ∀ {stmt : Stmt} {t : Table} {s : Nat}, t.Sound → t.global? s = some g → stmt.Whole →
      FailsOnly (Fault.Possible stmt.elements) (stmt.check t s)
  | .missing, _, _, _, _, h => h.elim
  | .call pos func args _, t, s, _, _, ⟨⟨id, hid⟩, hargs⟩ => by
      subst hid
      rw [Stmt.check]
      refine ((checkCall_fails t s _ _ _ (fun name params => ?_) fun _ _ _ _ => ?_).bind
        fun _ _ => .ok _).possible _
      · exact Expr.checkArgs_fails t s (fun e he => Expr.check_fails t s (hargs e he)) name 1 params
      · exact Expr.checkArgs_mismatches t s
  | .assign _ _ _ _, _, _, _, _, h => by
      rw [Stmt.check]
      exact ((checkAssign_fails h _).bind fun _ _ => .ok _).possible _
  | .varDecl _ _ _, _, _, ht, hg, ⟨⟨type, htype⟩, hvars⟩ => by
      subst htype
      rw [Stmt.check]
      refine ((checkTypeName_fails type false).possible _).bind fun kind hkind => ?_
      have hdata : (Ty.base kind).isData = true := checkTypeName_isData hkind
      exact (checkVars_fails hdata ht hg hvars).bind fun _ _ => .ok _
  | .arrayDecl _ _ _ _, t, s, _, hg, ⟨⟨elem, helem⟩, ⟨id, hid, _⟩, hsize⟩ => by
      subst helem hid
      rw [Stmt.check]
      refine FailsOnly.possible ?_ _
      exact (checkTypeName_fails elem false).bind fun _ _ =>
        (Expr.check_fails t s hsize).bind fun _ _ => (Expr.coerceFor_fails _ _ _ _).bind fun _ _ =>
          .bind (.ok _) fun _ _ => (declare_fails hg _ _ _).bind fun _ _ => .ok _
  | .ifElse _ _ yes no, t, s, ht, hg, ⟨hcond, hyes, hno⟩ => by
      have hs := Table.lt_size_of_global hg
      rw [Stmt.check]
      refine ((Expr.checkCond_fails t s hcond).possible _).bind fun _ _ => ?_
      refine ((Block.check_fails ht hg hyes).subset (List.subset_append_left _ _)).bind
        fun out hout => ?_
      have hfirst := Block.check_inner ht hg hout
      have hg₁ := (hfirst.grows.global s hs).trans hg
      exact ((Block.check_fails hfirst.sound hg₁ hno).subset (List.subset_append_right _ _)).bind
        fun _ _ => .ok _
  | .whileLoop _ _ _, t, s, ht, hg, ⟨hcond, hbody⟩ => by
      rw [Stmt.check]
      exact ((Expr.checkCond_fails t s hcond).possible _).bind fun _ _ =>
        (Block.check_fails ht hg hbody).bind fun _ _ => .ok _
  | .forLoop pos init cond inserted step body, t, s, ht, hg, ⟨hinit, hcond, hstep, hbody⟩ => by
      have hopen := ht.child (Table.lt_size_of_global hg)
      have hg₀ : (t.child s).1.global? (t.child s).2 = some g := by
        rw [ht.scope_child]
        exact Table.global?_child_new ht.toShaped hg
      have hs₀ := Table.lt_size_of_global hg₀
      rw [Stmt.check_forLoop, Stmt.elements]
      have hfirst := Stmt.checkPart_fails (hinit.imp_right fun h => Stmt.check_fails hopen hg₀ h)
      refine (hfirst.subset (List.subset_append_of_subset_left _
        (List.subset_append_left _ _))).bind fun out₁ hout₁ => ?_
      have hchecked₁ := Stmt.checkPart_typed hopen hg₀ hout₁
      have hg₁ := (hchecked₁.grows.global _ hs₀).trans hg₀
      refine ((checkLoopCond_fails hcond pos).possible _).bind fun _ _ => ?_
      have hsecond :=
        Stmt.checkPart_fails (hstep.imp_right fun h => Stmt.check_fails hchecked₁.sound hg₁ h)
      refine (hsecond.subset (List.subset_append_of_subset_left _
        (List.subset_append_right _ _))).bind fun out₂ hout₂ => ?_
      have hchecked₂ := Stmt.checkPart_typed hchecked₁.sound hg₁ hout₂
      have hg₂ := (hchecked₂.grows.global _ (Table.lt_size_of_global hg₁)).trans hg₁
      have hthird := Block.check_fails hchecked₂.sound hg₂ hbody
      exact (hthird.subset (List.subset_append_right _ _)).bind fun _ _ => .ok _
  | .block _, _, _, ht, hg, h => by
      rw [Stmt.check]
      exact (Block.check_fails ht hg h).bind fun _ _ => .ok _
  | .funcDecl _ _ isArray _ _ _ _, t, s, ht, hg,
      ⟨⟨result, hresult⟩, ⟨id, hid, _⟩, ⟨ps, hps, hparams⟩, hbody⟩ => by
      subst hresult hid hps
      rw [Stmt.check]
      refine ((checkFuncHead_fails ht hg result id isArray hparams).possible _).bind
        fun out hout => ?_
      obtain ⟨hsound, -, hscope, hg₁, -⟩ := checkFuncHead_sound ht hg hout
      rw [← hscope] at hg₁
      exact (Block.check_fails hsound hg₁ hbody).bind fun _ _ => .ok _
  | .ret pos _, _, _, _, _, h => by
      rw [Stmt.check]
      exact ((checkReturn_fails h pos).bind fun _ _ => .ok _).possible _

theorem Block.check_fails :
    ∀ {b : Block} {t : Table} {s : Nat}, t.Sound → t.global? s = some g → b.Whole →
      FailsOnly (Fault.Possible b.elements) (b.check (t.child s).1 (t.child s).2)
  | .missing, _, _, _, _, _ => .ok _
  | .of _ _, t, s, ht, hg, h => by
      have hg₀ : (t.child s).1.global? (t.child s).2 = some g := by
        rw [ht.scope_child]
        exact Table.global?_child_new ht.toShaped hg
      rw [Block.check]
      exact (Stmt.checkAll_fails (ht.child (Table.lt_size_of_global hg)) hg₀ h).bind
        fun _ _ => .ok _

theorem Stmt.checkAll_fails :
    ∀ {stmts : List Stmt} {t : Table} {s : Nat}, t.Sound → t.global? s = some g →
      Stmt.AllWhole stmts →
      FailsOnly (Fault.Possible (Stmt.elementsIn stmts)) (Stmt.checkAll t s stmts)
  | [], _, _, _, _, _ => .ok _
  | _ :: _, t, s, ht, hg, ⟨hstmt, hrest⟩ => by
      have hs := Table.lt_size_of_global hg
      rw [Stmt.checkAll, Stmt.elementsIn]
      refine ((Stmt.check_fails ht hg hstmt).subset (List.subset_append_left _ _)).bind
        fun out hout => ?_
      have hfirst := Stmt.check_typed ht hg hout
      have hg₁ := (hfirst.grows.global s hs).trans hg
      have hnext := Stmt.checkAll_fails hfirst.sound hg₁ hrest
      exact (hnext.subset (List.subset_append_right _ _)).bind fun _ _ => .ok _

end

end

/-! ## Elements are never declared -/

theorem checkVars_elements {s : Nat} {type : Ty} :
    ∀ {ns ns' : List Node} {t t' : Table}, checkVars t s type ns = .ok (t', ns') →
      ns.flatMap Node.elements = []
  | [], _, _, _, _ => rfl
  | n :: rest, _, _, _, h => by
      obtain ⟨_, _, _, hn, hrest, -⟩ := checkVars_cons_ok h
      rw [List.flatMap_cons, checkVars_elements hrest]
      rcases checkVar_ok hn with ⟨_, _, rfl, -, -⟩ | ⟨_, _, _, _, _, _, rfl, -, -, -⟩ <;> rfl

theorem Stmt.checkPart_elements {t t' : Table} {s : Nat} {part part' : Stmt}
    (hpart : ∀ {t' part'}, part.check t s = .ok (t', part') → part.elements = [])
    (h : part.checkPart t s = .ok (t', part')) : part.elements = [] := by
  rcases Stmt.checkPart_ok h with ⟨rfl, -, -⟩ | ⟨-, hcheck⟩
  · rfl
  · exact hpart hcheck

mutual

/-- A statement that passes the check declares no elements. -/
theorem Stmt.check_elements :
    ∀ {stmt stmt' : Stmt} {t t' : Table} {s : Nat}, stmt.check t s = .ok (t', stmt') →
      stmt.elements = []
  | .varDecl _ _ _, _, _, _, _, h => by
      obtain ⟨_, _, -, hvars, -⟩ := Stmt.check_varDecl_ok h
      exact checkVars_elements hvars
  | .ifElse _ _ _ _, _, _, _, _, h => by
      obtain ⟨_, _, _, _, -, hyes, hno, -⟩ := Stmt.check_ifElse_ok h
      rw [Stmt.elements, Block.check_elements hyes, Block.check_elements hno]
      rfl
  | .whileLoop _ _ _, _, _, _, _, h => by
      obtain ⟨_, _, -, hbody, -⟩ := Stmt.check_whileLoop_ok h
      exact Block.check_elements hbody
  | .forLoop _ _ _ _ _ _, _, _, _, _, h => by
      obtain ⟨_, _, _, _, _, _, _, hinit, -, hstep, hbody, -⟩ := Stmt.check_forLoop_ok h
      rw [Stmt.elements, Stmt.checkPart_elements (fun h => Stmt.check_elements h) hinit,
        Stmt.checkPart_elements (fun h => Stmt.check_elements h) hstep,
        Block.check_elements hbody]
      rfl
  | .block _, _, _, _, _, h => by
      obtain ⟨_, hb, -⟩ := Stmt.check_block_ok h
      exact Block.check_elements hb
  | .funcDecl _ _ _ _ _ _ _, _, _, _, _, h => by
      obtain ⟨_, _, _, -, hb, -⟩ := Stmt.check_funcDecl_ok h
      exact Block.check_elements hb
  | .missing, _, _, _, _, _ | .call _ _ _ _, _, _, _, _, _ | .assign _ _ _ _, _, _, _, _, _
  | .arrayDecl _ _ _ _, _, _, _, _, _ | .ret _ _, _, _, _, _, _ => rfl

theorem Block.check_elements :
    ∀ {b b' : Block} {t t' : Table} {s : Nat}, b.check t s = .ok (t', b') → b.elements = []
  | .missing, _, _, _, _, _ => rfl
  | .of _ _, _, _, _, _, h => by
      obtain ⟨_, hs, -⟩ := Block.check_of_ok h
      exact Stmt.checkAll_elements hs

theorem Stmt.checkAll_elements :
    ∀ {stmts stmts' : List Stmt} {t t' : Table} {s : Nat},
      Stmt.checkAll t s stmts = .ok (t', stmts') → Stmt.elementsIn stmts = []
  | [], _, _, _, _, _ => rfl
  | _ :: _, _, _, _, _, h => by
      obtain ⟨_, _, _, hstmt, hrest, -⟩ := Stmt.checkAll_cons_ok h
      rw [Stmt.elementsIn, Stmt.check_elements hstmt, Stmt.checkAll_elements hrest]
      rfl

end

/-! ## Programs -/

/-- A text that can be read is a program that passes the check or breaks a rule of the language,
unless it declares an element of an array. Then it never passes, and the one fault of the compiler
that a text can bring about may be reported at such a declaration. -/
theorem Analysis.check_fault_possible {text : String} {b : Block} (h : Block.parse text = .ok b) :
    (∃ a, Analysis.ofProgram b = .ok a ∧ b.elements = []) ∨
      ∃ f, Analysis.ofProgram b = .error f ∧
        (f.IsSemantic ∨ ∃ pos ∈ b.elements, f = .bug pos (.undeclarable "*ast.Index")) := by
  obtain ⟨pos, stmts, rfl, hwhole⟩ := Block.parse_whole h
  obtain ⟨ht, hg⟩ := Table.Sound.program
  have hfails : FailsOnly (Fault.Possible (Stmt.elementsIn stmts))
      (Analysis.ofProgram (.of pos stmts)) :=
    (Stmt.checkAll_fails ht hg hwhole).bind fun _ _ => .ok _
  cases hcheck : Analysis.ofProgram (.of pos stmts) with
  | ok a =>
      obtain ⟨_, _, _, _, heq, hs, -⟩ := Analysis.ofProgram_ok hcheck
      cases heq
      exact .inl ⟨a, rfl, Stmt.checkAll_elements hs⟩
  | error f => exact .inr ⟨f, rfl, hfails f hcheck⟩

theorem Analysis.check_fault_possible_stray_argument :
    ∃ b, Block.parse "(func int f ((int n)) (block (return (call f n 'x'))))" = .ok b ∧
      b.elements = [] ∧ ∃ f, Analysis.ofProgram b = .error f ∧ f.IsSemantic := by
  have htext : ((Block.parse "(func int f ((int n)) (block (return (call f n 'x'))))").toOption.any
      fun b => b.elements.isEmpty && (Analysis.ofProgram b).toOption.isNone) = true := by
    decide +kernel
  obtain ⟨b, hb, hfacts⟩ := Except.any_toOption htext
  rw [Bool.and_eq_true, List.isEmpty_iff] at hfacts
  refine ⟨b, hb, hfacts.1, ?_⟩
  rcases Analysis.check_fault_possible hb with ⟨a, ha, -⟩ | ⟨f, hf, hsemantic | ⟨pos, hpos, -⟩⟩
  · rw [ha] at hfacts
    cases hfacts.2
  · exact ⟨f, hf, hsemantic⟩
  · rw [hfacts.1] at hpos
    cases hpos

/-- Declaring an element of an array is a fault of the compiler, although the text can be read. -/
theorem Analysis.check_fault_internal_of_element :
    ∃ b f, Block.parse "(var int (= (index a 0) 1))" = .ok b ∧
      Analysis.ofProgram b = .error f ∧ f.isInternal = true := by
  have htext : ((Block.parse "(var int (= (index a 0) 1))").toOption.any fun b =>
      match Analysis.ofProgram b with
      | .ok _ => false
      | .error f => f.isInternal) = true := by
    decide +kernel
  obtain ⟨b, hb, hfault⟩ := Except.any_toOption htext
  split at hfault
  · cases hfault
  · next f hf => exact ⟨b, f, hb, hf, hfault⟩

end SmallC
