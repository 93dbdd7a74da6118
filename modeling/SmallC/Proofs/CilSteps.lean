import SmallC.Cil.Assembly
import SmallC.Proofs.CheckSteps

/-!
# What a successful lowering to CIL has done

Lowering is written as chains in `Except`, as checking is, one chain for each form
of a tree. Here every chain is opened once: code that has come out is put together
from the code of the parts, and whatever was asked of the analysis on the way has
been answered. What is proved of the code of any tree starts from these lemmas and
does not unfold the lowering again.

Parts of an expression are lowered as they are used, by `lowerExpr`. The operand of
a conversion is the exception: there the conversion has a node of its own.
-/

namespace SmallC

/-! ## Names -/

theorem Ident.resolved_eq_ok {name : Option Ident} {id : Ident} {sym : Symbol}
    (h : Ident.resolved name = .ok (id, sym)) : name = some id ∧ id.symbol = some sym := by
  cases name with
  | none => cases h
  | some id' =>
      unfold Ident.resolved at h
      dsimp only at h
      split at h
      · next hsym =>
          cases h
          exact ⟨rfl, hsym⟩
      · cases h

theorem Ident.callee_eq_ok {pos : Pos} {func : Option Ident} {callee : Callee}
    (h : Ident.callee pos func = .ok callee) :
    ∃ id, func = some id ∧ id.symbol = some callee.symbol ∧
      callee.symbol.type = .func callee.result callee.params := by
  obtain ⟨⟨id, sym⟩, hres, h⟩ := Except.bind_eq_ok_iff.1 h
  obtain ⟨hfunc, hsym⟩ := Ident.resolved_eq_ok hres
  dsimp only at h
  split at h
  · next htype =>
      cases h
      exact ⟨id, hfunc, hsym, htype⟩
  · cases h

namespace Cil

variable {c : Context} {n n' : Nat} {code : List Instr}

/-! ## Storage -/

/-- Loading and storing choose between three instructions in the same way. -/
theorem place_ok {id : Symbol} {arg loc field i : Instr} {fault : Fault}
    (h : (if c.isParam id then .ok arg else if id.storage = .automatic then .ok loc
      else if id.isStatic then do
        id.type.require
        return field
      else .error fault) = Except.ok i) :
    c.isParam id = true ∧ i = arg ∨ id.storage = .automatic ∧ i = loc ∨
      id.isStatic = true ∧ i = field := by
  split at h
  · next hparam =>
      cases h
      exact .inl ⟨hparam, rfl⟩
  · split at h
    · next hlocal =>
        cases h
        exact .inr (.inl ⟨hlocal, rfl⟩)
    · split at h
      · next hstatic =>
          obtain ⟨_, -, h⟩ := Except.bind_eq_ok_iff.1 h
          cases h
          exact .inr (.inr ⟨hstatic, rfl⟩)
      · cases h

theorem load_ok {pos : Pos} {id : Symbol} {i : Instr} (h : load c pos id = .ok i) :
    c.isParam id = true ∧ i = .ldarg id.name ∨ id.storage = .automatic ∧ i = .ldloc id.name ∨
      id.isStatic = true ∧ i = .ldsfld id.type id.name :=
  place_ok h

theorem store_ok {id : Symbol} {i : Instr} (h : store c id = .ok i) :
    c.isParam id = true ∧ i = .starg id.name ∨ id.storage = .automatic ∧ i = .stloc id.name ∨
      id.isStatic = true ∧ i = .stsfld id.type id.name :=
  place_ok h

/-! ## Expressions -/

theorem convertCode_eq_ok {pos : Pos} {src : Option Ty} {dst : Base}
    (h : convertCode pos src dst = .ok code) :
    ∃ b, src = some (.base b) ∧ convertCode? b dst = some code := by
  unfold convertCode at h
  split at h
  · cases h
  · split at h
    · next hcode =>
        cases h
        exact ⟨_, rfl, hcode⟩
    · cases h

section

variable {e : Expr} {raw : Except Fault (List Instr)}

/-- The value of an expression stands for its code where it is folded, and a literal never is. -/
theorem plain_ok (h : plain c e raw = .ok code) :
    (e.isLiteral = true ∨ c.folded? precision.eval e = none) ∧ raw = .ok code ∨
      e.isLiteral = false ∧ ∃ v, c.folded? precision.eval e = some v ∧ code = [immediate v] := by
  unfold plain at h
  split at h
  · next hlit => exact .inl ⟨.inl hlit, h⟩
  · next hlit =>
      split at h
      · next v hv =>
          cases h
          exact .inr ⟨Bool.eq_false_iff.2 hlit, v, hv, rfl⟩
      · next hnone => exact .inl ⟨.inr hnone, h⟩

/-- An expression is used as it is, or its value as used is loaded, or it is converted. -/
theorem used_ok (h : used c e raw = .ok code) :
    e.note.conv = none ∧ plain c e raw = .ok code ∨
      (∃ conv v, e.note.conv = some conv ∧ c.folded? precision.evalUsed e = some v ∧
        code = [immediate v]) ∨
      ∃ conv first more, e.note.conv = some conv ∧ c.folded? precision.evalUsed e = none ∧
        plain c e raw = .ok first ∧ convertCode e.pos e.note.type conv.dst = .ok more ∧
        code = first ++ more := by
  unfold used at h
  split at h
  · next hconv => exact .inl ⟨hconv, h⟩
  · next conv hconv =>
      split at h
      · next v hv =>
          cases h
          exact .inr (.inl ⟨conv, v, hconv, hv, rfl⟩)
      · next hnone =>
          obtain ⟨first, hfirst, h⟩ := Except.bind_eq_ok_iff.1 h
          obtain ⟨more, hmore, h⟩ := Except.bind_eq_ok_iff.1 h
          cases h
          exact .inr (.inr ⟨conv, first, more, hconv, hnone, hfirst, hmore, rfl⟩)

end

/-- The code of the arguments comes first, and then the function, a builtin one or not, is run. -/
theorem callCode_ok {pos : Pos} {func : Option Ident} {args : Except Fault (List Instr)}
    (h : callCode pos func args = .ok code) :
    ∃ id sym result params first more, func = some id ∧ id.symbol = some sym ∧
      sym.type = .func result params ∧ args = .ok first ∧ code = first ++ more ∧
      (sym.builtin = true ∧ builtinCode? sym.name = some more ∨
        sym.builtin = false ∧ more = [.call result sym.name params]) := by
  obtain ⟨callee, hcallee, h⟩ := Except.bind_eq_ok_iff.1 h
  obtain ⟨id, hfunc, hsym, htype⟩ := Ident.callee_eq_ok hcallee
  split at h
  · next hb =>
      split at h
      · cases h
      · next more hmore =>
          obtain ⟨first, hfirst, h⟩ := Except.bind_eq_ok_iff.1 h
          cases h
          exact ⟨id, _, _, _, first, more, hfunc, hsym, htype, hfirst, rfl, .inl ⟨hb, hmore⟩⟩
  · next hb =>
      obtain ⟨first, hfirst, h⟩ := Except.bind_eq_ok_iff.1 h
      obtain ⟨_, -, h⟩ := Except.bind_eq_ok_iff.1 h
      cases h
      exact ⟨id, _, _, _, first, _, hfunc, hsym, htype, hfirst, rfl,
        .inr ⟨Bool.eq_false_iff.2 hb, rfl⟩⟩

theorem lowerRaw_literal_ok {pos : Pos} {text : String} {value : Option Value} {note : Note}
    (h : lowerRaw c (.literal pos text value note) = .ok code) :
    ∃ v, value = some v ∧ code = [immediate (precision.literal v).1] := by
  cases value with
  | none => cases h
  | some v =>
      cases h
      exact ⟨v, rfl, rfl⟩

theorem lowerRaw_ident_ok {id : Ident} (h : lowerRaw c (.ident id) = .ok code) :
    ∃ sym i, id.symbol = some sym ∧ load c id.pos sym = .ok i ∧ code = [i] := by
  rw [lowerRaw] at h
  obtain ⟨⟨_, sym⟩, hres, h⟩ := Except.bind_eq_ok_iff.1 h
  obtain ⟨heq, hsym⟩ := Ident.resolved_eq_ok hres
  cases heq
  obtain ⟨i, hi, h⟩ := Except.bind_eq_ok_iff.1 h
  cases h
  exact ⟨sym, i, hsym, hi, rfl⟩

theorem lowerRaw_convert_ok {pos : Pos} {x : Expr} {dst : Base}
    (h : lowerRaw c (.convert pos x dst) = .ok code) :
    ∃ first more, plain c x (lowerRaw c x) = .ok first ∧
      convertCode pos x.note.type dst = .ok more ∧ code = first ++ more := by
  rw [lowerRaw] at h
  obtain ⟨first, hfirst, h⟩ := Except.bind_eq_ok_iff.1 h
  obtain ⟨more, hmore, h⟩ := Except.bind_eq_ok_iff.1 h
  cases h
  exact ⟨first, more, hfirst, hmore, rfl⟩

theorem lowerRaw_unary_ok {pos : Pos} {op : Op} {x : Expr} {note : Note}
    (h : lowerRaw c (.unary pos op x note) = .ok code) :
    ∃ first, lowerExpr c x = .ok first ∧ code = first ++ (if op = .sub then [.neg] else []) := by
  rw [lowerRaw] at h
  obtain ⟨first, hfirst, h⟩ := Except.bind_eq_ok_iff.1 h
  cases h
  exact ⟨first, hfirst, rfl⟩

theorem lowerRaw_binary_ok {pos : Pos} {op : Op} {x y : Expr} {note : Note}
    (h : lowerRaw c (.binary pos op x y note) = .ok code) :
    ∃ first second type more, lowerExpr c x = .ok first ∧ lowerExpr c y = .ok second ∧
      x.typeOf = .ok type ∧ binaryCode? op (type = .base .float) = some more ∧
      code = first ++ second ++ more := by
  rw [lowerRaw] at h
  obtain ⟨first, hfirst, h⟩ := Except.bind_eq_ok_iff.1 h
  obtain ⟨second, hsecond, h⟩ := Except.bind_eq_ok_iff.1 h
  obtain ⟨type, htype, h⟩ := Except.bind_eq_ok_iff.1 h
  split at h
  · next more hmore =>
      cases h
      exact ⟨first, second, type, more, hfirst, hsecond, htype, hmore, rfl⟩
  · cases h

theorem lowerRaw_index_ok {pos : Pos} {array : Option Ident} {i : Expr} {note : Note}
    (h : lowerRaw c (.index pos array i note) = .ok code) :
    ∃ id sym get index, array = some id ∧ id.symbol = some sym ∧ load c id.pos sym = .ok get ∧
      lowerExpr c i = .ok index ∧ code = get :: index ++ [.ldelem sym.type.kind] := by
  rw [lowerRaw] at h
  obtain ⟨⟨id, sym⟩, hres, h⟩ := Except.bind_eq_ok_iff.1 h
  obtain ⟨harray, hsym⟩ := Ident.resolved_eq_ok hres
  obtain ⟨get, hget, h⟩ := Except.bind_eq_ok_iff.1 h
  obtain ⟨index, hindex, h⟩ := Except.bind_eq_ok_iff.1 h
  obtain ⟨_, -, h⟩ := Except.bind_eq_ok_iff.1 h
  cases h
  exact ⟨id, sym, get, index, harray, hsym, hget, hindex, rfl⟩

theorem lowerArgs_cons_ok {e : Expr} {rest : List Expr}
    (h : lowerArgs c (e :: rest) = .ok code) :
    ∃ first more, lowerExpr c e = .ok first ∧ lowerArgs c rest = .ok more ∧
      code = first ++ more := by
  rw [lowerArgs] at h
  obtain ⟨first, hfirst, h⟩ := Except.bind_eq_ok_iff.1 h
  obtain ⟨more, hmore, h⟩ := Except.bind_eq_ok_iff.1 h
  cases h
  exact ⟨first, more, hfirst, hmore, rfl⟩

/-! ## Parts of statements -/

theorem lowerAssign_ident_ok {pos : Pos} {id : Ident} {value : Expr}
    (h : lowerAssign c pos (.ident id) value = .ok code) :
    ∃ first sym set, lowerExpr c value = .ok first ∧ id.symbol = some sym ∧
      store c sym = .ok set ∧ code = first ++ [set] := by
  obtain ⟨first, hfirst, h⟩ := Except.bind_eq_ok_iff.1 h
  obtain ⟨⟨_, sym⟩, hres, h⟩ := Except.bind_eq_ok_iff.1 h
  obtain ⟨heq, hsym⟩ := Ident.resolved_eq_ok hres
  cases heq
  obtain ⟨set, hset, h⟩ := Except.bind_eq_ok_iff.1 h
  cases h
  exact ⟨first, sym, set, hfirst, hsym, hset, rfl⟩

theorem lowerAssign_index_ok {pos place : Pos} {array : Option Ident} {i value : Expr}
    {note : Note} (h : lowerAssign c pos (.index place array i note) value = .ok code) :
    ∃ id sym get index first, array = some id ∧ id.symbol = some sym ∧
      load c id.pos sym = .ok get ∧ lowerExpr c i = .ok index ∧ lowerExpr c value = .ok first ∧
      code = get :: index ++ first ++ [.stelem sym.type.kind] := by
  obtain ⟨⟨id, sym⟩, hres, h⟩ := Except.bind_eq_ok_iff.1 h
  obtain ⟨harray, hsym⟩ := Ident.resolved_eq_ok hres
  obtain ⟨get, hget, h⟩ := Except.bind_eq_ok_iff.1 h
  obtain ⟨index, hindex, h⟩ := Except.bind_eq_ok_iff.1 h
  obtain ⟨first, hfirst, h⟩ := Except.bind_eq_ok_iff.1 h
  obtain ⟨_, -, h⟩ := Except.bind_eq_ok_iff.1 h
  cases h
  exact ⟨id, sym, get, index, first, harray, hsym, hget, hindex, hfirst, rfl⟩

theorem lowerVars_assign_ok {pos : Pos} {target value : Expr} {note : Option Ty} {rest : List Node}
    (h : lowerVars c (.stmt (.assign pos target value note) :: rest) = .ok code) :
    ∃ first more, lowerAssign c pos target value = .ok first ∧ lowerVars c rest = .ok more ∧
      code = first ++ more := by
  rw [lowerVars] at h
  obtain ⟨first, hfirst, h⟩ := Except.bind_eq_ok_iff.1 h
  obtain ⟨more, hmore, h⟩ := Except.bind_eq_ok_iff.1 h
  cases h
  exact ⟨first, more, hfirst, hmore, rfl⟩

/-- An item of a declaration has code if it gives an initial value. -/
theorem lowerVars_cons_ok {item : Node} {rest : List Node}
    (h : lowerVars c (item :: rest) = .ok code) :
    (∃ pos target value note first more, item = .stmt (.assign pos target value note) ∧
      lowerAssign c pos target value = .ok first ∧ lowerVars c rest = .ok more ∧
      code = first ++ more) ∨
    lowerVars c rest = .ok code := by
  cases item with
  | stmt s =>
      cases s with
      | assign pos target value note =>
          obtain ⟨first, more, hfirst, hmore, rfl⟩ := lowerVars_assign_ok h
          exact .inl ⟨pos, target, value, note, first, more, rfl, hfirst, hmore, rfl⟩
      | missing | call _ _ _ _ | varDecl _ _ _ | arrayDecl _ _ _ _ | ifElse _ _ _ _
      | whileLoop _ _ _ | forLoop _ _ _ _ _ _ | block _ | funcDecl _ _ _ _ _ _ _ | ret _ _ =>
          exact .inr h
  | _ => exact .inr h

theorem lowerLoopCond_ok {cond inserted : Expr} (h : lowerLoopCond c cond inserted = .ok code) :
    cond.isMissing = false ∧ lowerExpr c cond = .ok code ∨
      cond.isMissing = true ∧ lowerExpr c inserted = .ok code := by
  unfold lowerLoopCond at h
  cases hmissing : cond.isMissing with
  | false =>
      rw [hmissing] at h
      exact .inl ⟨rfl, h⟩
  | true =>
      rw [hmissing] at h
      simp only [Bool.not_true, Bool.false_eq_true, if_false] at h
      split at h
      · cases h
      · exact .inr ⟨rfl, h⟩

/-- The code of a part of a loop that may be absent. -/
def lowerPart (c : Context) (n : Nat) (part : Stmt) : Except Fault (Nat × List Instr) :=
  if part.isMissing then .ok (n, []) else lowerStmt c n part

theorem lowerPart_ok {part : Stmt} (h : lowerPart c n part = .ok (n', code)) :
    part = .missing ∧ n' = n ∧ code = [] ∨
      part ≠ .missing ∧ lowerStmt c n part = .ok (n', code) := by
  unfold lowerPart at h
  split at h
  · next hmissing =>
      cases h
      exact .inl ⟨Stmt.isMissing_iff.1 hmissing, rfl, rfl⟩
  · next hpresent => exact .inr ⟨mt Stmt.isMissing_iff.2 hpresent, h⟩

theorem lowerStmt_forLoop (c : Context) (n : Nat) (pos : Pos) (init step : Stmt)
    (cond inserted : Expr) (body : Block) :
    lowerStmt c n (.forLoop pos init cond inserted step body) = (do
      let (n, init) ← lowerPart c n init
      let (m, body) ← lowerBlock c (n + 1) body
      let (m, step) ← lowerPart c m step
      let cond ← lowerLoopCond c cond inserted
      return (m, init ++ loopCode (n + 1) body step cond)) := by
  rw [lowerStmt]
  unfold lowerPart
  cases init.isMissing <;> cases step.isMissing <;> rfl

/-! ## Statements -/

theorem lowerStmt_call_ok {pos : Pos} {func : Option Ident} {args : List Expr} {note : Note}
    (h : lowerStmt c n (.call pos func args note) = .ok (n', code)) :
    n' = n ∧ ∃ first, callCode pos func (lowerArgs c args) = .ok first ∧
      code = first ++ (if note.type.any (!·.isVoid) then [.pop] else []) := by
  rw [lowerStmt] at h
  obtain ⟨first, hfirst, h⟩ := Except.bind_eq_ok_iff.1 h
  cases h
  exact ⟨rfl, first, hfirst, rfl⟩

theorem lowerStmt_assign_ok {pos : Pos} {target value : Expr} {note : Option Ty}
    (h : lowerStmt c n (.assign pos target value note) = .ok (n', code)) :
    n' = n ∧ lowerAssign c pos target value = .ok code := by
  rw [lowerStmt] at h
  obtain ⟨first, hfirst, h⟩ := Except.bind_eq_ok_iff.1 h
  cases h
  exact ⟨rfl, hfirst⟩

theorem lowerStmt_varDecl_ok {pos : Pos} {type : Option Ident} {vars : List Node}
    (h : lowerStmt c n (.varDecl pos type vars) = .ok (n', code)) :
    n' = n ∧ lowerVars c vars = .ok code := by
  rw [lowerStmt] at h
  obtain ⟨first, hfirst, h⟩ := Except.bind_eq_ok_iff.1 h
  cases h
  exact ⟨rfl, hfirst⟩

theorem lowerStmt_arrayDecl_ok {pos : Pos} {elem name : Option Ident} {size : Expr}
    (h : lowerStmt c n (.arrayDecl pos elem name size) = .ok (n', code)) :
    n' = n ∧ ∃ id sym first set, name = some id ∧ id.symbol = some sym ∧
      lowerExpr c size = .ok first ∧ store c sym = .ok set ∧
      code = first ++ [.newarr sym.type.kind, set] := by
  rw [lowerStmt] at h
  obtain ⟨⟨id, sym⟩, hres, h⟩ := Except.bind_eq_ok_iff.1 h
  obtain ⟨hname, hsym⟩ := Ident.resolved_eq_ok hres
  obtain ⟨first, hfirst, h⟩ := Except.bind_eq_ok_iff.1 h
  obtain ⟨_, -, h⟩ := Except.bind_eq_ok_iff.1 h
  obtain ⟨set, hset, h⟩ := Except.bind_eq_ok_iff.1 h
  cases h
  exact ⟨rfl, id, sym, first, set, hname, hsym, hfirst, hset, rfl⟩

theorem lowerStmt_ifElse_ok {pos : Pos} {cond : Expr} {yes no : Block}
    (h : lowerStmt c n (.ifElse pos cond yes no) = .ok (n', code)) :
    ∃ test m first second, lowerExpr c cond = .ok test ∧
      lowerBlock c (n + 1) yes = .ok (m, first) ∧ lowerBlock c m no = .ok (n', second) ∧
      code = ifCode (n + 1) test first second := by
  rw [lowerStmt] at h
  obtain ⟨test, htest, h⟩ := Except.bind_eq_ok_iff.1 h
  obtain ⟨⟨m, first⟩, hfirst, h⟩ := Except.bind_eq_ok_iff.1 h
  obtain ⟨⟨_, second⟩, hsecond, h⟩ := Except.bind_eq_ok_iff.1 h
  cases h
  exact ⟨test, m, first, second, htest, hfirst, hsecond, rfl⟩

theorem lowerStmt_whileLoop_ok {pos : Pos} {cond : Expr} {body : Block}
    (h : lowerStmt c n (.whileLoop pos cond body) = .ok (n', code)) :
    ∃ round test, lowerBlock c (n + 1) body = .ok (n', round) ∧ lowerExpr c cond = .ok test ∧
      code = loopCode (n + 1) round [] test := by
  rw [lowerStmt] at h
  obtain ⟨⟨_, round⟩, hround, h⟩ := Except.bind_eq_ok_iff.1 h
  obtain ⟨test, htest, h⟩ := Except.bind_eq_ok_iff.1 h
  cases h
  exact ⟨round, test, hround, htest, rfl⟩

theorem lowerStmt_forLoop_ok {pos : Pos} {init step : Stmt} {cond inserted : Expr} {body : Block}
    (h : lowerStmt c n (.forLoop pos init cond inserted step body) = .ok (n', code)) :
    ∃ m first k round next test, lowerPart c n init = .ok (m, first) ∧
      lowerBlock c (m + 1) body = .ok (k, round) ∧ lowerPart c k step = .ok (n', next) ∧
      lowerLoopCond c cond inserted = .ok test ∧
      code = first ++ loopCode (m + 1) round next test := by
  rw [lowerStmt_forLoop] at h
  obtain ⟨⟨m, first⟩, hfirst, h⟩ := Except.bind_eq_ok_iff.1 h
  obtain ⟨⟨k, round⟩, hround, h⟩ := Except.bind_eq_ok_iff.1 h
  obtain ⟨⟨_, next⟩, hnext, h⟩ := Except.bind_eq_ok_iff.1 h
  obtain ⟨test, htest, h⟩ := Except.bind_eq_ok_iff.1 h
  cases h
  exact ⟨m, first, k, round, next, test, hfirst, hround, hnext, htest, rfl⟩

theorem lowerStmt_ret_ok {pos : Pos} {value : Expr}
    (h : lowerStmt c n (.ret pos value) = .ok (n', code)) :
    n' = n ∧ ∃ first, code = first ++ [.ret] ∧
      (value.isMissing = true ∧ first = [] ∨
        value.isMissing = false ∧ lowerExpr c value = .ok first) := by
  rw [lowerStmt] at h
  split at h
  · next hmissing =>
      cases h
      exact ⟨rfl, [], rfl, .inl ⟨hmissing, rfl⟩⟩
  · next hpresent =>
      obtain ⟨first, hfirst, h⟩ := Except.bind_eq_ok_iff.1 h
      cases h
      exact ⟨rfl, first, rfl, .inr ⟨Bool.eq_false_iff.2 hpresent, hfirst⟩⟩

theorem lowerStmts_cons_ok {s : Stmt} {rest : List Stmt}
    (h : lowerStmts c n (s :: rest) = .ok (n', code)) :
    ∃ m first more, lowerStmt c n s = .ok (m, first) ∧ lowerStmts c m rest = .ok (n', more) ∧
      code = first ++ more := by
  rw [lowerStmts] at h
  obtain ⟨⟨m, first⟩, hfirst, h⟩ := Except.bind_eq_ok_iff.1 h
  obtain ⟨⟨_, more⟩, hmore, h⟩ := Except.bind_eq_ok_iff.1 h
  cases h
  exact ⟨m, first, more, hfirst, hmore, rfl⟩

/-! ## Methods -/

theorem lowerFunction_ok {fold : Bool} {d : FuncDecl} {m : Method}
    (h : lowerFunction fold n d = .ok (n', m)) :
    ∃ f body, d.described = .ok f ∧ lowerBlock ⟨fold, some f⟩ n d.body = .ok (n', body) ∧
      m = ⟨.function f, d.body.declared,
        body ++ (if d.body.returns then [] else zeroCode f.result ++ [Instr.ret])⟩ := by
  obtain ⟨f, hf, h⟩ := Except.bind_eq_ok_iff.1 h
  obtain ⟨_, -, h⟩ := Except.bind_eq_ok_iff.1 h
  obtain ⟨_, -, h⟩ := Except.bind_eq_ok_iff.1 h
  obtain ⟨⟨_, body⟩, hbody, h⟩ := Except.bind_eq_ok_iff.1 h
  cases h
  exact ⟨f, body, hf, hbody, rfl⟩

theorem lowerFunctions_cons_ok {fold : Bool} {d : FuncDecl} {rest : List FuncDecl}
    {methods : List Method} (h : lowerFunctions fold n (d :: rest) = .ok (n', methods)) :
    ∃ k m more, lowerFunction fold n d = .ok (k, m) ∧
      lowerFunctions fold k rest = .ok (n', more) ∧ methods = m :: more := by
  rw [lowerFunctions] at h
  obtain ⟨⟨k, m⟩, hm, h⟩ := Except.bind_eq_ok_iff.1 h
  obtain ⟨⟨_, more⟩, hmore, h⟩ := Except.bind_eq_ok_iff.1 h
  cases h
  exact ⟨k, m, more, hm, hmore, rfl⟩

theorem lowerInitializer_ok {fold : Bool} {program : Block} {m : Method}
    (h : lowerInitializer fold n program = .ok m) :
    ∃ n' body, lowerBlock ⟨fold, none⟩ n program = .ok (n', body) ∧
      m = ⟨.initializer, [], body ++ [.ret]⟩ := by
  obtain ⟨⟨n', body⟩, hbody, h⟩ := Except.bind_eq_ok_iff.1 h
  cases h
  exact ⟨n', body, hbody, rfl⟩

/-- The methods of the functions come first, and perhaps a type initializer after them. -/
theorem Assembly.ofAnalysis_ok {a : Analysis} {opts : Options} {asm : Assembly}
    (h : Assembly.ofAnalysis a opts = .ok asm) :
    ∃ ds n methods last, a.program.functions = .ok ds ∧
      lowerFunctions opts.fold 0 ds = .ok (n, methods) ∧
      asm = ⟨opts.name, a.globals, methods ++ last⟩ ∧
      (last = [] ∨ ∃ m, lowerInitializer opts.fold n a.program = .ok m ∧ last = [m]) := by
  obtain ⟨_, -, h⟩ := Except.bind_eq_ok_iff.1 h
  obtain ⟨ds, hds, h⟩ := Except.bind_eq_ok_iff.1 h
  obtain ⟨⟨n, methods⟩, hmethods, h⟩ := Except.bind_eq_ok_iff.1 h
  obtain ⟨initialized, -, h⟩ := Except.bind_eq_ok_iff.1 h
  cases initialized with
  | true =>
      obtain ⟨m, hm, h⟩ := Except.bind_eq_ok_iff.1 h
      cases h
      exact ⟨ds, n, methods, [m], hds, hmethods, rfl, .inr ⟨m, hm, rfl⟩⟩
  | false =>
      cases h
      exact ⟨ds, n, methods, [], hds, hmethods, by rw [List.append_nil], .inl rfl⟩

end Cil

end SmallC
