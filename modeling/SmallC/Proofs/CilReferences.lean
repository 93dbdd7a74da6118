import Mathlib.Data.List.Nodup
import SmallC.Proofs.CilStack
import SmallC.Proofs.ProgramNames

/-!
# No reference of an assembly dangles

Code refers to what is declared elsewhere by its name: to a parameter, a local, a
field, a method. The declarations are written by other walks of the program than
the code is, so nothing but the names holds the two together.

For storage the evaluation stack has settled it already, for an instruction that
names something undeclared would not get through. A call says nothing about the
stack that would do. It is followed back instead: a call in the code comes from a
name in an expression, the name stands for a function that the program declares,
and each of those is a method under a name of its own.

One name is not the program's to give. A method with the header of the type
initializer would be called by a header that two methods have. No text has such a
name in it, but a tree can.
-/

namespace SmallC

namespace Cil

/-! ## Headers -/

/-- What a call says about the method that it calls. -/
structure Header where
  result : Ty
  name : String
  params : List Ty
deriving DecidableEq, Repr

/-- The call of a method with a given header. -/
def Header.call (h : Header) : Instr := .call h.result h.name h.params

/-- The header of the type initializer. -/
def Header.initializer : Header := ⟨.base .void, ".cctor", []⟩

/-- The header of the method of a function. -/
def Header.ofFunction (f : Function) : Header := ⟨f.result, f.name, f.params.map (·.type)⟩

/-- The header of a method, without the names of its parameters. -/
def Header.ofOrigin : Origin → Header
  | .function f => .ofFunction f
  | .initializer => .initializer

example : signature .initializer = ".method private hidebysig specialname rtspecialname static " ++
    typeName Header.initializer.result ++ " " ++ Header.initializer.name ++ "() cil managed" := by
  decide

/-- The parameters in the header of a method. -/
def Method.params (m : Method) : List Symbol :=
  match m.origin with
  | .function f => f.params
  | .initializer => []

/-- The headers of the methods of an assembly, in order. -/
def Assembly.headers (asm : Assembly) : List Header :=
  asm.methods.map fun m => .ofOrigin m.origin

/-- The references in the code of a method are to things that the method or its assembly declares. A
call has the header of one method, or of two if it calls a function with the header of an
initializer that is there as well. -/
structure Method.Resolved (asm : Assembly) (m : Method) : Prop where
  params : ∀ name, .ldarg name ∈ m.body ∨ .starg name ∈ m.body → name ∈ m.params.map (·.name)
  locals : ∀ name, .ldloc name ∈ m.body ∨ .stloc name ∈ m.body → name ∈ m.locals.map (·.name)
  fields : ∀ type name, .ldsfld type name ∈ m.body ∨ .stsfld type name ∈ m.body →
    ∃ id ∈ asm.fields, id.type = type ∧ id.name = name
  calls : ∀ h : Header, h.call ∈ m.body → asm.headers.count h =
    if h = .initializer ∧ .initializer ∈ asm.methods.map (·.origin) then 2 else 1

/-! ## Storage -/

theorem Method.frame_eq (fields : List Symbol) (m : Method) :
    (m.frame fields).params = m.params ∧ (m.frame fields).locals = m.locals ∧
      (m.frame fields).fields = fields := by
  obtain ⟨origin, locals, body⟩ := m
  cases origin <;> exact ⟨rfl, rfl, rfl⟩

theorem Frame.typeOf?_some {ids : List Symbol} {name : String} {ty : Ty}
    (h : Frame.typeOf? ids name = some ty) : ∃ id ∈ ids, id.type = ty ∧ id.name = name := by
  obtain ⟨id, hid, rfl⟩ := Option.map_eq_some_iff.1 h
  obtain ⟨hmem, hname⟩ := Symbol.find?_some hid
  exact ⟨id, hmem, rfl, hname⟩

/-- A parameter or a local that the machine finds is declared. -/
theorem Frame.mem_of_typeOf? {ids : List Symbol} {name : String}
    {next : Ty → Option (List StackKind)} {t : List StackKind}
    (h : (Frame.typeOf? ids name).bind next = some t) : name ∈ ids.map (·.name) := by
  obtain ⟨ty, hty, -⟩ := Option.bind_eq_some_iff.1 h
  obtain ⟨id, hid, -, rfl⟩ := Frame.typeOf?_some hty
  exact List.mem_map_of_mem hid

theorem Frame.exists_of_field {ids : List Symbol} {type : Ty} {name : String}
    {next : Option (List StackKind)} {t : List StackKind}
    (h : (if Frame.typeOf? ids name = some type then next else none) = some t) :
    ∃ id ∈ ids, id.type = type ∧ id.name = name :=
  Frame.typeOf?_some (Option.ite_none_right_eq_some.1 h).1

theorem Frame.step_of_mem {fr : Frame} {code : List Instr} {i : Instr}
    (h : fr.run [] code = some []) (hi : i ∈ code) : ∃ s t, fr.step s i = some t := by
  obtain ⟨pre, post, rfl⟩ := List.append_of_mem hi
  obtain ⟨s, t, -, hstep, -⟩ := Frame.exists_of_run h
  exact ⟨s, t, hstep⟩

theorem Method.storage_resolved {fields : List Symbol} {m : Method}
    (h : (m.frame fields).run [] m.body = some []) :
    (∀ name, .ldarg name ∈ m.body ∨ .starg name ∈ m.body → name ∈ m.params.map (·.name)) ∧
      (∀ name, .ldloc name ∈ m.body ∨ .stloc name ∈ m.body → name ∈ m.locals.map (·.name)) ∧
      ∀ type name, .ldsfld type name ∈ m.body ∨ .stsfld type name ∈ m.body →
        ∃ id ∈ fields, id.type = type ∧ id.name = name := by
  obtain ⟨hparams, hlocals, hfields⟩ := m.frame_eq fields
  rw [← hparams, ← hlocals]
  refine ⟨fun name hi => ?_, fun name hi => ?_, fun type name hi => ?_⟩ <;>
    rcases hi with hi | hi <;> obtain ⟨s, t, hstep⟩ := Frame.step_of_mem h hi
  · exact Frame.mem_of_typeOf? hstep
  · exact Frame.mem_of_typeOf? hstep
  · exact Frame.mem_of_typeOf? hstep
  · exact Frame.mem_of_typeOf? hstep
  · exact hfields ▸ Frame.exists_of_field hstep
  · exact hfields ▸ Frame.exists_of_field hstep

/-! ## Calls -/

/-- The header that an instruction calls. -/
def Instr.header? : Instr → Option Header
  | .call result name params => some ⟨result, name, params⟩
  | _ => none

/-- A name that stands for a function of the program with a given header. -/
def Header.CalledAs (h : Header) (id : Ident) : Prop :=
  ∃ sym, id.symbol = some sym ∧ sym.builtin = false ∧ sym.name = h.name ∧
    sym.type = .func h.result h.params

/-- Whatever the code calls is named in the expressions `es`. -/
def Calls (es : List Expr) (code : List Instr) : Prop :=
  ∀ h ∈ code.filterMap Instr.header?, ∃ id, Expr.ident id ∈ es ∧ h.CalledAs id

section Calls

variable {es more : List Expr} {code rest : List Instr}

theorem Calls.of_none (h : code.filterMap Instr.header? = []) : Calls es code := by
  intro header hmem
  rw [h] at hmem
  cases hmem

theorem calls_append : Calls es (code ++ rest) ↔ Calls es code ∧ Calls es rest := by
  unfold Calls
  rw [List.filterMap_append, List.forall_mem_append]

theorem calls_cons {i : Instr} : Calls es (i :: rest) ↔ Calls es [i] ∧ Calls es rest := by
  rw [← calls_append, List.singleton_append]

theorem Calls.mono (h : Calls es code) (hsub : es ⊆ more) : Calls more code := by
  intro header hmem
  obtain ⟨id, hid, hcalled⟩ := h header hmem
  exact ⟨id, hsub hid, hcalled⟩

theorem Calls.left (h : Calls es code) : Calls (es ++ more) code :=
  h.mono (List.subset_append_left _ _)

theorem Calls.right (h : Calls es code) : Calls (more ++ es) code :=
  h.mono (List.subset_append_right _ _)

theorem Calls.cons {e : Expr} (h : Calls es code) : Calls (e :: es) code :=
  h.mono (List.subset_cons_self _ _)

theorem immediate_calls (v : Value) : Calls es [immediate v] := by
  refine .of_none ?_
  unfold immediate
  split <;> first | rfl | split <;> rfl

theorem load_calls {c : Context} {pos : Pos} {id : Symbol} {i : Instr}
    (h : load c pos id = .ok i) : Calls es [i] := by
  rcases load_ok h with ⟨-, rfl⟩ | ⟨-, rfl⟩ | ⟨-, rfl⟩ <;> exact .of_none rfl

theorem store_calls {c : Context} {id : Symbol} {i : Instr} (h : store c id = .ok i) :
    Calls es [i] := by
  rcases store_ok h with ⟨-, rfl⟩ | ⟨-, rfl⟩ | ⟨-, rfl⟩ <;> exact .of_none rfl

theorem convertCode_calls {pos : Pos} {src : Option Ty} {dst : Base}
    (h : convertCode pos src dst = .ok code) : Calls es code := by
  refine .of_none ?_
  obtain ⟨_, -, hcode⟩ := convertCode_eq_ok h
  unfold convertCode? at hcode
  split at hcode <;> cases hcode <;> rfl

theorem binaryCode?_calls {op : Op} {float : Bool} (h : binaryCode? op float = some code) :
    Calls es code := by
  refine .of_none ?_
  unfold binaryCode? at h
  split at h <;> cases h <;> rfl

theorem builtinCode?_calls {name : String} (h : builtinCode? name = some code) :
    Calls es code := by
  refine .of_none ?_
  unfold builtinCode? at h
  split at h <;> cases h <;> rfl

end Calls

section

variable {c : Context} {es : List Expr} {e : Expr} {raw : Except Fault (List Instr)}
  {code : List Instr}

theorem plain_calls (hraw : ∀ code, raw = .ok code → Calls es code)
    (h : plain c e raw = .ok code) : Calls es code := by
  rcases plain_ok h with ⟨-, h⟩ | ⟨-, v, -, rfl⟩
  · exact hraw code h
  · exact immediate_calls v

theorem used_calls (hraw : ∀ code, raw = .ok code → Calls es code)
    (h : used c e raw = .ok code) : Calls es code := by
  rcases used_ok h with ⟨-, h⟩ | ⟨_, v, -, -, rfl⟩ | ⟨_, _, _, -, -, hfirst, hmore, rfl⟩
  · exact plain_calls hraw h
  · exact immediate_calls v
  · exact calls_append.2 ⟨plain_calls hraw hfirst, convertCode_calls hmore⟩

theorem callCode_calls {pos : Pos} {func : Option Ident} {args : Except Fault (List Instr)}
    (hargs : ∀ code, args = .ok code → Calls es code) (h : callCode pos func args = .ok code) :
    Calls (Ident.asExpr func ++ es) code := by
  obtain ⟨id, sym, _, _, first, _, rfl, hsym, htype, hfirst, rfl, hmore⟩ := callCode_ok h
  refine calls_append.2 ⟨(hargs first hfirst).right, ?_⟩
  rcases hmore with ⟨-, hown⟩ | ⟨hb, rfl⟩
  · exact builtinCode?_calls hown
  · exact List.forall_mem_singleton.2 ⟨id, List.mem_cons_self, sym, hsym, hb, rfl, htype⟩

end

mutual

/-- What the code of an expression calls is named in the expression. -/
theorem lowerRaw_calls {c : Context} :
    ∀ {e : Expr} {code : List Instr}, lowerRaw c e = .ok code → Calls e.parts code
  | .missing, _, h => by cases h
  | .literal _ _ _ _, _, h => by
      obtain ⟨_, -, rfl⟩ := lowerRaw_literal_ok h
      exact immediate_calls _
  | .ident _, _, h => by
      obtain ⟨_, _, -, hi, rfl⟩ := lowerRaw_ident_ok h
      exact load_calls hi
  | .convert _ _ _, _, h => by
      obtain ⟨_, _, hfirst, hmore, rfl⟩ := lowerRaw_convert_ok h
      have hx := plain_calls (fun code => lowerRaw_calls) hfirst
      exact calls_append.2 ⟨hx.cons, convertCode_calls hmore⟩
  | .unary _ _ _ _, _, h => by
      obtain ⟨_, hfirst, rfl⟩ := lowerRaw_unary_ok h
      have hx := used_calls (fun code => lowerRaw_calls) hfirst
      refine calls_append.2 ⟨hx.cons, .of_none ?_⟩
      split <;> rfl
  | .binary _ _ _ _ _, _, h => by
      obtain ⟨_, _, _, _, hfirst, hsecond, -, hmore, rfl⟩ := lowerRaw_binary_ok h
      have hx := used_calls (fun code => lowerRaw_calls) hfirst
      have hy := used_calls (fun code => lowerRaw_calls) hsecond
      exact calls_append.2 ⟨calls_append.2 ⟨hx.left.cons, hy.right.cons⟩, binaryCode?_calls hmore⟩
  | .index _ _ _ _, _, h => by
      obtain ⟨_, _, _, _, -, -, hget, hindex, rfl⟩ := lowerRaw_index_ok h
      have hi := used_calls (fun code => lowerRaw_calls) hindex
      exact calls_append.2 ⟨calls_cons.2 ⟨load_calls hget, hi.right.cons⟩, .of_none rfl⟩
  | .call _ _ _ _, _, h => by
      rw [lowerRaw] at h
      exact (callCode_calls (fun code => lowerArgs_calls) h).cons

theorem lowerArgs_calls {c : Context} :
    ∀ {args : List Expr} {code : List Instr}, lowerArgs c args = .ok code →
      Calls (Expr.partsAll args) code
  | [], _, h => by
      cases h
      exact .of_none rfl
  | _ :: _, _, h => by
      obtain ⟨_, _, hfirst, hmore, rfl⟩ := lowerArgs_cons_ok h
      have he := used_calls (fun code => lowerRaw_calls) hfirst
      exact calls_append.2 ⟨he.left, (lowerArgs_calls hmore).right⟩

end

/-! ## Statements -/

section

variable {c : Context}

theorem lowerExpr_calls {e : Expr} {code : List Instr} (h : lowerExpr c e = .ok code) :
    Calls e.parts code :=
  used_calls (fun _ => lowerRaw_calls) h

theorem lowerAssign_calls {pos : Pos} {target value : Expr} {code : List Instr}
    (h : lowerAssign c pos target value = .ok code) : Calls (target.parts ++ value.parts) code := by
  cases target with
  | ident _ =>
      obtain ⟨_, _, _, hfirst, -, hset, rfl⟩ := lowerAssign_ident_ok h
      exact calls_append.2 ⟨(lowerExpr_calls hfirst).right, store_calls hset⟩
  | index _ _ _ _ =>
      obtain ⟨_, _, _, _, _, -, -, hget, hindex, hfirst, rfl⟩ := lowerAssign_index_ok h
      have hi := lowerExpr_calls hindex
      exact calls_append.2 ⟨calls_append.2 ⟨calls_cons.2 ⟨load_calls hget, hi.right.cons.left⟩,
        (lowerExpr_calls hfirst).right⟩, .of_none rfl⟩
  | missing | literal _ _ _ _ | unary _ _ _ _ | binary _ _ _ _ _ | call _ _ _ _ | convert _ _ _ =>
      cases h

theorem lowerVars_calls {vars : List Node} {code : List Instr} (h : lowerVars c vars = .ok code) :
    Calls (vars.flatMap Node.exprs) code := by
  induction vars generalizing code with
  | nil =>
      cases h
      exact .of_none rfl
  | cons n rest ih =>
      rcases lowerVars_cons_ok h with ⟨_, _, _, _, _, _, rfl, hfirst, hmore, rfl⟩ | h
      · exact calls_append.2 ⟨(lowerAssign_calls hfirst).left, (ih hmore).right⟩
      · exact (ih h).right

theorem lowerLoopCond_calls {cond inserted : Expr} {code : List Instr}
    (h : lowerLoopCond c cond inserted = .ok code) : Calls (cond.parts ++ inserted.parts) code := by
  rcases lowerLoopCond_ok h with ⟨-, h⟩ | ⟨-, h⟩
  · exact (lowerExpr_calls h).left
  · exact (lowerExpr_calls h).right

theorem ifCode_calls {es : List Expr} {n : Nat} {cond yes no : List Instr} (hcond : Calls es cond)
    (hyes : Calls es yes) (hno : Calls es no) : Calls es (ifCode n cond yes no) := by
  simp only [ifCode, calls_append]
  exact ⟨⟨⟨⟨⟨hcond, .of_none rfl⟩, hyes⟩, .of_none rfl⟩, hno⟩, .of_none rfl⟩

theorem loopCode_calls {es : List Expr} {n : Nat} {body step cond : List Instr}
    (hbody : Calls es body) (hstep : Calls es step) (hcond : Calls es cond) :
    Calls es (loopCode n body step cond) := by
  simp only [loopCode, calls_append]
  exact ⟨⟨⟨⟨⟨.of_none rfl, hbody⟩, hstep⟩, .of_none rfl⟩, hcond⟩, .of_none rfl⟩

theorem lowerPart_calls {part : Stmt} {n n' : Nat} {code : List Instr}
    (hpart : ∀ {n n' : Nat} {code : List Instr},
      lowerStmt c n part = .ok (n', code) → Calls part.exprs code)
    (h : lowerPart c n part = .ok (n', code)) : Calls part.exprs code := by
  rcases lowerPart_ok h with ⟨-, -, rfl⟩ | ⟨-, h⟩
  · exact .of_none rfl
  · exact hpart h

end

mutual

/-- What the code of a statement calls is named in its expressions. -/
theorem lowerStmt_calls {c : Context} :
    ∀ {stmt : Stmt} {n n' : Nat} {code : List Instr}, lowerStmt c n stmt = .ok (n', code) →
      Calls stmt.exprs code
  | .missing, _, _, _, h => by cases h
  | .call _ _ _ _, _, _, _, h => by
      obtain ⟨-, _, hfirst, rfl⟩ := lowerStmt_call_ok h
      refine calls_append.2 ⟨(callCode_calls (fun _ => lowerArgs_calls) hfirst).cons, .of_none ?_⟩
      split <;> rfl
  | .assign _ _ _ _, _, _, _, h => lowerAssign_calls (lowerStmt_assign_ok h).2
  | .varDecl _ _ _, _, _, _, h => lowerVars_calls (lowerStmt_varDecl_ok h).2
  | .arrayDecl _ _ _ _, _, _, _, h => by
      obtain ⟨-, _, _, _, _, -, -, hfirst, hset, rfl⟩ := lowerStmt_arrayDecl_ok h
      exact calls_append.2 ⟨lowerExpr_calls hfirst,
        calls_cons.2 ⟨.of_none rfl, store_calls hset⟩⟩
  | .ifElse _ _ _ _, _, _, _, h => by
      obtain ⟨_, _, _, _, hcond, hyes, hno, rfl⟩ := lowerStmt_ifElse_ok h
      exact ifCode_calls (lowerExpr_calls hcond).left.left (lowerBlock_calls hyes).right.left
        (lowerBlock_calls hno).right
  | .whileLoop _ _ _, _, _, _, h => by
      obtain ⟨_, _, hbody, hcond, rfl⟩ := lowerStmt_whileLoop_ok h
      exact loopCode_calls (lowerBlock_calls hbody).right (.of_none rfl)
        (lowerExpr_calls hcond).left
  | .forLoop _ _ _ _ _ _, _, _, _, h => by
      obtain ⟨_, _, _, _, _, _, hfirst, hbody, hlast, hcond, rfl⟩ := lowerStmt_forLoop_ok h
      have hinit := lowerPart_calls (fun h => lowerStmt_calls h) hfirst
      have hstep := lowerPart_calls (fun h => lowerStmt_calls h) hlast
      have htest := lowerLoopCond_calls hcond
      rw [Stmt.exprs, List.append_assoc (Stmt.exprs _)]
      exact calls_append.2 ⟨hinit.left.left.left, loopCode_calls (lowerBlock_calls hbody).right
        hstep.right.left htest.right.left.left⟩
  | .block _, _, _, _, h => by
      rw [lowerStmt] at h
      exact lowerBlock_calls h
  | .funcDecl _ _ _ _ _ _ _, _, _, _, h => by
      cases h
      exact .of_none rfl
  | .ret _ _, _, _, _, h => by
      obtain ⟨-, _, rfl, ⟨-, rfl⟩ | ⟨-, hfirst⟩⟩ := lowerStmt_ret_ok h
      · exact .of_none rfl
      · exact calls_append.2 ⟨lowerExpr_calls hfirst, .of_none rfl⟩

theorem lowerBlock_calls {c : Context} :
    ∀ {b : Block} {n n' : Nat} {code : List Instr}, lowerBlock c n b = .ok (n', code) →
      Calls b.exprs code
  | .missing, _, _, _, h => by
      cases h
      exact .of_none rfl
  | .of _ _, _, _, _, h => by
      rw [lowerBlock] at h
      exact lowerStmts_calls h

theorem lowerStmts_calls {c : Context} :
    ∀ {stmts : List Stmt} {n n' : Nat} {code : List Instr}, lowerStmts c n stmts = .ok (n', code) →
      Calls (Stmt.exprsIn stmts) code
  | [], _, _, _, h => by
      cases h
      exact .of_none rfl
  | _ :: _, _, _, _, h => by
      obtain ⟨_, _, _, hfirst, hmore, rfl⟩ := lowerStmts_cons_ok h
      exact calls_append.2 ⟨(lowerStmt_calls hfirst).left, (lowerStmts_calls hmore).right⟩

end

/-! ## Methods -/

theorem zeroCode_calls {es : List Expr} (ty : Ty) : Calls es (zeroCode ty) := by
  refine .of_none ?_
  unfold zeroCode
  split <;> rfl

/-- What a method calls is named at a place of the program. -/
theorem Method.Lowered.calls {a : Analysis} {fold : Bool} {m : Method} {c : Context} {b : Block}
    (h : m.Lowered a fold c b) : Calls b.exprs m.body := by
  cases h with
  | @function ds d f n n' code functions declared described lowered =>
      refine calls_append.2 ⟨lowerBlock_calls lowered, ?_⟩
      split
      · exact .of_none rfl
      · exact calls_append.2 ⟨zeroCode_calls f.result, .of_none rfl⟩
  | initializer lowered => exact calls_append.2 ⟨lowerBlock_calls lowered, .of_none rfl⟩

theorem Method.Lowered.covered {a : Analysis} {fold : Bool} {m : Method} {c : Context} {b : Block}
    (h : m.Lowered a fold c b) {ds : List FuncDecl} (hds : a.program.functions = .ok ds)
    {out : List Occurrence} (hprogram : Covers out a.program.exprs)
    (hbodies : ∀ d ∈ ds, Covers out d.body.exprs) : Covers out b.exprs := by
  cases h with
  | function functions declared _ _ =>
      cases hds.symm.trans functions
      exact hbodies _ declared
  | initializer _ => exact hprogram

theorem lowerFunctions_origins {fold : Bool} {ds : List FuncDecl} {n n' : Nat}
    {methods : List Method} (h : lowerFunctions fold n ds = .ok (n', methods)) :
    ∃ fs : List Function, ds.map (·.function) = fs.map some ∧
      methods.map (·.origin) = fs.map .function := by
  induction ds generalizing n methods with
  | nil =>
      cases h
      exact ⟨[], rfl, rfl⟩
  | cons d rest ih =>
      obtain ⟨_, _, _, hmethod, hmore, rfl⟩ := lowerFunctions_cons_ok h
      obtain ⟨f, _, hf, -, rfl⟩ := lowerFunction_ok hmethod
      obtain ⟨fs, hfs, horigins⟩ := ih hmore
      refine ⟨f :: fs, ?_, ?_⟩
      · rw [List.map_cons, List.map_cons, hfs, FuncDecl.described_ok_iff.1 hf]
      · rw [List.map_cons, List.map_cons, horigins]

/-- An assembly has the methods of the functions of the program, in order, and perhaps a type
initializer after them. -/
theorem Assembly.origins {a : Analysis} {opts : Options} {asm : Assembly}
    (h : Assembly.ofAnalysis a opts = .ok asm) {ds : List FuncDecl}
    (hds : a.program.functions = .ok ds) :
    ∃ (fs : List Function) (last : List Origin), ds.map (·.function) = fs.map some ∧
      asm.methods.map (·.origin) = fs.map .function ++ last ∧
      (last = [] ∨ last = [.initializer]) := by
  obtain ⟨ds', n, methods, last, hds', hmethods, rfl, hlast⟩ := Assembly.ofAnalysis_ok h
  cases hds.symm.trans hds'
  obtain ⟨fs, hfs, horigins⟩ := lowerFunctions_origins hmethods
  refine ⟨fs, last.map (·.origin), hfs, by rw [List.map_append, horigins], ?_⟩
  rcases hlast with rfl | ⟨initializer, hinit, rfl⟩
  · exact .inl rfl
  · obtain ⟨_, _, -, rfl⟩ := lowerInitializer_ok hinit
    exact .inr rfl

/-- A function has the header of one method, unless it has that of the initializer. -/
theorem count_headers {fs : List Function} {last : List Origin} {f : Function}
    (hnames : (fs.map (·.name)).Nodup) (hlast : last = [] ∨ last = [.initializer]) (hf : f ∈ fs) :
    ((fs.map Origin.function ++ last).map Header.ofOrigin).count (.ofFunction f) =
      if Header.ofFunction f = .initializer ∧ .initializer ∈ fs.map Origin.function ++ last then 2
      else 1 := by
  have hfunctions : (fs.map Header.ofFunction).count (.ofFunction f) = 1 := by
    refine List.count_eq_one_of_mem (List.Nodup.of_map Header.name ?_) (List.mem_map_of_mem hf)
    rw [List.map_map]
    exact hnames
  have hnone : Origin.initializer ∉ fs.map Origin.function := by
    intro hmem
    obtain ⟨_, -, heq⟩ := List.mem_map.1 hmem
    cases heq
  have hsame : (fs.map Origin.function).map Header.ofOrigin = fs.map Header.ofFunction := by
    rw [List.map_map]
    rfl
  rw [List.map_append, List.count_append, hsame, hfunctions]
  rcases hlast with rfl | rfl
  · rw [List.append_nil, if_neg fun h => hnone h.2]
    rfl
  · by_cases heq : Header.ofFunction f = .initializer
    · rw [if_pos ⟨heq, List.mem_append_right _ List.mem_cons_self⟩, heq]
      rfl
    · rw [if_neg fun h => heq h.1, List.map_singleton, List.count_singleton, if_neg]
      rw [beq_iff_eq]
      exact fun h => heq h.symm

theorem countP_isEntryPoint_le {fs : List Function} {last : List Origin}
    (hnames : (fs.map (·.name)).Nodup) (hlast : last = [] ∨ last = [.initializer]) :
    (fs.map Origin.function ++ last).countP Origin.isEntryPoint ≤ 1 := by
  have hmain : (fs.map Origin.function).countP Origin.isEntryPoint ≤ 1 := by
    have hcount := List.nodup_iff_count_le_one.1 hnames "main"
    rw [List.count_eq_countP, List.countP_map] at hcount
    rw [List.countP_map]
    exact hcount
  rw [List.countP_append]
  rcases hlast with rfl | rfl
  · exact hmain
  · exact hmain

end Cil

/-- The functions behind some declarations have the names of the declarations. -/
theorem FuncDecl.names_of_functions {ds : List FuncDecl} {fs : List Function}
    (h : ds.map (·.function) = fs.map some) : ds.flatMap FuncDecl.names = fs.map (·.name) := by
  have hflat : ds.flatMap FuncDecl.names =
      (ds.map (·.function)).flatMap fun f => f.toList.map (·.name) := by
    rw [List.flatMap_map]
    rfl
  rw [hflat, h, List.flatMap_map]
  exact List.map_eq_flatMap.symm

section

variable {g s : Nat} {t t' : Table} {p : Region} {src out : List Occurrence} {ds : List FuncDecl}
  {es : List Expr}

/-- The functions that a program declares are those that are listed when it has been checked. -/
theorem Traced.source_functions {before : List Occurrence}
    (h : Traced g t t' s p before src out ds es) :
    (src.filter (·.role = .func)).map (·.name) = ds.flatMap FuncDecl.names := by
  have hbare : ∀ os : List Occurrence, (os.filter (·.role = .func)).map (·.name) =
      ((os.map Occurrence.bare).filter (·.role = .func)).map (·.name) := by
    intro os
    rw [List.filter_map, List.map_map]
    rfl
  rw [hbare, ← h.same, ← hbare, h.listed, h.names_eq]

/-- A call in a method is of a function that the program declares. -/
theorem Cil.Method.Lowered.callee {a : Analysis} {fold : Bool} {m : Cil.Method} {c : Context}
    {b : Block} (hm : m.Lowered a fold c b) (hds : a.program.functions = .ok ds)
    (htraced : Traced g t t' s p [] src out ds a.program.exprs) {h : Cil.Header}
    (hcall : h.call ∈ m.body) :
    ∃ d ∈ ds, ∃ f, d.function = some f ∧ Cil.Header.ofFunction f = h := by
  obtain ⟨id, hid, sym, hsym, hbuiltin, hname, htype⟩ :=
    hm.calls h (List.mem_filterMap.2 ⟨_, hcall, rfl⟩)
  obtain ⟨q, hq⟩ := hm.covered hds htraced.covered htraced.bodies id hid
  obtain ⟨d, hd, f, hf, hfname, hftype⟩ :=
    htraced.callee hq hsym (by rw [htype]; rfl) hbuiltin
  refine ⟨d, hd, f, hf, ?_⟩
  obtain ⟨hresult, hparams⟩ := Ty.func.inj (hftype.trans htype)
  unfold Cil.Header.ofFunction
  rw [hresult, hparams, hfname, hname]

end

/-- No reference of an assembly dangles. The functions that a program declares, wherever it does, are
in order the functions of the methods, and its globals are the fields, all of them under different
names. What the code of a method refers to is declared by the method or the assembly, and at most one
method is where the program starts. A call has the header of exactly one method, except that it has
that of a type initializer too if it is written like a call of one; in a program from a text none
is. -/
theorem Analysis.cil_references_resolved {b : Block} {a : Analysis}
    (ha : Analysis.ofProgram b = .ok a) (opts : Options) :
    ∃ (asm : Cil.Assembly) (fs : List Function) (last : List Origin),
      Cil.Assembly.ofAnalysis a opts = .ok asm ∧
      ((b.occurrences []).filter (·.role = .func)).map (·.name) = fs.map (·.name) ∧
      (fs.map (·.name)).Nodup ∧
      (∃ ds, a.program.functions = .ok ds ∧ ds.map (·.function) = fs.map some) ∧
      asm.methods.map (·.origin) = fs.map .function ++ last ∧
      (last = [] ∨ last = [.initializer]) ∧
      asm.fields = a.globals ∧ (a.globals.map (·.name)).Nodup ∧
      (∀ m ∈ asm.methods, m.Resolved asm) ∧
      asm.methods.countP (·.origin.isEntryPoint) ≤ 1 ∧
      ∀ text, Block.parse text = .ok b → ∀ m ∈ asm.methods, ∀ h : Cil.Header,
        h.call ∈ m.body → asm.headers.count h = 1 := by
  obtain ⟨htyped, -, hstatic⟩ := Analysis.ofProgram_checked ha
  obtain ⟨t, ds, hds, -, htraced⟩ := Analysis.ofProgram_traced ha
  obtain ⟨asm, hasm⟩ : ∃ asm, Cil.Assembly.ofAnalysis a opts = .ok asm := by
    obtain ⟨pos, stmts, _, stmts', -, -, rfl⟩ := Analysis.ofProgram_ok ha
    exact Cil.Assembly.ofAnalysis_succeeds rfl htyped hstatic opts
  obtain ⟨hfields, hlowered⟩ := Cil.Assembly.lowered hasm
  obtain ⟨fs, last, hfs, horigins, hlast⟩ := Cil.Assembly.origins hasm hds
  have hnames := FuncDecl.names_of_functions hfs
  have hnodup : (fs.map (·.name)).Nodup := hnames ▸ htraced.functions_nodup
  have hheaders : asm.headers = (fs.map Origin.function ++ last).map Cil.Header.ofOrigin := by
    rw [← horigins, List.map_map]
    rfl
  -- a call has the header of a function of the program
  have hcallee : ∀ m ∈ asm.methods, ∀ h : Cil.Header, h.call ∈ m.body →
      ∃ f ∈ fs, Cil.Header.ofFunction f = h := by
    intro m hm h hcall
    obtain ⟨c, block, hblock⟩ := hlowered m hm
    obtain ⟨d, hd, f, hf, hheader⟩ := hblock.callee hds htraced hcall
    obtain ⟨f', hf', heq⟩ := List.mem_map.1 (hfs ▸ List.mem_map_of_mem hd)
    cases heq.trans hf
    exact ⟨f, hf', hheader⟩
  have hcalls : ∀ m ∈ asm.methods, ∀ h : Cil.Header, h.call ∈ m.body → asm.headers.count h =
      if h = .initializer ∧ .initializer ∈ asm.methods.map (·.origin) then 2 else 1 := by
    intro m hm h hcall
    obtain ⟨f, hf, rfl⟩ := hcallee m hm h hcall
    rw [hheaders, horigins]
    exact Cil.count_headers hnodup hlast hf
  refine ⟨asm, fs, last, hasm, htraced.source_functions.trans hnames, hnodup, ⟨ds, hds, hfs⟩,
    horigins, hlast, hfields, hstatic.names, fun m hm => ?_, ?_, fun text htext m hm h hcall => ?_⟩
  · obtain ⟨c, block, hblock⟩ := hlowered m hm
    obtain ⟨hparams, hlocals, hstored⟩ :=
      Cil.Method.storage_resolved (hblock.stands htyped hstatic).balanced
    exact ⟨hparams, hlocals, hfields ▸ hstored, hcalls m hm⟩
  · have hentry := Cil.countP_isEntryPoint_le hnodup hlast
    rw [← horigins, List.countP_map] at hentry
    exact hentry
  · obtain ⟨f, hf, rfl⟩ := hcallee m hm h hcall
    have hname : Form.isLiteral f.name = false := by
      refine (Analysis.namesOf_nodup htext ha hds).2 f.name (List.mem_append_right _ ?_)
      rw [hnames]
      exact List.mem_map_of_mem hf
    rw [hcalls m hm _ hcall, if_neg]
    rintro ⟨heq, -⟩
    have hcctor : f.name = ".cctor" := congrArg Cil.Header.name heq
    rw [hcctor] at hname
    exact absurd hname (by decide)

/-- A global, and a function in a block with a parameter of the same name. -/
theorem Analysis.cil_references_resolved_shadowed :
    ∃ b a asm m, Block.parse
        "(var int x) (block (func int f ((int x)) (block (= x 1) (return x)))) (= x (call f x))" =
          .ok b ∧
      Analysis.ofProgram b = .ok a ∧ Cil.Assembly.ofAnalysis a ⟨true, "program"⟩ = .ok asm ∧
      m ∈ asm.methods ∧ Cil.Header.call ⟨.base .int, "f", [.base .int]⟩ ∈ m.body ∧
      m.Resolved asm ∧ asm.headers.count ⟨.base .int, "f", [.base .int]⟩ = 1 := by
  have htext : ((Analysis.ofText?
      "(var int x) (block (func int f ((int x)) (block (= x 1) (return x)))) (= x (call f x))").any
        fun a => (Cil.Assembly.ofAnalysis a ⟨true, "program"⟩).toOption.any fun asm =>
          asm.methods.any fun m =>
            m.body.contains (Cil.Header.call ⟨.base .int, "f", [.base .int]⟩)) = true := by
    decide +kernel
  obtain ⟨a, ha, hany⟩ := (Option.any_eq_true _ _).1 htext
  obtain ⟨b, hb, ha⟩ := Analysis.ofText?_eq_some ha
  obtain ⟨asm, -, -, hasm, -, -, -, -, -, -, -, hresolved, -, honce⟩ :=
    Analysis.cil_references_resolved ha ⟨true, "program"⟩
  rw [hasm] at hany
  obtain ⟨m, hm, hcode⟩ := List.any_eq_true.1 hany
  have hcall := List.contains_iff_mem.1 hcode
  exact ⟨b, a, asm, m, hb, ha, hasm, hm, hcall, hresolved m hm, honce _ hb m hm _ hcall⟩

/-- A call of a function that is named like the initializer has the header of two methods. -/
theorem Analysis.cil_call_ambiguous :
    ∃ a asm m, Analysis.ofProgram (.of ⟨1, 1⟩
        [.funcDecl ⟨1, 1⟩ (some ⟨⟨1, 7⟩, "void", none, {}⟩) false
          (some ⟨⟨1, 12⟩, ".cctor", none, {}⟩) (some ⟨⟨1, 19⟩, []⟩) (.of ⟨1, 22⟩ []) none,
        .call ⟨2, 1⟩ (some ⟨⟨2, 7⟩, ".cctor", none, {}⟩) [] {}]) = .ok a ∧
      Cil.Assembly.ofAnalysis a ⟨true, "program"⟩ = .ok asm ∧ m ∈ asm.methods ∧
      Cil.Header.call ⟨.base .void, ".cctor", []⟩ ∈ m.body ∧
      asm.headers.count ⟨.base .void, ".cctor", []⟩ = 2 := by
  have hcheck : ((Analysis.ofProgram (.of ⟨1, 1⟩
        [.funcDecl ⟨1, 1⟩ (some ⟨⟨1, 7⟩, "void", none, {}⟩) false
          (some ⟨⟨1, 12⟩, ".cctor", none, {}⟩) (some ⟨⟨1, 19⟩, []⟩) (.of ⟨1, 22⟩ []) none,
        .call ⟨2, 1⟩ (some ⟨⟨2, 7⟩, ".cctor", none, {}⟩) [] {}])).toOption.any fun a =>
      (Cil.Assembly.ofAnalysis a ⟨true, "program"⟩).toOption.any fun asm =>
        asm.headers.count ⟨.base .void, ".cctor", []⟩ = 2 ∧ asm.methods.any fun m =>
          m.body.contains (Cil.Header.call ⟨.base .void, ".cctor", []⟩)) = true := by
    decide +kernel
  obtain ⟨a, ha, hany⟩ := Except.any_toOption hcheck
  obtain ⟨asm, hasm, hany⟩ := Except.any_toOption hany
  obtain ⟨hcount, hmethods⟩ := of_decide_eq_true hany
  obtain ⟨m, hm, hcode⟩ := List.any_eq_true.1 hmethods
  exact ⟨a, asm, m, ha, hasm, hm, List.contains_iff_mem.1 hcode, hcount⟩

end SmallC
