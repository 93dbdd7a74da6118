import SmallC.Proofs.CheckTyping
import SmallC.Proofs.CilTotal
import SmallC.Proofs.Kinds
import SmallC.Proofs.StackKinds

/-!
# The stack of a method is safe

The code of an expression leaves the stack as it was with one value on top, of
the kind of the type of the expression, whatever the stack was. The code of a
statement starts and ends with an empty stack. The first is what the typing rules
say about an expression, carried over to its code. The second follows from it, for
each statement pops what its expressions have pushed.

A method may return in the middle of its code, and whatever comes after that is
code for an empty stack again.
-/

namespace SmallC

/-! ## Statements within statements -/

/-- The assignments of a declaration. -/
def Node.stmts : Node → List Stmt
  | .stmt (.assign pos target value noted) => [.assign pos target value noted]
  | _ => []

mutual

/-- A statement and all statements that it is made of, without those of the functions that it
declares. -/
def Stmt.nested : Stmt → List Stmt
  | .missing => []
  | .call pos func args note => [.call pos func args note]
  | .assign pos target value noted => [.assign pos target value noted]
  | .varDecl pos type vars => .varDecl pos type vars :: vars.flatMap Node.stmts
  | .arrayDecl pos elem name size => [.arrayDecl pos elem name size]
  | .ifElse pos cond yes no => .ifElse pos cond yes no :: (yes.nested ++ no.nested)
  | .whileLoop pos cond body => .whileLoop pos cond body :: body.nested
  | .forLoop pos init cond inserted step body =>
    .forLoop pos init cond inserted step body :: (init.nested ++ (body.nested ++ step.nested))
  | .block b => .block b :: b.nested
  | .funcDecl pos result name params semi body function =>
    [.funcDecl pos result name params semi body function]
  | .ret pos value => [.ret pos value]

/-- The statements of a block. -/
def Block.nested : Block → List Stmt
  | .missing => []
  | .of _ stmts => Stmt.nestedIn stmts

/-- The statements that several statements are made of. -/
def Stmt.nestedIn : List Stmt → List Stmt
  | [] => []
  | s :: rest => s.nested ++ Stmt.nestedIn rest

end

namespace Cil

open StackKind (push pop pushAll popAll give take)

/-! ## What code leaves behind -/

/-- Code that leaves a value of a type on whatever stack it finds, and nothing if the type has no
values. -/
def Frame.Computes (fr : Frame) (ty : Ty) (code : List Instr) : Prop :=
  ∀ s, ∃ t, give ty s = some t ∧ fr.run s code = some t

/-- Code that leaves the arguments of a call on whatever stack it finds. -/
def Frame.Passes (fr : Frame) (params : List Ty) (code : List Instr) : Prop :=
  ∀ s, ∃ t, pushAll params s = some t ∧ fr.run s code = some t

namespace Frame

variable {fr : Frame} {ty : Ty} {code more : List Instr} {i : Instr} {k : StackKind}

/-- Code of a type of values pushes one. -/
theorem computes_iff (hty : ty.isVoid = false) :
    fr.Computes ty code ↔
      ∃ k, StackKind.ofTy? ty = some k ∧ ∀ s, fr.run s code = some (k :: s) := by
  have hgive : ∀ s, give ty s = push ty s := fun s => if_neg (by rintro rfl; cases hty)
  constructor
  · intro h
    obtain ⟨t, ht, -⟩ := h []
    obtain ⟨k, hk, -⟩ := Option.map_eq_some_iff.1 ((hgive []).symm.trans ht)
    refine ⟨k, hk, fun s => ?_⟩
    obtain ⟨t, ht, hrun⟩ := h s
    rw [hrun, ← ht, hgive, StackKind.push_eq hk]
  · rintro ⟨k, hk, hrun⟩ s
    exact ⟨k :: s, (hgive s).trans (StackKind.push_eq hk s), hrun s⟩

theorem Computes.pop (h : fr.Computes ty code) (hty : ty.isVoid = false) (s : List StackKind) :
    ∃ t, fr.run s code = some t ∧ pop ty t = some s := by
  obtain ⟨k, hk, hrun⟩ := (computes_iff hty).1 h
  exact ⟨k :: s, hrun s, StackKind.pop_push (StackKind.push_eq hk s)⟩

theorem Computes.append {ty' : Ty} {k k' : StackKind} (h : fr.Computes ty code)
    (hty : ty.isVoid = false) (hty' : ty'.isVoid = false) (hk : StackKind.ofTy? ty = some k)
    (hk' : StackKind.ofTy? ty' = some k')
    (hmore : ∀ s, fr.run (k :: s) more = some (k' :: s)) : fr.Computes ty' (code ++ more) := by
  obtain ⟨k₀, hk₀, hrun⟩ := (computes_iff hty).1 h
  cases hk.symm.trans hk₀
  exact (computes_iff hty').2 ⟨k', hk', fun s => run_append_of (hrun s) (hmore s)⟩

theorem Passes.nil : fr.Passes [] [] := fun s => ⟨s, rfl, rfl⟩

theorem Passes.cons {params : List Ty} (h : fr.Computes ty code) (hty : ty.isVoid = false)
    (h' : fr.Passes params more) : fr.Passes (ty :: params) (code ++ more) := by
  obtain ⟨k, hk, hrun⟩ := (computes_iff hty).1 h
  intro s
  obtain ⟨t, ht, hmore⟩ := h' (k :: s)
  exact ⟨t, StackKind.pushAll_cons (StackKind.push_eq hk s) ht, run_append_of (hrun s) hmore⟩

end Frame

theorem immediate_computes {fr : Frame} {v : Value} {k : Base} (h : v.Of k) :
    fr.Computes (.base k) [immediate v] := by
  cases h with
  | real bits => exact fun s => ⟨_, rfl, rfl⟩
  | ordinal isOrdinal n =>
      cases k with
      | int => exact fun s => ⟨_, rfl, rfl⟩
      | char =>
          refine fun s => ⟨_, rfl, ?_⟩
          simp only [immediate]
          split <;> rfl
      | bool =>
          refine fun s => ⟨_, rfl, ?_⟩
          simp only [immediate]
          split <;> rfl
      | void | float | unnamed _ => cases isOrdinal

/-! ## The tables -/

theorem convertCode?_run (fr : Frame) {src dst : Base} {code : List Instr}
    (h : dst ∈ src.conversions) (hcode : convertCode? src dst = some code) :
    ∃ k k', StackKind.ofTy? (.base src) = some k ∧ StackKind.ofTy? (.base dst) = some k' ∧
      ∀ s, fr.run (k :: s) code = some (k' :: s) := by
  cases src <;> simp [Base.conversions] at h <;> rcases h with rfl | rfl | rfl <;>
    cases hcode <;> exact ⟨_, _, rfl, rfl, fun _ => rfl⟩

theorem binaryCode?_run (fr : Frame) {op : Op} {x : Ty} {r : Base} {code : List Instr}
    {k : StackKind} (h : op.Accepts x x r) (hk : StackKind.ofTy? x = some k)
    (hcode : binaryCode? op (x = .base .float) = some code) :
    ∃ k', StackKind.ofTy? (.base r) = some k' ∧
      ∀ s, fr.run (k :: k :: s) code = some (k' :: s) := by
  cases x with
  | base x =>
      have hres : op.result? x x = some r := h
      unfold Op.result? at hres
      split at hres <;> cases hres <;> cases hk <;> cases hcode <;> exact ⟨_, rfl, fun _ => rfl⟩
  | array x =>
      -- Two arrays can only be compared, and `ceq` does not ask what they hold.
      obtain ⟨-, hop, rfl⟩ := h
      obtain rfl : k = .array x := by
        simp only [StackKind.ofTy?] at hk
        split at hk <;> cases hk
        rfl
      have hceq : ∀ s, fr.step (.array x :: .array x :: s) .ceq = some (.int32 :: s) :=
        fun s => if_pos ⟨rfl, rfl⟩
      refine ⟨.int32, rfl, fun s => ?_⟩
      rcases hop with rfl | rfl
      · cases hcode
        exact Frame.run_singleton.trans (hceq s)
      · cases hcode
        exact Frame.run_append_of (Frame.run_singleton.trans (hceq s)) rfl
  | func _ _ | absent => exact h.elim

theorem builtinCode?_run (fr : Frame) {sym : Symbol} {result : Ty} {params : List Ty}
    {code : List Instr} (h : sym ∈ Symbol.builtins) (hty : sym.type = .func result params)
    (hcode : builtinCode? sym.name = some code) (s : List StackKind) :
    (pushAll params s).bind (fr.run · code) = give result s := by
  simp only [Symbol.builtins, List.mem_cons, List.not_mem_nil, or_false] at h
  rcases h with rfl | rfl | rfl | rfl | rfl | rfl | rfl | rfl | rfl | rfl <;>
    cases hty <;> cases hcode <;> rfl

/-! ## Storage -/

/-- The frame of code that reaches some storage. -/
def Frame.ofReach (r : Reach) : Frame :=
  match r.function with
  | some f => ⟨f.result, f.params, f.locals, r.globals⟩
  | none => ⟨.base .void, [], [], r.globals⟩

theorem Frame.ofReach_fields (r : Reach) : (Frame.ofReach r).fields = r.globals := by
  unfold Frame.ofReach
  split <;> rfl

theorem Frame.ofReach_function {r : Reach} {f : Function} (h : r.function = some f) :
    Frame.ofReach r = ⟨f.result, f.params, f.locals, r.globals⟩ := by
  unfold Frame.ofReach
  rw [h]

theorem Frame.typeOf?_eq {ids : List Symbol} {id : Symbol}
    (h : Symbol.find? id.name ids = some id) : Frame.typeOf? ids id.name = some id.type := by
  rw [Frame.typeOf?, h, Option.map_some]

section

variable {c : Context} {r : Reach} {id : Symbol}

theorem typeOf?_param (hc : c.function = r.function) (h : c.isParam id = true) :
    Frame.typeOf? (Frame.ofReach r).params id.name = some id.type := by
  obtain ⟨f, hf, howns⟩ := (Option.any_eq_true _ _).1 h
  simp only [Function.owns, Bool.and_eq_true, beq_iff_eq] at howns
  rw [Frame.ofReach_function (hc.symm.trans hf)]
  exact Frame.typeOf?_eq howns.2

theorem typeOf?_local (hr : r.Placed) (hid : id.Stored r) (h : id.storage = .automatic) :
    Frame.typeOf? (Frame.ofReach r).locals id.name = some id.type := by
  simp only [Symbol.Stored, h] at hid
  obtain ⟨f, hf, hmem⟩ := hid
  have hnames := (hr.function f hf).names
  rw [List.map_append] at hnames
  rw [Frame.ofReach_function hf]
  exact Frame.typeOf?_eq (Symbol.find?_of_mem (List.nodup_append.1 hnames).2.1 hmem)

theorem typeOf?_field (hr : r.Placed) (hid : id.Stored r) (h : id.isStatic = true) :
    Frame.typeOf? (Frame.ofReach r).fields id.name = some id.type := by
  have hmem : id ∈ r.globals := by
    simp only [Symbol.isStatic, Bool.and_eq_true, Bool.or_eq_true, beq_iff_eq] at h
    rcases h.2 with hs | hs <;> simpa only [Symbol.Stored, hs] using hid
  rw [Frame.ofReach_fields]
  exact Frame.typeOf?_eq (Symbol.find?_of_mem hr.globals.names hmem)

/-- What loads a symbol within reach pushes a value of its type, and what stores it pops one. -/
theorem load_store_step (hc : c.function = r.function) (hr : r.Placed)
    (hdata : id.type.isData = true) (hid : id.Stored r) (pos : Pos) :
    ∃ get set, load c pos id = .ok get ∧ store c id = .ok set ∧
      ∀ s, (Frame.ofReach r).step s get = push id.type s ∧
        (Frame.ofReach r).step s set = pop id.type s := by
  by_cases hparam : c.isParam id = true
  · refine ⟨.ldarg id.name, .starg id.name, if_pos hparam, if_pos hparam, fun s => ?_⟩
    simp only [Frame.step, typeOf?_param hc hparam, Option.bind_some, and_self]
  by_cases hlocal : id.storage = .automatic
  · refine ⟨.ldloc id.name, .stloc id.name, ?_, ?_, fun s => ?_⟩
    · rw [load, if_neg hparam, if_pos hlocal]
    · rw [store, if_neg hparam, if_pos hlocal]
    · simp only [Frame.step, typeOf?_local hr hid hlocal, Option.bind_some, and_self]
  · have hstatic : id.isStatic = true := by
      rcases hid.place hc hdata with h | h | h
      · exact absurd h hparam
      · exact absurd h hlocal
      · exact h
    have hrequire := Ty.require_ok (Ty.isResult_of_isData hdata)
    refine ⟨.ldsfld id.type id.name, .stsfld id.type id.name, ?_, ?_, fun s => ?_⟩
    · rw [load, if_neg hparam, if_neg hlocal, if_pos hstatic, hrequire]
      rfl
    · rw [store, if_neg hparam, if_neg hlocal, if_pos hstatic, hrequire]
      rfl
    · simp only [Frame.step, typeOf?_field hr hid hstatic, if_true, and_self]

theorem load_computes {i : Instr} {pos : Pos} (hc : c.function = r.function) (hr : r.Placed)
    (hdata : id.type.isData = true) (hid : id.Stored r) (h : load c pos id = .ok i) :
    (Frame.ofReach r).Computes id.type [i] := by
  obtain ⟨get, set, hget, -, hstep⟩ := load_store_step hc hr hdata hid pos
  cases hget.symm.trans h
  obtain ⟨k, hk⟩ := StackKind.ofTy?_isData hdata
  refine (Frame.computes_iff (Ty.isVoid_of_isData hdata)).2 ⟨k, hk, fun s => ?_⟩
  rw [Frame.run_singleton, (hstep s).1, StackKind.push_eq hk]

theorem store_step {i : Instr} (hc : c.function = r.function) (hr : r.Placed)
    (hdata : id.type.isData = true) (hid : id.Stored r) (h : store c id = .ok i)
    (s : List StackKind) : (Frame.ofReach r).step s i = pop id.type s := by
  obtain ⟨get, set, -, hset, hstep⟩ := load_store_step hc hr hdata hid .nowhere
  cases hset.symm.trans h
  exact (hstep s).2

end

/-! ## Expressions -/

section

variable {c : Context} {r : Reach} {fr : Frame} {e : Expr} {ty : Ty}
  {raw : Except Fault (List Instr)} {code : List Instr}

theorem plain_computes (he : e.Typed r) (hty : e.note.type = some ty)
    (hraw : ∀ code, raw = .ok code → fr.Computes ty code) (h : plain c e raw = .ok code) :
    fr.Computes ty code := by
  rcases plain_ok h with ⟨-, h⟩ | ⟨-, v, hv, rfl⟩
  · exact hraw code h
  · -- The evaluator never looks at a type, but what it finds is of the type of the expression.
    obtain ⟨k, hk, hof⟩ := Precision.eval_of he v (Context.eval_of_folded hv)
    cases hty.symm.trans hk
    exact immediate_computes hof

theorem convertCode_computes {pos : Pos} {dst : Base} {first more : List Instr}
    (hmem : dst ∈ ty.conversions) (hfirst : fr.Computes ty first)
    (h : convertCode pos (some ty) dst = .ok more) :
    fr.Computes (.base dst) (first ++ more) := by
  obtain ⟨src, hsrc, hcode⟩ := convertCode_eq_ok h
  cases hsrc
  obtain ⟨hsrc, hdst⟩ := Base.isData_of_mem_conversions hmem
  obtain ⟨k, k', hk, hk', hrun⟩ := convertCode?_run fr hmem hcode
  exact hfirst.append (Ty.isVoid_of_isData hsrc) (Ty.isVoid_of_isData hdst) hk hk' hrun

theorem used_computes {used : Ty} (he : e.Typed r) (hused : e.usedType = some used)
    (hraw : ∀ ty code, e.note.type = some ty → raw = .ok code → fr.Computes ty code)
    (h : Cil.used c e raw = .ok code) : fr.Computes used code := by
  obtain ⟨ty, hof⟩ := he.note_of
  have hty := hof.type
  have hraw := fun code => hraw ty code hty
  rcases used_ok h with ⟨hconv, h⟩ | ⟨conv, v, -, hv, rfl⟩ |
    ⟨conv, first, more, hconv, -, hfirst, hmore, rfl⟩
  · cases hty.symm.trans ((Note.usedType_of_kept hconv).symm.trans hused)
    exact plain_computes he hty hraw h
  · obtain ⟨k, hk, hof⟩ := Precision.evalUsed_of he (Context.eval_of_folded hv)
    cases hused.symm.trans hk
    exact immediate_computes hof
  · cases hused.symm.trans (hof.usedType_of_conv hconv)
    rw [hty] at hmore
    have hfirst := plain_computes he hty hraw hfirst
    exact convertCode_computes (hof.conv conv hconv).2 hfirst hmore

theorem callCode_computes {func : Ident} {sym : Symbol} {result : Ty} {params : List Ty}
    {args : Except Fault (List Instr)} {pos : Pos} (hrefers : func.Refers r sym)
    (hty : sym.type = .func result params)
    (hargs : ∀ code, args = .ok code → fr.Passes params code)
    (h : callCode pos (some func) args = .ok code) : fr.Computes result code := by
  obtain ⟨hresult, -, hbuiltin⟩ := hrefers.known.signature hty
  obtain ⟨_, _, _, _, first, more, hfunc, hsym, htype, hfirst, rfl, hmore⟩ := callCode_ok h
  cases hfunc
  cases hrefers.symbol.symm.trans hsym
  cases hty.symm.trans htype
  intro s
  obtain ⟨t, ht, hrun⟩ := hargs first hfirst s
  obtain ⟨u, hu⟩ := StackKind.give_isResult hresult s
  rcases hmore with ⟨hb, hown⟩ | ⟨-, rfl⟩
  · have hstep := builtinCode?_run fr (hbuiltin hb) hty hown s
    rw [ht, Option.bind_some] at hstep
    exact ⟨u, hu, Frame.run_append_of hrun (hstep.trans hu)⟩
  · refine ⟨u, hu, Frame.run_snoc hrun ?_⟩
    rw [Frame.step, StackKind.popAll_pushAll ht, Option.bind_some, hu]

theorem binary_computes {op : Op} {x : Ty} {k : Base} {first second more : List Instr}
    (haccepts : op.Accepts x x k) (hfirst : fr.Computes x first) (hsecond : fr.Computes x second)
    (h : binaryCode? op (x = .base .float) = some more) :
    fr.Computes (.base k) (first ++ second ++ more) := by
  have hvoid := haccepts.isVoid
  obtain ⟨kx, hkx, hfirst⟩ := (Frame.computes_iff hvoid).1 hfirst
  obtain ⟨ky, hky, hsecond⟩ := (Frame.computes_iff hvoid).1 hsecond
  cases hkx.symm.trans hky
  obtain ⟨k', hk', hmore⟩ := binaryCode?_run fr haccepts hkx h
  have hvoid' : (Ty.base k).isVoid = false := by
    cases k <;> first | rfl | cases hk'
  refine (Frame.computes_iff hvoid').2 ⟨k', hk', fun s => ?_⟩
  exact Frame.run_append_of (Frame.run_append_of (hfirst s) (hsecond _)) (hmore s)

/-- An array and an index on the stack can be popped again. -/
theorem element_run {elem : Base} {get : Instr} {index : List Instr}
    (hget : fr.Computes (.array elem) [get]) (hindex : fr.Computes (.base .int) index)
    (s : List StackKind) :
    ∃ t, fr.run s (get :: index) = some t ∧
      (pop (.base .int) t).bind (pop (.array elem)) = some s := by
  obtain ⟨t, ht, hpop⟩ := hget.pop rfl s
  obtain ⟨u, hu, hpop'⟩ := hindex.pop rfl t
  refine ⟨u, Frame.run_append_of ht hu, ?_⟩
  rw [hpop', Option.bind_some, hpop]

theorem element_computes {elem : Base} {get : Instr} {index : List Instr}
    (hdata : (Ty.base elem).isData = true) (hget : fr.Computes (.array elem) [get])
    (hindex : fr.Computes (.base .int) index) :
    fr.Computes (.base elem) (get :: index ++ [Instr.ldelem elem]) := by
  obtain ⟨k, hk⟩ := StackKind.ofTy?_isData hdata
  refine (Frame.computes_iff (Ty.isVoid_of_isData hdata)).2 ⟨k, hk, fun s => ?_⟩
  obtain ⟨t, ht, hpop⟩ := element_run hget hindex s
  refine Frame.run_snoc ht ?_
  rw [Frame.step, hpop, Option.bind_some, StackKind.push_eq hk]

theorem lowerArgs_passes {args : List Expr} {params : List Ty}
    (hused : args.map Expr.usedType = params.map some)
    (hparams : ∀ p ∈ params, p.isData = true)
    (hargs : ∀ e ∈ args, ∀ ty code, e.usedType = some ty → Cil.used c e (lowerRaw c e) = .ok code →
      fr.Computes ty code)
    (h : lowerArgs c args = .ok code) : fr.Passes params code := by
  induction args generalizing params code with
  | nil =>
      cases params with
      | nil =>
          cases h
          exact .nil
      | cons p rest => cases hused
  | cons e args ih =>
      cases params with
      | nil => cases hused
      | cons p rest =>
          obtain ⟨he, hrest⟩ := List.cons.inj hused
          obtain ⟨hp, hparams⟩ := List.forall_mem_cons.1 hparams
          obtain ⟨first, more, hfirst, hmore, rfl⟩ := lowerArgs_cons_ok h
          exact .cons (hargs e List.mem_cons_self p first he hfirst) (Ty.isVoid_of_isData hp)
            (ih hrest hparams (fun x hx => hargs x (List.mem_cons_of_mem _ hx)) hmore)

/-- The code of a typed expression pushes a value of its type. -/
theorem lowerRaw_computes (hc : c.function = r.function) (hr : r.Placed) (h : e.Typed r) :
    e.IsValue → ∀ ty code, e.note.type = some ty → lowerRaw c e = .ok code →
      (Frame.ofReach r).Computes ty code := by
  induction h with
  | @literal _ _ value _ decoded note_of =>
      intro _ ty code hty hcode
      cases note_of.type.symm.trans hty
      cases hcode
      exact immediate_computes (Precision.literal_of (Literal.decode_of decoded))
  | @ident id sym refers =>
      intro hv ty code hty hcode
      obtain ⟨ty', hty', hfunc⟩ := hv
      cases hty.symm.trans hty'
      cases refers.note.type.symm.trans hty
      obtain ⟨hdata, hstored⟩ := refers.known.stored hfunc
      obtain ⟨_, i, hsym, hi, rfl⟩ := lowerRaw_ident_ok hcode
      cases refers.symbol.symm.trans hsym
      exact load_computes hc hr hdata hstored hi
  | @unary _ op x _ xType operand husedType numeric note_of ih =>
      intro _ ty code hty hcode
      cases note_of.type.symm.trans hty
      have hx := operand.isValue husedType (by rcases numeric with rfl | ⟨rfl, -⟩ <;> rfl)
      obtain ⟨first, hfirst, rfl⟩ := lowerRaw_unary_ok hcode
      have hfirst := used_computes operand husedType (ih hx) hfirst
      split
      · rcases numeric with rfl | ⟨rfl, -⟩
        · exact hfirst.append rfl rfl rfl rfl fun _ => rfl
        · exact hfirst.append rfl rfl rfl rfl fun _ => rfl
      · rwa [List.append_nil]
  | @binary _ op x y _ xType yType result left right usedLeft usedRight accepts _ note_of ihx ihy =>
      intro _ ty code hty hcode
      cases note_of.type.symm.trans hty
      have hx := left.isValue usedLeft accepts.isData.1
      have hy := right.isValue usedRight accepts.isData.2
      obtain ⟨first, second, _, more, hfirst, hsecond, htype, hmore, rfl⟩ :=
        lowerRaw_binary_ok hcode
      cases (Expr.typeOf_ok usedLeft).symm.trans htype
      cases accepts.same
      exact binary_computes accepts (used_computes left usedLeft (ihx hx) hfirst)
        (used_computes right usedRight (ihy hy) hsecond) hmore
  | @index _ array sym elem i _ refers type operand husedType note_of ih =>
      intro _ ty code hty hcode
      cases note_of.type.symm.trans hty
      obtain ⟨hdata, hstored⟩ := refers.known.element type
      obtain ⟨_, _, get, index, harray, hsym, hget, hindex, rfl⟩ := lowerRaw_index_ok hcode
      cases harray
      cases refers.symbol.symm.trans hsym
      have hindex := used_computes operand husedType (ih (operand.isValue husedType rfl)) hindex
      have hget := load_computes hc hr hdata hstored hget
      rw [type] at hget hdata ⊢
      exact element_computes hdata hget hindex
  | @call _ func sym result params args _ refers type operands husedType note_of ih =>
      intro _ ty code hty hcode
      cases note_of.type.symm.trans hty
      obtain ⟨-, hparams, -⟩ := refers.known.signature type
      rw [lowerRaw] at hcode
      refine callCode_computes refers type (fun first hfirst => ?_) hcode
      refine lowerArgs_passes husedType hparams (fun e he ty code hused hcode => ?_) hfirst
      have hv := Expr.isValue_of_argument husedType hparams he (operands e he)
      exact used_computes (operands e he) hused (ih e he hv) hcode

theorem lowerExpr_computes (hc : c.function = r.function) (hr : r.Placed) (h : e.UsedAs r ty)
    (hty : ty.isData = true) (hcode : lowerExpr c e = .ok code) :
    (Frame.ofReach r).Computes ty code :=
  used_computes h.typed h.used (lowerRaw_computes hc hr h.typed (h.isValue hty)) hcode

end

/-! ## Statements -/

/-- A stretch of the code is the code of a statement, and the stack is empty before and after it. -/
def Frame.Spans (fr : Frame) (c : Context) (code : List Instr) (stmt : Stmt) : Prop :=
  ∃ n n' pre part post, lowerStmt c n stmt = .ok (n', part) ∧ code = pre ++ part ++ post ∧
    fr.run [] pre = some [] ∧ fr.run [] (pre ++ part) = some []

/-- Code that starts and ends with an empty stack, and so does the code of some statements within
it. -/
structure Frame.Stands (fr : Frame) (c : Context) (stmts : List Stmt) (code : List Instr) :
    Prop where
  balanced : fr.run [] code = some []
  spans : ∀ x ∈ stmts, fr.Spans c code x

namespace Frame

variable {fr : Frame} {c : Context} {code more : List Instr} {stmts others : List Stmt}

theorem Spans.append {x : Stmt} (h : fr.Spans c code x) (more : List Instr) :
    fr.Spans c (code ++ more) x := by
  obtain ⟨n, n', pre, part, post, hx, rfl, hpre, hpart⟩ := h
  exact ⟨n, n', pre, part, post ++ more, hx, by simp only [List.append_assoc], hpre, hpart⟩

theorem Spans.prepend {x : Stmt} (h : fr.Spans c more x) (hcode : fr.run [] code = some []) :
    fr.Spans c (code ++ more) x := by
  obtain ⟨n, n', pre, part, post, hx, rfl, hpre, hpart⟩ := h
  refine ⟨n, n', code ++ pre, part, post, hx, by simp only [List.append_assoc],
    run_append_of hcode hpre, ?_⟩
  rw [List.append_assoc]
  exact run_append_of hcode hpart

theorem Stands.of_run (h : fr.run [] code = some []) : fr.Stands c [] code :=
  ⟨h, fun _ hx => (nomatch hx)⟩

theorem Stands.append (h : fr.Stands c stmts code) (h' : fr.Stands c others more) :
    fr.Stands c (stmts ++ others) (code ++ more) := by
  refine ⟨run_append_of h.balanced h'.balanced, List.forall_mem_append.2 ⟨?_, ?_⟩⟩
  · exact fun x hx => (h.spans x hx).append more
  · exact fun x hx => (h'.spans x hx).prepend h.balanced

theorem Stands.whole {n n' : Nat} {stmt : Stmt} (h : fr.Stands c stmts code)
    (hstmt : lowerStmt c n stmt = .ok (n', code)) : fr.Stands c (stmt :: stmts) code := by
  refine ⟨h.balanced, List.forall_mem_cons.2 ⟨?_, h.spans⟩⟩
  exact ⟨n, n', [], code, [], hstmt, by simp, rfl, h.balanced⟩

theorem Computes.branch {cond : List Instr} {i : Instr} (h : fr.Computes (.base .bool) cond)
    (hi : ∀ s, fr.step s i = (StackKind.pop (.base .bool) s).bind StackKind.empty) :
    fr.run [] (cond ++ [i]) = some [] := by
  obtain ⟨t, ht, hpop⟩ := h.pop rfl []
  refine run_snoc ht ?_
  rw [hi, hpop]
  rfl

theorem ifCode_stands {n : Nat} {cond yes no : List Instr} {inYes inNo : List Stmt}
    (hcond : fr.Computes (.base .bool) cond) (hyes : fr.Stands c inYes yes)
    (hno : fr.Stands c inNo no) : fr.Stands c (inYes ++ inNo) (ifCode n cond yes no) := by
  have htest : fr.Stands c [] (cond ++ [Instr.brfalse (.ifFalse n)]) :=
    .of_run (hcond.branch fun _ => rfl)
  have hmiddle : fr.Stands c [] [.br (.ifEnd n), .label (.ifFalse n), .nop] := .of_run rfl
  have hend : fr.Stands c [] [.label (.ifEnd n), .nop] := .of_run rfl
  have h := (((htest.append hyes).append hmiddle).append hno).append hend
  simpa only [ifCode, List.nil_append, List.append_nil] using h

theorem loopCode_stands {n : Nat} {body step cond : List Instr} {inBody inStep : List Stmt}
    (hbody : fr.Stands c inBody body) (hstep : fr.Stands c inStep step)
    (hcond : fr.Computes (.base .bool) cond) :
    fr.Stands c (inBody ++ inStep) (loopCode n body step cond) := by
  have hstart : fr.Stands c [] [.br (.loopCtrl n), .label (.loopBody n), .nop] := .of_run rfl
  have hctrl : fr.Stands c [] [.label (.loopCtrl n), .nop] := .of_run rfl
  have htest : fr.Stands c [] (cond ++ [Instr.brtrue (.loopBody n)]) :=
    .of_run (hcond.branch fun _ => rfl)
  have h := (((hstart.append hbody).append hstep).append hctrl).append htest
  simpa only [loopCode, List.nil_append, List.append_nil, List.append_assoc] using h

end Frame

section

variable {c : Context} {r : Reach} (hc : c.function = r.function) (hr : r.Placed)

include hc hr

theorem lowerAssign_run {target value : Expr} {noted : Option Ty} {pos : Pos} {code : List Instr}
    (h : AssignTyped r target value noted) (hcode : lowerAssign c pos target value = .ok code) :
    (Frame.ofReach r).run [] code = some [] := by
  obtain ⟨hplace, hkept, ty, hdata, htarget, hvalue, -⟩ := h
  have hused : target.note.type = some ty := (Note.usedType_of_kept hkept).symm.trans htarget.used
  cases htarget.typed with
  | @ident id sym refers =>
      cases refers.note.type.symm.trans hused
      obtain ⟨hsym, hstored⟩ := refers.known.stored (Ty.isFunc_of_isData hdata)
      obtain ⟨first, _, set, hfirst, hid, hset, rfl⟩ := lowerAssign_ident_ok hcode
      cases refers.symbol.symm.trans hid
      obtain ⟨t, ht, hpop⟩ := (lowerExpr_computes hc hr hvalue hdata hfirst).pop
        (Ty.isVoid_of_isData hdata) []
      exact Frame.run_snoc ht ((store_step hc hr hsym hstored hset t).trans hpop)
  | @index _ array sym elem i _ refers type operand husedType note_of =>
      cases note_of.type.symm.trans hused
      obtain ⟨hsym, hstored⟩ := refers.known.element type
      have hi : i.UsedAs r (.base .int) := ⟨operand, husedType⟩
      obtain ⟨_, _, get, index, first, harray, hid, hget, hindex, hfirst, rfl⟩ :=
        lowerAssign_index_ok hcode
      cases harray
      cases refers.symbol.symm.trans hid
      have hget := load_computes hc hr hsym hstored hget
      rw [type] at hget ⊢
      obtain ⟨t, ht, helem⟩ := element_run hget (lowerExpr_computes hc hr hi rfl hindex) []
      obtain ⟨u, hu, hpop⟩ := (lowerExpr_computes hc hr hvalue hdata hfirst).pop
        (Ty.isVoid_of_isData hdata) t
      refine Frame.run_snoc (Frame.run_append_of ht hu) ?_
      rw [Frame.step, show (Ty.array elem).kind = elem from rfl, hpop, Option.bind_some, helem]
  | literal _ _ => cases hplace
  | unary _ _ _ _ => cases hplace
  | binary _ _ _ _ _ _ _ => cases hplace
  | call _ _ _ _ _ => cases hplace

theorem lowerVars_stands {vars : List Node} {code : List Instr} (h : ∀ n ∈ vars, n.TypedVar r)
    (hcode : lowerVars c vars = .ok code) :
    (Frame.ofReach r).Stands c (vars.flatMap Node.stmts) code := by
  induction vars generalizing code with
  | nil =>
      cases hcode
      exact .of_run rfl
  | cons n rest ih =>
      obtain ⟨hn, hrest⟩ := List.forall_mem_cons.1 h
      unfold Node.TypedVar at hn
      split at hn
      · exact ih hrest hcode
      · next pos id value noted =>
          obtain ⟨first, more, hfirst, hmore, rfl⟩ := lowerVars_assign_ok hcode
          have hitem : lowerStmt c 0 (.assign pos (.ident id) value noted) = .ok (0, first) := by
            rw [lowerStmt, hfirst]
            rfl
          have hstands : (Frame.ofReach r).Stands c [] first :=
            .of_run (lowerAssign_run hc hr hn hfirst)
          exact (hstands.whole hitem).append (ih hrest hmore)
      · exact hn.elim

theorem lowerLoopCond_computes {cond inserted : Expr} {code : List Instr}
    (h : LoopCondTyped r cond inserted) (hcode : lowerLoopCond c cond inserted = .ok code) :
    (Frame.ofReach r).Computes (.base .bool) code := by
  rcases h with ⟨hcond, rfl⟩ | ⟨rfl, hins⟩
  · obtain ⟨-, hcode⟩ := (lowerLoopCond_ok hcode).resolve_right fun h =>
      Bool.eq_false_iff.1 hcond.typed.not_missing h.1
    exact lowerExpr_computes hc hr hcond rfl hcode
  · obtain ⟨-, hcode⟩ := (lowerLoopCond_ok hcode).resolve_left fun h => by cases h.1
    exact lowerExpr_computes hc hr hins rfl hcode

end

theorem call_run {fr : Frame} {result : Ty} {code : List Instr} (h : fr.Computes result code)
    (hresult : result.isResult = true) :
    fr.run [] (code ++ (if !result.isVoid then [Instr.pop] else [])) = some [] := by
  cases hv : result.isVoid with
  | false =>
      obtain ⟨k, -, hrun⟩ := (Frame.computes_iff hv).1 h
      exact Frame.run_snoc (hrun []) rfl
  | true =>
      obtain ⟨t, ht, hrun⟩ := h []
      obtain rfl := Ty.eq_void hresult hv
      cases ht
      simpa using hrun

theorem ret_run {fr : Frame} {code : List Instr} {t : List StackKind}
    (hrun : fr.run [] code = some t) (ht : take fr.result t = some []) :
    fr.run [] (code ++ [Instr.ret]) = some [] := by
  refine Frame.run_snoc hrun ?_
  rw [Frame.step, ht]
  rfl

theorem lowerPart_stands {fr : Frame} {c : Context} {part : Stmt} {n n' : Nat} {code : List Instr}
    (hpart : part ≠ .missing → ∀ {n n' : Nat} {code : List Instr},
      lowerStmt c n part = .ok (n', code) → fr.Stands c part.nested code)
    (h : lowerPart c n part = .ok (n', code)) : fr.Stands c part.nested code := by
  rcases lowerPart_ok h with ⟨rfl, -, rfl⟩ | ⟨hpresent, h⟩
  · exact .of_run rfl
  · exact hpart hpresent h

mutual

/-- Between the statements of a typed statement the stack is empty. -/
theorem lowerStmt_stands {c : Context} {r : Reach} (hc : c.function = r.function)
    (hr : r.Placed) : ∀ {stmt : Stmt} {n n' : Nat} {code : List Instr}, stmt.Typed r →
      lowerStmt c n stmt = .ok (n', code) → (Frame.ofReach r).Stands c stmt.nested code
  | .missing, _, _, _, h, _ => h.elim
  | .call pos func args note, _, _, _, h, hcode => by
      refine .whole (.of_run ?_) hcode
      obtain ⟨-, first, hfirst, rfl⟩ := lowerStmt_call_ok hcode
      have htyped : (Expr.call pos func args note).Typed r := h
      have hraw : lowerRaw c (.call pos func args note) = .ok first := by
        rw [lowerRaw]
        exact hfirst
      cases h with
      | @call _ callee _ result _ _ _ refers type _ _ note_of =>
          obtain ⟨hresult, -, -⟩ := refers.known.signature type
          have hvalue : (Expr.call pos (some callee) args note).IsValue :=
            ⟨result, note_of.type, Ty.isFunc_of_isResult hresult⟩
          rw [note_of.type, Option.any_some]
          exact call_run (lowerRaw_computes hc hr htyped hvalue _ _ note_of.type hraw) hresult
  | .assign _ _ _ _, _, _, _, h, hcode => by
      exact .whole (.of_run (lowerAssign_run hc hr h (lowerStmt_assign_ok hcode).2)) hcode
  | .varDecl _ _ _, _, _, _, h, hcode => by
      exact .whole (lowerVars_stands hc hr h (lowerStmt_varDecl_ok hcode).2) hcode
  | .arrayDecl _ _ _ _, _, _, _, h, hcode => by
      refine .whole (.of_run ?_) hcode
      obtain ⟨id, sym, elem, rfl, hdecl, hty, hsize⟩ := h
      obtain ⟨-, _, _, first, set, hname, hsym, hfirst, hset, rfl⟩ := lowerStmt_arrayDecl_ok hcode
      cases hname
      cases hdecl.symbol.symm.trans hsym
      have hdata := hdecl.isData
      have hstore := store_step hc hr hdata hdecl.stored hset
      rw [hty] at hdata hstore ⊢
      obtain ⟨k, hk⟩ := StackKind.ofTy?_isData hdata
      obtain ⟨t, ht, hpop⟩ := (lowerExpr_computes hc hr hsize rfl hfirst).pop rfl []
      have hnew : (Frame.ofReach r).step t (.newarr elem) = some [k] := by
        rw [Frame.step, hpop, Option.bind_some, StackKind.push_eq hk]
      have hset : (Frame.ofReach r).step [k] set = some [] :=
        (hstore [k]).trans (StackKind.pop_push (StackKind.push_eq hk []))
      exact Frame.run_append_of ht (Frame.run_snoc (Frame.run_singleton.trans hnew) hset)
  | .ifElse _ _ _ _, _, _, _, h, hcode => by
      obtain ⟨hcond, hyes, hno⟩ := h
      refine .whole ?_ hcode
      obtain ⟨_, _, _, _, hcondCode, hyesCode, hnoCode, rfl⟩ := lowerStmt_ifElse_ok hcode
      exact Frame.ifCode_stands (lowerExpr_computes hc hr hcond rfl hcondCode)
        (lowerBlock_stands hc hr hyes hyesCode) (lowerBlock_stands hc hr hno hnoCode)
  | .whileLoop _ _ _, _, _, _, h, hcode => by
      obtain ⟨hcond, hbody⟩ := h
      refine .whole ?_ hcode
      obtain ⟨_, _, hbodyCode, hcondCode, rfl⟩ := lowerStmt_whileLoop_ok hcode
      rw [← List.append_nil (Block.nested _)]
      exact Frame.loopCode_stands (lowerBlock_stands hc hr hbody hbodyCode) (.of_run rfl)
        (lowerExpr_computes hc hr hcond rfl hcondCode)
  | .forLoop _ init _ _ step _, _, _, _, h, hcode => by
      obtain ⟨hinit, hcond, hstep, hbody⟩ := h
      refine .whole ?_ hcode
      obtain ⟨_, first, _, _, last, _, hfirst, hbodyCode, hlast, hcondCode, rfl⟩ :=
        lowerStmt_forLoop_ok hcode
      have hi : (Frame.ofReach r).Stands c init.nested first :=
        lowerPart_stands (fun hhere => lowerStmt_stands hc hr (hinit.resolve_left hhere)) hfirst
      have hs : (Frame.ofReach r).Stands c step.nested last :=
        lowerPart_stands (fun hhere => lowerStmt_stands hc hr (hstep.resolve_left hhere)) hlast
      exact hi.append (Frame.loopCode_stands (lowerBlock_stands hc hr hbody hbodyCode) hs
        (lowerLoopCond_computes hc hr hcond hcondCode))
  | .block _, _, _, _, h, hcode => by
      refine .whole ?_ hcode
      rw [lowerStmt] at hcode
      exact lowerBlock_stands hc hr h hcode
  | .funcDecl _ _ _ _ _ _ _, _, _, _, _, hcode => by
      refine .whole ?_ hcode
      cases hcode
      exact .of_run rfl
  | .ret _ value, _, _, _, h, hcode => by
      refine .whole (.of_run ?_) hcode
      obtain ⟨-, first, rfl, hfirst⟩ := lowerStmt_ret_ok hcode
      obtain ⟨f, hf, ⟨rfl, hvoid⟩ | ⟨hdata, hvalue⟩⟩ := h
      · obtain ⟨-, rfl⟩ := hfirst.resolve_right fun h => by cases h.1
        have hresult : (Frame.ofReach r).result = .base .void := by
          rw [Frame.ofReach_function hf]
          exact Ty.eq_void (hr.function f hf).result hvoid
        exact ret_run rfl (by rw [hresult]; rfl)
      · obtain ⟨-, hfirst⟩ :=
          hfirst.resolve_left fun h => Bool.eq_false_iff.1 hvalue.typed.not_missing h.1
        obtain ⟨t, ht, hrun⟩ := lowerExpr_computes hc hr hvalue hdata hfirst []
        refine ret_run hrun ?_
        rw [Frame.ofReach_function hf]
        exact StackKind.take_give ht

theorem lowerBlock_stands {c : Context} {r : Reach} (hc : c.function = r.function)
    (hr : r.Placed) : ∀ {b : Block} {n n' : Nat} {code : List Instr}, b.Typed r →
      lowerBlock c n b = .ok (n', code) → (Frame.ofReach r).Stands c b.nested code
  | .missing, _, _, _, _, hcode => by
      cases hcode
      exact .of_run rfl
  | .of _ _, _, _, _, h, hcode => by
      rw [lowerBlock] at hcode
      exact lowerStmts_stands hc hr h hcode

theorem lowerStmts_stands {c : Context} {r : Reach} (hc : c.function = r.function)
    (hr : r.Placed) : ∀ {stmts : List Stmt} {n n' : Nat} {code : List Instr},
      Stmt.AllTyped r stmts → lowerStmts c n stmts = .ok (n', code) →
      (Frame.ofReach r).Stands c (Stmt.nestedIn stmts) code
  | [], _, _, _, _, hcode => by
      cases hcode
      exact .of_run rfl
  | _ :: _, _, _, _, h, hcode => by
      obtain ⟨_, _, _, hfirst, hmore, rfl⟩ := lowerStmts_cons_ok hcode
      exact (lowerStmt_stands hc hr h.1 hfirst).append (lowerStmts_stands hc hr h.2 hmore)

end

/-! ## Methods -/

theorem zeroCode_run {fr : Frame} {ty : Ty} (h : ty.isResult = true) :
    ∃ t, fr.run [] (zeroCode ty) = some t ∧ take ty t = some [] := by
  cases ty with
  | base b => cases b <;> first | exact ⟨_, rfl, rfl⟩ | cases h
  | array elem => exact ⟨[.null], rfl, if_pos h⟩
  | func _ _ | absent => cases h

/-- Where a method of an assembly comes from: a function that the program declares, or what the
program does outside of its functions. In both cases it is the code of a block with a return after
it, unless the block ends with one. -/
inductive Method.Lowered (a : Analysis) (fold : Bool) : Method → Context → Block → Prop where
  | function {ds : List FuncDecl} {d : FuncDecl} {f : Function} {n n' : Nat} {code : List Instr}
      (functions : a.program.functions = .ok ds) (declared : d ∈ ds)
      (described : d.described = .ok f)
      (lowered : lowerBlock ⟨fold, some f⟩ n d.body = .ok (n', code)) :
      Lowered a fold
        ⟨.function f, d.body.declared,
          code ++ (if d.body.returns then [] else zeroCode f.result ++ [Instr.ret])⟩
        ⟨fold, some f⟩ d.body
  | initializer {n n' : Nat} {code : List Instr}
      (lowered : lowerBlock ⟨fold, none⟩ n a.program = .ok (n', code)) :
      Lowered a fold ⟨.initializer, [], code ++ [Instr.ret]⟩ ⟨fold, none⟩ a.program

theorem lowerFunctions_lowered {a : Analysis} {fold : Bool} {ds all : List FuncDecl} {n n' : Nat}
    {methods : List Method} (hall : a.program.functions = .ok all) (hds : ∀ d ∈ ds, d ∈ all)
    (h : lowerFunctions fold n ds = .ok (n', methods)) :
    ∀ m ∈ methods, ∃ c b, m.Lowered a fold c b := by
  induction ds generalizing n methods with
  | nil =>
      cases h
      exact fun _ hm => (nomatch hm)
  | cons d rest ih =>
      obtain ⟨hd, hrest⟩ := List.forall_mem_cons.1 hds
      obtain ⟨_, _, more, hmethod, hmore, rfl⟩ := lowerFunctions_cons_ok h
      obtain ⟨f, code, hf, hcode, rfl⟩ := lowerFunction_ok hmethod
      exact List.forall_mem_cons.2 ⟨⟨_, _, .function hall hd hf hcode⟩, ih hrest hmore⟩

theorem Assembly.lowered {a : Analysis} {opts : Options} {asm : Assembly}
    (h : Assembly.ofAnalysis a opts = .ok asm) :
    asm.fields = a.globals ∧ ∀ m ∈ asm.methods, ∃ c b, m.Lowered a opts.fold c b := by
  obtain ⟨ds, n, methods, last, hds, hmethods, rfl, hlast⟩ := Assembly.ofAnalysis_ok h
  have hlowered := lowerFunctions_lowered hds (fun _ hd => hd) hmethods
  refine ⟨rfl, List.forall_mem_append.2 ⟨hlowered, ?_⟩⟩
  rcases hlast with rfl | ⟨m, hm, rfl⟩
  · exact fun m hm => (nomatch hm)
  · obtain ⟨_, code, hcode, rfl⟩ := lowerInitializer_ok hm
    exact List.forall_mem_singleton.2 ⟨_, _, .initializer hcode⟩

theorem Method.Lowered.stands {a : Analysis} {fold : Bool} {m : Method} {c : Context} {b : Block}
    (h : m.Lowered a fold c b) (htyped : a.program.Typed ⟨a.globals, none⟩)
    (hstatic : Symbol.Static a.globals) : (m.frame a.globals).Stands c b.nested m.body := by
  cases h with
  | @function ds d f n n' code functions declared described lowered =>
      obtain ⟨hplaced, hlocals, hbody⟩ := htyped.described functions declared described
      have hr : (⟨a.globals, some f⟩ : Reach).Placed :=
        ⟨hstatic, fun g hg => Option.some.inj hg ▸ hplaced⟩
      have hframe : Method.frame a.globals ⟨.function f, d.body.declared,
          code ++ (if d.body.returns then [] else zeroCode f.result ++ [Instr.ret])⟩ =
          Frame.ofReach ⟨a.globals, some f⟩ := by
        rw [← hlocals]
        rfl
      have hstands := lowerBlock_stands (c := ⟨fold, some f⟩) rfl hr hbody lowered
      have htail : (Frame.ofReach ⟨a.globals, some f⟩).run []
          (if d.body.returns then [] else zeroCode f.result ++ [Instr.ret]) = some [] := by
        split
        · rfl
        · obtain ⟨t, hrun, ht⟩ := zeroCode_run hplaced.result
          exact ret_run hrun ht
      have hwhole := hstands.append (.of_run htail)
      rw [hframe]
      rwa [List.append_nil] at hwhole
  | @initializer n n' code lowered =>
      have hr : (⟨a.globals, none⟩ : Reach).Placed := ⟨hstatic, fun _ hg => (nomatch hg)⟩
      have hstands := lowerBlock_stands (c := ⟨fold, none⟩) rfl hr htyped lowered
      have hret : (Frame.ofReach ⟨a.globals, none⟩).run [] [.ret] = some [] := rfl
      have hwhole := hstands.append (.of_run hret)
      rwa [List.append_nil] at hwhole

end Cil

/-- Every method of an assembly is safe: the machine gets through its code from the first
instruction to the last without ever missing a value on the stack or finding one of a wrong kind,
and the stack is empty wherever control can come from elsewhere. It is also empty before and after
the code of every statement of the block that the method comes from. -/
theorem Analysis.cil_stack_safe {b : Block} {a : Analysis} (ha : Analysis.ofProgram b = .ok a)
    (opts : Options) :
    ∃ asm, Cil.Assembly.ofAnalysis a opts = .ok asm ∧
      ∀ m ∈ asm.methods, m.StackSafe asm.fields ∧
        ∃ c block, m.Lowered a opts.fold c block ∧
          ∀ stmt ∈ block.nested, (m.frame asm.fields).Spans c m.body stmt := by
  obtain ⟨htyped, -, hstatic⟩ := Analysis.ofProgram_checked ha
  obtain ⟨pos, stmts, t, stmts', -, -, rfl⟩ := Analysis.ofProgram_ok ha
  obtain ⟨asm, hasm⟩ := Cil.Assembly.ofAnalysis_succeeds rfl htyped hstatic opts
  obtain ⟨hfields, hlowered⟩ := Cil.Assembly.lowered hasm
  refine ⟨asm, hasm, fun m hm => ?_⟩
  obtain ⟨c, block, hblock⟩ := hlowered m hm
  have hstands := hblock.stands htyped hstatic
  rw [hfields]
  exact ⟨Cil.Method.stackSafe_of_run hstands.balanced, c, block, hblock, hstands.spans⟩

theorem Analysis.cil_stack_safe_unused_result :
    ∃ b a asm m,
      Block.parse "(func float[] f ((int i)) (block (if (== i 2) (block (call f 1)))))" =
        .ok b ∧
      Analysis.ofProgram b = .ok a ∧ Cil.Assembly.ofAnalysis a ⟨true, "program"⟩ = .ok asm ∧
      m ∈ asm.methods ∧ .pop ∈ m.body ∧ m.StackSafe asm.fields := by
  have htext : ((Analysis.ofText?
      "(func float[] f ((int i)) (block (if (== i 2) (block (call f 1)))))").any fun a =>
        (Cil.Assembly.ofAnalysis a ⟨true, "program"⟩).toOption.any fun asm =>
          asm.methods.any fun m => m.body.contains .pop) = true := by
    decide +kernel
  obtain ⟨a, ha, hany⟩ := (Option.any_eq_true _ _).1 htext
  obtain ⟨b, hb, ha⟩ := Analysis.ofText?_eq_some ha
  obtain ⟨asm, hasm, hall⟩ := Analysis.cil_stack_safe ha ⟨true, "program"⟩
  rw [hasm] at hany
  obtain ⟨m, hm, hcode⟩ := List.any_eq_true.1 hany
  exact ⟨b, a, asm, m, hb, ha, hasm, hm, List.contains_iff_mem.1 hcode, (hall m hm).1⟩

end SmallC
