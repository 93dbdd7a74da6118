import SmallC.Proofs.CilStack

/-!
# The height of the stack

A method declares how many values its stack holds at most, and always the same
number, whatever its code is. How many there really are depends on how deep its
expressions are nested on their right sides, and `blockDepth` says it of the tree:
while the right operand of an operator is computed, the left one is waiting below
it, and so are the array below an index and the earlier arguments of a call.

The depth of a tree is exactly the height that the stack reaches, so the declared
size is enough for some methods and not for others, and the depth tells which.
-/

namespace SmallC

namespace Cil

open StackKind (push pop pushAll popAll give take)

/-! ## How high the stack gets -/

namespace Frame

/-- The height of the stack where it is highest, on the way through some code. -/
def peak (fr : Frame) : List StackKind → List Instr → Nat
  | s, [] => s.length
  | s, i :: rest => max s.length ((fr.step s i).elim 0 fun t => fr.peak t rest)

variable {fr : Frame} {s t u : List StackKind} {code more : List Instr} {i : Instr}

theorem length_le_peak : s.length ≤ fr.peak s code := by
  cases code with
  | nil => exact Nat.le_refl _
  | cons i rest => exact Nat.le_max_left _ _

theorem peak_cons (h : fr.step s i = some t) :
    fr.peak s (i :: more) = max s.length (fr.peak t more) := by
  rw [peak, h, Option.elim_some]

theorem peak_append (h : fr.run s code = some t) :
    fr.peak s (code ++ more) = max (fr.peak s code) (fr.peak t more) := by
  induction code generalizing s with
  | nil =>
      cases h
      exact (Nat.max_eq_right length_le_peak).symm
  | cons i rest ih =>
      obtain ⟨v, hv, hrest⟩ := Option.bind_eq_some_iff.1 h
      rw [List.cons_append, peak_cons hv, peak_cons hv, ih hrest, Nat.max_assoc]

theorem length_le_peak_of_run (h : fr.run s code = some t) : t.length ≤ fr.peak s code := by
  have happend : fr.peak s (code ++ []) = max (fr.peak s code) t.length := peak_append h
  rw [List.append_nil] at happend
  omega

/-- An instruction that takes at least as much as it leaves does not raise the stack. -/
theorem peak_snoc (h : fr.run s code = some t) (h' : fr.step t i = some u)
    (hle : u.length ≤ t.length) : fr.peak s (code ++ [i]) = fr.peak s code := by
  have htop := length_le_peak_of_run h
  rw [peak_append h, peak_cons h', peak]
  omega

/-- The height is a bound for what is on the stack at any moment, and the least one. -/
theorem peak_le_iff {n : Nat} :
    fr.peak s code ≤ n ↔
      ∀ pre post t, code = pre ++ post → fr.run s pre = some t → t.length ≤ n := by
  constructor
  · rintro h pre post t rfl ht
    rw [peak_append ht] at h
    have hpost : t.length ≤ fr.peak t post := length_le_peak
    omega
  · intro h
    induction code generalizing s with
    | nil => exact h [] [] s rfl rfl
    | cons i rest ih =>
        have hs : s.length ≤ n := h [] (i :: rest) s rfl rfl
        cases hstep : fr.step s i with
        | none =>
            rw [peak, hstep, Option.elim_none]
            omega
        | some t =>
            have hrest : fr.peak t rest ≤ n := by
              refine ih fun pre post u hcode hu => h (i :: pre) post u (hcode ▸ rfl) ?_
              exact Option.bind_eq_some_iff.2 ⟨t, hstep, hu⟩
            rw [peak_cons hstep]
            omega

end Frame

/-- There are never more than `n` values on the stack of a method. -/
def Method.FitsIn (fields : List Symbol) (n : Nat) (m : Method) : Prop :=
  ∀ pre post s, m.body = pre ++ post → (m.frame fields).run [] pre = some s → s.length ≤ n

/-! ## The depth of a tree -/

/-- A value that is not converted to `bool` takes its place alone. The test against zero puts
another one beside it. -/
def convertDepth (dst : Base) : Nat := if dst = .bool then 2 else 1

/-- The depth of an expression before conversion, where `raw` is its depth without folding. -/
def plainDepth (c : Context) (e : Expr) (raw : Nat) : Nat :=
  if e.isLiteral then raw
  else match c.folded? precision.eval e with
    | some _ => 1
    | none => raw

/-- The depth of an expression as used, where `raw` is its depth without folding and conversion. -/
def usedDepth (c : Context) (e : Expr) (raw : Nat) : Nat :=
  match e.note.conv with
  | none => plainDepth c e raw
  | some conv =>
    match c.folded? precision.evalUsed e with
    | some _ => 1
    | none => max (plainDepth c e raw) (convertDepth conv.dst)

/-- What a call needs by itself, apart from its arguments. To read a character is to read a line and
to take the one at place zero. -/
def resultDepth (func : Option Ident) (result : Option Ty) : Nat :=
  if func.any fun id => id.symbol.any fun sym => sym.builtin && sym.name == "read_char" then 2
  else if result.any (!·.isVoid) then 1
  else 0

mutual

/-- The depth of an expression without folding and conversion. -/
def rawDepth (c : Context) : Expr → Nat
  | .missing => 0
  | .literal _ _ _ _ | .ident _ => 1
  | .convert _ x dst => max (plainDepth c x (rawDepth c x)) (convertDepth dst)
  | .unary _ _ x _ => usedDepth c x (rawDepth c x)
  | .binary _ _ x y _ => max (usedDepth c x (rawDepth c x)) (1 + usedDepth c y (rawDepth c y))
  | .index _ _ i _ => 1 + usedDepth c i (rawDepth c i)
  | .call _ func args note => max (argsDepth c args) (resultDepth func note.type)

/-- The depth of arguments. Each one is computed above those before it. -/
def argsDepth (c : Context) : List Expr → Nat
  | [] => 0
  | e :: rest => max (usedDepth c e (rawDepth c e)) (1 + argsDepth c rest)

end

/-- The depth of an expression: the number of values that its code puts on the stack at once. -/
def exprDepth (c : Context) (e : Expr) : Nat := usedDepth c e (rawDepth c e)

/-- The depth of an assignment. An element is stored with its array and its index below it. -/
def assignDepth (c : Context) (target value : Expr) : Nat :=
  match target with
  | .index _ _ i _ => max (1 + exprDepth c i) (2 + exprDepth c value)
  | _ => exprDepth c value

/-- The depth of the initial values in a declaration. -/
def varsDepth (c : Context) : List Node → Nat
  | [] => 0
  | .stmt (.assign _ target value _) :: rest => max (assignDepth c target value) (varsDepth c rest)
  | _ :: rest => varsDepth c rest

/-- The depth of the condition of a loop. -/
def loopCondDepth (c : Context) (cond inserted : Expr) : Nat :=
  if cond.isMissing then exprDepth c inserted else exprDepth c cond

mutual

/-- The depth of a statement. What it declares as a function is code of its own. -/
def stmtDepth (c : Context) : Stmt → Nat
  | .missing => 0
  | .call _ func args note => max (argsDepth c args) (resultDepth func note.type)
  | .assign _ target value _ => assignDepth c target value
  | .varDecl _ _ vars => varsDepth c vars
  | .arrayDecl _ _ _ size => exprDepth c size
  | .ifElse _ cond yes no => max (exprDepth c cond) (max (blockDepth c yes) (blockDepth c no))
  | .whileLoop _ cond body => max (blockDepth c body) (exprDepth c cond)
  | .forLoop _ init cond inserted step body =>
    max (stmtDepth c init)
      (max (blockDepth c body) (max (stmtDepth c step) (loopCondDepth c cond inserted)))
  | .block b => blockDepth c b
  | .funcDecl _ _ _ _ _ _ _ => 0
  | .ret _ value => if value.isMissing then 0 else exprDepth c value

/-- The depth of a block. -/
def blockDepth (c : Context) : Block → Nat
  | .missing => 0
  | .of _ stmts => stmtsDepth c stmts

/-- The depth of statements, one after the other. -/
def stmtsDepth (c : Context) : List Stmt → Nat
  | [] => 0
  | s :: rest => max (stmtDepth c s) (stmtsDepth c rest)

end

/-! ## Expressions -/

/-- Code that puts `n` values at once on whatever stack it finds. -/
def Frame.Rises (fr : Frame) (n : Nat) (code : List Instr) : Prop :=
  ∀ s, fr.peak s code = s.length + n

namespace StackKind

theorem length_push {ty : Ty} {s t : List StackKind} (h : push ty s = some t) :
    t.length = s.length + 1 := by
  obtain ⟨k, -, rfl⟩ := Option.map_eq_some_iff.1 h
  rfl

theorem length_give {ty : Ty} {s t : List StackKind} (h : give ty s = some t) :
    t.length = s.length + if ty.isVoid then 0 else 1 := by
  unfold give at h
  split at h
  · next hv =>
      cases h
      rw [hv]
      rfl
  · next hv =>
      have hvoid : ty.isVoid = false := by
        cases ty with
        | base b => cases b <;> first | rfl | exact absurd rfl hv
        | array _ | func _ _ => rfl
        | absent => cases h
      rw [length_push h, hvoid]
      rfl

theorem length_pop {ty : Ty} {s t : List StackKind} (h : pop ty s = some t) :
    s.length = t.length + 1 := by
  cases s with
  | nil => cases h
  | cons k s =>
      simp only [pop] at h
      split at h <;> cases h
      rfl

end StackKind

namespace Frame

variable {fr : Frame} {ty : Ty} {code more : List Instr} {i : Instr}

/-- A single instruction that pushes a value. -/
theorem Computes.rises (h : fr.Computes ty [i]) (hty : ty.isVoid = false) : fr.Rises 1 [i] := by
  obtain ⟨k, -, hrun⟩ := (computes_iff hty).1 h
  intro s
  have hstep : fr.step s i = some (k :: s) := run_singleton.symm.trans (hrun s)
  rw [peak_cons hstep, peak, List.length_cons]
  omega

/-- Code goes on above a value that other code has left. -/
theorem Computes.rises_append {m n : Nat} (h : fr.Computes ty code) (hty : ty.isVoid = false)
    (hm : fr.Rises m code) (hn : fr.Rises n more) : fr.Rises (max m (1 + n)) (code ++ more) := by
  obtain ⟨k, -, hrun⟩ := (computes_iff hty).1 h
  intro s
  rw [peak_append (hrun s), hm s, hn (k :: s), List.length_cons]
  omega

end Frame

theorem convertCode?_peak (fr : Frame) {src dst : Base} {code : List Instr} {k : StackKind}
    (h : dst ∈ src.conversions) (hk : StackKind.ofTy? (.base src) = some k)
    (hcode : convertCode? src dst = some code) (s : List StackKind) :
    fr.peak (k :: s) code = s.length + convertDepth dst := by
  cases src <;> simp [Base.conversions] at h <;> rcases h with rfl | rfl | rfl <;>
    cases hcode <;> cases hk <;>
    dsimp [Frame.peak, Frame.step, StackKind.combine, StackKind.convert, StackKind.isNumber,
      convertDepth] <;> omega

theorem binaryCode?_peak (fr : Frame) {op : Op} {x : Ty} {r : Base} {code : List Instr}
    {k : StackKind} (h : op.Accepts x x r) (hk : StackKind.ofTy? x = some k)
    (hcode : binaryCode? op (x = .base .float) = some code) (s : List StackKind) :
    fr.peak (k :: k :: s) code = s.length + 2 := by
  cases x with
  | base x =>
      have hres : op.result? x x = some r := h
      unfold Op.result? at hres
      split at hres <;> cases hres <;> cases hk <;> cases hcode <;>
        dsimp [Frame.peak, Frame.step, StackKind.combine, StackKind.isNumber] <;> omega
  | array x =>
      obtain ⟨-, hop, -⟩ := h
      rcases hop with rfl | rfl <;> cases hcode <;>
        simp only [Frame.peak, Frame.step, StackKind.combine, List.length_cons, and_self, if_true,
          Option.elim_some] <;> omega
  | func _ _ | absent => exact h.elim

theorem builtinCode?_peak (fr : Frame) {func : Ident} {sym : Symbol} {result : Ty}
    {params : List Ty} {code : List Instr} {s t : List StackKind} (h : sym ∈ Symbol.builtins)
    (hsym : func.symbol = some sym) (hty : sym.type = .func result params)
    (hcode : builtinCode? sym.name = some code) (ht : pushAll params s = some t) :
    fr.peak t code = max t.length (s.length + resultDepth (some func) (some result)) := by
  simp only [resultDepth, Option.any_some, hsym]
  simp only [Symbol.builtins, List.mem_cons, List.not_mem_nil, or_false] at h
  rcases h with rfl | rfl | rfl | rfl | rfl | rfl | rfl | rfl | rfl | rfl <;>
    cases hty <;> cases hcode <;> cases ht <;>
    dsimp [Frame.peak, Frame.step, Library.step, push, pop, StackKind.ofTy?, StackKind.fits,
      Symbol.ofBuiltin, Ty.isVoid, Symbol.string, Base.isData] <;> omega

theorem immediate_rises (fr : Frame) (v : Value) : fr.Rises 1 [immediate v] := by
  intro s
  have hstep : ∃ k, fr.step s (immediate v) = some (k :: s) := by
    unfold immediate
    split <;> first | exact ⟨_, rfl⟩ | split <;> exact ⟨_, rfl⟩
  obtain ⟨k, hk⟩ := hstep
  rw [Frame.peak_cons hk, Frame.peak, List.length_cons]
  omega

theorem resultDepth_declared {func : Ident} {sym : Symbol} (hsym : func.symbol = some sym)
    (hb : ¬ sym.builtin = true) (result : Ty) :
    resultDepth (some func) (some result) = if result.isVoid then 0 else 1 := by
  simp only [Bool.not_eq_true] at hb
  cases hv : result.isVoid <;> simp [resultDepth, hsym, hb, hv]

section

variable {c : Context} {r : Reach} {fr : Frame} {e : Expr} {ty : Ty} {n : Nat}
  {raw : Except Fault (List Instr)} {code : List Instr}

theorem plain_rises (hraw : ∀ code, raw = .ok code → fr.Rises n code)
    (h : plain c e raw = .ok code) : fr.Rises (plainDepth c e n) code := by
  unfold plainDepth
  rcases plain_ok h with ⟨hlit | hnone, h⟩ | ⟨hlit, v, hv, rfl⟩
  · rw [if_pos hlit]
    exact hraw code h
  · rw [hnone, ite_self]
    exact hraw code h
  · rw [hlit, hv]
    exact immediate_rises fr v

theorem convertCode_rises {pos : Pos} {dst : Base} {first more : List Instr}
    (hmem : dst ∈ ty.conversions) (hcomputes : fr.Computes ty first) (hfirst : fr.Rises n first)
    (h : convertCode pos (some ty) dst = .ok more) :
    fr.Rises (max n (convertDepth dst)) (first ++ more) := by
  obtain ⟨src, hsrc, hcode⟩ := convertCode_eq_ok h
  cases hsrc
  obtain ⟨hsrc, -⟩ := Base.isData_of_mem_conversions hmem
  have hvoid : (Ty.base src).isVoid = false := Ty.isVoid_of_isData hsrc
  obtain ⟨k, hk, hrun⟩ := (Frame.computes_iff hvoid).1 hcomputes
  intro s
  rw [Frame.peak_append (hrun s), hfirst s, convertCode?_peak fr hmem hk hcode s]
  omega

theorem used_rises (he : e.Typed r)
    (hcomputes : ∀ ty code, e.note.type = some ty → raw = .ok code → fr.Computes ty code)
    (hraw : ∀ code, raw = .ok code → fr.Rises n code) (h : used c e raw = .ok code) :
    fr.Rises (usedDepth c e n) code := by
  obtain ⟨ty, hof⟩ := he.note_of
  rcases used_ok h with ⟨hconv, h⟩ | ⟨conv, v, hconv, hv, rfl⟩ |
    ⟨conv, first, more, hconv, hnone, hfirst, hmore, rfl⟩
  · simp only [usedDepth, hconv]
    exact plain_rises hraw h
  · simp only [usedDepth, hconv, hv]
    exact immediate_rises fr v
  · rw [hof.type] at hmore
    simp only [usedDepth, hconv, hnone]
    exact convertCode_rises (hof.conv conv hconv).2
      (plain_computes he hof.type (fun code => hcomputes ty code hof.type) hfirst)
      (plain_rises hraw hfirst) hmore

theorem callCode_rises {func : Ident} {sym : Symbol} {result : Ty} {params : List Ty}
    {args : Except Fault (List Instr)} {pos : Pos} (hrefers : func.Refers r sym)
    (hty : sym.type = .func result params)
    (hpasses : ∀ code, args = .ok code → fr.Passes params code)
    (hargs : ∀ code, args = .ok code → fr.Rises n code)
    (h : callCode pos (some func) args = .ok code) :
    fr.Rises (max n (resultDepth (some func) (some result))) code := by
  obtain ⟨hresult, -, hbuiltin⟩ := hrefers.known.signature hty
  obtain ⟨_, _, _, _, first, more, hfunc, hsym, htype, hfirst, rfl, hmore⟩ := callCode_ok h
  cases hfunc
  cases hrefers.symbol.symm.trans hsym
  cases hty.symm.trans htype
  intro s
  obtain ⟨t, ht, hrun⟩ := hpasses first hfirst s
  have htop := Frame.length_le_peak_of_run hrun
  rw [hargs first hfirst s] at htop
  rw [Frame.peak_append hrun, hargs first hfirst s]
  rcases hmore with ⟨hb, hown⟩ | ⟨hb, rfl⟩
  · rw [builtinCode?_peak fr (hbuiltin hb) hrefers.symbol hty hown ht]
    omega
  · obtain ⟨u, hu⟩ := StackKind.give_isResult hresult s
    have hstep : fr.step t (.call result sym.name params) = some u := by
      rw [Frame.step, StackKind.popAll_pushAll ht, Option.bind_some, hu]
    rw [Frame.peak_cons hstep, Frame.peak, StackKind.length_give hu,
      resultDepth_declared hrefers.symbol (Bool.eq_false_iff.1 hb)]
    omega

theorem lowerArgs_rises {args : List Expr} {params : List Ty}
    (hused : args.map Expr.usedType = params.map some)
    (hparams : ∀ p ∈ params, p.isData = true)
    (hcomputes : ∀ e ∈ args, ∀ ty code, e.usedType = some ty → lowerExpr c e = .ok code →
      fr.Computes ty code)
    (hargs : ∀ e ∈ args, ∀ code, lowerExpr c e = .ok code → fr.Rises (exprDepth c e) code)
    (h : lowerArgs c args = .ok code) : fr.Rises (argsDepth c args) code := by
  induction args generalizing params code with
  | nil =>
      cases h
      exact fun _ => rfl
  | cons e args ih =>
      cases params with
      | nil => cases hused
      | cons p rest =>
          obtain ⟨he, hrest⟩ := List.cons.inj hused
          obtain ⟨hp, hparams⟩ := List.forall_mem_cons.1 hparams
          obtain ⟨hcomputes, hmoreComputes⟩ := List.forall_mem_cons.1 hcomputes
          obtain ⟨hargs, hmoreArgs⟩ := List.forall_mem_cons.1 hargs
          obtain ⟨first, more, hfirst, hmore, rfl⟩ := lowerArgs_cons_ok h
          exact (hcomputes p first he hfirst).rises_append (Ty.isVoid_of_isData hp)
            (hargs first hfirst) (ih hrest hparams hmoreComputes hmoreArgs hmore)

theorem element_length {elem : Base} {s t : List StackKind}
    (h : (pop (.base .int) t).bind (pop (.array elem)) = some s) : t.length = s.length + 2 := by
  obtain ⟨u, hu, hs⟩ := Option.bind_eq_some_iff.1 h
  rw [StackKind.length_pop hu, StackKind.length_pop hs]

/-- An index is computed above its array. -/
theorem element_rises {elem : Base} {get : Instr} {index : List Instr}
    (hget : fr.Computes (.array elem) [get]) (hindex : fr.Rises n index) :
    fr.Rises (1 + n) (get :: index) := by
  intro s
  have h : fr.peak s (get :: index) = s.length + max 1 (1 + n) :=
    hget.rises_append rfl (hget.rises rfl) hindex s
  rw [h]
  omega

theorem lowerExpr_leaves (hc : c.function = r.function) (hr : r.Placed) (h : e.Typed r)
    (hv : e.IsValue) (hused : e.usedType = some ty) (hcode : lowerExpr c e = .ok code) :
    (Frame.ofReach r).Computes ty code :=
  used_computes h hused (lowerRaw_computes hc hr h hv) hcode

theorem isValue_of_call {pos : Pos} {func : Option Ident} {args : List Expr} {note : Note}
    (h : (Expr.call pos func args note).Typed r) : (Expr.call pos func args note).IsValue := by
  cases h with
  | call refers type _ _ note_of =>
      obtain ⟨hresult, -, -⟩ := refers.known.signature type
      exact ⟨_, note_of.type, Ty.isFunc_of_isResult hresult⟩

/-- The code of a typed expression raises the stack by the depth of the expression. -/
theorem lowerRaw_rises (hc : c.function = r.function) (hr : r.Placed) (h : e.Typed r) :
    e.IsValue → ∀ code, lowerRaw c e = .ok code → (Frame.ofReach r).Rises (rawDepth c e) code := by
  have hused : ∀ {x : Expr} {code : List Instr}, x.Typed r → x.IsValue →
      (x.IsValue → ∀ code, lowerRaw c x = .ok code →
        (Frame.ofReach r).Rises (rawDepth c x) code) →
      lowerExpr c x = .ok code → (Frame.ofReach r).Rises (exprDepth c x) code :=
    fun hx hv ih hcode => used_rises hx (lowerRaw_computes hc hr hx hv) (ih hv) hcode
  induction h with
  | literal decoded note_of =>
      intro _ code hcode
      cases hcode
      exact immediate_rises _ _
  | @ident id sym refers =>
      intro hv code hcode
      obtain ⟨ty, hty, hfunc⟩ := hv
      cases refers.note.type.symm.trans hty
      obtain ⟨hdata, hstored⟩ := refers.known.stored hfunc
      obtain ⟨_, i, hsym, hi, rfl⟩ := lowerRaw_ident_ok hcode
      cases refers.symbol.symm.trans hsym
      exact (load_computes hc hr hdata hstored hi).rises (Ty.isVoid_of_isData hdata)
  | @unary _ op x _ xType operand husedType numeric note_of ih =>
      intro _ code hcode
      have hkind : xType.isFunc = false ∧ xType.isVoid = false := by
        rcases numeric with rfl | ⟨rfl, -⟩ <;> exact ⟨rfl, rfl⟩
      have hvalue := operand.isValue husedType hkind.1
      obtain ⟨first, hfirst, rfl⟩ := lowerRaw_unary_ok hcode
      have hx := hused operand hvalue ih hfirst
      split
      · obtain ⟨k, hk, hrun⟩ := (Frame.computes_iff hkind.2).1
          (lowerExpr_leaves hc hr operand hvalue husedType hfirst)
        have hnumber : k.isNumber = true := by
          rcases numeric with rfl | ⟨rfl, -⟩ <;> cases hk <;> rfl
        intro s
        have hneg : (Frame.ofReach r).step (k :: s) .neg = some (k :: s) := if_pos hnumber
        rw [Frame.peak_snoc (hrun s) hneg (Nat.le_refl _)]
        exact hx s
      · rwa [List.append_nil]
  | @binary _ op x y _ xType yType result left right usedLeft usedRight accepts _ note_of ihx ihy =>
      intro _ code hcode
      have hleft := left.isValue usedLeft accepts.isData.1
      have hright := right.isValue usedRight accepts.isData.2
      obtain ⟨first, second, _, more, hfirst, hsecond, htype, hmore, rfl⟩ :=
        lowerRaw_binary_ok hcode
      cases (Expr.typeOf_ok usedLeft).symm.trans htype
      cases accepts.same
      have hx := lowerExpr_leaves hc hr left hleft usedLeft hfirst
      have hy := lowerExpr_leaves hc hr right hright usedRight hsecond
      have hboth := hx.rises_append accepts.isVoid (hused left hleft ihx hfirst)
        (hused right hright ihy hsecond)
      obtain ⟨k, hk, hx⟩ := (Frame.computes_iff accepts.isVoid).1 hx
      obtain ⟨k', hk', hy⟩ := (Frame.computes_iff accepts.isVoid).1 hy
      cases hk.symm.trans hk'
      intro s
      have hrun := Frame.run_append_of (hx s) (hy (k :: s))
      have htop := Frame.length_le_peak_of_run hrun
      rw [hboth s, List.length_cons, List.length_cons] at htop
      rw [Frame.peak_append hrun, hboth s, binaryCode?_peak _ accepts hk hmore s, rawDepth]
      exact Nat.max_eq_left htop
  | @index _ array sym elem i _ refers type operand husedType note_of ih =>
      intro _ code hcode
      obtain ⟨hdata, hstored⟩ := refers.known.element type
      have hvalue := operand.isValue husedType rfl
      obtain ⟨_, _, get, index, harray, hsym, hget, hindex, rfl⟩ := lowerRaw_index_ok hcode
      cases harray
      cases refers.symbol.symm.trans hsym
      have hget := load_computes hc hr hdata hstored hget
      rw [type] at hget hdata ⊢
      have hleaves := lowerExpr_leaves hc hr operand hvalue husedType hindex
      have helem : (Ty.base elem).isData = true := hdata
      obtain ⟨k, hk⟩ := StackKind.ofTy?_isData helem
      intro s
      obtain ⟨t, ht, hpop⟩ := element_run hget hleaves s
      have hload : (Frame.ofReach r).step t (.ldelem elem) = some (k :: s) := by
        rw [Frame.step, hpop, Option.bind_some, StackKind.push_eq hk]
      have hlength := element_length hpop
      rw [show (Ty.array elem).kind = elem from rfl,
        Frame.peak_snoc ht hload (by rw [List.length_cons]; omega)]
      exact element_rises hget (hused operand hvalue ih hindex) s
  | @call _ func sym result params args _ refers type operands husedType note_of ih =>
      intro _ code hcode
      obtain ⟨-, hparams, -⟩ := refers.known.signature type
      have hvalue := fun e he => Expr.isValue_of_argument husedType hparams he (operands e he)
      have hleaves : ∀ e ∈ args, ∀ ty code, e.usedType = some ty → lowerExpr c e = .ok code →
          (Frame.ofReach r).Computes ty code :=
        fun e he _ _ => lowerExpr_leaves hc hr (operands e he) (hvalue e he)
      rw [lowerRaw] at hcode
      rw [rawDepth, note_of.type]
      refine callCode_rises refers type (fun first hfirst => ?_) (fun first hfirst => ?_) hcode
      · exact lowerArgs_passes husedType hparams hleaves hfirst
      · refine lowerArgs_rises husedType hparams hleaves (fun e he code hcode => ?_) hfirst
        exact hused (operands e he) (hvalue e he) (ih e he) hcode

theorem lowerExpr_rises (hc : c.function = r.function) (hr : r.Placed) (h : e.UsedAs r ty)
    (hty : ty.isData = true) (hcode : lowerExpr c e = .ok code) :
    (Frame.ofReach r).Rises (exprDepth c e) code := by
  have hvalue := h.isValue hty
  exact used_rises h.typed (lowerRaw_computes hc hr h.typed hvalue)
    (lowerRaw_rises hc hr h.typed hvalue) hcode

end

/-! ## Statements -/

/-- Code that starts and ends with an empty stack, with `n` values on it where it is highest. -/
structure Frame.Reaches (fr : Frame) (n : Nat) (code : List Instr) : Prop where
  balanced : fr.run [] code = some []
  peak : fr.peak [] code = n

namespace Frame

variable {fr : Frame} {m n : Nat} {code more : List Instr} {i : Instr}

theorem Reaches.append (h : fr.Reaches m code) (h' : fr.Reaches n more) :
    fr.Reaches (max m n) (code ++ more) :=
  ⟨run_append_of h.balanced h'.balanced, by rw [peak_append h.balanced, h.peak, h'.peak]⟩

/-- A new array takes the place of its size. -/
theorem Rises.newarr {elem : Base} (h : fr.Rises n code) (hsize : fr.Computes (.base .int) code)
    (hdata : (Ty.array elem).isData = true) : fr.Rises n (code ++ [Instr.newarr elem]) := by
  obtain ⟨k, hk⟩ := StackKind.ofTy?_isData hdata
  intro s
  obtain ⟨t, ht, hpop⟩ := hsize.pop rfl s
  have hnew : fr.step t (.newarr elem) = some (k :: s) := by
    rw [step, hpop, Option.bind_some, StackKind.push_eq hk]
  rw [peak_snoc ht hnew (Nat.le_of_eq (StackKind.length_pop hpop).symm), h s]

/-- An instruction takes all that code has left. -/
theorem Rises.reaches (h : fr.Rises n code) (hrun : fr.run [] (code ++ [i]) = some []) :
    fr.Reaches n (code ++ [i]) := by
  obtain ⟨t, u, ht, hu, hnil⟩ := exists_of_run hrun
  cases hnil
  refine ⟨hrun, ?_⟩
  rw [peak_snoc ht hu (Nat.zero_le _), h [], List.length_nil, Nat.zero_add]

theorem ifCode_reaches {k l : Nat} {cond yes no : List Instr}
    (hcomputes : fr.Computes (.base .bool) cond) (hcond : fr.Rises k cond)
    (hyes : fr.Reaches m yes) (hno : fr.Reaches n no) :
    fr.Reaches (max k (max m n)) (ifCode l cond yes no) := by
  have htest := hcond.reaches (hcomputes.branch (i := .brfalse (.ifFalse l)) fun _ => rfl)
  have hmiddle : fr.Reaches 0 [.br (.ifEnd l), .label (.ifFalse l), .nop] := ⟨rfl, rfl⟩
  have hend : fr.Reaches 0 [.label (.ifEnd l), .nop] := ⟨rfl, rfl⟩
  have h := (((htest.append hyes).append hmiddle).append hno).append hend
  rw [show max (max (max (max k m) 0) n) 0 = max k (max m n) by omega] at h
  exact h

theorem loopCode_reaches {k l : Nat} {body step cond : List Instr} (hbody : fr.Reaches k body)
    (hstep : fr.Reaches m step) (hcomputes : fr.Computes (.base .bool) cond)
    (hcond : fr.Rises n cond) : fr.Reaches (max k (max m n)) (loopCode l body step cond) := by
  have hstart : fr.Reaches 0 [.br (.loopCtrl l), .label (.loopBody l), .nop] := ⟨rfl, rfl⟩
  have hctrl : fr.Reaches 0 [.label (.loopCtrl l), .nop] := ⟨rfl, rfl⟩
  have htest := hcond.reaches (hcomputes.branch (i := .brtrue (.loopBody l)) fun _ => rfl)
  have h := (((hstart.append hbody).append hstep).append hctrl).append htest
  rw [show max (max (max (max 0 k) m) 0) n = max k (max m n) by omega] at h
  simpa only [loopCode, List.append_assoc] using h

end Frame

section

variable {c : Context} {r : Reach} (hc : c.function = r.function) (hr : r.Placed)

include hc hr

theorem lowerAssign_reaches {target value : Expr} {noted : Option Ty} {pos : Pos}
    {code : List Instr} (h : AssignTyped r target value noted)
    (hcode : lowerAssign c pos target value = .ok code) :
    (Frame.ofReach r).Reaches (assignDepth c target value) code := by
  have hrun := lowerAssign_run hc hr h hcode
  obtain ⟨hplace, hkept, ty, hdata, htarget, hvalue, -⟩ := h
  have hused : target.note.type = some ty := (Note.usedType_of_kept hkept).symm.trans htarget.used
  cases htarget.typed with
  | @ident id sym refers =>
      obtain ⟨first, _, _, hfirst, -, -, rfl⟩ := lowerAssign_ident_ok hcode
      exact (lowerExpr_rises hc hr hvalue hdata hfirst).reaches hrun
  | @index _ array sym elem i _ refers type operand husedType note_of =>
      cases note_of.type.symm.trans hused
      obtain ⟨hsym, hstored⟩ := refers.known.element type
      have hi : i.UsedAs r (.base .int) := ⟨operand, husedType⟩
      obtain ⟨_, _, get, index, first, harray, hid, hget, hindex, hfirst, rfl⟩ :=
        lowerAssign_index_ok hcode
      cases harray
      cases refers.symbol.symm.trans hid
      have hget := load_computes hc hr hsym hstored hget
      rw [type] at hget
      obtain ⟨t, ht, helem⟩ := element_run hget (lowerExpr_computes hc hr hi rfl hindex) []
      refine ⟨hrun, ?_⟩
      obtain ⟨u, v, hu, hv, hnil⟩ := Frame.exists_of_run hrun
      cases hnil
      rw [Frame.peak_snoc hu hv (Nat.zero_le _), Frame.peak_append ht,
        element_rises hget (lowerExpr_rises hc hr hi rfl hindex) [],
        lowerExpr_rises hc hr hvalue hdata hfirst t, element_length helem]
      simp only [assignDepth, List.length_nil, Nat.zero_add]
  | literal _ _ => cases hplace
  | unary _ _ _ _ => cases hplace
  | binary _ _ _ _ _ _ _ => cases hplace
  | call _ _ _ _ _ => cases hplace

theorem lowerVars_reaches {vars : List Node} {code : List Instr} (h : ∀ n ∈ vars, n.TypedVar r)
    (hcode : lowerVars c vars = .ok code) :
    (Frame.ofReach r).Reaches (varsDepth c vars) code := by
  induction vars generalizing code with
  | nil =>
      cases hcode
      exact ⟨rfl, rfl⟩
  | cons n rest ih =>
      obtain ⟨hn, hrest⟩ := List.forall_mem_cons.1 h
      unfold Node.TypedVar at hn
      split at hn
      · exact ih hrest hcode
      · obtain ⟨first, more, hfirst, hmore, rfl⟩ := lowerVars_assign_ok hcode
        exact (lowerAssign_reaches hc hr hn hfirst).append (ih hrest hmore)
      · exact hn.elim

theorem lowerLoopCond_rises {cond inserted : Expr} {code : List Instr}
    (h : LoopCondTyped r cond inserted) (hcode : lowerLoopCond c cond inserted = .ok code) :
    (Frame.ofReach r).Rises (loopCondDepth c cond inserted) code := by
  unfold loopCondDepth
  rcases h with ⟨hcond, rfl⟩ | ⟨rfl, hins⟩
  · obtain ⟨hpresent, hcode⟩ := (lowerLoopCond_ok hcode).resolve_right fun h =>
      Bool.eq_false_iff.1 hcond.typed.not_missing h.1
    rw [hpresent]
    exact lowerExpr_rises hc hr hcond rfl hcode
  · obtain ⟨-, hcode⟩ := (lowerLoopCond_ok hcode).resolve_left fun h => by cases h.1
    exact lowerExpr_rises hc hr hins rfl hcode

end

theorem lowerPart_reaches {fr : Frame} {c : Context} {part : Stmt} {n n' : Nat} {code : List Instr}
    (hpart : part ≠ .missing → ∀ {n n' : Nat} {code : List Instr},
      lowerStmt c n part = .ok (n', code) → fr.Reaches (stmtDepth c part) code)
    (h : lowerPart c n part = .ok (n', code)) : fr.Reaches (stmtDepth c part) code := by
  rcases lowerPart_ok h with ⟨rfl, -, rfl⟩ | ⟨hpresent, h⟩
  · exact ⟨rfl, rfl⟩
  · exact hpart hpresent h

mutual

/-- The code of a typed statement raises an empty stack to the depth of the statement. -/
theorem lowerStmt_reaches {c : Context} {r : Reach} (hc : c.function = r.function)
    (hr : r.Placed) : ∀ {stmt : Stmt} {n n' : Nat} {code : List Instr}, stmt.Typed r →
      lowerStmt c n stmt = .ok (n', code) → (Frame.ofReach r).Reaches (stmtDepth c stmt) code
  | .missing, _, _, _, h, _ => h.elim
  | .call pos func args note, _, _, _, h, hcode => by
      have hrun := (lowerStmt_stands hc hr h hcode).balanced
      have htyped : (Expr.call pos func args note).Typed r := h
      obtain ⟨-, first, hfirst, rfl⟩ := lowerStmt_call_ok hcode
      have hraw : lowerRaw c (.call pos func args note) = .ok first := by
        rw [lowerRaw]
        exact hfirst
      have hrises := lowerRaw_rises hc hr htyped (isValue_of_call htyped) first hraw
      split at hrun
      · next hpop =>
          rw [if_pos hpop]
          exact hrises.reaches hrun
      · next hnone =>
          rw [if_neg hnone, List.append_nil]
          rw [List.append_nil] at hrun
          exact ⟨hrun, (hrises []).trans (Nat.zero_add _)⟩
  | .assign _ _ _ _, _, _, _, h, hcode => lowerAssign_reaches hc hr h (lowerStmt_assign_ok hcode).2
  | .varDecl _ _ _, _, _, _, h, hcode => lowerVars_reaches hc hr h (lowerStmt_varDecl_ok hcode).2
  | .arrayDecl _ _ _ _, _, _, _, h, hcode => by
      have hrun := (lowerStmt_stands hc hr h hcode).balanced
      obtain ⟨id, sym, elem, rfl, hdecl, hty, hsize⟩ := h
      obtain ⟨-, _, _, first, set, hname, hsym, hfirst, -, rfl⟩ := lowerStmt_arrayDecl_ok hcode
      cases hname
      cases hdecl.symbol.symm.trans hsym
      rw [List.append_cons] at hrun ⊢
      have hdata := hdecl.isData
      rw [hty] at hdata
      rw [show sym.type.kind = elem by rw [hty]; rfl] at hrun ⊢
      exact ((lowerExpr_rises hc hr hsize rfl hfirst).newarr
        (lowerExpr_computes hc hr hsize rfl hfirst) hdata).reaches hrun
  | .ifElse _ _ _ _, _, _, _, h, hcode => by
      obtain ⟨hcond, hyes, hno⟩ := h
      obtain ⟨_, _, _, _, hcondCode, hyesCode, hnoCode, rfl⟩ := lowerStmt_ifElse_ok hcode
      exact Frame.ifCode_reaches (lowerExpr_computes hc hr hcond rfl hcondCode)
        (lowerExpr_rises hc hr hcond rfl hcondCode) (lowerBlock_reaches hc hr hyes hyesCode)
        (lowerBlock_reaches hc hr hno hnoCode)
  | .whileLoop _ _ _, _, _, _, h, hcode => by
      obtain ⟨hcond, hbody⟩ := h
      obtain ⟨_, _, hbodyCode, hcondCode, rfl⟩ := lowerStmt_whileLoop_ok hcode
      have hnone : (Frame.ofReach r).Reaches 0 [] := ⟨rfl, rfl⟩
      rw [stmtDepth, ← Nat.zero_max (exprDepth c _)]
      exact Frame.loopCode_reaches (lowerBlock_reaches hc hr hbody hbodyCode) hnone
        (lowerExpr_computes hc hr hcond rfl hcondCode)
        (lowerExpr_rises hc hr hcond rfl hcondCode)
  | .forLoop _ init _ _ step _, _, _, _, h, hcode => by
      obtain ⟨hinit, hcond, hstep, hbody⟩ := h
      obtain ⟨_, first, _, _, last, _, hfirst, hbodyCode, hlast, hcondCode, rfl⟩ :=
        lowerStmt_forLoop_ok hcode
      have hi : (Frame.ofReach r).Reaches (stmtDepth c init) first :=
        lowerPart_reaches (fun hhere => lowerStmt_reaches hc hr (hinit.resolve_left hhere)) hfirst
      have hs : (Frame.ofReach r).Reaches (stmtDepth c step) last :=
        lowerPart_reaches (fun hhere => lowerStmt_reaches hc hr (hstep.resolve_left hhere)) hlast
      exact hi.append (Frame.loopCode_reaches (lowerBlock_reaches hc hr hbody hbodyCode) hs
        (lowerLoopCond_computes hc hr hcond hcondCode) (lowerLoopCond_rises hc hr hcond hcondCode))
  | .block _, _, _, _, h, hcode => by
      rw [lowerStmt] at hcode
      exact lowerBlock_reaches hc hr h hcode
  | .funcDecl _ _ _ _ _ _ _, _, _, _, _, hcode => by
      cases hcode
      exact ⟨rfl, rfl⟩
  | .ret _ value, _, _, _, h, hcode => by
      have hrun := (lowerStmt_stands hc hr h hcode).balanced
      obtain ⟨-, first, rfl, hfirst⟩ := lowerStmt_ret_ok hcode
      obtain ⟨f, hf, ⟨rfl, hvoid⟩ | ⟨hdata, hvalue⟩⟩ := h
      · obtain ⟨-, rfl⟩ := hfirst.resolve_right fun h => by cases h.1
        have hnone : (Frame.ofReach r).Rises 0 [] := fun _ => rfl
        exact hnone.reaches hrun
      · obtain ⟨hpresent, hfirst⟩ :=
          hfirst.resolve_left fun h => Bool.eq_false_iff.1 hvalue.typed.not_missing h.1
        rw [stmtDepth, hpresent]
        exact (lowerExpr_rises hc hr hvalue hdata hfirst).reaches hrun

theorem lowerBlock_reaches {c : Context} {r : Reach} (hc : c.function = r.function)
    (hr : r.Placed) : ∀ {b : Block} {n n' : Nat} {code : List Instr}, b.Typed r →
      lowerBlock c n b = .ok (n', code) → (Frame.ofReach r).Reaches (blockDepth c b) code
  | .missing, _, _, _, _, hcode => by
      cases hcode
      exact ⟨rfl, rfl⟩
  | .of _ _, _, _, _, h, hcode => by
      rw [lowerBlock] at hcode
      exact lowerStmts_reaches hc hr h hcode

theorem lowerStmts_reaches {c : Context} {r : Reach} (hc : c.function = r.function)
    (hr : r.Placed) : ∀ {stmts : List Stmt} {n n' : Nat} {code : List Instr},
      Stmt.AllTyped r stmts → lowerStmts c n stmts = .ok (n', code) →
      (Frame.ofReach r).Reaches (stmtsDepth c stmts) code
  | [], _, _, _, _, hcode => by
      cases hcode
      exact ⟨rfl, rfl⟩
  | _ :: _, _, _, _, h, hcode => by
      obtain ⟨_, _, _, hfirst, hmore, rfl⟩ := lowerStmts_cons_ok hcode
      exact (lowerStmt_reaches hc hr h.1 hfirst).append (lowerStmts_reaches hc hr h.2 hmore)

end

/-! ## Methods -/

theorem Method.fitsIn_iff {fields : List Symbol} {m : Method} {n : Nat} :
    m.FitsIn fields n ↔ (m.frame fields).peak [] m.body ≤ n :=
  Frame.peak_le_iff.symm

/-- What a method does at the end of its body takes a single value. -/
theorem zeroCode_peak (fr : Frame) {ty : Ty} (hty : ty.isResult = true) (hresult : fr.result = ty) :
    fr.peak [] (zeroCode ty ++ [Instr.ret]) ≤ 1 := by
  obtain ⟨t, ht, htake⟩ : ∃ t, fr.run [] (zeroCode ty) = some t ∧ take ty t = some [] :=
    zeroCode_run hty
  have hret : fr.step t .ret = some [] := by
    rw [Frame.step, hresult, htake]
    rfl
  rw [Frame.peak_snoc ht hret (Nat.zero_le _)]
  unfold zeroCode
  split <;> simp [Frame.peak, Frame.step]

/-- A method has room on its stack exactly if its block is not too deep. -/
theorem Method.Lowered.fitsIn_iff {a : Analysis} {fold : Bool} {m : Method} {c : Context}
    {b : Block} {n : Nat} (h : m.Lowered a fold c b) (htyped : a.program.Typed ⟨a.globals, none⟩)
    (hstatic : Symbol.Static a.globals) (hn : 0 < n) :
    m.FitsIn a.globals n ↔ blockDepth c b ≤ n := by
  rw [Method.fitsIn_iff]
  cases h with
  | @function ds d f _ _ code functions declared described lowered =>
      obtain ⟨hplaced, hlocals, hbody⟩ := htyped.described functions declared described
      have hr : (⟨a.globals, some f⟩ : Reach).Placed :=
        ⟨hstatic, fun g hg => Option.some.inj hg ▸ hplaced⟩
      have hframe : ∀ code, Method.frame a.globals ⟨.function f, d.body.declared, code⟩ =
          Frame.ofReach ⟨a.globals, some f⟩ := by
        intro code
        rw [← hlocals]
        rfl
      have hreaches := lowerBlock_reaches (c := ⟨fold, some f⟩) rfl hr hbody lowered
      have htail : (Frame.ofReach ⟨a.globals, some f⟩).peak []
          (if d.body.returns then [] else zeroCode f.result ++ [Instr.ret]) ≤ 1 := by
        split
        · exact Nat.zero_le _
        · exact zeroCode_peak _ hplaced.result rfl
      rw [hframe, Frame.peak_append hreaches.balanced, hreaches.peak]
      omega
  | initializer lowered =>
      have hr : (⟨a.globals, none⟩ : Reach).Placed := ⟨hstatic, fun _ hg => (nomatch hg)⟩
      have hreaches := lowerBlock_reaches (c := ⟨fold, none⟩) rfl hr htyped lowered
      have hret : (Frame.ofReach ⟨a.globals, none⟩).Reaches 0 [.ret] := ⟨rfl, rfl⟩
      have hwhole := (hreaches.append hret).peak
      rw [Nat.max_zero] at hwhole
      rw [show Method.frame a.globals _ = Frame.ofReach ⟨a.globals, none⟩ from rfl, hwhole]

end Cil

/-- The stack size that every method declares is enough for exactly those methods whose block is no
deeper than that. -/
theorem Analysis.cil_maxstack_suffices_iff {b : Block} {a : Analysis}
    (ha : Analysis.ofProgram b = .ok a) (opts : Options) :
    ∃ asm, Cil.Assembly.ofAnalysis a opts = .ok asm ∧
      ∀ m ∈ asm.methods, ".maxstack 8" ∈ m.directives ∧
        ∃ c block, m.Lowered a opts.fold c block ∧
          (m.FitsIn asm.fields 8 ↔ Cil.blockDepth c block ≤ 8) := by
  obtain ⟨htyped, -, hstatic⟩ := Analysis.ofProgram_checked ha
  obtain ⟨pos, stmts, t, stmts', -, -, rfl⟩ := Analysis.ofProgram_ok ha
  obtain ⟨asm, hasm⟩ := Cil.Assembly.ofAnalysis_succeeds rfl htyped hstatic opts
  obtain ⟨hfields, hlowered⟩ := Cil.Assembly.lowered hasm
  refine ⟨asm, hasm, fun m hm => ⟨?_, ?_⟩⟩
  · exact List.mem_append_left _ (List.mem_append_right _ List.mem_cons_self)
  · obtain ⟨c, block, hblock⟩ := hlowered m hm
    refine ⟨c, block, hblock, ?_⟩
    rw [hfields]
    exact hblock.fitsIn_iff htyped hstatic (by decide)

theorem Analysis.cil_maxstack_suffices_iff_eight_operands :
    ∃ b a asm m c block,
      Block.parse
        "(func int f ((int a)) (block (return (+ a (+ a (+ a (+ a (+ a (+ a (+ a a))))))))))" =
        .ok b ∧
      Analysis.ofProgram b = .ok a ∧ Cil.Assembly.ofAnalysis a ⟨true, "program"⟩ = .ok asm ∧
      m ∈ asm.methods ∧ m.Lowered a true c block ∧ m.FitsIn asm.fields 8 ∧
      ¬ m.FitsIn asm.fields 7 ∧ Cil.blockDepth c block ≤ 8 := by
  have htext : ((Analysis.ofText?
      "(func int f ((int a)) (block (return (+ a (+ a (+ a (+ a (+ a (+ a (+ a a))))))))))").any
        fun a => (Cil.Assembly.ofAnalysis a ⟨true, "program"⟩).toOption.any fun asm =>
          asm.methods.any fun m => (m.frame asm.fields).peak [] m.body == 8) = true := by
    decide +kernel
  obtain ⟨a, ha, hany⟩ := (Option.any_eq_true _ _).1 htext
  obtain ⟨b, hb, ha⟩ := Analysis.ofText?_eq_some ha
  obtain ⟨asm, hasm, hall⟩ := Analysis.cil_maxstack_suffices_iff ha ⟨true, "program"⟩
  rw [hasm] at hany
  obtain ⟨m, hm, hpeak⟩ := List.any_eq_true.1 hany
  have hpeak := beq_iff_eq.1 hpeak
  obtain ⟨-, c, block, hblock, hiff⟩ := hall m hm
  have hfits : m.FitsIn asm.fields 8 := Cil.Method.fitsIn_iff.2 (Nat.le_of_eq hpeak)
  refine ⟨b, a, asm, m, c, block, hb, ha, hasm, hm, hblock, hfits, ?_, hiff.1 hfits⟩
  rw [Cil.Method.fitsIn_iff, hpeak]
  decide

/-- With nine operands there is one value too many, whether constants are folded or not. -/
theorem Analysis.cil_maxstack_exceeded :
    ∃ b a,
      Block.parse
        "(func int f ((int a)) (block (return (+ a (+ a (+ a (+ a (+ a (+ a (+ a (+ a a)))))))))))" =
        .ok b ∧
      Analysis.ofProgram b = .ok a ∧
      ∀ fold, ∃ asm m, Cil.Assembly.ofAnalysis a ⟨fold, "program"⟩ = .ok asm ∧ m ∈ asm.methods ∧
        ".maxstack 8" ∈ m.directives ∧ ¬ m.FitsIn asm.fields 8 := by
  have htext : ((Analysis.ofText?
      "(func int f ((int a)) (block (return (+ a (+ a (+ a (+ a (+ a (+ a (+ a (+ a a)))))))))))").any
        fun a => [true, false].all fun fold =>
          (Cil.Assembly.ofAnalysis a ⟨fold, "program"⟩).toOption.any fun asm =>
            asm.methods.any fun m => m.directives.contains ".maxstack 8" &&
              (m.frame asm.fields).peak [] m.body == 9) = true := by
    decide +kernel
  obtain ⟨a, ha, hall⟩ := (Option.any_eq_true _ _).1 htext
  obtain ⟨b, hb, ha⟩ := Analysis.ofText?_eq_some ha
  refine ⟨b, a, hb, ha, fun fold => ?_⟩
  have hfold := List.all_eq_true.1 hall fold (by cases fold <;> decide)
  obtain ⟨asm, hasm, hany⟩ := Except.any_toOption hfold
  obtain ⟨m, hm, hmethod⟩ := List.any_eq_true.1 hany
  rw [Bool.and_eq_true, List.contains_iff_mem, beq_iff_eq] at hmethod
  refine ⟨asm, m, hasm, hm, hmethod.1, ?_⟩
  rw [Cil.Method.fitsIn_iff, hmethod.2]
  decide

end SmallC
