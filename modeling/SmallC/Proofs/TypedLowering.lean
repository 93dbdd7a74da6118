import SmallC.Lowering
import SmallC.Proofs.Typing

/-!
# What lowering finds in a typed tree

Both targets ask a tree the same questions: the type of a value, the symbol of a
name, the function behind a call, the layout of a type, the functions that are
declared. On a typed tree every one of these questions has an answer.

A name may be that of a function, which is no value and can only be called. But
wherever a typed tree uses an expression, the type as used is that of a value,
and then so is the type before conversion: `Expr.IsValue`.
-/

namespace SmallC

/-- A computation that does not fail. -/
def Except.Succeeds {ε α : Type} (x : Except ε α) : Prop := ∃ a, x = .ok a

theorem Except.Succeeds.bind {ε α β : Type} {x : Except ε α} {f : α → Except ε β}
    (h : Except.Succeeds x) (h' : ∀ a, x = .ok a → Except.Succeeds (f a)) :
    Except.Succeeds (x >>= f) := by
  obtain ⟨a, ha⟩ := h
  obtain ⟨b, hb⟩ := h' a ha
  exact ⟨b, Except.bind_eq_ok_iff.2 ⟨a, ha, hb⟩⟩

theorem Except.Succeeds.ok {ε α : Type} (a : α) : Except.Succeeds (.ok a : Except ε α) := ⟨a, rfl⟩

/-! ## Types -/

theorem Ty.require_ok {t : Ty} (h : t.isResult = true) : t.require = .ok () := by
  cases t with
  | base b => rfl
  | array b => rfl
  | func r ps => cases h
  | absent => cases h

theorem Ty.requireAll_ok {ts : List Ty} (h : ∀ t ∈ ts, t.isResult = true) :
    Ty.requireAll ts = .ok () := by
  induction ts with
  | nil => rfl
  | cons t rest ih =>
      rw [Ty.requireAll, Ty.require_ok (h t List.mem_cons_self)]
      exact ih fun u hu => h u (List.mem_cons_of_mem _ hu)

theorem Function.Placed.requireTypes_ok {f : Function} (h : f.Placed) :
    f.requireTypes = .ok () := by
  refine Ty.requireAll_ok fun t ht => ?_
  rcases List.mem_cons.1 ht with rfl | ht
  · exact h.result
  · obtain ⟨id, hid, rfl⟩ := List.mem_map.1 ht
    exact Ty.isResult_of_isData (h.params.isData hid)

theorem Symbol.Static.requireAll_ok {ids : List Symbol} (h : Symbol.Static ids) :
    Ty.requireAll (ids.map (·.type)) = .ok () := by
  refine Ty.requireAll_ok fun t ht => ?_
  obtain ⟨id, hid, rfl⟩ := List.mem_map.1 ht
  exact Ty.isResult_of_isData (h.row.isData hid)

/-! ## Expressions -/

/-- An expression that is not the name of a function. -/
def Expr.IsValue (e : Expr) : Prop := ∃ ty, e.note.type = some ty ∧ ty.isFunc = false

theorem Expr.Typed.isValue {r : Reach} {e : Expr} {ty : Ty} (h : e.Typed r)
    (hused : e.usedType = some ty) (hty : ty.isFunc = false) : e.IsValue := by
  obtain ⟨ty', hof⟩ := h.note_of
  refine ⟨ty', hof.type, ?_⟩
  unfold Expr.usedType Note.usedType at hused
  cases hc : e.note.conv with
  | none =>
      rw [hc] at hused
      have heq : ty' = ty := Option.some.inj (hof.type.symm.trans hused)
      rw [heq]
      exact hty
  | some c =>
      obtain ⟨-, hmem⟩ := hof.conv c hc
      cases ty' with
      | base b => rfl
      | array b => rfl
      | func r ps => cases hmem
      | absent => rfl

theorem Expr.UsedAs.isValue {r : Reach} {e : Expr} {ty : Ty} (h : e.UsedAs r ty)
    (hty : ty.isData = true) : e.IsValue :=
  h.typed.isValue h.used (Ty.isFunc_of_isData hty)

/-- The argument of a call is a value. -/
theorem Expr.isValue_of_argument {r : Reach} {args : List Expr} {params : List Ty}
    (hused : args.map Expr.usedType = params.map some) (hparams : ∀ p ∈ params, p.isData = true)
    {e : Expr} (he : e ∈ args) (h : e.Typed r) : e.IsValue := by
  have hmem : e.usedType ∈ params.map some := by
    rw [← hused]
    exact List.mem_map_of_mem he
  obtain ⟨p, hp, heq⟩ := List.mem_map.1 hmem
  exact h.isValue heq.symm (Ty.isFunc_of_isData (hparams p hp))

theorem Expr.typeOf_ok {e : Expr} {ty : Ty} (h : e.usedType = some ty) : e.typeOf = .ok ty := by
  unfold Expr.typeOf
  rw [show e.note.usedType = some ty from h]

theorem Op.Accepts.isData {op : Op} {x y : Ty} {r : Base} (h : op.Accepts x y r) :
    x.isFunc = false ∧ y.isFunc = false := by
  cases x with
  | base b => cases y <;> first | exact ⟨rfl, rfl⟩ | exact h.elim
  | array b => cases y <;> first | exact ⟨rfl, rfl⟩ | exact h.elim
  | func r ps => exact h.elim
  | absent => exact h.elim

theorem Ident.resolved_ok {id : Ident} {sym : Symbol} (h : id.symbol = some sym) :
    Ident.resolved (some id) = .ok (id, sym) := by
  unfold Ident.resolved
  dsimp only
  rw [h]

theorem Ident.callee_ok {id : Ident} {sym : Symbol} (h : id.symbol = some sym) {result : Ty}
    {params : List Ty} (hty : sym.type = .func result params) (pos : Pos) :
    Ident.callee pos (some id) = .ok ⟨sym, result, params⟩ := by
  refine Except.bind_eq_ok_iff.2 ⟨(id, sym), Ident.resolved_ok h, ?_⟩
  dsimp only
  rw [hty]
  rfl

theorem Symbol.Known.signature {r : Reach} {sym : Symbol} (h : sym.Known r) {result : Ty}
    {params : List Ty} (hty : sym.type = .func result params) :
    result.isResult = true ∧ (∀ p ∈ params, p.isData = true) ∧
      (sym.builtin = true → sym ∈ Symbol.builtins) := by
  cases h with
  | storage type _ => rw [hty] at type; cases type
  | function type isResult isData builtin _ =>
      rw [type] at hty
      cases hty
      exact ⟨isResult, isData, builtin⟩

/-- The element kind of an array within reach is the kind of a value. -/
theorem Symbol.Known.element {r : Reach} {sym : Symbol} (h : sym.Known r) {elem : Base}
    (hty : sym.type = .array elem) : sym.type.isData = true ∧ sym.Stored r :=
  h.stored (by rw [hty]; rfl)

/-- Where a symbol within reach is found: it is a parameter of the function being lowered, one of
its locals, or stored for as long as the program runs. -/
theorem Symbol.Stored.place {c : Context} {r : Reach} (hc : c.function = r.function) {id : Symbol}
    (hd : id.type.isData = true) (h : id.Stored r) :
    c.isParam id = true ∨ id.storage = .automatic ∨ id.isStatic = true := by
  have hfunc : id.isFunc = false := Ty.isFunc_of_isData hd
  unfold Symbol.Stored at h
  cases hs : id.storage with
  | global => exact .inr (.inr (by simp [Symbol.isStatic, hfunc, hs]))
  | globalLocal => exact .inr (.inr (by simp [Symbol.isStatic, hfunc, hs]))
  | param =>
      rw [hs] at h
      obtain ⟨f, hf, hp⟩ := h
      refine .inl ?_
      unfold Context.isParam Function.owns
      rw [hc, hf, Option.any_some, hs, hp]
      simp
  | automatic => exact .inr (.inl rfl)
  | unnamed n => rw [hs] at h; exact h.elim

/-! ## Functions -/

theorem FuncDecl.described_ok_iff {d : FuncDecl} {f : Function} :
    d.described = .ok f ↔ d.function = some f := by
  unfold FuncDecl.described
  cases d.function with
  | some f' => simp
  | none => cases d.name <;> simp

/-- A declared function with its storage, the body of which is typed. -/
def FuncDecl.Typed (globals : List Symbol) (d : FuncDecl) : Prop :=
  ∃ f, d.function = some f ∧ f.Placed ∧ f.locals = d.body.declared ∧
    d.body.Typed ⟨globals, some f⟩

theorem Node.TypedVar.functions {r : Reach} {n : Node} (h : n.TypedVar r) :
    n.functions = .ok [] := by
  unfold Node.TypedVar at h
  split at h
  · rfl
  · rfl
  · exact h.elim

theorem Node.functionsIn_of_typed {r : Reach} {ns : List Node} (h : ∀ n ∈ ns, n.TypedVar r) :
    Node.functionsIn ns = .ok [] := by
  induction ns with
  | nil => rfl
  | cons n rest ih =>
      rw [Node.functionsIn, (h n List.mem_cons_self).functions,
        ih fun m hm => h m (List.mem_cons_of_mem _ hm)]
      rfl

/-- The functions of one part of a tree and then of another. -/
theorem functions_append {globals : List Symbol} {x y : Except Fault (List FuncDecl)}
    (hx : ∃ ds, x = .ok ds ∧ ∀ d ∈ ds, d.Typed globals)
    (hy : ∃ ds, y = .ok ds ∧ ∀ d ∈ ds, d.Typed globals) :
    ∃ ds, (do let here ← x; return here ++ (← y)) = .ok ds ∧ ∀ d ∈ ds, d.Typed globals := by
  obtain ⟨ds, rfl, hds⟩ := hx
  obtain ⟨es, rfl, hes⟩ := hy
  refine ⟨ds ++ es, rfl, fun d hd => ?_⟩
  rcases List.mem_append.1 hd with hd | hd
  · exact hds d hd
  · exact hes d hd

theorem functions_append_ok {x y : Except Fault (List FuncDecl)} {ds : List FuncDecl}
    (h : (do let here ← x; return here ++ (← y)) = .ok ds) :
    ∃ first rest, x = .ok first ∧ y = .ok rest ∧ ds = first ++ rest := by
  simp only [Except.bind_eq_ok_iff] at h
  obtain ⟨first, hfirst, rest, hrest, h⟩ := h
  cases h
  exact ⟨first, rest, hfirst, hrest, rfl⟩

mutual

/-- The functions that a typed statement declares are typed. -/
theorem Stmt.Typed.functions {r : Reach} :
    ∀ {stmt : Stmt}, stmt.Typed r →
      ∃ ds, stmt.functions = .ok ds ∧ ∀ d ∈ ds, d.Typed r.globals
  | .missing, h => h.elim
  | .call _ _ _ _, _ => ⟨[], rfl, fun _ hd => (nomatch hd)⟩
  | .assign _ _ _ _, _ => ⟨[], rfl, fun _ hd => (nomatch hd)⟩
  | .varDecl _ _ _, h => ⟨[], Node.functionsIn_of_typed h, fun _ hd => (nomatch hd)⟩
  | .arrayDecl _ _ _ _, _ => ⟨[], rfl, fun _ hd => (nomatch hd)⟩
  | .ifElse _ _ _ _, h =>
      functions_append (Block.Typed.functions h.2.1) (Block.Typed.functions h.2.2)
  | .whileLoop _ _ _, h => Block.Typed.functions h.2
  | .forLoop _ init _ _ step _, h => by
      have hinit : ∃ ds, init.functions = .ok ds ∧ ∀ d ∈ ds, d.Typed r.globals := by
        rcases h.1 with rfl | hi
        · exact ⟨[], rfl, fun _ hd => (nomatch hd)⟩
        · exact Stmt.Typed.functions hi
      have hstep : ∃ ds, step.functions = .ok ds ∧ ∀ d ∈ ds, d.Typed r.globals := by
        rcases h.2.2.1 with rfl | hs
        · exact ⟨[], rfl, fun _ hd => (nomatch hd)⟩
        · exact Stmt.Typed.functions hs
      obtain ⟨ds, hds, htyped⟩ :=
        functions_append (functions_append hinit hstep) (Block.Typed.functions h.2.2.2)
      refine ⟨ds, ?_, htyped⟩
      rw [← hds, Stmt.functions]
      obtain ⟨first, hfirst, -⟩ := hinit
      obtain ⟨second, hsecond, -⟩ := hstep
      rw [hfirst, hsecond]
      rfl
  | .block _, h => Block.Typed.functions h
  | .funcDecl _ _ _ _ _ _ _, h => ⟨_, rfl, fun d hd => by
      obtain rfl := List.mem_singleton.1 hd
      exact h⟩
  | .ret _ _, _ => ⟨[], rfl, fun _ hd => (nomatch hd)⟩

theorem Block.Typed.functions {r : Reach} :
    ∀ {b : Block}, b.Typed r → ∃ ds, b.functions = .ok ds ∧ ∀ d ∈ ds, d.Typed r.globals
  | .missing, _ => ⟨[], rfl, fun _ hd => (nomatch hd)⟩
  | .of _ _, h => Stmt.AllTyped.functions h

theorem Stmt.AllTyped.functions {r : Reach} :
    ∀ {stmts : List Stmt}, Stmt.AllTyped r stmts →
      ∃ ds, Stmt.functionsIn stmts = .ok ds ∧ ∀ d ∈ ds, d.Typed r.globals
  | [], _ => ⟨[], rfl, fun _ hd => (nomatch hd)⟩
  | _ :: _, h => functions_append (Stmt.Typed.functions h.1) (Stmt.AllTyped.functions h.2)

end

/-- What is known about a function that a typed program declares. -/
theorem Block.Typed.described {b : Block} {r : Reach} (h : b.Typed r) {ds : List FuncDecl}
    {d : FuncDecl} {f : Function} (hds : b.functions = .ok ds) (hd : d ∈ ds)
    (hf : d.described = .ok f) :
    f.Placed ∧ f.locals = d.body.declared ∧ d.body.Typed ⟨r.globals, some f⟩ := by
  obtain ⟨ds', hds', hall⟩ := Block.Typed.functions h
  cases hds.symm.trans hds'
  obtain ⟨f', hf', hplaced⟩ := hall d hd
  cases hf'.symm.trans (FuncDecl.described_ok_iff.1 hf)
  exact hplaced

end SmallC
