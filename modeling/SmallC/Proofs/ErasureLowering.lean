import SmallC.Proofs.Erasure
import SmallC.Proofs.TypedLowering

/-!
# What lowering asks of a tree without positions

Both targets ask a tree the same questions, and every answer is the one they
would get with positions, or that answer without its own.

There is one question where a position could get in. A symbol is a parameter of
the function being lowered if the function has it, and symbols are compared as a
whole, the places of their declarations included. On a tree that has been
checked this makes no difference, because a symbol that is stored as a parameter
is one of the parameters in reach.
-/

namespace SmallC

/-! ## What lowering asks -/

/-- Steps that are known to succeed. -/
theorem Except.erase_bind_ok {α α' β β' : Type} {x : Except Fault α} {x' : Except Fault α'}
    {k : α → Except Fault β} {k' : α' → Except Fault β'} {a : α} {a' : α'} {g : β → β'}
    (hx : x = .ok a) (hx' : x' = .ok a') (hk : k' a' = Except.erase g (k a)) :
    (x' >>= k') = Except.erase g (x >>= k) := by
  subst hx hx'
  exact hk

/-- A context without positions. -/
def Context.erase (c : Context) : Context := ⟨c.fold, c.function.map Function.erase⟩

/-- A function that is called, without positions. -/
def Callee.erase (c : Callee) : Callee := ⟨c.symbol.erase, c.result, c.params⟩

theorem Symbol.Stored.isParam_erase {c : Context} {r : Reach} (hc : c.function = r.function)
    {id : Symbol} (h : id.Stored r) : c.erase.isParam id.erase = c.isParam id := by
  unfold Context.isParam Function.owns
  rw [show c.erase.function = c.function.map Function.erase from rfl, hc, Option.any_map]
  unfold Symbol.Stored at h
  cases hs : id.storage with
  | param =>
      rw [hs] at h
      obtain ⟨f, hf, hp⟩ := h
      rw [hf, Option.any_some, Option.any_some, hp]
      show (id.storage == .param && f.erase.param? id.name == some id.erase) = _
      rw [Function.param?_erase, hp, hs]
      simp
  | global | globalLocal | automatic | unnamed n =>
      have hne : (id.erase.storage == .param) = false := by
        show (id.storage == .param) = false
        rw [hs]
        rfl
      cases r.function with
      | none => rfl
      | some f =>
          show (id.erase.storage == .param && _) = _
          rw [hne]
          rfl

theorem Expr.isConstant_erase : ∀ e : Expr, e.erase.isConstant = e.isConstant
  | .missing | .literal _ _ _ _ | .ident _ | .index _ _ _ _ | .call _ _ _ _ => rfl
  | .convert _ x _ => Expr.isConstant_erase x
  | .unary _ _ x _ => Expr.isConstant_erase x
  | .binary _ _ x y _ => by
      rw [Expr.erase_binary, Expr.isConstant, Expr.isConstant, Expr.isConstant_erase x,
        Expr.isConstant_erase y]

theorem Precision.eval_erase (p : Precision) : ∀ e : Expr, p.eval e.erase = p.eval e
  | .missing | .literal _ _ _ _ | .ident _ | .index _ _ _ _ | .call _ _ _ _ => rfl
  | .convert _ x _ => by
      rw [Expr.erase_convert, Precision.eval, Precision.eval, Precision.eval_erase p x]
  | .unary _ _ x _ => by
      rw [Expr.erase_unary, Precision.eval, Precision.eval, Expr.note_erase,
        Precision.eval_erase p x]
  | .binary _ _ x y _ => by
      rw [Expr.erase_binary, Precision.eval, Precision.eval, Expr.note_erase, Expr.note_erase,
        Precision.eval_erase p x, Precision.eval_erase p y]

theorem Context.folded?_erase (c : Context) (p : Precision) (e : Expr) :
    c.erase.folded? p.eval e.erase = c.folded? p.eval e := by
  unfold Context.folded?
  rw [Expr.isConstant_erase, Precision.eval_erase]
  rfl

theorem Context.foldedUsed?_erase (c : Context) (p : Precision) (e : Expr) :
    c.erase.folded? p.evalUsed e.erase = c.folded? p.evalUsed e := by
  unfold Context.folded? Precision.evalUsed
  rw [Expr.isConstant_erase, Precision.eval_erase, Expr.note_erase]
  rfl

theorem Expr.typeOf_erase (e : Expr) : e.erase.typeOf = Except.erase id e.typeOf := by
  unfold Expr.typeOf
  rw [Expr.note_erase, Expr.pos_erase, Expr.typeText_erase]
  cases e.note.usedType <;> rfl

theorem Ident.resolved_erase (id : Option Ident) :
    Ident.resolved (id.map Ident.erase) =
      Except.erase (Prod.map Ident.erase Symbol.erase) (Ident.resolved id) := by
  rcases id with _ | ⟨pos, name, _ | symbol, note⟩ <;> rfl

theorem Ident.resolved_ok_erase {id : Ident} {sym : Symbol} (h : id.symbol = some sym) :
    Ident.resolved (some id.erase) = .ok (id.erase, sym.erase) :=
  Ident.resolved_ok (congrArg (Option.map Symbol.erase) h)

theorem Ident.callee_erase (pos : Pos) (func : Option Ident) :
    Ident.callee .nowhere (func.map Ident.erase) =
      Except.erase Callee.erase (Ident.callee pos func) := by
  refine Except.erase_bind (Ident.resolved_erase func) fun p => ?_
  obtain ⟨id, ⟨_, _ | _ | _ | _, _⟩⟩ := p <;> rfl

theorem literalValue_erase (pos : Pos) (text : String) (value : Option Value) :
    literalValue .nowhere text value = Except.erase id (literalValue pos text value) := by
  cases value <;> rfl

theorem Ty.require_erase (t : Ty) : t.require = Except.erase id t.require := by
  unfold Ty.require
  split <;> rfl

theorem Ty.requireAll_erase : ∀ ts : List Ty, Ty.requireAll ts = Except.erase id (Ty.requireAll ts)
  | [] => rfl
  | t :: rest => Except.erase_bind t.require_erase fun _ => Ty.requireAll_erase rest

theorem Symbol.storage_erase (sym : Symbol) : sym.erase.storage = sym.storage := rfl

theorem Symbol.isStatic_erase (sym : Symbol) : sym.erase.isStatic = sym.isStatic := rfl

theorem Symbol.types_erase (ids : List Symbol) :
    (ids.map Symbol.erase).map (·.type) = ids.map (·.type) := by
  rw [List.map_map]
  rfl

theorem Function.requireTypes_erase (f : Function) :
    f.erase.requireTypes = Except.erase id f.requireTypes := by
  unfold Function.requireTypes
  rw [show f.erase.params = f.params.map Symbol.erase from rfl, Symbol.types_erase]
  exact Ty.requireAll_erase _

/-- An origin without positions. -/
def Origin.erase : Origin → Origin
  | function f => function f.erase
  | initializer => initializer

/-! ## What lowering reads off a tree -/

/-- A declared function without positions. -/
def FuncDecl.erase (d : FuncDecl) : FuncDecl :=
  ⟨.nowhere, d.name.map Ident.erase, d.body.erase, d.function.map Function.erase⟩

theorem functions_append_erase {x x' y y' : Except Fault (List FuncDecl)}
    (hx : x' = Except.erase (List.map FuncDecl.erase) x)
    (hy : y' = Except.erase (List.map FuncDecl.erase) y) :
    (do let here ← x'; return here ++ (← y')) =
      Except.erase (List.map FuncDecl.erase) (do let here ← x; return here ++ (← y)) := by
  refine Except.erase_bind hx fun first => Except.erase_bind hy fun rest => ?_
  exact congrArg Except.ok List.map_append.symm

mutual

theorem Stmt.functions_erase : ∀ stmt : Stmt,
    stmt.erase.functions = Except.erase (List.map FuncDecl.erase) stmt.functions
  | .missing | .call _ _ _ _ | .assign _ _ _ _ | .arrayDecl _ _ _ _ | .funcDecl _ _ _ _ _ _ _
  | .ret _ _ => rfl
  | .varDecl pos type vars => by
      rw [Stmt.erase_varDecl]
      exact Node.functionsIn_erase vars
  | .ifElse _ _ yes no => functions_append_erase (Block.functions_erase yes)
      (Block.functions_erase no)
  | .whileLoop _ _ body => Block.functions_erase body
  | .forLoop _ init _ _ step body => by
      refine Except.erase_bind (Stmt.functions_erase init) fun first => ?_
      refine Except.erase_bind (Stmt.functions_erase step) fun second => ?_
      refine Except.erase_bind (Block.functions_erase body) fun rest => congrArg Except.ok ?_
      rw [List.map_append, List.map_append]
  | .block b => Block.functions_erase b

theorem Block.functions_erase : ∀ b : Block,
    b.erase.functions = Except.erase (List.map FuncDecl.erase) b.functions
  | .missing => rfl
  | .of pos stmts => by
      rw [Block.erase_of]
      exact Stmt.functionsIn_erase stmts

theorem Stmt.functionsIn_erase : ∀ stmts : List Stmt,
    Stmt.functionsIn (stmts.map Stmt.erase) =
      Except.erase (List.map FuncDecl.erase) (Stmt.functionsIn stmts)
  | [] => rfl
  | stmt :: rest => functions_append_erase (Stmt.functions_erase stmt)
      (Stmt.functionsIn_erase rest)

theorem Node.functions_erase : ∀ n : Node,
    n.erase.functions = Except.erase (List.map FuncDecl.erase) n.functions
  | .stmt stmt => Stmt.functions_erase stmt
  | .expr _ | .param _ | .params _ | .foreign _ => rfl

theorem Node.functionsIn_erase : ∀ ns : List Node,
    Node.functionsIn (ns.map Node.erase) =
      Except.erase (List.map FuncDecl.erase) (Node.functionsIn ns)
  | [] => rfl
  | n :: rest => functions_append_erase (Node.functions_erase n) (Node.functionsIn_erase rest)

end

theorem Ident.symbols_erase (id : Option Ident) :
    Ident.symbols (id.map Ident.erase) = (Ident.symbols id).map Symbol.erase := by
  rcases id with _ | ⟨pos, name, _ | symbol, note⟩ <;> rfl

theorem Node.declared_erase (n : Node) : n.erase.declared = n.declared.map Symbol.erase := by
  rcases n with (_ | _ | ⟨pos, name, _ | symbol, note⟩ | _ | _ | _ | _ | _) |
    (_ | _ | ⟨_, _ | _ | ⟨pos, name, _ | symbol, note⟩ | _ | _ | _ | _ | _, _, _⟩ | _ | _ | _ | _ |
      _ | b | _ | _) | _ | _ | _ <;> rfl

mutual

theorem Stmt.declared_erase : ∀ stmt : Stmt,
    stmt.erase.declared = stmt.declared.map Symbol.erase
  | .missing | .call _ _ _ _ | .assign _ _ _ _ | .funcDecl _ _ _ _ _ _ _ | .ret _ _ => rfl
  | .varDecl pos type vars => by
      rw [Stmt.erase_varDecl, Stmt.declared, Stmt.declared, List.flatMap_map, List.map_flatMap]
      exact congrArg (fun f => vars.flatMap f) (funext Node.declared_erase)
  | .arrayDecl _ _ name _ => Ident.symbols_erase name
  | .ifElse _ _ yes no => by
      show yes.erase.declared ++ no.erase.declared = _
      rw [Block.declared_erase yes, Block.declared_erase no, Stmt.declared, List.map_append]
  | .whileLoop _ _ body => Block.declared_erase body
  | .forLoop _ init _ _ step body => by
      show init.erase.declared ++ step.erase.declared ++ body.erase.declared = _
      rw [Stmt.declared_erase init, Stmt.declared_erase step, Block.declared_erase body,
        Stmt.declared, List.map_append, List.map_append]
  | .block b => Block.declared_erase b

theorem Block.declared_erase : ∀ b : Block, b.erase.declared = b.declared.map Symbol.erase
  | .missing => rfl
  | .of pos stmts => by
      rw [Block.erase_of]
      exact Stmt.declaredIn_erase stmts

theorem Stmt.declaredIn_erase : ∀ stmts : List Stmt,
    Stmt.declaredIn (stmts.map Stmt.erase) = (Stmt.declaredIn stmts).map Symbol.erase
  | [] => rfl
  | stmt :: rest => by
      rw [List.map_cons, Stmt.declaredIn, Stmt.declaredIn, Stmt.declared_erase stmt,
        Stmt.declaredIn_erase rest, List.map_append]

end

mutual

theorem Stmt.returns_erase : ∀ stmt : Stmt, stmt.erase.returns = stmt.returns
  | .block b => Block.returns_erase b
  | .missing | .call _ _ _ _ | .assign _ _ _ _ | .varDecl _ _ _ | .arrayDecl _ _ _ _
  | .ifElse _ _ _ _ | .whileLoop _ _ _ | .forLoop _ _ _ _ _ _ | .funcDecl _ _ _ _ _ _ _
  | .ret _ _ => rfl

theorem Block.returns_erase : ∀ b : Block, b.erase.returns = b.returns
  | .missing => rfl
  | .of pos stmts => by
      rw [Block.erase_of]
      exact Stmt.lastReturns_erase stmts

theorem Stmt.lastReturns_erase : ∀ stmts : List Stmt,
    Stmt.lastReturns (stmts.map Stmt.erase) = Stmt.lastReturns stmts
  | [] => rfl
  | [stmt] => Stmt.returns_erase stmt
  | _ :: stmt :: rest => Stmt.lastReturns_erase (stmt :: rest)

end

theorem Stmt.isFuncDecl_erase (stmt : Stmt) : stmt.erase.isFuncDecl = stmt.isFuncDecl := by
  cases stmt <;> rfl

theorem Analysis.needsInitializer_erase (globals : List Symbol) (b : Block) :
    Analysis.needsInitializer (globals.map Symbol.erase) b.erase =
      Except.erase id (Analysis.needsInitializer globals b) := by
  cases b with
  | missing => cases globals <;> rfl
  | of pos stmts =>
      have hany : (stmts.map Stmt.erase).any (!·.isFuncDecl) = stmts.any (!·.isFuncDecl) := by
        rw [List.any_map]
        exact congrArg (fun p => stmts.any p)
          (funext fun stmt => congrArg (! ·) stmt.isFuncDecl_erase)
      rw [Block.erase_of, Analysis.needsInitializer, Analysis.needsInitializer, hany,
        List.isEmpty_map]
      rfl

end SmallC
