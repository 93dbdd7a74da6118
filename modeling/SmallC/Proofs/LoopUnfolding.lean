import Mathlib.Data.List.Forall2
import SmallC.Compilation
import SmallC.Proofs.CilTotal
import SmallC.Proofs.LlvmTotal

/-!
# A loop with parts and a loop without

A `for` loop can be taken apart: its first part goes in front of the loop, an
absent condition becomes the literal `true`, and if there is no last part either,
what is left is a `while` loop. Since the first part may declare names for the
loop, all of it is put in a block. `Unfolds` relates a tree to the same tree with
some of its `for` loops taken apart, wherever they stand.

The relation holds between trees from a source text and between checked trees,
with one difference, which is its parameter: in a checked tree the condition of a
loop without one has been inserted.

Lowering cannot tell related checked trees apart. Both targets lower a `for` loop
to the code of its first part and then a loop, and that is what they do with the
block. No label and no register is named differently, because the same code is
made in the same order.
-/

namespace SmallC

/-- How the condition of a loop that is taken apart comes from the condition of the `for` loop and
the condition inserted in it. -/
def CondRule : Type := Expr → Expr → Expr → Prop

/-- In a source text an absent condition becomes the literal `true`. -/
def CondRule.source : CondRule := fun cond _ cond' =>
  (cond.isMissing = false ∧ cond' = cond) ∨
    (cond = .missing ∧ ∃ pos value note, cond' = .literal pos "true" value note)

/-- In a checked tree an absent condition becomes the inserted one, up to its place. -/
def CondRule.checked : CondRule := fun cond inserted cond' =>
  (cond.isMissing = false ∧ cond' = cond) ∨
    (cond = .missing ∧ ∃ pos pos' text value type,
      inserted = .literal pos text (some value) { type := type } ∧
        cond' = .literal pos' text (some value) { type := type })

theorem CondRule.checked.isMissing {cond inserted cond' : Expr}
    (h : CondRule.checked cond inserted cond') : cond'.isMissing = false := by
  rcases h with ⟨hthere, rfl⟩ | ⟨-, _, _, _, _, _, -, rfl⟩
  · exact hthere
  · rfl

/-- A loop, and in front of it a statement that may be absent. -/
def Stmt.thenLoop (part loop : Stmt) : List Stmt := if part.isMissing then [loop] else [part, loop]

mutual

/-- A statement, and the same one with some of its `for` loops taken apart. -/
inductive Stmt.Unfolds (C : CondRule) : Stmt → Stmt → Prop where
  | missing : Stmt.Unfolds C .missing .missing
  | call {pos : Pos} {func : Option Ident} {args : List Expr} {note : Note} :
      Stmt.Unfolds C (.call pos func args note) (.call pos func args note)
  | assign {pos : Pos} {target value : Expr} {type : Option Ty} :
      Stmt.Unfolds C (.assign pos target value type) (.assign pos target value type)
  | varDecl {pos : Pos} {type : Option Ident} {vars vars' : List Node}
      (items : Node.AllUnfold C vars vars') :
      Stmt.Unfolds C (.varDecl pos type vars) (.varDecl pos type vars')
  | arrayDecl {pos : Pos} {elem name : Option Ident} {size : Expr} :
      Stmt.Unfolds C (.arrayDecl pos elem name size) (.arrayDecl pos elem name size)
  | ifElse {pos : Pos} {cond : Expr} {yes yes' no no' : Block} (first : Block.Unfolds C yes yes')
      (second : Block.Unfolds C no no') :
      Stmt.Unfolds C (.ifElse pos cond yes no) (.ifElse pos cond yes' no')
  | whileLoop {pos : Pos} {cond : Expr} {body body' : Block} (inner : Block.Unfolds C body body') :
      Stmt.Unfolds C (.whileLoop pos cond body) (.whileLoop pos cond body')
  | forLoop {pos : Pos} {init init' : Stmt} {cond inserted : Expr} {step step' : Stmt}
      {body body' : Block} (first : Stmt.Unfolds C init init') (last : Stmt.Unfolds C step step')
      (inner : Block.Unfolds C body body') :
      Stmt.Unfolds C (.forLoop pos init cond inserted step body)
        (.forLoop pos init' cond inserted step' body')
  | block {b b' : Block} (inner : Block.Unfolds C b b') : Stmt.Unfolds C (.block b) (.block b')
  | funcDecl {pos : Pos} {result : Option Ident} {isArray : Bool} {name : Option Ident}
      {params : Option Params} {body body' : Block} {function : Option Function}
      (inner : Block.Unfolds C body body') :
      Stmt.Unfolds C (.funcDecl pos result isArray name params body function)
        (.funcDecl pos result isArray name params body' function)
  | ret {pos : Pos} {value : Expr} : Stmt.Unfolds C (.ret pos value) (.ret pos value)
  /-- The first part goes in front of the loop, and a condition is written out. -/
  | apart {pos pos' outer : Pos} {init init' : Stmt} {cond inserted cond' : Expr}
      {step step' : Stmt} {body body' : Block} (first : Stmt.Unfolds C init init')
      (test : C cond inserted cond') (last : Stmt.Unfolds C step step')
      (inner : Block.Unfolds C body body') :
      Stmt.Unfolds C (.forLoop pos init cond inserted step body)
        (.block (.of outer (init'.thenLoop (.forLoop pos' .missing cond' .missing step' body'))))
  /-- What is left without a last part is a `while` loop. -/
  | loop {pos pos' outer : Pos} {init init' : Stmt} {cond inserted cond' : Expr}
      {body body' : Block} (first : Stmt.Unfolds C init init') (test : C cond inserted cond')
      (inner : Block.Unfolds C body body') :
      Stmt.Unfolds C (.forLoop pos init cond inserted .missing body)
        (.block (.of outer (init'.thenLoop (.whileLoop pos' cond' body'))))

/-- A block, and the same one with some of its `for` loops taken apart. -/
inductive Block.Unfolds (C : CondRule) : Block → Block → Prop where
  | missing : Block.Unfolds C .missing .missing
  | of {pos : Pos} {stmts stmts' : List Stmt} (all : Stmt.AllUnfold C stmts stmts') :
      Block.Unfolds C (.of pos stmts) (.of pos stmts')

/-- Statements, and the same ones with some of their `for` loops taken apart. -/
inductive Stmt.AllUnfold (C : CondRule) : List Stmt → List Stmt → Prop where
  | nil : Stmt.AllUnfold C [] []
  | cons {stmt stmt' : Stmt} {rest rest' : List Stmt} (first : Stmt.Unfolds C stmt stmt')
      (others : Stmt.AllUnfold C rest rest') : Stmt.AllUnfold C (stmt :: rest) (stmt' :: rest')

/-- A node, and the same one with some of its `for` loops taken apart. -/
inductive Node.Unfolds (C : CondRule) : Node → Node → Prop where
  | expr {e : Expr} : Node.Unfolds C (.expr e) (.expr e)
  | stmt {stmt stmt' : Stmt} (inner : Stmt.Unfolds C stmt stmt') :
      Node.Unfolds C (.stmt stmt) (.stmt stmt')
  | param {p : Param} : Node.Unfolds C (.param p) (.param p)
  | params {ps : Params} : Node.Unfolds C (.params ps) (.params ps)
  | foreign {pos : Pos} : Node.Unfolds C (.foreign pos) (.foreign pos)

/-- Nodes, and the same ones with some of their `for` loops taken apart. -/
inductive Node.AllUnfold (C : CondRule) : List Node → List Node → Prop where
  | nil : Node.AllUnfold C [] []
  | cons {n n' : Node} {rest rest' : List Node} (first : Node.Unfolds C n n')
      (others : Node.AllUnfold C rest rest') : Node.AllUnfold C (n :: rest) (n' :: rest')

end

section

variable {C : CondRule}

theorem Stmt.Unfolds.isMissing {stmt stmt' : Stmt} (h : stmt.Unfolds C stmt') :
    stmt'.isMissing = stmt.isMissing := by
  cases h <;> rfl

theorem Stmt.Unfolds.isFuncDecl {stmt stmt' : Stmt} (h : stmt.Unfolds C stmt') :
    stmt'.isFuncDecl = stmt.isFuncDecl := by
  cases h <;> rfl

mutual

/-- Every tree is related to itself. -/
theorem Stmt.Unfolds.refl : ∀ stmt : Stmt, stmt.Unfolds C stmt
  | .missing => .missing
  | .call _ _ _ _ => .call
  | .assign _ _ _ _ => .assign
  | .varDecl _ _ vars => .varDecl (Node.AllUnfold.refl vars)
  | .arrayDecl _ _ _ _ => .arrayDecl
  | .ifElse _ _ yes no => .ifElse (Block.Unfolds.refl yes) (Block.Unfolds.refl no)
  | .whileLoop _ _ body => .whileLoop (Block.Unfolds.refl body)
  | .forLoop _ init _ _ step body =>
      .forLoop (Stmt.Unfolds.refl init) (Stmt.Unfolds.refl step) (Block.Unfolds.refl body)
  | .block b => .block (Block.Unfolds.refl b)
  | .funcDecl _ _ _ _ _ body _ => .funcDecl (Block.Unfolds.refl body)
  | .ret _ _ => .ret

theorem Block.Unfolds.refl : ∀ b : Block, b.Unfolds C b
  | .missing => .missing
  | .of _ stmts => .of (Stmt.AllUnfold.refl stmts)

theorem Stmt.AllUnfold.refl : ∀ stmts : List Stmt, Stmt.AllUnfold C stmts stmts
  | [] => .nil
  | stmt :: rest => .cons (Stmt.Unfolds.refl stmt) (Stmt.AllUnfold.refl rest)

theorem Node.Unfolds.refl : ∀ n : Node, n.Unfolds C n
  | .expr _ => .expr
  | .stmt stmt => .stmt (Stmt.Unfolds.refl stmt)
  | .param _ => .param
  | .params _ => .params
  | .foreign _ => .foreign

theorem Node.AllUnfold.refl : ∀ ns : List Node, Node.AllUnfold C ns ns
  | [] => .nil
  | n :: rest => .cons (Node.Unfolds.refl n) (Node.AllUnfold.refl rest)

end

end

/-! ## What is read off related trees -/

section

variable {C : CondRule}

theorem Stmt.thenLoop_of_isMissing {part : Stmt} (h : part.isMissing = false) (loop : Stmt) :
    part.thenLoop loop = [part, loop] := by
  unfold thenLoop
  rw [h]
  rfl

theorem Stmt.declaredIn_thenLoop (part loop : Stmt) :
    Stmt.declaredIn (part.thenLoop loop) = part.declared ++ loop.declared := by
  have hloop : Stmt.declaredIn [loop] = loop.declared := List.append_nil _
  cases hpart : part.isMissing with
  | true =>
      obtain rfl := Stmt.isMissing_iff.1 hpart
      exact hloop
  | false => rw [Stmt.thenLoop_of_isMissing hpart, Stmt.declaredIn, hloop]

theorem Stmt.lastReturns_thenLoop (part loop : Stmt) :
    Stmt.lastReturns (part.thenLoop loop) = loop.returns := by
  cases hpart : part.isMissing with
  | true =>
      obtain rfl := Stmt.isMissing_iff.1 hpart
      rfl
  | false =>
      rw [Stmt.thenLoop_of_isMissing hpart]
      rfl

theorem Node.Unfolds.declared {n n' : Node} (h : n.Unfolds C n') : n'.declared = n.declared := by
  cases h with
  | stmt inner => cases inner <;> rfl
  | _ => rfl

theorem Node.AllUnfold.declared : ∀ {ns ns' : List Node}, Node.AllUnfold C ns ns' →
    ns'.flatMap Node.declared = ns.flatMap Node.declared
  | _, _, .nil => rfl
  | _, _, .cons first others => by
      rw [List.flatMap_cons, List.flatMap_cons, first.declared, Node.AllUnfold.declared others]

mutual

/-- Taking loops apart keeps the variables that are declared, and their order. -/
theorem Stmt.Unfolds.declared : ∀ {stmt stmt' : Stmt}, stmt.Unfolds C stmt' →
    stmt'.declared = stmt.declared
  | _, _, .missing | _, _, .call | _, _, .assign | _, _, .arrayDecl | _, _, .funcDecl _
  | _, _, .ret => rfl
  | _, _, .varDecl items => Node.AllUnfold.declared items
  | _, _, .ifElse first second => by
      rw [Stmt.declared, Stmt.declared, Block.Unfolds.declared first,
        Block.Unfolds.declared second]
  | _, _, .whileLoop inner => Block.Unfolds.declared inner
  | _, _, .forLoop first last inner => by
      rw [Stmt.declared, Stmt.declared, Stmt.Unfolds.declared first, Stmt.Unfolds.declared last,
        Block.Unfolds.declared inner]
  | _, _, .block inner => Block.Unfolds.declared inner
  | _, _, .apart first _ last inner => by
      simp only [Stmt.declared, Block.declared, Stmt.declaredIn_thenLoop, List.nil_append,
        List.append_assoc, Stmt.Unfolds.declared first, Stmt.Unfolds.declared last,
        Block.Unfolds.declared inner]
  | _, _, .loop first _ inner => by
      simp only [Stmt.declared, Block.declared, Stmt.declaredIn_thenLoop, List.append_nil,
        Stmt.Unfolds.declared first, Block.Unfolds.declared inner]

theorem Block.Unfolds.declared : ∀ {b b' : Block}, b.Unfolds C b' → b'.declared = b.declared
  | _, _, .missing => rfl
  | _, _, .of all => Stmt.AllUnfold.declared all

theorem Stmt.AllUnfold.declared : ∀ {stmts stmts' : List Stmt}, Stmt.AllUnfold C stmts stmts' →
    Stmt.declaredIn stmts' = Stmt.declaredIn stmts
  | _, _, .nil => rfl
  | _, _, .cons first others => by
      rw [Stmt.declaredIn, Stmt.declaredIn, Stmt.Unfolds.declared first,
        Stmt.AllUnfold.declared others]

end

mutual

/-- Taking loops apart keeps where a return ends a statement: no loop does. -/
theorem Stmt.Unfolds.returns : ∀ {stmt stmt' : Stmt}, stmt.Unfolds C stmt' →
    stmt'.returns = stmt.returns
  | _, _, .missing | _, _, .call | _, _, .assign | _, _, .varDecl _ | _, _, .arrayDecl
  | _, _, .ifElse _ _ | _, _, .whileLoop _ | _, _, .forLoop _ _ _ | _, _, .funcDecl _
  | _, _, .ret => rfl
  | _, _, .block inner => Block.Unfolds.returns inner
  | _, _, .apart _ _ _ _ | _, _, .loop _ _ _ => Stmt.lastReturns_thenLoop _ _

theorem Block.Unfolds.returns : ∀ {b b' : Block}, b.Unfolds C b' → b'.returns = b.returns
  | _, _, .missing => rfl
  | _, _, .of all => Stmt.AllUnfold.lastReturns all

theorem Stmt.AllUnfold.lastReturns : ∀ {stmts stmts' : List Stmt},
    Stmt.AllUnfold C stmts stmts' → Stmt.lastReturns stmts' = Stmt.lastReturns stmts
  | _, _, .nil => rfl
  | _, _, .cons first others => by
      have hrest := Stmt.AllUnfold.lastReturns others
      cases others with
      | nil => exact Stmt.Unfolds.returns first
      | cons => exact hrest

end

theorem Stmt.AllUnfold.any_isFuncDecl : ∀ {stmts stmts' : List Stmt},
    Stmt.AllUnfold C stmts stmts' → stmts'.any (!·.isFuncDecl) = stmts.any (!·.isFuncDecl)
  | _, _, .nil => rfl
  | _, _, .cons first others => by
      rw [List.any_cons, List.any_cons, first.isFuncDecl, Stmt.AllUnfold.any_isFuncDecl others]

/-- Whether a program needs an initializer does not change. -/
theorem Block.Unfolds.needsInitializer {b b' : Block} (h : b.Unfolds C b')
    (globals : List Symbol) :
    Analysis.needsInitializer globals b' = Analysis.needsInitializer globals b := by
  cases h with
  | missing => rfl
  | of all =>
      show Except.ok _ = Except.ok _
      rw [all.any_isFuncDecl]

/-- A function, and the same one with some of its `for` loops taken apart. -/
structure FuncDecl.Unfolds (C : CondRule) (d d' : FuncDecl) : Prop where
  pos : d'.pos = d.pos
  name : d'.name = d.name
  body : d.body.Unfolds C d'.body
  function : d'.function = d.function

theorem Stmt.functionsIn_thenLoop {part loop : Stmt} {first others : List FuncDecl}
    (hpart : part.functions = .ok first) (hloop : loop.functions = .ok others) :
    Stmt.functionsIn (part.thenLoop loop) = .ok (first ++ others) := by
  have hlast : Stmt.functionsIn [loop] = .ok others := by
    rw [Stmt.functionsIn, hloop]
    show Except.ok (others ++ []) = _
    rw [List.append_nil]
  cases hmissing : part.isMissing with
  | true =>
      obtain rfl := Stmt.isMissing_iff.1 hmissing
      cases hpart
      exact hlast
  | false =>
      rw [Stmt.thenLoop_of_isMissing hmissing, Stmt.functionsIn, hpart, hlast]
      rfl

/-- What two walks find, one after the other, is related if what each of them finds is. -/
theorem Unfolds.functions_append {x x' y y' : Except Fault (List FuncDecl)}
    (hx : ∀ {ds}, x = .ok ds → ∃ ds', x' = .ok ds' ∧ List.Forall₂ (FuncDecl.Unfolds C) ds ds')
    (hy : ∀ {ds}, y = .ok ds → ∃ ds', y' = .ok ds' ∧ List.Forall₂ (FuncDecl.Unfolds C) ds ds')
    {ds : List FuncDecl} (h : (do return (← x) ++ (← y)) = Except.ok ds) :
    ∃ ds', (do return (← x') ++ (← y')) = Except.ok ds' ∧
      List.Forall₂ (FuncDecl.Unfolds C) ds ds' := by
  obtain ⟨first, hfirst, h⟩ := Except.bind_eq_ok_iff.1 h
  obtain ⟨second, hsecond, h⟩ := Except.bind_eq_ok_iff.1 h
  cases h
  obtain ⟨first', hfirst', hrel⟩ := hx hfirst
  obtain ⟨second', hsecond', hrel'⟩ := hy hsecond
  refine ⟨first' ++ second', ?_, List.rel_append hrel hrel'⟩
  rw [hfirst', hsecond']
  rfl

theorem Stmt.functions_forLoop {pos : Pos} {init step : Stmt} {cond inserted : Expr} {body : Block}
    {ds : List FuncDecl} :
    (Stmt.forLoop pos init cond inserted step body).functions = .ok ds ↔
      ∃ first last inner, init.functions = .ok first ∧ step.functions = .ok last ∧
        body.functions = .ok inner ∧ ds = first ++ (last ++ inner) := by
  rw [Stmt.functions]
  constructor
  · intro h
    obtain ⟨first, hfirst, h⟩ := Except.bind_eq_ok_iff.1 h
    obtain ⟨last, hlast, h⟩ := Except.bind_eq_ok_iff.1 h
    obtain ⟨inner, hinner, h⟩ := Except.bind_eq_ok_iff.1 h
    cases h
    exact ⟨first, last, inner, hfirst, hlast, hinner, List.append_assoc first last inner⟩
  · rintro ⟨first, last, inner, hfirst, hlast, hinner, rfl⟩
    rw [hfirst, hlast, hinner, ← List.append_assoc]
    rfl

mutual

/-- The functions of a tree and of the same one with loops taken apart go together, in order. -/
theorem Stmt.Unfolds.functions : ∀ {stmt stmt' : Stmt} {ds : List FuncDecl},
    stmt.Unfolds C stmt' → stmt.functions = .ok ds →
    ∃ ds', stmt'.functions = .ok ds' ∧ List.Forall₂ (FuncDecl.Unfolds C) ds ds'
  | _, _, _, .missing, h | _, _, _, .call, h | _, _, _, .assign, h | _, _, _, .arrayDecl, h
  | _, _, _, .ret, h => by
      cases h
      exact ⟨[], rfl, .nil⟩
  | _, _, _, .funcDecl inner, h => by
      cases h
      exact ⟨_, rfl, .cons ⟨rfl, rfl, inner, rfl⟩ .nil⟩
  | _, _, _, .varDecl items, h => Node.AllUnfold.functions items h
  | _, _, _, .ifElse first second, h =>
      Unfolds.functions_append (Block.Unfolds.functions first) (Block.Unfolds.functions second) h
  | _, _, _, .whileLoop inner, h => Block.Unfolds.functions inner h
  | _, _, _, .forLoop first last inner, h => by
      obtain ⟨ds₁, ds₂, ds₃, hinit, hstep, hbody, rfl⟩ := Stmt.functions_forLoop.1 h
      obtain ⟨ds₁', hinit', hrel₁⟩ := Stmt.Unfolds.functions first hinit
      obtain ⟨ds₂', hstep', hrel₂⟩ := Stmt.Unfolds.functions last hstep
      obtain ⟨ds₃', hbody', hrel₃⟩ := Block.Unfolds.functions inner hbody
      exact ⟨_, Stmt.functions_forLoop.2 ⟨_, _, _, hinit', hstep', hbody', rfl⟩,
        List.rel_append hrel₁ (List.rel_append hrel₂ hrel₃)⟩
  | _, _, _, .block inner, h => Block.Unfolds.functions inner h
  | _, _, _, .apart first _ last inner, h => by
      obtain ⟨ds₁, ds₂, ds₃, hinit, hstep, hbody, rfl⟩ := Stmt.functions_forLoop.1 h
      obtain ⟨ds₁', hinit', hrel₁⟩ := Stmt.Unfolds.functions first hinit
      obtain ⟨ds₂', hstep', hrel₂⟩ := Stmt.Unfolds.functions last hstep
      obtain ⟨ds₃', hbody', hrel₃⟩ := Block.Unfolds.functions inner hbody
      exact ⟨_, Stmt.functionsIn_thenLoop hinit'
          (Stmt.functions_forLoop.2 ⟨[], _, _, rfl, hstep', hbody', rfl⟩),
        List.rel_append hrel₁ (List.rel_append hrel₂ hrel₃)⟩
  | _, _, _, .loop first _ inner, h => by
      obtain ⟨ds₁, ds₂, ds₃, hinit, hstep, hbody, rfl⟩ := Stmt.functions_forLoop.1 h
      cases hstep
      obtain ⟨ds₁', hinit', hrel₁⟩ := Stmt.Unfolds.functions first hinit
      obtain ⟨ds₃', hbody', hrel₃⟩ := Block.Unfolds.functions inner hbody
      exact ⟨_, Stmt.functionsIn_thenLoop hinit' hbody', List.rel_append hrel₁ hrel₃⟩

theorem Block.Unfolds.functions : ∀ {b b' : Block} {ds : List FuncDecl},
    b.Unfolds C b' → b.functions = .ok ds →
    ∃ ds', b'.functions = .ok ds' ∧ List.Forall₂ (FuncDecl.Unfolds C) ds ds'
  | _, _, _, .missing, h => by
      cases h
      exact ⟨[], rfl, .nil⟩
  | _, _, _, .of all, h => Stmt.AllUnfold.functions all h

theorem Stmt.AllUnfold.functions : ∀ {stmts stmts' : List Stmt} {ds : List FuncDecl},
    Stmt.AllUnfold C stmts stmts' → Stmt.functionsIn stmts = .ok ds →
    ∃ ds', Stmt.functionsIn stmts' = .ok ds' ∧ List.Forall₂ (FuncDecl.Unfolds C) ds ds'
  | _, _, _, .nil, h => by
      cases h
      exact ⟨[], rfl, .nil⟩
  | _, _, _, .cons first others, h =>
      Unfolds.functions_append (Stmt.Unfolds.functions first) (Stmt.AllUnfold.functions others) h

theorem Node.Unfolds.functions : ∀ {n n' : Node} {ds : List FuncDecl},
    n.Unfolds C n' → n.functions = .ok ds →
    ∃ ds', n'.functions = .ok ds' ∧ List.Forall₂ (FuncDecl.Unfolds C) ds ds'
  | _, _, _, .stmt inner, h => Stmt.Unfolds.functions inner h
  | _, _, _, .expr, h | _, _, _, .param, h | _, _, _, .params, h => by
      cases h
      exact ⟨[], rfl, .nil⟩

theorem Node.AllUnfold.functions : ∀ {ns ns' : List Node} {ds : List FuncDecl},
    Node.AllUnfold C ns ns' → Node.functionsIn ns = .ok ds →
    ∃ ds', Node.functionsIn ns' = .ok ds' ∧ List.Forall₂ (FuncDecl.Unfolds C) ds ds'
  | _, _, _, .nil, h => by
      cases h
      exact ⟨[], rfl, .nil⟩
  | _, _, _, .cons first others, h =>
      Unfolds.functions_append (Node.Unfolds.functions first) (Node.AllUnfold.functions others) h

end

end

/-! ## Lowering to CIL -/

namespace Cil

/-- A condition that is written out has the code of the one that was inserted. -/
theorem lowerExpr_of_rule {cond inserted cond' : Expr} (h : CondRule.checked cond inserted cond')
    (c : Context) : lowerExpr c cond' = lowerLoopCond c cond inserted := by
  unfold lowerLoopCond
  rcases h with ⟨hthere, rfl⟩ | ⟨rfl, _, _, _, _, _, rfl, rfl⟩
  · rw [hthere]
    rfl
  · rfl

theorem lowerLoopCond_of_rule {cond inserted cond' : Expr}
    (h : CondRule.checked cond inserted cond') (c : Context) :
    lowerLoopCond c cond' .missing = lowerLoopCond c cond inserted := by
  rw [← lowerExpr_of_rule h, lowerLoopCond, h.isMissing]
  rfl

/-- The code of a loop without its first part, where `cond` is the code of its condition. -/
def lowerLoop (c : Context) (n : Nat) (body : Block) (step : Stmt)
    (cond : Except Fault (List Instr)) : Except Fault (Nat × List Instr) := do
  let (m, body) ← lowerBlock c (n + 1) body
  let (m, step) ← lowerPart c m step
  let cond ← cond
  return (m, loopCode (n + 1) body step cond)

theorem lowerStmt_forLoop_eq (c : Context) (n : Nat) (pos : Pos) (init step : Stmt)
    (cond inserted : Expr) (body : Block) :
    lowerStmt c n (.forLoop pos init cond inserted step body) = (do
      let (n, code) ← lowerPart c n init
      let (n, more) ← lowerLoop c n body step (lowerLoopCond c cond inserted)
      return (n, code ++ more)) := by
  simp only [lowerStmt_forLoop, lowerLoop, bind_assoc, pure_bind]

theorem lowerStmt_forLoop_missing (c : Context) (n : Nat) (pos : Pos) (step : Stmt)
    (cond inserted : Expr) (body : Block) :
    lowerStmt c n (.forLoop pos .missing cond inserted step body) =
      lowerLoop c n body step (lowerLoopCond c cond inserted) := lowerStmt_forLoop ..

theorem lowerStmt_whileLoop (c : Context) (n : Nat) (pos : Pos) (cond : Expr) (body : Block) :
    lowerStmt c n (.whileLoop pos cond body) =
      lowerLoop c n body .missing (lowerExpr c cond) := by
  rw [lowerStmt]
  rfl

theorem lowerStmts_thenLoop (c : Context) (n : Nat) (part loop : Stmt) :
    lowerStmts c n (part.thenLoop loop) = (do
      let (n, code) ← lowerPart c n part
      let (n, more) ← lowerStmt c n loop
      return (n, code ++ more)) := by
  have hlast : ∀ m, lowerStmts c m [loop] = lowerStmt c m loop := by
    intro m
    rw [lowerStmts]
    cases lowerStmt c m loop with
    | error f => rfl
    | ok out =>
        show Except.ok (out.1, out.2 ++ []) = _
        rw [List.append_nil]
  cases hpart : part.isMissing with
  | true =>
      obtain rfl := Stmt.isMissing_iff.1 hpart
      show lowerStmts c n [loop] = lowerStmt c n loop >>= _
      rw [hlast]
      cases lowerStmt c n loop <;> rfl
  | false =>
      rw [Stmt.thenLoop_of_isMissing hpart, lowerStmts]
      simp only [hlast]
      unfold lowerPart
      rw [hpart]
      rfl

theorem lowerVars_cons_unfolds {C : CondRule} (c : Context) {n n' : Node} {rest rest' : List Node}
    (h : n.Unfolds C n') (hrest : lowerVars c rest' = lowerVars c rest) :
    lowerVars c (n' :: rest') = lowerVars c (n :: rest) := by
  cases h with
  | stmt inner =>
      cases inner with
      | assign => rw [lowerVars, lowerVars, hrest]
      | _ => exact hrest
  | _ => exact hrest

theorem lowerVars_unfolds {C : CondRule} (c : Context) : ∀ {ns ns' : List Node},
    Node.AllUnfold C ns ns' → lowerVars c ns' = lowerVars c ns
  | _, _, .nil => rfl
  | _, _, .cons first others => lowerVars_cons_unfolds c first (lowerVars_unfolds c others)

theorem lowerPart_unfolds {C : CondRule} {c : Context} {n : Nat} {part part' : Stmt}
    (h : part.Unfolds C part') (hstmt : lowerStmt c n part' = lowerStmt c n part) :
    lowerPart c n part' = lowerPart c n part := by
  unfold lowerPart
  rw [h.isMissing, hstmt]

mutual

/-- Related statements have the same code. -/
theorem lowerStmt_unfolds (c : Context) : ∀ {stmt stmt' : Stmt} (n : Nat),
    stmt.Unfolds CondRule.checked stmt' → lowerStmt c n stmt' = lowerStmt c n stmt
  | _, _, _, .missing | _, _, _, .call | _, _, _, .assign | _, _, _, .arrayDecl
  | _, _, _, .funcDecl _ | _, _, _, .ret => rfl
  | _, _, n, .varDecl items => by
      rw [lowerStmt, lowerStmt, lowerVars_unfolds c items]
  | _, _, n, .ifElse first second => by
      simp only [lowerStmt, lowerBlock_unfolds c _ first, lowerBlock_unfolds c _ second]
  | _, _, n, .whileLoop inner => by
      simp only [lowerStmt, lowerBlock_unfolds c _ inner]
  | _, _, n, .forLoop first last inner => by
      simp only [lowerStmt_forLoop, lowerPart_unfolds first (lowerStmt_unfolds c _ first),
        lowerPart_unfolds last (lowerStmt_unfolds c _ last), lowerBlock_unfolds c _ inner]
  | _, _, n, .block inner => by
      rw [lowerStmt, lowerStmt]
      exact lowerBlock_unfolds c n inner
  | _, _, n, .apart first test last inner => by
      show lowerStmts c n (Stmt.thenLoop _ _) = _
      simp only [lowerStmts_thenLoop, lowerStmt_forLoop_missing]
      simp only [lowerStmt_forLoop_eq, lowerLoop,
        lowerPart_unfolds first (lowerStmt_unfolds c _ first),
        lowerPart_unfolds last (lowerStmt_unfolds c _ last), lowerBlock_unfolds c _ inner,
        lowerLoopCond_of_rule test]
  | _, _, n, .loop first test inner => by
      show lowerStmts c n (Stmt.thenLoop _ _) = _
      simp only [lowerStmts_thenLoop, lowerStmt_whileLoop, lowerStmt_forLoop_eq, lowerLoop,
        lowerPart_unfolds first (lowerStmt_unfolds c _ first), lowerBlock_unfolds c _ inner,
        lowerExpr_of_rule test]

theorem lowerBlock_unfolds (c : Context) : ∀ {b b' : Block} (n : Nat),
    b.Unfolds CondRule.checked b' → lowerBlock c n b' = lowerBlock c n b
  | _, _, _, .missing => rfl
  | _, _, n, .of all => lowerStmts_unfolds c n all

theorem lowerStmts_unfolds (c : Context) : ∀ {stmts stmts' : List Stmt} (n : Nat),
    Stmt.AllUnfold CondRule.checked stmts stmts' → lowerStmts c n stmts' = lowerStmts c n stmts
  | _, _, _, .nil => rfl
  | _, _, n, .cons first others => by
      simp only [lowerStmts, lowerStmt_unfolds c _ first, lowerStmts_unfolds c _ others]

end

theorem lowerFunction_unfolds (fold : Bool) (n : Nat) {d d' : FuncDecl}
    (h : d.Unfolds CondRule.checked d') : lowerFunction fold n d' = lowerFunction fold n d := by
  unfold lowerFunction FuncDecl.described
  rw [h.function, h.name, h.pos, h.body.declared, h.body.returns]
  simp only [lowerBlock_unfolds _ n h.body]

theorem lowerFunctions_unfolds (fold : Bool) (n : Nat) {ds ds' : List FuncDecl}
    (h : List.Forall₂ (FuncDecl.Unfolds CondRule.checked) ds ds') :
    lowerFunctions fold n ds' = lowerFunctions fold n ds := by
  induction h generalizing n with
  | nil => rfl
  | cons first _ ih =>
      rw [lowerFunctions, lowerFunctions, lowerFunction_unfolds fold n first]
      simp only [ih]

/-- Related programs have the same assembly. -/
theorem Assembly.ofAnalysis_unfolds {a a' : Analysis} (opts : Options)
    (h : a.program.Unfolds CondRule.checked a'.program) (hglobals : a'.globals = a.globals)
    {ds : List FuncDecl} (hds : a.program.functions = .ok ds) :
    Assembly.ofAnalysis a' opts = Assembly.ofAnalysis a opts := by
  obtain ⟨ds', hds', hrel⟩ := h.functions hds
  unfold Assembly.ofAnalysis lowerInitializer
  rw [hglobals, h.needsInitializer a.globals, show a.program.functions = pure ds from hds,
    show a'.program.functions = pure ds' from hds']
  simp only [lowerBlock_unfolds _ _ h, pure_bind, lowerFunctions_unfolds _ _ hrel]

end Cil

/-! ## Lowering to LLVM -/

namespace Llvm

/-- A condition that is written out has the code of the one that was inserted. -/
theorem lowerExpr_of_rule {cond inserted cond' : Expr} (h : CondRule.checked cond inserted cond')
    (c : Context) : lowerExpr c cond' = lowerLoopCond c cond inserted := by
  unfold lowerLoopCond
  rcases h with ⟨hthere, rfl⟩ | ⟨rfl, _, _, _, _, _, rfl, rfl⟩
  · rw [hthere]
    rfl
  · rfl

theorem lowerLoopCond_of_rule {cond inserted cond' : Expr}
    (h : CondRule.checked cond inserted cond') (c : Context) :
    lowerLoopCond c cond' .missing = lowerLoopCond c cond inserted := by
  rw [← lowerExpr_of_rule h, lowerLoopCond, h.isMissing]
  rfl

theorem lowerStmts_thenLoop (c : Context) (part loop : Stmt) :
    lowerStmts c (part.thenLoop loop) = (do
      lowerPart c part
      lowerStmt c loop) := by
  have hlast : lowerStmts c [loop] = lowerStmt c loop := by
    rw [lowerStmts, lowerStmts]
    exact bind_pure (lowerStmt c loop)
  cases hpart : part.isMissing with
  | true =>
      obtain rfl := Stmt.isMissing_iff.1 hpart
      show lowerStmts c [loop] = pure () >>= _
      rw [hlast, pure_bind]
  | false =>
      rw [Stmt.thenLoop_of_isMissing hpart, lowerStmts, hlast]
      unfold lowerPart
      rw [hpart]
      rfl

theorem lowerStmt_forLoop_missing (c : Context) (pos : Pos) (step : Stmt) (cond inserted : Expr)
    (body : Block) :
    lowerStmt c (.forLoop pos .missing cond inserted step body) =
      lowerLoop (lowerBlock c body) (lowerPart c step) (lowerLoopCond c cond inserted) := by
  rw [lowerStmt_forLoop]
  exact pure_bind ..

theorem lowerVars_cons_unfolds {C : CondRule} (c : Context) {n n' : Node} {rest rest' : List Node}
    (h : n.Unfolds C n') (hrest : lowerVars c rest' = lowerVars c rest) :
    lowerVars c (n' :: rest') = lowerVars c (n :: rest) := by
  cases h with
  | stmt inner =>
      cases inner with
      | assign => rw [lowerVars, lowerVars, hrest]
      | _ => exact hrest
  | _ => exact hrest

theorem lowerVars_unfolds {C : CondRule} (c : Context) : ∀ {ns ns' : List Node},
    Node.AllUnfold C ns ns' → lowerVars c ns' = lowerVars c ns
  | _, _, .nil => rfl
  | _, _, .cons first others => lowerVars_cons_unfolds c first (lowerVars_unfolds c others)

theorem lowerPart_unfolds {C : CondRule} {c : Context} {part part' : Stmt}
    (h : part.Unfolds C part') (hstmt : lowerStmt c part' = lowerStmt c part) :
    lowerPart c part' = lowerPart c part := by
  unfold lowerPart
  rw [h.isMissing, hstmt]

mutual

/-- Related statements have the same code. -/
theorem lowerStmt_unfolds (c : Context) : ∀ {stmt stmt' : Stmt},
    stmt.Unfolds CondRule.checked stmt' → lowerStmt c stmt' = lowerStmt c stmt
  | _, _, .missing | _, _, .call | _, _, .assign | _, _, .arrayDecl | _, _, .funcDecl _
  | _, _, .ret => rfl
  | _, _, .varDecl items => by
      rw [lowerStmt, lowerStmt, lowerVars_unfolds c items]
  | _, _, .ifElse first second => by
      rw [lowerStmt, lowerStmt, lowerBlock_unfolds c first, lowerBlock_unfolds c second]
  | _, _, .whileLoop inner => by
      rw [lowerStmt, lowerStmt, lowerBlock_unfolds c inner]
  | _, _, .forLoop first last inner => by
      rw [lowerStmt_forLoop, lowerStmt_forLoop, lowerPart_unfolds first (lowerStmt_unfolds c first),
        lowerPart_unfolds last (lowerStmt_unfolds c last), lowerBlock_unfolds c inner]
  | _, _, .block inner => by
      rw [lowerStmt, lowerStmt, lowerBlock_unfolds c inner]
  | _, _, .apart first test last inner => by
      show lowerStmts c (Stmt.thenLoop _ _) = _
      rw [lowerStmts_thenLoop, lowerStmt_forLoop_missing, lowerStmt_forLoop,
        lowerPart_unfolds first (lowerStmt_unfolds c first),
        lowerPart_unfolds last (lowerStmt_unfolds c last), lowerBlock_unfolds c inner,
        lowerLoopCond_of_rule test]
  | _, _, .loop first test inner => by
      show lowerStmts c (Stmt.thenLoop _ _) = _
      rw [lowerStmts_thenLoop, lowerStmt, lowerStmt_forLoop,
        lowerPart_unfolds first (lowerStmt_unfolds c first), lowerBlock_unfolds c inner,
        lowerExpr_of_rule test]
      rfl

theorem lowerBlock_unfolds (c : Context) : ∀ {b b' : Block},
    b.Unfolds CondRule.checked b' → lowerBlock c b' = lowerBlock c b
  | _, _, .missing => rfl
  | _, _, .of all => lowerStmts_unfolds c all

theorem lowerStmts_unfolds (c : Context) : ∀ {stmts stmts' : List Stmt},
    Stmt.AllUnfold CondRule.checked stmts stmts' → lowerStmts c stmts' = lowerStmts c stmts
  | _, _, .nil => rfl
  | _, _, .cons first others => by
      rw [lowerStmts, lowerStmts, lowerStmt_unfolds c first, lowerStmts_unfolds c others]

end

theorem lowerFunction_unfolds (fold initialized : Bool) {d d' : FuncDecl}
    (h : d.Unfolds CondRule.checked d') (f : Function) :
    lowerFunction fold initialized d' f = lowerFunction fold initialized d f := by
  unfold lowerFunction
  rw [h.body.declared, lowerBlock_unfolds _ h.body]

theorem lowerFunctions_unfolds (fold initialized : Bool) (c : Cursor) {ds ds' : List FuncDecl}
    (h : List.Forall₂ (FuncDecl.Unfolds CondRule.checked) ds ds') :
    lowerFunctions fold initialized c ds' = lowerFunctions fold initialized c ds := by
  induction h generalizing c with
  | nil => rfl
  | @cons d d' _ _ first _ ih =>
      have hdescribed : d'.described = d.described := by
        unfold FuncDecl.described
        rw [first.function, first.name, first.pos]
      rw [lowerFunctions, lowerFunctions, hdescribed]
      simp only [lowerFunction_unfolds fold initialized first, ih]

/-- Related programs have the same module. -/
theorem Module.ofAnalysis_unfolds {a a' : Analysis} (opts : Options)
    (h : a.program.Unfolds CondRule.checked a'.program) (hglobals : a'.globals = a.globals)
    {ds : List FuncDecl} (hds : a.program.functions = .ok ds) :
    Module.ofAnalysis a' opts = Module.ofAnalysis a opts := by
  obtain ⟨ds', hds', hrel⟩ := h.functions hds
  unfold Module.ofAnalysis lowerInitializer
  rw [hglobals, h.needsInitializer a.globals, lowerBlock_unfolds _ h,
    show a.program.functions = pure ds from hds, show a'.program.functions = pure ds' from hds']
  simp only [pure_bind, lowerFunctions_unfolds _ _ _ hrel]

end Llvm

end SmallC
