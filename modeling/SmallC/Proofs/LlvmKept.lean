import Mathlib.Algebra.GroupWithZero.Nat
import SmallC.Proofs.CilReplaced
import SmallC.Proofs.LlvmBlocks

/-!
# What folding keeps of LLVM

With and without folding the same instructions come up in the same order, apart
from those that compute constants. Only their operands differ, and nothing in the
lowering looks at an operand. So the two runs take the same steps, and each step
is compared with itself.

What does differ is where a block is opened after control has left the one
before. Without folding it is the code of a constant that opens it. With folding
that code may be gone, and then the first instruction that is left opens it. In
between one run has given out a number that the other has not. `Owes` says that
this is all that can happen: the run without folding is either even with the
other or one label ahead, and the label is the one the other puts down next.
Numbers come out the same because a control structure takes its number where the
two runs are even, and they are even after every instruction that is no part of a
constant.
-/

namespace SmallC

/-! ## The constants of a tree -/

mutual

/-- The largest constant expressions in an expression, in the order in which they are lowered. -/
def Expr.constants : Expr → List Expr
  | .missing | .ident _ => []
  | .literal pos text value note => [.literal pos text value note]
  | .convert pos x dst => if x.isConstant then [.convert pos x dst] else x.constants
  | .unary pos op x note => if x.isConstant then [.unary pos op x note] else x.constants
  | .binary pos op x y note =>
    if x.isConstant && y.isConstant then [.binary pos op x y note]
    else x.constants ++ y.constants
  | .index _ _ i _ => i.constants
  | .call _ _ args _ => Expr.constantsOf args

/-- The same of several expressions. -/
def Expr.constantsOf : List Expr → List Expr
  | [] => []
  | e :: rest => e.constants ++ Expr.constantsOf rest

end

theorem Expr.constants_of_isConstant {e : Expr} (h : e.isConstant = true) : e.constants = [e] := by
  cases e with
  | literal pos text value note => rw [constants]
  | convert pos x dst | unary pos op x note | binary pos op x y note =>
      rw [isConstant] at h
      rw [constants, if_pos h]
  | missing | ident _ | index _ _ _ _ | call _ _ _ _ => cases h

/-- The constants of the initial values in a declaration. -/
def Node.constantsOf : List Node → List Expr
  | [] => []
  | .stmt (.assign _ target value _) :: rest =>
    target.constants ++ value.constants ++ Node.constantsOf rest
  | _ :: rest => Node.constantsOf rest

mutual

/-- The largest constant expressions in a statement, in the order in which they are lowered. -/
def Stmt.constants : Stmt → List Expr
  | .missing => []
  | .call _ _ args _ => Expr.constantsOf args
  | .assign _ target value _ => target.constants ++ value.constants
  | .varDecl _ _ vars => Node.constantsOf vars
  | .arrayDecl _ _ _ size => size.constants
  | .ifElse _ cond yes no => cond.constants ++ (yes.constants ++ no.constants)
  | .whileLoop _ cond body => body.constants ++ cond.constants
  | .forLoop _ init cond inserted step body =>
    init.constants ++ (body.constants ++ (step.constants ++
      if cond.isMissing then inserted.constants else cond.constants))
  | .block b => b.constants
  | .funcDecl _ _ _ _ _ _ _ => []
  | .ret _ value => value.constants

/-- The same of a block. -/
def Block.constants : Block → List Expr
  | .missing => []
  | .of _ stmts => Stmt.constantsOf stmts

/-- The same of several statements. -/
def Stmt.constantsOf : List Stmt → List Expr
  | [] => []
  | s :: rest => s.constants ++ Stmt.constantsOf rest

end

namespace Llvm

open Emit

/-! ## Deleting constants -/

/-- Each of the expressions is constant, and the second piece of code is what remains of the first
one when the code of the expressions is deleted from it, one after the other. Labels stay, for they
compute nothing. -/
inductive Remains (c : Context) : List Expr → List Instr → List Instr → Prop where
  | nil : Remains c [] [] []
  | keep (i : Instr) {es : List Expr} {code kept : List Instr} (rest : Remains c es code kept) :
      Remains c es (i :: code) (i :: kept)
  | delete {e : Expr} {start : Cursor} {out : Emitted Operand} {es : List Expr}
      {code kept : List Instr} (constant : e.isConstant = true)
      (lowered : lowerExpr c e start = .ok out) (rest : Remains c es code kept) :
      Remains c (e :: es) (out.code ++ code) ((labels out.code).map .label ++ kept)

/-- What an instruction is without its operands: its opcode, the label it puts down, and the labels
it branches to. -/
structure Shape where
  op : String
  label? : Option Label
  targets : List Label
deriving DecidableEq, Repr

/-- The shape of an instruction. -/
def Instr.shape (i : Instr) : Shape := ⟨i.render.op, i.label?, i.targets⟩

/-- The number of instructions, labels not counted. -/
def work (code : List Instr) : Nat := code.countP (!·.label?.isSome)

@[simp]
theorem work_append (code more : List Instr) : work (code ++ more) = work code + work more :=
  List.countP_append

@[simp]
theorem labels_append (code more : List Instr) : labels (code ++ more) = labels code ++ labels more :=
  List.filterMap_append

theorem labels_shapes (code : List Instr) : labels code = (code.map Instr.shape).filterMap (·.label?) := by
  rw [labels, List.filterMap_map]
  rfl

theorem work_shapes (code : List Instr) :
    work code = (code.map Instr.shape).countP (!·.label?.isSome) := by
  rw [work, List.countP_map]
  rfl

/-- Code is as long as its labels and the rest together. -/
theorem length_eq (code : List Instr) : code.length = (labels code).length + work code := by
  induction code with
  | nil => rfl
  | cons i rest ih =>
      simp only [labels, work] at ih ⊢
      cases hi : i.label? <;> simp [hi, ih] <;> omega

theorem labels_map_label (ls : List Label) : labels (ls.map .label) = ls := by
  induction ls with
  | nil => rfl
  | cons l rest ih => exact congrArg (l :: ·) ih

theorem work_map_label (ls : List Label) : work (ls.map .label) = 0 := by
  simp [work, List.countP_eq_zero, Instr.label?]

namespace Remains

variable {c : Context} {es es' : List Expr} {code code' kept kept' : List Instr}

theorem refl (c : Context) (code : List Instr) : Remains c [] code code := by
  induction code with
  | nil => exact .nil
  | cons i rest ih => exact .keep i ih

theorem append (h : Remains c es code kept) (h' : Remains c es' code' kept') :
    Remains c (es ++ es') (code ++ code') (kept ++ kept') := by
  induction h with
  | nil => exact h'
  | keep i _ ih => exact .keep i ih
  | delete constant lowered _ ih =>
      rw [List.append_assoc, List.append_assoc]
      exact .delete constant lowered ih

theorem single {e : Expr} {start : Cursor} {out : Emitted Operand} (constant : e.isConstant = true)
    (lowered : lowerExpr c e start = .ok out) :
    Remains c [e] out.code ((labels out.code).map .label) := by
  simpa using Remains.delete constant lowered .nil

/-- No label is deleted. -/
theorem labels_eq (h : Remains c es code kept) : labels code = labels kept := by
  induction h with
  | nil => rfl
  | keep i _ ih => simp only [labels, List.filterMap_cons] at ih ⊢; rw [ih]
  | delete _ _ _ ih => rw [labels_append, labels_append, labels_map_label, ih]

/-- How much the code of a constant expression is. -/
def Costs (c : Context) (e : Expr) (n : Nat) : Prop :=
  e.isConstant = true ∧ ∃ start out, lowerExpr c e start = .ok out ∧ work out.code = n

/-- What is deleted adds up. -/
theorem costs (h : Remains c es code kept) :
    ∃ ns, List.Forall₂ (Costs c) es ns ∧ work code = work kept + ns.sum := by
  induction h with
  | nil => exact ⟨[], .nil, rfl⟩
  | @keep i es code kept _ ih =>
      obtain ⟨ns, hns, hsum⟩ := ih
      refine ⟨ns, hns, ?_⟩
      rw [← List.singleton_append, ← List.singleton_append (l := kept), work_append, work_append,
        hsum, Nat.add_assoc]
  | @delete e start out es code kept constant lowered _ ih =>
      obtain ⟨ns, hns, hsum⟩ := ih
      refine ⟨_, .cons ⟨constant, start, out, lowered, rfl⟩ hns, ?_⟩
      rw [work_append, work_append, work_map_label, hsum, List.sum_cons]
      omega

end Remains

/-! ## How a plain step moves -/

/-- What some code does to the cursor, labels and registers apart: it opens a block exactly if it
starts in a closed one and has an instruction. -/
structure Moves (c c' : Cursor) (code : List Instr) : Prop where
  labels : labels code = if c.closed ∧ work code ≠ 0 then [.after (c.control + 1)] else []
  closed : c'.closed = (c.closed && work code == 0)
  control : c'.control = c.control + (Llvm.labels code).length

theorem Moves.append {c c₁ c₂ : Cursor} {code more : List Instr} (h : Moves c c₁ code)
    (h' : Moves c₁ c₂ more) : Moves c c₂ (code ++ more) := by
  obtain ⟨hl, hc, hn⟩ := h
  obtain ⟨hl', hc', hn'⟩ := h'
  refine ⟨?_, ?_, ?_⟩
  · rw [labels_append, work_append, hl', hc, hn, hl]
    cases c.closed <;> by_cases hw : work code = 0 <;> simp [hw]
  · rw [hc', hc, work_append, Bool.eq_iff_iff]
    cases c.closed <;> simp
  · rw [hn', hn, labels_append, List.length_append, Nat.add_assoc]

/-- In an open block nothing moves. -/
theorem Moves.straight {c c' : Cursor} {code : List Instr} (h : Moves c c' code)
    (hc : c.closed = false) :
    Llvm.labels code = [] ∧ c'.closed = false ∧ c'.control = c.control := by
  obtain ⟨hl, hclosed, hcontrol⟩ := h
  rw [hl] at hcontrol
  simpa [hc] using And.intro hl (And.intro hclosed hcontrol)

/-- In a closed block nothing moves where there is no instruction. -/
theorem Moves.idle {c c' : Cursor} {code : List Instr} (h : Moves c c' code) (hc : c.closed = true)
    (hw : work code = 0) : Llvm.labels code = [] ∧ c'.closed = true ∧ c'.control = c.control := by
  obtain ⟨hl, hclosed, hcontrol⟩ := h
  rw [hl] at hcontrol
  simpa [hc, hw] using And.intro hl (And.intro hclosed hcontrol)

/-- In a closed block the first instruction opens another. -/
theorem Moves.opening {c c' : Cursor} {code : List Instr} (h : Moves c c' code)
    (hc : c.closed = true) (hw : work code ≠ 0) :
    Llvm.labels code = [.after (c.control + 1)] ∧ c'.closed = false ∧
      c'.control = c.control + 1 := by
  obtain ⟨hl, hclosed, hcontrol⟩ := h
  rw [hl] at hcontrol
  simpa [hc, hw, beq_eq_false_iff_ne.2 hw] using And.intro hl (And.intro hclosed hcontrol)

theorem instr_moves {i : Instr} (plain : i.isPlain = true) {c : Cursor} {out : Emitted Unit}
    (h : instr i c = .ok out) : Moves c out.cursor out.code := by
  have hl := Instr.label?_of_isPlain plain
  have ht := Instr.isTerminator_of_isPlain plain
  cases hc : c.closed with
  | false =>
      rw [instr_eq (live_open hc)] at h
      cases h
      exact ⟨by simp [labels, hl, hc], by simp [ht, hc], by simp [labels, hl]⟩
  | true =>
      rw [instr_eq (live_closed hc)] at h
      cases h
      have hlabel : ∀ l, (Instr.label l).label? = some l := fun _ => rfl
      refine ⟨?_, ?_, ?_⟩ <;> simp [labels, work, hl, hlabel, hc, ht, Cursor.opened]

theorem instr_work {i : Instr} (hl : i.label? = none) {c : Cursor} {out : Emitted Unit}
    (h : instr i c = .ok out) : work out.code = 1 := by
  have hone : work [i] = 1 := by simp [work, hl]
  cases hc : c.closed with
  | false =>
      rw [instr_eq (live_open hc)] at h
      cases h
      exact hone
  | true =>
      rw [instr_eq (live_closed hc)] at h
      cases h
      rw [work_append, hone]
      rfl

theorem define_work {root : String} {i : Reg → Instr} (hi : ∀ q, (i q).isPlain = true) {c : Cursor}
    {out : Emitted Operand} (h : define root i c = .ok out) : work out.code = 1 := by
  obtain ⟨first, second, hfirst, hsecond, rfl⟩ := bind_eq_ok_iff.1 h
  cases hfirst
  obtain ⟨added, last, hadded, hlast, rfl⟩ := bind_eq_ok_iff.1 hsecond
  cases hlast
  rw [work_append, work_append, instr_work (Instr.label?_of_isPlain (hi _)) hadded]
  rfl

theorem Emit.Plain.moves {α : Type} {x : Emit α} (h : Plain x) :
    ∀ {c : Cursor} {out : Emitted α}, x c = .ok out → Moves c out.cursor out.code := by
  have hnil : ∀ c : Cursor, Moves c c [] := fun c => ⟨by simp [labels, work], by simp [work], rfl⟩
  induction h with
  | done a =>
      intro c out hx
      cases hx
      exact hnil c
  | fail f => intro c out hx; cases hx
  | use s =>
      intro c out hx
      cases hx
      exact { hnil c with }
  | instr plain _ => exact fun hx => instr_moves plain hx
  | @define root i plain dest =>
      intro c out hx
      obtain ⟨first, second, hfirst, hsecond, rfl⟩ := bind_eq_ok_iff.1 hx
      cases hfirst
      obtain ⟨added, last, hadded, hlast, rfl⟩ := bind_eq_ok_iff.1 hsecond
      cases hlast
      obtain ⟨hl, hc, hn⟩ := instr_moves (plain _) hadded
      simp only [List.append_nil, List.nil_append]
      exact ⟨hl, hc, hn⟩
  | bind _ _ ihx ihf =>
      intro c out hx
      obtain ⟨first, second, hfirst, hsecond, rfl⟩ := bind_eq_ok_iff.1 hx
      exact (ihx hfirst).append (ihf _ hsecond)

/-! ## The code of a constant does not grow -/

/-- The second step never adds more instructions than the first, wherever they start. -/
def Shrinks {α β : Type} (x : Emit α) (y : Emit β) : Prop :=
  ∀ ⦃c c' : Cursor⦄ ⦃out : Emitted α⦄ ⦃out' : Emitted β⦄, x c = .ok out → y c' = .ok out' →
    work out'.code ≤ work out.code

namespace Shrinks

variable {α β γ δ : Type} {x : Emit α} {y : Emit β}

/-- Nothing is less than anything. -/
theorem pure (b : β) : Shrinks x (Pure.pure b : Emit β) := by
  intro c c' out out' _ hy
  cases hy
  exact Nat.zero_le _

theorem fail (e : Fault) : Shrinks (Emit.fail e : Emit α) y := by
  intro c c' out out' hx
  cases hx

theorem ofExcept (z : Except Fault β) : Shrinks x (Emit.ofExcept z) := by
  cases z with
  | error e => exact fun _ _ _ _ _ hy => nomatch hy
  | ok b => exact .pure b

theorem bind {k : α → Emit γ} {k' : β → Emit δ} (h : Shrinks x y)
    (hk : ∀ a b, Shrinks (k a) (k' b)) : Shrinks (x >>= k) (y >>= k') := by
  intro c c' out out' hx hy
  obtain ⟨first, second, hfirst, hsecond, rfl⟩ := bind_eq_ok_iff.1 hx
  obtain ⟨first', second', hfirst', hsecond', rfl⟩ := bind_eq_ok_iff.1 hy
  rw [work_append, work_append]
  exact Nat.add_le_add (h hfirst hfirst') (hk _ _ hsecond hsecond')

/-- The same thing is asked on both sides. -/
theorem asked {z : Except Fault α} {k : α → Emit γ} {k' : α → Emit δ}
    (hk : ∀ a, Shrinks (k a) (k' a)) : Shrinks (Emit.ofExcept z >>= k) (Emit.ofExcept z >>= k') := by
  cases z with
  | error e => exact fun _ _ _ _ hx => nomatch hx
  | ok a =>
      show Shrinks (Pure.pure a >>= k) (Pure.pure a >>= k')
      rw [pure_bind, pure_bind]
      exact hk a

theorem define {root root' : String} {i i' : Reg → Instr} (hi : ∀ q, (i q).isPlain = true)
    (hi' : ∀ q, (i' q).isPlain = true) : Shrinks (Emit.define root i) (Emit.define root' i') := by
  intro c c' out out' hx hy
  exact Nat.le_of_eq ((define_work hi' hy).trans (define_work hi hx).symm)

end Shrinks

theorem convertBase_shrinks (pos : Pos) (src dst : Base) (x y : Operand) :
    Shrinks (convertBase pos src dst x) (convertBase pos src dst y) := by
  unfold convertBase
  split
  · exact .pure _
  · split
    · split <;> exact .define (fun _ => rfl) fun _ => rfl
    · split
      · exact .define (fun _ => rfl) fun _ => rfl
      · exact .fail _

theorem convert_shrinks (pos : Pos) (src : Option Ty) (dst : Base) (x y : Operand) :
    Shrinks (convert pos src dst x) (convert pos src dst y) := by
  unfold convert
  split
  · exact convertBase_shrinks _ _ _ _ _
  · exact .fail _

section

variable {f : Option Function} {e : Expr} {raw raw' : Emit Operand}

theorem plain_false : plain ⟨false, f⟩ e raw = raw := by
  unfold plain
  split
  · rfl
  · rw [Context.folded?_false]

theorem plain_shrinks (h : Shrinks raw raw') :
    Shrinks (plain ⟨false, f⟩ e raw) (plain ⟨true, f⟩ e raw') := by
  rw [plain_false]
  unfold plain
  split
  · exact h
  · split
    · exact .pure _
    · exact h

theorem used_shrinks (h : Shrinks raw raw') :
    Shrinks (used ⟨false, f⟩ e raw) (used ⟨true, f⟩ e raw') := by
  unfold used
  split
  · exact plain_shrinks h
  · rw [Context.folded?_false]
    dsimp only
    split
    · exact .pure _
    · exact (plain_shrinks h).bind fun _ _ => convert_shrinks _ _ _ _ _

end

theorem lowerRaw_shrinks (f : Option Function) :
    ∀ {e : Expr}, e.isConstant = true →
      Shrinks (lowerRaw ⟨false, f⟩ e) (lowerRaw ⟨true, f⟩ e)
  | .missing, h | .ident _, h | .index _ _ _ _, h | .call _ _ _ _, h => by
      simp [Expr.isConstant] at h
  | .literal _ _ _ _, _ => by
      rw [lowerRaw, lowerRaw]
      exact .asked fun _ => .pure _
  | .convert _ _ _, h => by
      rw [Expr.isConstant] at h
      rw [lowerRaw, lowerRaw]
      exact (plain_shrinks (lowerRaw_shrinks f h)).bind fun _ _ => convert_shrinks _ _ _ _ _
  | .unary _ _ _ _, h => by
      rw [Expr.isConstant] at h
      rw [lowerRaw, lowerRaw]
      refine (used_shrinks (lowerRaw_shrinks f h)).bind fun _ _ => ?_
      split
      · exact .pure _
      · refine .asked fun _ => ?_
        split <;> exact .define (fun _ => rfl) fun _ => rfl
  | .binary _ _ _ _ _, h => by
      rw [Expr.isConstant, Bool.and_eq_true_iff] at h
      rw [lowerRaw, lowerRaw]
      refine (used_shrinks (lowerRaw_shrinks f h.1)).bind fun _ _ => ?_
      refine (used_shrinks (lowerRaw_shrinks f h.2)).bind fun _ _ => .asked fun _ => ?_
      split
      · exact .define (fun _ => rfl) fun _ => rfl
      · exact .fail _

theorem lowerExpr_shrinks (f : Option Function) {e : Expr} (h : e.isConstant = true) :
    Shrinks (lowerExpr ⟨false, f⟩ e) (lowerExpr ⟨true, f⟩ e) :=
  used_shrinks (lowerRaw_shrinks f h)

/-- Where the same remains, folding has not made the code longer. -/
theorem Remains.length_le {f : Option Function} {es : List Expr} {code code' kept kept' : List Instr}
    (h : Remains ⟨false, f⟩ es code kept) (h' : Remains ⟨true, f⟩ es code' kept')
    (hsame : kept.map Instr.shape = kept'.map Instr.shape) : code'.length ≤ code.length := by
  obtain ⟨ns, hns, hsum⟩ := h.costs
  obtain ⟨ns', hns', hsum'⟩ := h'.costs
  have hdeleted : ns'.sum ≤ ns.sum := by
    clear hsum hsum' h h'
    induction hns generalizing ns' with
    | nil => cases hns'; exact Nat.le_refl _
    | cons he _ ih =>
        cases hns' with
        | cons he' hrest =>
            obtain ⟨hconstant, _, _, hlow, rfl⟩ := he
            obtain ⟨-, _, _, hlow', rfl⟩ := he'
            rw [List.sum_cons, List.sum_cons]
            exact Nat.add_le_add (lowerExpr_shrinks f hconstant hlow hlow') (ih _ hrest)
  have hlabels : labels code = labels code' := by
    rw [h.labels_eq, h'.labels_eq, labels_shapes, labels_shapes, hsame]
  have hwork : work kept = work kept' := by rw [work_shapes, work_shapes, hsame]
  rw [length_eq, length_eq code, hlabels]
  omega

/-! ## Two runs -/

/-- Where the runs without and with folding stand, and what the first one has put down already that
the second one has still to put down. If they have settled that is nothing. -/
inductive Owes : Bool → Cursor → Cursor → List Instr → Prop where
  | even {settled : Bool} {c c' : Cursor} (control : c.control = c'.control)
      (closed : c.closed = c'.closed) : Owes settled c c' []
  | ahead {c c' : Cursor} (opened : c.closed = false) (closed : c'.closed = true)
      (control : c.control = c'.control + 1) : Owes false c c' [.label (.after c.control)]

theorem Owes.unsettled {settled : Bool} {c c' : Cursor} {owed : List Instr}
    (h : Owes settled c c' owed) : Owes false c c' owed := by
  cases h with
  | even control closed => exact .even control closed
  | ahead opened closed control => exact .ahead opened closed control

/-- What the two runs add is the same after deleting the constants, and what is owed is settled or
still owed. -/
def Matches (f : Option Function) (es : List Expr) (owed owed' code code' : List Instr) : Prop :=
  ∃ kept kept', Remains ⟨false, f⟩ es code kept ∧ Remains ⟨true, f⟩ es code' kept' ∧
    (owed ++ kept).map Instr.shape = (kept' ++ owed').map Instr.shape

theorem Matches.refl (f : Option Function) (owed : List Instr) : Matches f [] owed owed [] [] :=
  ⟨[], [], .nil, .nil, by rw [List.append_nil, List.nil_append]⟩

theorem Matches.append {f : Option Function} {es es' : List Expr}
    {owed owed₁ owed₂ code code' more more' : List Instr} (h : Matches f es owed owed₁ code code')
    (h' : Matches f es' owed₁ owed₂ more more') :
    Matches f (es ++ es') owed owed₂ (code ++ more) (code' ++ more') := by
  obtain ⟨kept, kept', hkept, hkept', heq⟩ := h
  obtain ⟨rest, rest', hrest, hrest', heq'⟩ := h'
  refine ⟨kept ++ rest, kept' ++ rest', hkept.append hrest, hkept'.append hrest', ?_⟩
  simp only [List.map_append] at heq heq' ⊢
  rw [← List.append_assoc, heq, List.append_assoc, heq', List.append_assoc]

/-- Two steps, the first without and the second with folding, that do the same from where the first
one may owe something, if `settled` is not set, to where it may owe something, if `settled'` is
not. The constants lowered on the way are `es`, and the results are related. -/
def Alike {α β : Type} (f : Option Function) (settled settled' : Bool) (es : List Expr)
    (R : α → β → Prop) (x : Emit α) (y : Emit β) : Prop :=
  ∀ ⦃c c' : Cursor⦄ ⦃owed : List Instr⦄, Owes settled c c' owed →
    ∀ ⦃out : Emitted α⦄ ⦃out' : Emitted β⦄, x c = .ok out → y c' = .ok out' →
      R out.value out'.value ∧ ∃ owed', Owes settled' out.cursor out'.cursor owed' ∧
        Matches f es owed owed' out.code out'.code

/-- Results of which nothing is asked. -/
def Any {α β : Type} (_ : α) (_ : β) : Prop := True

namespace Alike

variable {α β γ δ : Type} {f : Option Function} {s t u : Bool} {es es' : List Expr}
variable {R : α → β → Prop} {S : γ → δ → Prop} {x : Emit α} {y : Emit β}

theorem pure {a : α} {b : β} (h : R a b) :
    Alike f s s [] R (Pure.pure a : Emit α) (Pure.pure b : Emit β) := by
  intro c c' owed howes out out' hx hy
  cases hx
  cases hy
  exact ⟨h, owed, howes, .refl f owed⟩

theorem fail (e : Fault) : Alike f s t es R (Emit.fail e : Emit α) y := by
  intro c c' owed howes out out' hx
  cases hx

theorem bind {k : α → Emit γ} {k' : β → Emit δ} (h : Alike f s t es R x y)
    (hk : ∀ a b, R a b → Alike f t u es' S (k a) (k' b)) :
    Alike f s u (es ++ es') S (x >>= k) (y >>= k') := by
  intro c c' owed howes out out' hx hy
  obtain ⟨first, second, hfirst, hsecond, rfl⟩ := bind_eq_ok_iff.1 hx
  obtain ⟨first', second', hfirst', hsecond', rfl⟩ := bind_eq_ok_iff.1 hy
  obtain ⟨hR, owed₁, howet, hmatches⟩ := h howes hfirst hfirst'
  obtain ⟨hS, owed₂, howeu, hmatches'⟩ := hk _ _ hR howet hsecond hsecond'
  exact ⟨hS, owed₂, howeu, hmatches.append hmatches'⟩

/-- A step that lowers no constants, and another. -/
theorem andThen {k : α → Emit γ} {k' : β → Emit δ} (h : Alike f s t [] R x y)
    (hk : ∀ a b, R a b → Alike f t u es S (k a) (k' b)) :
    Alike f s u es S (x >>= k) (y >>= k') :=
  h.bind hk

/-- A step, and another that lowers no constants. -/
theorem finish {k : α → Emit γ} {k' : β → Emit δ} (h : Alike f s t es R x y)
    (hk : ∀ a b, R a b → Alike f t u [] S (k a) (k' b)) :
    Alike f s u es S (x >>= k) (y >>= k') := by
  have hboth := h.bind hk
  rwa [List.append_nil] at hboth

/-- What needs no code. -/
theorem ofExcept {z : Except Fault α} {w : Except Fault β} (h : Corresponds R z w) :
    Alike f s s [] R (Emit.ofExcept z) (Emit.ofExcept w) := by
  intro c c' owed howes out out' hx hy
  cases z with
  | error e => cases hx
  | ok a =>
      cases w with
      | error e => cases hy
      | ok b => exact pure (h a b rfl rfl) howes hx hy

/-- The same thing is asked on both sides. -/
theorem asked {z : Except Fault α} {k : α → Emit γ} {k' : α → Emit δ}
    (hk : ∀ a, Alike f s t es S (k a) (k' a)) :
    Alike f s t es S (Emit.ofExcept z >>= k) (Emit.ofExcept z >>= k') := by
  refine (ofExcept (R := Eq) (z := z) (w := z) ?_).andThen fun a b hab => ?_
  · exact fun a b ha hb => Except.ok.inj (ha.symm.trans hb)
  · cases hab
    exact hk a

/-- The same thing is used on both sides. -/
theorem use {sup : Support} {k : Global → Emit γ} {k' : Global → Emit δ}
    (hk : ∀ g, Alike f s t es S (k g) (k' g)) :
    Alike f s t es S (Emit.use sup >>= k) (Emit.use sup >>= k') := by
  intro c c' owed howes out out' hx hy
  rw [use_bind] at hx hy
  refine hk _ ?_ hx hy
  cases howes with
  | even control closed => exact .even control closed
  | ahead opened closed control => exact .ahead opened closed control

/-- What may start anywhere may start where nothing is owed. -/
theorem anywhere (h : Alike f false t es R x y) : Alike f s t es R x y :=
  fun _ _ _ howes => h howes.unsettled

/-- What ends where nothing is owed ends where something may be. -/
theorem unsettled (h : Alike f s t es R x y) : Alike f s false es R x y := by
  intro c c' owed howes out out' hx hy
  obtain ⟨hR, owed', howes', hmatches⟩ := h howes hx hy
  exact ⟨hR, owed', howes'.unsettled, hmatches⟩

end Alike

/-! ## Steps -/

section

variable {f : Option Function} {s t : Bool}

/-- An instruction settles what is owed: it opens the block, if nothing else has. -/
theorem instr_alike {i i' : Instr} (hshape : i.shape = i'.shape)
    (hterm : i.isTerminator = i'.isTerminator) :
    Alike f s t [] Any (instr i) (instr i') := by
  intro c c' owed howes out out' hx hy
  refine ⟨trivial, [], ?_⟩
  cases howes with
  | even control closed =>
      cases hc : c.closed with
      | false =>
          rw [instr_eq (live_open hc)] at hx
          rw [instr_eq (live_open (closed.symm.trans hc))] at hy
          cases hx
          cases hy
          exact ⟨.even control hterm, [i], [i'], .refl _ _, .refl _ _, by simp [hshape]⟩
      | true =>
          rw [instr_eq (live_closed hc)] at hx
          rw [instr_eq (live_closed (closed.symm.trans hc))] at hy
          cases hx
          cases hy
          refine ⟨.even ?_ hterm, _, _, .refl _ _, .refl _ _, by simp [hshape, control]⟩
          simp [Cursor.opened, control]
  | ahead opened closed control =>
      rw [instr_eq (live_open opened)] at hx
      rw [instr_eq (live_closed closed)] at hy
      cases hx
      cases hy
      exact ⟨.even control hterm, _, _, .refl _ _, .refl _ _, by simp [hshape, control]⟩

theorem register_alike (root : String) :
    Alike f s s [] Any (register root) (register root) := by
  intro c c' owed howes out out' hx hy
  cases hx
  cases hy
  refine ⟨trivial, owed, ?_, .refl f owed⟩
  cases howes with
  | even control closed => exact .even control closed
  | ahead opened closed control => exact .ahead opened closed control

theorem define_alike {root : String} {i i' : Reg → Instr} (hi : ∀ q, (i q).isPlain = true)
    (hi' : ∀ q, (i' q).isPlain = true) (hshape : ∀ q q', (i q).shape = (i' q').shape) :
    Alike f s t [] Any (define root i) (define root i') := by
  refine (register_alike root).andThen fun q q' _ => ?_
  have hterm : (i q).isTerminator = (i' q').isTerminator := by
    rw [Instr.isTerminator_of_isPlain (hi q), Instr.isTerminator_of_isPlain (hi' q')]
  exact (instr_alike (hshape q q') hterm).andThen fun _ _ _ => .pure trivial

/-- The code of a constant. If it is what opens the block, and is gone in the second run, then what
it has put down is owed. -/
theorem constant_alike {e : Expr} (h : e.isConstant = true) :
    Alike f false false [e] Any (lowerExpr ⟨false, f⟩ e) (lowerExpr ⟨true, f⟩ e) := by
  intro c c' owed howes out out' hx hy
  have hle := lowerExpr_shrinks f h hx hy
  have hmoves := (lowerExpr_plain ⟨false, f⟩ e).moves hx
  have hmoves' := (lowerExpr_plain ⟨true, f⟩ e).moves hy
  suffices hsuff : ∃ owed', Owes false out.cursor out'.cursor owed' ∧
      owed ++ (labels out.code).map .label = (labels out'.code).map .label ++ owed' by
    obtain ⟨owed', howes', heq⟩ := hsuff
    exact ⟨trivial, owed', howes', _, _, .single h hx, .single h hy, congrArg _ heq⟩
  cases howes with
  | even control closed =>
      cases hc : c.closed with
      | false =>
          obtain ⟨hl, hclosed, hn⟩ := hmoves.straight hc
          obtain ⟨hl', hclosed', hn'⟩ := hmoves'.straight (closed.symm.trans hc)
          refine ⟨[], .even ?_ (hclosed.trans hclosed'.symm), by rw [hl, hl']; rfl⟩
          rw [hn, hn', control]
      | true =>
          have hc' := closed.symm.trans hc
          by_cases hw' : work out'.code = 0
          · obtain ⟨hl', hclosed', hn'⟩ := hmoves'.idle hc' hw'
            by_cases hw : work out.code = 0
            · obtain ⟨hl, hclosed, hn⟩ := hmoves.idle hc hw
              refine ⟨[], .even ?_ (hclosed.trans hclosed'.symm), by rw [hl, hl']; rfl⟩
              rw [hn, hn', control]
            · obtain ⟨hl, hclosed, hn⟩ := hmoves.opening hc hw
              refine ⟨_, .ahead hclosed hclosed' ?_, by rw [hl, hl', hn]; rfl⟩
              rw [hn, hn', control]
          · obtain ⟨hl, hclosed, hn⟩ := hmoves.opening hc (by omega)
            obtain ⟨hl', hclosed', hn'⟩ := hmoves'.opening hc' hw'
            refine ⟨[], .even ?_ (hclosed.trans hclosed'.symm), by rw [hl, hl', control]; rfl⟩
            rw [hn, hn', control]
  | ahead opened closed control =>
      obtain ⟨hl, hclosed, hn⟩ := hmoves.straight opened
      by_cases hw' : work out'.code = 0
      · obtain ⟨hl', hclosed', hn'⟩ := hmoves'.idle closed hw'
        refine ⟨_, .ahead hclosed hclosed' ?_, by rw [hl, hl', hn]; rfl⟩
        rw [hn, hn', control]
      · obtain ⟨hl', hclosed', hn'⟩ := hmoves'.opening closed hw'
        refine ⟨[], .even ?_ (hclosed.trans hclosed'.symm), by rw [hl, hl', control]; rfl⟩
        rw [hn, hn', control]

end

/-! ## Expressions -/

section

variable {f : Option Function} {s t : Bool}

theorem load_alike {c c' : Context} (hc : c.function = c'.function) (pos : Pos) (id : Symbol) :
    Alike f s t [] Any (load c pos id) (load c' pos id) := by
  have haddress : address c pos id = address c' pos id := by
    unfold address Context.isParam
    rw [hc]
  unfold load
  rw [haddress]
  exact .asked fun _ => .asked fun _ =>
    define_alike (fun _ => rfl) (fun _ => rfl) fun _ _ => rfl

theorem store_alike {c c' : Context} (hc : c.function = c'.function) (pos : Pos) (id : Symbol)
    (x y : Operand) : Alike f s t [] Any (store c pos id x) (store c' pos id y) := by
  have haddress : address c pos id = address c' pos id := by
    unfold address Context.isParam
    rw [hc]
  unfold store
  rw [haddress]
  exact .asked fun _ => .asked fun _ => instr_alike rfl rfl

theorem convert_alike (pos : Pos) (src : Option Ty) (dst : Base) (x y : Operand) :
    Alike f false false [] Any (convert pos src dst x) (convert pos src dst y) := by
  unfold convert
  split
  · unfold convertBase
    split
    · exact .pure trivial
    · split
      · split <;> exact define_alike (fun _ => rfl) (fun _ => rfl) fun _ _ => rfl
      · split
        · exact define_alike (fun _ => rfl) (fun _ => rfl) fun _ _ => rfl
        · exact .fail _
  · exact .fail _

theorem print_alike (format : Support) (x y : Typed) :
    Alike f s t [] Any (print format x) (print format y) :=
  .use fun _ => .use fun _ => instr_alike rfl rfl

theorem scan_alike (format place : Support) (type : IrType) :
    Alike f s t [] Any (scan format place type) (scan format place type) :=
  .use fun _ => .use fun _ => .use fun _ => (instr_alike (t := true) rfl rfl).andThen fun _ _ _ =>
    define_alike (fun _ => rfl) (fun _ => rfl) fun _ _ => rfl

theorem allocate_alike (root : String) (x y : Operand) (size : Nat) :
    Alike f s t [] Any (allocate root x size) (allocate root y size) :=
  .use fun _ => define_alike (fun _ => rfl) (fun _ => rfl) fun _ _ => rfl

theorem firstArg_alike (xs ys : List Operand) :
    Alike f s s [] Any (firstArg xs) (firstArg ys) := by
  cases xs with
  | nil => exact .fail _
  | cons x xs =>
      cases ys with
      | nil => exact fun _ _ _ _ _ _ _ hy => nomatch hy
      | cons y ys => exact .pure trivial

/-- A builtin function has the same code whatever its arguments are. -/
theorem builtin?_alike {name : String} {xs ys : List Operand} {code code' : Emit Operand}
    (h : builtin? name xs = some code) (h' : builtin? name ys = some code') :
    Alike f false true [] Any code code' := by
  have hfirst := firstArg_alike (f := f) (s := false) xs ys
  unfold builtin? at h h'
  split at h <;> cases h <;> cases h'
  case h_1 | h_2 | h_5 =>
    exact hfirst.andThen fun _ _ _ => (print_alike _ _ _).andThen fun _ _ _ => .pure trivial
  case h_3 =>
    refine hfirst.andThen fun _ _ _ => .andThen (R := Any) (t := true) ?_ fun _ _ _ => ?_
    · exact define_alike (fun _ => rfl) (fun _ => rfl) fun _ _ => rfl
    · exact (print_alike _ _ _).andThen fun _ _ _ => .pure trivial
  case h_4 =>
    refine hfirst.andThen fun _ _ _ => .use fun _ => .use fun _ =>
      .andThen (R := Any) (t := true) ?_ fun _ _ _ => ?_
    · exact define_alike (fun _ => rfl) (fun _ => rfl) fun _ _ => rfl
    · exact (print_alike _ _ _).andThen fun _ _ _ => .pure trivial
  case h_6 | h_7 | h_8 => exact scan_alike _ _ _
  case h_9 =>
    exact (scan_alike (t := true) _ _ _).andThen fun _ _ _ =>
      define_alike (fun _ => rfl) (fun _ => rfl) fun _ _ => rfl
  case h_10 =>
    exact (allocate_alike (t := true) _ _ _ _).andThen fun _ _ _ => .use fun _ => .use fun _ =>
      .andThen (instr_alike rfl rfl) fun _ _ _ => .pure trivial

theorem builtin?_none {name : String} {xs : List Operand} (h : builtin? name xs = none)
    (ys : List Operand) : builtin? name ys = none := by
  unfold builtin? at h ⊢
  split at h
  case h_11 => simp_all
  all_goals cases h

theorem lowerCall_alike {es : List Expr} {args args' : Emit (List Operand)}
    (h : Alike f false false es Any args args') (pos : Pos) (func : Option Ident) :
    Alike f false true es Any (lowerCall pos func args) (lowerCall pos func args') := by
  unfold lowerCall
  refine .asked fun callee => h.finish fun xs ys _ => ?_
  dsimp only
  split
  · cases hcode : builtin? callee.symbol.name xs with
    | none => exact .fail _
    | some code =>
        cases hcode' : builtin? callee.symbol.name ys with
        | none =>
            rw [builtin?_none hcode' xs] at hcode
            cases hcode
        | some code' => exact builtin?_alike hcode hcode'
  · refine (Alike.ofExcept (R := Any) fun _ _ _ _ => trivial).andThen fun typed typed' _ => ?_
    refine .asked fun _ => ?_
    split
    · exact .andThen (instr_alike rfl rfl) fun _ _ _ => .pure trivial
    · exact define_alike (fun _ => rfl) (fun _ => rfl) fun _ _ => rfl

theorem lowerElement_alike {c c' : Context} (hc : c.function = c'.function) {es : List Expr}
    {index index' : Emit Operand} (h : Alike f false false es Any index index')
    (array : Option Ident) :
    Alike f s true es (fun x y => x.1 = y.1) (lowerElement c array index)
      (lowerElement c' array index') := by
  unfold lowerElement
  refine .asked fun id => (load_alike (t := false) hc _ _).andThen fun base base' _ => ?_
  refine h.finish fun i i' _ => ?_
  exact .andThen (define_alike (fun _ => rfl) (fun _ => rfl) fun _ _ => rfl) fun _ _ _ => .pure rfl

variable {e : Expr} {raw raw' : Emit Operand}

theorem plain_alike {es : List Expr} (hc : e.isConstant = false)
    (h : Alike f false false es Any raw raw') :
    Alike f false false es Any (plain ⟨false, f⟩ e raw) (plain ⟨true, f⟩ e raw') := by
  unfold plain
  rw [Context.folded?_of_not_isConstant hc, Context.folded?_of_not_isConstant hc]
  split <;> exact h

/-- What holds of the code of an expression that is not constant holds of its value as used. -/
theorem lowerExpr_alike_of
    (h : e.isConstant = false → Alike f false false e.constants Any (lowerRaw ⟨false, f⟩ e)
      (lowerRaw ⟨true, f⟩ e)) :
    Alike f false false e.constants Any (lowerExpr ⟨false, f⟩ e) (lowerExpr ⟨true, f⟩ e) := by
  cases hc : e.isConstant with
  | true =>
      rw [Expr.constants_of_isConstant hc]
      exact constant_alike hc
  | false =>
      have hplain := plain_alike hc (h hc)
      unfold lowerExpr used
      split
      · exact hplain
      · rw [Context.folded?_of_not_isConstant hc, Context.folded?_of_not_isConstant hc]
        exact hplain.finish fun _ _ _ => convert_alike _ _ _ _ _

end

mutual

theorem lowerRaw_alike (f : Option Function) :
    ∀ e : Expr, e.isConstant = false →
      Alike f false false e.constants Any (lowerRaw ⟨false, f⟩ e) (lowerRaw ⟨true, f⟩ e)
  | .missing, _ => by
      rw [lowerRaw, lowerRaw]
      exact .fail _
  | .literal _ _ _ _, h => nomatch h
  | .ident _, _ => by
      rw [lowerRaw, lowerRaw, Expr.constants]
      exact .asked fun _ => load_alike rfl _ _
  | .convert _ x _, h => by
      rw [Expr.isConstant] at h
      rw [lowerRaw, lowerRaw, Expr.constants, h]
      exact (plain_alike h (lowerRaw_alike f x h)).finish fun _ _ _ => convert_alike _ _ _ _ _
  | .unary _ _ x _, h => by
      rw [Expr.isConstant] at h
      rw [lowerRaw, lowerRaw, Expr.constants, h]
      refine (lowerExpr_alike_of (lowerRaw_alike f x)).finish fun _ _ _ => ?_
      split
      · exact .pure trivial
      · refine .asked fun _ => ?_
        split <;> exact define_alike (fun _ => rfl) (fun _ => rfl) fun _ _ => rfl
  | .binary _ _ x y _, h => by
      rw [Expr.isConstant] at h
      rw [lowerRaw, lowerRaw, Expr.constants, h]
      refine (lowerExpr_alike_of (lowerRaw_alike f x)).bind fun _ _ _ => ?_
      refine (lowerExpr_alike_of (lowerRaw_alike f y)).finish fun _ _ _ => .asked fun _ => ?_
      split
      · exact define_alike (fun _ => rfl) (fun _ => rfl) fun _ _ => rfl
      · exact .fail _
  | .index _ _ i _, _ => by
      rw [lowerRaw, lowerRaw, Expr.constants]
      refine (lowerElement_alike rfl (lowerExpr_alike_of (lowerRaw_alike f i)) _).finish
        fun ⟨_, _⟩ ⟨_, _⟩ hsymbol => ?_
      cases hsymbol
      exact define_alike (fun _ => rfl) (fun _ => rfl) fun _ _ => rfl
  | .call _ _ args _, _ => by
      rw [lowerRaw, lowerRaw, Expr.constants]
      exact (lowerCall_alike (lowerArgs_alike f args) _ _).unsettled

theorem lowerArgs_alike (f : Option Function) :
    ∀ args : List Expr, Alike f false false (Expr.constantsOf args) Any
      (lowerArgs ⟨false, f⟩ args) (lowerArgs ⟨true, f⟩ args)
  | [] => by
      rw [lowerArgs, lowerArgs, Expr.constantsOf]
      exact .pure trivial
  | e :: rest => by
      rw [lowerArgs, lowerArgs, Expr.constantsOf]
      refine (lowerExpr_alike_of (lowerRaw_alike f e)).bind fun _ _ _ => ?_
      exact (lowerArgs_alike f rest).finish fun _ _ _ => .pure trivial

end

/-! ## Statements -/

section

variable {f : Option Function}

theorem lowerExpr_alike (f : Option Function) (e : Expr) :
    Alike f false false e.constants Any (lowerExpr ⟨false, f⟩ e) (lowerExpr ⟨true, f⟩ e) :=
  lowerExpr_alike_of (lowerRaw_alike f e)

theorem lowerAssign_alike (f : Option Function) (pos : Pos) (target value : Expr) :
    Alike f false true (target.constants ++ value.constants) Any
      (lowerAssign ⟨false, f⟩ pos target value) (lowerAssign ⟨true, f⟩ pos target value) := by
  unfold lowerAssign
  split
  · rw [Expr.constants]
    exact (lowerExpr_alike f value).finish fun _ _ _ => .asked fun _ => store_alike rfl _ _ _ _
  · rw [Expr.constants]
    refine (lowerElement_alike rfl (lowerExpr_alike f _) _).bind fun ⟨_, _⟩ ⟨_, _⟩ hsymbol => ?_
    cases hsymbol
    exact (lowerExpr_alike f value).anywhere.finish fun _ _ _ => instr_alike rfl rfl
  · exact .fail _

theorem lowerVars_alike (f : Option Function) (vars : List Node) :
    Alike f true true (Node.constantsOf vars) Any (lowerVars ⟨false, f⟩ vars)
      (lowerVars ⟨true, f⟩ vars) := by
  fun_induction Node.constantsOf vars with
  | case1 => exact .pure trivial
  | case2 pos target value noted rest ih =>
      rw [lowerVars, lowerVars]
      exact (lowerAssign_alike f _ _ _).anywhere.bind fun _ _ _ => ih
  | case3 n rest hother ih =>
      rw [lowerVars, lowerVars]
      · exact ih
      · exact hother
      · exact hother

theorem lowerArray_alike (f : Option Function) (name : Option Ident) (size : Expr) :
    Alike f true true size.constants Any (lowerArray ⟨false, f⟩ name size)
      (lowerArray ⟨true, f⟩ name size) := by
  unfold lowerArray
  refine .asked fun id => .asked fun _ => (lowerExpr_alike f size).anywhere.finish fun _ _ _ => ?_
  refine .andThen (R := Any) (t := true)
    (define_alike (fun _ => rfl) (fun _ => rfl) fun _ _ => rfl) fun count count' _ => ?_
  have hstore : ∀ count count' : Operand, Alike f true true [] Any
      (allocate id.1.name count (elementSize id.2.type.kind) >>= store ⟨false, f⟩ id.1.pos id.2)
      (allocate id.1.name count' (elementSize id.2.type.kind) >>= store ⟨true, f⟩ id.1.pos id.2) :=
    fun count count' => (allocate_alike (t := true) _ _ _ _).andThen fun _ _ _ =>
      store_alike rfl _ _ _ _
  dsimp only
  split
  · exact .andThen (R := Any) (define_alike (fun _ => rfl) (fun _ => rfl) fun _ _ => rfl)
      fun _ _ _ => hstore _ _
  · rw [pure_bind, pure_bind]
    exact hstore _ _

theorem lowerLoopCond_alike (f : Option Function) (cond inserted : Expr) :
    Alike f false false (if cond.isMissing then inserted.constants else cond.constants) Any
      (lowerLoopCond ⟨false, f⟩ cond inserted) (lowerLoopCond ⟨true, f⟩ cond inserted) := by
  unfold lowerLoopCond
  cases cond.isMissing with
  | false => exact lowerExpr_alike f cond
  | true =>
      simp only [Bool.not_true, Bool.false_eq_true, if_false, if_true]
      split
      · exact .fail _
      · exact lowerExpr_alike f inserted

theorem label_alike (l : Label) : Alike f true true [] Any (label l) (label l) := by
  intro c c' owed howes out out' hx hy
  cases howes with
  | even control closed =>
      cases hx
      cases hy
      exact ⟨trivial, [], .even control rfl, [_], [_], .refl _ _, .refl _ _, rfl⟩

theorem nextControl_alike : Alike f true true [] Eq nextControl nextControl := by
  intro c c' owed howes out out' hx hy
  cases howes with
  | even control closed =>
      cases hx
      cases hy
      exact ⟨congrArg (· + 1) control, [], .even (congrArg (· + 1) control) closed, .refl f []⟩

theorem close_alike (i : Instr) : Alike f true true [] Any (close i) (close i) := by
  intro c c' owed howes out out' hx hy
  have hinstr := instr_alike (f := f) (t := true) (i := i) rfl rfl howes
  cases howes with
  | even control closed =>
      unfold close at hx hy
      rw [← closed] at hy
      split at hx
      · next hc =>
          rw [if_pos hc] at hy
          cases hx
          cases hy
          exact ⟨trivial, [], .even control closed, .refl f []⟩
      · next hc =>
          rw [if_neg hc] at hy
          exact hinstr hx hy

theorem turn_alike (l next : Label) : Alike f true true [] Any (turn l next) (turn l next) :=
  (close_alike _).andThen fun _ _ _ => label_alike next

theorem branch_alike (x y : Operand) (yes no next : Label) :
    Alike f false true [] Any (branch x yes no next) (branch y yes no next) :=
  .andThen (R := Any) (instr_alike rfl rfl) fun _ _ _ => label_alike next

variable {es es' es'' : List Expr}

theorem lowerIf_alike {cond cond' : Emit Operand} {yes yes' no no' : Emit Unit}
    (hcond : Alike f false false es Any cond cond') (hyes : Alike f true true es' Any yes yes')
    (hno : Alike f true true es'' Any no no') :
    Alike f true true (es ++ (es' ++ es'')) Any (lowerIf cond yes no)
      (lowerIf cond' yes' no') := by
  rw [lowerIf_eq, lowerIf_eq]
  refine nextControl_alike.andThen fun n n' hn => ?_
  cases hn
  refine hcond.anywhere.bind fun x x' _ => (branch_alike _ _ _ _ _).andThen fun _ _ _ => ?_
  refine hyes.bind fun _ _ _ => (turn_alike _ _).andThen fun _ _ _ => ?_
  exact hno.finish fun _ _ _ => turn_alike _ _

theorem lowerLoop_alike {cond cond' : Emit Operand} {body body' step step' : Emit Unit}
    (hbody : Alike f true true es Any body body') (hstep : Alike f true true es' Any step step')
    (hcond : Alike f false false es'' Any cond cond') :
    Alike f true true (es ++ (es' ++ es'')) Any (lowerLoop body step cond)
      (lowerLoop body' step' cond') := by
  rw [lowerLoop_eq, lowerLoop_eq]
  refine nextControl_alike.andThen fun n n' hn => ?_
  cases hn
  refine (turn_alike _ _).andThen fun _ _ _ => hbody.bind fun _ _ _ => hstep.bind fun _ _ _ => ?_
  refine (turn_alike _ _).andThen fun _ _ _ => hcond.anywhere.finish fun x x' _ => ?_
  exact branch_alike _ _ _ _ _

theorem lowerPart_alike {part : Stmt}
    (h : Alike f true true part.constants Any (lowerStmt ⟨false, f⟩ part)
      (lowerStmt ⟨true, f⟩ part)) :
    Alike f true true part.constants Any (lowerPart ⟨false, f⟩ part)
      (lowerPart ⟨true, f⟩ part) := by
  unfold lowerPart
  cases part with
  | missing =>
      rw [Stmt.constants]
      exact .pure trivial
  | _ => exact h

end

mutual

theorem lowerStmt_alike (f : Option Function) :
    ∀ stmt : Stmt, Alike f true true stmt.constants Any (lowerStmt ⟨false, f⟩ stmt)
      (lowerStmt ⟨true, f⟩ stmt)
  | .missing => by
      rw [lowerStmt, lowerStmt]
      exact .fail _
  | .call _ _ args _ => by
      rw [lowerStmt, lowerStmt, Stmt.constants]
      exact (lowerCall_alike (lowerArgs_alike f args) _ _).anywhere.finish fun _ _ _ =>
        .pure trivial
  | .assign pos target value _ => by
      rw [lowerStmt, lowerStmt, Stmt.constants]
      exact (lowerAssign_alike f pos target value).anywhere
  | .varDecl _ _ vars => by
      rw [lowerStmt, lowerStmt, Stmt.constants]
      exact lowerVars_alike f vars
  | .arrayDecl _ _ name size => by
      rw [lowerStmt, lowerStmt, Stmt.constants]
      exact lowerArray_alike f name size
  | .ifElse _ cond yes no => by
      rw [lowerStmt, lowerStmt, Stmt.constants]
      exact lowerIf_alike (lowerExpr_alike f cond) (lowerBlock_alike f yes) (lowerBlock_alike f no)
  | .whileLoop _ cond body => by
      rw [lowerStmt, lowerStmt, Stmt.constants]
      exact lowerLoop_alike (lowerBlock_alike f body) (.pure trivial) (lowerExpr_alike f cond)
  | .forLoop _ init cond inserted step body => by
      rw [lowerStmt_forLoop, lowerStmt_forLoop, Stmt.constants]
      refine (lowerPart_alike (lowerStmt_alike f init)).bind fun _ _ _ => ?_
      exact lowerLoop_alike (lowerBlock_alike f body) (lowerPart_alike (lowerStmt_alike f step))
        (lowerLoopCond_alike f cond inserted)
  | .block b => by
      rw [lowerStmt, lowerStmt, Stmt.constants]
      exact lowerBlock_alike f b
  | .funcDecl _ _ _ _ _ _ _ => by
      rw [lowerStmt, lowerStmt, Stmt.constants]
      exact .pure trivial
  | .ret _ value => by
      rw [lowerStmt, lowerStmt, Stmt.constants]
      cases value with
      | missing =>
          rw [Expr.constants]
          exact instr_alike rfl rfl
      | _ =>
          exact (lowerExpr_alike f _).anywhere.finish fun _ _ _ => .asked fun _ =>
            instr_alike rfl rfl

theorem lowerBlock_alike (f : Option Function) :
    ∀ b : Block, Alike f true true b.constants Any (lowerBlock ⟨false, f⟩ b)
      (lowerBlock ⟨true, f⟩ b)
  | .missing => by
      rw [lowerBlock, lowerBlock, Block.constants]
      exact .pure trivial
  | .of _ stmts => by
      rw [lowerBlock, lowerBlock, Block.constants]
      exact lowerStmts_alike f stmts

theorem lowerStmts_alike (f : Option Function) :
    ∀ stmts : List Stmt, Alike f true true (Stmt.constantsOf stmts) Any
      (lowerStmts ⟨false, f⟩ stmts) (lowerStmts ⟨true, f⟩ stmts)
  | [] => by
      rw [lowerStmts, lowerStmts, Stmt.constantsOf]
      exact .pure trivial
  | s :: rest => by
      rw [lowerStmts, lowerStmts, Stmt.constantsOf]
      exact (lowerStmt_alike f s).bind fun _ _ _ => lowerStmts_alike f rest

end

/-! ## Definitions -/

section

variable {f : Option Function}

theorem lowerParams_alike (ids : List Symbol) :
    Alike f true true [] Any (lowerParams ids) (lowerParams ids) := by
  induction ids with
  | nil => exact .pure trivial
  | cons id rest ih =>
      exact .andThen (R := Any) (t := true) (instr_alike rfl rfl) fun _ _ _ =>
        .andThen (R := Any) (instr_alike rfl rfl) fun _ _ _ => ih

theorem lowerLocals_alike (ids : List Symbol) :
    Alike f true true [] Any (lowerLocals ids) (lowerLocals ids) := by
  induction ids with
  | nil => exact .pure trivial
  | cons id rest ih =>
      exact .asked fun _ => .andThen (R := Any) (t := true) (instr_alike rfl rfl) fun _ _ _ =>
        .andThen (R := Any) (instr_alike rfl rfl) fun _ _ _ => ih

theorem lowerFunction_alike (initialized : Bool) (d : FuncDecl) (f : Function) :
    Alike (some f) true true d.body.constants Any (lowerFunction false initialized d f)
      (lowerFunction true initialized d f) := by
  have hrest : Alike (some f) true true d.body.constants Any
      (lowerBlock ⟨false, some f⟩ d.body >>= fun _ =>
        close (if f.result.isVoid then .ret none else .unreachable))
      (lowerBlock ⟨true, some f⟩ d.body >>= fun _ =>
        close (if f.result.isVoid then .ret none else .unreachable)) :=
    (lowerBlock_alike (some f) d.body).finish fun _ _ _ => close_alike _
  unfold lowerFunction
  refine (label_alike _).andThen fun _ _ _ => (lowerParams_alike _).andThen fun _ _ _ => ?_
  refine (lowerLocals_alike _).andThen fun _ _ _ => ?_
  dsimp only
  split
  · exact .andThen (R := Any) (instr_alike rfl rfl) fun _ _ _ => hrest
  · exact hrest

theorem lowerInitializer_alike (program : Block) :
    Alike none true true program.constants Any (lowerInitializer false program)
      (lowerInitializer true program) :=
  (label_alike _).andThen fun _ _ _ => (lowerBlock_alike none program).finish fun _ _ _ =>
    close_alike _

end

end Llvm

/-- The block that a body of code is lowered from. -/
inductive Analysis.Body (a : Analysis) : Origin → Block → Prop where
  | function {ds : List FuncDecl} {d : FuncDecl} {f : Function}
      (functions : a.program.functions = .ok ds) (declared : d ∈ ds)
      (described : d.described = .ok f) : a.Body (.function f) d.body
  | initializer : a.Body .initializer a.program

namespace Llvm

/-- Two definitions with the same labels that are the same after deleting the constants of the
block they are lowered from, and the second one is not longer. -/
structure Definition.Renewed (a : Analysis) (d d' : Definition) : Prop where
  origin : d.origin = d'.origin
  labels : labels d.code = labels d'.code
  kept : ∃ body kept kept', a.Body d.origin body ∧
    Remains ⟨false, d.origin.function?⟩ body.constants d.code kept ∧
    Remains ⟨true, d.origin.function?⟩ body.constants d'.code kept' ∧
    kept.map Instr.shape = kept'.map Instr.shape
  length_le : d'.code.length ≤ d.code.length

theorem Alike.renewed {a : Analysis} {o : Origin} {body : Block} (hbody : a.Body o body)
    {x y : Emit Unit} (h : Alike o.function? true true body.constants Any x y) {c c' : Cursor}
    {owed : List Instr} (howes : Owes true c c' owed) {out out' : Emitted Unit}
    (hx : x c = .ok out) (hy : y c' = .ok out') :
    Owes true out.cursor out'.cursor [] ∧ Definition.Renewed a ⟨o, out.code⟩ ⟨o, out'.code⟩ := by
  obtain ⟨-, owed', howes', kept, kept', hkept, hkept', heq⟩ := h howes hx hy
  cases howes
  cases howes' with
  | even control closed =>
      rw [List.nil_append, List.append_nil] at heq
      refine ⟨.even control closed, rfl, ?_, ⟨body, kept, kept', hbody, hkept, hkept', heq⟩,
        hkept.length_le hkept' heq⟩
      rw [hkept.labels_eq, hkept'.labels_eq, labels_shapes, labels_shapes, heq]

theorem lowerFunctions_renewed {a : Analysis} {all : List FuncDecl}
    (hall : a.program.functions = .ok all) (initialized : Bool) {ds : List FuncDecl}
    (hds : ∀ d ∈ ds, d ∈ all) {c c' : Cursor} (howes : Owes true c c' []) :
    Corresponds
      (fun out out' => Owes true out.1 out'.1 [] ∧
        List.Forall₂ (Definition.Renewed a) out.2 out'.2)
      (lowerFunctions false initialized c ds) (lowerFunctions true initialized c' ds) := by
  induction ds generalizing c c' with
  | nil => exact .ok ⟨howes, .nil⟩
  | cons d rest ih =>
      obtain ⟨hd, hrest⟩ := List.forall_mem_cons.1 hds
      intro out out' hout hout'
      obtain ⟨c₁, definitions⟩ := out
      obtain ⟨c₁', definitions'⟩ := out'
      obtain ⟨f, first, more, hf, hfirst, hmore, rfl⟩ := lowerFunctions_cons_ok hout
      obtain ⟨f', first', more', hf', hfirst', hmore', rfl⟩ := lowerFunctions_cons_ok hout'
      obtain rfl : f = f' := Except.ok.inj (hf.symm.trans hf')
      obtain ⟨howes', hrenewed⟩ := Alike.renewed (o := .function f) (.function hall hd hf)
        (lowerFunction_alike initialized d f) howes hfirst hfirst'
      obtain ⟨hlast, hall⟩ := ih hrest howes' _ _ hmore hmore'
      exact ⟨hlast, .cons hrenewed hall⟩

/-- The same globals, and definitions that are the same after deleting constants. -/
structure Module.Renewed (a : Analysis) (m m' : Module) : Prop where
  name : m.name = m'.name
  globals : m.globals = m'.globals
  definitions : List.Forall₂ (Definition.Renewed a) m.definitions m'.definitions

theorem Module.ofAnalysis_renewed (a : Analysis) (name : String) :
    Corresponds (Module.Renewed a) (Module.ofAnalysis a ⟨false, name⟩)
      (Module.ofAnalysis a ⟨true, name⟩) := by
  intro m m' hm hm'
  obtain ⟨ds, initialized, c, definitions, hds, hinit, hfunctions, ⟨hname, hglobals⟩, hlast⟩ :=
    Module.ofAnalysis_ok hm
  obtain ⟨ds', initialized', c', definitions', hds', hinit', hfunctions', ⟨hname', hglobals'⟩,
    hlast'⟩ := Module.ofAnalysis_ok hm'
  cases hinit.symm.trans hinit'
  cases hds.symm.trans hds'
  obtain ⟨howes, hall⟩ := lowerFunctions_renewed hds initialized (fun _ hd => hd)
    (.even rfl rfl) _ _ hfunctions hfunctions'
  refine ⟨hname.trans hname'.symm, hglobals.trans hglobals'.symm, ?_⟩
  rcases hlast with ⟨rfl, out, hout, -, heq⟩ | ⟨rfl, -, heq⟩
  · obtain ⟨-, out', hout', -, heq'⟩ := hlast'.resolve_right fun h => (nomatch h.1)
    obtain ⟨-, hrenewed⟩ := Alike.renewed (o := .initializer) .initializer
      (lowerInitializer_alike a.program) howes hout hout'
    rw [heq, heq']
    exact List.rel_append hall (.cons hrenewed .nil)
  · obtain ⟨-, -, heq'⟩ := hlast'.resolve_left fun h => (nomatch h.1)
    rw [heq, heq']
    exact hall

end Llvm

/-- Folding replaces constants and nothing else. In CIL some segments of code, each the code of a
constant expression, are replaced by an instruction that loads the value. In LLVM the labels are
the same, and so are opcodes and the labels of branches after deleting the instructions that compute
the constants of the program. No method and no definition gets longer. -/
theorem Analysis.folding_replaces_constants {b : Block} {a : Analysis}
    (ha : Analysis.ofProgram b = .ok a) (name : String) :
    (∃ assembly assembly', Cil.Assembly.ofAnalysis a ⟨false, name⟩ = .ok assembly ∧
      Cil.Assembly.ofAnalysis a ⟨true, name⟩ = .ok assembly' ∧ assembly.Renewed assembly') ∧
    ∃ module module', Llvm.Module.ofAnalysis a ⟨false, name⟩ = .ok module ∧
      Llvm.Module.ofAnalysis a ⟨true, name⟩ = .ok module' ∧ module.Renewed a module' := by
  obtain ⟨htyped, -, hstatic⟩ := Analysis.ofProgram_checked ha
  obtain ⟨pos, stmts, t, stmts', -, -, rfl⟩ := Analysis.ofProgram_ok ha
  obtain ⟨assembly, hcil⟩ := Cil.Assembly.ofAnalysis_succeeds rfl htyped hstatic ⟨false, name⟩
  obtain ⟨assembly', hcil'⟩ := Cil.Assembly.ofAnalysis_succeeds rfl htyped hstatic ⟨true, name⟩
  obtain ⟨module, hllvm⟩ := Llvm.Module.ofAnalysis_succeeds rfl htyped hstatic ⟨false, name⟩
  obtain ⟨module', hllvm'⟩ := Llvm.Module.ofAnalysis_succeeds rfl htyped hstatic ⟨true, name⟩
  exact ⟨⟨assembly, assembly', hcil, hcil', Cil.Assembly.ofAnalysis_renewed _ name _ _ hcil hcil'⟩,
    module, module', hllvm, hllvm', Llvm.Module.ofAnalysis_renewed _ name _ _ hllvm hllvm'⟩

/-- The code of a constant opens a block here, and the block is opened all the same where that code is
gone. -/
theorem Analysis.folding_replaces_constants_after_return :
    ∃ b a assembly assembly' module module',
      Block.parse "(func int f ((int x)) (block (return x) (= x (+ 1 2)) (return 0)))" =
        .ok b ∧
      Analysis.ofProgram b = .ok a ∧
      Cil.Assembly.ofAnalysis a ⟨false, "program"⟩ = .ok assembly ∧
      Cil.Assembly.ofAnalysis a ⟨true, "program"⟩ = .ok assembly' ∧
      assembly ≠ assembly' ∧ assembly.Renewed assembly' ∧
      Llvm.Module.ofAnalysis a ⟨false, "program"⟩ = .ok module ∧
      Llvm.Module.ofAnalysis a ⟨true, "program"⟩ = .ok module' ∧
      module ≠ module' ∧ module.Renewed a module' := by
  have htext : ((Analysis.ofText?
      "(func int f ((int x)) (block (return x) (= x (+ 1 2)) (return 0)))").any fun a =>
        (Cil.Assembly.ofAnalysis a ⟨false, "program"⟩).toOption ≠
            (Cil.Assembly.ofAnalysis a ⟨true, "program"⟩).toOption &&
          (Llvm.Module.ofAnalysis a ⟨false, "program"⟩).toOption ≠
            (Llvm.Module.ofAnalysis a ⟨true, "program"⟩).toOption) = true := by
    decide +kernel
  obtain ⟨a, ha, hne⟩ := (Option.any_eq_true _ _).1 htext
  obtain ⟨b, hb, ha⟩ := Analysis.ofText?_eq_some ha
  obtain ⟨⟨assembly, assembly', hcil, hcil', hassembly⟩, module, module', hllvm, hllvm', hmodule⟩ :=
    Analysis.folding_replaces_constants ha "program"
  rw [hcil, hcil', hllvm, hllvm', Bool.and_eq_true_iff, decide_eq_true_iff,
    decide_eq_true_iff] at hne
  exact ⟨b, a, assembly, assembly', module, module', hb, ha, hcil, hcil',
    fun h => hne.1 (congrArg some h), hassembly, hllvm, hllvm', fun h => hne.2 (congrArg some h),
    hmodule⟩

end SmallC
