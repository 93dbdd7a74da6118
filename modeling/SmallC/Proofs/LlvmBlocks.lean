import Mathlib.Data.List.Nodup
import SmallC.Llvm.Module
import SmallC.Proofs.CheckTyping
import SmallC.Proofs.FreshNames
import SmallC.Proofs.LlvmExec
import SmallC.Proofs.LlvmPlain

/-!
# The code of a function is made of blocks

Code is a flat list, and that it falls into blocks is nothing its type says. What
makes it so is one bit of the cursor, whether the last instruction has left its
block, and `flow` reads that bit off the code: after an instruction that leaves
its block a label must follow, and a label may follow nothing else.

Numbers do the rest. A control structure takes a number that none has taken
before, a register takes the next number of its root, and no number is given
back. So the labels and the registers of a piece of code lie between the numbers
at its start and at its end, each of them once, and `Segment` says just that. It
is stated by counting, because then pieces of code are put together by adding up.

A piece of a control structure is not closed in itself: a branch leads to a label
that comes later. `Segment` names the labels that a piece puts down for the
structure around it and the ones that it leaves to be put down, and where a
structure is complete the two lists say the same.
-/

namespace SmallC

namespace Llvm

open Emit

/-! ## Following the blocks -/

/-- Whether the block has been left after some code, if it had been left before it or not. There is
no answer if the code does not fall into blocks. -/
def flow (closed : Bool) : List Instr → Option Bool
  | [] => some closed
  | i :: rest => if i.label?.isSome = closed then flow i.isTerminator rest else none

theorem flow_append (closed : Bool) (code more : List Instr) :
    flow closed (code ++ more) = (flow closed code).bind (flow · more) := by
  induction code generalizing closed with
  | nil => rfl
  | cons i rest ih =>
      simp only [List.cons_append, flow, ih]
      split <;> rfl

theorem flow_append_some {closed closed' : Bool} {code more : List Instr}
    (h : flow closed (code ++ more) = some closed') :
    ∃ middle, flow closed code = some middle ∧ flow middle more = some closed' := by
  rw [flow_append] at h
  exact Option.bind_eq_some_iff.1 h

/-- The last instruction says whether the block has been left. -/
theorem flow_concat {closed closed' : Bool} {code : List Instr} {i : Instr}
    (h : flow closed (code ++ [i]) = some closed') : i.isTerminator = closed' := by
  obtain ⟨middle, -, hi⟩ := flow_append_some h
  simp only [flow, Option.ite_none_right_eq_some] at hi
  exact Option.some.inj hi.2

/-- What stands before a label has left its block. -/
theorem flow_label {closed closed' : Bool} {pre post : List Instr} {l : Label}
    (h : flow closed (pre ++ .label l :: post) = some closed') : flow closed pre = some true := by
  obtain ⟨middle, hpre, hpost⟩ := flow_append_some h
  cases middle with
  | true => exact hpre
  | false => cases hpost

/-- What leaves its block is followed by a label or by nothing. -/
theorem flow_terminator {closed closed' : Bool} {pre post : List Instr} {i : Instr}
    (h : flow closed (pre ++ i :: post) = some closed') (hi : i.isTerminator = true) :
    post = [] ∨ ∃ l rest, post = .label l :: rest := by
  obtain ⟨middle, -, hpost⟩ := flow_append_some h
  simp only [flow, hi, Option.ite_none_right_eq_some] at hpost
  cases post with
  | nil => exact .inl rfl
  | cons j rest =>
      have hj := hpost.2
      simp only [flow, Option.ite_none_right_eq_some] at hj
      cases j with
      | label l => exact .inr ⟨l, rest, rfl⟩
      | _ => cases hj.1

/-! ## Labels, registers and places -/

/-- The labels of code. -/
def labels (code : List Instr) : List Label := code.filterMap Instr.label?

/-- The registers that code defines. -/
def dests (code : List Instr) : List Reg := code.filterMap Instr.dest?

/-- The parameter or local that an instruction makes a place for. -/
def Instr.slot? : Instr → Option String
  | .alloca name _ => some name
  | _ => none

theorem Instr.label?_of_isPlain {i : Instr} (h : i.isPlain = true) : i.label? = none := by
  cases i <;> first | rfl | cases h

theorem Instr.slot?_of_isPlain {i : Instr} (h : i.isPlain = true) : i.slot? = none := by
  cases i <;> first | rfl | cases h

theorem Instr.targets_of_isPlain {i : Instr} (h : i.isPlain = true) : i.targets = [] := by
  cases i <;> first | rfl | cases h

/-- One if a number has been given out between two counts, and none otherwise. -/
def between (low high n : Nat) : Nat := if low < n ∧ n ≤ high then 1 else 0

theorem between_add {low middle high : Nat} (h : low ≤ middle) (h' : middle ≤ high) (n : Nat) :
    between low middle n + between middle high n = between low high n := by
  unfold between
  split <;> split <;> split <;> omega

/-- A piece of code between two places: it falls into blocks, and each of its labels and registers
has a number of its own that was given out in between. Apart from these labels it puts down `own`,
and its branches lead to its labels or to `exits`. -/
structure Segment (own exits : List Label) (c c' : Cursor) (code : List Instr) : Prop where
  flows : flow c.closed code = some c'.closed
  control : c.control ≤ c'.control
  fresh : c.fresh.Le c'.fresh
  labels : ∀ l, (labels code).count l ≤ own.count l + between c.control c'.control l.number
  owned : ∀ l ∈ own, l ∈ Llvm.labels code
  targets : ∀ i ∈ code, ∀ l ∈ i.targets, l ∈ Llvm.labels code ∨ l ∈ exits
  dests : ∀ q, (dests code).count q ≤
    between (c.fresh.count q.root) (c'.fresh.count q.root) q.number
  slots : ∀ i ∈ code, i.slot? = none

namespace Segment

variable {own own' exits exits' : List Label} {c c₁ c₂ : Cursor} {code more : List Instr}

theorem nil (c : Cursor) : Segment [] [] c c [] where
  flows := rfl
  control := Nat.le_refl _
  fresh := .refl _
  labels := by simp [Llvm.labels]
  owned := by simp
  targets := by simp
  dests := by simp [Llvm.dests]
  slots := by simp

theorem append (h : Segment own exits c c₁ code) (h' : Segment own' exits' c₁ c₂ more) :
    Segment (own ++ own') (exits ++ exits') c c₂ (code ++ more) where
  flows := by rw [flow_append, h.flows]; exact h'.flows
  control := Nat.le_trans h.control h'.control
  fresh := h.fresh.trans h'.fresh
  labels := by
    intro l
    have hl := h.labels l
    have hl' := h'.labels l
    have hadd := between_add h.control h'.control l.number
    simp only [Llvm.labels, List.filterMap_append, List.count_append] at hl hl' ⊢
    omega
  owned := by
    intro l hl
    simp only [Llvm.labels, List.filterMap_append, List.mem_append] at hl ⊢
    exact hl.imp (h.owned l) (h'.owned l)
  targets := by
    intro i hi l hl
    simp only [Llvm.labels, List.filterMap_append, List.mem_append] at hi ⊢
    rcases hi with hi | hi
    · exact (h.targets i hi l hl).imp .inl .inl
    · exact (h'.targets i hi l hl).imp .inr .inr
  dests := by
    intro q
    have hq := h.dests q
    have hq' := h'.dests q
    have hadd := between_add (h.fresh q.root) (h'.fresh q.root) q.number
    simp only [Llvm.dests, List.filterMap_append, List.count_append] at hq hq' ⊢
    omega
  slots := List.forall_mem_append.2 ⟨h.slots, h'.slots⟩

/-- A single instruction, with the register that it defines. -/
theorem single {i : Instr} (hc : c.closed = false) (hl : i.label? = none) (hs : i.slot? = none)
    {f : Fresh} (hf : c.fresh.Le f)
    (hd : ∀ q, i.dest? = some q → c.fresh.count q.root < q.number ∧ q.number ≤ f.count q.root) :
    Segment [] i.targets c { c with fresh := f, closed := i.isTerminator } [i] where
  flows := by simp [flow, hl, hc]
  control := Nat.le_refl _
  fresh := hf
  labels := by simp [Llvm.labels, hl]
  owned := by simp
  targets := by
    intro j hj l hl
    rw [List.mem_singleton.1 hj] at hl
    exact .inr hl
  dests := by
    intro q
    simp only [Llvm.dests, List.filterMap_cons, List.filterMap_nil]
    split
    · simp
    · next q' hq' =>
        simp only [List.count_cons, List.count_nil, beq_iff_eq, between]
        split
        · next heq => simp [← heq, hd q' hq']
        · omega
  slots := by simpa using hs

theorem label (hc : c.closed = true) (l : Label) :
    Segment [l] [] c { c with closed := false } [.label l] where
  flows := by simp [flow, Instr.label?, hc, Instr.isTerminator]
  control := Nat.le_refl _
  fresh := .refl _
  labels := by simp [Llvm.labels, Instr.label?]
  owned := by simp [Llvm.labels, Instr.label?]
  targets := by simp [Instr.targets]
  dests := by simp [Llvm.dests, List.filterMap_cons, Instr.dest?]
  slots := by simp [Instr.slot?]

/-- A control structure that is complete. Its labels all have its number, which is new. -/
theorem complete (h : Segment own exits { c with control := c.control + 1 } c₁ code)
    (hown : ∀ l ∈ own, l.number = c.control + 1) (hnodup : own.Nodup)
    (hexits : ∀ l ∈ exits, l ∈ own) : Segment [] [] c c₁ code where
  flows := h.flows
  control := Nat.le_of_succ_le h.control
  fresh := h.fresh
  labels := by
    intro l
    have hl := h.labels l
    have hcontrol : c.control + 1 ≤ c₁.control := h.control
    have hcount : own.count l ≤ between c.control (c.control + 1) l.number := by
      by_cases hmem : l ∈ own
      · have hle := List.nodup_iff_count.1 hnodup l
        simp only [hown l hmem, between]
        split <;> omega
      · simp [List.count_eq_zero_of_not_mem hmem]
    have hadd := between_add (Nat.le_add_right c.control 1) hcontrol l.number
    simp only [List.count_nil] at hl ⊢
    omega
  owned := by simp
  targets := by
    intro i hi l hl
    exact .inl ((h.targets i hi l hl).elim id fun hl => h.owned l (hexits l hl))
  dests := h.dests
  slots := h.slots

end Segment

/-! ## Steps -/

/-- A step whose code is a segment wherever it starts. -/
def Emit.Segments {α : Type} (own exits : List Label) (x : Emit α) : Prop :=
  ∀ ⦃c : Cursor⦄ ⦃out : Emitted α⦄, x c = .ok out → Segment own exits c out.cursor out.code

namespace Emit

variable {α β : Type} {own own' exits exits' : List Label}

theorem Segments.pure (a : α) : Segments [] [] (Pure.pure a : Emit α) := by
  intro c out hx
  cases hx
  exact .nil c

theorem Segments.fail (f : Fault) : Segments [] [] (Emit.fail f : Emit α) := by
  intro c out hx
  cases hx

theorem Segments.use (s : Support) : Segments [] [] (Emit.use s) := by
  intro c out hx
  cases hx
  exact { Segment.nil c with }

theorem Segments.bind {x : Emit α} {f : α → Emit β} (h : Segments own exits x)
    (h' : ∀ a, Segments own' exits' (f a)) :
    Segments (own ++ own') (exits ++ exits') (x >>= f) := by
  intro c out hx
  obtain ⟨first, second, hfirst, hsecond, rfl⟩ := bind_eq_ok_iff.1 hx
  exact (h hfirst).append (h' _ hsecond)

theorem live_segment {c : Cursor} {out : Emitted Unit} (h : live c = .ok out) :
    Segment [] [] c out.cursor out.code ∧ out.cursor.closed = false ∧
      out.cursor.fresh = c.fresh := by
  cases hc : c.closed with
  | false =>
      rw [live_open hc] at h
      cases h
      exact ⟨.nil c, hc, rfl⟩
  | true =>
      rw [live_closed hc] at h
      cases h
      refine ⟨?_, rfl, rfl⟩
      exact (Segment.label (l := .after (c.control + 1)) (c := { c with control := c.control + 1 })
        hc).complete (by simp [Label.number]) (by simp) (by simp)

theorem instr_segments {i : Instr} (hl : i.label? = none) (hs : i.slot? = none)
    (hd : i.dest? = none) : Segments [] i.targets (instr i) := by
  intro c out hx
  obtain ⟨first, second, hlive, hsecond, rfl⟩ := bind_eq_ok_iff.1 hx
  cases hsecond
  obtain ⟨hfirst, hopen, -⟩ := live_segment hlive
  exact hfirst.append (.single hopen hl hs (.refl _) (by simp [hd]))

theorem define_segments {root : String} {i : Reg → Instr} (hplain : ∀ q, (i q).isPlain = true)
    (hd : ∀ q, (i q).dest? = some q) : Segments [] [] (define root i) := by
  intro c out hx
  have hcount : (c.fresh.next root).2.count root = c.fresh.count root + 1 := by
    simp [Fresh.count_next]
  -- What the instruction adds in a block that is open.
  have hsingle : ∀ c' : Cursor, c'.closed = false → c'.fresh = c.fresh →
      Segment [] [] c' { c' with fresh := (c.fresh.next root).2, closed := false }
        [i ⟨root, c.fresh.count root + 1⟩] := by
    intro c' hopen hfresh
    have hi := hplain ⟨root, c.fresh.count root + 1⟩
    have hsegment := Segment.single (f := (c.fresh.next root).2) hopen (Instr.label?_of_isPlain hi)
      (Instr.slot?_of_isPlain hi) (hfresh ▸ c.fresh.le_next root) (by
        intro q hq
        rw [hd] at hq
        cases hq
        rw [hfresh]
        exact ⟨Nat.lt_succ_self _, Nat.le_of_eq hcount.symm⟩)
    rwa [Instr.targets_of_isPlain hi, Instr.isTerminator_of_isPlain hi] at hsegment
  cases hc : c.closed with
  | false =>
      have hlive := live_open (c := { c with fresh := (c.fresh.next root).2 }) hc
      rw [define_eq (instr_eq hlive _)] at hx
      cases hx
      rw [Instr.isTerminator_of_isPlain (hplain _)]
      exact hsingle c hc rfl
  | true =>
      have hlive := live_closed (c := { c with fresh := (c.fresh.next root).2 }) hc
      rw [define_eq (instr_eq hlive _)] at hx
      cases hx
      rw [Instr.isTerminator_of_isPlain (hplain _)]
      exact (live_segment (live_closed hc)).1.append (hsingle c.opened rfl rfl)

theorem Plain.segments {x : Emit α} (h : Plain x) : Segments [] [] x := by
  induction h with
  | done a => exact .pure a
  | fail f => exact .fail f
  | use s => exact .use s
  | @instr i plain dest =>
      have hi := instr_segments (Instr.label?_of_isPlain plain) (Instr.slot?_of_isPlain plain) dest
      rwa [Instr.targets_of_isPlain plain] at hi
  | define plain dest => exact define_segments plain dest
  | bind _ _ ihx ihf => exact ihx.bind ihf

theorem close_segments {i : Instr} (hl : i.label? = none) (hs : i.slot? = none)
    (hd : i.dest? = none) (ht : i.isTerminator = true) {c : Cursor} {out : Emitted Unit}
    (h : close i c = .ok out) :
    Segment [] i.targets c out.cursor out.code ∧ out.cursor.closed = true := by
  unfold close at h
  split at h
  · next hc =>
      cases h
      exact ⟨{ Segment.nil c with targets := by simp }, hc⟩
  · obtain ⟨first, second, -, hsecond, rfl⟩ := bind_eq_ok_iff.1 h
    cases hsecond
    exact ⟨instr_segments hl hs hd h, ht⟩

/-- Leaves the block for one label, if control is still there, and opens the block of another. -/
def turn (l next : Label) : Emit Unit := do
  jump l
  label next

/-- Leaves the block for one of two labels, and opens a block. -/
def branch (x : Operand) (yes no next : Label) : Emit Unit := do
  instr (.condBr x yes no)
  label next

theorem turn_segments (l next : Label) : Segments [next] [l] (turn l next) := by
  intro c out hx
  obtain ⟨first, second, hfirst, hsecond, rfl⟩ := bind_eq_ok_iff.1 hx
  obtain ⟨hsegment, hclosed⟩ := close_segments rfl rfl rfl rfl hfirst
  cases hsecond
  exact hsegment.append (.label hclosed next)

theorem branch_segments (x : Operand) (yes no next : Label) :
    Segments [next] [yes, no] (branch x yes no next) := by
  intro c out hx
  obtain ⟨first, second, hfirst, hsecond, rfl⟩ := bind_eq_ok_iff.1 hx
  have hsegment := instr_segments rfl rfl rfl hfirst
  obtain ⟨opening, last, hopening, hlast, rfl⟩ := bind_eq_ok_iff.1 hfirst
  cases hlast
  cases hsecond
  exact hsegment.append (.label rfl next)

/-- A control structure with a number of its own. -/
theorem Segments.numbered {f : Nat → Emit α} (own exits : Nat → List Label)
    (h : ∀ n, Segments (own n) (exits n) (f n)) (hown : ∀ n, ∀ l ∈ own n, l.number = n)
    (hnodup : ∀ n, (own n).Nodup) (hexits : ∀ n, ∀ l ∈ exits n, l ∈ own n) :
    Segments [] [] (nextControl >>= f) := by
  intro c out hx
  obtain ⟨first, second, hfirst, hsecond, rfl⟩ := bind_eq_ok_iff.1 hx
  cases hfirst
  exact (h _ hsecond).complete (hown _) (hnodup _) (hexits _)

end Emit

/-! ## Statements -/

theorem lowerIf_eq (cond : Emit Operand) (yes no : Emit Unit) :
    lowerIf cond yes no = (nextControl >>= fun n => do
      let x ← cond
      branch x (.ifThen n) (.ifElse n) (.ifThen n)
      yes
      turn (.ifEnd n) (.ifElse n)
      no
      turn (.ifEnd n) (.ifEnd n)) := by
  simp only [lowerIf, branch, turn, bind_assoc]

theorem lowerLoop_eq (body step : Emit Unit) (cond : Emit Operand) :
    lowerLoop body step cond = (nextControl >>= fun n => do
      turn (.loopCond n) (.loopBody n)
      body
      step
      turn (.loopCond n) (.loopCond n)
      let x ← cond
      branch x (.loopBody n) (.loopEnd n) (.loopEnd n)) := by
  simp only [lowerLoop, branch, turn, bind_assoc]

theorem lowerIf_segments {cond : Emit Operand} {yes no : Emit Unit} (hcond : Segments [] [] cond)
    (hyes : Segments [] [] yes) (hno : Segments [] [] no) :
    Segments [] [] (lowerIf cond yes no) := by
  rw [lowerIf_eq]
  refine .numbered (fun n => [.ifThen n, .ifElse n, .ifEnd n])
    (fun n => [.ifThen n, .ifElse n, .ifEnd n, .ifEnd n]) (fun n => ?_) ?_ ?_ ?_
  · exact hcond.bind fun x => (branch_segments x _ _ _).bind fun _ => hyes.bind fun _ =>
      (turn_segments _ _).bind fun _ => hno.bind fun _ => turn_segments _ _
  · simp [Label.number]
  · simp
  · simp

theorem lowerLoop_segments {cond : Emit Operand} {body step : Emit Unit}
    (hbody : Segments [] [] body) (hstep : Segments [] [] step) (hcond : Segments [] [] cond) :
    Segments [] [] (lowerLoop body step cond) := by
  rw [lowerLoop_eq]
  refine .numbered (fun n => [.loopBody n, .loopCond n, .loopEnd n])
    (fun n => [.loopCond n, .loopCond n, .loopBody n, .loopEnd n]) (fun n => ?_) ?_ ?_ ?_
  · exact (turn_segments _ _).bind fun _ => hbody.bind fun _ => hstep.bind fun _ =>
      (turn_segments _ _).bind fun _ => hcond.bind fun x => branch_segments x _ _ _
  · simp [Label.number]
  · simp
  · simp

theorem lowerAssign_plain (c : Context) (pos : Pos) (target value : Expr) :
    Plain (lowerAssign c pos target value) := by
  unfold lowerAssign
  split
  · exact (lowerExpr_plain c value).bind fun _ => (Plain.ofExcept _).bind fun _ =>
      store_plain _ _ _ _
  · exact (lowerElement_plain (lowerExpr_plain c _) _ _).bind fun _ =>
      (lowerExpr_plain c value).bind fun _ => .instr rfl rfl
  · exact .fail _

theorem lowerVars_plain (c : Context) (vars : List Node) : Plain (lowerVars c vars) := by
  fun_induction lowerVars c vars with
  | case1 => exact .done _
  | case2 pos target value noted rest ih => exact (lowerAssign_plain _ _ _ _).bind fun _ => ih
  | case3 n rest _ ih => exact ih

theorem lowerArray_plain (c : Context) (name : Option Ident) (size : Expr) :
    Plain (lowerArray c name size) := by
  refine (Plain.ofExcept _).bind fun _ => (Plain.ofExcept _).bind fun _ =>
    (lowerExpr_plain c size).bind fun _ => .bind (.define (fun _ => rfl) fun _ => rfl) fun _ => ?_
  have hstore := fun count (id : Ident × Symbol) =>
    (allocate_plain id.1.name count (elementSize id.2.type.kind)).bind fun array =>
      store_plain c id.1.pos id.2 array
  dsimp only
  split
  · exact .bind (.define (fun _ => rfl) fun _ => rfl) fun _ => hstore _ _
  · exact .bind (.done _) fun _ => hstore _ _

theorem lowerLoopCond_plain (c : Context) (cond inserted : Expr) :
    Plain (lowerLoopCond c cond inserted) := by
  unfold lowerLoopCond
  split
  · exact lowerExpr_plain c cond
  · split
    · exact .fail _
    · exact lowerExpr_plain c inserted

mutual

theorem lowerStmt_segments (c : Context) : ∀ s : Stmt, Segments [] [] (lowerStmt c s)
  | .missing => by rw [lowerStmt]; exact .fail _
  | .call pos func args _ => by
      rw [lowerStmt]
      exact ((lowerCall_plain (lowerArgs_plain c args) pos func).bind fun _ => .done _).segments
  | .assign pos target value _ => by
      rw [lowerStmt]
      exact (lowerAssign_plain c pos target value).segments
  | .varDecl _ _ vars => by
      rw [lowerStmt]
      exact (lowerVars_plain c vars).segments
  | .arrayDecl _ _ name size => by
      rw [lowerStmt]
      exact (lowerArray_plain c name size).segments
  | .ifElse _ cond yes no => by
      rw [lowerStmt]
      exact lowerIf_segments (lowerExpr_plain c cond).segments (lowerBlock_segments c yes)
        (lowerBlock_segments c no)
  | .whileLoop _ cond body => by
      rw [lowerStmt]
      exact lowerLoop_segments (lowerBlock_segments c body) (.pure ())
        (lowerExpr_plain c cond).segments
  | .forLoop _ init cond inserted step body => by
      have hpart : ∀ part : Stmt, Segments [] [] (lowerStmt c part) →
          Segments [] [] (lowerPart c part) := by
        intro part h
        unfold lowerPart
        split
        · exact .pure ()
        · exact h
      rw [lowerStmt_forLoop]
      exact (hpart init (lowerStmt_segments c init)).bind fun _ =>
        lowerLoop_segments (lowerBlock_segments c body) (hpart step (lowerStmt_segments c step))
          (lowerLoopCond_plain c cond inserted).segments
  | .block b => by
      rw [lowerStmt]
      exact lowerBlock_segments c b
  | .funcDecl _ _ _ _ _ _ _ => by rw [lowerStmt]; exact .pure ()
  | .ret _ value => by
      rw [lowerStmt]
      split
      · exact instr_segments rfl rfl rfl
      · exact (lowerExpr_plain c value).segments.bind fun _ =>
          (Plain.ofExcept _).segments.bind fun _ => instr_segments rfl rfl rfl

theorem lowerBlock_segments (c : Context) : ∀ b : Block, Segments [] [] (lowerBlock c b)
  | .missing => by rw [lowerBlock]; exact .pure ()
  | .of _ stmts => by
      rw [lowerBlock]
      exact lowerStmts_segments c stmts

theorem lowerStmts_segments (c : Context) : ∀ stmts : List Stmt, Segments [] [] (lowerStmts c stmts)
  | [] => by rw [lowerStmts]; exact .pure ()
  | s :: rest => by
      rw [lowerStmts]
      exact (lowerStmt_segments c s).bind fun _ => lowerStmts_segments c rest

end

/-! ## Definitions -/

/-- The code that gives each symbol a place and stores a value there. -/
def places (value : Symbol → Operand) (ids : List Symbol) : List Instr :=
  ids.flatMap fun id =>
    [.alloca id.name (.ofTy id.type), .store ⟨.ofTy id.type, value id⟩ (.slot id.name)]

theorem instr_two {c : Cursor} (hc : c.closed = false) {i j : Instr} (hi : i.isTerminator = false)
    (hj : j.isTerminator = false) {x : Emit Unit} {code : List Instr}
    (hx : x c = .ok ⟨(), c, code⟩) :
    (do instr i; instr j; x) c = .ok ⟨(), c, i :: j :: code⟩ := by
  have hsame : { c with closed := false } = c := by cases c; cases hc; rfl
  have hfirst := instr_open hc i
  have hsecond := instr_open hc j
  rw [hi, hsame] at hfirst
  rw [hj, hsame] at hsecond
  have hrest := bind_ok (f := fun _ => x) hsecond hx
  exact bind_ok (f := fun _ => instr j >>= fun _ => x) hfirst hrest

theorem lowerParams_eq {c : Cursor} (hc : c.closed = false) (ids : List Symbol) :
    lowerParams ids c = .ok ⟨(), c, places (fun id => .arg id.name) ids⟩ := by
  induction ids with
  | nil => rfl
  | cons id rest ih => exact instr_two hc rfl rfl ih

theorem lowerLocals_eq {c : Cursor} (hc : c.closed = false) {ids : List Symbol}
    (h : ∀ id ∈ ids, id.type.isData = true) :
    lowerLocals ids c = .ok ⟨(), c, places (fun id => .zero (.ofTy id.type)) ids⟩ := by
  induction ids with
  | nil => rfl
  | cons id rest ih =>
      have hid := Ty.require_ok (Ty.isResult_of_isData (h id List.mem_cons_self))
      rw [lowerLocals, ofExcept_bind hid]
      exact instr_two hc rfl rfl (ih fun x hx => h x (List.mem_cons_of_mem _ hx))

/-- The code of a function after its parameters and locals have a place. -/
def lowerBody (fold initialized : Bool) (d : FuncDecl) (f : Function) : Emit Unit := do
  if f.name == "main" && initialized then instr (.call none .void false .initializer [])
  lowerBlock ⟨fold, some f⟩ d.body
  close (if f.result.isVoid then .ret none else .unreachable)

/-- What a function does first: it gives its parameters and locals a place. -/
def prologue (f : Function) : List Instr :=
  places (fun id => .arg id.name) f.params ++ places (fun id => .zero (.ofTy id.type)) f.locals

theorem lowerFunction_ok {d : FuncDecl} {f : Function} (hplaced : f.Placed)
    (hlocals : f.locals = d.body.declared) {fold initialized : Bool} {c : Cursor}
    {out : Emitted Unit} (h : lowerFunction fold initialized d f c = .ok out) :
    ∃ rest, lowerBody fold initialized d f { c with closed := false } = .ok rest ∧
      out = ⟨(), rest.cursor, Instr.label .entry :: (prologue f ++ rest.code)⟩ := by
  have hparams := lowerParams_eq (c := { c with closed := false }) rfl f.params
  have hslots := lowerLocals_eq (c := { c with closed := false }) rfl fun id hid =>
    hplaced.locals.isData hid
  rw [hlocals] at hslots
  obtain ⟨entry, first, hentry, hfirst, rfl⟩ := bind_eq_ok_iff.1 h
  cases hentry
  obtain ⟨params, second, hp, hsecond, rfl⟩ := bind_eq_ok_iff.1 hfirst
  cases hparams.symm.trans hp
  obtain ⟨slots, rest, hs, hrest, rfl⟩ := bind_eq_ok_iff.1 hsecond
  cases hslots.symm.trans hs
  refine ⟨rest, hrest, ?_⟩
  simp [prologue, hlocals]

theorem closing_segment {x : Emit Unit} (hx : Segments [] [] x) {i : Instr}
    (hi : i = .ret none ∨ i = .unreachable) {c : Cursor} {out : Emitted Unit}
    (h : (x >>= fun _ => close i) c = .ok out) :
    Segment [] [] c out.cursor out.code ∧ out.cursor.closed = true := by
  obtain ⟨first, second, hfirst, hsecond, rfl⟩ := bind_eq_ok_iff.1 h
  have hclose : Segment [] [] first.cursor second.cursor second.code ∧
      second.cursor.closed = true := by
    rcases hi with rfl | rfl <;> exact close_segments rfl rfl rfl rfl hsecond
  exact ⟨(hx hfirst).append hclose.1, hclose.2⟩

theorem lowerBody_segment {fold initialized : Bool} {d : FuncDecl} {f : Function} {c : Cursor}
    {out : Emitted Unit} (h : lowerBody fold initialized d f c = .ok out) :
    Segment [] [] c out.cursor out.code ∧ out.cursor.closed = true := by
  have hblock := lowerBlock_segments ⟨fold, some f⟩ d.body
  have hlast : (if f.result.isVoid then Instr.ret none else .unreachable) = .ret none ∨
      (if f.result.isVoid then Instr.ret none else .unreachable) = .unreachable := by
    split
    · exact .inl rfl
    · exact .inr rfl
  unfold lowerBody at h
  split at h
  · have hcall : Segments [] [] (instr (.call none .void false .initializer [])) :=
      instr_segments rfl rfl rfl
    rw [← bind_assoc] at h
    exact closing_segment (hcall.bind fun _ => hblock) hlast h
  · exact closing_segment hblock hlast h

/-- Where a definition of a module comes from: a function that the program declares, or what the
program does outside of its functions. -/
inductive Definition.Lowered (a : Analysis) (fold : Bool) : Definition → Prop where
  | function {ds : List FuncDecl} {d : FuncDecl} {f : Function} {initialized : Bool}
      {start : Cursor} {out : Emitted Unit} (functions : a.program.functions = .ok ds) (declared : d ∈ ds)
      (described : d.described = .ok f)
      (lowered : lowerFunction fold initialized d f start = .ok out) :
      Lowered a fold ⟨.function f, out.code⟩
  | initializer {start : Cursor} {out : Emitted Unit}
      (lowered : lowerInitializer fold a.program start = .ok out) :
      Lowered a fold ⟨.initializer, out.code⟩

theorem lowerFunctions_lowered {a : Analysis} {fold initialized : Bool} {ds all : List FuncDecl}
    {c c' : Cursor} {definitions : List Definition} (hall : a.program.functions = .ok all)
    (hds : ∀ d ∈ ds, d ∈ all)
    (h : lowerFunctions fold initialized c ds = .ok (c', definitions)) :
    ∀ d ∈ definitions, d.Lowered a fold := by
  induction ds generalizing c definitions with
  | nil =>
      cases h
      exact fun _ hd => (nomatch hd)
  | cons d rest ih =>
      obtain ⟨hd, hrest⟩ := List.forall_mem_cons.1 hds
      obtain ⟨f, out, more, hf, hout, hmore, rfl⟩ := lowerFunctions_cons_ok h
      exact List.forall_mem_cons.2 ⟨.function hall hd hf hout, ih hrest hmore⟩

theorem Module.lowered {a : Analysis} {opts : Options} {m : Module}
    (h : Module.ofAnalysis a opts = .ok m) : ∀ d ∈ m.definitions, d.Lowered a opts.fold := by
  obtain ⟨ds, initialized, c, definitions, hds, -, hfunctions, -, hlast⟩ := Module.ofAnalysis_ok h
  have hlowered := lowerFunctions_lowered hds (fun _ hd => hd) hfunctions
  rcases hlast with ⟨-, out, hout, -, hdefinitions⟩ | ⟨-, -, hdefinitions⟩
  · rw [hdefinitions]
    exact List.forall_mem_append.2 ⟨hlowered, List.forall_mem_singleton.2 (.initializer hout)⟩
  · rwa [hdefinitions]

/-- The parameters of a definition. -/
def Definition.params (d : Definition) : List Symbol :=
  match d.origin with
  | .function f => f.params
  | .initializer => []

/-- The value that an instruction gives a name to: the place of a parameter or a local, or a
register. -/
def Instr.value? (i : Instr) : Option Operand :=
  (i.slot?.map Operand.slot).or (i.dest?.map Operand.reg)

/-- The values of a definition that have a name: its parameters as they are passed, places, and
registers. -/
def Definition.values (d : Definition) : List Operand :=
  d.params.map (fun id => Operand.arg id.name) ++ d.code.filterMap Instr.value?

/-- A definition that is made of blocks, in which no name is given twice. -/
structure Definition.WellFormed (d : Definition) : Prop where
  entry : ∃ rest, d.code = .label .entry :: rest
  entered : ∀ pre l post, d.code = pre ++ .label l :: post → pre ≠ [] →
    ∃ init t, pre = init ++ [t] ∧ t.isTerminator = true
  left : ∀ pre t post, d.code = pre ++ t :: post → t.isTerminator = true →
    post = [] ∨ ∃ l rest, post = .label l :: rest
  last : ∃ init t, d.code = init ++ [t] ∧ t.isTerminator = true
  labels : ((labels d.code).map Label.text).Nodup
  targets : ∀ i ∈ d.code, ∀ l ∈ i.targets, l ≠ .entry ∧ .label l ∈ d.code
  values : (d.values.map Operand.text).Nodup

theorem exists_concat_of_flow {closed : Bool} {code : List Instr}
    (h : flow closed code = some true) (hne : code ≠ []) :
    ∃ init t, code = init ++ [t] ∧ t.isTerminator = true := by
  rw [← List.dropLast_concat_getLast hne] at h
  exact ⟨_, _, (List.dropLast_concat_getLast hne).symm, flow_concat h⟩

theorem flow_straight {code : List Instr}
    (h : ∀ i ∈ code, i.label? = none ∧ i.isTerminator = false) : flow false code = some false := by
  induction code with
  | nil => rfl
  | cons i rest ih =>
      obtain ⟨⟨hl, ht⟩, hrest⟩ := List.forall_mem_cons.1 h
      simpa [flow, hl, ht] using ih hrest

theorem mem_labels {l : Label} {code : List Instr} : l ∈ labels code ↔ .label l ∈ code := by
  simp only [labels, List.mem_filterMap]
  constructor
  · rintro ⟨i, hi, hl⟩
    cases i <;> cases hl
    exact hi
  · exact fun h => ⟨_, h, rfl⟩

/-- The names of parameters, places and registers do not clash with each other. -/
theorem nodup_texts {args slots : List String} {regs : List Reg} (ha : args.Nodup)
    (hs : slots.Nodup) (hr : regs.Nodup) :
    ((args.map Operand.arg ++ (slots.map Operand.slot ++ regs.map Operand.reg)).map
      Operand.text).Nodup := by
  refine List.Nodup.map_on (fun x hx y hy => ?_) ?_
  · have hnamed : ∀ z ∈ args.map Operand.arg ++ (slots.map Operand.slot ++ regs.map Operand.reg),
        z.parts?.isSome = true := by
      intro z hz
      simp only [List.mem_append, List.mem_map] at hz
      rcases hz with ⟨_, -, rfl⟩ | ⟨_, -, rfl⟩ | ⟨_, -, rfl⟩ <;> rfl
    exact Operand.text_inj (hnamed x hx) (hnamed y hy)
  · simp only [List.nodup_append, List.mem_append, List.mem_map]
    refine ⟨ha.map_on (by simp), ⟨hs.map_on (by simp), hr.map_on (by simp), ?_⟩, ?_⟩
    · rintro _ ⟨_, -, rfl⟩ _ ⟨_, -, rfl⟩ heq
      cases heq
    · rintro _ ⟨_, -, rfl⟩ _ (⟨_, -, rfl⟩ | ⟨_, -, rfl⟩) heq <;> cases heq

/-- Instructions that only make places and store something there. -/
structure Instr.Opens (i : Instr) : Prop where
  label : i.label? = none
  terminator : i.isTerminator = false
  dest : i.dest? = none
  targets : i.targets = []

/-- An entry, instructions that make places, and a piece of code that leaves its last block. -/
theorem Segment.wellFormed {d : Definition} {head rest : List Instr} {c c' : Cursor}
    (h : Segment [] [] c c' rest) (hc : c.closed = false) (hc' : c'.closed = true)
    (hcode : d.code = .label .entry :: (head ++ rest)) (hhead : ∀ i ∈ head, i.Opens)
    (hparams : (d.params.map (·.name)).Nodup) (hslots : (head.filterMap Instr.slot?).Nodup) :
    d.WellFormed := by
  have hflow : flow true d.code = some true := by
    have hf := flow_straight fun i hi => ⟨(hhead i hi).label, (hhead i hi).terminator⟩
    have hr := h.flows
    rw [hc, hc'] at hr
    simp [hcode, flow, Instr.label?, Instr.isTerminator, flow_append, hf, hr]
  have hlabels : Llvm.labels d.code = .entry :: Llvm.labels rest := by
    have hnone : head.filterMap Instr.label? = [] :=
      List.filterMap_eq_nil_iff.2 fun i hi => (hhead i hi).label
    simp [hcode, Llvm.labels, Instr.label?, hnone]
  have hentry : .entry ∉ Llvm.labels rest := by
    have hcount := h.labels .entry
    simpa [between, Label.number, List.count_eq_zero] using hcount
  have hvalues : d.code.filterMap Instr.value? =
      (head.filterMap Instr.slot?).map Operand.slot ++ (Llvm.dests rest).map Operand.reg := by
    have hplaces : head.filterMap Instr.value? = (head.filterMap Instr.slot?).map Operand.slot := by
      rw [List.map_filterMap]
      exact List.filterMap_congr fun i hi => by simp [Instr.value?, (hhead i hi).dest]
    have hregs : rest.filterMap Instr.value? = (Llvm.dests rest).map Operand.reg := by
      rw [Llvm.dests, List.map_filterMap]
      exact List.filterMap_congr fun i hi => by simp [Instr.value?, h.slots i hi]
    have hlabel : (Instr.label .entry).value? = none := rfl
    rw [hcode, List.filterMap_cons_none hlabel, List.filterMap_append, hplaces, hregs]
  refine ⟨⟨_, hcode⟩, fun pre l post heq hne => ?_, fun pre t post heq ht => ?_, ?_, ?_,
    fun i hi l hl => ?_, ?_⟩
  · rw [heq] at hflow
    exact exists_concat_of_flow (flow_label hflow) hne
  · rw [heq] at hflow
    exact flow_terminator hflow ht
  · exact exists_concat_of_flow hflow (by simp [hcode])
  · refine List.Nodup.map_on (fun _ _ _ _ => Label.text_inj) ?_
    rw [hlabels, List.nodup_cons]
    refine ⟨hentry, List.nodup_iff_count.2 fun l => Nat.le_trans (h.labels l) ?_⟩
    simp only [List.count_nil, between]
    split <;> omega
  · obtain ⟨hi, hmem⟩ : i ∈ rest ∧ l ∈ Llvm.labels rest := by
      rw [hcode] at hi
      rcases List.mem_cons.1 hi with rfl | hi
      · cases hl
      · rcases List.mem_append.1 hi with hi | hi
        · rw [(hhead i hi).targets] at hl
          cases hl
        · exact ⟨hi, (h.targets i hi l hl).elim id fun hl => (nomatch hl)⟩
    refine ⟨fun heq => hentry (heq ▸ hmem), mem_labels.1 ?_⟩
    rw [hlabels]
    exact List.mem_cons_of_mem _ hmem
  · have hregs : (Llvm.dests rest).Nodup := by
      refine List.nodup_iff_count.2 fun q => Nat.le_trans (h.dests q) ?_
      unfold between
      split <;> omega
    have htexts := nodup_texts hparams hslots hregs
    rwa [List.map_map, ← hvalues] at htexts

theorem slots_places (value : Symbol → Operand) (ids : List Symbol) :
    (places value ids).filterMap Instr.slot? = ids.map (·.name) := by
  induction ids with
  | nil => rfl
  | cons id rest ih => exact congrArg (id.name :: ·) ih

theorem places_opens (value : Symbol → Operand) (ids : List Symbol) :
    ∀ i ∈ places value ids, i.Opens := by
  intro i hi
  simp only [places, List.mem_flatMap, List.mem_cons, List.not_mem_nil, or_false] at hi
  obtain ⟨id, -, rfl | rfl⟩ := hi <;> exact ⟨rfl, rfl, rfl, rfl⟩

theorem Definition.Lowered.wellFormed {a : Analysis} {fold : Bool} {d : Definition}
    (h : d.Lowered a fold) (htyped : a.program.Typed ⟨a.globals, none⟩) : d.WellFormed := by
  cases h with
  | @function ds decl f initialized start out functions declared described lowered =>
      obtain ⟨hplaced, hlocals, -⟩ := htyped.described functions declared described
      obtain ⟨rest, hrest, rfl⟩ := lowerFunction_ok hplaced hlocals lowered
      obtain ⟨hsegment, hclosed⟩ := lowerBody_segment hrest
      have hnames := hplaced.names
      rw [List.map_append] at hnames
      refine hsegment.wellFormed rfl hclosed rfl ?_ (List.nodup_append.1 hnames).1 ?_
      · exact List.forall_mem_append.2 ⟨places_opens _ _, places_opens _ _⟩
      · rw [prologue, List.filterMap_append, slots_places, slots_places]
        exact hnames
  | @initializer start out lowered =>
      obtain ⟨first, rest, hfirst, hrest, rfl⟩ := bind_eq_ok_iff.1 lowered
      cases hfirst
      obtain ⟨hsegment, hclosed⟩ :=
        closing_segment (lowerBlock_segments ⟨fold, none⟩ a.program) (.inl rfl) hrest
      have hcode : Instr.label .entry :: rest.code = .label .entry :: ([] ++ rest.code) := rfl
      exact hsegment.wellFormed rfl hclosed hcode (by simp) .nil .nil

end Llvm

/-- Every function of a module is made of blocks and in single assignment form. It starts with its
entry, every other label follows an instruction that leaves its block, such an instruction is
followed by a label or is the last one, and so is the last one. The names of labels are different
from each other, branches lead to labels of the same function other than its entry, and no two
parameters, places or registers have the same name. -/
theorem Analysis.llvm_blocks_wellFormed {b : Block} {a : Analysis}
    (ha : Analysis.ofProgram b = .ok a) (opts : Options) :
    ∃ module, Llvm.Module.ofAnalysis a opts = .ok module ∧
      ∀ d ∈ module.definitions, d.WellFormed := by
  obtain ⟨htyped, -, hstatic⟩ := Analysis.ofProgram_checked ha
  obtain ⟨pos, stmts, t, stmts', -, -, rfl⟩ := Analysis.ofProgram_ok ha
  obtain ⟨module, hmodule⟩ := Llvm.Module.ofAnalysis_succeeds rfl htyped hstatic opts
  exact ⟨module, hmodule, fun d hd => (Llvm.Module.lowered hmodule d hd).wellFormed htyped⟩

theorem Analysis.llvm_blocks_wellFormed_after_return :
    ∃ b a module d,
      Block.parse "(func int f ((int x)) (block (while x (block (return x) (= x 1))) (return 0)))" =
        .ok b ∧
      Analysis.ofProgram b = .ok a ∧ Llvm.Module.ofAnalysis a ⟨true, "program"⟩ = .ok module ∧
      d ∈ module.definitions ∧ .label (.after 2) ∈ d.code ∧ d.WellFormed := by
  have htext : ((Analysis.ofText?
      "(func int f ((int x)) (block (while x (block (return x) (= x 1))) (return 0)))").any fun a =>
        (Llvm.Module.ofAnalysis a ⟨true, "program"⟩).toOption.any fun m =>
          m.definitions.any fun d => d.code.contains (.label (.after 2))) = true := by
    decide +kernel
  obtain ⟨a, ha, hany⟩ := (Option.any_eq_true _ _).1 htext
  obtain ⟨b, hb, ha⟩ := Analysis.ofText?_eq_some ha
  obtain ⟨module, hmodule, hall⟩ := Analysis.llvm_blocks_wellFormed ha ⟨true, "program"⟩
  rw [hmodule] at hany
  obtain ⟨d, hd, hcode⟩ := List.any_eq_true.1 hany
  exact ⟨b, a, module, d, hb, ha, hmodule, hd, List.contains_iff_mem.1 hcode, hall d hd⟩

end SmallC
