import Mathlib.Logic.Relation
import SmallC.Proofs.LlvmReferences

/-!
# Falling off the end of a function

A function with a result is taken to have returned it before its end. Nothing
looks whether that is so: analysis asks of a `return` that it has a value, and
never that there is one. Where the end can be reached, the instruction that says
it cannot be is what control runs into.

Whether it can be reached is a question about the graph of blocks, where a branch
on a condition counts both ways. It has an answer that only looks at the tree,
`Block.passes`: a `return` stops control, a conditional stops it if both of its
branches do, and a loop never stops it, because the condition is tested before
the body is entered.

The two meet in `Emit.Passes`. A piece of code may stand anywhere in a function,
so it is read against the branches of the whole function, of which two things
are known: those of the piece are among them, and no others lead into the piece.
The first makes control get on, the second keeps it from coming from elsewhere.
Labels are numbered, and a piece owns the numbers given out while it was added,
so the second survives when a piece is cut into smaller ones.
-/

namespace SmallC

/-! ## Getting past a statement -/

mutual

/-- Whether control can get past a statement, if each condition may turn out either way. -/
def Stmt.passes : Stmt → Bool
  | .ifElse _ _ yes no => yes.passes || no.passes
  | .forLoop _ init _ _ _ _ => init.passes
  | .block b => b.passes
  | .ret _ _ => false
  | _ => true

/-- Whether control can get to the end of a block. -/
def Block.passes : Block → Bool
  | .missing => true
  | .of _ stmts => Stmt.allPass stmts

/-- Whether control can get past each of some statements. -/
def Stmt.allPass : List Stmt → Bool
  | [] => true
  | s :: rest => s.passes && Stmt.allPass rest

end

mutual

/-- Control does not get past what surely ends with a return. -/
theorem Stmt.passes_of_returns : ∀ s : Stmt, s.returns = true → s.passes = false
  | .ret _ _, _ => rfl
  | .block b, h => Block.passes_of_returns b h
  | .missing, h | .call _ _ _ _, h | .assign _ _ _ _, h | .varDecl _ _ _, h
  | .arrayDecl _ _ _ _, h | .ifElse _ _ _ _, h | .whileLoop _ _ _, h | .forLoop _ _ _ _ _ _, h
  | .funcDecl _ _ _ _ _ _ _, h => absurd h (by simp [Stmt.returns])

theorem Block.passes_of_returns : ∀ b : Block, b.returns = true → b.passes = false
  | .missing, h => absurd h (by simp [Block.returns])
  | .of _ stmts, h => Stmt.allPass_of_lastReturns stmts h

theorem Stmt.allPass_of_lastReturns :
    ∀ stmts : List Stmt, Stmt.lastReturns stmts = true → Stmt.allPass stmts = false
  | [], h => absurd h (by simp [Stmt.lastReturns])
  | [s], h => by rw [Stmt.allPass, Stmt.passes_of_returns s h, Bool.false_and]
  | s :: t :: rest, h => by
      rw [Stmt.allPass, Stmt.allPass_of_lastReturns (t :: rest) h, Bool.and_false]

end

namespace Llvm

open Emit Relation

/-! ## The graph of blocks -/

/-- An instruction stands in the block of the last label before it. -/
def StandsIn (code : List Instr) (l : Label) (i : Instr) : Prop :=
  ∃ pre post, code = pre ++ i :: post ∧ (labels pre).getLast? = some l

/-- Some branch in the block of one label leads to another label. -/
def Branches (code : List Instr) (l l' : Label) : Prop := ∃ i, StandsIn code l i ∧ l' ∈ i.targets

/-- The block of a label can be reached from the entry by following branches. -/
def Reached (code : List Instr) (l : Label) : Prop := ReflTransGen (Branches code) .entry l

/-- A definition that can run into an instruction said never to be reached. What happens then is
undefined. -/
def Definition.MayFallOff (d : Definition) : Prop :=
  ∃ l, Reached d.code l ∧ StandsIn d.code l .unreachable

/-- The label whose block is open after some code, where it was `l` before. -/
def latest (l : Label) (code : List Instr) : Label := (labels code).getLast?.getD l

/-- The branches of code that starts in the block of `l`: where each of them stands, and where it
leads. -/
def edges (l : Label) : List Instr → List (Label × Label)
  | [] => []
  | i :: rest => i.targets.map (l, ·) ++ edges (i.label?.getD l) rest

variable {l l' a b : Label} {code more pre mid post : List Instr}

theorem latest_cons (i : Instr) : latest l (i :: code) = latest (i.label?.getD l) code := by
  unfold latest labels
  cases h : i.label? with
  | none => rw [List.filterMap_cons_none h]; rfl
  | some l' => rw [List.filterMap_cons_some h, List.getLast?_cons]; rfl

theorem latest_append : latest l (code ++ more) = latest (latest l code) more := by
  induction code generalizing l with
  | nil => rfl
  | cons i rest ih => rw [List.cons_append, latest_cons, latest_cons, ih]

theorem latest_of_labels_eq_nil (h : labels code = []) : latest l code = l := by
  unfold latest
  rw [h]
  rfl

theorem latest_mem_labels (h : labels code ≠ []) : latest l code ∈ labels code := by
  unfold latest
  rw [List.getLast?_eq_some_getLast h]
  exact List.getLast_mem h

theorem edges_append : edges l (code ++ more) = edges l code ++ edges (latest l code) more := by
  induction code generalizing l with
  | nil => rfl
  | cons i rest ih => rw [List.cons_append, edges, edges, ih, latest_cons, List.append_assoc]

theorem mem_edges_iff :
    (a, b) ∈ edges l code ↔
      ∃ pre i post, code = pre ++ i :: post ∧ latest l pre = a ∧ b ∈ i.targets := by
  constructor
  · intro h
    induction code generalizing l with
    | nil => cases h
    | cons i rest ih =>
        rcases List.mem_append.1 h with h | h
        · obtain ⟨b', hb, heq⟩ := List.mem_map.1 h
          cases heq
          exact ⟨[], i, rest, rfl, rfl, hb⟩
        · obtain ⟨pre, j, post, rfl, rfl, hb⟩ := ih h
          exact ⟨i :: pre, j, post, rfl, latest_cons i, hb⟩
  · rintro ⟨pre, i, post, rfl, rfl, hb⟩
    rw [edges_append, edges]
    exact List.mem_append_right _ (List.mem_append_left _ (List.mem_map.2 ⟨b, hb, rfl⟩))

theorem exists_of_mem_edges (h : (a, b) ∈ edges l code) : ∃ i ∈ code, b ∈ i.targets := by
  obtain ⟨pre, i, post, rfl, -, hb⟩ := mem_edges_iff.1 h
  exact ⟨i, by simp, hb⟩

theorem standsIn_label_cons {i : Instr} :
    StandsIn (.label l :: code) a i ↔
      ∃ pre post, code = pre ++ i :: post ∧ latest l pre = a := by
  have hlast : ∀ pre, (labels (.label l :: pre)).getLast? = some (latest l pre) := by
    intro pre
    show (l :: labels pre).getLast? = _
    rw [List.getLast?_cons]
    rfl
  constructor
  · rintro ⟨pre, post, heq, hpre⟩
    cases pre with
    | nil => cases hpre
    | cons j pre =>
        obtain ⟨rfl, rfl⟩ := List.cons.inj heq
        rw [hlast] at hpre
        exact ⟨pre, post, rfl, Option.some.inj hpre⟩
  · rintro ⟨pre, post, rfl, rfl⟩
    exact ⟨.label l :: pre, post, rfl, hlast pre⟩

theorem branches_label_cons : Branches (.label l :: code) a b ↔ (a, b) ∈ edges l code := by
  rw [mem_edges_iff]
  constructor
  · rintro ⟨i, hi, hb⟩
    obtain ⟨pre, post, heq, ha⟩ := standsIn_label_cons.1 hi
    exact ⟨pre, i, post, heq, ha, hb⟩
  · rintro ⟨pre, i, post, heq, ha, hb⟩
    exact ⟨i, standsIn_label_cons.2 ⟨pre, post, heq, ha⟩, hb⟩

/-- A branch stands in a block of the code, or in the block that was open before it. -/
theorem source_of_mem_edges {closed closed' : Bool} (hflow : flow closed code = some closed')
    (h : (a, b) ∈ edges l code) : a ∈ labels code ∨ closed = false ∧ a = l := by
  induction code generalizing closed l with
  | nil => cases h
  | cons i rest ih =>
      simp only [flow, Option.ite_none_right_eq_some] at hflow
      obtain ⟨hclosed, hrest⟩ := hflow
      rcases List.mem_append.1 h with h | h
      · obtain ⟨b', hb, heq⟩ := List.mem_map.1 h
        cases heq
        refine .inr ⟨?_, rfl⟩
        cases i <;> first | exact hclosed.symm | cases hb
      · rcases ih hrest h with ha | ⟨-, rfl⟩
        · exact .inl (List.mem_filterMap.2 (by
            obtain ⟨j, hj, hl⟩ := List.mem_filterMap.1 ha
            exact ⟨j, List.mem_cons_of_mem i hj, hl⟩))
        · cases hi : i.label? with
          | none => exact .inr ⟨by rw [hi] at hclosed; exact hclosed.symm, rfl⟩
          | some l' => exact .inl (List.mem_filterMap.2 ⟨i, List.mem_cons_self, hi⟩)

/-! ## A piece of code in a function -/

/-- Control gets to a place: a block is open there, and it can be reached. -/
def Alive (G : Label → Label → Prop) (c : Cursor) (l : Label) : Prop :=
  c.closed = false ∧ ReflTransGen G .entry l

/-- Code among the branches `G` of a function: those of the code are there, and the labels with
numbers in some range are reached by no others. -/
structure Lies (G : Label → Label → Prop) (low high : Nat) (l : Label) (code : List Instr) :
    Prop where
  sub : ∀ a b, (a, b) ∈ edges l code → G a b
  only : ∀ a b, G a b → low < b.number → b.number ≤ high → (a, b) ∈ edges l code

section

variable {G : Label → Label → Prop} {c c' : Cursor}

theorem Segment.number_of_mem (h : Segment [] [] c c' code) (hl : l ∈ Llvm.labels code) :
    c.control < l.number ∧ l.number ≤ c'.control := by
  have hcount := h.labels l
  have hpos := List.count_pos_iff.2 hl
  simp only [List.count_nil, between] at hcount
  split at hcount
  · assumption
  · omega

theorem Segment.number_of_edge (h : Segment [] [] c c' code) (hb : (a, b) ∈ edges l code) :
    c.control < b.number ∧ b.number ≤ c'.control := by
  obtain ⟨i, hi, hb⟩ := exists_of_mem_edges hb
  exact h.number_of_mem ((h.targets i hi b hb).resolve_right List.not_mem_nil)

/-- The labels of a piece are reached through its start. -/
theorem Segment.alive_of_reached (h : Segment [] [] c c' code)
    (hlies : Lies G c.control c'.control l code) (hb : b ∈ Llvm.labels code)
    (hreached : ReflTransGen G .entry b) : Alive G c l := by
  induction hreached with
  | refl =>
      have hnumber := h.number_of_mem hb
      simp only [Label.number] at hnumber
      omega
  | @tail a b hpath hbranch ih =>
      obtain ⟨hlow, hhigh⟩ := h.number_of_mem hb
      rcases source_of_mem_edges h.flows (hlies.only a b hbranch hlow hhigh) with ha | ⟨hopen, rfl⟩
      · exact ih ha
      · exact ⟨hopen, hpath⟩

/-- Where control gets past a piece it has come to its start. -/
theorem Segment.alive_start (h : Segment [] [] c c' code)
    (hlies : Lies G c.control c'.control l code) (halive : Alive G c' (latest l code)) :
    Alive G c l := by
  by_cases hnil : Llvm.labels code = []
  · have hflow := h.flows
    rw [latest_of_labels_eq_nil hnil] at halive
    refine ⟨?_, halive.2⟩
    cases code with
    | nil => exact (Option.some.inj hflow).trans halive.1
    | cons i rest =>
        simp only [flow, Option.ite_none_right_eq_some] at hflow
        rw [← hflow.1, Option.isSome_eq_false_iff, Option.isNone_iff_eq_none]
        exact List.filterMap_eq_nil_iff.1 hnil i List.mem_cons_self
  · exact h.alive_of_reached hlies (latest_mem_labels hnil) halive.2

/-- Of two pieces, neither branches into the other. -/
theorem Lies.of_append {c₁ c₂ : Cursor} (h : Lies G c.control c₂.control l (code ++ more))
    (hcode : Segment [] [] c c₁ code) (hmore : Segment [] [] c₁ c₂ more) :
    Lies G c.control c₁.control l code ∧ Lies G c₁.control c₂.control (latest l code) more := by
  obtain ⟨hsub, honly⟩ := h
  simp only [edges_append, List.mem_append] at hsub honly
  have hfirst := hcode.control
  have hsecond := hmore.control
  refine ⟨⟨fun a b hab => hsub a b (.inl hab), fun a b hab hlow hhigh => ?_⟩,
    ⟨fun a b hab => hsub a b (.inr hab), fun a b hab hlow hhigh => ?_⟩⟩
  · refine (honly a b hab hlow (by omega)).resolve_right fun h => ?_
    have := hmore.number_of_edge h
    omega
  · refine (honly a b hab (by omega) hhigh).resolve_left fun h => ?_
    have := hcode.number_of_edge h
    omega

end

/-! ## Steps -/

namespace Emit

variable {α β : Type} {p q : Bool}

/-- A step that control gets past exactly if it gets to the step and `p` holds. Whether it got to the
step follows from getting past it for any piece of code, so that is not said again. -/
structure Passes (p : Bool) (x : Emit α) : Prop where
  segments : Segments [] [] x
  defined : ∀ ⦃c : Cursor⦄ ⦃out : Emitted α⦄, x c = .ok out → .unreachable ∉ out.code
  passed : ∀ ⦃c : Cursor⦄ ⦃out : Emitted α⦄ ⦃l : Label⦄ ⦃G : Label → Label → Prop⦄, x c = .ok out →
    (∀ a b, (a, b) ∈ edges l out.code → G a b) → Alive G c l → p = true →
      Alive G out.cursor (latest l out.code)
  only : ∀ ⦃c : Cursor⦄ ⦃out : Emitted α⦄ ⦃l : Label⦄ ⦃G : Label → Label → Prop⦄, x c = .ok out →
    Lies G c.control out.cursor.control l out.code → Alive G out.cursor (latest l out.code) →
      p = true

theorem Passes.pure (a : α) : Passes true (Pure.pure a : Emit α) where
  segments := .pure a
  defined := by intro c out hx; cases hx; simp
  passed := by intro c out l G hx _ halive _; cases hx; exact halive
  only := by intros; rfl

theorem Passes.fail (f : Fault) : Passes p (Emit.fail f : Emit α) where
  segments := .fail f
  defined := by intro c out hx; cases hx
  passed := by intro c out l G hx; cases hx
  only := by intro c out l G hx; cases hx

theorem Passes.bind {x : Emit α} {f : α → Emit β} (h : Passes p x) (h' : ∀ a, Passes q (f a)) :
    Passes (p && q) (x >>= f) where
  segments := h.segments.bind fun a => (h' a).segments
  defined := by
    intro c out hx
    obtain ⟨first, second, hfirst, hsecond, rfl⟩ := bind_eq_ok_iff.1 hx
    exact fun hmem => (List.mem_append.1 hmem).elim (h.defined hfirst) ((h' _).defined hsecond)
  passed := by
    intro c out l G hx hsub halive hpq
    obtain ⟨first, second, hfirst, hsecond, rfl⟩ := bind_eq_ok_iff.1 hx
    obtain ⟨hp, hq⟩ := Bool.and_eq_true_iff.1 hpq
    simp only [edges_append, List.mem_append] at hsub
    rw [latest_append]
    exact (h' _).passed hsecond (fun a b hab => hsub a b (.inr hab))
      (h.passed hfirst (fun a b hab => hsub a b (.inl hab)) halive hp) hq
  only := by
    intro c out l G hx hlies halive
    obtain ⟨first, second, hfirst, hsecond, rfl⟩ := bind_eq_ok_iff.1 hx
    have hsegment' := (h' _).segments hsecond
    obtain ⟨hlies, hlies'⟩ := hlies.of_append (h.segments hfirst) hsegment'
    rw [latest_append] at halive
    exact Bool.and_eq_true_iff.2 ⟨h.only hfirst hlies (hsegment'.alive_start hlies' halive),
      (h' _).only hsecond hlies' halive⟩

theorem live_passes : Passes true live where
  segments := fun c out hx => (live_segment hx).1
  defined := by
    intro c out hx
    cases hc : c.closed with
    | false => rw [live_open hc] at hx; cases hx; simp
    | true => rw [live_closed hc] at hx; cases hx; simp
  passed := by
    intro c out l G hx _ halive _
    rw [live_open halive.1] at hx
    cases hx
    exact halive
  only := by intros; rfl

theorem instr_defined {i : Instr} (hi : i ≠ .unreachable) {c : Cursor} {out : Emitted Unit}
    (h : instr i c = .ok out) : .unreachable ∉ out.code := by
  obtain ⟨first, second, hlive, hsecond, rfl⟩ := bind_eq_ok_iff.1 h
  cases hsecond
  have hfirst := live_passes.defined hlive
  simpa [hfirst] using hi.symm

theorem Plain.defined {x : Emit α} (h : Plain x) :
    ∀ {c : Cursor} {out : Emitted α}, x c = .ok out → .unreachable ∉ out.code := by
  have hplain : ∀ {i : Instr}, i.isPlain = true → i ≠ .unreachable := by
    rintro i hi rfl
    cases hi
  induction h with
  | done a => intro c out hx; cases hx; simp
  | fail f => intro c out hx; cases hx
  | use s => intro c out hx; cases hx; simp
  | instr plain dest => intro c out hx; exact instr_defined (hplain plain) hx
  | define plain dest =>
      intro c out hx
      obtain ⟨first, second, hfirst, hsecond, rfl⟩ := bind_eq_ok_iff.1 hx
      obtain ⟨third, fourth, hthird, hfourth, rfl⟩ := bind_eq_ok_iff.1 hsecond
      cases hfirst
      cases hfourth
      simpa using instr_defined (hplain (plain _)) hthird
  | bind _ _ ihx ihf =>
      intro c out hx
      obtain ⟨first, second, hfirst, hsecond, rfl⟩ := bind_eq_ok_iff.1 hx
      exact fun hmem => (List.mem_append.1 hmem).elim (ihx hfirst) (ihf _ hsecond)

theorem Plain.passes {x : Emit α} (h : Plain x) : Passes true x where
  segments := h.segments
  defined _ _ hx := h.defined hx
  passed := by
    intro c out l G hx _ halive _
    obtain ⟨hopen, -, hplain⟩ := h.opened halive.1 hx
    have hnil : labels out.code = [] :=
      List.filterMap_eq_nil_iff.2 fun i hi => Instr.label?_of_isPlain (hplain i hi)
    rw [latest_of_labels_eq_nil hnil]
    exact ⟨hopen, halive.2⟩
  only := by intros; rfl

/-- Nothing gets past an instruction that leaves the function. -/
theorem ret_passes (value : Option Typed) : Passes false (instr (.ret value)) where
  segments := instr_segments rfl rfl rfl
  defined _ _ hx := instr_defined (by simp) hx
  passed := by intro c out l G _ _ _ hp; cases hp
  only := by
    intro c out l G hx _ halive
    obtain ⟨first, second, -, hsecond, rfl⟩ := bind_eq_ok_iff.1 hx
    cases hsecond
    cases halive.1

/-! ## Control structures -/

/-- The branch to a label at the end of a block, unless control has left the block already. -/
def exit (c : Cursor) (l : Label) : List Instr := if c.closed then [] else [.br l]

theorem turn_eq (c : Cursor) (l next : Label) :
    turn l next c = .ok ⟨(), { c with closed := false }, exit c l ++ [.label next]⟩ := by
  unfold exit
  cases hc : c.closed with
  | false => exact bind_ok (f := fun _ => label next) (jump_open hc l) rfl
  | true =>
      have hjump : jump l c = .ok ⟨(), c, []⟩ := by simp [jump, close, hc]
      exact bind_ok (f := fun _ => label next) hjump rfl

/-- A step, and then a block that is open. -/
def settled (x : Emit α) : Emit α := do
  let a ← x
  live
  return a

theorem Passes.settled {x : Emit α} (h : Passes p x) : Passes p (settled x) := by
  have hsettled := h.bind fun a => live_passes.bind fun _ => Passes.pure a
  rwa [Bool.and_true, Bool.and_true] at hsettled

/-- A condition and the branch on it. Whatever comes before, the branch stands in a block. -/
theorem branch_ok {cond : Emit Operand} {yes no next : Label} {c : Cursor} {out : Emitted Unit}
    (h : (cond >>= fun x => branch x yes no next) c = .ok out) :
    ∃ test, settled cond c = .ok test ∧ test.cursor.closed = false ∧
      out = ⟨(), test.cursor, test.code ++ [.condBr test.value yes no, .label next]⟩ := by
  obtain ⟨first, second, hfirst, hsecond, rfl⟩ := bind_eq_ok_iff.1 h
  obtain ⟨third, fourth, hthird, hfourth, rfl⟩ := bind_eq_ok_iff.1 hsecond
  obtain ⟨opening, last, hopening, hlast, rfl⟩ := bind_eq_ok_iff.1 hthird
  obtain ⟨-, hopen, -⟩ := live_segment hopening
  cases hlast
  cases hfourth
  have hopened : (live >>= fun _ => pure first.value) first.cursor =
      .ok ⟨first.value, opening.cursor, opening.code ++ []⟩ :=
    bind_eq_ok_iff.2 ⟨opening, ⟨first.value, opening.cursor, []⟩, hopening, rfl, rfl⟩
  rw [List.append_nil] at hopened
  refine ⟨_, bind_ok hfirst hopened, hopen, ?_⟩
  have hcursor : { opening.cursor with closed := false } = opening.cursor := by rw [← hopen]
  simp [hcursor]

/-- The code of a conditional with a number, from that of its parts. -/
def conditional (k : Nat) (test : Emitted Operand) (y n : Emitted Unit) : List Instr :=
  (test.code ++ [.condBr test.value (.ifThen k) (.ifElse k), .label (.ifThen k)]) ++
    (y.code ++ ((exit y.cursor (.ifEnd k) ++ [.label (.ifElse k)]) ++
      (n.code ++ (exit n.cursor (.ifEnd k) ++ [.label (.ifEnd k)]))))

/-- The code of a loop with a number from a cursor, from that of its parts. -/
def looping (k : Nat) (c : Cursor) (rest : Emitted Unit) (test : Emitted Operand) : List Instr :=
  (exit c (.loopCond k) ++ [.label (.loopBody k)]) ++
    (rest.code ++ ((exit rest.cursor (.loopCond k) ++ [.label (.loopCond k)]) ++
      (test.code ++ [.condBr test.value (.loopBody k) (.loopEnd k), .label (.loopEnd k)])))

theorem lowerIf_parts {cond : Emit Operand} {yes no : Emit Unit} {c : Cursor} {out : Emitted Unit}
    (h : lowerIf cond yes no c = .ok out) :
    ∃ test y n, settled cond { c with control := c.control + 1 } = .ok test ∧
      test.cursor.closed = false ∧ yes test.cursor = .ok y ∧
      no { y.cursor with closed := false } = .ok n ∧
      out = ⟨(), { n.cursor with closed := false }, conditional (c.control + 1) test y n⟩ := by
  rw [lowerIf_eq] at h
  obtain ⟨numbered, code₁, hnumbered, h₁, rfl⟩ := bind_eq_ok_iff.1 h
  cases hnumbered
  rw [← bind_assoc] at h₁
  obtain ⟨tested, code₂, htested, h₂, rfl⟩ := bind_eq_ok_iff.1 h₁
  obtain ⟨test, htest, hopen, rfl⟩ := branch_ok htested
  obtain ⟨y, code₃, hy, h₃, rfl⟩ := bind_eq_ok_iff.1 h₂
  obtain ⟨turned, code₄, hturned, h₄, rfl⟩ := bind_eq_ok_iff.1 h₃
  rw [turn_eq] at hturned
  cases hturned
  obtain ⟨n, last, hn, hlast, rfl⟩ := bind_eq_ok_iff.1 h₄
  rw [turn_eq] at hlast
  cases hlast
  exact ⟨test, y, n, htest, hopen, hy, hn, rfl⟩

theorem lowerLoop_parts {cond : Emit Operand} {body step : Emit Unit} {c : Cursor}
    {out : Emitted Unit} (h : lowerLoop body step cond c = .ok out) :
    ∃ rest test, (body >>= fun _ => step) { c with control := c.control + 1, closed := false } =
        .ok rest ∧
      settled cond { rest.cursor with closed := false } = .ok test ∧ test.cursor.closed = false ∧
      out = ⟨(), test.cursor, looping (c.control + 1) c rest test⟩ := by
  rw [lowerLoop_eq] at h
  obtain ⟨numbered, code₁, hnumbered, h₁, rfl⟩ := bind_eq_ok_iff.1 h
  cases hnumbered
  obtain ⟨entered, code₂, hentered, h₂, rfl⟩ := bind_eq_ok_iff.1 h₁
  rw [turn_eq] at hentered
  cases hentered
  rw [← bind_assoc] at h₂
  obtain ⟨rest, code₃, hrest, h₃, rfl⟩ := bind_eq_ok_iff.1 h₂
  obtain ⟨turned, code₄, hturned, h₄, rfl⟩ := bind_eq_ok_iff.1 h₃
  rw [turn_eq] at hturned
  cases hturned
  obtain ⟨test, htest, hopen, rfl⟩ := branch_ok h₄
  exact ⟨rest, test, hrest, htest, hopen, rfl⟩

section

variable {k : Nat} {c : Cursor} {l l' a b : Label} {test : Emitted Operand} {y n rest : Emitted Unit}

theorem exit_defined : .unreachable ∉ exit c l := by
  unfold exit
  split <;> simp

theorem mem_edges_exit : (a, b) ∈ edges l (exit c l') ↔ c.closed = false ∧ a = l ∧ b = l' := by
  unfold exit
  cases c.closed <;> simp [edges, Instr.targets]

theorem latest_conditional : latest l (conditional k test y n) = .ifEnd k := by
  simp only [conditional, latest_append]
  rfl

theorem latest_looping : latest l (looping k c rest test) = .loopEnd k := by
  simp only [looping, latest_append]
  rfl

/-- The branches of a conditional: those of its condition and of its two sides, the one that decides
between the sides, and one from each side that control gets to the end of. -/
theorem mem_edges_conditional :
    (a, b) ∈ edges l (conditional k test y n) ↔
      (a, b) ∈ edges l test.code ∨ (a = latest l test.code ∧ (b = .ifThen k ∨ b = .ifElse k)) ∨
      (a, b) ∈ edges (.ifThen k) y.code ∨
      (y.cursor.closed = false ∧ a = latest (.ifThen k) y.code ∧ b = .ifEnd k) ∨
      (a, b) ∈ edges (.ifElse k) n.code ∨
      (n.cursor.closed = false ∧ a = latest (.ifElse k) n.code ∧ b = .ifEnd k) := by
  rw [and_or_left, or_assoc]
  simp only [conditional, edges_append, edges, List.append_assoc, List.cons_append, List.nil_append,
    List.append_nil, Instr.targets, List.map_cons, List.map_nil, List.mem_append, List.mem_cons,
    Prod.mk.injEq, mem_edges_exit]
  -- What is left are labels put down by instructions that are known.
  exact Iff.rfl

/-- The branches of a loop: one that enters it, those of its body, one back to the condition, those of
the condition, and the one that decides whether to go on. -/
theorem mem_edges_looping :
    (a, b) ∈ edges l (looping k c rest test) ↔
      (c.closed = false ∧ a = l ∧ b = .loopCond k) ∨ (a, b) ∈ edges (.loopBody k) rest.code ∨
      (rest.cursor.closed = false ∧ a = latest (.loopBody k) rest.code ∧ b = .loopCond k) ∨
      (a, b) ∈ edges (.loopCond k) test.code ∨
      (a = latest (.loopCond k) test.code ∧ (b = .loopBody k ∨ b = .loopEnd k)) := by
  rw [and_or_left]
  simp only [looping, edges_append, edges, List.append_assoc, List.cons_append, List.nil_append,
    List.append_nil, Instr.targets, List.map_cons, List.map_nil, List.mem_append, List.mem_cons,
    List.not_mem_nil, or_false, Prod.mk.injEq, mem_edges_exit]
  exact Iff.rfl

/-- The sides of a conditional lie among the branches of a function as the conditional does, and its
end is reached from their ends alone. -/
theorem lies_of_conditional {G : Label → Label → Prop} (hk : c.control + 1 = k)
    (h : Lies G c.control n.cursor.control l (conditional k test y n))
    (htest : Segment [] [] { c with control := k } test.cursor test.code)
    (hy : Segment [] [] test.cursor y.cursor y.code)
    (hn : Segment [] [] { y.cursor with closed := false } n.cursor n.code) :
    Lies G test.cursor.control y.cursor.control (.ifThen k) y.code ∧
      Lies G y.cursor.control n.cursor.control (.ifElse k) n.code ∧
      ∀ a, G a (.ifEnd k) →
        (y.cursor.closed = false ∧ a = latest (.ifThen k) y.code) ∨
        (n.cursor.closed = false ∧ a = latest (.ifElse k) n.code) := by
  obtain ⟨hsub, honly⟩ := h
  simp only [mem_edges_conditional] at hsub honly
  -- The numbers of the three parts follow one another, and that of the conditional comes first.
  have htest' : ∀ {a b}, (a, b) ∈ edges l test.code → k < b.number ∧ b.number ≤ _ :=
    htest.number_of_edge
  have hn' : ∀ {a b}, (a, b) ∈ edges (.ifElse k) n.code → y.cursor.control < b.number ∧ _ :=
    hn.number_of_edge
  have hk' : (Label.ifThen k).number = k ∧ (Label.ifElse k).number = k ∧
      (Label.ifEnd k).number = k := ⟨rfl, rfl, rfl⟩
  have hcontrol : k ≤ test.cursor.control := htest.control
  have hcontrol' := hy.control
  have hcontrol'' : y.cursor.control ≤ n.cursor.control := hn.control
  refine ⟨⟨fun a b hab => hsub a b (.inr (.inr (.inl hab))), fun a b hab hlow hhigh => ?_⟩,
    ⟨fun a b hab => hsub a b (.inr (.inr (.inr (.inr (.inl hab))))), fun a b hab hlow hhigh => ?_⟩,
    fun a hab => ?_⟩
  · rcases honly a b hab (by omega) (by omega) with
      h | ⟨-, rfl | rfl⟩ | h | ⟨-, -, rfl⟩ | h | ⟨-, -, rfl⟩
    · have := htest' h
      omega
    · omega
    · omega
    · exact h
    · omega
    · have := hn' h
      omega
    · omega
  · rcases honly a b hab (by omega) (by omega) with
      h | ⟨-, rfl | rfl⟩ | h | ⟨-, -, rfl⟩ | h | ⟨-, -, rfl⟩
    · have := htest' h
      omega
    · omega
    · omega
    · have := hy.number_of_edge h
      omega
    · omega
    · exact h
    · omega
  · rcases honly a _ hab (by omega) (by omega) with
      h | ⟨-, h | h⟩ | h | ⟨hopen, rfl, -⟩ | h | ⟨hopen, rfl, -⟩
    · have := htest' h
      omega
    · cases h
    · cases h
    · have := hy.number_of_edge h
      omega
    · exact .inl ⟨hopen, rfl⟩
    · have := hn' h
      omega
    · exact .inr ⟨hopen, rfl⟩

end

theorem lowerIf_passes {cond : Emit Operand} {yes no : Emit Unit} {p q : Bool} (hcond : Plain cond)
    (hyes : Passes p yes) (hno : Passes q no) : Passes (p || q) (lowerIf cond yes no) where
  segments := lowerIf_segments hcond.segments hyes.segments hno.segments
  defined := by
    intro c out hx
    obtain ⟨test, y, n, htest, -, hy, hn, rfl⟩ := lowerIf_parts hx
    have htest := hcond.passes.settled.defined htest
    simp [conditional, exit_defined, htest, hyes.defined hy, hno.defined hn]
  passed := by
    intro c out l G hx hsub halive hpq
    obtain ⟨test, y, n, htest, hopen, hy, hn, rfl⟩ := lowerIf_parts hx
    rw [latest_conditional]
    simp only [mem_edges_conditional] at hsub
    obtain ⟨-, htested⟩ := hcond.passes.settled.passed htest
      (fun a b hab => hsub a b (.inl hab)) halive rfl
    refine ⟨rfl, ?_⟩
    rcases Bool.or_eq_true_iff.1 hpq with hp | hq
    · have hthen := htested.tail (hsub _ _ (.inr (.inl ⟨rfl, .inl rfl⟩)))
      obtain ⟨hyopen, hyreached⟩ := hyes.passed hy
        (fun a b hab => hsub a b (.inr (.inr (.inl hab)))) ⟨hopen, hthen⟩ hp
      exact hyreached.tail (hsub _ _ (.inr (.inr (.inr (.inl ⟨hyopen, rfl, rfl⟩)))))
    · have helse := htested.tail (hsub _ _ (.inr (.inl ⟨rfl, .inr rfl⟩)))
      obtain ⟨hnopen, hnreached⟩ := hno.passed hn
        (fun a b hab => hsub a b (.inr (.inr (.inr (.inr (.inl hab)))))) ⟨rfl, helse⟩ hq
      exact hnreached.tail (hsub _ _ (.inr (.inr (.inr (.inr (.inr ⟨hnopen, rfl, rfl⟩))))))
  only := by
    intro c out l G hx hlies halive
    obtain ⟨test, y, n, htest, hopen, hy, hn, rfl⟩ := lowerIf_parts hx
    rw [latest_conditional] at halive
    obtain ⟨hyLies, hnLies, hend⟩ := lies_of_conditional rfl hlies
      (hcond.passes.settled.segments htest) (hyes.segments hy) (hno.segments hn)
    obtain heq | ⟨a, ha, hab⟩ := (ReflTransGen.cases_tail_iff _ _ _).1 halive.2
    · cases heq
    · rw [Bool.or_eq_true_iff]
      rcases hend a hab with ⟨hopen, rfl⟩ | ⟨hopen, rfl⟩
      · exact .inl (hyes.only hy hyLies ⟨hopen, ha⟩)
      · exact .inr (hno.only hn hnLies ⟨hopen, ha⟩)

theorem lowerLoop_passes {cond : Emit Operand} {body step : Emit Unit} {p q : Bool}
    (hcond : Plain cond) (hbody : Passes p body) (hstep : Passes q step) :
    Passes true (lowerLoop body step cond) where
  segments := lowerLoop_segments hbody.segments hstep.segments hcond.segments
  defined := by
    intro c out hx
    obtain ⟨rest, test, hrest, htest, -, rfl⟩ := lowerLoop_parts hx
    have hrest := (hbody.bind fun _ => hstep).defined hrest
    have htest := hcond.passes.settled.defined htest
    simp [looping, exit_defined, hrest, htest]
  passed := by
    intro c out l G hx hsub halive _
    obtain ⟨rest, test, -, htest, hopen, rfl⟩ := lowerLoop_parts hx
    rw [latest_looping]
    refine ⟨hopen, ?_⟩
    simp only [mem_edges_looping] at hsub
    have hentered := halive.2.tail (hsub _ _ (.inl ⟨halive.1, rfl, rfl⟩))
    obtain ⟨-, htested⟩ := hcond.passes.settled.passed htest
      (fun a b hab => hsub a b (.inr (.inr (.inr (.inl hab))))) ⟨rfl, hentered⟩ rfl
    exact htested.tail (hsub _ _ (.inr (.inr (.inr (.inr ⟨rfl, .inr rfl⟩)))))
  only := by intros; rfl

/-! ## Statements -/

theorem lowerPart_passes {c : Context} {part : Stmt} (h : Passes part.passes (lowerStmt c part)) :
    Passes part.passes (lowerPart c part) := by
  unfold lowerPart
  split
  · next hmissing =>
      cases part with
      | missing => exact .pure ()
      | _ => cases hmissing
  · exact h

mutual

theorem lowerStmt_passes (c : Context) : ∀ s : Stmt, Passes s.passes (lowerStmt c s)
  | .missing => by rw [lowerStmt]; exact .fail _
  | .call pos func args _ => by
      rw [lowerStmt]
      exact ((lowerCall_plain (lowerArgs_plain c args) pos func).bind fun _ => .done _).passes
  | .assign pos target value _ => by
      rw [lowerStmt]
      exact (lowerAssign_plain c pos target value).passes
  | .varDecl _ _ vars => by
      rw [lowerStmt]
      exact (lowerVars_plain c vars).passes
  | .arrayDecl _ _ name size => by
      rw [lowerStmt]
      exact (lowerArray_plain c name size).passes
  | .ifElse _ cond yes no => by
      rw [lowerStmt]
      exact lowerIf_passes (lowerExpr_plain c cond) (lowerBlock_passes c yes)
        (lowerBlock_passes c no)
  | .whileLoop _ cond body => by
      rw [lowerStmt]
      exact lowerLoop_passes (lowerExpr_plain c cond) (lowerBlock_passes c body) (.pure ())
  | .forLoop _ init cond inserted step body => by
      rw [lowerStmt_forLoop, Stmt.passes, ← Bool.and_true init.passes]
      exact (lowerPart_passes (lowerStmt_passes c init)).bind fun _ =>
        lowerLoop_passes (lowerLoopCond_plain c cond inserted) (lowerBlock_passes c body)
          (lowerPart_passes (lowerStmt_passes c step))
  | .block b => by
      rw [lowerStmt]
      exact lowerBlock_passes c b
  | .funcDecl _ _ _ _ _ _ _ => by rw [lowerStmt]; exact .pure ()
  | .ret _ value => by
      rw [lowerStmt]
      split
      · exact ret_passes none
      · exact (lowerExpr_plain c value).passes.bind fun _ =>
          (Plain.ofExcept _).passes.bind fun _ => ret_passes _

theorem lowerBlock_passes (c : Context) : ∀ b : Block, Passes b.passes (lowerBlock c b)
  | .missing => by rw [lowerBlock]; exact .pure ()
  | .of _ stmts => by
      rw [lowerBlock]
      exact lowerStmts_passes c stmts

theorem lowerStmts_passes (c : Context) :
    ∀ stmts : List Stmt, Passes (Stmt.allPass stmts) (lowerStmts c stmts)
  | [] => by rw [lowerStmts]; exact .pure ()
  | s :: rest => by
      rw [lowerStmts]
      exact (lowerStmt_passes c s).bind fun _ => lowerStmts_passes c rest

end

end Emit

/-! ## Definitions -/

theorem edges_of_targets (h : ∀ i ∈ code, i.targets = []) : edges l code = [] := by
  refine List.eq_nil_iff_forall_not_mem.2 fun ⟨a, b⟩ hab => ?_
  obtain ⟨i, hi, hb⟩ := exists_of_mem_edges hab
  rw [h i hi] at hb
  cases hb

/-- What stands once, at the end of code, stands nowhere else. -/
theorem eq_of_concat_eq {i j : Instr} (h : code ++ [i] = pre ++ j :: post) (hj : j ∉ code) :
    pre = code ∧ i = j := by
  rcases List.eq_nil_or_concat post with rfl | ⟨post, k, rfl⟩
  · obtain ⟨hpre, hlast⟩ := List.append_inj' h rfl
    exact ⟨hpre.symm, (List.cons.inj hlast).1⟩
  · rw [List.concat_eq_append, ← List.cons_append, ← List.append_assoc] at h
    obtain ⟨rfl, -⟩ := List.append_inj' h rfl
    simp at hj

/-- A definition that ends with an instruction of its own, unless control has left it before, runs
into that instruction exactly if control gets past the rest. -/
theorem mayFallOff_iff {x : Emit Unit} {p : Bool} (hx : Passes p x) {i : Instr} {d : Definition}
    {head : List Instr} {c : Cursor} {out : Emitted Unit} (hi : i.targets = [])
    (hhead : ∀ j ∈ head, j.Opens) (hc : c.closed = false)
    (h : (x >>= fun _ => close i) c = .ok out)
    (hcode : d.code = .label .entry :: (head ++ out.code)) :
    d.MayFallOff ↔ i = .unreachable ∧ p = true := by
  obtain ⟨first, second, hfirst, hclose, rfl⟩ := bind_eq_ok_iff.1 h
  have hsecond : second.code = if first.cursor.closed then [] else [i] := by
    cases hclosed : first.cursor.closed with
    | false => rw [close_open hclosed] at hclose; cases hclose; rfl
    | true => simp only [close, hclosed, if_true] at hclose; cases hclose; rfl
  have hdefined : .unreachable ∉ head ++ first.code := by
    intro hmem
    rcases List.mem_append.1 hmem with hmem | hmem
    · cases (hhead _ hmem).terminator
    · exact hx.defined hfirst hmem
  have hlast : latest .entry head = .entry :=
    latest_of_labels_eq_nil (List.filterMap_eq_nil_iff.2 fun j hj => (hhead j hj).label)
  have hbranches : ∀ a b, Branches d.code a b ↔ (a, b) ∈ edges .entry first.code := by
    intro a b
    have htargets : ∀ j ∈ second.code, j.targets = [] := by
      rw [hsecond]
      split <;> simp [hi]
    rw [hcode, branches_label_cons, edges_append, edges_append,
      edges_of_targets fun j hj => (hhead j hj).targets, hlast, edges_of_targets htargets,
      List.nil_append, List.append_nil]
  have hgets : p = true → Alive (Branches d.code) first.cursor (latest .entry first.code) :=
    hx.passed hfirst (fun a b => (hbranches a b).2) ⟨hc, .refl⟩
  have hstands : ∀ l, StandsIn d.code l .unreachable ↔
      first.cursor.closed = false ∧ i = .unreachable ∧ l = latest .entry first.code := by
    intro l
    have hstart : latest .entry (head ++ first.code) = latest .entry first.code := by
      rw [latest_append, hlast]
    rw [hcode, standsIn_label_cons, hsecond, ← List.append_assoc]
    constructor
    · rintro ⟨pre, post, heq, rfl⟩
      split at heq
      · rw [List.append_nil] at heq
        rw [heq] at hdefined
        simp at hdefined
      · next hopen =>
          obtain ⟨rfl, rfl⟩ := eq_of_concat_eq heq hdefined
          exact ⟨Bool.eq_false_iff.2 hopen, rfl, hstart⟩
    · rintro ⟨hopen, rfl, rfl⟩
      exact ⟨_, [], by rw [if_neg (Bool.eq_false_iff.1 hopen)], hstart⟩
  constructor
  · rintro ⟨l, hreached, hstandsIn⟩
    obtain ⟨hopen, rfl, rfl⟩ := (hstands l).1 hstandsIn
    refine ⟨rfl, hx.only hfirst ⟨fun a b => (hbranches a b).2, ?_⟩ ⟨hopen, hreached⟩⟩
    exact fun a b hab _ _ => (hbranches a b).1 hab
  · rintro ⟨rfl, hp⟩
    obtain ⟨hopen, hreached⟩ := hgets hp
    exact ⟨_, hreached, (hstands _).2 ⟨hopen, rfl, rfl⟩⟩

theorem lowerBody_eq (fold initialized : Bool) (d : FuncDecl) (f : Function) :
    ∃ x : Emit Unit, Passes d.body.passes x ∧ lowerBody fold initialized d f =
      x >>= fun _ => close (if f.result.isVoid then .ret none else .unreachable) := by
  have hblock := lowerBlock_passes ⟨fold, some f⟩ d.body
  unfold lowerBody
  cases f.name == "main" && initialized with
  | false => exact ⟨_, hblock, rfl⟩
  | true =>
      have hcall : Plain (instr (.call none .void false .initializer [])) := .instr rfl rfl
      exact ⟨_, hcall.passes.bind fun _ => hblock, (bind_assoc _ _ _).symm⟩

/-- What a definition has to do with the declaration it comes from, as far as the end of the function
goes. Where control may fall off, the body does not end with a return. -/
structure Definition.EndsAs (decl : FuncDecl) (d : Definition) : Prop where
  of_function : ∃ f, decl.described = .ok f ∧ d.origin = .function f ∧
    (d.MayFallOff ↔ f.result.isVoid = false ∧ decl.body.passes = true)
  returns : d.MayFallOff → decl.body.returns = false

theorem lowerFunction_endsAs {fold initialized : Bool} {decl : FuncDecl} {f : Function} {c : Cursor}
    {out : Emitted Unit} (hf : decl.described = .ok f) (hplaced : f.Placed)
    (hlocals : f.locals = decl.body.declared)
    (h : lowerFunction fold initialized decl f c = .ok out) :
    Definition.EndsAs decl ⟨.function f, out.code⟩ := by
  obtain ⟨rest, hrest, rfl⟩ := lowerFunction_ok hplaced hlocals h
  obtain ⟨x, hx, heq⟩ := lowerBody_eq fold initialized decl f
  rw [heq] at hrest
  have hhead : ∀ j ∈ prologue f, j.Opens :=
    List.forall_mem_append.2 ⟨places_opens _ _, places_opens _ _⟩
  have hlast : ∀ v : Bool, (if v then Instr.ret none else .unreachable).targets = [] ∧
      ((if v then Instr.ret none else .unreachable) = .unreachable ↔ v = false) := by
    intro v
    cases v <;> simp [Instr.targets]
  obtain ⟨htargets, hvoid⟩ := hlast f.result.isVoid
  have hiff := mayFallOff_iff (d := ⟨.function f, .label .entry :: (prologue f ++ rest.code)⟩) hx
    htargets hhead rfl hrest rfl
  rw [hvoid] at hiff
  refine ⟨⟨f, hf, rfl, hiff⟩, fun hfalls => Bool.eq_false_iff.2 fun hreturns => ?_⟩
  exact Bool.eq_false_iff.1 (Block.passes_of_returns _ hreturns) (hiff.1 hfalls).2

theorem lowerFunctions_endAs {a : Analysis} {fold initialized : Bool} {all ds : List FuncDecl}
    {c c' : Cursor} {definitions : List Definition} (htyped : a.program.Typed ⟨a.globals, none⟩)
    (hall : a.program.functions = .ok all) (hds : ∀ d ∈ ds, d ∈ all)
    (h : lowerFunctions fold initialized c ds = .ok (c', definitions)) :
    List.Forall₂ Definition.EndsAs ds definitions := by
  induction ds generalizing c definitions with
  | nil =>
      cases h
      exact .nil
  | cons decl rest ih =>
      obtain ⟨hdecl, hrest⟩ := List.forall_mem_cons.1 hds
      obtain ⟨f, out, more, hf, hout, hmore, rfl⟩ := lowerFunctions_cons_ok h
      obtain ⟨hplaced, hlocals, -⟩ := htyped.described hall hdecl hf
      exact .cons (lowerFunction_endsAs hf hplaced hlocals hout) (ih hrest hmore)

theorem lowerInitializer_returns {fold : Bool} {program : Block} {c : Cursor} {out : Emitted Unit}
    (h : lowerInitializer fold program c = .ok out) :
    ¬Definition.MayFallOff ⟨.initializer, out.code⟩ := by
  obtain ⟨first, rest, hfirst, hrest, rfl⟩ := bind_eq_ok_iff.1 h
  cases hfirst
  have hiff := mayFallOff_iff (d := ⟨.initializer, .label .entry :: ([] ++ rest.code)⟩)
    (i := .ret none) (lowerBlock_passes ⟨fold, none⟩ program) rfl (by simp) rfl hrest rfl
  intro hfalls
  cases (hiff.1 hfalls).1

end Llvm

/-- Control falls off the end of a function in a module, which is undefined, exactly if the function
has a result and its body can be got past: no `return` is in the way on some path on which each
condition turns out as the path wants it. Such a body does not end with a `return`. What a program
does outside of its functions never falls off. -/
theorem Analysis.llvm_falls_off_iff {b : Block} {a : Analysis} (ha : Analysis.ofProgram b = .ok a)
    (opts : Options) :
    ∃ module ds definitions last, Llvm.Module.ofAnalysis a opts = .ok module ∧
      a.program.functions = .ok ds ∧ module.definitions = definitions ++ last ∧
      List.Forall₂ Llvm.Definition.EndsAs ds definitions ∧
      ∀ d ∈ last, d.origin = .initializer ∧ ¬d.MayFallOff := by
  obtain ⟨htyped, -, hstatic⟩ := Analysis.ofProgram_checked ha
  obtain ⟨module, hmodule⟩ : ∃ m, Llvm.Module.ofAnalysis a opts = .ok m := by
    obtain ⟨pos, stmts, t, stmts', -, -, rfl⟩ := Analysis.ofProgram_ok ha
    exact Llvm.Module.ofAnalysis_succeeds rfl htyped hstatic opts
  obtain ⟨ds, initialized, c, definitions, hds, -, hfunctions, -, hlast⟩ :=
    Llvm.Module.ofAnalysis_ok hmodule
  have hends := Llvm.lowerFunctions_endAs htyped hds (fun _ hd => hd) hfunctions
  rcases hlast with ⟨-, out, hout, -, hdefinitions⟩ | ⟨-, -, hdefinitions⟩
  · refine ⟨module, ds, definitions, _, hmodule, hds, hdefinitions, hends, ?_⟩
    exact List.forall_mem_singleton.2 ⟨rfl, Llvm.lowerInitializer_returns hout⟩
  · rw [← List.append_nil definitions] at hdefinitions
    exact ⟨module, ds, definitions, [], hmodule, hds, hdefinitions, hends, by simp⟩

/-- The loop and the conditional both return, and what stands after them is not reached. -/
theorem Analysis.llvm_falls_off_iff_after_return :
    ∃ b a module, Block.parse ("(func int f ((int n)) (block (while (> n 0) (block (return 1))) " ++
        "(if n (block (return 2)) (block (return 3))) (= n 4)))") = .ok b ∧
      Analysis.ofProgram b = .ok a ∧ Llvm.Module.ofAnalysis a ⟨true, "program"⟩ = .ok module ∧
      (∃ d ∈ module.definitions, .unreachable ∈ d.code) ∧
      ∀ d ∈ module.definitions, ¬d.MayFallOff := by
  have htext : ((Analysis.ofText?
      ("(func int f ((int n)) (block (while (> n 0) (block (return 1))) " ++
        "(if n (block (return 2)) (block (return 3))) (= n 4)))")).any fun a =>
        (a.program.functions.toOption.all (·.all fun d => !d.body.passes)) &&
        (Llvm.Module.ofAnalysis a ⟨true, "program"⟩).toOption.any fun m =>
          m.definitions.any (·.code.contains .unreachable)) = true := by
    decide +kernel
  obtain ⟨a, ha, hany⟩ := (Option.any_eq_true _ _).1 htext
  obtain ⟨b, hb, ha⟩ := Analysis.ofText?_eq_some ha
  obtain ⟨hstops, hany⟩ := Bool.and_eq_true_iff.1 hany
  obtain ⟨module, ds, definitions, last, hmodule, hds, hdefinitions, hends, hlast⟩ :=
    Analysis.llvm_falls_off_iff ha ⟨true, "program"⟩
  rw [hmodule] at hany
  rw [hds] at hstops
  obtain ⟨d, hd, hcode⟩ := List.any_eq_true.1 hany
  refine ⟨b, a, module, hb, ha, hmodule, ⟨d, hd, List.contains_iff_mem.1 hcode⟩, fun d hd => ?_⟩
  rw [hdefinitions] at hd
  rcases List.mem_append.1 hd with hd | hd
  · intro hfalls
    obtain ⟨i, hi, rfl⟩ := List.mem_iff_getElem.1 hd
    have hlength := hends.length_eq
    obtain ⟨⟨f, -, -, hiff⟩, -⟩ := hends.get (i := i) (by omega) hi
    have hstop := List.all_eq_true.1 hstops _ (List.getElem_mem (by omega : i < ds.length))
    simp only [List.get_eq_getElem] at hiff
    simp [(hiff.1 hfalls).2] at hstop
  · exact (hlast d hd).2

/-- The branch of the conditional that is not there does not return. -/
theorem Analysis.llvm_falls_off_missing_branch :
    ∃ b a module d,
      Block.parse "(func int sign ((int n)) (block (if (> n 0) (block (return 1)))))" = .ok b ∧
      Analysis.ofProgram b = .ok a ∧ Llvm.Module.ofAnalysis a ⟨true, "program"⟩ = .ok module ∧
      d ∈ module.definitions ∧ d.MayFallOff := by
  have htext : ((Analysis.ofText?
      "(func int sign ((int n)) (block (if (> n 0) (block (return 1)))))").any fun a =>
        (Llvm.Module.ofAnalysis a ⟨true, "program"⟩).toOption.any fun m =>
          m.definitions.any fun d => d.code.take 1 = [.label .entry] ∧
            (.entry, .ifElse 1) ∈ Llvm.edges .entry (d.code.drop 1) ∧
            (.ifElse 1, .ifEnd 1) ∈ Llvm.edges .entry (d.code.drop 1) ∧
            (Llvm.labels (d.code.take 11)).getLast? = some (.ifEnd 1) ∧
            d.code.drop 11 = [.unreachable]) = true := by
    decide +kernel
  obtain ⟨a, ha, hany⟩ := (Option.any_eq_true _ _).1 htext
  obtain ⟨b, hb, ha⟩ := Analysis.ofText?_eq_some ha
  obtain ⟨module, hmodule, hany⟩ := (Option.any_eq_true _ _).1 hany
  obtain ⟨d, hd, hcode⟩ := List.any_eq_true.1 hany
  obtain ⟨hentry, helse, hend, hlast, hunreachable⟩ := of_decide_eq_true hcode
  have hbranches : ∀ {l l'}, (l, l') ∈ Llvm.edges .entry (d.code.drop 1) →
      Llvm.Branches d.code l l' := by
    intro l l' h
    rw [← List.take_append_drop 1 d.code, hentry]
    exact Llvm.branches_label_cons.2 h
  have hreached : Llvm.Reached d.code (.ifEnd 1) :=
    (Relation.ReflTransGen.single (hbranches helse)).tail (hbranches hend)
  have hstands : Llvm.StandsIn d.code (.ifEnd 1) .unreachable :=
    ⟨_, [], by rw [← hunreachable, List.take_append_drop], hlast⟩
  cases hm : Llvm.Module.ofAnalysis a ⟨true, "program"⟩ with
  | error e => rw [hm] at hmodule; cases hmodule
  | ok m =>
      rw [hm] at hmodule
      cases hmodule
      exact ⟨b, a, _, d, hb, ha, hm, hd, _, hreached, hstands⟩

end SmallC
