import SmallC.Proofs.CheckAlike
import SmallC.Proofs.CheckFaults
import SmallC.Proofs.LoopUnfolding
import SmallC.Proofs.LowerTotal

/-!
# A for loop is a while loop

A `for` loop opens a scope for its first part, its condition and its last part.
Taken apart, the first part stands in the scope of a block, and the loop that
follows opens a scope of its own inside of that one. No table tells the two forms
apart by what can be seen, since nothing is declared in the outer scope any more
once the inner one is open. So one induction over the trees shows that the check
accepts both or neither, and that the checked trees are related as the programs
are.

Related checked trees have the same code. Hence a `for` loop may be replaced by
the loop that it stands for, anywhere in a program, and nothing about the program
changes.
-/

namespace SmallC

/-! ## Nothing that is checked goes missing -/

theorem Expr.isMissing_withNote (e : Expr) (note : Note) :
    (e.withNote note).isMissing = e.isMissing := by
  cases e <;> rfl

theorem Expr.check_isMissing {t : Table} {s : Nat} {e e' : Expr} {ty : Ty}
    (h : e.check t s = .ok (ty, e')) : e'.isMissing = false := by
  cases e with
  | missing | convert => simp [Expr.check] at h
  | literal =>
      obtain ⟨_, -, -, rfl⟩ := Expr.check_literal_ok h
      rfl
  | ident =>
      obtain ⟨_, -, -, rfl⟩ := Expr.check_ident_ok h
      rfl
  | unary =>
      obtain ⟨_, _, _, -, -, -, rfl⟩ := Expr.check_unary_ok h
      rfl
  | binary =>
      obtain ⟨_, _, _, _, _, _, _, _, _, -, -, -, -, -, -, -, rfl⟩ := Expr.check_binary_ok h
      rfl
  | index =>
      obtain ⟨_, _, _, _, _, _, -, -, -, -, -, -, rfl⟩ := Expr.check_index_ok h
      rfl
  | call =>
      obtain ⟨_, _, _, _, -, -, -, -, -, rfl⟩ := Expr.check_call_ok h
      rfl

theorem Expr.checkCond_isMissing {t : Table} {s : Nat} {e e' : Expr}
    (h : e.checkCond t s = .ok e') : e'.isMissing = false := by
  obtain ⟨_, e₁, he, hco⟩ := Expr.checkCond_ok h
  rcases Expr.coerce_ok hco with ⟨-, rfl⟩ | ⟨_, -, -, -, rfl⟩
  · exact Expr.check_isMissing he
  · rw [Expr.isMissing_withNote, Expr.check_isMissing he]

theorem Stmt.check_isMissing {t t' : Table} {s : Nat} {stmt stmt' : Stmt}
    (h : stmt.check t s = .ok (t', stmt')) : stmt'.isMissing = false := by
  cases stmt with
  | missing => cases h
  | call =>
      obtain ⟨_, _, _, _, _, -, -, -, -, -, -, rfl⟩ := Stmt.check_call_ok h
      rfl
  | assign =>
      obtain ⟨-, h⟩ := Stmt.check_assign_ok h
      obtain ⟨_, _, _, _, _, -, -, -, rfl⟩ := checkAssign_ok h
      rfl
  | varDecl =>
      obtain ⟨_, _, -, -, rfl⟩ := Stmt.check_varDecl_ok h
      rfl
  | arrayDecl =>
      obtain ⟨_, _, _, _, _, _, -, -, -, -, -, rfl⟩ := Stmt.check_arrayDecl_ok h
      rfl
  | ifElse =>
      obtain ⟨_, _, _, _, -, -, -, rfl⟩ := Stmt.check_ifElse_ok h
      rfl
  | whileLoop =>
      obtain ⟨_, _, -, -, rfl⟩ := Stmt.check_whileLoop_ok h
      rfl
  | forLoop =>
      obtain ⟨_, _, _, _, _, _, _, -, -, -, -, rfl⟩ := Stmt.check_forLoop_ok h
      rfl
  | block =>
      obtain ⟨_, -, rfl⟩ := Stmt.check_block_ok h
      rfl
  | funcDecl =>
      obtain ⟨_, _, _, -, -, rfl⟩ := Stmt.check_funcDecl_ok h
      rfl
  | ret =>
      obtain ⟨-, h⟩ := Stmt.check_ret_ok h
      obtain ⟨_, -, ⟨-, -, rfl⟩ | ⟨_, _, _, -, -, -, -, rfl⟩⟩ := checkReturn_ok h <;> rfl

/-- Checking a loop and what stands in front of it goes from one to the other. -/
theorem Stmt.checkAll_thenLoop (t : Table) (s : Nat) (part loop : Stmt) :
    Stmt.checkAll t s (part.thenLoop loop) = (do
      let (t, part) ← part.checkPart t s
      let (t, loop) ← loop.check t s
      return (t, part.thenLoop loop)) := by
  have hlast : ∀ t, Stmt.checkAll t s [loop] = (do
      let (t, loop) ← loop.check t s
      return (t, [loop])) := by
    intro t
    rw [Stmt.checkAll]
    rfl
  cases hpart : part.isMissing with
  | true =>
      obtain rfl := Stmt.isMissing_iff.1 hpart
      exact hlast t
  | false =>
      rw [Stmt.thenLoop_of_isMissing hpart, Stmt.checkAll, Stmt.checkPart, hpart]
      cases hchecked : part.check t s with
      | error f => rfl
      | ok out =>
          obtain ⟨t₁, part'⟩ := out
          show (Stmt.checkAll t₁ s [loop] >>= fun out => Except.ok (out.1, part' :: out.2)) =
            (loop.check t₁ s >>= fun out => Except.ok (out.1, part'.thenLoop out.2))
          simp only [hlast, Stmt.thenLoop_of_isMissing (Stmt.check_isMissing hchecked)]
          cases loop.check t₁ s <;> rfl

theorem Stmt.check_thenLoop (t : Table) (s : Nat) (outer : Pos) (part loop : Stmt) :
    (Stmt.block (.of outer (part.thenLoop loop))).check t s = (do
      let (t, s) := t.child s
      let (t, part) ← part.checkPart t s
      let (t, loop) ← loop.check t s
      return (t, .block (.of outer (part.thenLoop loop)))) := by
  simp only [Stmt.check, Block.check, Stmt.checkAll_thenLoop, bind_assoc, pure_bind]

theorem Stmt.checkPart_missing (t : Table) (s : Nat) :
    Stmt.missing.checkPart t s = pure (t, .missing) := rfl

/-- The check of a loop without a first part, and what is then made of it. -/
theorem Stmt.check_forLoop_missing {α : Type} (t : Table) (s : Nat) (pos : Pos)
    (cond inserted : Expr) (step : Stmt) (body : Block) (k : Table × Stmt → Except Fault α) :
    (Stmt.forLoop pos .missing cond inserted step body).check t s >>= k = (do
      let (t, s) := t.child s
      let (cond, inserted) ← checkLoopCond t s pos cond
      let (t, step) ← step.checkPart t s
      let (t, inner) := t.child s
      let (t, body) ← body.check t inner
      k (t, .forLoop pos .missing cond inserted step body)) := by
  rw [Stmt.check_forLoop]
  simp only [Stmt.checkPart_missing, bind_assoc, pure_bind]

/-! ## Conditions -/

section

variable {t t' : Table} {s s' : Nat} {cond inserted cond' : Expr}

/-- The literal `true` as a condition. -/
theorem Expr.checkCond_true (t : Table) (s : Nat) (pos : Pos) (value : Option Value)
    (note : Note) :
    Expr.checkCond t s (.literal pos "true" value note) =
      .ok (.literal pos "true" (some (.ordinal .bool 1)) { type := some (.base .bool) }) := rfl

/-- Checking a condition that is written out gives what is noted for a loop without one. -/
theorem checkLoopCond_source (h : t'.lookup s' = t.lookup s)
    (hrule : CondRule.source cond inserted cond') (pos : Pos) :
    Agrees (fun out e => CondRule.checked out.1 out.2 e) (checkLoopCond t s pos cond)
      (cond'.checkCond t' s') := by
  unfold checkLoopCond
  rcases hrule with ⟨hthere, rfl⟩ | ⟨rfl, pos', value, note, rfl⟩
  · rw [hthere, Expr.checkCond_congr h]
    cases hcond : cond'.checkCond t s with
    | error f => exact .error
    | ok e => exact .ok (.inl ⟨Expr.checkCond_isMissing hcond, rfl⟩)
  · rw [Expr.checkCond_true, Expr.checkCond_true]
    exact .ok (.inr ⟨rfl, _, _, _, _, _, rfl, rfl⟩)

theorem checkLoopCond_apart (h : t'.lookup s' = t.lookup s)
    (hrule : CondRule.source cond inserted cond') (pos pos' : Pos) :
    Agrees (fun out out' => CondRule.checked out.1 out.2 out'.1 ∧ out'.2 = .missing)
      (checkLoopCond t s pos cond) (checkLoopCond t' s' pos' cond') := by
  have hthere : cond'.isMissing = false := by
    rcases hrule with ⟨hthere, rfl⟩ | ⟨-, _, _, _, rfl⟩
    · exact hthere
    · rfl
  have hloop : checkLoopCond t' s' pos' cond' =
      cond'.checkCond t' s' >>= fun e => .ok (e, .missing) := by
    unfold checkLoopCond
    rw [hthere]
    rfl
  rw [hloop, ← bind_pure (checkLoopCond t s pos cond)]
  exact (checkLoopCond_source h hrule pos).bind fun _ _ hchecked => .ok ⟨hchecked, rfl⟩

theorem checkLoopCond_congr (h : t'.lookup s' = t.lookup s) (pos : Pos) (cond : Expr) :
    checkLoopCond t' s' pos cond = checkLoopCond t s pos cond := by
  unfold checkLoopCond
  simp only [Expr.checkCond_congr h]

end

/-! ## Statements -/

section

open Table

variable {g : Nat}

/-- What is alike with a scope is alike without it. -/
theorem Agrees.leave {α β : Type} {R : α → β → Prop} {x y : Twin} {rest : List Twin}
    {a : Except Fault (Table × α)} {b : Except Fault (Table × β)}
    (h : Agrees (AlikeWith R g (y :: x :: rest)) a b) : Agrees (AlikeWith R g (x :: rest)) a b :=
  h.imp fun _ _ hout => ⟨hout.1.pop, hout.2⟩

theorem Table.Stacked.child_eq {t : Table} {s : Nat} {ls : List Nat} (h : t.Stacked g (s :: ls)) :
    t.child s = ((t.child s).1, t.size) :=
  Prod.ext rfl h.tidy.toShaped.scope_child

theorem checkVar_unfolds {t t' : Table} {x : Twin} {rest : List Twin} {n n' : Node} (type : Ty)
    (hn : n.Unfolds CondRule.source n') (h : Alike t t' g (x :: rest)) :
    Agrees (AlikeWith (Node.Unfolds CondRule.checked) g (x :: rest)) (checkVar t x.left type n)
      (checkVar t' x.right type n') := by
  cases hn with
  | @expr e =>
      cases e with
      | ident id =>
          unfold checkVar
          refine (h.declare id type none).bind ?_
          rintro ⟨t₁, id₁⟩ ⟨t₁', id₁'⟩ ⟨halike, heq⟩
          obtain rfl : id₁ = id₁' := heq
          exact .ok ⟨halike, .expr⟩
      | _ => exact .error
  | stmt inner =>
      cases inner with
      | @assign pos target value noted =>
          cases target with
          | ident id =>
              unfold checkVar
              refine (h.declare id type none).bind ?_
              rintro ⟨t₁, id₁⟩ ⟨t₁', id₁'⟩ ⟨halike, heq⟩
              obtain rfl : id₁ = id₁' := heq
              dsimp only
              rw [checkAssign_congr halike.lookup]
              exact Agrees.bind_same fun assign _ => .ok ⟨halike, .stmt (.refl assign)⟩
          | _ => exact .error
      | _ => exact .error
  | _ => exact .error

theorem checkVars_unfolds (type : Ty) : ∀ {ns ns' : List Node} {t t' : Table} {x : Twin}
    {rest : List Twin}, Node.AllUnfold CondRule.source ns ns' → Alike t t' g (x :: rest) →
    Agrees (AlikeWith (Node.AllUnfold CondRule.checked) g (x :: rest))
      (checkVars t x.left type ns) (checkVars t' x.right type ns')
  | _, _, _, _, _, _, .nil, h => .ok ⟨h, .nil⟩
  | _, _, _, _, _, _, .cons first others, h => by
      rw [checkVars, checkVars]
      refine (checkVar_unfolds type first h).bind fun out out' hout => ?_
      refine (checkVars_unfolds type others hout.1).bind fun more more' hmore => ?_
      exact .ok ⟨hmore.1, .cons hout.2 hmore.2⟩

theorem Stmt.checkPart_unfolds {part part' : Stmt} {t t' : Table} {x : Twin} {rest : List Twin}
    (hpart : part.Unfolds CondRule.source part') (h : Alike t t' g (x :: rest))
    (hcheck : Agrees (AlikeWith (Stmt.Unfolds CondRule.checked) g (x :: rest))
      (part.check t x.left) (part'.check t' x.right)) :
    Agrees (AlikeWith (Stmt.Unfolds CondRule.checked) g (x :: rest)) (part.checkPart t x.left)
      (part'.checkPart t' x.right) := by
  unfold Stmt.checkPart
  rw [hpart.isMissing]
  cases hmissing : part.isMissing with
  | true =>
      obtain rfl := Stmt.isMissing_iff.1 hmissing
      cases hpart
      exact .ok ⟨h, .missing⟩
  | false => exact hcheck

/-- A block is checked in a scope of its own. -/
theorem Block.checkInner_unfolds {b b' : Block} {t t' : Table} {x : Twin} {rest : List Twin}
    (h : Alike t t' g (x :: rest))
    (hcheck : Agrees
      (AlikeWith (Block.Unfolds CondRule.checked) g (⟨t.size, t'.size, false⟩ :: x :: rest))
      (b.check (t.child x.left).1 t.size) (b'.check (t'.child x.right).1 t'.size)) :
    Agrees (AlikeWith (Block.Unfolds CondRule.checked) g (x :: rest))
      (b.check (t.child x.left).1 (t.child x.left).2)
      (b'.check (t'.child x.right).1 (t'.child x.right).2) := by
  rw [h.left.tidy.toShaped.scope_child, h.right.tidy.toShaped.scope_child]
  exact hcheck.leave

mutual

/-- Related statements are accepted or rejected together, and what is checked is related. -/
theorem Stmt.check_unfolds : ∀ {stmt stmt' : Stmt} {t t' : Table} {x : Twin} {rest : List Twin},
    stmt.Unfolds CondRule.source stmt' → Alike t t' g (x :: rest) →
    Agrees (AlikeWith (Stmt.Unfolds CondRule.checked) g (x :: rest)) (stmt.check t x.left)
      (stmt'.check t' x.right)
  | _, _, _, _, _, _, .missing, _ => .error
  | _, _, _, _, _, _, .call, h => by
      rw [Stmt.check, Stmt.check, checkCall_congr h.lookup _ _ _ fun name params =>
        Expr.checkArgs_congr h.lookup name 1 params _]
      exact Agrees.bind_same fun called _ => .ok ⟨h, .call⟩
  | _, _, _, _, _, _, .assign, h => by
      rw [Stmt.check, Stmt.check, checkAssign_congr h.lookup]
      exact Agrees.bind_same fun assign _ => .ok ⟨h, .refl assign⟩
  | _, _, _, _, _, _, .varDecl items, h => by
      rw [Stmt.check, Stmt.check]
      refine Agrees.bind_same fun kind _ => ?_
      refine (checkVars_unfolds (.base kind) items h).bind fun out out' hout => ?_
      exact .ok ⟨hout.1, .varDecl hout.2⟩
  | _, _, _, _, _, _, .arrayDecl, h => by
      rw [Stmt.check, Stmt.check, Expr.check_congr h.lookup]
      refine Agrees.bind_same fun kind _ => Agrees.bind_same fun size _ => ?_
      refine Agrees.bind_same fun size _ => Agrees.bind_same fun name _ => ?_
      refine (h.declare name (.array kind) (some size.pos)).bind ?_
      rintro ⟨t₁, id⟩ ⟨t₁', id'⟩ ⟨halike, heq⟩
      obtain rfl : id = id' := heq
      exact .ok ⟨halike, .arrayDecl⟩
  | _, _, _, _, _, _, .ifElse first second, h => by
      rw [Stmt.check, Stmt.check, Expr.checkCond_congr h.lookup]
      refine Agrees.bind_same fun cond _ => ?_
      have hyes := Block.checkInner_unfolds h (Block.check_unfolds first h.child)
      refine hyes.bind fun out out' hyes => ?_
      have hno := Block.checkInner_unfolds hyes.1 (Block.check_unfolds second hyes.1.child)
      refine hno.bind fun more more' hno => ?_
      exact .ok ⟨hno.1, .ifElse hyes.2 hno.2⟩
  | _, _, _, _, _, _, .whileLoop inner, h => by
      rw [Stmt.check, Stmt.check, Expr.checkCond_congr h.lookup]
      refine Agrees.bind_same fun cond _ => ?_
      have hbody := Block.checkInner_unfolds h (Block.check_unfolds inner h.child)
      refine hbody.bind fun out out' hbody => ?_
      exact .ok ⟨hbody.1, .whileLoop hbody.2⟩
  | _, _, _, _, _, _, .forLoop first last inner, h => by
      rw [Stmt.check_forLoop, Stmt.check_forLoop, h.left.child_eq, h.right.child_eq]
      refine (Stmt.checkPart_unfolds first h.child (Stmt.check_unfolds first h.child)).bind ?_
      rintro ⟨t₁, init⟩ ⟨t₁', init'⟩ ⟨halike, hinit⟩
      dsimp only
      rw [checkLoopCond_congr halike.lookup]
      refine Agrees.bind_same fun cond _ => ?_
      have hstep := Stmt.checkPart_unfolds last halike (Stmt.check_unfolds last halike)
      refine hstep.bind fun out out' hstep => ?_
      have hbody := Block.checkInner_unfolds hstep.1 (Block.check_unfolds inner hstep.1.child)
      refine hbody.bind fun more more' hbody => ?_
      exact .ok ⟨hbody.1.pop, .forLoop hinit hstep.2 hbody.2⟩
  | _, _, _, _, _, _, .block inner, h => by
      rw [Stmt.check, Stmt.check]
      have hbody := Block.checkInner_unfolds h (Block.check_unfolds inner h.child)
      refine hbody.bind fun out out' hbody => ?_
      exact .ok ⟨hbody.1, .block hbody.2⟩
  | _, _, _, _, _, _, .funcDecl inner, h => by
      rw [Stmt.check, Stmt.check]
      refine (h.checkFuncHead _ _ _ _).bind ?_
      rintro ⟨t₁, head⟩ ⟨t₁', head'⟩ ⟨halike, hname, hparams⟩
      refine (Block.checkInner_unfolds halike (Block.check_unfolds inner halike.child)).bind ?_
      rintro ⟨t₂, body⟩ ⟨t₂', body'⟩ ⟨halike, hbody⟩
      dsimp only
      rw [hname, hparams, show t₂'.functionAt? head'.scope = _ from halike.functionAt?]
      exact .ok ⟨halike.pop, .funcDecl hbody⟩
  | _, _, _, _, _, _, .ret, h => by
      rw [Stmt.check, Stmt.check, checkReturn_congr h.lookup h.function?]
      exact Agrees.bind_same fun ret _ => .ok ⟨h, .refl ret⟩
  | _, _, _, _, _, _, .apart first test last inner, h => by
      rw [Stmt.check_forLoop, Stmt.check_thenLoop, h.left.child_eq, h.right.child_eq]
      refine (Stmt.checkPart_unfolds first h.child (Stmt.check_unfolds first h.child)).bind ?_
      rintro ⟨t₁, init⟩ ⟨t₁', init'⟩ ⟨halike, hinit⟩
      dsimp only
      -- the scope opened for the loop takes the place of the one opened for the block
      rw [Stmt.check_forLoop_missing, halike.right.child_eq]
      have halike := halike.childRight
      refine (checkLoopCond_apart halike.lookup test _ _).bind ?_
      rintro ⟨cond, inserted⟩ ⟨cond', _⟩ ⟨hcond, rfl⟩
      have hstep := Stmt.checkPart_unfolds last halike (Stmt.check_unfolds last halike)
      refine hstep.bind fun out out' hstep => ?_
      have hbody := Block.checkInner_unfolds hstep.1 (Block.check_unfolds inner hstep.1.child)
      refine hbody.bind fun more more' hbody => ?_
      exact .ok ⟨hbody.1.pop, .apart hinit hcond hstep.2 hbody.2⟩
  | _, _, _, _, _, _, .loop first test inner, h => by
      rw [Stmt.check_forLoop, Stmt.check_thenLoop, h.left.child_eq, h.right.child_eq]
      refine (Stmt.checkPart_unfolds first h.child (Stmt.check_unfolds first h.child)).bind ?_
      rintro ⟨t₁, init⟩ ⟨t₁', init'⟩ ⟨halike, hinit⟩
      dsimp only
      rw [Stmt.check]
      simp only [Stmt.checkPart_missing, bind_assoc, pure_bind]
      refine (checkLoopCond_source halike.lookup test _).bind fun cond cond' hcond => ?_
      have hbody := Block.checkInner_unfolds halike (Block.check_unfolds inner halike.child)
      refine hbody.bind fun more more' hbody => ?_
      exact .ok ⟨hbody.1.pop, .loop hinit hcond hbody.2⟩

theorem Block.check_unfolds : ∀ {b b' : Block} {t t' : Table} {x : Twin} {rest : List Twin},
    b.Unfolds CondRule.source b' → Alike t t' g (x :: rest) →
    Agrees (AlikeWith (Block.Unfolds CondRule.checked) g (x :: rest)) (b.check t x.left)
      (b'.check t' x.right)
  | _, _, _, _, _, _, .missing, h => .ok ⟨h, .missing⟩
  | _, _, _, _, _, _, .of all, h => by
      rw [Block.check, Block.check]
      exact (Stmt.checkAll_unfolds all h).bind fun out out' hout => .ok ⟨hout.1, .of hout.2⟩

theorem Stmt.checkAll_unfolds : ∀ {stmts stmts' : List Stmt} {t t' : Table} {x : Twin}
    {rest : List Twin}, Stmt.AllUnfold CondRule.source stmts stmts' →
    Alike t t' g (x :: rest) →
    Agrees (AlikeWith (Stmt.AllUnfold CondRule.checked) g (x :: rest))
      (Stmt.checkAll t x.left stmts) (Stmt.checkAll t' x.right stmts')
  | _, _, _, _, _, _, .nil, h => .ok ⟨h, .nil⟩
  | _, _, _, _, _, _, .cons first others, h => by
      rw [Stmt.checkAll, Stmt.checkAll]
      refine (Stmt.check_unfolds first h).bind fun out out' hout => ?_
      refine (Stmt.checkAll_unfolds others hout.1).bind fun more more' hmore => ?_
      exact .ok ⟨hmore.1, .cons hout.2 hmore.2⟩

end

end

/-! ## Programs -/

/-- The table that the check of a program starts from looks like itself. -/
theorem Table.Alike.initial :
    Table.Alike (Table.initial.child Table.rootScope).1 (Table.initial.child Table.rootScope).1
      (Table.initial.child Table.rootScope).2
      [⟨(Table.initial.child Table.rootScope).2, (Table.initial.child Table.rootScope).2,
        false⟩] := by
  have hstacked : Table.Stacked (Table.initial.child Table.rootScope).1
      (Table.initial.child Table.rootScope).2 [(Table.initial.child Table.rootScope).2] := by
    refine ⟨.initial_child, fun s hs => ?_, List.pairwise_singleton _ _, rfl⟩
    obtain rfl := List.mem_singleton.1 hs
    rfl
  refine ⟨hstacked, hstacked, fun x hx => ?_, fun x hx => ?_, rfl⟩
  · obtain rfl := List.mem_singleton.1 hx
    rfl
  · obtain rfl := List.mem_singleton.1 hx
    rfl

/-- Related programs are accepted or rejected together. What is found out about them is related,
and they have the same globals. -/
theorem Analysis.ofProgram_unfolds {b b' : Block} (h : b.Unfolds CondRule.source b') :
    Agrees (fun a a' => a.program.Unfolds CondRule.checked a'.program ∧ a'.globals = a.globals)
      (ofProgram b) (ofProgram b') := by
  cases h with
  | missing => exact .error
  | of all =>
      unfold ofProgram Block.analyse
      refine (Stmt.checkAll_unfolds all Table.Alike.initial).bind fun out out' hout => ?_
      exact .ok ⟨.of hout.2, hout.1.statics_global⟩

/-- A `for` loop is a `while` loop. Wherever loops are taken apart in a program, the check accepts
what comes out if it accepts the program, and both are lowered to the same listing. -/
theorem Analysis.for_is_while {b b' : Block} (h : b.Unfolds CondRule.source b') :
    ((∃ a, ofProgram b = .ok a) ↔ ∃ a', ofProgram b' = .ok a') ∧
      ∀ {a a' : Analysis}, ofProgram b = .ok a → ofProgram b' = .ok a' →
        ∀ (target : Target) (opts : Options), ∃ listing : Listing,
          target.lower a opts = .ok listing ∧ target.lower a' opts = .ok listing := by
  have hagrees := Analysis.ofProgram_unfolds h
  refine ⟨hagrees.ok_iff, fun {a a'} ha ha' target opts => ?_⟩
  obtain ⟨hprogram, hglobals⟩ := hagrees.rel ha ha'
  obtain ⟨htyped, -, hstatic⟩ := Analysis.ofProgram_checked ha
  obtain ⟨ds, hds, -⟩ := htyped.functions
  have hcil := Cil.Assembly.ofAnalysis_unfolds opts hprogram hglobals hds
  have hllvm := Llvm.Module.ofAnalysis_unfolds opts hprogram hglobals hds
  have hsame : target.lower a' opts = target.lower a opts := by
    unfold Target.lower
    rw [hcil, hllvm]
  obtain ⟨pos, stmts, t, stmts', -, -, rfl⟩ := Analysis.ofProgram_ok ha
  obtain ⟨assembly, hassembly⟩ := Cil.Assembly.ofAnalysis_succeeds rfl htyped hstatic opts
  obtain ⟨module, hmodule⟩ := Llvm.Module.ofAnalysis_succeeds rfl htyped hstatic opts
  rw [hsame]
  cases target with
  | llvm => exact ⟨module.listing, by rw [Target.lower, hmodule]; exact ⟨rfl, rfl⟩⟩
  | cil | unnamed => exact ⟨assembly.listing, by rw [Target.lower, hassembly]; exact ⟨rfl, rfl⟩⟩

/-- A counting loop without a condition, around a loop without any parts. -/
theorem Analysis.for_is_while_nested :
    let i : Expr := .ident { pos := .nowhere, name := "i" }
    let literal (text : String) : Expr := .literal .nowhere text none {}
    let first : Stmt := .varDecl .nowhere (some { pos := .nowhere, name := "int" })
      [.stmt (.assign .nowhere i (literal "0") none)]
    let last : Stmt := .assign .nowhere i (.binary .nowhere .add i (literal "1") {}) none
    let empty : Block := .of .nowhere []
    let b : Block := .of .nowhere [.forLoop .nowhere first .missing .missing last
      (.of .nowhere [.forLoop .nowhere .missing .missing .missing .missing empty])]
    let b' : Block := .of .nowhere [.block (.of .nowhere [first,
      .forLoop .nowhere .missing (literal "true") .missing last (.of .nowhere
        [.block (.of .nowhere [.whileLoop .nowhere (literal "true") empty])])])]
    b.Unfolds CondRule.source b' ∧ ∃ a a', ofProgram b = .ok a ∧ ofProgram b' = .ok a' ∧
      ∀ (target : Target) (opts : Options), ∃ listing : Listing,
        target.lower a opts = .ok listing ∧ target.lower a' opts = .ok listing := by
  intro i literal first last empty b b'
  have hwritten : CondRule.source .missing .missing (literal "true") :=
    .inr ⟨rfl, .nowhere, none, {}, rfl⟩
  have h : b.Unfolds CondRule.source b' :=
    .of (.cons (.apart (.refl first) hwritten (.refl last)
      (.of (.cons (.loop .missing hwritten (.refl empty)) .nil))) .nil)
  have hchecked : (ofProgram b).toOption.any (fun _ => true) = true := by decide +kernel
  obtain ⟨a, ha, -⟩ := Except.any_toOption hchecked
  obtain ⟨hiff, hlower⟩ := Analysis.for_is_while h
  obtain ⟨a', ha'⟩ := hiff.1 ⟨a, ha⟩
  exact ⟨h, a, a', ha, ha', hlower ha ha'⟩

end SmallC
