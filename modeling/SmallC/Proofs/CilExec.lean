import SmallC.Proofs.CilMachine

/-!
# CIL code does what scalar programs do

The code of a statement of a scalar program implements the statement: between
statements the stack is empty, and the static fields hold the values of the
variables. The labels of a statement are numbered after those of the code before
it, so a branch finds the label that was made for it.
-/

namespace SmallC.Cil

open Machine (andThen choose Loop)

/-- The number of a label. -/
def Label.number : Label → Nat
  | ifFalse n | ifEnd n | loopBody n | loopCtrl n => n

/-- Between statements the stack is empty, and every field holds a value of its kind. -/
def Represents (r : Reach) (a : Store) (s : State) : Prop := s = ⟨[], a⟩ ∧ r.Fits 8 a.values

/-- Code that pushes whether a condition holds, or traps. -/
def Tests (r : Reach) (test : Store → Option Bool) (code : List Instr) : Prop :=
  (∀ i ∈ code, i.label? = none) ∧
    ∀ a, r.Fits 8 a.values → ∃ value : Option (BitVec 32),
      machine.run code ⟨[], a⟩ = State.pushed ⟨[], a⟩ value ∧
        test a = value.map fun v => decide (v ≠ 0)

/-! ## Control structures -/

section

variable {r : Reach} {test : Store → Option Bool} {n n₁ n₂ : Nat} {cond : List Instr}

/-- A condition and a branch on it. Where control goes on is left to the branch. -/
theorem Tests.decides {body rest yes no : List Instr} {i : Instr} (h : Tests r test cond)
    (hi : ∀ (v : BitVec 32) (a : Store),
      machine.Goes body i rest ⟨[v], a⟩ ⟨[], a⟩ (if v ≠ 0 then yes else no)) :
    machine.Decides body (Represents r) test (cond ++ i :: rest) yes no := by
  obtain ⟨-, hrun⟩ := h
  refine .straight (fun a b s hs hb => ?_) fun a s hs hb => ?_
  · obtain ⟨rfl, ha⟩ := hs
    obtain ⟨value, hcond, htest⟩ := hrun a ha
    rw [htest] at hb
    obtain ⟨v, rfl, rfl⟩ := Option.map_eq_some_iff.1 hb
    refine ⟨⟨[v], a⟩, ⟨[], a⟩, hcond, ⟨rfl, ha⟩, ?_⟩
    simpa using hi v a
  · obtain ⟨rfl, ha⟩ := hs
    obtain ⟨value, hcond, htest⟩ := hrun a ha
    rw [htest] at hb
    cases value with
    | none => exact hcond
    | some v => cases hb

theorem goes_brfalse {body rest code : List Instr} {l : Label}
    (hl : machine.after l body = some code) (v : BitVec 32) (a : Store) :
    machine.Goes body (.brfalse l) rest ⟨[v], a⟩ ⟨[], a⟩ (if v ≠ 0 then rest else code) := by
  by_cases hv : v = 0
  · subst hv
    exact .inr ⟨l, rfl, hl⟩
  · rw [if_pos hv]
    exact .inl ⟨if_neg hv, rfl⟩

theorem goes_brtrue {body rest code : List Instr} {l : Label}
    (hl : machine.after l body = some code) (v : BitVec 32) (a : Store) :
    machine.Goes body (.brtrue l) rest ⟨[v], a⟩ ⟨[], a⟩ (if v ≠ 0 then code else rest) := by
  by_cases hv : v = 0
  · subst hv
    exact .inl ⟨rfl, rfl⟩
  · rw [if_pos hv]
    exact .inr ⟨l, if_pos hv, hl⟩

theorem numbered_label {l : Label} (h : n < l.number ∧ l.number ≤ n₁) :
    machine.Numbered Label.number n n₁ [.label l, .nop] := by
  intro i hi l' hl
  rcases List.mem_cons.1 hi with rfl | hi
  · cases hl
    exact h
  · obtain rfl := List.mem_singleton.1 hi
    cases hl

theorem skip_label {body rest : List Instr} (l : Label) :
    machine.Implements body (Represents r) Eq ([Instr.label l, .nop] ++ rest) rest := by
  refine Machine.Implements.skip fun i hi s => ?_
  rcases List.mem_cons.1 hi with rfl | hi
  · rfl
  · obtain rfl := List.mem_singleton.1 hi
    rfl

theorem skip_nop {body rest : List Instr} :
    machine.Implements body (Represents r) Eq ([Instr.nop] ++ rest) rest := by
  refine Machine.Implements.skip fun i hi s => ?_
  obtain rfl := List.mem_singleton.1 hi
  rfl

/-- The code of a conditional up to the label of its second branch. -/
def ifHead (n : Nat) (cond yes : List Instr) : List Instr :=
  cond ++ [Instr.brfalse (.ifFalse n)] ++ yes ++ [Instr.br (.ifEnd n)]

theorem ifHead_numbered {yes : List Instr} (hc : ∀ i ∈ cond, i.label? = none)
    (hyes : machine.Numbered Label.number (n + 1) n₁ yes) :
    machine.Numbered Label.number n n₁ (ifHead (n + 1) cond yes) := by
  simp only [ifHead, Machine.numbered_append]
  exact ⟨⟨⟨.of_none hc, .of_none (by simp [machine, Instr.label?])⟩,
    hyes.mono (by omega) (Nat.le_refl n₁)⟩, .of_none (by simp [machine, Instr.label?])⟩

theorem ifHead_avoids {yes : List Instr} {l : Label} (hc : ∀ i ∈ cond, i.label? = none)
    (hyes : machine.Avoids l yes) : machine.Avoids l (ifHead n cond yes) := by
  simp only [ifHead, Machine.avoids_append]
  exact ⟨⟨⟨Machine.avoids_of_none hc, Machine.avoids_of_none (by simp [machine, Instr.label?])⟩,
    hyes⟩, Machine.avoids_of_none (by simp [machine, Instr.label?])⟩

/-- A conditional chooses between what its parts do. -/
theorem ifCode_realises {yes no : List Instr} {yesAct noAct : Store → Store → Prop}
    (hc : Tests r test cond)
    (hyes : machine.Realises Label.number (Represents r) yesAct (n + 1) n₁ yes)
    (hno : machine.Realises Label.number (Represents r) noAct n₁ n₂ no) :
    machine.Realises Label.number (Represents r) (choose test yesAct noAct) n n₂
      (ifCode (n + 1) cond yes no) := by
  have hle := hyes.le
  have hle' := hno.le
  have hhead := ifHead_numbered hc.1 hyes.labels
  have hcode : ifCode (n + 1) cond yes no = ifHead (n + 1) cond yes ++
      [Instr.label (.ifFalse (n + 1)), .nop] ++ no ++ [Instr.label (.ifEnd (n + 1)), .nop] := by
    simp [ifCode, ifHead]
  rw [hcode]
  refine ⟨by omega, ?_, fun body pre rest hbody hpre => ?_⟩
  · simp only [Machine.numbered_append]
    exact ⟨⟨⟨hhead.mono (Nat.le_refl n) hle',
      numbered_label ⟨Nat.lt_succ_self n, Nat.le_trans hle hle'⟩⟩,
      hno.labels.mono (by omega) (Nat.le_refl n₂)⟩,
      numbered_label ⟨Nat.lt_succ_self n, Nat.le_trans hle hle'⟩⟩
  · have hfalse : machine.after (.ifFalse (n + 1)) body =
        some ([Instr.nop] ++ (no ++ ([Instr.label (.ifEnd (n + 1)), .nop] ++ rest))) := by
      have hsplit : body = (pre ++ ifHead (n + 1) cond yes) ++ Instr.label (.ifFalse (n + 1)) ::
          ([Instr.nop] ++ (no ++ ([Instr.label (.ifEnd (n + 1)), .nop] ++ rest))) := by simp [hbody]
      rw [hsplit]
      refine Machine.after_of_label (Machine.avoids_append.2 ⟨?_, ?_⟩) rfl
      · exact hpre.avoids (Nat.lt_succ_self n)
      · exact ifHead_avoids hc.1 (hyes.labels.avoids (Nat.le_refl _))
    have hend : machine.after (.ifEnd (n + 1)) body = some ([Instr.nop] ++ rest) := by
      have hsplit : body = (pre ++ ifHead (n + 1) cond yes ++
          ([Instr.label (.ifFalse (n + 1)), .nop] ++ no)) ++
            Instr.label (.ifEnd (n + 1)) :: ([Instr.nop] ++ rest) := by simp [hbody]
      rw [hsplit]
      refine Machine.after_of_label ?_ rfl
      simp only [Machine.avoids_append]
      exact ⟨⟨hpre.avoids (Nat.lt_succ_self n),
        ifHead_avoids hc.1 (hyes.labels.avoids (Nat.le_refl _))⟩,
        by simp [Machine.Avoids, machine, Instr.label?], hno.labels.avoids hle⟩
    have hentry : ifHead (n + 1) cond yes ++ [Instr.label (.ifFalse (n + 1)), .nop] ++ no ++
        [Instr.label (.ifEnd (n + 1)), .nop] ++ rest = cond ++ Instr.brfalse (.ifFalse (n + 1)) ::
          (yes ++ (Instr.br (.ifEnd (n + 1)) :: .label (.ifFalse (n + 1)) ::
            ([Instr.nop] ++ (no ++ ([Instr.label (.ifEnd (n + 1)), .nop] ++ rest))))) := by
      simp [ifHead]
    rw [hentry] at hbody ⊢
    refine Machine.Implements.choose (hc.decides (goes_brfalse hfalse)) ?_ ?_
    · have hbranch : machine.Numbered Label.number n (n + 1)
          (cond ++ [Instr.brfalse (.ifFalse (n + 1))]) :=
        Machine.numbered_append.2 ⟨.of_none hc.1, .of_none (by simp [machine, Instr.label?])⟩
      have hbelow := hpre.append hbranch (Nat.le_succ n)
      refine (hyes.implements body _ _ (by simp [hbody]) hbelow).skip_right ?_
      exact (Machine.Implements.branch (fun _ => rfl) hend).skip_right skip_nop
    · have hbelow := hpre.append (Machine.numbered_append.2
        ⟨hhead, numbered_label (l := .ifFalse (n + 1)) ⟨Nat.lt_succ_self n, hle⟩⟩) (by omega)
      refine Machine.Implements.skip_left skip_nop ?_
      exact (hno.implements body _ _ (by simp [hbody, ifHead]) hbelow).skip_right (skip_label _)

/-- A loop repeats what its body and its step do. -/
theorem loopCode_realises {code step : List Instr} {act : Store → Store → Prop}
    (hc : Tests r test cond)
    (hround : machine.Realises Label.number (Represents r) act (n + 1) n₁ (code ++ step)) :
    machine.Realises Label.number (Represents r) (Loop test act) n n₁
      (loopCode (n + 1) code step cond) := by
  have hle := hround.le
  have hcode : loopCode (n + 1) code step cond =
      [Instr.br (.loopCtrl (n + 1))] ++ [Instr.label (.loopBody (n + 1)), .nop] ++ (code ++ step) ++
        [Instr.label (.loopCtrl (n + 1)), .nop] ++ cond ++ [Instr.brtrue (.loopBody (n + 1))] := by
    simp [loopCode]
  rw [hcode]
  refine ⟨by omega, ?_, fun body pre rest hbody hpre => ?_⟩
  · rw [Machine.numbered_append, Machine.numbered_append, Machine.numbered_append,
      Machine.numbered_append, Machine.numbered_append]
    exact ⟨⟨⟨⟨⟨.of_none (by simp [machine, Instr.label?]),
      numbered_label ⟨Nat.lt_succ_self n, hle⟩⟩, hround.labels.mono (by omega) (Nat.le_refl n₁)⟩,
      numbered_label ⟨Nat.lt_succ_self n, hle⟩⟩, .of_none hc.1⟩,
      .of_none (by simp [machine, Instr.label?])⟩
  · have hctrl : machine.after (.loopCtrl (n + 1)) body =
        some ([Instr.nop] ++ (cond ++ Instr.brtrue (.loopBody (n + 1)) :: rest)) := by
      have hsplit : body =
          (pre ++ ([Instr.br (.loopCtrl (n + 1)), .label (.loopBody (n + 1)), .nop] ++
            (code ++ step))) ++ Instr.label (.loopCtrl (n + 1)) ::
              ([Instr.nop] ++ (cond ++ Instr.brtrue (.loopBody (n + 1)) :: rest)) := by
        simp [hbody]
      rw [hsplit]
      refine Machine.after_of_label (Machine.avoids_append.2 ⟨?_, Machine.avoids_append.2 ⟨?_, ?_⟩⟩)
        rfl
      · exact hpre.avoids (Nat.lt_succ_self n)
      · simp [Machine.Avoids, machine, Instr.label?]
      · exact hround.labels.avoids (Nat.le_refl _)
    have hagain : machine.after (.loopBody (n + 1)) body = some ([Instr.nop] ++ ((code ++ step) ++
        ([Instr.label (.loopCtrl (n + 1)), .nop] ++
          (cond ++ Instr.brtrue (.loopBody (n + 1)) :: rest)))) := by
      have hsplit : body = (pre ++ [Instr.br (.loopCtrl (n + 1))]) ++
        Instr.label (.loopBody (n + 1)) ::
          ([Instr.nop] ++ ((code ++ step) ++ ([Instr.label (.loopCtrl (n + 1)), .nop] ++
            (cond ++ Instr.brtrue (.loopBody (n + 1)) :: rest)))) := by simp [hbody]
      rw [hsplit]
      refine Machine.after_of_label (Machine.avoids_append.2 ⟨?_, ?_⟩) rfl
      · exact hpre.avoids (Nat.lt_succ_self n)
      · simp [Machine.Avoids, machine, Instr.label?]
    have hentry : machine.Implements body (Represents r) (Loop test act)
        (cond ++ Instr.brtrue (.loopBody (n + 1)) :: rest) rest := by
      refine Machine.Implements.loop (hc.decides (goes_brtrue hagain)) ?_
      have hbranch : machine.Numbered Label.number n (n + 1)
          ([Instr.br (.loopCtrl (n + 1))] ++ [Instr.label (.loopBody (n + 1)), .nop]) :=
        Machine.numbered_append.2 ⟨.of_none (by simp [machine, Instr.label?]),
          numbered_label ⟨Nat.lt_succ_self n, Nat.le_refl _⟩⟩
      have hbelow := hpre.append hbranch (Nat.le_succ n)
      refine Machine.Implements.skip_left skip_nop ?_
      exact (hround.implements body _ _ (by simp [hbody]) hbelow).skip_right (skip_label _)
    simp only [List.cons_append, List.append_assoc, List.nil_append]
    refine Machine.Implements.skip_left (Machine.Implements.branch (fun _ => rfl) hctrl) ?_
    exact Machine.Implements.skip_left skip_nop hentry

end

/-! ## Simple statements -/

section

variable {c : Context} {r : Reach} (hr : r.Scalar) (hc : c.function = none)

include hr hc in
theorem loadsFields_scalar : LoadsFields c r := by
  intro sym pos h hd
  obtain ⟨hparam, hauto, hstatic⟩ := hr.place hc h hd
  unfold load
  rw [hparam, if_neg Bool.false_ne_true, if_neg hauto, if_pos hstatic,
    Ty.require_ok (Ty.isResult_of_isData hd)]
  rfl

include hr hc in
theorem store_field {sym : Symbol} (h : sym.Stored r) (hd : sym.type.isData = true) :
    store c sym = .ok (.stsfld sym.type sym.name) := by
  obtain ⟨hparam, hauto, hstatic⟩ := hr.place hc h hd
  unfold store
  rw [hparam, if_neg Bool.false_ne_true, if_neg hauto, if_pos hstatic,
    Ty.require_ok (Ty.isResult_of_isData hd)]
  rfl

include hr hc in
/-- The code of a scalar expression pushes its value. -/
theorem lowerExpr_value {e : Expr} {m : Base} (h : e.UsedAs r (.base m)) (hm : m.isScalar = true)
    (hw : e.Written) (hs : e.isScalar = true) :
    ∃ code, lowerExpr c e = .ok code ∧ (∀ i ∈ code, i.label? = none) ∧
      ∀ a, r.Fits 8 a.values → machine.run code ⟨[], a⟩ = State.pushed ⟨[], a⟩ (e.value? a) ∧
        ∀ v, e.value? a = some v → m.Fits 8 v := by
  obtain ⟨k, hk, huses⟩ := h.scalar hr hw hs
  obtain ⟨code, hcode, hlabels, hrun⟩ := lowerExpr_pushes (loadsFields_scalar hr hc) hk.ordinal
    huses (Base.isOrdinal_of_isScalar hm)
  refine ⟨code, hcode, hlabels, fun a ha => ⟨?_, fun v hv => hk.fits huses hm ha hv⟩⟩
  have hrun' : _ = State.pushed ⟨[], a⟩ (e.meaningUsed 16 a.values) :=
    hrun a [] (ha.mono (by omega))
  rw [hrun', hk.meaningUsed_bits huses hm 16 8]
  rfl

include hr hc in
theorem lowerExpr_tests {e : Expr} (h : e.UsedAs r (.base .bool)) (hw : e.Written)
    (hs : e.isScalar = true) : ∃ code, lowerExpr c e = .ok code ∧ Tests r e.holds? code := by
  obtain ⟨code, hcode, hlabels, hrun⟩ := lowerExpr_value hr hc h rfl hw hs
  exact ⟨code, hcode, hlabels, fun a ha => ⟨e.value? a, (hrun a ha).1, rfl⟩⟩

include hr hc in
/-- A scalar expression, and instructions that do something with its value. -/
theorem lowerExpr_consumed {e : Expr} {m : Base} (h : e.UsedAs r (.base m)) (hm : m.isScalar = true)
    (hw : e.Written) (hs : e.isScalar = true) (n : Nat) (i : Instr)
    (act : Store → BitVec 32 → Store) (hi : i.label? = none)
    (hact : ∀ a v, r.Fits 8 a.values → m.Fits 8 v →
      machine.effect i ⟨[v], a⟩ = .fall ⟨[], act a v⟩ ∧ r.Fits 8 (act a v).values) :
    ∃ code, lowerExpr c e = .ok code ∧ machine.Realises Label.number (Represents r)
      (fun a b => (e.value? a).map (act a) = some b) n n (code ++ [i]) := by
  obtain ⟨code, hcode, hlabels, hrun⟩ := lowerExpr_value hr hc h hm hw hs
  refine ⟨code, hcode, .straight (fun j hj => ?_) ?_ ?_⟩
  · rcases List.mem_append.1 hj with hj | hj
    · exact hlabels j hj
    · obtain rfl := List.mem_singleton.1 hj
      exact hi
  · rintro a b s ⟨rfl, ha⟩ hb
    obtain ⟨hfirst, hfits⟩ := hrun a ha
    obtain ⟨v, hv, rfl⟩ := Option.map_eq_some_iff.1 hb
    obtain ⟨heff, ha'⟩ := hact a v ha (hfits v hv)
    rw [hv] at hfirst
    refine ⟨⟨[], act a v⟩, ?_, rfl, ha'⟩
    rw [Machine.run_append_next hfirst]
    exact Machine.run_cons_fall heff
  · rintro a s ⟨rfl, ha⟩ hb
    obtain ⟨hfirst, -⟩ := hrun a ha
    rw [Option.map_eq_none_iff.1 hb] at hfirst
    exact Machine.run_append_trap hfirst

theorem effect_stsfld {type : Ty} {v w : BitVec 32} {stack : List (BitVec 32)} {a : Store}
    (h : fieldWord? type v = some w) (name : String) :
    machine.effect (.stsfld type name) ⟨v :: stack, a⟩ = .fall ⟨stack, a.set name w⟩ := by
  show effect (.stsfld type name) ⟨v :: stack, a⟩ = _
  unfold effect State.pop
  dsimp only
  rw [h]

/-- A field of a scalar type keeps the whole value. -/
theorem fieldWord?_fits {m : Base} {v : BitVec 32} (hm : m.isScalar = true) (hv : m.Fits 8 v) :
    fieldWord? (.base m) v = some v := by
  cases m with
  | int => rfl
  | bool => exact congrArg some (lowBits_of_bool (by omega) hv)
  | void | char | float | unnamed _ => cases hm

include hr hc in
theorem lowerAssign_realises {target value : Expr} {noted : Option Ty} (pos : Pos) (n : Nat)
    (h : AssignTyped r target value noted) (hs : isScalarAssign target value = true)
    (hw : Expr.AllWritten (target.parts ++ value.parts)) :
    ∃ code, lowerAssign c pos target value = .ok code ∧
      machine.Realises Label.number (Represents r) (fun a b => assign? target value a = some b)
        n n code := by
  obtain ⟨id, sym, m, rfl, hsym, hstored, htype, hm, hvalue, hsv⟩ := h.scalar hr hs
  have hwv := (Expr.allWritten_append.1 hw).2 value (Expr.mem_parts hvalue.typed.not_missing)
  have hdata : sym.type.isData = true := by
    rw [htype]
    cases m <;> first | rfl | cases hm
  have hstore : ∀ a v, r.Fits 8 a.values → m.Fits 8 v →
      machine.effect (.stsfld sym.type sym.name) ⟨[v], a⟩ = .fall ⟨[], a.set sym.name v⟩ ∧
        r.Fits 8 (a.set sym.name v).values := by
    intro a v ha hv
    refine ⟨?_, ha.set hr hstored htype hv⟩
    exact effect_stsfld (htype ▸ fieldWord?_fits hm hv) sym.name
  obtain ⟨code, hcode, hreal⟩ := lowerExpr_consumed hr hc hvalue hm hwv hsv n _ _ rfl hstore
  refine ⟨code ++ [Instr.stsfld sym.type sym.name], ?_, hreal.congr fun a b => ?_⟩
  · show (lowerExpr c value >>= fun code => Ident.resolved (some id) >>= _) = _
    rw [hcode, Ident.resolved_ok hsym]
    show (store c sym >>= fun i => pure (code ++ [i])) = _
    rw [store_field hr hc hstored hdata]
    rfl
  · rw [assign?_ident hsym]

include hr hc in
theorem callCode_realises {func : Option Ident} {args : List Expr} {note : Note} (pos : Pos)
    (n : Nat) (h : (Expr.call pos func args note).Typed r)
    (hs : isScalarPrint func args = true) (hw : (Expr.call pos func args note).Written) :
    ∃ code, callCode pos func (lowerArgs c args) = .ok code ∧
      machine.Realises Label.number (Represents r) (fun a b => print? func args a = some b)
        n n code ∧ note.type = some (.base .void) := by
  obtain ⟨id, sym, m, e, rfl, rfl, hsym, hbuiltin, hname, htype, hnote, hused, hse, hprint⟩ :=
    h.scalarPrint hs
  have hwe : e.Written := by
    cases hw with
    | call operands => exact operands e List.mem_cons_self
  have hcall : ∀ code more, lowerExpr c e = .ok code → builtinCode? sym.name = some more →
      callCode pos (some id) (lowerArgs c [e]) = .ok (code ++ more) := by
    intro code more hcode hmore
    have hargs : lowerArgs c [e] = .ok (code ++ []) := by
      rw [lowerArgs]
      show (lowerExpr c e >>= fun code => lowerArgs c [] >>= fun rest => pure (code ++ rest)) = _
      rw [hcode, lowerArgs]
      rfl
    unfold callCode
    refine Except.bind_eq_ok_iff.2 ⟨_, Ident.callee_ok hsym htype pos, ?_⟩
    rw [if_pos hbuiltin, hmore, hargs, List.append_nil]
    rfl
  rcases hprint with ⟨hid, rfl⟩ | ⟨hid, rfl⟩
  · obtain ⟨code, hcode, hreal⟩ := lowerExpr_consumed hr hc hused rfl hwe hse n
      (.library (.write .int)) (fun a v => a.print (.int v.toInt)) rfl fun a v ha _ => ⟨rfl, ha⟩
    refine ⟨_, hcall code _ hcode (by rw [hname, hid]; rfl), hreal.congr fun a b => ?_, hnote⟩
    rw [print?_int hid]
  · obtain ⟨code, hcode, hreal⟩ := lowerExpr_consumed hr hc hused rfl hwe hse n
      (.library (.write .bool)) (fun a v => a.print (.bool (v ≠ 0))) rfl fun a v ha _ => ⟨rfl, ha⟩
    refine ⟨_, hcall code _ hcode (by rw [hname, hid]; rfl), hreal.congr fun a b => ?_, hnote⟩
    rw [print?_bool hid]

include hr hc in
theorem lowerVars_realises (n : Nat) : ∀ {vars : List Node}, (∀ v ∈ vars, v.TypedVar r) →
    vars.all Node.isScalarVar = true → Expr.AllWritten (vars.flatMap Node.exprs) →
    ∃ code, lowerVars c vars = .ok code ∧ machine.Realises Label.number (Represents r)
      (fun a b => initialize? vars a = some b) n n code
  | [], _, _, _ => ⟨[], rfl, (Machine.Realises.skip _ _ _ n).congr fun a b => by
      rw [initialize?, Option.some.injEq]⟩
  | v :: rest, ht, hs, hw => by
      obtain ⟨htv, htrest⟩ := List.forall_mem_cons.1 ht
      rw [List.all_cons, Bool.and_eq_true_iff] at hs
      obtain ⟨hwv, hwrest⟩ := Expr.allWritten_append.1 hw
      obtain ⟨more, hmore, hreal⟩ := lowerVars_realises n htrest hs.2 hwrest
      unfold Node.TypedVar at htv
      split at htv
      · exact ⟨more, hmore, hreal⟩
      · next pos id value noted =>
          obtain ⟨code, hcode, hfirst⟩ := lowerAssign_realises hr hc pos n htv hs.1 hwv
          refine ⟨code ++ more, ?_, (hfirst.seq hreal).congr fun a b => ?_⟩
          · rw [lowerVars, hcode, hmore]
            rfl
          · exact Option.bind_eq_some_iff.symm
      · exact htv.elim

/-! ## Statements -/

include hr hc in
theorem lowerLoopCond_tests {cond inserted : Expr} (h : LoopCondTyped r cond inserted)
    (hs : cond.isScalarPart = true) (hs' : inserted.isScalarPart = true)
    (hw : Expr.AllWritten cond.parts) (hw' : Expr.AllWritten inserted.parts) :
    ∃ code, lowerLoopCond c cond inserted = .ok code ∧
      Tests r (loopCond cond inserted).holds? code := by
  unfold lowerLoopCond loopCond
  rcases h with ⟨hcond, rfl⟩ | ⟨rfl, hins⟩
  · have hm := hcond.typed.not_missing
    rw [Expr.isScalarPart, hm, Bool.false_or] at hs
    rw [hm]
    exact lowerExpr_tests hr hc hcond (hw _ (Expr.mem_parts hm)) hs
  · have hm := hins.typed.not_missing
    rw [Expr.isScalarPart, hm, Bool.false_or] at hs'
    obtain ⟨code, hcode, htests⟩ :=
      lowerExpr_tests hr hc hins (hw' _ (Expr.mem_parts hm)) hs'
    refine ⟨code, ?_, htests⟩
    rw [hm]
    exact hcode

/-- A part of a loop that may be absent. -/
theorem lowerPart_realises {part : Stmt} {n : Nat} (ht : part = .missing ∨ part.Typed r)
    (hs : (part.isMissing || part.isScalar) = true)
    (h : part.Typed r → part.isScalar = true → ∃ n' code, lowerStmt c n part = .ok (n', code) ∧
      machine.Realises Label.number (Represents r) part.exec n n' code) :
    ∃ n' code, lowerPart c n part = .ok (n', code) ∧
      machine.Realises Label.number (Represents r) part.exec n n' code := by
  unfold lowerPart
  cases hm : part.isMissing with
  | true =>
      rw [Stmt.isMissing_iff.1 hm]
      exact ⟨n, [], rfl, .skip _ _ _ n⟩
  | false =>
      rcases ht with rfl | ht
      · cases hm
      · rw [hm, Bool.false_or] at hs
        exact h ht hs

mutual

/-- The code of a statement does what the statement does. -/
theorem lowerStmt_realises {c : Context} {r : Reach} (hr : r.Scalar) (hc : c.function = none) :
    ∀ {stmt : Stmt} {n : Nat}, stmt.Typed r → stmt.isScalar = true →
      Expr.AllWritten stmt.exprs → ∃ n' code, lowerStmt c n stmt = .ok (n', code) ∧
        machine.Realises Label.number (Represents r) stmt.exec n n' code
  | .missing, _, _, hs, _ | .arrayDecl _ _ _ _, _, _, hs, _ | .funcDecl _ _ _ _ _ _ _, _, _, hs, _
  | .ret _ _, _, _, hs, _ => by cases hs
  | .call pos func args note, n, h, hs, hw => by
      obtain ⟨code, hcode, hreal, hnote⟩ :=
        callCode_realises hr hc pos n h hs (hw _ List.mem_cons_self)
      refine ⟨n, code, ?_, hreal⟩
      rw [lowerStmt, hcode, hnote]
      show Except.ok (n, code ++ []) = _
      rw [List.append_nil]
  | .assign pos _ _ _, n, h, hs, hw => by
      obtain ⟨code, hcode, hreal⟩ := lowerAssign_realises hr hc pos n h hs hw
      refine ⟨n, code, ?_, hreal⟩
      rw [lowerStmt, hcode]
      rfl
  | .varDecl _ _ _, n, h, hs, hw => by
      obtain ⟨code, hcode, hreal⟩ := lowerVars_realises hr hc n h hs hw
      refine ⟨n, code, ?_, hreal⟩
      rw [lowerStmt, hcode]
      rfl
  | .ifElse _ cond yes no, n, ⟨ht, htyes, htno⟩, hs, hw => by
      simp only [Stmt.isScalar, Bool.and_eq_true_iff] at hs
      simp only [Stmt.exprs, Expr.allWritten_append] at hw
      have hwc := hw.1.1 cond (Expr.mem_parts ht.typed.not_missing)
      obtain ⟨code, hcode, htests⟩ := lowerExpr_tests hr hc ht hwc hs.1.1
      obtain ⟨n₁, codeYes, hyes, hrealYes⟩ :=
        lowerBlock_realises hr hc (n := n + 1) htyes hs.1.2 hw.1.2
      obtain ⟨n₂, codeNo, hno, hrealNo⟩ := lowerBlock_realises hr hc (n := n₁) htno hs.2 hw.2
      refine ⟨n₂, ifCode (n + 1) code codeYes codeNo, ?_, ifCode_realises htests hrealYes hrealNo⟩
      rw [lowerStmt, hcode]
      show (lowerBlock c (n + 1) yes >>= _) = _
      rw [hyes]
      show (lowerBlock c n₁ no >>= _) = _
      rw [hno]
      rfl
  | .whileLoop _ cond body, n, ⟨ht, htbody⟩, hs, hw => by
      simp only [Stmt.isScalar, Bool.and_eq_true_iff] at hs
      simp only [Stmt.exprs, Expr.allWritten_append] at hw
      have hwc := hw.1 cond (Expr.mem_parts ht.typed.not_missing)
      obtain ⟨code, hcode, htests⟩ := lowerExpr_tests hr hc ht hwc hs.1
      obtain ⟨n₁, codeBody, hbody, hreal⟩ :=
        lowerBlock_realises hr hc (n := n + 1) htbody hs.2 hw.2
      refine ⟨n₁, loopCode (n + 1) codeBody [] code, ?_, loopCode_realises htests ?_⟩
      · rw [lowerStmt]
        show (lowerBlock c (n + 1) body >>= _) = _
        rw [hbody]
        show (lowerExpr c cond >>= _) = _
        rw [hcode]
        rfl
      · rw [List.append_nil]
        exact hreal
  | .forLoop _ init cond inserted step body, n, ⟨htinit, htcond, htstep, htbody⟩, hs, hw => by
      simp only [Stmt.isScalar, Bool.and_eq_true_iff] at hs
      simp only [Stmt.exprs, Expr.allWritten_append] at hw
      obtain ⟨⟨⟨⟨hsinit, hscond⟩, hsinserted⟩, hsstep⟩, hsbody⟩ := hs
      obtain ⟨⟨⟨⟨hwinit, hwcond⟩, hwinserted⟩, hwstep⟩, hwbody⟩ := hw
      obtain ⟨n₁, codeInit, hcodeInit, hrealInit⟩ := lowerPart_realises htinit hsinit fun ht hs =>
        lowerStmt_realises hr hc (n := n) ht hs hwinit
      obtain ⟨n₂, codeBody, hcodeBody, hrealBody⟩ :=
        lowerBlock_realises hr hc (n := n₁ + 1) htbody hsbody hwbody
      obtain ⟨n₃, codeStep, hcodeStep, hrealStep⟩ := lowerPart_realises htstep hsstep fun ht hs =>
        lowerStmt_realises hr hc (n := n₂) ht hs hwstep
      obtain ⟨code, hcode, htests⟩ :=
        lowerLoopCond_tests hr hc htcond hscond hsinserted hwcond hwinserted
      refine ⟨n₃, codeInit ++ loopCode (n₁ + 1) codeBody codeStep code, ?_,
        hrealInit.seq (loopCode_realises htests (hrealBody.seq hrealStep))⟩
      rw [lowerStmt_forLoop, hcodeInit]
      show (lowerBlock c (n₁ + 1) body >>= _) = _
      rw [hcodeBody]
      show (lowerPart c n₂ step >>= _) = _
      rw [hcodeStep]
      show (lowerLoopCond c cond inserted >>= _) = _
      rw [hcode]
      rfl
  | .block b, n, h, hs, hw => by
      obtain ⟨n', code, hcode, hreal⟩ := lowerBlock_realises hr hc (n := n) h hs hw
      exact ⟨n', code, by rw [lowerStmt, hcode], hreal⟩

theorem lowerBlock_realises {c : Context} {r : Reach} (hr : r.Scalar) (hc : c.function = none) :
    ∀ {b : Block} {n : Nat}, b.Typed r → b.isScalar = true → Expr.AllWritten b.exprs →
      ∃ n' code, lowerBlock c n b = .ok (n', code) ∧
        machine.Realises Label.number (Represents r) b.exec n n' code
  | .missing, n, _, _, _ => ⟨n, [], rfl, .skip _ _ _ n⟩
  | .of _ _, n, h, hs, hw => by
      obtain ⟨n', code, hcode, hreal⟩ := lowerStmts_realises hr hc (n := n) h hs hw
      exact ⟨n', code, by rw [lowerBlock, hcode], hreal⟩

theorem lowerStmts_realises {c : Context} {r : Reach} (hr : r.Scalar) (hc : c.function = none) :
    ∀ {stmts : List Stmt} {n : Nat}, Stmt.AllTyped r stmts → Stmt.allScalar stmts = true →
      Expr.AllWritten (Stmt.exprsIn stmts) → ∃ n' code, lowerStmts c n stmts = .ok (n', code) ∧
        machine.Realises Label.number (Represents r) (Stmt.execAll stmts) n n' code
  | [], n, _, _, _ => ⟨n, [], rfl, .skip _ _ _ n⟩
  | stmt :: rest, n, ⟨ht, htrest⟩, hs, hw => by
      obtain ⟨hss, hsrest⟩ := Bool.and_eq_true_iff.1 hs
      obtain ⟨hws, hwrest⟩ := Expr.allWritten_append.1 hw
      obtain ⟨n₁, code, hcode, hreal⟩ := lowerStmt_realises hr hc (n := n) ht hss hws
      obtain ⟨n₂, more, hmore, hreal'⟩ := lowerStmts_realises hr hc (n := n₁) htrest hsrest hwrest
      refine ⟨n₂, code ++ more, ?_, hreal.seq hreal'⟩
      rw [lowerStmts, hcode]
      show (lowerStmts c n₁ rest >>= _) = _
      rw [hmore]
      rfl

end

end

/-! ## Assemblies -/

/-- The code of the type initializer, if there is one. -/
def Assembly.initializer? (asm : Assembly) : Option (List Instr) :=
  (asm.methods.find? (·.origin == .initializer)).map (·.body)

/-- The type initializer, run on fields that are all zero, ends and leaves something to be seen. An
assembly without one does nothing. -/
def Assembly.Initializes (asm : Assembly) (seen : Observation) : Prop :=
  match asm.initializer? with
  | none => seen = Store.initial.observe asm.fields
  | some body => ∃ t, machine.Halts body body ⟨[], .initial⟩ t ∧ seen = t.store.observe asm.fields

/-- The code of a scalar program does what the program does. -/
theorem initializer_halts {r : Reach} (hr : r.Scalar) {act : Store → Store → Prop} {n n' : Nat}
    {code : List Instr} (h : machine.Realises Label.number (Represents r) act n n' code)
    (globals : List Symbol) (seen : Observation) :
    (∃ t, machine.Halts (code ++ [Instr.ret]) (code ++ [Instr.ret]) ⟨[], .initial⟩ t ∧
      seen = t.store.observe globals) ↔ ∃ b, act .initial b ∧ seen = b.observe globals := by
  have himp := h.implements (code ++ [Instr.ret]) [] [.ret] rfl fun _ hi => (nomatch hi)
  have hret : ∀ a s, Represents r a s → machine.effect .ret s = .halt := by
    rintro a s ⟨rfl, -⟩
    rfl
  have hstart : Represents r .initial ⟨[], .initial⟩ := ⟨rfl, .initial hr⟩
  constructor
  · rintro ⟨t, ht, rfl⟩
    obtain ⟨b, hb, rfl, -⟩ := himp.of_ends hret hstart ht
    exact ⟨b, hb, rfl⟩
  · rintro ⟨b, hb, rfl⟩
    obtain ⟨t, ht, rfl, -⟩ := himp.ends hret hstart hb
    exact ⟨⟨[], b⟩, ht, rfl⟩

/-- The assembly of a scalar program does what the program does. -/
theorem Assembly.initializes_iff {a : Analysis} (h : a.Scalar) (opts : Options) :
    ∃ asm, Assembly.ofAnalysis a opts = .ok asm ∧ ∀ seen, asm.Initializes seen ↔
      ∃ store, a.program.exec .initial store ∧ seen = store.observe a.globals := by
  obtain ⟨n', code, hcode, hreal⟩ :=
    lowerBlock_realises (c := ⟨opts.fold, none⟩) (n := 0) h.reach rfl h.typed h.scalar h.written
  have hfunctions := Block.functions_scalar h.scalar
  unfold Assembly.ofAnalysis
  rw [h.reach.static.requireAll_ok, hfunctions]
  rcases h.needsInitializer with hneeds | ⟨hneeds, hexec⟩
  · refine ⟨⟨opts.name, a.globals, [⟨.initializer, [], code ++ [Instr.ret]⟩]⟩, ?_, fun seen => ?_⟩
    · show (Analysis.needsInitializer a.globals a.program >>= _) = _
      rw [hneeds]
      show (lowerInitializer opts.fold 0 a.program >>= _) = _
      unfold lowerInitializer
      rw [hcode]
      rfl
    · exact initializer_halts h.reach hreal a.globals seen
  · refine ⟨⟨opts.name, a.globals, []⟩, ?_, fun seen => ?_⟩
    · show (Analysis.needsInitializer a.globals a.program >>= _) = _
      rw [hneeds]
      rfl
    · rw [hexec]
      show seen = _ ↔ _
      constructor
      · rintro rfl
        exact ⟨_, rfl, rfl⟩
      · rintro ⟨store, rfl, hseen⟩
        exact hseen

end SmallC.Cil
