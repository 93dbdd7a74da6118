import SmallC.Proofs.LlvmExpr

/-!
# LLVM code does what scalar programs do

The code of a statement of a scalar program implements the statement: between
statements the global variables hold the values of the variables, and nothing is
known of the registers. No statement of a scalar program leaves its block for
good, so the code of one statement starts in the block in which the code before
it stopped.
-/

namespace SmallC.Llvm

open Machine (andThen choose Loop)
open Emit

/-- The number of a label. -/
def Label.number : Label → Nat
  | entry => 0
  | ifThen n | ifElse n | ifEnd n | loopBody n | loopCond n | loopEnd n | after n => n

/-- A step that computes whether a condition holds, or traps. -/
def Tests (r : Reach) (test : Store → Option Bool) (x : Emit Operand) : Prop :=
  ∃ value, Evaluates r x .bool value ∧ ∀ a, test a = (value a.values).map fun v => decide (v ≠ 0)

/-- A step that adds code for an action, where a block is open before and after it. -/
def Does {β : Type} (r : Reach) (act : Store → Store → Prop) (x : Emit β) : Prop :=
  ∀ c : Cursor, c.closed = false → ∃ out, x c = .ok out ∧ out.cursor.closed = false ∧
    machine.Realises Label.number (Stores r) act c.control out.cursor.control out.code

section

variable {α β : Type} {r : Reach} {act act' : Store → Store → Prop} {x : Emit α} {y : Emit β}

theorem bind_ok {f : α → Emit β} {c : Cursor} {first : Emitted α} {second : Emitted β}
    (h : x c = .ok first) (h' : f first.value first.cursor = .ok second) :
    (x >>= f) c = .ok ⟨second.value, second.cursor, first.code ++ second.code⟩ :=
  bind_eq_ok_iff.2 ⟨first, second, h, h', rfl⟩

theorem Does.skip (a : α) : Does r Eq (pure a : Emit α) :=
  fun c hc => ⟨⟨a, c, []⟩, rfl, hc, .skip _ _ _ _⟩

theorem Does.congr (h : Does r act x) (heq : ∀ a b, act a b ↔ act' a b) : Does r act' x := by
  intro c hc
  obtain ⟨out, hx, hopen, hreal⟩ := h c hc
  exact ⟨out, hx, hopen, hreal.congr heq⟩

theorem Does.seq (h : Does r act x) (h' : Does r act' y) :
    Does r (andThen act act') (x >>= fun _ => y) := by
  intro c hc
  obtain ⟨first, hx, hopen, hreal⟩ := h c hc
  obtain ⟨second, hy, hopen', hreal'⟩ := h' first.cursor hopen
  exact ⟨_, bind_ok hx hy, hopen', hreal.seq hreal'⟩

/-- What a step yields does not matter to what its code does. -/
theorem Does.forget (h : Does r act x) : Does r act (x >>= fun _ => (pure () : Emit Unit)) := by
  intro c hc
  obtain ⟨out, hx, hopen, hreal⟩ := h c hc
  refine ⟨_, bind_ok hx rfl, hopen, ?_⟩
  show machine.Realises _ _ _ _ _ (out.code ++ [])
  rw [List.append_nil]
  exact hreal

theorem close_open {c : Cursor} (hc : c.closed = false) (i : Instr) :
    close i c = .ok ⟨(), { c with closed := i.isTerminator }, [i]⟩ := by
  have hinstr := instr_open hc i
  unfold close
  rw [hc]
  exact hinstr

theorem jump_open {c : Cursor} (hc : c.closed = false) (l : Label) :
    jump l c = .ok ⟨(), { c with closed := true }, [.br l]⟩ :=
  close_open hc (.br l)

end

/-! ## Control structures -/

section

variable {r : Reach} {test : Store → Option Bool} {n n₁ n₂ : Nat} {c c₁ : Cursor} {o : Operand}
  {cond : List Instr} {value : (String → BitVec 32) → Option (BitVec 32)}

/-- A condition and a branch on it. -/
theorem Computes.decides {body rest yes no : List Instr} {l l' : Label}
    (h : Computes r c c₁ cond (o.Holds .bool) value)
    (htest : ∀ a, test a = (value a.values).map fun v => decide (v ≠ 0))
    (hyes : machine.after l body = some yes) (hno : machine.after l' body = some no) :
    machine.Decides body (Stores r) test (cond ++ Instr.condBr o l l' :: rest) yes no := by
  refine .straight (fun a b s hs hb => ?_) fun a s hs hb => ?_
  · rw [htest] at hb
    obtain ⟨v, hv, rfl⟩ := Option.map_eq_some_iff.1 hb
    obtain ⟨s', hrun, hk, ho⟩ := h.next a s v hs hv
    refine ⟨s', s', hrun, hs.keeps hk, .inr ⟨if decide (v ≠ 0) then l else l', ?_, ?_⟩⟩
    · show effect (.condBr o l l') s' = _
      unfold effect
      dsimp only
      rw [show o.eval s'.regs .i1 = _ from ho]
      rfl
    · cases decide (v ≠ 0)
      · exact hno
      · exact hyes
  · rw [htest] at hb
    exact h.trap a s hs (Option.map_eq_none_iff.1 hb)

theorem numbered_label {l : Label} (h : n < l.number ∧ l.number ≤ n₁) :
    machine.Numbered Label.number n n₁ [.label l] := by
  intro i hi l' hl
  obtain rfl := List.mem_singleton.1 hi
  cases hl
  exact h

theorem unlabelled {i : Instr} (h : i.label? = none) : ∀ j ∈ [i], machine.label? j = none := by
  intro j hj
  rw [List.mem_singleton.1 hj]
  exact h

theorem avoids_label {l l' : Label} (h : l' ≠ l) : machine.Avoids l [.label l'] := by
  intro i hi heq
  obtain rfl := List.mem_singleton.1 hi
  exact h (Option.some.inj heq)

/-- Code that is entered by a branch to `l` and left by one to `next`. -/
def arm (l next : Label) (code : List Instr) : List Instr :=
  [Instr.label l] ++ code ++ [Instr.br next]

theorem arm_numbered {l next : Label} {code : List Instr} (hl : n < l.number ∧ l.number ≤ n₁)
    (h : machine.Numbered Label.number n n₁ code) :
    machine.Numbered Label.number n n₁ (arm l next code) := by
  simp only [arm, Machine.numbered_append]
  exact ⟨⟨numbered_label hl, h⟩, .of_none (unlabelled rfl)⟩

theorem arm_avoids {l l' next : Label} {code : List Instr} (hl : l' ≠ l)
    (h : machine.Avoids l code) : machine.Avoids l (arm l' next code) := by
  simp only [arm, Machine.avoids_append]
  exact ⟨⟨avoids_label hl, h⟩, Machine.avoids_of_none (unlabelled rfl)⟩

/-- Where a branch to the label of an arm leads, and what the arm does. -/
theorem arm_implements {act : Store → Store → Prop} {body code exit : List Instr}
    {l next : Label} (h : machine.Realises Label.number (Stores r) act n n₁ code)
    (pre rest : List Instr) (hbody : body = pre ++ (arm l next code ++ rest))
    (hpre : machine.Below Label.number n pre) (havoid : machine.Avoids l pre) (hl : l.number ≤ n)
    (hnext : machine.after next body = some exit) :
    ∃ entry, machine.after l body = some entry ∧
      machine.Implements body (Stores r) act entry exit := by
  refine ⟨code ++ Instr.br next :: rest, ?_, ?_⟩
  · have hsplit : body = pre ++ Instr.label l :: (code ++ Instr.br next :: rest) := by
      simp [hbody, arm]
    rw [hsplit]
    exact Machine.after_of_label havoid rfl
  · have hbelow : machine.Below Label.number n (pre ++ [Instr.label l]) := by
      intro i hi l' hl'
      rcases List.mem_append.1 hi with hi | hi
      · exact hpre i hi l' hl'
      · obtain rfl := List.mem_singleton.1 hi
        cases hl'
        exact hl
    refine (h.implements body _ _ (by simp [hbody, arm]) hbelow).skip_right ?_
    exact Machine.Implements.branch (fun _ => rfl) hnext

/-- The code of a conditional. -/
def ifCode (n : Nat) (o : Operand) (cond yes no : List Instr) : List Instr :=
  cond ++ [Instr.condBr o (.ifThen n) (.ifElse n)] ++ arm (.ifThen n) (.ifEnd n) yes ++
    arm (.ifElse n) (.ifEnd n) no ++ [Instr.label (.ifEnd n)]

theorem lowerIf_ok {cond : Emit Operand} {yes no : Emit Unit} {out₁ : Emitted Operand}
    {out₂ out₃ : Emitted Unit} (h₁ : cond { c with control := c.control + 1 } = .ok out₁)
    (hopen₁ : out₁.cursor.closed = false)
    (h₂ : yes { out₁.cursor with closed := false } = .ok out₂)
    (hopen₂ : out₂.cursor.closed = false)
    (h₃ : no { out₂.cursor with closed := false } = .ok out₃)
    (hopen₃ : out₃.cursor.closed = false) :
    lowerIf cond yes no c = .ok ⟨(), { out₃.cursor with closed := false },
      ifCode (c.control + 1) out₁.value out₁.code out₂.code out₃.code⟩ := by
  unfold lowerIf
  refine Eq.trans (bind_ok rfl (bind_ok h₁ (bind_ok (instr_open hopen₁ _) (bind_ok rfl (bind_ok h₂
    (bind_ok (jump_open hopen₂ _) (bind_ok rfl (bind_ok h₃ (bind_ok (jump_open hopen₃ _)
      rfl))))))))) ?_
  simp [ifCode, arm]

/-- The code of a conditional chooses between what its parts do. -/
theorem ifCode_realises {yes no : List Instr} {yesAct noAct : Store → Store → Prop}
    (h : Computes r c c₁ cond (o.Holds .bool) value)
    (htest : ∀ a, test a = (value a.values).map fun v => decide (v ≠ 0))
    (hyes : machine.Realises Label.number (Stores r) yesAct (n + 1) n₁ yes)
    (hno : machine.Realises Label.number (Stores r) noAct n₁ n₂ no) :
    machine.Realises Label.number (Stores r) (choose test yesAct noAct) n n₂
      (ifCode (n + 1) o cond yes no) := by
  have hle := hyes.le
  have hle' := hno.le
  have hhead : ∀ n', machine.Numbered Label.number n n'
      (cond ++ [Instr.condBr o (.ifThen (n + 1)) (.ifElse (n + 1))]) := fun n' =>
    Machine.numbered_append.2 ⟨.of_none h.labels, .of_none (unlabelled rfl)⟩
  have harm : machine.Numbered Label.number n n₁ (arm (.ifThen (n + 1)) (.ifEnd (n + 1)) yes) :=
    arm_numbered ⟨Nat.lt_succ_self n, hle⟩ (hyes.labels.mono (by omega) (Nat.le_refl n₁))
  have harm' : machine.Numbered Label.number n n₂ (arm (.ifElse (n + 1)) (.ifEnd (n + 1)) no) :=
    arm_numbered ⟨Nat.lt_succ_self n, Nat.le_trans hle hle'⟩
      (hno.labels.mono (by omega) (Nat.le_refl n₂))
  refine ⟨by omega, ?_, fun body pre rest hbody hpre => ?_⟩
  · rw [ifCode, Machine.numbered_append, Machine.numbered_append, Machine.numbered_append]
    exact ⟨⟨⟨hhead n₂, harm.mono (Nat.le_refl n) hle'⟩, harm'⟩,
      numbered_label ⟨Nat.lt_succ_self n, Nat.le_trans hle hle'⟩⟩
  · have hbelow := hpre.append (hhead n) (Nat.le_refl n)
    have hfirst : ∀ l : Label, l.number = n + 1 → machine.Avoids l
        (pre ++ (cond ++ [Instr.condBr o (.ifThen (n + 1)) (.ifElse (n + 1))])) := fun l hl =>
      hbelow.avoids (by omega)
    have hsecond : ∀ l : Label, l.number = n + 1 → l ≠ .ifThen (n + 1) → machine.Avoids l
        (pre ++ (cond ++ [Instr.condBr o (.ifThen (n + 1)) (.ifElse (n + 1))]) ++
          arm (.ifThen (n + 1)) (.ifEnd (n + 1)) yes) := fun l hl hne =>
      Machine.avoids_append.2 ⟨hfirst l hl,
        arm_avoids (Ne.symm hne) (hyes.labels.avoids (by omega))⟩
    have hend : machine.after (.ifEnd (n + 1)) body = some rest := by
      have hsplit : body = (pre ++ (cond ++ [Instr.condBr o (.ifThen (n + 1)) (.ifElse (n + 1))]) ++
          arm (.ifThen (n + 1)) (.ifEnd (n + 1)) yes ++
            arm (.ifElse (n + 1)) (.ifEnd (n + 1)) no) ++ Instr.label (.ifEnd (n + 1)) :: rest := by
        simp [hbody, ifCode]
      rw [hsplit]
      refine Machine.after_of_label (Machine.avoids_append.2 ⟨?_, ?_⟩) rfl
      · exact hsecond _ rfl (by simp)
      · exact arm_avoids (by simp) (hno.labels.avoids hle)
    obtain ⟨entry, hthen, himp⟩ := arm_implements (l := .ifThen (n + 1)) hyes _
      (arm (.ifElse (n + 1)) (.ifEnd (n + 1)) no ++ Instr.label (.ifEnd (n + 1)) :: rest)
      (by simp [hbody, ifCode]) (hpre.append (hhead (n + 1)) (Nat.le_succ n)) (hfirst _ rfl)
      (Nat.le_refl _) hend
    obtain ⟨entry', helse, himp'⟩ := arm_implements (l := .ifElse (n + 1)) hno _
      (.label (.ifEnd (n + 1)) :: rest) (by simp [hbody, ifCode])
      (hbelow.append harm (by omega)) (hsecond _ rfl (by simp)) hle hend
    have hentry : ifCode (n + 1) o cond yes no ++ rest = cond ++
        Instr.condBr o (.ifThen (n + 1)) (.ifElse (n + 1)) ::
          (arm (.ifThen (n + 1)) (.ifEnd (n + 1)) yes ++
            (arm (.ifElse (n + 1)) (.ifEnd (n + 1)) no ++
              Instr.label (.ifEnd (n + 1)) :: rest)) := by
      simp [ifCode]
    rw [hentry]
    exact Machine.Implements.choose (h.decides htest hthen helse) himp himp'

theorem lowerIf_does {cond : Emit Operand} {yes no : Emit Unit}
    {yesAct noAct : Store → Store → Prop} (hcond : Tests r test cond) (hyes : Does r yesAct yes)
    (hno : Does r noAct no) : Does r (choose test yesAct noAct) (lowerIf cond yes no) := by
  obtain ⟨value, heval, htest⟩ := hcond
  intro c hc
  obtain ⟨out₁, h₁, hcomp⟩ := heval { c with control := c.control + 1 } hc
  obtain ⟨out₂, h₂, hopen₂, hreal₂⟩ := hyes { out₁.cursor with closed := false } rfl
  obtain ⟨out₃, h₃, hopen₃, hreal₃⟩ := hno { out₂.cursor with closed := false } rfl
  rw [show out₁.cursor.control = c.control + 1 from hcomp.control] at hreal₂
  exact ⟨_, lowerIf_ok h₁ hcomp.opened h₂ hopen₂ h₃ hopen₃, rfl,
    ifCode_realises hcomp htest hreal₂ hreal₃⟩

/-- The code of a loop. -/
def loopCode (n : Nat) (o : Operand) (round cond : List Instr) : List Instr :=
  [Instr.br (.loopCond n)] ++ arm (.loopBody n) (.loopCond n) round ++
    [Instr.label (.loopCond n)] ++ cond ++ [Instr.condBr o (.loopBody n) (.loopEnd n)] ++
      [Instr.label (.loopEnd n)]

theorem lowerLoop_ok {body step : Emit Unit} {cond : Emit Operand} {out₁ out₂ : Emitted Unit}
    {out₃ : Emitted Operand} (hopen : c.closed = false)
    (h₁ : body { c with control := c.control + 1, closed := false } = .ok out₁)
    (h₂ : step out₁.cursor = .ok out₂) (hopen₂ : out₂.cursor.closed = false)
    (h₃ : cond { out₂.cursor with closed := false } = .ok out₃)
    (hopen₃ : out₃.cursor.closed = false) :
    lowerLoop body step cond c = .ok ⟨(), { out₃.cursor with closed := false },
      loopCode (c.control + 1) out₃.value (out₁.code ++ out₂.code) out₃.code⟩ := by
  have hjump := jump_open (c := { c with control := c.control + 1 }) hopen
  unfold lowerLoop
  refine Eq.trans (bind_ok rfl (bind_ok (hjump _) (bind_ok rfl (bind_ok h₁ (bind_ok h₂
    (bind_ok (jump_open hopen₂ _) (bind_ok rfl (bind_ok h₃ (bind_ok (instr_open hopen₃ _)
      rfl))))))))) ?_
  simp [loopCode, arm]

/-- The code of a loop repeats what its body and its step do. -/
theorem loopCode_realises {round : List Instr} {act : Store → Store → Prop}
    (h : Computes r c c₁ cond (o.Holds .bool) value)
    (htest : ∀ a, test a = (value a.values).map fun v => decide (v ≠ 0))
    (hround : machine.Realises Label.number (Stores r) act (n + 1) n₁ round) :
    machine.Realises Label.number (Stores r) (Loop test act) n n₁
      (loopCode (n + 1) o round cond) := by
  have hle := hround.le
  have harm : machine.Numbered Label.number n n₁
      (arm (.loopBody (n + 1)) (.loopCond (n + 1)) round) :=
    arm_numbered ⟨Nat.lt_succ_self n, hle⟩ (hround.labels.mono (by omega) (Nat.le_refl n₁))
  refine ⟨by omega, ?_, fun body pre rest hbody hpre => ?_⟩
  · rw [loopCode, Machine.numbered_append, Machine.numbered_append, Machine.numbered_append,
      Machine.numbered_append, Machine.numbered_append]
    exact ⟨⟨⟨⟨⟨.of_none (unlabelled rfl), harm⟩, numbered_label ⟨Nat.lt_succ_self n, hle⟩⟩,
      .of_none h.labels⟩, .of_none (unlabelled rfl)⟩, numbered_label ⟨Nat.lt_succ_self n, hle⟩⟩
  · have hbelow : machine.Below Label.number n (pre ++ [Instr.br (.loopCond (n + 1))]) :=
      hpre.append (.of_none (unlabelled rfl)) (Nat.le_refl n)
    have hfirst : ∀ l : Label, l.number = n + 1 → l ≠ .loopBody (n + 1) → machine.Avoids l
        (pre ++ [Instr.br (.loopCond (n + 1))] ++
          arm (.loopBody (n + 1)) (.loopCond (n + 1)) round) :=
      fun l hl hne => Machine.avoids_append.2 ⟨hbelow.avoids (by omega),
        arm_avoids (Ne.symm hne) (hround.labels.avoids (by omega))⟩
    have hctrl : machine.after (.loopCond (n + 1)) body = some (cond ++
        Instr.condBr o (.loopBody (n + 1)) (.loopEnd (n + 1)) ::
          .label (.loopEnd (n + 1)) :: rest) := by
      have hsplit : body = (pre ++ [Instr.br (.loopCond (n + 1))] ++
          arm (.loopBody (n + 1)) (.loopCond (n + 1)) round) ++ Instr.label (.loopCond (n + 1)) ::
            (cond ++ Instr.condBr o (.loopBody (n + 1)) (.loopEnd (n + 1)) ::
              .label (.loopEnd (n + 1)) :: rest) := by simp [hbody, loopCode]
      rw [hsplit]
      exact Machine.after_of_label (hfirst _ rfl (by simp)) rfl
    have hend : machine.after (.loopEnd (n + 1)) body = some rest := by
      have hsplit : body = (pre ++ [Instr.br (.loopCond (n + 1))] ++
          arm (.loopBody (n + 1)) (.loopCond (n + 1)) round ++ ([Instr.label (.loopCond (n + 1))] ++
            cond ++ [Instr.condBr o (.loopBody (n + 1)) (.loopEnd (n + 1))])) ++
              Instr.label (.loopEnd (n + 1)) :: rest := by simp [hbody, loopCode]
      rw [hsplit]
      refine Machine.after_of_label (Machine.avoids_append.2 ⟨hfirst _ rfl (by simp), ?_⟩) rfl
      rw [Machine.avoids_append, Machine.avoids_append]
      exact ⟨⟨avoids_label (by simp), Machine.avoids_of_none h.labels⟩,
        Machine.avoids_of_none (unlabelled rfl)⟩
    obtain ⟨entry, hagain, himp⟩ := arm_implements (l := .loopBody (n + 1)) hround _
      ([Instr.label (.loopCond (n + 1))] ++ cond ++
        [Instr.condBr o (.loopBody (n + 1)) (.loopEnd (n + 1))] ++
          Instr.label (.loopEnd (n + 1)) :: rest)
      (by simp [hbody, loopCode]) (hpre.append (.of_none (unlabelled rfl)) (Nat.le_succ n))
      (hbelow.avoids (Nat.lt_succ_self n)) (Nat.le_refl _) hctrl
    have hloop := Machine.Implements.loop (h.decides htest hagain hend) himp
    have hentry : loopCode (n + 1) o round cond ++ rest = Instr.br (.loopCond (n + 1)) ::
        (arm (.loopBody (n + 1)) (.loopCond (n + 1)) round ++ ([Instr.label (.loopCond (n + 1))] ++
          cond ++ [Instr.condBr o (.loopBody (n + 1)) (.loopEnd (n + 1))] ++
            Instr.label (.loopEnd (n + 1)) :: rest)) := by simp [loopCode]
    rw [hentry]
    exact Machine.Implements.skip_left (Machine.Implements.branch (fun _ => rfl) hctrl) hloop

theorem lowerLoop_does {body step : Emit Unit} {cond : Emit Operand}
    {act stepAct : Store → Store → Prop} (hbody : Does r act body) (hstep : Does r stepAct step)
    (hcond : Tests r test cond) :
    Does r (Loop test (andThen act stepAct)) (lowerLoop body step cond) := by
  obtain ⟨value, heval, htest⟩ := hcond
  intro c hc
  obtain ⟨out₁, h₁, hopen₁, hreal₁⟩ :=
    hbody { c with control := c.control + 1, closed := false } rfl
  obtain ⟨out₂, h₂, hopen₂, hreal₂⟩ := hstep out₁.cursor hopen₁
  obtain ⟨out₃, h₃, hcomp⟩ := heval { out₂.cursor with closed := false } rfl
  refine ⟨_, lowerLoop_ok hc h₁ h₂ hopen₂ h₃ hcomp.opened, rfl, ?_⟩
  show machine.Realises _ _ _ _ out₃.cursor.control _
  rw [hcomp.control]
  exact loopCode_realises hcomp htest (hreal₁.seq hreal₂)

end

/-! ## Simple statements -/

section

variable {β : Type} {r : Reach} {m : Base} {x : Emit Operand} {f : Operand → Emit β}
  {act : Store → BitVec 32 → Store} {value : (String → BitVec 32) → Option (BitVec 32)}

/-- Steps that do something with an operand, which never traps. -/
def Consumes {β : Type} (r : Reach) (m : Base) (act : Store → BitVec 32 → Store)
    (f : Operand → Emit β) : Prop :=
  ∀ (o : Operand) (c : Cursor), c.closed = false → ∃ out, f o c = .ok out ∧
    out.cursor.closed = false ∧ out.cursor.control = c.control ∧
    (∀ i ∈ out.code, i.label? = none) ∧
    ∀ a s v, Stores r a s → m.Fits 8 v → o.Holds m v s →
      ∃ s', machine.run out.code s = .next s' ∧ Stores r (act a v) s'

theorem Evaluates.consumed (h : Evaluates r x m value) (hf : Consumes r m act f)
    (hfits : ∀ env v, r.Fits 8 env → value env = some v → m.Fits 8 v) :
    Does r (fun a b => (value a.values).map (act a) = some b) (x >>= f) := by
  intro c hc
  obtain ⟨first, hx, hcomp⟩ := h c hc
  obtain ⟨second, hy, hopen, hcontrol, hlabels, hrun⟩ := hf first.value first.cursor hcomp.opened
  refine ⟨_, bind_ok hx hy, hopen, ?_⟩
  show machine.Realises _ _ _ _ second.cursor.control _
  rw [hcontrol, hcomp.control]
  refine .straight (List.forall_mem_append.2 ⟨hcomp.labels, hlabels⟩) ?_ ?_
  · intro a b s hs hb
    obtain ⟨v, hv, rfl⟩ := Option.map_eq_some_iff.1 hb
    obtain ⟨s₁, hfirst, hk, ho⟩ := hcomp.next a s v hs hv
    obtain ⟨s₂, hsecond, hs₂⟩ := hrun a s₁ v (hs.keeps hk) (hfits a.values v hs.fits hv) ho
    refine ⟨s₂, ?_, hs₂⟩
    rw [Machine.run_append_next hfirst, hsecond]
  · intro a s hs hb
    exact Machine.run_append_trap (hcomp.trap a s hs (Option.map_eq_none_iff.1 hb))

/-- To store a value of the kind of a variable. -/
theorem Stores.set (hr : r.Scalar) {a : Store} {s : State} {sym : Symbol} {v : BitVec 32}
    (h : Stores r a s) (hs : sym.Stored r) (ht : sym.type = .base m) (hv : m.Fits 8 v) :
    Stores r (a.set sym.name v)
      { s with memory := fun x => if x = sym.name then some (encode m v) else s.memory x } := by
  refine ⟨h.fits.set hr hs ht hv, fun sym' k hs' hk => ?_, h.output⟩
  show (if sym'.name = sym.name then some (encode m v) else s.memory sym'.name) =
    some (encode k (if sym'.name = sym.name then v else a.values sym'.name))
  split
  · next hname =>
      obtain rfl := hr.static.eq_of_name (hr.stored hs') (hr.stored hs) hname
      cases ht.symm.trans hk
      rfl
  · exact h.memory sym' k hs' hk

theorem Stores.print {a : Store} {s : State} (h : Stores r a s) (p : Printed) :
    Stores r (a.print p) { s with output := s.output ++ [p] } :=
  ⟨h.fits, h.memory, congrArg (· ++ [p]) h.output⟩

theorem effect_print {s : State} {format : Support} {x : Typed} {d : Datum} {p : Printed}
    (hx : x.eval s.regs = some d) (hp : printed? [.ptr (.support format), d] = some p) :
    effect (.call none .i32 true (.support .printf) [.ptr (.global (.support format)), x]) s =
      .fall { s with output := s.output ++ [p] } := by
  have hargs : [.ptr (.global (.support format)), x].mapM (Typed.eval s.regs) =
      some [.ptr (.support format), d] := by
    rw [List.mapM_cons, List.mapM_cons, hx]
    rfl
  show fallWith (([.ptr (.global (.support format)), x].mapM (Typed.eval s.regs)).bind fun data =>
    (printed? data).bind fun p => some { s with output := s.output ++ [p] }) = _
  rw [hargs, Option.bind_some, hp]
  rfl

theorem print_open {cur : Cursor} (hcur : cur.closed = false) (format : Support) (x : Typed) :
    print format x cur =
      .ok ⟨(), { cur with used := format :: .printf :: cur.used, closed := false },
        [.call none .i32 true (.support .printf) [.ptr (.global (.support format)), x]]⟩ := by
  unfold print
  rw [use_bind, use_bind]
  exact instr_open (c := { cur with used := format :: .printf :: cur.used }) hcur _

theorem print_int_consumes : Consumes r .int (fun a v => a.print (.int v.toInt))
    fun o => print .fmtInt ⟨.i32, o⟩ >>= fun _ => pure Operand.nothing := by
  intro o cur hcur
  refine ⟨_, bind_ok (print_open hcur _ _) rfl, rfl, rfl, unlabelled rfl, ?_⟩
  intro a s v hs _ ho
  exact ⟨_, Machine.run_cons_fall (effect_print ho rfl), hs.print _⟩

theorem print_bool_consumes : Consumes r .bool (fun a v => a.print (.bool (v ≠ 0)))
    fun o => use .strTrue >>= fun yes => use .strFalse >>= fun no =>
      Emit.define "bool" (.select · o (.global yes) (.global no)) >>= fun q =>
        print .fmtStr (.ptr q) >>= fun _ => pure Operand.nothing := by
  intro o cur hcur
  dsimp only
  rw [use_bind, use_bind]
  have hdefine := define_open (c := { cur with used := .strFalse :: .strTrue :: cur.used }) hcur
    "bool" (.select · o (.global (.support .strTrue)) (.global (.support .strFalse))) fun _ => rfl
  refine ⟨_, bind_ok hdefine (bind_ok (print_open rfl _ _) rfl), rfl, rfl, ?_, ?_⟩
  · exact List.forall_mem_cons.2 ⟨rfl, unlabelled rfl⟩
  · intro a s v hs _ ho
    have ho : o.eval s.regs .i1 = some (.i1 (decide (v ≠ 0))) := ho
    show ∃ s', _ ∧ Stores r (a.print (.bool (decide (v ≠ 0)))) s'
    generalize decide (v ≠ 0) = b at ho ⊢
    have hselect : ∀ q : Reg, machine.effect
        (.select q o (.global (.support .strTrue)) (.global (.support .strFalse))) s =
          .fall (s.define q (.ptr (.support (if b then .strTrue else .strFalse)))) := by
      intro q
      show fallWith ((o.eval s.regs .i1).bind fun c =>
        some (s.define q (if c = .i1 true then _ else _))) = _
      rw [ho]
      cases b <;> rfl
    have hkeep : ∀ q d, Stores r a (s.define q d) := fun _ _ => ⟨hs.fits, hs.memory, hs.output⟩
    refine ⟨_, (Machine.run_cons_fall (hselect _)).trans (Machine.run_cons_fall
      (effect_print (eval_define s _ _) ?_)), (hkeep _ _).print _⟩
    cases b <;> rfl

variable {c : Context} (hr : r.Scalar) (hc : c.function = none)

include hr hc

theorem addressesGlobals_scalar : AddressesGlobals c r := by
  intro sym pos h hd
  obtain ⟨hparam, hauto, hstatic⟩ := hr.place hc h hd
  unfold address
  rw [hparam, if_neg (by simpa using hauto), if_pos hstatic]

theorem store_consumes {sym : Symbol} (hs : sym.Stored r) (ht : sym.type = .base m)
    (hm : m.isScalar = true) (pos : Pos) :
    Consumes r m (fun a v => a.set sym.name v) (store c pos sym) := by
  have hdata : sym.type.isData = true := by
    rw [ht]
    cases m <;> first | rfl | cases hm
  intro o cur hcur
  refine ⟨⟨(), { cur with closed := false },
    [.store ⟨.ofTy sym.type, o⟩ (.global (.user sym.name))]⟩, ?_, rfl, rfl, ?_, ?_⟩
  · unfold store
    rw [ofExcept_bind (Ty.require_ok (Ty.isResult_of_isData hdata)),
      ofExcept_bind (addressesGlobals_scalar hr hc sym pos hs hdata)]
    exact instr_open hcur _
  · exact unlabelled rfl
  · intro a s v hstores hv ho
    refine ⟨_, Machine.run_cons_fall ?_, hstores.set hr hs ht hv⟩
    have htypes : (encode m (a.values sym.name)).type = (encode m v).type := by
      rw [encode_type (Base.isOrdinal_of_isScalar hm), encode_type (Base.isOrdinal_of_isScalar hm)]
    show fallWith ((o.eval s.regs (.ofTy sym.type)).bind fun d =>
      (s.memory sym.name).bind fun old => if old.type = d.type then
        some { s with memory := fun x => if x = sym.name then some d else s.memory x }
      else none) = _
    rw [ht, show o.eval s.regs (.ofTy (.base m)) = _ from ho, Option.bind_some,
      hstores.memory sym m hs ht, Option.bind_some, if_pos htypes]
    rfl

/-- The code of a scalar expression computes its value. -/
theorem lowerExpr_value {e : Expr} (h : e.UsedAs r (.base m)) (hm : m.isScalar = true)
    (hw : e.Written) (hs : e.isScalar = true) :
    Evaluates r (lowerExpr c e) m (fun env => e.meaningUsed 8 env) ∧
      ∀ env v, r.Fits 8 env → e.meaningUsed 8 env = some v → m.Fits 8 v := by
  obtain ⟨k, hk, huses⟩ := h.scalar hr hw hs
  have hord := Base.isOrdinal_of_isScalar hm
  refine ⟨lowerExpr_evaluates (addressesGlobals_scalar hr hc) hk.ordinal huses hord, ?_⟩
  intro env v henv hv
  exact hk.ordinal.fits_used huses hord (by omega) henv v hv

theorem lowerExpr_tests {e : Expr} (h : e.UsedAs r (.base .bool)) (hw : e.Written)
    (hs : e.isScalar = true) : Tests r e.holds? (lowerExpr c e) :=
  ⟨_, (lowerExpr_value hr hc h rfl hw hs).1, fun _ => rfl⟩

/-- A scalar expression, and what is done with its value. -/
theorem lowerExpr_consumed {e : Expr} (h : e.UsedAs r (.base m)) (hm : m.isScalar = true)
    (hw : e.Written) (hs : e.isScalar = true) (hf : Consumes r m act f) :
    Does r (fun a b => (e.value? a).map (act a) = some b) (lowerExpr c e >>= f) := by
  obtain ⟨heval, hfits⟩ := lowerExpr_value hr hc h hm hw hs
  exact heval.consumed hf hfits

theorem lowerAssign_does {target value : Expr} {noted : Option Ty} (pos : Pos)
    (h : AssignTyped r target value noted) (hs : isScalarAssign target value = true)
    (hw : Expr.AllWritten (target.parts ++ value.parts)) :
    Does r (fun a b => assign? target value a = some b) (lowerAssign c pos target value) := by
  obtain ⟨id, sym, m, rfl, hsym, hstored, htype, hm, hvalue, hsv⟩ := h.scalar hr hs
  have hwv := (Expr.allWritten_append.1 hw).2 value (Expr.mem_parts hvalue.typed.not_missing)
  have hcode : lowerAssign c pos (.ident id) value =
      lowerExpr c value >>= fun o => store c id.pos sym o :=
    bind_congr fun o => ofExcept_bind (Ident.resolved_ok hsym) _
  rw [hcode]
  have hstore := store_consumes hr hc hstored htype hm id.pos
  refine (lowerExpr_consumed hr hc hvalue hm hwv hsv hstore).congr fun a b => ?_
  rw [assign?_ident hsym]

omit hr hc in
/-- A call of a builtin function with one argument. -/
theorem lowerCall_builtin {id : Ident} {sym : Symbol} {result : Ty} {params : List Ty}
    (hsym : id.symbol = some sym) (htype : sym.type = .func result params)
    (hb : sym.builtin = true) {code : Operand → Emit Operand}
    (hcode : ∀ o, builtin? sym.name [o] = some (code o)) (pos : Pos) (e : Expr) :
    lowerCall pos (some id) (lowerArgs c [e]) = lowerExpr c e >>= code := by
  have hargs : lowerArgs c [e] = lowerExpr c e >>= fun o => pure [o] := by
    rw [lowerArgs]
    refine bind_congr fun o => ?_
    rw [lowerArgs, pure_bind]
  unfold lowerCall
  rw [ofExcept_bind (Ident.callee_ok hsym htype pos), hargs, bind_assoc]
  refine bind_congr fun o => ?_
  rw [pure_bind]
  dsimp only
  rw [if_pos hb, hcode o]

theorem lowerCall_does {func : Option Ident} {args : List Expr} {note : Note} (pos : Pos)
    (h : (Expr.call pos func args note).Typed r) (hs : isScalarPrint func args = true)
    (hw : (Expr.call pos func args note).Written) :
    Does r (fun a b => print? func args a = some b) (lowerCall pos func (lowerArgs c args)) := by
  obtain ⟨id, sym, m, e, rfl, rfl, hsym, hbuiltin, hname, htype, -, hused, hse, hprint⟩ :=
    h.scalarPrint hs
  have hwe : e.Written := by
    cases hw with
    | call operands => exact operands e List.mem_cons_self
  rcases hprint with ⟨hid, rfl⟩ | ⟨hid, rfl⟩
  · rw [lowerCall_builtin hsym htype hbuiltin fun o => by
      rw [hname, hid]; exact congrArg some (pure_bind o _)]
    refine (lowerExpr_consumed hr hc hused rfl hwe hse print_int_consumes).congr fun a b => ?_
    rw [print?_int hid]
  · rw [lowerCall_builtin hsym htype hbuiltin fun o => by
      rw [hname, hid]; exact congrArg some (pure_bind o _)]
    refine (lowerExpr_consumed hr hc hused rfl hwe hse print_bool_consumes).congr fun a b => ?_
    rw [print?_bool hid]

theorem lowerVars_does {vars : List Node} (ht : ∀ v ∈ vars, v.TypedVar r)
    (hs : vars.all Node.isScalarVar = true) (hw : Expr.AllWritten (vars.flatMap Node.exprs)) :
    Does r (fun a b => initialize? vars a = some b) (lowerVars c vars) := by
  induction vars with
  | nil =>
      rw [lowerVars]
      exact (Does.skip ()).congr fun a b => by rw [initialize?, Option.some.injEq]
  | cons v rest ih =>
      obtain ⟨htv, htrest⟩ := List.forall_mem_cons.1 ht
      rw [List.all_cons, Bool.and_eq_true_iff] at hs
      obtain ⟨hwv, hwrest⟩ := Expr.allWritten_append.1 hw
      have hrest := ih htrest hs.2 hwrest
      unfold Node.TypedVar at htv
      split at htv
      · exact hrest
      · next pos id value noted =>
          rw [lowerVars]
          refine ((lowerAssign_does hr hc pos htv hs.1 hwv).seq hrest).congr fun a b => ?_
          exact Option.bind_eq_some_iff.symm
      · exact htv.elim

/-! ## Statements -/

theorem lowerLoopCond_tests {cond inserted : Expr} (h : LoopCondTyped r cond inserted)
    (hs : cond.isScalarPart = true) (hs' : inserted.isScalarPart = true)
    (hw : Expr.AllWritten cond.parts) (hw' : Expr.AllWritten inserted.parts) :
    Tests r (loopCond cond inserted).holds? (lowerLoopCond c cond inserted) := by
  unfold lowerLoopCond loopCond
  rcases h with ⟨hcond, rfl⟩ | ⟨rfl, hins⟩
  · have hm := hcond.typed.not_missing
    rw [Expr.isScalarPart, hm, Bool.false_or] at hs
    rw [hm]
    exact lowerExpr_tests hr hc hcond (hw _ (Expr.mem_parts hm)) hs
  · have hm := hins.typed.not_missing
    rw [Expr.isScalarPart, hm, Bool.false_or] at hs'
    rw [hm]
    exact lowerExpr_tests hr hc hins (hw' _ (Expr.mem_parts hm)) hs'

omit hr hc in
/-- A part of a loop that may be absent. -/
theorem lowerPart_does {part : Stmt} (ht : part = .missing ∨ part.Typed r)
    (hs : (part.isMissing || part.isScalar) = true)
    (h : part.Typed r → part.isScalar = true → Does r part.exec (lowerStmt c part)) :
    Does r part.exec (lowerPart c part) := by
  unfold lowerPart
  cases hm : part.isMissing with
  | true =>
      rw [Stmt.isMissing_iff.1 hm]
      exact .skip ()
  | false =>
      rcases ht with rfl | ht
      · cases hm
      · rw [hm, Bool.false_or] at hs
        exact h ht hs

end

mutual

/-- The code of a statement does what the statement does. -/
theorem lowerStmt_does {c : Context} {r : Reach} (hr : r.Scalar) (hc : c.function = none) :
    ∀ {stmt : Stmt}, stmt.Typed r → stmt.isScalar = true → Expr.AllWritten stmt.exprs →
      Does r stmt.exec (lowerStmt c stmt)
  | .missing, _, hs, _ | .arrayDecl _ _ _ _, _, hs, _ | .funcDecl _ _ _ _ _ _ _, _, hs, _
  | .ret _ _, _, hs, _ => by cases hs
  | .call pos func args note, h, hs, hw => by
      rw [lowerStmt]
      exact (lowerCall_does hr hc pos h hs (hw _ List.mem_cons_self)).forget
  | .assign pos _ _ _, h, hs, hw => by
      rw [lowerStmt]
      exact lowerAssign_does hr hc pos h hs hw
  | .varDecl _ _ _, h, hs, hw => by
      rw [lowerStmt]
      exact lowerVars_does hr hc h hs hw
  | .ifElse _ cond yes no, ⟨ht, htyes, htno⟩, hs, hw => by
      simp only [Stmt.isScalar, Bool.and_eq_true_iff] at hs
      simp only [Stmt.exprs, Expr.allWritten_append] at hw
      have hwc := hw.1.1 cond (Expr.mem_parts ht.typed.not_missing)
      rw [lowerStmt]
      exact lowerIf_does (lowerExpr_tests hr hc ht hwc hs.1.1)
        (lowerBlock_does hr hc htyes hs.1.2 hw.1.2) (lowerBlock_does hr hc htno hs.2 hw.2)
  | .whileLoop _ cond body, ⟨ht, htbody⟩, hs, hw => by
      simp only [Stmt.isScalar, Bool.and_eq_true_iff] at hs
      simp only [Stmt.exprs, Expr.allWritten_append] at hw
      have hwc := hw.1 cond (Expr.mem_parts ht.typed.not_missing)
      have hloop := lowerLoop_does (lowerBlock_does hr hc htbody hs.2 hw.2) (.skip ())
        (lowerExpr_tests hr hc ht hwc hs.1)
      rw [Machine.andThen_skip] at hloop
      rw [lowerStmt]
      exact hloop
  | .forLoop _ init cond inserted step body, ⟨htinit, htcond, htstep, htbody⟩, hs, hw => by
      simp only [Stmt.isScalar, Bool.and_eq_true_iff] at hs
      simp only [Stmt.exprs, Expr.allWritten_append] at hw
      obtain ⟨⟨⟨⟨hsinit, hscond⟩, hsinserted⟩, hsstep⟩, hsbody⟩ := hs
      obtain ⟨⟨⟨⟨hwinit, hwcond⟩, hwinserted⟩, hwstep⟩, hwbody⟩ := hw
      have hinit := lowerPart_does htinit hsinit fun ht hs => lowerStmt_does hr hc ht hs hwinit
      have hstep := lowerPart_does htstep hsstep fun ht hs => lowerStmt_does hr hc ht hs hwstep
      have hbody := lowerBlock_does hr hc htbody hsbody hwbody
      rw [lowerStmt_forLoop]
      exact hinit.seq (lowerLoop_does hbody hstep
        (lowerLoopCond_tests hr hc htcond hscond hsinserted hwcond hwinserted))
  | .block _, h, hs, hw => by
      rw [lowerStmt]
      exact lowerBlock_does hr hc h hs hw

theorem lowerBlock_does {c : Context} {r : Reach} (hr : r.Scalar) (hc : c.function = none) :
    ∀ {b : Block}, b.Typed r → b.isScalar = true → Expr.AllWritten b.exprs →
      Does r b.exec (lowerBlock c b)
  | .missing, _, _, _ => by
      rw [lowerBlock]
      exact .skip ()
  | .of _ _, h, hs, hw => by
      rw [lowerBlock]
      exact lowerStmts_does hr hc h hs hw

theorem lowerStmts_does {c : Context} {r : Reach} (hr : r.Scalar) (hc : c.function = none) :
    ∀ {stmts : List Stmt}, Stmt.AllTyped r stmts → Stmt.allScalar stmts = true →
      Expr.AllWritten (Stmt.exprsIn stmts) → Does r (Stmt.execAll stmts) (lowerStmts c stmts)
  | [], _, _, _ => by
      rw [lowerStmts]
      exact .skip ()
  | _ :: _, ⟨ht, htrest⟩, hs, hw => by
      obtain ⟨hss, hsrest⟩ := Bool.and_eq_true_iff.1 hs
      obtain ⟨hws, hwrest⟩ := Expr.allWritten_append.1 hw
      rw [lowerStmts]
      exact (lowerStmt_does hr hc ht hss hws).seq (lowerStmts_does hr hc htrest hsrest hwrest)

end

/-! ## Modules -/

/-- The zero of a type. -/
def Datum.zero? : IrType → Option Datum
  | .i32 => some (.i32 0)
  | .i8 => some (.i8 0)
  | .i1 => some (.i1 false)
  | _ => none

/-- Nothing has happened yet, and every global variable is zero. -/
def State.initial (globals : List Symbol) : State where
  regs := fun _ => none
  memory := fun name =>
    (Symbol.find? name globals).bind fun sym => Datum.zero? (.ofTy sym.type)
  output := []

/-- A value as an integer, if it is one. -/
def Datum.toInt? : Datum → Option Int
  | i32 v => some v.toInt
  | i8 v => some v.toNat
  | i1 b => some (if b then 1 else 0)
  | ptr _ => none

/-- A global variable with its value. -/
def State.final? (s : State) (sym : Symbol) : Option (String × Int) := do
  let d ← s.memory sym.name
  let n ← d.toInt?
  return (sym.name, n)

/-- What can be seen of a state. -/
def State.observation? (globals : List Symbol) (s : State) : Option Observation := do
  let finals ← globals.mapM s.final?
  return ⟨s.output, finals⟩

/-- The code of the initializer, if there is one. -/
def Module.initializer? (m : Module) : Option (List Instr) :=
  (m.definitions.find? (·.origin == .initializer)).map (·.code)

/-- The initializer, run from its entry on variables that are all zero, ends and leaves something to
be seen. A module without one does nothing. -/
def Module.Initializes (m : Module) (seen : Observation) : Prop :=
  match m.initializer? with
  | none => (State.initial m.globals).observation? m.globals = some seen
  | some body => ∃ code t, machine.after .entry body = some code ∧
      machine.Halts body code (.initial m.globals) t ∧ t.observation? m.globals = some seen

section

variable {r : Reach} (hr : r.Scalar)

theorem encode_toInt? {k : Base} {v : BitVec 32} (hk : k.isScalar = true) (hv : k.Fits 8 v) :
    (encode k v).toInt? = some v.toInt := by
  cases k with
  | int => rfl
  | bool => rcases hv with rfl | rfl <;> rfl
  | void | char | float | unnamed _ => cases hk

include hr

theorem Stores.initial : Stores r .initial (.initial r.globals) := by
  refine ⟨.initial hr, fun sym k hs hk => ?_, rfl⟩
  have hmem := hr.stored hs
  have hscalar := hr.types sym hmem
  show (Symbol.find? sym.name r.globals).bind _ = _
  rw [Symbol.find?_of_mem hr.static.names hmem, Option.bind_some, hk]
  rw [hk] at hscalar
  cases k with
  | int => rfl
  | bool => rfl
  | void | char | float | unnamed _ => cases hscalar

theorem Stores.final? {a : Store} {s : State} (h : Stores r a s) {sym : Symbol}
    (hs : sym ∈ r.globals) : s.final? sym = some (sym.name, (a.values sym.name).toInt) := by
  have hstored := hr.stored_of_mem hs
  obtain ⟨k, hk, hscalar⟩ := Ty.isScalar_iff.1 (hr.types sym hs)
  unfold State.final?
  rw [h.memory sym k hstored hk]
  show ((encode k (a.values sym.name)).toInt?.bind fun n => some (sym.name, n)) = _
  rw [encode_toInt? hscalar (h.fits sym k hstored hk)]
  rfl

theorem Stores.observation? {a : Store} {s : State} (h : Stores r a s) :
    s.observation? r.globals = some (a.observe r.globals) := by
  have hfinals : ∀ ids : List Symbol, (∀ sym ∈ ids, sym ∈ r.globals) →
      ids.mapM s.final? = some (ids.map fun sym => (sym.name, (a.values sym.name).toInt)) := by
    intro ids hids
    induction ids with
    | nil => rfl
    | cons sym rest ih =>
        obtain ⟨hsym, hrest⟩ := List.forall_mem_cons.1 hids
        rw [List.mapM_cons, h.final? hr hsym, ih hrest]
        rfl
  unfold State.observation?
  rw [hfinals r.globals fun _ hs => hs, h.output]
  rfl

/-- The initializer of a scalar program does what the program does. -/
theorem initializer_halts {act : Store → Store → Prop} {n n' : Nat} {code : List Instr}
    (h : machine.Realises Label.number (Stores r) act n n' code) (seen : Observation) :
    (∃ rest t, machine.after .entry (.label .entry :: (code ++ [Instr.ret none])) = some rest ∧
      machine.Halts (.label .entry :: (code ++ [Instr.ret none])) rest (.initial r.globals) t ∧
        t.observation? r.globals = some seen) ↔
      ∃ b, act .initial b ∧ seen = b.observe r.globals := by
  have hentry : machine.after .entry (.label .entry :: (code ++ [Instr.ret none])) =
      some (code ++ [Instr.ret none]) := rfl
  have hpre : machine.Below Label.number n [.label .entry] := by
    intro i hi l hl
    obtain rfl := List.mem_singleton.1 hi
    cases hl
    exact Nat.zero_le n
  have himp := h.implements _ [.label .entry] [.ret none] rfl hpre
  have hret : ∀ a s, Stores r a s → machine.effect (.ret none) s = .halt := fun _ _ _ => rfl
  constructor
  · rintro ⟨rest, t, hrest, ht, hseen⟩
    cases hentry.symm.trans hrest
    obtain ⟨b, hb, hstores⟩ := himp.of_ends hret (Stores.initial hr) ht
    exact ⟨b, hb, Option.some.inj (hseen.symm.trans (hstores.observation? hr))⟩
  · rintro ⟨b, hb, rfl⟩
    obtain ⟨t, ht, hstores⟩ := himp.ends hret (Stores.initial hr) hb
    exact ⟨_, t, hentry, ht, hstores.observation? hr⟩

end

/-- The module of a scalar program does what the program does. -/
theorem Module.initializes_iff {a : Analysis} (h : a.Scalar) (opts : Options) :
    ∃ mod, Module.ofAnalysis a opts = .ok mod ∧ ∀ seen, mod.Initializes seen ↔
      ∃ store, a.program.exec .initial store ∧ seen = store.observe a.globals := by
  obtain ⟨out, hout, hopen, hreal⟩ :=
    lowerBlock_does (c := ⟨opts.fold, none⟩) h.reach rfl h.typed h.scalar h.written .start rfl
  have hfunctions := Block.functions_scalar h.scalar
  unfold Module.ofAnalysis
  rw [hfunctions]
  rcases h.needsInitializer with hneeds | ⟨hneeds, hexec⟩
  · have hcode : lowerInitializer opts.fold a.program .start = .ok ⟨(),
        { out.cursor with closed := true }, .label .entry :: (out.code ++ [Instr.ret none])⟩ := by
      unfold lowerInitializer
      refine Eq.trans (bind_ok rfl (bind_ok hout (close_open hopen _))) ?_
      rfl
    refine ⟨⟨opts.name, a.globals, out.cursor.used,
      [⟨.initializer, .label .entry :: (out.code ++ [Instr.ret none])⟩]⟩, ?_, fun seen => ?_⟩
    · rw [hneeds]
      show (lowerInitializer opts.fold a.program .start >>= _) = _
      rw [hcode]
      show (Ty.requireAll (a.globals.map (·.type)) >>= _) = _
      rw [h.reach.static.requireAll_ok]
      rfl
    · exact initializer_halts h.reach hreal seen
  · refine ⟨⟨opts.name, a.globals, [], []⟩, ?_, fun seen => ?_⟩
    · rw [hneeds]
      show (Ty.requireAll (a.globals.map (·.type)) >>= _) = _
      rw [h.reach.static.requireAll_ok]
      rfl
    · have hobserve := (Stores.initial h.reach).observation? h.reach
      rw [hexec]
      show (State.initial a.globals).observation? a.globals = some seen ↔ _
      constructor
      · intro hseen
        exact ⟨_, rfl, Option.some.inj (hseen.symm.trans hobserve)⟩
      · rintro ⟨store, rfl, rfl⟩
        exact hobserve

end SmallC.Llvm
