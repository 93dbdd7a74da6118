import SmallC.Proofs.CilExec
import SmallC.Proofs.LlvmExec

/-!
# The two targets agree

The initializers of the two targets have little in common: one leaves values on
a stack and falls through its labels, the other names every value and leaves
every block by a branch, and each of them folds constants or does not. Both do
what the program does. So they end on the same programs, and what can be seen
then is the same.
-/

namespace SmallC

theorem Cil.Assembly.Initializes.unique {asm : Cil.Assembly} {seen seen' : Observation}
    (h : asm.Initializes seen) (h' : asm.Initializes seen') : seen = seen' := by
  unfold Cil.Assembly.Initializes at h h'
  cases hi : asm.initializer? with
  | none =>
      rw [hi] at h h'
      exact h.trans h'.symm
  | some body =>
      rw [hi] at h h'
      obtain ⟨t, ht, rfl⟩ := h
      obtain ⟨t', ht', rfl⟩ := h'
      rw [ht.unique ht']

/-- Runs the type initializer for a number of steps at most. -/
def Cil.Assembly.initialize? (asm : Cil.Assembly) (steps : Nat) : Option Observation := do
  let body ← asm.initializer?
  let t ← Cil.machine.runFor body steps body ⟨[], .initial⟩
  return t.store.observe asm.fields

theorem Cil.Assembly.Initializes.of_initialize? {asm : Cil.Assembly} {steps : Nat}
    {seen : Observation} (h : asm.initialize? steps = some seen) : asm.Initializes seen := by
  obtain ⟨body, hbody, h⟩ := Option.bind_eq_some_iff.1 h
  obtain ⟨t, ht, h⟩ := Option.bind_eq_some_iff.1 h
  unfold Cil.Assembly.Initializes
  rw [hbody]
  exact ⟨t, .of_runFor ht, (Option.some.inj h).symm⟩

/-- The two initializers of a scalar program end both or neither, and if they end, then the same
values have been printed and every global has the same value. -/
theorem Analysis.targets_agree {text : String} {b : Block} {a : Analysis}
    (hb : Block.parse text = .ok b) (ha : Analysis.ofProgram b = .ok a) (hs : a.isScalar = true)
    (opts opts' : Options) :
    ∃ asm mod, Cil.Assembly.ofAnalysis a opts = .ok asm ∧
      Llvm.Module.ofAnalysis a opts' = .ok mod ∧
      ((∃ seen, asm.Initializes seen) ↔ ∃ seen, mod.Initializes seen) ∧
      ∀ seen seen', asm.Initializes seen → mod.Initializes seen' → seen = seen' := by
  have hscalar := Analysis.scalar_of_parse hb ha hs
  obtain ⟨asm, hcil, hasm⟩ := Cil.Assembly.initializes_iff hscalar opts
  obtain ⟨mod, hllvm, hmod⟩ := Llvm.Module.initializes_iff hscalar opts'
  have hagree : ∀ seen, asm.Initializes seen ↔ mod.Initializes seen := fun seen =>
    (hasm seen).trans (hmod seen).symm
  refine ⟨asm, mod, hcil, hllvm, exists_congr hagree, fun seen seen' h h' => ?_⟩
  exact h.unique ((hagree seen').2 h')

/-- A program that counts down, prints what it adds up, and prints whether it went past a bound. -/
def countdown : String :=
  "(var int (= i 3) sum) (var bool big) " ++
  "(while (> i 0) (block (= sum (+ sum i)) (= i (- i 1)) (call print_int (* 2 sum)))) " ++
  "(if (> sum 5) (block (= big true))) (call print_bool big)"

theorem Analysis.targets_agree_countdown :
    ∃ b a asm mod, Block.parse countdown = .ok b ∧ Analysis.ofProgram b = .ok a ∧
      Cil.Assembly.ofAnalysis a ⟨false, "program"⟩ = .ok asm ∧
      Llvm.Module.ofAnalysis a ⟨true, "program"⟩ = .ok mod ∧
      mod.Initializes ⟨[.int 6, .int 10, .int 12, .bool true],
        [("i", 0), ("sum", 6), ("big", 1)]⟩ := by
  have htext : ((Analysis.ofText? countdown).any fun a => a.isScalar &&
      (Cil.Assembly.ofAnalysis a ⟨false, "program"⟩).toOption.any fun asm =>
        asm.initialize? 200 = some ⟨[.int 6, .int 10, .int 12, .bool true],
          [("i", 0), ("sum", 6), ("big", 1)]⟩) = true := by
    decide +kernel
  obtain ⟨a, ha, hrest⟩ := (Option.any_eq_true _ _).1 htext
  obtain ⟨b, hb, ha⟩ := Analysis.ofText?_eq_some ha
  obtain ⟨hs, hrun⟩ := Bool.and_eq_true_iff.1 hrest
  obtain ⟨asm', hasm', hrun⟩ := (Option.any_eq_true _ _).1 hrun
  obtain ⟨asm, mod, hcil, hllvm, hends, hsame⟩ :=
    Analysis.targets_agree hb ha hs ⟨false, "program"⟩ ⟨true, "program"⟩
  rw [hcil] at hasm'
  obtain rfl : asm = asm' := Option.some.inj hasm'
  have hinit := Cil.Assembly.Initializes.of_initialize? (of_decide_eq_true hrun)
  obtain ⟨seen, hseen⟩ := hends.1 ⟨_, hinit⟩
  refine ⟨b, a, asm, mod, hb, ha, hcil, hllvm, ?_⟩
  rw [hsame _ _ hinit hseen]
  exact hseen

end SmallC
