import SmallC.Compilation
import SmallC.Proofs.CheckTyping
import SmallC.Proofs.CilTotal
import SmallC.Proofs.LlvmTotal

/-!
# Every checked program can be lowered

The check and the two lowerings are written apart from each other, and what ties
them together is the notion of a typed tree: the check establishes it, and
lowering needs nothing else. Every fault that lowering can report is a bug of
the compiler, so this file says that the compiler has none of that sort.

The lines at the top of a listing are filled in from a template. A listing does
without them if the template cannot be filled in, and that does not happen
either.
-/

namespace SmallC

theorem Cil.header_renders (name : String) :
    Except.Succeeds (Cil.header.render [("Name", name), ("Class", Cil.className)]) := ⟨_, rfl⟩

theorem Llvm.header_renders (name : String) :
    Except.Succeeds (Llvm.header.render [("Name", name)]) := ⟨_, rfl⟩

/-- A program that passes the check is lowered for both targets, whatever the options are, and the
lines at the top of its listings are there. -/
theorem Analysis.lower_succeeds {b : Block} {a : Analysis} (h : Analysis.ofProgram b = .ok a)
    (opts : Options) :
    (∃ assembly, Cil.Assembly.ofAnalysis a opts = .ok assembly ∧
      Target.cil.lower a opts = .ok assembly.listing ∧
      ∃ text, Cil.header.render [("Name", assembly.name), ("Class", Cil.className)] = .ok text) ∧
    (∃ module, Llvm.Module.ofAnalysis a opts = .ok module ∧
      Target.llvm.lower a opts = .ok module.listing ∧
      ∃ text, Llvm.header.render [("Name", module.name)] = .ok text) := by
  obtain ⟨htyped, -, hstatic⟩ := Analysis.ofProgram_checked h
  obtain ⟨pos, stmts, t, stmts', -, -, rfl⟩ := Analysis.ofProgram_ok h
  obtain ⟨assembly, hcil⟩ := Cil.Assembly.ofAnalysis_succeeds rfl htyped hstatic opts
  obtain ⟨module, hllvm⟩ := Llvm.Module.ofAnalysis_succeeds rfl htyped hstatic opts
  refine ⟨⟨assembly, hcil, ?_, Cil.header_renders _⟩, ⟨module, hllvm, ?_, Llvm.header_renders _⟩⟩
  · unfold Target.lower
    rw [hcil]
    rfl
  · unfold Target.lower
    rw [hllvm]
    rfl

theorem Analysis.lower_succeeds_shadowing :
    ∃ b a assembly,
      Block.parse "(var int x) (func int x2 ((int[] x)) (block (var float y) (return (index x y))))" =
        .ok b ∧
      Analysis.ofProgram b = .ok a ∧
      Cil.Assembly.ofAnalysis a ⟨true, "program"⟩ = .ok assembly := by
  obtain ⟨b, a, hb, ha⟩ := Analysis.ofText?_isSome
    "(var int x) (func int x2 ((int[] x)) (block (var float y) (return (index x y))))"
    (by decide +kernel)
  obtain ⟨⟨assembly, hcil, -⟩, -⟩ := Analysis.lower_succeeds ha ⟨true, "program"⟩
  exact ⟨b, a, assembly, hb, ha, hcil⟩

end SmallC
