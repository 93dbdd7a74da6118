import SmallC.Source.Pos
import SmallC.Source.Op
import SmallC.Ty.Basic
import SmallC.Ty.Conversion
import SmallC.Decimal.Nearest
import SmallC.Decimal.Logarithm
import SmallC.Value
import SmallC.Symbol.Table
import SmallC.Tree
import SmallC.Tree.Walk
import SmallC.Tree.Edit
import SmallC.Form.Program
import SmallC.Literal
import SmallC.Check.Stmt
import SmallC.Fold
import SmallC.Fresh
import SmallC.Text.Template
import SmallC.Listing
import SmallC.Cil.Assembly
import SmallC.Llvm.Module
import SmallC.Compilation
import SmallC.Golden.Case
import SmallC.Golden.Verdict
import SmallC.Proofs.CheckSteps
import SmallC.Proofs.TableChanges
import SmallC.Proofs.TableFrames
import SmallC.Proofs.Reach
import SmallC.Proofs.TableSound
import SmallC.Proofs.TableGrowth
import SmallC.Proofs.Typing
import SmallC.Proofs.CheckTyping
import SmallC.Proofs.TypedLowering
import SmallC.Proofs.CilSteps
import SmallC.Proofs.CilTotal
import SmallC.Proofs.LlvmTotal
import SmallC.Proofs.LowerTotal
import SmallC.Proofs.Written
import SmallC.Proofs.Meaning
import SmallC.Proofs.FoldMeaning
import SmallC.Proofs.Machine
import SmallC.Proofs.Exec
import SmallC.Proofs.CilMachine
import SmallC.Proofs.CilFold
import SmallC.Proofs.CilExec
import SmallC.Proofs.LlvmMachine
import SmallC.Proofs.LlvmExpr
import SmallC.Proofs.LlvmExec
import SmallC.Proofs.TargetsAgree
import SmallC.Proofs.LlvmPlain
import SmallC.Proofs.LlvmFold
import SmallC.Proofs.FreshNames
import SmallC.Proofs.LlvmBlocks
import SmallC.Proofs.Kinds
import SmallC.Proofs.LlvmOperands
import SmallC.Proofs.StackKinds
import SmallC.Proofs.CilStack
import SmallC.Proofs.CilDepth
import SmallC.Proofs.Whole
import SmallC.Proofs.CheckFaults
import SmallC.Proofs.Occurrences
import SmallC.Proofs.ScopeMirror
import SmallC.Proofs.TableFollows
import SmallC.Proofs.CheckTrace
import SmallC.Proofs.Lexical
import SmallC.Proofs.Storage
import SmallC.Proofs.TableSessions
import SmallC.Proofs.ProgramNames
import SmallC.Proofs.ModuleNames
import SmallC.Proofs.CilReferences
import SmallC.Proofs.LlvmNames
import SmallC.Proofs.CilFlow
import SmallC.Proofs.LlvmReferences
import SmallC.Proofs.Erasure
import SmallC.Proofs.ErasureLowering
import SmallC.Proofs.ErasureTargets
import SmallC.Proofs.LoopUnfolding
import SmallC.Proofs.TableViews
import SmallC.Proofs.CheckAlike
import SmallC.Proofs.ForIsWhile
import SmallC.Proofs.CilReplaced
import SmallC.Proofs.LlvmKept
import SmallC.Proofs.Balance
import SmallC.Proofs.Reprinting
import SmallC.Proofs.SourceOrder
import SmallC.Proofs.ConstantRange
import SmallC.Proofs.CallArguments
import SmallC.Proofs.Shadowing
import SmallC.Proofs.DeclaredNames
import SmallC.Proofs.FaultPlaces
import SmallC.Proofs.LiteralGrammar
import SmallC.Proofs.LlvmUnreachable
import SmallC.Proofs.DoubleRounding
import SmallC.Proofs.Logarithm
import SmallC.Proofs.LineNumbers
import SmallC.Proofs.CheckedOnce
import SmallC.Proofs.Excerpts
import SmallC.Proofs.DocumentTests
import SmallC.Proofs.TypeTexts
import SmallC.Proofs.RefusedConversions
