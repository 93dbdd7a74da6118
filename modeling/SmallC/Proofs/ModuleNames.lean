import Mathlib.Data.List.Nodup
import SmallC.Proofs.LlvmTotal
import SmallC.Proofs.ProgramNames

/-!
# The global names of a module

A module gives names to what the builtin functions are made of, to the variables
and functions of the program, and to the initializer. As things these are all
different, because a program cannot take a name twice. As texts they need not be.
A name of the program that the C library has taken gets a suffix, and nothing
keeps the program from having the name with the suffix too; the name of the
initializer is an ordinary name and nothing keeps it free. `Global.Clash` lists
these two ways, and they are the only ones.
-/

namespace SmallC

namespace Llvm

/-- The global name that a definition introduces. -/
def Definition.global (d : Definition) : Global :=
  match d.origin with
  | .function f => .user f.name
  | .initializer => .initializer

/-- The global names that a module introduces, in the order in which it does so. -/
def Module.introduced (m : Module) : List Global :=
  m.support.map Global.support ++ m.globals.map (fun id => Global.user id.name) ++
    m.definitions.map Definition.global

/-! ## Names as texts -/

theorem Support.mem_all (s : Support) : s ∈ Support.all := by
  cases s <;> decide

theorem Support.name_inj {s s' : Support} (h : s.name = s'.name) : s = s' :=
  List.inj_on_of_nodup_map (f := Support.name) (l := Support.all) (by decide) s.mem_all s'.mem_all h

/-- What is written as a given text after the sign of a global name: a name that the C library has
taken, with its suffix, or a name as it is. -/
theorem Global.text_user_eq {name text : String} (h : (Global.user name).text = "@" ++ text) :
    (∃ s ∈ Support.functions, s.name = name ∧ text = name ++ ".user") ∨
      (text = name ∧ ∀ s ∈ Support.functions, s.name ≠ name) := by
  rw [Global.text] at h
  split at h
  · next hany =>
      obtain ⟨s, hs, hname⟩ := List.any_eq_true.1 hany
      rw [String.append_assoc, String.append_right_inj] at h
      exact .inl ⟨s, hs, beq_iff_eq.1 hname, h.symm⟩
  · next hany =>
      rw [String.append_right_inj] at h
      exact .inr ⟨h.symm, fun s hs hname => hany (List.any_eq_true.2 ⟨s, hs, beq_iff_eq.2 hname⟩)⟩

/-- Two different things with the same global name: a name of the program with the suffix that
another one gets, and the name of the initializer. -/
inductive Global.Clash : Global → Global → Prop where
  | suffix {s : Support} (function : s ∈ Support.functions) :
      Clash (.user s.name) (.user (s.name ++ ".user"))
  | initializer : Clash (.user "minic.init") .initializer

theorem Global.Clash.text_eq {x y : Global} (h : x.Clash y) : x.text = y.text ∧ x ≠ y := by
  cases h with
  | initializer => exact ⟨by decide, by decide⟩
  | @suffix s function =>
      have hall : ∀ s ∈ Support.functions, (Global.user s.name).text =
          (Global.user (s.name ++ ".user")).text ∧
          Global.user s.name ≠ .user (s.name ++ ".user") := by decide
      exact hall s function

/-- A name that the program can have taken. -/
def Global.IsName : Global → Prop
  | .user name => Form.isLiteral name = false
  | _ => True

theorem Global.user_text_ne_support {name : String} (hname : Form.isLiteral name = false)
    (s : Support) : (Global.user name).text ≠ (Global.support s).text := by
  intro h
  rcases Global.text_user_eq h with ⟨s', hs', rfl, heq⟩ | ⟨rfl, hfree⟩
  · have hnone : ∀ s' ∈ Support.functions, ∀ s ∈ Support.all, s.name ≠ s'.name ++ ".user" := by
      decide
    exact hnone s' hs' s s.mem_all heq
  · have hall : ∀ s ∈ Support.all, Form.isLiteral s.name = false → s ∈ Support.functions := by
      decide
    exact hfree s (hall s s.mem_all hname) rfl

theorem Global.eq_of_text_initializer {name : String}
    (h : (Global.user name).text = Global.initializer.text) : name = "minic.init" := by
  have h : (Global.user name).text = "@" ++ "minic.init" := h
  rcases Global.text_user_eq h with ⟨s, hs, rfl, heq⟩ | ⟨rfl, -⟩
  · have hnone : ∀ s ∈ Support.functions, "minic.init" ≠ s.name ++ ".user" := by decide
    exact absurd heq (hnone s hs)
  · rfl

theorem Global.user_clash {m n : String} (h : (Global.user m).text = (Global.user n).text)
    (hne : m ≠ n) : (Global.user m).Clash (.user n) ∨ (Global.user n).Clash (.user m) := by
  obtain ⟨text, htext⟩ : ∃ text, (Global.user n).text = "@" ++ text := by
    rw [Global.text]
    split
    · exact ⟨n ++ ".user", String.append_assoc ..⟩
    · exact ⟨n, rfl⟩
  rcases Global.text_user_eq (h.trans htext) with ⟨s, hs, rfl, hm⟩ | ⟨rfl, hm⟩ <;>
    rcases Global.text_user_eq htext with ⟨s', hs', rfl, hn⟩ | ⟨hn, hfree⟩
  · rw [hm, String.append_left_inj] at hn
    exact absurd hn hne
  · rw [← hn, hm]
    exact .inl (.suffix hs)
  · rw [hn]
    exact .inr (.suffix hs')
  · exact absurd hn hne

/-- The only ways in which two things can have the same global name. -/
theorem Global.clash_of_text_eq {x y : Global} (hx : x.IsName) (hy : y.IsName)
    (h : x.text = y.text) (hne : x ≠ y) : x.Clash y ∨ y.Clash x := by
  cases x with
  | user m =>
      cases y with
      | user n => exact Global.user_clash h fun hmn => hne (congrArg _ hmn)
      | support s => exact absurd h (Global.user_text_ne_support hx s)
      | initializer =>
          rw [Global.eq_of_text_initializer h]
          exact .inl .initializer
  | support s =>
      cases y with
      | user n => exact absurd h.symm (Global.user_text_ne_support hy s)
      | support s' =>
          refine absurd (congrArg Global.support (Support.name_inj ?_)) hne
          exact (String.append_right_inj "@").1 h
      | initializer =>
          have hnone : ∀ s ∈ Support.all, (Global.support s).text ≠ Global.initializer.text := by
            decide
          exact absurd h (hnone s s.mem_all)
  | initializer =>
      cases y with
      | user n =>
          rw [Global.eq_of_text_initializer h.symm]
          exact .inr .initializer
      | support s =>
          have hnone : ∀ s ∈ Support.all, (Global.support s).text ≠ Global.initializer.text := by
            decide
          exact absurd h.symm (hnone s s.mem_all)
      | initializer => exact absurd rfl hne

/-! ## The names of a module -/

theorem FuncDecl.names_of_described {d : FuncDecl} {f : Function} (h : d.described = .ok f) :
    d.names = [f.name] := by
  unfold FuncDecl.names
  rw [FuncDecl.described_ok_iff.1 h]
  rfl

theorem lowerFunctions_globals {fold initialized : Bool} {ds : List FuncDecl} {c c' : Cursor}
    {definitions : List Definition}
    (h : lowerFunctions fold initialized c ds = .ok (c', definitions)) :
    definitions.map Definition.global = (ds.flatMap FuncDecl.names).map .user := by
  induction ds generalizing c definitions with
  | nil =>
      cases h
      rfl
  | cons d rest ih =>
      obtain ⟨f, out, more, hf, -, hmore, rfl⟩ := lowerFunctions_cons_ok h
      rw [List.map_cons, ih hmore, List.flatMap_cons, FuncDecl.names_of_described hf]
      rfl

/-- The names of a module are those of what it needs, those that the program has taken, and perhaps
that of the initializer. -/
theorem Module.introduced_eq {a : Analysis} {opts : Options} {m : Module}
    (h : Module.ofAnalysis a opts = .ok m) :
    ∃ ds last, a.program.functions = .ok ds ∧ (last = [] ∨ last = [Global.initializer]) ∧
      m.introduced = m.support.map .support ++ (namesOf a.globals ds).map .user ++ last := by
  obtain ⟨ds, initialized, c, definitions, hds, -, hfunctions, ⟨-, hfields⟩, hlast⟩ :=
    Module.ofAnalysis_ok h
  have hglobals := lowerFunctions_globals hfunctions
  rcases hlast with ⟨-, out, -, -, hdefinitions⟩ | ⟨-, -, hdefinitions⟩
  · refine ⟨ds, [.initializer], hds, .inr rfl, ?_⟩
    simp [Module.introduced, namesOf, hfields, hdefinitions, hglobals, Definition.global]
  · refine ⟨ds, [], hds, .inl rfl, ?_⟩
    simp [Module.introduced, namesOf, hfields, hdefinitions, hglobals]

theorem Module.support_nodup (m : Module) : (m.support.map Global.support).Nodup := by
  have hall : Support.all.Nodup := by decide
  exact (hall.filter _).map fun _ _ h => Global.support.inj h

/-- As things, what a module introduces is all different. -/
theorem Module.introduced_nodup {a : Analysis} {opts : Options} {m : Module}
    (h : Module.ofAnalysis a opts = .ok m)
    (hnames : ∀ ds, a.program.functions = .ok ds → (namesOf a.globals ds).Nodup) :
    m.introduced.Nodup := by
  obtain ⟨ds, last, hds, hlast, heq⟩ := Module.introduced_eq h
  have huser : ((namesOf a.globals ds).map Global.user).Nodup :=
    (hnames ds hds).map fun _ _ h => Global.user.inj h
  rw [heq]
  refine List.nodup_append.2 ⟨List.nodup_append.2 ⟨m.support_nodup, huser, ?_⟩, ?_, ?_⟩
  · rintro x hx y hy rfl
    obtain ⟨s, -, rfl⟩ := List.mem_map.1 hx
    obtain ⟨name, -, hy⟩ := List.mem_map.1 hy
    cases hy
  · rcases hlast with rfl | rfl <;> simp
  · rintro x hx y hy rfl
    rcases hlast with rfl | rfl
    · cases hy
    · cases List.mem_singleton.1 hy
      simp at hx

theorem Module.introduced_isName {a : Analysis} {opts : Options} {m : Module}
    (h : Module.ofAnalysis a opts = .ok m)
    (hnames : ∀ ds, a.program.functions = .ok ds →
      ∀ name ∈ namesOf a.globals ds, Form.isLiteral name = false) :
    ∀ x ∈ m.introduced, x.IsName := by
  obtain ⟨ds, last, hds, hlast, heq⟩ := Module.introduced_eq h
  intro x hx
  cases x with
  | user name =>
      rw [heq] at hx
      refine hnames ds hds name ?_
      rcases hlast with rfl | rfl <;> simpa using hx
  | support s => trivial
  | initializer => trivial

end Llvm

/-- The global names of a module differ from each other unless the program has taken the name of a
function of the C library and the same name with its suffix, or has taken the name of an initializer
that the module has. -/
theorem Analysis.llvm_globals_distinct_iff {text : String} {b : Block} {a : Analysis}
    (hb : Block.parse text = .ok b) (ha : Analysis.ofProgram b = .ok a) (opts : Options) :
    ∃ module, Llvm.Module.ofAnalysis a opts = .ok module ∧
      ((module.introduced.map Llvm.Global.text).Nodup ↔
        (∀ s ∈ Llvm.Support.functions, .user s.name ∈ module.introduced →
          .user (s.name ++ ".user") ∉ module.introduced) ∧
        (.user "minic.init" ∈ module.introduced → .initializer ∉ module.introduced)) := by
  obtain ⟨htyped, -, hstatic⟩ := Analysis.ofProgram_checked ha
  have hnames := fun ds (hds : a.program.functions = .ok ds) => Analysis.namesOf_nodup hb ha hds
  obtain ⟨pos, stmts, t, stmts', -, -, rfl⟩ := Analysis.ofProgram_ok ha
  obtain ⟨module, hmodule⟩ := Llvm.Module.ofAnalysis_succeeds rfl htyped hstatic opts
  have hnodup := Llvm.Module.introduced_nodup hmodule fun ds hds => (hnames ds hds).1
  have hname := Llvm.Module.introduced_isName hmodule fun ds hds => (hnames ds hds).2
  refine ⟨module, hmodule, ?_⟩
  rw [List.nodup_map_iff_inj_on hnodup]
  constructor
  · intro hinj
    refine ⟨fun s hs hx hy => ?_, fun hx hy => ?_⟩
    · obtain ⟨htext, hne⟩ := (Llvm.Global.Clash.suffix hs).text_eq
      exact hne (hinj _ hx _ hy htext)
    · obtain ⟨htext, hne⟩ := Llvm.Global.Clash.initializer.text_eq
      exact hne (hinj _ hx _ hy htext)
  · rintro ⟨hsuffix, hinit⟩ x hx y hy htext
    by_contra hne
    rcases Llvm.Global.clash_of_text_eq (hname x hx) (hname y hy) htext hne with h | h <;> cases h
    · exact hsuffix _ ‹_› hx hy
    · exact hinit hx hy
    · exact hsuffix _ ‹_› hy hx
    · exact hinit hy hx

/-- The name of a variable that the C library has taken gets a suffix, and so differs from that of
the function that prints. -/
theorem Analysis.llvm_globals_distinct_iff_printf :
    ∃ b a module,
      Block.parse "(var int printf x) (func void main () (block (call print_int printf)))" = .ok b ∧
      Analysis.ofProgram b = .ok a ∧ Llvm.Module.ofAnalysis a ⟨true, "program"⟩ = .ok module ∧
      .user "printf" ∈ module.introduced ∧ .support .printf ∈ module.introduced ∧
      (module.introduced.map Llvm.Global.text).Nodup := by
  have htext : ((Analysis.ofText?
      "(var int printf x) (func void main () (block (call print_int printf)))").any fun a =>
        (Llvm.Module.ofAnalysis a ⟨true, "program"⟩).toOption.any fun m =>
          decide (.user "printf" ∈ m.introduced ∧ .support .printf ∈ m.introduced ∧
            (∀ s ∈ Llvm.Support.functions, .user (s.name ++ ".user") ∉ m.introduced) ∧
            .user "minic.init" ∉ m.introduced)) = true := by
    decide +kernel
  obtain ⟨a, ha, hany⟩ := (Option.any_eq_true _ _).1 htext
  obtain ⟨b, hb, ha⟩ := Analysis.ofText?_eq_some ha
  obtain ⟨module, hmodule, hiff⟩ := Analysis.llvm_globals_distinct_iff hb ha ⟨true, "program"⟩
  rw [hmodule] at hany
  obtain ⟨huser, hsupport, hsuffix, hinit⟩ := of_decide_eq_true hany
  exact ⟨b, a, module, hb, ha, hmodule, huser, hsupport,
    hiff.2 ⟨fun s hs _ => hsuffix s hs, fun h => absurd h hinit⟩⟩

/-- A program with two variables that get the same name, whether constants are folded or not. -/
theorem Analysis.llvm_globals_clash :
    ∃ b a, Block.parse "(var int printf printf.user)" = .ok b ∧ Analysis.ofProgram b = .ok a ∧
      ∀ fold, ∃ module, Llvm.Module.ofAnalysis a ⟨fold, "program"⟩ = .ok module ∧
        (module.globals.map Llvm.globalDecl) =
          ["@printf.user = global i32 0", "@printf.user = global i32 0"] ∧
        ¬ (module.introduced.map Llvm.Global.text).Nodup := by
  have htext : ((Analysis.ofText? "(var int printf printf.user)").any fun a =>
      [true, false].all fun fold =>
        (Llvm.Module.ofAnalysis a ⟨fold, "program"⟩).toOption.any fun m =>
          m.globals.map Llvm.globalDecl ==
              ["@printf.user = global i32 0", "@printf.user = global i32 0"] &&
            !decide (m.introduced.map Llvm.Global.text).Nodup) = true := by
    decide +kernel
  obtain ⟨a, ha, hall⟩ := (Option.any_eq_true _ _).1 htext
  obtain ⟨b, hb, ha⟩ := Analysis.ofText?_eq_some ha
  refine ⟨b, a, hb, ha, fun fold => ?_⟩
  have hfold := List.all_eq_true.1 hall fold (by cases fold <;> decide)
  obtain ⟨module, hmodule, hclash⟩ := Except.any_toOption hfold
  rw [Bool.and_eq_true, beq_iff_eq, Bool.not_eq_true', decide_eq_false_iff_not] at hclash
  exact ⟨module, hmodule, hclash⟩

end SmallC
