import SmallC.Proofs.LlvmOperands
import SmallC.Proofs.ModuleNames
import SmallC.Proofs.Storage

/-!
# No reference of a module dangles

Code names what is defined elsewhere: a place in the first block of its function,
a variable or a function of the program, and what the builtin functions are made
of. For places it is settled with the operands of a definition. A variable of the
program is reached at the type it is declared with, because the note of a name is
the symbol that the module has a variable for, and a function is called at the
types of the function that the name stands for.

What the builtin functions are made of is declared where it has been marked as
used, and marking it and mentioning it in an instruction are two things, done one
after the other by the steps that make up a builtin function. Neither is known to
come with the other until such a function is complete. So `Emit.Marks` speaks of
what a step marks and of what its code mentions apart. From the code of a builtin
function on they are the same, which is `Emit.Refers`, and it is known which they
are: `Block.asked` lists what the calls of builtin functions and the declarations
of arrays ask for, read off the tree alone, and this is what code marks and
mentions, folded or not.
-/

namespace SmallC

namespace Llvm

/-! ## References -/

/-- The global name that an operand is. -/
def Operand.global? : Operand → Option Global
  | .global g => some g
  | _ => none

@[simp]
theorem Operand.global?_global (g : Global) : (Operand.global g).global? = some g := rfl

@[simp]
theorem Operand.global?_int (n : Int) : (Operand.int n).global? = none := rfl

@[simp]
theorem Operand.global?_zero (type : IrType) : (Operand.zero type).global? = none := rfl

@[simp]
theorem Operand.global?_slot (name : String) : (Operand.slot name).global? = none := rfl

/-- The operand is no global name. -/
def Operand.Local (x : Operand) : Prop := x.global? = none

theorem Operand.Local.eq {x : Operand} (h : x.Local) : x.global? = none := h

/-- The global names in an instruction. -/
def Instr.globals (i : Instr) : List Global := i.operands.filterMap (·.operand.global?)

/-- The instruction loads or stores a variable of the program at a type. -/
def Instr.Accesses (i : Instr) (name : String) (type : IrType) : Prop :=
  (∃ dest, i = .load dest type (.global (.user name))) ∨
    ∃ x, i = .store ⟨type, x⟩ (.global (.user name))

/-- The instruction calls a function of the program, with its result and parameters. -/
def Instr.Calls (i : Instr) (f : Function) : Prop :=
  ∃ dest args, i = .call dest (.ofTy f.result) false (.user f.name) args ∧
    args.map (·.type) = f.params.map fun id => .ofTy id.type

/-- The functions that a module defines, and perhaps the initializer. -/
def Module.origins (m : Module) : List Origin := m.definitions.map (·.origin)

/-- What a global name in an instruction refers to is in the module, and the instruction uses it at
the types it has there. -/
def Module.Defines (m : Module) (i : Instr) : Global → Prop
  | .user name =>
    (∃ id ∈ m.globals, id.name = name ∧ i.Accesses name (.ofTy id.type)) ∨
      ∃ f, .function f ∈ m.origins ∧ f.name = name ∧ i.Calls f
  | .support s => s ∈ m.support
  | .initializer => .initializer ∈ m.origins

/-- Whether the instruction mentions a global name. -/
def Instr.mentions (g : Global) (i : Instr) : Bool := i.operands.any (·.operand == .global g)

/-- Whether some instruction mentions a global name. -/
def Module.mentions (m : Module) (g : Global) : Bool :=
  m.definitions.any fun d => d.code.any (·.mentions g)

theorem Instr.mentions_iff {g : Global} {i : Instr} : i.mentions g = true ↔ g ∈ i.globals := by
  unfold Instr.mentions Instr.globals
  rw [List.any_eq_true, List.mem_filterMap]
  refine exists_congr fun x => and_congr_right fun _ => ?_
  rw [beq_iff_eq]
  cases x.operand <;> simp [Operand.global?]

theorem Module.mentions_iff {m : Module} {g : Global} :
    m.mentions g = true ↔ g ∈ (m.definitions.flatMap (·.code)).flatMap Instr.globals := by
  unfold Module.mentions
  simp only [List.any_eq_true, Instr.mentions_iff, List.mem_flatMap]
  constructor
  · rintro ⟨d, hd, i, hi, hg⟩
    exact ⟨i, ⟨d, hd, hi⟩, hg⟩
  · rintro ⟨i, ⟨d, hd, hi⟩, hg⟩
    exact ⟨d, hd, i, hi, hg⟩

/-! ## What a program asks for -/

/-- What a builtin function is made of. -/
def Support.ofBuiltin : String → List Support
  | "print_int" => [printf, fmtInt]
  | "print_float" => [printf, fmtFloat]
  | "print_char" => [printf, fmtChar]
  | "print_bool" => [strTrue, strFalse, printf, fmtStr]
  | "print_string" => [printf, fmtStr]
  | "read_int" | "read_bool" => [scanf, readInt, scanInt]
  | "read_float" => [scanf, readFloat, scanFloat]
  | "read_char" => [scanf, readChar, scanChar]
  | "read_string" => [calloc, scanf, scanStr]
  | _ => []

/-- What a call of a symbol asks for. -/
def Support.ofSymbol (sym : Symbol) : List Support :=
  if sym.builtin then ofBuiltin sym.name else []

end Llvm

open Llvm (Support)

/-- What an expression asks for on its own account, its parts aside. -/
def Expr.asks : Expr → List Support
  | .call _ func _ _ => (Ident.symbols func).flatMap Support.ofSymbol
  | _ => []

/-- What an expression asks for. -/
def Expr.asked (e : Expr) : List Support := e.parts.flatMap Expr.asks

/-- What an item of a declaration asks for. -/
def Node.asked (n : Node) : List Support := n.exprs.flatMap Expr.asks

mutual

/-- What a statement asks for. An array is allocated. The body of a function asks for itself. -/
def Stmt.asked : Stmt → List Support
  | .missing | .funcDecl _ _ _ _ _ _ _ => []
  | .call pos func args note => (Expr.call pos func args note).asked
  | .assign _ target value _ => target.asked ++ value.asked
  | .varDecl _ _ vars => vars.flatMap Node.asked
  | .arrayDecl _ _ _ size => size.asked ++ [.calloc]
  | .ifElse _ cond yes no => cond.asked ++ (yes.asked ++ no.asked)
  | .whileLoop _ cond body => body.asked ++ cond.asked
  | .forLoop _ init cond inserted step body =>
    init.asked ++ (body.asked ++ (step.asked ++ (cond.asked ++ inserted.asked)))
  | .block b => b.asked
  | .ret _ value => value.asked

/-- What a block asks for. -/
def Block.asked : Block → List Support
  | .missing => []
  | .of _ stmts => Stmt.askedIn stmts

/-- What statements ask for. -/
def Stmt.askedIn : List Stmt → List Support
  | [] => []
  | s :: rest => s.asked ++ Stmt.askedIn rest

end

theorem Expr.partsAll_eq (es : List Expr) : Expr.partsAll es = es.flatMap Expr.parts := by
  induction es with
  | nil => rfl
  | cons e rest ih => rw [Expr.partsAll, ih, List.flatMap_cons]

theorem Expr.asked_call {func : Ident} {sym : Symbol} (h : func.symbol = some sym) (pos : Pos)
    (args : List Expr) (note : Note) :
    (Expr.call pos (some func) args note).asked =
      Support.ofSymbol sym ++ args.flatMap Expr.asked := by
  have hfunc : (Ident.symbols (some func)).flatMap Support.ofSymbol = Support.ofSymbol sym := by
    rw [Ident.symbols, Option.bind_some, h]
    exact List.flatMap_singleton ..
  have hargs : (Expr.partsAll args).flatMap Expr.asks = args.flatMap Expr.asked := by
    rw [Expr.partsAll_eq, List.flatMap_assoc]
    rfl
  rw [← hfunc, ← hargs]
  rfl

/-- A constant expression asks for nothing. -/
theorem Expr.asked_of_isConstant : ∀ {e : Expr}, e.isConstant = true → e.asked = []
  | .missing, h | .ident _, h | .index _ _ _ _, h | .call _ _ _ _, h => by cases h
  | .literal _ _ _ _, _ => rfl
  | .convert _ x _, h => asked_of_isConstant (e := x) h
  | .unary _ _ x _, h => asked_of_isConstant (e := x) h
  | .binary _ _ x y _, h => by
      obtain ⟨hx, hy⟩ := Bool.and_eq_true_iff.1 h
      show (x.parts ++ y.parts).flatMap Expr.asks = []
      rw [List.flatMap_append, show x.parts.flatMap Expr.asks = [] from asked_of_isConstant hx,
        show y.parts.flatMap Expr.asks = [] from asked_of_isConstant hy]
      rfl

namespace Llvm

/-! ## What code refers to -/

/-- Whatever the code refers to is in the module, and what it mentions of the things that builtin
functions are made of is exactly what is asked for. -/
structure References (m : Module) (asked : List Support) (code : List Instr) : Prop where
  defined : ∀ i ∈ code, ∀ g ∈ i.globals, (∀ s, g ≠ .support s) → m.Defines i g
  asked : ∀ s, .support s ∈ code.flatMap Instr.globals ↔ s ∈ asked

/-- What has been marked as used between two places. -/
def Cursor.Marked (c c' : Cursor) (marked : List Support) : Prop :=
  ∀ s, s ∈ c'.used ↔ s ∈ marked ∨ s ∈ c.used

/-- A step marks something as used, adds code that mentions something and refers to what the module
has, and yields something with a property. -/
def Emit.Marks {α : Type} (m : Module) (marked asked : List Support) (P : α → Prop) (x : Emit α) :
    Prop :=
  ∀ c out, x c = .ok out →
    P out.value ∧ c.Marked out.cursor marked ∧ References m asked out.code

/-- A step marks as used exactly what its code mentions. -/
abbrev Emit.Refers {α : Type} (m : Module) (asked : List Support) (P : α → Prop) (x : Emit α) :
    Prop :=
  Marks m asked asked P x

section

variable {m : Module} {asked more : List Support} {code rest : List Instr}

theorem References.append (h : References m asked code) (h' : References m more rest) :
    References m (asked ++ more) (code ++ rest) := by
  refine ⟨List.forall_mem_append.2 ⟨h.defined, h'.defined⟩, fun s => ?_⟩
  rw [List.flatMap_append, List.mem_append, List.mem_append, h.asked, h'.asked]

theorem References.congr (h : References m asked code) (hiff : ∀ s, s ∈ asked ↔ s ∈ more) :
    References m more code :=
  ⟨h.defined, fun s => (h.asked s).trans (hiff s)⟩

theorem References.of_none (h : ∀ i ∈ code, i.globals = []) : References m [] code := by
  have hnone : code.flatMap Instr.globals = [] := List.flatMap_eq_nil_iff.2 h
  refine ⟨fun i hi g hg => ?_, fun s => ?_⟩
  · rw [h i hi] at hg
    cases hg
  · rw [hnone]
    simp

end

theorem Cursor.Marked.refl (c : Cursor) : c.Marked c [] := fun s => by simp

theorem Cursor.Marked.append {c c₁ c₂ : Cursor} {marked marked' : List Support}
    (h : c.Marked c₁ marked) (h' : c₁.Marked c₂ marked') : c.Marked c₂ (marked ++ marked') := by
  intro s
  rw [h' s, h s, List.mem_append, ← or_assoc, or_comm (a := s ∈ marked')]

theorem Cursor.Marked.congr {c c' : Cursor} {marked marked' : List Support}
    (h : c.Marked c' marked) (hiff : ∀ s, s ∈ marked ↔ s ∈ marked') : c.Marked c' marked' :=
  fun s => (h s).trans (or_congr_left (hiff s))

namespace Emit

variable {α β : Type} {m : Module} {marked marked' asked asked' : List Support} {P : α → Prop}
  {Q : β → Prop}

theorem Marks.done {a : α} (h : P a) : Marks m [] [] P (Pure.pure a : Emit α) := by
  intro c out hx
  cases hx
  exact ⟨h, .refl c, .of_none fun _ hi => (nomatch hi)⟩

theorem Marks.fail {fault : Fault} : Marks m marked asked P (Emit.fail fault) := by
  intro c out hx
  cases hx

theorem Marks.congr {x : Emit α} (h : Marks m marked asked P x)
    (hmarked : ∀ s, s ∈ marked ↔ s ∈ marked') (hasked : ∀ s, s ∈ asked ↔ s ∈ asked') :
    Marks m marked' asked' P x := by
  intro c out hx
  obtain ⟨hvalue, hcursor, hcode⟩ := h c out hx
  exact ⟨hvalue, hcursor.congr hmarked, hcode.congr hasked⟩

theorem Refers.congr {x : Emit α} (h : Refers m asked P x) (hiff : ∀ s, s ∈ asked ↔ s ∈ asked') :
    Refers m asked' P x :=
  Marks.congr h hiff hiff

theorem Marks.bind {x : Emit α} {f : α → Emit β} (h : Marks m marked asked P x)
    (h' : ∀ a, P a → Marks m marked' asked' Q (f a)) :
    Marks m (marked ++ marked') (asked ++ asked') Q (x >>= f) := by
  intro c out hx
  obtain ⟨first, second, hfirst, hsecond, rfl⟩ := bind_eq_ok_iff.1 hx
  obtain ⟨hvalue, hcursor, hcode⟩ := h c first hfirst
  obtain ⟨hvalue', hcursor', hcode'⟩ := h' _ hvalue _ second hsecond
  exact ⟨hvalue', hcursor.append hcursor', hcode.append hcode'⟩

/-- The first step neither marks nor mentions anything. -/
theorem Marks.quiet_bind {x : Emit α} {f : α → Emit β} (h : Marks m [] [] P x)
    (h' : ∀ a, P a → Marks m marked asked Q (f a)) : Marks m marked asked Q (x >>= f) :=
  h.bind h'

/-- The last step neither marks nor mentions anything. -/
theorem Marks.bind_quiet {x : Emit α} {f : α → Emit β} (h : Marks m marked asked P x)
    (h' : ∀ a, P a → Marks m [] [] Q (f a)) : Marks m marked asked Q (x >>= f) :=
  (h.bind h').congr (fun _ => by rw [List.append_nil]) fun _ => by rw [List.append_nil]

theorem Marks.ofExcept (x : Except Fault α) :
    Marks m [] [] (fun a => x = .ok a) (Emit.ofExcept x) := by
  cases x with
  | error f => exact .fail
  | ok a => exact .done rfl

/-- To use something marks it, and leaves it to what follows to mention it. -/
theorem Marks.use {s : Support} {f : Global → Emit β}
    (h : Marks m marked asked Q (f (.support s))) :
    Marks m (s :: marked) asked Q (Emit.use s >>= f) := by
  intro c out hx
  rw [use_bind] at hx
  obtain ⟨hvalue, hcursor, hcode⟩ := h _ out hx
  refine ⟨hvalue, fun s' => (hcursor s').trans ?_, hcode⟩
  rw [List.mem_cons, List.mem_cons, or_left_comm, or_assoc]

/-- The code of `live` has no operands. -/
theorem Marks.live : Marks m [] [] (fun _ => True) Emit.live := by
  intro c out hx
  cases hc : c.closed with
  | false =>
      rw [live_open hc] at hx
      cases hx
      exact ⟨trivial, .refl c, .of_none fun _ hi => (nomatch hi)⟩
  | true =>
      rw [live_closed hc] at hx
      cases hx
      exact ⟨trivial, .refl c, .of_none (List.forall_mem_singleton.2 rfl)⟩

/-- To add an instruction marks nothing. -/
theorem Marks.instr {i : Instr} (hdefined : ∀ g ∈ i.globals, (∀ s, g ≠ .support s) → m.Defines i g)
    (hasked : ∀ s, .support s ∈ i.globals ↔ s ∈ asked) :
    Marks m [] asked (fun _ => True) (Emit.instr i) := by
  refine Marks.live.quiet_bind fun _ _ => ?_
  intro c out hx
  cases hx
  refine ⟨trivial, .refl c, List.forall_mem_singleton.2 hdefined, fun s => ?_⟩
  rw [List.flatMap_singleton]
  exact hasked s

theorem Marks.quiet {i : Instr} (h : i.globals = []) :
    Marks m [] [] (fun _ => True) (Emit.instr i) := by
  refine .instr (fun g hg => ?_) fun s => ?_
  · rw [h] at hg
    cases hg
  · rw [h]
    simp

/-- An instruction that refers to things that builtin functions are made of, and to nothing else. -/
theorem Marks.support {i : Instr} (h : i.globals = asked.map .support) :
    Marks m [] asked (fun _ => True) (Emit.instr i) := by
  refine .instr (fun g hg hne => ?_) fun s => ?_
  · rw [h] at hg
    obtain ⟨s, -, rfl⟩ := List.mem_map.1 hg
    exact absurd rfl (hne s)
  · rw [h, List.mem_map_of_injective]
    exact fun _ _ => Global.support.inj

/-- The register that is defined is no global name. -/
theorem Marks.define {root : String} {i : Reg → Instr}
    (h : ∀ q, Marks m [] asked (fun _ => True) (Emit.instr (i q))) :
    Marks m [] asked Operand.Local (Emit.define root i) := by
  intro c out hx
  obtain ⟨first, rest, hfirst, hrest, rfl⟩ := bind_eq_ok_iff.1 hx
  cases hfirst
  have hyield : ∀ r : Reg, Marks m [] [] Operand.Local (Pure.pure (.reg r) : Emit Operand) :=
    fun _ => .done rfl
  obtain ⟨hvalue, hcursor, hcode⟩ := ((h _).bind_quiet fun _ _ => hyield _) _ rest hrest
  exact ⟨hvalue, hcursor, hcode⟩

theorem Marks.label (l : Label) : Marks m [] [] (fun _ => True) (Emit.label l) := by
  intro c out hx
  cases hx
  exact ⟨trivial, .refl c, .of_none (List.forall_mem_singleton.2 rfl)⟩

theorem Marks.nextControl : Marks m [] [] (fun _ => True) Emit.nextControl := by
  intro c out hx
  cases hx
  exact ⟨trivial, .refl c, .of_none fun _ hi => (nomatch hi)⟩

theorem Marks.close {i : Instr} (h : i.globals = []) :
    Marks m [] [] (fun _ => True) (Emit.close i) := by
  intro c out hx
  unfold Emit.close at hx
  split at hx
  · cases hx
    exact ⟨trivial, .refl c, .of_none fun _ hi => (nomatch hi)⟩
  · exact Marks.quiet h c out hx

end Emit

open Emit

/-- The functions that expressions name are defined, builtin functions aside. -/
def Module.Has (m : Module) (es : List Expr) : Prop :=
  ∀ id sym result params, .ident id ∈ es → id.symbol = some sym → sym.builtin = false →
    sym.type = .func result params →
      ∃ f, .function f ∈ m.origins ∧ f.name = sym.name ∧ f.result = result ∧
        f.params.map (·.type) = params

theorem Module.Has.mono {m : Module} {es more : List Expr} (h : m.Has more) (hsub : es ⊆ more) :
    m.Has es :=
  fun id sym result params hid => h id sym result params (hsub hid)

/-! ## Expressions -/

section

variable {m : Module}

theorem immediate_local (v : Value) : (immediate v).Local := by
  unfold immediate
  split <;> rfl

theorem convert_refers {x : Operand} (hx : x.Local) (pos : Pos) (src : Option Ty)
    (dst : Base) : Refers m [] Operand.Local (convert pos src dst x) := by
  unfold convert
  split
  · unfold convertBase
    split
    · exact .done hx
    · split
      · split <;> exact .define fun _ => .quiet (by simp [Instr.globals, Instr.operands, hx.eq])
      · split
        · exact .define fun _ => .quiet (by simp [Instr.globals, Instr.operands, hx.eq])
        · exact .fail
  · exact .fail

theorem print_refers {x : Typed} (hx : x.operand.Local) (format : Support) :
    Refers m [.printf, format] (fun _ => True) (print format x) :=
  .use <| .use <| .support (by simp [Instr.globals, Instr.operands, Typed.ptr, hx.eq])

theorem scan_refers (format place : Support) (type : IrType) :
    Refers m [.scanf, place, format] Operand.Local (scan format place type) := by
  have hcall : Marks m [] [.scanf, format, place] (fun _ => True) (callVariadic (.support .scanf)
      [.ptr (.global (.support format)), .ptr (.global (.support place))]) :=
    .support rfl
  have hload : Marks m [] [place] Operand.Local
      (define "read" (.load · type (.global (.support place)))) :=
    .define fun _ => .support rfl
  have hboth := hcall.bind fun _ _ => hload
  exact .use <| .use <| .use <| hboth.congr (fun _ => .rfl) fun s => by
    simp [or_comm, or_left_comm]

theorem allocate_refers {count : Operand} (h : count.Local) (root : String) (size : Nat) :
    Refers m [.calloc] Operand.Local (allocate root count size) :=
  .use <| .define fun _ => .support (by simp [Instr.globals, Instr.operands, Typed.ptr, h.eq])

theorem firstArg_refers {args : List Operand} (h : ∀ x ∈ args, x.Local) :
    Refers m [] Operand.Local (firstArg args) := by
  cases args with
  | nil => exact .fail
  | cons x rest => exact .done (h x List.mem_cons_self)

/-- The code of a builtin function mentions what the function is made of. -/
theorem builtin?_refers {name : String} {args : List Operand} {code : Emit Operand}
    (h : builtin? name args = some code) (hargs : ∀ x ∈ args, x.Local) :
    Refers m (Support.ofBuiltin name) Operand.Local code := by
  have hfirst : Refers m [] Operand.Local (firstArg args) := firstArg_refers hargs
  have hnothing : ∀ u : Unit, True →
      Refers m [] Operand.Local (Pure.pure .nothing : Emit Operand) :=
    fun _ _ => .done rfl
  unfold builtin? at h
  split at h <;> cases h
  case h_1 | h_2 | h_5 =>
    exact hfirst.bind fun x hx => (print_refers hx _).bind_quiet hnothing
  case h_3 =>
    refine hfirst.bind fun x hx => Marks.quiet_bind (.define fun _ => .quiet ?_)
      fun y hy => (print_refers hy _).bind_quiet hnothing
    simp [Instr.globals, Instr.operands, hx.eq]
  case h_4 =>
    refine hfirst.bind fun x hx => ?_
    have hchoice : Marks m [] [.strTrue, .strFalse] Operand.Local
        (Emit.define "bool"
          (.select · x (.global (.support .strTrue)) (.global (.support .strFalse)))) :=
      .define fun _ => .support (by simp [Instr.globals, Instr.operands, Typed.ptr, hx.eq])
    exact .use <| .use <| hchoice.bind fun y hy => (print_refers hy _).bind_quiet hnothing
  case h_6 | h_7 | h_8 => exact scan_refers _ _ _
  case h_9 =>
    refine (scan_refers _ _ _).bind_quiet fun x hx => .define fun _ => .quiet ?_
    simp [Instr.globals, Instr.operands, hx.eq]
  case h_10 =>
    refine Marks.bind (allocate_refers (show Operand.Local (.int _) from rfl) _ _) fun x hx =>
      .use <| .use <| Marks.bind_quiet (.support ?_) fun _ _ => .done hx
    simp [Instr.globals, Instr.operands, Typed.ptr, hx.eq]

/-- The arguments of a call have the types of the parameters. -/
theorem typedArgs_types {place : Nat} {types : List Ty} {args : List Operand} {typed : List Typed}
    (h : typedArgs place types args = .ok typed) (hlength : args.length = types.length) :
    typed.map (·.type) = types.map .ofTy ∧ typed.map (·.operand) = args := by
  induction types generalizing place args typed with
  | nil =>
      obtain rfl := List.length_eq_zero_iff.1 hlength
      cases h
      exact ⟨rfl, rfl⟩
  | cons t types ih =>
      cases args with
      | nil => cases hlength
      | cons x args =>
          rw [typedArgs] at h
          obtain ⟨_, -, h⟩ := Except.bind_eq_ok_iff.1 h
          obtain ⟨rest, hrest, h⟩ := Except.bind_eq_ok_iff.1 h
          cases h
          obtain ⟨htypes, hargs⟩ := ih hrest (Nat.succ.inj hlength)
          exact ⟨congrArg (_ :: ·) htypes, congrArg (_ :: ·) hargs⟩

/-- Operands that can be arguments of a function with parameters of some types. -/
def ArgsFor (types : List Ty) (xs : List Operand) : Prop :=
  xs.length = types.length ∧ ∀ x ∈ xs, x.Local

theorem lowerCall_refers {r : Reach} {func : Ident} {sym : Symbol} {result : Ty} {types : List Ty}
    {args : Emit (List Operand)} {asked : List Support} (hm : m.Has [.ident func])
    (hrefers : func.Refers r sym) (hty : sym.type = .func result types)
    (hargs : Refers m asked (ArgsFor types) args) (pos : Pos) :
    Refers m (asked ++ Support.ofSymbol sym) Operand.Local
      (lowerCall pos (some func) args) := by
  unfold lowerCall
  rw [ofExcept_bind (Ident.callee_ok hrefers.symbol hty pos)]
  refine hargs.bind fun xs ⟨hlength, hxs⟩ => ?_
  dsimp only
  unfold Support.ofSymbol
  split
  · split
    · next hcode => exact builtin?_refers hcode hxs
    · exact .fail
  · next hb =>
      obtain ⟨f, hf, hname, hresult, hparams⟩ := hm func sym result types List.mem_cons_self
        hrefers.symbol (Bool.eq_false_iff.2 hb) hty
      refine Marks.quiet_bind (.ofExcept _) fun typed htyped => ?_
      refine Marks.quiet_bind (.ofExcept _) fun _ _ => ?_
      obtain ⟨htypes, hoperands⟩ := typedArgs_types htyped hlength
      have hcall : ∀ dest, Refers m [] (fun _ => True)
          (instr (.call dest (.ofTy result) false (.user sym.name) typed)) := by
        intro dest
        have hglobals : (Instr.call dest (.ofTy result) false (.user sym.name) typed).globals =
            [.user sym.name] := by
          have hnone : typed.filterMap (·.operand.global?) = [] := by
            refine List.filterMap_eq_nil_iff.2 fun y hy => hxs _ ?_
            rw [← hoperands]
            exact List.mem_map_of_mem hy
          exact congrArg (_ :: ·) hnone
        refine .instr (fun g hg _ => ?_) fun s => by simp [hglobals]
        rw [hglobals] at hg
        obtain rfl := List.mem_singleton.1 hg
        refine .inr ⟨f, hf, hname, dest, typed, ?_, ?_⟩
        · rw [hname, hresult]
        · rw [htypes, ← hparams, List.map_map]
          rfl
      split
      · exact (hcall none).bind fun _ _ => .done rfl
      · exact .define fun q => hcall (some q)

variable {c : Context} {r : Reach}

theorem plain_refers {e : Expr} {raw : Emit Operand}
    (h : Refers m e.asked Operand.Local raw) :
    Refers m e.asked Operand.Local (plain c e raw) := by
  unfold plain
  split
  · exact h
  · split
    · next hvalue =>
        rw [Expr.asked_of_isConstant (Context.isConstant_of_folded hvalue)]
        exact .done (immediate_local _)
    · exact h

theorem used_refers {e : Expr} {raw : Emit Operand}
    (h : Refers m e.asked Operand.Local raw) :
    Refers m e.asked Operand.Local (used c e raw) := by
  unfold used
  split
  · exact plain_refers h
  · split
    · next hvalue =>
        rw [Expr.asked_of_isConstant (Context.isConstant_of_folded hvalue)]
        exact .done (immediate_local _)
    · exact (plain_refers h).bind_quiet fun x hx => convert_refers hx _ _ _

/-- What is stored is addressed by its place in the function, or else it is a variable of the
program. -/
theorem address_eq {id : Symbol} {addr : Operand} (h : id.Stored r) {pos : Pos}
    (haddr : address c pos id = .ok addr) :
    addr = .slot id.name ∨ addr = .global (.user id.name) ∧ id ∈ r.globals := by
  unfold address at haddr
  split at haddr
  · cases haddr
    exact .inl rfl
  · split at haddr
    · next hstatic =>
        cases haddr
        refine .inr ⟨rfl, ?_⟩
        unfold Symbol.isStatic at hstatic
        unfold Symbol.Stored at h
        cases hs : id.storage <;> simp_all
    · cases haddr

theorem lowerArgs_refers {args : List Expr} (h : ∀ e ∈ args,
      Refers m e.asked Operand.Local (lowerRaw c e)) :
    Refers m (args.flatMap Expr.asked)
      (fun xs => xs.length = args.length ∧ ∀ x ∈ xs, x.Local) (lowerArgs c args) := by
  induction args with
  | nil =>
      rw [lowerArgs]
      exact .done ⟨rfl, fun _ hx => (nomatch hx)⟩
  | cons e rest ih =>
      obtain ⟨he, hrest⟩ := List.forall_mem_cons.1 h
      rw [lowerArgs]
      refine (used_refers he).bind fun x hx => (ih hrest).bind_quiet fun xs ⟨hlength, hxs⟩ => ?_
      exact .done ⟨congrArg (· + 1) hlength, List.forall_mem_cons.2 ⟨hx, hxs⟩⟩

variable (hm : r.globals = m.globals)

include hm

theorem load_refers {id : Symbol} (h : id.Stored r) (pos : Pos) :
    Refers m [] Operand.Local (load c pos id) := by
  refine Marks.quiet_bind (.ofExcept _) fun _ _ => ?_
  refine Marks.quiet_bind (.ofExcept _) fun addr haddr => .define fun q => ?_
  rcases address_eq h haddr with rfl | ⟨rfl, hmem⟩
  · exact .quiet rfl
  · refine .instr (fun g hg _ => ?_) fun s => by simp [Instr.globals, Instr.operands, Typed.ptr]
    obtain rfl := List.mem_singleton.1 hg
    exact .inl ⟨id, hm ▸ hmem, rfl, .inl ⟨q, rfl⟩⟩

theorem store_refers {id : Symbol} (h : id.Stored r) (pos : Pos) {value : Operand}
    (hvalue : value.Local) : Refers m [] (fun _ => True) (store c pos id value) := by
  refine Marks.quiet_bind (.ofExcept _) fun _ _ => ?_
  refine Marks.quiet_bind (.ofExcept _) fun addr haddr => ?_
  rcases address_eq h haddr with rfl | ⟨rfl, hmem⟩
  · exact .quiet (by simp [Instr.globals, Instr.operands, Typed.ptr, hvalue.eq])
  · have hglobals : (Instr.store ⟨.ofTy id.type, value⟩ (.global (.user id.name))).globals =
        [.user id.name] := by
      simp [Instr.globals, Instr.operands, Typed.ptr, hvalue.eq]
    refine .instr (fun g hg _ => ?_) fun s => by simp [hglobals]
    rw [hglobals] at hg
    obtain rfl := List.mem_singleton.1 hg
    exact .inl ⟨id, hm ▸ hmem, rfl, .inr ⟨value, rfl⟩⟩

theorem lowerElement_refers {array : Ident} {sym : Symbol} {elem : Base} {index : Emit Operand}
    {asked : List Support} (hrefers : array.Refers r sym) (hty : sym.type = .array elem)
    (hindex : Refers m asked Operand.Local index) :
    Refers m asked (fun p => p.2.Local) (lowerElement c (some array) index) := by
  obtain ⟨-, hstored⟩ := hrefers.known.element hty
  unfold lowerElement
  rw [ofExcept_bind (Ident.resolved_ok hrefers.symbol)]
  refine Marks.quiet_bind (load_refers hm hstored _) fun base hbase => ?_
  refine hindex.bind_quiet fun i hi => Marks.quiet_bind (.define fun _ => .quiet ?_)
    fun addr haddr => .done haddr
  simp [Instr.globals, Instr.operands, Typed.ptr, hbase.eq, hi.eq]

/-- The code of a typed expression refers to what the module has, and mentions exactly what the
expression asks for. -/
theorem lowerRaw_refers {e : Expr} (h : e.Typed r) :
    e.IsValue → m.Has e.parts → Refers m e.asked Operand.Local (lowerRaw c e) := by
  induction h with
  | literal decoded note_of =>
      intro _ _
      rw [lowerRaw]
      exact (Marks.ofExcept _).bind_quiet fun _ _ => .done (immediate_local _)
  | @ident id sym refers =>
      rintro ⟨ty, hty, hfunc⟩ _
      cases hty.symm.trans refers.note.type
      rw [lowerRaw, ofExcept_bind (Ident.resolved_ok refers.symbol)]
      exact load_refers hm (refers.known.stored hfunc).2 _
  | @unary pos op x note ty operand husedType numeric note_of ih =>
      intro _ hhas
      have hfunc : ty.isFunc = false := by rcases numeric with rfl | ⟨rfl, -⟩ <;> rfl
      have hx := ih (operand.isValue husedType hfunc) (hhas.mono (List.subset_cons_self _ _))
      rw [lowerRaw]
      refine (used_refers hx).bind_quiet fun v hv => ?_
      split
      · exact .done hv
      · refine Marks.quiet_bind (.ofExcept _) fun _ _ => ?_
        split <;> exact .define fun _ => .quiet (by simp [Instr.globals, Instr.operands, hv.eq])
  | @binary pos op x y note xType yType result left right usedLeft usedRight accepts once note_of ihx
      ihy =>
      intro _ hhas
      have hparts := hhas.mono (List.subset_cons_self _ _)
      have hx := ihx (left.isValue usedLeft accepts.isData.1)
        (hparts.mono (List.subset_append_left _ _))
      have hy := ihy (right.isValue usedRight accepts.isData.2)
        (hparts.mono (List.subset_append_right _ _))
      have hasked : (Expr.binary pos op x y note).asked = x.asked ++ y.asked := by
        unfold Expr.asked
        rw [Expr.parts, List.flatMap_cons, List.flatMap_append]
        rfl
      rw [lowerRaw, hasked]
      refine (used_refers hx).bind fun v hv => (used_refers hy).bind_quiet fun w hw => ?_
      refine Marks.quiet_bind (.ofExcept _) fun _ _ => ?_
      split
      · exact .define fun _ => .quiet (by simp [Instr.globals, Instr.operands, hv.eq, hw.eq])
      · exact .fail
  | @index pos array sym elem i note refers type operand husedType note_of ih =>
      intro _ hhas
      have hi := ih (operand.isValue husedType rfl)
        (hhas.mono (List.subset_cons_of_subset _ (List.subset_append_right _ _)))
      rw [lowerRaw]
      refine (lowerElement_refers hm refers type (used_refers hi)).bind_quiet fun p hp => ?_
      refine .define fun _ => .quiet ?_
      simp [Instr.globals, Instr.operands, Typed.ptr, hp.eq]
  | @call pos func sym result types args note refers type operands husedType note_of ih =>
      intro _ hhas
      obtain ⟨-, hparams, -⟩ := refers.known.signature type
      have hlength : args.length = types.length := by
        simpa using congrArg List.length husedType
      have hargs : ∀ e ∈ args, Refers m e.asked Operand.Local (lowerRaw c e) := by
        refine fun e he => ih e he (Expr.isValue_of_argument husedType hparams he (operands e he))
          (hhas.mono fun x hx => ?_)
        rw [Expr.parts, Expr.partsAll_eq]
        exact List.mem_cons_of_mem _ (List.mem_append_right _ (List.mem_flatMap_of_mem he hx))
      have hfunc : m.Has [.ident func] :=
        hhas.mono (List.cons_subset.2 ⟨List.mem_cons_of_mem _ List.mem_cons_self, by simp⟩)
      rw [lowerRaw]
      have hlowered : Refers m (args.flatMap Expr.asked) (ArgsFor types) (lowerArgs c args) :=
        fun cur out hout =>
          (lowerArgs_refers hargs cur out hout).imp_left fun h => ⟨h.1.trans hlength, h.2⟩
      refine (lowerCall_refers hfunc refers type hlowered pos).congr fun s => ?_
      rw [Expr.asked_call refers.symbol, List.mem_append, List.mem_append]
      exact or_comm

theorem lowerExpr_refers {e : Expr} {ty : Ty} (h : e.UsedAs r ty) (hty : ty.isData = true)
    (hhas : m.Has e.parts) : Refers m e.asked Operand.Local (lowerExpr c e) :=
  used_refers (lowerRaw_refers hm h.typed (h.isValue hty) hhas)

/-! ## Statements -/

theorem lowerAssign_refers {target value : Expr} {noted : Option Ty}
    (h : AssignTyped r target value noted) (pos : Pos) (hhas : m.Has (target.parts ++ value.parts)) :
    Refers m (target.asked ++ value.asked) (fun _ => True) (lowerAssign c pos target value) := by
  obtain ⟨hplace, hkept, ty, hdata, htarget, hvalue, -⟩ := h
  have htype : target.note.type = some ty := (Note.usedType_of_kept hkept).symm.trans htarget.used
  have hv : Refers m value.asked Operand.Local (lowerExpr c value) :=
    lowerExpr_refers hm hvalue hdata (hhas.mono (List.subset_append_right _ _))
  have hparts := hhas.mono (List.subset_append_left target.parts value.parts)
  cases htarget.typed with
  | @ident id sym refers =>
      cases htype.symm.trans refers.note.type
      refine hv.bind_quiet fun x hx => Marks.quiet_bind (.ofExcept _) fun p hp => ?_
      cases (Ident.resolved_ok refers.symbol).symm.trans hp
      exact store_refers hm (refers.known.stored (Ty.isFunc_of_isData hdata)).2 _ hx
  | @index _ array sym elem i _ refers type operand hused note_of =>
      have hi := lowerExpr_refers (c := c) hm ⟨operand, hused⟩ rfl
        (hparts.mono (List.subset_cons_of_subset _ (List.subset_append_right _ _)))
      refine (lowerElement_refers hm refers type hi).bind fun p hp => hv.bind_quiet fun x hx => ?_
      exact .quiet (by simp [Instr.globals, Instr.operands, Typed.ptr, hp.eq, hx.eq])
  | literal _ _ => cases hplace
  | unary _ _ _ _ => cases hplace
  | binary _ _ _ _ _ _ _ => cases hplace
  | call _ _ _ _ _ => cases hplace

theorem lowerVars_refers {vars : List Node} (h : ∀ n ∈ vars, n.TypedVar r)
    (hhas : m.Has (vars.flatMap Node.exprs)) :
    Refers m (vars.flatMap Node.asked) (fun _ => True) (lowerVars c vars) := by
  induction vars with
  | nil => exact .done trivial
  | cons n rest ih =>
      obtain ⟨hn, hrest⟩ := List.forall_mem_cons.1 h
      rw [List.flatMap_cons] at hhas
      have hhere := hhas.mono (List.subset_append_left _ _)
      have hvars := ih hrest (hhas.mono (List.subset_append_right _ _))
      unfold Node.TypedVar at hn
      split at hn
      · exact hvars
      · next target value _ =>
          rw [lowerVars, List.flatMap_cons]
          refine Marks.bind ((lowerAssign_refers hm hn _ hhere).congr fun s => ?_) fun _ _ => hvars
          rw [Node.asked, Node.exprs, List.flatMap_append]
          rfl
      · exact hn.elim

theorem lowerArray_refers {id : Ident} {sym : Symbol} {size : Expr} (hdecl : id.Declares r sym)
    (hsize : size.UsedAs r (.base .int)) (hhas : m.Has size.parts) :
    Refers m (size.asked ++ [.calloc]) (fun _ => True) (lowerArray c (some id) size) := by
  have hstore : ∀ count : Operand, count.Local → Refers m [.calloc] (fun _ => True) (do
      let array ← allocate id.name count (elementSize sym.type.kind)
      store c id.pos sym array) :=
    fun count hcount => (allocate_refers hcount _ _).bind_quiet fun x hx =>
      store_refers hm hdecl.stored _ hx
  unfold lowerArray
  rw [ofExcept_bind (Ident.resolved_ok hdecl.symbol)]
  refine Marks.quiet_bind (.ofExcept _) fun _ _ => ?_
  refine (lowerExpr_refers hm hsize rfl hhas).bind fun n hn => ?_
  refine Marks.quiet_bind (.define fun _ => .quiet ?_) fun count hcount => ?_
  · simp [Instr.globals, Instr.operands, hn.eq]
  · dsimp only
    split
    · refine Marks.quiet_bind (.define fun _ => .quiet ?_) fun count hcount => hstore _ hcount
      simp [Instr.globals, Instr.operands, hcount.eq]
    · exact Marks.quiet_bind (.done hcount) fun count hcount => hstore _ hcount

theorem lowerLoopCond_refers {cond inserted : Expr} (h : LoopCondTyped r cond inserted)
    (hhas : m.Has (cond.parts ++ inserted.parts)) :
    Refers m (cond.asked ++ inserted.asked) Operand.Local (lowerLoopCond c cond inserted) := by
  unfold lowerLoopCond
  rcases h with ⟨hcond, rfl⟩ | ⟨rfl, hins⟩
  · rw [hcond.typed.not_missing]
    refine (lowerExpr_refers hm hcond rfl (hhas.mono (List.subset_append_left _ _))).congr ?_
    intro s
    rw [show Expr.missing.asked = [] from rfl, List.append_nil]
  · rw [hins.typed.not_missing]
    exact lowerExpr_refers hm hins rfl (hhas.mono (List.subset_append_right _ _))

end

section

variable {m : Module} {cond : Emit Operand} {yes no body step : Emit Unit}
  {asked first second : List Support}

theorem turn_refers (l next : Label) : Refers m [] (fun _ => True) (turn l next) :=
  (Marks.close rfl).bind_quiet fun _ _ => .label next

theorem branch_refers {x : Operand} (hx : x.Local) (l l' next : Label) :
    Refers m [] (fun _ => True) (branch x l l' next) := by
  refine Marks.bind_quiet (.quiet ?_) fun _ _ => .label next
  simp [Instr.globals, Instr.operands, hx.eq]

theorem lowerIf_refers (hcond : Refers m asked Operand.Local cond)
    (hyes : Refers m first (fun _ => True) yes) (hno : Refers m second (fun _ => True) no) :
    Refers m (asked ++ (first ++ second)) (fun _ => True) (lowerIf cond yes no) := by
  rw [lowerIf_eq]
  refine Marks.nextControl.quiet_bind fun n _ => hcond.bind fun x hx => ?_
  refine (branch_refers hx _ _ _).quiet_bind fun _ _ => hyes.bind fun _ _ => ?_
  exact (turn_refers _ _).quiet_bind fun _ _ => hno.bind_quiet fun _ _ => turn_refers _ _

theorem lowerLoop_refers (hbody : Refers m first (fun _ => True) body)
    (hstep : Refers m second (fun _ => True) step) (hcond : Refers m asked Operand.Local cond) :
    Refers m (first ++ (second ++ asked)) (fun _ => True) (lowerLoop body step cond) := by
  rw [lowerLoop_eq]
  refine Marks.nextControl.quiet_bind fun n _ => (turn_refers _ _).quiet_bind fun _ _ => ?_
  refine hbody.bind fun _ _ => hstep.bind fun _ _ => (turn_refers _ _).quiet_bind fun _ _ => ?_
  exact hcond.bind_quiet fun x hx => branch_refers hx _ _ _

theorem lowerPart_refers {c : Context} {part : Stmt}
    (h : part = .missing ∨ Refers m part.asked (fun _ => True) (lowerStmt c part)) :
    Refers m part.asked (fun _ => True) (lowerPart c part) := by
  unfold lowerPart
  split
  · next hmissing =>
      obtain rfl := Stmt.isMissing_iff.1 hmissing
      exact .done trivial
  · next hhere => exact h.resolve_left fun hm => hhere (Stmt.isMissing_iff.2 hm)

end

mutual

/-- The code of a typed statement refers to what the module has, and mentions exactly what the
statement asks for. -/
theorem lowerStmt_refers {m : Module} {c : Context} {r : Reach} (hm : r.globals = m.globals) :
    ∀ {stmt : Stmt}, stmt.Typed r → m.Has stmt.exprs →
      Refers m stmt.asked (fun _ => True) (lowerStmt c stmt)
  | .missing, h, _ => h.elim
  | .call pos func args note, h, hhas => by
      have hvalue : (Expr.call pos func args note).IsValue := by
        cases h with
        | call refers type operands hused note_of =>
            exact ⟨_, note_of.type, Ty.isFunc_of_isResult (refers.known.signature type).1⟩
      have hcall := lowerRaw_refers (c := c) hm h hvalue hhas
      rw [lowerRaw] at hcall
      rw [lowerStmt]
      exact hcall.bind_quiet fun _ _ => .done trivial
  | .assign _ _ _ _, h, hhas => by
      rw [lowerStmt]
      exact lowerAssign_refers hm h _ hhas
  | .varDecl _ _ _, h, hhas => by
      rw [lowerStmt]
      exact lowerVars_refers hm h hhas
  | .arrayDecl _ _ _ _, h, hhas => by
      obtain ⟨id, sym, elem, rfl, hdecl, -, hsize⟩ := h
      rw [lowerStmt]
      exact lowerArray_refers hm hdecl hsize hhas
  | .ifElse _ cond yes no, ⟨hcond, hyes, hno⟩, hhas => by
      rw [Stmt.exprs] at hhas
      have hfirst := hhas.mono (List.subset_append_left _ _)
      rw [lowerStmt]
      exact lowerIf_refers
        (lowerExpr_refers hm hcond rfl (hfirst.mono (List.subset_append_left _ _)))
        (lowerBlock_refers hm hyes (hfirst.mono (List.subset_append_right _ _)))
        (lowerBlock_refers hm hno (hhas.mono (List.subset_append_right _ _)))
  | .whileLoop _ cond body, ⟨hcond, hbody⟩, hhas => by
      rw [Stmt.exprs] at hhas
      rw [lowerStmt]
      have hstep : Refers m [] (fun _ => True) (Pure.pure () : Emit Unit) := .done trivial
      exact lowerLoop_refers
        (lowerBlock_refers hm hbody (hhas.mono (List.subset_append_right _ _))) hstep
        (lowerExpr_refers hm hcond rfl (hhas.mono (List.subset_append_left _ _)))
  | .forLoop _ init cond inserted step body, ⟨hinit, hcond, hstep, hbody⟩, hhas => by
      have hsub : ∀ {es : List Expr}, (∀ e ∈ es, e ∈ init.exprs ++ cond.parts ++ inserted.parts ++
          step.exprs ++ body.exprs) → m.Has es := fun h => hhas.mono h
      have hi : Refers m init.asked (fun _ => True) (lowerPart c init) :=
        lowerPart_refers (hinit.imp_right fun h =>
          lowerStmt_refers hm h (hsub fun e he => by simp [he]))
      have hs : Refers m step.asked (fun _ => True) (lowerPart c step) :=
        lowerPart_refers (hstep.imp_right fun h =>
          lowerStmt_refers hm h (hsub fun e he => by simp [he]))
      rw [lowerStmt_forLoop]
      refine hi.bind fun _ _ => lowerLoop_refers
        (lowerBlock_refers hm hbody (hsub fun e he => by simp [he])) hs
        (lowerLoopCond_refers hm hcond (hsub fun e he => ?_))
      rcases List.mem_append.1 he with he | he <;> simp [he]
  | .block _, h, hhas => by
      rw [lowerStmt]
      exact lowerBlock_refers hm h hhas
  | .funcDecl _ _ _ _ _ _ _, _, _ => by
      rw [lowerStmt]
      exact .done trivial
  | .ret _ value, h, hhas => by
      obtain ⟨f, -, ⟨rfl, -⟩ | ⟨hdata, hv⟩⟩ := h
      · rw [lowerStmt]
        exact .quiet rfl
      · rw [lowerStmt, hv.typed.not_missing]
        refine (lowerExpr_refers hm hv hdata hhas).bind_quiet fun x hx => ?_
        refine Marks.quiet_bind (.ofExcept _) fun _ _ => .quiet ?_
        simp [Instr.globals, Instr.operands, hx.eq]

theorem lowerBlock_refers {m : Module} {c : Context} {r : Reach} (hm : r.globals = m.globals) :
    ∀ {b : Block}, b.Typed r → m.Has b.exprs → Refers m b.asked (fun _ => True) (lowerBlock c b)
  | .missing, _, _ => by
      rw [lowerBlock]
      exact .done trivial
  | .of _ _, h, hhas => by
      rw [lowerBlock]
      exact lowerStmts_refers hm h hhas

theorem lowerStmts_refers {m : Module} {c : Context} {r : Reach} (hm : r.globals = m.globals) :
    ∀ {stmts : List Stmt}, Stmt.AllTyped r stmts → m.Has (Stmt.exprsIn stmts) →
      Refers m (Stmt.askedIn stmts) (fun _ => True) (lowerStmts c stmts)
  | [], _, _ => by
      rw [lowerStmts]
      exact .done trivial
  | _ :: _, h, hhas => by
      rw [Stmt.exprsIn] at hhas
      rw [lowerStmts]
      exact (lowerStmt_refers hm h.1 (hhas.mono (List.subset_append_left _ _))).bind fun _ _ =>
        lowerStmts_refers hm h.2 (hhas.mono (List.subset_append_right _ _))

end

/-! ## Definitions -/

theorem places_globals (value : Symbol → Operand) (hvalue : ∀ id, (value id).Local)
    (ids : List Symbol) : ∀ i ∈ places value ids, i.globals = [] := by
  intro i hi
  obtain ⟨id, -, hi⟩ := List.mem_flatMap.1 hi
  rcases List.mem_cons.1 hi with rfl | hi
  · rfl
  · obtain rfl := List.mem_singleton.1 hi
    simp [Instr.globals, Instr.operands, Typed.ptr, (hvalue id).eq]

section

variable {m : Module} {fold initialized : Bool}

theorem lowerBody_refers {d : FuncDecl} {f : Function}
    (hbody : d.body.Typed ⟨m.globals, some f⟩) (hhas : m.Has d.body.exprs)
    (hinit : initialized = true → .initializer ∈ m.origins) :
    Refers m d.body.asked (fun _ => True) (lowerBody fold initialized d f) := by
  have hrest : Refers m d.body.asked (fun _ => True) (do
      lowerBlock ⟨fold, some f⟩ d.body
      close (if f.result.isVoid then .ret none else .unreachable)) := by
    refine (lowerBlock_refers (r := ⟨m.globals, some f⟩) rfl hbody hhas).bind_quiet fun _ _ => ?_
    exact .close (by split <;> rfl)
  unfold lowerBody
  dsimp only
  split
  · next hmain =>
      refine Marks.quiet_bind (.instr (fun g hg _ => ?_) fun s => ?_) fun _ _ => hrest
      · obtain rfl := List.mem_singleton.1 hg
        exact hinit (Bool.and_eq_true_iff.1 hmain).2
      · simp [Instr.globals, Instr.operands, Typed.ptr]
  · exact hrest

theorem lowerFunction_references {d : FuncDecl} {f : Function} (hplaced : f.Placed)
    (hlocals : f.locals = d.body.declared) (hbody : d.body.Typed ⟨m.globals, some f⟩)
    (hhas : m.Has d.body.exprs) (hinit : initialized = true → .initializer ∈ m.origins)
    {c : Cursor} {out : Emitted Unit} (h : lowerFunction fold initialized d f c = .ok out) :
    c.Marked out.cursor d.body.asked ∧ References m d.body.asked out.code := by
  obtain ⟨rest, hrest, rfl⟩ := lowerFunction_ok hplaced hlocals h
  have hhead : References m [] (Instr.label .entry :: prologue f) := by
    refine .of_none (List.forall_mem_cons.2 ⟨rfl, List.forall_mem_append.2 ⟨?_, ?_⟩⟩)
    · exact places_globals (fun id => .arg id.name) (fun _ => rfl) _
    · exact places_globals (fun id => .zero (.ofTy id.type)) (fun _ => rfl) _
  obtain ⟨-, hmarked, hcode⟩ := lowerBody_refers hbody hhas hinit _ rest hrest
  exact ⟨hmarked, hhead.append hcode⟩

theorem lowerFunctions_references {ds : List FuncDecl}
    (hds : ∀ d ∈ ds, d.Typed m.globals ∧ m.Has d.body.exprs)
    (hinit : initialized = true → .initializer ∈ m.origins) {c c' : Cursor}
    {definitions : List Definition}
    (h : lowerFunctions fold initialized c ds = .ok (c', definitions)) :
    c.Marked c' (ds.flatMap (·.body.asked)) ∧
      References m (ds.flatMap (·.body.asked)) (definitions.flatMap (·.code)) := by
  induction ds generalizing c definitions with
  | nil =>
      cases h
      exact ⟨.refl _, .of_none fun _ hi => (nomatch hi)⟩
  | cons d rest ih =>
      obtain ⟨⟨⟨f, hf, hplaced, hlocals, hbody⟩, hhas⟩, hrest⟩ := List.forall_mem_cons.1 hds
      obtain ⟨f', out, more, hf', hout, hmore, rfl⟩ := lowerFunctions_cons_ok h
      cases hf.symm.trans (FuncDecl.described_ok_iff.1 hf')
      obtain ⟨hmarked, hcode⟩ := lowerFunction_references hplaced hlocals hbody hhas hinit hout
      obtain ⟨hmarked', hcode'⟩ := ih hrest hmore
      exact ⟨hmarked.append hmarked', hcode.append hcode'⟩

theorem lowerInitializer_references {b : Block} (htyped : b.Typed ⟨m.globals, none⟩)
    (hhas : m.Has b.exprs) {c : Cursor} {out : Emitted Unit}
    (h : lowerInitializer fold b c = .ok out) :
    c.Marked out.cursor b.asked ∧ References m b.asked out.code := by
  have hblock := lowerBlock_refers (c := ⟨fold, none⟩) (r := ⟨m.globals, none⟩) rfl htyped hhas
  exact (((Marks.label .entry).quiet_bind fun _ _ =>
    hblock.bind_quiet fun _ _ => Marks.close rfl) c out h).2

theorem lowerFunctions_origins {ds : List FuncDecl} {c c' : Cursor} {definitions : List Definition}
    (h : lowerFunctions fold initialized c ds = .ok (c', definitions)) {d : FuncDecl} (hd : d ∈ ds)
    {f : Function} (hf : d.function = some f) : .function f ∈ definitions.map (·.origin) := by
  induction ds generalizing c definitions with
  | nil => cases hd
  | cons d' rest ih =>
      obtain ⟨f', out, more, hf', -, hmore, rfl⟩ := lowerFunctions_cons_ok h
      rcases List.mem_cons.1 hd with rfl | hd
      · cases hf.symm.trans (FuncDecl.described_ok_iff.1 hf')
        exact List.mem_cons_self
      · exact List.mem_cons_of_mem _ (ih hmore hd)

end

/-- A program without an initializer consists of functions. -/
theorem asked_of_needsInitializer {globals : List Symbol} {b : Block}
    (h : Analysis.needsInitializer globals b = .ok false) : b.asked = [] := by
  cases b with
  | missing => rfl
  | of pos stmts =>
      obtain ⟨-, hany⟩ := Bool.or_eq_false_iff.1 (Except.ok.inj h)
      rw [Block.asked]
      clear h
      induction stmts with
      | nil => rfl
      | cons s rest ih =>
          rw [List.any_cons, Bool.or_eq_false_iff] at hany
          obtain ⟨hs, hrest⟩ := hany
          rw [Stmt.askedIn, ih hrest, List.append_nil]
          cases s <;> first | rfl | cases hs

/-- A module refers to what it has, and what has been marked as used and what its code mentions is
what the program asks for. -/
theorem Module.references {a : Analysis} {opts : Options} {m : Module}
    (h : Module.ofAnalysis a opts = .ok m) (htyped : a.program.Typed ⟨a.globals, none⟩)
    {ds : List FuncDecl} (hds : a.program.functions = .ok ds)
    (hbodies : ∀ d ∈ ds, m.Has d.body.exprs) (hprogram : m.Has a.program.exprs) :
    (∀ s, s ∈ m.used ↔ s ∈ ds.flatMap (·.body.asked) ++ a.program.asked) ∧
      References m (ds.flatMap (·.body.asked) ++ a.program.asked)
        (m.definitions.flatMap (·.code)) := by
  obtain ⟨ds', initialized, c, definitions, hds', hneeds, hfunctions, ⟨-, hglobals⟩, hlast⟩ :=
    Module.ofAnalysis_ok h
  cases hds.symm.trans hds'
  obtain ⟨ds', hds', htypedFunctions⟩ := Block.Typed.functions htyped
  cases hds.symm.trans hds'
  rw [← hglobals] at htyped
  have hall : ∀ d ∈ ds, d.Typed m.globals ∧ m.Has d.body.exprs :=
    fun d hd => ⟨hglobals ▸ htypedFunctions d hd, hbodies d hd⟩
  -- Nothing has been marked at the start.
  have hmarks : ∀ {c' : Cursor} {marked : List Support}, m.used = c'.used →
      Cursor.start.Marked c' marked → ∀ s, s ∈ m.used ↔ s ∈ marked := by
    intro c' marked hused hmarked s
    rw [hused, hmarked s, or_iff_left]
    exact fun hs => nomatch hs
  rcases hlast with ⟨rfl, out, hout, hused, hdefinitions⟩ | ⟨rfl, hused, hdefinitions⟩
  · have hinit : .initializer ∈ m.origins := by
      unfold Module.origins
      rw [hdefinitions]
      simp
    obtain ⟨hmarked, hcode⟩ := lowerFunctions_references hall (fun _ => hinit) hfunctions
    obtain ⟨hmarked', hcode'⟩ := lowerInitializer_references htyped hprogram hout
    refine ⟨hmarks hused (hmarked.append hmarked'), ?_⟩
    rw [hdefinitions, List.flatMap_append, List.flatMap_singleton]
    exact hcode.append hcode'
  · obtain ⟨hmarked, hcode⟩ :=
      lowerFunctions_references hall (fun h => absurd h Bool.false_ne_true) hfunctions
    rw [hdefinitions, asked_of_needsInitializer hneeds, List.append_nil]
    exact ⟨hmarks hused hmarked, hcode⟩

/-! ## The header -/

/-- No global of a program is declared by the line that declares something for builtin functions. -/
theorem Support.decl_ne_globalDecl (s : Support) (id : Symbol) : s.decl ≠ globalDecl id := by
  intro h
  have hinside : " = global ".toList <:+: s.decl.toList := by
    rw [h, globalDecl, String.toList_append, String.toList_append, String.toList_append,
      String.toList_append, List.append_assoc, List.append_assoc]
    exact List.infix_append ..
  have hnone : ∀ s ∈ Support.all, ¬" = global ".toList <:+: s.decl.toList := by decide +kernel
  exact hnone s s.mem_all hinside

theorem Module.mem_support {m : Module} {s : Support} : s ∈ m.support ↔ s ∈ m.used := by
  rw [support, List.mem_filter, List.contains_iff_mem]
  exact and_iff_right s.mem_all

/-- What builtin functions are made of is declared once if it has been marked as used, and else not
at all. -/
theorem Module.count_decl (m : Module) (s : Support) :
    m.decls.count s.decl = if s ∈ m.used then 1 else 0 := by
  have hglobals : (m.globals.map globalDecl).count s.decl = 0 := by
    rw [List.count_eq_zero]
    intro hmem
    obtain ⟨id, -, heq⟩ := List.mem_map.1 hmem
    exact s.decl_ne_globalDecl id heq.symm
  have hall : (Support.all.map Support.decl).Nodup := by decide +kernel
  have hnodup : (m.support.map Support.decl).Nodup := hall.sublist (List.filter_sublist.map _)
  have hinj : ∀ s', s'.decl = s.decl → s' = s := fun s' heq =>
    List.inj_on_of_nodup_map hall s'.mem_all s.mem_all heq
  rw [Module.decls, List.count_append, hglobals, Nat.add_zero]
  split
  · next hused =>
      exact List.count_eq_one_of_mem hnodup (List.mem_map_of_mem (Module.mem_support.2 hused))
  · next hunused =>
      rw [List.count_eq_zero]
      intro hmem
      obtain ⟨s', hs', heq⟩ := List.mem_map.1 hmem
      obtain rfl := hinj s' heq
      exact hunused (Module.mem_support.1 hs')

/-- The references in the code of a definition: a place is made in the first block, and what a
global name refers to is in the module. -/
structure Definition.Resolved (m : Module) (d : Definition) : Prop where
  slots : ∀ i ∈ d.code, ∀ x ∈ i.operands, ∀ name, x.operand = .slot name → Placed d.code name
  globals : ∀ i ∈ d.code, ∀ g, i.mentions g = true → m.Defines i g

theorem Definition.UsesDefined.slots {d : Definition} (h : d.UsesDefined) :
    ∀ i ∈ d.code, ∀ x ∈ i.operands, ∀ name, x.operand = .slot name → Placed d.code name := by
  intro i hi x hx name hslot
  obtain ⟨pre, post, hcode⟩ := List.append_of_mem hi
  have hvalid := h pre i post hcode x hx
  rw [hslot] at hvalid
  rw [hcode]
  cases hvalid with
  | result hresult =>
      rcases hresult with hconst | ⟨q, hq, -⟩
      · exact hconst.elim
      · cases hq
  | slot _ placed => exact placed.append _

end Llvm

/-- The functions that a checked program names are those that its module defines. -/
theorem Analysis.module_has {a : Analysis} {opts : Options} {m : Llvm.Module}
    (hm : Llvm.Module.ofAnalysis a opts = .ok m) {g s : Nat} {t t' : Table} {p : Region}
    {src out : List Occurrence} {ds : List FuncDecl} {es : List Expr}
    (hds : a.program.functions = .ok ds) (htraced : Traced g t t' s p [] src out ds es)
    {es' : List Expr} (hcovers : Covers out es') : m.Has es' := by
  intro id sym result params hid hsym hbuiltin htype
  obtain ⟨q, hq⟩ := hcovers id hid
  obtain ⟨d, hd, f, hf, hname, hftype⟩ :=
    htraced.callee hq hsym (by rw [htype]; rfl) hbuiltin
  obtain ⟨hresult, hparams⟩ := Ty.func.inj (hftype.trans htype)
  refine ⟨f, ?_, hname, hresult, hparams⟩
  obtain ⟨ds', _, _, definitions, hds', -, hfunctions, -, hlast⟩ := Llvm.Module.ofAnalysis_ok hm
  cases hds.symm.trans hds'
  have horigin := Llvm.lowerFunctions_origins hfunctions hd hf
  unfold Llvm.Module.origins
  rcases hlast with ⟨-, _, -, -, hdefinitions⟩ | ⟨-, -, hdefinitions⟩
  · rw [hdefinitions, List.map_append]
    exact List.mem_append_left _ horigin
  · rw [hdefinitions]
    exact horigin

/-- No reference of a module dangles. A place that a function uses is made in its first block. A
variable of the program is loaded and stored at the type that the module declares it with, and a
function of the program is called with the result and the parameters that the module defines it
with. A declaration for builtin functions is there exactly once if some instruction mentions it, and
else not at all, and the program mentions what its calls of builtin functions and its arrays ask for,
folded or not. -/
theorem Analysis.llvm_references_resolved {b : Block} {a : Analysis}
    (ha : Analysis.ofProgram b = .ok a) (opts : Options) :
    ∃ module ds, Llvm.Module.ofAnalysis a opts = .ok module ∧ a.program.functions = .ok ds ∧
      (∀ d ∈ module.definitions, d.Resolved module) ∧
      (∀ s, module.decls.count s.decl = if module.mentions (.support s) then 1 else 0) ∧
      ∀ s, module.mentions (.support s) = true ↔
        s ∈ ds.flatMap (·.body.asked) ++ a.program.asked := by
  obtain ⟨htyped, -, hstatic⟩ := Analysis.ofProgram_checked ha
  obtain ⟨t, ds, hds, -, htraced⟩ := Analysis.ofProgram_traced ha
  obtain ⟨m, hm⟩ : ∃ m, Llvm.Module.ofAnalysis a opts = .ok m := by
    obtain ⟨pos, stmts, _, stmts', -, -, rfl⟩ := Analysis.ofProgram_ok ha
    exact Llvm.Module.ofAnalysis_succeeds rfl htyped hstatic opts
  obtain ⟨hused, hreferences⟩ := Llvm.Module.references hm htyped hds
    (fun d hd => Analysis.module_has hm hds htraced (htraced.bodies d hd))
    (Analysis.module_has hm hds htraced htraced.covered)
  have hmentions : ∀ s, m.mentions (.support s) = true ↔
      s ∈ ds.flatMap (·.body.asked) ++ a.program.asked :=
    fun s => Llvm.Module.mentions_iff.trans (hreferences.asked s)
  refine ⟨m, ds, hm, hds, fun d hd => ⟨?_, fun i hi g hg => ?_⟩, fun s => ?_, hmentions⟩
  · exact ((Llvm.Module.lowered hm d hd).usesDefined htyped).slots
  · cases g with
    | support s =>
        refine Llvm.Module.mem_support.2 ((hused s).2 ((hmentions s).1 ?_))
        exact List.any_eq_true.2 ⟨d, hd, List.any_eq_true.2 ⟨i, hi, hg⟩⟩
    | user name =>
        exact hreferences.defined i (List.mem_flatMap_of_mem hd hi) _
          (Llvm.Instr.mentions_iff.1 hg) fun s h => nomatch h
    | initializer =>
        exact hreferences.defined i (List.mem_flatMap_of_mem hd hi) _
          (Llvm.Instr.mentions_iff.1 hg) fun s h => nomatch h
  · rw [m.count_decl]
    exact if_congr ((hused s).trans (hmentions s).symm) rfl rfl

/-- A global that a function reads, an array, and a call of a builtin function. -/
theorem Analysis.llvm_references_resolved_array :
    ∃ b a module, Block.parse ("(var int x) (array char s 4) " ++
        "(func int f ((int i)) (block (var int k) (= k (+ i x)) (return k))) " ++
        "(call print_int (call f x))") = .ok b ∧
      Analysis.ofProgram b = .ok a ∧ Llvm.Module.ofAnalysis a ⟨true, "program"⟩ = .ok module ∧
      module.mentions (.user "x") = true ∧ module.mentions (.user "f") = true ∧
      (∀ d ∈ module.definitions, d.Resolved module) ∧
      module.decls.count Llvm.Support.calloc.decl = 1 ∧
      module.decls.count Llvm.Support.fmtInt.decl = 1 ∧
      module.decls.count Llvm.Support.scanf.decl = 0 := by
  have htext : ((Analysis.ofText? ("(var int x) (array char s 4) " ++
      "(func int f ((int i)) (block (var int k) (= k (+ i x)) (return k))) " ++
      "(call print_int (call f x))")).any fun a =>
        (Llvm.Module.ofAnalysis a ⟨true, "program"⟩).toOption.any fun m =>
          m.mentions (.user "x") ∧ m.mentions (.user "f") ∧ m.mentions (.support .calloc) ∧
            m.mentions (.support .fmtInt) ∧ m.mentions (.support .scanf) = false) = true := by
    decide +kernel
  obtain ⟨a, ha, hany⟩ := (Option.any_eq_true _ _).1 htext
  obtain ⟨b, hb, ha⟩ := Analysis.ofText?_eq_some ha
  obtain ⟨module, ds, hmodule, -, hresolved, hcount, -⟩ :=
    Analysis.llvm_references_resolved ha ⟨true, "program"⟩
  rw [hmodule] at hany
  obtain ⟨hx, hf, hcalloc, hfmt, hscanf⟩ := of_decide_eq_true hany
  refine ⟨b, a, module, hb, ha, hmodule, hx, hf, hresolved, ?_, ?_, ?_⟩
  · rw [hcount, if_pos hcalloc]
  · rw [hcount, if_pos hfmt]
  · rw [hcount, hscanf, if_neg Bool.false_ne_true]

end SmallC
