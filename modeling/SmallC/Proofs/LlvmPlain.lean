import SmallC.Llvm.Lower

/-!
# The code of an expression stays in one block

Lowering an expression never branches. Whatever it adds, it adds one plain
instruction at a time, and the only label that can come up is the one that
`live` puts in front of the first instruction when control has left the block
before. `Emit.Plain` says of a step how it is put together and nothing else, so
that a fact about all code of expressions needs one induction over six cases,
and not one over the tree.

Two such facts stand here. Where the block is open, the code is plain and the
block stays open. Where it is closed, the step does what it would do in a block
opened for it, and the label of that block is there exactly if there is code.
-/

namespace SmallC.Llvm

/-- The instructions that neither start nor leave a block, nor make a place. -/
def Instr.isPlain : Instr → Bool
  | store _ _ | load _ _ _ | binary _ _ _ _ | fneg _ _ | cast _ _ _ _ | element _ _ _ _
  | select _ _ _ _ | call _ _ _ _ _ => true
  | label _ | alloca _ _ | br _ | condBr _ _ _ | ret _ | unreachable => false

theorem Instr.isTerminator_of_isPlain {i : Instr} (h : i.isPlain = true) :
    i.isTerminator = false := by
  cases i <;> first | rfl | cases h

/-- Where the code stands once a block has been opened for what follows. -/
def Cursor.opened (c : Cursor) : Cursor := { c with closed := false, control := c.control + 1 }

namespace Emit

/-- The steps that add plain instructions and nothing else, each with the register it defines. -/
inductive Plain : {α : Type} → Emit α → Prop where
  | done {α : Type} (a : α) : Plain (Pure.pure a : Emit α)
  | fail {α : Type} (f : Fault) : Plain (Emit.fail f : Emit α)
  | use (s : Support) : Plain (Emit.use s)
  | instr {i : Instr} (plain : i.isPlain = true) (dest : i.dest? = none) : Plain (Emit.instr i)
  | define {root : String} {i : Reg → Instr} (plain : ∀ q, (i q).isPlain = true)
      (dest : ∀ q, (i q).dest? = some q) : Plain (Emit.define root i)
  | bind {α β : Type} {x : Emit α} {f : α → Emit β} (first : Plain x) (rest : ∀ a, Plain (f a)) :
      Plain (x >>= f)

theorem Plain.ofExcept {α : Type} (x : Except Fault α) : Plain (Emit.ofExcept x) := by
  cases x with
  | error f => exact .fail f
  | ok a => exact .done a

/-! ## Where an instruction goes -/

theorem live_open {c : Cursor} (hc : c.closed = false) : live c = .ok ⟨(), c, []⟩ := by
  simp [live, hc]

theorem live_closed {c : Cursor} (hc : c.closed = true) :
    live c = .ok ⟨(), c.opened, [.label (.after (c.control + 1))]⟩ := by
  simp only [live, hc, if_true]
  rfl

theorem instr_eq {c c' : Cursor} {code : List Instr} (h : live c = .ok ⟨(), c', code⟩) (i : Instr) :
    instr i c = .ok ⟨(), { c' with closed := i.isTerminator }, code ++ [i]⟩ :=
  bind_eq_ok_iff.2 ⟨_, _, h, rfl, rfl⟩

/-- A new register, and then an instruction that defines it. -/
theorem define_eq {c : Cursor} {root : String} {i : Reg → Instr} {out : Emitted Unit}
    (h : instr (i ⟨root, c.fresh.count root + 1⟩) { c with fresh := (c.fresh.next root).2 } =
      .ok out) :
    define root i c = .ok ⟨.reg ⟨root, c.fresh.count root + 1⟩, out.cursor, out.code⟩ := by
  refine bind_eq_ok_iff.2 ⟨⟨⟨root, c.fresh.count root + 1⟩,
    { c with fresh := (c.fresh.next root).2 }, []⟩, _, rfl,
    bind_eq_ok_iff.2 ⟨_, _, h, rfl, rfl⟩, ?_⟩
  simp

/-! ## Where the block is open -/

theorem Plain.opened {α : Type} {x : Emit α} (h : Plain x) :
    ∀ {c : Cursor} {out : Emitted α}, c.closed = false → x c = .ok out →
      out.cursor.closed = false ∧ out.cursor.control = c.control ∧
        ∀ i ∈ out.code, i.isPlain = true := by
  induction h with
  | done a =>
      intro c out hc hx
      cases hx
      exact ⟨hc, rfl, by simp⟩
  | fail f => intro c out _ hx; cases hx
  | use s =>
      intro c out hc hx
      cases hx
      exact ⟨hc, rfl, by simp⟩
  | @instr i plain dest =>
      intro c out hc hx
      rw [instr_eq (live_open hc)] at hx
      cases hx
      exact ⟨Instr.isTerminator_of_isPlain plain, rfl, by simpa using plain⟩
  | @define root i plain dest =>
      intro c out hc hx
      rw [define_eq (instr_eq (live_open (c := { c with fresh := (c.fresh.next root).2 }) hc) _)]
        at hx
      cases hx
      exact ⟨Instr.isTerminator_of_isPlain (plain _), rfl, by simpa using plain _⟩
  | bind _ _ ihx ihf =>
      intro c out hc hx
      obtain ⟨first, second, hfirst, hf, rfl⟩ := bind_eq_ok_iff.1 hx
      obtain ⟨hopen, hcontrol, hplain⟩ := ihx hc hfirst
      obtain ⟨hopen', hcontrol', hplain'⟩ := ihf _ hopen hf
      refine ⟨hopen', hcontrol'.trans hcontrol, fun i hi => ?_⟩
      rcases List.mem_append.1 hi with hi | hi
      · exact hplain i hi
      · exact hplain' i hi

/-! ## Where the block is closed -/

/-- What a step does from a closed block, where `out` is what it does from a block opened for it.
Either there is no code, and the block stays closed, or the label of the new block comes first. -/
def Reopens {α : Type} (x : Emit α) (c : Cursor) (out : Emitted α) : Prop :=
  (∃ c', out.code = [] ∧ out.cursor = c'.opened ∧ (c'.closed = true ∧ c'.control = c.control) ∧
      x c = .ok ⟨out.value, c', []⟩) ∨
    x c = .ok ⟨out.value, out.cursor, .label (.after (c.control + 1)) :: out.code⟩

theorem Plain.closed {α : Type} {x : Emit α} (h : Plain x) :
    ∀ {c : Cursor} {out : Emitted α}, c.closed = true → x c.opened = .ok out →
      Reopens x c out := by
  induction h with
  | done a =>
      intro c out hc hx
      cases hx
      exact .inl ⟨c, rfl, rfl, ⟨hc, rfl⟩, rfl⟩
  | fail f => intro c out _ hx; cases hx
  | use s =>
      intro c out hc hx
      cases hx
      exact .inl ⟨{ c with used := s :: c.used }, rfl, rfl, ⟨hc, rfl⟩, rfl⟩
  | @instr i plain dest =>
      intro c out hc hx
      rw [instr_eq (live_open rfl)] at hx
      cases hx
      exact .inr (instr_eq (live_closed hc) i)
  | @define root i plain dest =>
      intro c out hc hx
      rw [define_eq (instr_eq (live_open rfl) _)] at hx
      cases hx
      have hlive := live_closed (c := { c with fresh := (c.fresh.next root).2 }) hc
      exact .inr (define_eq (instr_eq hlive (i ⟨root, c.fresh.count root + 1⟩)))
  | @bind α β x f _ _ ihx ihf =>
      intro c out hc hx
      obtain ⟨first, second, hfirst, hf, rfl⟩ := bind_eq_ok_iff.1 hx
      rcases ihx hc hfirst with ⟨c₁, hnil, hcursor, ⟨hc₁, hcontrol⟩, hx⟩ | hx
      · rw [hcursor] at hf
        rcases ihf _ hc₁ hf with ⟨c₂, hnil', hcursor', ⟨hc₂, hcontrol'⟩, hf⟩ | hf
        · exact .inl ⟨c₂, by simp [hnil, hnil'], hcursor', ⟨hc₂, hcontrol'.trans hcontrol⟩,
            bind_eq_ok_iff.2 ⟨_, _, hx, hf, rfl⟩⟩
        · rw [hcontrol] at hf
          exact .inr (bind_eq_ok_iff.2 ⟨_, _, hx, hf, by simp [hnil]⟩)
      · exact .inr (bind_eq_ok_iff.2 ⟨_, _, hx, hf, rfl⟩)

/-- Wherever a step starts, its code is what it would be in an open block, after a label if the
block is closed. -/
theorem Plain.anywhere {α : Type} {x : Emit α} (h : Plain x) {P : α → List Instr → Prop}
    (hx : ∀ c : Cursor, c.closed = false → ∃ out, x c = .ok out ∧ P out.value out.code)
    (c : Cursor) :
    ∃ out code, x c = .ok out ∧ P out.value code ∧
      (out.code = code ∨ c.closed = true ∧ out.code = .label (.after (c.control + 1)) :: code) := by
  cases hc : c.closed with
  | false =>
      obtain ⟨out, hout, hP⟩ := hx c hc
      exact ⟨out, out.code, hout, hP, .inl rfl⟩
  | true =>
      obtain ⟨out, hout, hP⟩ := hx c.opened rfl
      rcases h.closed hc hout with ⟨_, hnil, -, -, hx⟩ | hx
      · exact ⟨_, out.code, hx, hP, .inl hnil.symm⟩
      · exact ⟨_, out.code, hx, hP, .inr ⟨rfl, rfl⟩⟩

end Emit

open Emit

/-! ## Expressions -/

theorem load_plain (c : Context) (pos : Pos) (id : Symbol) : Plain (load c pos id) :=
  (Plain.ofExcept _).bind fun _ => (Plain.ofExcept _).bind fun _ =>
    .define (fun _ => rfl) fun _ => rfl

theorem store_plain (c : Context) (pos : Pos) (id : Symbol) (value : Operand) :
    Plain (store c pos id value) :=
  (Plain.ofExcept _).bind fun _ => (Plain.ofExcept _).bind fun _ => .instr rfl rfl

theorem convert_plain (pos : Pos) (src : Option Ty) (dst : Base) (x : Operand) :
    Plain (convert pos src dst x) := by
  unfold convert
  split
  · unfold convertBase
    split
    · exact .done x
    · split
      · split <;> exact .define (fun _ => rfl) fun _ => rfl
      · split
        · exact .define (fun _ => rfl) fun _ => rfl
        · exact .fail _
  · exact .fail _

theorem callVariadic_plain (f : Global) (args : List Typed) : Plain (callVariadic f args) :=
  .instr rfl rfl

theorem print_plain (format : Support) (x : Typed) : Plain (print format x) :=
  (Plain.use _).bind fun _ => (Plain.use _).bind fun _ => callVariadic_plain _ _

theorem scan_plain (format place : Support) (type : IrType) : Plain (scan format place type) :=
  (Plain.use _).bind fun _ => (Plain.use _).bind fun _ => (Plain.use _).bind fun _ =>
    (callVariadic_plain _ _).bind fun _ => .define (fun _ => rfl) fun _ => rfl

theorem allocate_plain (root : String) (count : Operand) (size : Nat) :
    Plain (allocate root count size) :=
  (Plain.use _).bind fun _ => .define (fun _ => rfl) fun _ => rfl

theorem firstArg_plain (args : List Operand) : Plain (firstArg args) := by
  cases args with
  | nil => exact .fail _
  | cons x rest => exact .done x

theorem builtin?_plain {name : String} {args : List Operand} {code : Emit Operand}
    (h : builtin? name args = some code) : Plain code := by
  have hfirst := firstArg_plain args
  unfold builtin? at h
  split at h <;> cases h
  case h_1 | h_2 | h_5 =>
    exact hfirst.bind fun _ => (print_plain _ _).bind fun _ => .done _
  case h_3 =>
    exact hfirst.bind fun _ => .bind (.define (fun _ => rfl) fun _ => rfl) fun _ =>
      (print_plain _ _).bind fun _ => .done _
  case h_4 =>
    exact hfirst.bind fun _ => (Plain.use _).bind fun _ => (Plain.use _).bind fun _ =>
      .bind (.define (fun _ => rfl) fun _ => rfl) fun _ => (print_plain _ _).bind fun _ => .done _
  case h_6 | h_7 | h_8 => exact scan_plain _ _ _
  case h_9 => exact (scan_plain _ _ _).bind fun _ => .define (fun _ => rfl) fun _ => rfl
  case h_10 =>
    exact (allocate_plain _ _ _).bind fun _ => (Plain.use _).bind fun _ => (Plain.use _).bind fun _ =>
      (callVariadic_plain _ _).bind fun _ => .done _

theorem lowerCall_plain {args : Emit (List Operand)} (h : Plain args) (pos : Pos)
    (func : Option Ident) : Plain (lowerCall pos func args) := by
  refine (Plain.ofExcept _).bind fun callee => h.bind fun xs => ?_
  dsimp only
  split
  · split
    · next code hcode => exact builtin?_plain hcode
    · exact .fail _
  · refine (Plain.ofExcept _).bind fun typed => (Plain.ofExcept _).bind fun _ => ?_
    split
    · exact .bind (.instr rfl rfl) fun _ => .done _
    · exact .define (fun _ => rfl) fun _ => rfl

theorem lowerElement_plain {index : Emit Operand} (h : Plain index) (c : Context)
    (array : Option Ident) : Plain (lowerElement c array index) :=
  (Plain.ofExcept _).bind fun _ => (load_plain _ _ _).bind fun _ => h.bind fun _ =>
    .bind (.define (fun _ => rfl) fun _ => rfl) fun _ => .done _

section

variable {c : Context} {e : Expr} {raw : Emit Operand} (h : Plain raw)

include h

theorem plain_plain : Plain (plain c e raw) := by
  unfold plain
  split
  · exact h
  · split
    · exact .done _
    · exact h

theorem used_plain : Plain (used c e raw) := by
  unfold used
  split
  · exact plain_plain h
  · split
    · exact .done _
    · exact (plain_plain h).bind fun _ => convert_plain _ _ _ _

end

mutual

theorem lowerRaw_plain (c : Context) : ∀ e : Expr, Plain (lowerRaw c e)
  | .missing => by rw [lowerRaw]; exact .fail _
  | .literal _ _ _ _ => by
      rw [lowerRaw]
      exact (Plain.ofExcept _).bind fun _ => .done _
  | .ident _ => by
      rw [lowerRaw]
      exact (Plain.ofExcept _).bind fun _ => load_plain _ _ _
  | .convert _ x _ => by
      rw [lowerRaw]
      exact (plain_plain (lowerRaw_plain c x)).bind fun _ => convert_plain _ _ _ _
  | .unary _ _ x _ => by
      rw [lowerRaw]
      refine (used_plain (lowerRaw_plain c x)).bind fun _ => ?_
      split
      · exact .done _
      · refine (Plain.ofExcept _).bind fun _ => ?_
        split <;> exact .define (fun _ => rfl) fun _ => rfl
  | .binary _ _ x y _ => by
      rw [lowerRaw]
      refine (used_plain (lowerRaw_plain c x)).bind fun _ => ?_
      refine (used_plain (lowerRaw_plain c y)).bind fun _ => (Plain.ofExcept _).bind fun _ => ?_
      split
      · exact .define (fun _ => rfl) fun _ => rfl
      · exact .fail _
  | .index _ _ i _ => by
      rw [lowerRaw]
      refine (lowerElement_plain (used_plain (lowerRaw_plain c i)) _ _).bind fun _ => ?_
      exact .define (fun _ => rfl) fun _ => rfl
  | .call _ _ args _ => by
      rw [lowerRaw]
      exact lowerCall_plain (lowerArgs_plain c args) _ _

theorem lowerArgs_plain (c : Context) : ∀ args : List Expr, Plain (lowerArgs c args)
  | [] => by rw [lowerArgs]; exact .done _
  | e :: rest => by
      rw [lowerArgs]
      exact (used_plain (lowerRaw_plain c e)).bind fun _ =>
        (lowerArgs_plain c rest).bind fun _ => .done _

end

theorem lowerExpr_plain (c : Context) (e : Expr) : Plain (lowerExpr c e) :=
  used_plain (lowerRaw_plain c e)

end SmallC.Llvm
