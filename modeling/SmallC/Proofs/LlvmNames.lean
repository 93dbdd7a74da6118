import SmallC.Proofs.LlvmOperands

/-!
# Registers that are named like labels

The labels and the values of a function share one set of names. The name of a
label is one of seven roots and a number. The name of a value is a root and a
number, too, if the value is a register, and ends in a word otherwise; so only a
register can meet a label, and only if it has the root of the label.

Registers are named after what they hold. Where that is the result of an
operation the root is a word without a point, and no label has such a root. Where
it is a variable the root is the name of the variable, which is any name that a
text can have, so it may well be the root of a label. The numbers are no help:
registers and labels are counted apart. So the two kinds of names differ unless
a variable that the function reaches is named like the root of a label.
-/

namespace SmallC

/-! ## Arrays and their symbols -/

mutual

/-- Whether the arrays that a statement declares have the names of their symbols, those of nested
blocks and functions included. -/
def Stmt.ArraysNamed : Stmt → Prop
  | .arrayDecl _ _ name _ => ∀ id sym, name = some id → id.symbol = some sym → sym.name = id.name
  | .ifElse _ _ yes no => yes.ArraysNamed ∧ no.ArraysNamed
  | .whileLoop _ _ body => body.ArraysNamed
  | .forLoop _ init _ _ step body => init.ArraysNamed ∧ step.ArraysNamed ∧ body.ArraysNamed
  | .block b => b.ArraysNamed
  | .funcDecl _ _ _ _ _ body _ => body.ArraysNamed
  | .missing | .call _ _ _ _ | .assign _ _ _ _ | .varDecl _ _ _ | .ret _ _ => True

/-- Whether the arrays of a block have the names of their symbols. -/
def Block.ArraysNamed : Block → Prop
  | .missing => True
  | .of _ stmts => Stmt.AllArraysNamed stmts

/-- Whether the arrays of several statements have the names of their symbols. -/
def Stmt.AllArraysNamed : List Stmt → Prop
  | [] => True
  | s :: rest => s.ArraysNamed ∧ Stmt.AllArraysNamed rest

end

theorem Table.addVar_name {t t' : Table} {s : Nat} {id id' : Symbol}
    (h : t.addVar s id = .ok (t', id')) : id'.name = id.name := by
  obtain ⟨_, -, -, ⟨f, hf, hadd⟩ | ⟨-, hadd⟩⟩ := Table.addVar_ok h
  · obtain ⟨_, -, -, -, -, rfl, -⟩ := Table.addLocal_ok hf hadd
    rfl
  · obtain ⟨_, -, -, -, rfl, -⟩ := Table.addStatic_ok hadd
    rfl

mutual

theorem Stmt.check_arraysNamed :
    ∀ {stmt stmt' : Stmt} {t t' : Table} {s : Nat}, stmt.check t s = .ok (t', stmt') →
      stmt'.ArraysNamed
  | .missing, _, _, _, _, h => by cases h
  | .call _ _ _ _, _, _, _, _, h => by
      obtain ⟨_, _, _, _, _, -, -, -, -, -, -, rfl⟩ := Stmt.check_call_ok h
      trivial
  | .assign _ _ _ _, _, _, _, _, h => by
      obtain ⟨-, ha⟩ := Stmt.check_assign_ok h
      obtain ⟨_, _, _, _, _, -, -, -, rfl⟩ := checkAssign_ok ha
      trivial
  | .varDecl _ _ _, _, _, _, _, h => by
      obtain ⟨_, _, -, -, rfl⟩ := Stmt.check_varDecl_ok h
      trivial
  | .arrayDecl _ _ _ _, _, _, _, _, h => by
      obtain ⟨_, _, _, _, _, _, -, -, -, -, hd, rfl⟩ := Stmt.check_arrayDecl_ok h
      obtain ⟨sym, hadd, rfl⟩ := declare_ok hd
      intro id sym' hid hsym
      cases hid
      cases hsym
      exact Table.addVar_name hadd
  | .ifElse _ _ _ _, _, _, _, _, h => by
      obtain ⟨_, _, _, _, -, hyes, hno, rfl⟩ := Stmt.check_ifElse_ok h
      exact ⟨Block.check_arraysNamed hyes, Block.check_arraysNamed hno⟩
  | .whileLoop _ _ _, _, _, _, _, h => by
      obtain ⟨_, _, -, hbody, rfl⟩ := Stmt.check_whileLoop_ok h
      have hnamed := Block.check_arraysNamed hbody
      exact hnamed
  | .forLoop _ _ _ _ _ _, _, _, _, _, h => by
      obtain ⟨_, init', _, _, _, step', _, hinit, -, hstep, hbody, rfl⟩ := Stmt.check_forLoop_ok h
      have hi : init'.ArraysNamed := by
        rcases Stmt.checkPart_ok hinit with ⟨-, -, rfl⟩ | ⟨-, hinit⟩
        · trivial
        · exact Stmt.check_arraysNamed hinit
      have hs : step'.ArraysNamed := by
        rcases Stmt.checkPart_ok hstep with ⟨-, -, rfl⟩ | ⟨-, hstep⟩
        · trivial
        · exact Stmt.check_arraysNamed hstep
      exact ⟨hi, hs, Block.check_arraysNamed hbody⟩
  | .block _, _, _, _, _, h => by
      obtain ⟨_, hb, rfl⟩ := Stmt.check_block_ok h
      have hnamed := Block.check_arraysNamed hb
      exact hnamed
  | .funcDecl _ _ _ _ _ _ _, _, _, _, _, h => by
      obtain ⟨_, _, _, -, hb, rfl⟩ := Stmt.check_funcDecl_ok h
      have hnamed := Block.check_arraysNamed hb
      exact hnamed
  | .ret _ _, _, _, _, _, h => by
      obtain ⟨-, hr⟩ := Stmt.check_ret_ok h
      obtain ⟨_, -, ⟨-, -, rfl⟩ | ⟨_, _, _, -, -, -, -, rfl⟩⟩ := checkReturn_ok hr
      · trivial
      · trivial

theorem Block.check_arraysNamed :
    ∀ {b b' : Block} {t t' : Table} {s : Nat}, b.check t s = .ok (t', b') → b'.ArraysNamed
  | .missing, _, _, _, _, h => by
      cases h
      trivial
  | .of _ _, _, _, _, _, h => by
      obtain ⟨_, hs, rfl⟩ := Block.check_of_ok h
      have hnamed := Stmt.checkAll_arraysNamed hs
      exact hnamed

theorem Stmt.checkAll_arraysNamed :
    ∀ {stmts stmts' : List Stmt} {t t' : Table} {s : Nat},
      Stmt.checkAll t s stmts = .ok (t', stmts') → Stmt.AllArraysNamed stmts'
  | [], _, _, _, _, h => by
      cases h
      trivial
  | _ :: _, _, _, _, _, h => by
      obtain ⟨_, _, _, hstmt, hrest, rfl⟩ := Stmt.checkAll_cons_ok h
      exact ⟨Stmt.check_arraysNamed hstmt, Stmt.checkAll_arraysNamed hrest⟩

end

theorem Analysis.ofProgram_arraysNamed {b : Block} {a : Analysis}
    (h : Analysis.ofProgram b = .ok a) : a.program.ArraysNamed := by
  obtain ⟨_, _, _, _, -, hs, rfl⟩ := Analysis.ofProgram_ok h
  have hnamed := Stmt.checkAll_arraysNamed hs
  exact hnamed

mutual

theorem Stmt.ArraysNamed.functions {r : Reach} :
    ∀ {stmt : Stmt}, stmt.Typed r → stmt.ArraysNamed → ∀ {ds : List FuncDecl},
      stmt.functions = .ok ds → ∀ d ∈ ds, d.body.ArraysNamed
  | .missing, ht, _, _, _ => ht.elim
  | .varDecl _ _ _, ht, _, _, h => by
      rw [Stmt.functions, Node.functionsIn_of_typed ht] at h
      cases h
      exact fun _ hd => (nomatch hd)
  | .ifElse _ _ _ _, ht, hn, _, h => by
      obtain ⟨first, rest, hfirst, hrest, rfl⟩ := functions_append_ok h
      exact List.forall_mem_append.2 ⟨Block.ArraysNamed.functions ht.2.1 hn.1 hfirst,
        Block.ArraysNamed.functions ht.2.2 hn.2 hrest⟩
  | .whileLoop _ _ _, ht, hn, _, h => Block.ArraysNamed.functions ht.2 hn h
  | .forLoop _ init _ _ step _, ht, hn, _, h => by
      simp only [Stmt.functions, Except.bind_eq_ok_iff] at h
      obtain ⟨first, hfirst, second, hsecond, third, hthird, h⟩ := h
      cases h
      have hi : ∀ d ∈ first, d.body.ArraysNamed := by
        rcases ht.1 with rfl | hti
        · cases hfirst
          exact fun _ hd => (nomatch hd)
        · exact Stmt.ArraysNamed.functions hti hn.1 hfirst
      have hs : ∀ d ∈ second, d.body.ArraysNamed := by
        rcases ht.2.2.1 with rfl | hts
        · cases hsecond
          exact fun _ hd => (nomatch hd)
        · exact Stmt.ArraysNamed.functions hts hn.2.1 hsecond
      exact List.forall_mem_append.2 ⟨List.forall_mem_append.2 ⟨hi, hs⟩,
        Block.ArraysNamed.functions ht.2.2.2 hn.2.2 hthird⟩
  | .block _, ht, hn, _, h => Block.ArraysNamed.functions ht hn h
  | .funcDecl _ _ _ _ _ _ _, _, hn, _, h => by
      cases h
      exact List.forall_mem_singleton.2 hn
  | .call _ _ _ _, _, _, _, h | .assign _ _ _ _, _, _, _, h | .arrayDecl _ _ _ _, _, _, _, h
  | .ret _ _, _, _, _, h => by
      cases h
      exact fun _ hd => (nomatch hd)

theorem Block.ArraysNamed.functions {r : Reach} :
    ∀ {b : Block}, b.Typed r → b.ArraysNamed → ∀ {ds : List FuncDecl},
      b.functions = .ok ds → ∀ d ∈ ds, d.body.ArraysNamed
  | .missing, _, _, _, h => by
      cases h
      exact fun _ hd => (nomatch hd)
  | .of _ _, ht, hn, _, h => Stmt.AllArraysNamed.functions ht hn h

theorem Stmt.AllArraysNamed.functions {r : Reach} :
    ∀ {stmts : List Stmt}, Stmt.AllTyped r stmts → Stmt.AllArraysNamed stmts →
      ∀ {ds : List FuncDecl}, Stmt.functionsIn stmts = .ok ds → ∀ d ∈ ds, d.body.ArraysNamed
  | [], _, _, _, h => by
      cases h
      exact fun _ hd => (nomatch hd)
  | _ :: _, ht, hn, _, h => by
      obtain ⟨first, rest, hfirst, hrest, rfl⟩ := functions_append_ok h
      exact List.forall_mem_append.2 ⟨Stmt.ArraysNamed.functions ht.1 hn.1 hfirst,
        Stmt.AllArraysNamed.functions ht.2 hn.2 hrest⟩

end

namespace Llvm

/-! ## Names of labels and of values -/

/-- What the names of labels are made of. -/
def Label.roots : List String :=
  ["if.then", "if.else", "if.end", "while.body", "while.cond", "while.end", "ret.after"]

theorem Label.root_mem {l : Label} {root : String} {n : Nat} (h : l.parts? = some (root, n)) :
    root ∈ Label.roots := by
  cases l <;> cases h <;> decide

/-- A value with the name of a label is a register that is made of the same root and number. -/
theorem Operand.eq_reg_of_text {x : Operand} {l : Label} (hx : x.parts?.isSome = true)
    (h : x.text = "%" ++ l.text) : ∃ q, x = .reg q ∧ l.parts? = some (q.root, q.number) := by
  obtain ⟨⟨root, last⟩, hparts⟩ := Option.isSome_iff_exists.1 hx
  obtain ⟨htext, hlast⟩ := Operand.toList_text hparts
  rw [← String.toList_inj, htext] at h
  cases hl : l.parts? with
  | none =>
      have hentry : l = .entry := by cases l <;> first | rfl | cases hl
      have hpoint : '.' ∈ ("%" ++ l.text).toList := by
        rw [← h]
        simp
      rw [hentry] at hpoint
      exact absurd hpoint (by decide)
  | some parts =>
      obtain ⟨root', n⟩ := parts
      have hlabel : ("%" ++ l.text).toList = '%' :: root'.toList ++ '.' :: (toString n).toList := by
        rw [Label.text_eq hl]
        simp [Fresh.name]
      rw [hlabel] at h
      obtain ⟨hroot, hnumber⟩ := append_point_inj hlast (point_not_mem_toString n) h
      obtain rfl : root = root' := String.toList_inj.1 (List.cons.inj hroot).2
      obtain rfl : last = toString n := String.toList_inj.1 hnumber
      refine ⟨⟨root, n⟩, ?_, rfl⟩
      exact Operand.parts?_inj hparts rfl

/-! ## What registers are named after -/

/-- The roots that registers can have where the storage `r` is within reach: none that labels have,
except for the names of variables. -/
def Allowed (r : Reach) (root : String) : Prop :=
  root ∈ Label.roots → ∃ id : Symbol, id.Stored r ∧ id.name = root

theorem Allowed.word {r : Reach} {root : String} (h : root ∉ Label.roots) : Allowed r root :=
  fun hroot => absurd hroot h

theorem Allowed.name {r : Reach} {id : Symbol} (h : id.Stored r) : Allowed r id.name :=
  fun _ => ⟨id, h, rfl⟩

/-- The registers that a step defines have allowed roots. -/
def Emit.Roots {α : Type} (r : Reach) (x : Emit α) : Prop :=
  ∀ c out, x c = .ok out → ∀ q ∈ dests out.code, Allowed r q.root

namespace Emit

variable {α β : Type} {r : Reach}

theorem Roots.done (a : α) : Roots r (Pure.pure a : Emit α) := by
  intro c out hx
  cases hx
  exact fun _ hq => (nomatch hq)

theorem Roots.fail (f : Fault) : Roots r (Emit.fail f : Emit α) := by
  intro c out hx
  cases hx

theorem Roots.use (s : Support) : Roots r (Emit.use s) := by
  intro c out hx
  cases hx
  exact fun _ hq => (nomatch hq)

theorem Roots.bind {x : Emit α} {f : α → Emit β} (h : Roots r x) (h' : ∀ a, Roots r (f a)) :
    Roots r (x >>= f) := by
  intro c out hx
  obtain ⟨first, second, hfirst, hsecond, rfl⟩ := bind_eq_ok_iff.1 hx
  unfold dests
  rw [List.filterMap_append]
  exact List.forall_mem_append.2 ⟨h _ _ hfirst, h' _ _ _ hsecond⟩

theorem Roots.ofExcept (x : Except Fault α) : Roots r (Emit.ofExcept x) := by
  cases x with
  | error f => exact .fail f
  | ok a => exact .done a

theorem Roots.label (l : Label) : Roots r (Emit.label l) := by
  intro c out hx
  cases hx
  exact fun _ hq => (nomatch hq)

theorem Roots.nextControl : Roots r Emit.nextControl := by
  intro c out hx
  cases hx
  exact fun _ hq => (nomatch hq)

theorem live_roots : Roots r live := by
  intro c out hx
  cases hc : c.closed with
  | false =>
      rw [live_open hc] at hx
      cases hx
      exact fun _ hq => (nomatch hq)
  | true =>
      rw [live_closed hc] at hx
      cases hx
      exact fun _ hq => (nomatch hq)

theorem Roots.instr {i : Instr} (h : ∀ q, i.dest? = some q → Allowed r q.root) :
    Roots r (Emit.instr i) := by
  refine live_roots.bind fun _ => ?_
  intro c out hx
  cases hx
  intro q hq
  obtain ⟨j, hj, hdest⟩ := List.mem_filterMap.1 hq
  obtain rfl := List.mem_singleton.1 hj
  exact h q hdest

theorem Roots.plain {i : Instr} (h : i.dest? = none) : Roots r (Emit.instr i) := by
  refine .instr fun q hq => ?_
  rw [h] at hq
  cases hq

theorem Roots.define {root : String} {i : Reg → Instr} (hroot : Allowed r root)
    (hdest : ∀ q, (i q).dest? = some q) : Roots r (Emit.define root i) := by
  intro c out hx
  obtain ⟨first, rest, hfirst, hrest, rfl⟩ := bind_eq_ok_iff.1 hx
  cases hfirst
  refine (Roots.bind (Roots.instr fun q hq => ?_) fun _ => Roots.done _) _ _ hrest
  rw [hdest] at hq
  cases hq
  exact hroot

theorem Roots.close {i : Instr} (h : i.dest? = none) : Roots r (Emit.close i) := by
  intro c out hx
  unfold Emit.close at hx
  split at hx
  · cases hx
    exact fun _ hq => (nomatch hq)
  · exact Roots.plain h c out hx

end Emit

open Emit

/-! ## Expressions -/

section

variable {r : Reach}

theorem load_roots {id : Symbol} (h : id.Stored r) (c : Context) (pos : Pos) :
    Roots r (load c pos id) :=
  (Roots.ofExcept _).bind fun _ => (Roots.ofExcept _).bind fun _ =>
    .define (.name h) fun _ => rfl

theorem store_roots (c : Context) (pos : Pos) (id : Symbol) (value : Operand) :
    Roots r (store c pos id value) :=
  (Roots.ofExcept _).bind fun _ => (Roots.ofExcept _).bind fun _ => .plain rfl

theorem convert_roots (pos : Pos) (src : Option Ty) (dst : Base) (x : Operand) :
    Roots r (convert pos src dst x) := by
  unfold convert
  split
  · unfold convertBase
    split
    · exact .done x
    · split
      · split <;> exact .define (.word (by decide)) fun _ => rfl
      · split
        · exact .define (.word (by decide)) fun _ => rfl
        · exact .fail _
  · exact .fail _

theorem print_roots (format : Support) (x : Typed) : Roots r (print format x) :=
  (Roots.use _).bind fun _ => (Roots.use _).bind fun _ => .plain rfl

theorem scan_roots (format place : Support) (type : IrType) : Roots r (scan format place type) :=
  (Roots.use _).bind fun _ => (Roots.use _).bind fun _ => (Roots.use _).bind fun _ =>
    .bind (.plain rfl) fun _ => .define (.word (by decide)) fun _ => rfl

theorem allocate_roots {root : String} (h : Allowed r root) (count : Operand) (size : Nat) :
    Roots r (allocate root count size) :=
  (Roots.use _).bind fun _ => .define h fun _ => rfl

theorem firstArg_roots (args : List Operand) : Roots r (firstArg args) := by
  cases args with
  | nil => exact .fail _
  | cons x rest => exact .done x

theorem builtin?_roots {name : String} {args : List Operand} {code : Emit Operand}
    (h : builtin? name args = some code) : Roots r code := by
  have hfirst : Roots r (firstArg args) := firstArg_roots args
  unfold builtin? at h
  split at h <;> cases h
  case h_1 | h_2 | h_5 =>
    exact hfirst.bind fun _ => (print_roots _ _).bind fun _ => .done _
  case h_3 =>
    exact hfirst.bind fun _ => .bind (.define (.word (by decide)) fun _ => rfl) fun _ =>
      (print_roots _ _).bind fun _ => .done _
  case h_4 =>
    exact hfirst.bind fun _ => (Roots.use _).bind fun _ => (Roots.use _).bind fun _ =>
      .bind (.define (.word (by decide)) fun _ => rfl) fun _ => (print_roots _ _).bind fun _ =>
        .done _
  case h_6 | h_7 | h_8 => exact scan_roots _ _ _
  case h_9 =>
    exact (scan_roots _ _ _).bind fun _ => .define (.word (by decide)) fun _ => rfl
  case h_10 =>
    exact (allocate_roots (.word (by decide)) _ _).bind fun _ => (Roots.use _).bind fun _ =>
      (Roots.use _).bind fun _ => .bind (.plain rfl) fun _ => .done _

theorem lowerCall_roots {args : Emit (List Operand)} (h : Roots r args) (pos : Pos)
    (func : Option Ident) : Roots r (lowerCall pos func args) := by
  refine (Roots.ofExcept _).bind fun callee => h.bind fun xs => ?_
  dsimp only
  split
  · split
    · next code hcode => exact builtin?_roots hcode
    · exact .fail _
  · refine (Roots.ofExcept _).bind fun typed => (Roots.ofExcept _).bind fun _ => ?_
    split
    · exact .bind (.plain rfl) fun _ => .done _
    · exact .define (.word (by decide)) fun _ => rfl

theorem BinOp.mnemonic_not_mem (op : BinOp) : op.mnemonic ∉ Label.roots := by
  cases op <;> simp [BinOp.mnemonic, Label.roots]

variable {c : Context}

theorem plain_roots {e : Expr} {raw : Emit Operand} (h : Roots r raw) :
    Roots r (plain c e raw) := by
  unfold plain
  split
  · exact h
  · split
    · exact .done _
    · exact h

theorem used_roots {e : Expr} {raw : Emit Operand} (h : Roots r raw) : Roots r (used c e raw) := by
  unfold used
  split
  · exact plain_roots h
  · split
    · exact .done _
    · exact (plain_roots h).bind fun _ => convert_roots _ _ _ _

/-- An element, and then a step that may name a register after its array. -/
theorem lowerElement_roots {α : Type} {array : Ident} {sym : Symbol} {elem : Base}
    (hrefers : array.Refers r sym) (hty : sym.type = .array elem) {index : Emit Operand}
    (hindex : Roots r index) {f : Symbol × Operand → Emit α}
    (hf : ∀ addr, Roots r (f (sym, addr))) :
    Roots r (lowerElement c (some array) index >>= f) := by
  obtain ⟨-, hstored⟩ := hrefers.known.element hty
  unfold lowerElement
  rw [ofExcept_bind (Ident.resolved_ok hrefers.symbol)]
  simp only [bind_assoc, pure_bind]
  exact (load_roots hstored _ _).bind fun _ => hindex.bind fun _ =>
    .bind (.define (.word (by decide)) fun _ => rfl) fun _ => hf _

theorem lowerArgs_roots {args : List Expr} (h : ∀ e ∈ args, Roots r (lowerRaw c e)) :
    Roots r (lowerArgs c args) := by
  induction args with
  | nil =>
      rw [lowerArgs]
      exact .done _
  | cons e rest ih =>
      obtain ⟨he, hrest⟩ := List.forall_mem_cons.1 h
      rw [lowerArgs]
      exact (used_roots he).bind fun _ => (ih hrest).bind fun _ => .done _

/-- Registers of an expression are named after operations and after variables within reach. -/
theorem lowerRaw_roots {e : Expr} (h : e.Typed r) : e.IsValue → Roots r (lowerRaw c e) := by
  induction h with
  | literal decoded note_of =>
      intro _
      rw [lowerRaw]
      exact (Roots.ofExcept _).bind fun _ => .done _
  | @ident id sym refers =>
      rintro ⟨ty, hty, hfunc⟩
      cases hty.symm.trans refers.note.type
      rw [lowerRaw, ofExcept_bind (Ident.resolved_ok refers.symbol)]
      exact load_roots (refers.known.stored hfunc).2 _ _
  | @unary _ _ _ _ ty operand husedType numeric note_of ih =>
      intro _
      have hfunc : ty.isFunc = false := by rcases numeric with rfl | ⟨rfl, -⟩ <;> rfl
      rw [lowerRaw]
      refine (used_roots (ih (operand.isValue husedType hfunc))).bind fun _ => ?_
      split
      · exact .done _
      · refine (Roots.ofExcept _).bind fun _ => ?_
        split <;> exact .define (.word (by decide)) fun _ => rfl
  | binary left right usedLeft usedRight accepts once note_of ihx ihy =>
      intro _
      rw [lowerRaw]
      refine (used_roots (ihx (left.isValue usedLeft accepts.isData.1))).bind fun _ => ?_
      refine (used_roots (ihy (right.isValue usedRight accepts.isData.2))).bind fun _ => ?_
      refine (Roots.ofExcept _).bind fun _ => ?_
      split
      · exact .define (.word (BinOp.mnemonic_not_mem _)) fun _ => rfl
      · exact .fail _
  | index refers type operand husedType note_of ih =>
      intro _
      rw [lowerRaw]
      have hstored := (refers.known.element type).2
      refine lowerElement_roots refers type (used_roots (ih (operand.isValue husedType rfl)))
        fun _ => ?_
      exact .define (.name hstored) fun _ => rfl
  | call refers type operands husedType note_of ih =>
      intro _
      obtain ⟨-, hparams, -⟩ := refers.known.signature type
      rw [lowerRaw]
      exact lowerCall_roots (lowerArgs_roots fun e he =>
        ih e he (Expr.isValue_of_argument husedType hparams he (operands e he))) _ _

theorem lowerExpr_roots {e : Expr} {ty : Ty} (h : e.UsedAs r ty) (hty : ty.isData = true) :
    Roots r (lowerExpr c e) :=
  used_roots (lowerRaw_roots h.typed (h.isValue hty))

/-! ## Statements -/

theorem lowerAssign_roots {target value : Expr} {noted : Option Ty}
    (h : AssignTyped r target value noted) (pos : Pos) :
    Roots r (lowerAssign c pos target value) := by
  obtain ⟨hplace, -, ty, hdata, htarget, hvalue, -⟩ := h
  have hv : Roots r (lowerExpr c value) := lowerExpr_roots hvalue hdata
  cases htarget.typed with
  | ident refers =>
      exact hv.bind fun _ => (Roots.ofExcept _).bind fun _ => store_roots _ _ _ _
  | index refers type operand hused note_of =>
      exact lowerElement_roots refers type (lowerExpr_roots ⟨operand, hused⟩ rfl) fun _ =>
        hv.bind fun _ => .plain rfl
  | literal _ _ => cases hplace
  | unary _ _ _ _ => cases hplace
  | binary _ _ _ _ _ _ _ => cases hplace
  | call _ _ _ _ _ => cases hplace

theorem lowerVars_roots {vars : List Node} (h : ∀ n ∈ vars, n.TypedVar r) :
    Roots r (lowerVars c vars) := by
  induction vars with
  | nil => exact .done _
  | cons n rest ih =>
      obtain ⟨hn, hrest⟩ := List.forall_mem_cons.1 h
      unfold Node.TypedVar at hn
      split at hn
      · exact ih hrest
      · rw [lowerVars]
        exact (lowerAssign_roots hn _).bind fun _ => ih hrest
      · exact hn.elim

theorem lowerArray_roots {id : Ident} {sym : Symbol} (hdecl : id.Declares r sym)
    (hname : sym.name = id.name) {size : Expr} (hsize : size.UsedAs r (.base .int)) :
    Roots r (lowerArray c (some id) size) := by
  have hroot : Allowed r id.name := hname ▸ Allowed.name hdecl.stored
  have hstore : ∀ count, Roots r (do
      let array ← allocate id.name count (elementSize sym.type.kind)
      store c id.pos sym array) :=
    fun count => (allocate_roots hroot count _).bind fun _ => store_roots _ _ _ _
  unfold lowerArray
  rw [ofExcept_bind (Ident.resolved_ok hdecl.symbol)]
  refine (Roots.ofExcept _).bind fun _ => (lowerExpr_roots hsize rfl).bind fun _ => ?_
  refine .bind (.define (.word (by decide)) fun _ => rfl) fun count => ?_
  dsimp only
  split
  · exact .bind (.define (.word (by decide)) fun _ => rfl) fun _ => hstore _
  · exact .bind (.done _) fun _ => hstore _

theorem lowerLoopCond_roots {cond inserted : Expr} (h : LoopCondTyped r cond inserted) :
    Roots r (lowerLoopCond c cond inserted) := by
  unfold lowerLoopCond
  rcases h with ⟨hcond, rfl⟩ | ⟨rfl, hins⟩
  · rw [hcond.typed.not_missing]
    exact lowerExpr_roots hcond rfl
  · rw [hins.typed.not_missing]
    exact lowerExpr_roots hins rfl

theorem turn_roots (l next : Label) : Roots r (turn l next) :=
  (Roots.close rfl).bind fun _ => .label next

theorem branch_roots (x : Operand) (yes no next : Label) : Roots r (branch x yes no next) :=
  (Roots.plain rfl).bind fun _ => .label next

theorem lowerIf_roots {cond : Emit Operand} {yes no : Emit Unit} (hcond : Roots r cond)
    (hyes : Roots r yes) (hno : Roots r no) : Roots r (lowerIf cond yes no) := by
  rw [lowerIf_eq]
  exact Roots.nextControl.bind fun _ => hcond.bind fun _ => (branch_roots _ _ _ _).bind fun _ =>
    hyes.bind fun _ => (turn_roots _ _).bind fun _ => hno.bind fun _ => turn_roots _ _

theorem lowerLoop_roots {body step : Emit Unit} {cond : Emit Operand} (hbody : Roots r body)
    (hstep : Roots r step) (hcond : Roots r cond) : Roots r (lowerLoop body step cond) := by
  rw [lowerLoop_eq]
  exact Roots.nextControl.bind fun _ => (turn_roots _ _).bind fun _ => hbody.bind fun _ =>
    hstep.bind fun _ => (turn_roots _ _).bind fun _ => hcond.bind fun _ => branch_roots _ _ _ _

theorem lowerPart_roots {part : Stmt}
    (h : part = .missing ∨ Roots r (lowerStmt c part)) : Roots r (lowerPart c part) := by
  unfold lowerPart
  split
  · exact .done _
  · next hhere => exact h.resolve_left fun hm => hhere (Stmt.isMissing_iff.2 hm)

mutual

/-- Registers of a statement are named after operations and after variables within reach. -/
theorem lowerStmt_roots : ∀ {stmt : Stmt}, stmt.Typed r → stmt.ArraysNamed →
    Roots r (lowerStmt c stmt)
  | .missing, h, _ => h.elim
  | .call _ _ _ _, h, _ => by
      cases h with
      | call refers type operands hused note_of =>
          obtain ⟨-, hparams, -⟩ := refers.known.signature type
          rw [lowerStmt]
          refine Roots.bind (lowerCall_roots (lowerArgs_roots fun e he => ?_) _ _) fun _ => .done _
          exact lowerRaw_roots (operands e he)
            (Expr.isValue_of_argument hused hparams he (operands e he))
  | .assign _ _ _ _, h, _ => by
      rw [lowerStmt]
      exact lowerAssign_roots h _
  | .varDecl _ _ _, h, _ => by
      rw [lowerStmt]
      exact lowerVars_roots h
  | .arrayDecl _ _ _ _, h, hn => by
      obtain ⟨id, sym, elem, rfl, hdecl, -, hsize⟩ := h
      rw [lowerStmt]
      exact lowerArray_roots hdecl (hn id sym rfl hdecl.symbol) hsize
  | .ifElse _ _ _ _, h, hn => by
      rw [lowerStmt]
      exact lowerIf_roots (lowerExpr_roots h.1 rfl) (lowerBlock_roots h.2.1 hn.1)
        (lowerBlock_roots h.2.2 hn.2)
  | .whileLoop _ _ _, h, hn => by
      rw [lowerStmt]
      exact lowerLoop_roots (lowerBlock_roots h.2 hn) (.done _) (lowerExpr_roots h.1 rfl)
  | .forLoop _ init _ _ step _, ⟨hinit, hcond, hstep, hbody⟩, ⟨hninit, hnstep, hnbody⟩ => by
      have hi : Roots r (lowerPart c init) :=
        lowerPart_roots (hinit.imp_right fun h => lowerStmt_roots h hninit)
      have hs : Roots r (lowerPart c step) :=
        lowerPart_roots (hstep.imp_right fun h => lowerStmt_roots h hnstep)
      rw [lowerStmt_forLoop]
      exact hi.bind fun _ => lowerLoop_roots (lowerBlock_roots hbody hnbody) hs
        (lowerLoopCond_roots hcond)
  | .block _, h, hn => by
      rw [lowerStmt]
      exact lowerBlock_roots h hn
  | .funcDecl _ _ _ _ _ _ _, _, _ => by
      rw [lowerStmt]
      exact .done _
  | .ret _ value, h, _ => by
      obtain ⟨f, -, ⟨rfl, -⟩ | ⟨hdata, hv⟩⟩ := h
      · rw [lowerStmt]
        exact .plain rfl
      · rw [lowerStmt, hv.typed.not_missing]
        exact (lowerExpr_roots hv hdata).bind fun _ => (Roots.ofExcept _).bind fun _ => .plain rfl

theorem lowerBlock_roots : ∀ {b : Block}, b.Typed r → b.ArraysNamed → Roots r (lowerBlock c b)
  | .missing, _, _ => by
      rw [lowerBlock]
      exact .done _
  | .of _ _, h, hn => by
      rw [lowerBlock]
      exact lowerStmts_roots h hn

theorem lowerStmts_roots : ∀ {stmts : List Stmt}, Stmt.AllTyped r stmts →
    Stmt.AllArraysNamed stmts → Roots r (lowerStmts c stmts)
  | [], _, _ => by
      rw [lowerStmts]
      exact .done _
  | _ :: _, h, hn => by
      rw [lowerStmts]
      exact (lowerStmt_roots h.1 hn.1).bind fun _ => lowerStmts_roots h.2 hn.2

end

end

/-! ## Definitions -/

/-- The variables that a definition reaches: those of the program, and its own if it has some. -/
def Definition.variables (globals : List Symbol) (d : Definition) : List Symbol :=
  match d.origin with
  | .function f => globals ++ f.params ++ f.locals
  | .initializer => globals

theorem mem_of_stored {globals : List Symbol} {f : Function} {id : Symbol}
    (h : id.Stored ⟨globals, some f⟩) : id ∈ globals ++ f.params ++ f.locals := by
  unfold Symbol.Stored at h
  split at h
  · simp [h]
  · simp [h]
  · obtain ⟨_, hf, hparam⟩ := h
    cases hf
    simp [List.mem_of_find?_eq_some hparam]
  · obtain ⟨_, hf, hlocal⟩ := h
    cases hf
    simp [hlocal]
  · exact h.elim

theorem mem_globals_of_stored {globals : List Symbol} {id : Symbol}
    (h : id.Stored ⟨globals, none⟩) : id ∈ globals := by
  unfold Symbol.Stored at h
  split at h
  · exact h
  · exact h
  · obtain ⟨_, hf, -⟩ := h
    cases hf
  · obtain ⟨_, hf, -⟩ := h
    cases hf
  · exact h.elim

theorem lowerBody_roots {r : Reach} {d : FuncDecl} {f : Function} (hbody : d.body.Typed r)
    (hnamed : d.body.ArraysNamed) {fold initialized : Bool} :
    Roots r (lowerBody fold initialized d f) := by
  have hclose : Roots r (close (if f.result.isVoid then .ret none else .unreachable)) := by
    split <;> exact .close rfl
  unfold lowerBody
  dsimp only
  split
  · exact (Roots.plain rfl).bind fun _ => (lowerBlock_roots hbody hnamed).bind fun _ => hclose
  · exact (lowerBlock_roots hbody hnamed).bind fun _ => hclose

/-- What a function does first defines no registers. -/
theorem dests_opening (f : Option Function) (code : List Instr) :
    dests (opening f ++ code) = dests code := by
  unfold dests
  rw [List.filterMap_append, List.filterMap_eq_nil_iff.2 (opening_dest f), List.nil_append]

theorem Definition.Lowered.roots {a : Analysis} {fold : Bool} {d : Definition}
    (h : d.Lowered a fold) (htyped : a.program.Typed ⟨a.globals, none⟩)
    (hnamed : a.program.ArraysNamed) {q : Reg} (hq : q ∈ dests d.code)
    (hroot : q.root ∈ Label.roots) : ∃ id ∈ d.variables a.globals, id.name = q.root := by
  cases h with
  | @function ds decl f initialized start out functions declared described lowered =>
      obtain ⟨hplaced, hlocals, hbody⟩ := htyped.described functions declared described
      have hbodyNamed := Block.ArraysNamed.functions htyped hnamed functions decl declared
      obtain ⟨rest, hrest, rfl⟩ := lowerFunction_ok hplaced hlocals lowered
      have hq : q ∈ dests (opening (some f) ++ rest.code) := hq
      rw [dests_opening] at hq
      obtain ⟨id, hid, hname⟩ := lowerBody_roots hbody hbodyNamed _ _ hrest q hq hroot
      exact ⟨id, mem_of_stored hid, hname⟩
  | @initializer start out lowered =>
      obtain ⟨first, rest, hfirst, hrest, rfl⟩ := bind_eq_ok_iff.1 lowered
      cases hfirst
      have hq : q ∈ dests (opening none ++ rest.code) := hq
      rw [dests_opening] at hq
      have hroots : Roots ⟨a.globals, none⟩ (do
          lowerBlock ⟨fold, none⟩ a.program
          close (.ret none)) :=
        (lowerBlock_roots htyped hnamed).bind fun _ => .close rfl
      obtain ⟨id, hid, hname⟩ := hroots _ _ hrest q hq hroot
      exact ⟨id, mem_globals_of_stored hid, hname⟩

theorem Definition.parts?_of_mem_values {d : Definition} {x : Operand} (h : x ∈ d.values) :
    x.parts?.isSome = true ∧ ∀ q, x = .reg q → q ∈ dests d.code := by
  rcases List.mem_append.1 h with h | h
  · obtain ⟨id, -, rfl⟩ := List.mem_map.1 h
    exact ⟨rfl, fun q hq => (nomatch hq)⟩
  · obtain ⟨i, hi, hvalue⟩ := List.mem_filterMap.1 h
    unfold Instr.value? at hvalue
    cases hs : i.slot? with
    | some name =>
        rw [hs] at hvalue
        cases hvalue
        exact ⟨rfl, fun q hq => (nomatch hq)⟩
    | none =>
        rw [hs, Option.map_none, Option.none_or] at hvalue
        obtain ⟨q, hq, rfl⟩ := Option.map_eq_some_iff.1 hvalue
        refine ⟨rfl, fun q' hq' => ?_⟩
        cases hq'
        exact List.mem_filterMap.2 ⟨i, hi, hq⟩

end Llvm

/-- A value of a function can have the name of a label of the function in one way only: it is a
register that is named after a variable within reach, the variable is named like the root of the
label, and the register happens to have the number of the label. So where no such variable is within
reach, the names of labels differ from those of parameters, places and registers. -/
theorem Analysis.llvm_label_eq_value_iff {b : Block} {a : Analysis}
    (ha : Analysis.ofProgram b = .ok a) (opts : Options) :
    ∃ module, Llvm.Module.ofAnalysis a opts = .ok module ∧
      ∀ d ∈ module.definitions, ∀ l ∈ Llvm.labels d.code, ∀ x ∈ d.values,
        x.text = "%" ++ l.text ↔
          ∃ id ∈ d.variables a.globals, id.name ∈ Llvm.Label.roots ∧
            ∃ n, x = .reg ⟨id.name, n⟩ ∧ l.text = Fresh.name id.name n := by
  obtain ⟨htyped, -, hstatic⟩ := Analysis.ofProgram_checked ha
  have hnamed := Analysis.ofProgram_arraysNamed ha
  obtain ⟨pos, stmts, t, stmts', -, -, rfl⟩ := Analysis.ofProgram_ok ha
  obtain ⟨module, hmodule⟩ := Llvm.Module.ofAnalysis_succeeds rfl htyped hstatic opts
  refine ⟨module, hmodule, fun d hd l _ x hx => ⟨fun htext => ?_, ?_⟩⟩
  · obtain ⟨hparts, hdest⟩ := Llvm.Definition.parts?_of_mem_values hx
    obtain ⟨q, rfl, hl⟩ := Llvm.Operand.eq_reg_of_text hparts htext
    have hroot := Llvm.Label.root_mem hl
    obtain ⟨id, hid, hname⟩ :=
      (Llvm.Module.lowered hmodule d hd).roots htyped hnamed (hdest q rfl) hroot
    rw [← hname] at hroot hl
    exact ⟨id, hid, hroot, q.number, by rw [hname], Llvm.Label.text_eq hl⟩
  · rintro ⟨id, -, -, n, rfl, hl⟩
    rw [hl, Llvm.Operand.text]

/-- What counts is what a function reaches: the parameter `if.then` belongs to another function than
the label with that root. -/
theorem Analysis.llvm_label_eq_value_iff_elsewhere :
    ∃ b a module d,
      Block.parse ("(func void g ((int if.then)) (block (call print_int if.then))) " ++
        "(func void f ((int then)) (block (if true (block (call print_int then)))))") = .ok b ∧
      Analysis.ofProgram b = .ok a ∧ Llvm.Module.ofAnalysis a ⟨true, "program"⟩ = .ok module ∧
      d ∈ module.definitions ∧ .ifThen 1 ∈ Llvm.labels d.code ∧ .reg ⟨"then", 1⟩ ∈ d.values ∧
      ∀ l ∈ Llvm.labels d.code, ∀ x ∈ d.values, x.text ≠ "%" ++ l.text := by
  have htext : ((Analysis.ofText?
      ("(func void g ((int if.then)) (block (call print_int if.then))) " ++
        "(func void f ((int then)) (block (if true (block (call print_int then)))))")).any fun a =>
        (Llvm.Module.ofAnalysis a ⟨true, "program"⟩).toOption.any fun m =>
          m.definitions.any fun d => decide (.ifThen 1 ∈ Llvm.labels d.code ∧
            .reg ⟨"then", 1⟩ ∈ d.values ∧
            ∀ id ∈ d.variables a.globals, id.name ∉ Llvm.Label.roots)) = true := by
    decide +kernel
  obtain ⟨a, ha, hany⟩ := (Option.any_eq_true _ _).1 htext
  obtain ⟨b, hb, ha⟩ := Analysis.ofText?_eq_some ha
  obtain ⟨module, hmodule, hall⟩ := Analysis.llvm_label_eq_value_iff ha ⟨true, "program"⟩
  rw [hmodule] at hany
  obtain ⟨d, hd, hfacts⟩ := List.any_eq_true.1 hany
  obtain ⟨hlabel, hvalue, hnames⟩ := of_decide_eq_true hfacts
  refine ⟨b, a, module, d, hb, ha, hmodule, hd, hlabel, hvalue, fun l hl x hx heq => ?_⟩
  obtain ⟨id, hid, hroot, -⟩ := (hall d hd l hl x hx).1 heq
  exact hnames id hid hroot

/-- A parameter that is named like the root of a label, and a register with the name of that label,
whether constants are folded or not. -/
theorem Analysis.llvm_label_value_clash :
    ∃ b a,
      Block.parse
          "(func void f ((int if.then)) (block (if true (block (call print_int if.then)))))" =
        .ok b ∧
      Analysis.ofProgram b = .ok a ∧
      ∀ fold, ∃ module d, Llvm.Module.ofAnalysis a ⟨fold, "program"⟩ = .ok module ∧
        d ∈ module.definitions ∧ .ifThen 1 ∈ Llvm.labels d.code ∧
        .reg ⟨"if.then", 1⟩ ∈ d.values ∧
        (Llvm.Operand.reg ⟨"if.then", 1⟩).text = "%" ++ (Llvm.Label.ifThen 1).text := by
  have htext : ((Analysis.ofText?
      "(func void f ((int if.then)) (block (if true (block (call print_int if.then)))))").any fun a =>
        [true, false].all fun fold =>
          (Llvm.Module.ofAnalysis a ⟨fold, "program"⟩).toOption.any fun m =>
            m.definitions.any fun d => decide (.ifThen 1 ∈ Llvm.labels d.code ∧
              .reg ⟨"if.then", 1⟩ ∈ d.values)) = true := by
    decide +kernel
  obtain ⟨a, ha, hall⟩ := (Option.any_eq_true _ _).1 htext
  obtain ⟨b, hb, ha⟩ := Analysis.ofText?_eq_some ha
  refine ⟨b, a, hb, ha, fun fold => ?_⟩
  have hfold := List.all_eq_true.1 hall fold (by cases fold <;> decide)
  obtain ⟨module, hmodule, hany⟩ := Except.any_toOption hfold
  obtain ⟨d, hd, hfacts⟩ := List.any_eq_true.1 hany
  obtain ⟨hlabel, hvalue⟩ := of_decide_eq_true hfacts
  exact ⟨module, d, hmodule, hd, hlabel, hvalue, by decide⟩

end SmallC
