import Mathlib.Data.List.Forall2
import SmallC.Proofs.CheckSteps

/-!
# The arguments of a call

A check stops at the first fault, with one exception: the arguments of a call
that cannot be converted to the types of their parameters are reported together.
What the check of a call comes to is settled here for arguments that pass the
check on their own. It depends on their types alone: the faults are those of the
arguments whose types do not fit, in order, and if there are none then each
argument is passed with the conversion that its type asks for.
-/

namespace SmallC

/-- An expression stays where it is when it is checked, and what is known of it then is its type;
the conversion is left to the user of the value. -/
theorem Expr.check_keeps {t : Table} {s : Nat} {e e' : Expr} {ty : Ty}
    (h : e.check t s = .ok (ty, e')) : e'.pos = e.pos ∧ e'.note = { type := some ty } := by
  cases e with
  | missing | convert _ _ _ => simp [Expr.check] at h
  | literal _ _ _ _ =>
      obtain ⟨v, -, rfl, rfl⟩ := Expr.check_literal_ok h
      exact ⟨rfl, rfl⟩
  | ident _ =>
      obtain ⟨sym, -, rfl, rfl⟩ := Expr.check_ident_ok h
      exact ⟨rfl, rfl⟩
  | unary _ _ _ _ =>
      obtain ⟨_, _, _, -, -, -, rfl⟩ := Expr.check_unary_ok h
      exact ⟨rfl, rfl⟩
  | binary _ _ _ _ _ =>
      obtain ⟨_, _, _, _, _, _, _, _, _, -, -, -, -, -, -, rfl, rfl⟩ := Expr.check_binary_ok h
      exact ⟨rfl, rfl⟩
  | index _ _ _ _ =>
      obtain ⟨_, _, _, _, _, _, -, -, -, -, -, rfl, rfl⟩ := Expr.check_index_ok h
      exact ⟨rfl, rfl⟩
  | call _ _ _ _ =>
      obtain ⟨_, _, _, _, -, -, -, -, -, rfl⟩ := Expr.check_call_ok h
      exact ⟨rfl, rfl⟩

theorem Expr.note_withNote {e : Expr} {n : Note} (h : e.note.type ≠ none) :
    (e.withNote n).note = n := by
  cases e with
  | missing => exact absurd rfl h
  | convert _ _ _ => exact absurd rfl h
  | literal _ _ _ _ | ident _ | unary _ _ _ _ | binary _ _ _ _ _ | index _ _ _ _
  | call _ _ _ _ => rfl

/-! ## One argument -/

/-- An expression of type `src` where one of type `dst` is wanted: the conversion is noted if the
types differ. -/
def Expr.passedAs (e : Expr) (src dst : Ty) : Expr :=
  if src = dst then e else e.withNote { e.note with conv := some ⟨dst.kind, some dst⟩ }

/-- What is said of argument number `i` of the function `name` if its type does not fit. -/
def Fault.argument (name : String) (i : Nat) (src dst : Ty) : Fault :=
  .within ("argument " ++ toString i ++ " of " ++ name) [.traced (.inconvertible src dst)]

theorem Ty.assignable_iff {src dst : Ty} :
    src.assignable dst = true ↔ src = dst ∨ src.convertible dst = true := by
  simp [Ty.assignable]

theorem Ty.not_assignable_iff {src dst : Ty} :
    src.assignable dst = false ↔ src ≠ dst ∧ src.convertible dst = false := by
  simp [Ty.assignable]

theorem Expr.coerce_eq (e : Expr) (src dst : Ty) :
    e.coerce src dst =
      if src.assignable dst = true then .ok (e.passedAs src dst)
      else .error (.inconvertible src dst) := by
  unfold Expr.coerce Expr.passedAs
  by_cases heq : src = dst
  · rw [if_pos heq, if_pos (Ty.assignable_iff.2 (.inl heq)), if_pos heq]
  · rw [if_neg heq, if_neg heq]
    by_cases hconv : src.convertible dst = true
    · rw [if_pos hconv, if_pos (Ty.assignable_iff.2 (.inr hconv))]
    · rw [if_neg hconv, if_neg fun h => (Ty.assignable_iff.1 h).elim heq hconv]

theorem Expr.conv_passedAs {t : Table} {s : Nat} {e e' : Expr} {src : Ty} (dst : Ty)
    (h : e.check t s = .ok (src, e')) :
    (e'.passedAs src dst).note.conv =
      if src = dst then none else some ⟨dst.kind, some dst⟩ := by
  have hnote := (Expr.check_keeps h).2
  unfold Expr.passedAs
  by_cases heq : src = dst
  · rw [if_pos heq, if_pos heq, hnote]
  · rw [if_neg heq, if_neg heq, Expr.note_withNote (by rw [hnote]; exact Option.some_ne_none _)]

/-! ## All arguments -/

/-- What is said of the arguments whose types do not fit, in order. The arguments are counted
from `i`. -/
def Fault.arguments (name : String) (i : Nat) (types params : List Ty) : List Fault :=
  (((types.zip params).zipIdx i).filter fun x => !x.1.1.assignable x.1.2).map fun x =>
    argument name x.2 x.1.1 x.1.2

theorem Fault.arguments_cons (name : String) (i : Nat) (type param : Ty) (types params : List Ty) :
    arguments name i (type :: types) (param :: params) =
      (if type.assignable param = true then [] else [argument name i type param]) ++
        arguments name (i + 1) types params := by
  unfold arguments
  rw [List.zip_cons_cons, List.zipIdx_cons, List.filter_cons]
  cases hfits : type.assignable param <;> simp

theorem Fault.arguments_eq_nil_iff {name : String} {i : Nat} {types params : List Ty} :
    arguments name i types params = [] ↔ ∀ p ∈ types.zip params, p.1.assignable p.2 = true := by
  induction types generalizing i params with
  | nil => simp [arguments]
  | cons type types ih =>
      cases params with
      | nil => simp [arguments]
      | cons param params =>
          rw [arguments_cons, List.append_eq_nil_iff, ih, List.zip_cons_cons, List.forall_mem_cons]
          cases type.assignable param <;> simp

/-- The arguments of a call, each with its type, as the parameters want them. An argument that does
not fit stays as it is. -/
def Expr.passAll (checked : List (Ty × Expr)) (params : List Ty) : List Expr :=
  List.zipWith (fun c param => if c.1.assignable param then c.2.passedAs c.1 param else c.2)
    checked params

/-- The arguments are checked one by one, and the faults of those that do not fit are collected. -/
theorem Expr.checkArgs_eq {t : Table} {s : Nat} {name : String} {args : List Expr}
    {checked : List (Ty × Expr)}
    (hargs : List.Forall₂ (fun e c => e.check t s = .ok c) args checked) :
    ∀ {params : List Ty} (i : Nat), params.length = args.length →
      Expr.checkArgs t s name i params args =
        .ok (passAll checked params, Fault.arguments name i (checked.map Prod.fst) params) := by
  induction hargs with
  | nil =>
      intro params i hlen
      obtain rfl := List.length_eq_zero_iff.1 hlen
      rfl
  | @cons e c args checked he _ ih =>
      intro params i hlen
      cases params with
      | nil => cases hlen
      | cons param params =>
          obtain ⟨type, e'⟩ := c
          rw [Expr.checkArgs, he, ih (i + 1) (Nat.succ.inj hlen), List.map_cons,
            Fault.arguments_cons]
          simp only [bind, Except.bind, Expr.coerce_eq]
          cases hfits : type.assignable param <;> simp [passAll, hfits, pure, Except.pure]
          rfl

/-- If every argument fits, each is passed with its own conversion. -/
theorem Expr.passAll_of_fits {checked : List (Ty × Expr)} {params : List Ty}
    (h : ∀ p ∈ (checked.map Prod.fst).zip params, p.1.assignable p.2 = true) :
    passAll checked params =
      List.zipWith (fun c param => c.2.passedAs c.1 param) checked params := by
  induction checked generalizing params with
  | nil => rfl
  | cons c checked ih =>
      cases params with
      | nil => rfl
      | cons param params =>
          rw [List.map_cons, List.zip_cons_cons, List.forall_mem_cons] at h
          obtain ⟨hfits, hrest⟩ := h
          unfold passAll at ih ⊢
          rw [List.zipWith_cons_cons, List.zipWith_cons_cons, ih hrest, if_pos hfits]

theorem Expr.conv_passAll {t : Table} {s : Nat} {args : List Expr} {checked : List (Ty × Expr)}
    (hargs : List.Forall₂ (fun e c => e.check t s = .ok c) args checked) :
    ∀ {params : List Ty},
      (List.zipWith (fun c param => c.2.passedAs c.1 param) checked params).map (·.note.conv) =
        List.zipWith (fun c param => if c.1 = param then none else some ⟨param.kind, some param⟩)
          checked params := by
  induction hargs with
  | nil => exact rfl
  | @cons e c args checked he _ ih =>
      intro params
      cases params with
      | nil => rfl
      | cons param params =>
          rw [List.zipWith_cons_cons, List.zipWith_cons_cons, List.map_cons, ih,
            Expr.conv_passedAs param he]

/-! ## The call -/

/-- What the check of the arguments of a call comes to: all of them passed, or one fault that groups
those that do not fit. -/
def Expr.passOrFault (name : String) (pos : Pos) (checked : List (Ty × Expr)) (params : List Ty) :
    Except Fault (List Expr) :=
  match Fault.aggregate? .argumentTypeMismatch pos
      (Fault.arguments name 1 (checked.map Prod.fst) params) with
  | some fault => .error fault
  | none => .ok (passAll checked params)

section

variable {t : Table} {s : Nat} {pos : Pos} {id : Ident} {sym : Symbol} {result : Ty}
  {params : List Ty} {args : List Expr} {checked : List (Ty × Expr)}

theorem checkCall_eq (hid : t.lookup s id.name = some sym) (htype : sym.type = .func result params)
    (hcount : params.length = args.length)
    (hargs : List.Forall₂ (fun e c => e.check t s = .ok c) args checked) :
    checkCall t s pos (some id) args.length
        (fun name params => Expr.checkArgs t s name 1 params args) =
      (Expr.passOrFault id.name pos checked params).map fun args' =>
        (result, id.referTo sym, args') := by
  have hresolve : id.resolve t s = .ok (.func result params, id.referTo sym) := by
    unfold Ident.resolve
    rw [hid, ← htype]
    rfl
  have hname : (id.referTo sym).name = id.name := rfl
  unfold checkCall Expr.passOrFault
  simp only [Ident.present, hresolve, bind, Except.bind, hcount, ne_eq, not_true, if_false,
    Expr.checkArgs_eq hargs 1 hcount, hname]
  cases Fault.aggregate? .argumentTypeMismatch pos
    (Fault.arguments id.name 1 (checked.map Prod.fst) params) <;> rfl

theorem Expr.passOrFault_error_iff {name : String} :
    (∃ fault, passOrFault name pos checked params = .error fault) ↔
      ∃ p ∈ (checked.map Prod.fst).zip params, p.1.assignable p.2 = false := by
  have hnil := @Fault.arguments_eq_nil_iff name 1 (checked.map Prod.fst) params
  unfold passOrFault
  cases hfaults : Fault.arguments name 1 (checked.map Prod.fst) params with
  | nil =>
      have hfits := hnil.1 hfaults
      constructor
      · rintro ⟨fault, h⟩
        cases h
      · rintro ⟨p, hp, h⟩
        rw [hfits p hp] at h
        cases h
  | cons f fs =>
      refine ⟨fun _ => ?_, fun _ => ⟨_, rfl⟩⟩
      by_contra hno
      have hfits : ∀ p ∈ (checked.map Prod.fst).zip params, p.1.assignable p.2 = true := by
        intro p hp
        by_contra h
        exact hno ⟨p, hp, Bool.eq_false_iff.2 h⟩
      rw [hnil.2 hfits] at hfaults
      cases hfaults

theorem Expr.passOrFault_eq_error {name : String} {fault : Fault}
    (h : passOrFault name pos checked params = .error fault) :
    fault = .located .argumentTypeMismatch pos
      (Fault.arguments name 1 (checked.map Prod.fst) params) := by
  unfold passOrFault at h
  cases hfaults : Fault.arguments name 1 (checked.map Prod.fst) params with
  | nil => rw [hfaults] at h; cases h
  | cons f fs => rw [hfaults] at h; cases h; rfl

theorem Expr.passOrFault_eq_ok {name : String} {args' : List Expr}
    (h : passOrFault name pos checked params = .ok args') :
    args' = List.zipWith (fun c param => c.2.passedAs c.1 param) checked params := by
  have hnil := @Fault.arguments_eq_nil_iff name 1 (checked.map Prod.fst) params
  unfold passOrFault at h
  cases hfaults : Fault.arguments name 1 (checked.map Prod.fst) params with
  | nil =>
      rw [hfaults] at h
      cases h
      exact passAll_of_fits (hnil.1 hfaults)
  | cons f fs => rw [hfaults] at h; cases h

/-- The check of a call whose arguments pass it on their own, be the call an expression or a
statement. It fails exactly if the type of some argument neither is nor converts to the type of its
parameter. The fault then stands at the call and groups one fault for each such argument, in order
and with its number. Otherwise each argument is as it was checked, and noted with a conversion to
the type of the parameter exactly if the types differ. -/
theorem check_call_arguments {note : Note} (hid : t.lookup s id.name = some sym)
    (htype : sym.type = .func result params) (hcount : params.length = args.length)
    (hargs : List.Forall₂ (fun e c => e.check t s = .ok c) args checked) :
    ∃ outcome : Except Fault (List Expr),
      (Expr.call pos (some id) args note).check t s = outcome.map (fun args' =>
        (result, .call pos (some (id.referTo sym)) args' { type := some result })) ∧
      (Stmt.call pos (some id) args note).check t s = outcome.map (fun args' =>
        (t, .call pos (some (id.referTo sym)) args' { type := some result })) ∧
      ((∃ fault, outcome = .error fault) ↔
        ∃ p ∈ (checked.map Prod.fst).zip params, p.1 ≠ p.2 ∧ p.1.convertible p.2 = false) ∧
      (∀ fault, outcome = .error fault → fault = .located .argumentTypeMismatch pos
        (Fault.arguments id.name 1 (checked.map Prod.fst) params)) ∧
      (∀ args', outcome = .ok args' →
        args' = List.zipWith (fun c param => c.2.passedAs c.1 param) checked params ∧
        args'.map (·.note.conv) = List.zipWith
          (fun c param => if c.1 = param then none else some ⟨param.kind, some param⟩)
          checked params) := by
  refine ⟨Expr.passOrFault id.name pos checked params, ?_, ?_, ?_, ?_, ?_⟩
  · rw [Expr.check, checkCall_eq hid htype hcount hargs]
    cases Expr.passOrFault id.name pos checked params <;> rfl
  · rw [Stmt.check, checkCall_eq hid htype hcount hargs]
    cases Expr.passOrFault id.name pos checked params <;> rfl
  · simp only [← Ty.not_assignable_iff]
    exact Expr.passOrFault_error_iff
  · exact fun _ => Expr.passOrFault_eq_error
  · intro args' h
    obtain rfl := Expr.passOrFault_eq_ok h
    exact ⟨rfl, Expr.conv_passAll hargs⟩

end

/-- Two of three arguments are arrays and do not fit. The integer between them would be
converted. -/
theorem check_call_arguments_arrays :
    ∃ (t : Table) (f x : Ident) (one : Expr) (pos : Pos),
      (Expr.call pos (some f) [.ident x, one, .ident x] {}).check t 0 =
        .error (.located .argumentTypeMismatch pos
          [.argument "f" 1 (.array .char) (.base .int),
            .argument "f" 3 (.array .char) (.base .bool)]) := by
  let f : Symbol :=
    .fresh "f" (.func (.base .void) [.base .int, .base .float, .base .bool]) none
  let x : Symbol := .fresh "x" (.array .char) none
  let t : Table := ⟨⟨#[⟨[0], [("f", f), ("x", x)]⟩]⟩, #[]⟩
  let id : Ident := ⟨⟨1, 7⟩, "f", none, {}⟩
  let arg : Ident := ⟨⟨1, 9⟩, "x", none, {}⟩
  have hargs : List.Forall₂ (fun e c => Expr.check t 0 e = .ok c)
      [.ident arg, .literal ⟨1, 11⟩ "1" none {}, .ident arg]
      [(.array .char, .ident (arg.referTo x)),
        (.base .int, .literal ⟨1, 11⟩ "1" (some (.int 1)) { type := some (.base .int) }),
        (.array .char, .ident (arg.referTo x))] :=
    .cons rfl (.cons rfl (.cons rfl .nil))
  obtain ⟨outcome, hcheck, -, hiff, hfault, -⟩ :=
    @check_call_arguments t 0 ⟨1, 1⟩ id f _ _ _ _ {} rfl rfl rfl hargs
  obtain ⟨fault, hfails⟩ := hiff.2 ⟨(.array .char, .base .int), by decide, by decide, by decide⟩
  refine ⟨t, id, arg, .literal ⟨1, 11⟩ "1" none {}, ⟨1, 1⟩, ?_⟩
  rw [hcheck, hfails, hfault fault hfails]
  rfl

end SmallC
