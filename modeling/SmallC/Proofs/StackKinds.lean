import SmallC.Cil.Assembly
import SmallC.Proofs.Reach

/-!
# The evaluation stack

An instruction of the stack machine finds its operands where earlier instructions
have left them, and nothing in the instruction says what they are. This file goes
through code from its first instruction to its last, with the kinds of the values
in place of the values: `Frame.step` is what the machine asks of the stack before
an instruction and what it finds there afterwards. Labels and branches ask for an
empty stack, so it does not matter from where control comes.

What is pushed for a type can be popped for it, which is `pop_push`. So whoever
has code that pushes a value of a type need not know what the kind of the type is.
-/

namespace SmallC.Cil

/-! ## Kinds -/

/-- What the machine knows about a value on the stack. The absent array is of a kind of its own. -/
inductive StackKind where
  | int32
  | float32
  | array (elem : Base)
  | string
  | null
deriving DecidableEq, Repr

namespace StackKind

/-- The kind of the values of a type. -/
def ofTy? : Ty → Option StackKind
  | .base .int | .base .char | .base .bool => some int32
  | .base .float => some float32
  | .array elem => if elem.isData then some (array elem) else none
  | _ => none

/-- Whether a value of a kind will do where one of a type is needed. The absent array does for
arrays of all types. -/
def fits (k : StackKind) (ty : Ty) : Bool :=
  match k, ty with
  | null, .array elem => elem.isData
  | k, ty => ofTy? ty == some k

/-- The kinds that there is arithmetic for. -/
def isNumber : StackKind → Bool
  | int32 | float32 => true
  | array _ | string | null => false

/-- The stack with a value of a type on top. -/
def push (ty : Ty) (s : List StackKind) : Option (List StackKind) := (ofTy? ty).map (· :: s)

/-- The stack without the value on top, which has to be one of a type. -/
def pop (ty : Ty) : List StackKind → Option (List StackKind)
  | k :: s => if k.fits ty then some s else none
  | [] => none

/-- The stack with the arguments of a call on top, the last one topmost. -/
def pushAll (params : List Ty) (s : List StackKind) : Option (List StackKind) :=
  params.foldlM (fun s ty => push ty s) s

/-- The stack without the arguments of a call. -/
def popAll (params : List Ty) (s : List StackKind) : Option (List StackKind) := params.foldrM pop s

/-- The stack with the result of a call on top, if there is one. -/
def give (result : Ty) (s : List StackKind) : Option (List StackKind) :=
  if result = .base .void then some s else push result s

/-- The stack without the result of a method, if there is one. -/
def take (result : Ty) (s : List StackKind) : Option (List StackKind) :=
  if result = .base .void then some s else pop result s

/-- The stack where it has to be empty. -/
def empty : List StackKind → Option (List StackKind)
  | [] => some []
  | _ :: _ => none

/-- The stack with the value on top replaced by one of another kind, if the machine can convert
it. -/
def convert (target : StackKind) : List StackKind → Option (List StackKind)
  | k :: s => if k.isNumber then some (target :: s) else none
  | [] => none

/-- The stack with the two values on top replaced by one. They have to be of one kind, for which the
operator is there. -/
def combine (applies : StackKind → Bool) (result : StackKind → StackKind) :
    List StackKind → Option (List StackKind)
  | y :: x :: s => if x = y ∧ applies x then some (result x :: s) else none
  | _ => none

end StackKind

open StackKind (push pop pushAll popAll give take)

/-! ## Frames -/

/-- What the code of a method may refer to, as it is declared, and the type of what it returns. -/
structure Frame where
  result : Ty
  params : List Symbol
  locals : List Symbol
  fields : List Symbol

/-- The frame of a method of a class with some fields. -/
def Method.frame (fields : List Symbol) (m : Method) : Frame :=
  match m.origin with
  | .function f => ⟨f.result, f.params, m.locals, fields⟩
  | .initializer => ⟨.base .void, [], m.locals, fields⟩

/-- What a method of the class library does to the stack. -/
def Library.step (s : List StackKind) : Library → Option (List StackKind)
  | write kind => pop (.base kind) s
  | writeString =>
    match s with
    | .string :: s => some s
    | _ => none
  | newString => (pop (.array .char) s).map (.string :: ·)
  | readLine => some (.string :: s)
  | parse kind =>
    match s with
    | .string :: s => push (.base kind) s
    | _ => none
  | charAt =>
    match s with
    | .int32 :: .string :: s => push (.base .char) s
    | _ => none
  | toChars =>
    match s with
    | .string :: s => push (.array .char) s
    | _ => none

namespace Frame

/-- The declared type of a symbol, among those of its class. -/
def typeOf? (ids : List Symbol) (name : String) : Option Ty := (Symbol.find? name ids).map (·.type)

/-- What an instruction does to the stack, its top first. There is nothing where the stack is too
small or holds values of a wrong kind, where something is not declared or declared with another
type, and where the stack should be empty and is not. -/
def step (fr : Frame) (s : List StackKind) : Instr → Option (List StackKind)
  | .ldcHex _ | .ldcDec _ | .ldcShort _ | .ldcZero | .ldcOne => some (.int32 :: s)
  | .ldcReal _ => some (.float32 :: s)
  | .ldnull => some (.null :: s)
  | .add | .sub | .mul | .div => StackKind.combine StackKind.isNumber id s
  | .neg =>
    match s with
    | k :: s => if k.isNumber then some (k :: s) else none
    | [] => none
  | .and | .or | .xor => StackKind.combine (· = .int32) id s
  | .ceq => StackKind.combine (fun _ => true) (fun _ => .int32) s
  | .cgt | .clt | .cgtUn | .cltUn => StackKind.combine StackKind.isNumber (fun _ => .int32) s
  | .convR4 => StackKind.convert .float32 s
  | .convI4 | .convU2 => StackKind.convert .int32 s
  | .ldarg name => (typeOf? fr.params name).bind (push · s)
  | .starg name => (typeOf? fr.params name).bind (pop · s)
  | .ldloc name => (typeOf? fr.locals name).bind (push · s)
  | .stloc name => (typeOf? fr.locals name).bind (pop · s)
  | .ldsfld type name => if typeOf? fr.fields name = some type then push type s else none
  | .stsfld type name => if typeOf? fr.fields name = some type then pop type s else none
  | .newarr elem => (pop (.base .int) s).bind (push (.array elem))
  | .ldelem elem =>
    ((pop (.base .int) s).bind (pop (.array elem))).bind (push (.base elem))
  | .stelem elem =>
    ((pop (.base elem) s).bind (pop (.base .int))).bind (pop (.array elem))
  | .call result _ params => (popAll params s).bind (give result)
  | .library m => m.step s
  | .pop => s.tail?
  | .nop => some s
  -- What comes after a return is reached from elsewhere, if at all, and then at a label.
  | .ret => (take fr.result s).bind StackKind.empty
  | .br _ | .label _ => StackKind.empty s
  | .brtrue _ | .brfalse _ => (pop (.base .bool) s).bind StackKind.empty

/-- What code does to the stack, one instruction after the other. -/
def run (fr : Frame) (s : List StackKind) (code : List Instr) : Option (List StackKind) :=
  code.foldlM fr.step s

end Frame

/-- The stack of a method is safe. The machine gets through its code, the stack is empty at every
label, before every branch and after every conditional one, and wherever the method returns there is
one value of its result type on the stack, or nothing if it has no result. -/
structure Method.StackSafe (fields : List Symbol) (m : Method) : Prop where
  runs : (m.frame fields).run [] m.body = some []
  atLabel : ∀ pre l post, m.body = pre ++ .label l :: post → (m.frame fields).run [] pre = some []
  beforeBr : ∀ pre l post, m.body = pre ++ .br l :: post → (m.frame fields).run [] pre = some []
  afterBrtrue : ∀ pre l post, m.body = pre ++ .brtrue l :: post →
    (m.frame fields).run [] (pre ++ [.brtrue l]) = some []
  afterBrfalse : ∀ pre l post, m.body = pre ++ .brfalse l :: post →
    (m.frame fields).run [] (pre ++ [.brfalse l]) = some []
  atRet : ∀ pre post, m.body = pre ++ .ret :: post →
    (m.frame fields).result = .base .void ∧ (m.frame fields).run [] pre = some [] ∨
      ∃ k, k.fits (m.frame fields).result = true ∧ (m.frame fields).run [] pre = some [k]

/-! ## Pushing and popping -/

namespace StackKind

theorem ofTy?_isData {ty : Ty} (h : ty.isData = true) : ∃ k, ofTy? ty = some k := by
  cases ty with
  | base b => cases b <;> first | exact ⟨_, rfl⟩ | cases h
  | array elem => exact ⟨_, if_pos h⟩
  | func _ _ | absent => cases h

theorem fits_ofTy? {ty : Ty} {k : StackKind} (h : ofTy? ty = some k) : k.fits ty = true := by
  unfold fits
  split
  · simp only [ofTy?] at h
    split at h <;> cases h
  · exact beq_iff_eq.2 h

theorem push_eq {ty : Ty} {k : StackKind} (h : ofTy? ty = some k) (s : List StackKind) :
    push ty s = some (k :: s) := by
  rw [push, h, Option.map_some]

/-- What is pushed for a type can be popped for it. -/
theorem pop_push {ty : Ty} {s t : List StackKind} (h : push ty s = some t) : pop ty t = some s := by
  obtain ⟨k, hk, rfl⟩ := Option.map_eq_some_iff.1 h
  exact if_pos (fits_ofTy? hk)

theorem pushAll_cons {p : Ty} {params : List Ty} {s t u : List StackKind} (hp : push p s = some t)
    (h : pushAll params t = some u) : pushAll (p :: params) s = some u := by
  rw [pushAll, List.foldlM_cons, hp]
  exact h

theorem popAll_pushAll {params : List Ty} {s t : List StackKind} (h : pushAll params s = some t) :
    popAll params t = some s := by
  induction params generalizing s with
  | nil =>
      cases h
      rfl
  | cons p rest ih =>
      rw [pushAll, List.foldlM_cons] at h
      obtain ⟨u, hu, hrest⟩ := Option.bind_eq_some_iff.1 h
      rw [popAll, List.foldrM_cons, show List.foldrM pop t rest = some u from ih hrest]
      exact pop_push hu

theorem give_isResult {ty : Ty} (h : ty.isResult = true) (s : List StackKind) :
    ∃ t, give ty s = some t := by
  by_cases hv : ty = .base .void
  · exact ⟨s, if_pos hv⟩
  · have hdata : ty.isData = true := by
      unfold Ty.isResult at h
      split at h
      · exact absurd rfl hv
      · exact h
    obtain ⟨k, hk⟩ := ofTy?_isData hdata
    exact ⟨k :: s, (if_neg hv).trans (push_eq hk s)⟩

theorem take_give {ty : Ty} {s t : List StackKind} (h : give ty s = some t) :
    take ty t = some s := by
  unfold give at h
  unfold take
  split at h
  · next hv => rw [if_pos hv, h]
  · next hv => rw [if_neg hv, pop_push h]

theorem empty_eq_some {s t : List StackKind} (h : empty s = some t) : s = [] ∧ t = [] := by
  cases s with
  | nil => exact ⟨rfl, (Option.some.inj h).symm⟩
  | cons _ _ => cases h

theorem take_eq_nil {ty : Ty} {s : List StackKind} (h : take ty s = some []) :
    ty = .base .void ∧ s = [] ∨ ∃ k, k.fits ty = true ∧ s = [k] := by
  unfold take at h
  split at h
  · next hv => exact .inl ⟨hv, Option.some.inj h⟩
  · cases s with
    | nil => cases h
    | cons k s =>
        simp only [pop] at h
        split at h
        · next hk =>
            cases h
            exact .inr ⟨k, hk, rfl⟩
        · cases h

end StackKind

/-! ## From one instruction to the next -/

namespace Frame

variable {fr : Frame} {s t u : List StackKind} {code more : List Instr} {i : Instr}

theorem run_singleton : fr.run s [i] = fr.step s i := by
  show (fr.step s i >>= fun t => some t) = _
  cases fr.step s i <;> rfl

theorem run_append : fr.run s (code ++ more) = (fr.run s code).bind (fr.run · more) :=
  List.foldlM_append

theorem run_append_of (h : fr.run s code = some t) (h' : fr.run t more = some u) :
    fr.run s (code ++ more) = some u := by
  rw [run_append, h]
  exact h'

theorem run_snoc (h : fr.run s code = some t) (h' : fr.step t i = some u) :
    fr.run s (code ++ [i]) = some u :=
  run_append_of h (run_singleton.trans h')

theorem exists_of_run {pre post : List Instr} (h : fr.run s (pre ++ i :: post) = some u) :
    ∃ t v, fr.run s pre = some t ∧ fr.step t i = some v ∧ fr.run v post = some u := by
  rw [run_append] at h
  obtain ⟨t, ht, h⟩ := Option.bind_eq_some_iff.1 h
  obtain ⟨v, hv, h⟩ := Option.bind_eq_some_iff.1 h
  exact ⟨t, v, ht, hv, h⟩

end Frame

/-- All that makes a stack safe is that the machine gets through. -/
theorem Method.stackSafe_of_run {fields : List Symbol} {m : Method}
    (h : (m.frame fields).run [] m.body = some []) : m.StackSafe fields := by
  have hstep : ∀ pre i post, m.body = pre ++ i :: post →
      ∃ t v, (m.frame fields).run [] pre = some t ∧ (m.frame fields).step t i = some v := by
    intro pre i post hbody
    rw [hbody] at h
    obtain ⟨t, v, ht, hv, -⟩ := Frame.exists_of_run h
    exact ⟨t, v, ht, hv⟩
  -- Both branches on a condition ask the same of the stack.
  have hbranch : ∀ pre i post, m.body = pre ++ i :: post →
      (∀ t, (m.frame fields).step t i = (pop (.base .bool) t).bind StackKind.empty) →
      (m.frame fields).run [] (pre ++ [i]) = some [] := by
    intro pre i post hbody hi
    obtain ⟨t, v, ht, hv⟩ := hstep pre i post hbody
    obtain ⟨w, -, hw⟩ := Option.bind_eq_some_iff.1 ((hi t).symm.trans hv)
    obtain ⟨-, rfl⟩ := StackKind.empty_eq_some hw
    exact Frame.run_snoc ht hv
  refine ⟨h, fun pre l post hbody => ?_, fun pre l post hbody => ?_, fun pre l post hbody => ?_,
    fun pre l post hbody => ?_, fun pre post hbody => ?_⟩
  · obtain ⟨t, v, ht, hv⟩ := hstep pre _ post hbody
    obtain ⟨rfl, -⟩ := StackKind.empty_eq_some hv
    exact ht
  · obtain ⟨t, v, ht, hv⟩ := hstep pre _ post hbody
    obtain ⟨rfl, -⟩ := StackKind.empty_eq_some hv
    exact ht
  · exact hbranch pre _ post hbody fun _ => rfl
  · exact hbranch pre _ post hbody fun _ => rfl
  · obtain ⟨t, v, ht, hv⟩ := hstep pre _ post hbody
    obtain ⟨w, hw, hv⟩ := Option.bind_eq_some_iff.1 hv
    obtain ⟨rfl, rfl⟩ := StackKind.empty_eq_some hv
    rcases StackKind.take_eq_nil hw with ⟨hvoid, rfl⟩ | ⟨k, hk, rfl⟩
    · exact .inl ⟨hvoid, ht⟩
    · exact .inr ⟨k, hk, ht⟩

end SmallC.Cil
