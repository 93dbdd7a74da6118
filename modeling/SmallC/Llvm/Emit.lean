import SmallC.Fault
import SmallC.Llvm.Instr

/-!
# Adding code to a function

Lowering an expression yields an operand and, on the way, the instructions that
compute it. `Emit` is that pair as a monad: a step reads where the code stands,
and returns the instructions that it adds, never the ones before them. So what a
step adds is a value on its own, and the code of two steps is the code of the
first followed by that of the second.

Of the code so far a step needs to know one thing only, whether its last
instruction left its block. If so, an instruction that follows opens a block of
its own, which nothing branches to.

What builtin functions are made of is declared in front of all code, which is
known when the code is there. Until then, a step marks what it uses.
-/

namespace SmallC.Llvm

/-- Where the code stands. -/
structure Cursor where
  /-- The registers given out so far. -/
  fresh : Fresh
  /-- The number given last to a control structure. -/
  control : Nat
  /-- Whether the last instruction left its block. -/
  closed : Bool
  /-- What has been marked as used, the last first. -/
  used : List Support
deriving DecidableEq, Repr

/-- Nothing has been given out or marked yet. -/
def Cursor.start : Cursor := ⟨.empty, 0, false, []⟩

/-- What a step yields: a result, where the code stands then, and the instructions added. -/
structure Emitted (α : Type) where
  value : α
  cursor : Cursor
  code : List Instr

/-- A step that adds instructions. -/
def Emit (α : Type) : Type := Cursor → Except Fault (Emitted α)

namespace Emit

/-- A step that adds nothing. -/
def done {α : Type} (a : α) : Emit α := fun c => .ok ⟨a, c, []⟩

/-- One step after another. -/
def andThen {α β : Type} (x : Emit α) (f : α → Emit β) : Emit β := fun c =>
  match x c with
  | .error e => .error e
  | .ok ⟨a, c, code⟩ =>
    match f a c with
    | .error e => .error e
    | .ok ⟨b, c, more⟩ => .ok ⟨b, c, code ++ more⟩

instance : Monad Emit where
  pure := done
  bind := andThen

/-- Two steps succeed together exactly if each of them does, and then the code is that of the first
followed by that of the second. -/
theorem bind_eq_ok_iff {α β : Type} {x : Emit α} {f : α → Emit β} {c : Cursor} {out : Emitted β} :
    (x >>= f) c = .ok out ↔
      ∃ first second, x c = .ok first ∧ f first.value first.cursor = .ok second ∧
        out = ⟨second.value, second.cursor, first.code ++ second.code⟩ := by
  show andThen x f c = .ok out ↔ _
  unfold andThen
  constructor
  · intro h
    split at h
    · cases h
    · rename_i a c' code hx
      split at h
      · cases h
      · rename_i b c'' more hf
        cases h
        exact ⟨_, _, hx, hf, rfl⟩
  · rintro ⟨first, second, hx, hf, rfl⟩
    rw [hx]
    dsimp only
    rw [hf]

instance : LawfulMonad Emit := by
  refine LawfulMonad.mk' Emit (fun x => ?_) (fun a f => ?_) (fun x f g => ?_)
  · funext c
    show andThen x (fun a => done a) c = x c
    unfold andThen done
    cases hx : x c with
    | error e => rfl
    | ok out => simp
  · funext c
    show andThen (done a) f c = f a c
    unfold andThen done
    cases hf : f a c with
    | error e => simp [hf]
    | ok out => simp [hf]
  · funext c
    show andThen (andThen x f) g c = andThen x (fun a => andThen (f a) g) c
    unfold andThen
    cases hx : x c with
    | error e => rfl
    | ok first =>
      dsimp only
      cases hf : f first.value first.cursor with
      | error e => rfl
      | ok second =>
        dsimp only
        cases hg : g second.value second.cursor with
        | error e => rfl
        | ok third => simp

/-- A step that cannot be done. -/
def fail {α : Type} (f : Fault) : Emit α := fun _ => .error f

/-- What needs no code. -/
def ofExcept {α : Type} : Except Fault α → Emit α
  | .ok a => done a
  | .error f => fail f

/-- Opens a block. -/
def label (l : Label) : Emit Unit := fun c => .ok ⟨(), { c with closed := false }, [.label l]⟩

/-- A number for a control structure. -/
def nextControl : Emit Nat := fun c => .ok ⟨c.control + 1, { c with control := c.control + 1 }, []⟩

/-- Opens a block if the last instruction left its own. -/
def live : Emit Unit := fun c => if c.closed then (nextControl >>= fun n => label (.after n)) c
  else .ok ⟨(), c, []⟩

/-- Adds an instruction. -/
def instr (i : Instr) : Emit Unit := do
  live
  fun c => .ok ⟨(), { c with closed := i.isTerminator }, [i]⟩

/-- Marks something that builtin functions are made of as used, and yields its global name. -/
def use (s : Support) : Emit Global := fun c =>
  .ok ⟨.support s, { c with used := s :: c.used }, []⟩

theorem use_bind {α : Type} (s : Support) (f : Global → Emit α) (c : Cursor) :
    (use s >>= f) c = f (.support s) { c with used := s :: c.used } := by
  show andThen (use s) f c = _
  unfold andThen use
  cases hf : f (.support s) { c with used := s :: c.used } with
  | error e => simp [hf]
  | ok out => simp [hf]

/-- A register that has not been used. -/
def register (root : String) : Emit Reg := fun c =>
  let (n, fresh) := c.fresh.next root
  .ok ⟨⟨root, n⟩, { c with fresh }, []⟩

/-- Adds an instruction that defines a new register, and yields that register. -/
def define (root : String) (i : Reg → Instr) : Emit Operand := do
  let r ← register root
  instr (i r)
  return .reg r

/-- Leaves the block, unless control has left it already. -/
def close (i : Instr) : Emit Unit := fun c => if c.closed then .ok ⟨(), c, []⟩ else instr i c

/-- Branches to a label, unless control has left the block already. -/
def jump (l : Label) : Emit Unit := close (.br l)

end Emit

end SmallC.Llvm
