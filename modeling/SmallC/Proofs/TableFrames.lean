import SmallC.Symbol.Table

/-!
# What an operation on the symbol table changes

A table is read through five views: the chain of a scope, what a name is bound
to at a level, the program a scope belongs to, the function marked at a level,
and the static symbols of a program. This file says for each operation what it
does to each view, and mostly that it does nothing: opening a scope only adds a
level, binding a name is seen at one level and one name only, and marking a
function or adding a static symbol leaves all names alone.

After this file no proof looks at the arrays a table is made of.
-/

namespace SmallC

/-! ## Levels of names -/

namespace Scope

variable {α : Type}

theorem chain_eq_nil {sc : Scope α} {l : Nat} (h : sc.levels.size ≤ l) : sc.chain l = [] := by
  unfold chain
  rw [Array.getElem?_eq_none h]
  rfl

theorem chain_child {sc : Scope α} {s l : Nat} (h : l < sc.levels.size) :
    (sc.child s).1.chain l = sc.chain l := by
  unfold chain child
  rw [Array.getElem?_push_lt h, Array.getElem?_eq_getElem h]

theorem chain_child_new {sc : Scope α} {s : Nat} :
    (sc.child s).1.chain sc.levels.size = sc.levels.size :: sc.chain s := by
  unfold child
  rw [chain, Array.getElem?_push_size]
  rfl

theorem findLocal?_child {sc : Scope α} {s l : Nat} {name : String} :
    (sc.child s).1.findLocal? l name = sc.findLocal? l name := by
  unfold findLocal? child
  rw [Array.getElem?_push]
  split
  · next h => rw [h, Array.getElem?_eq_none (Nat.le_refl _)]; rfl
  · rfl

theorem chain_bind {sc : Scope α} {s l : Nat} {name : String} {value : α} :
    (sc.bind s name value).chain l = sc.chain l := by
  unfold chain bind
  rw [Array.getElem?_modify]
  split
  · next h => subst h; cases sc.levels[s]? <;> rfl
  · rfl

theorem size_bind {sc : Scope α} {s : Nat} {name : String} {value : α} :
    (sc.bind s name value).levels.size = sc.levels.size := by
  unfold bind
  rw [Array.size_modify]

theorem findLocal?_bind_self {sc : Scope α} {s : Nat} {name : String} {value : α}
    (h : s < sc.levels.size) : (sc.bind s name value).findLocal? s name = some value := by
  unfold findLocal? bind
  rw [Array.getElem?_modify, if_pos rfl, Array.getElem?_eq_getElem h]
  simp

theorem findLocal?_bind_ne {sc : Scope α} {s l : Nat} {name m : String} {value : α}
    (h : l ≠ s ∨ m ≠ name) : (sc.bind s name value).findLocal? l m = sc.findLocal? l m := by
  unfold findLocal? bind
  rw [Array.getElem?_modify]
  split
  · next hl =>
      subst hl
      have hm : (m == name) = false := by simpa using h
      cases sc.levels[s]? with
      | none => rfl
      | some level => simp only [Option.map_some, Option.bind_some, List.lookup_cons, hm]
  · rfl

/-- Binding a name is seen at one level and for one name only. -/
theorem findLocal?_bind_some {sc : Scope α} {s l : Nat} {name m : String} {value v : α}
    (h : (sc.bind s name value).findLocal? l m = some v) :
    (l = s ∧ m = name ∧ v = value) ∨ sc.findLocal? l m = some v := by
  unfold findLocal? bind at h
  rw [Array.getElem?_modify] at h
  split at h
  · next hl =>
      subst hl
      unfold findLocal?
      cases hs : sc.levels[s]? with
      | none => rw [hs] at h; exact absurd h (by simp)
      | some level =>
          rw [hs] at h
          simp only [Option.map_some, Option.bind_some, List.lookup_cons] at h
          split at h
          · next hm => exact .inl ⟨rfl, by simpa using hm, by simpa using h.symm⟩
          · exact .inr h
  · exact .inr h

theorem findLocal?_bind_isSome {sc : Scope α} {s l : Nat} {name m : String} {value : α}
    (h : (sc.findLocal? l m).isSome = true) :
    ((sc.bind s name value).findLocal? l m).isSome = true := by
  unfold findLocal? bind at *
  rw [Array.getElem?_modify]
  split
  · next hl =>
      subst hl
      cases hs : sc.levels[s]? with
      | none => rw [hs] at h; cases h
      | some level =>
          rw [hs] at h
          simp only [Option.map_some, Option.bind_some, List.lookup_cons]
          split
          · rfl
          · exact h
  · exact h

/-- What is found from a scope is bound at some level of its chain. -/
theorem find?_some {sc : Scope α} {s : Nat} {name : String} {v : α}
    (h : sc.find? s name = some v) : ∃ l ∈ sc.chain s, sc.findLocal? l name = some v :=
  List.exists_of_findSome?_eq_some h

end Scope

/-! ## Frames -/

namespace Table

/-- How many scopes a table has. -/
def size (t : Table) : Nat := t.frames.size

/-- A scope and those around it, nearest first. -/
def chain (t : Table) (s : Nat) : List Nat := t.names.chain s

/-- The static symbols listed at a scope. -/
def staticsAt (t : Table) (s : Nat) : List Symbol := ((t.frames[s]?).map (·.statics)).getD []

/-- Where a scope stands in the tree. -/
def levelAt? (t : Table) (s : Nat) : Option Level := (t.frames[s]?).map (·.level)

/-- The same frames with other names. -/
def withNames (t : Table) (names : Scope Symbol) : Table := { t with names := names }

theorem statics_eq {t : Table} {s g : Nat} (h : t.global? s = some g) :
    t.statics s = t.staticsAt g := by
  unfold statics
  rw [h]
  rfl

theorem statics_eq_nil {t : Table} {s : Nat} (h : t.global? s = none) : t.statics s = [] := by
  unfold statics
  rw [h]
  rfl

theorem lt_size_of_global {t : Table} {s g : Nat} (h : t.global? s = some g) : s < t.size := by
  unfold global? at h
  rcases Nat.lt_or_ge s t.frames.size with hs | hs
  · exact hs
  · rw [Array.getElem?_eq_none hs] at h
    cases h

theorem global?_eq_none {t : Table} {s : Nat} (h : t.size ≤ s) : t.global? s = none := by
  unfold global?
  rw [Array.getElem?_eq_none h]
  rfl

theorem lt_size_of_function {t : Table} {s : Nat} {f : Function} (h : t.functionAt? s = some f) :
    s < t.size := by
  unfold functionAt? at h
  rcases Nat.lt_or_ge s t.frames.size with hs | hs
  · exact hs
  · rw [Array.getElem?_eq_none hs] at h
    cases h

theorem functionAt?_eq_none {t : Table} {s : Nat} (h : t.size ≤ s) : t.functionAt? s = none := by
  unfold functionAt?
  rw [Array.getElem?_eq_none h]
  rfl

theorem staticsAt_eq_nil {t : Table} {s : Nat} (h : t.size ≤ s) : t.staticsAt s = [] := by
  unfold staticsAt
  rw [Array.getElem?_eq_none h]
  rfl

/-! ### Opening a scope -/

section Child

variable {t : Table} {s l : Nat}

theorem size_child : (t.child s).1.size = t.size + 1 := Array.size_push ..

theorem frames_child_of_lt (h : l < t.size) : (t.child s).1.frames[l]? = t.frames[l]? := by
  show (t.frames.push _)[l]? = _
  rw [Array.getElem?_push_lt h, Array.getElem?_eq_getElem h]

theorem global?_child (h : l < t.size) : (t.child s).1.global? l = t.global? l := by
  unfold global?
  rw [frames_child_of_lt h]

theorem levelAt?_child (h : l < t.size) : (t.child s).1.levelAt? l = t.levelAt? l := by
  unfold levelAt?
  rw [frames_child_of_lt h]

/-- A scope inside the root starts a program, every other one belongs to the program around it. -/
theorem frame_child_new :
    (t.levelAt? s = some .root ∧
        (t.child s).1.frames[t.size]? = some ⟨.global, some (t.child s).2, none, []⟩) ∨
      (t.levelAt? s ≠ some .root ∧
        (t.child s).1.frames[t.size]? = some ⟨.block, t.global? s, none, []⟩) := by
  unfold levelAt? global?
  show (_ ∧ (t.frames.push _)[t.frames.size]? = _) ∨ (_ ∧ (t.frames.push _)[t.frames.size]? = _)
  rw [Array.getElem?_push_size]
  cases hs : t.frames[s]? with
  | none => exact .inr ⟨by simp, rfl⟩
  | some frame =>
      rcases frame with ⟨level, g, f, ids⟩
      cases level with
      | root => exact .inl ⟨rfl, rfl⟩
      | global => exact .inr ⟨by simp, rfl⟩
      | block => exact .inr ⟨by simp, rfl⟩

theorem functionAt?_child : (t.child s).1.functionAt? l = t.functionAt? l := by
  unfold functionAt?
  show ((t.frames.push _)[l]?).bind _ = _
  rw [Array.getElem?_push]
  split
  · next h =>
      rw [h, Array.getElem?_eq_none (Nat.le_refl _)]
      split <;> rfl
  · rfl

theorem staticsAt_child : (t.child s).1.staticsAt l = t.staticsAt l := by
  unfold staticsAt
  show (((t.frames.push _)[l]?).map _).getD [] = _
  rw [Array.getElem?_push]
  split
  · next h =>
      rw [h, Array.getElem?_eq_none (Nat.le_refl _)]
      split <;> rfl
  · rfl

end Child

/-! ### Marking a function -/

section SetFunction

variable {t : Table} {s l : Nat} {f : Option Function}

theorem size_setFunction : (t.setFunction s f).size = t.size := Array.size_modify

theorem frames_setFunction :
    (t.setFunction s f).frames[l]? =
      if s = l then t.frames[l]?.map ({ · with function := f }) else t.frames[l]? := by
  show (t.frames.modify s _)[l]? = _
  rw [Array.getElem?_modify]

theorem global?_setFunction : (t.setFunction s f).global? l = t.global? l := by
  unfold global?
  rw [frames_setFunction]
  split
  · cases t.frames[l]? <;> rfl
  · rfl

theorem levelAt?_setFunction : (t.setFunction s f).levelAt? l = t.levelAt? l := by
  unfold levelAt?
  rw [frames_setFunction]
  split
  · cases t.frames[l]? <;> rfl
  · rfl

theorem staticsAt_setFunction : (t.setFunction s f).staticsAt l = t.staticsAt l := by
  unfold staticsAt
  rw [frames_setFunction]
  split
  · cases t.frames[l]? <;> rfl
  · rfl

theorem functionAt?_setFunction_self (h : s < t.size) :
    (t.setFunction s f).functionAt? s = f := by
  unfold functionAt?
  rw [frames_setFunction, if_pos rfl, Array.getElem?_eq_getElem h]
  rfl

theorem functionAt?_setFunction_ne (h : s ≠ l) :
    (t.setFunction s f).functionAt? l = t.functionAt? l := by
  unfold functionAt?
  rw [frames_setFunction, if_neg h]

end SetFunction

/-! ### Adding a static symbol -/

section PushStatic

variable {t : Table} {g l : Nat} {id : Symbol}

theorem size_pushStatic : (t.pushStatic g id).size = t.size := Array.size_modify

theorem frames_pushStatic :
    (t.pushStatic g id).frames[l]? =
      if g = l then t.frames[l]?.map (fun frame => { frame with statics := frame.statics ++ [id] })
      else t.frames[l]? := by
  show (t.frames.modify g _)[l]? = _
  rw [Array.getElem?_modify]

theorem global?_pushStatic : (t.pushStatic g id).global? l = t.global? l := by
  unfold global?
  rw [frames_pushStatic]
  split
  · cases t.frames[l]? <;> rfl
  · rfl

theorem levelAt?_pushStatic : (t.pushStatic g id).levelAt? l = t.levelAt? l := by
  unfold levelAt?
  rw [frames_pushStatic]
  split
  · cases t.frames[l]? <;> rfl
  · rfl

theorem functionAt?_pushStatic : (t.pushStatic g id).functionAt? l = t.functionAt? l := by
  unfold functionAt?
  rw [frames_pushStatic]
  split
  · cases t.frames[l]? <;> rfl
  · rfl

theorem staticsAt_pushStatic_self (h : g < t.size) :
    (t.pushStatic g id).staticsAt g = t.staticsAt g ++ [id] := by
  unfold staticsAt
  rw [frames_pushStatic, if_pos rfl, Array.getElem?_eq_getElem h]
  rfl

theorem staticsAt_pushStatic_ne (h : g ≠ l) :
    (t.pushStatic g id).staticsAt l = t.staticsAt l := by
  unfold staticsAt
  rw [frames_pushStatic, if_neg h]

end PushStatic

end Table

end SmallC
