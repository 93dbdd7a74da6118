import SmallC.Proofs.Typing

/-!
# Where names stand in a program

A program read as a list of the places where names stand, in the order in which
the places count: a variable is declared before its initial value, an array after
its size, the step of a loop comes before its body, and a function is declared
after its parameters and before its body. No table is in sight here, and no
scopes are opened. A place has a region instead, which is the way into it from
the outermost block, and one region is inside of another if its way goes on from
there.

What a name refers to is then a matter of the list alone. Of the declarations of
the name that come earlier and whose region is around the reference, it is the
innermost one; if there is none, it is a builtin function.
-/

namespace SmallC

/-- The way into a block, innermost step first. A step `(i, k)` leads from a block into scope number
`k` of the statement at position `i`. -/
abbrev Region := List (Nat × Nat)

/-- What a name does where it stands. -/
inductive Role where
  | reference | var | param | func
deriving DecidableEq, Repr

/-- A name at a place of a program. The region of a declaration is the one that it is good for. -/
structure Occurrence where
  role : Role
  region : Region
  name : String
  symbol : Option Symbol
deriving DecidableEq

/-- The place where a name stands. -/
def Ident.occurrence (role : Role) (p : Region) (id : Ident) : Occurrence :=
  ⟨role, p, id.name, id.symbol⟩

/-- The place of a name, if there is one. -/
def Ident.occurrences (role : Role) (p : Region) (id : Option Ident) : List Occurrence :=
  id.toList.map (Ident.occurrence role p)

/-- The name that an expression is, if it is one. -/
def Expr.ident? : Expr → Option Ident
  | .ident id => some id
  | _ => none

/-- The names that an expression mentions, those of arrays and of called functions included. -/
def Expr.idents (e : Expr) : List Ident := e.parts.filterMap Expr.ident?

/-- The references in an expression that stands in a block with region `p`. -/
def Expr.references (p : Region) (e : Expr) : List Occurrence :=
  e.idents.map (Ident.occurrence .reference p)

/-- The names of parameters. -/
def Params.occurrences (p : Region) (params : List (Option Param)) : List Occurrence :=
  params.flatMap fun param => Ident.occurrences .param p (param.bind (·.name))

/-- The names in an item of a declaration that is an expression. An item that is only a name declares
it. -/
def Expr.item (p : Region) : Expr → List Occurrence
  | .ident id => [id.occurrence .var p]
  | e => e.references p

/-- The name that an item of a declaration declares by assigning to it. -/
def Stmt.assigned (p : Region) : Stmt → List Occurrence
  | .assign _ (.ident id) _ _ => [id.occurrence .var p]
  | _ => []

mutual

/-- The names in a statement at position `i` of a block with region `p`. -/
def Stmt.occurrences (p : Region) (i : Nat) : Stmt → List Occurrence
  | .missing => []
  | .call pos func args note => (Expr.call pos func args note).references p
  | .assign _ target value _ => target.references p ++ value.references p
  | .varDecl _ _ vars => Node.occurrencesIn p i vars
  | .arrayDecl _ _ name size => size.references p ++ Ident.occurrences .var p name
  | .ifElse _ cond yes no =>
    cond.references p ++ yes.occurrences ((i, 0) :: p) ++ no.occurrences ((i, 1) :: p)
  | .whileLoop _ cond body => cond.references p ++ body.occurrences ((i, 0) :: p)
  | .forLoop _ init cond _ step body =>
    init.occurrences ((i, 0) :: p) 0 ++ cond.references ((i, 0) :: p) ++
      step.occurrences ((i, 0) :: p) 1 ++ body.occurrences ((2, 0) :: (i, 0) :: p)
  | .block b => b.occurrences ((i, 0) :: p)
  | .funcDecl _ _ _ name params body _ =>
    -- a function is good for the whole program, wherever it is declared
    Params.occurrences ((i, 0) :: p) ((params.map (·.list)).getD []) ++
      Ident.occurrences .func [] name ++ body.occurrences ((0, 0) :: (i, 0) :: p)
  | .ret _ value => value.references p

/-- The names in a block with region `p`. -/
def Block.occurrences (p : Region) : Block → List Occurrence
  | .missing => []
  | .of _ stmts => Stmt.occurrencesFrom p 0 stmts

/-- The names in statements that stand at position `i` and after it. -/
def Stmt.occurrencesFrom (p : Region) (i : Nat) : List Stmt → List Occurrence
  | [] => []
  | s :: rest => s.occurrences p i ++ Stmt.occurrencesFrom p (i + 1) rest

/-- The names in an item of a declaration. -/
def Node.occurrences (p : Region) (i : Nat) : Node → List Occurrence
  | .expr e => e.item p
  | .stmt s => s.assigned p ++ s.occurrences p i
  | _ => []

/-- The names in several items of a declaration. -/
def Node.occurrencesIn (p : Region) (i : Nat) : List Node → List Occurrence
  | [] => []
  | n :: rest => n.occurrences p i ++ Node.occurrencesIn p i rest

end

namespace Occurrence

/-! ## What a reference means -/

/-- A declaration of the name that `r` mentions, in a region around `r`. -/
structure InSight (r d : Occurrence) : Prop where
  declares : d.role ≠ .reference
  name : d.name = r.name
  around : d.region <:+ r.region

instance (r d : Occurrence) : Decidable (r.InSight d) :=
  decidable_of_iff (d.role ≠ .reference ∧ d.name = r.name ∧ d.region <:+ r.region)
    ⟨fun ⟨declares, name, around⟩ => ⟨declares, name, around⟩,
      fun ⟨declares, name, around⟩ => ⟨declares, name, around⟩⟩

/-- What `r` refers to after the places `before`: the innermost declaration in sight, or else a
builtin function. -/
inductive Means (before : List Occurrence) (r : Occurrence) (sym : Symbol) : Prop where
  | declared {d : Occurrence} (mem : d ∈ before) (sight : r.InSight d)
      (innermost : ∀ d' ∈ before, r.InSight d' → d' = d ∨ d'.region.length < d.region.length)
      (symbol : d.symbol = some sym)
  | builtin (nothing : ∀ d ∈ before, ¬ r.InSight d) (mem : sym ∈ Symbol.builtins)
      (name : sym.name = r.name)

/-- A reference means one thing at most. -/
theorem Means.unique {before : List Occurrence} {r : Occurrence} {sym sym' : Symbol}
    (h : Means before r sym) (h' : Means before r sym') : sym = sym' := by
  cases h with
  | declared mem sight innermost symbol =>
      cases h' with
      | declared mem' sight' innermost' symbol' =>
          rcases innermost _ mem' sight' with rfl | hlt
          · exact Option.some.inj (symbol.symm.trans symbol')
          · rcases innermost' _ mem sight with rfl | hlt'
            · exact Option.some.inj (symbol.symm.trans symbol')
            · omega
      | builtin nothing _ _ => exact absurd sight (nothing _ mem)
  | builtin nothing mem name =>
      cases h' with
      | declared mem' sight' _ _ => exact absurd sight' (nothing _ mem')
      | builtin _ mem' name' =>
          have hinj : ∀ x ∈ Symbol.builtins, ∀ y ∈ Symbol.builtins, x.name = y.name → x = y := by
            decide
          exact hinj sym mem sym' mem' (name.trans name'.symm)

/-- The same place with the symbol left out. -/
def bare (o : Occurrence) : Occurrence := { o with symbol := none }

/-- The regions of places that belong to the statement at position `i` of a block: the block itself,
a scope of the statement, or the program for a function. -/
def Within (p : Region) (i : Nat) (o : Occurrence) : Prop :=
  o.region = [] ∨ o.region = p ∨ ∃ k, (i, k) :: p <:+ o.region

theorem Within.of_inner {p : Region} {i k : Nat} {o : Occurrence}
    (h : o.region = [] ∨ (i, k) :: p <:+ o.region) : o.Within p i :=
  h.imp_right fun hk => .inr ⟨k, hk⟩

/-- A statement in a scope of another one. -/
theorem Within.nested {p : Region} {i j k : Nat} {o : Occurrence}
    (h : o.Within ((i, k) :: p) j) : o.Within p i := by
  refine .of_inner (k := k) ?_
  rcases h with h | h | ⟨k', hk'⟩
  · exact .inl h
  · exact .inr (h ▸ List.suffix_rfl)
  · exact .inr ((List.suffix_cons _ _).trans hk')

theorem Within.of_region {p : Region} {i : Nat} {o : Occurrence} (h : o.region = p) :
    o.Within p i :=
  .inr (.inl h)

end Occurrence

open Occurrence

theorem Ident.region_of_mem {role : Role} {p : Region} {id : Option Ident} {o : Occurrence}
    (h : o ∈ Ident.occurrences role p id) : o.region = p := by
  obtain ⟨id', -, rfl⟩ := List.mem_map.1 h
  rfl

theorem Ident.role_of_mem {role : Role} {p : Region} {id : Option Ident} {o : Occurrence}
    (h : o ∈ Ident.occurrences role p id) : o.role = role := by
  obtain ⟨id', -, rfl⟩ := List.mem_map.1 h
  rfl

theorem Expr.region_of_mem {p : Region} {e : Expr} {o : Occurrence} (h : o ∈ e.references p) :
    o.region = p := by
  obtain ⟨id, -, rfl⟩ := List.mem_map.1 h
  rfl

theorem Expr.role_of_mem {p : Region} {e : Expr} {o : Occurrence} (h : o ∈ e.references p) :
    o.role = .reference := by
  obtain ⟨id, -, rfl⟩ := List.mem_map.1 h
  rfl

theorem Expr.region_of_mem_item {p : Region} {e : Expr} {o : Occurrence} (h : o ∈ e.item p) :
    o.region = p := by
  unfold Expr.item at h
  split at h
  · obtain rfl := List.mem_singleton.1 h
    rfl
  · exact Expr.region_of_mem h

theorem Stmt.region_of_mem_assigned {p : Region} {s : Stmt} {o : Occurrence}
    (h : o ∈ s.assigned p) : o.region = p := by
  unfold Stmt.assigned at h
  split at h
  · obtain rfl := List.mem_singleton.1 h
    rfl
  · cases h

theorem Params.region_of_mem {p : Region} {params : List (Option Param)} {o : Occurrence}
    (h : o ∈ Params.occurrences p params) : o.region = p := by
  obtain ⟨param, -, ho⟩ := List.mem_flatMap.1 h
  exact Ident.region_of_mem ho

mutual

theorem Stmt.occurrences_within {p : Region} {i : Nat} :
    ∀ {s : Stmt}, ∀ o ∈ s.occurrences p i, o.Within p i
  | .missing, o, ho => by cases ho
  | .call _ _ _ _, o, ho => .of_region (Expr.region_of_mem ho)
  | .assign _ _ _ _, o, ho => by
      rcases List.mem_append.1 ho with ho | ho
      · exact .of_region (Expr.region_of_mem ho)
      · exact .of_region (Expr.region_of_mem ho)
  | .varDecl _ _ _, o, ho => Node.occurrencesIn_within o ho
  | .arrayDecl _ _ _ _, o, ho => by
      rcases List.mem_append.1 ho with ho | ho
      · exact .of_region (Expr.region_of_mem ho)
      · exact .of_region (Ident.region_of_mem ho)
  | .ifElse _ _ _ _, o, ho => by
      simp only [Stmt.occurrences, List.mem_append] at ho
      rcases ho with (ho | ho) | ho
      · exact .of_region (Expr.region_of_mem ho)
      · exact .of_inner (Block.occurrences_within o ho)
      · exact .of_inner (Block.occurrences_within o ho)
  | .whileLoop _ _ _, o, ho => by
      rcases List.mem_append.1 ho with ho | ho
      · exact .of_region (Expr.region_of_mem ho)
      · exact .of_inner (Block.occurrences_within o ho)
  | .forLoop _ _ _ _ _ _, o, ho => by
      simp only [Stmt.occurrences, List.mem_append] at ho
      rcases ho with ((ho | ho) | ho) | ho
      · exact (Stmt.occurrences_within o ho).nested
      · exact Within.nested (j := 0) (.of_region (Expr.region_of_mem ho))
      · exact (Stmt.occurrences_within o ho).nested
      · exact (Within.of_inner (Block.occurrences_within o ho)).nested
  | .block _, o, ho => .of_inner (Block.occurrences_within o ho)
  | .funcDecl _ _ _ _ _ _ _, o, ho => by
      simp only [Stmt.occurrences, List.mem_append] at ho
      rcases ho with (ho | ho) | ho
      · exact Within.nested (j := 0) (.of_region (Params.region_of_mem ho))
      · exact .inl (Ident.region_of_mem ho)
      · exact (Within.of_inner (Block.occurrences_within o ho)).nested
  | .ret _ _, o, ho => .of_region (Expr.region_of_mem ho)

theorem Block.occurrences_within {p : Region} :
    ∀ {b : Block}, ∀ o ∈ b.occurrences p, o.region = [] ∨ p <:+ o.region
  | .missing, o, ho => by cases ho
  | .of _ _, o, ho => by
      obtain ⟨j, -, hj⟩ := Stmt.occurrencesFrom_within o ho
      rcases hj with h | h | ⟨k, hk⟩
      · exact .inl h
      · exact .inr (h ▸ List.suffix_rfl)
      · exact .inr ((List.suffix_cons _ _).trans hk)

theorem Stmt.occurrencesFrom_within {p : Region} :
    ∀ {stmts : List Stmt} {i : Nat}, ∀ o ∈ Stmt.occurrencesFrom p i stmts,
      ∃ j, i ≤ j ∧ o.Within p j
  | [], _, o, ho => by cases ho
  | _ :: _, i, o, ho => by
      rcases List.mem_append.1 ho with ho | ho
      · exact ⟨i, Nat.le_refl i, Stmt.occurrences_within o ho⟩
      · obtain ⟨j, hj, hwithin⟩ := Stmt.occurrencesFrom_within o ho
        exact ⟨j, by omega, hwithin⟩

theorem Node.occurrences_within {p : Region} {i : Nat} :
    ∀ {n : Node}, ∀ o ∈ n.occurrences p i, o.Within p i
  | .expr _, o, ho => .of_region (Expr.region_of_mem_item ho)
  | .stmt _, o, ho => by
      rcases List.mem_append.1 ho with ho | ho
      · exact .of_region (Stmt.region_of_mem_assigned ho)
      · exact Stmt.occurrences_within o ho
  | .param _, o, ho => by cases ho
  | .params _, o, ho => by cases ho
  | .foreign _, o, ho => by cases ho

theorem Node.occurrencesIn_within {p : Region} {i : Nat} :
    ∀ {ns : List Node}, ∀ o ∈ Node.occurrencesIn p i ns, o.Within p i
  | [], o, ho => by cases ho
  | _ :: _, o, ho => by
      rcases List.mem_append.1 ho with ho | ho
      · exact Node.occurrences_within o ho
      · exact Node.occurrencesIn_within o ho

end

end SmallC
