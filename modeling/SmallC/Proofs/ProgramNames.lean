import SmallC.Proofs.Storage
import SmallC.Proofs.Whole

/-!
# The names that a program takes

The variables that a program declares outside of its functions and the functions
themselves share one set of names, in whatever block they are declared. No two of
them have the same name, and if the program comes from a text, none of the names
looks like a literal.

The second part is read off the places of the program, because the check keeps all
names where they were. Parameters are left out of it, and so are the names of
arrays and functions where they are used: the reader takes anything there.
-/

namespace SmallC

namespace Occurrence

/-- A place where no variable and no function gets a name that looks like a literal. -/
def IsName (o : Occurrence) : Prop :=
  o.role = .var ∨ o.role = .func → Form.isLiteral o.name = false

theorem IsName.of_role {o : Occurrence} (h : o.role = .reference ∨ o.role = .param) :
    o.IsName := by
  intro hrole
  rcases h with h | h
  · rw [h] at hrole
    exact absurd hrole (by decide)
  · rw [h] at hrole
    exact absurd hrole (by decide)

end Occurrence

open Occurrence

theorem Expr.references_isName {p : Region} {e : Expr} :
    ∀ o ∈ e.references p, o.IsName :=
  fun _ ho => .of_role (.inl (Expr.role_of_mem ho))

theorem Ident.occurrences_isName {role : Role} {p : Region} {name : Option Ident}
    (h : ∃ id, name = some id ∧ id.IsName) :
    ∀ o ∈ Ident.occurrences role p name, o.IsName := by
  obtain ⟨id, rfl, hid⟩ := h
  exact List.forall_mem_singleton.2 fun _ => hid

theorem Params.occurrences_isName {p : Region} {params : List (Option Param)} :
    ∀ o ∈ Params.occurrences p params, o.IsName := by
  intro o ho
  obtain ⟨param, -, ho⟩ := List.mem_flatMap.1 ho
  exact .of_role (.inr (Ident.role_of_mem ho))

/-- An item of a declaration has a name, or is an assignment to one. -/
theorem Node.Whole.isName {p : Region} {i : Nat} {n : Node} (h : n.Whole) :
    ∀ o ∈ n.occurrences p i, o.IsName := by
  unfold Node.Whole at h
  split at h
  · exact List.forall_mem_singleton.2 fun _ => h
  · refine List.forall_mem_append.2 ⟨fun o ho => ?_, List.forall_mem_append.2
      ⟨Expr.references_isName, Expr.references_isName⟩⟩
    unfold Stmt.assigned at ho
    split at ho
    · next heq =>
        cases heq
        cases h.target with
        | ident name =>
            obtain rfl := List.mem_singleton.1 ho
            exact fun _ => name
    · cases ho
  · exact h.elim

theorem Node.isName_of_whole {p : Region} {i : Nat} {ns : List Node} (h : ∀ n ∈ ns, n.Whole) :
    ∀ o ∈ Node.occurrencesIn p i ns, o.IsName := by
  induction ns with
  | nil => exact fun _ ho => (nomatch ho)
  | cons n rest ih =>
      exact List.forall_mem_append.2
        ⟨(h n List.mem_cons_self).isName, ih fun m hm => h m (List.mem_cons_of_mem _ hm)⟩

mutual

theorem Stmt.Whole.isName :
    ∀ {s : Stmt} {p : Region} {i : Nat}, s.Whole → ∀ o ∈ s.occurrences p i, o.IsName
  | .missing, _, _, h => h.elim
  | .call _ _ _ _, _, _, _ => Expr.references_isName
  | .assign _ _ _ _, _, _, _ =>
      List.forall_mem_append.2 ⟨Expr.references_isName, Expr.references_isName⟩
  | .varDecl _ _ _, _, _, ⟨_, hvars⟩ => Node.isName_of_whole hvars
  | .arrayDecl _ _ _ _, _, _, ⟨_, hname, _⟩ =>
      List.forall_mem_append.2 ⟨Expr.references_isName, Ident.occurrences_isName hname⟩
  | .ifElse _ _ _ _, _, _, ⟨_, hyes, hno⟩ => by
      simp only [Stmt.occurrences, List.forall_mem_append]
      exact ⟨⟨Expr.references_isName, Block.Whole.isName hyes⟩, Block.Whole.isName hno⟩
  | .whileLoop _ _ _, _, _, ⟨_, hbody⟩ =>
      List.forall_mem_append.2 ⟨Expr.references_isName, Block.Whole.isName hbody⟩
  | .forLoop _ init _ _ step _, p, i, ⟨hinit, _, hstep, hbody⟩ => by
      have hfirst : ∀ o ∈ init.occurrences ((i, 0) :: p) 0, o.IsName := by
        rcases hinit with rfl | hinit
        · exact fun _ ho => (nomatch ho)
        · exact Stmt.Whole.isName hinit
      have hsecond : ∀ o ∈ step.occurrences ((i, 0) :: p) 1, o.IsName := by
        rcases hstep with rfl | hstep
        · exact fun _ ho => (nomatch ho)
        · exact Stmt.Whole.isName hstep
      simp only [Stmt.occurrences, List.forall_mem_append]
      exact ⟨⟨⟨hfirst, Expr.references_isName⟩, hsecond⟩, Block.Whole.isName hbody⟩
  | .block _, _, _, h => Block.Whole.isName h
  | .funcDecl _ _ _ _ _ _ _, _, _, ⟨_, hname, _, hbody⟩ => by
      simp only [Stmt.occurrences, List.forall_mem_append]
      exact ⟨⟨Params.occurrences_isName, Ident.occurrences_isName hname⟩,
        Block.Whole.isName hbody⟩
  | .ret _ _, _, _, _ => Expr.references_isName

theorem Block.Whole.isName :
    ∀ {b : Block} {p : Region}, b.Whole → ∀ o ∈ b.occurrences p, o.IsName
  | .missing, _, _ => fun _ ho => (nomatch ho)
  | .of _ _, _, h => Stmt.AllWhole.isName h

theorem Stmt.AllWhole.isName :
    ∀ {stmts : List Stmt} {p : Region} {i : Nat}, Stmt.AllWhole stmts →
      ∀ o ∈ Stmt.occurrencesFrom p i stmts, o.IsName
  | [], _, _, _ => fun _ ho => (nomatch ho)
  | _ :: _, _, _, ⟨hstmt, hrest⟩ =>
      List.forall_mem_append.2 ⟨Stmt.Whole.isName hstmt, Stmt.AllWhole.isName hrest⟩

end

/-! ## Programs -/

/-- Every name that a program takes is declared at one of its places. -/
theorem Traced.declared_of_mem {g s : Nat} {t t' : Table} {p : Region} {src out : List Occurrence}
    {ds : List FuncDecl} {es : List Expr} (h : Traced g t t' s p [] src out ds es) {name : String}
    (hname : name ∈ namesOf (t'.staticsAt g) ds) :
    ∃ o ∈ src, (o.role = .var ∨ o.role = .func) ∧ o.name = name := by
  have hout : ∃ o ∈ out, (o.role = .var ∨ o.role = .func) ∧ o.name = name := by
    rcases List.mem_append.1 hname with hname | hname
    · obtain ⟨id, hid, rfl⟩ := List.mem_map.1 hname
      obtain ⟨o, ho, hrole, hsame⟩ := h.follows.declared id hid
      exact ⟨o, ho, .inl hrole, hsame⟩
    · rw [h.names_eq] at hname
      obtain ⟨o, ho, rfl⟩ := List.mem_map.1 hname
      obtain ⟨hmem, hrole⟩ := h.mem_out.1 ho
      exact ⟨o, hmem, .inr hrole, rfl⟩
  obtain ⟨o, ho, hrole, rfl⟩ := hout
  obtain ⟨o', ho', hbare⟩ := List.mem_map.1 (h.same ▸ List.mem_map_of_mem (f := bare) ho)
  have hrole' : o'.bare.role = o.bare.role := congrArg Occurrence.role hbare
  have hsame : o'.bare.name = o.bare.name := congrArg Occurrence.name hbare
  have hdeclares : o'.bare.role = .var ∨ o'.bare.role = .func := hrole' ▸ hrole
  exact ⟨o', ho', hdeclares, hsame⟩

/-- The variables that a program declares outside of its functions and the functions have different
names, and these are names that a text can have. -/
theorem Analysis.namesOf_nodup {text : String} {b : Block} {a : Analysis}
    (hb : Block.parse text = .ok b) (ha : Analysis.ofProgram b = .ok a) {ds : List FuncDecl}
    (hds : a.program.functions = .ok ds) :
    (namesOf a.globals ds).Nodup ∧ ∀ name ∈ namesOf a.globals ds, Form.isLiteral name = false := by
  refine ⟨Analysis.namesOf_distinct ha hds, fun name hname => ?_⟩
  obtain ⟨t, ds', hds', hglobals, htraced⟩ := Analysis.ofProgram_traced ha
  cases hds.symm.trans hds'
  rw [hglobals, Table.statics_eq htraced.follows.global] at hname
  obtain ⟨o, ho, hrole, rfl⟩ := htraced.declared_of_mem hname
  obtain ⟨_, _, rfl, hwhole⟩ := Block.parse_whole hb
  exact Stmt.AllWhole.isName hwhole o ho hrole

end SmallC
