import Mathlib.Data.List.Basic
import SmallC.Proofs.CheckTrace

/-!
# Storage is given out once and found again

The check gives out slots as it comes to declarations, and keeps count in a table
that is gone when the check is done. The tree that it leaves behind is walked a
second time by whoever needs the storage, with no table and no scopes. The two
come to the same lists: what a walk finds in the body of a function, in the order
in which it finds it, is the row of locals of that function, and what it finds
outside of functions is the row of globals.

The names of a program are told apart by the outermost scope. A function is always
bound there, and nothing is stored under a name that is bound to a function there,
even if it is declared in a block further in.
-/

namespace SmallC

/-- The name under which a function is stored. -/
def FuncDecl.names (d : FuncDecl) : List String := d.function.toList.map (·.name)

/-- The names of variables and functions. -/
def namesOf (vars : List Symbol) (functions : List FuncDecl) : List String :=
  vars.map (·.name) ++ functions.flatMap FuncDecl.names

/-- A function is stored under the name that it is declared with. -/
theorem FuncDecl.Named.names_eq {d : FuncDecl} (h : d.Named) :
    d.names = d.occurrences.map Occurrence.name := by
  obtain ⟨id, sym, f, hname, -, hf, heq, -⟩ := h
  unfold FuncDecl.names FuncDecl.occurrences Ident.occurrences
  rw [hf, hname]
  exact congrArg (fun name => [name]) heq

section

variable {g s : Nat} {t t' : Table} {p : Region} {src out : List Occurrence} {ds : List FuncDecl}
  {es : List Expr}

/-- The places where the listed functions are declared. -/
theorem Traced.mem_out {before : List Occurrence} (h : Traced g t t' s p before src out ds es)
    {o : Occurrence} : o ∈ ds.flatMap FuncDecl.occurrences ↔ o ∈ out ∧ o.role = .func := by
  rw [← h.listed, List.mem_filter, decide_eq_true_iff]

theorem Traced.names_eq {before : List Occurrence} (h : Traced g t t' s p before src out ds es) :
    ds.flatMap FuncDecl.names = (ds.flatMap FuncDecl.occurrences).map Occurrence.name := by
  rw [List.map_flatMap]
  exact List.flatMap_congr fun d hd => (h.named d hd).names_eq

/-- Functions are all declared for the same region, so they have different names. -/
theorem Traced.functions_nodup (h : Traced g t t' s p [] src out ds es) :
    (ds.flatMap FuncDecl.names).Nodup := by
  have hdistinct : out.Pairwise Occurrence.Differs := h.follows.distinct
  rw [h.names_eq, List.Nodup, List.pairwise_map]
  have hfuncs : (ds.flatMap FuncDecl.occurrences).Pairwise Occurrence.Differs := by
    rw [← h.listed]
    exact hdistinct.filter _
  refine hfuncs.imp_of_mem fun hx hy hdiffers => ?_
  obtain ⟨dx, -, hx'⟩ := List.mem_flatMap.1 hx
  obtain ⟨dy, -, hy'⟩ := List.mem_flatMap.1 hy
  refine hdiffers ?_ ?_ ((Ident.region_of_mem hx').trans (Ident.region_of_mem hy').symm)
  · rw [(h.mem_out.1 hx).2]
    decide
  · rw [(h.mem_out.1 hy).2]
    decide

/-- Nothing is stored under the name of a function. -/
theorem Traced.apart (h : Traced g t t' s p [] src out ds es) {id : Symbol}
    (hid : id ∈ t'.staticsAt g) : id.name ∉ ds.flatMap FuncDecl.names := by
  intro hname
  rw [h.names_eq] at hname
  obtain ⟨o, ho, hsame⟩ := List.mem_map.1 hname
  obtain ⟨hout, hrole⟩ := h.mem_out.1 ho
  have hdeclares : o.role ≠ .reference := by
    rw [hrole]
    decide
  obtain ⟨d, -, hd⟩ := List.mem_flatMap.1 ho
  obtain ⟨sym, hsym, hbound⟩ :=
    h.follows.mirrors.global.bound o hout hdeclares (Ident.region_of_mem hd)
  -- the outermost scope binds the name to the function
  obtain ⟨sym', hsym', hfunc⟩ := h.sorted o hout hdeclares
  cases hsym.symm.trans hsym'
  rw [hsame] at hbound
  have hstored := (h.follows.apart id hid).2 sym hbound
  rw [hfunc.2 hrole] at hstored
  cases hstored

/-- A name that stands for a function which is not a builtin one stands for a listed function. -/
theorem Traced.callee (h : Traced g t t' s p [] src out ds es) {id : Ident} {sym : Symbol}
    {q : Region} (hid : id.occurrence .reference q ∈ out) (hsym : id.symbol = some sym)
    (hfunc : sym.type.isFunc = true) (hbuiltin : sym.builtin = false) :
    ∃ d ∈ ds, ∃ f, d.function = some f ∧ f.name = sym.name ∧ f.type = sym.type := by
  obtain ⟨before, after, rfl⟩ := List.append_of_mem hid
  obtain ⟨sym', hsym', hmeans⟩ := (resolved_append.1 h.resolved).2.1 rfl
  cases hsym.symm.trans hsym'
  cases hmeans with
  | @declared o mem sight _ symbol =>
      have hout : o ∈ before ++ id.occurrence .reference q :: after := List.mem_append_left _ mem
      obtain ⟨_, hsorted, hrole⟩ := h.sorted o hout sight.declares
      cases symbol.symm.trans hsorted
      obtain ⟨d, hd, ho⟩ := List.mem_flatMap.1 (h.mem_out.2 ⟨hout, hrole.1 hfunc⟩)
      obtain ⟨id', _, f, hname, hid', hf, hfname, hsname, hstype, -⟩ := h.named d hd
      unfold FuncDecl.occurrences at ho
      rw [hname] at ho
      obtain rfl := List.mem_singleton.1 ho
      cases symbol.symm.trans hid'
      exact ⟨d, hd, f, hf, hfname.trans hsname.symm, hstype.symm⟩
  | builtin _ mem _ =>
      have hall : ∀ x ∈ Symbol.builtins, x.builtin = true := by decide
      exact absurd (hall sym mem) (by rw [hbuiltin]; decide)

end

/-- The variables that a program declares outside of its functions and the functions have different
names. -/
theorem Analysis.namesOf_distinct {b : Block} {a : Analysis} (h : Analysis.ofProgram b = .ok a)
    {ds : List FuncDecl} (hds : a.program.functions = .ok ds) : (namesOf a.globals ds).Nodup := by
  obtain ⟨t, ds', hds', hglobals, htraced⟩ := Analysis.ofProgram_traced h
  cases hds.symm.trans hds'
  obtain ⟨-, -, hstatic⟩ := Analysis.ofProgram_checked h
  refine List.nodup_append.2 ⟨hstatic.names, htraced.functions_nodup, ?_⟩
  rintro name hvar _ hfunc rfl
  obtain ⟨id, hid, rfl⟩ := List.mem_map.1 hvar
  rw [hglobals, Table.statics_eq htraced.follows.global] at hid
  exact htraced.apart hid hfunc

/-- Storage is allocated consistently. In every function of a program that passes the check, the
parameters and the locals are two rows of slots under different names, and the locals are what a walk
of the body finds. What a walk of the program finds outside of functions is the row of globals, whose
names are different, and different from those of the functions of the program and of the builtin
ones. No function is inside of another, so these are all functions. -/
theorem Analysis.storage_consistent {b : Block} {a : Analysis}
    (h : Analysis.ofProgram b = .ok a) :
    ∃ ds, a.program.functions = .ok ds ∧
      (∀ d ∈ ds, ∃ id f, d.name = some id ∧ d.function = some f ∧ f.name = id.name ∧
        Symbol.Row (· = .param) f.params ∧ Symbol.Row (· = .automatic) f.locals ∧
        ((f.params ++ f.locals).map (·.name)).Nodup ∧ d.body.declared = f.locals ∧
        d.body.functions = .ok []) ∧
      Symbol.Row (fun c => c = .global ∨ c = .globalLocal) a.globals ∧
      (namesOf a.globals ds).Nodup ∧
      (∀ id ∈ a.globals, id.name ∉ Symbol.builtins.map (·.name)) ∧
      a.program.declared = a.globals := by
  obtain ⟨htyped, hdeclared, hstatic⟩ := Analysis.ofProgram_checked h
  obtain ⟨t, ds, hds, hglobals, htraced⟩ := Analysis.ofProgram_traced h
  refine ⟨ds, hds, fun d hd => ?_, hstatic.row, Analysis.namesOf_distinct h hds, fun id hid => ?_,
    hdeclared.symm⟩
  · obtain ⟨id, sym, f, hname, -, hf, heq, -, -, -, hbody⟩ := htraced.named d hd
    obtain ⟨hplaced, hlocals, -⟩ :=
      Block.Typed.described htyped hds hd (FuncDecl.described_ok_iff.2 hf)
    exact ⟨id, f, hname, hf, heq, hplaced.params, hplaced.locals, hplaced.names, hlocals.symm,
      hbody⟩
  · rw [hglobals, Table.statics_eq htraced.follows.global] at hid
    exact (htraced.follows.apart id hid).1

/-- A function in a block, with locals in the clauses of a loop. -/
theorem Analysis.storage_consistent_clauses :
    ∃ b a ds d f, Block.parse "(var int g) (block (var int h) (func void f ((int n)) (block
        (for (var int i) (< i n) (var int j) (block (var int k))))))" = .ok b ∧
      Analysis.ofProgram b = .ok a ∧ a.program.functions = .ok ds ∧ d ∈ ds ∧
      d.function = some f ∧ f.locals.map (·.name) = ["i", "j", "k"] ∧
      Symbol.Row (· = .automatic) f.locals ∧ d.body.declared = f.locals ∧
      namesOf a.globals ds = ["g", "h", "f"] := by
  have htext : ((Analysis.ofText? "(var int g) (block (var int h) (func void f ((int n)) (block
        (for (var int i) (< i n) (var int j) (block (var int k))))))").any fun a =>
      a.program.functions.toOption.any fun ds => namesOf a.globals ds = ["g", "h", "f"] ∧
        ds.map (fun d => d.body.declared.map (·.name)) = [["i", "j", "k"]]) = true := by
    decide +kernel
  obtain ⟨a, ha, hany⟩ := (Option.any_eq_true _ _).1 htext
  obtain ⟨b, hb, ha⟩ := Analysis.ofText?_eq_some ha
  obtain ⟨ds, hds, hfunctions, -⟩ := Analysis.storage_consistent ha
  rw [hds] at hany
  obtain ⟨hnames, hlocals⟩ := of_decide_eq_true hany
  obtain ⟨d, rest, rfl, hd, -⟩ := List.map_eq_cons_iff.1 hlocals
  obtain ⟨_, f, -, hf, -, -, hrow, -, hdeclared, -⟩ := hfunctions d List.mem_cons_self
  exact ⟨b, a, _, d, f, hb, ha, hds, List.mem_cons_self, hf, hdeclared ▸ hd, hrow, hdeclared,
    hnames⟩

end SmallC
