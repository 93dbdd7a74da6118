import SmallC.Proofs.CheckTyping
import SmallC.Proofs.TableFollows
import SmallC.Proofs.TypedLowering

/-!
# The check goes along with a program

The check of a program goes through it in the order of its occurrences, and from
one place to the next the table follows the list of those that it has passed. So
each reference is resolved to what the places before it say.

`Traced` is what the check of one piece amounts to. It is closed under putting one
piece after another and under opening a scope for a piece, and one induction over
the check shows that every piece has it. The induction also keeps an account of
the functions: the places where functions are declared are, in order, those of the
functions that a tree lists, for there is none inside of another.
-/

namespace SmallC

open Occurrence

/-! ## Expressions -/

/-- The names `ids'` are the names `ids`, each with the symbol that scope `s` gives it. -/
structure Looked (t : Table) (s : Nat) (ids ids' : List Ident) : Prop where
  symbols : ids'.map (fun id => (id.name, id.symbol)) =
    ids.map fun id => (id.name, t.lookup s id.name)
  found : ∀ id ∈ ids, (t.lookup s id.name).isSome = true

section Looked

variable {t : Table} {s : Nat} {ids ids' more more' : List Ident}

theorem Looked.nil : Looked t s [] [] := ⟨rfl, fun _ h => (nomatch h)⟩

theorem Looked.append (h : Looked t s ids ids') (h' : Looked t s more more') :
    Looked t s (ids ++ more) (ids' ++ more') := by
  refine ⟨?_, fun id hid => ?_⟩
  · rw [List.map_append, List.map_append, h.symbols, h'.symbols]
  · rcases List.mem_append.1 hid with hid | hid
    · exact h.found id hid
    · exact h'.found id hid

/-- Every name has the symbol that was found for it. -/
theorem Looked.lookup (h : Looked t s ids ids') {id : Ident} (hid : id ∈ ids') :
    ∃ sym, id.symbol = some sym ∧ t.lookup s id.name = some sym := by
  have hmem : (id.name, id.symbol) ∈ ids.map fun id => (id.name, t.lookup s id.name) :=
    h.symbols ▸ List.mem_map_of_mem hid
  obtain ⟨id₀, hid₀, heq⟩ := List.mem_map.1 hmem
  obtain ⟨hname, hsymbol⟩ := Prod.mk.inj heq
  obtain ⟨sym, hsym⟩ := Option.isSome_iff_exists.1 (h.found id₀ hid₀)
  exact ⟨sym, hsymbol.symm.trans hsym, hname ▸ hsym⟩

theorem Looked.names (h : Looked t s ids ids') : ids'.map (·.name) = ids.map (·.name) := by
  have hfst := congrArg (List.map Prod.fst) h.symbols
  rw [List.map_map, List.map_map] at hfst
  exact hfst

theorem Looked.one {id : Ident} {sym : Symbol} (h : t.lookup s id.name = some sym) :
    Looked t s [id] [id.referTo sym] := by
  refine ⟨?_, fun id' hid' => ?_⟩
  · rw [List.map_singleton, List.map_singleton, h]
    rfl
  · obtain rfl := List.mem_singleton.1 hid'
    rw [h]
    rfl

end Looked

theorem Expr.idents_binary {pos : Pos} {op : Op} {x y : Expr} {note : Note} :
    (Expr.binary pos op x y note).idents = x.idents ++ y.idents := List.filterMap_append

theorem Expr.idents_index {pos : Pos} {array : Ident} {i : Expr} {note : Note} :
    (Expr.index pos (some array) i note).idents = [array] ++ i.idents := List.filterMap_append

/-- The names in several expressions. -/
def Expr.identsAll (args : List Expr) : List Ident := (Expr.partsAll args).filterMap Expr.ident?

theorem Expr.idents_call {pos : Pos} {func : Ident} {args : List Expr} {note : Note} :
    (Expr.call pos (some func) args note).idents = [func] ++ Expr.identsAll args :=
  List.filterMap_append

theorem Expr.identsAll_cons {e : Expr} {rest : List Expr} :
    Expr.identsAll (e :: rest) = e.idents ++ Expr.identsAll rest := List.filterMap_append

/-- A note says nothing about names. -/
theorem Expr.idents_withNote (e : Expr) (note : Note) :
    (e.withNote note).idents.map (fun id => (id.name, id.symbol)) =
      e.idents.map fun id => (id.name, id.symbol) := by
  cases e <;> rfl

theorem Looked.coerce {t : Table} {s : Nat} {ids : List Ident} {e e' : Expr} {src dst : Ty}
    (h : Looked t s ids e.idents) (hco : e.coerce src dst = .ok e') : Looked t s ids e'.idents := by
  rcases Expr.coerce_ok hco with ⟨-, rfl⟩ | ⟨b, -, -, -, rfl⟩
  · exact h
  · exact ⟨(e.idents_withNote _).trans h.symbols, h.found⟩

section

variable {t : Table} {s : Nat}

mutual

/-- Every name in a checked expression was looked up. -/
theorem Expr.check_looked :
    ∀ {e e' : Expr} {ty : Ty}, e.check t s = .ok (ty, e') → Looked t s e.idents e'.idents
  | .missing, _, _, h => by simp [Expr.check] at h
  | .convert _ _ _, _, _, h => by simp [Expr.check] at h
  | .literal _ _ _ _, _, _, h => by
      obtain ⟨v, -, -, rfl⟩ := Expr.check_literal_ok h
      exact Looked.nil
  | .ident _, _, _, h => by
      obtain ⟨sym, hsym, -, rfl⟩ := Expr.check_ident_ok h
      exact Looked.one hsym
  | .unary _ _ _ _, _, _, h => by
      obtain ⟨_, x₁, x', hx, hco, -, rfl⟩ := Expr.check_unary_ok h
      have hlooked := (Expr.check_looked hx).coerce hco
      exact hlooked
  | .binary _ _ _ _ _, _, _, h => by
      obtain ⟨_, x₁, x', _, y₁, y', _, _, _, hx, hy, hcx, hcy, -, -, -, rfl⟩ :=
        Expr.check_binary_ok h
      rw [Expr.idents_binary, Expr.idents_binary]
      exact ((Expr.check_looked hx).coerce hcx).append ((Expr.check_looked hy).coerce hcy)
  | .index _ _ _ _, _, _, h => by
      obtain ⟨id, sym, _, _, i₁, i', rfl, hsym, -, hi, hco, -, rfl⟩ := Expr.check_index_ok h
      rw [Expr.idents_index, Expr.idents_index]
      exact (Looked.one hsym).append ((Expr.check_looked hi).coerce hco)
  | .call _ _ _ _, _, _, h => by
      obtain ⟨id, sym, params, args', rfl, hsym, -, hcount, hargs, rfl⟩ := Expr.check_call_ok h
      rw [Expr.idents_call, Expr.idents_call]
      exact (Looked.one hsym).append (Expr.checkArgs_looked hcount hargs)

theorem Expr.checkArgs_looked :
    ∀ {args args' : List Expr} {params : List Ty} {name : String} {i : Nat},
      params.length = args.length → Expr.checkArgs t s name i params args = .ok (args', []) →
      Looked t s (Expr.identsAll args) (Expr.identsAll args')
  | [], args', params, _, _, hcount, h => by
      obtain rfl := List.length_eq_zero_iff.1 hcount
      cases h
      exact Looked.nil
  | e :: rest, args', [], _, _, hcount, _ => by cases hcount
  | e :: rest, args', param :: params, _, _, hcount, h => by
      obtain ⟨_, e₁, e', rest', he, hco, hrest, rfl⟩ := Expr.checkArgs_cons_ok h
      rw [Expr.identsAll_cons, Expr.identsAll_cons]
      exact ((Expr.check_looked he).coerce hco).append
        (Expr.checkArgs_looked (Nat.succ.inj hcount) hrest)

end

theorem Expr.checkCond_looked {e e' : Expr} (h : e.checkCond t s = .ok e') :
    Looked t s e.idents e'.idents := by
  obtain ⟨_, e₁, he, hco⟩ := Expr.checkCond_ok h
  exact (Expr.check_looked he).coerce hco

theorem checkLoopCond_looked {pos : Pos} {cond cond' inserted : Expr}
    (h : checkLoopCond t s pos cond = .ok (cond', inserted)) :
    Looked t s cond.idents cond'.idents := by
  rcases checkLoopCond_ok h with ⟨hm, rfl, -⟩ | ⟨-, hc, -⟩
  · obtain rfl := Expr.isMissing_iff.1 hm
    exact Looked.nil
  · exact Expr.checkCond_looked hc

/-- The condition that is inserted in a loop mentions no name. -/
theorem checkLoopCond_inserted {pos : Pos} {cond cond' inserted : Expr}
    (h : checkLoopCond t s pos cond = .ok (cond', inserted)) (id : Ident) :
    Expr.ident id ∉ inserted.parts := by
  rcases checkLoopCond_ok h with ⟨-, -, hc⟩ | ⟨-, -, rfl⟩
  · intro hid
    have hmem : id ∈ inserted.idents := List.mem_filterMap.2 ⟨_, hid, rfl⟩
    have hnames := (Expr.checkCond_looked hc).names
    rw [List.map_eq_nil_iff.1 hnames] at hmem
    cases hmem
  · exact nofun

theorem checkTarget_looked {pos : Pos} {target target' : Expr} {ty : Ty}
    (h : checkTarget t s pos target = .ok (ty, target')) :
    Looked t s target.idents target'.idents := by
  rcases checkTarget_ok h with ⟨id, sym, rfl, hsym, -, -, rfl⟩ | ⟨_, _, _, _, -, hcheck⟩
  · exact Looked.one hsym
  · exact Expr.check_looked hcheck

theorem checkAssign_looked {pos : Pos} {target value : Expr} {stmt : Stmt}
    (h : checkAssign t s pos target value = .ok stmt) :
    ∃ target' value' noted, stmt = .assign pos target' value' noted ∧
      Looked t s target.idents target'.idents ∧ Looked t s value.idents value'.idents := by
  obtain ⟨ty, target', _, value₁, value', htarget, hvalue, hco, rfl⟩ := checkAssign_ok h
  exact ⟨target', value', some ty, rfl, checkTarget_looked htarget,
    (Expr.check_looked hvalue).coerce hco⟩

end

/-! ## Pieces of a program -/

/-- Every reference among the places `out` is resolved to what the places before it say. -/
def Resolved (before : List Occurrence) : List Occurrence → Prop
  | [] => True
  | o :: rest =>
    (o.role = .reference → ∃ sym, o.symbol = some sym ∧ Means before o sym) ∧
      Resolved (before ++ [o]) rest

theorem resolved_append {before out more : List Occurrence} :
    Resolved before (out ++ more) ↔ Resolved before out ∧ Resolved (before ++ out) more := by
  induction out generalizing before with
  | nil => simp [Resolved]
  | cons o rest ih =>
      simp only [List.cons_append, Resolved, ih, List.append_assoc, List.nil_append, and_assoc]

/-- References that a table has looked up are resolved, if the table follows the places before. -/
theorem Table.Follows.resolved {g s : Nat} {t : Table} {p : Region} :
    ∀ {refs before : List Occurrence}, t.Follows g s p before →
      (∀ r ∈ refs, ∃ sym, r = ⟨.reference, p, r.name, some sym⟩ ∧ t.lookup s r.name = some sym) →
      Resolved before refs
  | [], _, _, _ => trivial
  | r :: rest, _, hf, h => by
      obtain ⟨⟨sym, hr, hsym⟩, hrest⟩ := List.forall_mem_cons.1 h
      refine ⟨fun _ => ⟨sym, by rw [hr], ?_⟩, Table.Follows.resolved (hf.references ?_) hrest⟩
      · rw [hr]
        exact hf.means hsym
      · intro x hx
        obtain rfl := List.mem_singleton.1 hx
        rw [hr]

/-- A declared name has a symbol, which is that of a function exactly if a function is declared. -/
def Occurrence.Sorted (o : Occurrence) : Prop :=
  o.role ≠ .reference → ∃ sym, o.symbol = some sym ∧ (sym.type.isFunc = true ↔ o.role = .func)

/-- A function that is listed under its name with its signature, and has no function inside. -/
def FuncDecl.Named (d : FuncDecl) : Prop :=
  ∃ id sym f, d.name = some id ∧ id.symbol = some sym ∧ d.function = some f ∧ f.name = id.name ∧
    sym.name = id.name ∧ sym.type = f.type ∧ sym.builtin = false ∧ d.body.functions = .ok []

/-- The place where a listed function is declared. -/
def FuncDecl.occurrences (d : FuncDecl) : List Occurrence := Ident.occurrences .func [] d.name

/-- Every name in the expressions `es` is a reference at one of the places `out`. -/
def Covers (out : List Occurrence) (es : List Expr) : Prop :=
  ∀ id, Expr.ident id ∈ es → ∃ q, id.occurrence .reference q ∈ out

section Covers

variable {out out' : List Occurrence} {es es' : List Expr}

theorem Covers.nil : Covers out [] := fun _ hid => (nomatch hid)

theorem Covers.mono (h : Covers out es) (hout : out ⊆ out') : Covers out' es := by
  intro id hid
  obtain ⟨q, hq⟩ := h id hid
  exact ⟨q, hout hq⟩

theorem Covers.append (h : Covers out es) (h' : Covers out' es') :
    Covers (out ++ out') (es ++ es') := by
  intro id hid
  rcases List.mem_append.1 hid with hid | hid
  · exact h.mono (List.subset_append_left _ _) id hid
  · exact h'.mono (List.subset_append_right _ _) id hid

end Covers

/-- The check of a piece of a program in scope `s`, with region `p`, has led from one table to
another. The places of the piece are `src`, and `out` with the symbols found; it declares the
functions `ds` and has the expressions `es`. -/
structure Traced (g : Nat) (t t' : Table) (s : Nat) (p : Region) (before src out : List Occurrence)
    (ds : List FuncDecl) (es : List Expr) : Prop where
  follows : t'.Follows g s p (before ++ out)
  resolved : Resolved before out
  same : out.map bare = src.map bare
  sorted : ∀ o ∈ out, o.Sorted
  listed : out.filter (·.role = .func) = ds.flatMap FuncDecl.occurrences
  named : ∀ d ∈ ds, d.Named
  inside : (t.owner? s).isSome = true → ds = []
  covered : Covers out es
  bodies : ∀ d ∈ ds, Covers out d.body.exprs

section Traced

variable {g s : Nat} {t t₁ t' : Table} {p : Region} {before src src' out out' : List Occurrence}
  {ds ds' : List FuncDecl} {es es' : List Expr}

theorem Traced.nothing (h : t.Follows g s p before) : Traced g t t s p before [] [] [] [] :=
  ⟨by rw [List.append_nil]; exact h, trivial, rfl, List.forall_mem_nil _, rfl,
    List.forall_mem_nil _, fun _ => rfl, .nil, List.forall_mem_nil _⟩

theorem Traced.seq (howner : t₁.owner? s = t.owner? s)
    (h : Traced g t t₁ s p before src out ds es)
    (h' : Traced g t₁ t' s p (before ++ out) src' out' ds' es') :
    Traced g t t' s p before (src ++ src') (out ++ out') (ds ++ ds') (es ++ es') where
  follows := by
    rw [← List.append_assoc]
    exact h'.follows
  resolved := resolved_append.2 ⟨h.resolved, h'.resolved⟩
  same := by rw [List.map_append, List.map_append, h.same, h'.same]
  sorted := List.forall_mem_append.2 ⟨h.sorted, h'.sorted⟩
  listed := by rw [List.filter_append, List.flatMap_append, h.listed, h'.listed]
  named := List.forall_mem_append.2 ⟨h.named, h'.named⟩
  inside ho := by
    rw [h.inside ho, h'.inside (howner ▸ ho)]
    rfl
  covered := h.covered.append h'.covered
  bodies := List.forall_mem_append.2
    ⟨fun d hd => (h.bodies d hd).mono (List.subset_append_left _ _),
      fun d hd => (h'.bodies d hd).mono (List.subset_append_right _ _)⟩

/-- An expression declares nothing. -/
theorem Traced.expr (hf : t.Follows g s p before) {e e' : Expr}
    (h : Looked t s e.idents e'.idents) :
    Traced g t t s p before (e.references p) (e'.references p) [] e'.parts := by
  have hrefs : ∀ r ∈ e'.references p, r.role = .reference := fun _ => Expr.role_of_mem
  refine ⟨hf.references hrefs, ?_, ?_, fun r hr hrole => absurd (hrefs r hr) hrole, ?_,
    List.forall_mem_nil _, fun _ => rfl, fun id hid => ⟨p, List.mem_map_of_mem ?_⟩,
    List.forall_mem_nil _⟩
  · refine hf.resolved fun r hr => ?_
    obtain ⟨id, hid, rfl⟩ := List.mem_map.1 hr
    obtain ⟨sym, hsymbol, hsym⟩ := h.lookup hid
    refine ⟨sym, ?_, hsym⟩
    rw [← hsymbol]
    rfl
  · have hbare : ∀ e : Expr, (e.references p).map bare =
        (e.idents.map (·.name)).map fun name => ⟨.reference, p, name, none⟩ := by
      intro e
      unfold Expr.references
      rw [List.map_map, List.map_map]
      rfl
    rw [hbare, hbare, h.names]
  · refine List.filter_eq_nil_iff.2 fun r hr => ?_
    rw [hrefs r hr]
    decide
  · exact List.mem_filterMap.2 ⟨_, hid, rfl⟩

theorem Traced.congr (h : Traced g t t' s p before src out ds es)
    (hsrc : src'.map bare = src.map bare)
    (hes : ∀ id, Expr.ident id ∈ es' → Expr.ident id ∈ es) :
    Traced g t t' s p before src' out ds es' :=
  { h with same := h.same.trans hsrc.symm, covered := fun id hid => h.covered id (hes id hid) }

/-- A declaration of a variable or a parameter. -/
theorem Traced.declared {o o' : Occurrence} (h : t'.Follows g s p (before ++ [o']))
    (hsame : o'.bare = o.bare) (hrole : o'.role ≠ .reference) (hfunc : o'.role ≠ .func)
    (hsorted : o'.Sorted) : Traced g t t' s p before [o] [o'] [] [] where
  follows := h
  resolved := ⟨fun hreference => absurd hreference hrole, trivial⟩
  same := by rw [List.map_singleton, List.map_singleton, hsame]
  sorted := List.forall_mem_singleton.2 hsorted
  listed := List.filter_eq_nil_iff.2 (List.forall_mem_singleton.2 (by simpa using hfunc))
  named := List.forall_mem_nil _
  inside := fun _ => rfl
  covered := .nil
  bodies := List.forall_mem_nil _

/-- A piece in a scope of its own. -/
theorem Traced.of_child {x : Nat × Nat} (hf : t.Follows g s p before) {new : List Symbol}
    (hgrows : (t.child s).1.Grows t' t.size new)
    (h : Traced g (t.child s).1 t' t.size (x :: p) before src out ds es) :
    Traced g t t' s p before src out ds es := by
  have ht := hf.sound.toShaped
  have hlt := hf.lt_size
  have hsize : (t.child s).1.size = t.size + 1 := Table.size_child
  refine { h with follows := h.follows.leave ?_ ?_, inside := fun ho => h.inside ?_ }
  · rw [hgrows.chain _ (by omega), hgrows.chain s (by omega), ht.chain_child_new,
      ht.chain_child hlt]
  · rw [hgrows.global s (by omega), Table.global?_child hlt]
    exact hf.global
  · rw [Table.owner?_child_new ht]
    exact ho

end Traced

/-! ## Declarations -/

theorem Occurrence.Sorted.ofData {role : Role} {p : Region} {name : String} {sym : Symbol}
    (hdata : sym.type.isData = true) (hrole : role ≠ .func) :
    Occurrence.Sorted ⟨role, p, name, some sym⟩ := by
  intro _
  refine ⟨sym, rfl, ?_⟩
  rw [Ty.isFunc_of_isData hdata]
  exact ⟨nofun, fun h => absurd h hrole⟩

section

variable {g s : Nat} {t t' : Table} {p : Region} {before : List Occurrence}

theorem declare_traced (hf : t.Follows g s p before) {id id' : Ident} {type : Ty}
    {size : Option Pos} (hdata : type.isData = true)
    (h : declare t s id type size = .ok (t', id')) :
    Traced g t t' s p before [id.occurrence .var p] [id'.occurrence .var p] [] [] := by
  obtain ⟨sym, hadd, rfl⟩ := declare_ok h
  obtain ⟨-, -, -, htype⟩ := hf.sound.addVar hdata hadd
  have hdata' : sym.type.isData = true := by
    rw [htype]
    exact hdata
  exact .declared (hf.addVar hdata hadd) rfl (by simp [Ident.occurrence])
    (by simp [Ident.occurrence]) (.ofData hdata' (by decide))

theorem checkVar_traced (hf : t.Follows g s p before) {type : Ty} {n n' : Node} (i : Nat)
    (hdata : type.isData = true) (h : checkVar t s type n = .ok (t', n')) :
    n'.functions = .ok [] ∧
      Traced g t t' s p before (n.occurrences p i) (n'.occurrences p i) [] n'.exprs := by
  rcases checkVar_ok h with ⟨id, id', rfl, hd, rfl⟩ | ⟨pos, id, value, _, id', _, rfl, hd, ha, rfl⟩
  · exact ⟨rfl, declare_traced hf hdata hd⟩
  · obtain ⟨sym, hsound, hgrows, hs, hname, -, hlookup, hdecl⟩ := declare_typed hf.sound hdata hd
    have hfirst := declare_traced hf hdata hd
    have howner := hgrows.owner? hf.sound.toShaped hs
    obtain ⟨target', value', noted, rfl, htarget, hvalue⟩ := checkAssign_looked ha
    obtain ⟨_, _, _, heq, -, hident⟩ :=
      checkAssign_typed hsound (Nat.lt_of_lt_of_le hs hgrows.size) ha
    cases heq
    obtain ⟨sym', hsym', rfl⟩ := hident id' rfl
    -- the name that is assigned to is the one that was just declared
    rw [hname, hlookup] at hsym'
    cases hsym'
    have htargetTraced := Traced.expr hfirst.follows htarget
    have hall := hfirst.seq howner (htargetTraced.seq rfl (.expr htargetTraced.follows hvalue))
    have hself : (id'.referTo sym).occurrence .var p = id'.occurrence .var p := by
      unfold Ident.occurrence
      rw [hdecl.symbol]
      rfl
    refine ⟨rfl, ?_⟩
    rw [show (Node.stmt (.assign pos (.ident (id'.referTo sym)) value' noted)).occurrences p i =
      [(id'.referTo sym).occurrence .var p] ++
        ((Expr.ident (id'.referTo sym)).references p ++ value'.references p) from rfl, hself]
    refine hall.congr ?_ fun _ hid => hid
    simp [Node.occurrences, Stmt.assigned, Stmt.occurrences, Expr.references, Expr.idents,
      Expr.parts, Expr.ident?, Ident.occurrence, bare, hname]

theorem checkVars_traced {type : Ty} (i : Nat) (hdata : type.isData = true) :
    ∀ {ns ns' : List Node} {t : Table} {before : List Occurrence}, t.Follows g s p before →
      checkVars t s type ns = .ok (t', ns') →
      Node.functionsIn ns' = .ok [] ∧
        Traced g t t' s p before (Node.occurrencesIn p i ns) (Node.occurrencesIn p i ns') []
          (ns'.flatMap Node.exprs)
  | [], _, _, _, hf, h => by
      cases h
      exact ⟨rfl, .nothing hf⟩
  | n :: rest, _, t, _, hf, h => by
      obtain ⟨t₁, n', rest', hn, hrest, rfl⟩ := checkVars_cons_ok h
      have hgrows := (checkVar_typed hf.sound hdata hn).grows
      obtain ⟨hnone, hfirst⟩ := checkVar_traced hf i hdata hn
      obtain ⟨hmore, hlater⟩ := checkVars_traced i hdata hfirst.follows hrest
      refine ⟨?_, hfirst.seq (hgrows.owner? hf.sound.toShaped hf.lt_size) hlater⟩
      rw [Node.functionsIn, hnone, hmore]
      rfl

/-! ## Functions -/

theorem checkParams_traced :
    ∀ {ps ps' : List (Option Param)} {t : Table} {before : List Occurrence} {f : Function},
      t.Follows g s p before → t.functionAt? s = some f → f.locals = [] →
      checkParams t s ps = .ok (t', ps') →
      Traced g t t' s p before (Params.occurrences p ps) (Params.occurrences p ps') [] [] ∧
        ∃ f', t'.functionAt? s = some f' ∧ f'.name = f.name
  | [], _, t, _, f, hf, hmark, _, h => by
      cases h
      exact ⟨.nothing hf, f, hmark, rfl⟩
  | _ :: rest, _, t, _, f, hf, hmark, hlocals, h => by
      obtain ⟨t₁, p', rest', hp, hrest, rfl⟩ := checkParams_cons_ok h
      obtain ⟨q, kind, id, sym, rfl, hkind, hid, hadd, rfl⟩ := checkParam_ok hp
      have hdata := Ty.isData_ofKind q.isArray (checkTypeName_isData hkind)
      obtain ⟨hsound, -, -, hmark₁⟩ := hf.sound.addParam hdata hmark hlocals hadd
      obtain ⟨_, _, -, -, -, -, -, hsym, -⟩ := Table.addParam_ok hadd
      have hdata' : sym.type.isData = true := by
        rw [hsym]
        exact hdata
      have hfirst : Traced g t t₁ s p _ [id.occurrence .param p]
          [⟨.param, p, id.name, some sym⟩] [] [] :=
        .declared (hf.addParam hdata hmark hlocals hadd) rfl (by simp) (by simp)
          (.ofData hdata' (by decide))
      have howner : t₁.owner? s = t.owner? s := by
        rw [hsound.owner?_self hmark₁, hf.sound.owner?_self hmark]
      obtain ⟨hlater, f', hf', hname⟩ := checkParams_traced hfirst.follows hmark₁ hlocals hrest
      refine ⟨?_, f', hf', hname⟩
      rw [show Params.occurrences p (some q :: rest) =
        [id.occurrence .param p] ++ Params.occurrences p rest by
          unfold Params.occurrences; rw [List.flatMap_cons, Option.bind_some, hid]; rfl]
      exact hfirst.seq howner hlater

/-- What the head of a function in scope `s` amounts to: its parameters are declared in a scope of
their own, then its name, and the body comes next. -/
structure HeadTraced (g : Nat) (t t' : Table) (s : Nat) (q : Region) (before : List Occurrence)
    (name : Option Ident) (params : Option Params) (head : FuncHead) : Prop where
  chain : t'.chain t.size = t.size :: t.chain s
  follows : t'.Follows g t.size q (before ++ (Params.occurrences q
    ((head.params.map (·.list)).getD []) ++ [head.name.occurrence .func []]))
  params : ∃ t₀ t₁, Traced g t₀ t₁ t.size q before
    (Params.occurrences q ((params.map (·.list)).getD []))
    (Params.occurrences q ((head.params.map (·.list)).getD [])) [] []
  named : ∃ id sym f, name = some id ∧ head.name = { id with symbol := some sym } ∧
    t'.functionAt? t.size = some f ∧ f.name = id.name ∧ sym.name = id.name ∧ sym.type = f.type ∧
    sym.builtin = false

/-- The body of a function is still ahead after the head. -/
theorem unopened_body {q : Region} (hq : Unopened before q) (x : Nat × Nat)
    (params : Option Params) (name : Ident) :
    Unopened (before ++ (Params.occurrences q ((params.map (·.list)).getD []) ++
      [name.occurrence .func []])) (x :: q) := by
  refine (hq.inner x).append fun d hd _ hsuffix => ?_
  rcases List.mem_append.1 hd with hd | hd
  · rw [Params.region_of_mem hd] at hsuffix
    exact not_suffix_self _ _ hsuffix
  · obtain rfl := List.mem_singleton.1 hd
    exact absurd (List.suffix_nil.1 hsuffix) (by simp)

theorem checkFuncHead_traced (hf : t.Follows g s p before) {x : Nat × Nat}
    (hx : Unopened before (x :: p)) {result : Option Ident} {isArray : Bool}
    {name : Option Ident} {params : Option Params} {head : FuncHead}
    (h : checkFuncHead t s result isArray name params = .ok (t', head)) :
    HeadTraced g t t' s (x :: p) before name params head := by
  obtain ⟨id, kind, t₁, list, f, t₂, sym, rfl, hnone, hkind, hparams, hfe, hadd, ht', hhead⟩ :=
    checkFuncHead_ok h
  obtain ⟨hsound', -, -, -, -⟩ := checkFuncHead_sound hf.sound hf.global h
  have ht := hf.sound.toShaped
  rw [ht.scope_child] at hparams hfe ht' hhead
  obtain ⟨hmark, hmarked⟩ :=
    hf.sound.openFunction hf.global hnone id.name (checkTypeName_isResult hkind)
  obtain ⟨hsound₁, hext₁, -, -⟩ := checkParams_sound hmark hmarked rfl hparams
  obtain ⟨htraced, f', hf', hname⟩ :=
    checkParams_traced ((hf.enter hx).setFunction hmark) hmarked rfl hparams
  rw [hf', Option.getD_some] at hfe
  subst hfe
  -- the name is looked for in the program around, which is the one of the new scope as well
  have hglobal₁ : t₁.global? s = some g := by
    rw [hext₁.global, Table.global?_setFunction, Table.global?_child hf.lt_size]
    exact hf.global
  have hfollows :=
    htraced.follows.addFunc hglobal₁ (hsound₁.placed _ f hf').isSignature rfl hadd
  obtain ⟨g', -, -, -, -, hsym, rfl⟩ := Table.addFunc_ok hadd
  have hlist : ((params.map ({ · with list := list })).map (·.list)).getD [] = list := by
    cases params with
    | none => cases hparams; rfl
    | some ps => rfl
  subst ht' hhead
  have hlt := Table.lt_size_of_function hf'
  refine ⟨?_, ?_, ?_, id, sym, _, rfl, rfl, Table.functionAt?_setFunction_self hlt, hname, ?_, ?_,
    ?_⟩
  · have hchain₁ : t₁.chain t.size = t.size :: t.chain s := by
      rw [hext₁.chain]
      exact ht.chain_child_new
    exact Scope.chain_bind.trans hchain₁
  · dsimp only
    rw [hlist, ← List.append_assoc]
    exact hfollows.setFunction hsound'
  · dsimp only
    rw [hlist]
    exact ⟨_, _, htraced⟩
  · rw [hsym]; rfl
  · rw [hsym]; rfl
  · rw [hsym]; rfl

/-- A function after its head and its body. Of all its places only its name is seen from outside. -/
theorem HeadTraced.funcDecl {x : Nat × Nat} {name : Option Ident} {params : Option Params}
    {head : FuncHead} {t₁ : Table} (hhead : HeadTraced g t t₁ s (x :: p) before name params head)
    (hnone : t.owner? s = none) {src out : List Occurrence} {body : Block}
    (hbody : Traced g t₁ t' t.size (x :: p) (before ++ (Params.occurrences (x :: p)
      ((head.params.map (·.list)).getD []) ++ [head.name.occurrence .func []])) src out []
        body.exprs)
    (hflat : body.functions = .ok []) (hchain : t'.chain t.size = t.size :: t'.chain s)
    (hglobal : t'.global? s = some g) {new : List Symbol}
    (hfun : t'.functionAt? t.size = (t₁.functionAt? t.size).map (·.addLocals new)) (pos : Pos) :
    Traced g t t' s p before
      (Params.occurrences (x :: p) ((params.map (·.list)).getD []) ++
        Ident.occurrences .func [] name ++ src)
      (Params.occurrences (x :: p) ((head.params.map (·.list)).getD []) ++
        Ident.occurrences .func [] (some head.name) ++ out)
      [⟨pos, some head.name, body, t'.functionAt? t.size⟩] body.exprs := by
  obtain ⟨t₀, t₂, hparams⟩ := hhead.params
  obtain ⟨id, sym, f, rfl, hid, hf, hname, hsymName, htype, hbuiltin⟩ := hhead.named
  have hsorted : ∀ o ∈ [head.name.occurrence .func []], o.Sorted := by
    refine List.forall_mem_singleton.2 fun _ => ⟨sym, by rw [hid]; rfl, ?_⟩
    rw [htype]
    exact ⟨fun _ => rfl, fun _ => rfl⟩
  have hcovered := hbody.covered.mono (List.subset_append_right (Params.occurrences (x :: p)
    ((head.params.map (·.list)).getD []) ++ Ident.occurrences .func [] (some head.name)) out)
  refine ⟨?_, ?_, ?_, ?_, ?_, ?_, ?_, hcovered, List.forall_mem_singleton.2 hcovered⟩
  · have hfollows := hbody.follows
    rw [List.append_assoc] at hfollows
    exact hfollows.leave hchain hglobal
  · refine resolved_append.2 ⟨resolved_append.2 ⟨hparams.resolved, nofun, trivial⟩, ?_⟩
    exact hbody.resolved
  · rw [List.map_append, List.map_append, List.map_append, List.map_append, hparams.same,
      hbody.same, hid]
    rfl
  · exact List.forall_mem_append.2
      ⟨List.forall_mem_append.2 ⟨hparams.sorted, hsorted⟩, hbody.sorted⟩
  · rw [List.filter_append, List.filter_append, hparams.listed, hbody.listed]
    rfl
  · refine List.forall_mem_singleton.2
      ⟨head.name, sym, f.addLocals new, rfl, by rw [hid], ?_, ?_, ?_, htype, hbuiltin, hflat⟩
    · dsimp only
      rw [hfun, hf]
      rfl
    · rw [hid]
      exact hname
    · rw [hid]
      exact hsymName
  · intro ho
    rw [hnone] at ho
    cases ho

end

/-! ## Statements -/

section

variable {g : Nat}

/-- A part of a loop that may be absent. -/
theorem Stmt.checkPart_traced {t t' : Table} {s : Nat} {p : Region} {i : Nat}
    {before : List Occurrence} {part part' : Stmt} (hf : t.Follows g s p before)
    (hpart : part.check t s = .ok (t', part') → ∃ ds, part'.functions = .ok ds ∧
      Traced g t t' s p before (part.occurrences p i) (part'.occurrences p i) ds part'.exprs)
    (h : part.checkPart t s = .ok (t', part')) :
    ∃ ds, part'.functions = .ok ds ∧
      Traced g t t' s p before (part.occurrences p i) (part'.occurrences p i) ds part'.exprs := by
  rcases Stmt.checkPart_ok h with ⟨rfl, rfl, rfl⟩ | ⟨-, h⟩
  · exact ⟨[], rfl, .nothing hf⟩
  · exact hpart h

mutual

/-- The check of a statement goes along with the places of the statement. -/
theorem Stmt.check_traced :
    ∀ {stmt stmt' : Stmt} {t t' : Table} {s : Nat} {p : Region} {i : Nat}
      {before : List Occurrence}, t.Follows g s p before → Ahead before p i →
      stmt.check t s = .ok (t', stmt') →
      ∃ ds, stmt'.functions = .ok ds ∧
        Traced g t t' s p before (stmt.occurrences p i) (stmt'.occurrences p i) ds stmt'.exprs
  | .missing, _, _, _, _, _, _, _, _, _, h => by cases h
  | .call _ _ _ _, _, _, _, _, _, _, _, hf, _, h => by
      obtain ⟨id, sym, _, _, args', rfl, rfl, hsym, -, hcount, hargs, rfl⟩ := Stmt.check_call_ok h
      refine ⟨[], rfl, Traced.expr hf ?_⟩
      rw [Expr.idents_call, Expr.idents_call]
      exact (Looked.one hsym).append (Expr.checkArgs_looked hcount hargs)
  | .assign _ _ _ _, _, _, _, _, _, _, _, hf, _, h => by
      obtain ⟨rfl, ha⟩ := Stmt.check_assign_ok h
      obtain ⟨target', value', _, rfl, htarget, hvalue⟩ := checkAssign_looked ha
      have htraced := Traced.expr hf htarget
      exact ⟨[], rfl, htraced.seq rfl (.expr htraced.follows hvalue)⟩
  | .varDecl _ _ _, _, _, _, _, _, i, _, hf, _, h => by
      obtain ⟨kind, vars', hkind, hvars, rfl⟩ := Stmt.check_varDecl_ok h
      have hdata : (Ty.base kind).isData = true := checkTypeName_isData hkind
      exact ⟨[], checkVars_traced i hdata hf hvars⟩
  | .arrayDecl _ _ _ _, _, _, _, _, _, _, _, hf, _, h => by
      obtain ⟨kind, _, size₁, size', id, id', hkind, hsize, hco, rfl, hd, rfl⟩ :=
        Stmt.check_arrayDecl_ok h
      have hdata : (Ty.array kind).isData = true := checkTypeName_isData hkind
      have hrefs := Traced.expr hf ((Expr.check_looked hsize).coerce hco)
      have hall := hrefs.seq rfl (declare_traced hrefs.follows hdata hd)
      exact ⟨[], rfl, hall.congr rfl fun _ hid => List.mem_append_left _ hid⟩
  | .ifElse _ _ yes no, _, _, _, _, p, i, before, hf, ha, h => by
      obtain ⟨cond', t₁, yes', no', hc, hyes, hno, rfl⟩ := Stmt.check_ifElse_ok h
      have hrefs := Traced.expr hf (Expr.checkCond_looked hc)
      obtain ⟨ds, hds, hfirst⟩ := Block.check_traced hrefs.follows
        ((ha i 0 (Nat.le_refl i)).references fun _ => Expr.role_of_mem) hyes
      have hother : Unopened (before ++ cond'.references p) ((i, 1) :: p) :=
        (ha i 1 (Nat.le_refl i)).references fun _ => Expr.role_of_mem
      have hsibling := hother.sibling (x := (i, 0)) (by simp) (Block.occurrences_within (b := yes'))
      obtain ⟨ds', hds', hsecond⟩ := Block.check_traced hfirst.follows hsibling hno
      have hgrows := (Block.check_inner hf.sound hf.global hyes).grows
      have howner := hgrows.owner? hf.sound.toShaped hf.lt_size
      refine ⟨ds ++ ds', by rw [Stmt.functions, hds, hds']; rfl, ?_⟩
      have hall := hrefs.seq rfl (hfirst.seq howner hsecond)
      rw [Stmt.occurrences, Stmt.occurrences, Stmt.exprs, List.append_assoc, List.append_assoc,
        List.append_assoc]
      exact hall
  | .whileLoop _ _ _, _, _, _, _, _, i, _, hf, ha, h => by
      obtain ⟨cond', body', hc, hbody, rfl⟩ := Stmt.check_whileLoop_ok h
      have hrefs := Traced.expr hf (Expr.checkCond_looked hc)
      obtain ⟨ds, hds, htraced⟩ := Block.check_traced hrefs.follows
        ((ha i 0 (Nat.le_refl i)).references fun _ => Expr.role_of_mem) hbody
      exact ⟨ds, hds, hrefs.seq rfl htraced⟩
  | .forLoop _ init _ _ step _, _, t, _, s, p, i, before, hf, ha, h => by
      obtain ⟨t₁, init', cond', inserted', t₂, step', body', hinit, hc, hstep, hbody, rfl⟩ :=
        Stmt.check_forLoop_ok h
      have hx := ha i 0 (Nat.le_refl i)
      have hopen := hf.enter hx
      rw [hf.sound.scope_child] at hinit hc hstep hbody
      -- the first part of the loop
      have hgrows₁ := (Stmt.checkPart_typed hopen.sound hopen.global hinit).grows
      have howner₁ := hgrows₁.owner? hopen.sound.toShaped hopen.lt_size
      obtain ⟨ds₁, hds₁, hfirst⟩ :=
        Stmt.checkPart_traced (i := 0) hopen (Stmt.check_traced hopen (hx.ahead 0)) hinit
      have hahead₁ := (hx.ahead 0).next fun o ho => Stmt.occurrences_within (s := init') o ho
      -- the condition
      have hrefs := Traced.expr hfirst.follows (checkLoopCond_looked hc)
      have hahead₂ := hahead₁.declared fun o ho => Expr.region_of_mem (e := cond') ho
      -- the step
      have hgrows₂ := (Stmt.checkPart_typed hrefs.follows.sound hrefs.follows.global hstep).grows
      have howner₂ := hgrows₂.owner? hrefs.follows.sound.toShaped hrefs.follows.lt_size
      obtain ⟨ds₂, hds₂, hsecond⟩ := Stmt.checkPart_traced (i := 1) hrefs.follows
        (Stmt.check_traced hrefs.follows hahead₂) hstep
      have hahead₃ := hahead₂.next fun o ho => Stmt.occurrences_within (s := step') o ho
      -- the body
      obtain ⟨ds₃, hds₃, hthird⟩ :=
        Block.check_traced hsecond.follows (hahead₃ 2 0 (Nat.le_refl 2)) hbody
      have hgrows₃ := (Block.check_inner hsecond.follows.sound hsecond.follows.global hbody).grows
      have hgrows := (hgrows₁.trans hopen.sound.toShaped hopen.lt_size hgrows₂).trans
        hopen.sound.toShaped hopen.lt_size hgrows₃
      have hall := hfirst.seq howner₁ (hrefs.seq rfl (hsecond.seq howner₂ hthird))
      refine ⟨ds₁ ++ ds₂ ++ ds₃, by rw [Stmt.functions, hds₁, hds₂, hds₃]; rfl, ?_⟩
      rw [Stmt.occurrences, Stmt.occurrences, List.append_assoc, List.append_assoc,
        List.append_assoc, List.append_assoc, List.append_assoc]
      refine (Traced.of_child hf hgrows hall).congr rfl fun id hid => ?_
      simp only [Stmt.exprs, List.mem_append] at hid ⊢
      rcases hid with (((hid | hid) | hid) | hid) | hid
      · exact .inl hid
      · exact .inr (.inl hid)
      · exact absurd hid (checkLoopCond_inserted hc id)
      · exact .inr (.inr (.inl hid))
      · exact .inr (.inr (.inr hid))
  | .block _, _, _, _, _, _, i, _, hf, ha, h => by
      obtain ⟨b', hb, rfl⟩ := Stmt.check_block_ok h
      exact Block.check_traced hf (ha i 0 (Nat.le_refl i)) hb
  | .funcDecl pos _ _ _ _ _ _, _, t, t', s, p, i, _, hf, ha, h => by
      obtain ⟨t₁, head, body', hh, hb, rfl⟩ := Stmt.check_funcDecl_ok h
      obtain ⟨-, -, -, -, -, -, -, -, hnone, -⟩ := checkFuncHead_ok hh
      obtain ⟨hsound, hkeeps, hscope, hg₁, f, hf₁, -⟩ := checkFuncHead_sound hf.sound hf.global hh
      rw [hscope] at hb
      have hx := ha i 0 (Nat.le_refl i)
      have hhead := checkFuncHead_traced hf hx hh
      have hsize := Table.lt_size_of_global hg₁
      obtain ⟨ds, hds, hbody⟩ :=
        Block.check_traced hhead.follows (unopened_body hx (0, 0) head.params head.name) hb
      have hself := hsound.owner?_self hf₁
      obtain rfl := hbody.inside (by rw [hself]; rfl)
      have hgrows := (Block.check_inner hsound hg₁ hb).grows
      have hlt := hf.lt_size
      rw [hscope]
      refine ⟨_, rfl, hhead.funcDecl (Table.owner?_eq_none hnone) hbody hds ?_ ?_
        ((hgrows.function _ hsize).trans (if_pos hself)) pos⟩
      · rw [hgrows.chain _ hsize, hgrows.chain s (by omega), hkeeps.chain s hlt]
        exact hhead.chain
      · rw [hgrows.global s (by omega), hkeeps.global s hlt]
        exact hf.global
  | .ret _ _, _, _, _, _, _, _, _, hf, _, h => by
      obtain ⟨rfl, hr⟩ := Stmt.check_ret_ok h
      obtain ⟨_, -, ⟨hm, -, rfl⟩ | ⟨_, value₁, value', -, -, hval, hco, rfl⟩⟩ := checkReturn_ok hr
      · obtain rfl := Expr.isMissing_iff.1 hm
        exact ⟨[], rfl, .nothing hf⟩
      · exact ⟨[], rfl, Traced.expr hf ((Expr.check_looked hval).coerce hco)⟩

/-- The check of a block in a scope of its own. -/
theorem Block.check_traced :
    ∀ {b b' : Block} {t t' : Table} {s : Nat} {p : Region} {x : Nat × Nat}
      {before : List Occurrence}, t.Follows g s p before → Unopened before (x :: p) →
      b.check (t.child s).1 (t.child s).2 = .ok (t', b') →
      ∃ ds, b'.functions = .ok ds ∧
        Traced g t t' s p before (b.occurrences (x :: p)) (b'.occurrences (x :: p)) ds b'.exprs
  | .missing, _, t, _, s, _, _, _, hf, hx, h => by
      cases h
      exact ⟨[], rfl, .of_child hf (Table.Grows.refl _ _) (.nothing (hf.enter hx))⟩
  | .of _ _, _, t, _, s, _, _, _, hf, hx, h => by
      obtain ⟨stmts', hs, rfl⟩ := Block.check_of_ok h
      have hopen := hf.enter hx
      rw [hf.sound.scope_child] at hs
      obtain ⟨ds, hds, htraced⟩ := Stmt.checkAll_traced hopen (hx.ahead 0) hs
      exact ⟨ds, hds,
        .of_child hf (Stmt.checkAll_typed hopen.sound hopen.global hs).grows htraced⟩

/-- The check of statements in order. -/
theorem Stmt.checkAll_traced :
    ∀ {stmts stmts' : List Stmt} {t t' : Table} {s : Nat} {p : Region} {i : Nat}
      {before : List Occurrence}, t.Follows g s p before → Ahead before p i →
      Stmt.checkAll t s stmts = .ok (t', stmts') →
      ∃ ds, Stmt.functionsIn stmts' = .ok ds ∧
        Traced g t t' s p before (Stmt.occurrencesFrom p i stmts)
          (Stmt.occurrencesFrom p i stmts') ds (Stmt.exprsIn stmts')
  | [], _, _, _, _, _, _, _, hf, _, h => by
      cases h
      exact ⟨[], rfl, .nothing hf⟩
  | _ :: _, _, _, _, s, _, _, _, hf, ha, h => by
      obtain ⟨t₁, stmt', rest', hstmt, hrest, rfl⟩ := Stmt.checkAll_cons_ok h
      obtain ⟨ds, hds, hfirst⟩ := Stmt.check_traced hf ha hstmt
      obtain ⟨ds', hds', hlater⟩ := Stmt.checkAll_traced hfirst.follows
        (ha.next fun o ho => Stmt.occurrences_within o ho) hrest
      have hgrows := (Stmt.check_typed hf.sound hf.global hstmt).grows
      refine ⟨ds ++ ds', ?_, hfirst.seq (hgrows.owner? hf.sound.toShaped hf.lt_size) hlater⟩
      rw [Stmt.functionsIn, hds, hds']
      rfl

end

end

/-! ## Programs -/

/-- The outermost scope of a program, before anything has been declared. -/
theorem Table.Follows.program :
    (Table.initial.child Table.rootScope).1.Follows (Table.initial.child Table.rootScope).2
      (Table.initial.child Table.rootScope).2 [] [] := by
  obtain ⟨hsound, hglobal⟩ := Table.Sound.program
  have hlocal : ∀ l n, (Table.initial.child Table.rootScope).1.names.findLocal? l n =
      Table.initial.names.findLocal? l n := fun _ _ => Scope.findLocal?_child
  refine ⟨hsound, hglobal, .program ?_ (by decide) ?_, List.Pairwise.nil, fun _ hid => ?_,
    fun _ hid => ?_⟩
  · refine .empty (fun n => ?_) fun _ hd => (nomatch hd)
    rw [hlocal]
    rfl
  · intro n sym hsym
    rw [hlocal] at hsym
    rcases Table.foldl_bind_some hsym with hbuiltin | hroot
    · exact hbuiltin
    · cases hroot
  · cases hid
  · cases hid

/-- The check of a program goes along with the places of the program. -/
theorem Analysis.ofProgram_traced {b : Block} {a : Analysis} (h : Analysis.ofProgram b = .ok a) :
    ∃ t ds, a.program.functions = .ok ds ∧
      a.globals = t.statics (Table.initial.child Table.rootScope).2 ∧
      Traced (Table.initial.child Table.rootScope).2 (Table.initial.child Table.rootScope).1 t
        (Table.initial.child Table.rootScope).2 [] [] (b.occurrences []) (a.program.occurrences [])
        ds a.program.exprs := by
  obtain ⟨pos, stmts, t, stmts', rfl, hs, rfl⟩ := Analysis.ofProgram_ok h
  obtain ⟨ds, hds, htraced⟩ :=
    Stmt.checkAll_traced (i := 0) Table.Follows.program (fun _ _ _ _ hd => (nomatch hd)) hs
  exact ⟨t, ds, hds, rfl, htraced⟩

end SmallC
