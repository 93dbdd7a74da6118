import SmallC.Proofs.ScopeMirror

/-!
# Tables that follow a program

While a program is checked, its table goes along: `Table.Follows` says that the
scope which is checked in mirrors a region, that no name was declared twice for
one region, and that what the program stores is apart from its functions. Each
operation of the table takes this from one place of the program to the next. A
scope is opened only for a region that is still ahead, and which these are can be
read off the places passed, because the places of a statement stay within the
scopes of that statement.
-/

namespace SmallC

open Occurrence

/-! ## Regions that are still ahead -/

/-- No earlier declaration is good for the region `q` or for one inside of it. -/
def Unopened (before : List Occurrence) (q : Region) : Prop :=
  ∀ d ∈ before, d.role ≠ .reference → ¬ q <:+ d.region

/-- The scopes of the statement at position `i`, and of those after it, are still ahead. -/
def Ahead (before : List Occurrence) (p : Region) (i : Nat) : Prop :=
  ∀ j k, i ≤ j → Unopened before ((j, k) :: p)

theorem eq_of_suffix_cons {x y : Nat × Nat} {p q : Region} (hx : x :: p <:+ q)
    (hy : y :: p <:+ q) : x = y := by
  obtain ⟨u, hu⟩ := hx
  obtain ⟨v, hv⟩ := hy
  have heq := List.append_inj_right' (hu.trans hv.symm) (by simp)
  exact (List.cons.inj heq).1

theorem not_suffix_self (x : Nat × Nat) (p : Region) : ¬ x :: p <:+ p := by
  intro h
  have hle := h.length_le
  rw [List.length_cons] at hle
  omega

section Ahead

variable {before more : List Occurrence} {p q : Region} {i : Nat}

theorem Unopened.append (h : Unopened before q)
    (hmore : ∀ d ∈ more, d.role ≠ .reference → ¬ q <:+ d.region) :
    Unopened (before ++ more) q := by
  intro d hd
  rcases List.mem_append.1 hd with hd | hd
  · exact h d hd
  · exact hmore d hd

theorem Unopened.references (h : Unopened before q) (hmore : ∀ d ∈ more, d.role = .reference) :
    Unopened (before ++ more) q :=
  h.append fun d hd hrole => absurd (hmore d hd) hrole

theorem Unopened.inner (h : Unopened before q) (x : Nat × Nat) : Unopened before (x :: q) :=
  fun d hd hrole hq => h d hd hrole ((List.suffix_cons _ _).trans hq)

theorem Unopened.ahead (h : Unopened before q) (i : Nat) : Ahead before q i :=
  fun j k _ => h.inner (j, k)

theorem Ahead.append (h : Ahead before p i) {j : Nat} (hij : i ≤ j)
    (hmore : ∀ d ∈ more, d.role ≠ .reference → ∀ j' k, j ≤ j' → ¬ (j', k) :: p <:+ d.region) :
    Ahead (before ++ more) p j :=
  fun j' k hj' => (h j' k (Nat.le_trans hij hj')).append fun d hd hrole => hmore d hd hrole j' k hj'

/-- A statement opens no scopes but its own. -/
theorem Ahead.next (h : Ahead before p i) (hmore : ∀ d ∈ more, d.Within p i) :
    Ahead (before ++ more) p (i + 1) := by
  refine h.append (Nat.le_succ i) fun d hd _ j k hj hsuffix => ?_
  rcases hmore d hd with hregion | hregion | ⟨k', hk'⟩
  · rw [hregion] at hsuffix
    exact absurd (List.suffix_nil.1 hsuffix) (by simp)
  · rw [hregion] at hsuffix
    exact not_suffix_self _ _ hsuffix
  · have heq := eq_of_suffix_cons hsuffix hk'
    have hji : j = i := congrArg Prod.fst heq
    omega

/-- A declaration for the region of the block itself. -/
theorem Ahead.declared (h : Ahead before p i) (hmore : ∀ d ∈ more, d.region = p) :
    Ahead (before ++ more) p i := by
  refine h.append (Nat.le_refl i) fun d hd _ j k _ hsuffix => ?_
  rw [hmore d hd] at hsuffix
  exact not_suffix_self _ _ hsuffix

/-- One scope of a statement leaves another one of it alone. -/
theorem Unopened.sibling {x y : Nat × Nat} (h : Unopened before (y :: p)) (hxy : x ≠ y)
    (hmore : ∀ d ∈ more, d.region = [] ∨ x :: p <:+ d.region) :
    Unopened (before ++ more) (y :: p) := by
  refine h.append fun d hd _ hsuffix => ?_
  rcases hmore d hd with hregion | hregion
  · rw [hregion] at hsuffix
    exact absurd (List.suffix_nil.1 hsuffix) (by simp)
  · exact hxy (eq_of_suffix_cons hregion hsuffix)

end Ahead

/-! ## Storage apart from functions -/

namespace Table

/-- What a program stores has none of the names of its functions and of the builtin ones. -/
def Apart (t : Table) (g : Nat) : Prop :=
  ∀ id ∈ t.staticsAt g, id.name ∉ Symbol.builtins.map (·.name) ∧
    ∀ sym, t.lookupLocal g id.name = some sym → sym.type.isFunc = false

section Apart

variable {t : Table} {g s : Nat} {id : Symbol}

theorem Apart.congr {t' : Table} (h : t.Apart g) (hstatics : t'.staticsAt g = t.staticsAt g)
    (hnames : ∀ name, t'.lookupLocal g name = t.lookupLocal g name) : t'.Apart g := by
  intro x hx
  rw [hstatics] at hx
  rw [hnames]
  exact h x hx

/-- A variable is not a function. -/
theorem Apart.bindName (h : t.Apart g)
    (hid : id.type.isFunc = false ∨ ∀ x ∈ t.staticsAt g, x.name ≠ id.name) :
    (t.bindName s id).Apart g := by
  intro x hx
  refine ⟨(h x hx).1, fun sym hsym => ?_⟩
  rcases Scope.findLocal?_bind_some hsym with ⟨-, hname, rfl⟩ | hold
  · rcases hid with hid | hid
    · exact hid
    · exact absurd hname (hid x hx)
  · exact (h x hx).2 sym hold

theorem Apart.setFunction (h : t.Apart g) (f : Option Function) :
    (t.setFunction s f).Apart g :=
  h.congr staticsAt_setFunction fun _ => rfl

theorem Apart.child (h : t.Apart g) : (t.child s).1.Apart g :=
  h.congr staticsAt_child fun _ => Scope.findLocal?_child

theorem Apart.pushStatic (h : t.Apart g) (hg : g < t.size)
    (hbuiltin : id.name ∉ Symbol.builtins.map (·.name)) (hfree : t.lookupLocal g id.name = none) :
    (t.pushStatic g id).Apart g := by
  intro x hx
  rw [staticsAt_pushStatic_self hg] at hx
  rcases List.mem_append.1 hx with hx | hx
  · exact h x hx
  · obtain rfl := List.mem_singleton.1 hx
    refine ⟨hbuiltin, fun sym hsym => ?_⟩
    rw [show (t.pushStatic g x).lookupLocal g x.name = none from hfree] at hsym
    cases hsym

end Apart

/-- What a program stores has been declared. -/
def Declared (t : Table) (g : Nat) (before : List Occurrence) : Prop :=
  ∀ id ∈ t.staticsAt g, ∃ d ∈ before, d.role = .var ∧ d.name = id.name

section Declared

variable {t : Table} {g : Nat} {before : List Occurrence}

theorem Declared.append (h : t.Declared g before) (more : List Occurrence) :
    t.Declared g (before ++ more) := by
  intro id hid
  obtain ⟨d, hd, hvar⟩ := h id hid
  exact ⟨d, List.mem_append_left _ hd, hvar⟩

theorem Declared.congr {t' : Table} (h : t.Declared g before)
    (hstatics : t'.staticsAt g = t.staticsAt g) : t'.Declared g before := by
  intro id hid
  rw [hstatics] at hid
  exact h id hid

theorem Declared.pushStatic (h : t.Declared g before) (hg : g < t.size) {d : Occurrence}
    {id : Symbol} (hrole : d.role = .var) (hname : d.name = id.name) :
    (t.pushStatic g id).Declared g (before ++ [d]) := by
  intro x hx
  rw [staticsAt_pushStatic_self hg] at hx
  rcases List.mem_append.1 hx with hx | hx
  · exact h.append [d] x hx
  · obtain rfl := List.mem_singleton.1 hx
    exact ⟨d, List.mem_append_right _ List.mem_cons_self, hrole, hname⟩

end Declared

/-! ## Tables that follow a program -/

/-- A scope and the table it is in, when a program has been checked up to a place in region `p` and
`before` are the places passed. -/
structure Follows (t : Table) (g s : Nat) (p : Region) (before : List Occurrence) : Prop where
  sound : t.Sound
  global : t.global? s = some g
  mirrors : t.names.Mirrors before g p (t.chain s)
  distinct : Distinct before
  apart : t.Apart g
  declared : t.Declared g before

section Follows

variable {t t' : Table} {g s : Nat} {p : Region} {before : List Occurrence}

theorem Follows.lt_size (h : t.Follows g s p before) : s < t.size := lt_size_of_global h.global

theorem Follows.global_self (h : t.Follows g s p before) : t.global? g = some g :=
  h.sound.global s g h.global

theorem Follows.means (h : t.Follows g s p before) {name : String} {sym : Symbol}
    (hsym : t.lookup s name = some sym) :
    Means before ⟨.reference, p, name, some sym⟩ sym :=
  h.mirrors.means h.distinct rfl hsym

theorem Follows.references (h : t.Follows g s p before) {refs : List Occurrence}
    (hrefs : ∀ r ∈ refs, r.role = .reference) : t.Follows g s p (before ++ refs) :=
  ⟨h.sound, h.global, h.mirrors.references hrefs, h.distinct.references hrefs, h.apart,
    h.declared.append refs⟩

theorem Follows.setFunction (h : t.Follows g s p before) {l : Nat} {f : Option Function}
    (hsound : (t.setFunction l f).Sound) : (t.setFunction l f).Follows g s p before :=
  ⟨hsound, global?_setFunction.trans h.global, h.mirrors, h.distinct, h.apart.setFunction f,
    h.declared.congr staticsAt_setFunction⟩

/-- A scope is opened for a region in which nothing has been declared. -/
theorem Follows.enter (h : t.Follows g s p before) {x : Nat × Nat}
    (hx : Unopened before (x :: p)) : (t.child s).1.Follows g t.size (x :: p) before := by
  have ht := h.sound.toShaped
  have hnew : t.size ∉ t.chain s := fun hmem => by
    have hlt := ht.lt_of_mem_chain hmem
    omega
  have hlocal : ∀ l n, (t.child s).1.names.findLocal? l n = t.names.findLocal? l n :=
    fun _ _ => Scope.findLocal?_child
  refine ⟨h.sound.child h.lt_size, global?_child_new ht h.global, ?_, h.distinct, h.apart.child,
    h.declared.congr staticsAt_child⟩
  rw [ht.chain_child_new]
  refine (h.mirrors.congr hlocal).enter hnew (fun n => ?_) fun d hd hrole hregion => ?_
  · rw [hlocal]
    unfold Scope.findLocal?
    rw [Array.getElem?_eq_none (Nat.le_of_eq ht.levels)]
    rfl
  · exact hx d hd hrole (hregion ▸ List.suffix_rfl)

/-- Leaving a scope that was opened inside of `s`. -/
theorem Follows.leave {l : Nat} {x : Nat × Nat} (h : t'.Follows g l (x :: p) before)
    (hchain : t'.chain l = l :: t'.chain s) (hglobal : t'.global? s = some g) :
    t'.Follows g s p before := by
  have hmirrors := h.mirrors
  rw [hchain] at hmirrors
  exact ⟨h.sound, hglobal, hmirrors.leave, h.distinct, h.apart, h.declared⟩

/-- A declaration for the region of `s`, stored in whatever way. -/
theorem Follows.bind (h : t.Follows g s p before) {role : Role} {sym : Symbol}
    (hrole : role ≠ .reference) (hfree : t.lookupLocal s sym.name = none)
    (hnames : t'.names = t.names.bind s sym.name sym) (hsound : t'.Sound)
    (hglobal : t'.global? s = some g) (hapart : t'.Apart g)
    (hdeclared : t'.Declared g (before ++ [⟨role, p, sym.name, some sym⟩])) :
    t'.Follows g s p (before ++ [⟨role, p, sym.name, some sym⟩]) := by
  have ht := h.sound.toShaped
  obtain ⟨outer, hchain⟩ := ht.chain_eq_cons h.lt_size
  have hmirrors := h.mirrors
  have hchain' : t'.chain s = t.chain s := by
    unfold Table.chain
    rw [hnames]
    exact Scope.chain_bind
  refine ⟨hsound, hglobal, ?_, h.distinct.snoc fun d hd hd' _ hregion hname => ?_, hapart,
    hdeclared⟩
  · rw [hchain', hchain, hnames]
    rw [hchain] at hmirrors
    exact hmirrors.bind (ht.levels ▸ h.lt_size) hfree hrole
  · -- the innermost level holds what is declared for the region
    have hholds : t.names.Holds before s p := by
      rw [hchain] at hmirrors
      cases hmirrors with
      | program global _ _ => exact global
      | inner level _ _ => exact level
    exact hholds.not_declared hfree hd hd' hname hregion

theorem Follows.addVar (h : t.Follows g s p before) {id id' : Symbol}
    (hid : id.type.isData = true) (hadd : t.addVar s id = .ok (t', id')) :
    t'.Follows g s p (before ++ [⟨.var, p, id.name, some id'⟩]) := by
  obtain ⟨hsound, hgrows, -, htype⟩ := h.sound.addVar hid hadd
  have hglobal := (hgrows.global s h.lt_size).trans h.global
  have hvar : id'.type.isFunc = false := by
    rw [htype]
    exact Ty.isFunc_of_isData hid
  obtain ⟨g', hg', -, ⟨f, hf, hadd⟩ | ⟨-, hadd⟩⟩ := addVar_ok hadd
  · obtain ⟨l, -, -, -, hunbound, hid', rfl⟩ := addLocal_ok hf hadd
    have hname : id'.name = id.name := by rw [hid']
    rw [← hname] at hunbound ⊢
    exact h.bind (by decide) hunbound rfl hsound hglobal
      ((h.apart.setFunction _).bindName (.inl hvar))
      ((h.declared.congr staticsAt_setFunction).append _)
  · cases h.global.symm.trans hg'
    obtain ⟨storage, -, hconflict, hunbound, hid', rfl⟩ := addStatic_ok hadd
    have hname : id'.name = id.name := by rw [hid']
    have hgs := lt_size_of_global h.global_self
    have hlookup : t.lookup g id.name = none := (Option.or_eq_none_iff.1 hconflict).1
    have hbuiltin := h.sound.not_builtin hgs hlookup
    have hfree : t.lookupLocal g id.name = none := by
      obtain ⟨outer, hchain⟩ := h.sound.chain_eq_cons hgs
      exact List.findSome?_eq_none_iff.1 hlookup g
        (show g ∈ t.chain g from hchain ▸ List.mem_cons_self)
    rw [← hname] at hunbound hbuiltin hfree ⊢
    exact h.bind (by decide) hunbound rfl hsound hglobal
      ((h.apart.pushStatic hgs hbuiltin hfree).bindName (.inl hvar))
      (h.declared.pushStatic hgs rfl rfl)

theorem Follows.addParam (h : t.Follows g s p before) {id id' : Symbol} {f : Function}
    (hid : id.type.isData = true) (hf : t.functionAt? s = some f) (hlocals : f.locals = [])
    (hadd : t.addParam s id = .ok (t', id')) :
    t'.Follows g s p (before ++ [⟨.param, p, id.name, some id'⟩]) := by
  obtain ⟨hsound, hext, -, -⟩ := h.sound.addParam hid hf hlocals hadd
  obtain ⟨l, f', -, -, -, -, hunbound, hid', rfl⟩ := addParam_ok hadd
  have hname : id'.name = id.name := by rw [hid']
  have hvar : id'.type.isFunc = false := by
    rw [hid']
    exact Ty.isFunc_of_isData hid
  rw [← hname] at hunbound ⊢
  exact h.bind (by decide) hunbound rfl hsound ((hext.global s).trans h.global)
    ((h.apart.setFunction _).bindName (.inl hvar))
    ((h.declared.congr staticsAt_setFunction).append _)

/-- A function is declared for the whole program, whichever scope of the program asks for it. -/
theorem Follows.addFunc (h : t.Follows g s p before) {l : Nat} {id id' : Symbol}
    (hl : t.global? l = some g) (htype : id.type.isSignature = true) (hid : id.builtin = false)
    (hadd : t.addFunc l id = .ok (t', id')) :
    t'.Follows g s p (before ++ [⟨.func, [], id.name, some id'⟩]) := by
  obtain ⟨g', hbind, hsound⟩ := h.sound.addFunc htype hid hadd
  obtain ⟨g'', hg'', -, hconflict, hunbound, hid', rfl⟩ := addFunc_ok hadd
  cases hl.symm.trans hg''
  have hgs := lt_size_of_global h.global_self
  have hname : id'.name = id.name := by rw [hid']
  have hstatic : ∀ x ∈ t.staticsAt g, x.name ≠ id'.name := by
    intro x hx heq
    have hfree := (Option.or_eq_none_iff.1 hconflict).2
    rw [statics_eq h.global_self] at hfree
    exact Symbol.find?_eq_none_iff.1 hfree (hname ▸ heq ▸ List.mem_map_of_mem hx)
  rw [← hname] at hunbound ⊢
  refine ⟨hsound, h.global, ?_, h.distinct.snoc fun d hd hd' _ hregion hdname => ?_,
    h.apart.bindName (.inr hstatic), h.declared.append _⟩
  · rw [show (t.bindName g id').chain s = t.chain s from Scope.chain_bind]
    exact h.mirrors.bind_global (h.sound.levels ▸ hgs) hunbound (by decide)
  · exact h.mirrors.global.not_declared hunbound hd hd' hdname hregion

end Follows

end Table

end SmallC
