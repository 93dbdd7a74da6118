import SmallC.Proofs.TableGrowth

/-!
# What can be seen from a scope

Nothing that is checked in a scope depends on the numbers of scopes, or on how
many of them there are. It depends on the `View` from the scope: what each name
stands for there, the function around, and whether it is a block. A declaration
changes the views from the scope it is made in and from the scopes around it, and
how it changes them depends on nothing but those views.

So two tables may disagree about which scopes there are and still go along with
each other. `Table.Alike` relates them by lists of scopes, each inside the next
one, from which the same can be seen. It is kept by every operation that is done
on both sides. It is also kept when a scope is opened on one side only, because
a scope in which nothing has been declared yet has the view of the scope around.

One thing that a declaration asks is not part of the view, whether its name is
free in the scope itself. That never decides anything: the names of the scopes
in a function are parameters or locals of the function, and clash as such.
-/

namespace SmallC

/-- What can be seen from a scope. -/
structure View where
  /-- What a name stands for. -/
  names : String → Option Symbol
  /-- The function that the scope belongs to. -/
  function : Option Function
  /-- The function marked at the scope itself. -/
  here : Option Function
  inBlock : Bool

namespace View

/-- The view from a new scope. -/
def inner (v : View) : View := { v with here := none, inBlock := true }

/-- The view when a name is declared right there. -/
def bind (v : View) (id : Symbol) : View :=
  { v with names := fun name => if name = id.name then some id else v.names name }

/-- The view when a name is declared further out, where it did not stand for anything. -/
def bindOuter (v : View) (id : Symbol) : View :=
  { v with names := fun name => (v.names name).or (if name = id.name then some id else none) }

/-- The view when the function around changes. -/
def change (v : View) (step : Function → Function) : View :=
  { v with function := v.function.map step, here := v.here.map step }

/-- The view when a function is marked right there. -/
def mark (v : View) (f : Function) : View := { v with function := some f, here := some f }

end View

theorem Function.Le.find?_eq_none {f f' : Function} (h : f.Le f') {name : String}
    (hname : f'.find? name = none) : f.find? name = none := by
  obtain ⟨hparam, hlocal⟩ := Option.or_eq_none_iff.1 hname
  refine Option.or_eq_none_iff.2 ⟨?_, ?_⟩
  · cases hp : f.param? name with
    | none => rfl
    | some id => exact absurd ((h.params name id hp).symm.trans hparam) (by simp)
  · refine Symbol.find?_eq_none_iff.2 fun hmem => Symbol.find?_eq_none_iff.1 hlocal ?_
    obtain ⟨id, hid, rfl⟩ := List.mem_map.1 hmem
    exact List.mem_map_of_mem (h.locals id hid)

namespace Table

/-- The view from a scope. -/
def view (t : Table) (s : Nat) : View :=
  ⟨t.lookup s, t.function? s, t.functionAt? s, (t.frames[s]?).any (·.level == .block)⟩

/-! ## Scopes around scopes -/

section

variable {t : Table} {s p l : Nat}

theorem Shaped.self_mem_chain (ht : t.Shaped) (hs : s < t.size) : s ∈ t.chain s := by
  obtain ⟨outer, hchain⟩ := ht.chain_eq_cons hs
  exact hchain ▸ List.mem_cons_self

theorem Shaped.not_mem_chain (ht : t.Shaped) (hp : p < t.size) (hps : p < s) :
    s ∉ t.chain p := by
  intro hmem
  have hle := ht.le_of_mem_chain hp hmem
  omega

/-- The function around a scope is around the scopes inside of it, too. -/
theorem Shaped.owner?_of_mem_chain (ht : t.Shaped) (hs : s < t.size) (hp : p ∈ t.chain s)
    (ho : t.owner? p = some l) : t.owner? s = some l := by
  revert hp
  refine ht.induction (motive := fun s => p ∈ t.chain s → t.owner? s = some l) ?_ ?_ s hs
  · intro hp
    rw [ht.root, List.mem_singleton] at hp
    exact hp ▸ ho
  · intro q s hq _ ih hp
    rw [hq.chain] at hp
    rcases List.mem_cons.1 hp with rfl | hp
    · exact ho
    · have howner := ih hp
      have hmarked : (t.functionAt? l).isSome = true := by simpa using List.find?_some ho
      have hunmarked : (t.functionAt? s).isSome = false :=
        Bool.eq_false_iff.2 fun hmark => hq.function hmark l (owner?_mem howner) hmarked
      show (t.chain s).find? _ = some l
      rw [hq.chain, List.find?_cons_of_neg (by rw [hunmarked]; decide)]
      exact howner

theorem lookup_of_below (hp : t.Below p s) (name : String) :
    t.lookup s name = (t.lookupLocal s name).or (t.lookup p name) := by
  show (t.chain s).findSome? _ = _
  rw [hp.chain, List.findSome?_cons]
  cases h : t.names.findLocal? s name with
  | none => rw [show t.lookupLocal s name = none from h]; rfl
  | some x => rw [show t.lookupLocal s name = some x from h]; rfl

theorem lookupLocal_eq_none (ht : t.Shaped) (hs : s < t.size) {name : String}
    (h : t.lookup s name = none) : t.lookupLocal s name = none :=
  List.findSome?_eq_none_iff.1 h s (ht.self_mem_chain hs)

end

/-! ## How the operations change a view -/

section

variable {t : Table} {s p : Nat}

theorem view_child (ht : t.Shaped) (hp : p < t.size) : (t.child s).1.view p = t.view p := by
  have hfunction : (t.child s).1.functionAt? = t.functionAt? := funext fun _ => functionAt?_child
  have hnames : (t.child s).1.lookup p = t.lookup p := by
    funext name
    show ((t.child s).1.chain p).findSome? _ = _
    rw [ht.chain_child hp]
    exact findSome?_congr fun _ _ => Scope.findLocal?_child
  have haround : (t.child s).1.function? p = t.function? p := by
    show ((t.child s).1.chain p).findSome? _ = _
    rw [ht.chain_child hp, hfunction]
    rfl
  unfold view
  rw [hnames, haround, hfunction, frames_child_of_lt hp]

/-- Nothing is declared yet in a new scope. -/
theorem lookupLocal_child_new (ht : t.Shaped) (name : String) :
    (t.child s).1.lookupLocal t.size name = none := by
  show (t.names.child s).1.findLocal? t.size name = none
  rw [Scope.findLocal?_child]
  unfold Scope.findLocal?
  rw [Array.getElem?_eq_none (Nat.le_of_eq ht.levels)]
  rfl

theorem view_child_new (ht : t.Shaped) {g : Nat} (hg : t.global? s = some g) :
    (t.child s).1.view t.size = (t.view s).inner := by
  have hs := lt_size_of_global hg
  have hbelow := ht.child_below hs
  have hfunction : (t.child s).1.functionAt? t.size = none := by
    rw [functionAt?_child, functionAt?_eq_none (Nat.le_refl _)]
  have hnames : (t.child s).1.lookup t.size = t.lookup s := by
    funext name
    rw [lookup_of_below hbelow, lookupLocal_child_new ht, Option.none_or]
    exact congrFun (congrArg View.names (view_child ht hs)) name
  have haround : (t.child s).1.function? t.size = t.function? s := by
    rw [function?_of_below hbelow, hfunction, Option.none_or]
    exact congrArg View.function (view_child ht hs)
  have hlevel : ((t.child s).1.frames[t.size]?).any (·.level == .block) = true := by
    rcases frame_child_new (t := t) (s := s) with ⟨hroot, -⟩ | ⟨-, hframe⟩
    · rw [ht.top s hroot] at hg
      cases hg
    · rw [hframe]
      rfl
  unfold view
  rw [hnames, haround, hfunction, hlevel]
  rfl

theorem function?_bindName {id : Symbol} : (t.bindName s id).function? p = t.function? p :=
  congrArg Reach.function reach_bindName

theorem lookup_bindName_of_not_mem {id : Symbol} (hs : s ∉ t.chain p) (name : String) :
    (t.bindName s id).lookup p name = t.lookup p name := by
  show ((t.bindName s id).chain p).findSome? _ = _
  rw [show (t.bindName s id).chain p = t.chain p from Scope.chain_bind]
  refine findSome?_congr fun l hl => Scope.findLocal?_bind_ne (.inl ?_)
  rintro rfl
  exact hs hl

theorem lookup_bindName_ne {id : Symbol} {name : String} (hname : name ≠ id.name) :
    (t.bindName s id).lookup p name = t.lookup p name := by
  show ((t.bindName s id).chain p).findSome? _ = _
  rw [show (t.bindName s id).chain p = t.chain p from Scope.chain_bind]
  exact findSome?_congr fun l _ => Scope.findLocal?_bind_ne (.inr hname)

/-- A declaration is not seen from scopes that it is not around. -/
theorem view_bindName_of_not_mem {id : Symbol} (hs : s ∉ t.chain p) :
    (t.bindName s id).view p = t.view p := by
  unfold view
  rw [function?_bindName, funext (lookup_bindName_of_not_mem hs)]
  rfl

theorem view_bindName_self (ht : t.Shaped) (hs : s < t.size) {id : Symbol} :
    (t.bindName s id).view s = (t.view s).bind id := by
  have hnames : (t.bindName s id).lookup s =
      fun name => if name = id.name then some id else t.lookup s name := by
    funext name
    split
    · next hname =>
        rw [hname]
        exact lookup_bindName ht hs
    · next hname => exact lookup_bindName_ne hname
  unfold view
  rw [function?_bindName, hnames]
  rfl

/-- A name that does not stand for anything at a scope is seen from inside once it is declared there,
unless there it stands for something. -/
theorem lookup_bindName_outer (ht : t.Shaped) {id : Symbol} (hp : p < t.size)
    (hs : s ∈ t.chain p) (hfree : t.lookup s id.name = none) :
    (t.bindName s id).lookup p id.name = (t.lookup p id.name).or (some id) := by
  have hslt := ht.lt_of_mem_chain hs
  revert hs
  refine ht.induction (motive := fun p => s ∈ t.chain p →
    (t.bindName s id).lookup p id.name = (t.lookup p id.name).or (some id)) ?_ ?_ p hp
  · intro hs
    rw [ht.root, List.mem_singleton] at hs
    subst hs
    rw [hfree, lookup_bindName ht hslt]
    rfl
  · intro q p hq hp ih hs
    rw [hq.chain] at hs
    by_cases hsp : s = p
    · subst hsp
      rw [hfree, lookup_bindName ht hslt]
      rfl
    · have hinner := ih ((List.mem_cons.1 hs).resolve_left hsp)
      have hlocal : (t.bindName s id).lookupLocal p id.name = t.lookupLocal p id.name :=
        Scope.findLocal?_bind_ne (.inl (Ne.symm hsp))
      rw [lookup_of_below (extends_bindName.below hq), lookup_of_below hq, hlocal, hinner,
        Option.or_assoc]

theorem view_bindName_outer (ht : t.Shaped) {id : Symbol} (hp : p < t.size)
    (hs : s ∈ t.chain p) (hfree : t.lookup s id.name = none) :
    (t.bindName s id).view p = (t.view p).bindOuter id := by
  have hnames : (t.bindName s id).lookup p =
      fun name => (t.lookup p name).or (if name = id.name then some id else none) := by
    funext name
    split
    · next hname =>
        rw [hname]
        exact lookup_bindName_outer ht hp hs hfree
    · next hname => rw [Option.or_none, lookup_bindName_ne hname]
  unfold view
  rw [function?_bindName, hnames]
  rfl

theorem inBlock_setFunction {f : Option Function} :
    ((t.setFunction s f).frames[p]?).any (·.level == .block) =
      (t.frames[p]?).any (·.level == .block) := by
  rw [frames_setFunction]
  split
  · cases t.frames[p]? <;> rfl
  · rfl

/-- A mark is not seen from scopes that it is not around. -/
theorem view_setFunction_of_not_mem (ht : t.Shaped) (hp : p < t.size) {f : Option Function}
    (hs : s ∉ t.chain p) : (t.setFunction s f).view p = t.view p := by
  have hat : ∀ l ∈ t.chain p, (t.setFunction s f).functionAt? l = t.functionAt? l := by
    intro l hl
    refine functionAt?_setFunction_ne ?_
    rintro rfl
    exact hs hl
  have haround : (t.setFunction s f).function? p = t.function? p := findSome?_congr hat
  unfold view
  rw [haround, hat p (ht.self_mem_chain hp), inBlock_setFunction]
  rfl

theorem view_setFunction_self (ht : t.Shaped) (hs : s < t.size) (f : Function) :
    (t.setFunction s (some f)).view s = (t.view s).mark f := by
  have hat := functionAt?_setFunction_self (f := some f) hs
  have haround : (t.setFunction s (some f)).function? s = some f := by
    obtain ⟨outer, hchain⟩ := ht.chain_eq_cons hs
    show (t.chain s).findSome? _ = _
    rw [hchain, List.findSome?_cons, hat]
  unfold view
  rw [haround, hat, inBlock_setFunction]
  rfl

/-- A change of the function around a scope is seen from there, and from those scopes further out
that belong to the function as well. -/
theorem view_change (ht : t.Shaped) {l : Nat} {f : Function} (hs : s < t.size)
    (ho : t.owner? s = some l) (hf : t.functionAt? l = some f) (hp : p ∈ t.chain s)
    (step : Function → Function) :
    (t.setFunction l (some (step f))).view p = (t.view p).change step := by
  have hl := lt_size_of_function hf
  have hplt := ht.lt_of_mem_chain hp
  have hself := functionAt?_setFunction_self (f := some (step f)) hl
  have hmarked : ∀ k, ((t.setFunction l (some (step f))).functionAt? k).isSome =
      (t.functionAt? k).isSome := by
    intro k
    by_cases hlk : l = k
    · rw [← hlk, hself, hf]
      rfl
    · rw [functionAt?_setFunction_ne hlk]
  have howner : (t.setFunction l (some (step f))).owner? p = t.owner? p :=
    owner?_congr rfl fun k _ => hmarked k
  have haround : (t.setFunction l (some (step f))).function? p = (t.function? p).map step := by
    rw [function?_eq_owner?, function?_eq_owner?, howner]
    cases hop : t.owner? p with
    | none => rfl
    | some k =>
        cases ho.symm.trans (ht.owner?_of_mem_chain hs hp hop)
        show (t.setFunction l (some (step f))).functionAt? l = (t.functionAt? l).map step
        rw [hself, hf]
        rfl
  have hat : (t.setFunction l (some (step f))).functionAt? p = (t.functionAt? p).map step := by
    by_cases hlp : l = p
    · rw [← hlp, hself, hf]
      rfl
    · rw [functionAt?_setFunction_ne hlp]
      cases hfp : t.functionAt? p with
      | none => rfl
      | some k =>
          cases ho.symm.trans (ht.owner?_of_mem_chain hs hp (ht.owner?_self hfp))
          exact absurd rfl hlp
  unfold view
  rw [haround, hat, inBlock_setFunction]
  rfl

theorem view_pushStatic {g : Nat} {id : Symbol} : (t.pushStatic g id).view p = t.view p := by
  have haround : (t.pushStatic g id).function? p = t.function? p :=
    findSome?_congr fun _ _ => functionAt?_pushStatic
  have hlevel : ((t.pushStatic g id).frames[p]?).any (·.level == .block) =
      (t.frames[p]?).any (·.level == .block) := by
    rw [frames_pushStatic]
    split
    · cases t.frames[p]? <;> rfl
    · rfl
  unfold view
  rw [haround, functionAt?_pushStatic, hlevel]
  rfl

end

/-! ## Tidy tables -/

/-- A table in which the names in a function are its parameters and locals, and each program is
right inside the root. -/
structure Tidy (t : Table) : Prop extends t.Shaped where
  block : ∀ s g, t.global? s = some g → (t.levelAt? s = some .block ↔ s ≠ g)
  outside : ∀ g, t.global? g = some g → t.function? g = none
  named : ∀ s f name, t.function? s = some f → f.find? name = none → t.lookupLocal s name = none

section

variable {t t' : Table} {s n l g : Nat}

theorem inBlock_iff : (t.view s).inBlock = true ↔ t.levelAt? s = some .block := by
  show (t.frames[s]?).any (·.level == .block) = true ↔ (t.frames[s]?).map (·.level) = some .block
  cases t.frames[s]? with
  | none => simp
  | some frame => simp

theorem Extends.function?_eq_none (h : t.Extends t') (hs : t.function? s = none) :
    t'.function? s = none := by
  refine List.findSome?_eq_none_iff.2 fun l (hl : l ∈ t'.chain s) => h.unmarked l ?_
  rw [h.chain] at hl
  exact List.findSome?_eq_none_iff.1 hs l hl

/-- Growing functions leave a table tidy as long as the names that are bound in them are theirs. -/
theorem Tidy.of_extends (ht : t.Tidy) (h : t.Extends t')
    (hnames : ∀ s f name, t'.function? s = some f → f.find? name = none →
      t.lookupLocal s name = none → t'.lookupLocal s name = none) : t'.Tidy := by
  refine ⟨h.shaped ht.toShaped, fun s g hg => ?_, fun g hg => ?_, fun s f name hf hname => ?_⟩
  · rw [h.level]
    rw [h.global] at hg
    exact ht.block s g hg
  · rw [h.global] at hg
    exact h.function?_eq_none (ht.outside g hg)
  · refine hnames s f name hf hname ?_
    cases hold : t.function? s with
    | none => exact absurd ((h.function?_eq_none hold).symm.trans hf) (by simp)
    | some f₀ =>
        obtain ⟨f₁, hf₁, hle⟩ := (h.reach s).function f₀ hold
        cases hf.symm.trans hf₁
        exact ht.named s f₀ name hold (hle.find?_eq_none hname)

theorem Tidy.setFunction (ht : t.Tidy) {f f' : Function} (hf : t.functionAt? l = some f)
    (hle : f.Le f') : (t.setFunction l (some f')).Tidy :=
  ht.of_extends (extends_setFunction hf hle) fun _ _ _ _ _ h => h

theorem Tidy.pushStatic (ht : t.Tidy) {id : Symbol} : (t.pushStatic g id).Tidy :=
  ht.of_extends extends_pushStatic fun _ _ _ _ _ h => h

theorem Tidy.bindName (ht : t.Tidy) {id : Symbol}
    (hid : ∀ f, t.function? s = some f → f.find? id.name ≠ none) : (t.bindName s id).Tidy := by
  refine ht.of_extends extends_bindName fun l f name hf hname hfree => ?_
  rw [function?_bindName] at hf
  have hne : l ≠ s ∨ name ≠ id.name := by
    by_cases hls : l = s
    · refine .inr fun heq => hid f (hls ▸ hf) ?_
      rw [← heq, hname]
    · exact .inl hls
  exact (Scope.findLocal?_bind_ne hne).trans hfree

theorem Tidy.child (ht : t.Tidy) (hg : t.global? s = some g) : (t.child s).1.Tidy := by
  have hs := lt_size_of_global hg
  have hgs := lt_size_of_global (ht.global s g hg)
  have hnewGlobal := global?_child_new ht.toShaped hg
  have hview : ∀ p, p < t.size → (t.child s).1.view p = t.view p := fun p hp =>
    view_child ht.toShaped hp
  have hcases : ∀ p, p < (t.child s).1.size → p < t.size ∨ p = t.size := by
    intro p hp
    rw [size_child] at hp
    omega
  refine ⟨ht.toShaped.child hs, fun p g' hp => ?_, fun g' hg' => ?_, fun p f name hf hname => ?_⟩
  · rcases hcases p (lt_size_of_global hp) with hlt | rfl
    · rw [global?_child hlt] at hp
      rw [levelAt?_child hlt]
      exact ht.block p g' hp
    · cases hnewGlobal.symm.trans hp
      have hblock : ((t.child s).1.view t.size).inBlock = true := by
        rw [view_child_new ht.toShaped hg]
        rfl
      exact iff_of_true (inBlock_iff.1 hblock) (by omega)
  · rcases hcases g' (lt_size_of_global hg') with hlt | rfl
    · rw [global?_child hlt] at hg'
      exact (congrArg View.function (hview g' hlt)).trans (ht.outside g' hg')
    · cases hnewGlobal.symm.trans hg'
      exact absurd hgs (Nat.lt_irrefl _)
  · rcases Nat.lt_or_ge p t.size with hlt | hge
    · have hf' : t.function? p = some f := (congrArg View.function (hview p hlt)).symm.trans hf
      exact Scope.findLocal?_child.trans (ht.named p f name hf' hname)
    · show (t.names.child s).1.findLocal? p name = none
      rw [Scope.findLocal?_child]
      unfold Scope.findLocal?
      rw [Array.getElem?_eq_none (ht.levels ▸ hge)]
      rfl

/-- The scope of a function is marked when nothing is declared in it yet. -/
theorem Tidy.mark (ht : t.Tidy) {f : Function} (hn : n + 1 = t.size) (hg : t.global? n = some g)
    (hng : n ≠ g) (hnone : t.function? n = none)
    (hempty : ∀ name, t.lookupLocal n name = none) : (t.setFunction n (some f)).Tidy := by
  refine ⟨ht.toShaped.mark hn hnone, fun p g' hp => ?_, fun g' hg' => ?_,
    fun p f' name hf hname => ?_⟩
  · rw [global?_setFunction] at hp
    rw [levelAt?_setFunction]
    exact ht.block p g' hp
  · rw [global?_setFunction] at hg'
    have hne : n ≠ g' := by
      rintro rfl
      exact hng (Option.some.inj (hg'.symm.trans hg))
    rw [ht.toShaped.function?_mark hn hne]
    exact ht.outside g' hg'
  · by_cases hnp : n = p
    · exact hnp ▸ hempty name
    · rw [ht.toShaped.function?_mark hn hnp] at hf
      exact ht.named p f' name hf hname

/-- The table that the check of a program starts from. -/
theorem Tidy.initial_child : (Table.initial.child rootScope).1.Tidy := by
  have hunmarked : ∀ l, (Table.initial.child rootScope).1.functionAt? l = none := by
    intro l
    rw [functionAt?_child]
    rcases l with _ | l
    · rfl
    · exact functionAt?_eq_none (Nat.le_add_left 1 l)
  have hnone : ∀ s, (Table.initial.child rootScope).1.function? s = none := fun s =>
    List.findSome?_eq_none_iff.2 fun l _ => hunmarked l
  refine ⟨Shaped.initial.child (by decide), fun s g hg => ?_, fun g _ => hnone g,
    fun s f name hf => absurd ((hnone s).symm.trans hf) (by simp)⟩
  have hs : s < 2 := lt_size_of_global hg
  rcases s with _ | _ | s
  · cases hg
  · cases hg
    decide
  · omega

end

/-! ## Scopes inside of each other -/

/-- Scopes of one program, each inside the next one, up to the global scope. -/
structure Stacked (t : Table) (g : Nat) (stack : List Nat) : Prop where
  tidy : t.Tidy
  global : ∀ s ∈ stack, t.global? s = some g
  nested : stack.Pairwise fun s p => p < s ∧ p ∈ t.chain s
  last : stack.getLast? = some g

section

variable {t t' : Table} {g s : Nat} {stack rest : List Nat}

theorem Stacked.lt_size (h : t.Stacked g stack) (hs : s ∈ stack) : s < t.size :=
  lt_size_of_global (h.global s hs)

theorem Stacked.mem_chain (h : t.Stacked g (s :: rest)) {p : Nat} (hp : p ∈ s :: rest) :
    p ∈ t.chain s := by
  rcases List.mem_cons.1 hp with rfl | hp
  · exact h.tidy.self_mem_chain (h.lt_size List.mem_cons_self)
  · exact (List.rel_of_pairwise_cons h.nested hp).2

theorem Stacked.not_mem_chain (h : t.Stacked g (s :: rest)) {p : Nat} (hp : p ∈ rest) :
    s ∉ t.chain p :=
  h.tidy.not_mem_chain (h.lt_size (List.mem_cons_of_mem _ hp))
    (List.rel_of_pairwise_cons h.nested hp).1

theorem Stacked.global_mem (h : t.Stacked g stack) : g ∈ stack := List.mem_of_getLast? h.last

theorem Stacked.tail {p : Nat} (h : t.Stacked g (s :: p :: rest)) : t.Stacked g (p :: rest) :=
  ⟨h.tidy, fun q hq => h.global q (List.mem_cons_of_mem _ hq), h.nested.of_cons,
    by rw [← h.last, List.getLast?_cons_cons]⟩

/-- The global scope is around all of them. -/
theorem Stacked.global_mem_chain (h : t.Stacked g stack) (hs : s ∈ stack) : g ∈ t.chain s := by
  induction stack with
  | nil => cases hs
  | cons q rest ih =>
      rcases List.mem_cons.1 hs with rfl | hs
      · exact h.mem_chain h.global_mem
      · cases rest with
        | nil => cases hs
        | cons p rest => exact ih h.tail hs

theorem Stacked.of_extends (h : t.Stacked g stack) (hext : t.Extends t') (htidy : t'.Tidy) :
    t'.Stacked g stack := by
  refine ⟨htidy, fun s hs => (hext.global s).trans (h.global s hs), ?_, h.last⟩
  exact h.nested.imp fun hsp => ⟨hsp.1, (hext.chain _).symm ▸ hsp.2⟩

theorem Stacked.child (h : t.Stacked g (s :: rest)) :
    (t.child s).1.Stacked g (t.size :: s :: rest) := by
  have ht := h.tidy.toShaped
  have hg := h.global s List.mem_cons_self
  refine ⟨h.tidy.child hg, fun p hp => ?_, ?_, ?_⟩
  · rcases List.mem_cons.1 hp with rfl | hp
    · exact global?_child_new ht hg
    · exact (global?_child (h.lt_size hp)).trans (h.global p hp)
  · refine List.pairwise_cons.2 ⟨fun p hp => ⟨h.lt_size hp, ?_⟩, ?_⟩
    · rw [ht.chain_child_new]
      exact List.mem_cons_of_mem _ (h.mem_chain hp)
    · refine List.Pairwise.imp_of_mem (fun hp _ hsp => ⟨hsp.1, ?_⟩) h.nested
      rw [ht.chain_child (h.lt_size hp)]
      exact hsp.2
  · rw [List.getLast?_cons_cons]
    exact h.last

end

/-! ## Tables that look alike -/

/-- A scope of one table and its counterpart in another one. -/
structure Twin where
  left : Nat
  right : Nat
  /-- Whether they are marked as the scope of a function. -/
  marked : Bool

/-- Two tables with pairs of scopes, each inside the next one, from which the same can be seen. -/
structure Alike (t t' : Table) (g : Nat) (stack : List Twin) : Prop where
  left : t.Stacked g (stack.map Twin.left)
  right : t'.Stacked g (stack.map Twin.right)
  views : ∀ x ∈ stack, t'.view x.right = t.view x.left
  marks : ∀ x ∈ stack, (t.functionAt? x.left).isSome = x.marked
  statics : t'.staticsAt g = t.staticsAt g

section

variable {t t' t₁ t₁' : Table} {g s : Nat} {ls : List Nat} {x y : Twin} {stack rest : List Twin}

theorem Alike.view (h : Alike t t' g (x :: rest)) : t'.view x.right = t.view x.left :=
  h.views x List.mem_cons_self

theorem Alike.lookup (h : Alike t t' g (x :: rest)) : t'.lookup x.right = t.lookup x.left :=
  congrArg View.names h.view

theorem Alike.function? (h : Alike t t' g (x :: rest)) :
    t'.function? x.right = t.function? x.left :=
  congrArg View.function h.view

theorem Alike.functionAt? (h : Alike t t' g (x :: rest)) :
    t'.functionAt? x.right = t.functionAt? x.left :=
  congrArg View.here h.view

theorem Alike.view_global (h : Alike t t' g stack) : t'.view g = t.view g := by
  have hleft := h.left.last
  have hright := h.right.last
  rw [List.getLast?_map] at hleft hright
  obtain ⟨z, hz, hzleft⟩ := Option.map_eq_some_iff.1 hleft
  obtain ⟨z', hz', hzright⟩ := Option.map_eq_some_iff.1 hright
  cases hz.symm.trans hz'
  have hview := h.views z (List.mem_of_getLast? hz)
  rw [hzleft, hzright] at hview
  exact hview

theorem Alike.global (h : Alike t t' g (x :: rest)) :
    t.global? x.left = some g ∧ t'.global? x.right = some g :=
  ⟨h.left.global x.left List.mem_cons_self, h.right.global x.right List.mem_cons_self⟩

theorem Alike.pop (h : Alike t t' g (x :: y :: rest)) : Alike t t' g (y :: rest) :=
  ⟨h.left.tail, h.right.tail, fun z hz => h.views z (List.mem_cons_of_mem _ hz),
    fun z hz => h.marks z (List.mem_cons_of_mem _ hz), h.statics⟩

/-- A scope is opened on both sides. -/
theorem Alike.child (h : Alike t t' g (x :: rest)) :
    Alike (t.child x.left).1 (t'.child x.right).1 g (⟨t.size, t'.size, false⟩ :: x :: rest) := by
  obtain ⟨hg, hg'⟩ := h.global
  have ht := h.left.tidy.toShaped
  have ht' := h.right.tidy.toShaped
  refine ⟨h.left.child, h.right.child, fun z hz => ?_, fun z hz => ?_, ?_⟩
  · rcases List.mem_cons.1 hz with rfl | hz
    · rw [view_child_new ht hg, view_child_new ht' hg', h.view]
    · rw [view_child ht (h.left.lt_size (List.mem_map_of_mem hz)),
        view_child ht' (h.right.lt_size (List.mem_map_of_mem hz)), h.views z hz]
  · rw [functionAt?_child]
    rcases List.mem_cons.1 hz with rfl | hz
    · rw [functionAt?_eq_none (Nat.le_refl _)]
      rfl
    · exact h.marks z hz
  · rw [staticsAt_child, staticsAt_child, h.statics]

/-- A scope is opened on the right side only, and takes the place of the one around it. -/
theorem Alike.childRight {s' : Nat} (h : Alike t t' g (⟨s, s', false⟩ :: y :: rest)) :
    Alike t (t'.child s').1 g (⟨s, t'.size, false⟩ :: y :: rest) := by
  obtain ⟨hg, hg'⟩ := h.global
  have ht' := h.right.tidy.toShaped
  have hright := h.right.child
  have hnested := List.pairwise_cons.1 hright.nested
  have hview : (t.view s).inner = t.view s := by
    have hblock : (t.view s).inBlock = true := by
      refine inBlock_iff.2 ((h.left.tidy.block s g hg).2 ?_)
      have hlt : g < s := (List.rel_of_pairwise_cons h.left.nested h.left.tail.global_mem).1
      exact Nat.ne_of_gt hlt
    have hhere : (t.view s).here = none :=
      Option.isNone_iff_eq_none.1
        (Option.isSome_eq_false_iff.1 (h.marks ⟨s, s', false⟩ List.mem_cons_self))
    unfold View.inner
    rw [← hblock, ← hhere]
  refine ⟨h.left, ⟨hright.tidy, fun p hp => hright.global p ?_, ?_, ?_⟩, fun z hz => ?_,
    fun z hz => ?_, ?_⟩
  · rcases List.mem_cons.1 hp with rfl | hp
    · exact List.mem_cons_self
    · exact List.mem_cons_of_mem _ (List.mem_cons_of_mem _ hp)
  · exact List.pairwise_cons.2 ⟨fun p hp => hnested.1 p (List.mem_cons_of_mem _ hp),
      hnested.2.of_cons⟩
  · have hlast := h.right.last
    rw [List.map_cons, List.map_cons, List.getLast?_cons_cons] at hlast ⊢
    exact hlast
  · rcases List.mem_cons.1 hz with rfl | hz
    · exact (view_child_new ht' hg').trans ((congrArg View.inner h.view).trans hview)
    · rw [view_child ht' (h.right.lt_size (List.mem_map_of_mem (List.mem_cons_of_mem _ hz))),
        h.views z (List.mem_cons_of_mem _ hz)]
  · rcases List.mem_cons.1 hz with rfl | hz
    · exact h.marks ⟨s, s', false⟩ List.mem_cons_self
    · exact h.marks z (List.mem_cons_of_mem _ hz)
  · rw [staticsAt_child, h.statics]

/-! ### Declarations on both sides -/

/-- What is done in the first scope changes the view from there in one way, and those from the others
in another way. -/
structure Turns (t t₁ : Table) (g s : Nat) (ls : List Nat) (F G : View → View) : Prop where
  stacked : t₁.Stacked g (s :: ls)
  head : t₁.view s = F (t.view s)
  tail : ∀ p ∈ ls, t₁.view p = G (t.view p)

theorem Alike.step (h : Alike t t' g (x :: rest)) {F G : View → View} {marked : Bool}
    (left : t.Turns t₁ g x.left (rest.map Twin.left) F G)
    (right : t'.Turns t₁' g x.right (rest.map Twin.right) F G)
    (statics : t₁'.staticsAt g = t₁.staticsAt g)
    (hF : (F (t.view x.left)).here.isSome = marked)
    (hG : ∀ v, (G v).here.isSome = v.here.isSome) :
    Alike t₁ t₁' g ({ x with marked := marked } :: rest) := by
  refine ⟨left.stacked, right.stacked, fun z hz => ?_, fun z hz => ?_, statics⟩
  · rcases List.mem_cons.1 hz with rfl | hz
    · rw [left.head, right.head, h.view]
    · rw [left.tail _ (List.mem_map_of_mem hz), right.tail _ (List.mem_map_of_mem hz),
        h.views z (List.mem_cons_of_mem _ hz)]
  · rcases List.mem_cons.1 hz with rfl | hz
    · exact (congrArg (·.here.isSome) left.head).trans hF
    · exact calc (t₁.functionAt? z.left).isSome
        _ = (G (t.view z.left)).here.isSome :=
          congrArg (·.here.isSome) (left.tail _ (List.mem_map_of_mem hz))
        _ = (t.view z.left).here.isSome := hG _
        _ = z.marked := h.marks z (List.mem_cons_of_mem _ hz)

theorem Stacked.modifyFunction (h : t.Stacked g (s :: ls)) {f : Function}
    (hf : t.function? s = some f) {step : Function → Function}
    (hle : ∀ f : Function, f.Le (step f)) :
    t.Turns (t.modifyFunction s step) g s ls (·.change step) (·.change step) ∧
      (t.modifyFunction s step).staticsAt g = t.staticsAt g := by
  obtain ⟨l, howner, hat⟩ := owner?_of_function? hf
  have hview : ∀ p ∈ s :: ls,
      (t.setFunction l (some (step f))).view p = (t.view p).change step := fun p hp =>
    view_change h.tidy.toShaped (h.lt_size List.mem_cons_self) howner hat (h.mem_chain hp) step
  rw [modifyFunction_eq howner hat]
  refine ⟨⟨?_, hview s List.mem_cons_self, fun p hp => hview p (List.mem_cons_of_mem _ hp)⟩,
    staticsAt_setFunction⟩
  exact h.of_extends (extends_setFunction hat (hle f)) (h.tidy.setFunction hat (hle f))

theorem Turns.bindName {F G : View → View} (h : t.Turns t₁ g s ls F G) {id : Symbol}
    (hid : ∀ f, t₁.function? s = some f → f.find? id.name ≠ none) :
    t.Turns (t₁.bindName s id) g s ls (fun v => (F v).bind id) G := by
  have ht := h.stacked.tidy.toShaped
  refine ⟨h.stacked.of_extends extends_bindName (h.stacked.tidy.bindName hid), ?_,
    fun p hp => ?_⟩
  · rw [view_bindName_self ht (h.stacked.lt_size List.mem_cons_self), h.head]
  · rw [view_bindName_of_not_mem (h.stacked.not_mem_chain hp), h.tail p hp]

/-- A symbol is added to the function around, and declared in the scope. -/
theorem Alike.declareIn (h : Alike t t' g (x :: rest)) {f : Function} {id : Symbol}
    (hf : t.function? x.left = some f) {step : Function → Function}
    (hle : ∀ f : Function, f.Le (step f)) (hfound : ∀ f, (step f).find? id.name ≠ none) :
    Alike ((t.modifyFunction x.left step).bindName x.left id)
      ((t'.modifyFunction x.right step).bindName x.right id) g (x :: rest) := by
  have hbound : ∀ {v v' : View}, v' = v.change step → ∀ f, v'.function = some f →
      f.find? id.name ≠ none := by
    rintro v _ rfl f hf
    obtain ⟨f₀, -, rfl⟩ := Option.map_eq_some_iff.1 hf
    exact hfound f₀
  have hmarks : ∀ v : View, (v.change step).here.isSome = v.here.isSome := fun _ =>
    Option.isSome_map
  obtain ⟨left, hstatics⟩ := h.left.modifyFunction hf hle
  obtain ⟨right, hstatics'⟩ := h.right.modifyFunction (h.function?.trans hf) hle
  exact h.step (left.bindName (hbound left.head)) (right.bindName (hbound right.head))
    (hstatics'.trans (h.statics.trans hstatics.symm))
    ((hmarks _).trans (h.marks x List.mem_cons_self)) hmarks

/-- A symbol is added to those of the program, and declared in the scope. -/
theorem Alike.declareStatic (h : Alike t t' g (x :: rest)) {id : Symbol}
    (hf : t.function? x.left = none) :
    Alike ((t.pushStatic g id).bindName x.left id) ((t'.pushStatic g id).bindName x.right id) g
      (x :: rest) := by
  have hturns : ∀ {t : Table} {s : Nat} {ls : List Nat}, t.Stacked g (s :: ls) →
      t.function? s = none →
      t.Turns ((t.pushStatic g id).bindName s id) g s ls (·.bind id) fun v => v := by
    intro t s ls h hf
    refine Turns.bindName ⟨h.of_extends extends_pushStatic h.tidy.pushStatic, view_pushStatic,
      fun _ _ => view_pushStatic⟩ fun f hf' => ?_
    rw [extends_pushStatic.function?_eq_none hf] at hf'
    cases hf'
  refine h.step (hturns h.left hf) (hturns h.right (h.function?.trans hf)) ?_
    (h.marks x List.mem_cons_self) fun _ => rfl
  show (t'.pushStatic g id).staticsAt g = (t.pushStatic g id).staticsAt g
  rw [staticsAt_pushStatic_self (h.left.lt_size h.left.global_mem),
    staticsAt_pushStatic_self (h.right.lt_size h.right.global_mem), h.statics]

/-- A function is declared in the global scope. -/
theorem Alike.declareFunc (h : Alike t t' g (x :: rest)) {id : Symbol}
    (hfree : t.lookup g id.name = none) :
    Alike (t.bindName g id) (t'.bindName g id) g (x :: rest) := by
  have hturns : ∀ {t : Table} {s : Nat} {ls : List Nat}, t.Stacked g (s :: ls) →
      t.lookup g id.name = none →
      t.Turns (t.bindName g id) g s ls (·.bindOuter id) (·.bindOuter id) := by
    intro t s ls h hfree
    have hview : ∀ p ∈ s :: ls, (t.bindName g id).view p = (t.view p).bindOuter id := fun p hp =>
      view_bindName_outer h.tidy.toShaped (h.lt_size hp) (h.global_mem_chain hp) hfree
    refine ⟨h.of_extends extends_bindName (h.tidy.bindName fun f hf => ?_),
      hview s List.mem_cons_self, fun p hp => hview p (List.mem_cons_of_mem _ hp)⟩
    rw [h.tidy.outside g (h.global g h.global_mem)] at hf
    cases hf
  have hfree' : t'.lookup g id.name = none :=
    (congrFun (congrArg View.names h.view_global) id.name).trans hfree
  exact h.step (hturns h.left hfree) (hturns h.right hfree') h.statics
    (h.marks x List.mem_cons_self) fun _ => rfl

/-- The function of the scope is marked, or described anew. -/
theorem Alike.setFunction (h : Alike t t' g (x :: rest)) {f : Function}
    (htidy : (t.setFunction x.left (some f)).Tidy)
    (htidy' : (t'.setFunction x.right (some f)).Tidy) :
    Alike (t.setFunction x.left (some f)) (t'.setFunction x.right (some f)) g
      ({ x with marked := true } :: rest) := by
  have hturns : ∀ {t : Table} {s : Nat} {ls : List Nat}, t.Stacked g (s :: ls) →
      (t.setFunction s (some f)).Tidy →
      t.Turns (t.setFunction s (some f)) g s ls (·.mark f) fun v => v := by
    intro t s ls h htidy
    refine ⟨⟨htidy, fun p hp => global?_setFunction.trans (h.global p hp), h.nested, h.last⟩,
      view_setFunction_self h.tidy.toShaped (h.lt_size List.mem_cons_self) f, fun p hp => ?_⟩
    exact view_setFunction_of_not_mem h.tidy.toShaped (h.lt_size (List.mem_cons_of_mem _ hp))
      (h.not_mem_chain hp)
  refine h.step (hturns h.left htidy) (hturns h.right htidy') ?_ rfl fun _ => rfl
  rw [staticsAt_setFunction, staticsAt_setFunction, h.statics]

end

end Table

end SmallC
