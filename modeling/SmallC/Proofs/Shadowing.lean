import SmallC.Proofs.TableSessions
import SmallC.Proofs.TableViews

/-!
# What a declaration changes

A name is looked for from a scope outward, so a declaration in one scope is seen
from all scopes inside of it, except where the name is bound again on the way.
Everything else is left alone: other names, other branches of the tree, and the
scopes around. Marking functions and storing symbols does not take part in it.

The argument is about a search along a list. A declaration changes what is found
at one place of the list, where nothing was found before. Then the search finds
the new thing if it comes to that place, and otherwise what it found before.
-/

namespace SmallC

/-! ## A search along a list -/

/-- The search comes to `l`: it finds nothing before. -/
def SearchReaches {α : Type} (F : Nat → Option α) (l : Nat) (ls : List Nat) : Prop :=
  ∃ nearer further, ls = nearer ++ l :: further ∧ ∀ k ∈ nearer, F k = none

section

variable {α : Type} {F G : Nat → Option α} {l k : Nat} {ls : List Nat}

theorem SearchReaches.head : SearchReaches F l (l :: ls) := ⟨[], ls, rfl, fun _ h => (nomatch h)⟩

theorem searchReaches_cons_iff (h : k ≠ l) :
    SearchReaches F l (k :: ls) ↔ F k = none ∧ SearchReaches F l ls := by
  constructor
  · rintro ⟨nearer, further, heq, hnone⟩
    cases nearer with
    | nil => exact absurd (List.cons.inj heq).1 h
    | cons k' nearer =>
        obtain ⟨rfl, hls⟩ := List.cons.inj heq
        obtain ⟨hk, hrest⟩ := List.forall_mem_cons.1 hnone
        exact ⟨hk, nearer, further, hls, hrest⟩
  · rintro ⟨hk, nearer, further, rfl, hnone⟩
    exact ⟨k :: nearer, further, rfl, List.forall_mem_cons.2 ⟨hk, hnone⟩⟩

theorem not_searchReaches_nil : ¬SearchReaches F l [] := by
  rintro ⟨nearer, further, h, -⟩
  cases nearer <;> cases h

/-- Only at `l` is something else found than before. -/
theorem findSome?_of_searchReaches {v : α} (hl : G l = some v) (hne : ∀ k, k ≠ l → G k = F k) :
    SearchReaches F l ls → ls.findSome? G = some v := by
  induction ls with
  | nil => exact fun h => absurd h not_searchReaches_nil
  | cons k ls ih =>
      intro h
      rw [List.findSome?_cons]
      by_cases hk : k = l
      · subst hk
        rw [hl]
      · obtain ⟨hnone, h⟩ := (searchReaches_cons_iff hk).1 h
        rw [hne k hk, hnone]
        exact ih h

theorem findSome?_of_not_searchReaches (hne : ∀ k, k ≠ l → G k = F k) :
    ¬SearchReaches F l ls → ls.findSome? G = ls.findSome? F := by
  induction ls with
  | nil => exact fun _ => rfl
  | cons k ls ih =>
      intro h
      rw [List.findSome?_cons, List.findSome?_cons]
      by_cases hk : k = l
      · subst hk
        exact absurd SearchReaches.head h
      · rw [hne k hk]
        cases hF : F k with
        | some v => rfl
        | none => exact ih fun hls => h ((searchReaches_cons_iff hk).2 ⟨hF, hls⟩)

end

/-! ## Names -/

namespace Table

variable {t : Table} {s l : Nat} {name : String}

/-- A name looked for from a scope is looked for at `l`: no scope nearer than `l` binds it. -/
def Reaches (t : Table) (s l : Nat) (name : String) : Prop :=
  SearchReaches (t.lookupLocal · name) l (t.chain s)

theorem lookup_bindName_of_reaches {id : Symbol} (hl : l < t.names.levels.size)
    (h : t.Reaches s l id.name) : (t.bindName l id).lookup s id.name = some id := by
  have hchain : (t.bindName l id).names.chain s = t.chain s := Scope.chain_bind
  unfold lookup Scope.find?
  rw [hchain]
  exact findSome?_of_searchReaches (Scope.findLocal?_bind_self hl)
    (fun k hk => Scope.findLocal?_bind_ne (.inl hk)) h

theorem lookup_bindName_of_not_reaches {id : Symbol} (h : ¬(name = id.name ∧ t.Reaches s l name)) :
    (t.bindName l id).lookup s name = t.lookup s name := by
  by_cases hname : name = id.name
  · have hchain : (t.bindName l id).names.chain s = t.chain s := Scope.chain_bind
    unfold lookup Scope.find?
    rw [hchain]
    exact findSome?_of_not_searchReaches (fun k hk => Scope.findLocal?_bind_ne (.inl hk))
      fun hreach => h ⟨hname, hreach⟩
  · exact lookup_bindName_ne hname

/-- The scope in which a declaration made in `s` binds its name. Functions are bound in the global
scope. -/
def target? (t : Table) : DeclSort → Nat → Option Nat
  | .func, s => t.global? s
  | .var, s | .param, s => some s

/-- Whatever sort of name is declared, the names of the table change by one binding. -/
theorem add_names {sort : DeclSort} {id id' : Symbol} {t' : Table} (ht : t.Rooted)
    (h : t.add sort s id = .ok (t', id')) :
    ∃ l, t.target? sort s = some l ∧ l < t.size ∧ id'.name = id.name ∧
      t'.names = (t.bindName l id').names := by
  cases sort with
  | var =>
      obtain ⟨g, hg, -, ⟨f, hf, hlocal⟩ | ⟨-, hstatic⟩⟩ := addVar_ok h
      · obtain ⟨l, -, -, -, -, rfl, rfl⟩ := addLocal_ok hf hlocal
        exact ⟨s, rfl, lt_size_of_global hg, rfl, rfl⟩
      · obtain ⟨_, -, -, -, rfl, rfl⟩ := addStatic_ok hstatic
        exact ⟨s, rfl, lt_size_of_global hg, rfl, rfl⟩
  | param =>
      obtain ⟨l, f, ho, -, -, -, -, rfl, rfl⟩ := addParam_ok h
      refine ⟨s, rfl, ?_, rfl, rfl⟩
      rcases Nat.lt_or_ge s t.size with hs | hs
      · exact hs
      · have hnil : t.chain s = [] := Scope.chain_eq_nil (ht.levels ▸ hs)
        have hmem := owner?_mem ho
        rw [hnil] at hmem
        cases hmem
  | func =>
      obtain ⟨g, hg, -, -, -, rfl, rfl⟩ := addFunc_ok h
      exact ⟨g, hg, lt_size_of_global (ht.global s g hg), rfl, rfl⟩

theorem lookup_congr {t' : Table} (h : t'.names = t.names) :
    t'.lookup s name = t.lookup s name := by
  unfold lookup
  rw [h]

theorem Rooted.lookup_child_new (ht : t.Rooted) :
    (t.child s).1.lookup t.size name = t.lookup s name := by
  have hchain : (t.child s).1.names.chain t.size = t.size :: t.chain s := by
    rw [← ht.levels]
    exact Scope.chain_child_new
  have hlocal : ∀ k, (t.child s).1.names.findLocal? k name = t.names.findLocal? k name :=
    fun _ => Scope.findLocal?_child
  have hnew : t.names.findLocal? t.size name = none := by
    unfold Scope.findLocal?
    rw [Array.getElem?_eq_none (Nat.le_of_eq ht.levels)]
    rfl
  unfold lookup Scope.find?
  rw [hchain, List.findSome?_cons, hlocal, hnew]
  exact findSome?_congr fun k _ => hlocal k

end Table

/-! ## Any use of a table -/

namespace Session

/-- What names stand for in any use of a table. A declaration that succeeds binds its name in one
scope. From then on the name stands for the new symbol in every scope from which the search comes
to that one, and every other lookup gives what it gave before. A new scope sees what the scope
around it sees. -/
theorem run_lookup (requests : List Request) :
    (∀ sort s id t id', (run requests).table.add sort s id = .ok (t, id') →
      ∃ l, (run requests).table.target? sort s = some l ∧ id'.name = id.name ∧
        ∀ inner name,
          (name = id'.name ∧ (run requests).table.Reaches inner l name →
            (run (requests ++ [.add sort s id])).table.lookup inner name = some id') ∧
          (¬(name = id'.name ∧ (run requests).table.Reaches inner l name) →
            (run (requests ++ [.add sort s id])).table.lookup inner name =
              (run requests).table.lookup inner name)) ∧
    ∀ s, s < (run requests).table.size → ∀ name,
      (run (requests ++ [.child s])).table.lookup (run requests).table.size name =
        (run requests).table.lookup s name := by
  have hrooted := (kept_run requests).rooted
  have hrun : ∀ request, run (requests ++ [request]) = (run requests).perform request := by
    intro request
    unfold run
    rw [List.foldl_append, List.foldl_cons, List.foldl_nil]
  constructor
  · intro sort s id t id' hadd
    obtain ⟨l, htarget, hlt, hname, hnames⟩ := Table.add_names hrooted hadd
    have hafter : (run (requests ++ [.add sort s id])).table.names =
        ((run requests).table.bindName l id').names := by
      rw [hrun, perform, Table.Change.run_add_eq_ok_iff.2 hadd]
      exact hnames
    refine ⟨l, htarget, hname, fun inner name => ⟨?_, fun h => ?_⟩⟩
    · rintro ⟨rfl, hreach⟩
      rw [Table.lookup_congr hafter]
      exact Table.lookup_bindName_of_reaches (hrooted.levels ▸ hlt) hreach
    · rw [Table.lookup_congr hafter]
      exact Table.lookup_bindName_of_not_reaches h
  · intro s hs name
    have hafter : (run (requests ++ [.child s])).table = ((run requests).table.child s).1 := by
      rw [hrun, perform, if_pos hs]
    rw [hafter]
    exact hrooted.lookup_child_new

/-- A local variable hides a global one in its own scope and in those inside of it, and nowhere
else. -/
theorem run_lookup_hidden :
    let requests : List Request :=
      [.child 0, .add .var 1 (.fresh "x" (.base .int) none), .newFunction "f" (.base .void),
        .child 1, .setFunction 2 (some 0), .child 2]
    let x : Symbol := .fresh "x" (.base .char) none
    ∃ t id', (run requests).table.add .var 2 x = .ok (t, id') ∧
      (run (requests ++ [.add .var 2 x])).table.lookup 3 "x" = some id' ∧
      (run (requests ++ [.add .var 2 x])).table.lookup 1 "x" =
        (run requests).table.lookup 1 "x" ∧
      (run (requests ++ [.child 3])).table.lookup 4 "x" = (run requests).table.lookup 3 "x" := by
  intro requests x
  obtain ⟨hadds, hchild⟩ := run_lookup requests
  obtain ⟨l, hl, -, hlookup⟩ := hadds .var 2 x _ _ rfl
  cases hl
  refine ⟨_, _, rfl, ?_, ?_, hchild 3 (by decide) "x"⟩
  · exact (hlookup 3 "x").1 ⟨rfl, [3], [1, 0], rfl, by decide⟩
  · refine (hlookup 1 "x").2 ?_
    rintro ⟨-, nearer, further, hchain, -⟩
    have hmem : 2 ∈ (run requests).table.chain 1 := hchain ▸ by simp
    exact absurd hmem (by decide)

end Session

end SmallC
