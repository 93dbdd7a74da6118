import Mathlib.Data.List.Pairwise
import SmallC.Proofs.Occurrences
import SmallC.Proofs.TableGrowth

/-!
# Scopes mirror regions

The check of a program keeps a table in which names are looked up from a scope
outward. The declarations that were made are also a list of places with their
regions. The two say the same: the scopes in sight are the regions around the
place that is checked, one for one, and each binds exactly the names that were
declared for its region. Hence what is found in the table is what the list says
that a name means.

Opening a scope goes into a region without declarations, a declaration adds to one
region and to its scope, and leaving a scope loses nothing, for the outer part of
a mirror is a mirror.
-/

namespace SmallC

open Occurrence

/-! ## Declarations at different places -/

/-- Two places that do not declare one name for one region. -/
def Occurrence.Differs (d d' : Occurrence) : Prop :=
  d.role ≠ .reference → d'.role ≠ .reference → d.region = d'.region → d.name ≠ d'.name

/-- No name is declared twice for a region. -/
def Distinct (before : List Occurrence) : Prop := before.Pairwise Differs

instance : Std.Symm Differs where
  symm _ _ h hrole hrole' hregion hname := h hrole' hrole hregion.symm hname.symm

theorem Distinct.eq_of_mem {before : List Occurrence} (h : Distinct before) {d d' : Occurrence}
    (hd : d ∈ before) (hd' : d' ∈ before) (hrole : d.role ≠ .reference)
    (hrole' : d'.role ≠ .reference) (hregion : d.region = d'.region) (hname : d.name = d'.name) :
    d = d' := by
  by_contra hne
  exact List.Pairwise.forall h hd hd' hne hrole hrole' hregion hname

theorem Distinct.snoc {before : List Occurrence} (h : Distinct before) {d : Occurrence}
    (hd : ∀ x ∈ before, x.Differs d) : Distinct (before ++ [d]) := by
  refine List.pairwise_append.2 ⟨h, List.pairwise_singleton _ _, ?_⟩
  intro x hx y hy
  obtain rfl := List.mem_singleton.1 hy
  exact hd x hx

theorem Distinct.references {before refs : List Occurrence} (h : Distinct before)
    (hrefs : ∀ r ∈ refs, r.role = .reference) : Distinct (before ++ refs) := by
  have hdiffers : ∀ x : Occurrence, ∀ r ∈ refs, x.Differs r := by
    intro x r hr _ hrole
    exact absurd (hrefs r hr) hrole
  refine List.pairwise_append.2 ⟨h, ?_, fun x _ r hr => hdiffers x r hr⟩
  exact List.pairwise_iff_getElem.2 fun i j _ hj _ => hdiffers _ _ (List.getElem_mem hj)

/-! ## One level -/

namespace Scope

/-- A level binds exactly the names that were declared for a region. -/
structure Holds (names : Scope Symbol) (before : List Occurrence) (l : Nat) (p : Region) :
    Prop where
  bound : ∀ d ∈ before, d.role ≠ .reference → d.region = p →
    ∃ sym, d.symbol = some sym ∧ names.findLocal? l d.name = some sym
  declared : ∀ n sym, names.findLocal? l n = some sym →
    ∃ d ∈ before, d.role ≠ .reference ∧ d.region = p ∧ d.name = n

section Holds

variable {names names' : Scope Symbol} {before : List Occurrence} {l : Nat} {p : Region}

theorem Holds.congr (h : names.Holds before l p)
    (hn : ∀ n, names'.findLocal? l n = names.findLocal? l n) : names'.Holds before l p := by
  refine ⟨fun d hd hrole hp => ?_, fun n sym hsym => ?_⟩
  · rw [hn]
    exact h.bound d hd hrole hp
  · rw [hn] at hsym
    exact h.declared n sym hsym

/-- What is declared elsewhere does not matter, and neither do references. -/
theorem Holds.append (h : names.Holds before l p) {more : List Occurrence}
    (hmore : ∀ d ∈ more, d.role = .reference ∨ d.region ≠ p) :
    names.Holds (before ++ more) l p := by
  refine ⟨fun d hd hrole hp => ?_, fun n sym hsym => ?_⟩
  · rcases List.mem_append.1 hd with hd | hd
    · exact h.bound d hd hrole hp
    · rcases hmore d hd with hr | hr
      · exact absurd hr hrole
      · exact absurd hp hr
  · obtain ⟨d, hd, hdecl⟩ := h.declared n sym hsym
    exact ⟨d, List.mem_append_left _ hd, hdecl⟩

/-- A new level holds the declarations of a region that has none yet. -/
theorem Holds.empty (hl : ∀ n, names.findLocal? l n = none)
    (hp : ∀ d ∈ before, d.role ≠ .reference → d.region ≠ p) : names.Holds before l p := by
  refine ⟨fun d hd hrole hregion => absurd hregion (hp d hd hrole), fun n sym hsym => ?_⟩
  rw [hl n] at hsym
  cases hsym

variable {sym : Symbol} {role : Role}

theorem Holds.bind_self (h : names.Holds before l p) (hl : l < names.levels.size)
    (hfree : names.findLocal? l sym.name = none) (hrole : role ≠ .reference) :
    (names.bind l sym.name sym).Holds (before ++ [⟨role, p, sym.name, some sym⟩]) l p := by
  refine ⟨fun d hd hdecl hregion => ?_, fun n x hx => ?_⟩
  · rcases List.mem_append.1 hd with hd | hd
    · obtain ⟨x, hx, hlocal⟩ := h.bound d hd hdecl hregion
      refine ⟨x, hx, ?_⟩
      rw [findLocal?_bind_ne (.inr ?_)]
      · exact hlocal
      · intro hname
        rw [hname, hfree] at hlocal
        cases hlocal
    · obtain rfl := List.mem_singleton.1 hd
      exact ⟨sym, rfl, findLocal?_bind_self hl⟩
  · rcases findLocal?_bind_some hx with ⟨-, rfl, -⟩ | hold
    · exact ⟨_, List.mem_append_right _ (List.mem_singleton_self _), hrole, rfl, rfl⟩
    · obtain ⟨d, hd, hdecl⟩ := h.declared n x hold
      exact ⟨d, List.mem_append_left _ hd, hdecl⟩

theorem Holds.bind_ne (h : names.Holds before l p) {l' : Nat} {p' : Region} (hl : l ≠ l')
    (hp : p' ≠ p) :
    (names.bind l' sym.name sym).Holds (before ++ [⟨role, p', sym.name, some sym⟩]) l p := by
  refine (h.congr fun n => findLocal?_bind_ne (.inl hl)).append fun d hd => ?_
  obtain rfl := List.mem_singleton.1 hd
  exact .inr hp

/-- The declaration of a name that a level binds. -/
theorem Holds.declaration (h : names.Holds before l p) {n : String} {x : Symbol}
    (hx : names.findLocal? l n = some x) :
    ∃ d ∈ before, d.role ≠ .reference ∧ d.region = p ∧ d.name = n ∧ d.symbol = some x := by
  obtain ⟨d, hd, hrole, hp, hname⟩ := h.declared n x hx
  obtain ⟨y, hy, hlocal⟩ := h.bound d hd hrole hp
  rw [hname, hx] at hlocal
  cases hlocal
  exact ⟨d, hd, hrole, hp, hname, hy⟩

theorem Holds.not_declared (h : names.Holds before l p) {n : String}
    (hn : names.findLocal? l n = none) {d : Occurrence} (hd : d ∈ before)
    (hrole : d.role ≠ .reference) (hname : d.name = n) : d.region ≠ p := by
  intro hp
  obtain ⟨x, -, hlocal⟩ := h.bound d hd hrole hp
  rw [hname, hn] at hlocal
  cases hlocal

end Holds

/-! ## The levels in sight -/

/-- The levels in sight hold the regions around a place, innermost first. The outermost region is
the global level `g`, and around it are the builtin functions. -/
inductive Mirrors (names : Scope Symbol) (before : List Occurrence) (g : Nat) :
    Region → List Nat → Prop where
  | program (global : names.Holds before g []) (apart : g ≠ 0)
      (root : ∀ n sym, names.findLocal? 0 n = some sym → sym ∈ Symbol.builtins ∧ sym.name = n) :
      Mirrors names before g [] [g, 0]
  | inner {x : Nat × Nat} {p : Region} {l : Nat} {ls : List Nat}
      (level : names.Holds before l (x :: p)) (new : l ∉ ls)
      (outer : Mirrors names before g p ls) : Mirrors names before g (x :: p) (l :: ls)

section Mirrors

variable {names names' : Scope Symbol} {before : List Occurrence} {g : Nat} {p : Region}
  {ls : List Nat}

theorem Mirrors.congr (h : names.Mirrors before g p ls)
    (hn : ∀ l n, names'.findLocal? l n = names.findLocal? l n) : names'.Mirrors before g p ls := by
  induction h with
  | program global apart root =>
      refine .program (global.congr (hn g)) apart fun n sym hsym => ?_
      rw [hn] at hsym
      exact root n sym hsym
  | inner level new _ ih => exact .inner (level.congr (hn _)) new ih

theorem Mirrors.references (h : names.Mirrors before g p ls) {refs : List Occurrence}
    (hrefs : ∀ r ∈ refs, r.role = .reference) : names.Mirrors (before ++ refs) g p ls := by
  have hmore : ∀ q : Region, ∀ d ∈ refs, d.role = .reference ∨ d.region ≠ q :=
    fun _ d hd => .inl (hrefs d hd)
  induction h with
  | program global apart root => exact .program (global.append (hmore _)) apart root
  | inner level new _ ih => exact .inner (level.append (hmore _)) new ih

theorem Mirrors.global_mem (h : names.Mirrors before g p ls) : g ∈ ls := by
  induction h with
  | program => exact List.mem_cons_self
  | inner _ _ _ ih => exact List.mem_cons_of_mem _ ih

theorem Mirrors.global (h : names.Mirrors before g p ls) : names.Holds before g [] := by
  induction h with
  | program global _ _ => exact global
  | inner _ _ _ ih => exact ih

theorem Mirrors.enter (h : names.Mirrors before g p ls) {x : Nat × Nat} {l : Nat} (hnew : l ∉ ls)
    (hl : ∀ n, names.findLocal? l n = none)
    (hp : ∀ d ∈ before, d.role ≠ .reference → d.region ≠ x :: p) :
    names.Mirrors before g (x :: p) (l :: ls) :=
  .inner (.empty hl hp) hnew h

theorem Mirrors.leave {x : Nat × Nat} {l : Nat} (h : names.Mirrors before g (x :: p) (l :: ls)) :
    names.Mirrors before g p ls := by
  cases h with
  | inner _ _ outer => exact outer

variable {sym : Symbol} {role : Role}

/-- A declaration further in is not seen. -/
theorem Mirrors.bind_inner (h : names.Mirrors before g p ls) {l : Nat} {q : Region} (hl : l ∉ ls)
    (hq : p.length < q.length) :
    (names.bind l sym.name sym).Mirrors (before ++ [⟨role, q, sym.name, some sym⟩]) g p ls := by
  induction h with
  | program global apart root =>
      have hg : g ≠ l := fun heq => hl (heq ▸ List.mem_cons_self)
      have h0 : 0 ≠ l := fun heq => hl (heq ▸ List.mem_cons_of_mem _ List.mem_cons_self)
      refine .program (global.bind_ne hg ?_) apart fun n x hx => ?_
      · rintro rfl
        exact absurd hq (Nat.not_lt_zero _)
      · rw [findLocal?_bind_ne (.inl h0)] at hx
        exact root n x hx
  | @inner y p' k ks level new _ ih =>
      have hk : k ≠ l := fun heq => hl (heq ▸ List.mem_cons_self)
      refine .inner (level.bind_ne hk ?_) new (ih (fun hmem => hl (List.mem_cons_of_mem _ hmem)) ?_)
      · rintro rfl
        exact absurd hq (Nat.lt_irrefl _)
      · rw [List.length_cons] at hq
        omega

/-- A declaration for the innermost region. -/
theorem Mirrors.bind {s : Nat} (h : names.Mirrors before g p (s :: ls))
    (hs : s < names.levels.size) (hfree : names.findLocal? s sym.name = none)
    (hrole : role ≠ .reference) :
    (names.bind s sym.name sym).Mirrors (before ++ [⟨role, p, sym.name, some sym⟩]) g p
      (s :: ls) := by
  cases h with
  | program global apart root =>
      refine .program (global.bind_self hs hfree hrole) apart fun n x hx => ?_
      rw [findLocal?_bind_ne (.inl (Ne.symm apart))] at hx
      exact root n x hx
  | inner level new outer =>
      exact .inner (level.bind_self hs hfree hrole) new
        (outer.bind_inner new (by rw [List.length_cons]; omega))

/-- A declaration for the whole program. -/
theorem Mirrors.bind_global (h : names.Mirrors before g p ls) (hg : g < names.levels.size)
    (hfree : names.findLocal? g sym.name = none) (hrole : role ≠ .reference) :
    (names.bind g sym.name sym).Mirrors (before ++ [⟨role, [], sym.name, some sym⟩]) g p ls := by
  induction h with
  | program global apart root =>
      exact Mirrors.bind (.program global apart root) hg hfree hrole
  | @inner y p' k ks level new outer ih =>
      have hk : k ≠ g := fun heq => new (heq ▸ outer.global_mem)
      exact .inner (level.bind_ne hk (by simp)) new ih

/-- What is found from a scope is what the earlier declarations say that the name means. -/
theorem Mirrors.means (h : names.Mirrors before g p ls) (hdistinct : Distinct before)
    {r : Occurrence} (hr : r.region = p)
    (hfound : ls.findSome? (names.findLocal? · r.name) = some sym) : Means before r sym := by
  induction h generalizing r with
  | program global apart root =>
      have hsight : ∀ d ∈ before, r.InSight d → d.region = [] := by
        intro d _ hd
        have haround := hd.around
        rw [hr] at haround
        exact List.suffix_nil.1 haround
      rw [List.findSome?_cons] at hfound
      cases hg : names.findLocal? g r.name with
      | some x =>
          rw [hg] at hfound
          cases hfound
          obtain ⟨d, hd, hrole, hregion, hname, hsym⟩ := global.declaration hg
          refine .declared hd ⟨hrole, hname, ?_⟩ (fun d' hd' hin => .inl ?_) hsym
          · rw [hregion]
            exact List.nil_suffix
          · exact hdistinct.eq_of_mem hd' hd hin.declares hrole
              ((hsight d' hd' hin).trans hregion.symm) (hin.name.trans hname.symm)
      | none =>
          rw [hg] at hfound
          simp only [List.findSome?_cons, List.findSome?_nil] at hfound
          have hroot : names.findLocal? 0 r.name = some sym := by
            cases h0 : names.findLocal? 0 r.name with
            | none => rw [h0] at hfound; cases hfound
            | some x => rw [h0] at hfound; exact hfound
          obtain ⟨hmem, hname⟩ := root r.name sym hroot
          refine .builtin (fun d hd hin => ?_) hmem hname
          exact global.not_declared hg hd hin.declares hin.name (hsight d hd hin)
  | @inner x p' l ks level new outer ih =>
      rw [List.findSome?_cons] at hfound
      cases hl : names.findLocal? l r.name with
      | some y =>
          rw [hl] at hfound
          cases hfound
          obtain ⟨d, hd, hrole, hregion, hname, hsym⟩ := level.declaration hl
          refine .declared hd ⟨hrole, hname, ?_⟩ (fun d' hd' hin => ?_) hsym
          · exact (hregion.trans hr.symm) ▸ List.suffix_rfl
          · have haround := hin.around
            rw [hr] at haround
            rcases List.suffix_cons_iff.1 haround with heq | houter
            · exact .inl (hdistinct.eq_of_mem hd' hd hin.declares hrole (heq.trans hregion.symm)
                (hin.name.trans hname.symm))
            · refine .inr ?_
              have hle := houter.length_le
              rw [hregion, List.length_cons]
              omega
      | none =>
          rw [hl] at hfound
          -- nothing of that name is declared for the innermost region, so the reference might as
          -- well stand right outside of it
          have hmeans := ih (r := { r with region := p' }) rfl hfound
          have hsight : ∀ d ∈ before, r.InSight d → InSight { r with region := p' } d := by
            intro d hd hin
            have haround := hin.around
            rw [hr] at haround
            rcases List.suffix_cons_iff.1 haround with heq | houter
            · exact absurd heq (level.not_declared hl hd hin.declares hin.name)
            · exact ⟨hin.declares, hin.name, houter⟩
          cases hmeans with
          | declared hd hin innermost hsym =>
              refine .declared hd ⟨hin.declares, hin.name, ?_⟩
                (fun d' hd' hin' => innermost d' hd' (hsight d' hd' hin')) hsym
              rw [hr]
              exact hin.around.trans (List.suffix_cons _ _)
          | builtin nothing hmem hname =>
              exact .builtin (fun d hd hin => nothing d hd (hsight d hd hin)) hmem hname

end Mirrors

end Scope

end SmallC
