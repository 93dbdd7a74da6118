import SmallC.Proofs.CheckTrace

/-!
# Names resolve lexically

What a name stands for in a checked program can be said without scopes and
tables, by the places of the program alone. The check agrees with that at every
reference, and where nothing is in sight that a reference could stand for, the
program does not pass.
-/

namespace SmallC

open Occurrence

/-- Places that differ in their symbols only are split alike. -/
theorem Occurrence.split_of_map_bare {out src before after : List Occurrence} {r : Occurrence}
    (hsame : out.map bare = src.map bare) (hsrc : src = before ++ r :: after) :
    ∃ before' r' after', out = before' ++ r' :: after' ∧ before'.map bare = before.map bare ∧
      r'.bare = r.bare := by
  subst hsrc
  rw [List.map_append, List.map_cons] at hsame
  obtain ⟨before', rest, rfl, hbefore, hrest⟩ := List.map_eq_append_iff.1 hsame
  obtain ⟨r', after', rfl, hr, -⟩ := List.map_eq_cons_iff.1 hrest
  exact ⟨before', r', after', rfl, hbefore, hr⟩

/-- Whether a declaration is in sight does not depend on symbols. -/
theorem Occurrence.InSight.congr {r r' d d' : Occurrence} (h : r.InSight d)
    (hr : r.bare = r'.bare) (hd : d.bare = d'.bare) : r'.InSight d' := by
  unfold bare at hr hd
  simp only [Occurrence.mk.injEq] at hr hd
  obtain ⟨-, hrRegion, hrName, -⟩ := hr
  obtain ⟨hdRole, hdRegion, hdName, -⟩ := hd
  refine ⟨hdRole ▸ h.declares, ?_, ?_⟩
  · rw [← hdName, ← hrName]
    exact h.name
  · rw [← hdRegion, ← hrRegion]
    exact h.around

/-- Names resolve lexically. A program that passes the check keeps all its names in their places, all
names in its expressions are among them, and every reference stands for what the places before it
say, which is one thing only. A program with a reference that nothing in sight declares, and that is
not the name of a builtin function, does not pass. -/
theorem Analysis.resolves_lexically (b : Block) :
    (∀ a, Analysis.ofProgram b = .ok a →
      (a.program.occurrences []).map bare = (b.occurrences []).map bare ∧
        (∀ id, Expr.ident id ∈ a.program.exprs →
          ∃ q, id.occurrence .reference q ∈ a.program.occurrences []) ∧
        ∀ before r after, a.program.occurrences [] = before ++ r :: after → r.role = .reference →
          ∃ sym, r.symbol = some sym ∧ Means before r sym ∧
            ∀ sym', Means before r sym' → sym' = sym) ∧
      ∀ before r after, b.occurrences [] = before ++ r :: after → r.role = .reference →
        (∀ d ∈ before, ¬ r.InSight d) → (∀ sym ∈ Symbol.builtins, sym.name ≠ r.name) →
        ∃ fault, Analysis.ofProgram b = .error fault := by
  have hmeans : ∀ a, Analysis.ofProgram b = .ok a → ∀ before r after,
      a.program.occurrences [] = before ++ r :: after → r.role = .reference →
      ∃ sym, r.symbol = some sym ∧ Means before r sym := by
    intro a ha before r after hout hrole
    obtain ⟨t, ds, -, -, htraced⟩ := Analysis.ofProgram_traced ha
    have hresolved := htraced.resolved
    rw [hout] at hresolved
    exact (resolved_append.1 hresolved).2.1 hrole
  refine ⟨fun a ha => ?_, fun before r after hsrc hrole hsight hbuiltin => ?_⟩
  · obtain ⟨t, ds, -, -, htraced⟩ := Analysis.ofProgram_traced ha
    refine ⟨htraced.same, htraced.covered, fun before r after hout hrole => ?_⟩
    obtain ⟨sym, hsym, hm⟩ := hmeans a ha before r after hout hrole
    exact ⟨sym, hsym, hm, fun sym' hm' => hm'.unique hm⟩
  · cases ha : Analysis.ofProgram b with
    | error fault => exact ⟨fault, rfl⟩
    | ok a =>
        -- the reference would have a meaning in the program as checked, and hence something in sight
        obtain ⟨t, ds, -, -, htraced⟩ := Analysis.ofProgram_traced ha
        obtain ⟨before', r', after', hout, hbefore, hr⟩ :=
          Occurrence.split_of_map_bare htraced.same hsrc
        have hrole' : r'.role = .reference := (congrArg Occurrence.role hr).trans hrole
        have hname : r'.bare.name = r.bare.name := congrArg Occurrence.name hr
        obtain ⟨sym, -, hm⟩ := hmeans a ha before' r' after' hout hrole'
        cases hm with
        | declared hmem hin _ _ =>
            have hd := List.mem_map_of_mem (f := bare) hmem
            rw [hbefore] at hd
            obtain ⟨d, hd, hbare⟩ := List.mem_map.1 hd
            exact absurd (hin.congr hr hbare.symm) (hsight d hd)
        | builtin _ hmem hname' => exact absurd (hname'.trans hname) (hbuiltin sym hmem)

/-- A local hides the global of the same name, and what a block declares is out of sight after it. -/
theorem Analysis.resolves_lexically_nested :
    (∃ b a before r sym,
      Block.parse "(var int x) (func void f () (block (var int x) (= x 1)))" = .ok b ∧
        Analysis.ofProgram b = .ok a ∧ a.program.occurrences [] = before ++ [r] ∧
        r.symbol = some sym ∧ sym.storage = .automatic ∧ Means before r sym) ∧
      ∃ b fault, Block.parse "(block (var int x)) (= x 1)" = .ok b ∧
        Analysis.ofProgram b = .error fault := by
  constructor
  · have hlast : (Analysis.ofText? "(var int x) (func void f () (block (var int x) (= x 1)))").any
        (fun a => (a.program.occurrences []).getLast?.any fun r =>
          r.role = .reference ∧ r.symbol.any (·.storage = .automatic)) = true := by decide +kernel
    obtain ⟨a, ha, hlast⟩ := (Option.any_eq_true _ _).1 hlast
    obtain ⟨r, hr, hrole⟩ := (Option.any_eq_true _ _).1 hlast
    obtain ⟨before, hout⟩ := List.getLast?_eq_some_iff.1 hr
    obtain ⟨hrole, hstorage⟩ := of_decide_eq_true hrole
    obtain ⟨b, hb, ha⟩ := Analysis.ofText?_eq_some ha
    obtain ⟨sym, hsym, hmeans, -⟩ :=
      ((Analysis.resolves_lexically b).1 a ha).2.2 before r [] hout hrole
    rw [hsym] at hstorage
    exact ⟨b, a, before, r, sym, hb, ha, hout, hsym, by simpa using hstorage, hmeans⟩
  · have hlast : ((Block.parse "(block (var int x)) (= x 1)").toOption.any fun b =>
        (b.occurrences []).getLast?.any fun r => r.role = .reference ∧
          (∀ d ∈ (b.occurrences []).dropLast, ¬ r.InSight d) ∧
          ∀ sym ∈ Symbol.builtins, sym.name ≠ r.name) = true := by decide +kernel
    obtain ⟨b, hb, hlast⟩ := Except.any_toOption hlast
    obtain ⟨r, hr, hfacts⟩ := (Option.any_eq_true _ _).1 hlast
    obtain ⟨before, hsrc⟩ := List.getLast?_eq_some_iff.1 hr
    rw [hsrc, List.dropLast_concat] at hfacts
    obtain ⟨hrole, hsight, hbuiltin⟩ := of_decide_eq_true hfacts
    obtain ⟨fault, hfault⟩ :=
      (Analysis.resolves_lexically b).2 before r [] hsrc hrole hsight hbuiltin
    exact ⟨b, fault, hb, hfault⟩

end SmallC
