import Mathlib.Data.List.Induction
import SmallC.Proofs.FreshNames
import SmallC.Ty.Basic

/-!
# The text of a type says which type it is

Types are shown by their texts, so two types with one text could not be told
apart in a message. There are none. A text is read from its end, because there a
type shows what it is: an array ends with its brackets and a function with the
closing parenthesis of its parameters. What stands in front of a parameter is a
parenthesis or the space after a comma, and neither is the end of anything that a
type could begin with.

The induction is over types, for texts that go on to the left. Reading the
parameters of a function from the last one to the first leads back to the
parenthesis that opens them, and what is in front of that is the result.
-/

namespace SmallC

/-- What holds of a type if it holds of its parts. -/
theorem Ty.induction {motive : Ty → Prop} (base : ∀ b, motive (.base b))
    (array : ∀ b, motive (.array b)) (absent : motive .absent)
    (func : ∀ r ps, motive r → (∀ p ∈ ps, motive p) → motive (.func r ps)) : ∀ t, motive t
  | .base b => base b
  | .array b => array b
  | .absent => absent
  | .func r ps => func r ps (Ty.induction base array absent func r) fun p hp =>
      have := List.sizeOf_lt_of_mem hp
      Ty.induction base array absent func p
termination_by t => sizeOf t
decreasing_by all_goals simp_wf; omega

/-! ## How a text ends -/

/-- What the end of its text says about a type. -/
inductive Ending where
  | word | number | array | func | absent
deriving DecidableEq

/-- Reads the end of a text, of which the last character comes first. -/
def Ending.read : List Char → Ending
  | ']' :: _ => .array
  | ')' :: c :: _ => if c.isDigit then .number else if c = '>' then .absent else .func
  | _ => .word

/-- How a kind ends. -/
def Base.ending : Base → Ending
  | .unnamed _ => .number
  | .void | .int | .char | .float | .bool => .word

/-- How a type ends. -/
def Ty.ending : Ty → Ending
  | .base b => b.ending
  | .array _ => .array
  | .func _ _ => .func
  | .absent => .absent

/-- The characters of a numeral with a sign. -/
def isNumeral (c : Char) : Bool := c.isDigit || c = '-'

theorem toList_toString_int (n : Int) : ∃ (sign : List Char) (m : Nat),
    (toString n).toList = sign ++ (toString m).toList ∧ sign.all isNumeral = true := by
  cases n with
  | ofNat m => exact ⟨[], m, rfl, rfl⟩
  | negSucc m => exact ⟨['-'], m + 1, by simp [toString, Int.repr], by decide⟩

theorem toString_int_inj {m n : Int} (h : toString m = toString n) : m = n := by
  have hminus : ∀ m : Nat, toString (Int.negSucc m) = "-" ++ toString (m + 1) := fun _ => rfl
  have hsign : ∀ m k : Nat, toString m ≠ toString (Int.negSucc k) := fun m k =>
    toString_ne_of_mem (by rw [hminus, String.toList_append]; exact List.mem_cons_self)
      (by decide : '-'.isDigit = false)
  cases m with
  | ofNat m =>
      cases n with
      | ofNat n => exact congrArg Int.ofNat (toString_inj h)
      | negSucc n => exact absurd h (hsign m n)
  | negSucc m =>
      cases n with
      | ofNat n => exact absurd h.symm (hsign n m)
      | negSucc n =>
          rw [hminus, hminus, String.append_right_inj] at h
          exact congrArg Int.negSucc (Nat.succ.inj (toString_inj h))

theorem isNumeral_toString (n : Int) : (toString n).toList.all isNumeral = true := by
  obtain ⟨sign, m, heq, hsign⟩ := toList_toString_int n
  have hdigits : (toString m).toList.all isNumeral = true :=
    List.all_eq_true.2 fun c hc => by rw [isNumeral, isDigit_of_mem_toString hc, Bool.true_or]
  rw [heq, List.all_append, hsign, hdigits, Bool.true_and]

/-- A numeral ends with a digit. -/
theorem exists_last_toString (n : Int) :
    ∃ init c, (toString n).toList = init ++ [c] ∧ c.isDigit = true := by
  obtain ⟨sign, m, heq, -⟩ := toList_toString_int n
  have hne : (toString m).toList ≠ [] := by
    rw [Nat.toString_eq_repr, Nat.toList_repr]
    exact Nat.toDigits_ne_nil
  refine ⟨sign ++ (toString m).toList.dropLast, (toString m).toList.getLast hne, ?_,
    isDigit_of_mem_toString (List.getLast_mem hne)⟩
  rw [heq, List.append_assoc, List.dropLast_concat_getLast]

/-! ## Kinds -/

/-- What stands in front of a type ends with a parenthesis or a space, if there is anything. -/
def Opens (front : List Char) : Prop := ∀ c ∈ front.getLast?, c = '(' ∨ c = ' '

theorem Opens.not_alpha {front : List Char} (h : Opens front) :
    ∀ c ∈ front.getLast?, c.isAlpha = false := by
  intro c hc
  rcases h c hc with rfl | rfl <;> rfl

theorem Base.read_text (front : List Char) (b : Base) :
    Ending.read (front ++ b.text.toList).reverse = b.ending := by
  cases b with
  | unnamed n =>
      obtain ⟨init, c, heq, hdigit⟩ := exists_last_toString n
      have htext : (unnamed n).text.toList = "Base(".toList ++ init ++ [c, ')'] := by
        rw [Base.text, String.toList_append, String.toList_append, heq]
        simp
      rw [htext, ← List.append_assoc, List.reverse_append]
      exact if_pos hdigit
  | void | int | char | float | bool => simp [Base.text, Ending.read, Base.ending]

theorem Base.mem_all {b : Base} (h : b.ending = .word) : b ∈ Base.all := by
  cases b with
  | unnamed n => cases h
  | void | int | char | float | bool => decide

theorem Base.isAlpha_text : ∀ b ∈ Base.all, b.text.toList.all Char.isAlpha = true := by
  decide

theorem Base.text_inj : ∀ b ∈ Base.all, ∀ c ∈ Base.all, b.text = c.text → b = c := by
  decide

/-- A kind at the end of a text is told apart from what stands in front of it. -/
theorem Base.append_text_inj {b c : Base} {front front' : List Char} (hf : Opens front)
    (hf' : Opens front') (h : front ++ b.text.toList = front' ++ c.text.toList) :
    b = c ∧ front = front' := by
  have hending : b.ending = c.ending := by
    rw [← Base.read_text front b, h, Base.read_text]
  by_cases hword : b.ending = .word
  · have hb := Base.mem_all hword
    have hc := Base.mem_all (hending ▸ hword)
    obtain ⟨hfront, htext⟩ := Text.append_inj_of_class hf.not_alpha hf'.not_alpha
      (Base.isAlpha_text b hb) (Base.isAlpha_text c hc) h
    exact ⟨Base.text_inj b hb c hc (String.toList_inj.1 htext), hfront⟩
  · cases b with
    | unnamed m =>
        cases c with
        | unnamed n =>
            have hclose : ∀ (front : List Char) (n : Int), front ++ (unnamed n).text.toList =
                (front ++ "Base(".toList) ++ (toString n).toList ++ [')'] := by
              intro front n
              simp [Base.text]
            rw [hclose, hclose] at h
            obtain ⟨hfront, htext⟩ := Text.append_inj_of_class (by simp [isNumeral])
              (by simp [isNumeral]) (isNumeral_toString m) (isNumeral_toString n)
              (List.append_cancel_right h)
            exact ⟨congrArg unnamed (toString_int_inj (String.toList_inj.1 htext)),
              List.append_cancel_right hfront⟩
        | void | int | char | float | bool => cases hending
    | void | int | char | float | bool => exact absurd rfl hword

/-! ## Parameters -/

/-- The text between the parentheses of a function. -/
def Ty.inside (ps : List Ty) : List Char := (Text.join ", " (texts ps)).toList

theorem Ty.texts_eq (ps : List Ty) : texts ps = ps.map text := by
  induction ps with
  | nil => rfl
  | cons p rest ih => rw [texts, ih, List.map_cons]

theorem Ty.inside_nil : inside [] = [] := rfl

theorem Ty.inside_concat {ps : List Ty} (h : ps ≠ []) (p : Ty) :
    inside (ps ++ [p]) = inside ps ++ [',', ' '] ++ p.text.toList := by
  have htexts : texts ps ≠ [] := by
    rw [texts_eq]
    exact mt List.map_eq_nil_iff.1 h
  rw [inside, texts_eq, List.map_append, ← texts_eq, Text.join,
    String.intercalate_append_of_ne_nil htexts (by simp), List.map_singleton,
    String.intercalate_singleton, String.toList_append, String.toList_append]
  rfl

/-- What stands between the opening parenthesis and the last parameter. -/
def Ty.before (ps : List Ty) : List Char := if ps = [] then [] else inside ps ++ [',', ' ']

theorem Ty.inside_eq (ps : List Ty) (p : Ty) : inside (ps ++ [p]) = before ps ++ p.text.toList := by
  unfold before
  split
  · next h => simp [h, inside, texts, Text.join]
  · next h => rw [inside_concat h]

theorem Ty.text_func (r : Ty) (ps : List Ty) :
    (func r ps).text.toList = r.text.toList ++ ['('] ++ inside ps ++ [')'] := by
  simp [text, inside]

/-! ## Types -/

/-- The characters that a type can end with. -/
def closers : List Char := [']', ')', 'd', 't', 'r', 'l']

theorem closers_apart {c : Char} (h : c ∈ closers) : c.isDigit = false ∧ c ≠ '>' ∧ c ≠ '(' := by
  have hall : closers.all (fun c => !c.isDigit && c ≠ '>' && c ≠ '(') = true := by decide
  simpa [and_assoc] using List.all_eq_true.1 hall c h

theorem Base.any_closer : ∀ b ∈ Base.all, b.text.toList.getLast?.any closers.contains = true := by
  decide

theorem Ty.exists_closer (t : Ty) : ∃ init, ∃ c ∈ closers, t.text.toList = init ++ [c] := by
  cases t with
  | base b =>
      by_cases h : b.ending = .word
      · obtain ⟨c, hlast, hc⟩ := (Option.any_eq_true _ _).1 (Base.any_closer b (Base.mem_all h))
        obtain ⟨init, heq⟩ := List.getLast?_eq_some_iff.1 hlast
        exact ⟨init, c, List.contains_iff_mem.1 hc, heq⟩
      · cases b with
        | unnamed n =>
            exact ⟨_, ')', by decide, by rw [text, Base.text, String.toList_append]; rfl⟩
        | void | int | char | float | bool => exact absurd rfl h
  | array elem => exact ⟨elem.text.toList ++ ['['], ']', by decide, by simp [text]⟩
  | func r ps => exact ⟨_, ')', by decide, text_func r ps⟩
  | absent => exact ⟨"%!s(<nil>".toList, ')', by decide, rfl⟩

theorem Ty.read_text (front : List Char) (t : Ty) :
    Ending.read (front ++ t.text.toList).reverse = t.ending := by
  cases t with
  | base b => exact b.read_text front
  | array elem => simp [text, Ending.read, ending]
  | absent => simp [text, Ending.read, ending]
  | func r ps =>
      have hlast : ∃ init c, ['('] ++ inside ps = init ++ [c] ∧ c.isDigit = false ∧ c ≠ '>' := by
        cases ps using List.reverseRecOn with
        | nil => exact ⟨[], '(', rfl, by decide⟩
        | append_singleton qs q =>
            obtain ⟨init, c, hc, heq⟩ := q.exists_closer
            obtain ⟨hdigit, hangle, -⟩ := closers_apart hc
            exact ⟨['('] ++ before qs ++ init, c, by rw [inside_eq, heq]; simp, hdigit, hangle⟩
      obtain ⟨init, c, heq, hdigit, hangle⟩ := hlast
      have hclose : front ++ (func r ps).text.toList =
          front ++ r.text.toList ++ init ++ [c, ')'] := by
        rw [text_func, List.append_assoc _ ['('], heq]
        simp
      rw [hclose, List.reverse_append]
      simp [Ending.read, hdigit, hangle, ending]

/-- What is in front of a type, together with the type, has only one reading. -/
def Ty.Distinct (t : Ty) : Prop :=
  ∀ (u : Ty) (front front' : List Char), Opens front → Opens front' →
    front ++ t.text.toList = front' ++ u.text.toList → t = u ∧ front = front'

theorem Ty.last_before (m : List Char) (ps : List Ty) :
    (m ++ ['('] ++ before ps).getLast? = some (if ps = [] then '(' else ' ') := by
  unfold before
  split
  · rw [List.append_nil, List.getLast?_concat]
  · rw [List.getLast?_append, List.getLast?_append]
    rfl

theorem Ty.opens_before (m : List Char) (ps : List Ty) : Opens (m ++ ['('] ++ before ps) := by
  intro c hc
  rw [last_before] at hc
  split at hc <;> cases hc
  · exact .inl rfl
  · exact .inr rfl

theorem Ty.append_before_inj {ps qs : List Ty} {m m' : List Char}
    (h : m ++ ['('] ++ before ps = m' ++ ['('] ++ before qs) :
    m ++ ['('] ++ inside ps = m' ++ ['('] ++ inside qs := by
  have hlast : (if ps = [] then '(' else ' ') = if qs = [] then '(' else ' ' := by
    rw [← Option.some_inj, ← last_before m, h, last_before]
  unfold before at h
  split at h <;> split at h
  · next hps hqs => rwa [hps, hqs]
  · next hps hqs => simp [hps, hqs] at hlast
  · next hps hqs => simp [hps, hqs] at hlast
  · rw [← List.append_assoc, ← List.append_assoc] at h
    exact List.append_cancel_right h

/-- Parameters are read from the last one to the first, up to the parenthesis that opens them. -/
theorem Ty.append_inside_inj {ps : List Ty} (h : ∀ p ∈ ps, p.Distinct) :
    ∀ {qs : List Ty} {m m' : List Char}, m ++ ['('] ++ inside ps = m' ++ ['('] ++ inside qs →
      ps = qs ∧ m = m' := by
  have hopen : ∀ {m m' : List Char} {qs : List Ty} {q : Ty},
      m ++ ['('] ++ inside [] ≠ m' ++ ['('] ++ inside (qs ++ [q]) := by
    intro m m' qs q heq
    obtain ⟨init, c, hc, htext⟩ := q.exists_closer
    rw [inside_eq, htext, ← List.append_assoc, ← List.append_assoc] at heq
    have hlast := congrArg List.getLast? heq
    rw [inside_nil, List.append_nil, List.getLast?_concat, List.getLast?_concat] at hlast
    exact (closers_apart hc).2.2 (Option.some.inj hlast).symm
  induction ps using List.reverseRecOn with
  | nil =>
      intro qs m m' heq
      cases qs using List.reverseRecOn with
      | nil => exact ⟨rfl, List.append_cancel_right (List.append_cancel_right heq)⟩
      | append_singleton qs q => exact absurd heq hopen
  | append_singleton ps p ih =>
      intro qs m m' heq
      cases qs using List.reverseRecOn with
      | nil => exact absurd heq.symm hopen
      | append_singleton qs q =>
          rw [inside_eq, inside_eq, ← List.append_assoc, ← List.append_assoc] at heq
          obtain ⟨rfl, hfront⟩ := h p (by simp) q _ _ (opens_before m ps) (opens_before m' qs) heq
          obtain ⟨rfl, rfl⟩ := ih (fun p hp => h p (List.mem_append_left _ hp))
            (append_before_inj hfront)
          exact ⟨rfl, rfl⟩

theorem Ty.ending_eq {t u : Ty} {front front' : List Char}
    (h : front ++ t.text.toList = front' ++ u.text.toList) : t.ending = u.ending := by
  rw [← Ty.read_text front t, h, Ty.read_text]

/-- A type at the end of a text is told apart from what stands in front of it. -/
theorem Ty.distinct (t : Ty) : t.Distinct := by
  induction t using Ty.induction with
  | base b =>
      intro u front front' hf hf' h
      cases u with
      | base c =>
          obtain ⟨rfl, hfront⟩ := Base.append_text_inj hf hf' h
          exact ⟨rfl, hfront⟩
      | array _ | func _ _ | absent =>
          have hending := ending_eq h
          cases b <;> cases hending
  | array b =>
      intro u front front' hf hf' h
      have hending := ending_eq h
      cases u with
      | array c =>
          simp only [text, String.toList_append, ← List.append_assoc] at h
          obtain ⟨rfl, hfront⟩ := Base.append_text_inj hf hf' (List.append_cancel_right h)
          exact ⟨rfl, hfront⟩
      | base c => cases c <;> cases hending
      | func _ _ | absent => cases hending
  | absent =>
      intro u front front' hf hf' h
      have hending := ending_eq h
      cases u with
      | absent => exact ⟨rfl, List.append_cancel_right h⟩
      | base c => cases c <;> cases hending
      | func _ _ | array _ => cases hending
  | func r ps ihr ihps =>
      intro u front front' hf hf' h
      have hending := ending_eq h
      cases u with
      | func s qs =>
          simp only [text_func, ← List.append_assoc] at h
          obtain ⟨rfl, hresult⟩ := append_inside_inj ihps (List.append_cancel_right h)
          obtain ⟨rfl, hfront⟩ := ihr s front front' hf hf' hresult
          exact ⟨rfl, hfront⟩
      | base c => cases c <;> cases hending
      | array _ | absent => cases hending

theorem Ty.text_inj {t u : Ty} (h : t.text = u.text) : t = u :=
  (t.distinct u [] [] nofun nofun (by rw [h])).1

end SmallC
