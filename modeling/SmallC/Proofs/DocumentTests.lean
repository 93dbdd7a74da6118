import Mathlib.Data.List.Forall2
import SmallC.Golden.Case
import SmallC.Proofs.CheckSteps

/-!
# The tests of a document

Reading a document goes from item to item, keeps the test that it is in, and
hands it over when the next one starts or the document ends. What comes out is
said here without going anywhere: the items are divided where tests start, and
each test is made of what stands under its own heading.

A test should have one program. Of two programs the second is refused, unless the
first one is empty. Then it is as if it had not been given, and the second one
takes its place; so the program of a test is the last one given, and all others
are empty.
-/

namespace SmallC.Golden

/-! ## What a document is made of -/

/-- A block that is said to be in a language, without the newlines at its end. -/
structure Sample where
  line : Nat
  language : String
  content : String
deriving DecidableEq, Repr

/-- The block that an item is, if it is said to be in a language. -/
def Item.sample? : Item → Option Sample
  | .heading _ _ => none
  | .fence line language content =>
    if language.isEmpty then none
    else some ⟨line, language, String.ofList (Text.dropWhileEnd (· = '\n') content.toList)⟩

/-- The blocks among some items that are said to be in a language. -/
def samples (items : List Item) : List Sample := items.filterMap Item.sample?

theorem samples_heading (line : Nat) (text : String) (items : List Item) :
    samples (.heading line text :: items) = samples items :=
  List.filterMap_cons_none rfl

theorem samples_fence (line : Nat) (language content : String) (items : List Item) :
    samples (.fence line language content :: items) =
      if language.isEmpty then samples items
      else ⟨line, language, String.ofList (Text.dropWhileEnd (· = '\n') content.toList)⟩ ::
        samples items := by
  split
  · next h => exact List.filterMap_cons_none (by rw [Item.sample?, if_pos h])
  · next h => exact List.filterMap_cons_some (by rw [Item.sample?, if_neg h])

/-- The programs among some blocks. -/
def inputs (ss : List Sample) : List String :=
  (ss.filter (·.language = inputLanguage)).map (·.content)

/-- The blocks that are no programs. -/
def checks (ss : List Sample) : List Sample := ss.filter (·.language ≠ inputLanguage)

/-- A heading that starts a test. -/
def Item.StartsTest (i : Item) : Prop := ∃ line name, i = .heading line ("Test: " ++ name)

/-- The heading of a test and what stands under it. -/
structure Section where
  line : Nat
  name : String
  body : List Item
deriving DecidableEq, Repr

/-- The items of a section. -/
def Section.items (s : Section) : List Item := .heading s.line ("Test: " ++ s.name) :: s.body

/-- Items divided into those before the first test and the sections of the tests. -/
structure Divides (items preamble : List Item) (sections : List Section) : Prop where
  items : items = preamble ++ sections.flatMap Section.items
  preamble : ∀ i ∈ preamble, ¬ i.StartsTest
  bodies : ∀ s ∈ sections, ∀ i ∈ s.body, ¬ i.StartsTest

/-- Divides items where tests start. -/
def divide : List Item → List Item × List Section
  | [] => ([], [])
  | .fence line language content :: rest =>
    (.fence line language content :: (divide rest).1, (divide rest).2)
  | .heading line text :: rest =>
    match testName? text with
    | some name => ([], ⟨line, name, (divide rest).1⟩ :: (divide rest).2)
    | none => (.heading line text :: (divide rest).1, (divide rest).2)

/-- The block that an assertion is made of. -/
def Assertion.sample (a : Assertion) : Sample := ⟨a.line, a.subject.text, a.content⟩

/-- The test that a section gives. -/
structure Section.Gives (s : Section) (c : Case) : Prop where
  name : c.name = s.name
  line : c.line = s.line
  /-- The last program is the one of the test. -/
  input : (inputs (samples s.body)).getLast? = some c.input
  given : c.input ≠ ""
  /-- A program that another one follows is empty. -/
  replaced : ∀ earlier ∈ (inputs (samples s.body)).dropLast, earlier = ""
  /-- All other blocks are assertions of the test. -/
  assertions : c.assertions.map Assertion.sample = checks (samples s.body)
  checked : c.assertions ≠ []

theorem testName?_eq_some_iff {text name : String} :
    testName? text = some name ↔ text = "Test: " ++ name := by
  have hlist : ∀ name : String, ("Test: " ++ name).toList = testMark ++ name.toList :=
    fun _ => String.toList_append
  unfold testName?
  constructor
  · intro h
    split at h
    · next hprefix =>
        obtain ⟨rest, hrest⟩ := List.isPrefixOf_iff_prefix.1 hprefix
        cases h
        rw [← String.toList_inj, hlist, ← hrest, List.drop_left, String.toList_ofList]
    · cases h
  · rintro rfl
    rw [hlist, if_pos (List.isPrefixOf_iff_prefix.2 (List.prefix_append _ _)),
      List.drop_left, String.ofList_toList]

theorem divides_divide (items : List Item) : Divides items (divide items).1 (divide items).2 := by
  induction items with
  | nil => exact ⟨rfl, by simp [divide], by simp [divide]⟩
  | cons i rest ih =>
      -- An item that starts no test is added to what stands before the first one.
      have hmore : ¬ i.StartsTest → Divides (i :: rest) (i :: (divide rest).1) (divide rest).2 :=
        fun hi => ⟨congrArg (i :: ·) ih.items, List.forall_mem_cons.2 ⟨hi, ih.preamble⟩, ih.bodies⟩
      cases i with
      | fence line language content =>
          exact hmore fun ⟨_, _, heq⟩ => nomatch heq
      | heading line text =>
          rw [divide]
          split
          · next name hname =>
              obtain rfl := testName?_eq_some_iff.1 hname
              exact ⟨congrArg (_ :: ·) ih.items, List.forall_mem_nil _,
                List.forall_mem_cons.2 ⟨ih.preamble, ih.bodies⟩⟩
          · next hname =>
              refine hmore fun ⟨_, name, heq⟩ => ?_
              cases heq
              rw [testName?_eq_some_iff.2 rfl] at hname
              cases hname

/-! ## Reading one test -/

theorem Subject.ofText?_eq_some_iff {language : String} {subject : Subject} :
    ofText? language = some subject ↔ subject.text = language := by
  constructor
  · intro h
    simpa using List.find?_some h
  · rintro rfl
    cases subject <;> decide

namespace Case

/-- What reading some blocks makes of a test. -/
structure Reads (c : Case) (ss : List Sample) (c' : Case) : Prop where
  name : c'.name = c.name
  line : c'.line = c.line
  input : (c.input :: inputs ss).getLast? = some c'.input
  replaced : ∀ earlier ∈ (c.input :: inputs ss).dropLast, earlier = ""
  assertions : ∃ more, c'.assertions = c.assertions ++ more ∧
    more.map Assertion.sample = checks ss

theorem reads_nil {c c' : Case} : c.Reads [] c' ↔ c' = c := by
  constructor
  · rintro ⟨hname, hline, hinput, -, more, hmore, hchecks⟩
    obtain rfl := List.map_eq_nil_iff.1 hchecks
    cases c
    cases c'
    simp_all [inputs]
  · rintro rfl
    exact ⟨rfl, rfl, rfl, by simp [inputs], [], by simp, rfl⟩

/-- A program is read if there is none yet, or only an empty one. -/
theorem reads_input {c c' : Case} {s : Sample} {ss : List Sample}
    (h : s.language = inputLanguage) :
    c.Reads (s :: ss) c' ↔ c.input = "" ∧ Reads { c with input := s.content } ss c' := by
  have hinputs : inputs (s :: ss) = s.content :: inputs ss := by simp [inputs, h]
  have hchecks : checks (s :: ss) = checks ss := by simp [checks, h]
  constructor
  · rintro ⟨hname, hline, hinput, hreplaced, hmore⟩
    rw [hinputs, List.getLast?_cons_cons] at hinput
    rw [hinputs, List.dropLast_cons_cons, List.forall_mem_cons] at hreplaced
    rw [hchecks] at hmore
    exact ⟨hreplaced.1, hname, hline, hinput, hreplaced.2, hmore⟩
  · rintro ⟨hempty, hname, hline, hinput, hreplaced, hmore⟩
    refine ⟨hname, hline, ?_, ?_, by rwa [hchecks]⟩
    · rwa [hinputs, List.getLast?_cons_cons]
    · rw [hinputs, List.dropLast_cons_cons, List.forall_mem_cons]
      exact ⟨hempty, hreplaced⟩

/-- Any other block is read if it is an assertion. -/
theorem reads_check {c c' : Case} {s : Sample} {ss : List Sample}
    (h : s.language ≠ inputLanguage) :
    c.Reads (s :: ss) c' ↔
      ∃ a : Assertion, a.sample = s ∧ Reads { c with assertions := c.assertions ++ [a] } ss c' := by
  have hinputs : inputs (s :: ss) = inputs ss := by simp [inputs, h]
  have hchecks : checks (s :: ss) = s :: checks ss := by simp [checks, h]
  constructor
  · rintro ⟨hname, hline, hinput, hreplaced, more, hmore, hall⟩
    rw [hinputs] at hinput hreplaced
    rw [hchecks] at hall
    obtain ⟨a, rest, rfl, ha, hrest⟩ := List.map_eq_cons_iff.1 hall
    exact ⟨a, ha, hname, hline, hinput, hreplaced, rest, by simp [hmore], hrest⟩
  · rintro ⟨a, ha, hname, hline, hinput, hreplaced, rest, hmore, hrest⟩
    refine ⟨hname, hline, by rwa [hinputs], by rwa [hinputs], a :: rest, by simp [hmore], ?_⟩
    rw [hchecks, List.map_cons, ha, hrest]

theorem finish_eq_ok_iff {c c' : Case} :
    c.finish = .ok c' ↔ c' = c ∧ c.input ≠ "" ∧ c.assertions ≠ [] := by
  unfold finish
  simp only [String.isEmpty_iff, List.isEmpty_iff]
  split
  · next h => simp [h]
  · next h =>
      split
      · next h' => simp [h']
      · next h' => simp [h, h', eq_comm]

/-- Adding a block to a test reads it. -/
theorem addFence_reads {c c' : Case} {line : Nat} {language content : String} {ss : List Sample} :
    (∃ c₁, c.addFence line language content = .ok c₁ ∧ c₁.Reads ss c') ↔
      c.Reads (⟨line, language, String.ofList (Text.dropWhileEnd (· = '\n') content.toList)⟩ :: ss)
        c' := by
  unfold addFence
  dsimp only
  generalize String.ofList (Text.dropWhileEnd (· = '\n') content.toList) = content
  by_cases h : language = inputLanguage
  · subst h
    rw [reads_input rfl, if_pos (beq_self_eq_true inputLanguage)]
    simp only [String.isEmpty_iff]
    split
    · next hempty => simp [hempty]
    · next hgiven => simp [hgiven]
  · rw [reads_check h, if_neg (by simpa using h)]
    constructor
    · rintro ⟨c₁, hadd, hreads⟩
      split at hadd
      · next subject hsubject =>
          cases hadd
          refine ⟨⟨subject, content, line⟩, ?_, hreads⟩
          rw [Assertion.sample, Subject.ofText?_eq_some_iff.1 hsubject]
      · cases hadd
    · rintro ⟨⟨subject, content', line'⟩, hsample, hreads⟩
      cases hsample
      exact ⟨_, by rw [Subject.ofText?_eq_some_iff.2 rfl], hreads⟩

/-- A section gives the test that is read from its blocks, if that has all it needs. -/
theorem gives_iff {s : Section} {c : Case} :
    s.Gives c ↔
      (new s.name s.line).Reads (samples s.body) c ∧ c.input ≠ "" ∧ c.assertions ≠ [] := by
  constructor
  · rintro ⟨hname, hline, hinput, hgiven, hreplaced, hassertions, hchecked⟩
    refine ⟨⟨hname, hline, ?_, ?_, c.assertions, rfl, hassertions⟩, hgiven, hchecked⟩
    all_goals
      cases h : inputs (samples s.body) with
      | nil => rw [h] at hinput; cases hinput
      | cons x xs => rw [h] at hinput hreplaced; simpa [new] using by assumption
  · rintro ⟨⟨hname, hline, hinput, hreplaced, more, hmore, hall⟩, hgiven, hchecked⟩
    cases h : inputs (samples s.body) with
    | nil =>
        rw [h] at hinput
        exact absurd (Option.some.inj hinput).symm hgiven
    | cons x xs =>
        rw [h, List.getLast?_cons_cons] at hinput
        rw [h, List.dropLast_cons_cons, List.forall_mem_cons] at hreplaced
        refine ⟨hname, hline, by rwa [h], hgiven, by rw [h]; exact hreplaced.2, ?_, hchecked⟩
        rwa [hmore]

theorem gives_cons_iff {s : Section} {sections : List Section} {cases : List Case} :
    List.Forall₂ Section.Gives (s :: sections) cases ↔
      ∃ c rest, cases = c :: rest ∧ (new s.name s.line).Reads (samples s.body) c ∧ c.input ≠ "" ∧
        c.assertions ≠ [] ∧ List.Forall₂ Section.Gives sections rest := by
  rw [List.forall₂_cons_left_iff]
  constructor
  · rintro ⟨c, rest, hgives, hrest, rfl⟩
    obtain ⟨hreads, hgiven, hchecked⟩ := gives_iff.1 hgives
    exact ⟨c, rest, rfl, hreads, hgiven, hchecked, hrest⟩
  · rintro ⟨c, rest, rfl, hreads, hgiven, hchecked, hrest⟩
    exact ⟨c, rest, gives_iff.2 ⟨hreads, hgiven, hchecked⟩, hrest, rfl⟩

/-! ## Reading all tests -/

/-- The test that is being read takes the blocks up to the next one, and after it come the tests of
the sections. -/
theorem collect_some_eq_ok_iff {c : Case} {items : List Item} {cases : List Case} :
    collect (some c) items = .ok cases ↔
      ∃ c' rest, cases = c' :: rest ∧ c.Reads (samples (divide items).1) c' ∧ c'.input ≠ "" ∧
        c'.assertions ≠ [] ∧ List.Forall₂ Section.Gives (divide items).2 rest := by
  induction items generalizing c cases with
  | nil =>
      simp only [collect, Except.bind_eq_ok_iff, finish_eq_ok_iff]
      constructor
      · rintro ⟨_, ⟨rfl, hgiven, hchecked⟩, h⟩
        cases h
        exact ⟨_, [], rfl, reads_nil.2 rfl, hgiven, hchecked, .nil⟩
      · rintro ⟨c', rest, rfl, hreads, hgiven, hchecked, hrest⟩
        obtain rfl := reads_nil.1 hreads
        cases hrest
        exact ⟨c', ⟨rfl, hgiven, hchecked⟩, rfl⟩
  | cons i items ih =>
      cases i with
      | fence line language content =>
          rw [collect, divide]
          split
          · next hempty =>
              rw [ih, samples_fence, if_pos hempty]
          · next hgiven =>
              rw [samples_fence, if_neg hgiven]
              simp only [Except.bind_eq_ok_iff, ih, ← addFence_reads]
              constructor
              · rintro ⟨c₁, hadd, c', rest, heq, hreads, hmore⟩
                exact ⟨c', rest, heq, ⟨c₁, hadd, hreads⟩, hmore⟩
              · rintro ⟨c', rest, heq, ⟨c₁, hadd, hreads⟩, hmore⟩
                exact ⟨c₁, hadd, c', rest, heq, hreads, hmore⟩
      | heading line text =>
          rw [collect, divide]
          cases testName? text with
          | none =>
              dsimp only
              rw [ih, samples_heading]
          | some name =>
              -- Here the test ends. It has read all that it reads, and the next one starts.
              dsimp only
              simp only [Except.bind_eq_ok_iff, finish_eq_ok_iff, ih, gives_cons_iff]
              constructor
              · rintro ⟨_, ⟨rfl, hgiven, hchecked⟩, rest, hrest, h⟩
                cases h
                exact ⟨_, rest, rfl, reads_nil.2 rfl, hgiven, hchecked, hrest⟩
              · rintro ⟨c', rest, rfl, hreads, hgiven, hchecked, hrest⟩
                obtain rfl := reads_nil.1 hreads
                exact ⟨c', ⟨rfl, hgiven, hchecked⟩, rest, hrest, rfl⟩

theorem collect_none_eq_ok_iff {items : List Item} {cases : List Case} :
    collect none items = .ok cases ↔
      samples (divide items).1 = [] ∧ List.Forall₂ Section.Gives (divide items).2 cases := by
  induction items with
  | nil =>
      rw [collect, divide, List.forall₂_nil_left_iff]
      simp [samples, eq_comm]
  | cons i items ih =>
      cases i with
      | fence line language content =>
          rw [collect, divide]
          split
          · next hempty =>
              rw [ih, samples_fence, if_pos hempty]
          · next hgiven =>
              rw [samples_fence, if_neg hgiven]
              simp
      | heading line text =>
          rw [collect, divide]
          cases testName? text with
          | none =>
              rw [Option.map_none, ih, samples_heading]
          | some name =>
              rw [Option.map_some, collect_some_eq_ok_iff, gives_cons_iff]
              exact (and_iff_right rfl).symm

/-- Items are divided into those before the first test and one section for each test. Reading them
succeeds exactly if no block in a language stands before the first test and each section gives a
test. These are the tests that are read, one for each section and in their order. -/
theorem collect_eq_ok_iff (items : List Item) :
    Divides items (divide items).1 (divide items).2 ∧
    ∀ cases, collect none items = .ok cases ↔
      samples (divide items).1 = [] ∧ List.Forall₂ Section.Gives (divide items).2 cases :=
  ⟨divides_divide items, fun _ => collect_none_eq_ok_iff⟩

/-- A test with two programs, of which the first one is empty. -/
theorem collect_empty_input :
    let items : List Item := [.heading 1 "Test: a", .fence 1 "minic" "",
      .fence 5 "minic" "(return)\n", .fence 8 "error" "return\n"]
    collect none items = .ok [⟨"a", "(return)", 1, [⟨.fault, "return", 8⟩]⟩] ∧
      (divide items).2.map (fun s => inputs (samples s.body)) = [["", "(return)"]] := by
  decide +kernel

end Case

end SmallC.Golden
