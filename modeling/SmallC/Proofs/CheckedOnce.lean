import SmallC.Compilation
import SmallC.Form.Program

/-!
# Any use of a compilation

What is asked of a compilation is asked in any order and any number of times. The
program is checked once all the same, and after that nothing changes any more: a
second check is refused, and every listing is made from what the first check
found, so that it is the listing of a program that is checked for the purpose.

An answer depends on what was asked before it only through whether there was a
check. So the invariant, `Compilation.Follows`, has nothing else to say about what
was asked: the compilation is as it was started, but for an outcome once there was
a check.
-/

namespace SmallC.Compilation

/-- What can be asked of a compilation. -/
inductive Request where
  | check | analysis | listing
deriving DecidableEq, Repr

/-- What is answered to each kind of request. -/
inductive Answer where
  | checked (result : Except Error Analysis)
  | analysis (found : Option Analysis)
  | listed (result : Except Error Listing)

/-- Answers a request. Only a check leaves another compilation behind. -/
def perform (c : Compilation) : Request → Compilation × Answer
  | .check => (c.check.1, .checked c.check.2)
  | .analysis => (c, .analysis c.analysis?)
  | .listing => (c, .listed c.listing)

/-- The answers to requests made one after the other. -/
def answers : Compilation → List Request → List Answer
  | _, [] => []
  | c, request :: rest => (c.perform request).2 :: answers (c.perform request).1 rest

/-- What is to be answered to a request after some others. The first check has the result of analysing
the program, and every later one is refused. The analysis is there once a check has succeeded. There
is no listing before the first check, and then always the one of the program compiled by itself. -/
def expected (program : Block) (settings : List Setting) (before : List Request) :
    Request → Answer
  | .check =>
    .checked (if .check ∈ before then .error .alreadyChecked
      else (Analysis.ofProgram program).mapError .fault)
  | .analysis =>
    .analysis (if .check ∈ before then (Analysis.ofProgram program).toOption else none)
  | .listing =>
    .listed (if .check ∈ before then compile program settings else .error .notChecked)

variable {program : Block} {settings : List Setting} {c : Compilation}

/-- A compilation as it is after some requests: as it was started, but for what checking found. -/
structure Follows (program : Block) (settings : List Setting) (before : List Request)
    (c : Compilation) : Prop where
  started : start program settings = .ok { c with outcome := none }
  outcome : c.outcome = if .check ∈ before then some (Analysis.ofProgram program) else none

theorem start_ok (h : start program settings = .ok c) : c.program = program ∧ c.outcome = none := by
  cases program with
  | missing => cases h
  | of pos stmts =>
      simp only [start] at h
      cases hconfig : Config.ofSettings settings with
      | error e => rw [hconfig] at h; cases h
      | ok config =>
          rw [hconfig] at h
          cases h
          exact ⟨rfl, rfl⟩

theorem Follows.initial (h : start program settings = .ok c) : Follows program settings [] c := by
  have hnone := (start_ok h).2
  refine ⟨?_, hnone⟩
  rw [h, ← hnone]

/-- The listing of a compilation that was checked is the one of the program compiled by itself, and so
is the fault if there is no listing. -/
theorem listing_eq (h : start program settings = .ok { c with outcome := none })
    (hchecked : c.outcome = some (Analysis.ofProgram program)) :
    c.listing = compile program settings := by
  have hprogram : c.program = program := (start_ok h).1
  rw [compile, h]
  simp only [bind, Except.bind, check, hprogram, listing, hchecked]
  cases Analysis.ofProgram program with
  | error f => rfl
  | ok a => rfl

/-- A compilation that was checked does not change any more. -/
theorem perform_of_checked {outcome : Except Fault Analysis} (h : c.outcome = some outcome)
    (request : Request) : (c.perform request).1 = c := by
  cases request with
  | check => simp only [perform, check, h]
  | analysis => rfl
  | listing => rfl

/-- Each answer is as expected, and what is left behind follows one request more. -/
theorem Follows.perform {before : List Request} (h : Follows program settings before c)
    (request : Request) :
    Follows program settings (before ++ [request]) (c.perform request).1 ∧
      (c.perform request).2 = expected program settings before request := by
  obtain rfl : c.program = program := (start_ok h.started).1
  have houtcome := h.outcome
  by_cases hbefore : .check ∈ before
  · rw [if_pos hbefore] at houtcome
    constructor
    · rw [perform_of_checked houtcome]
      exact ⟨h.started, by rw [houtcome, if_pos (List.mem_append_left _ hbefore)]⟩
    · cases request with
      | check => simp only [Compilation.perform, check, houtcome, expected, if_pos hbefore]
      | analysis =>
          simp only [Compilation.perform, analysis?, houtcome, expected, if_pos hbefore]
          rfl
      | listing =>
          simp only [Compilation.perform, listing_eq h.started houtcome, expected, if_pos hbefore]
  · rw [if_neg hbefore] at houtcome
    cases request with
    | check =>
        simp only [Compilation.perform, check, houtcome, expected, if_neg hbefore]
        exact ⟨⟨h.started, by simp⟩, trivial⟩
    | analysis =>
        simp only [Compilation.perform, analysis?, houtcome, expected, if_neg hbefore]
        exact ⟨⟨h.started, by simp [houtcome, hbefore]⟩, rfl⟩
    | listing =>
        simp only [Compilation.perform, listing, houtcome, expected, if_neg hbefore]
        exact ⟨⟨h.started, by simp [houtcome, hbefore]⟩, trivial⟩

theorem Follows.answers {before : List Request} (h : Follows program settings before c)
    (requests : List Request) :
    c.answers requests =
      requests.mapIdx fun i request => expected program settings (before ++ requests.take i) request := by
  induction requests generalizing before c with
  | nil => rfl
  | cons request rest ih =>
      obtain ⟨hnext, hanswer⟩ := h.perform request
      rw [Compilation.answers, hanswer, ih hnext, List.mapIdx_cons, List.take_zero, List.append_nil]
      simp only [List.take_succ_cons, List.append_assoc, List.singleton_append]

/-- Whatever is asked of a compilation, each answer is the expected one after what was asked before
it. -/
theorem answers_expected (h : start program settings = .ok c) (requests : List Request) :
    c.answers requests =
      requests.mapIdx fun i request => expected program settings (requests.take i) request :=
  (Follows.initial h).answers requests

/-- A program that is not right: the analysis is never there, and a listing is refused in another way
after the check than before it. -/
theorem answers_expected_unknown_name :
    ∃ b c f, Block.parse "(= x 1)" = .ok b ∧ start b [.target .llvm] = .ok c ∧
      Analysis.ofProgram b = .error f ∧
      c.answers [.listing, .analysis, .check, .check, .analysis, .listing] =
        [.listed (.error .notChecked), .analysis none, .checked (.error (.fault f)),
          .checked (.error .alreadyChecked), .analysis none, .listed (compile b [.target .llvm])] := by
  have htext : ((Block.parse "(= x 1)").toOption.any fun b =>
      (start b [.target .llvm]).toOption.isSome && (Analysis.ofProgram b).toOption.isNone) = true := by
    decide +kernel
  cases hb : Block.parse "(= x 1)" with
  | error e => rw [hb] at htext; cases htext
  | ok b =>
      rw [hb] at htext
      obtain ⟨hstart, hfault⟩ := Bool.and_eq_true_iff.1 htext
      cases hc : start b [.target .llvm] with
      | error e => rw [hc] at hstart; cases hstart
      | ok c =>
          cases hf : Analysis.ofProgram b with
          | ok a => rw [hf] at hfault; cases hfault
          | error f =>
              refine ⟨b, c, f, rfl, hc, hf, ?_⟩
              rw [answers_expected hc]
              simp only [expected, hf]
              rfl

end SmallC.Compilation
