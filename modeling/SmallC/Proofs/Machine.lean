/-!
# Machines that run lists of instructions

Both targets are lists of instructions in which some places carry a label, so
both run in the same way. An instruction changes the state and control falls
through to the next one, or control goes on after a label, or the run is over.

Programs are compared with code by contracts. A contract says of a piece of code
what it does to the things that a state represents, in both directions: what the
program can do the code does, and if a run that enters the code ever ends, then
it left the code after doing what the program can do. The second direction is
what makes divergence come out right, and it is why a contract counts steps. The
rest of a run is never longer than the run, and shorter once a branch is taken,
so that a loop can be followed round by round.
-/

namespace SmallC

/-- What an instruction does. -/
inductive Effect (L S : Type) where
  /-- Control goes on with the next instruction. -/
  | fall (s : S)
  /-- Control goes on after a label. -/
  | jump (l : L) (s : S)
  /-- The run ends as it should. -/
  | halt
  /-- The machine gives up, as in a division by zero. -/
  | trap
  /-- The machine does not know what to do. -/
  | stuck

/-- What straight-line code ends with. -/
inductive Outcome (S : Type) where
  | next (s : S)
  | trap
  | stuck

/-- A machine with instructions `I`, labels `L` and states `S`. -/
structure Machine (I L S : Type) where
  /-- The label that an instruction puts at its place. -/
  label? : I → Option L
  effect : I → S → Effect L S

namespace Machine

variable {I L S A : Type}

/-- Runs code without branches to its end. -/
def run (m : Machine I L S) : List I → S → Outcome S
  | [], s => .next s
  | i :: rest, s =>
    match m.effect i s with
    | .fall s' => m.run rest s'
    | .trap => .trap
    | _ => .stuck

section

variable {m : Machine I L S}

theorem run_cons_fall {i : I} {rest : List I} {s s' : S} (h : m.effect i s = .fall s') :
    m.run (i :: rest) s = m.run rest s' := by
  rw [run, h]

theorem run_append_next {code more : List I} {s s' : S} (h : m.run code s = .next s') :
    m.run (code ++ more) s = m.run more s' := by
  induction code generalizing s with
  | nil => cases h; rfl
  | cons i rest ih =>
      rw [List.cons_append, run]
      rw [run] at h
      cases hi : m.effect i s with
      | fall s'' => rw [hi] at h; exact ih h
      | jump l s'' => rw [hi] at h; cases h
      | halt => rw [hi] at h; cases h
      | trap => rw [hi] at h; cases h
      | stuck => rw [hi] at h; cases h

theorem run_append_trap {code more : List I} {s : S} (h : m.run code s = .trap) :
    m.run (code ++ more) s = .trap := by
  induction code generalizing s with
  | nil => cases h
  | cons i rest ih =>
      rw [List.cons_append, run]
      rw [run] at h
      cases hi : m.effect i s with
      | fall s' => rw [hi] at h; exact ih h
      | jump l s' => rw [hi] at h; cases h
      | halt => rw [hi] at h; cases h
      | trap => rfl
      | stuck => rw [hi] at h; cases h

end

variable [DecidableEq L]

/-- What comes after the first place with a label. -/
def after (m : Machine I L S) (l : L) : List I → Option (List I)
  | [] => none
  | i :: rest => if m.label? i = some l then some rest else m.after l rest

/-- A run that starts with `code`, a tail of `body`, ends after a number of steps, and leads from
one state to another. -/
inductive HaltsIn (m : Machine I L S) (body : List I) : Nat → List I → S → S → Prop where
  | halt {i : I} {rest : List I} {s : S} (effect : m.effect i s = .halt) :
      HaltsIn m body 0 (i :: rest) s s
  | fall {n : Nat} {i : I} {rest : List I} {s s' t : S} (effect : m.effect i s = .fall s')
      (more : HaltsIn m body n rest s' t) : HaltsIn m body (n + 1) (i :: rest) s t
  | jump {n : Nat} {i : I} {rest code : List I} {l : L} {s s' t : S}
      (effect : m.effect i s = .jump l s') (target : m.after l body = some code)
      (more : HaltsIn m body n code s' t) : HaltsIn m body (n + 1) (i :: rest) s t

/-- Some run that starts with `code` ends. -/
def Halts (m : Machine I L S) (body code : List I) (s t : S) : Prop :=
  ∃ n, m.HaltsIn body n code s t

/-- Runs code for a number of steps at most. -/
def runFor (m : Machine I L S) (body : List I) : Nat → List I → S → Option S
  | 0, _, _ | _, [], _ => none
  | n + 1, i :: rest, s =>
    match m.effect i s with
    | .halt => some s
    | .fall s' => m.runFor body n rest s'
    | .jump l s' => (m.after l body).bind fun code => m.runFor body n code s'
    | .trap | .stuck => none

section

variable {m : Machine I L S} {body : List I}

/-- A run ends in one state at most. -/
theorem HaltsIn.unique {n n' : Nat} {code : List I} {s t t' : S} (h : m.HaltsIn body n code s t)
    (h' : m.HaltsIn body n' code s t') : t = t' := by
  induction h generalizing n' with
  | halt effect =>
      cases h' with
      | halt _ => rfl
      | fall effect' _ => rw [effect] at effect'; cases effect'
      | jump effect' _ _ => rw [effect] at effect'; cases effect'
  | fall effect _ ih =>
      cases h' with
      | halt effect' => rw [effect] at effect'; cases effect'
      | fall effect' more =>
          rw [effect] at effect'
          cases effect'
          exact ih more
      | jump effect' _ _ => rw [effect] at effect'; cases effect'
  | jump effect target _ ih =>
      cases h' with
      | halt effect' => rw [effect] at effect'; cases effect'
      | fall effect' _ => rw [effect] at effect'; cases effect'
      | jump effect' target' more =>
          rw [effect] at effect'
          cases effect'
          rw [target] at target'
          cases target'
          exact ih more

theorem Halts.unique {code : List I} {s t t' : S} (h : m.Halts body code s t)
    (h' : m.Halts body code s t') : t = t' := by
  obtain ⟨n, hn⟩ := h
  obtain ⟨n', hn'⟩ := h'
  exact hn.unique hn'

theorem Halts.of_runFor {n : Nat} {code : List I} {s t : S}
    (h : m.runFor body n code s = some t) : m.Halts body code s t := by
  induction n generalizing code s with
  | zero => cases h
  | succ n ih =>
      cases code with
      | nil => cases h
      | cons i rest =>
          rw [runFor] at h
          cases hi : m.effect i s with
          | halt =>
              rw [hi] at h
              cases h
              exact ⟨0, .halt hi⟩
          | fall s' =>
              rw [hi] at h
              obtain ⟨k, hk⟩ := ih h
              exact ⟨k + 1, .fall hi hk⟩
          | jump l s' =>
              rw [hi] at h
              obtain ⟨code, hcode, h⟩ := Option.bind_eq_some_iff.1 h
              obtain ⟨k, hk⟩ := ih h
              exact ⟨k + 1, .jump hi hcode hk⟩
          | trap => rw [hi] at h; cases h
          | stuck => rw [hi] at h; cases h

/-- No place in the code carries the label. -/
def Avoids (m : Machine I L S) (l : L) (code : List I) : Prop := ∀ i ∈ code, m.label? i ≠ some l

omit [DecidableEq L] in
theorem avoids_append {l : L} {code more : List I} :
    m.Avoids l (code ++ more) ↔ m.Avoids l code ∧ m.Avoids l more :=
  List.forall_mem_append

omit [DecidableEq L] in
theorem avoids_cons {l : L} {i : I} {code : List I} :
    m.Avoids l (i :: code) ↔ m.label? i ≠ some l ∧ m.Avoids l code :=
  List.forall_mem_cons

theorem after_of_label {l : L} {pre rest : List I} {i : I} (hpre : m.Avoids l pre)
    (hi : m.label? i = some l) : m.after l (pre ++ i :: rest) = some rest := by
  induction pre with
  | nil => simp [after, hi]
  | cons j pre ih =>
      obtain ⟨hj, hpre⟩ := avoids_cons.1 hpre
      rw [List.cons_append, after, if_neg hj]
      exact ih hpre

/-! ## Runs through straight-line code -/

theorem HaltsIn.of_run {n : Nat} {code rest : List I} {s s' t : S} (h : m.run code s = .next s')
    (hrest : m.HaltsIn body n rest s' t) : m.HaltsIn body (n + code.length) (code ++ rest) s t := by
  induction code generalizing s with
  | nil => cases h; exact hrest
  | cons i code ih =>
      rw [run] at h
      cases hi : m.effect i s with
      | fall s'' => rw [hi] at h; exact .fall hi (ih h)
      | jump l s'' => rw [hi] at h; cases h
      | halt => rw [hi] at h; cases h
      | trap => rw [hi] at h; cases h
      | stuck => rw [hi] at h; cases h

/-- A run that ends gets through straight-line code, and its rest is no longer. -/
theorem HaltsIn.after_run {n : Nat} {code rest : List I} {s t : S}
    (h : m.HaltsIn body n (code ++ rest) s t) (hne : m.run code s ≠ .stuck) :
    ∃ s' n', m.run code s = .next s' ∧ n' ≤ n ∧ m.HaltsIn body n' rest s' t := by
  induction code generalizing s n with
  | nil => exact ⟨s, n, rfl, Nat.le_refl n, h⟩
  | cons i code ih =>
      rw [run] at hne ⊢
      cases h with
      | halt effect => rw [effect] at hne; exact absurd rfl hne
      | fall effect more =>
          rw [effect] at hne ⊢
          obtain ⟨s', n', hrun, hle, hrest⟩ := ih more hne
          exact ⟨s', n', hrun, Nat.le_succ_of_le hle, hrest⟩
      | jump effect _ _ => rw [effect] at hne; exact absurd rfl hne

/-- From instruction `i`, which `rest` comes after, control goes on at `code`. -/
def Goes (m : Machine I L S) (body : List I) (i : I) (rest : List I) (s s' : S)
    (code : List I) : Prop :=
  (m.effect i s = .fall s' ∧ code = rest) ∨
    ∃ l, m.effect i s = .jump l s' ∧ m.after l body = some code

theorem HaltsIn.of_goes {n : Nat} {i : I} {rest code : List I} {s s' t : S}
    (h : m.Goes body i rest s s' code) (hn : m.HaltsIn body n code s' t) :
    m.HaltsIn body (n + 1) (i :: rest) s t := by
  rcases h with ⟨heff, rfl⟩ | ⟨l, heff, hl⟩
  · exact .fall heff hn
  · exact .jump heff hl hn

theorem HaltsIn.after_goes {n : Nat} {i : I} {rest code : List I} {s s' t : S}
    (hn : m.HaltsIn body n (i :: rest) s t) (h : m.Goes body i rest s s' code) :
    ∃ n', n' < n ∧ m.HaltsIn body n' code s' t := by
  rcases h with ⟨heff, rfl⟩ | ⟨l, heff, hl⟩
  · cases hn with
    | halt effect => rw [heff] at effect; cases effect
    | fall effect more =>
        rw [heff] at effect
        cases effect
        exact ⟨_, Nat.lt_succ_self _, more⟩
    | jump effect _ _ => rw [heff] at effect; cases effect
  · cases hn with
    | halt effect => rw [heff] at effect; cases effect
    | fall effect _ => rw [heff] at effect; cases effect
    | jump effect target more =>
        rw [heff] at effect
        cases effect
        rw [hl] at target
        cases target
        exact ⟨_, Nat.lt_succ_self _, more⟩

/-! ## Contracts -/

/-- The code from `entry` to `exit` does `act` to what the states represent. -/
structure Implements (m : Machine I L S) (body : List I) (rep : A → S → Prop)
    (act : A → A → Prop) (entry exit : List I) : Prop where
  forward {a b : A} {s : S} : rep a s → act a b →
    ∃ s', rep b s' ∧ ∀ t, m.Halts body exit s' t → m.Halts body entry s t
  backward {a : A} {s t : S} {n : Nat} : rep a s → m.HaltsIn body n entry s t →
    ∃ b s' n', act a b ∧ rep b s' ∧ n' ≤ n ∧ m.HaltsIn body n' exit s' t

/-- The code from `entry` goes on at `yes` or at `no` as `test` says, and traps where `test` says
nothing. -/
structure Decides (m : Machine I L S) (body : List I) (rep : A → S → Prop)
    (test : A → Option Bool) (entry yes no : List I) : Prop where
  forward {a : A} {b : Bool} {s : S} : rep a s → test a = some b →
    ∃ s', rep a s' ∧ ∀ t, m.Halts body (if b then yes else no) s' t → m.Halts body entry s t
  backward {a : A} {s t : S} {n : Nat} : rep a s → m.HaltsIn body n entry s t →
    ∃ b s' n', test a = some b ∧ rep a s' ∧ n' < n ∧
      m.HaltsIn body n' (if b then yes else no) s' t

/-- One action after another. -/
def andThen (first second : A → A → Prop) (a c : A) : Prop := ∃ b, first a b ∧ second b c

omit [DecidableEq L] in
theorem andThen_skip (act : A → A → Prop) : andThen act Eq = act := by
  funext a b
  refine propext ⟨?_, fun hab => ⟨b, hab, rfl⟩⟩
  rintro ⟨b, hab, rfl⟩
  exact hab

omit [DecidableEq L] in
theorem skip_andThen (act : A → A → Prop) : andThen Eq act = act := by
  funext a b
  refine propext ⟨?_, fun hab => ⟨a, rfl, hab⟩⟩
  rintro ⟨a, rfl, hab⟩
  exact hab

/-- One of two actions. -/
def choose (test : A → Option Bool) (yes no : A → A → Prop) (a b : A) : Prop :=
  ∃ c, test a = some c ∧ if c then yes a b else no a b

/-- An action for as long as a test holds. -/
inductive Loop (test : A → Option Bool) (act : A → A → Prop) : A → A → Prop where
  | done {a : A} (fails : test a = some false) : Loop test act a a
  | again {a b c : A} (holds : test a = some true) (first : act a b) (more : Loop test act b c) :
      Loop test act a c

variable {rep : A → S → Prop} {act first second : A → A → Prop} {test : A → Option Bool}
  {entry middle exit yes no : List I}

theorem Implements.refl (m : Machine I L S) (body : List I) (rep : A → S → Prop)
    (code : List I) : m.Implements body rep Eq code code where
  forward := by
    rintro a b s hs rfl
    exact ⟨s, hs, fun t ht => ht⟩
  backward := by
    intro a s t n hs h
    exact ⟨a, s, n, rfl, hs, Nat.le_refl n, h⟩

theorem Implements.congr (h : m.Implements body rep first entry exit)
    (heq : ∀ a b, first a b ↔ second a b) : m.Implements body rep second entry exit where
  forward := fun hs hab => h.forward hs ((heq _ _).2 hab)
  backward := by
    intro a s t n hs hn
    obtain ⟨b, s', n', hab, hrest⟩ := h.backward hs hn
    exact ⟨b, s', n', (heq a b).1 hab, hrest⟩

theorem Implements.trans (h : m.Implements body rep first entry middle)
    (h' : m.Implements body rep second middle exit) :
    m.Implements body rep (andThen first second) entry exit where
  forward := by
    rintro a c s hs ⟨b, hab, hbc⟩
    obtain ⟨s', hs', hback⟩ := h.forward hs hab
    obtain ⟨s'', hs'', hback'⟩ := h'.forward hs' hbc
    exact ⟨s'', hs'', fun t ht => hback t (hback' t ht)⟩
  backward := by
    intro a s t n hs hn
    obtain ⟨b, s', n', hab, hs', hle, hn'⟩ := h.backward hs hn
    obtain ⟨c, s'', n'', hbc, hs'', hle', hn''⟩ := h'.backward hs' hn'
    exact ⟨c, s'', n'', ⟨b, hab, hbc⟩, hs'', Nat.le_trans hle' hle, hn''⟩

/-- Code that does nothing can be put in front. -/
theorem Implements.skip_left (h : m.Implements body rep Eq entry middle)
    (h' : m.Implements body rep act middle exit) : m.Implements body rep act entry exit := by
  have htrans := h.trans h'
  rw [skip_andThen] at htrans
  exact htrans

/-- Code that does nothing can be put behind. -/
theorem Implements.skip_right (h : m.Implements body rep act entry middle)
    (h' : m.Implements body rep Eq middle exit) : m.Implements body rep act entry exit := by
  have htrans := h.trans h'
  rw [andThen_skip] at htrans
  exact htrans

/-- An instruction that only decides where control goes on. -/
theorem Implements.goes {i : I} {rest code : List I} (h : ∀ s, m.Goes body i rest s s code) :
    m.Implements body rep Eq (i :: rest) code where
  forward := by
    rintro a b s hs rfl
    refine ⟨s, hs, fun t ht => ?_⟩
    obtain ⟨n, hn⟩ := ht
    exact ⟨n + 1, .of_goes (h s) hn⟩
  backward := by
    intro a s t n hs hn
    obtain ⟨n', hlt, hn'⟩ := hn.after_goes (h s)
    exact ⟨a, s, n', rfl, hs, by omega, hn'⟩

/-- A branch that is always taken. -/
theorem Implements.branch {i : I} {l : L} {rest code : List I}
    (hi : ∀ s, m.effect i s = .jump l s) (hl : m.after l body = some code) :
    m.Implements body rep Eq (i :: rest) code :=
  .goes fun s => .inr ⟨l, hi s, hl⟩

/-- Instructions that do nothing. -/
theorem Implements.skip {code rest : List I} (h : ∀ i ∈ code, ∀ s, m.effect i s = .fall s) :
    m.Implements body rep Eq (code ++ rest) rest := by
  induction code with
  | nil => exact .refl m body rep rest
  | cons i code ih =>
      have hi := h i List.mem_cons_self
      refine Implements.skip_left (.goes fun s => .inl ⟨hi s, rfl⟩) ?_
      exact ih fun j hj => h j (List.mem_cons_of_mem _ hj)

/-- Straight-line code does what a partial function says, if it traps where the function has no
value. -/
theorem Implements.straight {code rest : List I} {f : A → Option A}
    (hnext : ∀ a b s, rep a s → f a = some b → ∃ s', m.run code s = .next s' ∧ rep b s')
    (htrap : ∀ a s, rep a s → f a = none → m.run code s = .trap) :
    m.Implements body rep (fun a b => f a = some b) (code ++ rest) rest where
  forward := by
    intro a b s hs hab
    obtain ⟨s', hrun, hs'⟩ := hnext a b s hs hab
    refine ⟨s', hs', fun t ht => ?_⟩
    obtain ⟨n, hn⟩ := ht
    exact ⟨n + code.length, .of_run hrun hn⟩
  backward := by
    intro a s t n hs h
    cases hf : f a with
    | none =>
        have hrun := htrap a s hs hf
        obtain ⟨s', n', hnot, -⟩ := h.after_run (by rw [hrun]; simp)
        rw [hrun] at hnot
        cases hnot
    | some b =>
        obtain ⟨s', hrun, hs'⟩ := hnext a b s hs hf
        obtain ⟨s'', n', hrun', hle, hrest⟩ := h.after_run (by rw [hrun]; simp)
        rw [hrun] at hrun'
        cases hrun'
        exact ⟨b, s', n', rfl, hs', hle, hrest⟩

theorem Implements.choose (hd : m.Decides body rep test entry yes no)
    (hyes : m.Implements body rep first yes exit) (hno : m.Implements body rep second no exit) :
    m.Implements body rep (choose test first second) entry exit where
  forward := by
    rintro a b s hs ⟨c, hc, hab⟩
    obtain ⟨s', hs', hback⟩ := hd.forward hs hc
    cases c with
    | true =>
        obtain ⟨s'', hs'', hback'⟩ := hyes.forward hs' hab
        exact ⟨s'', hs'', fun t ht => hback t (hback' t ht)⟩
    | false =>
        obtain ⟨s'', hs'', hback'⟩ := hno.forward hs' hab
        exact ⟨s'', hs'', fun t ht => hback t (hback' t ht)⟩
  backward := by
    intro a s t n hs hn
    obtain ⟨c, s', n', hc, hs', hlt, hn'⟩ := hd.backward hs hn
    cases c with
    | true =>
        obtain ⟨b, s'', n'', hab, hs'', hle, hn''⟩ := hyes.backward hs' hn'
        exact ⟨b, s'', n'', ⟨true, hc, hab⟩, hs'', by omega, hn''⟩
    | false =>
        obtain ⟨b, s'', n'', hab, hs'', hle, hn''⟩ := hno.backward hs' hn'
        exact ⟨b, s'', n'', ⟨false, hc, hab⟩, hs'', by omega, hn''⟩

/-- A loop whose body leads back to its test. -/
theorem Implements.loop (hd : m.Decides body rep test entry yes exit)
    (hbody : m.Implements body rep act yes entry) :
    m.Implements body rep (Loop test act) entry exit where
  forward := by
    intro a c s hs hac
    induction hac generalizing s with
    | done fails => exact hd.forward hs fails
    | again holds first _ ih =>
        obtain ⟨s₁, hs₁, hback₁⟩ := hd.forward hs holds
        obtain ⟨s₂, hs₂, hback₂⟩ := hbody.forward hs₁ first
        obtain ⟨s₃, hs₃, hback₃⟩ := ih hs₂
        exact ⟨s₃, hs₃, fun t ht => hback₁ t (hback₂ t (hback₃ t ht))⟩
  backward := by
    intro a s t n
    -- Each round takes a branch, so what is left of the run is shorter.
    induction n using Nat.strongRecOn generalizing a s with
    | _ n ih =>
        intro hs hn
        obtain ⟨c, s₁, n₁, hc, hs₁, hlt, hn₁⟩ := hd.backward hs hn
        cases c with
        | false => exact ⟨a, s₁, n₁, .done hc, hs₁, by omega, hn₁⟩
        | true =>
            obtain ⟨b, s₂, n₂, hab, hs₂, hle, hn₂⟩ := hbody.backward hs₁ hn₁
            obtain ⟨c, s₃, n₃, hbc, hs₃, hle', hn₃⟩ := ih n₂ (by omega) hs₂ hn₂
            exact ⟨c, s₃, n₃, .again hc hab hbc, hs₃, by omega, hn₃⟩

/-- Straight-line code that computes a test, and an instruction that branches on it. -/
theorem Decides.straight {code rest : List I} {i : I}
    (hnext : ∀ a b s, rep a s → test a = some b → ∃ s' s'', m.run code s = .next s' ∧
      rep a s'' ∧ m.Goes body i rest s' s'' (if b then yes else no))
    (htrap : ∀ a s, rep a s → test a = none → m.run code s = .trap) :
    m.Decides body rep test (code ++ i :: rest) yes no where
  forward := by
    intro a b s hs hb
    obtain ⟨s', s'', hrun, hs'', hgoes⟩ := hnext a b s hs hb
    refine ⟨s'', hs'', fun t ht => ?_⟩
    obtain ⟨n, hn⟩ := ht
    exact ⟨_, .of_run hrun (.of_goes hgoes hn)⟩
  backward := by
    intro a s t n hs h
    cases hb : test a with
    | none =>
        have hrun := htrap a s hs hb
        obtain ⟨s', n', hnot, -⟩ := h.after_run (by rw [hrun]; simp)
        rw [hrun] at hnot
        cases hnot
    | some b =>
        obtain ⟨s', s'', hrun, hs'', hgoes⟩ := hnext a b s hs hb
        obtain ⟨s₁, n₁, hrun₁, hle, h₁⟩ := h.after_run (by rw [hrun]; simp)
        rw [hrun] at hrun₁
        cases hrun₁
        obtain ⟨n₂, hlt, h₂⟩ := h₁.after_goes hgoes
        exact ⟨b, s'', n₂, rfl, hs'', by omega, h₂⟩

/-! ## Runs that end -/

/-- Where control leaves the code at an instruction that ends the run, what the code does is what
runs end with. -/
theorem Implements.ends {i : I} {rest : List I} {a b : A} {s : S}
    (h : m.Implements body rep act entry (i :: rest))
    (hi : ∀ a s, rep a s → m.effect i s = .halt) (hs : rep a s) (hab : act a b) :
    ∃ t, m.Halts body entry s t ∧ rep b t := by
  obtain ⟨s', hs', hback⟩ := h.forward hs hab
  exact ⟨s', hback s' ⟨0, .halt (hi b s' hs')⟩, hs'⟩

theorem Implements.of_ends {i : I} {rest : List I} {a : A} {s t : S}
    (h : m.Implements body rep act entry (i :: rest))
    (hi : ∀ a s, rep a s → m.effect i s = .halt) (hs : rep a s) (ht : m.Halts body entry s t) :
    ∃ b, act a b ∧ rep b t := by
  obtain ⟨n, hn⟩ := ht
  obtain ⟨b, s', n', hab, hs', -, hn'⟩ := h.backward hs hn
  have heff := hi b s' hs'
  cases hn' with
  | halt _ => exact ⟨b, hab, hs'⟩
  | fall effect _ => rw [heff] at effect; cases effect
  | jump effect _ _ => rw [heff] at effect; cases effect

/-! ## Numbered labels -/

/-- The labels in the code have numbers after `n`, up to `n'`. -/
def Numbered (m : Machine I L S) (number : L → Nat) (n n' : Nat) (code : List I) : Prop :=
  ∀ i ∈ code, ∀ l, m.label? i = some l → n < number l ∧ number l ≤ n'

/-- The labels in the code have numbers up to `n`. -/
def Below (m : Machine I L S) (number : L → Nat) (n : Nat) (code : List I) : Prop :=
  ∀ i ∈ code, ∀ l, m.label? i = some l → number l ≤ n

/-- Code with labels numbered from `n` up to `n'` does `act`, wherever it stands, as long as labels
before it have numbers up to `n`. -/
structure Realises (m : Machine I L S) (number : L → Nat) (rep : A → S → Prop)
    (act : A → A → Prop) (n n' : Nat) (code : List I) : Prop where
  le : n ≤ n'
  labels : m.Numbered number n n' code
  implements : ∀ body pre rest, body = pre ++ (code ++ rest) → m.Below number n pre →
    m.Implements body rep act (code ++ rest) rest

variable {number : L → Nat} {n n₁ n₂ : Nat} {code more : List I}

omit [DecidableEq L] in
theorem numbered_append : m.Numbered number n n₁ (code ++ more) ↔
    m.Numbered number n n₁ code ∧ m.Numbered number n n₁ more :=
  List.forall_mem_append

omit [DecidableEq L] in
theorem Numbered.of_none (h : ∀ i ∈ code, m.label? i = none) : m.Numbered number n n₁ code := by
  intro i hi l hl
  rw [h i hi] at hl
  cases hl

omit [DecidableEq L] in
theorem Numbered.mono {k k' : Nat} (h : m.Numbered number n n₁ code) (hk : k ≤ n) (hk' : n₁ ≤ k') :
    m.Numbered number k k' code := by
  intro i hi l hl
  have := h i hi l hl
  omega

omit [DecidableEq L] in
theorem Numbered.avoids {l : L} (h : m.Numbered number n n₁ code) (hl : number l ≤ n) :
    m.Avoids l code := by
  intro i hi heq
  have := h i hi l heq
  omega

omit [DecidableEq L] in
theorem avoids_of_none {l : L} (h : ∀ i ∈ code, m.label? i = none) : m.Avoids l code := by
  intro i hi
  rw [h i hi]
  exact nofun

omit [DecidableEq L] in
theorem Below.avoids {l : L} (h : m.Below number n code) (hl : n < number l) :
    m.Avoids l code := by
  intro i hi heq
  have := h i hi l heq
  omega

omit [DecidableEq L] in
theorem Below.append (h : m.Below number n code) (h' : m.Numbered number n n₁ more)
    (hle : n ≤ n₁) : m.Below number n₁ (code ++ more) := by
  intro i hi l hl
  rcases List.mem_append.1 hi with hi | hi
  · exact Nat.le_trans (h i hi l hl) hle
  · exact (h' i hi l hl).2

theorem Realises.skip (m : Machine I L S) (number : L → Nat) (rep : A → S → Prop) (n : Nat) :
    m.Realises number rep Eq n n [] :=
  ⟨Nat.le_refl n, fun _ hi => (nomatch hi), fun body _ rest _ _ => .refl m body rep rest⟩

theorem Realises.congr (h : m.Realises number rep first n n₁ code)
    (heq : ∀ a b, first a b ↔ second a b) : m.Realises number rep second n n₁ code :=
  ⟨h.le, h.labels, fun body pre rest hbody hpre => (h.implements body pre rest hbody hpre).congr heq⟩

theorem Realises.straight {f : A → Option A} (hlabel : ∀ i ∈ code, m.label? i = none)
    (hnext : ∀ a b s, rep a s → f a = some b → ∃ s', m.run code s = .next s' ∧ rep b s')
    (htrap : ∀ a s, rep a s → f a = none → m.run code s = .trap) :
    m.Realises number rep (fun a b => f a = some b) n n code :=
  ⟨Nat.le_refl n, .of_none hlabel, fun _ _ _ _ _ => .straight hnext htrap⟩

theorem Realises.seq (h : m.Realises number rep first n n₁ code)
    (h' : m.Realises number rep second n₁ n₂ more) :
    m.Realises number rep (andThen first second) n n₂ (code ++ more) := by
  refine ⟨Nat.le_trans h.le h'.le, numbered_append.2 ⟨?_, ?_⟩, fun body pre rest hbody hpre => ?_⟩
  · exact h.labels.mono (Nat.le_refl n) h'.le
  · exact h'.labels.mono h.le (Nat.le_refl n₂)
  · rw [List.append_assoc] at hbody ⊢
    refine (h.implements body pre (more ++ rest) hbody hpre).trans ?_
    refine h'.implements body (pre ++ code) rest (by rw [hbody, List.append_assoc]) ?_
    exact hpre.append h.labels h.le

end

end Machine

end SmallC
