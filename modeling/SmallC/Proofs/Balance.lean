import SmallC.Proofs.Descent

/-!
# Which texts are made of forms

A reader that calls itself for the items of a list and a scanner that counts
parentheses accept the same texts, and find the same fault in the others. The
stack that `Form.assemble` carries along stands between the two: its height is
the count, and what is on it are the calls that have not returned.

On the side of the scanner there is `Token.depth`, which goes up and down and
gives up at the first token that does not fit. On the side of the forms there is
`Form.flatten`, which writes the tokens of a form one after the other. A list
keeps no place for the parenthesis that closes it, and so tokens are compared
without that.
-/

namespace SmallC

namespace Token

/-- How many lists are open after some tokens, where `d` are open before them. There is no answer if
a parenthesis closes nothing or a quoted character has no end. -/
def depth : Nat → List Token → Option Nat
  | d, [] => some d
  | d, .opening _ :: rest => depth (d + 1) rest
  | 0, .closing _ :: _ => none
  | d + 1, .closing _ :: rest => depth d rest
  | d, .atom _ _ :: rest => depth d rest
  | _, .torn _ :: _ => none

/-- Either all tokens fit, or there is a first one that does not. -/
theorem depth_cases (d : Nat) (ts : List Token) :
    (∃ d', depth d ts = some d') ∨
      (∃ before p after, ts = before ++ .closing p :: after ∧ depth d before = some 0) ∨
      ∃ before p after d', ts = before ++ .torn p :: after ∧ depth d before = some d' := by
  induction ts generalizing d with
  | nil => exact .inl ⟨d, rfl⟩
  | cons t ts ih =>
      -- A token that fits in, after which `e` lists are open.
      have hfits : ∀ e, (∀ ts, depth d (t :: ts) = depth e ts) →
          (∃ d', depth d (t :: ts) = some d') ∨
            (∃ before p after, t :: ts = before ++ .closing p :: after ∧
              depth d before = some 0) ∨
            ∃ before p after d', t :: ts = before ++ .torn p :: after ∧
              depth d before = some d' := by
        intro e he
        rcases ih e with ⟨d', h⟩ | ⟨before, p, after, rfl, h⟩ | ⟨before, p, after, d', rfl, h⟩
        · exact .inl ⟨d', (he ts).trans h⟩
        · exact .inr (.inl ⟨t :: before, p, after, rfl, (he before).trans h⟩)
        · exact .inr (.inr ⟨t :: before, p, after, d', rfl, (he before).trans h⟩)
      cases t with
      | opening p => exact hfits (d + 1) fun _ => rfl
      | atom p text => exact hfits d fun ts => by cases d <;> rfl
      | torn p => exact .inr (.inr ⟨[], p, ts, d, rfl, by cases d <;> rfl⟩)
      | closing p =>
          cases d with
          | zero => exact .inr (.inl ⟨[], p, ts, rfl, rfl⟩)
          | succ d => exact hfits d fun _ => rfl

/-- Where lists are left open, the innermost of them was opened among the tokens or before them. -/
theorem exists_unclosed {d e : Nat} {ts : List Token} (h : depth e ts = some (d + 1)) :
    (∃ before p after, ts = before ++ .opening p :: after ∧ depth e before = some d ∧
      depth 0 after = some 0) ∨
      ∃ k, e = k + (d + 1) ∧ depth k ts = some 0 := by
  induction ts generalizing e with
  | nil =>
      have he : e = d + 1 := by cases e <;> exact Option.some.inj h
      exact .inr ⟨0, by omega, rfl⟩
  | cons t ts ih =>
      cases t with
      | opening p =>
          rcases ih (e := e + 1) (by cases e <;> exact h) with
            ⟨before, q, after, rfl, hbefore, hafter⟩ | ⟨k, hk, hts⟩
          · exact .inl ⟨_ :: before, q, after, rfl, by cases e <;> exact hbefore, hafter⟩
          · cases k with
            | zero =>
                obtain rfl : e = d := by omega
                exact .inl ⟨[], p, ts, rfl, by cases e <;> rfl, hts⟩
            | succ k => exact .inr ⟨k, by omega, by cases k <;> exact hts⟩
      | atom p text =>
          rcases ih (e := e) (by cases e <;> exact h) with
            ⟨before, q, after, rfl, hbefore, hafter⟩ | ⟨k, hk, hts⟩
          · exact .inl ⟨_ :: before, q, after, rfl, by cases e <;> exact hbefore, hafter⟩
          · exact .inr ⟨k, hk, by cases k <;> exact hts⟩
      | torn p => cases e <;> cases h
      | closing p =>
          cases e with
          | zero => cases h
          | succ e =>
              rcases ih (e := e) h with ⟨before, q, after, rfl, hbefore, hafter⟩ | ⟨k, hk, hts⟩
              · exact .inl ⟨_ :: before, q, after, rfl, hbefore, hafter⟩
              · exact .inr ⟨k + 1, by omega, hts⟩

/-- A token without what a list does not keep. -/
def loose : Token → Token
  | closing _ => closing .nowhere
  | t => t

end Token

namespace Form

open Token

/-- What holds of a list if it holds of its items, and of every atom, holds of every form. -/
@[elab_as_elim]
theorem induct {P : Form → Prop} (atom : ∀ pos text, P (atom pos text))
    (list : ∀ pos items, (∀ f ∈ items, P f) → P (list pos items)) (f : Form) : P f :=
  f.rec (motive_1 := P) (motive_2 := fun fs => ∀ f ∈ fs, P f) atom list (by simp)
    fun _ _ hf hfs => List.forall_mem_cons.2 ⟨hf, hfs⟩

mutual

/-- The tokens of a form. -/
def flatten : Form → List Token
  | atom pos text => [.atom pos text]
  | list pos items => .opening pos :: (flattenAll items ++ [.closing .nowhere])

/-- The tokens of forms, one after the other. -/
def flattenAll : List Form → List Token
  | [] => []
  | f :: rest => f.flatten ++ flattenAll rest

end

theorem flattenAll_append (fs gs : List Form) :
    flattenAll (fs ++ gs) = flattenAll fs ++ flattenAll gs := by
  induction fs with
  | nil => rw [flattenAll]; rfl
  | cons f fs ih => rw [List.cons_append, flattenAll, flattenAll, ih, List.append_assoc]

/-! ## From tokens to forms -/

/-- The tokens of what has been put together so far. -/
def opened : List (Pos × List Form) → List Form → List Token
  | [], items => flattenAll items.reverse
  | (pos, outer) :: stack, items => opened stack outer ++ .opening pos :: flattenAll items.reverse

theorem opened_cons (stack : List (Pos × List Form)) (f : Form) (items : List Form) :
    opened stack (f :: items) = opened stack items ++ f.flatten := by
  cases stack with
  | nil => simp [opened, flattenAll_append, flattenAll]
  | cons top stack => simp [opened, flattenAll_append, flattenAll]

theorem assemble_ok {stack : List (Pos × List Form)} {items forms : List Form} {ts : List Token}
    (h : assemble stack items ts = .ok forms) :
    flattenAll forms = opened stack items ++ ts.map loose := by
  induction ts generalizing stack items with
  | nil =>
      cases stack with
      | nil =>
          cases h
          simp [opened]
      | cons top stack => cases h
  | cons t ts ih =>
      cases t with
      | opening p =>
          rw [ih (show assemble ((p, items) :: stack) [] ts = .ok forms from h)]
          simp [opened, flattenAll, loose]
      | atom p text =>
          rw [ih (show assemble stack (atom p text :: items) ts = .ok forms from h), opened_cons]
          simp [flatten, loose]
      | torn p => cases h
      | closing p =>
          cases stack with
          | nil => cases h
          | cons top stack =>
              obtain ⟨start, outer⟩ := top
              rw [ih (show assemble stack (list start items.reverse :: outer) ts = .ok forms from h),
                opened_cons]
              simp [opened, flatten, loose]

theorem loose_eq_atom {t : Token} {p : Pos} {text : String} (h : t.loose = .atom p text) :
    t = .atom p text := by
  cases t <;> first | exact h | cases h

theorem loose_eq_opening {t : Token} {p : Pos} (h : t.loose = .opening p) : t = .opening p := by
  cases t <;> first | exact h | cases h

theorem loose_eq_closing {t : Token} (h : t.loose = .closing .nowhere) : ∃ p, t = .closing p := by
  cases t with
  | closing p => exact ⟨p, rfl⟩
  | _ => cases h

mutual

/-- The tokens of a form are put together to the form. -/
theorem assemble_flatten : ∀ (f : Form) {ts more : List Token},
    ts.map loose = f.flatten ++ more → ∃ rest, rest.map loose = more ∧
      ∀ stack items, assemble stack items ts = assemble stack (f :: items) rest
  | .atom p text, ts, more, h => by
      rw [flatten] at h
      obtain ⟨t, rest, rfl, ht, hrest⟩ := List.map_eq_cons_iff.1 h
      rw [loose_eq_atom ht]
      exact ⟨rest, hrest, fun _ _ => rfl⟩
  | .list p items, ts, more, h => by
      rw [flatten, List.cons_append, List.append_assoc] at h
      obtain ⟨t, rest, rfl, ht, hrest⟩ := List.map_eq_cons_iff.1 h
      obtain ⟨last, hlast, hitems⟩ := assemble_flattenAll items hrest
      obtain ⟨u, rest, rfl, hu, hmore⟩ := List.map_eq_cons_iff.1 hlast
      obtain ⟨q, rfl⟩ := loose_eq_closing hu
      rw [loose_eq_opening ht]
      refine ⟨rest, hmore, fun stack outer => ?_⟩
      rw [assemble, hitems, assemble]
      simp

theorem assemble_flattenAll : ∀ (fs : List Form) {ts more : List Token},
    ts.map loose = flattenAll fs ++ more → ∃ rest, rest.map loose = more ∧
      ∀ stack items, assemble stack items ts = assemble stack (fs.reverse ++ items) rest
  | [], ts, more, h => by
      rw [flattenAll] at h
      exact ⟨ts, h, fun _ _ => rfl⟩
  | f :: fs, ts, more, h => by
      rw [flattenAll, List.append_assoc] at h
      obtain ⟨middle, hmiddle, hf⟩ := assemble_flatten f h
      obtain ⟨rest, hrest, hfs⟩ := assemble_flattenAll fs hmiddle
      refine ⟨rest, hrest, fun stack items => ?_⟩
      rw [hf, hfs]
      simp

end

theorem ofTokens_ok_iff {ts : List Token} {forms : List Form} :
    ofTokens ts = .ok forms ↔ flattenAll forms = ts.map loose := by
  constructor
  · intro h
    have hflat := assemble_ok h
    rwa [opened, List.reverse_nil, flattenAll, List.nil_append] at hflat
  · intro h
    have hall : ts.map loose = flattenAll forms ++ [] := by rw [h, List.append_nil]
    obtain ⟨rest, hrest, hts⟩ := assemble_flattenAll forms hall
    obtain rfl := List.map_eq_nil_iff.1 hrest
    rw [ofTokens, hts]
    simp [assemble]

/-- Tokens that fit leave as many lists open as were opened, and what was open before stays. -/
theorem assemble_depth {before : List Token} {d d' : Nat} (h : depth d before = some d') :
    ∀ (inner outer : List (Pos × List Form)) (items : List Form),
      inner.length = d → ∃ (inner' : List (Pos × List Form)) (items' : List Form),
        inner'.length = d' ∧ ∀ more,
          assemble (inner ++ outer) items (before ++ more) = assemble (inner' ++ outer) items' more := by
  induction before generalizing d with
  | nil =>
      intro inner outer items hd
      refine ⟨inner, items, ?_, fun _ => rfl⟩
      cases d <;> simpa [depth, hd] using h
  | cons t before ih =>
      intro inner outer items hd
      cases t with
      | opening p =>
          exact ih (d := d + 1) (by cases d <;> exact h) ((p, items) :: inner) outer []
            (by simp [hd])
      | atom p text =>
          exact ih (d := d) (by cases d <;> exact h) inner outer (atom p text :: items) hd
      | torn p => cases d <;> cases h
      | closing p =>
          cases d with
          | zero => cases h
          | succ d =>
              cases inner with
              | nil => cases hd
              | cons top inner =>
                  obtain ⟨start, above⟩ := top
                  exact ih h inner outer (list start items.reverse :: above) (Nat.succ.inj hd)

/-- A token that does not fit, or the end, after tokens that do. -/
theorem ofTokens_depth {before : List Token} {d : Nat} (h : depth 0 before = some d) :
    ∃ (stack : List (Pos × List Form)) (items : List Form), stack.length = d ∧ ∀ more,
      ofTokens (before ++ more) = assemble stack items more := by
  obtain ⟨stack, items, hd, hall⟩ := assemble_depth h [] [] [] rfl
  refine ⟨stack, items, hd, fun more => ?_⟩
  have heq := hall more
  rw [List.append_nil, List.append_nil] at heq
  exact heq

theorem ofTokens_balanced {ts : List Token} (h : depth 0 ts = some 0) :
    ∃ forms, ofTokens ts = .ok forms := by
  obtain ⟨stack, items, hd, hall⟩ := ofTokens_depth h
  obtain rfl := List.length_eq_zero_iff.1 hd
  have heq := hall []
  rw [List.append_nil] at heq
  exact ⟨_, heq⟩

theorem ofTokens_unexpected {before after : List Token} {p : Pos} (h : depth 0 before = some 0) :
    ofTokens (before ++ .closing p :: after) = .error (.unexpectedClosing p) := by
  obtain ⟨stack, items, hd, hall⟩ := ofTokens_depth h
  obtain rfl := List.length_eq_zero_iff.1 hd
  exact hall _

theorem ofTokens_torn {before after : List Token} {p : Pos} {d : Nat}
    (h : depth 0 before = some d) :
    ofTokens (before ++ .torn p :: after) = .error (.unterminated p) := by
  obtain ⟨stack, items, -, hall⟩ := ofTokens_depth h
  exact hall _

theorem ofTokens_unclosed {before after : List Token} {p : Pos} {d : Nat}
    (h : depth 0 before = some d) (h' : depth 0 after = some 0) :
    ofTokens (before ++ .opening p :: after) = .error (.missingClosing p) := by
  obtain ⟨stack, items, -, hall⟩ := ofTokens_depth h
  obtain ⟨inner, items', hd, hafter⟩ := assemble_depth h' [] ((p, items) :: stack) [] rfl
  obtain rfl := List.length_eq_zero_iff.1 hd
  have heq := hafter []
  rw [List.append_nil] at heq
  rw [hall, assemble]
  exact heq

/-- How tokens can be put together, or fail to. -/
inductive Outcome : List Token → Except Unbalanced (List Form) → Prop where
  | forms {ts : List Token} {forms : List Form} (balanced : depth 0 ts = some 0) :
      Outcome ts (.ok forms)
  | unexpected {before after : List Token} {p : Pos} (fits : depth 0 before = some 0) :
      Outcome (before ++ .closing p :: after) (.error (.unexpectedClosing p))
  | torn {before after : List Token} {p : Pos} {d : Nat} (fits : depth 0 before = some d) :
      Outcome (before ++ .torn p :: after) (.error (.unterminated p))
  | unclosed {before after : List Token} {p : Pos} {d : Nat} (fits : depth 0 before = some d)
      (balanced : depth 0 after = some 0) :
      Outcome (before ++ .opening p :: after) (.error (.missingClosing p))

theorem ofTokens_outcome (ts : List Token) : Outcome ts (ofTokens ts) := by
  rcases depth_cases 0 ts with
    ⟨d, h⟩ | ⟨before, p, after, rfl, h⟩ | ⟨before, p, after, d, rfl, h⟩
  · cases d with
    | zero =>
        obtain ⟨forms, hforms⟩ := ofTokens_balanced h
        rw [hforms]
        exact .forms h
    | succ d =>
        rcases exists_unclosed h with ⟨before, p, after, rfl, hbefore, hafter⟩ | ⟨k, hk, -⟩
        · rw [ofTokens_unclosed hbefore hafter]
          exact .unclosed hbefore hafter
        · omega
  · rw [ofTokens_unexpected h]
    exact .unexpected h
  · rw [ofTokens_torn h]
    exact .torn h

theorem depth_of_ok {ts : List Token} {forms : List Form} (h : ofTokens ts = .ok forms) :
    depth 0 ts = some 0 := by
  have hout := ofTokens_outcome ts
  rw [h] at hout
  cases hout with
  | forms balanced => exact balanced

/-- What comes out where tokens are put together: the forms that have these tokens if every list is
closed and nothing else, and otherwise the first fault. That is a parenthesis that closes nothing, a
quoted character in which the text ends, or the innermost list that is left open. -/
structure Settles (ts : List Token) (outcome : Except Unbalanced (List Form)) : Prop where
  forms : ∀ forms, outcome = .ok forms ↔ flattenAll forms = ts.map loose
  balanced : (∃ forms, outcome = .ok forms) ↔ depth 0 ts = some 0
  unexpected : ∀ p, outcome = .error (.unexpectedClosing p) ↔
    ∃ before after, ts = before ++ .closing p :: after ∧ depth 0 before = some 0
  unterminated : ∀ p, outcome = .error (.unterminated p) ↔
    ∃ before d, ts = before ++ [.torn p] ∧ depth 0 before = some d
  unclosed : ∀ p, outcome = .error (.missingClosing p) ↔
    ∃ before after d, ts = before ++ .opening p :: after ∧ depth 0 before = some d ∧
      depth 0 after = some 0

theorem ofTokens_settles {ts : List Token}
    (htorn : ∀ before p after, ts = before ++ .torn p :: after → after = []) :
    Settles ts (ofTokens ts) := by
  have hout := ofTokens_outcome ts
  refine ⟨fun forms => ofTokens_ok_iff, ⟨fun ⟨forms, h⟩ => depth_of_ok h, ofTokens_balanced⟩,
    fun p => ⟨fun h => ?_, ?_⟩, fun p => ⟨fun h => ?_, ?_⟩, fun p => ⟨fun h => ?_, ?_⟩⟩
  · rw [h] at hout
    cases hout with
    | unexpected fits => exact ⟨_, _, rfl, fits⟩
  · rintro ⟨before, after, rfl, h⟩
    exact ofTokens_unexpected h
  · rw [h] at hout
    cases hout with
    | torn fits =>
        obtain rfl := htorn _ _ _ rfl
        exact ⟨_, _, rfl, fits⟩
  · rintro ⟨before, d, rfl, h⟩
    exact ofTokens_torn h
  · rw [h] at hout
    cases hout with
    | unclosed fits balanced => exact ⟨_, _, _, rfl, fits, balanced⟩
  · rintro ⟨before, after, d, rfl, h, h'⟩
    exact ofTokens_unclosed h h'

/-- A text is cut into tokens in one way only, and read by going through them from left to right: it
is made of forms if its parentheses are balanced, and then the tokens of the forms are those of the
text. Otherwise the fault is reported that stands in the way. A procedure that calls itself for
every list does the same. -/
theorem read_balanced (text : String) :
    (∀ ts, Token.Cuts .start text.toList ts ↔ ts = Token.scan text) ∧
      Reader.read text = read text ∧ Settles (Token.scan text) (read text) := by
  refine ⟨fun ts => cuts_iff, Reader.read_eq text, ofTokens_settles fun before p after hts => ?_⟩
  exact (cuts_iff.2 rfl).torn_last hts

end Form

end SmallC
