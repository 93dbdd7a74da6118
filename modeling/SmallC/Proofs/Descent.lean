import SmallC.Proofs.Scanning

/-!
# Reading by recursive descent

Here forms are read by a procedure that calls itself: skip what is no token, look
at one character, and then read a list, a quoted character or a word. It never
goes back, and what keeps it from running forever is that every form takes at
least one character along. Each result carries that along, since the call for the
rest of a list starts where the call for an item has ended.

The stack of open lists that `Form.assemble` keeps is the stack of calls of this
procedure. So whatever is on that stack, going through the tokens of a form does
the same as the call for the form, with its result put down or its fault raised.
-/

namespace SmallC

/-- A reader: the characters that have not been read, and where they start. -/
structure Reader where
  pos : Pos
  rest : List Char

namespace Reader

/-- Skips spaces and comments; `comment` says whether it starts in the middle of one. -/
def skip (comment : Bool) (pos : Pos) : List Char → Reader
  | [] => ⟨pos, []⟩
  | c :: rest =>
    if c = '\n' then skip false (pos.after c) rest
    else if comment || c == '#' then skip true (pos.after c) rest
    else if Token.isSpace c then skip false (pos.after c) rest
    else ⟨pos, c :: rest⟩

/-- Reads up to the next delimiter. -/
def word (pos : Pos) : List Char → List Char × Reader
  | [] => ([], ⟨pos, []⟩)
  | c :: rest =>
    if Token.isDelimiter c then ([], ⟨pos, c :: rest⟩)
    else
      let (w, r) := word (pos.after c) rest
      (c :: w, r)

/-- Reads up to the quote that closes a quoted character, if there is one. -/
def quoted (pos : Pos) : List Char → Option (List Char × Reader)
  | [] => none
  | c :: rest =>
    if c = '\\' then
      match rest with
      | [] => none
      | d :: rest => (quoted ((pos.after c).after d) rest).map fun (q, r) => (c :: d :: q, r)
    else if c = '\'' then some ([c], ⟨pos.after c, rest⟩)
    else (quoted (pos.after c) rest).map fun (q, r) => (c :: q, r)

theorem skip_length (comment : Bool) (pos : Pos) (cs : List Char) :
    (skip comment pos cs).rest.length ≤ cs.length := by
  induction cs generalizing comment pos with
  | nil => exact Nat.le_refl _
  | cons c cs ih =>
      unfold skip
      split
      · exact Nat.le_succ_of_le (ih _ _)
      · split
        · exact Nat.le_succ_of_le (ih _ _)
        · split
          · exact Nat.le_succ_of_le (ih _ _)
          · exact Nat.le_refl _

theorem word_length (pos : Pos) (cs : List Char) : (word pos cs).2.rest.length ≤ cs.length := by
  induction cs generalizing pos with
  | nil => exact Nat.le_refl _
  | cons c cs ih =>
      unfold word
      split
      · exact Nat.le_refl _
      · exact Nat.le_succ_of_le (ih _)

theorem quoted_length {pos : Pos} {cs q : List Char} {r : Reader}
    (h : quoted pos cs = some (q, r)) : r.rest.length ≤ cs.length := by
  fun_induction quoted pos cs generalizing q r with
  | case1 => cases h
  | case2 => cases h
  | case3 pos d rest ih =>
      obtain ⟨out, hout, heq⟩ := Option.map_eq_some_iff.1 h
      cases heq
      have hle := ih hout
      simp only [List.length_cons]
      omega
  | case4 => cases h; simp
  | case5 pos c rest _ _ ih =>
      obtain ⟨out, hout, heq⟩ := Option.map_eq_some_iff.1 h
      cases heq
      exact Nat.le_succ_of_le (ih hout)

/-- A form that has been read, and a reader with fewer than `n` characters left. -/
structure Found (n : Nat) where
  form : Form
  reader : Reader
  fewer : reader.rest.length < n

mutual

/-- Reads a form that starts with `c` at `pos`. -/
def form (pos : Pos) (c : Char) (rest : List Char) :
    Except Form.Unbalanced (Found (rest.length + 1)) :=
  if c = ')' then .error (.unexpectedClosing pos)
  else if c = '(' then do
    let ⟨f, r, hr⟩ ← items pos [] (pos.after c) rest
    return ⟨f, r, Nat.lt_succ_of_lt hr⟩
  else if c = '\'' then
    match h : quoted (pos.after c) rest with
    | none => .error (.unterminated pos)
    | some (q, r) => .ok ⟨.atom pos (String.ofList (c :: q)), r, Nat.lt_succ_of_le (quoted_length h)⟩
  else
    .ok ⟨.atom pos (String.ofList (c :: (word (pos.after c) rest).1)), (word (pos.after c) rest).2,
      Nat.lt_succ_of_le (word_length _ _)⟩
termination_by 2 * rest.length + 2

/-- Reads the rest of a list that starts at `start`, where `read` are the items read so far, last
first. -/
def items (start : Pos) (read : List Form) (pos : Pos) (rest : List Char) :
    Except Form.Unbalanced (Found rest.length) :=
  have hskip := skip_length false pos rest
  match h : skip false pos rest with
  | ⟨_, []⟩ => .error (.missingClosing start)
  | ⟨pos', c :: rest'⟩ =>
    have hrest : rest'.length + 1 ≤ rest.length := by
      rw [h] at hskip
      exact hskip
    if c = ')' then .ok ⟨.list start read.reverse, ⟨pos'.after c, rest'⟩, hrest⟩
    else do
      let ⟨f, r, hr⟩ ← form pos' c rest'
      let ⟨l, r', hr'⟩ ← items start (f :: read) r.pos r.rest
      return ⟨l, r', by omega⟩
termination_by 2 * rest.length + 1

end

/-- Reads forms up to the end of the text, where `read` are the forms read so far, last first. -/
def forms (read : List Form) (pos : Pos) (rest : List Char) : Except Form.Unbalanced (List Form) :=
  have hskip := skip_length false pos rest
  match h : skip false pos rest with
  | ⟨_, []⟩ => .ok read.reverse
  | ⟨pos', c :: rest'⟩ => do
    have hrest : rest'.length + 1 ≤ rest.length := by
      rw [h] at hskip
      exact hskip
    let ⟨f, r, hr⟩ ← form pos' c rest'
    forms (f :: read) r.pos r.rest
termination_by rest.length

/-- Reads the forms of a text. -/
def read (text : String) : Except Form.Unbalanced (List Form) := forms [] .start text.toList

/-! ## What the scanner makes of it -/

open Token Form

theorem skip_comment {c : Char} (hc : c ≠ '\n') (pos : Pos) (cs : List Char) :
    skip true pos (c :: cs) = skip true (pos.after c) cs := by
  rw [skip, if_neg hc]
  rfl

theorem skip_space {c : Char} (hc : isSpace c = true) (pos : Pos) (cs : List Char) :
    skip false pos (c :: cs) = skip false (pos.after c) cs := by
  have hhash : c ≠ '#' := by
    rintro rfl
    exact absurd hc (by decide)
  rw [skip, if_neg (c := (false || c == '#') = true) (by simpa using hhash), if_pos hc, ite_self]

theorem skip_stop {c : Char} (hhash : c ≠ '#') (hc : isSpace c = false) (pos : Pos)
    (cs : List Char) : skip false pos (c :: cs) = ⟨pos, c :: cs⟩ := by
  have hline : c ≠ '\n' := by
    rintro rfl
    exact absurd hc (by decide)
  rw [skip, if_neg hline, if_neg (by simpa using hhash), if_neg (by simp [hc])]

theorem scanFrom_skip (pos : Pos) (cs : List Char) :
    scanFrom .between pos cs =
        scanFrom .between (skip false pos cs).pos (skip false pos cs).rest ∧
      scanFrom .comment pos cs =
        scanFrom .between (skip true pos cs).pos (skip true pos cs).rest := by
  induction cs generalizing pos with
  | nil => exact ⟨rfl, rfl⟩
  | cons c cs ih =>
      obtain ⟨hbetween, hcomment⟩ := ih (pos.after c)
      constructor
      · by_cases hhash : c = '#'
        · subst hhash
          exact hcomment
        cases hspace : isSpace c with
        | true =>
            rw [scanFrom_space hspace, skip_space hspace]
            exact hbetween
        | false => rw [skip_stop hhash hspace]
      · by_cases hc : c = '\n'
        · subst hc
          exact hbetween
        · rw [scanFrom_cons, step, if_neg hc, skip_comment hc]
          exact hcomment

/-- After skipping there is the end of the text or the start of a form. -/
theorem skip_head {comment : Bool} {pos pos' : Pos} {c : Char} {cs rest : List Char}
    (h : skip comment pos cs = ⟨pos', c :: rest⟩) : c ≠ '#' ∧ isSpace c = false := by
  induction cs generalizing comment pos with
  | nil => cases h
  | cons d cs ih =>
      unfold skip at h
      split at h
      · exact ih h
      · split at h
        · exact ih h
        · next hhash =>
            split at h
            · exact ih h
            · next hspace =>
                cases h
                simp only [Bool.or_eq_true, not_or, beq_iff_eq] at hhash
                exact ⟨hhash.2, by simpa using hspace⟩

theorem scanFrom_reader_word (start pos : Pos) (more cs : List Char) :
    scanFrom (.word start more) pos cs = ofRead start ((word pos cs).1.reverse ++ more) ::
      scanFrom .between (word pos cs).2.pos (word pos cs).2.rest := by
  induction cs generalizing pos more with
  | nil => rfl
  | cons c cs ih =>
      rw [scanFrom_cons]
      unfold word
      cases hc : isDelimiter c with
      | true => simp [step, hc, scanFrom_cons]
      | false => simpa [step, hc] using ih (pos.after c) (c :: more)

theorem scanFrom_reader_quoted (start pos : Pos) (more cs : List Char) :
    scanFrom (.quoted start more) pos cs =
      match quoted pos cs with
      | none => [.torn start]
      | some (q, r) => ofRead start (q.reverse ++ more) :: scanFrom .between r.pos r.rest := by
  fun_induction quoted pos cs generalizing more with
  | case1 => rfl
  | case2 => rfl
  | case3 pos d rest ih =>
      rw [scanFrom_cons, step, if_pos rfl]
      dsimp only
      rw [List.nil_append, scanFrom_cons, step, List.nil_append, ih]
      cases quoted ((pos.after '\\').after d) rest with
      | none => rfl
      | some out => simp
  | case4 => simp [scanFrom_cons, step]
  | case5 pos c rest hslash hquote ih =>
      rw [scanFrom_cons, step, if_neg hslash, if_neg hquote]
      dsimp only
      rw [List.nil_append, ih]
      cases quoted (pos.after c) rest with
      | none => rfl
      | some out => simp

/-- Going on after a form has been found, where `items` are the forms in front of it. -/
def resume (stack : List (Pos × List Form)) (items : List Form) {n : Nat} (found : Found n) :
    Except Unbalanced (List Form) :=
  assemble stack (found.form :: items) (scanFrom .between found.reader.pos found.reader.rest)

mutual

theorem assemble_form (pos : Pos) (c : Char) (rest : List Char) (hcomment : c ≠ '#')
    (hspace : isSpace c = false) {stack : List (Pos × List Form)} (hstack : c = ')' → stack = [])
    (before : List Form) :
    assemble stack before (scanFrom .between pos (c :: rest)) =
      form pos c rest >>= resume stack before := by
  by_cases hclosing : c = ')'
  · subst hclosing
    rw [form, if_pos rfl, hstack rfl]
    rfl
  by_cases hopening : c = '('
  · subst hopening
    rw [form, if_neg hclosing, if_pos rfl]
    show assemble ((pos, before) :: stack) [] (scanFrom .between (pos.after '(') rest) = _
    rw [assemble_items pos [] (pos.after '(') rest]
    cases items pos [] (pos.after '(') rest with
    | error e => rfl
    | ok found => rfl
  by_cases hquote : c = '\''
  · subst hquote
    rw [form, if_neg hclosing, if_neg hopening, if_pos rfl]
    have hscan := scanFrom_reader_quoted pos (pos.after '\'') ['\''] rest
    show assemble stack before (scanFrom (.quoted pos ['\'']) (pos.after '\'') rest) = _
    split
    · next hquoted =>
        rw [hquoted] at hscan
        rw [hscan]
        rfl
    · next q r hquoted =>
        rw [hquoted] at hscan
        rw [hscan]
        simp only [ofRead, assemble, List.reverse_append, List.reverse_reverse]
        rfl
  · have hplain : isDelimiter c = false := by
      simp [isDelimiter, hopening, hclosing, hcomment, hspace]
    rw [form, if_neg hclosing, if_neg hopening, if_neg hquote, scanFrom_cons, step,
      begin_word hplain hquote, List.nil_append, scanFrom_reader_word]
    simp only [ofRead, assemble, List.reverse_append, List.reverse_reverse]
    rfl
termination_by 2 * rest.length + 2

theorem assemble_items (start : Pos) (read : List Form) (pos : Pos) (rest : List Char)
    (stack : List (Pos × List Form)) (outer : List Form) :
    assemble ((start, outer) :: stack) read (scanFrom .between pos rest) =
      items start read pos rest >>= resume stack outer := by
  have hscan := (scanFrom_skip pos rest).1
  have hlength := skip_length false pos rest
  rw [items]
  split
  · next hskip =>
      rw [hskip] at hscan
      rw [hscan]
      rfl
  · next pos' c rest' hskip =>
      rw [hskip] at hlength hscan
      rw [hscan]
      obtain ⟨hhash, hspace⟩ := skip_head hskip
      have hrest : rest'.length + 1 ≤ rest.length := hlength
      split
      · next hc =>
          subst hc
          rfl
      · next hc =>
          rw [assemble_form pos' c rest' hhash hspace fun h => absurd h hc]
          cases form pos' c rest' with
          | error e => rfl
          | ok found =>
              obtain ⟨f, r, hr⟩ := found
              show assemble ((start, outer) :: stack) (f :: read) (scanFrom .between r.pos r.rest) = _
              rw [assemble_items start (f :: read) r.pos r.rest]
              dsimp only [bind, Except.bind]
              cases items start (f :: read) r.pos r.rest with
              | error e => rfl
              | ok found => rfl
termination_by 2 * rest.length + 1

end

theorem assemble_forms (before : List Form) (pos : Pos) (rest : List Char) :
    assemble [] before (scanFrom .between pos rest) = forms before pos rest := by
  have hscan := (scanFrom_skip pos rest).1
  have hlength := skip_length false pos rest
  rw [forms]
  split
  · next hskip =>
      rw [hskip] at hscan
      rw [hscan]
      rfl
  · next pos' c rest' hskip =>
      rw [hskip] at hlength hscan
      rw [hscan]
      obtain ⟨hhash, hspace⟩ := skip_head hskip
      have hrest : rest'.length + 1 ≤ rest.length := hlength
      rw [assemble_form pos' c rest' hhash hspace fun _ => rfl]
      cases form pos' c rest' with
      | error e => rfl
      | ok found =>
          obtain ⟨f, r, hr⟩ := found
          exact assemble_forms (f :: before) r.pos r.rest
termination_by rest.length

/-- Recursive descent finds the forms of a text, and the fault of a text that has none. -/
theorem read_eq (text : String) : read text = Form.read text :=
  (assemble_forms [] .start text.toList).symm

end Reader

end SmallC
