import Mathlib.Data.List.Induction
import SmallC.Form

/-!
# What a text is cut into

The scanner reads one character at a time and remembers what it is in the middle
of. What it does is better said of whole pieces: a comment runs to the end of its
line, a quoted character to the first quote that no backslash stands for, a word
to the next delimiter, and a parenthesis stands for itself. `Token.Cuts` says so,
with no state, and a text is cut in one way only, which is what the scanner does.

From then on the scanner is not looked at any more. That tokens stand in the text
where they say, and in order, and that the text of an atom is one that can be read
again, is an induction over the pieces.
-/

namespace SmallC

/-! ## Places -/

namespace Pos

/-- The place just after some characters read at `p`. -/
def past (p : Pos) (cs : List Char) : Pos := cs.foldl after p

@[simp]
theorem past_nil (p : Pos) : p.past [] = p := rfl

@[simp]
theorem past_cons (p : Pos) (c : Char) (cs : List Char) : p.past (c :: cs) = (p.after c).past cs :=
  rfl

theorem past_append (p : Pos) (cs cs' : List Char) : p.past (cs ++ cs') = (p.past cs).past cs' :=
  List.foldl_append

/-- The characters on the last line of a text. -/
def lastLine (cs : List Char) : List Char := cs.reverse.takeWhile (· ≠ '\n')

/-- A place is the number of lines above it, and the number of characters before it on its line. -/
theorem past_start (cs : List Char) :
    start.past cs = ⟨1 + cs.count '\n', 1 + (lastLine cs).length⟩ := by
  induction cs using List.reverseRecOn with
  | nil => rfl
  | append_singleton cs c ih =>
      rw [past_append, ih, past_cons, past_nil, after]
      by_cases hc : c = '\n'
      · simp [lastLine, hc]
        omega
      · simp [lastLine, hc]
        omega

/-- One place stands before another in the text. -/
def Before (p q : Pos) : Prop := p.line < q.line ∨ p.line = q.line ∧ p.column < q.column

theorem Before.trans {p q r : Pos} (h : p.Before q) (h' : q.Before r) : p.Before r := by
  unfold Before at h h' ⊢
  omega

theorem Before.ne {p q : Pos} (h : p.Before q) : p ≠ q := by
  rintro rfl
  unfold Before at h
  omega

theorem before_after (p : Pos) (c : Char) : p.Before (p.after c) := by
  unfold Before after
  split
  · exact .inl (Int.lt_succ _)
  · exact .inr ⟨rfl, Int.lt_succ _⟩

/-- Reading on from a place leads to a later one. -/
theorem before_past (p : Pos) {cs : List Char} (h : cs ≠ []) : p.Before (p.past cs) := by
  induction cs generalizing p with
  | nil => exact absurd rfl h
  | cons c cs ih =>
      cases cs with
      | nil => exact p.before_after c
      | cons d cs => exact (p.before_after c).trans (ih (p.after c) (by simp))

end Pos

namespace Token

/-! ## The pieces of a text -/

/-- What can stand between the quotes of a quoted character: a backslash takes the character after
it along, and no other backslash or quote is there. -/
inductive Body : List Char → Prop where
  | nil : Body []
  | plain {c : Char} {cs : List Char} (backslash : c ≠ '\\') (quote : c ≠ '\'') (rest : Body cs) :
      Body (c :: cs)
  | escape (c : Char) {cs : List Char} (rest : Body cs) : Body ('\\' :: c :: cs)

/-- The characters of an atom that is not quoted. -/
structure Word (cs : List Char) : Prop where
  nonempty : cs ≠ []
  unquoted : cs.head? ≠ some '\''
  plain : ∀ c ∈ cs, isDelimiter c = false

/-- An atom ends here: at a delimiter or at the end of the text. -/
def Ends (cs : List Char) : Prop := ∀ c, cs.head? = some c → isDelimiter c = true

/-- The tokens of a text that goes on from a place. -/
inductive Cuts : Pos → List Char → List Token → Prop where
  | done (p : Pos) : Cuts p [] []
  | space {p : Pos} {c : Char} {cs : List Char} {ts : List Token} (space : isSpace c = true)
      (rest : Cuts (p.after c) cs ts) : Cuts p (c :: cs) ts
  | comment {p : Pos} {line cs : List Char} {ts : List Token} (line_eq : '\n' ∉ line)
      (ends : ∀ c, cs.head? = some c → c = '\n') (rest : Cuts (p.past ('#' :: line)) cs ts) :
      Cuts p ('#' :: (line ++ cs)) ts
  | opening {p : Pos} {cs : List Char} {ts : List Token} (rest : Cuts (p.after '(') cs ts) :
      Cuts p ('(' :: cs) (.opening p :: ts)
  | closing {p : Pos} {cs : List Char} {ts : List Token} (rest : Cuts (p.after ')') cs ts) :
      Cuts p (')' :: cs) (.closing p :: ts)
  | quoted {p : Pos} {body cs : List Char} {ts : List Token} (between : Body body)
      (rest : Cuts (p.past ('\'' :: (body ++ ['\'']))) cs ts) :
      Cuts p ('\'' :: (body ++ '\'' :: cs))
        (.atom p (String.ofList ('\'' :: (body ++ ['\'']))) :: ts)
  | torn {p : Pos} {body last : List Char} (between : Body body) (stops : last = [] ∨ last = ['\\']) :
      Cuts p ('\'' :: (body ++ last)) [.torn p]
  | word {p : Pos} {w cs : List Char} {ts : List Token} (word : Word w) (ends : Ends cs)
      (rest : Cuts (p.past w) cs ts) : Cuts p (w ++ cs) (.atom p (String.ofList w) :: ts)

/-! ## The scanner -/

section

variable {p start : Pos} {read cs : List Char} {c : Char}

theorem scanFrom_cons (s : State) (p : Pos) (c : Char) (cs : List Char) :
    scanFrom s p (c :: cs) = (step s p c).1 ++ scanFrom (step s p c).2 (p.after c) cs := rfl

theorem scanFrom_space (h : isSpace c = true) :
    scanFrom .between p (c :: cs) = scanFrom .between (p.after c) cs := by
  have hc : c ≠ '#' := by
    rintro rfl
    exact absurd h (by decide)
  rw [scanFrom_cons, step, begin, if_neg hc, if_pos h]
  rfl

theorem begin_word (hc : isDelimiter c = false) (hquote : c ≠ '\'') :
    begin p c = ([], .word p [c]) := by
  simp only [isDelimiter, Bool.or_eq_false_iff, beq_eq_false_iff_ne] at hc
  obtain ⟨⟨⟨hopening, hclosing⟩, hcomment⟩, hspace⟩ := hc
  rw [begin, if_neg hcomment, if_neg (by simp [hspace]), if_neg hopening, if_neg hclosing,
    if_neg hquote]

theorem scanFrom_comment (line : List Char) (h : '\n' ∉ line)
    (hends : ∀ c, cs.head? = some c → c = '\n') :
    scanFrom .comment p (line ++ cs) = scanFrom .between (p.past line) cs := by
  induction line generalizing p with
  | nil =>
      cases cs with
      | nil => rfl
      | cons c cs =>
          cases hends c rfl
          rfl
  | cons c line ih =>
      rw [List.mem_cons, not_or] at h
      obtain ⟨hc, hline⟩ := h
      rw [List.cons_append, scanFrom_cons, step, if_neg (Ne.symm hc)]
      exact ih hline

theorem scanFrom_body {body : List Char} (h : Body body) (read : List Char) :
    scanFrom (.quoted start read) p (body ++ cs) =
      scanFrom (.quoted start (body.reverse ++ read)) (p.past body) cs := by
  induction h generalizing p read with
  | nil => rfl
  | @plain c cs' backslash quote _ ih =>
      rw [List.cons_append, scanFrom_cons, step, if_neg backslash, if_neg quote]
      simpa using ih (p := p.after c) (c :: read)
  | @escape c cs' _ ih =>
      rw [List.cons_append, List.cons_append, scanFrom_cons, step, if_pos rfl]
      simpa [scanFrom_cons, step] using ih (p := (p.after '\\').after c) (c :: '\\' :: read)

theorem scanFrom_word (h : ∀ c ∈ read, isDelimiter c = false) (more : List Char) :
    scanFrom (.word start more) p (read ++ cs) =
      scanFrom (.word start (read.reverse ++ more)) (p.past read) cs := by
  induction read generalizing p more with
  | nil => rfl
  | cons c read ih =>
      obtain ⟨hc, hread⟩ := List.forall_mem_cons.1 h
      rw [List.cons_append, scanFrom_cons, step, hc]
      simpa using ih hread (p := p.after c) (c :: more)

theorem scanFrom_ends (h : Ends cs) :
    scanFrom (.word start read) p cs = ofRead start read :: scanFrom .between p cs := by
  cases cs with
  | nil => rfl
  | cons c cs =>
      rw [scanFrom_cons, scanFrom_cons]
      simp only [step, h c rfl, if_true]
      rfl

end

/-- The way in which a text is cut is what the scanner does. -/
theorem Cuts.eq_scanFrom {p : Pos} {cs : List Char} {ts : List Token} (h : Cuts p cs ts) :
    ts = scanFrom .between p cs := by
  induction h with
  | done p => rfl
  | space hspace _ ih => rw [scanFrom_space hspace, ih]
  | comment hline hends _ ih =>
      rw [scanFrom_cons, ih]
      exact (scanFrom_comment _ hline hends).symm
  | opening _ ih => rw [ih]; rfl
  | closing _ ih => rw [ih]; rfl
  | @quoted p body cs ts hbody _ ih =>
      have hscan : scanFrom .between p ('\'' :: (body ++ '\'' :: cs)) =
          scanFrom (.quoted p ['\'']) (p.after '\'') (body ++ '\'' :: cs) := rfl
      rw [hscan, scanFrom_body hbody, scanFrom_cons, ih, Pos.past_cons, Pos.past_append]
      simp [step, ofRead]
  | @torn p body last hbody hstops =>
      have hscan : scanFrom .between p ('\'' :: (body ++ last)) =
          scanFrom (.quoted p ['\'']) (p.after '\'') (body ++ last) := rfl
      rw [hscan, scanFrom_body hbody]
      rcases hstops with rfl | rfl <;> rfl
  | @word p w cs ts hword hends _ ih =>
      obtain ⟨hne, hquote, hplain⟩ := hword
      cases w with
      | nil => exact absurd rfl hne
      | cons c w =>
          obtain ⟨hc, hw⟩ := List.forall_mem_cons.1 hplain
          rw [List.cons_append, scanFrom_cons, step, begin_word hc (by simpa using hquote)]
          rw [scanFrom_word hw, scanFrom_ends hends, ih]
          simp [ofRead]

/-- The characters up to the end of the line, and what follows. -/
theorem exists_line (cs : List Char) :
    ∃ line more, cs = line ++ more ∧ '\n' ∉ line ∧ ∀ c, more.head? = some c → c = '\n' := by
  induction cs with
  | nil => exact ⟨[], [], rfl, by simp, by simp⟩
  | cons c cs ih =>
      by_cases hc : c = '\n'
      · exact ⟨[], c :: cs, rfl, by simp, by simp [hc]⟩
      · obtain ⟨line, more, rfl, hline, hmore⟩ := ih
        exact ⟨c :: line, more, rfl, by simp [Ne.symm hc, hline], hmore⟩

/-- The characters up to the next delimiter, and what follows. -/
theorem exists_word (cs : List Char) :
    ∃ w more, cs = w ++ more ∧ (∀ c ∈ w, isDelimiter c = false) ∧ Ends more := by
  induction cs with
  | nil => exact ⟨[], [], rfl, by simp, by simp [Ends]⟩
  | cons c cs ih =>
      cases hc : isDelimiter c with
      | true => exact ⟨[], c :: cs, rfl, by simp, by simp [Ends, hc]⟩
      | false =>
          obtain ⟨w, more, rfl, hw, hmore⟩ := ih
          exact ⟨c :: w, more, rfl, by simpa [hc] using hw, hmore⟩

/-- A quoted character is closed, or the text ends in the middle of it. -/
theorem exists_body : ∀ cs : List Char,
    ∃ body, Body body ∧
      ((∃ more, cs = body ++ '\'' :: more) ∨ ∃ last, cs = body ++ last ∧ (last = [] ∨ last = ['\\']))
  | [] => ⟨[], .nil, .inr ⟨[], rfl, .inl rfl⟩⟩
  | [c] => by
      by_cases hslash : c = '\\'
      · exact ⟨[], .nil, .inr ⟨[c], rfl, .inr (by rw [hslash])⟩⟩
      · by_cases hquote : c = '\''
        · exact ⟨[], .nil, .inl ⟨[], by rw [hquote]; rfl⟩⟩
        · exact ⟨[c], .plain hslash hquote .nil, .inr ⟨[], rfl, .inl rfl⟩⟩
  | c :: d :: cs => by
      by_cases hslash : c = '\\'
      · subst hslash
        obtain ⟨body, hbody, h⟩ := exists_body cs
        refine ⟨'\\' :: d :: body, .escape d hbody, ?_⟩
        rcases h with ⟨more, rfl⟩ | ⟨last, rfl, hlast⟩
        · exact .inl ⟨more, rfl⟩
        · exact .inr ⟨last, rfl, hlast⟩
      · by_cases hquote : c = '\''
        · exact ⟨[], .nil, .inl ⟨d :: cs, by rw [hquote]; rfl⟩⟩
        · obtain ⟨body, hbody, h⟩ := exists_body (d :: cs)
          refine ⟨c :: body, .plain hslash hquote hbody, ?_⟩
          rcases h with ⟨more, hmore⟩ | ⟨last, hlast, hstops⟩
          · exact .inl ⟨more, by rw [hmore]; rfl⟩
          · exact .inr ⟨last, by rw [hlast]; rfl, hstops⟩

/-- Every text can be cut. -/
theorem exists_cuts (p : Pos) : ∀ cs : List Char, ∃ ts, Cuts p cs ts
  | [] => ⟨[], .done p⟩
  | c :: cs => by
      by_cases hspace : isSpace c = true
      · obtain ⟨ts, hts⟩ := exists_cuts (p.after c) cs
        exact ⟨ts, .space hspace hts⟩
      by_cases hcomment : c = '#'
      · subst hcomment
        obtain ⟨line, more, rfl, hline, hmore⟩ := exists_line cs
        obtain ⟨ts, hts⟩ := exists_cuts (p.past ('#' :: line)) more
        exact ⟨ts, .comment hline hmore hts⟩
      by_cases hopening : c = '('
      · subst hopening
        obtain ⟨ts, hts⟩ := exists_cuts (p.after '(') cs
        exact ⟨_, .opening hts⟩
      by_cases hclosing : c = ')'
      · subst hclosing
        obtain ⟨ts, hts⟩ := exists_cuts (p.after ')') cs
        exact ⟨_, .closing hts⟩
      by_cases hquote : c = '\''
      · subst hquote
        obtain ⟨body, hbody, ⟨more, rfl⟩ | ⟨last, rfl, hlast⟩⟩ := exists_body cs
        · obtain ⟨ts, hts⟩ := exists_cuts (p.past ('\'' :: (body ++ ['\'']))) more
          exact ⟨_, .quoted hbody hts⟩
        · exact ⟨_, .torn hbody hlast⟩
      · obtain ⟨w, more, rfl, hw, hmore⟩ := exists_word cs
        have hc : isDelimiter c = false := by
          simp [isDelimiter, hopening, hclosing, hcomment, hspace]
        have hword : Word (c :: w) := ⟨by simp, by simpa using hquote, by simpa [hc] using hw⟩
        obtain ⟨ts, hts⟩ := exists_cuts (p.past (c :: w)) more
        exact ⟨_, .word hword hmore hts⟩
termination_by cs => cs.length

/-- A text is cut in one way only. -/
theorem cuts_iff {p : Pos} {cs : List Char} {ts : List Token} :
    Cuts p cs ts ↔ ts = scanFrom .between p cs := by
  constructor
  · exact Cuts.eq_scanFrom
  · rintro rfl
    obtain ⟨ts, hts⟩ := exists_cuts p cs
    rwa [← hts.eq_scanFrom]

/-! ## What tokens are -/

/-- Where a token starts. -/
def pos : Token → Pos
  | opening pos | closing pos | atom pos _ | torn pos => pos

/-- The texts that an atom can have. -/
inductive Legible : String → Prop where
  | word {w : List Char} (word : Word w) : Legible (String.ofList w)
  | quoted {body : List Char} (between : Body body) :
      Legible (String.ofList ('\'' :: (body ++ ['\''])))

theorem Cuts.legible {p : Pos} {cs : List Char} {ts : List Token} (h : Cuts p cs ts) :
    ∀ q text, .atom q text ∈ ts → Legible text := by
  induction h with
  | done p => simp
  | space _ _ ih | comment _ _ _ ih => exact ih
  | opening _ ih | closing _ ih => simpa using ih
  | quoted between _ ih =>
      intro q text hmem
      rcases List.mem_cons.1 hmem with heq | hmem
      · cases heq
        exact .quoted between
      · exact ih q text hmem
  | torn _ _ => simp
  | word word _ _ ih =>
      intro q text hmem
      rcases List.mem_cons.1 hmem with heq | hmem
      · cases heq
        exact .word word
      · exact ih q text hmem

/-- A quoted character without an end is the last token. -/
theorem Cuts.torn_last {p q : Pos} {cs : List Char} {ts before after : List Token}
    (h : Cuts p cs ts) (hts : ts = before ++ .torn q :: after) : after = [] := by
  induction h generalizing before with
  | done p => simp at hts
  | space _ _ ih | comment _ _ _ ih => exact ih hts
  | opening _ ih | closing _ ih | quoted _ _ ih | word _ _ _ ih =>
      cases before with
      | nil => cases hts
      | cons t before => exact ih (List.cons.inj hts).2
  | torn _ _ =>
      cases before with
      | nil => cases hts; rfl
      | cons t before => simp at hts

/-- Tokens of which none stands before a place, and each stands before the next. -/
structure Sorted (p : Pos) (ts : List Token) : Prop where
  later : ∀ t ∈ ts, t.pos = p ∨ p.Before t.pos
  pairs : ts.Pairwise fun t u => t.pos.Before u.pos

theorem Sorted.of_before {p q : Pos} {ts : List Token} (h : Sorted q ts) (hpq : p.Before q) :
    Sorted p ts := by
  refine ⟨fun t ht => .inr ?_, h.pairs⟩
  rcases h.later t ht with heq | hlater
  · rwa [heq]
  · exact hpq.trans hlater

theorem Sorted.cons {p q : Pos} {t : Token} {ts : List Token} (ht : t.pos = p) (h : Sorted q ts)
    (hpq : p.Before q) : Sorted p (t :: ts) := by
  subst ht
  have hbefore : ∀ u ∈ ts, t.pos.Before u.pos := by
    intro u hu
    rcases h.later u hu with heq | hlater
    · rwa [heq]
    · exact hpq.trans hlater
  refine ⟨fun u hu => ?_, List.pairwise_cons.2 ⟨hbefore, h.pairs⟩⟩
  rcases List.mem_cons.1 hu with rfl | hu
  · exact .inl rfl
  · exact .inr (hbefore u hu)

theorem Cuts.sorted {p : Pos} {cs : List Char} {ts : List Token} (h : Cuts p cs ts) :
    Sorted p ts := by
  induction h with
  | done p => exact ⟨by simp, .nil⟩
  | space _ _ ih => exact ih.of_before (Pos.before_after _ _)
  | comment _ _ _ ih => exact ih.of_before (Pos.before_past _ (by simp))
  | opening _ ih | closing _ ih => exact .cons rfl ih (Pos.before_after _ _)
  | quoted _ _ ih => exact .cons rfl ih (Pos.before_past _ (by simp))
  | torn _ _ => exact ⟨by simp [pos], List.pairwise_singleton _ _⟩
  | word word _ _ ih => exact .cons rfl ih (Pos.before_past _ word.nonempty)

/-! ## Where tokens stand -/

/-- Where the first of some tokens is spelled by `w`, they can be told apart from those after them if
that can be done behind it. -/
theorem split_cons {p : Pos} {w cs : List Char} {t : Token} {rest ts us : List Token}
    (hall : t :: rest = ts ++ us) (hcuts : Cuts p (w ++ cs) (t :: rest))
    (hput : ∀ {cs₁ cs₂ ts}, cs = cs₁ ++ cs₂ → Cuts (p.past w) cs₁ ts →
      Cuts p (w ++ cs₁) (t :: ts))
    (ih : ∀ {ts}, rest = ts ++ us →
      ∃ cs₁ cs₂, cs = cs₁ ++ cs₂ ∧ Cuts (p.past w) cs₁ ts ∧ Cuts ((p.past w).past cs₁) cs₂ us) :
    ∃ cs₁ cs₂, w ++ cs = cs₁ ++ cs₂ ∧ Cuts p cs₁ ts ∧ Cuts (p.past cs₁) cs₂ us := by
  cases ts with
  | nil =>
      obtain rfl : t :: rest = us := hall
      exact ⟨[], w ++ cs, rfl, .done p, hcuts⟩
  | cons u ts =>
      obtain ⟨rfl, hrest⟩ := List.cons.inj hall
      obtain ⟨cs₁, cs₂, hcs, h₁, h₂⟩ := ih hrest
      rw [← Pos.past_append] at h₂
      exact ⟨w ++ cs₁, cs₂, by rw [hcs, List.append_assoc], hput hcs h₁, h₂⟩

/-- Tokens that stand side by side are in pieces of the text that stand side by side. -/
theorem Cuts.split {p : Pos} {cs : List Char} {all ts us : List Token} (h : Cuts p cs all)
    (hall : all = ts ++ us) :
    ∃ cs₁ cs₂, cs = cs₁ ++ cs₂ ∧ Cuts p cs₁ ts ∧ Cuts (p.past cs₁) cs₂ us := by
  induction h generalizing ts with
  | done p =>
      obtain ⟨rfl, rfl⟩ := List.nil_eq_append_iff.1 hall
      exact ⟨[], [], rfl, .done p, .done p⟩
  | space space rest ih =>
      obtain ⟨cs₁, cs₂, rfl, h₁, h₂⟩ := ih hall
      exact ⟨_ :: cs₁, cs₂, rfl, .space space h₁, h₂⟩
  | @comment p line cs _ line_eq ends rest ih =>
      obtain ⟨cs₁, cs₂, rfl, h₁, h₂⟩ := ih hall
      rw [← Pos.past_append, List.cons_append] at h₂
      refine ⟨'#' :: (line ++ cs₁), cs₂, by simp, .comment line_eq (fun c hc => ?_) h₁, h₂⟩
      exact ends c (by rw [List.head?_append, hc]; rfl)
  | opening rest ih => exact split_cons (w := ['(']) hall (.opening rest) (fun _ h => .opening h) ih
  | closing rest ih => exact split_cons (w := [')']) hall (.closing rest) (fun _ h => .closing h) ih
  | @quoted p body cs _ between rest ih =>
      have hput : ∀ {cs ts}, Cuts (p.past ('\'' :: (body ++ ['\'']))) cs ts →
          Cuts p (('\'' :: (body ++ ['\''])) ++ cs)
            (.atom p (String.ofList ('\'' :: (body ++ ['\'']))) :: ts) := by
        intro cs ts h
        rw [List.cons_append, List.append_assoc]
        exact .quoted between h
      have hsplit := split_cons hall (hput rest) (fun _ h => hput h) ih
      rwa [List.cons_append, List.append_assoc] at hsplit
  | torn between stops =>
      cases ts with
      | nil => cases hall; exact ⟨[], _, rfl, .done _, .torn between stops⟩
      | cons t ts =>
          obtain ⟨rfl, heq⟩ := List.cons.inj hall
          obtain ⟨rfl, rfl⟩ := List.nil_eq_append_iff.1 heq
          exact ⟨_, [], (List.append_nil _).symm, .torn between stops, .done _⟩
  | word word ends rest ih =>
      refine split_cons hall (.word word ends rest) (fun hcs h => .word word (fun c hc => ?_) h) ih
      exact ends c (by rw [hcs, List.head?_append, hc]; rfl)

/-- The character that a token starts with. -/
def first? : Token → Option Char
  | opening _ => some '('
  | closing _ => some ')'
  | atom _ text => text.toList.head?
  | torn _ => some '\''

/-- In front of a token there is at most what separates tokens. -/
theorem Cuts.head {p : Pos} {cs : List Char} {all ts : List Token} {t : Token} (h : Cuts p cs all)
    (hall : all = t :: ts) :
    ∃ gap c rest, cs = gap ++ c :: rest ∧ t.pos = p.past gap ∧ t.first? = some c ∧
      Cuts t.pos (c :: rest) all := by
  induction h with
  | done p => cases hall
  | @space p c cs ts _ _ ih =>
      obtain ⟨gap, d, rest, rfl, hpos, hfirst, hcuts⟩ := ih hall
      exact ⟨c :: gap, d, rest, rfl, hpos, hfirst, hcuts⟩
  | @comment p line cs ts _ _ _ ih =>
      obtain ⟨gap, d, rest, rfl, hpos, hfirst, hcuts⟩ := ih hall
      refine ⟨'#' :: (line ++ gap), d, rest, by simp, ?_, hfirst, hcuts⟩
      rw [hpos, ← Pos.past_append]
      rfl
  | opening rest _ => cases hall; exact ⟨[], _, _, rfl, rfl, rfl, .opening rest⟩
  | closing rest _ => cases hall; exact ⟨[], _, _, rfl, rfl, rfl, .closing rest⟩
  | quoted between rest _ =>
      cases hall
      exact ⟨[], _, _, rfl, rfl, by simp [first?], .quoted between rest⟩
  | torn between stops => cases hall; exact ⟨[], _, _, rfl, rfl, rfl, .torn between stops⟩
  | @word p w cs ts word ends rest _ =>
      cases hall
      obtain ⟨c, w, rfl⟩ := List.exists_cons_of_ne_nil word.nonempty
      exact ⟨[], c, w ++ cs, rfl, rfl, by simp [first?], .word word ends rest⟩

end Token

end SmallC
