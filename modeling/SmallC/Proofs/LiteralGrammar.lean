import Mathlib.Data.Nat.Digits.Lemmas
import Mathlib.Data.Set.Subsingleton
import Mathlib.Tactic.IntervalCases
import Mathlib.Tactic.Ring
import SmallC.Literal

/-!
# The grammars of literals

A literal is a word for a truth value, a character in quotes, with a backslash or
without, an integer in one of two bases, or a number with a point or an exponent.
What each of these is, and what it denotes, is said here without a word about the
order in which they are tried. `Literal.decode` accepts what they say and nothing
else, and finds what they denote.

Decoding tries one grammar after the other, and some of its tests accept more than
the grammar they are for: what is tried last would read an integer as well, and
what begins with a quote never gets there. That this makes no difference is
because the grammars share no text. `Grammar.of` tells from the look of a text
which of them is the only one that it can be in.

An integer that is too large is still an integer. So it has no value, rather than
the one it would have as a number with a point.
-/

namespace SmallC.Literal

/-! ## Numerals -/

/-- A digit of a base and its value. The digits above nine are letters, small or capital. -/
def IsDigit (base : Nat) (c : Char) (d : Nat) : Prop :=
  d < base ∧ (c = d.digitChar ∨ c = d.digitChar.toUpper)

/-- Digits, of which there is at least one, and the number that they denote in a base. -/
def Numeral (base : Nat) (cs : List Char) (n : Nat) : Prop :=
  cs ≠ [] ∧ ∃ ds, List.Forall₂ (IsDigit base) cs ds ∧ n = Nat.ofDigits base ds.reverse

/-! ## Texts and what they denote -/

/-- The words for truth values. -/
inductive IsBool : List Char → Bool → Prop where
  | true : IsBool ['t', 'r', 'u', 'e'] true
  | false : IsBool ['f', 'a', 'l', 's', 'e'] false

/-- A character in quotes. -/
inductive IsPlainChar : List Char → Nat → Prop where
  | intro {c : Char} (ascii : c.toNat < 128) (quote : c ≠ '\'') (backslash : c ≠ '\\') :
      IsPlainChar ['\'', c, '\''] c.toNat

/-- What may stand after a backslash, and the character that is meant. -/
def escapes : List (Char × Char) :=
  [('n', '\n'), ('t', '\t'), ('r', '\r'), ('0', '\x00'), ('\\', '\\'), ('\'', '\'')]

/-- A character in quotes that is written with a backslash. -/
inductive IsEscapedChar : List Char → Nat → Prop where
  | intro {e c : Char} (escape : (e, c) ∈ escapes) : IsEscapedChar ['\'', '\\', e, '\''] c.toNat

/-- A hexadecimal integer. -/
inductive IsHexadecimal : List Char → Nat → Prop where
  | intro {mark : Char} {cs : List Char} {n : Nat} (mark_eq : mark = 'x' ∨ mark = 'X')
      (digits : Numeral 16 cs n) : IsHexadecimal ('0' :: mark :: cs) n

/-- A point with the digits after it. Both may be absent. -/
inductive Fraction : List Char → List Char → Prop where
  | absent : Fraction [] []
  | present {ds : List Char} (digits : ∀ c ∈ ds, c.isDigit = true) : Fraction ('.' :: ds) ds

/-- The sign of an exponent, which may be absent. -/
inductive Sign : List Char → Int → Prop where
  | absent : Sign [] 1
  | plus : Sign ['+'] 1
  | minus : Sign ['-'] (-1)

/-- An exponent. It may be absent. Its digits only count up to the bound on exponents. -/
inductive Exponent : List Char → Int → Prop where
  | absent : Exponent [] 0
  | present {mark : Char} {sign ds : List Char} {s : Int} (mark_eq : mark = 'e' ∨ mark = 'E')
      (sign_eq : Sign sign s) (some_digit : ds ≠ []) (digits : ∀ c ∈ ds, c.isDigit = true) :
      Exponent (mark :: (sign ++ ds)) (s * exponentNumber ds)

/-- Digits that may have a point among them and an exponent after them. A digit stands before or after
the point. They denote `n * 10 ^ k`. -/
inductive Scientific : List Char → Nat → Int → Prop where
  | intro {whole point fraction exponent : List Char} {n : Nat} {e : Int}
      (point_eq : Fraction point fraction) (digits : Numeral 10 (whole ++ fraction) n)
      (exponent_eq : Exponent exponent e) :
      Scientific (whole ++ (point ++ exponent)) n (e - fraction.length)

/-- A number with a point or an exponent. -/
structure IsFloat (cs : List Char) (n : Nat) (k : Int) : Prop where
  scientific : Scientific cs n k
  marked : '.' ∈ cs ∨ 'e' ∈ cs ∨ 'E' ∈ cs

/-- The value that a text denotes as a literal. An integer has one up to the largest `int`, and a
floating-point number has the one nearest to it, if that is finite. -/
inductive Denotes : List Char → Value → Prop where
  | bool {cs : List Char} {b : Bool} (reads : IsBool cs b) : Denotes cs (.bool b)
  | plainChar {cs : List Char} {n : Nat} (reads : IsPlainChar cs n) : Denotes cs (.char n)
  | escapedChar {cs : List Char} {n : Nat} (reads : IsEscapedChar cs n) : Denotes cs (.char n)
  | decimal {cs : List Char} {n : Nat} (reads : Numeral 10 cs n) (fits : n ≤ 2 ^ 31 - 1) :
      Denotes cs (.int n)
  | hexadecimal {cs : List Char} {n : Nat} (reads : IsHexadecimal cs n) (fits : n ≤ 2 ^ 31 - 1) :
      Denotes cs (.int n)
  | float {cs : List Char} {n : Nat} {k : Int} {bits : UInt64} (reads : IsFloat cs n k)
      (finite : Decimal.nearestDouble n k = some bits) : Denotes cs (.real bits)

/-- The grammars of literals. -/
inductive Grammar where
  | bool | plainChar | escapedChar | decimal | hexadecimal | float
deriving DecidableEq

/-- Whether a text is in a grammar, be there a value for it or not. -/
def Grammar.Accepts (cs : List Char) : Grammar → Prop
  | bool => ∃ b, IsBool cs b
  | plainChar => ∃ n, IsPlainChar cs n
  | escapedChar => ∃ n, IsEscapedChar cs n
  | decimal => ∃ n, Numeral 10 cs n
  | hexadecimal => ∃ n, IsHexadecimal cs n
  | float => ∃ n k, IsFloat cs n k

/-! ## Digits -/

theorem toNat_of_isDigit {c : Char} (h : c.isDigit = true) : 48 ≤ c.toNat ∧ c.toNat ≤ 57 := by
  simpa [Char.isDigit, UInt32.le_iff_toNat_le] using h

theorem toNat_lt_of_digit? {c : Char} {d : Nat} (h : digit? c = some d) : c.toNat < 128 := by
  unfold digit? at h
  split at h
  · next hc =>
      have := toNat_of_isDigit hc
      omega
  · split at h
    · next hc =>
        have hle : c.toNat ≤ 'f'.toNat := hc.2
        exact Nat.lt_of_le_of_lt hle (by decide)
    · split at h
      · next hc =>
          have hle : c.toNat ≤ 'F'.toNat := hc.2
          exact Nat.lt_of_le_of_lt hle (by decide)
      · cases h

theorem digit?_eq_some_iff {c : Char} {d : Nat} : digit? c = some d ↔ IsDigit 16 c d := by
  constructor
  · intro h
    have hall : ∀ n < 128, ∀ d ∈ digit? (Char.ofNat n), d < 16 ∧
        (Char.ofNat n = d.digitChar ∨ Char.ofNat n = d.digitChar.toUpper) := by
      decide +kernel
    have hc := hall c.toNat (toNat_lt_of_digit? h) d
    rw [Char.ofNat_toNat] at hc
    exact hc h
  · rintro ⟨hd, rfl | rfl⟩ <;> interval_cases d <;> rfl

theorem isDigit_ten_iff {c : Char} {d : Nat} :
    IsDigit 10 c d ↔ c.isDigit = true ∧ digit? c = some d := by
  constructor
  · rintro ⟨hd, rfl | rfl⟩ <;> interval_cases d <;> decide
  · rintro ⟨hc, hd⟩
    have hbounds := toNat_of_isDigit hc
    refine ⟨?_, (digit?_eq_some_iff.1 hd).2⟩
    rw [digit?, if_pos hc] at hd
    have hzero : '0'.toNat = 48 := rfl
    have hvalue := Option.some.inj hd
    omega

theorem isDigit_of_ten {c : Char} {d : Nat} (h : IsDigit 10 c d) : c.isDigit = true :=
  (isDigit_ten_iff.1 h).1

theorem exists_isDigit_ten {c : Char} : (∃ d, IsDigit 10 c d) ↔ c.isDigit = true := by
  refine ⟨fun ⟨d, hd⟩ => isDigit_of_ten hd, fun hc => ⟨c.toNat - '0'.toNat, ?_⟩⟩
  exact isDigit_ten_iff.2 ⟨hc, by rw [digit?, if_pos hc]⟩

theorem exists_isDigit_sixteen {c : Char} :
    (∃ d, IsDigit 16 c d) ↔ (digit? c).isSome = true := by
  simp only [← digit?_eq_some_iff, Option.isSome_iff_exists]

theorem IsDigit.mono {b b' : Nat} {c : Char} {d : Nat} (hb : b ≤ b') (h : IsDigit b c d) :
    IsDigit b' c d :=
  ⟨Nat.lt_of_lt_of_le h.1 hb, h.2⟩

/-- The number that digits denote, by the digits from the first to the last. -/
theorem foldl_digits {base : Nat} (hbase : base ≤ 16) {cs : List Char} {ds : List Nat}
    (h : List.Forall₂ (IsDigit base) cs ds) (n : Nat) :
    cs.foldl (fun n c => base * n + (digit? c).getD 0) n =
      base ^ ds.length * n + Nat.ofDigits base ds.reverse := by
  induction h generalizing n with
  | nil => simp
  | @cons c d cs ds hd _ ih =>
      have hc : digit? c = some d := digit?_eq_some_iff.2 (hd.mono hbase)
      rw [List.foldl_cons, ih, hc, List.reverse_cons, Nat.ofDigits_append, List.length_reverse,
        Nat.ofDigits_singleton, List.length_cons, Option.getD_some]
      ring

theorem exists_digits {base : Nat} {cs : List Char} (h : ∀ c ∈ cs, ∃ d, IsDigit base c d) :
    ∃ ds, List.Forall₂ (IsDigit base) cs ds := by
  induction cs with
  | nil => exact ⟨[], .nil⟩
  | cons c cs ih =>
      obtain ⟨⟨d, hd⟩, hrest⟩ := List.forall_mem_cons.1 h
      obtain ⟨ds, hds⟩ := ih hrest
      exact ⟨d :: ds, .cons hd hds⟩

/-- Digits denote what they add up to from the first to the last. -/
theorem numeral_iff {base : Nat} (hbase : base ≤ 16) {cs : List Char} {n : Nat} :
    Numeral base cs n ↔ cs ≠ [] ∧ (∀ c ∈ cs, ∃ d, IsDigit base c d) ∧ number base cs = n := by
  have hnumber : ∀ ds, List.Forall₂ (IsDigit base) cs ds →
      number base cs = Nat.ofDigits base ds.reverse := by
    intro ds hds
    have hfold := foldl_digits hbase hds 0
    rwa [Nat.mul_zero, Nat.zero_add] at hfold
  refine and_congr_right fun _ => ⟨?_, ?_⟩
  · rintro ⟨ds, hds, rfl⟩
    refine ⟨fun c hc => ?_, hnumber ds hds⟩
    obtain ⟨i, hi, rfl⟩ := List.mem_iff_getElem.1 hc
    exact ⟨_, hds.get hi (hds.length_eq ▸ hi)⟩
  · rintro ⟨hall, rfl⟩
    obtain ⟨ds, hds⟩ := exists_digits hall
    exact ⟨ds, hds, hnumber ds hds⟩

theorem decimal_numeral_iff {cs : List Char} {n : Nat} :
    Numeral 10 cs n ↔ isDecimal cs = true ∧ number 10 cs = n := by
  simp only [numeral_iff (Nat.le_of_ble_eq_true rfl : 10 ≤ 16), exists_isDigit_ten, isDecimal,
    Bool.and_eq_true, Bool.not_eq_true', List.isEmpty_eq_false_iff, List.all_eq_true, and_assoc]

theorem hexadecimal_numeral_iff {cs : List Char} {n : Nat} :
    Numeral 16 cs n ↔
      cs ≠ [] ∧ cs.all (digit? · |>.isSome) = true ∧ number 16 cs = n := by
  simp only [numeral_iff (Nat.le_refl 16), exists_isDigit_sixteen, List.all_eq_true]

/-! ## Each test -/

/-- The test for a hexadecimal integer. -/
theorem isHexadecimal_iff {cs : List Char} {n : Nat} :
    IsHexadecimal cs n ↔ ∃ digits, hexDigits? cs = some digits ∧ number 16 digits = n := by
  constructor
  · rintro ⟨hmark, hdigits⟩
    obtain ⟨hne, hall, hn⟩ := hexadecimal_numeral_iff.1 hdigits
    refine ⟨_, if_pos ⟨hmark, ?_, hall⟩, hn⟩
    simpa using hne
  · rintro ⟨digits, hdigits, hn⟩
    unfold hexDigits? at hdigits
    split at hdigits
    · next mark digits' =>
        split at hdigits
        · next h =>
            cases hdigits
            obtain ⟨hmark, hne, hall⟩ := h
            refine .intro hmark (hexadecimal_numeral_iff.2 ⟨?_, hall, hn⟩)
            simpa using hne
        · cases hdigits
    · cases hdigits

theorem isDecimal_iff {ds : List Char} :
    isDecimal ds = true ↔ ds ≠ [] ∧ ∀ c ∈ ds, c.isDigit = true := by
  simp [isDecimal]

theorem exponent?_iff {cs : List Char} {e : Int} : exponent? cs = some e ↔ Exponent cs e := by
  constructor
  · intro h
    unfold exponent? at h
    split at h
    · cases h
      exact .absent
    · next mark rest =>
        simp only [Option.ite_none_right_eq_some] at h
        obtain ⟨hmark, h⟩ := h
        split at h <;> simp only [Option.ite_none_right_eq_some, Option.some.injEq] at h <;>
          obtain ⟨hdigits, rfl⟩ := h <;> obtain ⟨hne, hall⟩ := isDecimal_iff.1 hdigits
        · have hread := Exponent.present hmark .minus hne hall
          rwa [neg_one_mul] at hread
        · have hread := Exponent.present hmark .plus hne hall
          rwa [one_mul] at hread
        · have hread := Exponent.present hmark .absent hne hall
          rwa [one_mul] at hread
  · rintro (_ | ⟨hmark, hsign, hne, hdigits⟩)
    · rfl
    · have hds := isDecimal_iff.2 ⟨hne, hdigits⟩
      simp only [exponent?, if_pos hmark]
      cases hsign with
      | minus => simp [hds]
      | plus => simp [hds]
      | absent =>
          rw [List.nil_append, one_mul]
          -- A digit is no sign.
          split
          · cases hdigits _ List.mem_cons_self
          · cases hdigits _ List.mem_cons_self
          · rw [if_pos hds]

theorem Exponent.head {cs : List Char} {e : Int} (h : Exponent cs e) :
    ∀ c ∈ cs.head?, c.isDigit = false ∧ c ≠ '.' := by
  intro c hc
  cases h with
  | absent => cases hc
  | present hmark _ _ _ => cases hc; rcases hmark with rfl | rfl <;> decide

theorem takeWhile_isDigit {ds rest : List Char} (hds : ∀ c ∈ ds, c.isDigit = true)
    (hrest : ∀ c ∈ rest.head?, c.isDigit = false) :
    (ds ++ rest).takeWhile Char.isDigit = ds ∧ (ds ++ rest).dropWhile Char.isDigit = rest := by
  rw [List.takeWhile_append_of_pos hds, List.dropWhile_append_of_pos hds]
  cases rest with
  | nil => simp
  | cons c rest => simp [hrest c rfl]

/-- What the last test makes of a text that is taken apart. -/
theorem decimal?_append {whole point fraction rest : List Char}
    (hwhole : ∀ c ∈ whole, c.isDigit = true) (hpoint : Fraction point fraction)
    (hrest : ∀ c ∈ rest.head?, c.isDigit = false) (hdot : point = [] → rest.head? ≠ some '.') :
    decimal? (whole ++ (point ++ rest)) =
      if whole.isEmpty && fraction.isEmpty then none
      else (exponent? rest).map fun e : Int =>
        (number 10 (whole ++ fraction), e - (fraction.length : Int)) := by
  cases hpoint with
  | absent =>
      obtain ⟨htake, hdrop⟩ := takeWhile_isDigit hwhole hrest
      simp only [decimal?, List.nil_append, htake, hdrop]
      split
      · exact absurd rfl (hdot rfl)
      · rw [List.append_nil, List.length_nil]
  | @present fraction hfraction =>
      have hpoint : ∀ c ∈ ('.' :: (fraction ++ rest)).head?, c.isDigit = false := by simp
      obtain ⟨htake, hdrop⟩ := takeWhile_isDigit hwhole hpoint
      obtain ⟨htake', hdrop'⟩ := takeWhile_isDigit hfraction hrest
      simp only [decimal?, List.cons_append, htake, hdrop, htake', hdrop']

/-- Every text can be taken apart like that. -/
theorem exists_parts (cs : List Char) :
    ∃ whole point fraction rest, cs = whole ++ (point ++ rest) ∧
      (∀ c ∈ whole, c.isDigit = true) ∧ Fraction point fraction ∧
      (∀ c ∈ rest.head?, c.isDigit = false) ∧ (point = [] → rest.head? ≠ some '.') := by
  have hall : ∀ cs : List Char, ∀ c ∈ cs.takeWhile Char.isDigit, c.isDigit = true :=
    fun cs => List.all_eq_true.1 List.all_takeWhile
  have hhead : ∀ cs : List Char, ∀ c ∈ (cs.dropWhile Char.isDigit).head?, c.isDigit = false := by
    intro cs c hc
    have := List.head?_dropWhile_not Char.isDigit cs
    rw [Option.mem_def.1 hc] at this
    exact this
  have hcs : cs = cs.takeWhile Char.isDigit ++ cs.dropWhile Char.isDigit :=
    List.takeWhile_append_dropWhile.symm
  by_cases hdot : (cs.dropWhile Char.isDigit).head? = some '.'
  · obtain ⟨rest, hrest⟩ := List.head?_eq_some_iff.1 hdot
    refine ⟨_, _, _, rest.dropWhile Char.isDigit, ?_, hall cs, .present (hall rest), hhead rest,
      fun h => nomatch h⟩
    rw [List.cons_append, List.takeWhile_append_dropWhile, ← hrest]
    exact hcs
  · exact ⟨_, [], [], _, hcs, hall cs, .absent, hhead cs, fun _ => hdot⟩

/-- The last test: digits that may have a point and an exponent. -/
theorem decimal?_iff {cs : List Char} {n : Nat} {k : Int} :
    decimal? cs = some (n, k) ↔ Scientific cs n k := by
  constructor
  · intro h
    obtain ⟨whole, point, fraction, rest, rfl, hwhole, hpoint, hrest, hdot⟩ := exists_parts cs
    rw [decimal?_append hwhole hpoint hrest hdot] at h
    split at h
    · cases h
    · next hempty =>
        obtain ⟨e, he, heq⟩ := Option.map_eq_some_iff.1 h
        cases heq
        refine .intro hpoint (decimal_numeral_iff.2 ⟨isDecimal_iff.2 ⟨?_, ?_⟩, rfl⟩)
          (exponent?_iff.1 he)
        · simpa using hempty
        · refine List.forall_mem_append.2 ⟨hwhole, ?_⟩
          cases hpoint with
          | absent => simp
          | present h => exact h
  · rintro ⟨hpoint, hdigits, hexponent⟩
    obtain ⟨hdecimal, rfl⟩ := decimal_numeral_iff.1 hdigits
    obtain ⟨hne, hall⟩ := isDecimal_iff.1 hdecimal
    rw [decimal?_append (List.forall_mem_append.1 hall).1 hpoint (fun c hc => (hexponent.head c hc).1)
      (fun _ hdot => (hexponent.head _ hdot).2 rfl), exponent?_iff.2 hexponent, if_neg, Option.map_some]
    simpa using hne

theorem escape?_eq_some_iff {e : Char} {n : Nat} :
    escape? e = some n ↔ ∃ c, (e, c) ∈ escapes ∧ c.toNat = n := by
  constructor
  · intro h
    refine ⟨Char.ofNat n, ?_⟩
    unfold escape? at h
    split at h <;> cases h <;> decide
  · rintro ⟨c, hc, rfl⟩
    simp only [escapes, List.mem_cons, Prod.mk.injEq, List.not_mem_nil, or_false] at hc
    rcases hc with ⟨rfl, rfl⟩ | ⟨rfl, rfl⟩ | ⟨rfl, rfl⟩ | ⟨rfl, rfl⟩ | ⟨rfl, rfl⟩ | ⟨rfl, rfl⟩ <;> rfl

theorem isAscii_of_escape? {e : Char} {n : Nat} (h : escape? e = some n) : isAscii e = true := by
  unfold escape? at h
  split at h <;> first | rfl | cases h

/-- The test for what begins with a quote. It is two tests in one, which differ in length. -/
theorem decodeChar_iff {text : String} {rest : List Char} {v : Value} :
    decodeChar text rest = .ok v ↔
      ∃ n, (IsPlainChar ('\'' :: rest) n ∨ IsEscapedChar ('\'' :: rest) n) ∧ .char n = v := by
  constructor
  · intro h
    unfold decodeChar at h
    split at h
    · next c quote =>
        split at h
        · next hc =>
            obtain ⟨rfl, hascii, hbackslash, hquote⟩ := hc
            cases h
            exact ⟨_, .inl (.intro (of_decide_eq_true hascii) hquote hbackslash), rfl⟩
        · cases h
    · next backslash e quote =>
        split at h
        · next hc =>
            obtain ⟨rfl, rfl, -⟩ := hc
            split at h
            · next n he =>
                cases h
                obtain ⟨c, hc, rfl⟩ := escape?_eq_some_iff.1 he
                exact ⟨_, .inr (.intro hc), rfl⟩
            · cases h
        · cases h
    · cases h
  · rintro ⟨n, hplain | hescaped, rfl⟩
    · obtain ⟨hascii, hquote, hbackslash⟩ := hplain
      exact if_pos ⟨rfl, decide_eq_true hascii, hbackslash, hquote⟩
    · obtain ⟨hescape⟩ := hescaped
      have he := escape?_eq_some_iff.2 ⟨_, hescape, rfl⟩
      simp only [decodeChar, and_self, isAscii_of_escape? he, if_true, he]

theorem decodeInt_iff {text : String} {n : Nat} {v : Value} :
    decodeInt text n = .ok v ↔ n ≤ 2 ^ 31 - 1 ∧ .int n = v := by
  unfold decodeInt
  split
  · next hn => simp [Nat.le_sub_one_of_lt hn]
  · next hn =>
      refine ⟨fun h => (nomatch h), fun ⟨hle, _⟩ => absurd hle ?_⟩
      omega

/-! ## The look of a text -/

/-- The grammar that a text has the look of. -/
def Grammar.of (cs : List Char) : Grammar :=
  if cs.head? = some '\'' then if cs[1]? = some '\\' then escapedChar else plainChar
  else if cs.head? = some 't' ∨ cs.head? = some 'f' then bool
  else if cs.all Char.isDigit then decimal
  else if cs[1]? = some 'x' ∨ cs[1]? = some 'X' then hexadecimal
  else float

/-- What a number with a point or an exponent is made of. -/
theorem Scientific.mem {cs : List Char} {n : Nat} {k : Int} (h : Scientific cs n k) :
    ∀ c ∈ cs, c.isDigit = true ∨ c ∈ ['.', 'e', 'E', '+', '-'] := by
  obtain ⟨hpoint, hdigits, hexponent⟩ := h
  have hall := List.forall_mem_append.1 (isDecimal_iff.1 (decimal_numeral_iff.1 hdigits).1).2
  refine List.forall_mem_append.2 ⟨fun c hc => .inl (hall.1 c hc), List.forall_mem_append.2 ⟨?_, ?_⟩⟩
  · cases hpoint with
    | absent => simp
    | present hds =>
        refine List.forall_mem_cons.2 ⟨by decide, fun c hc => .inl (hds c hc)⟩
  · cases hexponent with
    | absent => simp
    | present hmark hsign _ hds =>
        refine List.forall_mem_cons.2 ⟨?_, List.forall_mem_append.2
          ⟨?_, fun c hc => .inl (hds c hc)⟩⟩
        · rcases hmark with rfl | rfl <;> decide
        · cases hsign <;> simp

/-- Without a point and without an exponent there are but digits. -/
theorem Scientific.marked {cs : List Char} {n : Nat} {k : Int} (h : Scientific cs n k)
    (hdecimal : isDecimal cs = false) : '.' ∈ cs ∨ 'e' ∈ cs ∨ 'E' ∈ cs := by
  obtain ⟨hpoint, hdigits, hexponent⟩ := h
  cases hpoint with
  | present _ => simp
  | absent =>
      cases hexponent with
      | present hmark _ _ _ => rcases hmark with rfl | rfl <;> simp
      | absent =>
          rw [List.nil_append, (decimal_numeral_iff.1 hdigits).1] at hdecimal
          cases hdecimal

theorem IsFloat.not_digits {cs : List Char} {n : Nat} {k : Int} (h : IsFloat cs n k) :
    cs.all Char.isDigit = false := by
  rw [List.all_eq_false]
  rcases h.marked with hc | hc | hc <;> exact ⟨_, hc, by decide⟩

/-- The look of a text in which there is none of the characters that are looked for. -/
theorem Grammar.of_of_mem {cs : List Char}
    (h : ∀ c ∈ cs, c.isDigit = true ∨ c ∈ ['.', 'e', 'E', '+', '-']) :
    Grammar.of cs = if cs.all Char.isDigit then decimal else float := by
  have hnot : ∀ c ∈ ['\'', 't', 'f', 'x', 'X'], c ∉ cs := by
    intro c hc hmem
    have hlook : ∀ c ∈ ['\'', 't', 'f', 'x', 'X'],
        ¬(c.isDigit = true ∨ c ∈ ['.', 'e', 'E', '+', '-']) := by simp
    exact hlook c hc (h c hmem)
  have hhead : ∀ c ∈ ['\'', 't', 'f', 'x', 'X'], cs.head? ≠ some c :=
    fun c hc hsome => hnot c hc (List.mem_of_head? hsome)
  have hsecond : ∀ c ∈ ['\'', 't', 'f', 'x', 'X'], cs[1]? ≠ some c :=
    fun c hc hsome => hnot c hc (List.mem_of_getElem? hsome)
  simp only [List.forall_mem_cons] at hhead hsecond
  simp only [Grammar.of, hhead, hsecond, or_self, if_false]

/-- A text is in no grammar but the one that it has the look of. -/
theorem Grammar.of_eq {cs : List Char} {g : Grammar} (h : g.Accepts cs) : Grammar.of cs = g := by
  cases g with
  | bool => obtain ⟨_, _ | _⟩ := h <;> rfl
  | plainChar =>
      obtain ⟨_, ⟨_, _, hbackslash⟩⟩ := h
      simp [Grammar.of, hbackslash]
  | escapedChar =>
      obtain ⟨_, ⟨_⟩⟩ := h
      rfl
  | decimal =>
      obtain ⟨n, hn⟩ := h
      have hall := (isDecimal_iff.1 (decimal_numeral_iff.1 hn).1).2
      rw [Grammar.of_of_mem fun c hc => .inl (hall c hc), if_pos (List.all_eq_true.2 hall)]
  | hexadecimal =>
      obtain ⟨n, ⟨hmark, _⟩⟩ := h
      rcases hmark with rfl | rfl <;> simp [Grammar.of]
  | float =>
      obtain ⟨n, k, hfloat⟩ := h
      rw [Grammar.of_of_mem hfloat.scientific.mem, hfloat.not_digits, if_neg Bool.false_ne_true]

/-- No text is in two grammars. -/
theorem Grammar.Accepts.unique {cs : List Char} {g g' : Grammar} (h : g.Accepts cs)
    (h' : g'.Accepts cs) : g = g' :=
  (Grammar.of_eq h).symm.trans (Grammar.of_eq h')

/-! ## Decoding -/

/-- What begins with a quote is no word, and no other test gets to see it. -/
theorem decode_quoted {text : String} {rest : List Char} (h : text.toList = '\'' :: rest) :
    decode text = decodeChar text rest := by
  have htrue : text ≠ "true" := by
    rintro rfl
    cases h
  have hfalse : text ≠ "false" := by
    rintro rfl
    cases h
  simp only [decode, if_neg htrue, if_neg hfalse, h]

/-- The tests for numbers, which are the last. -/
theorem decode_unquoted {text : String} (hbool : ¬Grammar.bool.Accepts text.toList)
    (hquote : text.toList.head? ≠ some '\'') :
    decode text =
      if isDecimal text.toList then decodeInt text (number 10 text.toList)
      else match hexDigits? text.toList with
        | some digits => decodeInt text (number 16 digits)
        | none =>
          match decimal? text.toList with
          | none => .error (.undecodable text)
          | some (n, k) =>
            match Decimal.nearestDouble n k with
            | some bits => .ok (.real bits)
            | none => .error (.floatRange text) := by
  have htrue : text ≠ "true" := by
    rintro rfl
    exact hbool ⟨_, .true⟩
  have hfalse : text ≠ "false" := by
    rintro rfl
    exact hbool ⟨_, .false⟩
  simp only [decode, if_neg htrue, if_neg hfalse]
  split
  · next hcs => exact absurd (congrArg List.head? hcs) hquote
  · rfl

/-- What has the look of a number gets to the tests for numbers. -/
theorem Grammar.Accepts.unquoted {cs : List Char} {g : Grammar} (h : g.Accepts cs)
    (hnumber : g = decimal ∨ g = hexadecimal ∨ g = float) :
    ¬bool.Accepts cs ∧ cs.head? ≠ some '\'' := by
  constructor
  · intro hbool
    have := hbool.unique h
    grind
  · intro hquote
    have hof := Grammar.of_eq h
    rw [Grammar.of, if_pos hquote] at hof
    grind

theorem Grammar.Accepts.not_isDecimal {cs : List Char} {g : Grammar} (h : g.Accepts cs)
    (hne : g ≠ decimal) : ¬isDecimal cs = true := by
  intro hdecimal
  have hother : decimal.Accepts cs := ⟨_, decimal_numeral_iff.2 ⟨hdecimal, rfl⟩⟩
  exact hne (h.unique hother)

/-- The text of a word for a truth value. -/
theorem decode_bool {text : String} {b : Bool} (h : IsBool text.toList b) :
    decode text = .ok (.bool b) := by
  generalize hcs : text.toList = cs at h
  cases h with
  | true =>
      have : text = "true" := String.toList_inj.1 hcs
      exact if_pos this
  | false =>
      have : text = "false" := String.toList_inj.1 hcs
      rw [this]
      rfl

theorem decode_char {text : String} {n : Nat}
    (h : IsPlainChar text.toList n ∨ IsEscapedChar text.toList n) :
    decode text = .ok (.char n) := by
  have hquoted : ∀ cs : List Char, IsPlainChar cs n ∨ IsEscapedChar cs n →
      ∃ rest, cs = '\'' :: rest := by
    rintro _ (h | h) <;> cases h <;> exact ⟨_, rfl⟩
  obtain ⟨rest, hrest⟩ := hquoted _ h
  rw [hrest] at h
  rw [decode_quoted hrest]
  exact decodeChar_iff.2 ⟨n, h, rfl⟩

theorem decode_of_denotes {text : String} {v : Value} (h : Denotes text.toList v) :
    decode text = .ok v := by
  cases h with
  | bool h => exact decode_bool h
  | plainChar h => exact decode_char (.inl h)
  | escapedChar h => exact decode_char (.inr h)
  | @decimal n h hfits =>
      have hin : Grammar.decimal.Accepts text.toList := ⟨n, h⟩
      obtain ⟨hbool, hquote⟩ := hin.unquoted (by simp)
      obtain ⟨hdecimal, hn⟩ := decimal_numeral_iff.1 h
      rw [decode_unquoted hbool hquote, if_pos hdecimal, hn]
      exact decodeInt_iff.2 ⟨hfits, rfl⟩
  | @hexadecimal n h hfits =>
      have hin : Grammar.hexadecimal.Accepts text.toList := ⟨n, h⟩
      obtain ⟨hbool, hquote⟩ := hin.unquoted (by simp)
      have hdecimal := hin.not_isDecimal (by simp)
      obtain ⟨digits, hdigits, hn⟩ := isHexadecimal_iff.1 h
      simp only [decode_unquoted hbool hquote, if_neg hdecimal, hdigits, hn]
      exact decodeInt_iff.2 ⟨hfits, rfl⟩
  | @float n k bits h hfinite =>
      have hin : Grammar.float.Accepts text.toList := ⟨n, k, h⟩
      obtain ⟨hbool, hquote⟩ := hin.unquoted (by simp)
      have hdecimal := hin.not_isDecimal (by simp)
      have hhexadecimal : hexDigits? text.toList = none := by
        refine Option.eq_none_iff_forall_ne_some.2 fun digits hd => ?_
        have hother : Grammar.hexadecimal.Accepts text.toList :=
          ⟨_, isHexadecimal_iff.2 ⟨digits, hd, rfl⟩⟩
        exact nomatch hin.unique hother
      simp only [decode_unquoted hbool hquote, if_neg hdecimal, hhexadecimal,
        decimal?_iff.2 h.scientific, hfinite]

theorem denotes_of_decode {text : String} {v : Value} (h : decode text = .ok v) :
    Denotes text.toList v := by
  by_cases hbool : Grammar.bool.Accepts text.toList
  · obtain ⟨b, hb⟩ := hbool
    cases (decode_bool hb).symm.trans h
    exact .bool hb
  by_cases hquote : text.toList.head? = some '\''
  · obtain ⟨rest, hrest⟩ := List.head?_eq_some_iff.1 hquote
    rw [decode_quoted hrest] at h
    obtain ⟨n, hn, rfl⟩ := decodeChar_iff.1 h
    rw [hrest]
    exact hn.elim .plainChar .escapedChar
  rw [decode_unquoted hbool hquote] at h
  split at h
  · next hdecimal =>
      obtain ⟨hfits, rfl⟩ := decodeInt_iff.1 h
      exact .decimal (decimal_numeral_iff.2 ⟨hdecimal, rfl⟩) hfits
  · next hdecimal =>
      split at h
      · next digits hdigits =>
          obtain ⟨hfits, rfl⟩ := decodeInt_iff.1 h
          exact .hexadecimal (isHexadecimal_iff.2 ⟨digits, hdigits, rfl⟩) hfits
      · split at h
        · cases h
        · next n k hread =>
            have hscientific := decimal?_iff.1 hread
            split at h
            · next bits hbits =>
                cases h
                have hmarked := hscientific.marked (Bool.not_eq_true _ ▸ hdecimal)
                exact .float ⟨hscientific, hmarked⟩ hbits
            · cases h

/-- Decoding finds the value that a text denotes and fails when there is none, and no text is in two
of the grammars. -/
theorem decode_iff_denotes (text : String) :
    (∀ v, decode text = .ok v ↔ Denotes text.toList v) ∧
    ((∃ cause, decode text = .error cause) ↔ ∀ v, ¬Denotes text.toList v) ∧
    {g : Grammar | g.Accepts text.toList}.Subsingleton := by
  have hiff : ∀ v, decode text = .ok v ↔ Denotes text.toList v :=
    fun v => ⟨denotes_of_decode, decode_of_denotes⟩
  refine ⟨hiff, ?_, fun g hg g' hg' => hg.unique hg'⟩
  simp only [← hiff]
  cases decode text with
  | ok v => simp
  | error cause => simp

/-- Zeros before an integer do not make it larger. -/
example : decode "0x000000000000000000007FFFFFFF" = .ok (.int 2147483647) := by decide +kernel

end SmallC.Literal
