import Mathlib.Data.List.DropRight
import Mathlib.Data.List.Infix
import SmallC.Golden.Verdict

/-!
# Excerpts of listings

An excerpt is found in a listing if its lines stand there one right after the
other, blanks at their ends apart. What the lines of a text are is said without
cutting it, by how the text is put together from them, and there is one way only
to do that once the newlines at the end do not count.

A piece of a listing can be indented in another way and is found all the same,
but for one case. A piece has to have a line: without one it is the empty text,
whose only line is an empty one, and that is looked for like any other.
-/

namespace SmallC

namespace Text

/-! ## The lines of a text -/

/-- A text that is put together from lines, with a newline between two of them and any number of
newlines at the end. -/
structure WrittenAs (s : String) (ls : List String) : Prop where
  plain : ∀ l ∈ ls, '\n' ∉ l.toList
  text : ∃ n, s = join "\n" ls ++ String.ofList (List.replicate n '\n')

/-- The lines of a text: it is put together from them, and the newlines that are not between two of
them are all those at its end. There is at least one line, perhaps an empty one. -/
structure HasLines (s : String) (ls : List String) : Prop extends WrittenAs s ls where
  nonempty : ls ≠ []
  ends : (join "\n" ls).toList.getLast? ≠ some '\n'

theorem toList_join (ls : List String) :
    (join "\n" ls).toList = ['\n'].intercalate (ls.map String.toList) :=
  String.toList_intercalate

theorem splitOf_eq_splitOn (cs : List Char) : splitOf cs = cs.splitOn '\n' := by
  unfold List.splitOn
  induction cs with
  | nil => rfl
  | cons c rest ih =>
      rw [splitOf, List.splitOnP_cons_eq_if_modifyHead, ih]
      simp only [beq_iff_eq]
      split
      · rfl
      · cases h : List.splitOnP (· == '\n') rest with
        | nil => exact absurd h (List.splitOnP_ne_nil _ _)
        | cons line more => rfl

theorem splitOf_ne_nil (cs : List Char) : splitOf cs ≠ [] := by
  rw [splitOf_eq_splitOn]
  exact List.splitOn_ne_nil _ _

theorem splitOf_plain (cs : List Char) : ∀ l ∈ splitOf cs, '\n' ∉ l := by
  induction cs with
  | nil => simp [splitOf]
  | cons c rest ih =>
      rw [splitOf]
      split
      · exact List.forall_mem_cons.2 ⟨List.not_mem_nil, ih⟩
      · next hc =>
          cases h : splitOf rest with
          | nil => exact absurd h (splitOf_ne_nil rest)
          | cons line more =>
              rw [h] at ih
              obtain ⟨hline, hmore⟩ := List.forall_mem_cons.1 ih
              refine List.forall_mem_cons.2 ⟨fun hmem => ?_, hmore⟩
              rcases List.mem_cons.1 hmem with heq | hmem
              · exact hc heq.symm
              · exact hline hmem

/-- Newlines at the end are dropped. -/
theorem dropWhileEnd_replicate (cs : List Char) (n : Nat) :
    dropWhileEnd (· = '\n') (cs ++ List.replicate n '\n') = dropWhileEnd (· = '\n') cs :=
  dropWhileEnd_append (by simp) cs

theorem dropWhileEnd_newline {cs : List Char} (h : cs.getLast? ≠ some '\n') :
    dropWhileEnd (· = '\n') cs = cs :=
  dropWhileEnd_eq_self fun _ hc => decide_eq_false fun heq => h (heq ▸ hc)

theorem exists_dropWhileEnd (cs : List Char) :
    (∃ n, cs = dropWhileEnd (· = '\n') cs ++ List.replicate n '\n') ∧
      (dropWhileEnd (· = '\n') cs).getLast? ≠ some '\n' := by
  induction cs using List.reverseRecOn with
  | nil => exact ⟨⟨0, rfl⟩, by simp [dropWhileEnd]⟩
  | append_singleton cs c ih =>
      by_cases hc : c = '\n'
      · subst hc
        obtain ⟨⟨n, hn⟩, hlast⟩ := ih
        have hdrop := dropWhileEnd_replicate cs 1
        rw [List.replicate_one] at hdrop
        rw [hdrop]
        refine ⟨⟨n + 1, ?_⟩, hlast⟩
        rw [List.replicate_succ', ← List.append_assoc, ← hn]
      · have hlast : (cs ++ [c]).getLast? ≠ some '\n' := by simpa using hc
        rw [dropWhileEnd_newline hlast]
        exact ⟨⟨0, by simp⟩, hlast⟩

/-- The lines of a text are those that it is cut into. -/
theorem hasLines_iff {s : String} {ls : List String} :
    HasLines s ls ↔ ls = (splitOf (dropWhileEnd (· = '\n') s.toList)).map String.ofList := by
  constructor
  · rintro ⟨⟨hplain, n, rfl⟩, hsome, hends⟩
    rw [String.toList_append, String.toList_ofList, dropWhileEnd_replicate,
      dropWhileEnd_newline hends, toList_join, splitOf_eq_splitOn,
      List.splitOn_intercalate _ (by simpa using hplain) (by simpa using hsome)]
    simp
  · rintro rfl
    obtain ⟨⟨n, htext⟩, hends⟩ := exists_dropWhileEnd s.toList
    generalize dropWhileEnd (· = '\n') s.toList = body at htext hends
    have hjoin : join "\n" ((splitOf body).map String.ofList) = String.ofList body := by
      rw [← String.toList_inj, toList_join, List.map_map, splitOf_eq_splitOn,
        show String.toList ∘ String.ofList = id from funext fun _ => String.toList_ofList,
        List.map_id, List.intercalate_splitOn, String.toList_ofList]
    refine ⟨⟨?_, n, ?_⟩, by simpa using splitOf_ne_nil body, by rwa [hjoin, String.toList_ofList]⟩
    · simpa using splitOf_plain body
    · rw [hjoin, ← String.ofList_append, ← htext, String.ofList_toList]

/-- Every text has lines, and only one way to have them. -/
theorem existsUnique_hasLines (s : String) : ∃! ls, HasLines s ls :=
  ⟨_, hasLines_iff.2 rfl, fun _ h => hasLines_iff.1 h⟩

theorem HasLines.trimmed {s : String} {ls : List String} (h : HasLines s ls) :
    trimmedLines s = ls.map fun l => trim l.toList := by
  rw [trimmedLines, hasLines_iff.1 h]
  simp

/-- Of the lines that a text is put together from, all are found again but for empty ones at the
end. One line is always left. -/
theorem WrittenAs.exists_lines {s : String} {ls : List String} (h : WrittenAs s ls)
    (hsome : ls ≠ []) : ∃ es, HasLines s es ∧ es <+: ls := by
  obtain ⟨hplain, n, htext⟩ := h
  -- An empty last line turns into one more newline at the end.
  induction ls using List.reverseRecOn generalizing n with
  | nil => exact absurd rfl hsome
  | append_singleton init last ih =>
      by_cases hempty : last = "" ∧ init ≠ []
      · obtain ⟨rfl, hinit⟩ := hempty
        have hmore : s = join "\n" init ++ String.ofList (List.replicate (n + 1) '\n') := by
          rw [htext, join, String.intercalate_append_of_ne_nil hinit (by simp), List.replicate_succ,
            String.intercalate_singleton, String.append_empty, String.append_assoc,
            ← String.ofList_append]
          rfl
        obtain ⟨es, hes, hpre⟩ :=
          ih hinit (fun l hl => hplain l (List.mem_append_left _ hl)) (n + 1) hmore
        exact ⟨es, hes, hpre.trans (List.prefix_append _ _)⟩
      · refine ⟨init ++ [last], ⟨⟨hplain, n, htext⟩, hsome, fun hends => ?_⟩, List.prefix_refl _⟩
        have hlast : '\n' ∉ last.toList :=
          hplain last (List.mem_append_right _ (List.mem_singleton_self _))
        by_cases hinit : init = []
        · subst hinit
          rw [List.nil_append, join, String.intercalate_singleton] at hends
          exact hlast (List.mem_of_getLast? hends)
        · have hne : last.toList ≠ [] := fun h => hempty ⟨String.toList_inj.1 h, hinit⟩
          rw [join, String.intercalate_append_of_ne_nil hinit (by simp),
            String.intercalate_singleton, String.toList_append,
            List.getLast?_append_of_ne_nil _ hne] at hends
          exact hlast (List.mem_of_getLast? hends)

/-! ## Blanks at the ends of a line -/

/-- A line with other blanks in front of it. -/
def Reindented (line line' : String) : Prop :=
  ∃ pad pad' body : String, line = pad ++ body ∧ line' = pad' ++ body ∧
    pad.toList.all isBlank = true ∧ pad'.toList.all isBlank = true

theorem trim_pad {pad : List Char} (h : pad.all isBlank = true) (body : List Char) :
    trim (pad ++ body) = trim body := by
  rw [trim, List.dropWhile_append_of_pos (List.all_eq_true.1 h)]
  rfl

theorem Reindented.trim_eq {line line' : String} (h : Reindented line line') :
    trim line'.toList = trim line.toList := by
  obtain ⟨pad, pad', body, rfl, rfl, hpad, hpad'⟩ := h
  rw [String.toList_append, String.toList_append, trim_pad hpad, trim_pad hpad']

theorem trim_eq_nil_iff {line : List Char} : trim line = [] ↔ line.all isBlank = true := by
  constructor
  · intro h
    by_contra hsome
    have hne : line.dropWhile isBlank ≠ [] := fun hnil =>
      hsome (List.all_eq_true.2 (List.dropWhile_eq_nil_iff.1 hnil))
    have hblank : isBlank ((line.dropWhile isBlank).head hne) = true :=
      List.rdropWhile_eq_nil_iff.1 h _ (List.head_mem hne)
    rw [List.head_dropWhile_not isBlank hne] at hblank
    cases hblank
  · intro h
    have hpad := trim_pad h []
    rwa [List.append_nil] at hpad

end Text

namespace Golden

open Text

/-! ## Excerpts -/

variable {listing excerpt : String} {ls : List String}

theorem occursIn_iff {α : Type} [BEq α] [LawfulBEq α] {xs ys : List α} :
    occursIn xs ys = true ↔ xs <:+: ys := by
  induction ys with
  | nil => rw [occursIn, List.isEmpty_iff, List.infix_nil]
  | cons y ys ih =>
      rw [occursIn, Bool.or_eq_true, ih, List.isPrefixOf_iff_prefix, List.infix_cons_iff]

theorem containsLines_iff_trimmed {es : List String} (hl : HasLines listing ls)
    (he : HasLines excerpt es) :
    containsLines listing excerpt = true ↔
      es.map (fun l => trim l.toList) <:+: ls.map fun l => trim l.toList := by
  rw [containsLines, occursIn_iff, hl.trimmed, he.trimmed]

/-- An excerpt without anything but newlines is looked for as an empty line. -/
theorem containsLines_of_no_lines (hl : HasLines listing ls) (he : WrittenAs excerpt []) :
    containsLines listing excerpt = true ↔ ∃ l ∈ ls, l.toList.all isBlank = true := by
  have hone : HasLines excerpt [""] := by
    obtain ⟨-, n, htext⟩ := he
    exact ⟨⟨by simp, n, htext⟩, List.cons_ne_nil _ _, by decide⟩
  rw [containsLines_iff_trimmed hl hone, List.map_singleton, List.singleton_infix_iff, List.mem_map]
  simp only [← trim_eq_nil_iff]
  rfl

/-- A piece of a listing with other blanks in front of its lines. -/
theorem containsLines_of_reindented {run indented : List String} (hl : HasLines listing ls)
    (hrun : run <:+: ls) (hsome : run ≠ []) (h : List.Forall₂ Reindented run indented)
    (he : WrittenAs excerpt indented) : containsLines listing excerpt = true := by
  have hne : indented ≠ [] := by
    rintro rfl
    cases h
    exact hsome rfl
  obtain ⟨es, hes, hpre⟩ := he.exists_lines hne
  have htrim : indented.map (fun l => trim l.toList) = run.map fun l => trim l.toList := by
    clear he hes hpre hne hsome hrun
    induction h with
    | nil => rfl
    | cons hline _ ih => rw [List.map_cons, List.map_cons, hline.trim_eq, ih]
  have hpart := (hpre.map fun l => trim l.toList).isInfix
  rw [htrim] at hpart
  exact (containsLines_iff_trimmed hl hes).2 (hpart.trans (hrun.map _))

/-- An excerpt is found exactly if its trimmed lines are the trimmed lines of a piece of the listing.
So a piece of a listing is found with other blanks in front of its lines, unless it has no line: then
the listing has to have a blank one. -/
theorem containsLines_iff (listing excerpt : String) :
    (∀ s : String, ∃! ls, HasLines s ls) ∧
    (containsLines listing excerpt = true ↔
      ∃ ls es piece, HasLines listing ls ∧ HasLines excerpt es ∧ piece <:+: ls ∧
        es.map (fun l => trim l.toList) = piece.map fun l => trim l.toList) ∧
    ∀ ls piece indented, HasLines listing ls → piece <:+: ls →
      List.Forall₂ Reindented piece indented → WrittenAs excerpt indented →
      (containsLines listing excerpt = true ↔
        (piece = [] → ∃ l ∈ ls, l.toList.all isBlank = true)) := by
  refine ⟨existsUnique_hasLines, ?_, ?_⟩
  · constructor
    · intro h
      obtain ⟨ls, hl, -⟩ := existsUnique_hasLines listing
      obtain ⟨es, he, -⟩ := existsUnique_hasLines excerpt
      obtain ⟨piece, hpiece, heq⟩ := List.infix_map_iff.1 ((containsLines_iff_trimmed hl he).1 h)
      exact ⟨ls, es, piece, hl, he, hpiece, heq⟩
    · rintro ⟨ls, es, piece, hl, he, hpiece, heq⟩
      rw [containsLines_iff_trimmed hl he, heq]
      exact hpiece.map _
  · intro ls piece indented hl hpiece h he
    by_cases hsome : piece = []
    · subst hsome
      cases h
      rw [containsLines_of_no_lines hl he]
      simp
    · exact iff_of_true (containsLines_of_reindented hl hpiece hsome h he) fun hnil =>
        absurd hnil hsome

/-- A piece with a blank line at its end, of which only the newline before it is left. -/
theorem containsLines_iff_blank_end :
    HasLines "f:\n\tload\n\n\tret\n" ["f:", "\tload", "", "\tret"] ∧
      ["\tload", ""] <:+: ["f:", "\tload", "", "\tret"] ∧
      List.Forall₂ Reindented ["\tload", ""] ["  load", ""] ∧ WrittenAs "  load\n" ["  load", ""] ∧
      containsLines "f:\n\tload\n\n\tret\n" "  load\n" = true := by
  have hlines : HasLines "f:\n\tload\n\n\tret\n" ["f:", "\tload", "", "\tret"] :=
    hasLines_iff.2 (by decide +kernel)
  have hpiece : ["\tload", ""] <:+: ["f:", "\tload", "", "\tret"] := ⟨["f:"], ["\tret"], rfl⟩
  have hindent : List.Forall₂ Reindented ["\tload", ""] ["  load", ""] :=
    .cons ⟨"\t", "  ", "load", rfl, rfl, by decide, by decide⟩
      (.cons ⟨"", "", "", rfl, rfl, rfl, rfl⟩ .nil)
  have hwritten : WrittenAs "  load\n" ["  load", ""] := ⟨by decide, 0, by decide +kernel⟩
  refine ⟨hlines, hpiece, hindent, hwritten, ?_⟩
  exact ((containsLines_iff _ _).2.2 _ _ _ hlines hpiece hindent hwritten).2 fun h => nomatch h

/-- The piece without lines is not found in every listing. -/
theorem not_containsLines_no_lines :
    HasLines "ret\n" ["ret"] ∧ [] <:+: ["ret"] ∧ WrittenAs "" [] ∧
      containsLines "ret\n" "" = false :=
  ⟨hasLines_iff.2 (by decide +kernel), List.nil_infix, ⟨by simp, 0, rfl⟩, by decide +kernel⟩

end Golden

end SmallC
