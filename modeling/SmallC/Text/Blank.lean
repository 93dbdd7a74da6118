/-!
# Blank characters

A line is trimmed of every character with the white-space property, not only of
the ASCII ones: a listing may hold names with any character in them.
-/

namespace SmallC.Text

/-- The characters with the white-space property. -/
def isBlank (c : Char) : Bool :=
  let n := c.toNat
  (9 ≤ n && n ≤ 13) || n == 0x20 || n == 0x85 || n == 0xA0 || n == 0x1680 ||
    (0x2000 ≤ n && n ≤ 0x200A) || n == 0x2028 || n == 0x2029 || n == 0x202F || n == 0x205F ||
    n == 0x3000

/-- Drops the characters of a class from the end of a list. -/
def dropWhileEnd (p : Char → Bool) (cs : List Char) : List Char :=
  (cs.reverse.dropWhile p).reverse

theorem dropWhileEnd_append {p : Char → Bool} {more : List Char} (h : more.all p = true)
    (cs : List Char) : dropWhileEnd p (cs ++ more) = dropWhileEnd p cs := by
  rw [dropWhileEnd, List.reverse_append, List.dropWhile_append_of_pos]
  · rfl
  · intro c hc
    exact List.all_eq_true.1 h c (List.mem_reverse.1 hc)

/-- Nothing is dropped if the last character is not of the class. -/
theorem dropWhileEnd_eq_self {p : Char → Bool} {cs : List Char}
    (h : ∀ c ∈ cs.getLast?, p c = false) : dropWhileEnd p cs = cs := by
  rw [← List.head?_reverse] at h
  rw [dropWhileEnd]
  cases hrev : cs.reverse with
  | nil => exact (List.reverse_eq_nil_iff.1 hrev).symm
  | cons c rest =>
      rw [hrev] at h
      rw [List.dropWhile_cons_of_neg (by simp [h c rfl]), ← hrev, List.reverse_reverse]

/-- What stands at the end of a text and is made of a class of characters is told apart from what
stands in front of it, if that ends with a character that is not of the class. -/
theorem append_inj_of_class {p : Char → Bool} {cs ds more rest : List Char}
    (hcs : ∀ c ∈ cs.getLast?, p c = false) (hds : ∀ c ∈ ds.getLast?, p c = false)
    (hmore : more.all p = true) (hrest : rest.all p = true) (h : cs ++ more = ds ++ rest) :
    cs = ds ∧ more = rest := by
  have hfront : cs = ds := by
    rw [← dropWhileEnd_eq_self hcs, ← dropWhileEnd_append hmore, h, dropWhileEnd_append hrest,
      dropWhileEnd_eq_self hds]
  subst hfront
  exact ⟨rfl, List.append_cancel_left h⟩

/-- Drops the blank characters at both ends. -/
def trim (cs : List Char) : List Char := dropWhileEnd isBlank (cs.dropWhile isBlank)

end SmallC.Text
