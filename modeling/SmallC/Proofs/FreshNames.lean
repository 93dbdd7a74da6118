import SmallC.Llvm.Instr

/-!
# Names say what they were made of

Names of values and of labels are all made in one way: something, a point, and a
last part without a point in it. The something is often a name of the program
and can hold whatever a name can hold, points and digits included. But the last
part ends at the last point, so both parts can be read off the whole, and names
that were made of different things are different as texts.
-/

namespace SmallC

/-- What stands after the last point of a text, and what stands before that point. -/
theorem append_point_inj {a b x y : List Char} (hx : '.' ∉ x) (hy : '.' ∉ y)
    (h : a ++ '.' :: x = b ++ '.' :: y) : a = b ∧ x = y := by
  have hplain : ∀ {cs : List Char}, '.' ∉ cs → cs.all (· ≠ '.') = true := fun hcs =>
    List.all_eq_true.2 fun c hc => decide_eq_true fun heq => hcs (heq ▸ hc)
  rw [List.append_cons a, List.append_cons b] at h
  obtain ⟨hfront, hlast⟩ :=
    Text.append_inj_of_class (by simp) (by simp) (hplain hx) (hplain hy) h
  exact ⟨List.append_cancel_right hfront, hlast⟩

theorem toString_inj {m n : Nat} (h : toString m = toString n) : m = n := by
  have hdigits : Nat.toDigits 10 m = Nat.toDigits 10 n := by
    simpa only [Nat.toString_eq_repr, Nat.toList_repr] using congrArg String.toList h
  have hnumber := congrArg (Nat.ofDigitChars 10 · 0) hdigits
  simpa only [Nat.ofDigitChars_ten_toDigits] using hnumber

theorem isDigit_of_mem_toString {n : Nat} {c : Char} (h : c ∈ (toString n).toList) :
    c.isDigit = true := by
  rw [Nat.toString_eq_repr, Nat.toList_repr] at h
  exact Nat.isDigit_of_mem_toDigits (by omega) (by omega) h

theorem point_not_mem_toString (n : Nat) : '.' ∉ (toString n).toList :=
  fun h => absurd (isDigit_of_mem_toString h) (by decide)

theorem toString_ne_of_mem {n : Nat} {text : String} {c : Char} (hc : c ∈ text.toList)
    (hd : c.isDigit = false) : toString n ≠ text := by
  rintro rfl
  rw [isDigit_of_mem_toString hc] at hd
  cases hd

namespace Fresh

/-- A fresh name ends in its number, and has its root in front of that. -/
theorem name_eq_point {root front last : String} {n : Nat} (hlast : '.' ∉ last.toList)
    (h : name root n = front ++ "." ++ last) : root = front ∧ toString n = last := by
  have hlist := congrArg String.toList h
  simp only [name, String.toList_append, show ".".toList = ['.'] from rfl, List.append_assoc,
    List.singleton_append] at hlist
  obtain ⟨hroot, hnumber⟩ := append_point_inj (point_not_mem_toString n) hlast hlist
  exact ⟨String.toList_inj.1 hroot, String.toList_inj.1 hnumber⟩

/-- A fresh name says which root and which number it was made of. -/
theorem name_inj {root root' : String} {m n : Nat} (h : name root m = name root' n) :
    root = root' ∧ m = n :=
  (name_eq_point (point_not_mem_toString n) h).imp_right toString_inj

/-! ## Names made one after the other -/

theorem lookup_bump (root r : String) (counts : List (String × Nat)) :
    ((bump root counts).lookup r).getD 0 =
      (counts.lookup r).getD 0 + (if r = root then 1 else 0) := by
  induction counts with
  | nil =>
      by_cases h : r = root
      · simp [bump, h]
      · simp [bump, List.lookup_cons, h, beq_eq_false_iff_ne.2 h]
  | cons entry rest ih =>
      obtain ⟨key, n⟩ := entry
      unfold bump
      split
      · next hkey =>
          subst hkey
          by_cases h : r = key
          · simp [h]
          · simp [List.lookup_cons, h, beq_eq_false_iff_ne.2 h]
      · next hkey =>
          by_cases h : r = key
          · subst h
            simp [hkey]
          · simp [List.lookup_cons, beq_eq_false_iff_ne.2 h, ih]

theorem count_next (f : Fresh) (root r : String) :
    (f.next root).2.count r = f.count r + (if r = root then 1 else 0) :=
  lookup_bump root r f.counts

/-- The names made of some roots, one after the other. -/
def names (f : Fresh) : List String → List String
  | [] => []
  | root :: rest => name root (f.next root).1 :: names (f.next root).2 rest

/-- The number of a name says how many names its root has been used for by then. -/
theorem names_eq (f : Fresh) (roots : List String) :
    f.names roots =
      roots.mapIdx fun i root => name root (f.count root + (roots.take (i + 1)).count root) := by
  induction roots generalizing f with
  | nil => rfl
  | cons root rest ih =>
      rw [names, ih, List.mapIdx_cons]
      refine List.cons_eq_cons.2 ⟨by simp [next], congrArg (List.mapIdx · rest) ?_⟩
      funext i r
      rw [count_next, List.take_succ_cons, List.count_cons]
      by_cases h : r = root
      · simp only [h, if_true, beq_self_eq_true]
        exact congrArg (name root) (by omega)
      · rw [if_neg h, if_neg (by simpa using Ne.symm h)]
        rfl

/-- The numbers of the names to come are above the counter of their root. -/
theorem mem_names {f : Fresh} {roots : List String} {x : String} (h : x ∈ f.names roots) :
    ∃ root n, x = name root n ∧ f.count root < n := by
  induction roots generalizing f with
  | nil => cases h
  | cons root rest ih =>
      rcases List.mem_cons.1 h with rfl | h
      · exact ⟨root, _, rfl, Nat.lt_succ_self _⟩
      · obtain ⟨root', n, rfl, hn⟩ := ih h
        rw [count_next] at hn
        exact ⟨root', n, rfl, by omega⟩

theorem nodup_names (f : Fresh) (roots : List String) : (f.names roots).Nodup := by
  induction roots generalizing f with
  | nil => exact List.nodup_nil
  | cons root rest ih =>
      refine List.nodup_cons.2 ⟨fun h => ?_, ih _⟩
      obtain ⟨root', n, heq, hn⟩ := mem_names h
      obtain ⟨rfl, rfl⟩ := name_inj heq
      -- The number just given out is the counter now, and what comes later is above it.
      rw [count_next, if_pos rfl] at hn
      exact Nat.lt_irrefl _ hn

/-- Names made one after the other from any roots, of which some may look like names made before: the
first, second and every other name of a root has that number, no name comes twice, and none is the
name of a slot or of an argument. -/
theorem names_unique (roots : List String) :
    empty.names roots =
        (roots.mapIdx fun i root => name root ((roots.take (i + 1)).count root)) ∧
      (empty.names roots).Nodup ∧
      ∀ id : String, id ++ ".addr" ∉ empty.names roots ∧ id ++ ".arg" ∉ empty.names roots := by
  have hword : ∀ (last : String), '.' ∉ last.toList → (∀ n : Nat, toString n ≠ last) →
      ∀ id, id ++ "." ++ last ∉ empty.names roots := by
    intro last hpoint hnumber id h
    obtain ⟨root, n, heq, -⟩ := mem_names h
    exact hnumber n (name_eq_point hpoint heq.symm).2
  refine ⟨?_, nodup_names empty roots, fun id => ?_⟩
  · rw [names_eq]
    simp [count, empty]
  · have haddr := hword "addr" (by decide)
      (fun _ => toString_ne_of_mem (c := 'a') (by decide) (by decide)) id
    have harg := hword "arg" (by decide)
      (fun _ => toString_ne_of_mem (c := 'a') (by decide) (by decide)) id
    rw [String.append_assoc] at haddr harg
    exact ⟨haddr, harg⟩

/-- Roots that look like names made before. -/
example : empty.names ["x", "x.1", "x", "x.1", "x."] = ["x.1", "x.1.1", "x.2", "x.1.2", "x..1"] := by
  decide +kernel

end Fresh

namespace Llvm

/-! ## Values -/

/-- The two parts of the name of a value, if the operand is one that has a name in its function. -/
def Operand.parts? : Operand → Option (String × String)
  | reg r => some (r.root, toString r.number)
  | arg name => some (name, "arg")
  | slot name => some (name, "addr")
  | _ => none

theorem Operand.toList_text {x : Operand} {root last : String} (h : x.parts? = some (root, last)) :
    x.text.toList = '%' :: root.toList ++ '.' :: last.toList ∧ '.' ∉ last.toList := by
  cases x with
  | reg r =>
      cases h
      exact ⟨by simp [Operand.text, Fresh.name], point_not_mem_toString r.number⟩
  | arg name => cases h; exact ⟨by simp [Operand.text], by decide⟩
  | slot name => cases h; exact ⟨by simp [Operand.text], by decide⟩
  | nothing | int _ | bool _ | float _ | zero _ | global _ => cases h

theorem Operand.parts?_inj {x y : Operand} {parts : String × String} (hx : x.parts? = some parts)
    (hy : y.parts? = some parts) : x = y := by
  have harg : ∀ n : Nat, toString n ≠ "arg" :=
    fun n => toString_ne_of_mem (c := 'a') (by decide) (by decide)
  have haddr : ∀ n : Nat, toString n ≠ "addr" :=
    fun n => toString_ne_of_mem (c := 'a') (by decide) (by decide)
  cases x with
  | reg q =>
      cases hx
      cases y with
      | reg q' =>
          obtain ⟨hroot, hlast⟩ := Prod.mk.inj (Option.some.inj hy)
          cases q
          cases q'
          rw [Operand.reg.injEq, Reg.mk.injEq]
          exact ⟨hroot.symm, (toString_inj hlast).symm⟩
      | arg _ => exact absurd (Prod.mk.inj (Option.some.inj hy)).2.symm (harg _)
      | slot _ => exact absurd (Prod.mk.inj (Option.some.inj hy)).2.symm (haddr _)
      | nothing | int _ | bool _ | float _ | zero _ | global _ => cases hy
  | arg _ =>
      cases hx
      cases y with
      | reg _ => exact absurd (Prod.mk.inj (Option.some.inj hy)).2 (harg _)
      | arg _ => exact congrArg Operand.arg (Prod.mk.inj (Option.some.inj hy)).1.symm
      | slot _ => exact absurd (Prod.mk.inj (Option.some.inj hy)).2 (by decide)
      | nothing | int _ | bool _ | float _ | zero _ | global _ => cases hy
  | slot _ =>
      cases hx
      cases y with
      | reg _ => exact absurd (Prod.mk.inj (Option.some.inj hy)).2 (haddr _)
      | arg _ => exact absurd (Prod.mk.inj (Option.some.inj hy)).2 (by decide)
      | slot _ => exact congrArg Operand.slot (Prod.mk.inj (Option.some.inj hy)).1.symm
      | nothing | int _ | bool _ | float _ | zero _ | global _ => cases hy
  | nothing | int _ | bool _ | float _ | zero _ | global _ => cases hx

/-- Values with the same name are the same. -/
theorem Operand.text_inj {x y : Operand} (hx : x.parts?.isSome = true) (hy : y.parts?.isSome = true)
    (h : x.text = y.text) : x = y := by
  obtain ⟨⟨a, m⟩, hx⟩ := Option.isSome_iff_exists.1 hx
  obtain ⟨⟨b, n⟩, hy⟩ := Option.isSome_iff_exists.1 hy
  obtain ⟨hxt, hm⟩ := Operand.toList_text hx
  obtain ⟨hyt, hn⟩ := Operand.toList_text hy
  rw [← String.toList_inj, hxt, hyt] at h
  obtain ⟨hroot, hlast⟩ := append_point_inj hm hn h
  have hab : a = b := String.toList_inj.1 (List.cons.inj hroot).2
  have hmn : m = n := String.toList_inj.1 hlast
  subst hab hmn
  exact Operand.parts?_inj hx hy

/-! ## Labels -/

/-- The two parts of the name of a label. -/
def Label.parts? : Label → Option (String × Nat)
  | entry => none
  | ifThen n => some ("if.then", n)
  | ifElse n => some ("if.else", n)
  | ifEnd n => some ("if.end", n)
  | loopBody n => some ("while.body", n)
  | loopCond n => some ("while.cond", n)
  | loopEnd n => some ("while.end", n)
  | after n => some ("ret.after", n)

theorem Label.text_eq {l : Label} {root : String} {n : Nat} (h : l.parts? = some (root, n)) :
    l.text = Fresh.name root n := by
  cases l <;> cases h <;> rfl

theorem Label.parts?_inj {l l' : Label} (h : l.parts? = l'.parts?) : l = l' := by
  cases l <;> cases l' <;> simp_all [Label.parts?]

theorem Label.text_inj {l l' : Label} (h : l.text = l'.text) : l = l' := by
  have hentry : ∀ root n, "entry" ≠ Fresh.name root n := by
    intro root n heq
    have hmem : '.' ∈ (Fresh.name root n).toList := by simp [Fresh.name]
    rw [← heq] at hmem
    exact absurd hmem (by decide)
  apply Label.parts?_inj
  cases hl : l.parts? with
  | none =>
      cases hl' : l'.parts? with
      | none => rfl
      | some parts =>
          rw [Label.text_eq hl', show l.text = "entry" by cases l <;> first | rfl | cases hl] at h
          exact absurd h (hentry _ _)
  | some parts =>
      cases hl' : l'.parts? with
      | none =>
          rw [Label.text_eq hl, show l'.text = "entry" by cases l' <;> first | rfl | cases hl'] at h
          exact absurd h.symm (hentry _ _)
      | some parts' =>
          rw [Label.text_eq hl, Label.text_eq hl'] at h
          obtain ⟨hroot, hnumber⟩ := Fresh.name_inj h
          exact congrArg some (Prod.ext hroot hnumber)

end Llvm

end SmallC
