import SmallC.Proofs.CilExec
import SmallC.Proofs.FreshNames

/-!
# Control stays within a method

Labels are numbered by one counter that runs through all methods of an assembly.
Each control structure takes the next number before it lowers its parts, so the
labels of a piece of code have numbers between the counts at its start and at its
end, and pieces that follow each other share none. A branch is only ever written
together with the label that it leads to. `Segment` says both of a piece of code,
and code is put together piece by piece.

That control does not run off the end of a method hangs on something else. Where
the body of a function is said to return, nothing is written after it, so the
last thing that its statements write has to be the return itself.
-/

namespace SmallC

/-! ## Instructions of a listing -/

namespace Listing

theorem instructions_push (l : Listing) (line : Line) :
    (l.push line).instructions = l.instructions ++ match line with
      | .instr i => [i]
      | .directive _ => [] := by
  unfold instructions push
  rw [Array.toList_push, List.filterMap_append]
  cases line <;> rfl

theorem instructions_directive (l : Listing) (text : String) :
    (l.directive text).instructions = l.instructions :=
  (instructions_push l _).trans (List.append_nil _)

theorem instructions_directives (l : Listing) (texts : List String) :
    (l.directives texts).instructions = l.instructions := by
  unfold directives
  induction texts generalizing l with
  | nil => rfl
  | cons text rest ih => rw [List.foldl_cons, ih, instructions_directive]

theorem instructions_instrs (l : Listing) (is : List Instr) :
    (l.instrs is).instructions = l.instructions ++ is := by
  unfold instrs
  induction is generalizing l with
  | nil => exact (List.append_nil _).symm
  | cons i rest ih =>
      rw [List.foldl_cons, ih]
      show (l.push (.instr i)).instructions ++ rest = _
      rw [instructions_push, List.append_assoc, List.singleton_append]

theorem instructions_indent (l : Listing) : l.indent.instructions = l.instructions := rfl

theorem instructions_dedent (l : Listing) : l.dedent.instructions = l.instructions := rfl

/-- The labels of a listing, in order. -/
def labels (l : Listing) : List String := (l.instructions.filter (·.isLabel)).map (·.label)

end Listing

namespace Cil

/-! ## Labels and branches -/

theorem Assembly.instructions_listing (asm : Assembly) :
    asm.listing.instructions = asm.methods.flatMap fun m => m.body.map Instr.render := by
  have hmethods : ∀ (ms : List Method) (l : Listing),
      (ms.foldl Method.list l).instructions =
        l.instructions ++ ms.flatMap fun m => m.body.map Instr.render := by
    intro ms
    induction ms with
    | nil => exact fun l => (List.append_nil _).symm
    | cons m rest ih =>
        intro l
        rw [List.foldl_cons, ih, Method.list, Listing.instructions_directive,
          Listing.instructions_dedent, Listing.instructions_instrs,
          Listing.instructions_directives, Listing.instructions_indent,
          Listing.instructions_directive, Listing.instructions_directive, List.flatMap_cons,
          List.append_assoc]
  rw [Assembly.listing, Listing.instructions_directive, Listing.instructions_dedent, hmethods,
    Listing.instructions_directives, Listing.instructions_indent,
    Listing.instructions_directives]
  rfl

/-- The labels of code. -/
def labels (code : List Instr) : List Label := code.filterMap Instr.label?

/-- Where an instruction can branch to. -/
def Instr.target? : Instr → Option Label
  | .br l | .brtrue l | .brfalse l => some l
  | _ => none

/-- Where code can branch to. -/
def targets (code : List Instr) : List Label := code.filterMap Instr.target?

theorem labels_append (code more : List Instr) :
    labels (code ++ more) = labels code ++ labels more :=
  List.filterMap_append

theorem targets_append (code more : List Instr) :
    targets (code ++ more) = targets code ++ targets more :=
  List.filterMap_append

theorem mem_labels {l : Label} {code : List Instr} : l ∈ labels code ↔ .label l ∈ code := by
  refine List.mem_filterMap.trans ⟨?_, fun h => ⟨_, h, rfl⟩⟩
  rintro ⟨i, hi, hl⟩
  cases i <;> cases hl
  exact hi

theorem mem_targets {l : Label} {code : List Instr} {i : Instr} (hi : i ∈ code)
    (hl : i.target? = some l) : l ∈ targets code :=
  List.mem_filterMap.2 ⟨i, hi, hl⟩

/-- The name of a label without its number. -/
def Label.root : Label → String
  | ifFalse _ => "IL_IF_FALSE_"
  | ifEnd _ => "IL_IF_END_"
  | loopBody _ => "IL_WHILE_BODY_"
  | loopCtrl _ => "IL_WHILE_CTRL_"

theorem Label.text_eq (l : Label) : l.text = l.root ++ toString l.number := by
  cases l <;> rfl

/-- The digits of the name of a label are those of its number. -/
theorem Label.filter_text (l : Label) :
    l.text.toList.filter (·.isDigit) = (toString l.number).toList ∧
      l.text.toList.filter (!·.isDigit) = l.root.toList := by
  have hroot : ∀ c ∈ l.root.toList, c.isDigit = false := by
    cases l <;> simp [Label.root, Char.isDigit]
  have hnumber : ∀ c ∈ (toString l.number).toList, c.isDigit = true :=
    fun c hc => isDigit_of_mem_toString hc
  rw [Label.text_eq, String.toList_append, List.filter_append, List.filter_append]
  constructor
  · rw [List.filter_eq_nil_iff.2 fun c hc => by rw [hroot c hc]; decide,
      List.filter_eq_self.2 hnumber, List.nil_append]
  · rw [List.filter_eq_self.2 fun c hc => by rw [hroot c hc]; rfl,
      List.filter_eq_nil_iff.2 fun c hc => by rw [hnumber c hc]; decide, List.append_nil]

theorem Label.text_inj {l l' : Label} (h : l.text = l'.text) : l = l' := by
  obtain ⟨hdigits, hletters⟩ := l.filter_text
  obtain ⟨hdigits', hletters'⟩ := l'.filter_text
  have hnumber : l.number = l'.number :=
    toString_inj (String.toList_inj.1 (hdigits.symm.trans (h ▸ hdigits')))
  have hroot : l.root = l'.root := String.toList_inj.1 (hletters.symm.trans (h ▸ hletters'))
  cases l <;> cases l' <;> simp_all [Label.root, Label.number]

theorem Instr.isLabel_render_label (l : Label) : (Instr.label l).render.isLabel = true := by
  have hroot : l.root ≠ "" := by cases l <;> simp [Label.root]
  simp [Instr.render, Listing.Instr.isLabel, Label.text_eq, String.isEmpty_eq_false_iff, hroot]

/-- A label is written as one, and nothing else is. -/
theorem Instr.labels_render (code : List Instr) :
    ((code.map Instr.render).filter (·.isLabel)).map (·.label) = (labels code).map Label.text := by
  induction code with
  | nil => rfl
  | cons i rest ih =>
      have hi : i.label? = none ∧ i.render.isLabel = false ∨
          ∃ l, i = .label l ∧ i.render.isLabel = true := by
        cases i with
        | label l => exact .inr ⟨l, rfl, Instr.isLabel_render_label l⟩
        | library m => exact .inl ⟨rfl, by cases m <;> rfl⟩
        | _ => exact .inl ⟨rfl, Bool.and_false _⟩
      rcases hi with ⟨hnone, hplain⟩ | ⟨l, rfl, hlabel⟩
      · rw [List.map_cons, List.filter_cons_of_neg (by rw [hplain]; decide), ih, labels, labels,
          List.filterMap_cons_none hnone]
      · rw [List.map_cons, List.filter_cons_of_pos hlabel, List.map_cons, ih]
        rfl

/-! ## Expressions -/

/-- Whether an instruction neither marks a place nor moves control. -/
def Instr.isPlain : Instr → Bool
  | .br _ | .brtrue _ | .brfalse _ | .label _ | .ret => false
  | _ => true

/-- Code that control goes through from its first instruction to its last. -/
def Plain (code : List Instr) : Prop := ∀ i ∈ code, i.isPlain = true

instance (code : List Instr) : Decidable (Plain code) :=
  inferInstanceAs (Decidable (∀ i ∈ code, i.isPlain = true))

section Plain

variable {code more : List Instr}

theorem Plain.append (h : Plain code) (h' : Plain more) : Plain (code ++ more) :=
  List.forall_mem_append.2 ⟨h, h'⟩

theorem Plain.single {i : Instr} (h : i.isPlain = true) : Plain [i] :=
  List.forall_mem_singleton.2 h

theorem Plain.cons {i : Instr} (hi : i.isPlain = true) (h : Plain code) : Plain (i :: code) :=
  List.forall_mem_cons.2 ⟨hi, h⟩

theorem Plain.labels (h : Plain code) : labels code = [] :=
  List.filterMap_eq_nil_iff.2 fun i hi => by
    have hplain := h i hi
    cases i <;> first | rfl | cases hplain

theorem Plain.targets (h : Plain code) : targets code = [] :=
  List.filterMap_eq_nil_iff.2 fun i hi => by
    have hplain := h i hi
    cases i <;> first | rfl | cases hplain

theorem immediate_isPlain (v : Value) : (immediate v).isPlain = true := by
  unfold immediate
  split <;> first | rfl | split <;> rfl

theorem load_isPlain {c : Context} {pos : Pos} {id : Symbol} {i : Instr}
    (h : load c pos id = .ok i) : i.isPlain = true := by
  rcases load_ok h with ⟨-, rfl⟩ | ⟨-, rfl⟩ | ⟨-, rfl⟩ <;> rfl

theorem store_isPlain {c : Context} {id : Symbol} {i : Instr} (h : store c id = .ok i) :
    i.isPlain = true := by
  rcases store_ok h with ⟨-, rfl⟩ | ⟨-, rfl⟩ | ⟨-, rfl⟩ <;> rfl

theorem convertCode_plain {pos : Pos} {src : Option Ty} {dst : Base}
    (h : convertCode pos src dst = .ok code) : Plain code := by
  obtain ⟨_, -, hcode⟩ := convertCode_eq_ok h
  unfold convertCode? at hcode
  split at hcode <;> cases hcode <;> decide

theorem binaryCode?_plain {op : Op} {float : Bool} (h : binaryCode? op float = some code) :
    Plain code := by
  unfold binaryCode? at h
  split at h <;> cases h <;> decide

theorem builtinCode?_plain {name : String} (h : builtinCode? name = some code) : Plain code := by
  unfold builtinCode? at h
  split at h <;> cases h <;> decide

theorem zeroCode_plain (ty : Ty) : Plain (zeroCode ty) := by
  unfold zeroCode
  split <;> decide

end Plain

section

variable {c : Context} {e : Expr} {raw : Except Fault (List Instr)} {code : List Instr}

theorem plain_plain (hraw : ∀ code, raw = .ok code → Plain code) (h : plain c e raw = .ok code) :
    Plain code := by
  rcases plain_ok h with ⟨-, h⟩ | ⟨-, v, -, rfl⟩
  · exact hraw code h
  · exact .single (immediate_isPlain v)

theorem used_plain (hraw : ∀ code, raw = .ok code → Plain code) (h : used c e raw = .ok code) :
    Plain code := by
  rcases used_ok h with ⟨-, h⟩ | ⟨_, v, -, -, rfl⟩ | ⟨_, _, _, -, -, hfirst, hmore, rfl⟩
  · exact plain_plain hraw h
  · exact .single (immediate_isPlain v)
  · exact (plain_plain hraw hfirst).append (convertCode_plain hmore)

theorem callCode_plain {pos : Pos} {func : Option Ident} {args : Except Fault (List Instr)}
    (hargs : ∀ code, args = .ok code → Plain code) (h : callCode pos func args = .ok code) :
    Plain code := by
  obtain ⟨_, _, _, _, first, _, -, -, -, hfirst, rfl, ⟨-, hown⟩ | ⟨-, rfl⟩⟩ := callCode_ok h
  · exact (hargs first hfirst).append (builtinCode?_plain hown)
  · exact (hargs first hfirst).append (.single rfl)

end

mutual

/-- Control goes straight through the code of an expression. -/
theorem lowerRaw_plain {c : Context} :
    ∀ {e : Expr} {code : List Instr}, lowerRaw c e = .ok code → Plain code
  | .missing, _, h => by cases h
  | .literal _ _ _ _, _, h => by
      obtain ⟨_, -, rfl⟩ := lowerRaw_literal_ok h
      exact .single (immediate_isPlain _)
  | .ident _, _, h => by
      obtain ⟨_, _, -, hi, rfl⟩ := lowerRaw_ident_ok h
      exact .single (load_isPlain hi)
  | .convert _ _ _, _, h => by
      obtain ⟨_, _, hfirst, hmore, rfl⟩ := lowerRaw_convert_ok h
      exact (plain_plain (fun _ => lowerRaw_plain) hfirst).append (convertCode_plain hmore)
  | .unary _ _ _ _, _, h => by
      obtain ⟨_, hfirst, rfl⟩ := lowerRaw_unary_ok h
      refine (used_plain (fun _ => lowerRaw_plain) hfirst).append ?_
      split <;> decide
  | .binary _ _ _ _ _, _, h => by
      obtain ⟨_, _, _, _, hfirst, hsecond, -, hmore, rfl⟩ := lowerRaw_binary_ok h
      have hx := used_plain (fun _ => lowerRaw_plain) hfirst
      have hy := used_plain (fun _ => lowerRaw_plain) hsecond
      exact (hx.append hy).append (binaryCode?_plain hmore)
  | .index _ _ _ _, _, h => by
      obtain ⟨_, _, _, _, -, -, hget, hindex, rfl⟩ := lowerRaw_index_ok h
      have hi := used_plain (fun _ => lowerRaw_plain) hindex
      exact (Plain.cons (load_isPlain hget) hi).append (.single rfl)
  | .call _ _ _ _, _, h => by
      rw [lowerRaw] at h
      exact callCode_plain (fun _ => lowerArgs_plain) h

theorem lowerArgs_plain {c : Context} :
    ∀ {args : List Expr} {code : List Instr}, lowerArgs c args = .ok code → Plain code
  | [], _, h => by
      cases h
      decide
  | _ :: _, _, h => by
      obtain ⟨_, _, hfirst, hmore, rfl⟩ := lowerArgs_cons_ok h
      exact (used_plain (fun _ => lowerRaw_plain) hfirst).append (lowerArgs_plain hmore)

end

section

variable {c : Context} {code : List Instr}

theorem lowerExpr_plain {e : Expr} (h : lowerExpr c e = .ok code) : Plain code :=
  used_plain (fun _ => lowerRaw_plain) h

theorem lowerAssign_plain {pos : Pos} {target value : Expr}
    (h : lowerAssign c pos target value = .ok code) : Plain code := by
  cases target with
  | ident _ =>
      obtain ⟨_, _, _, hfirst, -, hset, rfl⟩ := lowerAssign_ident_ok h
      exact (lowerExpr_plain hfirst).append (.single (store_isPlain hset))
  | index _ _ _ _ =>
      obtain ⟨_, _, _, _, _, -, -, hget, hindex, hfirst, rfl⟩ := lowerAssign_index_ok h
      have hi := Plain.cons (load_isPlain hget) (lowerExpr_plain hindex)
      exact (hi.append (lowerExpr_plain hfirst)).append (.single rfl)
  | missing | literal _ _ _ _ | unary _ _ _ _ | binary _ _ _ _ _ | call _ _ _ _ | convert _ _ _ =>
      cases h

theorem lowerVars_plain {vars : List Node} (h : lowerVars c vars = .ok code) : Plain code := by
  induction vars generalizing code with
  | nil =>
      cases h
      decide
  | cons n rest ih =>
      rcases lowerVars_cons_ok h with ⟨_, _, _, _, _, _, -, hfirst, hmore, rfl⟩ | h
      · exact (lowerAssign_plain hfirst).append (ih hmore)
      · exact ih h

theorem lowerLoopCond_plain {cond inserted : Expr}
    (h : lowerLoopCond c cond inserted = .ok code) : Plain code := by
  rcases lowerLoopCond_ok h with ⟨-, h⟩ | ⟨-, h⟩
  · exact lowerExpr_plain h
  · exact lowerExpr_plain h

end

/-! ## Statements -/

/-- A piece of code whose labels have numbers after `n`, up to `n'`, each of them once, and whose
branches stay within the piece. -/
structure Segment (n n' : Nat) (code : List Instr) : Prop where
  le : n ≤ n'
  nodup : (labels code).Nodup
  numbered : ∀ l ∈ labels code, n < l.number ∧ l.number ≤ n'
  targets : targets code ⊆ labels code

section Segment

variable {n n₁ n₂ : Nat} {code more : List Instr}

theorem Plain.segment (h : Plain code) (n : Nat) : Segment n n code := by
  refine ⟨Nat.le_refl n, ?_, ?_, ?_⟩ <;> rw [h.labels]
  · exact .nil
  · exact fun l hl => (nomatch hl)
  · exact h.targets ▸ List.Subset.refl _

theorem Segment.nil (n : Nat) : Segment n n [] := Plain.segment (by decide) n

/-- Labels with numbers from different ranges differ. -/
theorem Segment.append (h : Segment n n₁ code) (h' : Segment n₁ n₂ more) :
    Segment n n₂ (code ++ more) := by
  have hle := h.le
  have hle' := h'.le
  refine ⟨Nat.le_trans hle hle', ?_, ?_, ?_⟩
  · rw [labels_append]
    refine List.nodup_append.2 ⟨h.nodup, h'.nodup, fun l hl l' hl' heq => ?_⟩
    have hn := h.numbered l hl
    have hn' := h'.numbered l' hl'
    rw [heq] at hn
    omega
  · rw [labels_append]
    refine List.forall_mem_append.2 ⟨fun l hl => ?_, fun l hl => ?_⟩
    · have hn := h.numbered l hl
      omega
    · have hn := h'.numbered l hl
      omega
  · rw [labels_append, targets_append]
    exact List.append_subset.2 ⟨List.subset_append_of_subset_left _ h.targets,
      List.subset_append_of_subset_right _ h'.targets⟩

/-- A return is no place to branch to, nor does it branch to one. -/
theorem Segment.ret (h : Segment n n₁ code) : Segment n n₁ (code ++ [.ret]) := by
  refine h.append ⟨Nat.le_refl _, .nil, fun l hl => (nomatch hl), List.Subset.refl _⟩

/-- A control structure adds labels of its own to those of its parts, with a number from before
them, and branches of its own to those labels. -/
theorem Segment.control (own goals : List Label) (h : Segment (n + 1) n₁ code)
    (hown : own.Nodup) (hnumber : ∀ l ∈ own, l.number = n + 1) (hgoals : goals ⊆ own)
    (hlabels : ∀ l, (labels more).count l = (own ++ labels code).count l)
    (htargets : ∀ l, (Cil.targets more).count l = (goals ++ Cil.targets code).count l) :
    Segment n n₁ more := by
  have hle := h.le
  replace hlabels := List.perm_iff_count.2 hlabels
  replace htargets := List.perm_iff_count.2 htargets
  refine ⟨by omega, hlabels.nodup_iff.2 ?_, fun l hl => ?_, fun l hl => hlabels.mem_iff.2 ?_⟩
  · refine List.nodup_append.2 ⟨hown, h.nodup, fun l hl l' hl' heq => ?_⟩
    have hn := h.numbered l' hl'
    rw [← heq, hnumber l hl] at hn
    omega
  · rcases List.mem_append.1 (hlabels.mem_iff.1 hl) with hl | hl
    · rw [hnumber l hl]
      omega
    · have hn := h.numbered l hl
      omega
  · rcases List.mem_append.1 (htargets.mem_iff.1 hl) with hl | hl
    · exact List.mem_append_left _ (hgoals hl)
    · exact List.mem_append_right _ (h.targets hl)

theorem ifCode_segment {cond yes no : List Instr} (hcond : Plain cond)
    (hyes : Segment (n + 1) n₁ yes) (hno : Segment n₁ n₂ no) :
    Segment n n₂ (ifCode (n + 1) cond yes no) := by
  have hlabels : labels (ifCode (n + 1) cond yes no) =
      labels yes ++ [.ifFalse (n + 1)] ++ labels no ++ [.ifEnd (n + 1)] := by
    rw [ifCode]
    simp only [labels_append, hcond.labels]
    rfl
  have htargets : targets (ifCode (n + 1) cond yes no) =
      [.ifFalse (n + 1)] ++ targets yes ++ [.ifEnd (n + 1)] ++ targets no := by
    rw [ifCode]
    simp only [targets_append, hcond.targets]
    exact List.append_nil _
  refine .control [.ifFalse (n + 1), .ifEnd (n + 1)] [.ifFalse (n + 1), .ifEnd (n + 1)]
    (hyes.append hno) (by simp) (by simp [Label.number]) (List.Subset.refl _) (fun l => ?_)
    fun l => ?_
  · simp only [hlabels, labels_append, List.count_append, List.count_cons, List.count_nil]
    omega
  · simp only [htargets, targets_append, List.count_append, List.count_cons, List.count_nil]
    omega

theorem loopCode_segment {body step cond : List Instr} (hbody : Segment (n + 1) n₁ body)
    (hstep : Segment n₁ n₂ step) (hcond : Plain cond) :
    Segment n n₂ (loopCode (n + 1) body step cond) := by
  have hlabels : labels (loopCode (n + 1) body step cond) =
      [.loopBody (n + 1)] ++ labels body ++ labels step ++ [.loopCtrl (n + 1)] := by
    rw [loopCode]
    simp only [labels_append, hcond.labels]
    exact (List.append_nil _).trans (List.append_nil _)
  have htargets : targets (loopCode (n + 1) body step cond) =
      [.loopCtrl (n + 1)] ++ targets body ++ targets step ++ [.loopBody (n + 1)] := by
    rw [loopCode]
    simp only [targets_append, hcond.targets]
    exact congrArg (· ++ _) ((List.append_nil _).trans (List.append_nil _))
  refine .control [.loopBody (n + 1), .loopCtrl (n + 1)] [.loopCtrl (n + 1), .loopBody (n + 1)]
    (hbody.append hstep) (by simp) (by simp [Label.number]) (by simp) (fun l => ?_) fun l => ?_
  · simp only [hlabels, labels_append, List.count_append, List.count_cons, List.count_nil]
    omega
  · simp only [htargets, targets_append, List.count_append, List.count_cons, List.count_nil]
    omega

end Segment

theorem lowerPart_segment {c : Context} {part : Stmt} {n n' : Nat} {code : List Instr}
    (hstmt : ∀ n n' code, lowerStmt c n part = .ok (n', code) → Segment n n' code)
    (h : lowerPart c n part = .ok (n', code)) : Segment n n' code := by
  rcases lowerPart_ok h with ⟨-, rfl, rfl⟩ | ⟨-, h⟩
  · exact .nil _
  · exact hstmt _ _ _ h

mutual

theorem lowerStmt_segment {c : Context} :
    ∀ {stmt : Stmt} {n n' : Nat} {code : List Instr},
      lowerStmt c n stmt = .ok (n', code) → Segment n n' code
  | .missing, _, _, _, h => by
      rw [lowerStmt] at h
      cases h
  | .call _ _ _ note, _, n, _, h => by
      obtain ⟨rfl, _, hfirst, rfl⟩ := lowerStmt_call_ok h
      have hpop : Plain (if note.type.any (!·.isVoid) then [.pop] else []) := by
        split <;> decide
      exact ((callCode_plain (fun _ => lowerArgs_plain) hfirst).append hpop).segment n
  | .assign _ _ _ _, _, n, _, h => by
      obtain ⟨rfl, hassign⟩ := lowerStmt_assign_ok h
      exact (lowerAssign_plain hassign).segment n
  | .varDecl _ _ _, _, n, _, h => by
      obtain ⟨rfl, hvars⟩ := lowerStmt_varDecl_ok h
      exact (lowerVars_plain hvars).segment n
  | .arrayDecl _ _ _ _, _, n, _, h => by
      obtain ⟨rfl, _, _, _, set, -, -, hsize, hset, rfl⟩ := lowerStmt_arrayDecl_ok h
      have hmake : ∀ elem, Plain [.newarr elem, set] :=
        fun _ => .cons rfl (.single (store_isPlain hset))
      exact ((lowerExpr_plain hsize).append (hmake _)).segment n
  | .ifElse _ _ _ _, _, _, _, h => by
      obtain ⟨_, _, _, _, hcond, hyes, hno, rfl⟩ := lowerStmt_ifElse_ok h
      exact ifCode_segment (lowerExpr_plain hcond) (lowerBlock_segment hyes)
        (lowerBlock_segment hno)
  | .whileLoop _ _ _, _, _, _, h => by
      obtain ⟨_, _, hbody, hcond, rfl⟩ := lowerStmt_whileLoop_ok h
      exact loopCode_segment (lowerBlock_segment hbody) (.nil _) (lowerExpr_plain hcond)
  | .forLoop _ _ _ _ _ _, _, _, _, h => by
      obtain ⟨_, _, _, _, _, _, hfirst, hbody, hlast, hcond, rfl⟩ := lowerStmt_forLoop_ok h
      exact (lowerPart_segment (fun _ _ _ => lowerStmt_segment) hfirst).append
        (loopCode_segment (lowerBlock_segment hbody)
          (lowerPart_segment (fun _ _ _ => lowerStmt_segment) hlast) (lowerLoopCond_plain hcond))
  | .block _, _, _, _, h => by
      rw [lowerStmt] at h
      exact lowerBlock_segment h
  | .funcDecl _ _ _ _ _ _ _, n, _, _, h => by
      rw [lowerStmt] at h
      cases h
      exact .nil n
  | .ret _ _, _, n, _, h => by
      obtain ⟨rfl, _, rfl, ⟨-, rfl⟩ | ⟨-, hvalue⟩⟩ := lowerStmt_ret_ok h
      · exact (Segment.nil n).ret
      · exact ((lowerExpr_plain hvalue).segment n).ret

theorem lowerBlock_segment {c : Context} :
    ∀ {b : Block} {n n' : Nat} {code : List Instr},
      lowerBlock c n b = .ok (n', code) → Segment n n' code
  | .missing, n, _, _, h => by
      rw [lowerBlock] at h
      cases h
      exact .nil n
  | .of _ _, _, _, _, h => by
      rw [lowerBlock] at h
      exact lowerStmts_segment h

theorem lowerStmts_segment {c : Context} :
    ∀ {stmts : List Stmt} {n n' : Nat} {code : List Instr},
      lowerStmts c n stmts = .ok (n', code) → Segment n n' code
  | [], n, _, _, h => by
      rw [lowerStmts] at h
      cases h
      exact .nil n
  | _ :: _, _, _, _, h => by
      obtain ⟨_, _, _, hfirst, hmore, rfl⟩ := lowerStmts_cons_ok h
      exact (lowerStmt_segment hfirst).append (lowerStmts_segment hmore)

end

/-! ## Returns -/

mutual

/-- The code of a statement that returns ends with the return. -/
theorem lowerStmt_returns {c : Context} :
    ∀ {stmt : Stmt} {n n' : Nat} {code : List Instr}, stmt.returns = true →
      lowerStmt c n stmt = .ok (n', code) → ∃ init, code = init ++ [.ret]
  | .ret _ _, _, _, _, _, h => by
      obtain ⟨-, first, rfl, -⟩ := lowerStmt_ret_ok h
      exact ⟨first, rfl⟩
  | .block _, _, _, _, hreturns, h => by
      rw [Stmt.returns] at hreturns
      rw [lowerStmt] at h
      exact lowerBlock_returns hreturns h
  | .missing, _, _, _, hreturns, _ | .call _ _ _ _, _, _, _, hreturns, _
  | .assign _ _ _ _, _, _, _, hreturns, _ | .varDecl _ _ _, _, _, _, hreturns, _
  | .arrayDecl _ _ _ _, _, _, _, hreturns, _ | .ifElse _ _ _ _, _, _, _, hreturns, _
  | .whileLoop _ _ _, _, _, _, hreturns, _ | .forLoop _ _ _ _ _ _, _, _, _, hreturns, _
  | .funcDecl _ _ _ _ _ _ _, _, _, _, hreturns, _ => by
      simp [Stmt.returns] at hreturns

theorem lowerBlock_returns {c : Context} :
    ∀ {b : Block} {n n' : Nat} {code : List Instr}, b.returns = true →
      lowerBlock c n b = .ok (n', code) → ∃ init, code = init ++ [.ret]
  | .missing, _, _, _, hreturns, _ => by simp [Block.returns] at hreturns
  | .of _ _, _, _, _, hreturns, h => by
      rw [Block.returns] at hreturns
      rw [lowerBlock] at h
      exact lowerStmts_returns hreturns h

theorem lowerStmts_returns {c : Context} :
    ∀ {stmts : List Stmt} {n n' : Nat} {code : List Instr}, Stmt.lastReturns stmts = true →
      lowerStmts c n stmts = .ok (n', code) → ∃ init, code = init ++ [.ret]
  | [], _, _, _, hreturns, _ => by simp [Stmt.lastReturns] at hreturns
  | [_], _, _, _, hreturns, h => by
      rw [Stmt.lastReturns] at hreturns
      obtain ⟨_, code, _, hcode, hnil, rfl⟩ := lowerStmts_cons_ok h
      cases hnil
      obtain ⟨init, rfl⟩ := lowerStmt_returns hreturns hcode
      exact ⟨init, List.append_nil _⟩
  | _ :: s :: rest, _, _, _, hreturns, h => by
      simp only [Stmt.lastReturns] at hreturns
      obtain ⟨_, first, _, -, hmore, rfl⟩ := lowerStmts_cons_ok h
      obtain ⟨init, rfl⟩ := lowerStmts_returns hreturns hmore
      exact ⟨first ++ init, (List.append_assoc _ _ _).symm⟩

end

/-! ## Methods -/

/-- The labels of a method have numbers after `n`, up to `n'`, its branches stay within it, and its
last instruction is a return. -/
structure Method.Closed (n n' : Nat) (m : Method) : Prop where
  segment : Segment n n' m.body
  returns : ∃ init, m.body = init ++ [.ret]

/-- The code of methods, one after the other. -/
def Method.codeOf (methods : List Method) : List Instr := methods.flatMap (·.body)

section

variable {fold : Bool} {n n' : Nat}

/-- The zero that is returned at the end needs no return before it, and a body that returns needs
none after it. -/
theorem lowerFunction_closed {d : FuncDecl} {m : Method}
    (h : lowerFunction fold n d = .ok (n', m)) : m.Closed n n' := by
  obtain ⟨f, code, -, hcode, rfl⟩ := lowerFunction_ok h
  have hsegment := lowerBlock_segment hcode
  cases hreturns : d.body.returns with
  | true =>
      refine ⟨?_, ?_⟩ <;> dsimp only <;> rw [if_pos rfl, List.append_nil]
      · exact hsegment
      · exact lowerBlock_returns hreturns hcode
  | false =>
      refine ⟨?_, code ++ zeroCode f.result, ?_⟩ <;> dsimp only <;>
        rw [if_neg Bool.false_ne_true, ← List.append_assoc]
      exact (hsegment.append ((zeroCode_plain f.result).segment _)).ret

theorem lowerInitializer_closed {program : Block} {m : Method}
    (h : lowerInitializer fold n program = .ok m) : ∃ n', m.Closed n n' := by
  obtain ⟨n', code, hcode, rfl⟩ := lowerInitializer_ok h
  exact ⟨n', (lowerBlock_segment hcode).ret, code, rfl⟩

theorem lowerFunctions_closed {ds : List FuncDecl} {methods : List Method}
    (h : lowerFunctions fold n ds = .ok (n', methods)) :
    Segment n n' (Method.codeOf methods) ∧ ∀ m ∈ methods, ∃ k k', m.Closed k k' := by
  induction ds generalizing n methods with
  | nil =>
      cases h
      exact ⟨.nil _, fun _ hm => (nomatch hm)⟩
  | cons d rest ih =>
      obtain ⟨_, _, _, hmethod, hmore, rfl⟩ := lowerFunctions_cons_ok h
      have hclosed := lowerFunction_closed hmethod
      obtain ⟨hsegment, hrest⟩ := ih hmore
      exact ⟨hclosed.segment.append hsegment, List.forall_mem_cons.2 ⟨⟨_, _, hclosed⟩, hrest⟩⟩

end

theorem Assembly.closed {a : Analysis} {opts : Options} {asm : Assembly}
    (h : Assembly.ofAnalysis a opts = .ok asm) :
    (∃ n, Segment 0 n (Method.codeOf asm.methods)) ∧
      ∀ m ∈ asm.methods, ∃ k k', m.Closed k k' := by
  obtain ⟨ds, n, methods, last, -, hmethods, rfl, hlast⟩ := Assembly.ofAnalysis_ok h
  obtain ⟨hsegment, hclosed⟩ := lowerFunctions_closed hmethods
  rcases hlast with rfl | ⟨initializer, hinit, rfl⟩
  · rw [List.append_nil]
    exact ⟨⟨n, hsegment⟩, hclosed⟩
  · obtain ⟨n', hlast⟩ := lowerInitializer_closed hinit
    refine ⟨⟨n', ?_⟩, List.forall_mem_append.2
      ⟨hclosed, List.forall_mem_singleton.2 ⟨_, _, hlast⟩⟩⟩
    have hcode : Method.codeOf (methods ++ [initializer]) =
        Method.codeOf methods ++ initializer.body := by
      rw [Method.codeOf, List.flatMap_append, List.flatMap_singleton]
      rfl
    rw [hcode]
    exact hsegment.append hlast.segment

theorem Assembly.labels_listing (asm : Assembly) :
    asm.listing.labels = (Cil.labels (Method.codeOf asm.methods)).map Label.text := by
  have hcode : (asm.methods.flatMap fun m => m.body.map Instr.render) =
      (Method.codeOf asm.methods).map Instr.render := List.map_flatMap.symm
  rw [Listing.labels, Assembly.instructions_listing, hcode, Instr.labels_render]

theorem Method.Closed.target_mem {m : Method} {n n' : Nat} (h : m.Closed n n') {i : Instr}
    {l : Label} (hi : i ∈ m.body) (hl : i.target? = some l) : .label l ∈ m.body :=
  mem_labels.1 (h.segment.targets (mem_targets hi hl))

theorem Method.Closed.getLast? {m : Method} {n n' : Nat} (h : m.Closed n n') :
    m.body.getLast? = some .ret := by
  obtain ⟨init, hinit⟩ := h.returns
  rw [hinit, List.getLast?_concat]

end Cil

/-- Control stays within the methods of an assembly. No two labels of its listing are the same, a
branch leads to a label of the method it stands in, and the last instruction of a method is a
return, so that neither the end of the code nor a label there can be run into. -/
theorem Analysis.cil_control_confined {b : Block} {a : Analysis}
    (ha : Analysis.ofProgram b = .ok a) (opts : Options) :
    ∃ asm, Cil.Assembly.ofAnalysis a opts = .ok asm ∧ asm.listing.labels.Nodup ∧
      ∀ m ∈ asm.methods,
        (∀ i ∈ m.body, ∀ l, i.target? = some l → .label l ∈ m.body) ∧
        (∀ l, m.body.getLast? ≠ some (.label l)) ∧ m.body.getLast? = some .ret := by
  obtain ⟨htyped, -, hstatic⟩ := Analysis.ofProgram_checked ha
  obtain ⟨pos, stmts, t, stmts', -, -, rfl⟩ := Analysis.ofProgram_ok ha
  obtain ⟨asm, hasm⟩ := Cil.Assembly.ofAnalysis_succeeds rfl htyped hstatic opts
  obtain ⟨⟨n, hsegment⟩, hclosed⟩ := Cil.Assembly.closed hasm
  refine ⟨asm, hasm, ?_, fun m hm => ?_⟩
  · rw [Cil.Assembly.labels_listing]
    exact List.pairwise_map.2 (hsegment.nodup.imp fun hne heq => hne (Cil.Label.text_inj heq))
  · obtain ⟨k, k', hm⟩ := hclosed m hm
    have hlast := hm.getLast?
    refine ⟨fun i hi l => hm.target_mem hi, fun l heq => ?_, hlast⟩
    rw [hlast] at heq
    cases heq

/-- Nothing is written after a return that a block in a body ends with, and a return is added after
a loop, even where its body returns. -/
theorem Analysis.cil_control_confined_after_loop :
    ∃ b a asm,
      Block.parse ("(func int f ((int i)) (block (block (if (== i 2) (block (return i))) " ++
        "(return 1)))) (func void main () (block (while (== 1 1) (block (return)))))") = .ok b ∧
      Analysis.ofProgram b = .ok a ∧ Cil.Assembly.ofAnalysis a ⟨true, "program"⟩ = .ok asm ∧
      asm.methods.length = 2 ∧ asm.listing.labels.length = 4 ∧ asm.listing.labels.Nodup ∧
      ∀ m ∈ asm.methods, m.body.getLast? = some .ret := by
  have htext : ((Analysis.ofText?
      ("(func int f ((int i)) (block (block (if (== i 2) (block (return i))) " ++
        "(return 1)))) (func void main () (block (while (== 1 1) (block (return)))))")).any fun a =>
        (Cil.Assembly.ofAnalysis a ⟨true, "program"⟩).toOption.any fun asm =>
          asm.methods.length = 2 ∧ (Cil.labels (Cil.Method.codeOf asm.methods)).length = 4) =
            true := by
    decide +kernel
  obtain ⟨a, ha, hany⟩ := (Option.any_eq_true _ _).1 htext
  obtain ⟨b, hb, ha⟩ := Analysis.ofText?_eq_some ha
  obtain ⟨asm, hasm, hnodup, hall⟩ := Analysis.cil_control_confined ha ⟨true, "program"⟩
  rw [hasm] at hany
  obtain ⟨hmethods, hlabels⟩ := of_decide_eq_true hany
  have hlisted : asm.listing.labels.length = 4 := by
    rw [Cil.Assembly.labels_listing, List.length_map, hlabels]
  exact ⟨b, a, asm, hb, ha, hasm, hmethods, hlisted, hnodup, fun m hm => (hall m hm).2.2⟩

end SmallC
