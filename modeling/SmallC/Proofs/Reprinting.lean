import SmallC.Proofs.Balance
import SmallC.Proofs.Erasure
import SmallC.Proofs.Reading

/-!
# Reading what has been written

Forms are written with a single space between them, and reading gives them back.
Comments are gone then, and so is every other place, so that this is said of forms
without their positions. What there is to see is that no two tokens run together
and none falls apart: every atom that was read is a word or a quoted character,
and is followed by a space, a parenthesis or the end.

From forms it goes on to programs. What forms are made into does not depend on
where they stand, so forms that are the same apart from positions are the same
program apart from positions.
-/

namespace SmallC

namespace Token

/-- A token without its position. -/
def erase : Token → Token
  | opening _ => opening .nowhere
  | closing _ => closing .nowhere
  | atom _ text => atom .nowhere text
  | torn _ => torn .nowhere

theorem erase_loose (t : Token) : t.loose.erase = t.erase := by cases t <;> rfl

theorem depth_erase (d : Nat) (ts : List Token) : depth d (ts.map erase) = depth d ts := by
  induction ts generalizing d with
  | nil => rfl
  | cons t ts ih =>
      cases t with
      | opening p => cases d <;> exact ih _
      | atom p text => cases d <;> exact ih _
      | torn p => cases d <;> rfl
      | closing p =>
          cases d with
          | zero => rfl
          | succ d => exact ih d

end Token

namespace Form

open Token

mutual

/-- A form without its positions. -/
def erase : Form → Form
  | atom _ text => .atom .nowhere text
  | list _ items => .list .nowhere (eraseAll items)

/-- Forms without their positions. -/
def eraseAll : List Form → List Form
  | [] => []
  | f :: rest => f.erase :: eraseAll rest

end

mutual

theorem flatten_erase : ∀ f : Form, f.erase.flatten = f.flatten.map Token.erase
  | .atom _ _ => rfl
  | .list _ items => by
      rw [erase, flatten, flatten, flattenAll_erase items]
      simp [Token.erase]

theorem flattenAll_erase : ∀ fs : List Form,
    flattenAll (eraseAll fs) = (flattenAll fs).map Token.erase
  | [] => rfl
  | f :: fs => by
      rw [eraseAll, flattenAll, flattenAll, flatten_erase f, flattenAll_erase fs, List.map_append]

end

mutual

theorem loose_flatten : ∀ f : Form, f.flatten.map loose = f.flatten
  | .atom _ _ => rfl
  | .list _ items => by
      rw [flatten, List.map_cons, List.map_append, loose_flattenAll items]
      rfl

theorem loose_flattenAll : ∀ fs : List Form, (flattenAll fs).map loose = flattenAll fs
  | [] => rfl
  | f :: fs => by rw [flattenAll, List.map_append, loose_flatten f, loose_flattenAll fs]

end

/-- Forms with the same tokens are the same. -/
theorem flattenAll_inj {fs gs : List Form} (h : flattenAll fs = flattenAll gs) : fs = gs := by
  have hfs := ofTokens_ok_iff.2 (loose_flattenAll fs).symm
  have hgs := ofTokens_ok_iff.2 (loose_flattenAll gs).symm
  rw [h, hgs] at hfs
  exact (Except.ok.inj hfs).symm

/-! ## Cutting what has been written -/

mutual

/-- The text of a form is cut into the tokens of the form, if what follows does not go on with its
last atom. -/
theorem cuts_text : ∀ (f : Form), (∀ q text, .atom q text ∈ f.flatten → Legible text) →
    ∀ {p : Pos} {cs : List Char} {ts : List Token}, Ends cs → Cuts (p.past f.text.toList) cs ts →
      ∃ us, us.map Token.erase = f.flatten.map Token.erase ∧
        Cuts p (f.text.toList ++ cs) (us ++ ts)
  | .atom q text, hlegible, p, cs, ts, hends, hcuts => by
      rw [Form.text] at hcuts ⊢
      refine ⟨[.atom p text], rfl, ?_⟩
      cases hlegible q text (by simp [flatten]) with
      | word hword =>
          rw [String.toList_ofList] at hcuts ⊢
          exact .word hword hends hcuts
      | quoted hbody =>
          rw [String.toList_ofList] at hcuts ⊢
          rw [List.cons_append, List.append_assoc]
          exact .quoted hbody hcuts
  | .list q items, hlegible, p, cs, ts, hends, hcuts => by
      have htext : (Form.list q items).text.toList =
          '(' :: ((Text.join " " (texts items)).toList ++ [')']) := by
        simp [Form.text]
      rw [htext] at hcuts ⊢
      rw [Pos.past_cons, Pos.past_append] at hcuts
      have hitems : ∀ q text, .atom q text ∈ flattenAll items → Legible text := by
        intro q' text hmem
        exact hlegible q' text (by simp [flatten, hmem])
      have hclosing : Ends (')' :: cs) := by simp [Ends, isDelimiter]
      obtain ⟨us, hus, hcuts'⟩ := cuts_texts items hitems (p := p.after '(') hclosing (.closing hcuts)
      refine ⟨.opening p :: (us ++ [.closing ((p.after '(').past (Text.join " " (texts items)).toList)]),
        ?_, ?_⟩
      · simp [flatten, Token.erase, hus]
      · simpa using Cuts.opening hcuts'

theorem cuts_texts : ∀ (fs : List Form), (∀ q text, .atom q text ∈ flattenAll fs → Legible text) →
    ∀ {p : Pos} {cs : List Char} {ts : List Token}, Ends cs →
      Cuts (p.past (Text.join " " (texts fs)).toList) cs ts →
      ∃ us, us.map Token.erase = (flattenAll fs).map Token.erase ∧
        Cuts p ((Text.join " " (texts fs)).toList ++ cs) (us ++ ts)
  | [], _, p, cs, ts, _, hcuts => ⟨[], rfl, hcuts⟩
  | [f], hlegible, p, cs, ts, hends, hcuts => by
      have htext : (Text.join " " (texts [f])).toList = f.text.toList := by
        simp [texts, Text.join]
      rw [htext] at hcuts ⊢
      have hf : ∀ q text, .atom q text ∈ f.flatten → Legible text := by
        intro q text hmem
        exact hlegible q text (by simp [flattenAll, hmem])
      obtain ⟨us, hus, hcuts'⟩ := cuts_text f hf hends hcuts
      exact ⟨us, by simpa [flattenAll] using hus, hcuts'⟩
  | f :: g :: fs, hlegible, p, cs, ts, hends, hcuts => by
      have htext : (Text.join " " (texts (f :: g :: fs))).toList =
          f.text.toList ++ ' ' :: (Text.join " " (texts (g :: fs))).toList := by
        simp [texts, Text.join, String.intercalate_cons_cons]
      rw [htext] at hcuts ⊢
      rw [Pos.past_append, Pos.past_cons] at hcuts
      rw [flattenAll] at hlegible
      obtain ⟨vs, hvs, hrest⟩ := cuts_texts (g :: fs)
        (fun q text hmem => hlegible q text (List.mem_append_right _ hmem)) hends hcuts
      have hspace : Ends (' ' :: ((Text.join " " (texts (g :: fs))).toList ++ cs)) := by
        simp [Ends, isDelimiter, isSpace]
      obtain ⟨us, hus, hcuts'⟩ := cuts_text f
        (fun q text hmem => hlegible q text (List.mem_append_left _ hmem)) hspace (.space rfl hrest)
      refine ⟨us ++ vs, ?_, ?_⟩
      · rw [flattenAll, List.map_append, List.map_append, hus, hvs]
      · simpa using hcuts'

end

/-- What has been read and written out is read again, up to positions. -/
theorem read_texts_ok {text : String} {forms : List Form} (h : read text = .ok forms) :
    ∃ forms', read (Text.join " " (texts forms)) = .ok forms' ∧
      eraseAll forms' = eraseAll forms := by
  have hforms := ofTokens_ok_iff.1 h
  have hcuts : Cuts .start text.toList (scan text) := cuts_iff.2 rfl
  have hlegible : ∀ q t, .atom q t ∈ flattenAll forms → Legible t := by
    intro q t hmem
    rw [hforms] at hmem
    obtain ⟨u, hu, heq⟩ := List.mem_map.1 hmem
    exact hcuts.legible q t (loose_eq_atom heq ▸ hu)
  have hends : Ends [] := by simp [Ends]
  obtain ⟨us, hus, hcuts'⟩ := cuts_texts forms hlegible (p := .start) hends (.done _)
  rw [List.append_nil, List.append_nil] at hcuts'
  have hscan : scan (Text.join " " (texts forms)) = us := (cuts_iff.1 hcuts').symm
  have herase : (scan text).map (Token.erase ∘ loose) = (scan text).map Token.erase :=
    List.map_congr_left fun t _ => erase_loose t
  have hdepth : depth 0 us = some 0 := by
    rw [← depth_erase, hus, hforms, List.map_map, herase, depth_erase]
    exact depth_of_ok h
  obtain ⟨forms', hforms'⟩ := ofTokens_balanced hdepth
  refine ⟨forms', by rw [read, hscan, hforms'], flattenAll_inj ?_⟩
  rw [flattenAll_erase, flattenAll_erase, ← hus, ofTokens_ok_iff.1 hforms', List.map_map]
  exact List.map_congr_left fun t _ => erase_loose t

/-! ## Making a program of forms elsewhere -/

/-- Two attempts that come to the same, where `g` takes the positions out of what the first one comes
to. Of their errors nothing is said. -/
def Moved {α β : Type} (g : α → β) (x : Except Error α) (x' : Except Error β) : Prop :=
  x'.toOption = x.toOption.map g

namespace Moved

variable {α β γ δ : Type} {g : α → β} {g' : γ → δ}

theorem ok (a : α) : Moved g (.ok a) (.ok (g a)) := rfl

theorem error (e e' : Error) : Moved g (.error e) (.error e') := rfl

theorem bind {x : Except Error α} {x' : Except Error β} {k : α → Except Error γ}
    {k' : β → Except Error δ} (h : Moved g x x') (hk : ∀ a, Moved g' (k a) (k' (g a))) :
    Moved g' (x >>= k) (x' >>= k') := by
  cases x with
  | error e =>
      cases x' with
      | error e' => rfl
      | ok b => cases h
  | ok a =>
      cases x' with
      | error e' => cases h
      | ok b =>
          cases h
          exact hk a

theorem map {x : Except Error α} {x' : Except Error β} {f : α → γ} {f' : β → δ}
    (h : Moved g x x') (hf : ∀ a, f' (g a) = g' (f a)) : Moved g' (x.map f) (x'.map f') := by
  cases x with
  | error e =>
      cases x' with
      | error e' => rfl
      | ok b => cases h
  | ok a =>
      cases x' with
      | error e' => cases h
      | ok b =>
          cases h
          exact congrArg some (hf a)

theorem mapM {f : α → Except Error γ} {f' : β → Except Error δ} {as : List α}
    (h : ∀ a ∈ as, Moved g' (f a) (f' (g a))) :
    Moved (List.map g') (as.mapM f) ((as.map g).mapM f') := by
  induction as with
  | nil => exact .ok []
  | cons a as ih =>
      obtain ⟨ha, has⟩ := List.forall_mem_cons.1 h
      rw [List.map_cons, List.mapM_cons, List.mapM_cons]
      exact ha.bind fun b => (ih has).bind fun bs => .ok (b :: bs)

end Moved

theorem eraseAll_eq_map (fs : List Form) : eraseAll fs = fs.map erase := by
  induction fs with
  | nil => rfl
  | cons f fs ih => rw [eraseAll, ih, List.map_cons]

theorem erase_list (pos : Pos) (items : List Form) :
    (list pos items).erase = .list .nowhere (items.map erase) := by
  rw [erase, eraseAll_eq_map]

theorem headOf_erase (items : List Form) : headOf (items.map erase) = headOf items := by
  cases items with
  | nil => rfl
  | cons f items => cases f <;> rfl

theorem isAtom_erase (text : String) (f : Form) : f.erase.isAtom text = f.isAtom text := by
  cases f <;> rfl

theorem isList_erase (f : Form) : f.erase.isList = f.isList := by
  cases f <;> rfl

theorem toIdent_erase (f : Form) : Moved Ident.erase f.toIdent f.erase.toIdent := by
  cases f with
  | atom pos text =>
      rw [erase, toIdent, toIdent]
      split
      · exact .error _ _
      · exact .ok _
  | list pos items => exact .error _ _

theorem toType_erase (f : Form) :
    Moved (fun out : Ident × Bool => (out.1.erase, out.2)) f.toType f.erase.toType := by
  cases f with
  | atom pos text =>
      rw [erase, toType, toType]
      split <;> exact .ok _
  | list pos items => exact .error _ _

theorem toExprs_erase {fs : List Form} (h : ∀ f ∈ fs, Moved Expr.erase f.toExpr f.erase.toExpr) :
    Moved (List.map Expr.erase) (toExprs fs) (toExprs (fs.map erase)) := by
  induction fs with
  | nil =>
      rw [List.map_nil, toExprs]
      exact .ok []
  | cons f fs ih =>
      obtain ⟨hf, hfs⟩ := List.forall_mem_cons.1 h
      rw [List.map_cons, toExprs, toExprs]
      exact hf.bind fun e => (ih hfs).bind fun es => .ok (e :: es)

theorem toExpr_erase (f : Form) : Moved Expr.erase f.toExpr f.erase.toExpr := by
  induction f using Form.induct with
  | atom pos text =>
      rw [erase, toExpr, toExpr]
      split
      · exact .ok _
      · exact (toIdent_erase (.atom pos text)).map fun _ => rfl
  | list pos items ih =>
      rw [erase_list]
      unfold toExpr
      rw [headOf_erase]
      split
      · rcases items with _ | ⟨_, _ | ⟨array, _ | ⟨i, _ | _⟩⟩⟩
        case cons.cons.cons.nil =>
          exact (toIdent_erase array).bind fun _ => (ih i (by simp)).bind fun _ => .ok _
        all_goals exact .error _ _
      · split
        · rcases items with _ | ⟨_, _ | ⟨func, args⟩⟩
          case cons.cons =>
            have hargs : ∀ f ∈ args, Moved Expr.erase f.toExpr f.erase.toExpr :=
              fun f hf => ih f (by simp [hf])
            exact (toIdent_erase func).bind fun _ => (toExprs_erase hargs).bind fun _ =>
              congrArg some (Expr.erase_call (some _) _).symm
          all_goals exact .error _ _
        · split
          · exact .error _ _
          · rcases items with _ | ⟨_, _ | ⟨x, _ | ⟨y, _ | _⟩⟩⟩
            case cons.cons.nil =>
              dsimp only [List.map_cons, List.map_nil]
              split
              · exact (ih x (by simp)).bind fun _ => .ok _
              · exact .error _ _
            case cons.cons.cons.nil =>
              exact (ih x (by simp)).bind fun _ => (ih y (by simp)).bind fun _ => .ok _
            all_goals exact .error _ _

theorem toTarget_erase (f : Form) : Moved Expr.erase f.toTarget f.erase.toTarget := by
  cases f with
  | atom pos text => exact (toIdent_erase (.atom pos text)).map fun _ => rfl
  | list pos items =>
      have hexpr := toExpr_erase (.list pos items)
      rw [erase_list] at hexpr ⊢
      unfold toTarget
      dsimp only
      rw [headOf_erase]
      split
      · exact hexpr
      · exact .error _ _

theorem toAssign_erase (f : Form) : Moved Stmt.erase f.toAssign f.erase.toAssign := by
  cases f with
  | atom pos text => exact .error _ _
  | list pos items =>
      rw [erase_list]
      unfold toAssign
      dsimp only
      rw [headOf_erase]
      split
      · exact .error _ _
      · rcases items with _ | ⟨_, _ | ⟨target, _ | ⟨value, _ | _⟩⟩⟩
        case cons.cons.cons.nil =>
          exact (toTarget_erase target).bind fun _ => (toExpr_erase value).bind fun _ => .ok _
        all_goals exact .error _ _

theorem toVar_erase (f : Form) : Moved Node.erase f.toVar f.erase.toVar := by
  unfold toVar
  rw [isList_erase]
  split
  · exact (toAssign_erase f).map fun _ => rfl
  · exact (toIdent_erase f).map fun _ => rfl

theorem toParam_erase (f : Form) :
    Moved (Option.map Param.erase) f.toParam f.erase.toParam := by
  cases f with
  | atom pos text => exact .error _ _
  | list pos items =>
      rw [erase_list]
      rcases items with _ | ⟨type, _ | ⟨name, _ | _⟩⟩
      case cons.cons.nil =>
        exact (toType_erase type).bind fun _ => (toIdent_erase name).bind fun _ => .ok _
      all_goals exact .error _ _

theorem toParams_erase (f : Form) : Moved Params.erase f.toParams f.erase.toParams := by
  cases f with
  | atom pos text => exact .error _ _
  | list pos items =>
      rw [erase_list]
      exact (Moved.mapM fun f _ => toParam_erase f).bind fun _ => .ok _

theorem toOptExpr_erase (f : Form) : Moved Expr.erase f.toOptExpr f.erase.toOptExpr := by
  unfold toOptExpr
  rw [isAtom_erase]
  split
  · exact .ok _
  · exact toExpr_erase f

theorem toStmts_erase {fs : List Form} (h : ∀ f ∈ fs, Moved Stmt.erase f.toStmt f.erase.toStmt) :
    Moved (List.map Stmt.erase) (toStmts fs) (toStmts (fs.map erase)) := by
  induction fs with
  | nil =>
      rw [List.map_nil, toStmts]
      exact .ok []
  | cons f fs ih =>
      obtain ⟨hf, hfs⟩ := List.forall_mem_cons.1 h
      rw [List.map_cons, toStmts, toStmts]
      exact hf.bind fun e => (ih hfs).bind fun es => .ok (e :: es)

theorem toBlock_erase {f : Form}
    (h : ∀ g ∈ f.items, Moved Stmt.erase g.toStmt g.erase.toStmt) :
    Moved Block.erase f.toBlock f.erase.toBlock := by
  cases f with
  | atom pos text => exact .error _ _
  | list pos items =>
      rw [erase_list]
      unfold toBlock
      rw [headOf_erase]
      split
      · exact .error _ _
      · rcases items with _ | ⟨head, rest⟩
        case nil => exact .ok (Block.of pos [])
        case cons =>
          have hrest : ∀ g ∈ rest, Moved Stmt.erase g.toStmt g.erase.toStmt :=
            fun g hg => h g (List.mem_cons_of_mem _ hg)
          exact (toStmts_erase hrest).bind fun _ => congrArg some (Block.erase_of _ _).symm

theorem toPart_erase {f : Form} (h : Moved Stmt.erase f.toStmt f.erase.toStmt) :
    Moved Stmt.erase f.toPart f.erase.toPart := by
  unfold toPart
  rw [isAtom_erase]
  split
  · exact .ok _
  · exact h

/-- What a statement is does not depend on where it stands. -/
theorem toStmt_erase (f : Form) : Moved Stmt.erase f.toStmt f.erase.toStmt := by
  suffices h : Moved Stmt.erase f.toStmt f.erase.toStmt ∧
      ∀ g ∈ f.items, Moved Stmt.erase g.toStmt g.erase.toStmt from h.1
  induction f using Form.induct with
  | atom pos text => exact ⟨.error _ _, by simp [items]⟩
  | list pos items ih =>
      have hstmt : ∀ g ∈ items, Moved Stmt.erase g.toStmt g.erase.toStmt := fun g hg => (ih g hg).1
      have hblock : ∀ g ∈ items, Moved Block.erase g.toBlock g.erase.toBlock :=
        fun g hg => toBlock_erase (ih g hg).2
      refine ⟨?_, hstmt⟩
      have hassign := toAssign_erase (.list pos items)
      rw [erase_list] at hassign ⊢
      unfold toStmt
      rw [headOf_erase]
      split
      · -- A block.
        rcases items with _ | ⟨head, rest⟩
        case nil => exact .ok (Stmt.block (.of pos []))
        case cons =>
          have hrest : ∀ g ∈ rest, Moved Stmt.erase g.toStmt g.erase.toStmt :=
            fun g hg => hstmt g (List.mem_cons_of_mem _ hg)
          exact (toStmts_erase hrest).bind fun _ =>
            congrArg (fun b => some (Stmt.block b)) (Block.erase_of _ _).symm
      · -- A declaration of variables.
        rcases items with _ | ⟨head, _ | ⟨type, _ | ⟨var, vars⟩⟩⟩
        case cons.cons.cons =>
          have hvars : Moved (List.map Node.erase) ((var :: vars).mapM toVar)
              (((var :: vars).map erase).mapM toVar) := .mapM fun f _ => toVar_erase f
          exact (toIdent_erase type).bind fun _ => hvars.bind fun _ =>
            congrArg some (Stmt.erase_varDecl (some _) _).symm
        all_goals exact .error _ _
      · -- A declaration of an array.
        rcases items with _ | ⟨_, _ | ⟨elem, _ | ⟨name, _ | ⟨size, _ | _⟩⟩⟩⟩
        case cons.cons.cons.cons.nil =>
          exact (toIdent_erase elem).bind fun _ => (toIdent_erase name).bind fun _ =>
            (toExpr_erase size).bind fun _ => .ok _
        all_goals exact .error _ _
      · exact hassign
      · -- A call.
        rcases items with _ | ⟨_, _ | ⟨func, args⟩⟩
        case cons.cons =>
          exact (toIdent_erase func).bind fun _ =>
            (toExprs_erase fun f _ => toExpr_erase f).bind fun _ =>
              congrArg some (Stmt.erase_call (some _) _ _).symm
        all_goals exact .error _ _
      · -- A conditional, perhaps without a second branch.
        rcases items with _ | ⟨_, _ | ⟨cond, _ | ⟨yes, _ | ⟨no, _ | _⟩⟩⟩⟩
        case cons.cons.cons.nil =>
          exact (toExpr_erase cond).bind fun _ => (hblock yes (by simp)).bind fun _ => .ok _
        case cons.cons.cons.cons.nil =>
          exact (toExpr_erase cond).bind fun _ => (hblock yes (by simp)).bind fun _ =>
            (hblock no (by simp)).bind fun _ => .ok _
        all_goals exact .error _ _
      · -- A loop with a condition.
        rcases items with _ | ⟨_, _ | ⟨cond, _ | ⟨body, _ | _⟩⟩⟩
        case cons.cons.cons.nil =>
          exact (toExpr_erase cond).bind fun _ => (hblock body (by simp)).bind fun _ => .ok _
        all_goals exact .error _ _
      · -- A loop with all parts optional.
        rcases items with _ | ⟨_, _ | ⟨init, _ | ⟨cond, _ | ⟨step, _ | ⟨body, _ | _⟩⟩⟩⟩⟩
        case cons.cons.cons.cons.cons.nil =>
          simp only [toPart_bind]
          exact (toPart_erase (hstmt init (by simp))).bind fun _ => (toOptExpr_erase cond).bind fun _ =>
            (toPart_erase (hstmt step (by simp))).bind fun _ =>
              (hblock body (by simp)).bind fun _ => .ok _
        all_goals exact .error _ _
      · -- A function.
        rcases items with _ | ⟨_, _ | ⟨result, _ | ⟨name, _ | ⟨params, _ | ⟨body, _ | _⟩⟩⟩⟩⟩
        case cons.cons.cons.cons.cons.nil =>
          exact (toType_erase result).bind fun _ => (toIdent_erase name).bind fun _ =>
            (toParams_erase params).bind fun _ => (hblock body (by simp)).bind fun _ => .ok _
        all_goals exact .error _ _
      · -- A return.
        rcases items with _ | ⟨_, _ | ⟨value, _ | _⟩⟩
        case cons.nil => exact .ok (Stmt.ret pos .missing)
        case cons.cons.nil => exact (toExpr_erase value).bind fun _ => .ok _
        all_goals exact .error _ _
      · exact .error _ _

/-- Forms that are the same apart from positions are the same statements apart from positions. -/
theorem toStmts_of_eraseAll_eq {fs gs : List Form} (h : eraseAll fs = eraseAll gs)
    {stmts : List Stmt} (hfs : toStmts fs = .ok stmts) :
    ∃ stmts', toStmts gs = .ok stmts' ∧ stmts'.map Stmt.erase = stmts.map Stmt.erase := by
  have hmoved : Moved (List.map Stmt.erase) (toStmts fs) (toStmts (fs.map erase)) :=
    toStmts_erase fun f _ => toStmt_erase f
  have hmoved' : Moved (List.map Stmt.erase) (toStmts gs) (toStmts (gs.map erase)) :=
    toStmts_erase fun f _ => toStmt_erase f
  rw [eraseAll_eq_map, eraseAll_eq_map] at h
  rw [← h] at hmoved'
  unfold Moved at hmoved hmoved'
  rw [hmoved', hfs] at hmoved
  cases hgs : toStmts gs with
  | error e =>
      rw [hgs] at hmoved
      cases hmoved
  | ok stmts' =>
      rw [hgs] at hmoved
      exact ⟨stmts', rfl, Option.some.inj hmoved⟩

/-- Reading undoes writing. Forms that have been read and are written out, with a space between
them, are read again as the same forms, and if they are a program they are the same program, up to
positions. -/
theorem read_texts {text : String} {forms : List Form} (h : read text = .ok forms) :
    (∃ forms', read (Text.join " " (texts forms)) = .ok forms' ∧
      eraseAll forms' = eraseAll forms) ∧
    ∀ b, Block.parse text = .ok b →
      ∃ b', Block.parse (Text.join " " (texts forms)) = .ok b' ∧ b'.erase = b.erase := by
  obtain ⟨forms', hforms', herase⟩ := read_texts_ok h
  refine ⟨⟨forms', hforms', herase⟩, fun b hb => ?_⟩
  obtain ⟨fs, stmts, hfs, hstmts, rfl⟩ := Block.parse_ok_iff.1 hb
  cases h.symm.trans hfs
  obtain ⟨stmts', hstmts', hsame⟩ := toStmts_of_eraseAll_eq herase.symm hstmts
  refine ⟨.of .start stmts', Block.parse_ok_iff.2 ⟨forms', stmts', hforms', hstmts', rfl⟩, ?_⟩
  rw [Block.erase_of, Block.erase_of, hsame]

/-- Quoted characters hold a parenthesis, a quote and a newline here, and between forms there is
nothing, or a comment. -/
theorem read_texts_quoted :
    ∃ forms b b', read "(= x '(')(= x '\\'')#)\n(= x '\n')" = .ok forms ∧
      Text.join " " (texts forms) = "(= x '(') (= x '\\'') (= x '\n')" ∧
      Block.parse "(= x '(')(= x '\\'')#)\n(= x '\n')" = .ok b ∧
      Block.parse "(= x '(') (= x '\\'') (= x '\n')" = .ok b' ∧ b'.erase = b.erase := by
  have hread : ((read "(= x '(')(= x '\\'')#)\n(= x '\n')").toOption.any fun forms =>
      Text.join " " (texts forms) == "(= x '(') (= x '\\'') (= x '\n')") = true := by
    decide +kernel
  have hparse : ((Block.parse "(= x '(')(= x '\\'')#)\n(= x '\n')").toOption.any fun b =>
      b.stmts.length == 3) = true := by
    decide +kernel
  obtain ⟨forms, hforms, htext⟩ := Except.any_toOption hread
  obtain ⟨b, hb, -⟩ := Except.any_toOption hparse
  rw [beq_iff_eq] at htext
  obtain ⟨-, hall⟩ := read_texts hforms
  obtain ⟨b', hb', hsame⟩ := hall b hb
  rw [htext] at hb'
  exact ⟨forms, b, b', hforms, htext, hb, hb', hsame⟩

end Form

end SmallC
