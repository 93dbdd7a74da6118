import Mathlib.Data.List.Basic
import SmallC.Proofs.Balance
import SmallC.Proofs.Reading

/-!
# Nodes stand where their forms stand

A walk through a program meets its nodes in the order of the source, and each
carries the place where its form starts. Between the text and the walk there are
two lists. The forms of a text, each followed by those inside it, are in the order
of their first tokens, and tokens are read from left to right. And the nodes of a
tree, in the order of the walk, are made of some of these forms: the heads of lists
and the marks of absent parts are left out, but nothing is out of order. `Follows`
says the second thing and is closed under everything that a tree is put together
from.
-/

namespace SmallC

/-! ## Walks -/

namespace Outline

variable {enter : Node → Bool} {os os' : List Outline} {ns ns' : List Node}

/-- A walk through several outlines goes through some of them and then through the others. -/
theorem visitAll_append (h : visitAll enter os = .ok ns) (h' : visitAll enter os' = .ok ns') :
    visitAll enter (os ++ os') = .ok (ns ++ ns') := by
  induction os generalizing ns with
  | nil =>
      cases h
      exact h'
  | cons o os ih =>
      rw [visitAll] at h
      obtain ⟨here, hhere, h⟩ := Except.bind_eq_ok_iff.1 h
      obtain ⟨below, hbelow, h⟩ := Except.bind_eq_ok_iff.1 h
      cases h
      rw [List.cons_append, visitAll, hhere, ih hbelow, List.append_assoc]
      rfl

/-- A walk through a part of a program meets it and then what is below it. -/
theorem visitAll_node {n : Node} (hn : ∀ pos, n ≠ .foreign pos)
    (h : visitAll (fun _ => true) os = .ok ns) :
    visitAll (fun _ => true) [node n os] = .ok (n :: ns) := by
  have hvisit : visit (fun _ => true) (node n os) = .ok (n :: ns) := by
    cases n with
    | foreign pos => exact absurd rfl (hn pos)
    | _ => rw [visit, if_pos rfl, h] <;> first | rfl | nofun
  rw [visitAll, hvisit]
  exact congrArg Except.ok (List.append_nil _)

theorem ofNodes_eq (ns : List Node) : ofNodes ns = ns.flatMap ofNode := by
  induction ns with
  | nil => rfl
  | cons n ns ih => rw [ofNodes, ih, List.flatMap_cons]

/-- Absent parameters are left out. -/
theorem ofParams_eq (list : List (Option Param)) :
    (list.filterMap id).map ofParam = list.flatMap fun p => p.toList.map ofParam := by
  rw [List.filterMap_eq_flatMap_toList, List.map_flatMap]
  rfl

end Outline

/-- Whether a token starts a form. -/
def Token.starts : Token → Bool
  | closing _ => false
  | opening _ | atom _ _ | torn _ => true

namespace Form

open Token

mutual

/-- A form and the forms in it, in the order in which they start. -/
def all : Form → List Form
  | atom pos text => [.atom pos text]
  | list pos items => .list pos items :: allOf items

/-- Forms and the forms in them. -/
def allOf : List Form → List Form
  | [] => []
  | f :: rest => f.all ++ allOf rest

end

/-! ## Forms in the text -/

/-- The form stands in the text behind the given characters: the next character is the one it starts
with, and from there on the text is cut into the tokens of the form, at the place where it is said
to be. -/
def StandsIn (f : Form) (text : String) (before : List Char) : Prop :=
  ∃ c cs after ts, text.toList = before ++ (c :: cs ++ after) ∧ f.text.toList.head? = some c ∧
    f.pos = Pos.start.past before ∧ Cuts f.pos (c :: cs) ts ∧ f.flatten = ts.map loose

mutual

/-- The tokens of a form inside another stand next to each other. -/
theorem flatten_of_mem_all {g : Form} : ∀ f : Form, g ∈ f.all →
    ∃ before after, f.flatten = before ++ g.flatten ++ after
  | .atom pos text, h => by
      rw [all, List.mem_singleton] at h
      exact ⟨[], [], by simp [h]⟩
  | .list pos items, h => by
      rw [all, List.mem_cons] at h
      rcases h with rfl | h
      · exact ⟨[], [], by simp⟩
      · obtain ⟨before, after, heq⟩ := flattenAll_of_mem_allOf items h
        exact ⟨.opening pos :: before, after ++ [.closing .nowhere], by simp [flatten, heq]⟩

theorem flattenAll_of_mem_allOf {g : Form} : ∀ fs : List Form, g ∈ allOf fs →
    ∃ before after, flattenAll fs = before ++ g.flatten ++ after
  | [], h => by simp [allOf] at h
  | f :: fs, h => by
      rw [allOf, List.mem_append] at h
      rcases h with h | h
      · obtain ⟨before, after, heq⟩ := flatten_of_mem_all f h
        exact ⟨before, after ++ flattenAll fs, by simp [flattenAll, heq]⟩
      · obtain ⟨before, after, heq⟩ := flattenAll_of_mem_allOf fs h
        exact ⟨f.flatten ++ before, after, by simp [flattenAll, heq]⟩

end

/-- A form starts with a token, which stands where the form does. -/
theorem flatten_eq_cons (f : Form) :
    ∃ t ts, f.flatten = t :: ts ∧
      ∀ u : Token, u.loose = t → u.pos = f.pos ∧ u.first? = f.text.toList.head? := by
  cases f with
  | atom pos text => exact ⟨_, _, rfl, fun u hu => by rw [loose_eq_atom hu]; exact ⟨rfl, rfl⟩⟩
  | list pos items =>
      refine ⟨_, _, rfl, fun u hu => ?_⟩
      rw [loose_eq_opening hu]
      exact ⟨rfl, by simp [text, first?]⟩

/-- Every form of a text, and every form in it, stands where it says. -/
theorem standsIn {text : String} {forms : List Form} (h : read text = .ok forms) {f : Form}
    (hf : f ∈ allOf forms) : ∃ before, f.StandsIn text before := by
  obtain ⟨ts, us, heq⟩ := flattenAll_of_mem_allOf forms hf
  rw [ofTokens_ok_iff.1 h, List.append_assoc] at heq
  obtain ⟨first, rest, hscan, -, hrest⟩ := List.map_eq_append_iff.1 heq
  obtain ⟨own, last, rfl, hown, -⟩ := List.map_eq_append_iff.1 hrest
  have hcuts : Cuts .start text.toList (scan text) := cuts_iff.2 rfl
  obtain ⟨before, cs, htext, -, hcs⟩ := hcuts.split hscan
  obtain ⟨cs, after, rfl, hcs, -⟩ := hcs.split rfl
  -- The first token of the form, and what stands in front of it.
  obtain ⟨t, more, hflat, hstart⟩ := flatten_eq_cons f
  rw [hflat] at hown
  obtain ⟨u, own, rfl, hu, -⟩ := List.map_eq_cons_iff.1 hown
  obtain ⟨gap, c, cs, rfl, hgap, hc, hcs⟩ := hcs.head rfl
  obtain ⟨hpos, hfirst⟩ := hstart u hu
  rw [hpos, ← Pos.past_append] at hgap
  rw [hpos] at hcs
  rw [hfirst] at hc
  exact ⟨before ++ gap, c, cs, after, _, by simp [htext], hc, hgap, hcs, by rw [hflat, ← hown]⟩

mutual

theorem pos_flatten : ∀ f : Form,
    (f.flatten.filter starts).map Token.pos = f.all.map Form.pos
  | .atom _ _ => rfl
  | .list pos items => by
      rw [flatten, all, List.filter_cons_of_pos rfl, List.filter_append, List.map_cons,
        List.map_append, pos_flattenAll items]
      exact congrArg _ (List.append_nil _)

theorem pos_flattenAll : ∀ fs : List Form,
    ((flattenAll fs).filter starts).map Token.pos = (allOf fs).map Form.pos
  | [] => rfl
  | f :: fs => by
      rw [flattenAll, allOf, List.filter_append, List.map_append, List.map_append, pos_flatten f,
        pos_flattenAll fs]

end

/-- The forms of a text are in the order of the text. -/
theorem read_sorted {text : String} {forms : List Form} (h : read text = .ok forms) :
    ((allOf forms).map Form.pos).Pairwise Pos.Before := by
  have hsorted := (cuts_iff.2 rfl : Cuts .start text.toList (scan text)).sorted.pairs
  have hstarts : starts ∘ loose = starts := by
    funext t
    cases t <;> rfl
  have hpos : (((scan text).map loose).filter starts).map Token.pos =
      ((scan text).filter starts).map Token.pos := by
    rw [List.filter_map, hstarts, List.map_map]
    refine List.map_congr_left fun t ht => ?_
    cases t with
    | closing p => exact absurd (List.mem_filter.1 ht).2 (by simp [starts])
    | _ => rfl
  rw [← pos_flattenAll, ofTokens_ok_iff.1 h, hpos, List.pairwise_map]
  exact hsorted.filter _

/-! ## Nodes and forms -/

/-- The form is what the node is made of. -/
inductive Denotes (f : Form) : Node → Prop where
  | name {id : Ident} (read : f.toIdent = .ok id) : Denotes f (.expr (.ident id))
  | type {out : Ident × Bool} (read : f.toType = .ok out) : Denotes f (.expr (.ident out.1))
  | expr {e : Expr} (read : f.toExpr = .ok e) : Denotes f (.expr e)
  | assign {s : Stmt} (read : f.toAssign = .ok s) : Denotes f (.stmt s)
  | stmt {s : Stmt} (read : f.toStmt = .ok s) : Denotes f (.stmt s)
  | block {b : Block} (read : f.toBlock = .ok b) : Denotes f (.stmt (.block b))
  | param {p : Param} (read : f.toParam = .ok (some p)) : Denotes f (.param p)
  | params {ps : Params} (read : f.toParams = .ok ps) : Denotes f (.params ps)

section

variable {f : Form}

theorem toIdent_pos {id : Ident} (h : f.toIdent = .ok id) : id.pos = f.pos := by
  cases f with
  | list pos items => cases h
  | atom pos text =>
      rw [toIdent] at h
      split at h
      · cases h
      · cases h
        rfl

theorem toType_pos {out : Ident × Bool} (h : f.toType = .ok out) : out.1.pos = f.pos := by
  cases f with
  | list pos items => cases h
  | atom pos text =>
      rw [toType] at h
      split at h <;>
        · cases h
          rfl

theorem toExpr_pos {e : Expr} (h : f.toExpr = .ok e) : e.pos = f.pos := by
  cases f with
  | atom pos text =>
      rw [toExpr] at h
      split at h
      · cases h
        rfl
      · obtain ⟨id, hid, rfl⟩ := toIdent_map_ok h
        exact toIdent_pos hid
  | list pos items => cases toExpr_list h <;> rfl

theorem toStmt_pos {s : Stmt} (h : f.toStmt = .ok s) : s.pos = f.pos := by
  cases f with
  | atom pos text => cases h
  | list pos items => cases toStmt_list h <;> rfl

/-- A node is where the form is that it is made of. -/
theorem Denotes.pos_eq {n : Node} (h : f.Denotes n) : n.pos = f.pos := by
  cases h with
  | name read => exact toIdent_pos read
  | type read => exact toType_pos read
  | expr read => exact toExpr_pos read
  | assign read =>
      obtain ⟨_, _, _, _, _, _, rfl, -, -, rfl⟩ := toAssign_ok read
      rfl
  | stmt read => exact toStmt_pos read
  | block read =>
      cases f with
      | atom pos text => cases read
      | list pos items =>
          obtain ⟨_, _, _, rfl, -, rfl⟩ := toBlock_list read
          rfl
  | param read =>
      obtain ⟨_, _, _, _, _, rfl, -, -, heq⟩ := toParam_ok read
      cases heq
      rfl
  | params read =>
      obtain ⟨_, _, _, rfl, -, rfl⟩ := toParams_ok read
      rfl

end

/-! ## The order of a walk -/

/-- A walk through the outlines meets nodes that some of the forms are made into, in the order of
the forms. -/
def Follows (fs : List Form) (os : List Outline) : Prop :=
  ∃ pairs : List (Form × Node), Outline.visitAll (fun _ => true) os = .ok (pairs.map Prod.snd) ∧
    (pairs.map Prod.fst).Sublist fs ∧ ∀ p ∈ pairs, p.1.Denotes p.2

namespace Follows

variable {f : Form} {fs fs' : List Form} {os os' : List Outline}

theorem nil (fs : List Form) : Follows fs [] := ⟨[], rfl, List.nil_sublist fs, by simp⟩

theorem append (h : Follows fs os) (h' : Follows fs' os') : Follows (fs ++ fs') (os ++ os') := by
  obtain ⟨ps, hvisit, hsub, hall⟩ := h
  obtain ⟨ps', hvisit', hsub', hall'⟩ := h'
  refine ⟨ps ++ ps', ?_, ?_, List.forall_mem_append.2 ⟨hall, hall'⟩⟩
  · rw [List.map_append]
    exact Outline.visitAll_append hvisit hvisit'
  · rw [List.map_append]
    exact hsub.append hsub'

/-- A form is a node, and the forms in it are the nodes below that one. -/
theorem node {n : Node} (hn : f.Denotes n) (h : Follows fs os) :
    Follows (f :: fs) [.node n os] := by
  obtain ⟨ps, hvisit, hsub, hall⟩ := h
  refine ⟨(f, n) :: ps, ?_, hsub.cons_cons f, List.forall_mem_cons.2 ⟨hn, hall⟩⟩
  refine Outline.visitAll_node (fun p hp => ?_) hvisit
  rw [hp] at hn
  cases hn

theorem leaf {n : Node} (hn : f.Denotes n) : Follows [f] [.leaf n] := node hn (nil [])

theorem cons (h : Follows f.all os) (h' : Follows (allOf fs) os') :
    Follows (allOf (f :: fs)) (os ++ os') :=
  h.append h'

theorem one (h : Follows f.all os) : Follows (allOf [f]) os := by
  simpa [allOf] using h

/-- A form that no node is made of. -/
theorem skip (f : Form) (h : Follows (allOf fs) os) : Follows (allOf (f :: fs)) os :=
  (nil f.all).append h

end Follows

section

variable {f : Form}

theorem toIdent_follows {id : Ident} (h : f.toIdent = .ok id) :
    Follows f.all (Outline.ofIdent (some id)) := by
  cases f with
  | atom pos text => exact .leaf (.name h)
  | list pos items => cases h

theorem toType_follows {out : Ident × Bool} (h : f.toType = .ok out) :
    Follows f.all (Outline.ofIdent (some out.1)) := by
  cases f with
  | atom pos text => exact .leaf (.type h)
  | list pos items => cases h

mutual

theorem toExpr_follows : ∀ {f : Form} {e : Expr}, f.toExpr = .ok e →
    Follows f.all (Outline.ofExpr e)
  | .atom pos text, e, h => by
      have hn := Denotes.expr h
      rw [toExpr] at h
      split at h
      · cases h
        exact .leaf hn
      · obtain ⟨id, hid, rfl⟩ := toIdent_map_ok h
        exact .leaf hn
  | .list pos items, e, h => by
      have hn := Denotes.expr h
      cases toExpr_list h with
      | index name operand =>
          exact .node hn (.skip _ (.cons (toIdent_follows name) (.one (toExpr_follows operand))))
      | call name operands =>
          exact .node hn (.skip _ (.cons (toIdent_follows name) (toExprs_follows operands)))
      | unary _ operand => exact .node hn (.skip _ (.one (toExpr_follows operand)))
      | binary left right =>
          exact .node hn (.skip _ (.cons (toExpr_follows left) (.one (toExpr_follows right))))
termination_by f => sizeOf f
decreasing_by all_goals (subst_vars; simp only [list.sizeOf_spec, List.cons.sizeOf_spec]; omega)

theorem toExprs_follows : ∀ {fs : List Form} {es : List Expr}, toExprs fs = .ok es →
    Follows (allOf fs) (Outline.ofExprs es)
  | [], _, h => by
      cases h
      exact .nil _
  | f :: rest, _, h => by
      obtain ⟨e, es, he, hes, rfl⟩ := toExprs_cons h
      exact .cons (toExpr_follows he) (toExprs_follows hes)
termination_by fs => sizeOf fs
decreasing_by all_goals (simp only [List.cons.sizeOf_spec]; omega)

end

theorem toOptExpr_follows {e : Expr} (h : f.toOptExpr = .ok e) :
    Follows f.all (Outline.ofExpr e) := by
  rcases toOptExpr_ok h with rfl | he
  · exact .nil _
  · exact toExpr_follows he

theorem toTarget_follows {e : Expr} (h : f.toTarget = .ok e) :
    Follows f.all (Outline.ofExpr e) := by
  rcases toTarget_ok h with ⟨id, hid, rfl⟩ | ⟨he, -⟩
  · exact toIdent_follows hid
  · exact toExpr_follows he

theorem toAssign_follows {s : Stmt} (h : f.toAssign = .ok s) :
    Follows f.all (Outline.ofStmt s) := by
  have hn := Denotes.assign h
  obtain ⟨_, _, _, _, _, _, rfl, ht, hv, rfl⟩ := toAssign_ok h
  exact .node hn (.skip _ (.cons (toTarget_follows ht) (.one (toExpr_follows hv))))

theorem toVar_follows {n : Node} (h : f.toVar = .ok n) : Follows f.all (Outline.ofNode n) := by
  rcases toVar_ok h with ⟨id, hid, rfl⟩ | ⟨s, hs, rfl⟩
  · exact toIdent_follows hid
  · exact toAssign_follows hs

theorem toParam_follows {p : Option Param} (h : f.toParam = .ok p) :
    Follows f.all (p.toList.map Outline.ofParam) := by
  obtain ⟨_, _, _, out, id, rfl, hout, hid, rfl⟩ := toParam_ok h
  exact .node (.param h) (.cons (toType_follows hout) (.one (toIdent_follows hid)))

/-- What is made of several forms follows them if each does. -/
theorem mapM_follows {α : Type} {read : Form → Except Error α} {outline : α → List Outline}
    (hread : ∀ {f a}, read f = .ok a → Follows f.all (outline a)) {fs : List Form} {as : List α}
    (h : fs.mapM read = .ok as) : Follows (allOf fs) (as.flatMap outline) := by
  induction fs generalizing as with
  | nil =>
      cases h
      exact .nil _
  | cons f rest ih =>
      rw [List.mapM_cons] at h
      simp only [Except.bind_eq_ok_iff] at h
      obtain ⟨a, ha, as', has, h⟩ := h
      cases h
      exact .cons (hread ha) (ih has)

theorem toParams_follows {ps : Params} (h : f.toParams = .ok ps) :
    Follows f.all (Outline.ofParams (some ps)) := by
  have hn := Denotes.params h
  obtain ⟨pos, items, list, rfl, hlist, rfl⟩ := toParams_ok h
  have hitems := mapM_follows toParam_follows hlist
  rw [← Outline.ofParams_eq] at hitems
  exact .node hn hitems

theorem toVars_follows {vars : List Form} {ns : List Node} (h : vars.mapM toVar = .ok ns) :
    Follows (allOf vars) (Outline.ofNodes ns) := by
  have hvars := mapM_follows toVar_follows h
  rwa [Outline.ofNodes_eq]

mutual

theorem toStmt_follows : ∀ {f : Form} {s : Stmt}, f.toStmt = .ok s →
    Follows f.all (Outline.ofStmt s)
  | .atom pos text, s, h => by cases h
  | .list pos items, s, h => by
      have hn := Denotes.stmt h
      cases toStmt_list h with
      | block body => exact .node hn (.skip _ (toStmts_follows body))
      | varDecl name items =>
          exact .node hn (.skip _ (.cons (toIdent_follows name) (toVars_follows items)))
      | arrayDecl type declared operand =>
          have hparts := Follows.cons (toIdent_follows type)
            (.cons (toIdent_follows declared) (.one (toExpr_follows operand)))
          rw [← List.append_assoc] at hparts
          exact .node hn (.skip _ hparts)
      | assign left right =>
          exact .node hn (.skip _ (.cons (toTarget_follows left) (.one (toExpr_follows right))))
      | call name operands =>
          exact .node hn (.skip _ (.cons (toIdent_follows name) (toExprs_follows operands)))
      | ifThen test first =>
          have hparts := Follows.cons (toExpr_follows test) (.one (toBlock_follows first))
          rw [← List.append_nil (_ ++ _)] at hparts
          exact .node hn (.skip _ hparts)
      | ifElse test first second =>
          have hparts := Follows.cons (toExpr_follows test)
            (.cons (toBlock_follows first) (.one (toBlock_follows second)))
          rw [← List.append_assoc] at hparts
          exact .node hn (.skip _ hparts)
      | whileLoop test round =>
          exact .node hn (.skip _ (.cons (toExpr_follows test) (.one (toBlock_follows round))))
      | @forLoop _ init _ step _ s s' _ _ first test next round =>
          have hfirst : Follows init.all (Outline.ofStmt s) := by
            rcases toPart_ok first with rfl | hs
            · exact .nil _
            · exact toStmt_follows hs
          have hnext : Follows step.all (Outline.ofStmt s') := by
            rcases toPart_ok next with rfl | hs
            · exact .nil _
            · exact toStmt_follows hs
          have hparts := Follows.cons hfirst
            (.cons (toOptExpr_follows test) (.cons hnext (.one (toBlock_follows round))))
          rw [← List.append_assoc, ← List.append_assoc] at hparts
          exact .node hn (.skip _ hparts)
      | funcDecl returns declared takes round =>
          have hparts := Follows.cons (toType_follows returns) (.cons (toIdent_follows declared)
            (.cons (toParams_follows takes) (.one (toBlock_follows round))))
          rw [← List.append_assoc, ← List.append_assoc] at hparts
          exact .node hn (.skip _ hparts)
      | ret => exact .node hn (.nil _)
      | retValue operand => exact .node hn (.skip _ (.one (toExpr_follows operand)))
termination_by f => sizeOf f
decreasing_by all_goals (subst_vars; simp only [list.sizeOf_spec, List.cons.sizeOf_spec]; omega)

theorem toBlock_follows : ∀ {f : Form} {b : Block}, f.toBlock = .ok b →
    Follows f.all (Outline.ofBlock b)
  | .atom pos text, b, h => by cases h
  | .list pos items, b, h => by
      have hn := Denotes.block h
      obtain ⟨head, rest, stmts, rfl, hs, rfl⟩ := toBlock_list h
      exact .node hn (.skip _ (toStmts_follows hs))
termination_by f => sizeOf f
decreasing_by all_goals (subst_vars; simp only [list.sizeOf_spec, List.cons.sizeOf_spec]; omega)

theorem toStmts_follows : ∀ {fs : List Form} {stmts : List Stmt}, toStmts fs = .ok stmts →
    Follows (allOf fs) (Outline.ofStmts stmts)
  | [], _, h => by
      cases h
      exact .nil _
  | f :: rest, _, h => by
      obtain ⟨s, stmts, hs, hstmts, rfl⟩ := toStmts_cons h
      exact .cons (toStmt_follows hs) (toStmts_follows hstmts)
termination_by fs => sizeOf fs
decreasing_by all_goals (simp only [List.cons.sizeOf_spec]; omega)

end

end

end Form

/-- In the tree of a text every node below the root is made of a form of the text, and its place is
where that form starts: the number of lines above it, and the number of characters before it on its
line. A walk through the tree meets these nodes from left to right, no two of them in one place. -/
theorem Block.parse_positions {text : String} {b : Block} (h : Block.parse text = .ok b) :
    ∃ forms below, Form.read text = .ok forms ∧
      b.visit (fun _ => true) = .ok (.stmt (.block b) :: below) ∧
      (∀ n ∈ below, ∃ f ∈ Form.allOf forms, f.Denotes n ∧ ∃ before, f.StandsIn text before ∧
        n.pos = ⟨1 + before.count '\n', 1 + (Pos.lastLine before).length⟩) ∧
      below.Pairwise (fun n m => n.pos.Before m.pos) ∧ (below.map Node.pos).Nodup := by
  obtain ⟨forms, stmts, hread, hstmts, rfl⟩ := Block.parse_ok_iff.1 h
  obtain ⟨pairs, hvisit, hsub, hall⟩ := Form.toStmts_follows hstmts
  have hpos : ∀ p ∈ pairs, p.2.pos = p.1.pos := fun p hp => (hall p hp).pos_eq
  -- The nodes are in the order of the forms that they are made of.
  have hsorted : (pairs.map Prod.snd).Pairwise fun n m => n.pos.Before m.pos := by
    have hforms := (Form.read_sorted hread).sublist (hsub.map Form.pos)
    rw [List.map_map, List.pairwise_map] at hforms
    rw [List.pairwise_map]
    refine hforms.imp_of_mem fun hp hq hbefore => ?_
    rw [hpos _ hp, hpos _ hq]
    exact hbefore
  refine ⟨forms, pairs.map Prod.snd, hread, ?_, fun n hn => ?_, hsorted, ?_⟩
  · exact Outline.visitAll_node (by nofun) hvisit
  · obtain ⟨⟨f, n⟩, hp, rfl⟩ := List.mem_map.1 hn
    have hf : f ∈ Form.allOf forms := hsub.subset (List.mem_map_of_mem hp)
    obtain ⟨before, hbefore⟩ := Form.standsIn hread hf
    refine ⟨f, hf, hall _ hp, before, hbefore, ?_⟩
    obtain ⟨_, _, _, _, -, -, hplace, -⟩ := hbefore
    rw [hpos _ hp, hplace, Pos.past_start]
  · exact List.pairwise_map.2 (hsorted.imp Pos.Before.ne)

/-- A newline between quotes and one after a comment both start a line. -/
theorem Block.parse_positions_quoted :
    ∃ b below, Block.parse "(= x '\n')# (\n (call f x)" = .ok b ∧
      b.visit (fun _ => true) = .ok (.stmt (.block b) :: below) ∧
      below.map Node.pos = [⟨1, 1⟩, ⟨1, 4⟩, ⟨1, 6⟩, ⟨3, 2⟩, ⟨3, 8⟩, ⟨3, 10⟩] ∧
      (below.map Node.pos).Nodup := by
  have hparse : ((Block.parse "(= x '\n')# (\n (call f x)").toOption.any fun b =>
      (b.visit fun _ => true).toOption.any fun ns =>
        ns.tail.map Node.pos == [⟨1, 1⟩, ⟨1, 4⟩, ⟨1, 6⟩, ⟨3, 2⟩, ⟨3, 8⟩, ⟨3, 10⟩]) = true := by
    decide +kernel
  obtain ⟨b, hb, hvisit⟩ := Except.any_toOption hparse
  obtain ⟨ns, hns, hpos⟩ := Except.any_toOption hvisit
  obtain ⟨forms, below, -, hbelow, -, -, hnodup⟩ := Block.parse_positions hb
  cases hns.symm.trans hbelow
  exact ⟨b, below, hb, hbelow, eq_of_beq hpos, hnodup⟩

end SmallC
