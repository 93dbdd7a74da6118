import SmallC.Proofs.SourceOrder

/-!
# The names that a program declares

A walk through a program meets all of its nodes. Among them are the names where
they are declared: variables and arrays, functions, and parameters. They are
listed here in the order of the walk, so of two names in this list the first one
is declared before the other in the text as well. A function stands before its
parameters, although it is checked after them.
-/

namespace SmallC

/-! ## The nodes of a walk -/

namespace Outline

mutual

/-- The nodes of an outline, in the order of a walk. -/
def nodes : Outline → List Node
  | node n children => n :: nodesAll children

/-- The nodes of several outlines. -/
def nodesAll : List Outline → List Node
  | [] => []
  | o :: rest => nodes o ++ nodesAll rest

end

theorem nodesAll_append (os os' : List Outline) :
    nodesAll (os ++ os') = nodesAll os ++ nodesAll os' := by
  induction os with
  | nil => rfl
  | cons o os ih => rw [List.cons_append, nodesAll, nodesAll, ih, List.append_assoc]

theorem nodesAll_flatMap {α : Type} (outline : α → List Outline) (as : List α) :
    nodesAll (as.flatMap outline) = as.flatMap fun a => nodesAll (outline a) := by
  induction as with
  | nil => rfl
  | cons a as ih => rw [List.flatMap_cons, List.flatMap_cons, nodesAll_append, ih]

theorem nodesAll_node (n : Node) (os : List Outline) : nodesAll [node n os] = n :: nodesAll os := by
  rw [nodesAll, nodesAll, nodes, List.append_nil]

mutual

/-- A walk that goes everywhere meets the nodes of the outline. -/
theorem visit_eq_nodes : ∀ {o : Outline} {ns : List Node}, visit (fun _ => true) o = .ok ns →
    ns = o.nodes
  | .node n children, ns, h => by
      have hrest : ∀ {below}, (do return n :: (← visitAll (fun _ => true) children)) =
          (.ok below : Except Fault (List Node)) → below = n :: nodesAll children := by
        intro below h
        obtain ⟨below, hbelow, h⟩ := Except.bind_eq_ok_iff.1 h
        cases h
        rw [visitAll_eq_nodes hbelow]
      cases n with
      | foreign pos => rw [visit] at h; cases h
      | expr _ | stmt _ | param _ | params _ =>
          rw [visit, if_pos rfl] at h
          · exact hrest h
          · nofun

theorem visitAll_eq_nodes : ∀ {os : List Outline} {ns : List Node},
    visitAll (fun _ => true) os = .ok ns → ns = nodesAll os
  | [], _, h => by
      cases h
      rfl
  | o :: rest, ns, h => by
      rw [visitAll] at h
      obtain ⟨here, hhere, h⟩ := Except.bind_eq_ok_iff.1 h
      obtain ⟨below, hbelow, h⟩ := Except.bind_eq_ok_iff.1 h
      cases h
      rw [visit_eq_nodes hhere, visitAll_eq_nodes hbelow, nodesAll]

end

/-- The places of the nodes. -/
def places (os : List Outline) : List Pos := (nodesAll os).map Node.pos

theorem places_append (os os' : List Outline) : places (os ++ os') = places os ++ places os' := by
  unfold places
  rw [nodesAll_append, List.map_append]

theorem places_node (n : Node) (os : List Outline) : places [node n os] = n.pos :: places os := by
  unfold places
  rw [nodesAll_node, List.map_cons]

end Outline

/-! ## Declared names -/

/-- The name that an item of a declaration declares. -/
def Node.binders : Node → List Ident
  | .expr (.ident id) => [id]
  | .stmt (.assign _ (.ident id) _ _) => [id]
  | _ => []

/-- The name of a parameter. -/
def Param.binders (p : Option Param) : List Ident := p.toList.flatMap (·.name.toList)

/-- The names of parameters. -/
def Params.binders (ps : Option Params) : List Ident :=
  ((ps.map (·.list)).getD []).flatMap Param.binders

mutual

/-- The names that a statement declares, those of nested blocks and functions included, in the order
of a walk. -/
def Stmt.binders : Stmt → List Ident
  | .varDecl _ _ vars => vars.flatMap Node.binders
  | .arrayDecl _ _ name _ => name.toList
  | .ifElse _ _ yes no => yes.binders ++ no.binders
  | .whileLoop _ _ body => body.binders
  | .forLoop _ init _ _ step body => init.binders ++ step.binders ++ body.binders
  | .block b => b.binders
  | .funcDecl _ _ _ name params body _ => name.toList ++ Params.binders params ++ body.binders
  | .missing | .call _ _ _ _ | .assign _ _ _ _ | .ret _ _ => []

/-- The names that a block declares. -/
def Block.binders : Block → List Ident
  | .missing => []
  | .of _ stmts => Stmt.bindersIn stmts

/-- The names that several statements declare. -/
def Stmt.bindersIn : List Stmt → List Ident
  | [] => []
  | s :: rest => s.binders ++ Stmt.bindersIn rest

end

/-- A name as a node. -/
def Ident.node (id : Ident) : Node := .expr (.ident id)

/-- The names are among the nodes, in the same order. -/
def NamesIn (ids : List Ident) (ns : List Node) : Prop := (ids.map Ident.node).Sublist ns

namespace NamesIn

variable {ids ids' : List Ident} {ns ns' : List Node}

theorem nil (ns : List Node) : NamesIn [] ns := List.nil_sublist ns

theorem append (h : NamesIn ids ns) (h' : NamesIn ids' ns') :
    NamesIn (ids ++ ids') (ns ++ ns') := by
  unfold NamesIn
  rw [List.map_append]
  exact List.Sublist.append h h'

theorem skip (h : NamesIn ids ns) (ns' : List Node) : NamesIn ids (ns' ++ ns) :=
  List.Sublist.trans h (List.sublist_append_right ns' ns)

theorem stop (h : NamesIn ids ns) (ns' : List Node) : NamesIn ids (ns ++ ns') :=
  List.Sublist.trans h (List.sublist_append_left ns ns')

theorem below (h : NamesIn ids ns) (n : Node) : NamesIn ids (n :: ns) := List.Sublist.cons n h

theorem ofIdent (id : Option Ident) :
    NamesIn id.toList (Outline.nodesAll (Outline.ofIdent id)) := by
  cases id with
  | none => exact nil _
  | some id => exact List.Sublist.refl _

theorem flatMap {α : Type} {names : α → List Ident} {nodes : α → List Node} {as : List α}
    (h : ∀ a ∈ as, NamesIn (names a) (nodes a)) :
    NamesIn (as.flatMap names) (as.flatMap nodes) := by
  induction as with
  | nil => exact nil _
  | cons a as ih =>
      obtain ⟨ha, has⟩ := List.forall_mem_cons.1 h
      exact append ha (ih has)

end NamesIn

theorem Node.binders_namesIn (n : Node) :
    NamesIn n.binders (Outline.nodesAll (Outline.ofNode n)) := by
  unfold Node.binders
  split
  · exact List.Sublist.refl _
  · next pos id value noted =>
      rw [Outline.ofNode, Outline.ofStmt, Outline.nodesAll_node, Outline.nodesAll_append]
      exact ((NamesIn.ofIdent (some id)).stop _).below _
  · exact .nil _

theorem Params.binders_namesIn (ps : Option Params) :
    NamesIn (Params.binders ps) (Outline.nodesAll (Outline.ofParams ps)) := by
  cases ps with
  | none => exact .nil _
  | some ps =>
      rw [Outline.ofParams, Option.toList_some, List.map_singleton, Outline.nodesAll_node,
        Outline.ofParams_eq, Outline.nodesAll_flatMap]
      refine (NamesIn.flatMap fun p _ => ?_).below _
      cases p with
      | none => exact .nil _
      | some p =>
          rw [Param.binders, Option.toList_some, List.flatMap_singleton, List.map_singleton,
            Outline.ofParam, Outline.nodesAll_node, Outline.nodesAll_append]
          exact ((NamesIn.ofIdent p.name).skip _).below _

mutual

theorem Stmt.binders_namesIn : ∀ s : Stmt,
    NamesIn s.binders (Outline.nodesAll (Outline.ofStmt s))
  | .varDecl _ type vars => by
      rw [Stmt.binders, Outline.ofStmt, Outline.nodesAll_node, Outline.nodesAll_append,
        Outline.ofNodes_eq, Outline.nodesAll_flatMap]
      exact ((NamesIn.flatMap fun n _ => n.binders_namesIn).skip _).below _
  | .arrayDecl _ elem name size => by
      rw [Stmt.binders, Outline.ofStmt, Outline.nodesAll_node, Outline.nodesAll_append,
        Outline.nodesAll_append]
      exact (((NamesIn.ofIdent name).skip _).stop _).below _
  | .ifElse _ cond yes no => by
      rw [Stmt.binders, Outline.ofStmt, Outline.nodesAll_node, Outline.nodesAll_append,
        Outline.nodesAll_append]
      exact ((yes.binders_namesIn.skip _).append no.binders_namesIn).below _
  | .whileLoop _ cond body => by
      rw [Stmt.binders, Outline.ofStmt, Outline.nodesAll_node, Outline.nodesAll_append]
      exact (body.binders_namesIn.skip _).below _
  | .forLoop _ init cond _ step body => by
      rw [Stmt.binders, Outline.ofStmt, Outline.nodesAll_node, Outline.nodesAll_append,
        Outline.nodesAll_append, Outline.nodesAll_append]
      exact (((init.binders_namesIn.stop _).append step.binders_namesIn).append
        body.binders_namesIn).below _
  | .block b => by
      rw [Stmt.binders, Outline.ofStmt]
      exact b.binders_namesIn
  | .funcDecl _ result _ name params body _ => by
      rw [Stmt.binders, Outline.ofStmt, Outline.nodesAll_node, Outline.nodesAll_append,
        Outline.nodesAll_append, Outline.nodesAll_append]
      exact ((((NamesIn.ofIdent name).skip _).append (Params.binders_namesIn params)).append
        body.binders_namesIn).below _
  | .missing | .call _ _ _ _ | .assign _ _ _ _ | .ret _ _ => .nil _

theorem Block.binders_namesIn : ∀ b : Block,
    NamesIn b.binders (Outline.nodesAll (Outline.ofBlock b))
  | .missing => .nil _
  | .of _ stmts => by
      rw [Block.binders, Outline.ofBlock, Outline.nodesAll_node]
      exact (Stmt.bindersIn_namesIn stmts).below _

theorem Stmt.bindersIn_namesIn : ∀ stmts : List Stmt,
    NamesIn (Stmt.bindersIn stmts) (Outline.nodesAll (Outline.ofStmts stmts))
  | [] => .nil _
  | s :: rest => by
      rw [Stmt.bindersIn, Outline.ofStmts, Outline.nodesAll_append]
      exact s.binders_namesIn.append (Stmt.bindersIn_namesIn rest)

end

end SmallC
