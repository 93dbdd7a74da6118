import SmallC.Proofs.CheckFaults
import SmallC.Tree.Edit

/-!
# Forgetting where things stand

`erase` takes the positions out of whatever has some: trees and the notes in
them, symbols, faults, tables. It is an edit like any other, so it leaves the
shape of a tree alone.

Checking does not look at positions. It copies them, into symbols and into
faults, and that is all. In a form that can be proved by going through the code
once: checking what is left of a tree gives what is left of the result. The two
sides of such an equation do the same steps on things that are equal up to
positions, and `Except.erase_bind` puts the steps together. Nothing has to be
said of a second tree, for two trees that differ in positions only are one tree
once those are gone.
-/

namespace SmallC

/-! ## Trees -/

/-- A symbol without its positions. Whether it has some remains. -/
def Symbol.erase (id : Symbol) : Symbol :=
  { id with size := id.size.map fun _ => .nowhere, decl := id.decl.map fun _ => .nowhere }

/-- A function without the positions of its symbols. -/
def Function.erase (f : Function) : Function :=
  { f with
    symbol := f.symbol.map Symbol.erase
    params := f.params.map Symbol.erase
    locals := f.locals.map Symbol.erase }

/-- The edit that takes the positions out of a tree. -/
def Edit.erase : Edit where
  pos := fun _ => .nowhere
  symbol := Option.map Symbol.erase
  function := Option.map Function.erase

/-- A name without its position. -/
def Ident.erase (id : Ident) : Ident := Edit.erase.ident id

/-- An expression without its positions. -/
def Expr.erase (e : Expr) : Expr := Edit.erase.expr e

/-- A parameter without its positions. -/
def Param.erase (p : Param) : Param := Edit.erase.param p

/-- A parameter list without its positions. -/
def Params.erase (ps : Params) : Params := Edit.erase.params ps

/-- A statement without its positions. -/
def Stmt.erase (s : Stmt) : Stmt := Edit.erase.stmt s

/-- A block without its positions. -/
def Block.erase (b : Block) : Block := Edit.erase.block b

/-- A node without its positions. -/
def Node.erase (n : Node) : Node := Edit.erase.node n

theorem Edit.erase_note (n : Note) : Edit.erase.note n = n := by
  obtain ⟨type, conv⟩ := n
  cases conv <;> rfl

theorem Edit.erase_exprs (es : List Expr) : Edit.erase.exprs es = es.map Expr.erase := by
  induction es with
  | nil => rfl
  | cons e rest ih =>
      rw [Edit.exprs, ih]
      rfl

theorem Edit.erase_stmts (stmts : List Stmt) : Edit.erase.stmts stmts = stmts.map Stmt.erase := by
  induction stmts with
  | nil => rfl
  | cons s rest ih =>
      rw [Edit.stmts, ih]
      rfl

theorem Edit.erase_nodes (ns : List Node) : Edit.erase.nodes ns = ns.map Node.erase := by
  induction ns with
  | nil => rfl
  | cons n rest ih =>
      rw [Edit.nodes, ih]
      rfl

namespace Expr

variable {pos : Pos} {note : Note}

theorem erase_literal (text : String) (value : Option Value) :
    (literal pos text value note).erase = .literal .nowhere text value note :=
  congrArg _ (Edit.erase_note note)

theorem erase_ident (id : Ident) : (ident id).erase = .ident id.erase := rfl

theorem erase_unary (op : Op) (x : Expr) :
    (unary pos op x note).erase = .unary .nowhere op x.erase note :=
  congrArg _ (Edit.erase_note note)

theorem erase_binary (op : Op) (x y : Expr) :
    (binary pos op x y note).erase = .binary .nowhere op x.erase y.erase note :=
  congrArg _ (Edit.erase_note note)

theorem erase_index (array : Option Ident) (i : Expr) :
    (index pos array i note).erase = .index .nowhere (array.map Ident.erase) i.erase note :=
  congrArg _ (Edit.erase_note note)

theorem erase_call (func : Option Ident) (args : List Expr) :
    (call pos func args note).erase =
      .call .nowhere (func.map Ident.erase) (args.map Expr.erase) note := by
  show Expr.call _ _ (Edit.erase.exprs args) (Edit.erase.note note) = _
  rw [Edit.erase_exprs, Edit.erase_note]
  rfl

theorem erase_convert (x : Expr) (dst : Base) :
    (convert pos x dst).erase = .convert .nowhere x.erase dst := rfl

theorem pos_erase (e : Expr) : e.erase.pos = .nowhere := by cases e <;> rfl

theorem note_erase (e : Expr) : e.erase.note = e.note := by
  cases e <;> first | rfl | exact Edit.erase_note _

theorem withNote_erase (e : Expr) (n : Note) : (e.withNote n).erase = e.erase.withNote n := by
  cases e with
  | ident id =>
      show Expr.ident ⟨_, _, _, Edit.erase.note n⟩ = _
      rw [Edit.erase_note]
      rfl
  | missing | convert _ _ _ => rfl
  | literal _ _ _ _ => exact erase_literal _ _
  | unary _ _ _ _ => exact erase_unary _ _
  | binary _ _ _ _ _ => exact erase_binary _ _ _
  | index _ _ _ _ => exact erase_index _ _
  | call pos func args note =>
      rw [withNote, erase_call, erase_call]
      rfl

theorem isMissing_erase (e : Expr) : e.erase.isMissing = e.isMissing := by cases e <;> rfl

theorem isLiteral_erase (e : Expr) : e.erase.isLiteral = e.isLiteral := by cases e <;> rfl

theorem typeText_erase (e : Expr) : e.erase.typeText = e.typeText := by cases e <;> rfl

end Expr

namespace Stmt

variable {pos : Pos}

theorem erase_call (func : Option Ident) (args : List Expr) (note : Note) :
    (call pos func args note).erase =
      .call .nowhere (func.map Ident.erase) (args.map Expr.erase) note := by
  show Stmt.call _ _ (Edit.erase.exprs args) (Edit.erase.note note) = _
  rw [Edit.erase_exprs, Edit.erase_note]
  rfl

theorem erase_varDecl (type : Option Ident) (vars : List Node) :
    (varDecl pos type vars).erase =
      .varDecl .nowhere (type.map Ident.erase) (vars.map Node.erase) := by
  show Stmt.varDecl _ _ (Edit.erase.nodes vars) = _
  rw [Edit.erase_nodes]
  rfl

theorem isMissing_erase (s : Stmt) : s.erase.isMissing = s.isMissing := by cases s <;> rfl

end Stmt

theorem Block.erase_of (pos : Pos) (stmts : List Stmt) :
    (Block.of pos stmts).erase = .of .nowhere (stmts.map Stmt.erase) := by
  show Block.of _ (Edit.erase.stmts stmts) = _
  rw [Edit.erase_stmts]
  rfl

/-! ## Faults -/

/-- A cause without positions. -/
def Cause.erase : Cause → Cause
  | .redeclared name _ => .redeclared name none
  | .unloadable id => .unloadable id.erase
  | .unstorable id => .unstorable id.erase
  | .unaddressable id => .unaddressable id.erase
  | cause => cause

namespace Fault

mutual

/-- A fault without positions. -/
def erase : Fault → Fault
  | kind k => .kind k
  | plain cause => .plain cause.erase
  | traced cause => .traced cause.erase
  | within context inner => .within context (eraseAll inner)
  | internal _ inner => .internal .nowhere (eraseAll inner)
  | located k _ inner => .located k .nowhere (eraseAll inner)

/-- Faults without positions. -/
def eraseAll : List Fault → List Fault
  | [] => []
  | f :: rest => f.erase :: eraseAll rest

end

mutual

theorem hasKind_erase (k : Kind) : ∀ f : Fault, f.erase.hasKind k = f.hasKind k
  | kind _ | plain _ | traced _ => rfl
  | within _ inner | internal _ inner => anyHasKind_erase k inner
  | located _ _ inner => congrArg (_ || ·) (anyHasKind_erase k inner)

theorem anyHasKind_erase (k : Kind) :
    ∀ fs : List Fault, anyHasKind k (eraseAll fs) = anyHasKind k fs
  | [] => rfl
  | f :: rest => by rw [eraseAll, anyHasKind, anyHasKind, hasKind_erase k f, anyHasKind_erase k rest]

end

mutual

theorem isInternal_erase : ∀ f : Fault, f.erase.isInternal = f.isInternal
  | kind _ | plain _ | traced _ | internal _ _ => rfl
  | within _ inner | located _ _ inner => anyInternal_erase inner

theorem anyInternal_erase : ∀ fs : List Fault, anyInternal (eraseAll fs) = anyInternal fs
  | [] => rfl
  | f :: rest => by rw [eraseAll, anyInternal, anyInternal, isInternal_erase f, anyInternal_erase rest]

end

end Fault

/-- What comes of a step, without positions, where `g` takes them out of its result. -/
def Except.erase {α β : Type} (g : α → β) : Except Fault α → Except Fault β
  | .ok a => .ok (g a)
  | .error f => .error f.erase

/-- Steps do the same without positions if each of them does. -/
theorem Except.erase_bind {α α' β β' : Type} {x : Except Fault α} {x' : Except Fault α'}
    {k : α → Except Fault β} {k' : α' → Except Fault β'} {g : α → α'} {g' : β → β'}
    (hx : x' = Except.erase g x) (hk : ∀ a, k' (g a) = Except.erase g' (k a)) :
    (x' >>= k') = Except.erase g' (x >>= k) := by
  subst hx
  cases x with
  | error f => rfl
  | ok a => exact hk a

/-! ## Tables -/

theorem Array.map_modify_of_comm {α β : Type} {f : α → β} {g : α → α} (g' : β → β)
    (h : ∀ a, f (g a) = g' (f a)) (xs : Array α) (i : Nat) :
    (xs.modify i g).map f = (xs.map f).modify i g' := by
  refine Array.ext_getElem? fun j => ?_
  rw [Array.getElem?_map, Array.getElem?_modify, Array.getElem?_modify, Array.getElem?_map]
  split
  · rw [Option.map_map, Option.map_map]
    exact congrArg (fun k => Option.map k _) (funext h)
  · rfl

theorem Symbol.pos_erase (id : Symbol) : id.erase.pos = .nowhere := by
  unfold Symbol.pos Symbol.erase
  cases id.decl <;> rfl

theorem Symbol.find?_erase (name : String) (ids : List Symbol) :
    Symbol.find? name (ids.map Symbol.erase) = (Symbol.find? name ids).map Symbol.erase := by
  unfold Symbol.find?
  rw [List.find?_map]
  rfl

namespace Function

theorem param?_erase (f : Function) (name : String) :
    f.erase.param? name = (f.param? name).map Symbol.erase :=
  Symbol.find?_erase name f.params

theorem find?_erase (f : Function) (name : String) :
    f.erase.find? name = (f.find? name).map Symbol.erase := by
  unfold find?
  rw [param?_erase, show f.erase.locals = f.locals.map Symbol.erase from rfl, Symbol.find?_erase]
  cases f.param? name <;> rfl

theorem type_erase (f : Function) : f.erase.type = f.type := by
  unfold type
  rw [show f.erase.params = f.params.map Symbol.erase from rfl, List.map_map]
  rfl

end Function

namespace Table

/-- A level of names without positions. -/
def eraseLevel (level : Scope.Level Symbol) : Scope.Level Symbol :=
  ⟨level.chain, level.names.map fun p => (p.1, p.2.erase)⟩

/-- A frame without positions. -/
def Frame.erase (frame : Frame) : Frame :=
  { frame with
    function := frame.function.map Function.erase
    statics := frame.statics.map Symbol.erase }

/-- A table without positions. -/
def erase (t : Table) : Table := ⟨⟨t.names.levels.map eraseLevel⟩, t.frames.map Frame.erase⟩

variable (t : Table) (s : Nat)

theorem chain_erase : t.erase.names.chain s = t.names.chain s := by
  unfold Scope.chain erase
  rw [Array.getElem?_map, Option.map_map]
  rfl

theorem findLocal?_erase (name : String) :
    t.erase.names.findLocal? s name = (t.names.findLocal? s name).map Symbol.erase := by
  have hlookup : ∀ names : List (String × Symbol),
      (names.map fun p => (p.1, p.2.erase)).lookup name =
        (names.lookup name).map Symbol.erase := by
    intro names
    induction names with
    | nil => rfl
    | cons p rest ih =>
        rw [List.map_cons, List.lookup_cons, List.lookup_cons, ih]
        split <;> rfl
  unfold Scope.findLocal? erase
  rw [Array.getElem?_map]
  cases t.names.levels[s]? with
  | none => rfl
  | some level => exact hlookup level.names

theorem lookup_erase (name : String) :
    t.erase.lookup s name = (t.lookup s name).map Symbol.erase := by
  unfold lookup Scope.find?
  rw [chain_erase]
  induction t.names.chain s with
  | nil => rfl
  | cons level rest ih =>
      rw [List.findSome?_cons, List.findSome?_cons, findLocal?_erase]
      cases t.names.findLocal? level name with
      | none => exact ih
      | some id => rfl

theorem lookupLocal_erase (name : String) :
    t.erase.lookupLocal s name = (t.lookupLocal s name).map Symbol.erase :=
  findLocal?_erase t s name

theorem frame_erase : t.erase.frames[s]? = (t.frames[s]?).map Frame.erase := Array.getElem?_map

theorem global?_erase : t.erase.global? s = t.global? s := by
  unfold global?
  rw [frame_erase]
  cases t.frames[s]? <;> rfl

theorem functionAt?_erase : t.erase.functionAt? s = (t.functionAt? s).map Function.erase := by
  unfold functionAt?
  rw [frame_erase]
  cases t.frames[s]? <;> rfl

theorem statics_erase : t.erase.statics s = (t.statics s).map Symbol.erase := by
  unfold statics
  rw [global?_erase]
  cases t.global? s with
  | none => rfl
  | some g =>
      rw [Option.bind_some, Option.bind_some, frame_erase]
      cases t.frames[g]? <;> rfl

theorem owner?_erase : t.erase.owner? s = t.owner? s := by
  unfold owner?
  rw [chain_erase]
  refine congrArg (fun p => (t.names.chain s).find? p) (funext fun level => ?_)
  rw [functionAt?_erase, Option.isSome_map]

theorem function?_erase : t.erase.function? s = (t.function? s).map Function.erase := by
  unfold function?
  rw [chain_erase]
  induction t.names.chain s with
  | nil => rfl
  | cons level rest ih =>
      rw [List.findSome?_cons, List.findSome?_cons, functionAt?_erase]
      cases t.functionAt? level with
      | none => exact ih
      | some f => rfl

theorem child_erase : t.erase.child s = ((t.child s).1.erase, (t.child s).2) := by
  have hnames : (t.erase.names.child s) =
      (⟨(t.names.child s).1.levels.map eraseLevel⟩, (t.names.child s).2) := by
    unfold Scope.child
    rw [chain_erase]
    unfold erase
    simp [eraseLevel]
  unfold child
  rw [hnames, frame_erase]
  dsimp only
  refine Prod.ext ?_ rfl
  unfold erase
  rw [Array.map_push]
  rcases t.frames[s]? with _ | ⟨_ | _ | _, _, _, _⟩ <;> rfl

theorem setFunction_erase (f : Option Function) :
    (t.setFunction s f).erase = t.erase.setFunction s (f.map Function.erase) := by
  unfold setFunction erase
  rw [Array.map_modify_of_comm fun frame => { frame with function := f.map Function.erase }]
  exact fun _ => rfl

theorem modifyFunction_erase {change change' : Function → Function}
    (h : ∀ f, (change f).erase = change' f.erase) :
    (t.modifyFunction s change).erase = t.erase.modifyFunction s change' := by
  unfold modifyFunction
  rw [owner?_erase]
  cases t.owner? s with
  | none => rfl
  | some level =>
      dsimp only
      rw [setFunction_erase, functionAt?_erase, Option.map_map, Option.map_map]
      exact congrArg (fun k => t.erase.setFunction level (Option.map k _)) (funext h)

theorem pushStatic_erase (id : Symbol) :
    (t.pushStatic s id).erase = t.erase.pushStatic s id.erase := by
  unfold pushStatic erase
  rw [Array.map_modify_of_comm fun frame => { frame with statics := frame.statics ++ [id.erase] }]
  intro frame
  unfold Frame.erase
  rw [List.map_append]
  rfl

/-! ## Declarations -/

theorem checkName_erase (id : Symbol) :
    checkName id.erase = Except.erase (fun u => u) (checkName id) := by
  unfold checkName
  rw [Symbol.pos_erase, show id.erase.name = id.name from rfl]
  split <;> rfl

theorem checkFree_erase (id : Symbol) {found found' : Option Symbol}
    (h : found' = found.map Symbol.erase) :
    checkFree id.erase found' = Except.erase (fun u => u) (checkFree id found) := by
  subst h
  cases found with
  | none => rfl
  | some previous =>
      show Except.error (duplicate id.erase previous.erase) = _
      unfold duplicate
      rw [Symbol.pos_erase, Symbol.pos_erase]
      rfl

theorem bind_erase (id : Symbol) :
    (⟨t.names.bind s id.name id, t.frames⟩ : Table).erase =
      ⟨t.erase.names.bind s id.erase.name id.erase, t.erase.frames⟩ := by
  unfold Scope.bind erase
  rw [Array.map_modify_of_comm fun level =>
    { level with names := (id.name, id.erase) :: level.names }]
  · rfl
  · exact fun _ => rfl

theorem define_erase (id : Symbol) :
    t.erase.define s id.erase = Except.erase erase (t.define s id) := by
  rw [define_eq, define_eq]
  refine Except.erase_bind (checkFree_erase id (lookupLocal_erase t s id.name)) fun _ => ?_
  exact congrArg Except.ok (bind_erase t s id).symm

/-- A table and a symbol without positions. -/
def eraseWith : Table × Symbol → Table × Symbol := Prod.map erase Symbol.erase

theorem addParam_erase (id : Symbol) :
    t.erase.addParam s id.erase = Except.erase eraseWith (t.addParam s id) := by
  rw [addParam_eq, addParam_eq, function?_erase]
  cases t.function? s with
  | none =>
      dsimp only [Option.map_none]
      rw [Symbol.pos_erase]
      rfl
  | some f =>
      have hslot : f.erase.params.length = f.params.length := List.length_map ..
      refine Except.erase_bind (checkName_erase id) fun _ => ?_
      refine Except.erase_bind (checkFree_erase id (f.param?_erase id.name)) fun _ => ?_
      rw [hslot]
      refine Except.erase_bind (define_erase t s
        { id with storage := .param, slot := f.params.length }) fun t' => congrArg Except.ok ?_
      refine Prod.ext (modifyFunction_erase t' s fun g => ?_).symm rfl
      unfold Function.erase
      rw [List.map_append]
      rfl

theorem addLocal_erase (f : Function) (id : Symbol) :
    t.erase.addLocal s f.erase id.erase = Except.erase eraseWith (t.addLocal s f id) := by
  have hslot : f.erase.locals.length = f.locals.length := List.length_map ..
  rw [addLocal_eq, addLocal_eq]
  refine Except.erase_bind (checkFree_erase id (f.find?_erase id.name)) fun _ => ?_
  rw [hslot]
  refine Except.erase_bind (define_erase t s
    { id with storage := .automatic, slot := f.locals.length }) fun t' => congrArg Except.ok ?_
  refine Prod.ext (modifyFunction_erase t' s fun g => ?_).symm rfl
  unfold Function.erase
  rw [List.map_append]
  rfl

theorem globalConflict_erase (g : Nat) (name : String) :
    t.erase.globalConflict g name = (t.globalConflict g name).map Symbol.erase := by
  unfold globalConflict
  rw [lookup_erase, statics_erase, Symbol.find?_erase]
  cases t.lookup g name <;> rfl

theorem addStatic_erase (g : Nat) (id : Symbol) :
    t.erase.addStatic s g id.erase = Except.erase eraseWith (t.addStatic s g id) := by
  have hlevel : (t.erase.frames[s]?).any (·.level == .block) =
      (t.frames[s]?).any (·.level == .block) := by
    rw [frame_erase]
    cases t.frames[s]? <;> rfl
  have hslot : (t.erase.statics g).length = (t.statics g).length := by
    rw [statics_erase, List.length_map]
  have hconflict := checkFree_erase id (globalConflict_erase t g id.name)
  have hrest : ∀ storage : Storage, (do
        let id := { id.erase with storage := storage, slot := (t.erase.statics g).length }
        let t ← t.erase.define s id
        return (t.pushStatic g id, id)) =
      Except.erase eraseWith (do
        let id := { id with storage := storage, slot := (t.statics g).length }
        let t ← t.define s id
        return (t.pushStatic g id, id)) := by
    intro storage
    rw [hslot]
    refine Except.erase_bind (define_erase t s
      { id with storage := storage, slot := (t.statics g).length }) fun t' => congrArg Except.ok ?_
    exact Prod.ext (pushStatic_erase t' g
      { id with storage := storage, slot := (t.statics g).length }).symm rfl
  rw [addStatic_eq, addStatic_eq, hlevel]
  dsimp only
  split
  · refine Except.erase_bind (checkFree_erase id (lookup_erase t s id.name)) fun _ => ?_
    exact Except.erase_bind hconflict fun _ => hrest _
  · exact Except.erase_bind hconflict fun _ => hrest _

theorem addVar_erase (id : Symbol) :
    t.erase.addVar s id.erase = Except.erase eraseWith (t.addVar s id) := by
  rw [addVar_eq, addVar_eq, global?_erase]
  cases t.global? s with
  | none =>
      dsimp only
      rw [Symbol.pos_erase]
      rfl
  | some g =>
      refine Except.erase_bind (checkName_erase id) fun _ => ?_
      rw [function?_erase]
      cases t.function? s with
      | none => exact addStatic_erase t s g id
      | some f => exact addLocal_erase t s f id

theorem addFunc_erase (id : Symbol) :
    t.erase.addFunc s id.erase = Except.erase eraseWith (t.addFunc s id) := by
  rw [addFunc_eq, addFunc_eq, global?_erase]
  cases t.global? s with
  | none =>
      dsimp only
      rw [Symbol.pos_erase]
      rfl
  | some g =>
      refine Except.erase_bind (checkName_erase id) fun _ => ?_
      refine Except.erase_bind (checkFree_erase id (globalConflict_erase t g id.name)) fun _ => ?_
      exact Except.erase_bind (define_erase t g
        { id with storage := .global, slot := Symbol.noSlot }) fun t' => rfl

end Table

/-! ## Expressions -/

/-- What is wrong with a literal has no positions. -/
theorem Literal.decode_erase {text : String} {cause : Cause} (h : decode text = .error cause) :
    cause.erase = cause := by
  rcases decode_error h with rfl | rfl | rfl | rfl | rfl <;> rfl

section

variable (t : Table) (s : Nat)

theorem Ident.present_erase (id : Option Ident) :
    Ident.present (id.map Ident.erase) = Except.erase Ident.erase (Ident.present id) := by
  cases id <;> rfl

theorem Ident.resolve_erase (id : Ident) :
    id.erase.resolve t.erase s = Except.erase (fun p => (p.1, p.2.erase)) (id.resolve t s) := by
  unfold Ident.resolve
  rw [show id.erase.name = id.name from rfl, Table.lookup_erase]
  cases t.lookup s id.name <;> rfl

theorem Expr.coerce_erase (e : Expr) (src dst : Ty) :
    e.erase.coerce src dst = (e.coerce src dst).map Expr.erase := by
  unfold Expr.coerce
  split
  · rfl
  · split
    · rw [Expr.note_erase]
      exact congrArg Except.ok (Expr.withNote_erase e _).symm
    · rfl

/-- What is wrong with a conversion has no positions. -/
theorem Expr.coerce_error {e : Expr} {src dst : Ty} {cause : Cause}
    (h : e.coerce src dst = .error cause) : cause.erase = cause := by
  unfold Expr.coerce at h
  split at h
  · cases h
  · split at h <;> cases h
    rfl

/-- Where a conversion fails, the fault that is made of it differs in positions only. -/
theorem Expr.coerce_mapError (e : Expr) (src dst : Ty) {fault fault' : Cause → Fault}
    (h : ∀ cause, cause.erase = cause → fault' cause = (fault cause).erase) :
    (e.erase.coerce src dst).mapError fault' =
      Except.erase Expr.erase ((e.coerce src dst).mapError fault) := by
  rw [Expr.coerce_erase]
  cases hcoerce : e.coerce src dst with
  | ok e' => rfl
  | error cause => exact congrArg Except.error (h cause (Expr.coerce_error hcoerce))

theorem Expr.coerceFor_erase (context : String) (e : Expr) (src dst : Ty) :
    e.erase.coerceFor context src dst = Except.erase Expr.erase (e.coerceFor context src dst) := by
  refine Expr.coerce_mapError e src dst fun cause hcause => ?_
  rw [Expr.pos_erase]
  show _ = Fault.located _ _ [.within _ [.traced cause.erase]]
  rw [hcause]

theorem coerceOperand_erase (e : Expr) (src : Ty) (dst : Option Base) :
    coerceOperand e.erase src dst = Except.erase Expr.erase (coerceOperand e src dst) := by
  cases dst with
  | none => rfl
  | some dst =>
      refine Expr.coerce_mapError e src (.base dst) fun cause hcause => ?_
      rw [Expr.pos_erase]
      show _ = Fault.located _ _ [.traced cause.erase]
      rw [hcause]
      rfl

theorem checkArray_erase (array : Option Ident) :
    checkArray t.erase s (array.map Ident.erase) =
      Except.erase (fun p => (p.1, p.2.erase)) (checkArray t s array) := by
  refine Except.erase_bind (Ident.present_erase array) fun id => ?_
  refine Except.erase_bind (Ident.resolve_erase t s id) fun p => ?_
  obtain ⟨type, id'⟩ := p
  cases type <;> rfl

theorem checkCall_erase (pos : Pos) (func : Option Ident) (count : Nat)
    {checkArgs checkArgs' : String → List Ty → Except Fault (List Expr × List Fault)}
    (h : ∀ name params, checkArgs' name params =
      Except.erase (fun p => (p.1.map Expr.erase, Fault.eraseAll p.2)) (checkArgs name params)) :
    checkCall t.erase s .nowhere (func.map Ident.erase) count checkArgs' =
      Except.erase (fun p => (p.1, p.2.1.erase, p.2.2.map Expr.erase))
        (checkCall t s pos func count checkArgs) := by
  refine Except.erase_bind (Ident.present_erase func) fun id => ?_
  refine Except.erase_bind (Ident.resolve_erase t s id) fun p => ?_
  obtain ⟨type, id'⟩ := p
  cases type with
  | base _ | array _ | absent => rfl
  | func result params =>
      dsimp only
      split
      · rfl
      · refine Except.erase_bind (h id'.name params) fun q => ?_
        obtain ⟨args, mismatches⟩ := q
        cases mismatches <;> rfl

theorem checkUnary_erase (pos : Pos) (op : Op) (x : Expr) (type : Ty) :
    checkUnary .nowhere op x.erase type =
      Except.erase (fun p => (p.1, p.2.erase)) (checkUnary pos op x type) := by
  unfold checkUnary
  split
  · exact congrArg (fun e => Except.ok (type, e)) (Expr.erase_unary op x).symm
  · rw [Expr.coerce_erase]
    cases x.coerce type (.base .int) with
    | ok x' => exact congrArg (fun e => Except.ok (_, e)) (Expr.erase_unary op x').symm
    | error cause => rfl

theorem checkBinary_erase (pos : Pos) (op : Op) (x y : Expr) (xType yType : Ty) :
    checkBinary .nowhere op x.erase y.erase xType yType =
      Except.erase (fun p => (p.1, p.2.erase)) (checkBinary pos op x y xType yType) := by
  unfold checkBinary
  cases op.resolve xType yType with
  | none => rfl
  | some r =>
      refine Except.erase_bind (coerceOperand_erase x xType r.x) fun x' => ?_
      refine Except.erase_bind (coerceOperand_erase y yType r.y) fun y' => ?_
      exact congrArg (fun e => Except.ok (_, e)) (Expr.erase_binary op x' y').symm

end

mutual

/-- Checking an expression does not look at positions. -/
theorem Expr.check_erase (t : Table) (s : Nat) : ∀ e : Expr,
    e.erase.check t.erase s = Except.erase (fun p => (p.1, p.2.erase)) (e.check t s)
  | .missing => rfl
  | .convert _ _ _ => rfl
  | .literal pos text value note => by
      rw [Expr.erase_literal, Expr.check, Expr.check]
      cases hdecode : Literal.decode text with
      | ok v => exact congrArg (fun e => Except.ok (_, e)) (Expr.erase_literal _ _).symm
      | error cause =>
          exact congrArg (fun c => Except.error (Fault.broken .invalidLiteral .nowhere c))
            (Literal.decode_erase hdecode).symm
  | .ident id => by
      rw [Expr.erase_ident, Expr.check, Expr.check]
      exact Except.erase_bind (Ident.resolve_erase t s id) fun _ => rfl
  | .unary pos op x note => by
      rw [Expr.erase_unary, Expr.check, Expr.check]
      exact Except.erase_bind (Expr.check_erase t s x) fun p => checkUnary_erase pos op p.2 p.1
  | .binary pos op x y note => by
      rw [Expr.erase_binary, Expr.check, Expr.check]
      refine Except.erase_bind (Expr.check_erase t s x) fun p => ?_
      exact Except.erase_bind (Expr.check_erase t s y) fun q => checkBinary_erase pos op _ _ _ _
  | .index pos array i note => by
      rw [Expr.erase_index, Expr.check, Expr.check]
      refine Except.erase_bind (checkArray_erase t s array) fun p => ?_
      refine Except.erase_bind (Expr.check_erase t s i) fun q => ?_
      refine Except.erase_bind (Expr.coerceFor_erase _ q.2 q.1 _) fun i' => ?_
      exact congrArg (fun e => Except.ok (_, e)) (Expr.erase_index (some p.2) i').symm
  | .call pos func args note => by
      rw [Expr.erase_call, Expr.check, Expr.check, List.length_map]
      refine Except.erase_bind (checkCall_erase t s pos func args.length fun name params =>
        Expr.checkArgs_erase t s name 1 params args) fun p => ?_
      exact congrArg (fun e => Except.ok (_, e)) (Expr.erase_call (some p.2.1) p.2.2).symm

theorem Expr.checkArgs_erase (t : Table) (s : Nat) (name : String) (i : Nat) :
    ∀ (params : List Ty) (args : List Expr),
      Expr.checkArgs t.erase s name i params (args.map Expr.erase) =
        Except.erase (fun p => (p.1.map Expr.erase, Fault.eraseAll p.2))
          (Expr.checkArgs t s name i params args)
  | [], args => by cases args <;> rfl
  | _ :: _, [] => rfl
  | param :: params, e :: rest => by
      rw [List.map_cons, Expr.checkArgs, Expr.checkArgs]
      refine Except.erase_bind (Expr.check_erase t s e) fun p => ?_
      obtain ⟨type, e'⟩ := p
      dsimp only
      rw [Expr.coerce_erase]
      cases hcoerce : e'.coerce type param with
      | ok e'' =>
          refine Except.erase_bind (Expr.checkArgs_erase t s name (i + 1) params rest) fun q => ?_
          rfl
      | error cause =>
          refine Except.erase_bind (Expr.checkArgs_erase t s name (i + 1) params rest) fun q => ?_
          refine congrArg Except.ok (Prod.ext rfl ?_)
          exact congrArg (fun c => Fault.within _ [.traced c] :: Fault.eraseAll q.2)
            (Expr.coerce_error hcoerce).symm

end

theorem Expr.checkCond_erase (t : Table) (s : Nat) (e : Expr) :
    e.erase.checkCond t.erase s = Except.erase Expr.erase (e.checkCond t s) :=
  Except.erase_bind (e.check_erase t s) fun p => p.2.coerceFor_erase _ p.1 _

/-! ## Statements -/

section

variable (t : Table) (s : Nat)

theorem checkTypeName_erase (name : Option Ident) (allowVoid : Bool) :
    checkTypeName (name.map Ident.erase) allowVoid =
      Except.erase (fun b => b) (checkTypeName name allowVoid) := by
  refine Except.erase_bind (Ident.present_erase name) fun id => ?_
  rw [show id.erase.name = id.name from rfl]
  cases Base.ofText? id.name with
  | none => rfl
  | some kind =>
      dsimp only
      split <;> rfl

theorem declare_erase (id : Ident) (type : Ty) (size : Option Pos) :
    declare t.erase s id.erase type (size.map fun _ => .nowhere) =
      Except.erase (fun p => (p.1.erase, p.2.erase)) (declare t s id type size) := by
  refine Except.erase_bind (Table.addVar_erase t s
    { Symbol.fresh id.name type (some id.pos) with size := size }) fun p => ?_
  rfl

theorem checkTarget_erase (pos : Pos) (e : Expr) :
    checkTarget t.erase s .nowhere e.erase =
      Except.erase (fun p => (p.1, p.2.erase)) (checkTarget t s pos e) := by
  cases e with
  | ident id =>
      refine Except.erase_bind (Ident.resolve_erase t s id) fun p => ?_
      obtain ⟨type, id'⟩ := p
      dsimp only
      split <;> rfl
  | index pos' array i note =>
      have hcheck := (Expr.index pos' array i note).check_erase t s
      rw [Expr.erase_index] at hcheck ⊢
      exact hcheck
  | call pos' func args note =>
      rw [Expr.erase_call]
      rfl
  | _ => rfl

theorem checkAssign_erase (pos : Pos) (target value : Expr) :
    checkAssign t.erase s .nowhere target.erase value.erase =
      Except.erase Stmt.erase (checkAssign t s pos target value) := by
  refine Except.erase_bind (checkTarget_erase t s pos target) fun p => ?_
  refine Except.erase_bind (value.check_erase t s) fun q => ?_
  exact Except.erase_bind (q.2.coerceFor_erase _ q.1 p.1) fun _ => rfl

theorem checkVar_erase (type : Ty) (n : Node) :
    checkVar t.erase s type n.erase =
      Except.erase (fun p => (p.1.erase, p.2.erase)) (checkVar t s type n) := by
  have hundeclarable : ∀ (pos : Pos) (cause : Cause), cause.erase = cause →
      (Except.error (Fault.bug .nowhere cause) : Except Fault (Table × Node)) =
        Except.erase (fun p : Table × Node => (p.1.erase, p.2.erase)) (.error (.bug pos cause)) := by
    intro pos cause hcause
    show _ = Except.error (Fault.internal .nowhere [.traced cause.erase])
    rw [hcause]
    rfl
  have hassign : ∀ (pos : Pos) (target value : Expr) (noted : Option Ty), checkVar t.erase s type
      (.stmt (.assign .nowhere target.erase value.erase noted)) =
        Except.erase (fun p => (p.1.erase, p.2.erase))
          (checkVar t s type (.stmt (.assign pos target value noted))) := by
    intro pos target value noted
    cases target with
    | ident id =>
        refine Except.erase_bind (declare_erase t s id type none) fun p => ?_
        exact Except.erase_bind (checkAssign_erase p.1 s pos (.ident p.2) value) fun _ => rfl
    | call pos' func args note =>
        rw [Expr.erase_call]
        exact hundeclarable pos (.undeclarable _) rfl
    | _ => exact hundeclarable pos (.undeclarable _) rfl
  cases n with
  | expr e =>
      cases e with
      | ident id => exact Except.erase_bind (declare_erase t s id type none) fun _ => rfl
      | _ => exact hundeclarable _ (.undeclarable _) rfl
  | stmt stmt =>
      cases stmt with
      | assign pos target value noted => exact hassign pos target value noted
      | block b => cases b <;> exact hundeclarable _ (.undeclarable _) rfl
      | _ => exact hundeclarable _ (.undeclarable _) rfl
  | param _ | params _ | foreign _ => exact hundeclarable _ (.undeclarable _) rfl

theorem checkVars_erase (type : Ty) (ns : List Node) :
    checkVars t.erase s type (ns.map Node.erase) =
      Except.erase (fun p => (p.1.erase, p.2.map Node.erase)) (checkVars t s type ns) := by
  induction ns generalizing t with
  | nil => rfl
  | cons n rest ih =>
      refine Except.erase_bind (checkVar_erase t s type n) fun p => ?_
      exact Except.erase_bind (ih p.1) fun _ => rfl

theorem checkParam_erase (p : Option Param) :
    checkParam t.erase s (p.map Param.erase) =
      Except.erase (fun q => (q.1.erase, q.2.map Param.erase)) (checkParam t s p) := by
  cases p with
  | none => rfl
  | some p =>
      refine Except.erase_bind (checkTypeName_erase p.type false) fun kind => ?_
      refine Except.erase_bind (Ident.present_erase p.name) fun name => ?_
      refine Except.erase_bind (Table.addParam_erase t s (Symbol.fresh name.name
        (if p.isArray then .array kind else .base kind) (some name.pos))) fun q => ?_
      rfl

theorem checkParams_erase (ps : List (Option Param)) :
    checkParams t.erase s (ps.map fun p => p.map Param.erase) =
      Except.erase (fun q => (q.1.erase, q.2.map fun p => p.map Param.erase))
        (checkParams t s ps) := by
  induction ps generalizing t with
  | nil => rfl
  | cons p rest ih =>
      refine Except.erase_bind (checkParam_erase t s p) fun q => ?_
      exact Except.erase_bind (ih q.1) fun _ => rfl

/-- The head of a function without its positions. -/
def FuncHead.erase (head : FuncHead) : FuncHead :=
  ⟨head.name.erase, head.params.map Params.erase, head.scope⟩

theorem checkFuncHead_erase (result : Option Ident) (isArray : Bool) (name : Option Ident)
    (params : Option Params) :
    checkFuncHead t.erase s (result.map Ident.erase) isArray (name.map Ident.erase)
        (params.map Params.erase) =
      Except.erase (fun p => (p.1.erase, p.2.erase))
        (checkFuncHead t s result isArray name params) := by
  refine Except.erase_bind (Ident.present_erase name) fun id => ?_
  rw [Table.function?_erase]
  cases t.function? s with
  | some outer => rfl
  | none =>
      refine Except.erase_bind (checkTypeName_erase result (!isArray)) fun kind => ?_
      have hstart : ∀ f, (t.child s).1.erase.setFunction (t.child s).2 (some f.erase) =
          ((t.child s).1.setFunction (t.child s).2 (some f)).erase :=
        fun f => (Table.setFunction_erase _ _ (some f)).symm
      have hlist : ((params.map Params.erase).map (·.list)).getD [] =
          ((params.map (·.list)).getD []).map fun p => p.map Param.erase := by
        cases params <;> rfl
      dsimp only
      rw [Table.child_erase, hlist]
      dsimp only
      rw [← show (Function.new id.name (if isArray = true then .array kind else .base kind)).erase =
        Function.new id.erase.name (if isArray = true then .array kind else .base kind) from rfl,
        hstart]
      refine Except.erase_bind (checkParams_erase _ _ _) fun p => ?_
      obtain ⟨t', list⟩ := p
      dsimp only
      rw [Table.functionAt?_erase, Option.getD_map]
      generalize (t'.functionAt? (t.child s).2).getD _ = f
      rw [Function.type_erase]
      refine Except.erase_bind (Table.addFunc_erase t' s
        (Symbol.fresh id.name f.type (some id.pos))) fun p => congrArg Except.ok ?_
      refine Prod.ext (Table.setFunction_erase _ _ (some { f with symbol := some p.2 })).symm ?_
      cases params <;> rfl

theorem checkReturn_erase (pos : Pos) (value : Expr) :
    checkReturn t.erase s .nowhere value.erase =
      Except.erase Stmt.erase (checkReturn t s pos value) := by
  unfold checkReturn
  rw [Table.function?_erase]
  cases t.function? s with
  | none => rfl
  | some f =>
      dsimp only [Option.map_some]
      rw [Expr.isMissing_erase, show f.erase.result = f.result from rfl]
      split
      · split <;> rfl
      · refine Except.erase_bind (value.check_erase t s) fun p => ?_
        obtain ⟨type, e⟩ := p
        dsimp only
        split
        · rw [Expr.pos_erase]
          rfl
        · exact Except.erase_bind (e.coerceFor_erase _ type f.result) fun _ => rfl

theorem checkLoopCond_erase (pos : Pos) (cond : Expr) :
    checkLoopCond t.erase s .nowhere cond.erase =
      Except.erase (fun p => (p.1.erase, p.2.erase)) (checkLoopCond t s pos cond) := by
  unfold checkLoopCond
  rw [Expr.isMissing_erase]
  split
  · refine Except.erase_bind (g := Expr.erase) ?_ fun _ => rfl
    have hcheck := Expr.checkCond_erase t s (.literal pos "true" none {})
    rw [Expr.erase_literal] at hcheck
    exact hcheck
  · exact Except.erase_bind (Expr.checkCond_erase t s cond) fun _ => rfl

theorem checkPart_erase {t : Table} {s : Nat} {part : Stmt}
    (h : ∀ t : Table, part.erase.check t.erase s =
      Except.erase (fun p => (p.1.erase, p.2.erase)) (part.check t s)) :
    part.erase.checkPart t.erase s =
      Except.erase (fun p => (p.1.erase, p.2.erase)) (part.checkPart t s) := by
  unfold Stmt.checkPart
  rw [Stmt.isMissing_erase]
  split
  · rfl
  · exact h t

end

mutual

/-- Checking a statement does not look at positions. -/
theorem Stmt.check_erase : ∀ (t : Table) (s : Nat) (stmt : Stmt),
    stmt.erase.check t.erase s = Except.erase (fun p => (p.1.erase, p.2.erase)) (stmt.check t s)
  | _, _, .missing => rfl
  | t, s, .call pos func args note => by
      rw [Stmt.erase_call, Stmt.check, Stmt.check, List.length_map]
      refine Except.erase_bind (checkCall_erase t s pos func args.length fun name params =>
        Expr.checkArgs_erase t s name 1 params args) fun p => ?_
      exact congrArg (fun stmt => Except.ok (_, stmt)) (Stmt.erase_call (some p.2.1) p.2.2 _).symm
  | t, s, .assign pos target value _ =>
      Except.erase_bind (checkAssign_erase t s pos target value) fun _ => rfl
  | t, s, .varDecl pos type vars => by
      rw [Stmt.erase_varDecl, Stmt.check, Stmt.check]
      refine Except.erase_bind (checkTypeName_erase type false) fun kind => ?_
      refine Except.erase_bind (checkVars_erase t s (.base kind) vars) fun p => ?_
      exact congrArg (fun stmt => Except.ok (_, stmt)) (Stmt.erase_varDecl type p.2).symm
  | t, s, .arrayDecl pos elem name size => by
      show Stmt.check t.erase s (.arrayDecl .nowhere (elem.map Ident.erase) (name.map Ident.erase)
        size.erase) = _
      rw [Stmt.check, Stmt.check]
      refine Except.erase_bind (checkTypeName_erase elem false) fun kind => ?_
      refine Except.erase_bind (size.check_erase t s) fun p => ?_
      refine Except.erase_bind (p.2.coerceFor_erase _ p.1 _) fun size' => ?_
      refine Except.erase_bind (Ident.present_erase name) fun id => ?_
      rw [Expr.pos_erase]
      exact Except.erase_bind (declare_erase t s id (.array kind) (some size'.pos)) fun _ => rfl
  | t, s, .ifElse pos cond yes no => by
      show Stmt.check t.erase s (.ifElse .nowhere cond.erase yes.erase no.erase) = _
      rw [Stmt.check, Stmt.check]
      refine Except.erase_bind (cond.checkCond_erase t s) fun cond' => ?_
      dsimp only
      rw [Table.child_erase]
      refine Except.erase_bind (Block.check_erase _ _ yes) fun p => ?_
      dsimp only
      rw [Table.child_erase]
      exact Except.erase_bind (Block.check_erase _ _ no) fun _ => rfl
  | t, s, .whileLoop pos cond body => by
      show Stmt.check t.erase s (.whileLoop .nowhere cond.erase body.erase) = _
      rw [Stmt.check, Stmt.check]
      refine Except.erase_bind (cond.checkCond_erase t s) fun cond' => ?_
      dsimp only
      rw [Table.child_erase]
      exact Except.erase_bind (Block.check_erase _ _ body) fun _ => rfl
  | t, s, .forLoop pos init cond inserted step body => by
      show Stmt.check t.erase s (.forLoop .nowhere init.erase cond.erase inserted.erase step.erase
        body.erase) = _
      rw [Stmt.check_forLoop, Stmt.check_forLoop]
      dsimp only
      rw [Table.child_erase]
      refine Except.erase_bind (checkPart_erase fun t => Stmt.check_erase t _ init) fun p => ?_
      refine Except.erase_bind (checkLoopCond_erase p.1 _ pos cond) fun q => ?_
      refine Except.erase_bind (checkPart_erase fun t => Stmt.check_erase t _ step) fun p' => ?_
      dsimp only
      rw [Table.child_erase]
      exact Except.erase_bind (Block.check_erase _ _ body) fun _ => rfl
  | t, s, .block b => by
      show Stmt.check t.erase s (.block b.erase) = _
      rw [Stmt.check, Stmt.check]
      dsimp only
      rw [Table.child_erase]
      exact Except.erase_bind (Block.check_erase _ _ b) fun _ => rfl
  | t, s, .funcDecl pos result isArray name params body function => by
      show Stmt.check t.erase s (.funcDecl .nowhere (result.map Ident.erase) isArray
        (name.map Ident.erase) (params.map Params.erase) body.erase _) = _
      rw [Stmt.check, Stmt.check]
      refine Except.erase_bind (checkFuncHead_erase t s result isArray name params) fun p => ?_
      obtain ⟨t', head⟩ := p
      dsimp only
      rw [Table.child_erase]
      refine Except.erase_bind (Block.check_erase _ _ body) fun q => congrArg Except.ok ?_
      obtain ⟨t'', body'⟩ := q
      dsimp only
      rw [Table.functionAt?_erase]
      rfl
  | t, s, .ret pos value => Except.erase_bind (checkReturn_erase t s pos value) fun _ => rfl

theorem Block.check_erase : ∀ (t : Table) (s : Nat) (b : Block),
    b.erase.check t.erase s = Except.erase (fun p => (p.1.erase, p.2.erase)) (b.check t s)
  | _, _, .missing => rfl
  | t, s, .of pos stmts => by
      rw [Block.erase_of, Block.check, Block.check]
      refine Except.erase_bind (Stmt.checkAll_erase t s stmts) fun p => ?_
      exact congrArg (fun b => Except.ok (_, b)) (Block.erase_of pos p.2).symm

theorem Stmt.checkAll_erase : ∀ (t : Table) (s : Nat) (stmts : List Stmt),
    Stmt.checkAll t.erase s (stmts.map Stmt.erase) =
      Except.erase (fun p => (p.1.erase, p.2.map Stmt.erase)) (Stmt.checkAll t s stmts)
  | _, _, [] => rfl
  | t, s, stmt :: rest => by
      rw [List.map_cons, Stmt.checkAll, Stmt.checkAll]
      refine Except.erase_bind (Stmt.check_erase t s stmt) fun p => ?_
      exact Except.erase_bind (Stmt.checkAll_erase p.1 s rest) fun _ => rfl

end

/-! ## Programs -/

/-- An analysis without positions. -/
def Analysis.erase (a : Analysis) : Analysis := ⟨a.program.erase, a.globals.map Symbol.erase⟩

/-- The builtin functions have no positions. -/
theorem Table.initial_erase : Table.initial.erase = Table.initial := by
  have hbind : ∀ (ids : List Symbol) (t : Table), (∀ id ∈ ids, id.erase = id) →
      (⟨ids.foldl (fun sc id => sc.bind 0 id.name id) t.names, t.frames⟩ : Table).erase =
        ⟨ids.foldl (fun sc id => sc.bind 0 id.name id) t.erase.names, t.erase.frames⟩ := by
    intro ids
    induction ids with
    | nil => exact fun _ _ => rfl
    | cons id rest ih =>
        intro t hids
        rw [List.foldl_cons, List.foldl_cons]
        rw [ih ⟨t.names.bind 0 id.name id, t.frames⟩ fun id hid => hids id (.tail _ hid),
          Table.bind_erase, hids id (.head _)]
  have hroot : (⟨.root, #[⟨.root, none, none, []⟩]⟩ : Table).erase =
      ⟨.root, #[⟨.root, none, none, []⟩]⟩ := by
    simp [erase, eraseLevel, Frame.erase, Scope.root]
  have hbuiltins := hbind Symbol.builtins ⟨.root, #[⟨.root, none, none, []⟩]⟩ (by decide)
  rw [hroot] at hbuiltins
  exact hbuiltins

theorem Block.analyse_erase (t : Table) (s : Nat) (b : Block) :
    b.erase.analyse t.erase s = Except.erase Analysis.erase (b.analyse t s) := by
  cases b with
  | missing => rfl
  | of pos stmts =>
      rw [Block.erase_of, Block.analyse, Block.analyse]
      dsimp only
      rw [Table.child_erase]
      refine Except.erase_bind (Stmt.checkAll_erase _ _ stmts) fun p => ?_
      dsimp only
      rw [Table.statics_erase]
      exact congrArg (fun b => Except.ok (Analysis.mk b _)) (Block.erase_of pos p.2).symm

/-- What is found out about a program without positions is what is found out about the program. -/
theorem Analysis.ofProgram_erase (b : Block) :
    Analysis.ofProgram b.erase = Except.erase Analysis.erase (Analysis.ofProgram b) := by
  have hanalyse := b.analyse_erase .initial Table.rootScope
  rw [Table.initial_erase] at hanalyse
  exact hanalyse

end SmallC
