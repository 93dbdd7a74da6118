import SmallC.Proofs.CheckSteps
import SmallC.Proofs.Reach

/-!
# Typed trees

The rules that a tree obeys once it has been checked, said of the tree alone: no
symbol table is in sight, only the storage that a piece of code reaches. Every
expression has its type in its note, every name is resolved to something within
reach, and wherever a value is used its type as used is exactly the one that is
needed there. So no reader of a typed tree has to convert or to look up anything.

The rules are what lowering relies on, and the only thing that it relies on.
-/

namespace SmallC

/-! ## Expressions -/

/-- A note of an expression of type `ty`: if the value is converted, then to a kind that its type
converts to, and the converted value has that kind. -/
structure Note.Of (ty : Ty) (n : Note) : Prop where
  type : n.type = some ty
  conv : ∀ c, n.conv = some c → c.type = some (.base c.dst) ∧ c.dst ∈ ty.conversions

/-- A type does not convert to itself. -/
theorem Ty.ne_of_mem_conversions {ty : Ty} {b : Base} (h : b ∈ ty.conversions) : .base b ≠ ty := by
  rintro rfl
  cases b <;> simp [Ty.conversions, Base.conversions] at h

/-- The name refers to a symbol within reach, whose type is the type of the name. -/
structure Ident.Refers (r : Reach) (id : Ident) (sym : Symbol) : Prop where
  symbol : id.symbol = some sym
  name : sym.name = id.name
  known : sym.Known r
  note : id.note.Of sym.type

/-- The type of an expression as used. -/
def Expr.usedType (e : Expr) : Option Ty := e.note.usedType

/-- The expressions that are typed where the storage `r` is within reach. -/
inductive Expr.Typed (r : Reach) : Expr → Prop where
  | literal {pos : Pos} {text : String} {value : Value} {note : Note}
      (decoded : Literal.decode text = .ok value) (note_of : note.Of (.base value.kind)) :
      Typed r (.literal pos text (some value) note)
  | ident {id : Ident} {sym : Symbol} (refers : id.Refers r sym) : Typed r (.ident id)
  | unary {pos : Pos} {op : Op} {x : Expr} {note : Note} {ty : Ty} (operand : Typed r x)
      (used : x.usedType = some ty)
      (numeric : ty = .base .int ∨ ty = .base .float ∧ x.note.conv = none)
      (note_of : note.Of ty) : Typed r (.unary pos op x note)
  | binary {pos : Pos} {op : Op} {x y : Expr} {note : Note} {xType yType : Ty} {result : Base}
      (left : Typed r x) (right : Typed r y) (usedLeft : x.usedType = some xType)
      (usedRight : y.usedType = some yType) (accepts : op.Accepts xType yType result)
      (once : x.note.conv = none ∨ y.note.conv = none)
      (note_of : note.Of (.base result)) : Typed r (.binary pos op x y note)
  | index {pos : Pos} {array : Ident} {sym : Symbol} {elem : Base} {i : Expr} {note : Note}
      (refers : array.Refers r sym) (type : sym.type = .array elem) (operand : Typed r i)
      (used : i.usedType = some (.base .int)) (note_of : note.Of (.base elem)) :
      Typed r (.index pos (some array) i note)
  | call {pos : Pos} {func : Ident} {sym : Symbol} {result : Ty} {params : List Ty}
      {args : List Expr} {note : Note} (refers : func.Refers r sym)
      (type : sym.type = .func result params) (operands : ∀ e ∈ args, Typed r e)
      (used : args.map Expr.usedType = params.map some) (note_of : note.Of result) :
      Typed r (.call pos (some func) args note)

/-- The expression is typed, and used as a value of type `ty`. -/
structure Expr.UsedAs (r : Reach) (ty : Ty) (e : Expr) : Prop where
  typed : e.Typed r
  used : e.usedType = some ty

theorem Ident.Refers.mono {r r' : Reach} {id : Ident} {sym : Symbol} (hle : r.Le r')
    (h : id.Refers r sym) : id.Refers r' sym :=
  ⟨h.symbol, h.name, h.known.mono hle, h.note⟩

theorem Expr.Typed.mono {r r' : Reach} {e : Expr} (hle : r.Le r') (h : e.Typed r) :
    e.Typed r' := by
  induction h with
  | literal decoded note_of => exact .literal decoded note_of
  | ident refers => exact .ident (refers.mono hle)
  | unary _ used numeric note_of ih => exact .unary ih used numeric note_of
  | binary _ _ usedLeft usedRight accepts once note_of ihx ihy =>
      exact .binary ihx ihy usedLeft usedRight accepts once note_of
  | index refers type _ used note_of ih => exact .index (refers.mono hle) type ih used note_of
  | call refers type _ used note_of ih => exact .call (refers.mono hle) type ih used note_of

theorem Expr.UsedAs.mono {r r' : Reach} {e : Expr} {ty : Ty} (hle : r.Le r') (h : e.UsedAs r ty) :
    e.UsedAs r' ty :=
  ⟨h.typed.mono hle, h.used⟩

theorem Expr.Typed.note_of {r : Reach} {e : Expr} (h : e.Typed r) : ∃ ty, e.note.Of ty := by
  cases h with
  | literal _ note_of => exact ⟨_, note_of⟩
  | ident refers => exact ⟨_, refers.note⟩
  | unary _ _ _ note_of => exact ⟨_, note_of⟩
  | binary _ _ _ _ _ _ note_of => exact ⟨_, note_of⟩
  | index _ _ _ _ note_of => exact ⟨_, note_of⟩
  | call _ _ _ _ note_of => exact ⟨_, note_of⟩

theorem Note.Of.unique {n : Note} {ty ty' : Ty} (h : n.Of ty) (h' : n.Of ty') : ty = ty' :=
  Option.some.inj (h.type.symm.trans h'.type)

/-- What is known about a typed expression can be replaced by something else that is right for its
type. -/
theorem Expr.Typed.withNote {r : Reach} {e : Expr} {n : Note} {ty : Ty} (h : e.Typed r)
    (ho : e.note.Of ty) (hn : n.Of ty) : (e.withNote n).Typed r ∧ (e.withNote n).note = n := by
  cases h with
  | literal decoded note_of =>
      obtain rfl := note_of.unique ho
      exact ⟨.literal decoded hn, rfl⟩
  | ident refers =>
      obtain rfl := refers.note.unique ho
      exact ⟨.ident ⟨refers.symbol, refers.name, refers.known, hn⟩, rfl⟩
  | unary operand used numeric note_of =>
      obtain rfl := note_of.unique ho
      exact ⟨.unary operand used numeric hn, rfl⟩
  | binary left right usedLeft usedRight accepts once note_of =>
      obtain rfl := note_of.unique ho
      exact ⟨.binary left right usedLeft usedRight accepts once hn, rfl⟩
  | index refers type operand used note_of =>
      obtain rfl := note_of.unique ho
      exact ⟨.index refers type operand used hn, rfl⟩
  | call refers type operands used note_of =>
      obtain rfl := note_of.unique ho
      exact ⟨.call refers type operands used hn, rfl⟩

theorem Expr.Typed.not_missing {r : Reach} {e : Expr} (h : e.Typed r) : e.isMissing = false := by
  cases h <;> rfl

/-! ## Statements -/

/-- The expressions that can stand for a place to store something. -/
def Expr.isPlace : Expr → Bool
  | .ident _ | .index _ _ _ _ => true
  | _ => false

/-- An assignment stores a value of exactly the type of its target, which is never converted. -/
structure AssignTyped (r : Reach) (target value : Expr) (noted : Option Ty) : Prop where
  place : target.isPlace = true
  kept : target.note.conv = none
  exists_type : ∃ ty, ty.isData = true ∧ target.UsedAs r ty ∧ value.UsedAs r ty ∧ noted = some ty

/-- A declared name stands for a variable or an array within reach. -/
structure Ident.Declares (r : Reach) (id : Ident) (sym : Symbol) : Prop where
  symbol : id.symbol = some sym
  isData : sym.type.isData = true
  stored : sym.Stored r

/-- An item of a declaration is a name, or an assignment to the name that it declares. -/
def Node.TypedVar (r : Reach) : Node → Prop
  | .expr (.ident id) => ∃ sym, id.Declares r sym
  | .stmt (.assign _ (.ident id) value noted) => AssignTyped r (.ident id) value noted
  | _ => False

theorem AssignTyped.mono {r r' : Reach} {target value : Expr} {noted : Option Ty} (hle : r.Le r')
    (h : AssignTyped r target value noted) : AssignTyped r' target value noted := by
  obtain ⟨hplace, hkept, ty, hdata, ht, hv, hn⟩ := h
  exact ⟨hplace, hkept, ty, hdata, ht.mono hle, hv.mono hle, hn⟩

theorem Ident.Declares.mono {r r' : Reach} {id : Ident} {sym : Symbol} (hle : r.Le r')
    (h : id.Declares r sym) : id.Declares r' sym :=
  ⟨h.symbol, h.isData, h.stored.mono hle⟩

/-- The condition of a loop: its own, or else the inserted one. -/
def LoopCondTyped (r : Reach) (cond inserted : Expr) : Prop :=
  (cond.UsedAs r (.base .bool) ∧ inserted = .missing) ∨
    (cond = .missing ∧ inserted.UsedAs r (.base .bool))

mutual

/-- The statements that are typed where the storage `r` is within reach. The body of a function
reaches the storage of that function, which is what the body declares. -/
def Stmt.Typed (r : Reach) : Stmt → Prop
  | .missing => False
  | .call pos func args note => (Expr.call pos func args note).Typed r
  | .assign _ target value noted => AssignTyped r target value noted
  | .varDecl _ _ vars => ∀ n ∈ vars, n.TypedVar r
  | .arrayDecl _ _ name size =>
    ∃ id sym elem, name = some id ∧ id.Declares r sym ∧ sym.type = .array elem ∧
      size.UsedAs r (.base .int)
  | .ifElse _ cond yes no => cond.UsedAs r (.base .bool) ∧ yes.Typed r ∧ no.Typed r
  | .whileLoop _ cond body => cond.UsedAs r (.base .bool) ∧ body.Typed r
  | .forLoop _ init cond inserted step body =>
    (init = .missing ∨ init.Typed r) ∧ LoopCondTyped r cond inserted ∧
      (step = .missing ∨ step.Typed r) ∧ body.Typed r
  | .block b => b.Typed r
  | .funcDecl _ _ _ _ _ body function =>
    ∃ f, function = some f ∧ f.Placed ∧ f.locals = body.declared ∧
      body.Typed ⟨r.globals, some f⟩
  | .ret _ value =>
    ∃ f, r.function = some f ∧
      ((value = .missing ∧ f.result.isVoid = true) ∨
        (f.result.isData = true ∧ value.UsedAs r f.result))

/-- The blocks that are typed. -/
def Block.Typed (r : Reach) : Block → Prop
  | .missing => True
  | .of _ stmts => Stmt.AllTyped r stmts

/-- The lists of statements that are typed. -/
def Stmt.AllTyped (r : Reach) : List Stmt → Prop
  | [] => True
  | s :: rest => s.Typed r ∧ Stmt.AllTyped r rest

end

/-! ## The expressions of a program -/

/-- A name that is referred to, as an expression. -/
def Ident.asExpr (id : Option Ident) : List Expr := id.toList.map .ident

mutual

/-- An expression and all expressions that it is made of. -/
def Expr.parts : Expr → List Expr
  | .missing => []
  | .literal pos text value note => [.literal pos text value note]
  | .ident id => [.ident id]
  | .unary pos op x note => .unary pos op x note :: x.parts
  | .binary pos op x y note => .binary pos op x y note :: (x.parts ++ y.parts)
  | .index pos array i note => .index pos array i note :: (Ident.asExpr array ++ i.parts)
  | .call pos func args note => .call pos func args note :: (Ident.asExpr func ++ Expr.partsAll args)
  | .convert pos x dst => .convert pos x dst :: x.parts

/-- The parts of several expressions. -/
def Expr.partsAll : List Expr → List Expr
  | [] => []
  | e :: rest => e.parts ++ Expr.partsAll rest

end

/-- The expressions of one item of a declaration. A name that is only declared is none. -/
def Node.exprs : Node → List Expr
  | .stmt (.assign _ target value _) => target.parts ++ value.parts
  | _ => []

mutual

/-- The expressions that a statement evaluates or assigns to, those of nested blocks and functions
included. -/
def Stmt.exprs : Stmt → List Expr
  | .missing => []
  | .call pos func args note => (Expr.call pos func args note).parts
  | .assign _ target value _ => target.parts ++ value.parts
  | .varDecl _ _ vars => vars.flatMap Node.exprs
  | .arrayDecl _ _ _ size => size.parts
  | .ifElse _ cond yes no => cond.parts ++ yes.exprs ++ no.exprs
  | .whileLoop _ cond body => cond.parts ++ body.exprs
  | .forLoop _ init cond inserted step body =>
    init.exprs ++ cond.parts ++ inserted.parts ++ step.exprs ++ body.exprs
  | .block b => b.exprs
  | .funcDecl _ _ _ _ _ body _ => body.exprs
  | .ret _ value => value.parts

/-- The expressions of a block. -/
def Block.exprs : Block → List Expr
  | .missing => []
  | .of _ stmts => Stmt.exprsIn stmts

/-- The expressions of several statements. -/
def Stmt.exprsIn : List Stmt → List Expr
  | [] => []
  | s :: rest => s.exprs ++ Stmt.exprsIn rest

end

theorem Expr.mem_partsAll {x : Expr} {es : List Expr} (h : x ∈ Expr.partsAll es) :
    ∃ e ∈ es, x ∈ e.parts := by
  induction es with
  | nil => cases h
  | cons e rest ih =>
      rcases List.mem_append.1 h with h | h
      · exact ⟨e, List.mem_cons_self, h⟩
      · obtain ⟨e', he', hx⟩ := ih h
        exact ⟨e', List.mem_cons_of_mem _ he', hx⟩

/-- Whatever a typed expression is made of is typed. -/
theorem Expr.Typed.parts {r : Reach} {e : Expr} (h : e.Typed r) : ∀ x ∈ e.parts, x.Typed r := by
  induction h with
  | literal decoded note_of =>
      intro x hx
      obtain rfl := List.mem_singleton.1 hx
      exact .literal decoded note_of
  | ident refers =>
      intro x hx
      obtain rfl := List.mem_singleton.1 hx
      exact .ident refers
  | unary operand used numeric note_of ih =>
      intro x hx
      rcases List.mem_cons.1 hx with rfl | hx
      · exact .unary operand used numeric note_of
      · exact ih x hx
  | binary left right usedLeft usedRight accepts once note_of ihx ihy =>
      intro x hx
      rcases List.mem_cons.1 hx with rfl | hx
      · exact .binary left right usedLeft usedRight accepts once note_of
      · rcases List.mem_append.1 hx with hx | hx
        · exact ihx x hx
        · exact ihy x hx
  | index refers type operand used note_of ih =>
      intro x hx
      rcases List.mem_cons.1 hx with rfl | hx
      · exact .index refers type operand used note_of
      · rcases List.mem_append.1 hx with hx | hx
        · obtain rfl := List.mem_singleton.1 hx
          exact .ident refers
        · exact ih x hx
  | call refers type operands used note_of ih =>
      intro x hx
      rcases List.mem_cons.1 hx with rfl | hx
      · exact .call refers type operands used note_of
      · rcases List.mem_append.1 hx with hx | hx
        · obtain rfl := List.mem_singleton.1 hx
          exact .ident refers
        · obtain ⟨e, he, hx⟩ := Expr.mem_partsAll hx
          exact ih e he x hx

theorem AssignTyped.parts {r : Reach} {target value : Expr} {noted : Option Ty}
    (h : AssignTyped r target value noted) : ∀ x ∈ target.parts ++ value.parts, x.Typed r := by
  obtain ⟨-, -, ty, -, ht, hv, -⟩ := h
  intro x hx
  rcases List.mem_append.1 hx with hx | hx
  · exact ht.typed.parts x hx
  · exact hv.typed.parts x hx

theorem Node.TypedVar.exprs {r : Reach} {n : Node} (h : n.TypedVar r) :
    ∀ x ∈ n.exprs, x.Typed r := by
  unfold Node.TypedVar at h
  split at h
  · intro x hx; cases hx
  · exact h.parts
  · exact h.elim

/-- An expression of a program is typed where the storage of the program is within reach, and that
of some function around it. -/
def Expr.TypedIn (globals : List Symbol) (e : Expr) : Prop :=
  ∃ f, e.Typed ⟨globals, f⟩

mutual

theorem Stmt.Typed.exprs {r : Reach} :
    ∀ {stmt : Stmt}, stmt.Typed r → ∀ x ∈ stmt.exprs, x.TypedIn r.globals
  | .missing, h => h.elim
  | .call _ _ _ _, h => fun x hx => ⟨r.function, Expr.Typed.parts h x hx⟩
  | .assign _ _ _ _, h => fun x hx => ⟨r.function, AssignTyped.parts h x hx⟩
  | .varDecl _ _ _, h => by
      intro x hx
      obtain ⟨n, hn, hx⟩ := List.mem_flatMap.1 hx
      exact ⟨r.function, (h n hn).exprs x hx⟩
  | .arrayDecl _ _ _ _, h => by
      obtain ⟨_, _, _, -, -, -, hsize⟩ := h
      exact fun x hx => ⟨r.function, hsize.typed.parts x hx⟩
  | .ifElse _ _ _ _, h => by
      obtain ⟨hc, hyes, hno⟩ := h
      intro x hx
      rcases List.mem_append.1 hx with hx | hx
      · rcases List.mem_append.1 hx with hx | hx
        · exact ⟨r.function, hc.typed.parts x hx⟩
        · exact Block.Typed.exprs hyes x hx
      · exact Block.Typed.exprs hno x hx
  | .whileLoop _ _ _, h => by
      obtain ⟨hc, hbody⟩ := h
      intro x hx
      rcases List.mem_append.1 hx with hx | hx
      · exact ⟨r.function, hc.typed.parts x hx⟩
      · exact Block.Typed.exprs hbody x hx
  | .forLoop _ _ _ _ _ _, h => by
      obtain ⟨hinit, hc, hstep, hbody⟩ := h
      intro x hx
      simp only [Stmt.exprs, List.mem_append] at hx
      rcases hx with (((hx | hx) | hx) | hx) | hx
      · rcases hinit with rfl | hinit
        · cases hx
        · exact Stmt.Typed.exprs hinit x hx
      · rcases hc with ⟨hc, rfl⟩ | ⟨rfl, hc⟩
        · exact ⟨r.function, hc.typed.parts x hx⟩
        · cases hx
      · rcases hc with ⟨hc, rfl⟩ | ⟨rfl, hc⟩
        · cases hx
        · exact ⟨r.function, hc.typed.parts x hx⟩
      · rcases hstep with rfl | hstep
        · cases hx
        · exact Stmt.Typed.exprs hstep x hx
      · exact Block.Typed.exprs hbody x hx
  | .block _, h => Block.Typed.exprs h
  | .funcDecl _ _ _ _ _ _ _, h => by
      obtain ⟨f, -, -, -, hbody⟩ := h
      have hexprs := Block.Typed.exprs hbody
      exact hexprs
  | .ret _ _, h => by
      obtain ⟨f, -, ⟨rfl, -⟩ | ⟨-, hv⟩⟩ := h
      · intro x hx; cases hx
      · exact fun x hx => ⟨r.function, hv.typed.parts x hx⟩

theorem Block.Typed.exprs {r : Reach} :
    ∀ {b : Block}, b.Typed r → ∀ x ∈ b.exprs, x.TypedIn r.globals
  | .missing, _ => fun _ hx => (nomatch hx)
  | .of _ _, h => Stmt.AllTyped.exprs h

theorem Stmt.AllTyped.exprs {r : Reach} :
    ∀ {stmts : List Stmt}, Stmt.AllTyped r stmts → ∀ x ∈ Stmt.exprsIn stmts, x.TypedIn r.globals
  | [], _ => fun _ hx => (nomatch hx)
  | _ :: _, h => by
      intro x hx
      rcases List.mem_append.1 hx with hx | hx
      · exact Stmt.Typed.exprs h.1 x hx
      · exact Stmt.AllTyped.exprs h.2 x hx

end

end SmallC
