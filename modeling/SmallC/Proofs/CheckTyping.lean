import SmallC.Form.Program
import SmallC.Proofs.TableGrowth
import SmallC.Proofs.Typing

/-!
# A program that passes the check is typed

Expressions are checked against a table that does not change, so an expression
is typed right where it was checked. Statements are different: a statement is
checked against a table that later statements add to, and the storage of a
function is complete only at the end of its body. Hence the induction over
statements says that a checked statement is typed wherever at least the storage
given out so far is within reach, together with what keeps the induction going:
the table stays sound, and what it has grown by is what the statement declares.
-/

namespace SmallC

/-! ## Expressions -/

theorem Expr.coerce_usedAs {r : Reach} {e e' : Expr} {src dst : Ty} (h : e.Typed r)
    (hn : e.note = { type := some src }) (hc : e.coerce src dst = .ok e') : e'.UsedAs r dst := by
  have hof : e.note.Of src := by
    rw [hn]
    exact ⟨rfl, fun c hc => by cases hc⟩
  rcases Expr.coerce_ok hc with ⟨rfl, rfl⟩ | ⟨b, hb, -, rfl, rfl⟩
  · refine ⟨h, ?_⟩
    unfold Expr.usedType
    rw [hn]
    rfl
  · have hof' : Note.Of src { e.note with conv := some ⟨b, some (.base b)⟩ } := by
      refine ⟨hof.type, fun c hc => ?_⟩
      cases hc
      exact ⟨rfl, hb⟩
    obtain ⟨htyped, hnote⟩ := h.withNote hof hof'
    refine ⟨htyped, ?_⟩
    unfold Expr.usedType
    rw [hnote]
    rfl

theorem Table.Sound.refers {t : Table} (ht : t.Sound) {s : Nat} (hs : s < t.size) {id : Ident}
    {sym : Symbol} (h : t.lookup s id.name = some sym) :
    (id.referTo sym).Refers (t.reach s) sym := by
  obtain ⟨hname, hknown⟩ := ht.lookup hs h
  exact ⟨rfl, hname, hknown, rfl, fun c hc => by cases hc⟩

theorem Note.Of.ofType (ty : Ty) : Note.Of ty { type := some ty } :=
  ⟨rfl, fun c hc => by cases hc⟩

section

variable {t : Table} {s : Nat}

mutual

/-- A checked expression is typed, and its type is the one that the check gave. -/
theorem Expr.check_typed (ht : t.Sound) (hs : s < t.size) :
    ∀ {e e' : Expr} {ty : Ty}, e.check t s = .ok (ty, e') →
      e'.Typed (t.reach s) ∧ e'.note = { type := some ty }
  | .missing, _, _, h => by simp [Expr.check] at h
  | .convert _ _ _, _, _, h => by simp [Expr.check] at h
  | .literal _ _ _ _, _, _, h => by
      obtain ⟨v, hv, rfl, rfl⟩ := Expr.check_literal_ok h
      exact ⟨.literal hv (Note.Of.ofType _), rfl⟩
  | .ident _, _, _, h => by
      obtain ⟨sym, hsym, rfl, rfl⟩ := Expr.check_ident_ok h
      exact ⟨.ident (ht.refers hs hsym), rfl⟩
  | .unary _ _ _ _, _, _, h => by
      obtain ⟨_, x₁, x', hx, hx', hty, rfl⟩ := Expr.check_unary_ok h
      obtain ⟨htyped, hnote⟩ := Expr.check_typed ht hs hx
      have hused := Expr.coerce_usedAs htyped hnote hx'
      have hkept : x' = x₁ → x'.note.conv = none := fun heq => by rw [heq, hnote]
      exact ⟨.unary hused.typed hused.used (hty.imp_right (And.imp_right hkept))
        (Note.Of.ofType _), rfl⟩
  | .binary _ _ _ _ _, _, _, h => by
      obtain ⟨_, x₁, x', _, y₁, y', _, _, _, hx, hy, hx', hy', hop, honce, rfl, rfl⟩ :=
        Expr.check_binary_ok h
      obtain ⟨hxt, hxn⟩ := Expr.check_typed ht hs hx
      obtain ⟨hyt, hyn⟩ := Expr.check_typed ht hs hy
      have hxu := Expr.coerce_usedAs hxt hxn hx'
      have hyu := Expr.coerce_usedAs hyt hyn hy'
      have hconv : x'.note.conv = none ∨ y'.note.conv = none :=
        honce.imp (fun hx => by rw [hx, hxn]) (fun hy => by rw [hy, hyn])
      exact ⟨.binary hxu.typed hyu.typed hxu.used hyu.used hop hconv (Note.Of.ofType _), rfl⟩
  | .index _ _ _ _, _, _, h => by
      obtain ⟨id, sym, _, _, i₁, i', rfl, hsym, hty, hi, hi', rfl, rfl⟩ := Expr.check_index_ok h
      obtain ⟨hit, hin⟩ := Expr.check_typed ht hs hi
      have hiu := Expr.coerce_usedAs hit hin hi'
      exact ⟨.index (ht.refers hs hsym) hty hiu.typed hiu.used (Note.Of.ofType _), rfl⟩
  | .call _ _ _ _, _, _, h => by
      obtain ⟨id, sym, params, args', rfl, hsym, hty, hcount, hargs, rfl⟩ := Expr.check_call_ok h
      obtain ⟨htyped, hused⟩ := Expr.checkArgs_typed ht hs hcount hargs
      exact ⟨.call (ht.refers hs hsym) hty htyped hused (Note.Of.ofType _), rfl⟩

/-- Checked arguments are typed, and used at the types of the parameters. -/
theorem Expr.checkArgs_typed (ht : t.Sound) (hs : s < t.size) :
    ∀ {args args' : List Expr} {params : List Ty} {name : String} {i : Nat},
      params.length = args.length → Expr.checkArgs t s name i params args = .ok (args', []) →
      (∀ e ∈ args', e.Typed (t.reach s)) ∧ args'.map Expr.usedType = params.map some
  | [], args', params, _, _, hcount, h => by
      obtain rfl := List.length_eq_zero_iff.1 hcount
      cases h
      exact ⟨fun e he => (nomatch he), rfl⟩
  | e :: rest, args', [], _, _, hcount, _ => by cases hcount
  | e :: rest, args', param :: params, _, _, hcount, h => by
      obtain ⟨_, e₁, e', rest', he, he', hrest, rfl⟩ := Expr.checkArgs_cons_ok h
      obtain ⟨het, hen⟩ := Expr.check_typed ht hs he
      have heu := Expr.coerce_usedAs het hen he'
      obtain ⟨hrt, hru⟩ := Expr.checkArgs_typed ht hs (Nat.succ.inj hcount) hrest
      refine ⟨fun x hx => ?_, ?_⟩
      · rcases List.mem_cons.1 hx with rfl | hx
        · exact heu.typed
        · exact hrt x hx
      · rw [List.map_cons, List.map_cons, heu.used, hru]

end

end

/-! ## What a checked piece of a program guarantees -/

/-- The check of a piece of a program in scope `s` has led from a table to a sound one, which stores
the symbols `new` as well, and the piece is typed with what is stored by then, or with more. -/
structure Checked (t t' : Table) (s : Nat) (new : List Symbol) (typed : Reach → Prop) : Prop where
  sound : t'.Sound
  grows : t.Grows t' s new
  typed : ∀ r, (t'.reach s).Le r → typed r

section Checked

variable {t t' : Table} {s : Nat} {new : List Symbol} {P Q : Reach → Prop}

theorem Checked.imp (h : Checked t t' s new P) (hPQ : ∀ r, P r → Q r) : Checked t t' s new Q :=
  ⟨h.sound, h.grows, fun r hr => hPQ r (h.typed r hr)⟩

/-- A piece that declares nothing. -/
theorem Checked.pure (ht : t.Sound) (h : ∀ r, (t.reach s).Le r → P r) : Checked t t s [] P :=
  ⟨ht, Table.Grows.refl t s, h⟩

/-- One piece after another, both in the same scope. -/
theorem Checked.seq {t'' : Table} {more : List Symbol} (ht : t.Sound) (hs : s < t.size)
    (h : Checked t t' s new P) (h' : Checked t' t'' s more Q) :
    Checked t t'' s (new ++ more) fun r => P r ∧ Q r := by
  have hs' : s < t'.size := Nat.lt_of_lt_of_le hs h.grows.size
  refine ⟨h'.sound, h.grows.trans ht.toShaped hs h'.grows,
    fun r hr => ⟨h.typed r ?_, h'.typed r hr⟩⟩
  exact (h'.grows.reach h.sound.toShaped hs').trans hr

/-- A piece in a scope of its own. -/
theorem Checked.of_child (ht : t.Sound) {g : Nat} (hg : t.global? s = some g)
    (h : Checked (t.child s).1 t' (t.child s).2 new P) : Checked t t' s new P := by
  have hs := Table.lt_size_of_global hg
  have hscope : (t.child s).2 = t.size := ht.scope_child
  rw [hscope] at h
  have hgrows : t.Grows t' s new := h.grows.of_child ht.toShaped hg
  refine ⟨h.sound, hgrows, fun r hr => h.typed r ?_⟩
  rw [h.grows.reach_child ht.toShaped hg]
  exact hr

end Checked

/-! ## Declarations and assignments -/

theorem Base.isData_of_ofText? {name : String} {kind : Base} (h : Base.ofText? name = some kind)
    (hv : kind ≠ .void) : kind.isData = true := by
  have hmem : kind ∈ Base.all := List.mem_of_find?_eq_some h
  have hall : ∀ k ∈ Base.all, k ≠ .void → k.isData = true := by decide
  exact hall kind hmem hv

/-- The type of a variable is the type of a value. -/
theorem checkTypeName_isData {name : Option Ident} {kind : Base}
    (h : checkTypeName name false = .ok kind) : kind.isData = true := by
  obtain ⟨id, -, hkind, hvoid⟩ := checkTypeName_ok h
  exact Base.isData_of_ofText? hkind fun hv => by simpa using hvoid hv

theorem Ty.isData_ofKind {kind : Base} (isArray : Bool) (h : kind.isData = true) :
    (Ty.ofKind kind isArray).isData = true := by
  cases isArray <;> exact h

/-- The type of the result of a function may be `void`, unless it is an array. -/
theorem checkTypeName_isResult {name : Option Ident} {isArray : Bool} {kind : Base}
    (h : checkTypeName name (!isArray) = .ok kind) : (Ty.ofKind kind isArray).isResult = true := by
  obtain ⟨id, -, hkind, hvoid⟩ := checkTypeName_ok h
  by_cases hv : kind = .void
  · subst hv
    cases isArray with
    | false => rfl
    | true => cases hvoid rfl
  · exact Ty.isResult_of_isData (Ty.isData_ofKind isArray (Base.isData_of_ofText? hkind hv))

section

variable {t t' : Table} {s : Nat}

theorem declare_typed (ht : t.Sound) {id id' : Ident} {type : Ty} {size : Option Pos}
    (hid : type.isData = true) (h : declare t s id type size = .ok (t', id')) :
    ∃ sym, t'.Sound ∧ t.Grows t' s [sym] ∧ s < t.size ∧ id'.name = id.name ∧ sym.type = type ∧
      t'.lookup s id.name = some sym ∧ id'.Declares (t'.reach s) sym := by
  obtain ⟨sym, hadd, rfl⟩ := declare_ok h
  obtain ⟨hsound, hgrows, hlookup, htype⟩ := ht.addVar hid hadd
  obtain ⟨g, hg, -⟩ := Table.addVar_ok hadd
  have hs := Table.lt_size_of_global hg
  obtain ⟨-, hknown⟩ := hsound.lookup (Nat.lt_of_lt_of_le hs hgrows.size) hlookup
  have hdata : sym.type.isData = true := htype ▸ hid
  exact ⟨sym, hsound, hgrows, hs, rfl, htype, hlookup, rfl, hdata,
    (hknown.stored (Ty.isFunc_of_isData hdata)).2⟩

theorem checkTarget_typed (ht : t.Sound) (hs : s < t.size) {pos : Pos} {target target' : Expr}
    {ty : Ty} (h : checkTarget t s pos target = .ok (ty, target')) :
    target'.isPlace = true ∧ target'.note.conv = none ∧ ty.isData = true ∧
      target'.UsedAs (t.reach s) ty := by
  rcases checkTarget_ok h with ⟨id, sym, rfl, hsym, hfunc, rfl, rfl⟩ | ⟨_, _, _, _, rfl, hcheck⟩
  · have hrefers := ht.refers hs hsym
    exact ⟨rfl, rfl, (hrefers.known.stored hfunc).1, .ident hrefers, rfl⟩
  · obtain ⟨htyped, hnote⟩ := Expr.check_typed ht hs hcheck
    obtain ⟨id, sym, elem, _, _, _, rfl, hsym, hty, _, _, rfl, rfl⟩ := Expr.check_index_ok hcheck
    obtain ⟨-, hknown⟩ := ht.lookup hs hsym
    have hdata : (Ty.array elem).isData = true := by
      rw [← hty]
      exact (hknown.stored (by rw [hty]; rfl)).1
    exact ⟨rfl, rfl, hdata, htyped, rfl⟩

theorem checkAssign_typed (ht : t.Sound) (hs : s < t.size) {pos : Pos} {target value : Expr}
    {stmt : Stmt} (h : checkAssign t s pos target value = .ok stmt) :
    ∃ target' value' noted, stmt = .assign pos target' value' noted ∧
      AssignTyped (t.reach s) target' value' noted ∧
      ∀ id, target = .ident id → ∃ sym, t.lookup s id.name = some sym ∧
        target' = .ident (id.referTo sym) := by
  obtain ⟨ty, target', _, value₁, value', htarget, hvalue, hco, rfl⟩ := checkAssign_ok h
  obtain ⟨hplace, hkept, hdata, hused⟩ := checkTarget_typed ht hs htarget
  obtain ⟨hvt, hvn⟩ := Expr.check_typed ht hs hvalue
  refine ⟨target', value', some ty, rfl,
    ⟨hplace, hkept, ty, hdata, hused, Expr.coerce_usedAs hvt hvn hco, rfl⟩, ?_⟩
  rintro id rfl
  rcases checkTarget_ok htarget with ⟨_, sym, heq, hsym, -, -, rfl⟩ | ⟨_, _, _, _, heq, -⟩
  · cases heq
    exact ⟨sym, hsym, rfl⟩
  · cases heq

theorem checkVar_typed (ht : t.Sound) {type : Ty} {n n' : Node} (htype : type.isData = true)
    (h : checkVar t s type n = .ok (t', n')) :
    Checked t t' s n'.declared (n'.TypedVar ·) := by
  rcases checkVar_ok h with ⟨id, id', rfl, hd, rfl⟩ | ⟨pos, id, value, _, id', _, rfl, hd, ha, rfl⟩
  · obtain ⟨sym, hsound, hgrows, -, -, -, -, hdecl⟩ := declare_typed ht htype hd
    have hdeclared : Node.declared (.expr (.ident id')) = [sym] := by
      rw [Node.declared, hdecl.symbol]
      rfl
    rw [hdeclared]
    exact ⟨hsound, hgrows, fun r hr => ⟨sym, hdecl.mono hr⟩⟩
  · obtain ⟨sym, hsound, hgrows, hs, hname, -, hlookup, hdecl⟩ := declare_typed ht htype hd
    have hs' : s < t'.size := Nat.lt_of_lt_of_le hs hgrows.size
    obtain ⟨target', value', noted, rfl, htyped, hident⟩ := checkAssign_typed hsound hs' ha
    obtain ⟨sym', hsym', rfl⟩ := hident id' rfl
    rw [hname, hlookup] at hsym'
    cases hsym'
    exact ⟨hsound, hgrows, fun r hr => htyped.mono hr⟩

theorem checkVars_typed {type : Ty} (htype : type.isData = true) :
    ∀ {ns ns' : List Node} {t : Table}, t.Sound → s < t.size →
      checkVars t s type ns = .ok (t', ns') →
      Checked t t' s (ns'.flatMap Node.declared) fun r => ∀ n ∈ ns', n.TypedVar r
  | [], _, _, ht, _, h => by
      cases h
      exact Checked.pure ht fun r _ n hn => (nomatch hn)
  | n :: rest, _, t, ht, hs, h => by
      obtain ⟨t₁, n', rest', hn, hrest, rfl⟩ := checkVars_cons_ok h
      have hfirst := checkVar_typed ht htype hn
      have hs₁ : s < t₁.size := Nat.lt_of_lt_of_le hs hfirst.grows.size
      have hmore := checkVars_typed htype hfirst.sound hs₁ hrest
      exact (hfirst.seq ht hs hmore).imp fun r h => List.forall_mem_cons.2 h

end

/-! ## Functions -/

section

variable {t' : Table} {s : Nat}

theorem checkParams_sound :
    ∀ {ps ps' : List (Option Param)} {t : Table} {f : Function}, t.Sound →
      t.functionAt? s = some f → f.locals = [] → checkParams t s ps = .ok (t', ps') →
      t'.Sound ∧ t.Extends t' ∧ Table.Keeps s t t' ∧
        ∃ f', t'.functionAt? s = some f' ∧ f'.locals = []
  | [], _, t, f, ht, hf, hlocals, h => by
      cases h
      exact ⟨ht, Table.Extends.refl _, Table.Keeps.refl _ _, f, hf, hlocals⟩
  | p :: rest, _, t, f, ht, hf, hlocals, h => by
      obtain ⟨t₁, p', rest', hp, hrest, rfl⟩ := checkParams_cons_ok h
      obtain ⟨q, kind, id, sym, -, hkind, -, hadd, -⟩ := checkParam_ok hp
      have hdata := Ty.isData_ofKind q.isArray (checkTypeName_isData hkind)
      obtain ⟨hsound, hext, hkeeps, hf₁⟩ := ht.addParam hdata hf hlocals hadd
      obtain ⟨hsound', hext', hkeeps', hf'⟩ := checkParams_sound hsound hf₁ hlocals hrest
      exact ⟨hsound', hext.trans hext', hkeeps.trans hkeeps', hf'⟩

variable {t : Table}

/-- A scope that is opened for a function and marked with it, before its parameters are known. -/
theorem Table.Sound.openFunction (ht : t.Sound) {g : Nat} (hg : t.global? s = some g)
    (hnone : t.function? s = none) (name : String) {ty : Ty} (hty : ty.isResult = true) :
    ((t.child s).1.setFunction t.size (some (Function.new name ty))).Sound ∧
      ((t.child s).1.setFunction t.size (some (Function.new name ty))).functionAt? t.size =
        some (Function.new name ty) := by
  have hopen : (t.child s).1.Sound := ht.child (Table.lt_size_of_global hg)
  have hopenNone : (t.child s).1.function? t.size = none := by
    rw [Table.function?_eq_owner?, Table.owner?_child_new ht.toShaped, Table.owner?_eq_none hnone]
    rfl
  have hnew : (Function.new name ty).Placed :=
    ⟨hty, Symbol.Row.nil, Symbol.Row.nil, List.nodup_nil⟩
  refine ⟨hopen.mark (Table.size_child.symm) hopenNone hnew,
    Table.functionAt?_setFunction_self ?_⟩
  rw [Table.size_child]
  omega

/-- The head of a function opens a scope for it and changes nothing in those before. -/
theorem checkFuncHead_sound (ht : t.Sound) {g : Nat} (hg : t.global? s = some g)
    {result : Option Ident} {isArray : Bool} {name : Option Ident} {params : Option Params}
    {head : FuncHead} (h : checkFuncHead t s result isArray name params = .ok (t', head)) :
    t'.Sound ∧ Table.Keeps t.size t t' ∧ head.scope = t.size ∧ t'.global? t.size = some g ∧
      ∃ f, t'.functionAt? t.size = some f ∧ f.locals = [] := by
  obtain ⟨id, kind, t₁, list, f, t₂, sym, -, hnone, hkind, hparams, hfe, hadd, ht', hhead⟩ :=
    checkFuncHead_ok h
  rw [ht.scope_child] at hparams hfe ht' hhead
  obtain ⟨hmark, hmarked⟩ :=
    ht.openFunction hg hnone id.name (checkTypeName_isResult hkind)
  obtain ⟨hsound₁, hext₁, hkeeps₁, f', hf, hlocals⟩ := checkParams_sound hmark hmarked rfl hparams
  rw [hf, Option.getD_some] at hfe
  subst hfe ht' hhead
  have hplaced : f.Placed := hsound₁.placed _ f hf
  obtain ⟨g', rfl, hsound₂⟩ := hsound₁.addFunc hplaced.isSignature rfl hadd
  have hf₂ : (t₁.bindName g' sym).functionAt? t.size = some f := hf
  have hle : f.Le { f with symbol := some sym } := ⟨rfl, fun _ _ h => h, fun _ h => h⟩
  refine ⟨hsound₂.setFunction hf₂ hle ⟨hplaced.result, hplaced.params, hplaced.locals,
    hplaced.names⟩, ?_, rfl, ?_, { f with symbol := some sym },
    Table.functionAt?_setFunction_self (Table.lt_size_of_function hf₂), hlocals⟩
  · exact (Table.keeps_child ht.toShaped s).trans <|
      (Table.keeps_setFunction (Nat.le_refl _)).trans <| hkeeps₁.trans <|
      Table.keeps_bindName.trans (Table.keeps_setFunction (Nat.le_refl _))
  · rw [Table.global?_setFunction]
    show t₁.global? t.size = some g
    rw [hext₁.global, Table.global?_setFunction]
    exact Table.global?_child_new ht.toShaped hg

/-- The body of a function declares the locals of the function and nothing else. -/
theorem Checked.funcBody {t₁ : Table} {g n : Nat} {f : Function} {new : List Symbol}
    {P : Reach → Prop} (hs : s < n) (hg : t₁.global? s = some g) (hn : t₁.global? n = some g)
    (hsound : t₁.Sound) (hf : t₁.functionAt? n = some f) (hlocals : f.locals = [])
    (h : Checked t₁ t' n new P) :
    Table.Keeps n t₁ t' ∧ ∃ f', t'.functionAt? n = some f' ∧ f'.Placed ∧ f'.locals = new ∧
      ∀ r, (t'.reach s).Le r → P ⟨r.globals, some f'⟩ := by
  have hlt := Table.lt_size_of_global hn
  have ho : t₁.owner? n = some n := hsound.owner?_self hf
  have hf' : t'.functionAt? n = some (f.addLocals new) := by
    rw [h.grows.function n hlt, if_pos ho, hf]
    rfl
  have hkeeps : Table.Keeps n t₁ t' := by
    have hle : ∀ l, l < n → l < t₁.size := fun l hl => Nat.lt_trans hl hlt
    refine ⟨h.grows.size, fun l hl => h.grows.chain l (hle l hl),
      fun l hl => h.grows.global l (hle l hl), fun l hl => ?_, fun l hl => ?_⟩
    · rw [h.grows.function l (hle l hl), if_neg (by rw [ho]; simp; omega)]
    · rw [h.grows.statics l (hle l hl), if_neg (by simp [ho])]
  refine ⟨hkeeps, f.addLocals new, hf', h.sound.placed n _ hf', ?_, fun r hr => h.typed _ ?_⟩
  · show f.locals ++ new = new
    rw [hlocals, List.nil_append]
  · have hglobals : t'.statics n = t'.statics s := by
      rw [Table.statics_eq ((h.grows.global n hlt).trans hn),
        Table.statics_eq ((h.grows.global s (Nat.lt_trans hs hlt)).trans hg)]
    have hfun : t'.function? n = some (f.addLocals new) := by
      rw [Table.function?_eq_owner?, h.sound.owner?_self hf', Option.bind_some, hf']
    refine ⟨fun id hid => hr.globals id ?_, fun h' hh' => ?_⟩
    · show id ∈ t'.statics s
      rw [← hglobals]
      exact hid
    · have hh' : t'.function? n = some h' := hh'
      rw [hfun] at hh'
      cases hh'
      exact ⟨_, rfl, Function.Le.refl _⟩

end

/-! ## Statements -/

theorem Checked.cond {t : Table} {s : Nat} (ht : t.Sound) (hs : s < t.size) {e e' : Expr}
    (h : e.checkCond t s = .ok e') : Checked t t s [] (e'.UsedAs · (.base .bool)) := by
  obtain ⟨_, e₁, he, hco⟩ := Expr.checkCond_ok h
  obtain ⟨htyped, hnote⟩ := Expr.check_typed ht hs he
  exact Checked.pure ht fun r hr => (Expr.coerce_usedAs htyped hnote hco).mono hr

theorem Checked.loopCond {t : Table} {s : Nat} (ht : t.Sound) (hs : s < t.size) {pos : Pos}
    {cond cond' inserted : Expr} (h : checkLoopCond t s pos cond = .ok (cond', inserted)) :
    Checked t t s [] (LoopCondTyped · cond' inserted) := by
  rcases checkLoopCond_ok h with ⟨-, rfl, hc⟩ | ⟨-, hc, rfl⟩
  · exact (Checked.cond ht hs hc).imp fun r hr => .inr ⟨rfl, hr⟩
  · exact (Checked.cond ht hs hc).imp fun r hr => .inl ⟨hr, rfl⟩

theorem Checked.ret {t : Table} {s : Nat} (ht : t.Sound) (hs : s < t.size) {pos : Pos}
    {value : Expr} {stmt : Stmt} (h : checkReturn t s pos value = .ok stmt) :
    Checked t t s stmt.declared (stmt.Typed ·) := by
  obtain ⟨f, hf, ⟨-, hv, rfl⟩ | ⟨_, value₁, value', -, hv, hval, hco, rfl⟩⟩ := checkReturn_ok h
  · refine Checked.pure ht fun r hr => ?_
    obtain ⟨f', hf', hle⟩ := hr.function f hf
    exact ⟨f', hf', .inl ⟨rfl, hle.result ▸ hv⟩⟩
  · obtain ⟨htyped, hnote⟩ := Expr.check_typed ht hs hval
    obtain ⟨l, -, hl⟩ := Table.owner?_of_function? hf
    have hdata := Ty.isData_of_isResult (ht.placed l f hl).result hv
    refine Checked.pure ht fun r hr => ?_
    obtain ⟨f', hf', hle⟩ := hr.function f hf
    refine ⟨f', hf', .inr ⟨hle.result ▸ hdata, ?_⟩⟩
    rw [hle.result]
    exact (Expr.coerce_usedAs htyped hnote hco).mono hr

section

variable {s g : Nat}

mutual

/-- A checked statement is typed. -/
theorem Stmt.check_typed :
    ∀ {stmt stmt' : Stmt} {t t' : Table} {s : Nat}, t.Sound → t.global? s = some g →
      stmt.check t s = .ok (t', stmt') → Checked t t' s stmt'.declared (stmt'.Typed ·)
  | .missing, _, _, _, _, _, _, h => by cases h
  | .call _ _ _ _, _, _, _, _, ht, hg, h => by
      have hs := Table.lt_size_of_global hg
      obtain ⟨id, sym, _, _, args', rfl, rfl, hsym, hty, hcount, hargs, rfl⟩ :=
        Stmt.check_call_ok h
      obtain ⟨htyped, hused⟩ := Expr.checkArgs_typed ht hs hcount hargs
      refine Checked.pure ht fun r hr => Expr.Typed.mono hr ?_
      exact .call (ht.refers hs hsym) hty htyped hused (Note.Of.ofType _)
  | .assign _ _ _ _, _, _, _, _, ht, hg, h => by
      obtain ⟨rfl, ha⟩ := Stmt.check_assign_ok h
      obtain ⟨_, _, _, rfl, htyped, -⟩ := checkAssign_typed ht (Table.lt_size_of_global hg) ha
      exact Checked.pure ht fun r hr => htyped.mono hr
  | .varDecl _ _ _, _, _, _, _, ht, hg, h => by
      obtain ⟨kind, vars', hkind, hvars, rfl⟩ := Stmt.check_varDecl_ok h
      have hdata : (Ty.base kind).isData = true := checkTypeName_isData hkind
      exact checkVars_typed hdata ht (Table.lt_size_of_global hg) hvars
  | .arrayDecl _ _ _ _, _, _, t', s, ht, hg, h => by
      have hs := Table.lt_size_of_global hg
      obtain ⟨kind, _, size₁, size', id, id', hkind, hsize, hco, -, hd, rfl⟩ :=
        Stmt.check_arrayDecl_ok h
      obtain ⟨htyped, hnote⟩ := Expr.check_typed ht hs hsize
      have hdata : (Ty.array kind).isData = true := checkTypeName_isData hkind
      obtain ⟨sym, hsound, hgrows, -, -, htype, -, hdecl⟩ := declare_typed ht hdata hd
      have hdeclared : Ident.symbols (some id') = [sym] := by
        unfold Ident.symbols
        rw [Option.bind_some, hdecl.symbol]
        rfl
      refine ⟨hsound, ?_, fun r hr => ?_⟩
      · rw [Stmt.declared, hdeclared]
        exact hgrows
      · have hle := (hgrows.reach ht.toShaped hs).trans hr
        exact ⟨id', sym, kind, rfl, hdecl.mono hr, htype,
          (Expr.coerce_usedAs htyped hnote hco).mono hle⟩
  | .ifElse _ _ _ _, _, _, _, _, ht, hg, h => by
      have hs := Table.lt_size_of_global hg
      obtain ⟨cond', t₁, yes', no', hc, hyes, hno, rfl⟩ := Stmt.check_ifElse_ok h
      have hfirst := Block.check_inner ht hg hyes
      have hg₁ := (hfirst.grows.global _ hs).trans hg
      have hsecond := Block.check_inner hfirst.sound hg₁ hno
      have hboth := hfirst.seq ht hs hsecond
      have hall := (Checked.cond ht hs hc).seq ht hs hboth
      exact hall
  | .whileLoop _ _ _, _, _, _, _, ht, hg, h => by
      have hs := Table.lt_size_of_global hg
      obtain ⟨cond', body', hc, hbody, rfl⟩ := Stmt.check_whileLoop_ok h
      exact (Checked.cond ht hs hc).seq ht hs (Block.check_inner ht hg hbody)
  | .forLoop _ init _ _ step _, _, t, _, s, ht, hg, h => by
      obtain ⟨t₁, init', cond', inserted', t₂, step', body', hinit, hc, hstep, hbody, rfl⟩ :=
        Stmt.check_forLoop_ok h
      have hs := Table.lt_size_of_global hg
      have hopen := ht.child hs
      have hg₀ : (t.child s).1.global? (t.child s).2 = some g := by
        rw [ht.scope_child]
        exact Table.global?_child_new ht.toShaped hg
      have hs₀ := Table.lt_size_of_global hg₀
      have hfirst : Checked (t.child s).1 t₁ (t.child s).2 init'.declared
          fun r => init' = .missing ∨ init'.Typed r := by
        rcases Stmt.checkPart_ok hinit with ⟨-, rfl, rfl⟩ | ⟨-, hinit⟩
        · exact Checked.pure hopen fun r _ => .inl rfl
        · exact (Stmt.check_typed hopen hg₀ hinit).imp fun r hr => .inr hr
      have hg₁ := (hfirst.grows.global _ hs₀).trans hg₀
      have hs₁ := Table.lt_size_of_global hg₁
      have hcond := Checked.loopCond hfirst.sound hs₁ hc
      have hsecond : Checked t₁ t₂ (t.child s).2 step'.declared
          fun r => step' = .missing ∨ step'.Typed r := by
        rcases Stmt.checkPart_ok hstep with ⟨-, rfl, rfl⟩ | ⟨-, hstep⟩
        · exact Checked.pure hfirst.sound fun r _ => .inl rfl
        · exact (Stmt.check_typed hfirst.sound hg₁ hstep).imp fun r hr => .inr hr
      have hg₂ := (hsecond.grows.global _ hs₁).trans hg₁
      have hthird := Block.check_inner hsecond.sound hg₂ hbody
      have hall := (hfirst.seq hopen hs₀ (hcond.seq hfirst.sound hs₁ hsecond)).seq hopen hs₀ hthird
      refine Checked.of_child ht hg (hall.imp ?_)
      rintro r ⟨⟨hi, hcd, hst⟩, hb⟩
      exact ⟨hi, hcd, hst, hb⟩
  | .block _, _, _, _, _, ht, hg, h => by
      obtain ⟨b', hb, rfl⟩ := Stmt.check_block_ok h
      exact Block.check_inner ht hg hb
  | .funcDecl _ _ _ _ _ _ _, _, t, t', s, ht, hg, h => by
      obtain ⟨t₁, head, body', hh, hb, rfl⟩ := Stmt.check_funcDecl_ok h
      obtain ⟨hsound, hkeeps, hscope, hg₁, f, hf, hlocals⟩ := checkFuncHead_sound ht hg hh
      rw [hscope] at hb
      have hs := Table.lt_size_of_global hg
      have hbody := Block.check_inner hsound hg₁ hb
      obtain ⟨hkeeps', f', hf', hplaced, hlocals', htyped⟩ :=
        hbody.funcBody hs ((hkeeps.global s hs).trans hg) hg₁ hsound hf hlocals
      refine ⟨hbody.sound, (hkeeps.trans hkeeps').grows s, fun r hr => ?_⟩
      rw [hscope]
      exact ⟨f', hf', hplaced, hlocals', htyped r hr⟩
  | .ret _ _, _, _, _, _, ht, hg, h => by
      obtain ⟨rfl, hr⟩ := Stmt.check_ret_ok h
      exact Checked.ret ht (Table.lt_size_of_global hg) hr

/-- A block checked in a scope of its own is typed. -/
theorem Block.check_inner :
    ∀ {b b' : Block} {t t' : Table} {s : Nat}, t.Sound → t.global? s = some g →
      b.check (t.child s).1 (t.child s).2 = .ok (t', b') →
      Checked t t' s b'.declared (b'.Typed ·)
  | .missing, _, t, _, s, ht, hg, h => by
      cases h
      exact Checked.of_child ht hg
        (Checked.pure (ht.child (Table.lt_size_of_global hg)) fun r _ => trivial)
  | .of _ _, _, t, _, s, ht, hg, h => by
      obtain ⟨stmts', hs, rfl⟩ := Block.check_of_ok h
      have hg₀ : (t.child s).1.global? (t.child s).2 = some g := by
        rw [ht.scope_child]
        exact Table.global?_child_new ht.toShaped hg
      exact Checked.of_child ht hg
        (Stmt.checkAll_typed (ht.child (Table.lt_size_of_global hg)) hg₀ hs)

/-- Checked statements are typed. -/
theorem Stmt.checkAll_typed :
    ∀ {stmts stmts' : List Stmt} {t t' : Table} {s : Nat}, t.Sound → t.global? s = some g →
      Stmt.checkAll t s stmts = .ok (t', stmts') →
      Checked t t' s (Stmt.declaredIn stmts') (Stmt.AllTyped · stmts')
  | [], _, _, _, _, ht, _, h => by
      cases h
      exact Checked.pure ht fun r _ => trivial
  | _ :: _, _, _, _, _, ht, hg, h => by
      have hs := Table.lt_size_of_global hg
      obtain ⟨t₁, stmt', rest', hstmt, hrest, rfl⟩ := Stmt.checkAll_cons_ok h
      have hfirst := Stmt.check_typed ht hg hstmt
      have hg₁ := (hfirst.grows.global _ hs).trans hg
      exact hfirst.seq ht hs (Stmt.checkAll_typed hfirst.sound hg₁ hrest)

end

end

/-- A part of a loop that is there is typed. -/
theorem Stmt.checkPart_typed {t t' : Table} {s g : Nat} {part part' : Stmt} (ht : t.Sound)
    (hg : t.global? s = some g) (h : part.checkPart t s = .ok (t', part')) :
    Checked t t' s part'.declared fun r => part' = .missing ∨ part'.Typed r := by
  rcases Stmt.checkPart_ok h with ⟨-, rfl, rfl⟩ | ⟨-, hpart⟩
  · exact Checked.pure ht fun r _ => .inl rfl
  · exact (Stmt.check_typed ht hg hpart).imp fun r hr => .inr hr

/-! ## Programs -/

/-- The outermost scope of a program is opened in a table that is sound. -/
theorem Table.Sound.program :
    (Table.initial.child Table.rootScope).1.Sound ∧
      (Table.initial.child Table.rootScope).1.global?
          (Table.initial.child Table.rootScope).2 =
        some (Table.initial.child Table.rootScope).2 :=
  ⟨Table.Sound.initial.child Table.Sound.initial.nonempty, rfl⟩

/-- A program that passes the check is typed with what it stores, and what it stores outside of its
functions is what it declares there. -/
theorem Analysis.ofProgram_checked {b : Block} {a : Analysis} (h : Analysis.ofProgram b = .ok a) :
    a.program.Typed ⟨a.globals, none⟩ ∧ a.globals = a.program.declared ∧
      Symbol.Static a.globals := by
  obtain ⟨pos, stmts, t, stmts', rfl, hs, rfl⟩ := Analysis.ofProgram_ok h
  obtain ⟨ht, hg⟩ := Table.Sound.program
  have hlt := Table.lt_size_of_global hg
  have hchecked := Stmt.checkAll_typed ht hg hs
  have hfun : t.function? (Table.initial.child Table.rootScope).2 = none :=
    hchecked.grows.function? ht.toShaped hlt
  have hglobal := (hchecked.grows.global _ hlt).trans hg
  refine ⟨hchecked.typed _ ⟨fun _ hid => hid, fun f hf => ?_⟩, ?_, ?_⟩
  · exact absurd (hfun.symm.trans hf) (by simp)
  · show t.statics _ = Stmt.declaredIn stmts'
    rw [Table.statics_eq hglobal, hchecked.grows.statics _ hlt, if_pos ⟨rfl, hg⟩]
    rfl
  · show Symbol.Static (t.statics _)
    rw [Table.statics_eq hglobal]
    exact hchecked.sound.statics _

/-- No conversion is left to be found. Every expression that a checked program evaluates or assigns
to has its type; where its value is converted, the conversion is to a kind that its type is listed
to convert to and that differs from it; and the rules of typed trees hold throughout, which give
every value as used exactly the type that its use asks for. -/
theorem Analysis.conversions_complete {b : Block} {a : Analysis}
    (h : Analysis.ofProgram b = .ok a) :
    (∀ e ∈ a.program.exprs, ∃ ty, e.note.type = some ty ∧
      ∀ c, e.note.conv = some c →
        c.type = some (.base c.dst) ∧ c.dst ∈ ty.conversions ∧ .base c.dst ≠ ty) ∧
      a.program.Typed ⟨a.globals, none⟩ := by
  obtain ⟨htyped, -, -⟩ := Analysis.ofProgram_checked h
  refine ⟨fun e he => ?_, htyped⟩
  obtain ⟨f, hf⟩ := Block.Typed.exprs htyped e he
  obtain ⟨ty, hof⟩ := hf.note_of
  refine ⟨ty, hof.type, fun c hc => ?_⟩
  obtain ⟨htype, hmem⟩ := hof.conv c hc
  exact ⟨htype, hmem, Ty.ne_of_mem_conversions hmem⟩

/-- The analysis of a source text, if it is a program that passes the check. -/
def Analysis.ofText? (text : String) : Option Analysis :=
  (Block.parse text).toOption.bind fun b => (Analysis.ofProgram b).toOption

theorem Analysis.ofText?_eq_some {text : String} {a : Analysis}
    (h : Analysis.ofText? text = some a) :
    ∃ b, Block.parse text = .ok b ∧ Analysis.ofProgram b = .ok a := by
  unfold Analysis.ofText? at h
  cases hb : Block.parse text with
  | error e => rw [hb] at h; cases h
  | ok b =>
      rw [hb] at h
      cases ha : Analysis.ofProgram b with
      | error f => simp [Except.toOption, ha] at h
      | ok a' =>
          simp only [Except.toOption, Option.bind_some, ha, Option.some.injEq] at h
          subst h
          exact ⟨b, rfl, ha⟩

theorem Analysis.ofText?_isSome (text : String) (h : (Analysis.ofText? text).isSome = true) :
    ∃ b a, Block.parse text = .ok b ∧ Analysis.ofProgram b = .ok a := by
  obtain ⟨a, ha⟩ := Option.isSome_iff_exists.1 h
  obtain ⟨b, hb, ha⟩ := Analysis.ofText?_eq_some ha
  exact ⟨b, a, hb, ha⟩

theorem Analysis.conversions_complete_mixed :
    ∃ b a, Block.parse "(var int (= x 'a')) (if (== x 2.5) (block (= x true)))" = .ok b ∧
      Analysis.ofProgram b = .ok a ∧ a.program.Typed ⟨a.globals, none⟩ := by
  obtain ⟨b, a, hb, ha⟩ := Analysis.ofText?_isSome
    "(var int (= x 'a')) (if (== x 2.5) (block (= x true)))" (by decide +kernel)
  exact ⟨b, a, hb, ha, (Analysis.conversions_complete ha).2⟩

end SmallC
