import SmallC.Symbol

/-!
# Storage within reach

A piece of code reaches the storage of the program and, inside of a function,
the parameters and locals of that function. A symbol that a name was resolved to
is of use to the code only if it is stored there. `Symbol.Known` says so, and
says of a function that its signature is made of types that values can have.

Analysis adds storage as it goes, at the end of three lists: the static symbols
of a program, and the parameters and the locals of a function. What was in reach
stays in reach, which is `Symbol.Known.mono`, and the position of a symbol in
its list is its slot, which is `Symbol.Row`.
-/

namespace SmallC

/-! ## Types of values -/

/-- The scalar kinds that a value can have. -/
def Base.isData : Base → Bool
  | .int | .char | .float | .bool => true
  | .void | .unnamed _ => false

/-- The types that a value can have. -/
def Ty.isData : Ty → Bool
  | .base b | .array b => b.isData
  | .func _ _ | .absent => false

/-- The types that the result of a function can have. -/
def Ty.isResult : Ty → Bool
  | .base .void => true
  | t => t.isData

theorem Ty.isResult_of_isData {t : Ty} (h : t.isData = true) : t.isResult = true := by
  cases t with
  | base b => cases b <;> first | rfl | exact h
  | array b => exact h
  | func r ps => cases h
  | absent => cases h

theorem Ty.isFunc_of_isData {t : Ty} (h : t.isData = true) : t.isFunc = false := by
  cases t with
  | base b => rfl
  | array b => rfl
  | func r ps => cases h
  | absent => cases h

theorem Ty.isData_of_isResult {t : Ty} (h : t.isResult = true) (hv : t.isVoid = false) :
    t.isData = true := by
  cases t with
  | base b => cases b <;> first | exact h | cases hv
  | array b => exact h
  | func r ps => exact h
  | absent => exact h

/-- The types that a function can have. -/
def Ty.isSignature : Ty → Bool
  | .func result params => result.isResult && params.all Ty.isData
  | _ => false

theorem Ty.isSignature_iff {t : Ty} :
    t.isSignature = true ↔
      ∃ result params, t = .func result params ∧ result.isResult = true ∧
        ∀ p ∈ params, p.isData = true := by
  cases t with
  | func r ps =>
      simp only [Ty.isSignature, Bool.and_eq_true, List.all_eq_true]
      constructor
      · intro h
        exact ⟨r, ps, rfl, h⟩
      · rintro ⟨result, params, heq, h⟩
        cases heq
        exact h
  | _ => simp [Ty.isSignature]

/-! ## Rows of slots -/

/-- Symbols of one class of storage, each a variable or an array whose slot is its position. -/
def Symbol.Row (class_ : Storage → Prop) (ids : List Symbol) : Prop :=
  ∀ (i : Nat) (id : Symbol), ids[i]? = some id → class_ id.storage ∧ id.slot = i ∧ id.type.isData = true

theorem Symbol.Row.nil {class_ : Storage → Prop} : Symbol.Row class_ [] := by
  intro i id h
  cases h

/-- What holds of the members of a list at their positions, and of one more at the end. -/
theorem forall_getElem?_concat {α : Type} {P : Nat → α → Prop} {xs : List α} {x : α}
    (h : ∀ i y, xs[i]? = some y → P i y) (hx : P xs.length x) :
    ∀ i y, (xs ++ [x])[i]? = some y → P i y := by
  intro i y hi
  rcases Nat.lt_trichotomy i xs.length with hlt | rfl | hgt
  · rw [List.getElem?_append_left hlt] at hi
    exact h i y hi
  · rw [List.getElem?_concat_length] at hi
    cases hi
    exact hx
  · rw [List.getElem?_eq_none (by simp; omega)] at hi
    cases hi

/-- A row grows at its end, by a symbol whose slot is the number of those before it. -/
theorem Symbol.Row.snoc {class_ : Storage → Prop} {ids : List Symbol} {id : Symbol}
    (h : Symbol.Row class_ ids) (hc : class_ id.storage) (hs : id.slot = ids.length)
    (ht : id.type.isData = true) : Symbol.Row class_ (ids ++ [id]) :=
  forall_getElem?_concat h ⟨hc, hs, ht⟩

theorem Symbol.Row.isData {class_ : Storage → Prop} {ids : List Symbol} {id : Symbol}
    (h : Symbol.Row class_ ids) (hid : id ∈ ids) : id.type.isData = true := by
  obtain ⟨i, hi⟩ := List.getElem?_of_mem hid
  exact (h i id hi).2.2

theorem Symbol.find?_eq_none_iff {name : String} {ids : List Symbol} :
    Symbol.find? name ids = none ↔ name ∉ ids.map (·.name) := by
  unfold Symbol.find?
  rw [List.find?_eq_none]
  simp only [List.mem_map, not_exists, not_and, beq_iff_eq]

theorem Symbol.find?_some {name : String} {ids : List Symbol} {id : Symbol}
    (h : Symbol.find? name ids = some id) : id ∈ ids ∧ id.name = name :=
  ⟨List.mem_of_find?_eq_some h, by simpa using List.find?_some h⟩

/-- Among symbols with different names, each is the one found by its name. -/
theorem Symbol.find?_of_mem {ids : List Symbol} {id : Symbol} (h : (ids.map (·.name)).Nodup)
    (hid : id ∈ ids) : Symbol.find? id.name ids = some id := by
  induction ids with
  | nil => cases hid
  | cons x xs ih =>
      rw [List.map_cons, List.nodup_cons] at h
      unfold Symbol.find?
      rcases List.mem_cons.mp hid with rfl | hmem
      · rw [List.find?_cons_of_pos (by simp)]
      · have hne : x.name ≠ id.name := fun he => h.1 (he ▸ List.mem_map_of_mem hmem)
        rw [List.find?_cons_of_neg (by simpa using hne)]
        exact ih h.2 hmem

/-- The storage of a function: two rows of slots, and no name twice. -/
structure Function.Placed (f : Function) : Prop where
  result : f.result.isResult = true
  params : Symbol.Row (· = .param) f.params
  locals : Symbol.Row (· = .automatic) f.locals
  names : ((f.params ++ f.locals).map (·.name)).Nodup

/-- The type of a function with proper storage is made of proper types. -/
theorem Function.Placed.isSignature {f : Function} (h : f.Placed) :
    f.type.isSignature = true := by
  refine Ty.isSignature_iff.2 ⟨f.result, f.params.map (·.type), rfl, h.result, ?_⟩
  intro ty hty
  obtain ⟨id, hid, rfl⟩ := List.mem_map.1 hty
  exact h.params.isData hid

/-- The storage of a program: a row of slots, and no name twice. -/
structure Symbol.Static (ids : List Symbol) : Prop where
  row : Symbol.Row (fun c => c = .global ∨ c = .globalLocal) ids
  names : (ids.map (·.name)).Nodup

theorem nodup_names_snoc {ids : List Symbol} {id : Symbol} (h : (ids.map (·.name)).Nodup)
    (hid : id.name ∉ ids.map (·.name)) : ((ids ++ [id]).map (·.name)).Nodup := by
  rw [List.map_append, List.nodup_append]
  refine ⟨h, by simp, ?_⟩
  rintro a ha b hb rfl
  obtain rfl : a = id.name := by simpa using hb
  exact hid ha

theorem Symbol.Static.snoc {ids : List Symbol} {id : Symbol} (h : Symbol.Static ids)
    (hstorage : id.storage = .global ∨ id.storage = .globalLocal) (hslot : id.slot = ids.length)
    (htype : id.type.isData = true) (hfree : Symbol.find? id.name ids = none) :
    Symbol.Static (ids ++ [id]) :=
  ⟨h.row.snoc hstorage hslot htype, nodup_names_snoc h.names (Symbol.find?_eq_none_iff.1 hfree)⟩

/-- The same function with more locals. -/
def Function.addLocals (f : Function) (ids : List Symbol) : Function :=
  { f with locals := f.locals ++ ids }

theorem Function.addLocals_nil (f : Function) : f.addLocals [] = f := by
  unfold Function.addLocals
  rw [List.append_nil]

theorem Function.addLocals_addLocals (f : Function) (ids more : List Symbol) :
    (f.addLocals ids).addLocals more = f.addLocals (ids ++ more) := by
  unfold Function.addLocals
  rw [List.append_assoc]

theorem Function.Placed.addLocal {f : Function} {id : Symbol} (h : f.Placed)
    (hstorage : id.storage = .automatic) (hslot : id.slot = f.locals.length)
    (htype : id.type.isData = true) (hfree : f.find? id.name = none) :
    (f.addLocals [id]).Placed := by
  refine ⟨h.result, h.params, h.locals.snoc hstorage hslot htype, ?_⟩
  have hnot : id.name ∉ (f.params ++ f.locals).map (·.name) := by
    obtain ⟨hp, hl⟩ := Option.or_eq_none_iff.1 hfree
    rw [List.map_append, List.mem_append, not_or]
    exact ⟨Symbol.find?_eq_none_iff.1 hp, Symbol.find?_eq_none_iff.1 hl⟩
  show ((f.params ++ (f.locals ++ [id])).map (·.name)).Nodup
  rw [← List.append_assoc]
  exact nodup_names_snoc h.names hnot

/-- The same function with one more parameter. -/
def Function.addParam (f : Function) (id : Symbol) : Function :=
  { f with params := f.params ++ [id] }

/-- Parameters are declared before there are any locals. -/
theorem Function.Placed.addParam {f : Function} {id : Symbol} (h : f.Placed)
    (hlocals : f.locals = []) (hstorage : id.storage = .param) (hslot : id.slot = f.params.length)
    (htype : id.type.isData = true) (hfree : f.param? id.name = none) : (f.addParam id).Placed := by
  refine ⟨h.result, h.params.snoc hstorage hslot htype, h.locals, ?_⟩
  have hnames := h.names
  rw [hlocals, List.append_nil] at hnames
  show ((f.params ++ [id] ++ f.locals).map (·.name)).Nodup
  rw [hlocals, List.append_nil]
  exact nodup_names_snoc hnames (Symbol.find?_eq_none_iff.1 hfree)

/-! ## Reach -/

/-- The storage that a piece of code reaches: that of the program, and that of the function it stands
in. -/
structure Reach where
  globals : List Symbol
  function : Option Function

/-- Storage where a name stands for one symbol of its class. -/
structure Reach.Placed (r : Reach) : Prop where
  globals : Symbol.Static r.globals
  function : ∀ f, r.function = some f → f.Placed

/-- Whether a variable or an array is stored within reach. -/
def Symbol.Stored (r : Reach) (id : Symbol) : Prop :=
  match id.storage with
  | .global | .globalLocal => id ∈ r.globals
  | .param => ∃ f, r.function = some f ∧ f.param? id.name = some id
  | .automatic => ∃ f, r.function = some f ∧ id ∈ f.locals
  | .unnamed _ => False

/-- What a name can be resolved to: a variable or an array within reach, or a function. -/
inductive Symbol.Known (r : Reach) (id : Symbol) : Prop where
  | storage (type : id.type.isData = true) (stored : id.Stored r)
  | function {result : Ty} {params : List Ty} (type : id.type = .func result params)
      (isResult : result.isResult = true) (isData : ∀ p ∈ params, p.isData = true)
      (builtin : id.builtin = true → id ∈ Symbol.builtins)
      (user : id.builtin = false → id.name ∉ Symbol.builtins.map (·.name))

/-- What is known and has the type of a value is stored within reach. -/
theorem Symbol.Known.stored {r : Reach} {id : Symbol} (h : id.Known r)
    (hid : id.type.isFunc = false) : id.type.isData = true ∧ id.Stored r := by
  cases h with
  | storage type stored => exact ⟨type, stored⟩
  | function type _ _ _ _ => rw [type] at hid; cases hid

/-- The same function with more storage. -/
structure Function.Le (f f' : Function) : Prop where
  result : f'.result = f.result
  params : ∀ name id, f.param? name = some id → f'.param? name = some id
  locals : ∀ id ∈ f.locals, id ∈ f'.locals

theorem Function.Le.refl (f : Function) : f.Le f := ⟨rfl, fun _ _ h => h, fun _ h => h⟩

theorem Function.Le.trans {f₁ f₂ f₃ : Function} (h : f₁.Le f₂) (h' : f₂.Le f₃) : f₁.Le f₃ :=
  ⟨h'.result.trans h.result, fun name id hp => h'.params name id (h.params name id hp),
    fun id hl => h'.locals id (h.locals id hl)⟩

theorem Function.le_addLocals (f : Function) (ids : List Symbol) : f.Le (f.addLocals ids) :=
  ⟨rfl, fun _ _ h => h, fun _ h => List.mem_append_left _ h⟩

theorem Function.le_addParam (f : Function) (id : Symbol) : f.Le (f.addParam id) := by
  refine ⟨rfl, fun name id' h => ?_, fun _ h => h⟩
  show (f.params ++ [id]).find? _ = some id'
  rw [List.find?_append, show f.params.find? _ = some id' from h]
  rfl

/-- More storage in the same places. Code outside of any function may be compared with code inside
of one. -/
structure Reach.Le (r r' : Reach) : Prop where
  globals : ∀ id ∈ r.globals, id ∈ r'.globals
  function : ∀ f, r.function = some f → ∃ f', r'.function = some f' ∧ f.Le f'

theorem Reach.Le.refl (r : Reach) : r.Le r :=
  ⟨fun _ h => h, fun f h => ⟨f, h, Function.Le.refl f⟩⟩

theorem Reach.Le.trans {r₁ r₂ r₃ : Reach} (h : r₁.Le r₂) (h' : r₂.Le r₃) : r₁.Le r₃ := by
  refine ⟨fun id hid => h'.globals id (h.globals id hid), fun f hf => ?_⟩
  obtain ⟨f', hf', hle⟩ := h.function f hf
  obtain ⟨f'', hf'', hle'⟩ := h'.function f' hf'
  exact ⟨f'', hf'', hle.trans hle'⟩

theorem Symbol.Stored.mono {r r' : Reach} {id : Symbol} (hle : r.Le r') (h : id.Stored r) :
    id.Stored r' := by
  unfold Symbol.Stored at h ⊢
  split at h
  · exact hle.globals _ h
  · exact hle.globals _ h
  · obtain ⟨f, hf, hp⟩ := h
    obtain ⟨f', hf', hf⟩ := hle.function f hf
    exact ⟨f', hf', hf.params _ _ hp⟩
  · obtain ⟨f, hf, hl⟩ := h
    obtain ⟨f', hf', hf⟩ := hle.function f hf
    exact ⟨f', hf', hf.locals _ hl⟩
  · exact h

/-- What was in reach stays in reach. -/
theorem Symbol.Known.mono {r r' : Reach} {id : Symbol} (hle : r.Le r') (h : id.Known r) :
    id.Known r' := by
  cases h with
  | storage type stored => exact .storage type (stored.mono hle)
  | function type isResult isData builtin user =>
      exact .function type isResult isData builtin user

theorem Symbol.Known.of_mem_builtins {r : Reach} {id : Symbol} (h : id ∈ Symbol.builtins) :
    id.Known r := by
  have hall : ∀ id ∈ Symbol.builtins, id.type.isSignature = true ∧ id.builtin = true := by decide
  obtain ⟨result, params, type, isResult, isData⟩ := Ty.isSignature_iff.1 (hall id h).1
  refine .function type isResult isData (fun _ => h) fun hb => ?_
  rw [(hall id h).2] at hb
  cases hb

end SmallC
