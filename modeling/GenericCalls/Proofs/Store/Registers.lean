import GenericCalls.KeyedList
import GenericCalls.Proofs.Store.Histories

/-! # Declarations in registers

The declarations of a store may as well be kept in registers: one for each kind, by number, and one
more that tells the number of a class by its name. The next number is counted in 32 bits. An
operation changes one register after another, so that nothing but the count keeps a number from
standing in two of them. Registers hold a store when they tell of each number and each name what the
store tells. Every operation keeps this, and hence every history does. -/

namespace GenericCalls

/-- Declarations by kind and number, the numbers of classes by name, and the next number. -/
structure Registers where
  classes : KeyedList ClassId ClassDecl := .empty
  names : KeyedList String ClassId := .empty
  params : KeyedList ParamId ParamDecl := .empty
  methods : KeyedList MethodId MethodDecl := .empty
  next : UInt32 := 1

namespace Registers

/-! ### Operations -/

/-- Takes the next number. After the last number of 32 bits comes zero. -/
def allocate (r : Registers) : Registers × Nat := ({ r with next := r.next + 1 }, r.next.toNat)

def declareClass (r : Registers) (name : String) (kind : ClassKind) : Registers × ClassId :=
  let (r, id) := r.allocate
  let r := { r with names := r.names.put name id }
  ({ r with classes := r.classes.put id { name, kind } }, id)

def declareParam (r : Registers) (name : String) (owner : ParamOwner) : Registers × ParamId :=
  let (r, id) := r.allocate
  let r := { r with params := r.params.put id { name, owner } }
  match owner with
  | .cls c =>
    let classes := r.classes.modify c fun d => { d with params := d.params ++ [id] }
    ({ r with classes }, id)
  | .method m =>
    let methods := r.methods.modify m fun d => { d with typeParams := d.typeParams ++ [id] }
    ({ r with methods }, id)

def declareMethod (r : Registers) (name : String) (kind : CallableKind) (owner : Option ClassId) :
    Registers × MethodId :=
  let (r, id) := r.allocate
  ({ r with methods := r.methods.put id { name, kind, owner } }, id)

def addSupertype (r : Registers) (c : ClassId) (supertype : ClassTy) : Registers :=
  { r with
    classes := r.classes.modify c fun d => { d with supertypes := d.supertypes ++ [supertype] } }

def setBounds (r : Registers) (p : ParamId) (bounds : List Ty) : Registers :=
  { r with params := r.params.modify p fun d => { d with bounds } }

def setSignature (r : Registers) (m : MethodId) (formals : List Formal) (returns : Ty)
    (variadic : Bool) : Registers :=
  { r with methods := r.methods.modify m fun d => { d with formals, returns, variadic } }

def setVisibility (r : Registers) (m : MethodId) (visibility : Visibility) : Registers :=
  { r with methods := r.methods.modify m fun d => { d with visibility } }

def size (r : Registers) : Nat := r.classes.size + r.params.size + r.methods.size

def perform (r : Registers) : Store.Operation → Registers × Option Nat
  | .declareClass name kind => ((r.declareClass name kind).1, some (r.declareClass name kind).2)
  | .declareParam name owner => ((r.declareParam name owner).1, some (r.declareParam name owner).2)
  | .declareMethod name kind owner =>
    ((r.declareMethod name kind owner).1, some (r.declareMethod name kind owner).2)
  | .addSupertype c supertype => (r.addSupertype c supertype, none)
  | .setBounds p bounds => (r.setBounds p bounds, none)
  | .setSignature m formals returns variadic =>
    (r.setSignature m formals returns variadic, none)
  | .setVisibility m visibility => (r.setVisibility m visibility, none)

/-- Operations one after another: the registers afterwards, and the numbers that were given. -/
def run (r : Registers) : List Store.Operation → Registers × List Nat
  | [] => (r, [])
  | op :: ops =>
    let (r', ids) := (r.perform op).1.run ops
    (r', (r.perform op).2.toList ++ ids)

/-! ### Entries -/

/-- What stands under one number in the registers of the three kinds. -/
structure Entry where
  cls : Option ClassDecl
  param : Option ParamDecl
  method : Option MethodDecl

/-- A declaration stands in the register of its kind only. -/
def Entry.ofDecl? : Option Decl → Entry
  | none => ⟨none, none, none⟩
  | some (.cls d) => ⟨some d, none, none⟩
  | some (.param d) => ⟨none, some d, none⟩
  | some (.method d) => ⟨none, none, some d⟩

def entry (r : Registers) (i : Nat) : Entry :=
  ⟨r.classes.get? i, r.params.get? i, r.methods.get? i⟩

/-- The registers have under each number what the store declares under it, and nothing else. -/
def Tells (r : Registers) (s : Store) : Prop := ∀ i, r.entry i = .ofDecl? (s.decl? i)

variable {r : Registers} {s : Store} {ops : List Store.Operation}

theorem Tells.class?_eq (h : r.Tells s) (i : ClassId) : r.classes.get? i = s.class? i := by
  refine (congrArg Entry.cls (h i)).trans ?_
  unfold Store.class?
  cases s.decl? i with
  | none => rfl
  | some d => cases d <;> rfl

theorem Tells.param?_eq (h : r.Tells s) (i : ParamId) : r.params.get? i = s.param? i := by
  refine (congrArg Entry.param (h i)).trans ?_
  unfold Store.param?
  cases s.decl? i with
  | none => rfl
  | some d => cases d <;> rfl

theorem Tells.method?_eq (h : r.Tells s) (i : MethodId) : r.methods.get? i = s.method? i := by
  refine (congrArg Entry.method (h i)).trans ?_
  unfold Store.method?
  cases s.decl? i with
  | none => rfl
  | some d => cases d <;> rfl

theorem Tells.oneKind (h : r.Tells s) (i : Nat) :
    (∀ c, r.classes.get? i = some c → r.params.get? i = none ∧ r.methods.get? i = none) ∧
      ∀ p, r.params.get? i = some p → r.methods.get? i = none := by
  rw [h.class?_eq, h.param?_eq, h.method?_eq]
  exact Store.oneKind s i

theorem Tells.entry_new (h : r.Tells s) : r.entry (s.size + 1) = ⟨none, none, none⟩ := by
  rw [h, Store.decl?_eq_none (Nat.lt_succ_self _)]
  rfl

/-! ### Declaring and completing -/

/-- A declaration that is put under the next number, into the register of its kind. -/
theorem Tells.declare {r' : Registers} (h : r.Tells s) (d : Decl)
    (hnew : r'.entry (s.size + 1) = .ofDecl? (some d))
    (hold : ∀ i, i ≠ s.size + 1 → r'.entry i = r.entry i) : r'.Tells (s.declare d).1 := by
  intro i
  rw [Store.decl?_declare]
  split
  · rename_i hi
    rw [hi, hnew]
  · rename_i hi
    rw [hold i hi, h]

theorem Tells.putClass (h : r.Tells s) (d : ClassDecl) :
    Tells { r with classes := r.classes.put (s.size + 1) d } (s.declare (.cls d)).1 := by
  refine h.declare (.cls d) ?_ fun i hi => ?_
  · obtain ⟨-, hparam, hmethod⟩ := Entry.mk.inj h.entry_new
    simp [entry, Entry.ofDecl?, KeyedList.get?_put, hparam, hmethod]
  · simp [entry, KeyedList.get?_put, Ne.symm hi]

theorem Tells.putParam (h : r.Tells s) (d : ParamDecl) :
    Tells { r with params := r.params.put (s.size + 1) d } (s.declare (.param d)).1 := by
  refine h.declare (.param d) ?_ fun i hi => ?_
  · obtain ⟨hclass, -, hmethod⟩ := Entry.mk.inj h.entry_new
    simp [entry, Entry.ofDecl?, KeyedList.get?_put, hclass, hmethod]
  · simp [entry, KeyedList.get?_put, Ne.symm hi]

theorem Tells.putMethod (h : r.Tells s) (d : MethodDecl) :
    Tells { r with methods := r.methods.put (s.size + 1) d } (s.declare (.method d)).1 := by
  refine h.declare (.method d) ?_ fun i hi => ?_
  · obtain ⟨hclass, hparam, -⟩ := Entry.mk.inj h.entry_new
    simp [entry, Entry.ofDecl?, KeyedList.get?_put, hclass, hparam]
  · simp [entry, KeyedList.get?_put, Ne.symm hi]

/-- Where a register changes a declaration of its kind, the store changes any of this kind. -/
theorem Tells.modify {r' : Registers} {j : Nat} {f : Decl → Decl} (h : r.Tells s)
    (hat : r'.entry j = .ofDecl? ((s.decl? j).map f))
    (hold : ∀ i, j ≠ i → r'.entry i = r.entry i) : r'.Tells (s.modify f j) := by
  intro i
  rw [Store.decl?_modify]
  split
  · rename_i hi
    rw [← hi, hat]
  · rename_i hi
    rw [hold i hi, h]

theorem Tells.modifyClass (h : r.Tells s) (c : ClassId) (f : ClassDecl → ClassDecl) :
    Tells { r with classes := r.classes.modify c f } (s.modifyClass c f) := by
  refine h.modify ?_ fun i hi => ?_
  · have hc := h c
    cases hd : s.decl? c with
    | none => simp_all [entry, Entry.ofDecl?, KeyedList.get?_modify]
    | some d => cases d <;> simp_all [entry, Entry.ofDecl?, KeyedList.get?_modify]
  · simp [entry, KeyedList.get?_modify, hi]

theorem Tells.modifyParam (h : r.Tells s) (p : ParamId) (f : ParamDecl → ParamDecl) :
    Tells { r with params := r.params.modify p f } (s.modifyParam p f) := by
  refine h.modify ?_ fun i hi => ?_
  · have hp := h p
    cases hd : s.decl? p with
    | none => simp_all [entry, Entry.ofDecl?, KeyedList.get?_modify]
    | some d => cases d <;> simp_all [entry, Entry.ofDecl?, KeyedList.get?_modify]
  · simp [entry, KeyedList.get?_modify, hi]

theorem Tells.modifyMethod (h : r.Tells s) (m : MethodId) (f : MethodDecl → MethodDecl) :
    Tells { r with methods := r.methods.modify m f } (s.modifyMethod m f) := by
  refine h.modify ?_ fun i hi => ?_
  · have hm := h m
    cases hd : s.decl? m with
    | none => simp_all [entry, Entry.ofDecl?, KeyedList.get?_modify]
    | some d => cases d <;> simp_all [entry, Entry.ofDecl?, KeyedList.get?_modify]
  · simp [entry, KeyedList.get?_modify, hi]

/-- The registers hold a store: they tell of each number and each name what it tells, and count the
same numbers. -/
structure Holds (r : Registers) (s : Store) : Prop where
  next : r.next.toNat = s.size + 1
  tells : r.Tells s
  named : ∀ name, r.names.get? name = s.classNamed? name
  size : r.size = s.size

/-! ### What one operation does -/

theorem number_perform (r : Registers) (op : Store.Operation) :
    (r.perform op).2 = op.declares?.map fun _ => r.next.toNat := by
  cases op with
  | declareParam name owner => cases owner <;> rfl
  | _ => rfl

theorem next_perform (r : Registers) (op : Store.Operation) :
    (r.perform op).1.next = if op.declares?.isSome then r.next + 1 else r.next := by
  cases op with
  | declareParam name owner => cases owner <;> rfl
  | _ => rfl

theorem get?_names_perform (r : Registers) (op : Store.Operation) (name : String) :
    (r.perform op).1.names.get? name =
      if op.declares?.any (Decl.isClassNamed name) then some r.next.toNat
      else r.names.get? name := by
  cases op with
  | declareClass other kind =>
    refine (KeyedList.get?_put ..).trans ?_
    simp [Store.Operation.declares?, Decl.isClassNamed]
  | declareParam other owner => cases owner <;> rfl
  | _ => rfl

theorem Tells.perform (h : r.Tells s) (hnext : r.next.toNat = s.size + 1) (op : Store.Operation) :
    (r.perform op).1.Tells (s.perform op).1 := by
  cases op with
  | declareClass name kind =>
    simp only [Registers.perform, declareClass, allocate, hnext]
    exact h.putClass { name, kind }
  | declareParam name owner =>
    cases owner with
    | cls c =>
      simp only [Registers.perform, declareParam, allocate, hnext]
      exact (h.putParam { name, owner := .cls c }).modifyClass c _
    | method m =>
      simp only [Registers.perform, declareParam, allocate, hnext]
      exact (h.putParam { name, owner := .method m }).modifyMethod m _
  | declareMethod name kind owner =>
    simp only [Registers.perform, declareMethod, allocate, hnext]
    exact h.putMethod { name, kind, owner }
  | addSupertype c supertype => exact h.modifyClass c _
  | setBounds p bounds => exact h.modifyParam p _
  | setSignature m formals returns variadic => exact h.modifyMethod m _
  | setVisibility m visibility => exact h.modifyMethod m _

theorem size_perform (h : r.Tells s) (hnext : r.next.toNat = s.size + 1) (op : Store.Operation) :
    (r.perform op).1.size = r.size + (r.perform op).2.toList.length := by
  have hempty := h.entry_new
  rw [← hnext] at hempty
  obtain ⟨hclass, hparam, hmethod⟩ := Entry.mk.inj hempty
  cases op with
  | declareClass name kind =>
    simp only [perform, declareClass, allocate, size, KeyedList.size_put_of_new hclass,
      Option.toList, List.length_singleton]
    omega
  | declareParam name owner =>
    cases owner <;>
      simp only [perform, declareParam, allocate, size, KeyedList.size_put_of_new hparam,
        KeyedList.size_modify, Option.toList, List.length_singleton] <;> omega
  | declareMethod name kind owner =>
    simp only [perform, declareMethod, allocate, size, KeyedList.size_put_of_new hmethod,
      Option.toList, List.length_singleton]
    omega
  | _ =>
    simp only [perform, addSupertype, setBounds, setSignature, setVisibility, size,
      KeyedList.size_modify, Option.toList, List.length_nil, Nat.add_zero]

/-- One operation on registers that hold a store gives the same number, and the registers hold the
store that the operation makes. -/
theorem Holds.perform (h : r.Holds s) (op : Store.Operation)
    (hsize : (s.perform op).1.size < UInt32.size - 1) :
    (r.perform op).2 = (s.perform op).2 ∧ (r.perform op).1.Holds (s.perform op).1 := by
  have hnumber : (r.perform op).2 = (s.perform op).2 := by
    rw [number_perform, Store.number_perform, h.next]
  have hgrown := Store.size_perform s op
  refine ⟨hnumber, ?_, h.tells.perform h.next op, fun name => ?_, ?_⟩
  · rw [Store.number_perform] at hgrown
    rw [next_perform]
    cases hop : op.declares? with
    | none =>
      rw [hop] at hgrown
      rw [hgrown]
      exact h.next
    | some e =>
      rw [hop] at hgrown
      have hsucc : (r.next + 1).toNat = (r.next.toNat + 1) % UInt32.size := UInt32.toNat_add ..
      have hlast : (s.perform op).1.size = s.size + 1 := hgrown
      show (r.next + 1).toNat = (s.perform op).1.size + 1
      rw [hsucc, h.next, hlast, Nat.mod_eq_of_lt (by omega)]
  · rw [get?_names_perform, Store.classNamed?_perform, h.named, h.next]
  · rw [size_perform h.tells h.next, hnumber, hgrown, h.size]

/-! ### Histories -/

theorem Holds.run (h : r.Holds s) (hsize : (s.run ops).1.size < UInt32.size - 1) :
    (r.run ops).2 = (s.run ops).2 ∧ (r.run ops).1.Holds (s.run ops).1 := by
  induction ops generalizing r s with
  | nil => exact ⟨rfl, h⟩
  | cons op ops ih =>
    have hlater : (s.perform op).1.size ≤ ((s.perform op).1.run ops).1.size := by
      rw [(Store.numbers_run (s.perform op).1 ops).2]
      exact Nat.le_add_right _ _
    have hsize : ((s.perform op).1.run ops).1.size < UInt32.size - 1 := hsize
    obtain ⟨hnumber, hnext⟩ := h.perform op (by omega)
    obtain ⟨hnumbers, hlast⟩ := ih hnext hsize
    refine ⟨?_, hlast⟩
    show (r.perform op).2.toList ++ ((r.perform op).1.run ops).2 =
      (s.perform op).2.toList ++ ((s.perform op).1.run ops).2
    rw [hnumber, hnumbers]

/-! ### Built-in classes -/

def bare : Registers := (({} : Registers).declareClass "Object" .concrete).1

def addWrapper (object number : ClassId) (r : Registers) (p : Primitive) : Registers :=
  match p.wrapperName? with
  | none => r
  | some name =>
    let (r, id) := r.declareClass name .concrete
    r.addSupertype id (.raw (if p = .boolean ∨ p = .char then object else number))

/-- The registers that hold `Object`, `Number`, `CharSequence`, `String` and the wrappers of the
primitive types. -/
def standard : Registers :=
  let (r, object) := ({} : Registers).declareClass "Object" .concrete
  let (r, number) := r.declareClass "Number" .concrete
  let (r, text) := r.declareClass "CharSequence" .interface
  let (r, string) := r.declareClass "String" .concrete
  Primitive.all.foldl (addWrapper object number) (r.addSupertype string (.raw text))

theorem holds_empty : ({} : Registers).Holds {} where
  next := rfl
  tells i := by cases i <;> rfl
  named _ := rfl
  size := rfl

/-- The classes that the language refers to are no matter of the registers. -/
theorem Holds.congr {s' : Store} (h : r.Holds s) (hdecls : s'.decls = s.decls) : r.Holds s' := by
  have hdecl (i : Nat) : s'.decl? i = s.decl? i := by
    unfold Store.decl?
    rw [hdecls]
  have hsize : s'.size = s.size := congrArg Array.size hdecls
  refine ⟨by rw [hsize, h.next], fun i => by rw [hdecl, h.tells], fun name => ?_,
    by rw [hsize, h.size]⟩
  rw [h.named, Store.classNamed?, Store.classNamed?, hsize]
  exact Store.classNamedWithin_congr fun i _ => by rw [hdecl]

theorem Holds.declareClass (h : r.Holds s) (hsize : s.size + 1 < UInt32.size - 1) (name : String)
    (kind : ClassKind) : (r.declareClass name kind).1.Holds (s.declareClass name kind).1 := by
  refine (h.perform (.declareClass name kind) ?_).2
  rw [Store.size_perform]
  exact hsize

theorem Holds.addSupertype (h : r.Holds s) (hsize : s.size < UInt32.size - 1) (c : ClassId)
    (supertype : ClassTy) : (r.addSupertype c supertype).Holds (s.addSupertype c supertype) := by
  refine (h.perform (.addSupertype c supertype) ?_).2
  rw [Store.size_perform]
  exact hsize

theorem Holds.addWrapper (h : r.Holds s) (hsize : s.size + 1 < UInt32.size - 1) (number : ClassId)
    (p : Primitive) : (r.addWrapper s.root number p).Holds (s.addWrapper number p) := by
  unfold Registers.addWrapper Store.addWrapper
  cases p.wrapperName? with
  | none => exact h
  | some name =>
    have hid : (r.declareClass name .concrete).2 = s.size + 1 := h.next
    have hgrown : (s.declareClass name .concrete).1.size = s.size + 1 := Store.size_declare ..
    have hdeclared := h.declareClass hsize name .concrete
    dsimp only
    rw [hid]
    exact (hdeclared.addSupertype (by omega) _ _).congr rfl

theorem Holds.addWrappers (h : r.Holds s) (number : ClassId) {ps : List Primitive}
    (hsize : s.size + ps.length < UInt32.size - 1) :
    (ps.foldl (Registers.addWrapper s.root number) r).Holds
      (ps.foldl (Store.addWrapper number) s) := by
  induction ps generalizing r s with
  | nil => exact h
  | cons p ps ih =>
    have hroot : (s.addWrapper number p).root = s.root := by
      unfold Store.addWrapper
      cases p.wrapperName? <;> rfl
    have hgrown : (s.addWrapper number p).size ≤ s.size + 1 := by
      unfold Store.addWrapper
      cases p.wrapperName? with
      | none => exact Nat.le_succ _
      | some name => exact Nat.le_of_eq ((Store.size_modify ..).trans (Store.size_declare ..))
    rw [List.length_cons] at hsize
    have hrest := ih (h.addWrapper (by omega) number p) (by omega)
    rw [hroot] at hrest
    exact hrest

theorem holds_bare : bare.Holds .bare :=
  (holds_empty.declareClass (by decide) "Object" .concrete).congr rfl

theorem holds_standard : standard.Holds .standard := by
  have hnumber := holds_bare.declareClass (by decide) "Number" .concrete
  have htext := hnumber.declareClass (by decide) "CharSequence" .interface
  have hstring := htext.declareClass (by decide) "String" .concrete
  let classes : Store := (((Store.bare.declareClass "Number" .concrete).1.declareClass "CharSequence"
    .interface).1.declareClass "String" .concrete).1.addSupertype 4 (.raw 3)
  have hclasses : Holds _ { classes with number := some 2, string := some 4 } :=
    (hstring.addSupertype (by decide) 4 (.raw 3)).congr rfl
  exact hclasses.addWrappers 2 (by decide)

/-! ### Histories of built-in classes -/

/-- Whatever is declared and completed, starting from the built-in classes: operations on registers
give the same numbers as on the store, and what is found by number or by name is the same. -/
theorem run_holds (hstart : r = bare ∧ s = .bare ∨ r = standard ∧ s = .standard)
    (ops : List Store.Operation) (hsize : (s.run ops).1.size < UInt32.size - 1) :
    (r.run ops).2 = (s.run ops).2 ∧ (r.run ops).1.Holds (s.run ops).1 := by
  rcases hstart with ⟨rfl, rfl⟩ | ⟨rfl, rfl⟩
  · exact holds_bare.run hsize
  · exact holds_standard.run hsize

/-- No number is given twice, and none comes to stand in two registers. -/
theorem run_oneKind (hstart : r = bare ∧ s = .bare ∨ r = standard ∧ s = .standard)
    (ops : List Store.Operation) (hsize : (s.run ops).1.size < UInt32.size - 1) :
    (r.run ops).2.Nodup ∧ ∀ i,
      (∀ c, (r.run ops).1.classes.get? i = some c →
        (r.run ops).1.params.get? i = none ∧ (r.run ops).1.methods.get? i = none) ∧
      ∀ p, (r.run ops).1.params.get? i = some p → (r.run ops).1.methods.get? i = none := by
  obtain ⟨hnumbers, hholds⟩ := run_holds hstart ops hsize
  refine ⟨?_, hholds.tells.oneKind⟩
  rw [hnumbers, (Store.numbers_run s ops).1]
  exact List.nodup_range'

end Registers

end GenericCalls
