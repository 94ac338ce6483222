import GenericCalls.Proofs.Store.Ownership
import Mathlib.Data.List.Nodup

/-! # Histories of a store

A store is made by a sequence of operations, each of which declares something under the next number
or completes what is declared under a number. Whatever numbers the operations name, undeclared ones
and those of other declarations included, the store stays consistent: a number stands for one
declaration, with the name, kind and owner that it was declared with; a class or method lists the
type parameters that were declared for it, in order; and a name stands for the class that was
declared last under it. -/

namespace GenericCalls

/-- The number of a declaration together with what kind of declaration it is to stand for. -/
inductive DeclRef where
  | cls (id : ClassId)
  | param (id : ParamId)
  | method (id : MethodId)
deriving DecidableEq, Repr

namespace Decl

def ref (i : Nat) : Decl → DeclRef
  | .cls _ => .cls i
  | .param _ => .param i
  | .method _ => .method i

/-- A declaration as it was made: its kind, its name and its owner. -/
def heading : Decl → Decl
  | .cls d => .cls { name := d.name, kind := d.kind }
  | .param d => .param { name := d.name, owner := d.owner }
  | .method d => .method { name := d.name, kind := d.kind, owner := d.owner }

def isClassNamed (name : String) : Decl → Bool
  | .cls d => d.name == name
  | _ => false

theorem isClassNamed_heading (name : String) (d : Decl) :
    d.heading.isClassNamed name = d.isClassNamed name := by
  cases d <;> rfl

theorem owner?_heading (d : Decl) : d.heading.owner? = d.owner? := by cases d <;> rfl

end Decl

namespace Store

/-! ### Operations -/

inductive Operation where
  | declareClass (name : String) (kind : ClassKind)
  | declareParam (name : String) (owner : ParamOwner)
  | declareMethod (name : String) (kind : CallableKind) (owner : Option ClassId)
  | addSupertype (c : ClassId) (supertype : ClassTy)
  | setBounds (p : ParamId) (bounds : List Ty)
  | setSignature (m : MethodId) (formals : List Formal) (returns : Ty) (variadic : Bool)
  | setVisibility (m : MethodId) (visibility : Visibility)

/-- One operation: the store afterwards, and the number that it gave to a new declaration. -/
def perform (s : Store) : Operation → Store × Option Nat
  | .declareClass name kind => ((s.declareClass name kind).1, some (s.declareClass name kind).2)
  | .declareParam name owner => ((s.declareParam name owner).1, some (s.declareParam name owner).2)
  | .declareMethod name kind owner =>
    ((s.declareMethod name kind owner).1, some (s.declareMethod name kind owner).2)
  | .addSupertype c supertype => (s.addSupertype c supertype, none)
  | .setBounds p bounds => (s.setBounds p bounds, none)
  | .setSignature m formals returns variadic =>
    (s.setSignature m formals returns variadic, none)
  | .setVisibility m visibility => (s.setVisibility m visibility, none)

/-- Operations one after another: the store afterwards, and the numbers that were given. -/
def run (s : Store) : List Operation → Store × List Nat
  | [] => (s, [])
  | op :: ops =>
    let (s', ids) := (s.perform op).1.run ops
    (s', (s.perform op).2.toList ++ ids)

namespace Operation

def declares? : Operation → Option Decl
  | declareClass name kind => some (.cls { name, kind })
  | declareParam name owner => some (.param { name, owner })
  | declareMethod name kind owner => some (.method { name, kind, owner })
  | _ => none

def subject? : Operation → Option DeclRef
  | declareClass _ _ | declareMethod _ _ _ => none
  | declareParam _ (.cls c) | addSupertype c _ => some (.cls c)
  | setBounds p _ => some (.param p)
  | declareParam _ (.method m) | setSignature m _ _ _ | setVisibility m _ => some (.method m)

/-- What an operation makes of the declaration that it completes, where `new` is the next number. -/
def completed (new : Nat) : Operation → Decl → Decl
  | declareParam _ _, d => d.addParam new
  | addSupertype _ t, .cls d => .cls { d with supertypes := d.supertypes ++ [t] }
  | setBounds _ bounds, .param d => .param { d with bounds }
  | setSignature _ formals returns variadic, .method d =>
    .method { d with formals, returns, variadic }
  | setVisibility _ visibility, .method d => .method { d with visibility }
  | _, d => d

theorem heading_completed (new : Nat) (op : Operation) (d : Decl) :
    (op.completed new d).heading = d.heading := by
  cases op <;> cases d <;> rfl

end Operation

variable {s s' : Store} {op : Operation} {ops : List Operation} {i : Nat} {d : Decl}

/-! ### What an operation does -/

theorem decl?_declare_new (s : Store) (e : Decl) (i : Nat) :
    (s.declare e).1.decl? i = if i = s.size + 1 then some e else (s.decl? i).map id := by
  rw [decl?_declare, Option.map_id_fun, id]

/-- An operation that declares nothing changes the declaration with one number, if that is its
subject. -/
theorem decl?_modify_completed {f : Decl → Decl} {j : Nat} (hnone : op.declares? = none)
    (hf : ∀ (i : Nat) (e : Decl), (if j = i then f e else e) =
      if op.subject? = some (e.ref i) then op.completed (s.size + 1) e else e) (i : Nat) :
    (s.modify f j).decl? i = if i = s.size + 1 then op.declares?
      else (s.decl? i).map fun e =>
        if op.subject? = some (e.ref i) then op.completed (s.size + 1) e else e := by
  split
  · rename_i hi
    rw [hnone, hi]
    exact decl?_eq_none (by rw [size_modify]; exact Nat.lt_succ_self _)
  · rw [decl?_modify]
    cases s.decl? i with
    | none => split <;> rfl
    | some e =>
      rw [Option.map_some, Option.map_some, ← hf]
      split <;> rfl

/-- All that an operation does: the next number stands for what it declares, and its subject is
completed, if it is declared and of the right kind. -/
theorem decl?_perform (s : Store) (op : Operation) (i : Nat) :
    (s.perform op).1.decl? i = if i = s.size + 1 then op.declares?
      else (s.decl? i).map fun e =>
        if op.subject? = some (e.ref i) then op.completed (s.size + 1) e else e := by
  cases op with
  | declareClass name kind => exact decl?_declare_new s _ i
  | declareMethod name kind owner => exact decl?_declare_new s _ i
  | declareParam name owner =>
    refine (decl?_declareParam s name owner i).trans ?_
    congr 2
    funext e
    cases owner <;> cases e <;>
      simp [Decl.asOwner?, Decl.ref, Operation.subject?, Operation.completed, eq_comm]
  | addSupertype | setBounds | setSignature | setVisibility =>
    refine decl?_modify_completed rfl (fun i e => ?_) i
    cases e <;> simp [Decl.ref, Operation.subject?, Operation.completed]

/-! ### Numbers -/

theorem size_perform (s : Store) (op : Operation) :
    (s.perform op).1.size = s.size + (s.perform op).2.toList.length := by
  cases op with
  | declareParam name owner =>
    cases owner <;>
      simp [perform, declareParam, modifyClass, modifyMethod, Option.toList]
  | _ =>
    simp [perform, declareClass, declareMethod, addSupertype, setBounds, setSignature,
      setVisibility, modifyClass, modifyParam, modifyMethod, Option.toList]

theorem number_perform (s : Store) (op : Operation) :
    (s.perform op).2 = op.declares?.map fun _ => s.size + 1 := by
  cases op with
  | declareParam name owner => cases owner <;> rfl
  | _ => rfl

/-- The numbers are given in order, and are those that the store has grown by. -/
theorem numbers_run (s : Store) (ops : List Operation) :
    (s.run ops).2 = List.range' (s.size + 1) (s.run ops).2.length ∧
      (s.run ops).1.size = s.size + (s.run ops).2.length := by
  induction ops generalizing s with
  | nil => exact ⟨rfl, rfl⟩
  | cons op ops ih =>
    obtain ⟨hids, hsize⟩ := ih (s.perform op).1
    have hgrown := size_perform s op
    have hnumber := number_perform s op
    show (s.perform op).2.toList ++ ((s.perform op).1.run ops).2 =
        List.range' (s.size + 1) ((s.perform op).2.toList ++ ((s.perform op).1.run ops).2).length ∧
      ((s.perform op).1.run ops).1.size =
        s.size + ((s.perform op).2.toList ++ ((s.perform op).1.run ops).2).length
    cases hop : op.declares? with
    | none =>
      rw [hop, Option.map_none] at hnumber
      rw [hnumber] at hgrown ⊢
      rw [hgrown] at hids hsize
      exact ⟨hids, hsize⟩
    | some e =>
      rw [hop, Option.map_some] at hnumber
      rw [hnumber] at hgrown ⊢
      rw [hgrown] at hids hsize
      simp only [Option.toList, List.length_cons, List.length_nil, List.cons_append,
        List.nil_append] at hids hsize ⊢
      refine ⟨?_, by omega⟩
      rw [List.range'_succ, ← hids]

theorem run_append (s : Store) (pre post : List Operation) :
    (s.run (pre ++ post)).1 = ((s.run pre).1.run post).1 := by
  induction pre generalizing s with
  | nil => rfl
  | cons op pre ih => exact ih (s.perform op).1

theorem step_perform (s : Store) (op : Operation) : Step s (s.perform op).1 := by
  cases op <;> constructor

theorem built_run (s : Store) (ops : List Operation) : Built s (s.run ops).1 := by
  induction ops generalizing s with
  | nil => exact .refl
  | cons op ops ih => exact .head (step_perform s op) (ih (s.perform op).1)

/-! ### What is kept -/

/-- An operation keeps every declaration, with its name, kind and owner, and changes none but its
subject. -/
theorem perform_keeps (hd : s.decl? i = some d) (op : Operation) :
    ∃ d', (s.perform op).1.decl? i = some d' ∧ d'.heading = d.heading ∧
      (op.subject? ≠ some (d.ref i) → d' = d) := by
  have hi : i ≠ s.size + 1 := by
    have := le_size_of_decl? hd
    omega
  rw [decl?_perform, if_neg hi, hd]
  refine ⟨_, rfl, ?_, fun hsubject => if_neg hsubject⟩
  dsimp only
  split
  · exact op.heading_completed _ d
  · rfl

theorem run_keeps (hd : s.decl? i = some d) (ops : List Operation) :
    ∃ d', (s.run ops).1.decl? i = some d' ∧ d'.heading = d.heading := by
  induction ops generalizing s d with
  | nil => exact ⟨d, hd, rfl⟩
  | cons op ops ih =>
    obtain ⟨e, he, hheading, _⟩ := perform_keeps hd op
    obtain ⟨f, hf, hheading'⟩ := ih he
    exact ⟨f, hf, hheading'.trans hheading⟩

/-- What is declared has from then on the name, kind and owner with which it was declared. -/
theorem run_declares {e : Decl} (he : op.declares? = some e) (s : Store)
    (pre post : List Operation) :
    ∃ d, (s.run (pre ++ op :: post)).1.decl? ((s.run pre).1.size + 1) = some d ∧
      d.heading = e.heading := by
  have hnew : ((s.run pre).1.perform op).1.decl? ((s.run pre).1.size + 1) = some e := by
    rw [decl?_perform, if_pos rfl, he]
  rw [run_append]
  exact run_keeps hnew post

/-! ### Owners -/

theorem ownerOf?_perform (s : Store) (op : Operation) (p : ParamId) :
    (s.perform op).1.ownerOf? p =
      if p = s.size + 1 then op.declares?.bind Decl.owner? else s.ownerOf? p := by
  unfold ownerOf?
  rw [decl?_perform]
  split
  · rfl
  · cases s.decl? p with
    | none => rfl
    | some e =>
      have hkept : (op.completed (s.size + 1) e).owner? = e.owner? := by
        rw [← Decl.owner?_heading, op.heading_completed, Decl.owner?_heading]
      rw [Option.map_some, Option.bind_some, Option.bind_some]
      split
      · exact hkept
      · rfl

theorem owner?_declares_iff {o : ParamOwner} :
    op.declares?.bind Decl.owner? = some o ↔ ∃ name, op = .declareParam name o := by
  cases op <;> simp [Operation.declares?, Decl.owner?]

theorem ownerOf?_run (s : Store) (ops : List Operation) (o : ParamOwner) (p : ParamId) :
    (s.run ops).1.ownerOf? p = some o ↔ s.ownerOf? p = some o ∨
      ∃ pre name post, ops = pre ++ .declareParam name o :: post ∧ p = (s.run pre).1.size + 1 := by
  induction ops generalizing s with
  | nil => simp [run]
  | cons op ops ih =>
    refine (ih (s.perform op).1).trans ?_
    rw [ownerOf?_perform]
    constructor
    · rintro (hp | ⟨pre, name, post, rfl, hp⟩)
      · split at hp
        · rename_i hnew
          obtain ⟨name, rfl⟩ := owner?_declares_iff.1 hp
          exact .inr ⟨[], name, ops, rfl, hnew⟩
        · exact .inl hp
      · exact .inr ⟨op :: pre, name, post, rfl, hp⟩
    · rintro (hp | ⟨pre, name, post, heq, hp⟩)
      · left
        rwa [if_neg]
        rintro rfl
        rw [ownerOf?_eq_none (Nat.lt_succ_self _)] at hp
        cases hp
      · cases pre with
        | nil =>
          obtain ⟨rfl, rfl⟩ := List.cons.inj heq
          have hnew : p = s.size + 1 := hp
          left
          rw [if_pos hnew]
          exact owner?_declares_iff.2 ⟨name, rfl⟩
        | cons first pre =>
          obtain ⟨rfl, rfl⟩ := List.cons.inj heq
          exact .inr ⟨pre, name, post, rfl, hp⟩

def declaresOwner (s : Store) : ParamOwner → Bool
  | .cls c => (s.class? c).isSome
  | .method m => (s.method? m).isSome

theorem declaresOwner_iff {o : ParamOwner} :
    s.declaresOwner o = true ↔ ∃ i d, s.decl? i = some d ∧ d.asOwner? i = some o := by
  cases o with
  | cls c =>
    refine class?_isSome_iff.trans ⟨fun ⟨d, h⟩ => ⟨c, d, h⟩, fun ⟨i, d, hd, ho⟩ => ?_⟩
    cases d with
    | cls d =>
      cases ho
      exact ⟨_, hd, rfl⟩
    | _ => cases ho
  | method m =>
    refine method?_isSome_iff.trans ⟨fun ⟨d, h⟩ => ⟨m, d, h⟩, fun ⟨i, d, hd, ho⟩ => ?_⟩
    cases d with
    | method d =>
      cases ho
      exact ⟨_, hd, rfl⟩
    | _ => cases ho

/-! ### Names of classes -/

theorem any_class? (s : Store) (name : String) (i : Nat) :
    (s.class? i).any (fun d => d.name == name) = (s.decl? i).any (Decl.isClassNamed name) := by
  unfold class?
  cases s.decl? i with
  | none => rfl
  | some e => cases e <;> rfl

theorem classNamedWithin_congr {name : String} {n : Nat}
    (h : ∀ i ≤ n, (s.decl? i).any (Decl.isClassNamed name) =
      (s'.decl? i).any (Decl.isClassNamed name)) :
    s.classNamedWithin name n = s'.classNamedWithin name n := by
  induction n with
  | zero => rfl
  | succ n ih =>
    rw [classNamedWithin, classNamedWithin, any_class?, any_class?, h (n + 1) (Nat.le_refl _),
      ih fun i hi => h i (Nat.le_succ_of_le hi)]

/-- A name means the class that is declared under it now, else the class that it meant before. -/
theorem classNamed?_perform (s : Store) (op : Operation) (name : String) :
    (s.perform op).1.classNamed? name =
      if op.declares?.any (Decl.isClassNamed name) then some (s.size + 1)
      else s.classNamed? name := by
  have hbelow : (s.perform op).1.classNamedWithin name s.size = s.classNamedWithin name s.size := by
    refine classNamedWithin_congr fun i hi => ?_
    rw [decl?_perform, if_neg (by omega)]
    cases s.decl? i with
    | none => rfl
    | some e =>
      rw [Option.map_some, Option.any_some, Option.any_some]
      split
      · rw [← Decl.isClassNamed_heading, op.heading_completed, Decl.isClassNamed_heading]
      · rfl
  have hsize := size_perform s op
  rw [number_perform] at hsize
  unfold classNamed?
  rw [hsize, ← hbelow]
  cases hop : op.declares? with
  | none => rfl
  | some e =>
    show (s.perform op).1.classNamedWithin name (s.size + 1) = _
    rw [classNamedWithin, any_class?, decl?_perform, if_pos rfl, hop]

theorem any_declares_iff {name : String} :
    op.declares?.any (Decl.isClassNamed name) = true ↔ ∃ kind, op = .declareClass name kind := by
  cases op <;> simp [Operation.declares?, Decl.isClassNamed]

theorem classNamed?_run_of_not_mem {name : String}
    (h : ∀ kind, Operation.declareClass name kind ∉ ops) :
    (s.run ops).1.classNamed? name = s.classNamed? name := by
  induction ops generalizing s with
  | nil => rfl
  | cons op ops ih =>
    have hop : ¬op.declares?.any (Decl.isClassNamed name) = true := fun hop => by
      obtain ⟨kind, rfl⟩ := any_declares_iff.1 hop
      exact h kind List.mem_cons_self
    refine (ih fun kind hmem => h kind (List.mem_cons_of_mem _ hmem)).trans ?_
    rw [classNamed?_perform, if_neg hop]

theorem classNamed?_run_last {name : String} {kind : ClassKind} {pre post : List Operation}
    (h : ∀ kind, Operation.declareClass name kind ∉ post) :
    (s.run (pre ++ .declareClass name kind :: post)).1.classNamed? name =
      some ((s.run pre).1.size + 1) := by
  have hop : (Operation.declareClass name kind).declares?.any (Decl.isClassNamed name) = true :=
    any_declares_iff.2 ⟨kind, rfl⟩
  rw [run_append]
  refine (classNamed?_run_of_not_mem h).trans ?_
  rw [classNamed?_perform, if_pos hop]

/-! ### Lists of type parameters -/

theorem decl?_isSome_iff : (s.decl? i).isSome = true ↔ 0 < i ∧ i ≤ s.size := by
  cases i with
  | zero => simp [decl?]
  | succ i =>
    have hsize : (s.decl? (i + 1)).isSome = true ↔ i < s.size := by simp [decl?, size]
    rw [hsize]
    omega

/-- No declaration is a type parameter or lists one. -/
def NoParams (s : Store) : Prop :=
  ∀ i < s.size + 1, ∀ d ∈ s.decl? i, d.params = [] ∧ d.owner? = none

theorem noParams_bare : bare.NoParams := by
  unfold NoParams
  decide +kernel

theorem noParams_standard : standard.NoParams := by
  unfold NoParams
  decide +kernel

theorem noParams_of_builtIn {start : Store} (h : start = bare ∨ start = standard) :
    start.NoParams := by
  rcases h with rfl | rfl
  · exact noParams_bare
  · exact noParams_standard

theorem NoParams.ownerOf?_eq_none (h : s.NoParams) (p : ParamId) : s.ownerOf? p = none := by
  unfold ownerOf?
  cases hd : s.decl? p with
  | none => rfl
  | some d => exact (h p (Nat.lt_succ_of_le (le_size_of_decl? hd)) d hd).2

theorem index_eq_of_asOwner? {e : Decl} {j : Nat} {o : ParamOwner} (hd : d.asOwner? i = some o)
    (he : e.asOwner? j = some o) : i = j := by
  cases d <;> cases e <;> cases hd <;> cases he <;> rfl

theorem declaresOwner_run_iff {pre post : List Operation} {o : ParamOwner}
    (hd : (s.run (pre ++ post)).1.decl? i = some d) (ho : d.asOwner? i = some o) :
    (s.run pre).1.declaresOwner o = true ↔ i ≤ (s.run pre).1.size := by
  rw [run_append] at hd
  have hbuilt : Built (s.run pre).1 ((s.run pre).1.run post).1 := built_run _ post
  rw [declaresOwner_iff]
  constructor
  · rintro ⟨j, e, he, howner⟩
    rw [index_eq_of_asOwner? ho howner]
    exact le_size_of_decl? he
  · intro hi
    have hpos : 0 < i := (decl?_isSome_iff.1 (Option.isSome_of_eq_some hd)).1
    obtain ⟨e, he⟩ := Option.isSome_iff_exists.1 (decl?_isSome_iff.2 ⟨hpos, hi⟩)
    obtain ⟨d', hd', howner, _⟩ := hbuilt.keeps he
    rw [hd] at hd'
    cases hd'
    exact ⟨i, e, he, howner.symm.trans ho⟩

/-- A declaration lists the type parameters that were declared for it when it was declared. -/
theorem mem_params_run_iff (hs : s.NoParams) {o : ParamOwner}
    (hd : (s.run ops).1.decl? i = some d) (ho : d.asOwner? i = some o) (p : ParamId) :
    p ∈ d.params ↔ ∃ pre name post, ops = pre ++ .declareParam name o :: post ∧
      (s.run pre).1.declaresOwner o = true ∧ p = (s.run pre).1.size + 1 := by
  have howned : (s.run ops).1.Owned := (Owned.of_no_params hs).built (built_run s ops)
  rw [howned.listed i d o hd ho p, ownerOf?_run, hs.ownerOf?_eq_none]
  constructor
  · rintro ⟨hi, hp | ⟨pre, name, post, rfl, rfl⟩⟩
    · cases hp
    · exact ⟨pre, name, post, rfl, (declaresOwner_run_iff hd ho).2 (Nat.le_of_lt_succ hi), rfl⟩
  · rintro ⟨pre, name, post, rfl, hdeclares, rfl⟩
    exact ⟨Nat.lt_succ_of_le ((declaresOwner_run_iff hd ho).1 hdeclares),
      .inr ⟨pre, name, post, rfl, rfl⟩⟩

/-! ### Consistency -/

theorem ofNat_nodup {n : Nat} (h : n < UInt32.size) :
    ((List.range' 1 n).map UInt32.ofNat).Nodup := by
  refine List.Nodup.map_on (fun a ha b hb hab => ?_) List.nodup_range'
  rw [List.mem_range'_1] at ha hb
  have hab : a % UInt32.size = b % UInt32.size := congrArg UInt32.toNat hab
  rwa [Nat.mod_eq_of_lt (by omega), Nat.mod_eq_of_lt (by omega)] at hab

/-- What holds of the store that a history of operations makes of another one. -/
structure Consistent (start : Store) (ops : List Operation) : Prop where
  /-- The numbers of all declarations are distinct, also as numbers of 32 bits. -/
  distinct : ((List.range' 1 start.size ++ (start.run ops).2).map UInt32.ofNat).Nodup
  declared : ∀ i, ((start.run ops).1.decl? i).isSome = true ↔
    i ∈ List.range' 1 start.size ++ (start.run ops).2
  /-- No number stands for declarations of two kinds. -/
  oneKind : ∀ i, (∀ c, (start.run ops).1.class? i = some c →
      (start.run ops).1.param? i = none ∧ (start.run ops).1.method? i = none) ∧
    ∀ p, (start.run ops).1.param? i = some p → (start.run ops).1.method? i = none
  /-- The number given to a declaration stands for one with this name, kind and owner. -/
  asDeclared : ∀ pre op post e, ops = pre ++ op :: post → op.declares? = some e →
    ∃ d, (start.run ops).1.decl? ((start.run pre).1.size + 1) = some d ∧ d.heading = e.heading
  increasing : ∀ i d, (start.run ops).1.decl? i = some d → d.params.Pairwise (· < ·)
  /-- A class or method lists what was declared for it when it was declared. -/
  listed : ∀ i d o, (start.run ops).1.decl? i = some d → d.asOwner? i = some o →
    ∀ p, p ∈ d.params ↔ ∃ pre name post, ops = pre ++ .declareParam name o :: post ∧
      (start.run pre).1.declaresOwner o = true ∧ p = (start.run pre).1.size + 1
  /-- No type parameter is listed by two declarations. -/
  listedOnce : ∀ i j d e, (start.run ops).1.decl? i = some d →
    (start.run ops).1.decl? j = some e → i ≠ j → ∀ p ∈ d.params, p ∉ e.params
  /-- A name stands for the class that was declared last under it. -/
  namedLast : ∀ pre name kind post, ops = pre ++ .declareClass name kind :: post →
    (∀ k, Operation.declareClass name k ∉ post) →
    (start.run ops).1.classNamed? name = some ((start.run pre).1.size + 1)
  namedBefore : ∀ name, (∀ k, Operation.declareClass name k ∉ ops) →
    (start.run ops).1.classNamed? name = start.classNamed? name
  /-- A further operation keeps name, kind and owner of each declaration, and all of those that it
  does not name. -/
  kept : ∀ op i d, (start.run ops).1.decl? i = some d →
    ∃ d', ((start.run ops).1.perform op).1.decl? i = some d' ∧ d'.heading = d.heading ∧
      (op.subject? ≠ some (d.ref i) → d' = d)

theorem params_disjoint (h : s.Owned) {j : Nat} {e : Decl} (hd : s.decl? i = some d)
    (he : s.decl? j = some e) (hij : i ≠ j) : ∀ p ∈ d.params, p ∉ e.params := by
  have howner {i : Nat} {d : Decl} (hd : s.decl? i = some d) {p : ParamId} (hp : p ∈ d.params) :
      ∃ o, d.asOwner? i = some o ∧ s.ownerOf? p = some o := by
    cases d with
    | cls d => exact ⟨.cls i, rfl, ((h.listed i (.cls d) _ hd rfl p).1 hp).2⟩
    | method d => exact ⟨.method i, rfl, ((h.listed i (.method d) _ hd rfl p).1 hp).2⟩
    | param d => cases hp
  intro p hp hp'
  obtain ⟨o, ho, hown⟩ := howner hd hp
  obtain ⟨o', ho', hown'⟩ := howner he hp'
  rw [hown] at hown'
  cases hown'
  exact hij (index_eq_of_asOwner? ho ho')

theorem oneKind (s : Store) (i : Nat) :
    (∀ c, s.class? i = some c → s.param? i = none ∧ s.method? i = none) ∧
      ∀ p, s.param? i = some p → s.method? i = none := by
  refine ⟨fun c hc => ?_, fun p hp => ?_⟩
  · rw [class?_eq_some_iff] at hc
    simp [param?, method?, hc]
  · rw [param?_eq_some_iff] at hp
    simp [method?, hp]

/-- Whatever is declared and completed, in whatever order and whether or not the numbers that are
named stand for declarations of the right kind, the store that a history makes of one without type
parameters stays consistent, as long as the numbers fit 32 bits. -/
theorem run_consistent {start : Store} (hstart : start = bare ∨ start = standard)
    (ops : List Operation) (hsize : (start.run ops).1.size < UInt32.size - 1) :
    Consistent start ops := by
  have hfresh : start.NoParams := noParams_of_builtIn hstart
  have howned : (start.run ops).1.Owned := (Owned.of_no_params hfresh).built (built_run start ops)
  obtain ⟨hids, hgrown⟩ := numbers_run start ops
  have hnumbers : List.range' 1 start.size ++ (start.run ops).2 =
      List.range' 1 (start.run ops).1.size := by
    rw [hids, hgrown, Nat.add_comm start.size 1, List.range'_append_1]
  exact {
    distinct := by
      rw [hnumbers]
      exact ofNat_nodup (by omega)
    declared := fun i => by
      rw [hnumbers, decl?_isSome_iff, List.mem_range'_1]
      omega
    oneKind := oneKind _
    asDeclared := fun pre op post e hops he => by
      subst hops
      exact run_declares he start pre post
    increasing := howned.increasing
    listed := fun i d o hd ho p => mem_params_run_iff hfresh hd ho p
    listedOnce := fun i j d e hd he hij => params_disjoint howned hd he hij
    namedLast := fun pre name kind post hops hlast => by
      subst hops
      exact classNamed?_run_last hlast
    namedBefore := fun name hnone => classNamed?_run_of_not_mem hnone
    kept := fun op i d hd => perform_keeps hd op }

/-- Two classes `Box`, each with a type parameter. Another type parameter is declared for the second
class before this is declared; a supertype is added to a type parameter, and bounds are given to a
class. -/
def twoBoxes : List Operation :=
  [.declareClass "Box" .concrete, .declareParam "T" (.cls 13), .declareParam "U" (.cls 16),
    .declareClass "Box" .interface, .declareParam "V" (.cls 16), .addSupertype 14 (.raw 13),
    .setBounds 13 [.raw 2]]

/-- The name stands for the second class, which lists the type parameter that was declared after
it. -/
theorem run_consistent_twoBoxes :
    (standard.run twoBoxes).1.size < UInt32.size - 1 ∧
      (standard.run twoBoxes).1.classNamed? "Box" = some 16 ∧
      ∃ d, (standard.run twoBoxes).1.decl? 16 = some d ∧ 17 ∈ d.params := by
  have hsize : (standard.run twoBoxes).1.size < UInt32.size - 1 := by decide +kernel
  have h := run_consistent (.inr rfl) twoBoxes hsize
  have hnone : ∀ k, Operation.declareClass "Box" k ∉ twoBoxes.drop 4 := by
    simp [twoBoxes]
  refine ⟨hsize, h.namedLast (twoBoxes.take 3) "Box" .interface (twoBoxes.drop 4) rfl hnone, ?_⟩
  obtain ⟨d, hd, hheading⟩ := h.asDeclared (twoBoxes.take 3) _ (twoBoxes.drop 4) _ rfl rfl
  have ho : d.asOwner? 16 = some (.cls 16) := by
    cases d with
    | cls d => rfl
    | _ => cases hheading
  exact ⟨d, hd, (h.listed 16 d (.cls 16) hd ho 17).2
    ⟨twoBoxes.take 4, "V", twoBoxes.drop 5, rfl, rfl, rfl⟩⟩

end Store

end GenericCalls
