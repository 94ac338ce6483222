import GenericCalls.Proofs.Assignable.Rules
import GenericCalls.Proofs.Store.Coherent

/-! # Subtypes among ground types

A ground type is primitive, a class type without wildcards among its arguments, or an array of such
a type. One class type is a subtype of another when its view at the class of the other has the same
arguments, or when one of the two has none or a wrong number of them. In a coherent store subtyping
is transitive on ground types as long as the class in the middle has one argument for each of its
parameters: were it raw, everything would fit below it and above it. The same happens where the two
outer types have one wrong number of arguments, which do not fit each other but fit any type in
between. -/

namespace GenericCalls

/-- Primitive types, class types without wildcards as arguments, and arrays of such types. -/
inductive Ty.Ground : Ty → Prop where
  | prim (p : Primitive) : Ground (.prim p)
  | cls {c : ClassId} {args : List Ty} (hargs : ∀ t ∈ args, t.isWild = false) : Ground (.cls c args)
  | array {t : Ty} (h : Ground t) : Ground (.array t)

theorem Ty.Ground.known {t : Ty} (h : t.Ground) : t.isUnknown = false := by
  cases h <;> rfl

theorem Ty.Ground.of_array {t : Ty} (h : (Ty.array t).Ground) : t.Ground := by
  cases h with
  | array h => exact h

/-- The class type of which a type is, or is an array, however deep. -/
def Ty.innerClass? (t : Ty) : Option ClassTy := t.deepComponent.asClass?

namespace Store

open Ty

variable {s : Store} {R : Ty → Ty → Prop} {t u a b c : Ty} {d e : ClassTy}

/-! ### Class types -/

/-- Type arguments fit others that are the same, and where there are none or the numbers differ
everything fits. -/
def Fits (wants args : List Ty) : Prop :=
  wants = [] ∨ args = [] ∨ wants.length ≠ args.length ∨ sameAll wants args = true

/-- A class type is the root class, or its arguments fit the view of the other at its class. -/
def Sees (s : Store) (target source : ClassTy) : Prop :=
  target.id = s.root ∨
    ∃ lifted, s.ancestorArgs source target.id = some lifted ∧ Fits target.args lifted

theorem Fits.trans_same {xs ys zs : List Ty} (h : Fits xs ys) (hsame : sameAll ys zs = true) :
    Fits xs zs := by
  have hlength := length_eq_of_sameAll hsame
  rcases h with hxs | hys | hne | hxy
  · exact .inl hxs
  · refine .inr (.inl (List.length_eq_zero_iff.1 ?_))
    rw [← hlength, hys]
    rfl
  · exact .inr (.inr (.inl (hlength ▸ hne)))
  · exact .inr (.inr (.inr (sameAll_trans hxy hsame)))

theorem Fits.same_or_bare {y : ClassTy} {xs : List Ty} (hy : s.Full y) (h : Fits y.args xs) :
    sameAll y.args xs = true ∨ xs = [] ∨ ¬s.Full ⟨y.id, xs⟩ := by
  have hlength (hfull : s.Full ⟨y.id, xs⟩) : xs.length = y.args.length := hfull.trans hy.symm
  rcases h with hnil | hnil | hne | hyes
  · refine .inr (or_iff_not_imp_right.2 fun hfull => ?_)
    rw [← List.length_eq_zero_iff, hlength (Classical.not_not.1 hfull), hnil]
    rfl
  · exact .inr (.inl hnil)
  · exact .inr (.inr fun hfull => hne (hlength hfull).symm)
  · exact .inl hyes

theorem forall_zip_same {xs ys : List Ty} (h : sameAll xs ys = true) :
    ∀ p ∈ xs.zip ys, (p.1 == p.2) = true := by
  have hsame := List.forall₂_iff_zip.1 (sameAll_iff_forall₂.1 h)
  exact fun p hp => hsame.2 hp

theorem sameAll_of_forall_zip {xs ys : List Ty} (hlength : xs.length = ys.length)
    (h : ∀ p ∈ xs.zip ys, (p.1 == p.2) = true) : sameAll xs ys = true :=
  sameAll_iff_forall₂.2 (List.forall₂_iff_zip.2 ⟨hlength, fun {x y} hp => h (x, y) hp⟩)

theorem sees_of_rule (hd : ∀ t ∈ d.args, t.isWild = false)
    (h : Rule s false R d.toTy e.toTy) : Sees s d e := by
  obtain ⟨c, args⟩ := d
  obtain ⟨c', brgs⟩ := e
  cases h with
  | same _ hsame =>
    obtain ⟨hid, hsame⟩ := Bool.and_eq_true_iff.1 hsame
    obtain rfl := eq_of_beq hid
    exact .inr ⟨brgs, s.ancestorArgs_self _, .inr (.inr (.inr hsame))⟩
  | object => exact .inl rfl
  | @raw _ _ _ _ lifted hview hraw =>
    refine .inr ⟨lifted, hview, ?_⟩
    rcases hraw with hargs | hlifted | hne
    · exact .inl hargs
    · exact .inr (.inl hlifted)
    · exact .inr (.inr (.inl hne))
  | @args _ _ _ _ lifted hview hmet _ =>
    refine .inr ⟨lifted, hview, ?_⟩
    by_cases hlength : args.length = lifted.length
    · refine .inr (.inr (.inr (sameAll_of_forall_zip hlength fun p hp => ?_)))
      have hnever := hmet p hp
      rw [demand_of_not_wild (hd p.1 (List.of_mem_zip hp).1)] at hnever
      by_contra hne
      rw [if_neg hne] at hnever
      exact hnever rfl
    · exact .inr (.inr (.inl hlength))
  | upper _ hv _ => cases hv

theorem rule_of_sees (hd : ∀ t ∈ d.args, t.isWild = false) (h : Sees s d e) :
    Rule s false R d.toTy e.toTy := by
  obtain ⟨c, args⟩ := d
  obtain ⟨c', brgs⟩ := e
  rcases h with hroot | ⟨lifted, hview, hargs | hlifted | hne | hsame⟩
  · obtain rfl : c = s.root := hroot
    exact .object
  · exact .raw hview (.inl hargs)
  · exact .raw hview (.inr (.inl hlifted))
  · exact .raw hview (.inr (.inr hne))
  · have halways : ∀ p ∈ args.zip lifted, s.demand p.1 p.2 = .always := fun p hp => by
      rw [demand_of_not_wild (hd p.1 (List.of_mem_zip hp).1),
        if_pos (forall_zip_same hsame p hp)]
    refine .args hview (fun p hp => ?_) fun p hp t u htu => ?_
    · rw [halways p hp]
      nofun
    · rw [halways p hp] at htu
      cases htu

/-- When two class types are of one class and have equally many arguments, these are none or one for
each parameter of the class. -/
def Measured (s : Store) (d e : ClassTy) : Prop :=
  d.id = e.id → d.args.length = e.args.length → d.args = [] ∨ s.Full d

/-- Where one sees another with one argument for each parameter of its class, and the other sees a
third, the one sees the third. -/
theorem Coherent.sees_trans (hs : s.Coherent) {x y z : ClassTy} (hy : s.Full y)
    (hxz : Measured s x z) (hyx : Sees s y x) (hzy : Sees s z y) : Sees s z x := by
  by_cases hz : z.id = s.root
  · exact .inl hz
  obtain ⟨ys, hys, hzfits⟩ := hzy.resolve_left hz
  by_cases hyroot : y.id = s.root
  · obtain ⟨i, args⟩ := y
    obtain rfl : i = s.root := hyroot
    exact absurd (eq_root_of_ancestorArgs hs.rootBare hys) hz
  obtain ⟨xs, hxs, hyfits⟩ := hyx.resolve_left hyroot
  refine .inr ?_
  by_cases hsame : sameAll y.args xs = true
  · -- What `y` is seen as is seen further on as `y` is.
    obtain ⟨zs, hzs, hyz⟩ := exists_view_of_same hys ⟨y.id, xs⟩ rfl hsame
    obtain ⟨ws, hws, hzw⟩ := hs.exists_view hyroot hz hxs hzs
    exact ⟨ws, hws, hzfits.trans_same (sameAll_trans hyz hzw)⟩
  -- Otherwise `x` is seen at the class of `y` as raw, or with a wrong number of arguments.
  have hbare := (hyfits.same_or_bare hy).resolve_left hsame
  by_cases hid : z.id = y.id
  · rw [hid]
    refine ⟨xs, hxs, ?_⟩
    rcases hbare with hnil | hfull
    · exact .inr (.inl hnil)
    rcases hs.sized_reached (reaches_of_ne_root hyroot hxs) with heq | hnil | hsized
    · -- Then `x` is itself of this class.
      by_cases hlength : z.args.length = xs.length
      · subst heq
        rcases hxz hid.symm hlength.symm with hnil | hfull'
        · exact .inr (.inl hnil)
        · exact absurd hfull' hfull
      · exact .inr (.inr (.inl hlength))
    · exact .inr (.inl hnil)
    · exact absurd hsized hfull
  · have hanc : Ancestor s y.id z.id :=
      ((ancestor_of_ancestorArgs hys).resolve_left hid).resolve_left hz
    exact ⟨[], hs.ancestorArgs_of_bare hyroot hz hid hxs hbare hanc, .inr (.inl rfl)⟩

/-! ### Ground types -/

/-- The rules by which a ground type accepts another without boxing, where `R` relates the types
that are known to accept one another. -/
inductive GroundRule (s : Store) (R : Ty → Ty → Prop) : Ty → Ty → Prop where
  | prim {p q : Primitive} (h : q.widensTo p = true) : GroundRule s R (.prim p) (.prim q)
  | cls {c d : ClassId} {args brgs : List Ty} (h : Sees s ⟨c, args⟩ ⟨d, brgs⟩) :
      GroundRule s R (.cls c args) (.cls d brgs)
  | arrayObject {args : List Ty} {u : Ty} : GroundRule s R (.cls s.root args) (.array u)
  | sameArray {t u : Ty} (h : (t == u) = true) : GroundRule s R (.array t) (.array u)
  | array {t u : Ty} (href : (t.isPrim || u.isPrim) = false) (h : R t u) :
      GroundRule s R (.array t) (.array u)

theorem groundRule_of_rule (ht : t.Ground) (hu : u.Ground) (h : Rule s false R t u) :
    GroundRule s R t u := by
  cases ht with
  | prim p =>
    cases hu with
    | prim q =>
      cases h with
      | same _ hsame =>
        have heq : p = q := eq_of_beq hsame
        subst heq
        exact .prim p.widensTo_refl
      | widen h => exact .prim h
      | unbox hboxing _ _ => cases hboxing
      | box href _ _ _ _ => cases href
      | upper hplain _ _ => cases hplain
    | _ =>
      cases h with
      | same _ hsame => cases hsame
      | unbox hboxing _ _ => cases hboxing
      | upper hplain _ _ => cases hplain
  | cls hargs =>
    cases hu with
    | prim q =>
      cases h with
      | same _ hsame => cases hsame
      | box _ _ hboxing _ _ => cases hboxing
      | upper _ hv _ => cases hv
    | cls _ => exact .cls (sees_of_rule hargs h)
    | array _ =>
      cases h with
      | same _ hsame => cases hsame
      | upper _ hv _ => cases hv
      | arrayObject => exact .arrayObject
  | array _ =>
    cases hu with
    | prim q =>
      cases h with
      | same _ hsame => cases hsame
      | box _ _ hboxing _ _ => cases hboxing
      | upper _ hv _ => cases hv
    | cls _ =>
      cases h with
      | same _ hsame => cases hsame
      | upper _ hv _ => cases hv
    | array _ =>
      cases h with
      | same _ hsame => exact .sameArray hsame
      | upper _ hv _ => cases hv
      | array href h => exact .array href h

theorem rule_of_groundRule (ht : t.Ground) (h : GroundRule s R t u) : Rule s false R t u := by
  cases h with
  | prim h => exact .widen h
  | cls h =>
    cases ht with
    | cls hargs => exact rule_of_sees hargs h
  | arrayObject => exact .arrayObject
  | sameArray h => exact .same rfl h
  | array href h => exact .array href h

/-! ### Transitivity -/

theorem eq_root_of_sees_root (hroot : s.RootBare) {args brgs : List Ty} {c : ClassId}
    (h : Sees s ⟨c, args⟩ ⟨s.root, brgs⟩) : c = s.root := by
  rcases h with hc | ⟨lifted, hview, _⟩
  · exact hc
  · exact eq_root_of_ancestorArgs hroot hview

theorem within_of_same {n : Nat} (ht : t.Ground) (hsame : (t == u) = true)
    (hn : s.assignableWithin false n b a = true) : s.assignableWithin false n t u = true := by
  cases n with
  | zero => cases hn
  | succ n => exact assignableStep_of_rule (.same ht.known hsame)

/-- Transitivity at one limit on nested checks, by induction on the limit: on all three sides a
check of arrays goes on to the components. -/
theorem Coherent.within_trans (hs : s.Coherent) {n : Nat} (ha : a.Ground) (hb : b.Ground)
    (hc : c.Ground) (hfull : ∀ d, b.innerClass? = some d → s.Full d)
    (hac : ∀ d e, a.innerClass? = some d → c.innerClass? = some e → s.Measured d e)
    (hba : s.assignableWithin false n b a = true) (hcb : s.assignableWithin false n c b = true) :
    s.assignableWithin false n c a = true := by
  induction n generalizing a b c with
  | zero => cases hba
  | succ n ih =>
    have hlower := groundRule_of_rule hb ha (rule_of_assignableStep hba)
    have hupper := groundRule_of_rule hc hb (rule_of_assignableStep hcb)
    refine assignableStep_of_rule (rule_of_groundRule hc ?_)
    cases hupper with
    | prim hpr =>
      cases hlower with
      | prim hqp => exact .prim (Primitive.widensTo_trans hqp hpr)
    | cls hzy =>
      cases hlower with
      | cls hyx => exact .cls (hs.sees_trans (hfull _ rfl) (hac _ _ rfl rfl) hyx hzy)
      | arrayObject =>
        obtain rfl := eq_root_of_sees_root hs.rootBare hzy
        exact .arrayObject
    | arrayObject => cases hlower <;> exact .arrayObject
    | sameArray hvt =>
      cases hlower with
      | sameArray htu => exact .sameArray (same_trans hvt htu)
      | array href htu =>
        rw [← isPrim_eq_of_same hvt] at href
        exact .array href (ih ha.of_array hb.of_array hc.of_array hfull hac htu
          (within_of_same hc.of_array hvt htu))
    | array href hvt =>
      cases hlower with
      | sameArray htu =>
        rw [isPrim_eq_of_same htu] at href
        exact .array href (ih ha.of_array hb.of_array hc.of_array hfull hac
          (within_of_same hb.of_array htu hvt) hvt)
      | array href' htu =>
        rw [Bool.or_eq_false_iff] at href href'
        exact .array (Bool.or_eq_false_iff.2 ⟨href.1, href'.2⟩)
          (ih ha.of_array hb.of_array hc.of_array hfull hac htu hvt)

/-- Subtyping is transitive on ground types where the class in the middle has one argument for each
of its parameters, and the outer two are not of one class with one wrong number of arguments. -/
theorem Coherent.subtype_trans (hs : s.Coherent) (ha : a.Ground) (hb : b.Ground) (hc : c.Ground)
    (hfull : ∀ d, b.innerClass? = some d → s.Full d)
    (hac : ∀ d e, a.innerClass? = some d → c.innerClass? = some e → s.Measured d e)
    (hba : s.subtype b a = true) (hcb : s.subtype c b = true) : s.subtype c a = true :=
  hs.within_trans ha hb hc hfull hac hba hcb

/-- The built-in classes with an interface `List<E>`, a class `ArrayList<T>` that implements
`List<T>`, and a class `Grid<G>` that inherits from `ArrayList<List<G>>`. -/
def grids : Store :=
  let (s, list) := standard.declareClass "List" .interface
  let (s, _) := s.declareParam "E" (.cls list)
  let (s, arrays) := s.declareClass "ArrayList" .concrete
  let (s, t) := s.declareParam "T" (.cls arrays)
  let s := s.addSupertype arrays ⟨list, [.param t]⟩
  let (s, grid) := s.declareClass "Grid" .concrete
  let (s, g) := s.declareParam "G" (.cls grid)
  s.addSupertype grid ⟨arrays, [.cls list [.param g]]⟩

theorem grids_coherent : grids.Coherent :=
  coherent_of_single (forall_classes (by decide +kernel)) (forall_classes (by decide +kernel)) rfl
    (fewAncestors_of_length (by decide +kernel))

/-- An array of `Grid<String>` is a subtype of an array of `List<List<String>>`, by way of an array
of `ArrayList<List<String>>`. -/
theorem subtype_trans_grids :
    let rows : Ty := .cls 13 [.raw 4]
    let a : Ty := .array (.cls 17 [.raw 4])
    let b : Ty := .array (.cls 15 [rows])
    let c : Ty := .array (.cls 13 [rows])
    grids.Coherent ∧ a.Ground ∧ b.Ground ∧ c.Ground ∧
      (∀ d, b.innerClass? = some d → grids.Full d) ∧
      (∀ d e, a.innerClass? = some d → c.innerClass? = some e → grids.Measured d e) ∧
      grids.subtype b a = true ∧ grids.subtype c b = true ∧ grids.subtype c a = true := by
  intro rows a b c
  have ha : a.Ground := .array (.cls (by decide))
  have hb : b.Ground := .array (.cls (by decide))
  have hc : c.Ground := .array (.cls (by decide))
  have hfull : ∀ d, b.innerClass? = some d → grids.Full d := by
    rintro d ⟨⟩
    rfl
  have hac : ∀ d e, a.innerClass? = some d → c.innerClass? = some e → grids.Measured d e := by
    rintro d e ⟨⟩ ⟨⟩ hid
    cases hid
  have hba : grids.subtype b a = true := by decide +kernel
  have hcb : grids.subtype c b = true := by decide +kernel
  exact ⟨grids_coherent, ha, hb, hc, hfull, hac, hba, hcb,
    grids_coherent.subtype_trans ha hb hc hfull hac hba hcb⟩

/-- The class `String` has no type parameters: `String<Integer>` is a subtype of `String` and this
one of `String<Number>`, as wrong numbers of arguments are not compared, but the first is no subtype
of the last. -/
theorem not_subtype_trans_overfilled :
    let a : Ty := .cls 4 [.raw 9]
    let b : Ty := .raw 4
    let c : Ty := .cls 4 [.raw 2]
    standard.Coherent ∧ a.Ground ∧ b.Ground ∧ c.Ground ∧
      (∀ d, b.innerClass? = some d → standard.Full d) ∧
      standard.subtype b a = true ∧ standard.subtype c b = true ∧ standard.subtype c a = false := by
  have hcoherent : standard.Coherent :=
    coherent_of_single (forall_classes (by decide +kernel)) (forall_classes (by decide +kernel)) rfl
      (fewAncestors_of_length (by decide +kernel))
  have hfull : ∀ d, (Ty.raw 4).innerClass? = some d → standard.Full d := by
    rintro d ⟨⟩
    rfl
  exact ⟨hcoherent, .cls (by decide), .cls (by decide), .cls (by decide), hfull,
    by decide +kernel, by decide +kernel, by decide +kernel⟩

end Store

end GenericCalls
