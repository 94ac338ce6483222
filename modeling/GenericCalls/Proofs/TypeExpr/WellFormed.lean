import GenericCalls.Proofs.Store.Enriching
import GenericCalls.Proofs.Ty.Avoiding
import GenericCalls.Proofs.TypeExpr.RoundTrip

/-! # What types that are read are made of

A name means a type parameter in scope or a declared class, and a class is read with as many type
arguments as it has type parameters, or with none. So what is read is well formed, as long as all
type parameters in scope are declared, and mentions no others. -/

namespace GenericCalls.TypeExpr

variable {s s' : Store} {scope : Scope} {input : String} {t : Ty}

/-! ### Names -/

theorem Scope.Declared.grows (hscope : scope.Declared s) (h : Store.Grows s s') :
    scope.Declared s' := by
  intro name p hp
  obtain ⟨d, hd, rfl⟩ := Option.map_eq_some_iff.1 (hscope name p hp)
  obtain ⟨d', hd', hname⟩ := h.param? hd
  rw [hd', Option.map_some, hname]

theorem wellFormed_of_nameMeans (hscope : scope.Declared s) {name : String}
    (h : NameMeans s scope name t) : s.wellFormed t = true := by
  cases h with
  | param h =>
    obtain ⟨d, hd, _⟩ := Option.map_eq_some_iff.1 (hscope name _ h)
    rw [Store.wellFormed, hd]
    rfl
  | null => rw [Store.wellFormed]
  | prim => rw [Store.wellFormed]
  | cls _ _ _ h =>
    obtain ⟨d, hd, _⟩ := exists_of_classNamed? h
    exact Store.wellFormed_raw_iff.2 (Option.isSome_iff_exists.2 ⟨d, hd⟩)

theorem wellFormed_of_genericClass? {name : String} {c : ClassId} {args : List Ty}
    (h : genericClass? s scope name = some c) (hlength : args.length = (s.classParams c).length)
    (hargs : ∀ t ∈ args, s.wellFormed t = true) : s.wellFormed (.cls c args) = true := by
  unfold genericClass? at h
  split at h
  · cases h
  · obtain ⟨d, hd, _⟩ := exists_of_classNamed? h
    rw [Store.classParams, hd] at hlength
    exact Store.wellFormed_cls_iff.2 ⟨⟨d, hd, .inr hlength⟩, hargs⟩

/-! ### Trees -/

/-- The types that names mean in a scope have a hereditary property, and a class has it that is
applied to types with the property. -/
structure NamesWithin (s : Store) (scope : Scope) (P : Ty → Prop) : Prop
    extends Ty.Hereditary P where
  name : ∀ {name t}, NameMeans s scope name t → P t
  applied : ∀ {name c args}, genericClass? s scope name = some c →
    args.length = (s.classParams c).length → (∀ t ∈ args, P t) → P (.cls c args)

namespace NamesWithin

variable {P : Ty → Prop}

theorem of_ofComponents (h : NamesWithin s scope P) {ts : List Ty} (hts : ∀ t ∈ ts, P t) :
    P (ofComponents ts) := by
  unfold TypeExpr.ofComponents
  split
  · exact hts _ List.mem_cons_self
  · exact h.inter.2 hts

mutual
theorem of_components (h : NamesWithin s scope P) : (e : TypeTree) → {us : List Ty} →
    Components (readingVocabulary s scope) e us → ∀ u ∈ us, P u
  | .single c, us, hd => by
    cases hd with | single hd =>
    exact List.forall_mem_singleton.2 (of_component h c hd)
  | .join c e, us, hd => by
    cases hd with | join hd hrest =>
    exact List.forall_mem_cons.2 ⟨of_component h c hd, of_components h e hrest⟩
theorem of_component (h : NamesWithin s scope P) : (e : ComponentTree) → {t : Ty} →
    ComponentDenotes (readingVocabulary s scope) e t → P t
  | .anything, t, hd => by
    cases hd
    exact h.unbounded .upper
  | .bounded kind a, t, hd => by
    cases hd with | bounded hd =>
    exact h.wild.2 (of_array h a hd)
  | .array a, t, hd => by
    cases hd with | array hd =>
    exact of_array h a hd
theorem of_array (h : NamesWithin s scope P) : (e : ArrayTree) → {t : Ty} →
    ArrayDenotes (readingVocabulary s scope) e t → P t
  | .named a, t, hd => by
    cases hd with | named hd =>
    exact of_named h a hd
  | .brackets a, t, hd => by
    cases hd with | brackets hd =>
    exact h.array.2 (of_array h a hd)
theorem of_named (h : NamesWithin s scope P) : (e : NamedTree) → {t : Ty} →
    NamedDenotes (readingVocabulary s scope) e t → P t
  | .bare name, t, hd => by
    cases hd with | bare hd =>
    exact h.name (resolve?_eq_some_iff.1 hd)
  | .applied name as, t, hd => by
    cases hd with | applied hc hargs harity =>
    exact h.applied hc harity (of_args h as hargs)
theorem of_args (h : NamesWithin s scope P) : (e : ArgsTree) → {us : List Ty} →
    ArgsDenote (readingVocabulary s scope) e us → ∀ u ∈ us, P u
  | .single e, us, hd => by
    cases hd with | single hd =>
    exact List.forall_mem_singleton.2 (h.of_ofComponents (of_components h e hd))
  | .more e es, us, hd => by
    cases hd with | more hd hrest =>
    exact List.forall_mem_cons.2 ⟨h.of_ofComponents (of_components h e hd), of_args h es hrest⟩
end

theorem of_read (h : NamesWithin s scope P) (hread : read s scope input = .ok t) : P t := by
  obtain ⟨e, _, us, hus, rfl⟩ := read_eq_ok_iff.1 hread
  exact h.of_ofComponents (h.of_components e hus)

end NamesWithin

/-! ### Types that are read -/

theorem namesWithin_wellFormed (hscope : scope.Declared s) :
    NamesWithin s scope (s.wellFormed ·) where
  toHereditary := Store.hereditary_wellFormed s
  name := wellFormed_of_nameMeans hscope
  applied := wellFormed_of_genericClass?

theorem wellFormed_of_read (hscope : scope.Declared s) (h : read s scope input = .ok t) :
    s.wellFormed t = true :=
  (namesWithin_wellFormed hscope).of_read h

theorem namesWithin_avoids {ps : List ParamId}
    (hscope : ∀ name p, scope.get? name = some p → p ∉ ps) :
    NamesWithin s scope (Ty.Avoids ps) where
  toHereditary := Ty.hereditary_avoids ps
  name := by
    intro name t h
    cases h with
    | param h => exact Ty.avoids_param_iff.2 (hscope name _ h)
    | cls => exact Ty.avoids_raw ps _
    | _ => exact fun _ _ => rfl
  applied _ _ hargs := Ty.avoids_cls_iff.2 hargs

theorem avoids_of_read {ps : List ParamId} (hscope : ∀ name p, scope.get? name = some p → p ∉ ps)
    (h : read s scope input = .ok t) : t.Avoids ps :=
  (namesWithin_avoids hscope).of_read h

end GenericCalls.TypeExpr
