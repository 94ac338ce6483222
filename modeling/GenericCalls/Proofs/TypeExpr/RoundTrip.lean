import GenericCalls.Display
import GenericCalls.Proofs.TypeExpr.Recognition

/-! # Displayed types read back

The text of a type that was read has the tokens that were read, up to blanks. So a type that a type
expression means is read again from its own text. -/

namespace GenericCalls

namespace TypeExpr

/-! ### Names -/

def IsName (name : String) : Prop :=
  ∃ c part, name.toList = c :: part ∧ isNameStart c = true ∧ ∀ d ∈ part, isNamePart d = true

theorem Lexes.isName {cs : List Char} {ls : List Lexeme} (h : Lexes cs ls) {name : String}
    (hname : .name name ∈ ls) : IsName name := by
  induction h with
  | nil => cases hname
  | blank _ _ ih => exact ih hname
  | symbol _ _ ih => exact ih (by simpa using hname)
  | @name c part _ _ hstart hpart _ _ ih =>
    rcases List.mem_cons.1 hname with heq | hname
    · cases heq
      exact ⟨c, part, String.toList_ofList, hstart, hpart⟩
    · exact ih hname

/-- Each name of a scope is the one under which its type parameter is declared. -/
def Scope.Declared (s : Store) (scope : Scope) : Prop :=
  ∀ name p, scope.get? name = some p → (s.param? p).map ParamDecl.name = some name

theorem Scope.declared_empty (s : Store) : Scope.Declared s {} := nofun

theorem Scope.Declared.withParams {s : Store} {scope : Scope} (h : scope.Declared s)
    {params : List (String × ParamId)}
    (hparams : ∀ e ∈ params, (s.param? e.2).map ParamDecl.name = some e.1) :
    (scope.withParams params).Declared s := by
  unfold Scope.withParams KeyedList.putAll
  induction params generalizing scope with
  | nil => exact h
  | cons e es ih =>
    obtain ⟨he, hes⟩ := List.forall_mem_cons.1 hparams
    refine ih (fun name p hget => ?_) hes
    rw [KeyedList.get?_put] at hget
    split at hget
    · rename_i hname
      cases hget
      exact hname ▸ he
    · exact h name p hget

theorem Scope.Declared.withClass {s : Store} {scope : Scope} (h : scope.Declared s) (c : ClassId) :
    (scope.withClass s c).Declared s := by
  refine h.withParams fun e he => ?_
  obtain ⟨p, _, hp⟩ := List.mem_filterMap.1 he
  obtain ⟨d, hd, rfl⟩ := Option.map_eq_some_iff.1 hp
  simp [hd]

/-! ### Written tokens -/

/-- A text is read as some tokens, whatever follows, as long as no name goes on after it. -/
def Writes (text : List Char) (ls : List Lexeme) : Prop :=
  ∀ rest ms, Apart rest → Lexes rest ms → Lexes (text ++ rest) (ls ++ ms)

theorem writes_nil : Writes [] [] := fun _ _ _ h => h

theorem Writes.append {text more : List Char} {ls ms : List Lexeme} (h : Writes text ls)
    (hmore : Writes more ms) (hapart : Apart more) : Writes (text ++ more) (ls ++ ms) := by
  intro rest ns hrest hns
  rw [List.append_assoc, List.append_assoc]
  exact h _ _ (apart_append hapart hrest) (hmore rest ns hrest hns)

theorem Writes.symbol (s : Symbol) {text : List Char} {ls : List Lexeme} (h : Writes text ls) :
    Writes (s.char :: text) (.symbol s :: ls) :=
  fun rest ms hrest hms => .symbol s (h rest ms hrest hms)

theorem Writes.space {text : List Char} {ls : List Lexeme} (h : Writes text ls) :
    Writes (' ' :: text) ls :=
  fun rest ms hrest hms => .blank (by decide) (h rest ms hrest hms)

theorem apart_symbol (s : Symbol) (text : List Char) : Apart (s.char :: text) :=
  apart_cons.2 (isNamePart_symbol s)

theorem apart_space (text : List Char) : Apart (' ' :: text) :=
  apart_cons.2 (isNamePart_of_isBlank (by decide))

theorem IsName.writes {name : String} (h : IsName name) : Writes name.toList [.name name] := by
  obtain ⟨c, part, hname, hstart, hpart⟩ := h
  intro rest ms hrest hms
  have hlexes := Lexes.name hstart hpart hrest hms
  rw [← hname, String.ofList_toList] at hlexes
  exact hlexes

/-! ### Displayed trees -/

variable {s : Store} {scope : Scope}

theorem className_of_classNamed? {name : String} {c : ClassId} (h : s.classNamed? name = some c) :
    s.className c = name := by
  obtain ⟨d, hd, rfl⟩ := exists_of_classNamed? h
  simp [Store.className, hd]

theorem className_of_genericClass? {name : String} {c : ClassId}
    (h : genericClass? s scope name = some c) : s.className c = name := by
  unfold genericClass? at h
  split at h
  · cases h
  · exact className_of_classNamed? h

theorem paramName_of_declared (hscope : scope.Declared s) {name : String} {p : ParamId}
    (h : scope.get? name = some p) : s.paramName p = name := by
  obtain ⟨d, hd, rfl⟩ := Option.map_eq_some_iff.1 (hscope name p h)
  simp [Store.paramName, hd]

theorem showTy_of_nameMeans (hscope : scope.Declared s) {name : String} {t : Ty}
    (h : NameMeans s scope name t) : s.showTy t = name := by
  cases h with
  | param h => simpa [Store.showTy] using paramName_of_declared hscope h
  | null _ h => simp [Store.showTy, h]
  | prim _ h => simp [Store.showTy, h]
  | cls _ _ _ h => simpa [Ty.raw, Store.showTy] using className_of_classNamed? h

theorem showTy_ofComponents (s : Store) (t : Ty) (ts : List Ty) :
    s.showTy (ofComponents (t :: ts)) = s.showTy t ++ s.showMore " & " ts := by
  cases ts with
  | nil => simp [ofComponents, Store.showMore]
  | cons u us => rfl

def NamesIn (ls : List Lexeme) : Prop := ∀ name, .name name ∈ ls → IsName name

theorem namesIn_append {ls ms : List Lexeme} :
    NamesIn (ls ++ ms) ↔ NamesIn ls ∧ NamesIn ms := by
  simp [NamesIn, or_imp, forall_and]

theorem namesIn_symbol {s : Symbol} {ls : List Lexeme} :
    NamesIn (.symbol s :: ls) ↔ NamesIn ls := by
  simp [NamesIn]

theorem namesIn_name {name : String} {ls : List Lexeme} :
    NamesIn (.name name :: ls) ↔ IsName name ∧ NamesIn ls := by
  simp [NamesIn, or_imp, forall_and]

-- By recursion on the tree that was read. A piece of text may follow another when no name goes on
-- into it, which is what the separators and brackets see to.
mutual
theorem writes_components (hscope : scope.Declared s) : (e : TypeTree) → {us : List Ty} →
    Components (readingVocabulary s scope) e us → NamesIn e.lexemes →
    ∃ t ts, us = t :: ts ∧ Writes (s.showTy t ++ s.showMore " & " ts).toList e.lexemes
  | .single c, us, hd, hn => by
    cases hd with | single hd =>
    have hc := writes_component hscope c hd hn
    exact ⟨_, [], rfl, by simpa [Store.showMore, TypeTree.lexemes] using hc⟩
  | .join c e, us, hd, hn => by
    cases hd with | join hd hrest =>
    simp only [TypeTree.lexemes, namesIn_append, namesIn_symbol] at hn
    have hc := writes_component hscope c hd hn.1
    obtain ⟨u, us, rfl, he⟩ := writes_components hscope e hrest hn.2
    refine ⟨_, u :: us, rfl, ?_⟩
    have hmore := (he.space.symbol .ampersand).space
    simpa [Store.showMore, TypeTree.lexemes, Symbol.char] using hc.append hmore (apart_space _)
theorem writes_component (hscope : scope.Declared s) : (e : ComponentTree) → {t : Ty} →
    ComponentDenotes (readingVocabulary s scope) e t → NamesIn e.lexemes →
    Writes (s.showTy t).toList e.lexemes
  | .anything, t, hd, hn => by
    cases hd
    simpa [Ty.anything, Store.showTy, Store.showWildcard, ComponentTree.lexemes, Symbol.char] using
      writes_nil.symbol .question
  | .bounded kind a, t, hd, hn => by
    cases hd with | bounded hd =>
    simp only [ComponentTree.lexemes, namesIn_symbol, namesIn_name] at hn
    have ha := (writes_array hscope a hd hn.2).space
    have hkeyword := (hn.1.writes.append ha (apart_space _)).space.symbol .question
    cases kind <;>
      simpa [Store.showTy, Store.showWildcard, ComponentTree.lexemes, keyword, Symbol.char] using
        hkeyword
  | .array a, t, hd, hn => by
    cases hd with | array hd =>
    exact writes_array hscope a hd hn
theorem writes_array (hscope : scope.Declared s) : (e : ArrayTree) → {t : Ty} →
    ArrayDenotes (readingVocabulary s scope) e t → NamesIn e.lexemes →
    Writes (s.showTy t).toList e.lexemes
  | .named a, t, hd, hn => by
    cases hd with | named hd =>
    exact writes_named hscope a hd hn
  | .brackets a, t, hd, hn => by
    cases hd with | brackets hd =>
    simp only [ArrayTree.lexemes, namesIn_append] at hn
    have hpair := (writes_nil.symbol .closing).symbol .opening
    simpa [Store.showTy, ArrayTree.lexemes, Symbol.char] using
      (writes_array hscope a hd hn.1).append hpair (apart_symbol .opening _)
theorem writes_named (hscope : scope.Declared s) : (e : NamedTree) → {t : Ty} →
    NamedDenotes (readingVocabulary s scope) e t → NamesIn e.lexemes →
    Writes (s.showTy t).toList e.lexemes
  | .bare name, t, hd, hn => by
    cases hd with | bare hd =>
    rw [showTy_of_nameMeans hscope (resolve?_eq_some_iff.1 hd)]
    exact (namesIn_name.1 hn).1.writes
  | .applied name args, t, hd, hn => by
    cases hd with | applied hc hargs harity =>
    simp only [NamedTree.lexemes, namesIn_name, namesIn_symbol, namesIn_append] at hn
    obtain ⟨u, us, rfl, ha⟩ := writes_args hscope args hargs hn.2.1
    have hname := className_of_genericClass? hc
    have hend := ha.append (writes_nil.symbol .greater) (apart_symbol .greater _)
    rw [Store.showTy, hname]
    simpa [NamedTree.lexemes, Symbol.char] using
      hn.1.writes.append (hend.symbol .less) (apart_symbol .less _)
theorem writes_args (hscope : scope.Declared s) : (e : ArgsTree) → {us : List Ty} →
    ArgsDenote (readingVocabulary s scope) e us → NamesIn e.lexemes →
    ∃ t ts, us = t :: ts ∧ Writes (s.showTy t ++ s.showMore ", " ts).toList e.lexemes
  | .single e, us, hd, hn => by
    cases hd with | single hd =>
    obtain ⟨u, us, rfl, he⟩ := writes_components hscope e hd hn
    refine ⟨_, [], rfl, ?_⟩
    rw [showTy_ofComponents]
    simpa [Store.showMore, ArgsTree.lexemes] using he
  | .more e es, us, hd, hn => by
    cases hd with | more hd hrest =>
    simp only [ArgsTree.lexemes, namesIn_append, namesIn_symbol] at hn
    obtain ⟨u, us, rfl, he⟩ := writes_components hscope e hd hn.1
    obtain ⟨v, vs, rfl, hes⟩ := writes_args hscope es hrest hn.2
    refine ⟨_, _, rfl, ?_⟩
    rw [showTy_ofComponents]
    simpa [Store.showMore, ArgsTree.lexemes, Symbol.char] using
      he.append (hes.space.symbol .comma) (apart_symbol .comma _)
end

/-- A type that was read is read again from its text. -/
theorem read_showTy {s : Store} {scope : Scope} (hscope : scope.Declared s) {input : String}
    {t : Ty} (h : read s scope input = .ok t) : read s scope (s.showTy t) = .ok t := by
  obtain ⟨e, hlex, us, hdenotes, rfl⟩ := read_eq_ok_iff.1 h
  obtain ⟨u, us, rfl, hwrites⟩ := writes_components hscope e hdenotes fun _ => hlex.isName
  refine read_eq_ok_iff.2 ⟨e, ?_, _, hdenotes, rfl⟩
  rw [showTy_ofComponents]
  simpa using hwrites [] [] apart_nil .nil

/-- In the scope of `List<E>`, lists of lists are read again from their text. -/
theorem read_showTy_list_of_lists :
    (Scope.withClass {} Store.lists 13).Declared Store.lists ∧
      read Store.lists (Scope.withClass {} Store.lists 13) "List<List<? super E[]> & Object>" =
        .ok (.cls 13 [.inter [.cls 13 [.above (.array (.param 14))], .raw 1]]) ∧
      read Store.lists (Scope.withClass {} Store.lists 13)
          (Store.lists.showTy (.cls 13 [.inter [.cls 13 [.above (.array (.param 14))], .raw 1]])) =
        .ok (.cls 13 [.inter [.cls 13 [.above (.array (.param 14))], .raw 1]]) := by
  have hscope := (Scope.declared_empty Store.lists).withClass 13
  have hsame : (read Store.lists (Scope.withClass {} Store.lists 13)
      "List<List<? super E[]> & Object>").toOption.any
        (Ty.same (.cls 13 [.inter [.cls 13 [.above (.array (.param 14))], .raw 1]])) = true := by
    decide +kernel
  have hread := eq_ok_of_same (by decide) hsame
  exact ⟨hscope, hread, read_showTy hscope hread⟩

end TypeExpr

end GenericCalls
