import GenericCalls.Proofs.Store.Regular
import GenericCalls.Proofs.Store.Views
import GenericCalls.Proofs.Traversal
import GenericCalls.Proofs.Ty.Shift
import GenericCalls.Proofs.TypeExpr.Grammar
import GenericCalls.Proofs.TypeExpr.Lexing
import GenericCalls.TypeExpr.Reader

/-! # Recognition of type expressions

Reading accepts exactly the texts whose maximal tokens are derived by a tree of the grammar in which
all names have a meaning, and it answers the type that the tree denotes. Whatever is read is derived
by a tree, and a tree is read back with the budget that its tokens allow. -/

namespace GenericCalls.TypeExpr

def readingVocabulary (s : Store) (scope : Scope) : Vocabulary where
  type name t := resolve? s scope name = some t
  head name c := genericClass? s scope name = some c
  arity c := (s.classParams c).length

/-! ### Tokens passed over -/

/-- Reading goes on with `rest` after the tokens `ls`. -/
def Passes (ls : List Lexeme) (ts rest : List Token) : Prop :=
  ∃ xs, ts = xs ++ rest ∧ xs.map Token.lexeme = ls

theorem passes_nil (ts : List Token) : Passes [] ts ts := ⟨[], rfl, rfl⟩

theorem passes_cons {l : Lexeme} {p : Nat} {ls : List Lexeme} {ts rest : List Token}
    (h : Passes ls ts rest) : Passes (l :: ls) (⟨l, p⟩ :: ts) rest := by
  obtain ⟨xs, rfl, rfl⟩ := h
  exact ⟨⟨l, p⟩ :: xs, rfl, rfl⟩

theorem Passes.append {ls ms : List Lexeme} {ts us rest : List Token} (h : Passes ls ts us)
    (h' : Passes ms us rest) : Passes (ls ++ ms) ts rest := by
  obtain ⟨xs, rfl, rfl⟩ := h
  obtain ⟨ys, rfl, rfl⟩ := h'
  exact ⟨xs ++ ys, by simp, by simp⟩

theorem exists_of_passes_cons {l : Lexeme} {ls : List Lexeme} {ts rest : List Token}
    (h : Passes (l :: ls) ts rest) : ∃ p us, ts = ⟨l, p⟩ :: us ∧ Passes ls us rest := by
  obtain ⟨xs, rfl, hxs⟩ := h
  obtain ⟨⟨m, p⟩, ys, rfl, rfl, rfl⟩ := List.map_eq_cons_iff.1 hxs
  exact ⟨p, ys ++ rest, rfl, ys, rfl, rfl⟩

theorem exists_of_passes_append {ls ms : List Lexeme} {ts rest : List Token}
    (h : Passes (ls ++ ms) ts rest) : ∃ us, Passes ls ts us ∧ Passes ms us rest := by
  obtain ⟨xs, rfl, hxs⟩ := h
  obtain ⟨ys, zs, rfl, rfl, rfl⟩ := List.map_eq_append_iff.1 hxs
  exact ⟨zs ++ rest, ⟨ys, by simp, rfl⟩, zs, rfl, rfl⟩

theorem eq_of_passes_nil {ts rest : List Token} (h : Passes [] ts rest) : ts = rest := by
  obtain ⟨xs, rfl, hxs⟩ := h
  rw [List.map_eq_nil_iff.1 hxs, List.nil_append]

@[simp] theorem eat?_symbol (s : Symbol) (p : Nat) (ts : List Token) :
    eat? s (⟨.symbol s, p⟩ :: ts) = some ts := by
  simp [eat?]

theorem passes_of_eat? {s : Symbol} {ts rest : List Token} (h : eat? s ts = some rest) :
    Passes [.symbol s] ts rest := by
  unfold eat? at h
  split at h
  · split at h
    · rename_i hs
      cases h
      rw [hs]
      exact passes_cons (passes_nil _)
    · cases h
  · cases h

/-! ### What is read is derived -/

variable {r : Reading} {V : Vocabulary} {n : Nat} {ts rest : List Token}

theorem ne_nil_of_readComponents {us : List Ty} (h : readComponents r n ts = .ok (us, rest)) :
    us ≠ [] := by
  cases n with
  | zero => cases h
  | succ n =>
    unfold readComponents at h
    obtain ⟨⟨first, vs⟩, _, h⟩ := exists_of_bind_ok h
    dsimp only at h
    split at h
    · cases h
      simp
    · obtain ⟨more, _, h⟩ := exists_of_bind_ok h
      cases h
      simp

theorem readType_eq (r : Reading) (n : Nat) (ts : List Token) :
    readType r n ts = (readComponents r n ts).map fun a => (ofComponents a.1, a.2) := by
  cases n with
  | zero => rfl
  | succ n =>
    simp only [readType, readComponents, bind, Except.bind, pure, Except.pure]
    cases readComponent r n ts with
    | error err => rfl
    | ok first =>
      dsimp only
      cases eat? .ampersand first.2 with
      | none => rfl
      | some vs =>
        cases hmore : readComponents r n vs with
        | error err => simp only [hmore, Except.map]
        | ok more =>
          obtain ⟨u, us, hus⟩ := List.exists_cons_of_ne_nil (ne_nil_of_readComponents hmore)
          simp [hmore, Except.map, ofComponents, hus]

theorem readType_eq_ok_iff {t : Ty} :
    readType r n ts = .ok (t, rest) ↔
      ∃ us, readComponents r n ts = .ok (us, rest) ∧ t = ofComponents us := by
  rw [readType_eq]
  cases readComponents r n ts with
  | error err => simp [Except.map]
  | ok a =>
    obtain ⟨us, vs⟩ := a
    simp only [Except.map, Except.ok.injEq, Prod.mk.injEq]
    constructor
    · rintro ⟨rfl, rfl⟩
      exact ⟨us, ⟨rfl, rfl⟩, rfl⟩
    · rintro ⟨_, ⟨rfl, rfl⟩, rfl⟩
      exact ⟨rfl, rfl⟩

/-- Whatever is read with a budget is derived by a tree that denotes the answer. -/
structure Sound (r : Reading) (V : Vocabulary) (n : Nat) : Prop where
  components : ∀ {ts rest us}, readComponents r n ts = .ok (us, rest) →
    ∃ e : TypeTree, Passes e.lexemes ts rest ∧ Components V e us
  component : ∀ {ts rest t}, readComponent r n ts = .ok (t, rest) →
    ∃ e, Passes e.lexemes ts rest ∧ ComponentDenotes V e t
  array : ∀ {ts rest t}, readArray r n ts = .ok (t, rest) →
    ∃ e, Passes e.lexemes ts rest ∧ ArrayDenotes V e t
  named : ∀ {ts rest t}, readNamed r n ts = .ok (t, rest) →
    ∃ e, Passes e.lexemes ts rest ∧ NamedDenotes V e t
  args : ∀ {ts rest us}, readArgs r n ts = .ok (us, rest) →
    ∃ e, Passes e.lexemes ts rest ∧ ArgsDenote V e us

theorem exists_of_readBrackets {t u : Ty} {a : ArrayTree} {us : List Token}
    (ha : Passes a.lexemes us ts) (ht : ArrayDenotes V a t)
    (h : readBrackets r t ts = .ok (u, rest)) :
    ∃ e : ArrayTree, Passes e.lexemes us rest ∧ ArrayDenotes V e u := by
  fun_induction readBrackets r t ts generalizing a with
  | case1 t p q ts ih =>
    have hpair : Passes [.symbol .opening, .symbol .closing]
        (⟨.symbol .opening, p⟩ :: ⟨.symbol .closing, q⟩ :: ts) ts :=
      passes_cons (passes_cons (passes_nil ts))
    exact ih (a := .brackets a) (ha.append hpair) (.brackets ht) h
  | case2 => cases h
  | case3 =>
    cases h
    exact ⟨a, ha, ht⟩

theorem Sound.components_succ (hn : Sound r V n) {us : List Ty}
    (h : readComponents r (n + 1) ts = .ok (us, rest)) :
    ∃ e : TypeTree, Passes e.lexemes ts rest ∧ Components V e us := by
  unfold readComponents at h
  obtain ⟨⟨first, vs⟩, hfirst, h⟩ := exists_of_bind_ok h
  obtain ⟨c, hc, hdenotes⟩ := hn.component hfirst
  dsimp only at h
  split at h
  · cases h
    exact ⟨.single c, hc, .single hdenotes⟩
  · rename_i ws hamp
    obtain ⟨⟨more, xs⟩, hmore, h⟩ := exists_of_bind_ok h
    obtain ⟨e, he, hcomponents⟩ := hn.components hmore
    cases h
    exact ⟨.join c e, hc.append ((passes_of_eat? hamp).append he), .join hdenotes hcomponents⟩

theorem Sound.component_succ (hn : Sound r V n) {t : Ty}
    (h : readComponent r (n + 1) ts = .ok (t, rest)) :
    ∃ e, Passes e.lexemes ts rest ∧ ComponentDenotes V e t := by
  unfold readComponent at h
  split at h
  · cases h
  · rename_i m _ _ us hm
    cases hm
    obtain ⟨⟨b, vs⟩, hb, h⟩ := exists_of_bind_ok h
    obtain ⟨a, ha, hdenotes⟩ := hn.array hb
    cases h
    exact ⟨.bounded .upper a, passes_cons (passes_cons ha), .bounded hdenotes⟩
  · rename_i m _ _ us hm
    cases hm
    obtain ⟨⟨b, vs⟩, hb, h⟩ := exists_of_bind_ok h
    obtain ⟨a, ha, hdenotes⟩ := hn.array hb
    cases h
    exact ⟨.bounded .lower a, passes_cons (passes_cons ha), .bounded hdenotes⟩
  · cases h
    exact ⟨.anything, passes_cons (passes_nil _), .anything⟩
  · rename_i m hm _ _ _
    cases hm
    obtain ⟨a, ha, hdenotes⟩ := hn.array h
    exact ⟨.array a, ha, .array hdenotes⟩

theorem Sound.array_succ (hn : Sound r V n) {t : Ty} (h : readArray r (n + 1) ts = .ok (t, rest)) :
    ∃ e, Passes e.lexemes ts rest ∧ ArrayDenotes V e t := by
  unfold readArray at h
  obtain ⟨⟨u, us⟩, hnamed, h⟩ := exists_of_bind_ok h
  obtain ⟨a, ha, hdenotes⟩ := hn.named hnamed
  exact exists_of_readBrackets (a := .named a) ha (.named hdenotes) h

theorem applyName_eq_ok_iff {s : Store} {scope : Scope} {name : String} {start : Nat}
    {args : List Ty} {t : Ty} :
    applyName s scope name start args = .ok t ↔
      ∃ c, genericClass? s scope name = some c ∧ args.length = (s.classParams c).length ∧
        t = .cls c args := by
  unfold applyName
  cases genericClass? s scope name with
  | none => cases resolve? s scope name <;> simp
  | some c =>
    by_cases harity : (s.classParams c).length = args.length
    · simp [harity, eq_comm]
    · have harity' : ¬args.length = (s.classParams c).length := fun e => harity e.symm
      simp [harity, harity']

theorem Sound.named_succ {V : Vocabulary} (hV : V = readingVocabulary r.store r.scope)
    (hn : Sound r V n) {t : Ty} (h : readNamed r (n + 1) ts = .ok (t, rest)) :
    ∃ e, Passes e.lexemes ts rest ∧ NamedDenotes V e t := by
  unfold readNamed at h
  split at h
  · rename_i m name start us hm
    cases hm
    split at h
    · split at h
      · rename_i u hu
        cases h
        subst hV
        exact ⟨.bare name, passes_cons (passes_nil _), .bare hu⟩
      · cases h
    · rename_i vs hless
      obtain ⟨⟨args, ws⟩, hargs, h⟩ := exists_of_bind_ok h
      obtain ⟨e, he, hdenote⟩ := hn.args hargs
      dsimp only at h
      split at h
      · cases h
      · rename_i xs hgreater
        obtain ⟨u, hu, h⟩ := exists_of_bind_ok h
        obtain ⟨c, hc, harity, rfl⟩ := applyName_eq_ok_iff.1 hu
        cases h
        subst hV
        exact ⟨.applied name e,
          passes_cons ((passes_of_eat? hless).append (he.append (passes_of_eat? hgreater))),
          .applied hc hdenote harity⟩
  · cases h

theorem Sound.args_succ (hn : Sound r V n) {us : List Ty}
    (h : readArgs r (n + 1) ts = .ok (us, rest)) :
    ∃ e, Passes e.lexemes ts rest ∧ ArgsDenote V e us := by
  unfold readArgs at h
  obtain ⟨⟨first, vs⟩, hfirst, h⟩ := exists_of_bind_ok h
  obtain ⟨ws, hws, rfl⟩ := readType_eq_ok_iff.1 hfirst
  obtain ⟨e, he, hcomponents⟩ := hn.components hws
  dsimp only at h
  split at h
  · cases h
    exact ⟨.single e, he, .single hcomponents⟩
  · rename_i xs hcomma
    obtain ⟨⟨more, ys⟩, hmore, h⟩ := exists_of_bind_ok h
    obtain ⟨es, hes, hdenote⟩ := hn.args hmore
    cases h
    exact ⟨.more e es, he.append ((passes_of_eat? hcomma).append hes), .more hcomponents hdenote⟩

theorem sound (r : Reading) (n : Nat) : Sound r (readingVocabulary r.store r.scope) n := by
  induction n with
  | zero => exact ⟨nofun, nofun, nofun, nofun, nofun⟩
  | succ n ih =>
    exact ⟨ih.components_succ, ih.component_succ, ih.array_succ, ih.named_succ rfl,
      ih.args_succ⟩

/-! ### What is derived is read -/

/-- The tokens end, or go on with one of some symbols. -/
def Follows (symbols : List Symbol) (ts : List Token) : Prop :=
  ∀ t ∈ ts.head?, ∃ s ∈ symbols, t.lexeme = .symbol s

theorem follows_nil (symbols : List Symbol) : Follows symbols [] := by simp [Follows]

theorem follows_symbol {s : Symbol} {symbols : List Symbol} (h : s ∈ symbols) (p : Nat)
    (ts : List Token) : Follows symbols (⟨.symbol s, p⟩ :: ts) := by
  simp [Follows, h]

theorem Follows.mono {few many : List Symbol} (h : Follows few ts) (hsub : few ⊆ many) :
    Follows many ts := by
  intro t ht
  obtain ⟨s, hs, hl⟩ := h t ht
  exact ⟨s, hsub hs, hl⟩

theorem Follows.eat? {symbols : List Symbol} (h : Follows symbols ts) {s : Symbol}
    (hs : s ∉ symbols) : eat? s ts = none := by
  unfold TypeExpr.eat?
  split
  · rename_i other p us
    obtain ⟨s', hs', hl⟩ := h _ rfl
    cases hl
    rw [if_neg]
    rintro rfl
    exact hs hs'
  · rfl

/-- What may follow type arguments, a type, a component or array, and a named type. -/
def afterArgs : List Symbol := [.greater]
def afterType : List Symbol := [.comma, .greater]
def afterComponent : List Symbol := [.ampersand, .comma, .greater]
def afterNamed : List Symbol := [.opening, .ampersand, .comma, .greater]

mutual
theorem TypeTree.lexemes_pos : (e : TypeTree) → 0 < e.lexemes.length
  | .single c => c.lexemes_pos
  | .join c rest => by
    rw [TypeTree.lexemes, List.length_append, List.length_cons]
    omega
theorem ComponentTree.lexemes_pos : (e : ComponentTree) → 0 < e.lexemes.length
  | .anything => by simp [ComponentTree.lexemes]
  | .bounded _ _ => by simp [ComponentTree.lexemes]
  | .array t => t.lexemes_pos
theorem ArrayTree.lexemes_pos : (e : ArrayTree) → 0 < e.lexemes.length
  | .named t => t.lexemes_pos
  | .brackets t => by simp [ArrayTree.lexemes]
theorem NamedTree.lexemes_pos : (e : NamedTree) → 0 < e.lexemes.length
  | .bare _ => by simp [NamedTree.lexemes]
  | .applied _ _ => by simp [NamedTree.lexemes]
end

theorem ArrayTree.exists_lexemes : (e : ArrayTree) → ∃ name ls, e.lexemes = .name name :: ls
  | .named (.bare name) => ⟨name, [], rfl⟩
  | .named (.applied name _) => ⟨name, _, rfl⟩
  | .brackets a => by
    obtain ⟨name, ls, h⟩ := a.exists_lexemes
    exact ⟨name, ls ++ [.symbol .opening, .symbol .closing], by simp [ArrayTree.lexemes, h]⟩

theorem readBrackets_of_follows (r : Reading) (t : Ty) (h : Follows afterComponent rest) :
    readBrackets r t rest = .ok (t, rest) := by
  unfold readBrackets
  split
  · exact absurd (h _ rfl) (by simp [afterComponent])
  · exact absurd (h _ rfl) (by simp [afterComponent])
  · rfl

theorem readComponent_name (r : Reading) (n : Nat) (name : String) (p : Nat) (ts : List Token) :
    readComponent r (n + 1) (⟨.name name, p⟩ :: ts) = readArray r n (⟨.name name, p⟩ :: ts) := by
  simp only [readComponent]

theorem readComponent_anything (r : Reading) (n p : Nat) (h : Follows afterComponent rest) :
    readComponent r (n + 1) (⟨.symbol .question, p⟩ :: rest) = .ok (.anything, rest) := by
  unfold readComponent
  split
  · contradiction
  · rename_i hm
    cases hm
    exact absurd (h _ rfl) (by simp)
  · rename_i hm
    cases hm
    exact absurd (h _ rfl) (by simp)
  · rename_i hm
    cases hm
    rfl
  · rename_i hbare
    exact absurd rfl (hbare p rest)

theorem readComponent_bounded (r : Reading) (n p q : Nat) (kind : WildcardKind) {t : Ty}
    (h : readArray r n ts = .ok (t, rest)) :
    readComponent r (n + 1) (⟨.symbol .question, p⟩ :: ⟨.name (keyword kind), q⟩ :: ts) =
      .ok (.wild kind (some t), rest) := by
  cases kind <;> simp only [keyword, readComponent, h] <;> rfl

variable (r : Reading)

-- By recursion on trees. At most five of the functions call each other without taking a token, so
-- six steps for each token are enough; the number added to a budget is the function's place among
-- the five.
mutual
theorem readComponents_of_passes : (e : TypeTree) → {us : List Ty} → {n : Nat} →
    {ts rest : List Token} → Components (readingVocabulary r.store r.scope) e us →
    Passes e.lexemes ts rest → Follows afterType rest → 6 * e.lexemes.length ≤ n + 2 →
    readComponents r n ts = .ok (us, rest)
  | .single c, us, n, ts, rest, hd, hp, hf, hn => by
    have hpos := c.lexemes_pos
    simp only [TypeTree.lexemes] at hp hn
    obtain ⟨n, rfl⟩ : ∃ k, n = k + 1 := ⟨n - 1, by omega⟩
    cases hd with | single hd =>
    have hread := readComponent_of_passes c (n := n) hd hp (hf.mono (by decide)) (by omega)
    simp only [readComponents, hread, bind, Except.bind, hf.eat? (s := .ampersand) (by decide)]
    rfl
  | .join c e, us, n, ts, rest, hd, hp, hf, hn => by
    have hpos := c.lexemes_pos
    simp only [TypeTree.lexemes, List.length_append, List.length_cons] at hp hn
    obtain ⟨n, rfl⟩ : ∃ k, n = k + 1 := ⟨n - 1, by omega⟩
    cases hd with | join hd hrest =>
    obtain ⟨vs, hc, hp⟩ := exists_of_passes_append hp
    obtain ⟨p, vs, rfl, he⟩ := exists_of_passes_cons hp
    have hread := readComponent_of_passes c (n := n) hd hc (follows_symbol (by decide) p vs)
      (by omega)
    have hmore := readComponents_of_passes e (n := n) hrest he hf (by omega)
    simp only [readComponents, hread, bind, Except.bind, eat?_symbol, hmore]
    rfl
theorem readComponent_of_passes : (e : ComponentTree) → {t : Ty} → {n : Nat} →
    {ts rest : List Token} → ComponentDenotes (readingVocabulary r.store r.scope) e t →
    Passes e.lexemes ts rest → Follows afterComponent rest → 6 * e.lexemes.length ≤ n + 3 →
    readComponent r n ts = .ok (t, rest)
  | .anything, t, n, ts, rest, hd, hp, hf, hn => by
    simp only [ComponentTree.lexemes, List.length_singleton] at hp hn
    obtain ⟨n, rfl⟩ : ∃ k, n = k + 1 := ⟨n - 1, by omega⟩
    cases hd
    obtain ⟨p, vs, rfl, hvs⟩ := exists_of_passes_cons hp
    obtain rfl := eq_of_passes_nil hvs
    exact readComponent_anything r n p hf
  | .bounded kind a, t, n, ts, rest, hd, hp, hf, hn => by
    simp only [ComponentTree.lexemes, List.length_cons] at hp hn
    obtain ⟨n, rfl⟩ : ∃ k, n = k + 1 := ⟨n - 1, by omega⟩
    cases hd with | bounded hd =>
    obtain ⟨p, vs, rfl, hvs⟩ := exists_of_passes_cons hp
    obtain ⟨q, ws, rfl, hws⟩ := exists_of_passes_cons hvs
    have hread := readArray_of_passes a (n := n) hd hws (hf.mono (by decide)) (by omega)
    rw [readBrackets_of_follows r _ hf] at hread
    exact readComponent_bounded r n p q kind hread
  | .array a, t, n, ts, rest, hd, hp, hf, hn => by
    have hpos := a.lexemes_pos
    simp only [ComponentTree.lexemes] at hp hn
    obtain ⟨n, rfl⟩ : ∃ k, n = k + 1 := ⟨n - 1, by omega⟩
    cases hd with | array hd =>
    have hread := readArray_of_passes a (n := n) hd hp (hf.mono (by decide)) (by omega)
    obtain ⟨name, ls, hls⟩ := a.exists_lexemes
    rw [hls] at hp
    -- The array starts with a name and not with a question mark, so it is not taken for a wildcard.
    obtain ⟨p, vs, rfl, -⟩ := exists_of_passes_cons hp
    rw [readComponent_name, hread, readBrackets_of_follows r _ hf]
/-- The brackets of an array are read before all that follow. -/
theorem readArray_of_passes : (e : ArrayTree) → {t : Ty} → {n : Nat} → {ts rest : List Token} →
    ArrayDenotes (readingVocabulary r.store r.scope) e t → Passes e.lexemes ts rest →
    Follows afterNamed rest → 6 * e.lexemes.length ≤ n + 4 →
    readArray r n ts = readBrackets r t rest
  | .named a, t, n, ts, rest, hd, hp, hf, hn => by
    have hpos := a.lexemes_pos
    simp only [ArrayTree.lexemes] at hp hn
    obtain ⟨n, rfl⟩ : ∃ k, n = k + 1 := ⟨n - 1, by omega⟩
    cases hd with | named hd =>
    have hread := readNamed_of_passes a (n := n) hd hp hf (by omega)
    simp only [readArray, hread, bind, Except.bind]
  | .brackets a, t, n, ts, rest, hd, hp, hf, hn => by
    simp only [ArrayTree.lexemes, List.length_append] at hp hn
    cases hd with | brackets hd =>
    obtain ⟨us, ha, hus⟩ := exists_of_passes_append hp
    obtain ⟨p, vs, rfl, hvs⟩ := exists_of_passes_cons hus
    obtain ⟨q, ws, rfl, hws⟩ := exists_of_passes_cons hvs
    obtain rfl := eq_of_passes_nil hws
    rw [readArray_of_passes a hd ha (follows_symbol (by decide) p _) (by omega), readBrackets]
theorem readNamed_of_passes : (e : NamedTree) → {t : Ty} → {n : Nat} → {ts rest : List Token} →
    NamedDenotes (readingVocabulary r.store r.scope) e t → Passes e.lexemes ts rest →
    Follows afterNamed rest → 6 * e.lexemes.length ≤ n + 5 → readNamed r n ts = .ok (t, rest)
  | .bare name, t, n, ts, rest, hd, hp, hf, hn => by
    simp only [NamedTree.lexemes, List.length_singleton] at hp hn
    obtain ⟨n, rfl⟩ : ∃ k, n = k + 1 := ⟨n - 1, by omega⟩
    cases hd with | bare hd =>
    have hd : resolve? r.store r.scope name = some t := hd
    obtain ⟨p, vs, rfl, hvs⟩ := exists_of_passes_cons hp
    obtain rfl := eq_of_passes_nil hvs
    simp only [readNamed, hf.eat? (s := .less) (by decide), hd]
  | .applied name args, t, n, ts, rest, hd, hp, hf, hn => by
    simp only [NamedTree.lexemes, List.length_cons, List.length_append] at hp hn
    obtain ⟨n, rfl⟩ : ∃ k, n = k + 1 := ⟨n - 1, by omega⟩
    cases hd with | applied hc hargs harity =>
    obtain ⟨p, us, rfl, hus⟩ := exists_of_passes_cons hp
    obtain ⟨q, vs, rfl, hvs⟩ := exists_of_passes_cons hus
    obtain ⟨ws, has, hws⟩ := exists_of_passes_append hvs
    obtain ⟨q, xs, rfl, hxs⟩ := exists_of_passes_cons hws
    obtain rfl := eq_of_passes_nil hxs
    have hread := readArgs_of_passes args (n := n) hargs has (follows_symbol (by decide) q _)
      (by omega)
    have happly : applyName r.store r.scope name p _ = .ok (.cls _ _) :=
      applyName_eq_ok_iff.2 ⟨_, hc, harity, rfl⟩
    simp only [readNamed, eat?_symbol, hread, bind, Except.bind, happly]
    rfl
theorem readArgs_of_passes : (e : ArgsTree) → {us : List Ty} → {n : Nat} →
    {ts rest : List Token} → ArgsDenote (readingVocabulary r.store r.scope) e us →
    Passes e.lexemes ts rest → Follows afterArgs rest → 6 * e.lexemes.length ≤ n + 1 →
    readArgs r n ts = .ok (us, rest)
  | .single e, us, n, ts, rest, hd, hp, hf, hn => by
    have hpos := e.lexemes_pos
    simp only [ArgsTree.lexemes] at hp hn
    obtain ⟨n, rfl⟩ : ∃ k, n = k + 1 := ⟨n - 1, by omega⟩
    cases hd with | single hd =>
    have hread := readComponents_of_passes e (n := n) hd hp (hf.mono (by decide)) (by omega)
    simp only [readArgs, readType_eq, hread, Except.map, bind, Except.bind,
      hf.eat? (s := .comma) (by decide)]
    rfl
  | .more e es, us, n, ts, rest, hd, hp, hf, hn => by
    have hpos := e.lexemes_pos
    simp only [ArgsTree.lexemes, List.length_append, List.length_cons] at hp hn
    obtain ⟨n, rfl⟩ : ∃ k, n = k + 1 := ⟨n - 1, by omega⟩
    cases hd with | more hd hrest =>
    obtain ⟨vs, he, hp⟩ := exists_of_passes_append hp
    obtain ⟨p, vs, rfl, hes⟩ := exists_of_passes_cons hp
    have hread := readComponents_of_passes e (n := n) hd he (follows_symbol (by decide) p vs)
      (by omega)
    have hmore := readArgs_of_passes es (n := n) hrest hes hf (by omega)
    simp only [readArgs, readType_eq, hread, Except.map, bind, Except.bind, eat?_symbol, hmore]
    rfl
end

/-! ### Reading a text -/

mutual
theorem TypeTree.isProper : (e : TypeTree) → ∀ l ∈ e.lexemes, l.isProper = true
  | .single c => c.isProper
  | .join c rest => by
    simpa [TypeTree.lexemes, Lexeme.isProper, or_imp, forall_and] using
      And.intro c.isProper rest.isProper
theorem ComponentTree.isProper : (e : ComponentTree) → ∀ l ∈ e.lexemes, l.isProper = true
  | .anything => by simp [ComponentTree.lexemes, Lexeme.isProper]
  | .bounded _ a => by simpa [ComponentTree.lexemes, Lexeme.isProper] using a.isProper
  | .array a => a.isProper
theorem ArrayTree.isProper : (e : ArrayTree) → ∀ l ∈ e.lexemes, l.isProper = true
  | .named a => a.isProper
  | .brackets a => by
    simpa [ArrayTree.lexemes, Lexeme.isProper, or_imp, forall_and] using a.isProper
theorem NamedTree.isProper : (e : NamedTree) → ∀ l ∈ e.lexemes, l.isProper = true
  | .bare _ => by simp [NamedTree.lexemes, Lexeme.isProper]
  | .applied _ args => by
    simpa [NamedTree.lexemes, Lexeme.isProper, or_imp, forall_and] using args.isProper
theorem ArgsTree.isProper : (e : ArgsTree) → ∀ l ∈ e.lexemes, l.isProper = true
  | .single e => e.isProper
  | .more e rest => by
    simpa [ArgsTree.lexemes, Lexeme.isProper, or_imp, forall_and] using
      And.intro e.isProper rest.isProper
end

/-- A text is read as a type if a tree that denotes the type derives its tokens. -/
theorem read_eq_ok_iff {s : Store} {scope : Scope} {input : String} {t : Ty} :
    read s scope input = .ok t ↔
      ∃ e : TypeTree, Lexes input.toList e.lexemes ∧
        TypeDenotes (readingVocabulary s scope) e t := by
  constructor
  · intro h
    obtain ⟨⟨u, rest⟩, hread, h⟩ := exists_of_bind_ok h
    obtain ⟨us, hus, rfl⟩ := readType_eq_ok_iff.1 hread
    obtain ⟨e, ⟨xs, hxs, hlexemes⟩, hdenotes⟩ := (sound _ _).components hus
    dsimp only at h
    split at h
    · rename_i hrest
      cases h
      rw [List.isEmpty_iff.1 hrest, List.append_nil] at hxs
      exact ⟨e, lexes_iff.2 ⟨by rw [hxs, hlexemes], e.isProper⟩, us, hdenotes, rfl⟩
    · cases h
  · rintro ⟨e, hlex, us, hdenotes, rfl⟩
    have htokens := (lexes_iff.1 hlex).1
    have hlength : e.lexemes.length = (tokens input).length := by rw [← htokens, List.length_map]
    have hread := readComponents_of_passes ⟨s, scope, input.utf8ByteSize⟩ e
      (n := 6 * (tokens input).length + 6) hdenotes
      ⟨tokens input, (List.append_nil _).symm, htokens⟩ (follows_nil _) (by omega)
    simp only [read, readType_eq, hread, Except.map, bind, Except.bind]
    rfl

/-! ### Reserved names -/

/-- No class is named `null` or like a primitive type. -/
def NoClassReserved (s : Store) : Prop :=
  ∀ c d, s.class? c = some d → d.name ≠ "null" ∧ ∀ p : Primitive, d.name ≠ p.name

theorem exists_of_classNamedWithin {s : Store} {name : String} {n : Nat} {c : ClassId}
    (h : s.classNamedWithin name n = some c) : ∃ d, s.class? c = some d ∧ d.name = name := by
  induction n with
  | zero => cases h
  | succ n ih =>
    unfold Store.classNamedWithin at h
    split at h
    · rename_i hany
      cases h
      simpa using (Option.any_eq_true _ _).1 hany
    · exact ih h

theorem exists_of_classNamed? {s : Store} {name : String} {c : ClassId}
    (h : s.classNamed? name = some c) : ∃ d, s.class? c = some d ∧ d.name = name :=
  exists_of_classNamedWithin h

theorem name_of_ofName? {name : String} {p : Primitive} (h : Primitive.ofName? name = some p) :
    name = p.name := by
  have hname := List.find?_some h
  exact (beq_iff_eq.1 hname).symm

theorem resolve?_eq_some_iff {s : Store} {scope : Scope} {name : String} {t : Ty} :
    resolve? s scope name = some t ↔ NameMeans s scope name t := by
  constructor
  · intro h
    unfold resolve? at h
    split at h
    · cases h
      exact .param ‹_›
    · rename_i hscope
      split at h
      · cases h
        exact .null hscope ‹_›
      · rename_i hnull
        split at h
        · rename_i p hp
          cases h
          exact .prim hscope (name_of_ofName? hp)
        · rename_i hp
          obtain ⟨c, hc, rfl⟩ := Option.map_eq_some_iff.1 h
          refine .cls hscope hnull (fun p hname => ?_) hc
          rw [hname, Primitive.ofName?_name] at hp
          cases hp
  · intro h
    cases h with
    | param h => simp [resolve?, h]
    | null hscope h =>
      subst h
      simp [resolve?, hscope]
    | @prim p hscope h =>
      subst h
      have hnull : p.name ≠ "null" := by cases p <;> decide
      simp [resolve?, hscope, hnull, Primitive.ofName?_name]
    | cls hscope hnull hprim h =>
      have hp : Primitive.ofName? name = none := by
        rw [Option.eq_none_iff_forall_not_mem]
        exact fun p hp => hprim p (name_of_ofName? hp)
      simp [resolve?, hscope, hnull, hp, h]

theorem genericClass?_eq_some_iff {s : Store} (hs : NoClassReserved s) {scope : Scope}
    {name : String} {c : ClassId} :
    genericClass? s scope name = some c ↔ NameMeans s scope name (.raw c) := by
  unfold genericClass? KeyedList.contains
  constructor
  · intro h
    split at h
    · cases h
    · rename_i hscope
      obtain ⟨d, hd, rfl⟩ := exists_of_classNamed? h
      exact .cls (by simpa using hscope) (hs c d hd).1 (hs c d hd).2 h
  · intro h
    cases h with
    | cls hscope _ _ h => simp [hscope, h]

theorem readingVocabulary_eq {s : Store} (hs : NoClassReserved s) (scope : Scope) :
    readingVocabulary s scope = vocabulary s scope := by
  simp only [readingVocabulary, vocabulary, resolve?_eq_some_iff, genericClass?_eq_some_iff hs]

/-- Reading accepts exactly the grammar: a text is read as a type if and only if its maximal tokens
derive from the grammar by a tree that denotes this type. -/
theorem read_eq_ok_iff_denotes {s : Store} (hs : NoClassReserved s) {scope : Scope}
    {input : String} {t : Ty} :
    read s scope input = .ok t ↔
      ∃ e : TypeTree, Lexes input.toList e.lexemes ∧ TypeDenotes (vocabulary s scope) e t := by
  rw [read_eq_ok_iff, readingVocabulary_eq hs]

theorem eq_ok_of_same {x : Except ReadError Ty} {t : Ty} (hfree : t.captureFree = true)
    (h : x.toOption.any (Ty.same t) = true) : x = .ok t := by
  cases x with
  | error err => cases h
  | ok u => rw [Ty.eq_of_same t u hfree h]

/-- A list of arrays is read with blanks between its tokens. -/
theorem read_list_of_arrays :
    NoClassReserved Store.lists ∧
      ∃ e : TypeTree, Lexes "List <? extends String[ ]>".toList e.lexemes ∧
        TypeDenotes (vocabulary Store.lists {}) e (.cls 13 [.extending (.array (.raw 4))]) := by
  have hs : NoClassReserved Store.lists := by
    intro c d hd
    have hnames : ∀ c < Store.lists.size + 1, ∀ d ∈ Store.lists.class? c,
        d.name ≠ "null" ∧ ∀ p ∈ Primitive.all, d.name ≠ p.name := by decide +kernel
    obtain ⟨hnull, hprim⟩ := Store.forall_classes hnames c d hd
    exact ⟨hnull, fun p => hprim p (Primitive.mem_all p)⟩
  have hsame : (read Store.lists {} "List <? extends String[ ]>").toOption.any
      (Ty.same (.cls 13 [.extending (.array (.raw 4))])) = true := by decide +kernel
  exact ⟨hs, (read_eq_ok_iff_denotes hs).1 (eq_ok_of_same (by decide) hsame)⟩

end GenericCalls.TypeExpr
