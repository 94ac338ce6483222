import GenericCalls.Proofs.TypeExpr.Cursor

/-! # Positions in type expressions

The grammar of type expressions read with a cursor. It answers what the reader of tokens answers, so
it always stops and never slices outside the text; its positions are boundaries of the text that
never go back, each turn of its loops reads some of the text, and faults are found on boundaries. -/

namespace GenericCalls.TypeExpr

open Walk

/-! ### The grammar -/

variable (r : Reading) (text : List Char)

def walkBrackets : Nat → Ty → Walk Ty
  | 0, _ => never
  | n + 1, t => do
    let start := (← get).pos
    if ← eat text .opening then
      turn start
      if ← eat text .closing then walkBrackets n (.array t)
      else fail .noClosing
    else return t

mutual
def walkType : Nat → Walk Ty
  | 0 => never
  | n + 1 => do
    let first ← walkComponent n
    if ← eat text .ampersand then
      let second ← walkComponent n
      let components ← walkComponents n [first, second]
      return .inter components
    else return first
def walkComponents : Nat → List Ty → Walk (List Ty)
  | 0, _ => never
  | n + 1, components => do
    let start := (← get).pos
    if ← eat text .ampersand then
      turn start
      let next ← walkComponent n
      walkComponents n (components ++ [next])
    else return components
def walkComponent : Nat → Walk Ty
  | 0 => never
  | n + 1 => do
    if ← eat text .question then
      if ← eatKeyword text "extends" then
        let bound ← walkArray n
        return .extending bound
      else if ← eatKeyword text "super" then
        let bound ← walkArray n
        return .above bound
      else return .anything
    else walkArray n
def walkArray : Nat → Walk Ty
  | 0 => never
  | n + 1 => do
    let t ← walkNamed n
    walkBrackets text n t
def walkNamed : Nat → Walk Ty
  | 0 => never
  | n + 1 => do
    skipBlanks text
    let start := (← get).pos
    let name ← identifier text
    if name = "" then fail .noName
    else if ← eat text .less then
      let first ← walkType n
      let args ← walkArgs n [first]
      if ← eat text .greater then answer (applyName r.store r.scope name start args)
      else fail .noGreater
    else
      match resolve? r.store r.scope name with
      | some t => return t
      | none => throw (.error (.unknownName name))
def walkArgs : Nat → List Ty → Walk (List Ty)
  | 0, _ => never
  | n + 1, args => do
    let start := (← get).pos
    if ← eat text .comma then
      turn start
      let next ← walkType n
      walkArgs n (args ++ [next])
    else return args
end

/-- Reads a type expression from its start to its end, in at most so many nested steps. -/
def walk (s : Store) (scope : Scope) (input : String) (n : Nat) : Walk Ty := do
  let text := input.toList
  let t ← walkType ⟨s, scope, input.utf8ByteSize⟩ text n
  skipBlanks text
  if (← get).pos < byteLength text then fail .trailing else return t

/-! ### Agreement with the reader of tokens -/

def ReadError.OnBoundary (input : String) : ReadError → Prop
  | .form _ offset => Boundary input offset
  | _ => True

/-- A reader that starts from a cursor stops, with the answer of a reader of tokens, and the tokens
that this leaves are ahead. -/
inductive Agrees {α : Type} (input : String) (m : Walk α) (c : Cursor) :
    Except ReadError (α × List Token) → Prop where
  | ok {a : α} {ts : List Token} {c' : Cursor} (h : m.outcome c = some (.ok a, c'))
      (hon : Onward input c c') (hahead : Ahead input c' ts) : Agrees input m c (.ok (a, ts))
  | error {e : ReadError} {c' : Cursor} (h : m.outcome c = some (.error (.error e), c'))
      (hon : Onward input c c') (he : e.OnBoundary input) : Agrees input m c (.error e)

namespace Agrees

variable {α β : Type} {input : String} {c c' : Cursor} {m : Walk α} {f : α → Walk β}
  {x : Except ReadError (α × List Token)} {y : Except ReadError (β × List Token)}
  {rest : List Char} {ts : List Token}

theorem pure (hc : c.Within input) (h : Ahead input c ts) (a : α) :
    Agrees input (pure a) c (.ok (a, ts)) :=
  .ok rfl ⟨hc, Nat.le_refl _⟩ h

theorem fail (hc : c.Within input) (h : Sees input c rest ts) (fault : Fault) :
    Agrees input (fail fault : Walk α) c
      (.error (.form fault (offset input.utf8ByteSize ts))) := by
  rw [h.offset_eq]
  exact .error rfl ⟨hc, Nat.le_refl _⟩ (boundary_of_from? h.ahead)

theorem answer {z : Except ReadError α} (hc : c.Within input) (h : Ahead input c ts)
    (hz : ∀ e, z = .error e → e.OnBoundary input) :
    Agrees input (answer z) c (z.map fun a => (a, ts)) := by
  cases z with
  | ok a => exact pure hc h a
  | error e => exact .error rfl ⟨hc, Nat.le_refl _⟩ (hz e rfl)

theorem step {a : α} (h : m.outcome c = some (.ok a, c')) (hon : Onward input c c')
    (hf : Agrees input (f a) c' y) : Agrees input (m >>= f) c y := by
  cases hf with
  | ok hout hon' hahead => exact .ok ((outcome_bind_ok h).trans hout) (hon.trans hon') hahead
  | error hout hon' he => exact .error ((outcome_bind_ok h).trans hout) (hon.trans hon') he

theorem get {f : Cursor → Walk β} (hf : Agrees input (f c) c y) (hc : c.Within input) :
    Agrees input (get >>= f) c y :=
  step rfl ⟨hc, Nat.le_refl _⟩ hf

theorem turn {start : Nat} {f : Unit → Walk β} (hc : c.Within input) (hstart : start < c.pos)
    (hf : Agrees input (f ()) (c.turn start) y) : Agrees input (turn start >>= f) c y :=
  step rfl ⟨hc.turn hstart, Nat.le_refl _⟩ hf

theorem bind {g : α × List Token → Except ReadError (β × List Token)} (hm : Agrees input m c x)
    (hf : ∀ a us c', x = .ok (a, us) → Onward input c c' → Ahead input c' us →
      Agrees input (f a) c' (g (a, us))) : Agrees input (m >>= f) c (x >>= g) := by
  cases hm with
  | ok h hon hahead => exact step h hon (hf _ _ _ rfl hon hahead)
  | error h hon he => exact .error (outcome_bind_error h) hon he

theorem map (hm : Agrees input m c x) (f : α → β) :
    Agrees input (m >>= fun a => Pure.pure (f a)) c (x.map fun p => (f p.1, p.2)) := by
  cases hm with
  | ok h hon hahead => exact .ok ((outcome_bind_ok h).trans rfl) hon hahead
  | error h hon he => exact .error (outcome_bind_error h) hon he

end Agrees

/-! ### Items with separators -/

section Items

variable {input : String} {c : Cursor} {ts : List Token} {sep : Symbol} {item : Walk Ty}
  {loop : List Ty → Walk (List Ty)} {readItem : List Token → Except ReadError (Ty × List Token)}
  {readItems : List Token → Except ReadError (List Ty × List Token)}

def readMore (sep : Symbol) (readItems : List Token → Except ReadError (List Ty × List Token))
    (ts : List Token) : Except ReadError (List Ty × List Token) :=
  match eat? sep ts with
  | none => .ok ([], ts)
  | some us => readItems us

def readSeparated (sep : Symbol) (readItem : List Token → Except ReadError (Ty × List Token))
    (readItems : List Token → Except ReadError (List Ty × List Token)) (ts : List Token) :
    Except ReadError (List Ty × List Token) :=
  readItem ts >>= fun p => (readMore sep readItems p.2).map fun q => (p.1 :: q.1, q.2)

/-- An answer with more items before its own. -/
def after (done : List Ty) (x : Except ReadError (List Ty × List Token)) :
    Except ReadError (List Ty × List Token) :=
  x.map fun p => (done ++ p.1, p.2)

theorem after_readSeparated (done : List Ty) (ts : List Token) :
    after done (readSeparated sep readItem readItems ts) =
      readItem ts >>= fun p => after (done ++ [p.1]) (readMore sep readItems p.2) := by
  unfold readSeparated after
  cases readItem ts with
  | error e => rfl
  | ok p =>
    simp only [bind, Except.bind]
    cases readMore sep readItems p.2 with
    | error e => rfl
    | ok q => simp [Except.map]

/-- One turn of a loop over items: it goes on after a separator, and it keeps the items else. -/
theorem agrees_more {m : Walk (List Ty)} (done : List Ty)
    (hm : m = do
      let start := (← get).pos
      if ← eat input.toList sep then
        turn start
        let next ← item
        loop (done ++ [next])
      else return done)
    (hc : c.Within input) (h : Ahead input c ts)
    (hitems : ∀ us c', eat? sep ts = some us → c'.Within input → Ahead input c' us →
      Agrees input (item >>= fun next => loop (done ++ [next])) c' (after done (readItems us))) :
    Agrees input m c (after done (readMore sep readItems ts)) := by
  rw [hm]
  refine .get ?_ hc
  unfold readMore
  cases hs : eat? sep ts with
  | none =>
    obtain ⟨c', rest, heat, hon, hsees⟩ := eat_of_none hc h hs
    refine .step heat hon ?_
    simpa [after, Except.map] using Agrees.pure hon.within hsees.ahead_tokens done
  | some us =>
    obtain ⟨c', heat, hon, hlt, hahead⟩ := eat_of_some hc h hs
    exact .step heat hon (.turn hon.within hlt
      (hitems us (c'.turn c.pos) hs (hon.within.turn hlt) hahead))

/-- An item and the loop over those after it. -/
theorem agrees_separated (done : List Ty) (hitem : Agrees input item c (readItem ts))
    (hmore : ∀ t us c', readItem ts = .ok (t, us) → c'.Within input → Ahead input c' us →
      Agrees input (loop (done ++ [t])) c' (after (done ++ [t]) (readMore sep readItems us))) :
    Agrees input (item >>= fun next => loop (done ++ [next])) c
      (after done (readSeparated sep readItem readItems ts)) := by
  rw [after_readSeparated]
  exact hitem.bind fun t us c' hread hon hahead => hmore t us c' hread hon.within hahead

end Items

/-! ### The readers of tokens, step by step -/

variable {r}
variable (n : Nat) (ts : List Token)

theorem readType_succ : readType r (n + 1) ts = readComponent r n ts >>= fun p =>
    match eat? .ampersand p.2 with
    | none => .ok (p.1, p.2)
    | some us => (after [p.1] (readComponents r n us)).map fun q => (.inter q.1, q.2) := by
  rw [readType]
  refine congrArg _ (funext fun p => ?_)
  obtain ⟨t, us⟩ := p
  dsimp only
  cases eat? .ampersand us with
  | none => rfl
  | some vs => cases hvs : readComponents r n vs <;> simp only [hvs] <;> rfl

theorem readComponents_succ : readComponents r (n + 1) ts =
    readSeparated .ampersand (readComponent r n) (readComponents r n) ts := by
  simp only [readComponents, readSeparated, readMore]
  refine congrArg _ (funext fun p => ?_)
  obtain ⟨t, us⟩ := p
  dsimp only
  cases eat? .ampersand us <;> rfl

theorem readArgs_succ : readArgs r (n + 1) ts =
    readSeparated .comma (readType r n) (readArgs r n) ts := by
  simp only [readArgs, readSeparated, readMore]
  refine congrArg _ (funext fun p => ?_)
  obtain ⟨t, us⟩ := p
  dsimp only
  cases eat? .comma us <;> rfl

theorem readComponent_succ : readComponent r (n + 1) ts =
    match eat? .question ts with
    | none => readArray r n ts
    | some us =>
      match eatName? "extends" us with
      | some vs => (readArray r n vs).map fun p => (.extending p.1, p.2)
      | none =>
        match eatName? "super" us with
        | some vs => (readArray r n vs).map fun p => (.above p.1, p.2)
        | none => .ok (.anything, us) := by
  obtain _ | ⟨⟨_ | s | _, p⟩, us⟩ := ts
  case cons.symbol =>
    cases s with
    | question =>
      obtain _ | ⟨⟨name | _ | _, q⟩, vs⟩ := us
      case cons.name =>
        simp only [eat?, if_true]
        by_cases hextends : name = "extends"
        · subst hextends
          rfl
        · by_cases hsuper : name = "super"
          · subst hsuper
            rfl
          · simp only [eatName?, hextends, hsuper, if_false]
            rw [readComponent]
            · rfl
            · intro _ _ hvs
              cases hvs
              exact hextends rfl
            · intro _ _ hvs
              cases hvs
              exact hsuper rfl
      all_goals rfl
    | _ => rfl
  all_goals rfl

theorem readBrackets_eq (t : Ty) : readBrackets r t ts =
    match eat? .opening ts with
    | none => .ok (t, ts)
    | some us =>
      match eat? .closing us with
      | none => .error (.form .noClosing (offset r.stop us))
      | some vs => readBrackets r (.array t) vs := by
  obtain _ | ⟨⟨_ | s | _, p⟩, us⟩ := ts
  case cons.symbol =>
    cases s with
    | opening =>
      obtain _ | ⟨⟨_ | s' | _, q⟩, vs⟩ := us
      case cons.symbol => cases s' <;> rfl
      all_goals rfl
    | _ => rfl
  all_goals rfl

/-! ### Agreement of the grammar -/

variable {n ts} {input : String} {c : Cursor} {us : List Token}

theorem length_of_passes {ls : List Lexeme} (h : Passes ls ts us) : us.length ≤ ts.length := by
  obtain ⟨xs, rfl, -⟩ := h
  simp

theorem length_of_eat? {s : Symbol} (h : eat? s ts = some us) : us.length < ts.length := by
  obtain ⟨p, vs, rfl, hvs⟩ := exists_of_passes_cons (passes_of_eat? h)
  rw [eq_of_passes_nil hvs]
  exact Nat.lt_succ_self _

theorem length_of_eatName? {name : String} (h : eatName? name ts = some us) :
    us.length < ts.length := by
  unfold eatName? at h
  split at h
  · obtain ⟨-, h⟩ := Option.ite_none_right_eq_some.1 h
    cases h
    exact Nat.lt_succ_self _
  · cases h

theorem isName_ofList {d : Char} {part : List Char} (hstart : isNameStart d = true)
    (hpart : part.all isNamePart = true) : IsName (String.ofList (d :: part)) :=
  ⟨d, part, String.toList_ofList, hstart, List.all_eq_true.1 hpart⟩

theorem isName_extends : IsName "extends" :=
  have h : IsName (String.ofList ['e', 'x', 't', 'e', 'n', 'd', 's']) :=
    isName_ofList (by decide) (by decide)
  h

theorem isName_super : IsName "super" :=
  have h : IsName (String.ofList ['s', 'u', 'p', 'e', 'r']) :=
    isName_ofList (by decide) (by decide)
  h

theorem onBoundary_of_applyName {s : Store} {scope : Scope} {name : String} {start : Nat}
    {args : List Ty} {e : ReadError} (hstart : Boundary input start)
    (h : applyName s scope name start args = .error e) : e.OnBoundary input := by
  unfold applyName at h
  split at h
  · dsimp only at h
    split at h
    · cases h
    · cases h
      trivial
  · split at h
    · cases h
      exact hstart
    · cases h
      trivial

/-- Reading with a cursor agrees with the reader of tokens, given the budgets that both need. A list
of items is read as its first item and a loop over the others, whatever items were read before: the
first component, or the first type argument, is read outside of the loop. -/
structure Walks (r : Reading) (input : String) (n : Nat) : Prop where
  type : ∀ {k c ts}, c.Within input → Ahead input c ts →
    6 * ts.length + 4 ≤ n → 6 * ts.length + 4 ≤ k →
    Agrees input (walkType r input.toList k) c (readType r n ts)
  components : ∀ (done : List Ty) {k c ts}, c.Within input → Ahead input c ts →
    6 * ts.length + 4 ≤ n → 6 * ts.length + 4 ≤ k →
    Agrees input (walkComponent r input.toList k >>= fun next =>
      walkComponents r input.toList k (done ++ [next])) c (after done (readComponents r n ts))
  component : ∀ {k c ts}, c.Within input → Ahead input c ts →
    6 * ts.length + 3 ≤ n → 6 * ts.length + 3 ≤ k →
    Agrees input (walkComponent r input.toList k) c (readComponent r n ts)
  array : ∀ {k c ts}, c.Within input → Ahead input c ts →
    6 * ts.length + 2 ≤ n → 6 * ts.length + 2 ≤ k →
    Agrees input (walkArray r input.toList k) c (readArray r n ts)
  named : ∀ {k c ts}, c.Within input → Ahead input c ts →
    6 * ts.length + 1 ≤ n → 6 * ts.length + 1 ≤ k →
    Agrees input (walkNamed r input.toList k) c (readNamed r n ts)
  args : ∀ (done : List Ty) {k c ts}, c.Within input → Ahead input c ts →
    6 * ts.length + 5 ≤ n → 6 * ts.length + 5 ≤ k →
    Agrees input (walkType r input.toList k >>= fun next =>
      walkArgs r input.toList k (done ++ [next])) c (after done (readArgs r n ts))

namespace Walks

variable {k : Nat}

theorem more_components (hn : Walks r input n) (done : List Ty) (hc : c.Within input)
    (h : Ahead input c ts) (hts : 6 * ts.length ≤ n + 2) (hk : 6 * ts.length + 4 ≤ k) :
    Agrees input (walkComponents r input.toList k done) c
      (after done (readMore .ampersand (readComponents r n) ts)) := by
  obtain ⟨k, rfl⟩ := Nat.exists_eq_add_one.2 (by omega : 0 < k)
  refine agrees_more done (by rw [walkComponents]) hc h fun us c' hs hc' h' => ?_
  have hlength := length_of_eat? hs
  exact hn.components done hc' h' (by omega) (by omega)

theorem more_args (hn : Walks r input n) (done : List Ty) (hc : c.Within input)
    (h : Ahead input c ts) (hts : 6 * ts.length ≤ n + 1) (hk : 6 * ts.length + 5 ≤ k) :
    Agrees input (walkArgs r input.toList k done) c
      (after done (readMore .comma (readArgs r n) ts)) := by
  obtain ⟨k, rfl⟩ := Nat.exists_eq_add_one.2 (by omega : 0 < k)
  refine agrees_more done (by rw [walkArgs]) hc h fun us c' hs hc' h' => ?_
  have hlength := length_of_eat? hs
  exact hn.args done hc' h' (by omega) (by omega)

theorem components_succ (hn : Walks r input n) (done : List Ty) (hc : c.Within input)
    (h : Ahead input c ts) (hts : 6 * ts.length + 4 ≤ n + 1) (hk : 6 * ts.length + 4 ≤ k) :
    Agrees input (walkComponent r input.toList k >>= fun next =>
      walkComponents r input.toList k (done ++ [next])) c
      (after done (readComponents r (n + 1) ts)) := by
  rw [readComponents_succ]
  have hfirst := hn.component (k := k) hc h (by omega) (by omega)
  refine agrees_separated done hfirst fun t us c' hread hc' h' => ?_
  obtain ⟨_, hpasses, -⟩ := (sound r n).component hread
  have hlength := length_of_passes hpasses
  exact hn.more_components (done ++ [t]) hc' h' (by omega) (by omega)

theorem args_succ (hn : Walks r input n) (done : List Ty) (hc : c.Within input)
    (h : Ahead input c ts) (hts : 6 * ts.length + 5 ≤ n + 1) (hk : 6 * ts.length + 5 ≤ k) :
    Agrees input (walkType r input.toList k >>= fun next =>
      walkArgs r input.toList k (done ++ [next])) c (after done (readArgs r (n + 1) ts)) := by
  rw [readArgs_succ]
  have hfirst := hn.type (k := k) hc h (by omega) (by omega)
  refine agrees_separated done hfirst fun t us c' hread hc' h' => ?_
  obtain ⟨_, hcomponents, -⟩ := readType_eq_ok_iff.1 hread
  obtain ⟨_, hpasses, -⟩ := (sound r n).components hcomponents
  have hlength := length_of_passes hpasses
  exact hn.more_args (done ++ [t]) hc' h' (by omega) (by omega)

theorem type_succ (hn : Walks r input n) (hc : c.Within input) (h : Ahead input c ts)
    (hts : 6 * ts.length + 4 ≤ n + 1) (hk : 6 * ts.length + 4 ≤ k) :
    Agrees input (walkType r input.toList k) c (readType r (n + 1) ts) := by
  obtain ⟨k, rfl⟩ := Nat.exists_eq_add_one.2 (by omega : 0 < k)
  rw [walkType, readType_succ]
  refine (hn.component hc h (by omega) (by omega)).bind fun first us c₁ hread hon h₁ => ?_
  obtain ⟨_, hpasses, -⟩ := (sound r n).component hread
  have hlength := length_of_passes hpasses
  dsimp only
  cases hs : eat? .ampersand us with
  | none =>
    obtain ⟨c₂, rest, heat, hon₂, hsees⟩ := eat_of_none hon.within h₁ hs
    exact .step heat hon₂ (.pure hon₂.within hsees.ahead_tokens first)
  | some vs =>
    obtain ⟨c₂, heat, hon₂, -, h₂⟩ := eat_of_some hon.within h₁ hs
    refine .step heat hon₂ ?_
    have hlength' := length_of_eat? hs
    have hmore := hn.components [first] (k := k) hon₂.within h₂ (by omega) (by omega)
    have hinter := hmore.map Ty.inter
    rwa [bind_assoc] at hinter

theorem component_succ (hn : Walks r input n) (hc : c.Within input) (h : Ahead input c ts)
    (hts : 6 * ts.length + 3 ≤ n + 1) (hk : 6 * ts.length + 3 ≤ k) :
    Agrees input (walkComponent r input.toList k) c (readComponent r (n + 1) ts) := by
  obtain ⟨k, rfl⟩ := Nat.exists_eq_add_one.2 (by omega : 0 < k)
  rw [walkComponent, readComponent_succ]
  cases hs : eat? .question ts with
  | none =>
    obtain ⟨c₁, rest, heat, hon, hsees⟩ := eat_of_none hc h hs
    exact .step heat hon (hn.array hon.within hsees.ahead_tokens (by omega) (by omega))
  | some us =>
    have hlength := length_of_eat? hs
    obtain ⟨c₁, heat, hon, -, h₁⟩ := eat_of_some hc h hs
    refine .step heat hon ?_
    dsimp only
    cases hextends : eatName? "extends" us with
    | some vs =>
      have hlength' := length_of_eatName? hextends
      obtain ⟨c₂, heat₂, hon₂, h₂⟩ := eatKeyword_of_some hon.within h₁ hextends
      have hbound := hn.array (k := k) hon₂.within h₂ (by omega) (by omega)
      exact .step heat₂ hon₂ (hbound.map Ty.extending)
    | none =>
      obtain ⟨c₂, heat₂, hon₂, h₂⟩ := eatKeyword_of_none hon.within h₁ isName_extends hextends
      refine .step heat₂ hon₂ ?_
      dsimp only
      cases hsuper : eatName? "super" us with
      | some vs =>
        have hlength' := length_of_eatName? hsuper
        obtain ⟨c₃, heat₃, hon₃, h₃⟩ := eatKeyword_of_some hon₂.within h₂ hsuper
        have hbound := hn.array (k := k) hon₃.within h₃ (by omega) (by omega)
        exact .step heat₃ hon₃ (hbound.map Ty.above)
      | none =>
        obtain ⟨c₃, heat₃, hon₃, h₃⟩ := eatKeyword_of_none hon₂.within h₂ isName_super hsuper
        exact .step heat₃ hon₃ (.pure hon₃.within h₃ Ty.anything)

end Walks

theorem agrees_brackets (hstop : r.stop = input.utf8ByteSize) {k : Nat} (t : Ty)
    (hc : c.Within input) (h : Ahead input c ts) (hk : ts.length + 1 ≤ k) :
    Agrees input (walkBrackets input.toList k t) c (readBrackets r t ts) := by
  induction k generalizing t c ts with
  | zero => omega
  | succ k ih =>
    rw [walkBrackets, readBrackets_eq]
    refine .get ?_ hc
    dsimp only
    cases hs : eat? .opening ts with
    | none =>
      obtain ⟨c₁, rest, heat, hon, hsees⟩ := eat_of_none hc h hs
      exact .step heat hon (.pure hon.within hsees.ahead_tokens t)
    | some us =>
      obtain ⟨c₁, heat, hon, hlt, h₁⟩ := eat_of_some hc h hs
      have hturn := hon.within.turn hlt
      refine .step heat hon (.turn hon.within hlt ?_)
      dsimp only
      cases hs' : eat? .closing us with
      | none =>
        obtain ⟨c₂, rest, heat₂, hon₂, hsees⟩ := eat_of_none (c := c₁.turn c.pos) hturn h₁ hs'
        rw [hstop]
        exact .step heat₂ hon₂ (.fail hon₂.within hsees .noClosing)
      | some vs =>
        have hlength := length_of_eat? hs
        have hlength' := length_of_eat? hs'
        obtain ⟨c₂, heat₂, hon₂, -, h₂⟩ := eat_of_some (c := c₁.turn c.pos) hturn h₁ hs'
        exact .step heat₂ hon₂ (ih (.array t) hon₂.within h₂ (by omega))

theorem Walks.array_succ (hstop : r.stop = input.utf8ByteSize) (hn : Walks r input n) {k : Nat}
    (hc : c.Within input) (h : Ahead input c ts) (hts : 6 * ts.length + 2 ≤ n + 1)
    (hk : 6 * ts.length + 2 ≤ k) :
    Agrees input (walkArray r input.toList k) c (readArray r (n + 1) ts) := by
  obtain ⟨k, rfl⟩ := Nat.exists_eq_add_one.2 (by omega : 0 < k)
  rw [walkArray, readArray]
  refine (hn.named hc h (by omega) (by omega)).bind fun t us c₁ hread hon h₁ => ?_
  obtain ⟨_, hpasses, -⟩ := (sound r n).named hread
  have hlength := length_of_passes hpasses
  exact agrees_brackets hstop t hon.within h₁ (by omega)

theorem agrees_bare (hc : c.Within input) (h : Ahead input c ts) (name : String) :
    Agrees input (match resolve? r.store r.scope name with
      | some t => Pure.pure t
      | none => throw (.error (.unknownName name)) : Walk Ty) c
      (match resolve? r.store r.scope name with
      | some t => .ok (t, ts)
      | none => .error (.unknownName name)) := by
  cases resolve? r.store r.scope name with
  | some t => exact .pure hc h t
  | none => exact .error rfl ⟨hc, Nat.le_refl _⟩ trivial

/-- The type arguments of a name that starts at a boundary. -/
theorem Walks.applied (hstop : r.stop = input.utf8ByteSize) (hn : Walks r input n) {k : Nat}
    (hc : c.Within input) (h : Ahead input c ts) (hts : 6 * ts.length + 5 ≤ n)
    (hk : 6 * ts.length + 5 ≤ k) (name : String) {start : Nat} (hstart : Boundary input start) :
    Agrees input (do
        let first ← walkType r input.toList k
        let args ← walkArgs r input.toList k [first]
        if ← eat input.toList .greater then answer (applyName r.store r.scope name start args)
        else fail .noGreater) c (do
        let (args, ts) ← readArgs r n ts
        match eat? .greater ts with
        | none => .error (.form .noGreater (offset r.stop ts))
        | some ts =>
          let t ← applyName r.store r.scope name start args
          return (t, ts)) := by
  have hargs := hn.args [] hc h hts hk
  have hafter : after [] (readArgs r n ts) = readArgs r n ts := by
    cases readArgs r n ts <;> rfl
  rw [hafter] at hargs
  rw [← bind_assoc]
  refine hargs.bind fun args us c₁ _ hon h₁ => ?_
  dsimp only
  cases hs : eat? .greater us with
  | none =>
    obtain ⟨c₂, rest, heat, hon₂, hsees⟩ := eat_of_none hon.within h₁ hs
    rw [hstop]
    exact .step heat hon₂ (.fail hon₂.within hsees .noGreater)
  | some vs =>
    obtain ⟨c₂, heat, hon₂, -, h₂⟩ := eat_of_some hon.within h₁ hs
    refine .step heat hon₂ ?_
    dsimp only
    rw [bind_pure_comp]
    exact .answer hon₂.within h₂ fun e he => onBoundary_of_applyName hstart he

theorem readNamed_of_facing {pos : Nat} {rest : List Char} (h : Facing pos rest ts)
    (hno : ∀ d ∈ rest.head?, isNameStart d = false) :
    readNamed r (n + 1) ts = .error (.form .noName (offset r.stop ts)) := by
  cases h with
  | nil => rfl
  | @name d cs hd =>
    rw [hno d rfl] at hd
    cases hd
  | symbol => rfl
  | other => rfl

theorem ofList_ne_empty (d : Char) (cs : List Char) : String.ofList (d :: cs) ≠ "" := by
  intro h
  have := congrArg String.toList h
  simp at this

theorem Walks.named_succ (hstop : r.stop = input.utf8ByteSize) (hn : Walks r input n) {k : Nat}
    (hc : c.Within input) (h : Ahead input c ts) (hts : 6 * ts.length + 1 ≤ n + 1)
    (hk : 6 * ts.length + 1 ≤ k) :
    Agrees input (walkNamed r input.toList k) c (readNamed r (n + 1) ts) := by
  obtain ⟨k, rfl⟩ := Nat.exists_eq_add_one.2 (by omega : 0 < k)
  rw [walkNamed]
  obtain ⟨c₁, rest, hskip, hon, hsees⟩ := skipBlanks_spec hc h
  refine .step hskip hon (.get ?_ hon.within)
  dsimp only
  by_cases hno : ∀ d ∈ rest.head?, isNameStart d = false
  · obtain ⟨c₂, hname, hon₂, hsees₂⟩ := identifier_of_no_name hon.within hsees hno
    refine .step hname hon₂ ?_
    rw [if_pos rfl, readNamed_of_facing hsees.facing hno, hstop]
    exact .fail hon₂.within hsees₂ .noName
  · obtain ⟨hahead, hfacing⟩ := hsees
    cases hfacing with
    | nil => exact absurd nofun hno
    | symbol s => exact absurd (by simp [isNameStart_symbol]) hno
    | other _ hname => exact absurd (by simp [hname]) hno
    | @name d cs hd =>
      obtain ⟨c₂, hname, hon₂, h₂⟩ := identifier_of_name hon.within hahead hd
      refine .step hname hon₂ ?_
      rw [if_neg (ofList_ne_empty _ _), readNamed]
      cases hs : eat? .less _ with
      | none =>
        obtain ⟨c₃, _, heat, hon₃, hsees₃⟩ := eat_of_none hon₂.within h₂ hs
        exact .step heat hon₃ (agrees_bare hon₃.within hsees₃.ahead_tokens _)
      | some vs =>
        have hlength := length_of_eat? hs
        simp only [List.length_cons] at hts hk
        obtain ⟨c₃, heat, hon₃, -, h₃⟩ := eat_of_some hon₂.within h₂ hs
        exact .step heat hon₃ (hn.applied hstop hon₃.within h₃ (by omega) (by omega) _
          (boundary_of_from? hahead))

-- By induction on the budget of the reader of tokens. That of the reader with a cursor is another
-- one: a loop spends its steps differently from the recursion that it stands for.
theorem walks (hstop : r.stop = input.utf8ByteSize) (n : Nat) : Walks r input n := by
  induction n with
  | zero =>
    constructor <;> intros <;> omega
  | succ n ih =>
    exact {
      type := ih.type_succ
      components := fun done => ih.components_succ done
      component := ih.component_succ
      array := ih.array_succ hstop
      named := ih.named_succ hstop
      args := fun done => ih.args_succ done }

/-! ### Reading a text -/

theorem Sees.pos_lt_iff {rest : List Char} (h : Sees input c rest ts) :
    c.pos < byteLength input.toList ↔ ts ≠ [] := by
  rw [byteLength_of_from? h.ahead]
  obtain ⟨-, hfacing⟩ := h
  cases hfacing with
  | nil => simp
  | @name d => simp [Nat.add_pos_left d.utf8Size_pos]
  | symbol s => simp [Nat.add_pos_left s.char.utf8Size_pos]
  | @other d => simp [Nat.add_pos_left d.utf8Size_pos]

/-- An answer that leaves no tokens. -/
def whole (stop : Nat) (p : Ty × List Token) : Except ReadError (Ty × List Token) :=
  if p.2 = [] then .ok p else .error (.form .trailing (offset stop p.2))

theorem read_eq_whole (s : Store) (scope : Scope) (input : String) :
    (read s scope input).map (fun t => (t, [])) =
      readType ⟨s, scope, input.utf8ByteSize⟩ (6 * (tokens input).length + 6) (tokens input) >>=
        whole input.utf8ByteSize := by
  simp only [read, bind, Except.bind]
  cases readType _ _ (tokens input) with
  | error e => rfl
  | ok p =>
    obtain ⟨t, us⟩ := p
    cases us <;> rfl

theorem agrees_walk (s : Store) (scope : Scope) (input : String) (more : Nat) :
    Agrees input (walk s scope input (6 * input.utf8ByteSize + 6 + more)) {}
      ((read s scope input).map fun t => (t, [])) := by
  rw [read_eq_whole, walk]
  have hlength := length_tokens_le input
  have hwalks := walks (r := ⟨s, scope, input.utf8ByteSize⟩) rfl (6 * (tokens input).length + 6)
  have htype := hwalks.type (k := 6 * input.utf8ByteSize + 6 + more) (Cursor.within_start input)
    (ahead_start input) (by omega) (by omega)
  refine htype.bind fun t us c _ hon h => ?_
  obtain ⟨c', rest, hskip, hon', hsees⟩ := skipBlanks_spec hon.within h
  refine .step hskip hon' (.get ?_ hon'.within)
  by_cases hus : us = []
  · rw [if_neg (by simp [hsees.pos_lt_iff, hus]), whole, if_pos hus]
    exact .pure hon'.within hsees.ahead_tokens t
  · rw [if_pos (hsees.pos_lt_iff.2 hus), whole, if_neg hus]
    exact .fail hon'.within hsees .trailing

/-- Reading a type expression by positions answers what it means or why it means none. Six nested
steps a byte suffice for this, so the reader stops on every text, and without a slice outside the
text or inside a character. All positions on the way are boundaries of the text and none is before
an earlier one, each turn of a loop reads at least one byte, and a fault of form is found on a
boundary of the text. -/
theorem walk_within_text (s : Store) (scope : Scope) (input : String) (more : Nat) :
    ∃ c : Cursor,
      (walk s scope input (6 * input.utf8ByteSize + 6 + more)).outcome {} =
          some ((read s scope input).mapError Halt.error, c) ∧
        c.Within input ∧
        ∀ fault offset, read s scope input = .error (.form fault offset) →
          Boundary input offset := by
  have hwalk := agrees_walk s scope input more
  generalize read s scope input = x at hwalk ⊢
  cases x with
  | ok t =>
    cases hwalk with
    | ok h hon _ => exact ⟨_, h, hon.within, nofun⟩
  | error e =>
    cases hwalk with
    | error h hon he =>
      refine ⟨_, h, hon.within, ?_⟩
      rintro fault offset heq
      cases heq
      exact he

end GenericCalls.TypeExpr
