import GenericCalls.Proofs.TypeExpr.RoundTrip
import GenericCalls.Proofs.TypeExpr.Slices
import GenericCalls.TypeExpr.Reader

/-! # Reading with a cursor

A type expression can be read without tokens, by a cursor that moves through the text by byte
offsets and slices the text where it stands. A slice that the text does not have stops the reader,
and so does an error; a reader that does not come to a stop has no outcome. Each step of the reader
does to the text what a step of the reader of tokens does to the tokens ahead. -/

namespace GenericCalls.TypeExpr

/-! ### Cursors -/

/-- Where a reader stands in a text, the positions that it has left, the latest first, and for each
turn of a loop the position before it and the one after the symbol that continues the loop. -/
structure Cursor where
  pos : Nat := 0
  left : List Nat := []
  turns : List (Nat × Nat) := []
deriving DecidableEq, Repr

namespace Cursor

def moveTo (c : Cursor) (p : Nat) : Cursor := { c with pos := p, left := c.pos :: c.left }

def turn (c : Cursor) (start : Nat) : Cursor := { c with turns := (start, c.pos) :: c.turns }

@[simp] theorem moveTo_pos (c : Cursor) (p : Nat) : (c.moveTo p).pos = p := rfl

/-- A cursor has gone through a text: it stands and stood on boundaries only, it never moved back,
and each turn of a loop has read some of the text. -/
structure Within (input : String) (c : Cursor) : Prop where
  boundary : ∀ p ∈ c.pos :: c.left, Boundary input p
  ordered : (c.pos :: c.left).Pairwise (· ≥ ·)
  turning : ∀ t ∈ c.turns, t.1 < t.2

theorem within_start (input : String) : Within input {} where
  boundary p hp := by
    obtain rfl : p = 0 := by simpa using hp
    exact boundary_of_from? (from?_zero _)
  ordered := List.pairwise_singleton _ _
  turning := by simp

variable {input : String} {c : Cursor}

theorem Within.moveTo (hc : c.Within input) {p : Nat} (hp : Boundary input p) (hle : c.pos ≤ p) :
    (c.moveTo p).Within input where
  boundary := List.forall_mem_cons.2 ⟨hp, hc.boundary⟩
  ordered := by
    refine List.pairwise_cons.2 ⟨fun q hq => ?_, hc.ordered⟩
    rcases List.mem_cons.1 hq with rfl | hq
    · exact hle
    · exact Nat.le_trans ((List.pairwise_cons.1 hc.ordered).1 q hq) hle
  turning := hc.turning

theorem Within.turn (hc : c.Within input) {start : Nat} (h : start < c.pos) :
    (c.turn start).Within input where
  boundary := hc.boundary
  ordered := hc.ordered
  turning := List.forall_mem_cons.2 ⟨h, hc.turning⟩

end Cursor

/-! ### Readers -/

/-- Why a reader stops without a result: the text does not have a slice, or the text is no type
expression. -/
inductive Halt where
  | outside
  | error (e : ReadError)
deriving DecidableEq, Repr

/-- A reader that moves a cursor. It keeps the cursor when it halts, and has no outcome at all if it
does not come to a stop. -/
abbrev Walk (α : Type) := ExceptT Halt (StateT Cursor Option) α

namespace Walk

variable {α β : Type}

def outcome (m : Walk α) (c : Cursor) : Option (Except Halt α × Cursor) := (ExceptT.run m).run c

def never : Walk α := ExceptT.mk fun _ => none

def slice : Option α → Walk α
  | some a => pure a
  | none => throw .outside

def answer : Except ReadError α → Walk α
  | .ok a => pure a
  | .error e => throw (.error e)

def moveTo (p : Nat) : Walk Unit := modify (·.moveTo p)

def turn (start : Nat) : Walk Unit := modify (·.turn start)

def fail (fault : Fault) : Walk α := do
  throw (.error (.form fault (← get).pos))

variable {c c' : Cursor}

theorem outcome_bind (m : Walk α) (f : α → Walk β) (c : Cursor) :
    (m >>= f).outcome c = (m.outcome c).bind fun (x, c') =>
      match x with
      | .ok a => (f a).outcome c'
      | .error e => some (.error e, c') := by
  simp only [outcome, ExceptT.run_bind, StateT.run_bind]
  refine congrArg (Option.bind _) (funext fun ⟨x, c'⟩ => ?_)
  cases x <;> rfl

theorem outcome_bind_ok {m : Walk α} {f : α → Walk β} {a : α} (h : m.outcome c = some (.ok a, c')) :
    (m >>= f).outcome c = (f a).outcome c' := by
  rw [outcome_bind, h]
  rfl

theorem outcome_bind_error {m : Walk α} {f : α → Walk β} {e : Halt}
    (h : m.outcome c = some (.error e, c')) : (m >>= f).outcome c = some (.error e, c') := by
  rw [outcome_bind, h]
  rfl

@[simp] theorem outcome_pure (a : α) (c : Cursor) :
    (pure a : Walk α).outcome c = some (.ok a, c) := rfl

@[simp] theorem outcome_get_bind (f : Cursor → Walk β) (c : Cursor) :
    (get >>= f).outcome c = (f c).outcome c := rfl

@[simp] theorem outcome_slice_bind (a : α) (f : α → Walk β) (c : Cursor) :
    (slice (some a) >>= f).outcome c = (f a).outcome c := rfl

@[simp] theorem outcome_moveTo_bind (p : Nat) (f : Unit → Walk β) (c : Cursor) :
    (moveTo p >>= f).outcome c = (f ()).outcome (c.moveTo p) := rfl

end Walk

open Walk

/-! ### Steps of a reader -/

def skipBlanks (text : List Char) : Walk Unit := do
  let start := (← get).pos
  let rest ← slice (from? text start)
  moveTo (start + (byteLength rest - byteLength (rest.dropWhile Text.isBlank)))

def eat (text : List Char) (symbol : Symbol) : Walk Bool := do
  skipBlanks text
  let start := (← get).pos
  let rest ← slice (from? text start)
  if rest.head? = some symbol.char then
    moveTo (start + symbol.char.utf8Size)
    return true
  else return false

/-- Reads a keyword, if it is ahead and no name goes on behind it. -/
def eatKeyword (text : List Char) (keyword : String) : Walk Bool := do
  skipBlanks text
  let start := (← get).pos
  let rest ← slice (from? text start)
  if keyword.toList.isPrefixOf rest then
    let behind ← slice (from? rest keyword.utf8ByteSize)
    if behind.head?.any isNamePart then return false
    else
      moveTo (start + keyword.utf8ByteSize)
      return true
  else return false

/-- The position behind the name that starts a rest of a text. -/
def nameEnd (text : List Char) (start : Nat) : List Char → Nat
  | [] => start
  | c :: cs =>
    if isNameStart c then
      match spanName cs with
      | (_, []) => byteLength text
      | (part, _ :: _) => start + byteLength (c :: part)
    else start

/-- Reads the longest name where the cursor stands, or no characters. -/
def identifier (text : List Char) : Walk String := do
  let start := (← get).pos
  let rest ← slice (from? text start)
  let stop := nameEnd text start rest
  moveTo stop
  let name ← slice (between? text start stop)
  return String.ofList name

/-! ### What is ahead of a cursor -/

def Ahead (input : String) (c : Cursor) (ts : List Token) : Prop :=
  ∃ rest, from? input.toList c.pos = some rest ∧ tokensAt c.pos rest = ts

/-- Characters are ahead of a cursor, and the first of the tokens ahead starts where it stands. -/
structure Sees (input : String) (c : Cursor) (rest : List Char) (ts : List Token) : Prop where
  ahead : from? input.toList c.pos = some rest
  facing : Facing c.pos rest ts

structure Onward (input : String) (c c' : Cursor) : Prop where
  within : c'.Within input
  le : c.pos ≤ c'.pos

variable {input : String} {c c' : Cursor} {rest : List Char} {ts us : List Token}

theorem ahead_start (input : String) : Ahead input {} (tokens input) :=
  ⟨input.toList, from?_zero _, (tokens_eq input).symm⟩

theorem Onward.trans {c'' : Cursor} (h : Onward input c c') (h' : Onward input c' c'') :
    Onward input c c'' :=
  ⟨h'.within, Nat.le_trans h.le h'.le⟩

theorem onward_moveTo (hc : c.Within input) {middle after : List Char}
    (h : from? input.toList c.pos = some (middle ++ after)) :
    Onward input c (c.moveTo (c.pos + byteLength middle)) where
  within := hc.moveTo (boundary_of_from? (from?_add h)) (Nat.le_add_right _ _)
  le := Nat.le_add_right _ _

theorem Facing.tokensAt_eq {pos : Nat} (h : Facing pos rest ts) : tokensAt pos rest = ts := by
  cases h with
  | nil => rfl
  | name hc => exact tokensAt_name hc
  | symbol s cs => exact tokensAt_symbol s
  | other hblank hname hc => exact tokensAt_other hblank hname hc

theorem Sees.ahead_tokens (h : Sees input c rest ts) : Ahead input c ts :=
  ⟨rest, h.ahead, h.facing.tokensAt_eq⟩

theorem Sees.offset_eq (h : Sees input c rest ts) : offset input.utf8ByteSize ts = c.pos := by
  have hsize := byteLength_of_from? h.ahead
  obtain ⟨hahead, hfacing⟩ := h
  rw [byteLength_toList] at hsize
  cases hfacing with
  | nil => simpa [offset] using hsize
  | name | symbol | other => rfl

/-! ### The steps in terms of tokens -/

theorem skipBlanks_spec (hc : c.Within input) (h : Ahead input c ts) :
    ∃ c' rest, (skipBlanks input.toList).outcome c = some (.ok (), c') ∧ Onward input c c' ∧
      Sees input c' rest ts := by
  obtain ⟨rest, hrest, rfl⟩ := h
  have hsplit : rest.takeWhile Text.isBlank ++ rest.dropWhile Text.isBlank = rest :=
    List.takeWhile_append_dropWhile
  have hlength : byteLength rest - byteLength (rest.dropWhile Text.isBlank) =
      byteLength (rest.takeWhile Text.isBlank) := by
    have hlengths := congrArg byteLength hsplit
    rw [byteLength_append] at hlengths
    omega
  have hahead := hrest
  rw [← hsplit] at hahead
  refine ⟨c.moveTo (c.pos + byteLength (rest.takeWhile Text.isBlank)), rest.dropWhile Text.isBlank,
    ?_, onward_moveTo hc hahead, from?_add hahead, ?_⟩
  · simp only [skipBlanks, outcome_get_bind, hrest, outcome_slice_bind, hlength]
    rfl
  · rw [← tokensAt_dropWhile]
    exact facing_of_unblank (unblank_dropWhile rest)

theorem eat_of_some (hc : c.Within input) (h : Ahead input c ts) {s : Symbol}
    (hs : eat? s ts = some us) :
    ∃ c', (eat input.toList s).outcome c = some (.ok true, c') ∧ Onward input c c' ∧
      c.pos < c'.pos ∧ Ahead input c' us := by
  obtain ⟨c₁, rest, hskip, hon, hahead, hfacing⟩ := skipBlanks_spec hc h
  cases hfacing with
  | symbol s' cs =>
    simp only [eat?, Option.ite_none_right_eq_some, Option.some.injEq] at hs
    obtain ⟨rfl, rfl⟩ := hs
    have hahead' : from? input.toList c₁.pos = some ([s'.char] ++ cs) := hahead
    have hmove := onward_moveTo hon.within hahead'
    have hpos := s'.char.utf8Size_pos
    simp only [byteLength_cons, byteLength_nil, Nat.add_zero] at hmove
    refine ⟨c₁.moveTo (c₁.pos + s'.char.utf8Size), ?_, hon.trans hmove, ?_, cs, ?_, rfl⟩
    · simp only [eat, outcome_bind_ok hskip, outcome_get_bind, hahead, outcome_slice_bind,
        List.head?_cons, if_true]
      rfl
    · have := hon.le
      simp only [Cursor.moveTo_pos]
      omega
    · simpa using from?_add hahead'
  | nil => cases hs
  | name => cases hs
  | other => cases hs

theorem eat_of_none (hc : c.Within input) (h : Ahead input c ts) {s : Symbol}
    (hs : eat? s ts = none) :
    ∃ c' rest, (eat input.toList s).outcome c = some (.ok false, c') ∧ Onward input c c' ∧
      Sees input c' rest ts := by
  obtain ⟨c', rest, hskip, hon, hsees⟩ := skipBlanks_spec hc h
  refine ⟨c', rest, ?_, hon, hsees⟩
  have hhead : rest.head? ≠ some s.char := by
    obtain ⟨-, hfacing⟩ := hsees
    intro hhead
    cases hfacing with
    | nil => cases hhead
    | name hname =>
      obtain rfl := Option.some.inj hhead
      rw [isNameStart_symbol] at hname
      cases hname
    | symbol s' cs =>
      have hchar := Option.some.inj hhead
      have hsymbol : s' = s := by
        have := congrArg Symbol.ofChar? hchar
        rw [Symbol.ofChar?_char, Symbol.ofChar?_char] at this
        exact Option.some.inj this
      simp [eat?, hsymbol] at hs
    | other _ _ hother =>
      obtain rfl := Option.some.inj hhead
      rw [Symbol.ofChar?_char] at hother
      cases hother
  simp [eat, outcome_bind_ok hskip, hsees.ahead, hhead]

def eatName? (name : String) : List Token → Option (List Token)
  | ⟨.name n, _⟩ :: rest => if n = name then some rest else none
  | _ => none

theorem any_isNamePart {cs : List Char} : cs.head?.any isNamePart = false ↔ Apart cs := by
  cases cs <;> simp [Apart]

theorem eatKeyword_of_some (hc : c.Within input) (h : Ahead input c ts) {keyword : String}
    (hs : eatName? keyword ts = some us) :
    ∃ c', (eatKeyword input.toList keyword).outcome c = some (.ok true, c') ∧ Onward input c c' ∧
      Ahead input c' us := by
  obtain ⟨c₁, rest, hskip, hon, hahead, hfacing⟩ := skipBlanks_spec hc h
  cases hfacing with
  | @name d cs hd =>
    simp only [eatName?, Option.ite_none_right_eq_some, Option.some.injEq] at hs
    obtain ⟨rfl, rfl⟩ := hs
    have hchars : d :: (spanName cs).1 ++ (spanName cs).2 = d :: cs := by
      rw [List.cons_append, spanName_append]
    have hprefix : (d :: (spanName cs).1).isPrefixOf (d :: cs) = true :=
      List.isPrefixOf_iff_prefix.2 ⟨_, hchars⟩
    have hapart := any_isNamePart.2 (apart_spanName cs)
    rw [← hchars] at hahead
    have hbehind := from?_add ((from?_zero _).trans (congrArg some hchars.symm))
    rw [Nat.zero_add] at hbehind
    refine ⟨_, ?_, hon.trans (onward_moveTo hon.within hahead), _, from?_add hahead, rfl⟩
    simp only [eatKeyword, outcome_bind_ok hskip, outcome_get_bind, hahead, outcome_slice_bind,
      String.toList_ofList, byteLength_ofList, hchars, hprefix, if_true, hbehind, hapart,
      Bool.false_eq_true, if_false]
    rfl
  | nil => cases hs
  | symbol => cases hs
  | other => cases hs

/-- Where a name is ahead, so is a keyword only if it is the name. -/
theorem eatName?_of_prefix {pos : Nat} {keyword : String} (hkeyword : IsName keyword)
    {behind : List Char} (h : Facing pos (keyword.toList ++ behind) ts) (hbehind : Apart behind) :
    eatName? keyword ts ≠ none := by
  obtain ⟨k, ks, hk, hstart, hpart⟩ := hkeyword
  rw [hk] at h
  cases h with
  | name hd =>
    have hname : String.ofList (k :: ks) = keyword := by rw [← hk, String.ofList_toList]
    simp [eatName?, spanName_eq hpart hbehind, hname]
  | symbol s =>
    rw [isNameStart_symbol] at hstart
    cases hstart
  | other _ hname =>
    rw [hstart] at hname
    cases hname

theorem eatKeyword_of_none (hc : c.Within input) (h : Ahead input c ts) {keyword : String}
    (hkeyword : IsName keyword) (hs : eatName? keyword ts = none) :
    ∃ c', (eatKeyword input.toList keyword).outcome c = some (.ok false, c') ∧ Onward input c c' ∧
      Ahead input c' ts := by
  obtain ⟨c', rest, hskip, hon, hsees⟩ := skipBlanks_spec hc h
  refine ⟨c', ?_, hon, hsees.ahead_tokens⟩
  obtain ⟨hahead, hfacing⟩ := hsees
  simp only [eatKeyword, outcome_bind_ok hskip, outcome_get_bind, hahead, outcome_slice_bind]
  split
  · rename_i hprefix
    obtain ⟨behind, rfl⟩ := List.isPrefixOf_iff_prefix.1 hprefix
    have hcut := from?_add (from?_zero (keyword.toList ++ behind))
    rw [Nat.zero_add, byteLength_toList] at hcut
    have hany : behind.head?.any isNamePart = true := by
      rw [← Bool.not_eq_false, any_isNamePart]
      exact fun hbehind => eatName?_of_prefix hkeyword hfacing hbehind hs
    simp only [hcut, outcome_slice_bind, hany, if_true]
    rfl
  · rfl

/-! ### Names -/

/-- A name ends where its longest form does, be it followed by anything or not. -/
theorem nameEnd_eq {text cs : List Char} {d : Char} {start : Nat}
    (h : from? text start = some (d :: cs)) (hd : isNameStart d = true) :
    nameEnd text start (d :: cs) = start + byteLength (d :: (spanName cs).1) := by
  simp only [nameEnd, hd, if_true]
  split
  · rename_i part hspan
    have happ := spanName_append cs
    rw [hspan, List.append_nil] at happ
    rw [byteLength_of_from? h, hspan, happ]
  · rename_i part e es hspan
    rw [hspan]

theorem identifier_of_name (hc : c.Within input) {d : Char} {cs : List Char}
    (h : from? input.toList c.pos = some (d :: cs)) (hd : isNameStart d = true) :
    ∃ c', (identifier input.toList).outcome c =
        some (.ok (String.ofList (d :: (spanName cs).1)), c') ∧ Onward input c c' ∧
      Ahead input c' (tokensAt (c.pos + byteLength (d :: (spanName cs).1)) (spanName cs).2) := by
  have hahead : from? input.toList c.pos = some (d :: (spanName cs).1 ++ (spanName cs).2) := by
    rw [h, List.cons_append, spanName_append]
  refine ⟨_, ?_, onward_moveTo hc hahead, _, from?_add hahead, rfl⟩
  simp only [identifier, outcome_get_bind, h, outcome_slice_bind, nameEnd_eq h hd,
    outcome_moveTo_bind, between?_eq_some hahead, outcome_pure]

theorem identifier_of_no_name (hc : c.Within input) (h : Sees input c rest ts)
    (hno : ∀ d ∈ rest.head?, isNameStart d = false) :
    ∃ c', (identifier input.toList).outcome c = some (.ok "", c') ∧ Onward input c c' ∧
      Sees input c' rest ts := by
  have hend : nameEnd input.toList c.pos rest = c.pos := by
    cases rest with
    | nil => rfl
    | cons d cs => simp [nameEnd, hno d rfl]
  have hahead : from? input.toList c.pos = some ([] ++ rest) := h.ahead
  have hempty : between? input.toList c.pos c.pos = some [] := between?_eq_some hahead
  refine ⟨c.moveTo c.pos, ?_, onward_moveTo hc hahead, h.ahead, h.facing⟩
  simp only [identifier, outcome_get_bind, h.ahead, outcome_slice_bind, hend, outcome_moveTo_bind,
    hempty, outcome_pure]

end GenericCalls.TypeExpr
