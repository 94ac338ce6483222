import GenericCalls.Proofs.TypeExpr.Lexing

/-! # Slices of a text

A text is sliced at byte offsets. A slice beyond the end of the text, or from inside a character,
does not exist: the offsets at which a text can be cut are the boundaries of its characters. The
tokens ahead of a boundary are those of the characters after it, and each of them starts on a
boundary. -/

namespace GenericCalls.TypeExpr

/-! ### Lengths in bytes -/

@[simp] theorem byteLength_nil : byteLength [] = 0 := rfl

@[simp] theorem byteLength_cons (c : Char) (cs : List Char) :
    byteLength (c :: cs) = c.utf8Size + byteLength cs := rfl

theorem eq_nil_of_byteLength {cs : List Char} (h : byteLength cs = 0) : cs = [] := by
  cases cs with
  | nil => rfl
  | cons c cs =>
    have := c.utf8Size_pos
    rw [byteLength_cons] at h
    omega

theorem byteLength_ofList (cs : List Char) : (String.ofList cs).utf8ByteSize = byteLength cs := by
  induction cs with
  | nil => rfl
  | cons c cs ih =>
    rw [String.ofList_cons, String.utf8ByteSize_append, String.utf8ByteSize_singleton, ih,
      byteLength_cons]

theorem byteLength_toList (input : String) : byteLength input.toList = input.utf8ByteSize := by
  rw [← byteLength_ofList, String.ofList_toList]

/-! ### Cutting a text -/

/-- The characters before a byte offset and those after it. A text is not cut beyond its end, nor
inside a character. -/
def splitAt? : List Char → Nat → Option (List Char × List Char)
  | cs, 0 => some ([], cs)
  | [], _ + 1 => none
  | c :: cs, n + 1 =>
    if c.utf8Size ≤ n + 1 then
      (splitAt? cs (n + 1 - c.utf8Size)).map fun (before, after) => (c :: before, after)
    else none

def from? (cs : List Char) (start : Nat) : Option (List Char) := (splitAt? cs start).map Prod.snd

def between? (cs : List Char) (start stop : Nat) : Option (List Char) :=
  if start ≤ stop then do
    let after ← from? cs start
    let (middle, _) ← splitAt? after (stop - start)
    return middle
  else none

theorem splitAt?_eq_some_iff {cs before after : List Char} {n : Nat} :
    splitAt? cs n = some (before, after) ↔ cs = before ++ after ∧ byteLength before = n := by
  fun_induction splitAt? cs n generalizing before with
  | case1 cs =>
    simp only [Option.some.injEq, Prod.mk.injEq]
    constructor
    · rintro ⟨rfl, rfl⟩
      exact ⟨rfl, rfl⟩
    · rintro ⟨rfl, h⟩
      obtain rfl := eq_nil_of_byteLength h
      exact ⟨rfl, rfl⟩
  | case2 n =>
    constructor
    · exact nofun
    · rintro ⟨h, hn⟩
      obtain ⟨rfl, rfl⟩ := List.append_eq_nil_iff.1 h.symm
      cases hn
  | case3 c cs n hc ih =>
    simp only [Option.map_eq_some_iff, Prod.mk.injEq, Prod.exists]
    constructor
    · rintro ⟨front, back, h, rfl, rfl⟩
      obtain ⟨rfl, hn⟩ := ih.1 h
      exact ⟨rfl, by rw [byteLength_cons]; omega⟩
    · rintro ⟨h, hn⟩
      cases before with
      | nil => cases hn
      | cons d before =>
        obtain ⟨rfl, rfl⟩ := List.cons_eq_cons.1 h
        rw [byteLength_cons] at hn
        exact ⟨before, after, ih.2 ⟨rfl, by omega⟩, rfl, rfl⟩
  | case4 c cs n hc =>
    constructor
    · exact nofun
    · rintro ⟨h, hn⟩
      cases before with
      | nil => cases hn
      | cons d before =>
        obtain ⟨rfl, rfl⟩ := List.cons_eq_cons.1 h
        rw [byteLength_cons] at hn
        omega

theorem from?_eq_some_iff {cs after : List Char} {n : Nat} :
    from? cs n = some after ↔ ∃ before, cs = before ++ after ∧ byteLength before = n := by
  simp [from?, splitAt?_eq_some_iff]

/-- A character of two bytes is not cut. -/
example : from? ['é', 'x'] 2 = some ['x'] ∧ from? ['é', 'x'] 1 = none := by decide

theorem from?_zero (cs : List Char) : from? cs 0 = some cs := by
  cases cs <;> rfl

theorem from?_add {cs middle after : List Char} {n : Nat}
    (h : from? cs n = some (middle ++ after)) :
    from? cs (n + byteLength middle) = some after := by
  obtain ⟨before, rfl, rfl⟩ := from?_eq_some_iff.1 h
  exact from?_eq_some_iff.2
    ⟨before ++ middle, (List.append_assoc _ _ _).symm, byteLength_append _ _⟩

theorem byteLength_of_from? {cs after : List Char} {n : Nat} (h : from? cs n = some after) :
    byteLength cs = n + byteLength after := by
  obtain ⟨before, rfl, rfl⟩ := from?_eq_some_iff.1 h
  exact byteLength_append _ _

theorem between?_eq_some {cs middle after : List Char} {n : Nat}
    (h : from? cs n = some (middle ++ after)) :
    between? cs n (n + byteLength middle) = some middle := by
  have hsplit : splitAt? (middle ++ after) (byteLength middle) = some (middle, after) :=
    splitAt?_eq_some_iff.2 ⟨rfl, rfl⟩
  simp [between?, h, hsplit]

/-! ### Boundaries -/

/-- A byte offset is within a text and on the boundary of a character. -/
structure Boundary (input : String) (p : Nat) : Prop where
  le : p ≤ input.utf8ByteSize
  valid : String.Pos.Raw.IsValid input ⟨p⟩

theorem boundary_of_from? {input : String} {p : Nat} {after : List Char}
    (h : from? input.toList p = some after) : Boundary input p := by
  obtain ⟨before, happ, rfl⟩ := from?_eq_some_iff.1 h
  refine ⟨?_, ?_⟩
  · rw [← byteLength_toList, happ, byteLength_append]
    omega
  · refine String.Pos.Raw.isValid_iff_exists_append.2
      ⟨String.ofList before, String.ofList after, ?_, ?_⟩
    · rw [← String.ofList_append, ← happ, String.ofList_toList]
    · ext
      exact (byteLength_ofList before).symm

/-! ### Tokens ahead -/

def tokensAt (pos : Nat) (cs : List Char) : List Token := tokensFrom cs.length pos cs

theorem tokens_eq (input : String) : tokens input = tokensAt 0 input.toList := rfl

/-- A budget of one step a character suffices. -/
theorem tokensFrom_eq {n pos : Nat} {cs : List Char} (h : cs.length ≤ n) :
    tokensFrom n pos cs = tokensAt pos cs := by
  suffices hsame : ∀ m, cs.length ≤ m → tokensFrom n pos cs = tokensFrom m pos cs from
    hsame _ (Nat.le_refl _)
  intro m hm
  induction n generalizing m pos cs with
  | zero =>
    obtain rfl : cs = [] := List.eq_nil_of_length_eq_zero (by omega)
    cases m <;> rfl
  | succ n ih =>
    cases cs with
    | nil => cases m <;> rfl
    | cons c cs =>
      simp only [List.length_cons] at h hm
      obtain ⟨m, rfl⟩ : ∃ k, m = k + 1 := ⟨m - 1, by omega⟩
      have hrest (p : Nat) (ds : List Char) (hds : ds.length ≤ cs.length) :
          tokensFrom n p ds = tokensFrom m p ds := ih (by omega) m (by omega)
      simp only [tokensFrom, hrest _ cs (Nat.le_refl _), hrest _ _ (length_spanName cs)]

theorem length_tokensFrom_le (n pos : Nat) (cs : List Char) :
    (tokensFrom n pos cs).length ≤ byteLength cs := by
  fun_induction tokensFrom n pos cs with
  | case1 => exact Nat.zero_le _
  | case2 => exact Nat.zero_le _
  | case3 n pos c cs _ ih =>
    rw [byteLength_cons]
    omega
  | case4 n pos c cs _ _ part rest hspan ih =>
    have happ := congrArg byteLength (spanName_append cs)
    have hpos := c.utf8Size_pos
    simp only [hspan, byteLength_append] at happ
    simp only [List.length_cons, byteLength_cons] at ih ⊢
    omega
  | case5 n pos c cs _ _ s _ ih =>
    have hpos := c.utf8Size_pos
    rw [List.length_cons, byteLength_cons]
    omega
  | case6 n pos c cs _ _ _ ih =>
    have hpos := c.utf8Size_pos
    rw [List.length_cons, byteLength_cons]
    omega

theorem length_tokens_le (input : String) : (tokens input).length ≤ input.utf8ByteSize := by
  rw [← byteLength_toList]
  exact length_tokensFrom_le _ _ _

variable {c : Char} {cs : List Char} {pos : Nat}

theorem tokensAt_blank (hc : Text.isBlank c = true) :
    tokensAt pos (c :: cs) = tokensAt (pos + c.utf8Size) cs := by
  simp only [tokensAt, List.length_cons, tokensFrom, hc, if_true]

theorem tokensAt_name (hc : isNameStart c = true) :
    tokensAt pos (c :: cs) = ⟨.name (String.ofList (c :: (spanName cs).1)), pos⟩ ::
      tokensAt (pos + byteLength (c :: (spanName cs).1)) (spanName cs).2 := by
  simp only [tokensAt, List.length_cons, tokensFrom, not_isBlank_of_isNameStart hc, hc, if_true,
    Bool.false_eq_true, if_false, tokensFrom_eq (length_spanName cs)]

theorem tokensAt_symbol (s : Symbol) :
    tokensAt pos (s.char :: cs) = ⟨.symbol s, pos⟩ :: tokensAt (pos + s.char.utf8Size) cs := by
  simp only [tokensAt, List.length_cons, tokensFrom, isBlank_symbol, isNameStart_symbol,
    Symbol.ofChar?_char, Bool.false_eq_true, if_false]

theorem tokensAt_other (hblank : Text.isBlank c = false) (hname : isNameStart c = false)
    (hc : Symbol.ofChar? c = none) :
    tokensAt pos (c :: cs) = ⟨.other c, pos⟩ :: tokensAt (pos + c.utf8Size) cs := by
  simp only [tokensAt, List.length_cons, tokensFrom, hblank, hname, hc, Bool.false_eq_true,
    if_false]

/-- The first of the characters is not a blank. -/
def Unblank (cs : List Char) : Prop := ∀ c ∈ cs.head?, Text.isBlank c = false

theorem unblank_dropWhile (cs : List Char) : Unblank (cs.dropWhile Text.isBlank) := by
  intro c hc
  have hhead := List.head?_dropWhile_not Text.isBlank cs
  rwa [Option.mem_def.1 hc] at hhead

/-- Blanks before the tokens mean nothing. -/
theorem tokensAt_dropWhile (pos : Nat) (cs : List Char) :
    tokensAt (pos + byteLength (cs.takeWhile Text.isBlank)) (cs.dropWhile Text.isBlank) =
      tokensAt pos cs := by
  induction cs generalizing pos with
  | nil => rfl
  | cons c cs ih =>
    by_cases hc : Text.isBlank c = true
    · rw [List.takeWhile_cons_of_pos hc, List.dropWhile_cons_of_pos hc, tokensAt_blank hc,
        byteLength_cons, ← Nat.add_assoc, ih]
    · rw [List.takeWhile_cons_of_neg hc, List.dropWhile_cons_of_neg hc]
      rfl

/-- What is ahead where no blanks are: nothing, a name, a symbol, or another character. -/
inductive Facing (pos : Nat) : List Char → List Token → Prop where
  | nil : Facing pos [] []
  | name {c : Char} {cs : List Char} (hc : isNameStart c = true) :
      Facing pos (c :: cs) (⟨.name (String.ofList (c :: (spanName cs).1)), pos⟩ ::
        tokensAt (pos + byteLength (c :: (spanName cs).1)) (spanName cs).2)
  | symbol (s : Symbol) (cs : List Char) :
      Facing pos (s.char :: cs) (⟨.symbol s, pos⟩ :: tokensAt (pos + s.char.utf8Size) cs)
  | other {c : Char} {cs : List Char} (hblank : Text.isBlank c = false)
      (hname : isNameStart c = false) (hc : Symbol.ofChar? c = none) :
      Facing pos (c :: cs) (⟨.other c, pos⟩ :: tokensAt (pos + c.utf8Size) cs)

theorem facing_of_unblank (h : Unblank cs) : Facing pos cs (tokensAt pos cs) := by
  cases cs with
  | nil => exact .nil
  | cons c cs =>
    have hblank : Text.isBlank c = false := h c rfl
    by_cases hname : isNameStart c = true
    · rw [tokensAt_name hname]
      exact .name hname
    · have hname : isNameStart c = false := by simpa using hname
      cases hsym : Symbol.ofChar? c with
      | some s =>
        obtain rfl := eq_char_of_ofChar? hsym
        rw [tokensAt_symbol]
        exact .symbol s cs
      | none =>
        rw [tokensAt_other hblank hname hsym]
        exact .other hblank hname hsym

end GenericCalls.TypeExpr
