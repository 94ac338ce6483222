import GenericCalls.TypeExpr.Token

/-! # Maximal tokens

What it means for a text to be read as tokens: blanks are passed over, a symbol is a token of its
own, and a name takes all characters that can go on with it. The tokens that are read are the only
ones of this kind, and a text that holds any other character has none. -/

namespace GenericCalls

namespace Text

theorem mem_of_inRanges {n : Nat} {rs : List (Nat × Nat)} (h : inRanges n rs = true) :
    ∃ r ∈ rs, r.1 ≤ n ∧ n ≤ r.2 := by
  induction rs with
  | nil => simp [inRanges] at h
  | cons r rs ih =>
    obtain ⟨low, high⟩ := r
    simp only [inRanges] at h
    split at h
    · simp at h
    · split at h
      · exact ⟨(low, high), by simp, by omega, by omega⟩
      · obtain ⟨r, hr, hn⟩ := ih h
        exact ⟨r, List.mem_cons_of_mem _ hr, hn⟩

theorem forall_of_inRanges {P : Nat → Prop} {n : Nat} {rs : List (Nat × Nat)}
    (h : inRanges n rs = true) (hP : ∀ r ∈ rs, ∀ i < r.2 + 1 - r.1, P (r.1 + i)) : P n := by
  obtain ⟨r, hr, hlow, hhigh⟩ := mem_of_inRanges h
  have hn : r.1 + (n - r.1) = n := by omega
  have := hP r hr (n - r.1) (by omega)
  rwa [hn] at this

end Text

namespace TypeExpr

/-! ### Kinds of characters -/

theorem isNamePart_of_isNameStart {c : Char} (h : isNameStart c = true) : isNamePart c = true := by
  unfold isNameStart at h
  unfold isNamePart
  grind

def isNamePartCode (n : Nat) : Bool :=
  n == 36 || n == 95 || n == 46 || Text.inRanges n Text.alphabeticRanges ||
    Text.inRanges n Text.numericRanges

theorem isNamePart_eq (c : Char) : isNamePart c = isNamePartCode c.toNat := by
  have heq (d : Char) : (c == d) = (c.toNat == d.toNat) := by
    rw [Bool.eq_iff_iff]
    simp [Char.toNat_inj]
  unfold isNamePart isNamePartCode Text.isAlphabetic Text.isNumeric
  rw [heq, heq, heq]
  rfl

theorem isNamePart_of_isBlank {c : Char} (h : Text.isBlank c = true) : isNamePart c = false := by
  rw [isNamePart_eq]
  exact Text.forall_of_inRanges (P := fun n => isNamePartCode n = false) h (by decide +kernel)

theorem isNamePart_symbol (s : Symbol) : isNamePart s.char = false := by
  cases s <;> decide +kernel

theorem isBlank_symbol (s : Symbol) : Text.isBlank s.char = false := by
  cases s <;> decide

theorem not_isBlank_of_isNameStart {c : Char} (h : isNameStart c = true) :
    Text.isBlank c = false := by
  rw [Bool.eq_false_iff]
  intro hb
  have := isNamePart_of_isBlank hb
  rw [isNamePart_of_isNameStart h] at this
  cases this

theorem isNameStart_symbol (s : Symbol) : isNameStart s.char = false := by
  rw [Bool.eq_false_iff]
  intro h
  have := isNamePart_of_isNameStart h
  rw [isNamePart_symbol] at this
  cases this

theorem eq_char_of_ofChar? {c : Char} {s : Symbol} (h : Symbol.ofChar? c = some s) :
    c = s.char := by
  unfold Symbol.ofChar? at h
  split at h <;> cases h <;> rfl

/-! ### Longest names -/

/-- No name goes on with the first of the characters. -/
def Apart (cs : List Char) : Prop := ∀ c ∈ cs.head?, isNamePart c = false

theorem apart_nil : Apart [] := by simp [Apart]

theorem apart_cons {c : Char} {cs : List Char} : Apart (c :: cs) ↔ isNamePart c = false := by
  simp [Apart]

theorem apart_append {cs ds : List Char} (h : Apart cs) (h' : Apart ds) : Apart (cs ++ ds) := by
  cases cs with
  | nil => exact h'
  | cons c cs => exact h

theorem apart_spanName (cs : List Char) : Apart (spanName cs).2 := by
  intro c hc
  obtain ⟨rest, hrest⟩ := List.head?_eq_some_iff.1 hc
  exact isNamePart_of_spanName_eq_cons hrest

theorem spanName_eq {part rest : List Char} (hpart : ∀ c ∈ part, isNamePart c = true)
    (hrest : Apart rest) : spanName (part ++ rest) = (part, rest) := by
  induction part with
  | nil =>
    cases rest with
    | nil => rfl
    | cons c cs =>
      have hc : isNamePart c = false := apart_cons.1 hrest
      simp [spanName, hc]
  | cons c cs ih =>
    obtain ⟨hc, hcs⟩ := List.forall_mem_cons.1 hpart
    simp [spanName, hc, ih hcs]

/-! ### Tokens of a text -/

/-- A text is read as maximal tokens. -/
inductive Lexes : List Char → List Lexeme → Prop where
  | nil : Lexes [] []
  | blank {c : Char} {cs : List Char} {ls : List Lexeme} (hc : Text.isBlank c = true)
      (h : Lexes cs ls) : Lexes (c :: cs) ls
  | symbol (s : Symbol) {cs : List Char} {ls : List Lexeme} (h : Lexes cs ls) :
      Lexes (s.char :: cs) (.symbol s :: ls)
  | name {c : Char} {part rest : List Char} {ls : List Lexeme} (hstart : isNameStart c = true)
      (hpart : ∀ d ∈ part, isNamePart d = true) (hrest : Apart rest) (h : Lexes rest ls) :
      Lexes (c :: part ++ rest) (.name (String.ofList (c :: part)) :: ls)

def Lexeme.isProper : Lexeme → Bool
  | .other _ => false
  | _ => true

theorem Lexes.isProper {cs : List Char} {ls : List Lexeme} (h : Lexes cs ls) :
    ∀ l ∈ ls, l.isProper = true := by
  induction h with
  | nil => simp
  | blank _ _ ih => exact ih
  | symbol _ _ ih => simpa [Lexeme.isProper] using ih
  | name _ _ _ _ ih => simpa [Lexeme.isProper] using ih

/-- The tokens that are read are the maximal ones, if the text has any. -/
theorem Lexes.tokensFrom_eq {cs : List Char} {ls : List Lexeme} (h : Lexes cs ls) {n : Nat}
    (hn : cs.length ≤ n) (pos : Nat) : (tokensFrom n pos cs).map Token.lexeme = ls := by
  induction h generalizing n pos with
  | nil => cases n <;> rfl
  | @blank c cs ls hc _ ih =>
    obtain ⟨n, rfl⟩ : ∃ k, n = k + 1 := ⟨n - 1, by simp at hn; omega⟩
    simp only [List.length_cons] at hn
    simp only [tokensFrom, hc, if_true]
    exact ih (by omega) _
  | @symbol s cs ls _ ih =>
    obtain ⟨n, rfl⟩ : ∃ k, n = k + 1 := ⟨n - 1, by simp at hn; omega⟩
    simp only [List.length_cons] at hn
    simp only [tokensFrom, isBlank_symbol, isNameStart_symbol, Symbol.ofChar?_char,
      Bool.false_eq_true, if_false, List.map_cons]
    rw [ih (by omega)]
  | @name c part rest ls hstart hpart hrest _ ih =>
    obtain ⟨n, rfl⟩ : ∃ k, n = k + 1 := ⟨n - 1, by simp at hn; omega⟩
    simp only [List.length_cons, List.length_append, List.cons_append] at hn
    simp only [List.cons_append, tokensFrom, not_isBlank_of_isNameStart hstart, hstart,
      spanName_eq hpart hrest, Bool.false_eq_true, if_false, if_true, List.map_cons]
    rw [ih (by omega)]

/-- The tokens that are read are maximal, unless one is neither a name nor a symbol. -/
theorem lexes_tokensFrom {n pos : Nat} {cs : List Char} (hn : cs.length ≤ n)
    (hproper : ∀ t ∈ tokensFrom n pos cs, t.lexeme.isProper = true) :
    Lexes cs ((tokensFrom n pos cs).map Token.lexeme) := by
  induction n generalizing pos cs with
  | zero =>
    obtain rfl : cs = [] := List.eq_nil_of_length_eq_zero (by omega)
    exact .nil
  | succ n ih =>
    cases cs with
    | nil => exact .nil
    | cons c cs =>
      simp only [List.length_cons] at hn
      simp only [tokensFrom] at hproper ⊢
      split
      · rename_i hb
        rw [if_pos hb] at hproper
        exact .blank hb (ih (by omega) hproper)
      · rename_i hb
        rw [if_neg hb] at hproper
        split
        · rename_i hs
          rw [if_pos hs, List.forall_mem_cons] at hproper
          have hspan := length_spanName cs
          have hpart : ∀ d ∈ (spanName cs).1, isNamePart d = true :=
            fun d => isNamePart_of_mem_spanName
          have hname := Lexes.name hs hpart (apart_spanName cs) (ih (by omega) hproper.2)
          rw [List.cons_append, spanName_append] at hname
          exact hname
        · rename_i hs
          rw [if_neg hs] at hproper
          split
          · rename_i s hsym
            obtain rfl := eq_char_of_ofChar? hsym
            rw [hsym, List.forall_mem_cons] at hproper
            exact .symbol s (ih (by omega) hproper.2)
          · rename_i hsym
            rw [hsym, List.forall_mem_cons] at hproper
            cases hproper.1

theorem lexes_iff {input : String} {ls : List Lexeme} :
    Lexes input.toList ls ↔
      (tokens input).map Token.lexeme = ls ∧ ∀ l ∈ ls, l.isProper = true := by
  constructor
  · intro h
    exact ⟨h.tokensFrom_eq (Nat.le_refl _) 0, h.isProper⟩
  · rintro ⟨rfl, hproper⟩
    refine lexes_tokensFrom (Nat.le_refl _) fun t ht => ?_
    exact hproper _ (List.mem_map_of_mem ht)

end TypeExpr

end GenericCalls
