import GenericCalls.Proofs.Match.Budget
import GenericCalls.Proofs.Store.Views
import Mathlib.Data.Prod.Lex

/-! # Matches that end

A match under `? super` sees the pattern at the class of the type, one under `? extends` the type at
the class of the pattern, and a view may be larger than what is viewed. Where no declared supertype
has a wildcard with a lower bound in it, the pattern is viewed only as often as such wildcards are
nested in it, and otherwise becomes smaller; where none has one with an upper bound, the same is
true of the type. Where supertypes have both, pattern and type can grow in turn and the match need
not end. -/

namespace GenericCalls

namespace Ty

/-! ### Nested bounds -/

mutual
/-- How deep wildcards that are bounded on the side `k` are nested in a type. What is in captured
wildcards and in intersections does not count. -/
def nesting (k : WildcardKind) : Ty → Nat
  | .prim _ => 0
  | .array t => nesting k t
  | .cls _ args => nestingAll k args
  | .param _ => 0
  | .wild _ none => 0
  | .wild l (some b) => if l = k then nesting k b + 1 else nesting k b
  | .captured _ _ _ => 0
  | .inter _ => 0
  | .null => 0
  | .unknown => 0
def nestingAll (k : WildcardKind) : List Ty → Nat
  | [] => 0
  | t :: ts => max (nesting k t) (nestingAll k ts)
end

variable {k : WildcardKind}

theorem nestingAll_le_iff {ts : List Ty} {n : Nat} :
    nestingAll k ts ≤ n ↔ ∀ t ∈ ts, nesting k t ≤ n := by
  induction ts with
  | nil => simp [nestingAll]
  | cons t ts ih => rw [nestingAll, Nat.max_le, ih, List.forall_mem_cons]

theorem nesting_le_nestingAll {t : Ty} {ts : List Ty} (h : t ∈ ts) :
    nesting k t ≤ nestingAll k ts := nestingAll_le_iff.1 (Nat.le_refl _) t h

theorem nesting_bound_lt (b : Ty) : nesting k b < nesting k (.wild k (some b)) := by
  rw [nesting, if_pos rfl]
  omega

theorem nesting_bound_le (l : WildcardKind) (b : Ty) :
    nesting k b ≤ nesting k (.wild l (some b)) := by
  rw [nesting]
  split <;> omega

/-! ### Size within patterns -/

/-- The size of a type, where a wildcard with an upper bound counts as one whatever is in it: it is
taken apart only along with an upper bound of the pattern. -/
def innerSize (t : Ty) : Nat :=
  match t.reopen with
  | .wild .upper _ => 1
  | t => t.size

theorem innerSize_le_size (t : Ty) : innerSize t ≤ t.size := by
  unfold innerSize
  split
  · exact size_pos t
  · cases t with
    | captured i k b => cases b <;> exact Nat.le_refl _
    | _ => exact Nat.le_refl _

end Ty

open Ty

/-! ### Nested bounds under substitution -/

namespace Substitution

variable {k : WildcardKind} {f : ParamId → Option Binding} {n : Nat}

theorem nesting_rewrap {l : WildcardKind} (hl : l ≠ k) {b : Option Ty}
    (hb : ∀ t, b = some t → nesting k t ≤ n) : nesting k (rewrap l b) ≤ n := by
  unfold rewrap
  split
  · exact Nat.zero_le n
  · rename_i inner c
    split
    · exact hb _ rfl
    · exact Nat.zero_le n
  · rename_i t _
    rw [nesting, if_neg hl]
    exact hb t rfl

/-- Where a type nests no bounds itself, they are nested as deep as in what is put in. -/
theorem nesting_apply (hf : ∀ p t, f p = some (.bound t) → nesting k t ≤ n) (t : Ty)
    (ht : nesting k t = 0) : ∀ u, apply f t = some u → nesting k u ≤ n := by
  induction t using Ty.induct with
  | array t ih =>
    intro u hu
    obtain ⟨v, hv, rfl⟩ := Option.map_eq_some_iff.1 hu
    exact ih ht v hv
  | cls c args ih =>
    intro u hu
    cases hu
    cases hargs : applyAll f args with
    | none => exact Nat.zero_le n
    | some us =>
      refine nestingAll_le_iff.2 fun u hu => ?_
      obtain ⟨t, htmem, htu⟩ :=
        exists_mem_of_forall₂ (List.Forall₂.flip (applyAll_eq_some_iff.1 hargs)) hu
      have hzero := nestingAll_le_iff.1 (Nat.le_of_eq ht) t htmem
      exact ih t htmem (by omega) u htu
  | param p =>
    intro u hu
    rw [apply] at hu
    split at hu
    · rename_i v hv
      cases hu
      exact hf p _ hv
    · cases hu
    · cases hu
      exact Nat.zero_le n
  | wild l b ih =>
    intro u hu
    cases hu
    rw [nesting] at ht
    split at ht
    · omega
    · rename_i hl
      exact nesting_rewrap hl (ih ht)
  | inter ts _ =>
    intro u hu
    obtain ⟨us, _, rfl⟩ := Option.map_eq_some_iff.1 hu
    exact Nat.zero_le n
  | _ =>
    intro u hu
    cases hu
    exact Nat.zero_le n

end Substitution

namespace Store

variable {s : Store} {target : ParamId} {k : WildcardKind}

/-! ### Views that nest no deeper -/

/-- No declared supertype has a wildcard in it that is bounded on the side `k`. -/
def Without (s : Store) (k : WildcardKind) : Prop :=
  ∀ c d, s.class? c = some d → ∀ t ∈ d.supertypes, nestingAll k t.args = 0

theorem Without.directSupertypes (hs : s.Without k) {n : Nat} {c : ClassTy}
    (hc : nestingAll k c.args ≤ n) : ∀ t ∈ s.directSupertypes c, nestingAll k t.args ≤ n := by
  intro t ht
  cases hd : s.class? c.id with
  | none =>
    simp only [Store.directSupertypes, hd] at ht
    cases ht
  | some d =>
    rw [directSupertypes_eq hd] at ht
    obtain ⟨u, hu, rfl⟩ := List.mem_map.1 ht
    by_cases hbare : c.args = [] ∨ c.args.length ≠ d.params.length
    · rw [superWith_of_bare u hbare]
      exact Nat.zero_le n
    · rw [not_or, not_not] at hbare
      obtain ⟨us, hus, _, hsuper⟩ := superWith_of_args u hbare.1 hbare.2
      rw [hsuper]
      refine nestingAll_le_iff.2 fun v hv => ?_
      obtain ⟨t, ht, htv⟩ :=
        exists_mem_of_forall₂ (List.Forall₂.flip (Substitution.applyAll_eq_some_iff.1 hus)) hv
      refine Substitution.nesting_apply (fun p b hb => ?_) t ?_ v htv
      · obtain ⟨_, b', hb', heq⟩ := Substitution.get?_ofArgs hb
        cases heq
        exact nestingAll_le_iff.1 hc b hb'
      · have hzero := nestingAll_le_iff.1 (Nat.le_of_eq (hs c.id d hd u hu)) t ht
        omega

theorem Without.ancestorArgs (hs : s.Without k) {c : ClassTy} {d : ClassId} {args : List Ty}
    (h : s.ancestorArgs c d = some args) : nestingAll k args ≤ nestingAll k c.args := by
  have hinvariant := ancestorArgs_invariant
    (P := fun t => nestingAll k t.args ≤ nestingAll k c.args)
    (fun t ht => hs.directSupertypes ht) (Nat.le_refl _) h
  rcases hinvariant with ⟨_, rfl⟩ | hargs
  · exact Nat.zero_le _
  · exact hargs

/-! ### Matches that descend -/

/-- Where a measure of pattern and type descends to all that a match asks for, the match ends. -/
theorem ends_of_descent {I : Ty → Prop} {μ : Ty → Ty → Nat ×ₗ Nat}
    (hμ : ∀ pattern arg, I pattern → ∀ p t, s.Asks pattern arg.reopen p t →
      I p ∧ μ p t < μ pattern arg) {pattern arg : Ty} (h : I pattern) :
    s.Ends target pattern arg := by
  induction hn : μ pattern arg using WellFoundedLT.induction generalizing pattern arg with
  | ind n ih =>
    refine ends_of_asks fun p t hasks => ?_
    obtain ⟨hp, hlt⟩ := hμ pattern arg h p t hasks
    exact ih (μ p t) (hn ▸ hlt) hp rfl

/-- Without lower bounds in supertypes, or in the pattern, a match shrinks the pattern, or unnests a
lower bound of it. -/
theorem ends_of_lower {pattern : Ty} (h : s.Without .lower ∨ nesting .lower pattern = 0)
    (arg : Ty) : s.Ends target pattern arg := by
  let μ (pattern _ : Ty) : Nat ×ₗ Nat := toLex (nesting .lower pattern, pattern.size)
  refine ends_of_descent (I := fun pattern => s.Without .lower ∨ nesting .lower pattern = 0)
    (μ := μ) (fun pattern arg hpattern p t hasks => ?_) h
  generalize arg.reopen = arg at hasks
  suffices hle : nesting .lower p ≤ nesting .lower pattern ∧
      (nesting .lower p < nesting .lower pattern ∨ p.size < pattern.size) by
    refine ⟨hpattern.imp_right fun hzero => by omega, Prod.Lex.toLex_lt_toLex.2 ?_⟩
    dsimp only
    omega
  cases hasks with
  | component => exact ⟨Nat.le_refl _, .inr (by simp only [Ty.size]; omega)⟩
  | bound => exact ⟨nesting_bound_le _ _, .inr (by simp only [Ty.size]; omega)⟩
  | boundComponent => exact ⟨nesting_bound_le _ (.array p), .inr (by simp only [Ty.size]; omega)⟩
  | @raised c _ cs _ _ _ _ _ hmem =>
    have hcs := (mem_of_pairArgs hmem).1
    have hsize := size_le_sizeAll hcs
    have hp : nesting .lower p ≤ nesting .lower (.cls c cs) := nesting_le_nestingAll hcs
    exact ⟨hp.trans (nesting_bound_le _ _), .inr (by simp only [Ty.size]; omega)⟩
  | @lowered c _ cs _ lifted _ _ hlift hmem =>
    have hlt := nesting_bound_lt (k := .lower) (.cls c cs)
    have hs : s.Without .lower := hpattern.resolve_right (by omega)
    have hp := nesting_le_nestingAll (k := .lower) (mem_of_pairArgs hmem).1
    have hlifted : nestingAll .lower lifted ≤ nesting .lower (.cls c cs) := hs.ancestorArgs hlift
    exact ⟨by omega, .inl (by omega)⟩
  | arg hmem =>
    have hcs := (mem_of_pairArgs hmem).1
    have hsize := size_le_sizeAll hcs
    exact ⟨nesting_le_nestingAll hcs, .inr (by simp only [Ty.size]; omega)⟩

theorem innerSize_promote (c : ClassId) (i : Nat) (t : Ty) :
    innerSize (s.promote c i t) ≤ t.size := by
  unfold promote
  split
  · dsimp only
    split
    · split
      · exact innerSize_le_size _
      · exact size_pos _
    · exact innerSize_le_size _
  · exact innerSize_le_size t

/-- Without upper bounds in supertypes, a match unnests an upper bound of the pattern, or shrinks
the type. -/
theorem ends_of_upper (hs : s.Without .upper) (pattern arg : Ty) : s.Ends target pattern arg := by
  let μ (pattern arg : Ty) : Nat ×ₗ Nat := toLex (nesting .upper pattern, innerSize arg)
  refine ends_of_descent (I := fun _ => True) (μ := μ) (fun pattern arg _ p t hasks => ?_) trivial
  suffices hle : nesting .upper p ≤ nesting .upper pattern ∧
      (nesting .upper p < nesting .upper pattern ∨ innerSize t < innerSize arg) by
    refine ⟨trivial, Prod.Lex.toLex_lt_toLex.2 ?_⟩
    dsimp only
    omega
  have hsame : innerSize arg = innerSize arg.reopen := by cases arg <;> rfl
  rw [hsame]
  generalize arg.reopen = arg at hasks
  cases hasks with
  | component =>
    have ht := innerSize_le_size t
    exact ⟨Nat.le_refl _, .inr (Nat.lt_succ_of_le ht)⟩
  | @bound k =>
    cases k with
    | upper => exact ⟨nesting_bound_le _ p, .inl (nesting_bound_lt p)⟩
    | lower =>
      have ht := innerSize_le_size t
      exact ⟨nesting_bound_le _ p, .inr (Nat.lt_succ_of_le ht)⟩
  | boundComponent =>
    have ht := innerSize_le_size t
    exact ⟨nesting_bound_le _ (.array p), .inr (Nat.lt_succ_of_le ht)⟩
  | @raised c _ cs _ _ _ _ _ hmem =>
    have hlt := nesting_bound_lt (k := .upper) (.cls c cs)
    have hp : nesting .upper p ≤ nesting .upper (.cls c cs) :=
      nesting_le_nestingAll (mem_of_pairArgs hmem).1
    exact ⟨by omega, .inl (by omega)⟩
  | @lowered c _ cs ds lifted _ _ hlift hmem =>
    obtain ⟨hpmem, htmem⟩ := mem_of_pairArgs hmem
    have hp := nesting_le_nestingAll (k := .upper) hpmem
    have hlifted : nestingAll .upper lifted ≤ nesting .upper (.cls c cs) := hs.ancestorArgs hlift
    have hbound := nesting_bound_le (k := .upper) .lower (.cls c cs)
    have ht := (innerSize_le_size t).trans (size_le_sizeAll htmem)
    exact ⟨by omega, .inr (Nat.lt_succ_of_le ht)⟩
  | @arg c cs ds _ _ hmem =>
    obtain ⟨hpmem, htmem⟩ := mem_of_pairArgs hmem
    obtain ⟨i, hi, rfl⟩ := List.mem_mapIdx.1 htmem
    have ht := (s.innerSize_promote c i ds[i]).trans (size_le_sizeAll (List.getElem_mem hi))
    exact ⟨nesting_le_nestingAll hpmem, .inr (Nat.lt_succ_of_le ht)⟩

/-! ### Termination -/

/-- Where no supertype has a lower bound in it, or none an upper one, or the pattern has no lower
bound in it, some budget suffices for the match of a pattern against a type, and every larger one
gives the same outcome. -/
theorem matchWithin_settles (target : ParamId) (pattern arg : Ty) (bearing : Bearing) (depth : Nat)
    (h : s.Without .lower ∨ s.Without .upper ∨ nesting .lower pattern = 0) :
    ∃ n r, ∀ m, n ≤ m → s.matchWithin target m pattern arg bearing depth = some r := by
  have hends : s.Ends target pattern arg := by
    rcases h with hlower | hupper | hpattern
    · exact ends_of_lower (.inl hlower) arg
    · exact ends_of_upper hupper pattern arg
    · exact ends_of_lower (.inr hpattern) arg
  obtain ⟨n, hn⟩ := hends bearing depth
  obtain ⟨r, hr⟩ := Option.isSome_iff_exists.1 hn
  exact ⟨n, r, fun m hm => matchWithin_mono hm bearing depth pattern arg r hr⟩

/-- The built-in classes with a class `Source<A>`, a class `Cell<C>`, and a class `Grow<X>` that
inherits from `Source<Cell<? extends Grow<Cell<X>>>>`. -/
def growing : Store :=
  let (s, source) := standard.declareClass "Source" .interface
  let (s, _) := s.declareParam "A" (.cls source)
  let (s, cell) := s.declareClass "Cell" .concrete
  let (s, _) := s.declareParam "C" (.cls cell)
  let (s, grow) := s.declareClass "Grow" .concrete
  let (s, x) := s.declareParam "X" (.cls grow)
  s.addSupertype grow ⟨source, [.cls cell [.extending (.cls grow [.cls cell [.param x]])]]⟩

theorem matchWithin_settles_growing :
    (growing.Without .lower ∨ growing.Without .upper ∨ nesting .lower (.param 14) = 0) ∧
      ∃ n r, ∀ m, n ≤ m →
        growing.matchWithin 14 m (.above (.cls 17 [.param 14]))
          (.cls 13 [.cls 15 [.extending (.cls 17 [.cls 15 [.raw 4]])]]) .atLeast 0 = some r := by
  have hwithout : growing.Without .lower := forall_supertypes (by decide +kernel)
  exact ⟨.inl hwithout, matchWithin_settles 14 _ _ .atLeast 0 (.inl hwithout)⟩

/-! ### A match without end -/

/-- The built-in classes with interfaces `Source<A>` and `Sink<B>`, classes `Cell<C>` and
`Pair<D, E>`, a class `Pull<X>` that inherits from `Source<Cell<? extends Sink<? super Pull<X>>>>`,
a class `Push<Y>` that inherits from `Sink<Source<Cell<Push<Y>>>>`, and a method `<T> m()`. -/
def pullPush : Store :=
  let (s, source) := standard.declareClass "Source" .interface
  let (s, _) := s.declareParam "A" (.cls source)
  let (s, sink) := s.declareClass "Sink" .interface
  let (s, _) := s.declareParam "B" (.cls sink)
  let (s, cell) := s.declareClass "Cell" .concrete
  let (s, _) := s.declareParam "C" (.cls cell)
  let (s, pair) := s.declareClass "Pair" .concrete
  let (s, _) := s.declareParam "D" (.cls pair)
  let (s, _) := s.declareParam "E" (.cls pair)
  let (s, pull) := s.declareClass "Pull" .concrete
  let (s, x) := s.declareParam "X" (.cls pull)
  let (s, push) := s.declareClass "Push" .concrete
  let (s, y) := s.declareParam "Y" (.cls push)
  let s := s.addSupertype pull
    ⟨source, [.cls cell [.extending (.cls sink [.above (.cls pull [.param x])])]]⟩
  let s := s.addSupertype push ⟨sink, [.cls source [.cls cell [.cls push [.param y]]]]⟩
  let (s, m) := s.declareMethod "m" .method none
  (s.declareParam "T" (.method m)).1

def abovePull : Ty := .above (.cls 22 [.raw 4])

def pushSource : Ty := .cls 13 [.cls 17 [.cls 24 [.raw 4]]]

/-- The pattern comes back after three steps: as a bound seen at `Source`, as the type argument of
`Cell` there, and as the type argument with which `Push` is seen at `Sink`. -/
theorem matchWithin_abovePull (target : ParamId) (n : Nat) (bearing : Bearing) (depth : Nat) :
    let pulled : Ty := .extending (.cls 15 [abovePull])
    let pushed : Ty := .cls 24 [.raw 4]
    pullPush.matchWithin target n abovePull pushSource bearing depth = none ∧
      pullPush.matchWithin target n (.cls 17 [pulled]) (.cls 17 [pushed]) bearing depth = none ∧
      pullPush.matchWithin target n pulled pushed bearing depth = none := by
  intro pulled pushed
  induction n generalizing bearing depth with
  | zero => exact ⟨rfl, rfl, rfl⟩
  | succ n ih =>
    let go (p t : Ty) : Option MatchResult :=
      pullPush.matchWithin target n p t .exactly (depth + 1)
    obtain ⟨hbelow, harg, habove⟩ := ih .exactly (depth + 1)
    refine ⟨?_, ?_, ?_⟩
    · show matchBoundArgs go [(.cls 17 [pulled], .cls 17 [pushed])] = none
      rw [matchBoundArgs, List.mapM_cons, show go _ _ = none from harg]
      rfl
    · show matchArgs go none [(pulled, pushed)] = none
      rw [matchArgs, show go _ _ = none from habove]
    · show matchBoundArgs go [(abovePull, pushSource)] = none
      rw [matchBoundArgs, List.mapM_cons, show go _ _ = none from hbelow]
      rfl

/-- No budget suffices to match `Pair<? super Pull<String>, T>` against
`Pair<Source<Cell<Push<String>>>, Integer>`. -/
theorem not_matchWithin_pullPush :
    ¬∃ n, (pullPush.matchWithin 27 n (.cls 19 [abovePull, .param 27])
      (.cls 19 [pushSource, .raw 9]) .atLeast 0).isSome = true := by
  rintro ⟨n, hn⟩
  cases n with
  | zero => cases hn
  | succ n =>
    have hnone : pullPush.matchWithin 27 (n + 1) (.cls 19 [abovePull, .param 27])
        (.cls 19 [pushSource, .raw 9]) .atLeast 0 = none := by
      show matchArgs (fun p t => pullPush.matchWithin 27 n p t .exactly 1) none
        [(abovePull, pushSource), (.param 27, .raw 9)] = none
      rw [matchArgs, (matchWithin_abovePull 27 n .exactly 1).1]
    rw [hnone] at hn
    cases hn

end Store

end GenericCalls
