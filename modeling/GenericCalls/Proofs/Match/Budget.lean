import GenericCalls.Match.Basic
import GenericCalls.Proofs.Assignable.Rules

/-! # The budget of a match

Matching two types asks for the match of some of their parts, as they are or as seen at another
class. A match that ends within some budget has the same outcome within every larger one, and it
ends as soon as all the matches end for which it asks. -/

namespace GenericCalls.Store

variable {s : Store} {target : ParamId} {r : MatchResult}

/-! ### Larger budgets -/

/-- One computation answers wherever another one does, and answers the same. -/
def Extends (go go' : Ty → Ty → Option MatchResult) : Prop :=
  ∀ p t r, go p t = some r → go' p t = some r

section
variable {go go' : Ty → Ty → Option MatchResult} {pairs : List (Ty × Ty)}

theorem matchArgs_mono (hgo : Extends go go') {captured : Option Constraint}
    (h : matchArgs go captured pairs = some r) : matchArgs go' captured pairs = some r := by
  induction pairs generalizing captured with
  | nil => exact h
  | cons p pairs ih =>
    obtain ⟨p, t⟩ := p
    rw [matchArgs] at h ⊢
    cases hpt : go p t with
    | none =>
      rw [hpt] at h
      cases h
    | some first =>
      rw [hpt] at h
      rw [hgo p t first hpt]
      revert h
      cases first with
      | noInfo => exact ih
      | found c =>
        dsimp only
        split
        · cases captured with
          | none => exact ih
          | some _ => exact id
        · exact id
      | _ => exact id

theorem matchBoundArgs_mono (hgo : Extends go go') (h : matchBoundArgs go pairs = some r) :
    matchBoundArgs go' pairs = some r := by
  obtain ⟨results, hresults, rfl⟩ := Option.map_eq_some_iff.1 h
  have hpairs : pairs.mapM (fun p => go' p.1 p.2) = some results := by
    clear h
    induction pairs generalizing results with
    | nil => exact hresults
    | cons p pairs ih =>
      rw [List.mapM_cons] at hresults ⊢
      obtain ⟨first, hfirst, hrest⟩ := Option.bind_eq_some_iff.1 hresults
      obtain ⟨rest, hrest, heq⟩ := Option.bind_eq_some_iff.1 hrest
      rw [hgo _ _ _ hfirst, Option.bind_eq_bind, Option.bind_some, ih rest hrest]
      exact heq
  rw [matchBoundArgs, hpairs]
  rfl

theorem matchClass_mono (hgo : Extends go go') {pattern arg : ClassTy}
    (h : s.matchClass target go pattern arg = some r) :
    s.matchClass target go' pattern arg = some r := by
  revert h
  unfold matchClass
  split
  · exact id
  · exact matchArgs_mono hgo

end

theorem matchBound_mono {go go' : Ty → Ty → Bearing → Option MatchResult}
    {deeper deeper' : Ty → Ty → Option MatchResult} (hgo : ∀ b, Extends (go · · b) (go' · · b))
    (hdeeper : Extends deeper deeper') {kind : WildcardKind} {bound arg : Ty}
    (h : s.matchBound target go deeper kind bound arg = some r) :
    s.matchBound target go' deeper' kind bound arg = some r := by
  revert h
  unfold matchBound
  dsimp only
  split
  · split
    · split
      · exact hgo _ _ _ _
      · exact id
    · exact id
  · split
    · exact hgo _ _ _ _
    · split
      · exact hgo _ _ _ _
      · split
        · exact matchBoundArgs_mono hdeeper
        · exact id
      · exact id

theorem matchStep_mono {go go' : Ty → Ty → Bearing → Nat → Option MatchResult}
    (hgo : ∀ b d, Extends (go · · b d) (go' · · b d)) (bearing : Bearing) (depth : Nat) :
    Extends (s.matchStep target go · · bearing depth)
      (s.matchStep target go' · · bearing depth) := by
  intro pattern arg r
  dsimp only [matchStep]
  split
  · exact id
  · split
    · exact hgo _ _ _ _ _
    · exact id
    · exact matchBound_mono (fun b => hgo b depth) (hgo _ _)
    · split
      · exact matchClass_mono (hgo _ _)
      · exact id
    · exact id

/-- A match that ends has the same outcome within every larger budget. -/
theorem matchWithin_mono {n m : Nat} (hnm : n ≤ m) (bearing : Bearing) (depth : Nat) :
    Extends (s.matchWithin target n · · bearing depth)
      (s.matchWithin target m · · bearing depth) := by
  induction n generalizing m bearing depth with
  | zero =>
    intro _ _ _ h
    cases h
  | succ n ih =>
    obtain ⟨m, rfl⟩ : ∃ k, m = k + 1 := ⟨m - 1, by omega⟩
    exact matchStep_mono (fun b d => ih (by omega) b d) bearing depth

/-! ### What a match asks for -/

/-- Matching a pattern against a type, not a captured wildcard, asks for the match of a part of the
one, or of its view at the class of the other, with a part of the other. -/
inductive Asks (s : Store) : Ty → Ty → Ty → Ty → Prop where
  | component {p t : Ty} : Asks s (.array p) (.array t) p t
  | bound {k : WildcardKind} {p t : Ty} : Asks s (.wild k (some p)) (.wild k (some t)) p t
  | boundComponent {k : WildcardKind} {p t : Ty} :
      Asks s (.wild k (some (.array p))) (.array t) p t
  | raised {c d : ClassId} {cs ds lifted : List Ty} {p t : Ty}
      (hlift : s.ancestorArgs ⟨d, ds⟩ c = some lifted) (hmem : (p, t) ∈ pairArgs cs lifted) :
      Asks s (.wild .upper (some (.cls c cs))) (.cls d ds) p t
  | lowered {c d : ClassId} {cs ds lifted : List Ty} {p t : Ty}
      (hlift : s.ancestorArgs ⟨c, cs⟩ d = some lifted) (hmem : (p, t) ∈ pairArgs lifted ds) :
      Asks s (.wild .lower (some (.cls c cs))) (.cls d ds) p t
  | arg {c : ClassId} {cs ds : List Ty} {p t : Ty}
      (hmem : (p, t) ∈ pairArgs cs (s.promoteAll ⟨c, ds⟩)) : Asks s (.cls c cs) (.cls c ds) p t

/-- Matching a pattern against a type ends, whatever the bearing and the depth. -/
def Ends (s : Store) (target : ParamId) (pattern arg : Ty) : Prop :=
  ∀ bearing depth, ∃ n, (s.matchWithin target n pattern arg bearing depth).isSome = true

/-! ### Matches that end -/

theorem matchWithin_of_isParam {pattern : Ty} (h : pattern.isParam target = true) (n : Nat)
    (arg : Ty) (bearing : Bearing) (depth : Nat) :
    (s.matchWithin target (n + 1) pattern arg bearing depth).isSome = true := by
  simp only [matchWithin, matchStep, if_pos h]
  split
  · rfl
  · split <;> rfl

theorem exists_matchWithin {pairs : List (Ty × Ty)} (h : ∀ x ∈ pairs, s.Ends target x.1 x.2)
    (bearing : Bearing) (depth : Nat) :
    ∃ n, ∀ x ∈ pairs, (s.matchWithin target n x.1 x.2 bearing depth).isSome = true := by
  refine exists_budget pairs (fun m n x hx hmn => ?_) fun x hx => h x hx bearing depth
  obtain ⟨r, hr⟩ := Option.isSome_iff_exists.1 hx
  exact Option.isSome_iff_exists.2 ⟨r, matchWithin_mono hmn bearing depth _ _ r hr⟩

section
variable {go : Ty → Ty → Option MatchResult} {pairs : List (Ty × Ty)}

theorem matchArgs_isSome (h : ∀ x ∈ pairs, (go x.1 x.2).isSome = true)
    (captured : Option Constraint) : (matchArgs go captured pairs).isSome = true := by
  induction pairs generalizing captured with
  | nil => rfl
  | cons x pairs ih =>
    obtain ⟨hx, hpairs⟩ := List.forall_mem_cons.1 h
    obtain ⟨first, hfirst⟩ := Option.isSome_iff_exists.1 hx
    rw [matchArgs, hfirst]
    cases first with
    | noInfo => exact ih hpairs captured
    | found c =>
      dsimp only
      split
      · cases captured with
        | none => exact ih hpairs (some c)
        | some _ => rfl
      · rfl
    | _ => rfl

theorem matchBoundArgs_isSome (h : ∀ x ∈ pairs, (go x.1 x.2).isSome = true) :
    (matchBoundArgs go pairs).isSome = true := by
  rw [matchBoundArgs, Option.isSome_map]
  induction pairs with
  | nil => rfl
  | cons x pairs ih =>
    obtain ⟨hx, hpairs⟩ := List.forall_mem_cons.1 h
    obtain ⟨first, hfirst⟩ := Option.isSome_iff_exists.1 hx
    obtain ⟨rest, hrest⟩ := Option.isSome_iff_exists.1 (ih hpairs)
    rw [List.mapM_cons, hfirst, hrest]
    rfl

end

/-- If the bound is the target, it is matched at once, and no other part is. -/
theorem matchBound_isSome_of_isParam {bound : Ty} (htarget : bound.isParam target = true)
    {deeper : Ty → Ty → Option MatchResult} (kind : WildcardKind) (arg : Ty) (depth : Nat) :
    (s.matchBound target (s.matchWithin target 1 · · · depth) deeper kind bound arg).isSome =
      true := by
  unfold matchBound
  dsimp only
  split
  · split
    · split
      · exact matchWithin_of_isParam htarget 0 _ _ _
      · rfl
    · rfl
  · rw [if_pos htarget]
    exact matchWithin_of_isParam htarget 0 _ _ _

theorem exists_matchBoundArgs {pairs? : Option (List (Ty × Ty))} (depth : Nat)
    (h : ∀ pairs, pairs? = some pairs → ∀ x ∈ pairs, s.Ends target x.1 x.2) :
    ∃ n, (match pairs? with
      | some pairs => matchBoundArgs (s.matchWithin target n · · .exactly (depth + 1)) pairs
      | none => some .noInfo).isSome = true := by
  cases pairs? with
  | none => exact ⟨0, rfl⟩
  | some pairs =>
    obtain ⟨n, hn⟩ := exists_matchWithin (h pairs rfl) .exactly (depth + 1)
    exact ⟨n, matchBoundArgs_isSome hn⟩

theorem matchBound_isSome {kind : WildcardKind} {bound arg : Ty} (depth : Nat)
    (h : ∀ p t, s.Asks (.wild kind (some bound)) arg p t → s.Ends target p t) :
    ∃ n, (s.matchBound target (s.matchWithin target n · · · depth)
      (s.matchWithin target n · · .exactly (depth + 1)) kind bound arg).isSome = true := by
  by_cases htarget : bound.isParam target = true
  · exact ⟨1, matchBound_isSome_of_isParam htarget kind arg depth⟩
  · cases arg with
    | wild k b =>
      by_cases hk : k = kind
      · subst hk
        cases b with
        | none => exact ⟨0, by simp only [matchBound, if_true, Option.isSome_some]⟩
        | some b =>
          simp only [matchBound, if_true]
          exact h bound b .bound _ depth
      · exact ⟨0, by simp only [matchBound, if_neg hk, Option.isSome_some]⟩
    | array t =>
      cases bound with
      | array b =>
        simp only [matchBound, if_neg htarget]
        exact h b t .boundComponent _ depth
      | _ => exact ⟨0, by simp only [matchBound, if_neg htarget, Option.isSome_some]⟩
    | cls d ds =>
      cases bound with
      | cls c cs =>
        simp only [matchBound, if_neg htarget]
        refine exists_matchBoundArgs depth fun pairs hpairs x hx => ?_
        cases kind with
        | upper =>
          obtain ⟨lifted, hlift, rfl⟩ := Option.map_eq_some_iff.1 hpairs
          exact h x.1 x.2 (.raised hlift hx)
        | lower =>
          obtain ⟨lifted, hlift, rfl⟩ := Option.map_eq_some_iff.1 hpairs
          exact h x.1 x.2 (.lowered hlift hx)
      | _ => exact ⟨0, by simp only [matchBound, if_neg htarget, Option.isSome_some]⟩
    | _ =>
      refine ⟨0, ?_⟩
      simp only [matchBound, if_neg htarget]
      cases bound <;> rfl

theorem ends_of_asks {pattern arg : Ty}
    (h : ∀ p t, s.Asks pattern arg.reopen p t → s.Ends target p t) : s.Ends target pattern arg := by
  intro bearing depth
  suffices hstep : ∃ n, (s.matchStep target (s.matchWithin target n) pattern arg bearing
      depth).isSome = true by
    obtain ⟨n, hn⟩ := hstep
    exact ⟨n + 1, hn⟩
  by_cases htarget : pattern.isParam target = true
  · exact ⟨0, matchWithin_of_isParam htarget 0 arg bearing depth⟩
  · dsimp only [matchStep]
    simp only [if_neg htarget]
    generalize arg.reopen = arg at h
    cases pattern with
    | array p =>
      cases arg with
      | array t => exact h p t .component bearing depth
      | _ => exact ⟨0, rfl⟩
    | wild k b =>
      cases b with
      | none => exact ⟨0, rfl⟩
      | some b => exact matchBound_isSome depth h
    | cls c cs =>
      cases arg with
      | cls d ds =>
        by_cases hc : c = d
        · subst hc
          obtain ⟨n, hn⟩ :=
            exists_matchWithin (fun x hx => h x.1 x.2 (.arg hx)) .exactly (depth + 1)
          refine ⟨n, ?_⟩
          simp only [if_true, matchClass]
          split
          · rfl
          · exact matchArgs_isSome hn none
        · exact ⟨0, by simp only [if_neg hc, Option.isSome_some]⟩
      | _ => exact ⟨0, rfl⟩
    | _ => exact ⟨0, rfl⟩

end GenericCalls.Store
