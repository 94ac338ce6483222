import GenericCalls.Substitution

/-! # Rankings of candidates

The result of ranking the candidates of a call: each with its inferred substitution, the phase in
which it applies to the arguments, and whether it may be accessed. Candidates that share access and
phase form a tier; the ranking keeps their order and never picks a winner among them. -/

namespace GenericCalls

/-- The phase in which a candidate applies: without boxing, with boxing, or by passing the
components of its last formal one by one. -/
inductive Phase where
  | exact | boxing | variadic | inapplicable
deriving DecidableEq, Repr, Inhabited

def Phase.isApplicable : Phase → Bool
  | .inapplicable => false
  | _ => true

/-- The tier of a candidate: whether it may be accessed, and its phase. -/
structure Tier where
  accessible : Bool
  phase : Phase
deriving DecidableEq, Repr, Inhabited

/-- All tiers, best first: accessible ones before others, then by phase. -/
def Tier.all : List Tier :=
  [true, false].flatMap fun a => [Phase.exact, .boxing, .variadic, .inapplicable].map (⟨a, ·⟩)

theorem Tier.mem_all (t : Tier) : t ∈ Tier.all := by
  obtain ⟨a, p⟩ := t
  cases a <;> cases p <;> decide

structure Candidate where
  method : MethodId
  substitution : Substitution
  phase : Phase
  accessible : Bool
deriving Inhabited

def Candidate.tier (c : Candidate) : Tier := ⟨c.accessible, c.phase⟩

def sortByTier (cs : List Candidate) : List Candidate :=
  Tier.all.flatMap fun t => cs.filter fun c => c.tier == t

theorem mem_sortByTier {c : Candidate} {cs : List Candidate} : c ∈ sortByTier cs ↔ c ∈ cs := by
  simp [sortByTier, Tier.mem_all]

structure Resolution where
  call : CallId
  candidates : List Candidate
deriving Inhabited

namespace Resolution

/-- The candidates of the leading tier, if they apply. -/
def best (r : Resolution) : List Candidate :=
  match r.candidates with
  | [] => []
  | c :: _ =>
    if c.phase.isApplicable then r.candidates.takeWhile fun d => d.tier == c.tier else []

def isAmbiguous (r : Resolution) : Bool := decide (1 < r.best.length)

def uniqueBest? (r : Resolution) : Option Candidate :=
  match r.best with
  | [c] => if c.accessible then some c else none
  | _ => none

def applicable (r : Resolution) : List Candidate :=
  r.candidates.filter fun c => c.phase.isApplicable

end Resolution

/-- Why the candidates of a call cannot be ranked: a call or a method is not known. -/
inductive RankError where
  | unknownMethod (id : MethodId)
  | unknownCall (id : CallId)
deriving DecidableEq, Repr, Inhabited

def RankError.message : RankError → String
  | unknownMethod id => s!"unknown method #{id}"
  | unknownCall id => s!"unknown call #{id}"

/-- A ranking, or the reason why there is none. -/
abbrev Ranked := Except RankError Resolution

end GenericCalls
