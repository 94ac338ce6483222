import GenericCalls.Proofs.Inference.Answers
import GenericCalls.Proofs.Inference.Joins
import GenericCalls.Proofs.Store.Views

/-! # One sweep over open parameters

The open type parameters are visited once, from first to last. Each is answered from what the bounds
of its siblings say, with the types that are known when it is visited: those known at first, and the
answers to parameters before it. Nothing that is known is ever changed. -/

namespace GenericCalls.Store

variable {s : Store} {given : Substitution} {params : List ParamId} {known : List (Option Ty)}
  {i j k : Nat} {p : ParamId} {a : Option Ty}

/-! ### What siblings say -/

/-- The bounds of the parameter in place `j`, as the given bindings leave them, each with the type
of that parameter. There are none if its type is not known, or if `j` is the place `i` of the
parameter that is asked for. A bound that the given bindings erase is left out. -/
def boundsAt (s : Store) (given : Substitution) (params : List ParamId) (known : List (Option Ty))
    (i j : Nat) : List (Ty × Ty) :=
  match params[j]?, known[j]? with
  | some q, some (some t) =>
    if j = i then [] else (s.bounds q).filterMap fun b => (given.substitute b).map (·, t)
  | _, _ => []

/-- What siblings say about the parameter `p` in place `i`, place by place and bound by bound. -/
def toldBySiblings (s : Store) (given : Substitution) (params : List ParamId)
    (known : List (Option Ty)) (i : Nat) (p : ParamId) : List MatchResult :=
  (List.range params.length).flatMap fun j =>
    (s.boundsAt given params known i j).map fun (bound, t) => s.constrain p .intoFormal bound t

theorem siblingBounds_eq (hlength : known.length = params.length) :
    s.siblingBounds given params known i =
      (List.range params.length).flatMap (s.boundsAt given params known i) := by
  unfold siblingBounds
  rw [List.flatMap_def, List.flatMap_def]
  refine congrArg List.flatten (List.ext_getElem (by simp [hlength]) fun j hj hj' => ?_)
  have hp : j < params.length := by simpa using hj'
  have hk : j < known.length := hlength ▸ hp
  cases hknown : known[j] <;> simp [boundsAt, hp, hk, hknown]

theorem leadTo_toldBySiblings_iff (hlength : known.length = params.length) :
    s.LeadTo .atLeast (s.toldBySiblings given params known i p) a ↔
      a = s.fromSiblings given params known i p := by
  have htold : s.toldBySiblings given params known i p =
      (s.siblingBounds given params known i).map fun (bound, t) =>
        s.constrain p .intoFormal bound t := by
    rw [siblingBounds_eq hlength, List.map_flatMap]
    rfl
  rw [leadTo_iff, ← map_filter_bearing, htold, List.filterMap_map, fromSiblings_eq]
  rfl

/-! ### One visit -/

/-- What is known after a visit to the parameter `p` in place `i`. -/
def visit (s : Store) (given : Substitution) (params : List ParamId) (known : List (Option Ty))
    (i : Nat) (p : ParamId) : List (Option Ty) :=
  match known[i]? with
  | some none => known.set i (s.fromSiblings given params known i p)
  | _ => known

theorem reconcileFrom_cons (rest : List (ParamId × Nat)) :
    s.reconcileFrom given params ((p, i) :: rest) known =
      s.reconcileFrom given params rest (s.visit given params known i p) := by
  unfold visit
  rw [reconcileFrom]
  split <;> simp_all

theorem length_visit : (s.visit given params known i p).length = known.length := by
  unfold visit
  split
  · exact List.length_set
  · rfl

theorem take_visit : (s.visit given params known i p).take i = known.take i := by
  unfold visit
  split
  · exact List.take_set_of_le (Nat.le_refl i)
  · rfl

theorem drop_visit (h : i < j) : (s.visit given params known i p).drop j = known.drop j := by
  unfold visit
  split
  · exact List.drop_set_of_lt h
  · rfl

theorem getElem?_visit (h : known[i]? = some none) :
    (s.visit given params known i p)[i]? = some (s.fromSiblings given params known i p) := by
  have hi : i < known.length := (List.getElem?_eq_some_iff.1 h).1
  unfold visit
  rw [h]
  simp [hi]

/-! ### The whole sweep -/

/-- A sweep from place `k` on leaves the places before as they are. It answers each open parameter
from what is known when it is visited. -/
theorem reconcileFrom_visits (s : Store) (given : Substitution) (params : List ParamId)
    {rest : List ParamId} (hlength : known.length = k + rest.length) :
    (s.reconcileFrom given params (rest.zipIdx k) known).take k = known.take k ∧
      ∀ j p, rest[j]? = some p → known[k + j]? = some none →
        (s.reconcileFrom given params (rest.zipIdx k) known)[k + j]? =
          some (s.fromSiblings given params
            ((s.reconcileFrom given params (rest.zipIdx k) known).take (k + j) ++
              known.drop (k + j)) (k + j) p) := by
  induction rest generalizing k known with
  | nil => exact ⟨rfl, nofun⟩
  | cons q rest ih =>
    rw [List.zipIdx_cons, reconcileFrom_cons]
    have hnext : (s.visit given params known k q).length = k + 1 + rest.length := by
      rw [length_visit, hlength, List.length_cons]
      omega
    obtain ⟨htake, hvisits⟩ := ih hnext
    generalize s.reconcileFrom given params (rest.zipIdx (k + 1))
      (s.visit given params known k q) = out at htake hvisits ⊢
    have hbefore : out.take k = known.take k := by
      have h := congrArg (List.take k) htake
      rwa [List.take_take, List.take_take, Nat.min_eq_left (Nat.le_succ k), take_visit] at h
    refine ⟨hbefore, fun j p hp hopen => ?_⟩
    cases j with
    | zero =>
      obtain rfl : q = p := Option.some.inj hp
      have hk : out[k]? = (s.visit given params known k q)[k]? := by
        rw [← List.getElem?_take_of_lt (Nat.lt_succ_self k), htake,
          List.getElem?_take_of_lt (Nat.lt_succ_self k)]
      rw [Nat.add_zero] at hopen ⊢
      rw [hk, getElem?_visit hopen, hbefore, List.take_append_drop]
    | succ j =>
      -- Places behind `k` are as before the visit to it.
      have hplace : k + 1 + j = k + (j + 1) := by omega
      have hdrop : (s.visit given params known k q).drop (k + (j + 1)) =
          known.drop (k + (j + 1)) := drop_visit (by omega)
      have hsame : (s.visit given params known k q)[k + (j + 1)]? = known[k + (j + 1)]? := by
        rw [← List.head?_drop, hdrop, List.head?_drop]
      have hj := hvisits j p hp
      rw [hplace, hsame, hdrop] at hj
      exact hj hopen

/-- The siblings' types are completed in one sweep, which keeps all that is known. Each open
parameter is answered from what is known at its turn: the answers to parameters before it, and what
was known at first of itself and of those behind it. The answer is the type that the bounds of its
siblings first equate it with, also if the join of its lower bounds breaks down; or else this join,
from left to right, if every step is defined; or else none. Only equations and lower bounds count.
-/
theorem reconciled_in_one_sweep (s : Store) (given : Substitution) (params : List ParamId)
    (known : List (Option Ty)) (hlength : known.length = params.length) :
    let out := s.reconcile given params known
    out.length = params.length ∧
    (∀ (i : Nat) t, known[i]? = some (some t) → out[i]? = some (some t)) ∧
    ∀ (i : Nat) p, params[i]? = some p → known[i]? = some none →
      let told := s.toldBySiblings given params (out.take i ++ known.drop i) i p
      ∀ a, (out[i]? = some a ↔ s.LeadTo .atLeast told a) ∧
        (s.LeadTo .atLeast told a ↔
          s.LeadTo .atLeast (told.filter (MatchResult.counts .atLeast)) a) := by
  have hplaces : known.length = 0 + params.length := by omega
  obtain ⟨-, hvisits⟩ := reconcileFrom_visits s given params hplaces
  refine ⟨?_, fun i t ht => Engine.getElem?_reconcileFrom ht, fun i p hp hopen => ?_⟩
  · rw [reconcile, length_reconcileFrom, hlength]
  · intro told a
    refine ⟨?_, leadTo_filter_counts_iff.symm⟩
    have hvisit := hvisits i p hp (by rwa [Nat.zero_add])
    rw [Nat.zero_add] at hvisit
    have hseen : ((s.reconcile given params known).take i ++ known.drop i).length =
        params.length := by
      rw [List.length_append, List.length_take, List.length_drop, reconcile, length_reconcileFrom,
        hlength]
      omega
    rw [leadTo_toldBySiblings_iff hseen, reconcile, hvisit, Option.some.injEq, eq_comm]

/-- The classes of `lists` and a method `rows` with parameters `B extends List<A>`, `A` and
`C extends List<B>`. -/
def rows : Store :=
  let (s, m) := lists.declareMethod "rows" .method none
  let (s, b) := s.declareParam "B" (.method m)
  let (s, a) := s.declareParam "A" (.method m)
  let (s, c) := s.declareParam "C" (.method m)
  (s.setBounds b [.cls 13 [.param a]]).setBounds c [.cls 13 [.param b]]

/-- From `C`, which is an `ArrayList<ArrayList<String>>`, follows `B`, and then `A` from `B`. If `A`
is visited before `B`, it stays open. -/
theorem reconciled_in_one_sweep_rows :
    let known : List (Option Ty) := [none, none, some (.cls 16 [.cls 16 [.raw 4]])]
    known.length = [19, 20, 21].length ∧
    (rows.reconcile .empty [19, 20, 21] known)[0]? = some (some (.cls 16 [.raw 4])) ∧
    rows.LeadTo .atLeast
      (rows.toldBySiblings .empty [19, 20, 21] (some (.cls 16 [.raw 4]) :: known.drop 1) 1 20)
      (some (.raw 4)) ∧
    rows.LeadTo .atLeast (rows.toldBySiblings .empty [20, 19, 21] known 0 20) none := by
  intro known
  obtain ⟨-, -, hrows⟩ := reconciled_in_one_sweep rows .empty [19, 20, 21] known rfl
  obtain ⟨-, -, hlater⟩ := reconciled_in_one_sweep rows .empty [20, 19, 21] known rfl
  exact ⟨rfl, rfl, (hrows 1 20 rfl rfl _).1.1 rfl, (hlater 0 20 rfl rfl _).1.1 rfl⟩

end GenericCalls.Store
