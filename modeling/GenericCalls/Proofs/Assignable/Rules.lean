import GenericCalls.Assignable
import GenericCalls.Proofs.Ty.Order

/-! # The rules of assignability

One check of assignability succeeds by one of some rules, each of which rests on checks of parts.
Types accept one another when some limit on the nesting of checks is high enough for a check to
succeed; then all higher ones are, and accepting obeys the rules without any limit. -/

namespace GenericCalls

/-- Whether a type is checked as a target against the bounds of a source, and not taken apart. -/
def Ty.isPlain : Ty → Bool
  | .array _ | .cls _ _ | .param _ | .captured _ _ _ => true
  | _ => false

inductive Demand where
  | never
  | always
  | check (target source : Ty)

namespace Store

/-- What decides whether the type argument `arg` falls under the type argument `want`. -/
def demand (s : Store) (want arg : Ty) : Demand :=
  match want with
  | .wild _ none => .always
  | .wild .upper (some bound) =>
    match arg.openWildcard? with
    | some w =>
      match w.extendsBound? with
      | some b => .check bound b
      | none => if s.isObject bound then .always else .never
    | none => .check bound arg
  | .wild .lower (some bound) =>
    match arg.openWildcard? with
    | some w =>
      match w.superBound? with
      | some b => .check b bound
      | none => .never
    | none => .check arg bound
  | t => if t == arg then .always else .never

/-- The rules by which a type accepts another, with boxing or without, where `R` relates the types
that are known to accept one another. -/
inductive Rule (s : Store) (boxing : Bool) (R : Ty → Ty → Prop) : Ty → Ty → Prop where
  | same {t u : Ty} (known : t.isUnknown = false) (h : (t == u) = true) : Rule s boxing R t u
  | null {t : Ty} (known : t.isUnknown = false) : Rule s boxing R t .null
  | widen {p q : Primitive} (h : q.widensTo p = true) : Rule s boxing R (.prim p) (.prim q)
  | unbox {p q : Primitive} {u : Ty} (hboxing : boxing = true) (hu : s.unboxed? u = some q)
      (h : q.widensTo p = true) : Rule s boxing R (.prim p) u
  | box {t b : Ty} {q : Primitive} (href : t.isReference = true) (hnull : t.isNull = false)
      (hboxing : boxing = true) (hq : s.boxed? q = some b) (h : R t b) :
      Rule s boxing R t (.prim q)
  | anything {k : WildcardKind} {u : Ty} (href : u.isReference = true) :
      Rule s boxing R (.wild k none) u
  | bound {k : WildcardKind} {b u : Ty} (href : u.isReference = true) (h : R b u) :
      Rule s boxing R (.wild k (some b)) u
  | each {ts : List Ty} {u : Ty} (href : u.isReference = true)
      (h : ∀ t ∈ ts, R t u) : Rule s boxing R (.inter ts) u
  | component {t u : Ty} {us : List Ty} (hplain : t.isPlain = true) (hu : u ∈ us)
      (h : R t u) : Rule s boxing R t (.inter us)
  | upper {t v : Ty} {w : Wildcard} (hplain : t.isPlain = true) (hv : v.openWildcard? = some w)
      (h : R t (s.wildcardUpper w)) : Rule s boxing R t v
  | param {t b : Ty} {p : ParamId} (hplain : t.isPlain = true) (hb : b ∈ s.bounds p)
      (h : R t b) : Rule s boxing R t (.param p)
  | unbounded {t : Ty} {p : ParamId} (hp : s.bounds p = []) (h : s.isObject t = true) :
      Rule s boxing R t (.param p)
  | array {t u : Ty} (href : (t.isPrim || u.isPrim) = false) (h : R t u) :
      Rule s boxing R (.array t) (.array u)
  | arrayObject {args : List Ty} {u : Ty} : Rule s boxing R (.cls s.root args) (.array u)
  | object {d : ClassId} {args brgs : List Ty} : Rule s boxing R (.cls s.root args) (.cls d brgs)
  | raw {c d : ClassId} {args brgs lifted : List Ty} (hd : s.ancestorArgs ⟨d, brgs⟩ c = some lifted)
      (hraw : args = [] ∨ lifted = [] ∨ args.length ≠ lifted.length) :
      Rule s boxing R (.cls c args) (.cls d brgs)
  | args {c d : ClassId} {args brgs lifted : List Ty}
      (hd : s.ancestorArgs ⟨d, brgs⟩ c = some lifted)
      (hmet : ∀ p ∈ args.zip lifted, s.demand p.1 p.2 ≠ .never)
      (h : ∀ p ∈ args.zip lifted, ∀ t u, s.demand p.1 p.2 = .check t u → R t u) :
      Rule s boxing R (.cls c args) (.cls d brgs)

variable {s : Store} {boxing : Bool} {check check' : Ty → Ty → Bool} {t u : Ty}

/-! ### One check -/

theorem containsArg_of_not_wild {want arg : Ty} (h : want.isWild = false) :
    s.containsArg check want arg = (want == arg) := by
  cases want with
  | wild _ _ => cases h
  | _ => rfl

theorem demand_of_not_wild {want arg : Ty} (h : want.isWild = false) :
    s.demand want arg = if want == arg then .always else .never := by
  cases want with
  | wild _ _ => cases h
  | _ => rfl

theorem containsArg_eq (s : Store) (check : Ty → Ty → Bool) (want arg : Ty) :
    s.containsArg check want arg =
      match s.demand want arg with
      | .never => false
      | .always => true
      | .check t u => check t u := by
  cases hwild : want.isWild with
  | false =>
    rw [containsArg_of_not_wild hwild, demand_of_not_wild hwild]
    cases want == arg <;> rfl
  | true =>
    cases want with
    | wild k b =>
      cases b with
      | none => rfl
      | some b =>
        unfold containsArg demand
        cases k with
        | upper =>
          cases arg.openWildcard? with
          | none => rfl
          | some w =>
            cases hb : w.extendsBound? with
            | none => cases hobject : s.isObject b <;> simp [hb, hobject]
            | some b' => simp [hb]
        | lower =>
          cases arg.openWildcard? with
          | none => rfl
          | some w => cases hb : w.superBound? <;> simp [hb]
    | _ => cases hwild

theorem classAssignable_iff (s : Store) (check : Ty → Ty → Bool) (target source : ClassTy) :
    s.classAssignable check target source = true ↔
      target.id = s.root ∨ ∃ lifted, s.ancestorArgs source target.id = some lifted ∧
        (target.args = [] ∨ lifted = [] ∨ target.args.length ≠ lifted.length ∨
          ∀ p ∈ target.args.zip lifted, s.containsArg check p.1 p.2 = true) := by
  unfold classAssignable
  split
  · rename_i hroot
    exact ⟨fun _ => .inl hroot, fun _ => rfl⟩
  · rename_i hroot
    cases s.ancestorArgs source target.id with
    | none => simp [hroot]
    | some lifted => simp [hroot, containsArgs, or_assoc]

theorem rule_of_classAssignable {c d : ClassId} {args brgs : List Ty}
    (h : s.classAssignable check ⟨c, args⟩ ⟨d, brgs⟩ = true) :
    Rule s boxing (fun t u => check t u = true) (.cls c args) (.cls d brgs) := by
  rcases (s.classAssignable_iff check _ _).1 h with
    hroot | ⟨lifted, hd, hargs | hlifted | hne | hall⟩
  · have hroot : c = s.root := hroot
    subst hroot
    exact .object
  · exact .raw hd (.inl hargs)
  · exact .raw hd (.inr (.inl hlifted))
  · exact .raw hd (.inr (.inr hne))
  · refine .args hd (fun p hp hnever => ?_) fun p hp t u htu => ?_
    · have hcontains := hall p hp
      rw [containsArg_eq, hnever] at hcontains
      cases hcontains
    · have hcontains := hall p hp
      rw [containsArg_eq, htu] at hcontains
      exact hcontains

theorem isPlain_of_not {t : Ty} (hknown : t.isUnknown = false) (hnull : t = .null → False)
    (hprim : ∀ p, t = .prim p → False) (hopen : ∀ k, t = .wild k none → False)
    (hwild : ∀ k b, t = .wild k (some b) → False) (hinter : ∀ ts, t = .inter ts → False) :
    t.isPlain = true := by
  cases t with
  | prim p => exact (hprim p rfl).elim
  | wild k b =>
    cases b with
    | none => exact (hopen k rfl).elim
    | some b => exact (hwild k b rfl).elim
  | inter ts => exact (hinter ts rfl).elim
  | null => exact (hnull rfl).elim
  | unknown => cases hknown
  | _ => rfl

theorem isReference_iff {t : Ty} :
    t.isReference = true ↔ t.isUnknown = false ∧ ∀ p, t ≠ .prim p := by
  cases t <;> simp [Ty.isReference, Ty.isUnknown]

theorem isPrim_of_isReference {t : Ty} (h : t.isReference = true) : t.isPrim = false := by
  cases t with
  | prim p => cases h
  | _ => rfl

theorem rule_of_assignableStep (h : s.assignableStep boxing check t u = true) :
    Rule s boxing (fun t u => check t u = true) t u := by
  unfold assignableStep at h
  split at h
  · cases h
  rename_i hknown
  rw [Bool.or_eq_true, not_or, Bool.not_eq_true, Bool.not_eq_true] at hknown
  obtain ⟨ht, hu⟩ := hknown
  split at h
  · rename_i hsame
    exact .same ht hsame
  rename_i hdiff
  split at h
  case h_1 => exact .null ht
  case h_2 => cases h
  case h_3 => exact .widen h
  case h_4 =>
    rw [Bool.and_eq_true, Option.any_eq_true] at h
    obtain ⟨hboxing, q, hq, hwiden⟩ := h
    exact .unbox hboxing hq hwiden
  case h_5 =>
    rename_i q hnull hprim
    rw [Bool.and_eq_true] at h
    obtain ⟨hboxing, h⟩ := h
    cases hq : s.boxed? q with
    | none =>
      rw [hq] at h
      cases h
    | some b =>
      rw [hq] at h
      refine .box (isReference_iff.2 ⟨ht, hprim⟩) ?_ hboxing hq h
      cases t with
      | null => exact (hnull rfl).elim
      | _ => rfl
  case h_6 => exact .anything h
  case h_7 =>
    rename_i hprim
    exact .bound (isReference_iff.2 ⟨hu, hprim⟩) h
  case h_8 =>
    rename_i hprim
    rw [List.all_eq_true] at h
    exact .each (isReference_iff.2 ⟨hu, hprim⟩) h
  case h_9 =>
    rename_i hnull hprim hopen hwild hinter
    rw [List.any_eq_true] at h
    obtain ⟨u, hmem, h⟩ := h
    exact .component (isPlain_of_not ht hnull hprim hopen hwild hinter) hmem h
  case h_10 =>
    rename_i hnull hprim hopen hwild hinter
    exact .upper (isPlain_of_not ht hnull hprim hopen hwild hinter) rfl h
  case h_11 =>
    rename_i hnull hprim hopen hwild hinter
    exact .upper (isPlain_of_not ht hnull hprim hopen hwild hinter) rfl h
  case h_12 =>
    rename_i p hnull hprim hopen hwild hinter
    split at h
    · rename_i hp
      exact .unbounded hp h
    · rw [List.any_eq_true] at h
      obtain ⟨b, hb, h⟩ := h
      exact .param (isPlain_of_not ht hnull hprim hopen hwild hinter) hb h
  case h_13 =>
    rename_i t u
    split at h
    · exact absurd h hdiff
    · rename_i href
      rw [Bool.not_eq_true] at href
      exact .array href h
  case h_14 =>
    rw [beq_iff_eq] at h
    subst h
    exact .arrayObject
  case h_15 => exact rule_of_classAssignable h
  case h_16 => cases h

theorem isReference_of_isPlain {t : Ty} (h : t.isPlain = true) : t.isReference = true := by
  cases t <;> first | rfl | cases h

theorem isUnknown_eq_of_beq {t u : Ty} (h : (t == u) = true) : t.isUnknown = u.isUnknown := by
  rw [Ty.beq_eq_same] at h
  cases t with
  | wild k b => cases b <;> cases u <;> simp_all [Ty.same, Ty.isUnknown]
  | _ => cases u <;> simp_all [Ty.same, Ty.isUnknown]

theorem eq_cls_of_unboxed {q : Primitive} {u : Ty} (h : s.unboxed? u = some q) :
    ∃ c args, u = .cls c args := by
  cases u with
  | cls c args => exact ⟨c, args, rfl⟩
  | _ => cases h

theorem eq_cls_of_isObject {t : Ty} (h : s.isObject t = true) :
    ∃ args, t = .cls s.root args := by
  cases t with
  | cls c args =>
    rw [isObject, beq_iff_eq] at h
    exact ⟨args, by rw [h]⟩
  | _ => cases h

theorem Rule.known {R : Ty → Ty → Prop} (h : Rule s boxing R t u) :
    t.isUnknown = false ∧ u.isUnknown = false := by
  have hplain {t : Ty} (h : t.isPlain = true) : t.isUnknown = false :=
    (isReference_iff.1 (isReference_of_isPlain h)).1
  cases h with
  | same known h => exact ⟨known, isUnknown_eq_of_beq h ▸ known⟩
  | null known => exact ⟨known, rfl⟩
  | unbox _ hu _ =>
    obtain ⟨c, args, rfl⟩ := eq_cls_of_unboxed hu
    exact ⟨rfl, rfl⟩
  | box href _ _ _ _ => exact ⟨(isReference_iff.1 href).1, rfl⟩
  | anything href => exact ⟨rfl, (isReference_iff.1 href).1⟩
  | bound href _ => exact ⟨rfl, (isReference_iff.1 href).1⟩
  | each href _ => exact ⟨rfl, (isReference_iff.1 href).1⟩
  | component ht _ _ => exact ⟨hplain ht, rfl⟩
  | upper ht hv _ =>
    refine ⟨hplain ht, ?_⟩
    cases u with
    | unknown => cases hv
    | _ => rfl
  | param ht _ _ => exact ⟨hplain ht, rfl⟩
  | unbounded _ h =>
    obtain ⟨args, rfl⟩ := eq_cls_of_isObject h
    exact ⟨rfl, rfl⟩
  | _ => exact ⟨rfl, rfl⟩

theorem classAssignable_of_demand {c d : ClassId} {args brgs lifted : List Ty}
    (hd : s.ancestorArgs ⟨d, brgs⟩ c = some lifted)
    (hmet : ∀ p ∈ args.zip lifted, s.demand p.1 p.2 ≠ .never)
    (h : ∀ p ∈ args.zip lifted, ∀ t u, s.demand p.1 p.2 = .check t u → check t u = true) :
    s.classAssignable check ⟨c, args⟩ ⟨d, brgs⟩ = true := by
  refine (s.classAssignable_iff check _ _).2 (.inr ⟨lifted, hd, .inr (.inr (.inr ?_))⟩)
  intro p hp
  rw [containsArg_eq]
  cases hdemand : s.demand p.1 p.2 with
  | never => exact absurd hdemand (hmet p hp)
  | always => rfl
  | check t u => exact h p hp t u hdemand

theorem assignableStep_of_rule (h : Rule s boxing (fun t u => check t u = true) t u) :
    s.assignableStep boxing check t u = true := by
  unfold assignableStep
  rw [if_neg (by rw [h.known.1, h.known.2]; exact Bool.false_ne_true)]
  split
  · rfl
  rename_i hdiff
  cases h with
  | same _ h => exact absurd h hdiff
  | null _ => rfl
  | widen h => exact h
  | unbox hboxing hu h =>
    obtain ⟨c, args, rfl⟩ := eq_cls_of_unboxed hu
    simp only [hboxing, hu, Bool.true_and, Option.any_some, h]
  | box href hnull hboxing hq h =>
    cases t with
    | prim p => cases href
    | null => cases hnull
    | _ => simp only [hboxing, hq, h, Bool.true_and]
  | anything href =>
    cases u with
    | prim q => cases href
    | null => rfl
    | _ => exact href
  | bound href h =>
    cases u with
    | prim q => cases href
    | null => rfl
    | _ => exact h
  | each href h =>
    cases u with
    | prim q => cases href
    | null => rfl
    | _ => exact List.all_eq_true.2 h
  | component hplain hu h =>
    cases t <;> first | exact List.any_eq_true.2 ⟨_, hu, h⟩ | cases hplain
  | @upper _ _ w hplain hv h =>
    cases u with
    | wild k b =>
      cases hv
      cases t <;> first | exact h | cases hplain
    | captured i k b =>
      cases hv
      cases t <;> first | exact h | cases hplain
    | _ => cases hv
  | @param _ b p hplain hb h =>
    cases hp : s.bounds p with
    | nil =>
      rw [hp] at hb
      cases hb
    | cons b' bs =>
      have hany : (b' :: bs).any (fun b => check t b) = true :=
        List.any_eq_true.2 ⟨b, hp ▸ hb, h⟩
      cases t <;> first | (simp only [hp]; exact hany) | cases hplain
  | unbounded hp h =>
    obtain ⟨args, rfl⟩ := eq_cls_of_isObject h
    simp only [hp]
    exact h
  | array href h =>
    dsimp only
    rw [if_neg (by rw [href]; exact Bool.false_ne_true)]
    exact h
  | arrayObject => exact beq_self_eq_true _
  | object => exact (s.classAssignable_iff check _ _).2 (.inl rfl)
  | raw hd hraw =>
    refine (s.classAssignable_iff check _ _).2 (.inr ⟨_, hd, ?_⟩)
    rcases hraw with hargs | hlifted | hne
    · exact .inl hargs
    · exact .inr (.inl hlifted)
    · exact .inr (.inr (.inl hne))
  | args hd hmet h => exact classAssignable_of_demand hd hmet h

theorem assignableStep_iff : s.assignableStep boxing check t u = true ↔
    Rule s boxing (fun t u => check t u = true) t u :=
  ⟨rule_of_assignableStep, assignableStep_of_rule⟩

theorem Rule.mono {R R' : Ty → Ty → Prop} (hR : ∀ t u, R t u → R' t u)
    (h : Rule s boxing R t u) : Rule s boxing R' t u := by
  cases h with
  | same known h => exact .same known h
  | null known => exact .null known
  | widen h => exact .widen h
  | unbox hboxing hu h => exact .unbox hboxing hu h
  | box href hnull hboxing hq h => exact .box href hnull hboxing hq (hR _ _ h)
  | anything href => exact .anything href
  | bound href h => exact .bound href (hR _ _ h)
  | each href h => exact .each href fun t ht => hR t u (h t ht)
  | component hplain hu h => exact .component hplain hu (hR _ _ h)
  | upper hplain hv h => exact .upper hplain hv (hR _ _ h)
  | param hplain hb h => exact .param hplain hb (hR _ _ h)
  | unbounded hp h => exact .unbounded hp h
  | array href h => exact .array href (hR _ _ h)
  | arrayObject => exact .arrayObject
  | object => exact .object
  | raw hd hraw => exact .raw hd hraw
  | args hd hmet h => exact .args hd hmet fun p hp t u htu => hR t u (h p hp t u htu)

/-! ### Accepting -/

/-- Some limit on nested checks is high enough for `source` to be found assignable to `target`. -/
def Accepts (s : Store) (boxing : Bool) (target source : Ty) : Prop :=
  ∃ n, s.assignableWithin boxing n target source = true

theorem assignableWithin_mono {m n : Nat} (h : s.assignableWithin boxing m t u = true)
    (hmn : m ≤ n) : s.assignableWithin boxing n t u = true := by
  induction m generalizing n t u with
  | zero => cases h
  | succ m ih =>
    obtain ⟨n, rfl⟩ : ∃ k, n = k + 1 := ⟨n - 1, by omega⟩
    have hrule := assignableStep_iff.1 h
    exact assignableStep_iff.2 (hrule.mono fun t u htu => ih htu (Nat.le_of_succ_le_succ hmn))

theorem exists_budget {α : Type} {R : Nat → α → Prop} (xs : List α)
    (hmono : ∀ m n x, R m x → m ≤ n → R n x) (h : ∀ x ∈ xs, ∃ n, R n x) :
    ∃ n, ∀ x ∈ xs, R n x := by
  induction xs with
  | nil => exact ⟨0, fun x hx => (List.not_mem_nil hx).elim⟩
  | cons x xs ih =>
    obtain ⟨m, hm⟩ := h x List.mem_cons_self
    obtain ⟨n, hn⟩ := ih fun y hy => h y (List.mem_cons_of_mem x hy)
    refine ⟨max m n, List.forall_mem_cons.2 ⟨hmono m _ x hm (Nat.le_max_left m n), ?_⟩⟩
    exact fun y hy => hmono n _ y (hn y hy) (Nat.le_max_right m n)

/-- The premises of a rule together need only one limit. -/
theorem Rule.within (h : Rule s boxing (Accepts s boxing) t u) :
    ∃ n, Rule s boxing (fun t u => s.assignableWithin boxing n t u = true) t u := by
  have hmono (m n : Nat) (t u : Ty) (h : s.assignableWithin boxing m t u = true) (hmn : m ≤ n) :=
    assignableWithin_mono h hmn
  cases h with
  | same known h => exact ⟨0, .same known h⟩
  | null known => exact ⟨0, .null known⟩
  | widen h => exact ⟨0, .widen h⟩
  | unbox hboxing hu h => exact ⟨0, .unbox hboxing hu h⟩
  | box href hnull hboxing hq h =>
    obtain ⟨n, h⟩ := h
    exact ⟨n, .box href hnull hboxing hq h⟩
  | anything href => exact ⟨0, .anything href⟩
  | bound href h =>
    obtain ⟨n, h⟩ := h
    exact ⟨n, .bound href h⟩
  | @each ts _ href h =>
    obtain ⟨n, h⟩ := exists_budget ts (fun m n t => hmono m n t u) h
    exact ⟨n, .each href h⟩
  | component hplain hu h =>
    obtain ⟨n, h⟩ := h
    exact ⟨n, .component hplain hu h⟩
  | upper hplain hv h =>
    obtain ⟨n, h⟩ := h
    exact ⟨n, .upper hplain hv h⟩
  | param hplain hb h =>
    obtain ⟨n, h⟩ := h
    exact ⟨n, .param hplain hb h⟩
  | unbounded hp h => exact ⟨0, .unbounded hp h⟩
  | array href h =>
    obtain ⟨n, h⟩ := h
    exact ⟨n, .array href h⟩
  | arrayObject => exact ⟨0, .arrayObject⟩
  | object => exact ⟨0, .object⟩
  | raw hd hraw => exact ⟨0, .raw hd hraw⟩
  | @args c d args brgs lifted hd hmet h =>
    have hargs : ∀ p ∈ args.zip lifted, ∃ n, ∀ t u, s.demand p.1 p.2 = .check t u →
        s.assignableWithin boxing n t u = true := by
      intro p hp
      cases hdemand : s.demand p.1 p.2 with
      | never => exact ⟨0, nofun⟩
      | always => exact ⟨0, nofun⟩
      | check t u =>
        obtain ⟨n, htu⟩ := h p hp t u hdemand
        refine ⟨n, fun t' u' heq => ?_⟩
        cases heq
        exact htu
    obtain ⟨n, h⟩ := exists_budget (args.zip lifted)
      (fun m n (p : Ty × Ty) hp hmn t u htu => hmono m n t u (hp t u htu) hmn) hargs
    exact ⟨n, .args hd hmet h⟩

/-- Accepting obeys the rules, and only them. -/
theorem accepts_iff : Accepts s boxing t u ↔ Rule s boxing (Accepts s boxing) t u := by
  constructor
  · rintro ⟨n, h⟩
    cases n with
    | zero => cases h
    | succ n => exact (rule_of_assignableStep h).mono fun t u htu => ⟨n, htu⟩
  · intro h
    obtain ⟨n, h⟩ := h.within
    exact ⟨n + 1, assignableStep_of_rule h⟩

theorem accepts_of_assignable (h : s.assignable t u = true) : Accepts s true t u :=
  ⟨Limits.hierarchy, h⟩

/-- Whether `source` is assignable to `target` if all checks beyond so many nested ones succeed. -/
def assignableBeyond (s : Store) (boxing : Bool) : Nat → Ty → Ty → Bool
  | 0, _, _ => true
  | n + 1, target, source => s.assignableStep boxing (s.assignableBeyond boxing n) target source

theorem assignableBeyond_of_accepts (n : Nat) (h : Accepts s boxing t u) :
    s.assignableBeyond boxing n t u = true := by
  induction n generalizing t u with
  | zero => rfl
  | succ n ih => exact assignableStep_of_rule ((accepts_iff.1 h).mono fun t u htu => ih htu)

end Store

end GenericCalls
