import GenericCalls.Proofs.Assignable.Captured
import GenericCalls.Proofs.Lub.Classes
import GenericCalls.Proofs.Lub.Results
import GenericCalls.Proofs.Lub.Termination
import GenericCalls.Proofs.Store.Nearest
import Mathlib.Data.List.TakeWhile

/-! # Least upper bounds lose no class

Whatever class accepts two class types in its raw form also accepts their least upper bound. It is
among the classes that both reach, which are all collected where a class has few enough ancestors,
the root class counted, and a nearest one of these inherits from it. -/

namespace GenericCalls.Store

open Ty Relation

variable {s : Store} {c d e f : ClassId}

/-! ### The order of classes -/

/-- The class `d` is `c` itself, the root class, or an ancestor of `c`. -/
def Below (s : Store) (c d : ClassId) : Prop := d = c ∨ d = s.root ∨ Ancestor s c d

/-- A class has fewer ancestors than the limit on visited classes, the root class counted. -/
def FewAbove (s : Store) (c : ClassId) : Prop :=
  ∃ ds : List ClassId, ds.length < Limits.hierarchy ∧ s.root ∈ ds ∧ ∀ d, Ancestor s c d → d ∈ ds

theorem FewAbove.few (h : FewAbove s c) : FewAncestors s c := by
  obtain ⟨ds, hlength, _, hds⟩ := h
  exact ⟨ds, hlength, hds⟩

theorem Below.trans (hroot : s.RootBare) (hcd : Below s c d) (hde : Below s d e) : Below s c e := by
  rcases hde with rfl | rfl | hde
  · exact hcd
  · exact .inr (.inl rfl)
  · rcases hcd with rfl | rfl | hcd
    · exact .inr (.inr hde)
    · exact absurd hde (not_ancestor_of_supers_eq_nil hroot)
    · exact .inr (.inr (hcd.trans hde))

theorem Below.antisymm (hroot : s.RootBare) (hacyclic : ∀ c, ¬Ancestor s c c) (hcd : Below s c d)
    (hdc : Below s d c) : d = c := by
  have hnone {c : ClassId} : ¬Ancestor s s.root c := not_ancestor_of_supers_eq_nil hroot
  rcases hcd with heq | rfl | hcd
  · exact heq
  · rcases hdc with heq | heq | hdc
    · exact heq.symm
    · exact heq.symm
    · exact absurd hdc hnone
  · rcases hdc with heq | rfl | hdc
    · exact heq.symm
    · exact absurd hcd hnone
    · exact absurd (hcd.trans hdc) (hacyclic c)

theorem isSubclass_iff (hfew : FewAncestors s c) : s.isSubclass c d = true ↔ Below s c d :=
  isSome_ancestorArgs_iff (c := .raw c) hfew d

/-! ### All classes above are collected -/

/-- Where the collecting of classes among `cs` stands: those found are distinct, and what they
inherit from is found or queued. -/
structure Collecting (s : Store) (cs queue found : List ClassId) : Prop where
  nodup : found.Nodup
  among : found ⊆ cs
  queued : queue ⊆ cs
  closed : ∀ c ∈ found, ∀ d ∈ s.supers c, d ∈ found ∨ d ∈ queue

/-- The classes that were found or queued are collected, and all that those collected inherit
from. -/
structure Collected (s : Store) (queue found cs : List ClassId) : Prop where
  found : found ⊆ cs
  queued : queue ⊆ cs
  closed : ∀ c ∈ cs, s.supers c ⊆ cs

theorem mem_of_dropWhile {queue found rest : List ClassId}
    (h : queue.dropWhile (found.contains ·) = c :: rest) (hd : d ∈ queue) :
    d ∈ found ∨ d ∈ c :: rest := by
  rw [← List.takeWhile_append_dropWhile (p := (found.contains ·)) (l := queue), h,
    List.mem_append] at hd
  exact hd.imp_left fun hd => List.contains_iff_mem.1 (List.mem_takeWhile_imp hd)

theorem Collecting.next {cs queue found rest : List ClassId} (h : Collecting s cs queue found)
    (hcs : ∀ c ∈ cs, s.supers c ⊆ cs) (hrest : queue.dropWhile (found.contains ·) = c :: rest) :
    Collecting s cs (rest ++ s.supers c) (c :: found) := by
  have hsuffix : c :: rest ⊆ queue := hrest ▸ (List.dropWhile_sublist _).subset
  have hc : c ∈ cs := h.queued (hsuffix List.mem_cons_self)
  refine ⟨List.nodup_cons.2 ⟨not_mem_of_dropWhile hrest, h.nodup⟩, List.cons_subset.2 ⟨hc, h.among⟩,
    List.append_subset.2 ⟨fun d hd => h.queued (hsuffix (List.mem_cons_of_mem c hd)), hcs c hc⟩, ?_⟩
  intro d hd e he
  rcases List.mem_cons.1 hd with rfl | hd
  · exact .inr (List.mem_append_right _ he)
  · have hfound (h : e ∈ found) : e ∈ c :: found := List.mem_cons_of_mem c h
    rcases h.closed d hd e he with hold | hqueued
    · exact .inl (hfound hold)
    · rcases mem_of_dropWhile hrest hqueued with hold | hnext
      · exact .inl (hfound hold)
      · rcases List.mem_cons.1 hnext with rfl | hnext
        · exact .inl List.mem_cons_self
        · exact .inr (List.mem_append_left _ hnext)

theorem Collecting.collected {cs queue found : List ClassId} {n : Nat}
    (h : Collecting s cs queue found) (hcs : ∀ c ∈ cs, s.supers c ⊆ cs)
    (hn : cs.length ≤ n + found.length) :
    Collected s queue found (s.collectClasses n queue found) := by
  induction n generalizing queue found with
  | zero =>
    have hperm : found.Perm cs := by
      refine (List.subperm_of_subset h.nodup h.among).perm_of_length_le ?_
      rwa [Nat.zero_add] at hn
    have hall {c : ClassId} : c ∈ found.reverse ↔ c ∈ cs := by rw [List.mem_reverse, hperm.mem_iff]
    rw [collectClasses]
    exact ⟨fun c hc => hall.2 (h.among hc), fun c hc => hall.2 (h.queued hc),
      fun c hc d hd => hall.2 (hcs c (hall.1 hc) hd)⟩
  | succ n ih =>
    rw [collectClasses]
    split
    · rename_i hnil
      have hqueue : queue ⊆ found := fun c hc =>
        List.contains_iff_mem.1 (List.dropWhile_eq_nil_iff.1 hnil c hc)
      have hall {c : ClassId} : c ∈ found.reverse ↔ c ∈ found := List.mem_reverse
      refine ⟨fun c hc => hall.2 hc, fun c hc => hall.2 (hqueue hc), fun c hc d hd => hall.2 ?_⟩
      rcases h.closed c (hall.1 hc) d hd with hold | hqueued
      · exact hold
      · exact hqueue hqueued
    · rename_i c rest hrest
      have hnext := ih (h.next hcs hrest) (by rw [List.length_cons]; omega)
      refine ⟨fun d hd => hnext.found (List.mem_cons_of_mem c hd), fun d hd => ?_, hnext.closed⟩
      rcases mem_of_dropWhile hrest hd with hold | hd
      · exact hnext.found (List.mem_cons_of_mem c hold)
      · rcases List.mem_cons.1 hd with rfl | hd
        · exact hnext.found List.mem_cons_self
        · exact hnext.queued (List.mem_append_left _ hd)

open Classical in
theorem FewAbove.exists_closed (hroot : s.RootBare) (h : FewAbove s c) :
    ∃ cs : List ClassId, cs.length ≤ Limits.hierarchy ∧ c ∈ cs ∧ s.root ∈ cs ∧
      ∀ d ∈ cs, s.supers d ⊆ cs := by
  obtain ⟨ds, hlength, hmem, hds⟩ := h
  -- Others may be counted, but only those above `c` are known to inherit from none but these.
  have habove {d : ClassId} (hd : d ∈ ds) (h : d = s.root ∨ Ancestor s c d) :
      d ∈ c :: ds.filter fun d => decide (d = s.root ∨ Ancestor s c d) :=
    List.mem_cons_of_mem c (List.mem_filter.2 ⟨hd, decide_eq_true h⟩)
  refine ⟨c :: ds.filter fun d => decide (d = s.root ∨ Ancestor s c d),
    Nat.lt_of_le_of_lt (List.length_filter_le _ ds) hlength, List.mem_cons_self,
    habove hmem (.inl rfl), fun d hd e he => ?_⟩
  have hanc (he : Ancestor s c e) := habove (hds e he) (.inr he)
  rcases List.mem_cons.1 hd with rfl | hd
  · exact hanc (.single he)
  · rcases of_decide_eq_true (List.mem_filter.1 hd).2 with rfl | hd
    · rw [hroot] at he
      cases he
    · exact hanc (hd.tail he)

theorem mem_reachable_of_below (hroot : s.RootBare) (hfew : FewAbove s c) (h : Below s c d) :
    d ∈ s.reachable [c] := by
  obtain ⟨cs, hlength, hc, hrootcs, hclosed⟩ := hfew.exists_closed hroot
  have hqueued : [c] ++ [s.root] ⊆ cs :=
    List.cons_subset.2 ⟨hc, List.cons_subset.2 ⟨hrootcs, List.nil_subset cs⟩⟩
  have hstart : Collecting s cs ([c] ++ [s.root]) [] :=
    ⟨List.nodup_nil, List.nil_subset cs, hqueued, nofun⟩
  have hcollected : Collected s ([c] ++ [s.root]) [] (s.reachable [c]) :=
    hstart.collected hclosed hlength
  have hself : c ∈ s.reachable [c] := hcollected.queued List.mem_cons_self
  rcases h with rfl | rfl | hanc
  · exact hself
  · exact hcollected.queued (List.mem_cons_of_mem c List.mem_cons_self)
  · induction hanc with
    | single hsuper => exact hcollected.closed c hself hsuper
    | tail _ hsuper ih => exact hcollected.closed _ ih hsuper

/-! ### Nearest classes -/

/-- The class `y` is another one among `cs` that is below `x`. -/
def Nearer (s : Store) (cs : List ClassId) (x y : ClassId) : Prop := y ∈ cs ∧ y ≠ x ∧ Below s y x

theorem not_runsInCircle_nearer (hroot : s.RootBare) (hacyclic : ∀ c, ¬Ancestor s c c)
    {cs : List ClassId} : ¬RunsInCircle (s.Nearer cs) d := by
  have hstrict {x y : ClassId} (h : TransGen (s.Nearer cs) x y) : y ≠ x ∧ Below s y x := by
    induction h with
    | single hstep => exact hstep.2
    | tail _ hstep ih =>
      refine ⟨?_, hstep.2.2.trans hroot ih.2⟩
      rintro rfl
      exact hstep.2.1 (ih.2.antisymm hroot hacyclic hstep.2.2)
  rintro ⟨x, _, hx⟩
  exact (hstrict hx).1 rfl

theorem exists_minimal (hroot : s.RootBare) (hacyclic : ∀ c, ¬Ancestor s c c)
    (hfew : ∀ c, FewAncestors s c) {cs : List ClassId} (hd : d ∈ cs) :
    ∃ m ∈ s.minimalClasses cs, Below s m d := by
  refine holds_of_no_circle (R := s.Nearer cs) (P := fun _ x => ∃ m ∈ s.minimalClasses cs, Below s m x)
    (fun _ _ _ h => h.1) (fun _ x hx ih => ?_) hd (not_runsInCircle_nearer hroot hacyclic)
  by_cases hnearer : ∃ y, s.Nearer cs x y
  · obtain ⟨y, hy⟩ := hnearer
    obtain ⟨m, hm, hmy⟩ := ih y hy
    exact ⟨m, hm, hmy.trans hroot hy.2.2⟩
  · refine ⟨x, List.mem_filter.2 ⟨hx, ?_⟩, .inl rfl⟩
    rw [Bool.not_eq_true', List.any_eq_false]
    intro y hy hyx
    rw [Bool.and_eq_true, bne_iff_ne, isSubclass_iff (hfew y)] at hyx
    exact hnearer ⟨y, hy, hyx⟩

/-- Among the nearest common classes of two class types there is one below each class that is above
both. -/
theorem exists_common (hroot : s.RootBare) (hacyclic : ∀ c, ¬Ancestor s c c)
    (hfew : ∀ c, FewAbove s c) (args brgs : List Ty) (he : Below s e d) (hf : Below s f d) :
    ∃ m ∈ s.commonClasses (.cls e args) (.cls f brgs), Below s m d := by
  have hleft := mem_reachable_of_below hroot (hfew e) he
  have hright := mem_reachable_of_below hroot (hfew f) hf
  obtain ⟨m, hm, hmd⟩ := exists_minimal hroot hacyclic (fun c => (hfew c).few)
    (List.mem_filter.2 ⟨hleft, List.contains_iff_mem.2 hright⟩)
  exact ⟨m, mem_sortClasses.2 hm, hmd⟩

/-! ### Raw types -/

theorem assignableWithin_raw_iff (hfew : FewAncestors s e) {boxing : Bool} {n : Nat}
    {args : List Ty} :
    s.assignableWithin boxing (n + 1) (.raw d) (.cls e args) = true ↔ Below s e d := by
  constructor
  · intro h
    have hview {lifted : List Ty} (hlifted : s.ancestorArgs ⟨e, args⟩ d = some lifted) :
        Below s e d :=
      ancestor_of_ancestorArgs hlifted
    cases rule_of_assignableStep h with
    | same _ hsame =>
      rw [Ty.beq_eq_same, raw, Ty.same, Bool.and_eq_true, beq_iff_eq] at hsame
      exact .inl hsame.1
    | upper _ hopen _ => cases hopen
    | object => exact .inr (.inl rfl)
    | raw hlifted _ => exact hview hlifted
    | args hlifted _ _ => exact hview hlifted
  · intro h
    have hsome := (isSome_ancestorArgs_iff (c := ⟨e, args⟩) hfew d).2 h
    obtain ⟨lifted, hlifted⟩ := Option.isSome_iff_exists.1 hsome
    exact assignableWithin_of_raw n hlifted (.inl rfl)

theorem assignableWithin_meetOf {boxing : Bool} {n : Nat} {t u : Ty} {ts : List Ty}
    (hplain : t.isPlain = true) (hu : u ∈ ts) (h : s.assignableWithin boxing n t u = true) :
    s.assignableWithin boxing (n + 1) t (s.meetOf ts) = true := by
  match ts with
  | [] => cases hu
  | [_] =>
    rw [List.mem_singleton.1 hu] at h
    exact assignableWithin_mono h (Nat.le_succ n)
  | _ :: _ :: _ => exact assignableStep_of_rule (.component hplain hu h)

/-! ### Least upper bounds -/

/-- Where the least upper bound of two class types does not depend on others, it is one of them. -/
theorem Settled.of_classes {args brgs : List Ty} {r : Option Ty}
    (h : Settled s (.cls e args) (.cls f brgs) r) :
    r = some (.cls e args) ∨ r = some (.cls f brgs) := by
  cases h with
  | unknown h => cases h
  | same _ _ => exact .inl rfl
  | unwrapped _ _ hbox => rcases hbox with hbox | hbox <;> cases hbox
  | leftNull hb hnull =>
    cases hb.left
    cases hnull
  | rightNull hb _ hnull =>
    cases hb.right
    cases hnull
  | either hc _ _ =>
    cases hc.left
    cases hc.right
    exact (chooseForm_eq _ _).imp (congrArg some) (congrArg some)
  | left hc _ _ =>
    cases hc.left
    exact .inl rfl
  | right hc _ _ =>
    cases hc.right
    exact .inr rfl

/-- A class that accepts a component in its raw form accepts the nearest common supertypes as one
type. -/
theorem assignable_joinClasses {join : Ty → Ty → Nat → Option (Option Ty)} {a b t : Ty} {m n : Nat}
    {boxing : Bool} (hfew : ∀ c, FewAncestors s c) (h : s.joinClasses join a b n = some t)
    (hc : c ∈ s.commonClasses a b) (hcd : Below s c d) :
    s.assignableWithin boxing (m + 2) (.raw d) t = true := by
  obtain ⟨ts, hts, rfl⟩ := Option.map_eq_some_iff.1 h
  rw [mapM_eq_some_iff] at hts
  have hmem : s.joinAt join a b n c ∈ ts.map some := hts ▸ List.mem_map_of_mem hc
  obtain ⟨u, hu, hjoin⟩ := List.mem_map.1 hmem
  obtain ⟨args, rfl⟩ := joinAt_eq_cls hjoin.symm
  exact assignableWithin_meetOf rfl hu ((assignableWithin_raw_iff (hfew c)).2 hcd)

/-- No class that two class types have in common is lost: where the hierarchy is acyclic, the root
class declares no supertype, every class has few ancestors, and the computation runs in no circle,
the least upper bound of two class types exists, and every class whose raw type accepts both of them
accepts it. -/
theorem lub_least (hacyclic : ∀ c, ¬Ancestor s c c) (hroot : s.RootBare)
    (hfew : ∀ c, FewAbove s c) {args brgs : List Ty}
    (hno : ¬RunsInCircle s.Needs (.cls e args, .cls f brgs, 0))
    (he : s.assignable (.raw d) (.cls e args) = true)
    (hf : s.assignable (.raw d) (.cls f brgs) = true) :
    ∃ t, s.lub (.cls e args) (.cls f brgs) = some t ∧ s.assignable (.raw d) t = true := by
  have hfew' (c : ClassId) : FewAncestors s c := (hfew c).few
  have hbudget := lubWithin_budget hno
  rw [lubBudget, lubWithin] at hbudget
  rcases s.settled_or_apart (.cls e args) (.cls f brgs) with ⟨r, hr⟩ | ⟨a', b', hap⟩
  · rw [lubStep_settled hr, Option.some_inj] at hbudget
    rw [← hbudget]
    rcases hr.of_classes with rfl | rfl
    · exact ⟨_, rfl, he⟩
    · exact ⟨_, rfl, hf⟩
  · cases hap.left
    cases hap.right
    rw [lubStep_classes hap ⟨rfl, rfl, rfl⟩, Option.map_eq_some_iff] at hbudget
    obtain ⟨t, ht, hlub⟩ := hbudget
    obtain ⟨m, hm, hmd⟩ := exists_common hroot hacyclic hfew args brgs
      ((assignableWithin_raw_iff (hfew' e)).1 he) ((assignableWithin_raw_iff (hfew' f)).1 hf)
    exact ⟨t, hlub.symm, assignable_joinClasses hfew' ht hm hmd⟩

/-! ### Checks over all declarations -/

theorem fewAbove_of_length
    (h : ((List.range (s.size + 1)).flatMap s.supers).length + 1 < Limits.hierarchy) (c : ClassId) :
    FewAbove s c :=
  ⟨s.root :: (List.range (s.size + 1)).flatMap s.supers, h, List.mem_cons_self,
    fun _ hd => List.mem_cons_of_mem _ (mem_supers_of_ancestor hd)⟩

theorem not_ancestor_of_earlier (h : ∀ c < s.size + 1, ∀ d ∈ s.supers c, d < c) (c : ClassId) :
    ¬Ancestor s c c := by
  have hsuper {c d : ClassId} (hd : d ∈ s.supers c) : d < c := by
    rcases Nat.lt_or_ge s.size c with hlt | hle
    · unfold supers at hd
      rw [class?_eq_none hlt] at hd
      cases hd
    · exact h c (Nat.lt_succ_of_le hle) d hd
  have hlt {c d : ClassId} (hanc : Ancestor s c d) : d < c := by
    induction hanc with
    | single hd => exact hsuper hd
    | tail _ hd ih => exact Nat.lt_trans (hsuper hd) ih
  exact fun hanc => Nat.lt_irrefl c (hlt hanc)

/-- The built-in classes, an interface `Base`, two interfaces that inherit from it, and two classes
that both implement these. -/
def twoSides : Store :=
  let (s, base) := standard.declareClass "Base" .interface
  let (s, left) := s.declareClass "Left" .interface
  let s := s.addSupertype left (.raw base)
  let (s, right) := s.declareClass "Right" .interface
  let s := s.addSupertype right (.raw base)
  let (s, first) := s.declareClass "First" .concrete
  let s := (s.addSupertype first (.raw left)).addSupertype first (.raw right)
  let (s, second) := s.declareClass "Second" .concrete
  (s.addSupertype second (.raw left)).addSupertype second (.raw right)

theorem lub_least_twoSides :
    (∀ c, ¬Ancestor twoSides c c) ∧ twoSides.RootBare ∧ (∀ c, FewAbove twoSides c) ∧
      ¬RunsInCircle twoSides.Needs (.raw 16, .raw 17, 0) ∧
      twoSides.assignable (.raw 13) (.raw 16) = true ∧
      twoSides.assignable (.raw 13) (.raw 17) = true ∧
      ∃ t, twoSides.lub (.raw 16) (.raw 17) = some t ∧ twoSides.assignable (.raw 13) t = true := by
  have hacyclic : ∀ c, ¬Ancestor twoSides c c := not_ancestor_of_earlier (by decide +kernel)
  have hroot : twoSides.RootBare := rfl
  have hfew : ∀ c, FewAbove twoSides c := fewAbove_of_length (by decide +kernel)
  have hno : ¬RunsInCircle twoSides.Needs (.raw 16, .raw 17, 0) :=
    no_circle_of_acyclic_bounds (acyclic_of_exposed (forall_bounds (by decide +kernel)))
  have hfirst : twoSides.assignable (.raw 13) (.raw 16) = true := by decide +kernel
  have hsecond : twoSides.assignable (.raw 13) (.raw 17) = true := by decide +kernel
  exact ⟨hacyclic, hroot, hfew, hno, hfirst, hsecond,
    lub_least hacyclic hroot hfew hno hfirst hsecond⟩

/-- The raw `List` accepts both `List<T>` and `List<U>`, but they have no least upper bound where `T`
and `U` are bounded by `T[]` and `U[]`. -/
theorem not_lub_ownArrays :
    (∀ c, ¬Ancestor ownArrays c c) ∧ ownArrays.RootBare ∧ (∀ c, FewAbove ownArrays c) ∧
      ownArrays.assignable (.raw 5) (.cls 5 [.param 3]) = true ∧
      ownArrays.assignable (.raw 5) (.cls 5 [.param 4]) = true ∧
      ¬∃ n, (ownArrays.lubWithin n (.cls 5 [.param 3]) (.cls 5 [.param 4]) 0).isSome = true := by
  refine ⟨not_ancestor_of_earlier (by decide +kernel), rfl, fewAbove_of_length (by decide +kernel),
    by decide +kernel, by decide +kernel, ?_⟩
  have hlists : Apart ownArrays (.cls 5 [.param 3]) (.cls 5 [.param 4]) (.cls 5 [.param 3])
      (.cls 5 [.param 4]) :=
    ⟨⟨⟨rfl, rfl, rfl, rfl⟩, rfl, rfl⟩, by decide +kernel, by decide +kernel⟩
  have hcommon : 5 ∈ ownArrays.commonClasses (.cls 5 [.param 3]) (.cls 5 [.param 4]) := by
    decide +kernel
  have hholds : Holds ownArrays (.cls 5 [.param 3]) (.cls 5 [.param 4]) 0 (.param 3) (.param 4) :=
    .intro hlists ⟨rfl, rfl, rfl⟩ hcommon ⟨rfl, rfl, List.cons_ne_nil _ _, rfl⟩ List.mem_cons_self
      rfl (by decide)
  -- The bounds of the type arguments are the arrays on the circle, one depth further down.
  have hbounds : ownArrays.Needs (.cls 5 [.param 3], .cls 5 [.param 4], 0)
      (.array (.param 3), .array (.param 4), 1) :=
    .arguments hholds rfl rfl
  have hcomponents : ownArrays.Needs (.array (.param 3), .array (.param 4), 1)
      (.param 3, .param 4, 1) :=
    .components ⟨⟨⟨rfl, rfl, rfl, rfl⟩, rfl, rfl⟩, by decide +kernel, by decide +kernel⟩ rfl
  rintro ⟨n, hn⟩
  rw [lubWithin_of_circle ⟨_, .tail (.single hbounds) hcomponents, ownArrays_circle 1⟩] at hn
  cases hn

end GenericCalls.Store
