import GenericCalls.Proofs.Store.Regular

/-! # Nearest ancestors

A class type climbs to another from one of its direct supertypes to the next. The search for an
ancestor goes through the class types level by level, each level one step farther than the one
before, and keeps of each class the type with which it is met first. So an ancestor is seen with the
type arguments with which a shortest climb ends. -/

namespace GenericCalls.Store

variable {s : Store}

/-! ### Climbs -/

/-- A class type is reached from another in so many steps to a direct supertype. -/
inductive Climbs (s : Store) (c : ClassTy) : Nat → ClassTy → Prop where
  | refl : Climbs s c 0 c
  | step {n : Nat} {d t : ClassTy} (hd : Climbs s c n d) (ht : t ∈ s.directSupertypes d) :
      Climbs s c (n + 1) t

/-- A class type is reached from another in so many steps, and its class in no fewer. -/
structure Nearest (s : Store) (c : ClassTy) (n : Nat) (t : ClassTy) : Prop where
  climbs : s.Climbs c n t
  least : ∀ {m u}, s.Climbs c m u → u.id = t.id → n ≤ m

variable {c d t : ClassTy} {n m : Nat}

theorem mem_supers_of_mem (ht : t ∈ s.directSupertypes d) : t.id ∈ s.supers d.id := by
  rw [← map_id_directSupertypes]
  exact List.mem_map_of_mem ht

theorem exists_climbs_of_ancestor {a : ClassId} (h : Ancestor s c.id a) :
    ∃ n t, s.Climbs c n t ∧ t.id = a := by
  have hstep {n : Nat} {d : ClassTy} {e : ClassId} (hd : s.Climbs c n d) (he : e ∈ s.supers d.id) :
      ∃ n t, s.Climbs c n t ∧ t.id = e := by
    rw [← map_id_directSupertypes, List.mem_map] at he
    obtain ⟨t, ht, hid⟩ := he
    exact ⟨n + 1, t, hd.step ht, hid⟩
  induction h with
  | single he => exact hstep .refl he
  | tail _ he ih =>
    obtain ⟨n, d, hd, rfl⟩ := ih
    exact hstep hd he

theorem exists_nearest_of_ancestor {a : ClassId} (h : Ancestor s c.id a) :
    ∃ n args, s.Nearest c n ⟨a, args⟩ := by
  classical
  have hex : ∃ n, ∃ t, s.Climbs c n t ∧ t.id = a := exists_climbs_of_ancestor h
  obtain ⟨t, ht, rfl⟩ := Nat.find_spec hex
  exact ⟨Nat.find hex, t.args, ht, fun {m u} hu hid => Nat.find_min' hex ⟨u, hu, hid⟩⟩

/-! ### Levels of a search -/

/-- Where a search from `c` stands that is on its way through the class types `n` steps away: `now`
are those still to be looked at, and `next` are noted for the next level. All classes up to this
level have been visited, and the supertypes of those that are done with too. -/
structure Level (s : Store) (c : ClassTy) (n : Nat) (now next : List ClassTy)
    (visited : List ClassId) : Prop where
  here : ∀ d ∈ now, s.Climbs c n d
  ahead : ∀ d ∈ next, s.Climbs c (n + 1) d
  near : ∀ {m d}, m ≤ n → s.Climbs c m d → d.id ∈ visited
  done : ∀ {m d}, m ≤ n → s.Climbs c m d →
    d.id ∈ now.map ClassTy.id ∨ ∀ e ∈ s.supers d.id, e ∈ visited

variable {now next queue : List ClassTy} {visited noted : List ClassId} {a : ClassId}

theorem level_start (s : Store) (c : ClassTy) : s.Level c 0 [c] [] [c.id] := by
  have hself {m : Nat} {d : ClassTy} (hm : m ≤ 0) (hd : s.Climbs c m d) : d = c := by
    obtain rfl := Nat.le_zero.1 hm
    cases hd
    rfl
  refine ⟨?_, nofun, ?_, ?_⟩
  · rintro d hd
    obtain rfl := List.mem_singleton.1 hd
    exact .refl
  · intro m d hm hd
    rw [hself hm hd]
    exact List.mem_singleton.2 rfl
  · intro m d hm hd
    rw [hself hm hd]
    exact .inl (List.mem_singleton.2 rfl)

theorem Level.look (h : s.Level c n (d :: now) next visited) {fresh : List ClassTy}
    (hsight : sight a (s.directSupertypes d) visited [] = .missed noted fresh) :
    s.Level c n now (next ++ fresh) noted := by
  obtain ⟨new, hfresh, hnoted⟩ := sight_missed hsight
  obtain rfl : fresh = new := hfresh
  have hkept {e : ClassId} (he : e ∈ visited) : e ∈ noted := by
    rw [hnoted.eq]
    exact List.mem_append_right _ he
  refine ⟨fun e he => h.here e (List.mem_cons_of_mem d he), ?_, ?_, ?_⟩
  · intro t ht
    rcases List.mem_append.1 ht with ht | ht
    · exact h.ahead t ht
    · exact (h.here d List.mem_cons_self).step (hnoted.among t ht)
  · exact fun hm he => hkept (h.near hm he)
  · intro m e hm he
    rcases h.done hm he with hnow | hdone
    · rcases List.mem_cons.1 hnow with heq | hnow
      · refine .inr fun f hf => ?_
        rw [heq, ← map_id_directSupertypes, List.mem_map] at hf
        obtain ⟨t, ht, rfl⟩ := hf
        exact hnoted.all t ht
      · exact .inl hnow
    · exact .inr fun f hf => hkept (hdone f hf)

theorem Level.up (h : s.Level c n [] next visited)
    (hx : Exploring s c.id a next visited) : s.Level c (n + 1) next [] visited := by
  have hdone {m : Nat} {d : ClassTy} (hm : m ≤ n) (hd : s.Climbs c m d) :
      ∀ e ∈ s.supers d.id, e ∈ visited := (h.done hm hd).resolve_left List.not_mem_nil
  have hnear {m : Nat} {d : ClassTy} (hm : m ≤ n + 1) (hd : s.Climbs c m d) : d.id ∈ visited := by
    cases hd with
    | refl => exact hx.started
    | step hd ht => exact hdone (Nat.le_of_succ_le_succ hm) hd _ (mem_supers_of_mem ht)
  exact ⟨h.ahead, nofun, hnear, fun hm hd => hx.closed _ (hnear hm hd)⟩

/-- A search that still has class types to look at is on its way through some level. -/
theorem Level.exists_front (h : s.Level c n now next visited)
    (hx : Exploring s c.id a (now ++ next) visited) {e : ClassTy} {rest : List ClassTy}
    (hqueue : now ++ next = e :: rest) :
    ∃ n now next, rest = now ++ next ∧ s.Level c n (e :: now) next visited := by
  cases now with
  | cons d now =>
    obtain ⟨rfl, hrest⟩ := List.cons.inj hqueue
    exact ⟨n, now, next, hrest.symm, h⟩
  | nil =>
    obtain rfl : next = e :: rest := hqueue
    exact ⟨n + 1, rest, [], (List.append_nil rest).symm, h.up hx⟩

/-! ### Searching -/

/-- What a search finds is nearest: no class of an earlier level is the ancestor. -/
theorem searchAncestor_nearest {k : Nat} {args : List Ty}
    (hx : Exploring s c.id a (now ++ next) visited) (hl : s.Level c n now next visited)
    (h : s.searchAncestor a k (now ++ next) visited = some args) :
    ∃ n, s.Nearest c n ⟨a, args⟩ := by
  induction k generalizing n now next visited with
  | zero => cases h
  | succ k ih =>
    cases hqueue : now ++ next with
    | nil =>
      rw [hqueue] at h
      cases h
    | cons e rest =>
      obtain ⟨n, now, next, rfl, hl⟩ := hl.exists_front hx hqueue
      rw [hqueue] at h hx
      rw [searchAncestor] at h
      cases hsight : sight a (s.directSupertypes e) visited [] with
      | found found =>
        rw [hsight] at h
        cases h
        obtain ⟨⟨a, args⟩, ht, rfl, rfl⟩ := sight_found hsight
        refine ⟨n + 1, (hl.here e List.mem_cons_self).step ht, fun {m u} hu hid => ?_⟩
        refine Nat.lt_of_not_le fun hm => hx.missing ?_
        exact hid ▸ hl.near hm hu
      | full =>
        rw [hsight] at h
        cases h
      | missed noted fresh =>
        rw [hsight] at h
        have hnext := (hx.next hsight).1
        rw [List.append_assoc] at hnext
        refine ih hnext (hl.look hsight) ?_
        rw [← List.append_assoc]
        exact h

/-- A class type sees itself as it is, the root class without arguments, and every other class as it
is nearest. -/
theorem nearest_of_ancestorArgs {args : List Ty} (h : s.ancestorArgs c a = some args) :
    (a = s.root ∧ a ≠ c.id ∧ args = []) ∨ ∃ n, s.Nearest c n ⟨a, args⟩ := by
  unfold ancestorArgs at h
  split at h
  · rename_i hid
    cases h
    subst hid
    exact .inr ⟨0, .refl, fun _ _ => Nat.zero_le _⟩
  · rename_i hid
    split at h
    · rename_i hroot
      cases h
      exact .inl ⟨hroot, Ne.symm hid, rfl⟩
    · have hstart : Exploring s c.id a ([c] ++ []) [c.id] := exploring_start s hid
      exact .inr (searchAncestor_nearest hstart (level_start s c) h)

/-! ### What a class type sees -/

theorem isSome_ancestorArgs_iff (hfew : FewAncestors s c.id) (a : ClassId) :
    (s.ancestorArgs c a).isSome = true ↔ a = c.id ∨ a = s.root ∨ Ancestor s c.id a := by
  constructor
  · intro h
    obtain ⟨args, hargs⟩ := Option.isSome_iff_exists.1 h
    exact ancestor_of_ancestorArgs hargs
  · rintro (rfl | rfl | hanc)
    · rw [ancestorArgs_self]
      rfl
    · by_cases hid : c.id = s.root
      · rw [← hid, ancestorArgs_self]
        rfl
      · rw [ancestorArgs_root s c hid]
        rfl
    · exact ancestorArgs_isSome hfew hanc

theorem exists_nearest_ancestorArgs (hfew : FewAncestors s c.id) (hanc : Ancestor s c.id a) :
    ∃ n args, s.Nearest c n ⟨a, args⟩ ∧
      s.ancestorArgs c a = some (if a = s.root ∧ a ≠ c.id then [] else args) := by
  obtain ⟨args, hargs⟩ := Option.isSome_iff_exists.1 (ancestorArgs_isSome hfew hanc)
  rcases nearest_of_ancestorArgs hargs with ⟨hroot, hid, rfl⟩ | ⟨n, hn⟩
  · obtain ⟨n, args, hn⟩ := exists_nearest_of_ancestor hanc
    exact ⟨n, args, hn, by rw [hargs, if_pos ⟨hroot, hid⟩]⟩
  · refine ⟨n, args, hn, ?_⟩
    split
    · rename_i hroot
      obtain ⟨rfl, hid⟩ := hroot
      rw [ancestorArgs_root s c hid.symm]
    · exact hargs

theorem isSubclass_eq (hfew : FewAncestors s c.id) (a : ClassId) :
    s.isSubclass c.id a = (s.ancestorArgs c a).isSome := by
  have hraw : FewAncestors s (ClassTy.raw c.id).id := hfew
  rw [Bool.eq_iff_iff, isSubclass, isSome_ancestorArgs_iff hraw, isSome_ancestorArgs_iff hfew]
  rfl

theorem isSubclass_trans (hroot : s.RootBare) {c a b : ClassId} (hfew : FewAncestors s c)
    (hca : s.isSubclass c a = true) (hab : s.isSubclass a b = true) : s.isSubclass c b = true := by
  have hraw : FewAncestors s (ClassTy.raw c).id := hfew
  obtain ⟨_, hargs⟩ := Option.isSome_iff_exists.1 hab
  have hab : b = a ∨ b = s.root ∨ Ancestor s a b := ancestor_of_ancestorArgs hargs
  unfold isSubclass at hca ⊢
  rw [isSome_ancestorArgs_iff hraw] at hca ⊢
  rcases hab with rfl | rfl | hab
  · exact hca
  · exact .inr (.inl rfl)
  · rcases hca with rfl | rfl | hca
    · exact .inr (.inr hab)
    · exact absurd hab (not_ancestor_of_supers_eq_nil hroot)
    · exact .inr (.inr (hca.trans hab))

/-- The search for an ancestor is exact for a class type whose class has fewer ancestors than the
limit, be the hierarchy cyclic or not. It finds the class itself, the root class and the ancestors,
and nothing else. An ancestor is seen with the type arguments at the end of some shortest climb to
it, and the root class, reached or not, without arguments. So when the root class declares no
supertype, to be a subclass is reflexive and transitive, and whatever the type arguments are. -/
theorem ancestorArgs_exact (s : Store) (c : ClassTy) (hfew : FewAncestors s c.id) :
    (∀ a, (s.ancestorArgs c a).isSome = true ↔ a = c.id ∨ a = s.root ∨ Ancestor s c.id a) ∧
    (∀ a, Ancestor s c.id a → ∃ n args, s.Nearest c n ⟨a, args⟩ ∧
      s.ancestorArgs c a = some (if a = s.root ∧ a ≠ c.id then [] else args)) ∧
    (s.RootBare → s.isSubclass c.id c.id = true ∧
      (∀ a b, s.isSubclass c.id a = true → s.isSubclass a b = true →
        s.isSubclass c.id b = true) ∧
      ∀ a, (s.ancestorArgs c a).isSome = s.isSubclass c.id a) :=
  ⟨isSome_ancestorArgs_iff hfew, fun _ => exists_nearest_ancestorArgs hfew, fun hroot =>
    ⟨isSubclass_refl s c.id, fun _ _ => isSubclass_trans hroot hfew,
      fun a => (isSubclass_eq hfew a).symm⟩⟩

/-- The built-in classes with a diamond of generic classes whose top inherits from its bottom: with
`Bottom<B>` below `Left<B>` and `Right<B>`, these below `Top<L>` and the raw `Top`, and `Top<T>`
below `Bottom<T>`. -/
def ring : Store :=
  let (s, top) := standard.declareClass "Top" .interface
  let (s, t) := s.declareParam "T" (.cls top)
  let (s, left) := s.declareClass "Left" .interface
  let (s, l) := s.declareParam "L" (.cls left)
  let (s, right) := s.declareClass "Right" .interface
  let (s, _) := s.declareParam "R" (.cls right)
  let (s, bottom) := s.declareClass "Bottom" .interface
  let (s, b) := s.declareParam "B" (.cls bottom)
  let s := s.addSupertype left ⟨top, [.param l]⟩
  let s := s.addSupertype right (.raw top)
  let s := s.addSupertype bottom ⟨left, [.param b]⟩
  let s := s.addSupertype bottom ⟨right, [.param b]⟩
  s.addSupertype top ⟨bottom, [.param t]⟩

theorem ancestorArgs_exact_ring :
    let c : ClassTy := ⟨19, [.raw 4]⟩
    FewAncestors ring c.id ∧ Ancestor ring c.id 13 ∧ ring.RootBare ∧
      (∃ n, ring.Nearest c n ⟨13, [.raw 4]⟩) ∧ (ring.ancestorArgs c 12).isSome = false ∧
      ring.isSubclass 19 13 = true ∧ ring.isSubclass 13 17 = true ∧
      ring.isSubclass 19 17 = true ∧ ring.isSubclass 19 17 = (ring.ancestorArgs c 17).isSome := by
  intro c
  have hfew : FewAncestors ring c.id := fewAncestors_of_length (by decide +kernel) c.id
  have hleft : Ancestor ring c.id 15 := .single (by decide +kernel)
  have hanc : Ancestor ring c.id 13 := hleft.tail (by decide +kernel)
  have hroot : ring.RootBare := rfl
  obtain ⟨-, hnearest, hsub⟩ := ancestorArgs_exact ring c hfew
  obtain ⟨n, args, hn, hargs⟩ := hnearest 13 hanc
  have hseen : ring.ancestorArgs c 13 = some [.raw 4] := rfl
  rw [hseen, if_neg (by decide)] at hargs
  cases hargs
  obtain ⟨-, htrans, hany⟩ := hsub hroot
  exact ⟨hfew, hanc, hroot, ⟨n, hn⟩, by decide +kernel, by decide +kernel, by decide +kernel,
    htrans 13 17 (by decide +kernel) (by decide +kernel), (hany 17).symm⟩

/-! ### A root class with type arguments -/

/-- The built-in classes, the root class with a type parameter `X`, and a class `Foo<F>` that
inherits from `Object<F>`. -/
def genericRoot : Store :=
  let (s, _) := standard.declareParam "X" (.cls standard.root)
  let (s, foo) := s.declareClass "Foo" .concrete
  let (s, f) := s.declareParam "F" (.cls foo)
  s.addSupertype foo ⟨standard.root, [.param f]⟩

/-- From `Foo<String>` every climb to the root class ends at `Object<String>`, but the root class is
seen without arguments. -/
theorem not_nearest_genericRoot :
    FewAncestors genericRoot 14 ∧ Ancestor genericRoot 14 genericRoot.root ∧
      ¬∃ n args, genericRoot.Nearest ⟨14, [.raw 4]⟩ n ⟨genericRoot.root, args⟩ ∧
        genericRoot.ancestorArgs ⟨14, [.raw 4]⟩ genericRoot.root = some args := by
  have hfew : FewAncestors genericRoot 14 := fewAncestors_of_length (by decide +kernel) 14
  have hanc : Ancestor genericRoot 14 genericRoot.root := .single (by decide +kernel)
  have hfoo : genericRoot.directSupertypes ⟨14, [.raw 4]⟩ = [⟨1, [.raw 4]⟩] := rfl
  have hobject : genericRoot.directSupertypes ⟨1, [.raw 4]⟩ = [] := rfl
  -- There are two climbs: to `Foo<String>` itself, and one step on.
  have hclimbs {n : Nat} {t : ClassTy} (h : genericRoot.Climbs ⟨14, [.raw 4]⟩ n t) :
      t = ⟨14, [.raw 4]⟩ ∨ t = ⟨1, [.raw 4]⟩ := by
    induction h with
    | refl => exact .inl rfl
    | step _ ht ih =>
      rcases ih with rfl | rfl
      · rw [hfoo] at ht
        exact .inr (List.mem_singleton.1 ht)
      · rw [hobject] at ht
        cases ht
  refine ⟨hfew, hanc, ?_⟩
  rintro ⟨n, args, hnearest, hargs⟩
  cases hargs
  rcases hclimbs hnearest.climbs with h | h <;> cases h

end GenericCalls.Store
