import GenericCalls.Store.Hierarchy

/-! # Ancestors

The ancestors of a class are the classes that it reaches through declared supertypes. The search
for an ancestor visits every class once and gives up only at the limit on visited classes, so it
finds each ancestor of a class that has fewer ancestors than the limit. The classes collected from
some classes are these, their ancestors, and the root class with its own. -/

namespace GenericCalls.Store

variable {s : Store}

/-! ### Declared supertypes -/

def supers (s : Store) (c : ClassId) : List ClassId :=
  ((s.class? c).map fun d => d.supertypes.map ClassTy.id).getD []

def Ancestor (s : Store) (c d : ClassId) : Prop :=
  Relation.TransGen (fun c d => d ∈ s.supers c) c d

def RootBare (s : Store) : Prop := s.supers s.root = []

/-- A class has fewer ancestors than the limit on visited classes. -/
def FewAncestors (s : Store) (c : ClassId) : Prop :=
  ∃ ds : List ClassId, ds.length < Limits.hierarchy ∧ ∀ d, Ancestor s c d → d ∈ ds

theorem id_getD_substituteClass (σ : Substitution) (t : ClassTy) :
    ((σ.substituteClass t).getD (.raw t.id)).id = t.id := by
  unfold Substitution.substituteClass
  split
  · rfl
  · cases Substitution.applyAll σ.get? t.args <;> rfl

theorem map_id_directSupertypes (s : Store) (c : ClassTy) :
    (s.directSupertypes c).map ClassTy.id = s.supers c.id := by
  unfold directSupertypes supers
  cases s.class? c.id with
  | none => rfl
  | some d =>
    dsimp only [Option.map_some, Option.getD_some]
    split
    · rw [List.map_map]
      rfl
    · rw [List.map_map]
      exact List.map_congr_left fun t _ => id_getD_substituteClass _ t

/-! ### Sighting -/

theorem sight_found {ancestor : ClassId} {ts fresh : List ClassTy} {visited : List ClassId}
    {args : List Ty} (h : sight ancestor ts visited fresh = .found args) :
    ∃ t ∈ ts, t.id = ancestor ∧ t.args = args := by
  induction ts generalizing visited fresh with
  | nil => cases h
  | cons t ts ih =>
    rw [sight] at h
    split at h
    · rename_i hid
      exact ⟨t, List.mem_cons_self, hid, Sighting.found.inj h⟩
    · split at h
      · cases h
      · split at h
        · obtain ⟨u, hu, hfound⟩ := ih h
          exact ⟨u, List.mem_cons_of_mem t hu, hfound⟩
        · obtain ⟨u, hu, hfound⟩ := ih h
          exact ⟨u, List.mem_cons_of_mem t hu, hfound⟩

/-- What is noted where the ancestor is not sighted: all class types, and of those not visited
before one each, which is not the ancestor. -/
structure Noted (ancestor : ClassId) (ts : List ClassTy) (visited : List ClassId)
    (noted : List ClassId) (new : List ClassTy) : Prop where
  eq : noted = (new.map ClassTy.id).reverse ++ visited
  among : ∀ t ∈ new, t ∈ ts
  all : ∀ t ∈ ts, t.id ∈ noted
  missing : ∀ t ∈ ts, t.id ≠ ancestor
  nodup : visited.Nodup → noted.Nodup

theorem sight_missed {ancestor : ClassId} {ts fresh rest : List ClassTy}
    {visited noted : List ClassId} (h : sight ancestor ts visited fresh = .missed noted rest) :
    ∃ new, rest = fresh.reverse ++ new ∧ Noted ancestor ts visited noted new := by
  induction ts generalizing visited fresh with
  | nil =>
    cases h
    exact ⟨[], (List.append_nil _).symm, rfl, nofun, nofun, nofun, id⟩
  | cons t ts ih =>
    rw [sight] at h
    split at h
    · cases h
    · rename_i hid
      split at h
      · cases h
      · split at h
        · rename_i hmem
          obtain ⟨new, hrest, hnoted⟩ := ih h
          have hold : t.id ∈ noted := by
            rw [hnoted.eq]
            exact List.mem_append_right _ hmem
          exact ⟨new, hrest, hnoted.eq,
            fun u hu => List.mem_cons_of_mem t (hnoted.among u hu),
            List.forall_mem_cons.2 ⟨hold, hnoted.all⟩,
            List.forall_mem_cons.2 ⟨hid, hnoted.missing⟩, hnoted.nodup⟩
        · rename_i hmem
          obtain ⟨new, hrest, hnoted⟩ := ih h
          have hnew : t.id ∈ noted := by
            rw [hnoted.eq]
            exact List.mem_append_right _ List.mem_cons_self
          refine ⟨t :: new, ?_, ?_, ?_, List.forall_mem_cons.2 ⟨hnew, hnoted.all⟩,
            List.forall_mem_cons.2 ⟨hid, hnoted.missing⟩,
            fun hnodup => hnoted.nodup (List.nodup_cons.2 ⟨hmem, hnodup⟩)⟩
          · rw [hrest, List.reverse_cons, List.append_assoc, List.singleton_append]
          · rw [hnoted.eq, List.map_cons, List.reverse_cons, List.append_assoc]
            rfl
          · exact List.forall_mem_cons.2
              ⟨List.mem_cons_self, fun u hu => List.mem_cons_of_mem t (hnoted.among u hu)⟩

/-- Classes are sighted up to the limit only if there are that many distinct ones besides the
ancestor. -/
theorem sight_full {ancestor : ClassId} {ts fresh : List ClassTy} {visited : List ClassId}
    (h : sight ancestor ts visited fresh = .full) (hnodup : visited.Nodup)
    (hmissing : ancestor ∉ visited) :
    ∃ noted : List ClassId, noted.Nodup ∧ ancestor ∉ noted ∧ Limits.hierarchy ≤ noted.length ∧
      ∀ d ∈ noted, d ∈ visited ∨ ∃ t ∈ ts, t.id = d := by
  induction ts generalizing visited fresh with
  | nil => cases h
  | cons t ts ih =>
    rw [sight] at h
    split at h
    · cases h
    · rename_i hid
      split at h
      · rename_i hfull
        exact ⟨visited, hnodup, hmissing, hfull, fun d hd => .inl hd⟩
      · split at h
        · obtain ⟨noted, hn, hm, hfull, hfrom⟩ := ih h hnodup hmissing
          refine ⟨noted, hn, hm, hfull, fun d hd => ?_⟩
          rcases hfrom d hd with hd | ⟨u, hu, hd⟩
          · exact .inl hd
          · exact .inr ⟨u, List.mem_cons_of_mem t hu, hd⟩
        · rename_i hmem
          have hmissing' : ancestor ∉ t.id :: visited := by
            intro ha
            rcases List.mem_cons.1 ha with ha | ha
            · exact hid ha.symm
            · exact hmissing ha
          obtain ⟨noted, hn, hm, hfull, hfrom⟩ := ih h (List.nodup_cons.2 ⟨hmem, hnodup⟩) hmissing'
          refine ⟨noted, hn, hm, hfull, fun d hd => ?_⟩
          rcases hfrom d hd with hd | ⟨u, hu, hd⟩
          · rcases List.mem_cons.1 hd with rfl | hd
            · exact .inr ⟨t, List.mem_cons_self, rfl⟩
            · exact .inl hd
          · exact .inr ⟨u, List.mem_cons_of_mem t hu, hd⟩

/-! ### Searching -/

/-- Where a search from `start` stands that has not found the ancestor: the classes visited are
distinct, all in the hierarchy of `start`, and those no longer queued have had all their supertypes
visited. -/
structure Exploring (s : Store) (start ancestor : ClassId) (queue : List ClassTy)
    (visited : List ClassId) : Prop where
  nodup : visited.Nodup
  missing : ancestor ∉ visited
  started : start ∈ visited
  inherited : ∀ d ∈ visited, d = start ∨ Ancestor s start d
  queued : ∀ c ∈ queue, c.id ∈ visited
  closed : ∀ d ∈ visited, d ∈ queue.map ClassTy.id ∨ ∀ e ∈ s.supers d, e ∈ visited

variable {start ancestor : ClassId}

theorem exploring_start (s : Store) {c : ClassTy} (h : c.id ≠ ancestor) :
    Exploring s c.id ancestor [c] [c.id] where
  nodup := List.nodup_cons.2 ⟨List.not_mem_nil, List.nodup_nil⟩
  missing ha := h (List.mem_singleton.1 ha).symm
  started := List.mem_cons_self
  inherited _ hd := .inl (List.mem_singleton.1 hd)
  queued _ hd := List.mem_singleton.1 hd ▸ List.mem_cons_self
  closed _ hd := .inl hd

theorem Exploring.inherited_supers {c : ClassTy} {queue : List ClassTy} {visited : List ClassId}
    (h : Exploring s start ancestor (c :: queue) visited) :
    ∀ t ∈ s.directSupertypes c, Ancestor s start t.id := by
  intro t ht
  have hsuper : t.id ∈ s.supers c.id := by
    rw [← map_id_directSupertypes]
    exact List.mem_map_of_mem ht
  rcases h.inherited c.id (h.queued c List.mem_cons_self) with heq | hanc
  · rw [heq] at hsuper
    exact .single hsuper
  · exact .tail hanc hsuper

theorem length_lt_of_inherited {noted : List ClassId} (hfew : FewAncestors s start)
    (hanc : Ancestor s start ancestor) (hnodup : noted.Nodup) (hmissing : ancestor ∉ noted)
    (hinherited : ∀ d ∈ noted, d = start ∨ Ancestor s start d) :
    noted.length < Limits.hierarchy := by
  obtain ⟨ds, hlength, hds⟩ := hfew
  have hsubset : ancestor :: noted ⊆ start :: ds := by
    intro d hd
    rcases List.mem_cons.1 hd with rfl | hd
    · exact List.mem_cons_of_mem start (hds d hanc)
    · rcases hinherited d hd with rfl | hd
      · exact List.mem_cons_self
      · exact List.mem_cons_of_mem start (hds d hd)
  have hle := List.Nodup.length_le_of_subset (List.nodup_cons.2 ⟨hmissing, hnodup⟩) hsubset
  rw [List.length_cons, List.length_cons] at hle
  omega

theorem Exploring.next {c : ClassTy} {queue fresh : List ClassTy} {visited noted : List ClassId}
    (h : Exploring s start ancestor (c :: queue) visited)
    (hsight : sight ancestor (s.directSupertypes c) visited [] = .missed noted fresh) :
    Exploring s start ancestor (queue ++ fresh) noted ∧
      noted.length + queue.length = visited.length + (queue ++ fresh).length := by
  obtain ⟨new, hfresh, hnoted⟩ := sight_missed hsight
  have hfresh : fresh = new := hfresh
  subst hfresh
  have hmem {d : ClassId} : d ∈ noted ↔ (∃ t ∈ fresh, t.id = d) ∨ d ∈ visited := by
    rw [hnoted.eq, List.mem_append, List.mem_reverse, List.mem_map]
  have hinherits := h.inherited_supers
  refine ⟨⟨hnoted.nodup h.nodup, ?_, hmem.2 (.inr h.started), ?_, ?_, ?_⟩, ?_⟩
  · intro ha
    rcases hmem.1 ha with ⟨t, ht, hid⟩ | ha
    · exact hnoted.missing t (hnoted.among t ht) hid
    · exact h.missing ha
  · intro d hd
    rcases hmem.1 hd with ⟨t, ht, rfl⟩ | hd
    · exact .inr (hinherits t (hnoted.among t ht))
    · exact h.inherited d hd
  · intro t ht
    rcases List.mem_append.1 ht with ht | ht
    · exact hmem.2 (.inr (h.queued t (List.mem_cons_of_mem c ht)))
    · exact hmem.2 (.inl ⟨t, ht, rfl⟩)
  · intro d hd
    rw [List.map_append, List.mem_append]
    rcases hmem.1 hd with ⟨t, ht, rfl⟩ | hd
    · exact .inl (.inr (List.mem_map_of_mem ht))
    · rcases h.closed d hd with hqueue | hsupers
      · rw [List.map_cons, List.mem_cons] at hqueue
        rcases hqueue with rfl | hqueue
        · refine .inr fun e he => ?_
          rw [← map_id_directSupertypes, List.mem_map] at he
          obtain ⟨t, ht, rfl⟩ := he
          exact hnoted.all t ht
        · exact .inl (.inl hqueue)
      · exact .inr fun e he => hmem.2 (.inr (hsupers e he))
  · rw [hnoted.eq, List.length_append, List.length_append, List.length_reverse, List.length_map]
    omega

theorem Exploring.queue_ne_nil {visited : List ClassId}
    (h : Exploring s start ancestor [] visited) : ¬Ancestor s start ancestor := by
  intro hanc
  have hclosed : ∀ d, Ancestor s start d → d ∈ visited := by
    intro d hd
    induction hd with
    | single hsuper => exact (h.closed _ h.started).resolve_left List.not_mem_nil _ hsuper
    | tail _ hsuper ih => exact (h.closed _ ih).resolve_left List.not_mem_nil _ hsuper
  exact h.missing (hclosed ancestor hanc)

theorem searchAncestor_isSome {n : Nat} {queue : List ClassTy} {visited : List ClassId}
    (hfew : FewAncestors s start) (hanc : Ancestor s start ancestor)
    (h : Exploring s start ancestor queue visited)
    (hfuel : n + visited.length = Limits.hierarchy + queue.length) :
    (s.searchAncestor ancestor n queue visited).isSome = true := by
  induction n generalizing queue visited with
  | zero =>
    have hlt := length_lt_of_inherited hfew hanc h.nodup h.missing h.inherited
    omega
  | succ n ih =>
    cases queue with
    | nil => exact absurd hanc h.queue_ne_nil
    | cons c queue =>
      rw [searchAncestor]
      cases hsight : sight ancestor (s.directSupertypes c) visited [] with
      | found args => rfl
      | full =>
        obtain ⟨noted, hnodup, hmissing, hfull, hfrom⟩ := sight_full hsight h.nodup h.missing
        have hinherited : ∀ d ∈ noted, d = start ∨ Ancestor s start d := by
          intro d hd
          rcases hfrom d hd with hd | ⟨t, ht, rfl⟩
          · exact h.inherited d hd
          · exact .inr (h.inherited_supers t ht)
        have hlt := length_lt_of_inherited hfew hanc hnodup hmissing hinherited
        omega
      | missed noted fresh =>
        obtain ⟨hnext, hlength⟩ := h.next hsight
        rw [List.length_cons] at hfuel
        exact ih hnext (by omega)

theorem ancestorArgs_isSome {c : ClassTy} {d : ClassId} (hfew : FewAncestors s c.id)
    (hanc : Ancestor s c.id d) : (s.ancestorArgs c d).isSome = true := by
  unfold ancestorArgs
  split
  · rfl
  · rename_i hid
    split
    · rfl
    · exact searchAncestor_isSome hfew hanc (exploring_start s hid) rfl

/-- What holds of a class type and passes to supertypes holds of what is found in a search. -/
theorem searchAncestor_invariant {P : ClassTy → Prop}
    (hsupers : ∀ c, P c → ∀ t ∈ s.directSupertypes c, P t) {n : Nat} {queue : List ClassTy}
    {visited : List ClassId} {args : List Ty} (hqueue : ∀ c ∈ queue, P c)
    (h : s.searchAncestor ancestor n queue visited = some args) : P ⟨ancestor, args⟩ := by
  induction n generalizing queue visited with
  | zero => cases h
  | succ n ih =>
    cases queue with
    | nil => cases h
    | cons c queue =>
      have hc := hsupers c (hqueue c List.mem_cons_self)
      rw [searchAncestor] at h
      cases hsight : sight ancestor (s.directSupertypes c) visited [] with
      | found found =>
        rw [hsight] at h
        obtain ⟨⟨d, found⟩, ht, rfl, rfl⟩ := sight_found hsight
        cases h
        exact hc _ ht
      | full =>
        rw [hsight] at h
        cases h
      | missed noted fresh =>
        rw [hsight] at h
        obtain ⟨new, hfresh, hnoted⟩ := sight_missed hsight
        refine ih ?_ h
        intro t ht
        rcases List.mem_append.1 ht with ht | ht
        · exact hqueue t (List.mem_cons_of_mem c ht)
        · rw [hfresh] at ht
          exact hc t (hnoted.among t ht)

theorem ancestorArgs_invariant {P : ClassTy → Prop}
    (hsupers : ∀ c, P c → ∀ t ∈ s.directSupertypes c, P t) {c : ClassTy} {d : ClassId}
    {args : List Ty} (hc : P c) (h : s.ancestorArgs c d = some args) :
    (d = s.root ∧ args = []) ∨ P ⟨d, args⟩ := by
  unfold ancestorArgs at h
  split at h
  · rename_i hid
    cases h
    subst hid
    exact .inr hc
  · split at h
    · rename_i hroot
      cases h
      exact .inl ⟨hroot, rfl⟩
    · refine .inr (searchAncestor_invariant hsupers ?_ h)
      exact fun c' hc' => List.mem_singleton.1 hc' ▸ hc

theorem ancestor_of_ancestorArgs {c : ClassTy} {d : ClassId} {args : List Ty}
    (h : s.ancestorArgs c d = some args) : d = c.id ∨ d = s.root ∨ Ancestor s c.id d := by
  have hsupers : ∀ e : ClassTy, (e.id = c.id ∨ Ancestor s c.id e.id) →
      ∀ t ∈ s.directSupertypes e, t.id = c.id ∨ Ancestor s c.id t.id := by
    intro e he t ht
    have hsuper : t.id ∈ s.supers e.id := by
      rw [← map_id_directSupertypes]
      exact List.mem_map_of_mem ht
    rcases he with he | he
    · rw [he] at hsuper
      exact .inr (.single hsuper)
    · exact .inr (.tail he hsuper)
  unfold ancestorArgs at h
  split at h
  · rename_i hid
    exact .inl hid.symm
  · split at h
    · rename_i hroot
      exact .inr (.inl hroot)
    · have hqueue : ∀ e ∈ [c], e.id = c.id ∨ Ancestor s c.id e.id :=
        fun e he => .inl (List.mem_singleton.1 he ▸ rfl)
      rcases searchAncestor_invariant hsupers hqueue h with hd | hd
      · exact .inl hd
      · exact .inr (.inr hd)

/-! ### Reachable classes -/

theorem mem_collectClasses {n : Nat} {queue found : List ClassId} {c : ClassId}
    (h : c ∈ s.collectClasses n queue found) :
    c ∈ found ∨ ∃ d ∈ queue, d = c ∨ Ancestor s d c := by
  induction n generalizing queue found with
  | zero => exact .inl (List.mem_reverse.1 h)
  | succ n ih =>
    rw [collectClasses] at h
    split at h
    · exact .inl (List.mem_reverse.1 h)
    · rename_i d rest hd
      have hsuffix : d :: rest ⊆ queue := hd ▸ (List.dropWhile_sublist _).subset
      have hdqueue := hsuffix List.mem_cons_self
      rcases ih h with hfound | ⟨e, he, hreach⟩
      · rcases List.mem_cons.1 hfound with rfl | hfound
        · exact .inr ⟨c, hdqueue, .inl rfl⟩
        · exact .inl hfound
      · rcases List.mem_append.1 he with he | he
        · exact .inr ⟨e, hsuffix (List.mem_cons_of_mem d he), hreach⟩
        · have hsuper : Ancestor s d e := .single he
          rcases hreach with rfl | hreach
          · exact .inr ⟨d, hdqueue, .inr hsuper⟩
          · exact .inr ⟨d, hdqueue, .inr (hsuper.trans hreach)⟩

/-- Every class collected is the root class, one of those the search starts from, or an ancestor of
such a one. -/
theorem mem_reachable {starts : List ClassId} {c : ClassId} (h : c ∈ s.reachable starts) :
    ∃ d, (d ∈ starts ∨ d = s.root) ∧ (d = c ∨ Ancestor s d c) := by
  rcases mem_collectClasses h with hnil | ⟨d, hd, hreach⟩
  · cases hnil
  · rw [List.mem_append, List.mem_singleton] at hd
    exact ⟨d, hd, hreach⟩

theorem not_ancestor_of_supers_eq_nil {c d : ClassId} (h : s.supers c = []) :
    ¬Ancestor s c d := by
  intro hanc
  induction hanc with
  | single hsuper =>
    rw [h] at hsuper
    exact List.not_mem_nil hsuper
  | tail _ _ ih => exact ih

end GenericCalls.Store
