import Mathlib.Data.List.Forall2

/-! # Lists under computations that may fail

A computation that may fail, taken through a list, succeeds if it does at each element, and the
results then stand place by place beside the elements. -/

namespace GenericCalls

variable {α β γ δ ε : Type}

/-! ### Results -/

theorem exists_of_bind_ok {m : Except ε α} {f : α → Except ε β} {b : β} (h : m >>= f = .ok b) :
    ∃ a, m = .ok a ∧ f a = .ok b := by
  cases m with
  | error err => cases h
  | ok a => exact ⟨a, rfl, h⟩

theorem forall₂_of_mapM_ok {f : α → Except ε β} {as : List α} {bs : List β}
    (h : as.mapM f = .ok bs) : List.Forall₂ (fun a b => f a = .ok b) as bs := by
  induction as generalizing bs with
  | nil =>
    cases h
    exact .nil
  | cons a as ih =>
    rw [List.mapM_cons] at h
    obtain ⟨b, hb, h⟩ := exists_of_bind_ok h
    obtain ⟨bs', hbs, h⟩ := exists_of_bind_ok h
    cases h
    exact .cons hb (ih hbs)

theorem exists_mem_of_forall₂ {R : α → β → Prop} {l : List α} {l' : List β}
    (h : List.Forall₂ R l l') {a : α} (ha : a ∈ l) : ∃ b ∈ l', R a b := by
  induction h with
  | nil => cases ha
  | cons hab _ ih =>
    rcases List.mem_cons.1 ha with rfl | ha
    · exact ⟨_, List.mem_cons_self, hab⟩
    · obtain ⟨b, hb, hR⟩ := ih ha
      exact ⟨b, List.mem_cons_of_mem _ hb, hR⟩

/-! ### Optional results -/

theorem mapM_isSome_iff {f : α → Option β} {xs : List α} :
    (xs.mapM f).isSome = true ↔ ∀ x ∈ xs, (f x).isSome = true := by
  induction xs with
  | nil => exact ⟨nofun, fun _ => rfl⟩
  | cons x xs ih =>
    rw [List.mapM_cons, List.forall_mem_cons, ← ih]
    cases f x with
    | none => exact ⟨nofun, fun h => h.1⟩
    | some y =>
      cases xs.mapM f with
      | none => exact ⟨nofun, fun h => h.2⟩
      | some ys => exact ⟨fun _ => ⟨rfl, rfl⟩, fun _ => rfl⟩

theorem mapM_eq_some_iff {f : α → Option β} {xs : List α} {ys : List β} :
    xs.mapM f = some ys ↔ xs.map f = ys.map some := by
  induction xs generalizing ys with
  | nil => cases ys <;> simp
  | cons x xs ih =>
    rw [List.mapM_cons]
    cases hx : f x with
    | none => cases ys <;> simp [hx]
    | some y =>
      cases hxs : xs.mapM f with
      | none =>
        have hnone : ∀ zs : List β, xs.map f ≠ zs.map some := by
          intro zs hzs
          rw [← ih, hxs] at hzs
          cases hzs
        cases ys with
        | nil => simp [hx]
        | cons z zs => simp [hx, hnone zs]
      | some zs =>
        have hzs := ih.1 hxs
        cases ys with
        | nil => simp [hx]
        | cons w ws =>
          have hmap : zs.map some = ws.map some ↔ zs = ws :=
            List.map_inj_right fun _ _ => Option.some.inj
          simp [hx, hzs, hmap]

theorem mapM_congr_of_eq_some {f g : α → Option β} {xs : List α} {ys : List β}
    (h : xs.mapM f = some ys) (hfg : ∀ x ∈ xs, ∀ y, f x = some y → g x = some y) :
    xs.mapM g = some ys := by
  rw [mapM_eq_some_iff] at h ⊢
  rw [← h]
  refine List.map_congr_left fun x hx => ?_
  have hmem : f x ∈ ys.map some := h ▸ List.mem_map_of_mem hx
  obtain ⟨y, -, hy⟩ := List.mem_map.1 hmem
  rw [hfg x hx y hy.symm, hy]

theorem mapM_eq_map_map {f : α → Option β} {g : α → Option γ} {h : β → γ}
    (hg : ∀ x, g x = (f x).map h) (xs : List α) : xs.mapM g = (xs.mapM f).map (List.map h) := by
  induction xs with
  | nil => rfl
  | cons x xs ih =>
    rw [List.mapM_cons, List.mapM_cons, hg, ih]
    cases f x with
    | none => rfl
    | some y => cases xs.mapM f <;> rfl

theorem findSome?_map_eq {f : β → Option γ} {g : α → Option δ} {k : α → β}
    {h : δ → γ} (hf : ∀ x, f (k x) = (g x).map h) (xs : List α) :
    (xs.map k).findSome? f = (xs.findSome? g).map h := by
  induction xs with
  | nil => rfl
  | cons x xs ih =>
    rw [List.map_cons, List.findSome?_cons, List.findSome?_cons, hf, ih]
    cases g x <;> rfl

theorem filterMap_map_eq {f : β → Option γ} {g : α → Option δ} {k : α → β}
    {h : δ → γ} (hf : ∀ x, f (k x) = (g x).map h) (xs : List α) :
    (xs.map k).filterMap f = (xs.filterMap g).map h := by
  rw [List.filterMap_map, List.map_filterMap]
  exact congrArg (List.filterMap · xs) (funext hf)

end GenericCalls
