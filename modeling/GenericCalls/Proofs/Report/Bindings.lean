import GenericCalls.Proofs.Report.Best
import GenericCalls.Proofs.Scenario.Receivers
import GenericCalls.Proofs.Scenario.References
import GenericCalls.Report.Json

/-! # Bindings in reports

A report in JSON shows the bindings of a candidate as an object with the names of the parameters as
keys. Two parameters of one name share an entry, which is that of the later binding. A report in
text shows every binding. -/

namespace GenericCalls

namespace KeyedList

variable {κ ν : Type} [DecidableEq κ] {m : KeyedList κ ν} {l : List (κ × ν)} {j k : κ} {x y : ν}

/-! ### Lists put one by one -/

/-- Under the key `k` there is the value `x` in a list, and no other value behind it. -/
def Last (l : List (κ × ν)) (k : κ) (x : ν) : Prop :=
  ∃ before after, l = before ++ (k, x) :: after ∧ k ∉ after.map Prod.fst

omit [DecidableEq κ] in
theorem last_cons_iff :
    Last ((j, y) :: l) k x ↔ Last l k x ∨ (j = k ∧ y = x) ∧ k ∉ l.map Prod.fst := by
  constructor
  · rintro ⟨before, after, heq, hafter⟩
    cases before with
    | nil =>
      cases heq
      exact .inr ⟨⟨rfl, rfl⟩, hafter⟩
    | cons e before =>
      cases heq
      exact .inl ⟨before, after, rfl, hafter⟩
  · rintro (⟨before, after, rfl, hafter⟩ | ⟨⟨rfl, rfl⟩, hafter⟩)
    · exact ⟨(j, y) :: before, after, rfl, hafter⟩
    · exact ⟨[], l, rfl, hafter⟩

theorem get?_putAll_eq_some_iff :
    (m.putAll l).get? k = some x ↔ Last l k x ∨ k ∉ l.map Prod.fst ∧ m.get? k = some x := by
  unfold putAll
  induction l generalizing m with
  | nil => simp [Last]
  | cons e l ih =>
    obtain ⟨j, y⟩ := e
    rw [List.foldl_cons, ih, last_cons_iff, get?_put, List.map_cons, List.mem_cons]
    by_cases hj : j = k
    · subst hj
      simp only [if_true, Option.some.injEq, true_and, true_or, not_true, false_and, or_false]
      tauto
    · simp only [hj, Ne.symm hj, if_false, false_and, or_false, false_or]

theorem mem_entries_ofList_iff : (k, x) ∈ (ofList l).entries ↔ Last l k x := by
  rw [mem_entries_iff, ofList, get?_putAll_eq_some_iff, get?_empty]
  simp

theorem mem_keys_put : j ∈ (m.put k x).keys ↔ j = k ∨ j ∈ m.keys := by
  rw [keys_put]
  split
  · rename_i hk
    exact ⟨.inr, fun h => h.elim (fun hj => hj ▸ hk) id⟩
  · rw [List.mem_append, List.mem_singleton, or_comm]

theorem size_put : (m.put k x).size = if k ∈ m.keys then m.size else m.size + 1 := by
  rw [← length_keys, keys_put]
  split
  · exact m.length_keys
  · rw [List.length_append, length_keys, List.length_singleton]

theorem size_putAll_le (m : KeyedList κ ν) (l : List (κ × ν)) :
    (m.putAll l).size ≤ m.size + l.length := by
  unfold putAll
  induction l generalizing m with
  | nil => exact Nat.le_refl _
  | cons e l ih =>
    have hput : (m.put e.1 e.2).size ≤ m.size + 1 := by
      rw [size_put]
      split <;> omega
    have hrest := ih (m.put e.1 e.2)
    rw [List.foldl_cons, List.length_cons]
    omega

theorem size_putAll_eq_iff : (m.putAll l).size = m.size + l.length ↔
    (l.map Prod.fst).Nodup ∧ ∀ k ∈ l.map Prod.fst, k ∉ m.keys := by
  induction l generalizing m with
  | nil => simp [putAll]
  | cons e l ih =>
    have hstep : m.putAll (e :: l) = (m.put e.1 e.2).putAll l := rfl
    rw [hstep, List.map_cons, List.nodup_cons, List.forall_mem_cons, List.length_cons]
    by_cases hk : e.1 ∈ m.keys
    · have hle := size_putAll_le (m.put e.1 e.2) l
      have hput : (m.put e.1 e.2).size = m.size := by rw [size_put, if_pos hk]
      refine iff_of_false (by omega) fun h => h.2.1 hk
    · have hput : (m.put e.1 e.2).size = m.size + 1 := by rw [size_put, if_neg hk]
      have hlength : m.size + (l.length + 1) = (m.put e.1 e.2).size + l.length := by omega
      rw [hlength, ih]
      simp only [mem_keys_put, not_or, forall_and]
      have hnew : (∀ j ∈ l.map Prod.fst, j ≠ e.1) ↔ e.1 ∉ l.map Prod.fst :=
        ⟨fun h hmem => h _ hmem rfl, fun h j hj heq => h (heq ▸ hj)⟩
      tauto

theorem entries_putAll (h : (l.map Prod.fst).Nodup) (hnew : ∀ k ∈ l.map Prod.fst, k ∉ m.keys) :
    (m.putAll l).entries = m.entries ++ l := by
  induction l generalizing m with
  | nil => exact (List.append_nil _).symm
  | cons e l ih =>
    have hstep : m.putAll (e :: l) = (m.put e.1 e.2).putAll l := rfl
    rw [List.map_cons, List.nodup_cons] at h
    rw [List.map_cons, List.forall_mem_cons] at hnew
    have hput : (m.put e.1 e.2).entries = m.entries ++ [e] := putEntry_of_not_mem e.2 hnew.1
    have hrest : ∀ k ∈ l.map Prod.fst, k ∉ (m.put e.1 e.2).keys := by
      intro k hk hmem
      rcases mem_keys_put.1 hmem with rfl | hmem
      · exact h.1 hk
      · exact hnew.2 k hk hmem
    rw [hstep, ih h.2 hrest, hput, List.append_assoc, List.singleton_append]

theorem size_ofList_eq_iff : (ofList l).size = l.length ↔ (l.map Prod.fst).Nodup := by
  have h := size_putAll_eq_iff (m := empty) (l := l)
  simpa [ofList, empty, size, keys] using h

theorem entries_ofList_eq_iff : (ofList l).entries = l ↔ (l.map Prod.fst).Nodup := by
  constructor
  · intro h
    exact size_ofList_eq_iff.1 (congrArg List.length h)
  · intro h
    exact entries_putAll (m := empty) h (by simp [empty, keys])

end KeyedList

/-! ### Parts of a report -/

namespace Json.Value

def field? (key : String) : Value → Option Value
  | .object entries => entries.lookup key
  | _ => none

def item? (i : Nat) : Value → Option Value
  | .array items => items[i]?
  | _ => none

end Json.Value

namespace Report

open Json (Value)
open Scenario (CallReport)

variable {s : Store} {σ : Substitution} {r : CallReport} {c : Candidate} {i : Nat}

/-- The bindings of a substitution, one by one: the name of the parameter and what it is bound to.
-/
def written (s : Store) (σ : Substitution) : List (String × Value) :=
  σ.toList.map fun (p, b) => (s.paramName p, bindingValue s b)

def bindingText : Value → String
  | .string t => t
  | _ => "<raw>"

/-- What a report in JSON has as substitution of the candidate in place `i`. -/
def substitutionAt? (report : Value) (i : Nat) : Option Value :=
  ((report.field? "candidates").bind (Value.item? i)).bind (Value.field? "substitution")

theorem substitutionAt?_callValue (hc : r.resolution.candidates[i]? = some c) :
    substitutionAt? (callValue s r) i =
      some (.object (KeyedList.ofList (written s c.substitution)).entries) := by
  have hitem : ((callValue s r).field? "candidates").bind (Value.item? i) =
      some (candidateValue s (decide (i < r.resolution.best.length)) c) := by
    show (r.resolution.candidates.mapIdx fun i c =>
      candidateValue s (decide (i < r.resolution.best.length)) c)[i]? = _
    rw [List.getElem?_mapIdx, hc, Option.map_some]
  unfold substitutionAt?
  rw [hitem]
  rfl

theorem showSubstitution_eq (s : Store) (σ : Substitution) :
    s.showSubstitution σ =
      "\x7b" ++ ", ".intercalate ((written s σ).map fun (name, v) =>
        name ++ " -> " ++ bindingText v) ++ "\x7d" := by
  have htext : ((written s σ).map fun (name, v) => name ++ " -> " ++ bindingText v) =
      σ.toList.map fun (p, b) => s.paramName p ++ " -> " ++ s.showBinding b := by
    unfold written
    rw [List.map_map]
    refine List.map_congr_left fun (p, b) _ => ?_
    cases b <;> rfl
  rw [htext]
  rfl

theorem nodup_names_written {ps : List ParamId} (hkeys : ∀ a ∈ σ.toList, a.1 ∈ ps)
    (hps : (ps.map s.paramName).Nodup) : ((written s σ).map Prod.fst).Nodup := by
  have hnames : (written s σ).map Prod.fst = σ.bindings.keys.map s.paramName := by
    unfold written KeyedList.keys
    rw [List.map_map, List.map_map]
    rfl
  have hmem : ∀ p ∈ σ.bindings.keys, p ∈ ps := List.forall_mem_map.2 hkeys
  rw [hnames]
  exact List.Nodup.map_on (fun p hp q hq => List.inj_on_of_nodup_map hps (hmem p hp) (hmem q hq))
    σ.bindings.keys_nodup

end Report

/-! ### Parameters in a report -/

namespace Scenario

open Engine

variable {d : Document} {sc : Scenario} {call : CallId}

/-- The type parameters that the receiver of a call binds: those of its class. -/
def receiverParams (s : Store) (e : CallEntry) : List ParamId :=
  match receiverTy s e with
  | .ok (some (.cls c _)) => s.classParams c
  | _ => []

theorem mem_of_get?_receiverBindings {s : Store} {c : ClassId} {args : List Ty} {p : ParamId}
    {b : Binding} (h : (receiverBindings s (.cls c args)).get? p = some b) :
    p ∈ s.classParams c := by
  cases args with
  | nil =>
    have h : (Substitution.empty.eraseAll (s.classParams c)).get? p = some b := h
    rw [Substitution.get?_eraseAll] at h
    split at h
    · assumption
    · cases h
  | cons t ts => exact (Substitution.get?_ofArgs h).1

theorem mem_receiverParams {s : Store} {e : CallEntry} {r : Option Ty} {p : ParamId} {b : Binding}
    (hr : receiverTy s e = .ok r)
    (h : ((r.map (receiverBindings s)).getD .empty).get? p = some b) : p ∈ receiverParams s e := by
  unfold receiverParams
  rw [hr]
  cases r with
  | none => cases h
  | some t =>
    cases t with
    | cls c args => exact mem_of_get?_receiverBindings h
    | _ => cases h

/-- A candidate of a ranked call of a loaded scenario binds type parameters of the receiver's class
and of its method only. -/
theorem binds_in_scope (hload : ofDocument d = .ok sc) {options : Options} {res : Resolution}
    (hrank : sc.rank options call = .ok res) {c : Candidate} (hc : c ∈ res.candidates) :
    ∃ e method, d.calls[call]? = some e ∧ sc.store.method? c.method = some method ∧
      ∀ a ∈ c.substitution.toList, a.1 ∈ receiverParams sc.store e ++ method.typeParams := by
  obtain ⟨rank, site, t, hsite, hrun⟩ := exists_run_of_rankCall hrank
  obtain ⟨as, u, _, hranked⟩ := ranked_of_rankSiteWith hrun
  obtain ⟨hranked, method, hmethod⟩ := hranked c hc
  obtain ⟨v, w, hσ⟩ := hranked.substituted method hmethod
  have houtside := (candidateAnswers_of_run hσ).outside
  obtain ⟨_, _, _, methods, slots, sites, _, hreads, hloads⟩ := exists_reads_of_ofDocument hload
  obtain ⟨e, he, hread⟩ := hloads.exists_read hreads hsite
  obtain ⟨r, hr, hgiven⟩ := hread.receiver
  refine ⟨e, method, he, hmethod, fun (p, b) hb => ?_⟩
  rw [List.mem_append, or_iff_not_imp_right]
  intro hp
  have hbound : c.substitution.get? p = some b := KeyedList.mem_entries_iff.1 hb
  rw [houtside.get?_eq hp, hgiven] at hbound
  exact mem_receiverParams hr hbound

end Scenario

namespace Report

open Json (Value)
open Scenario (CallReport receiverParams)

/-- In a report in JSON the substitution of a candidate has one entry for each name, with what the
last parameter of this name is bound to. These are all bindings, and those that the report in text
shows, exactly if the parameters that are bound have different names. They have if the type
parameters of the receiver's class and of the method do. -/
theorem entries_eq_written_iff {d : Scenario.Document} {sc : Scenario}
    (hload : Scenario.ofDocument d = .ok sc) {options : Options} {filter : List String}
    {reports : List CallReport} (hreports : sc.reportCalls options filter = .ok reports)
    {r : CallReport} (hr : r ∈ reports) {i : Nat} {c : Candidate}
    (hc : r.resolution.candidates[i]? = some c) :
    let shown := written sc.store c.substitution
    ∃ entries, substitutionAt? (callValue sc.store r) i = some (.object entries) ∧
      (entries.map Prod.fst).Nodup ∧
      (∀ name v, (name, v) ∈ entries ↔ KeyedList.Last shown name v) ∧
      (entries.length = c.substitution.size ↔ (shown.map Prod.fst).Nodup) ∧
      (entries = shown ↔ (shown.map Prod.fst).Nodup) ∧
      sc.store.showSubstitution c.substitution = "\x7b" ++ ", ".intercalate
        (shown.map fun (name, v) => name ++ " -> " ++ bindingText v) ++ "\x7d" ∧
      ∃ e method, e ∈ d.calls ∧ e.id = r.name ∧ sc.store.method? c.method = some method ∧
        let scope := receiverParams sc.store e ++ method.typeParams
        (∀ a ∈ c.substitution.toList, a.1 ∈ scope) ∧
        ((scope.map sc.store.paramName).Nodup → entries = shown) := by
  intro shown
  obtain ⟨call, hname, hrank⟩ := exists_call_of_reportCalls hreports hr
  obtain ⟨e, method, he, hmethod, hscope⟩ :=
    Scenario.binds_in_scope hload hrank (List.mem_of_getElem? hc)
  have hid : e.id = r.name := by
    obtain ⟨_, hnames, _⟩ := Scenario.exists_reads_of_ofDocument hload
    rw [hname, Scenario.callName?, hnames, List.getElem?_map, he]
    rfl
  have hsize : c.substitution.size = shown.length := (List.length_map _).symm
  refine ⟨_, substitutionAt?_callValue hc, (KeyedList.ofList shown).keys_nodup,
    fun name v => KeyedList.mem_entries_ofList_iff, ?_, KeyedList.entries_ofList_eq_iff,
    showSubstitution_eq sc.store c.substitution, e, method, List.mem_of_getElem? he, hid, hmethod,
    hscope, fun hnodup => KeyedList.entries_ofList_eq_iff.2 (nodup_names_written hscope hnodup)⟩
  rw [hsize]
  exact KeyedList.size_ofList_eq_iff

/-- A class `Box<T>` that declares a generic method `pick`, with a type parameter of some name that
is also the type of its formal, and a call of it with an integer for a `Box<String>`. -/
def pickDocument (name : String) : Scenario.Document where
  classes := [{ name := "Box", typeParams := [{ name := "T" }] }]
  methods := [{
    name := "pick"
    owner := some "Box"
    typeParams := [{ name }]
    params := [name]
    returns := some name }]
  calls := [{
    id := "pick"
    candidates := ["pick"]
    args := [.typed "Integer"]
    receiver := some "Box<String>" }]

def pickScenario (name : String) : Scenario :=
  (Scenario.ofDocument (pickDocument name)).toOption.getD default

/-- What the report on the call of `pick` shows of its only candidate: the names of the parameters
that are bound, as they are written one by one, and the entries in JSON. -/
def pickShows (name : String) (names : List String) (entries : List (String × String)) : Bool :=
  ((pickScenario name).reportCalls {} []).toOption.any fun reports =>
    reports.any fun r => r.resolution.candidates[0]?.any fun c =>
      let shown := written (pickScenario name).store c.substitution
      decide (shown.map Prod.fst = names) &&
        decide ((KeyedList.ofList shown).entries.map (fun e => (e.1, bindingText e.2)) = entries)

theorem exists_of_pickShows {name : String} {names : List String}
    {entries : List (String × String)} (h : pickShows name names entries = true) :
    ∃ reports r c, (pickScenario name).reportCalls {} [] = .ok reports ∧ r ∈ reports ∧
      r.resolution.candidates[0]? = some c ∧
      (written (pickScenario name).store c.substitution).map Prod.fst = names ∧
      (KeyedList.ofList (written (pickScenario name).store c.substitution)).entries.map
        (fun e => (e.1, bindingText e.2)) = entries := by
  obtain ⟨reports, hreports, hany⟩ := exists_ok_of_any h
  obtain ⟨r, hr, hany⟩ := List.any_eq_true.1 hany
  obtain ⟨c, hc, hshown⟩ := (Option.any_eq_true _ _).1 hany
  rw [Bool.and_eq_true, decide_eq_true_eq, decide_eq_true_eq] at hshown
  exact ⟨reports, r, c, hreports, hr, hc, hshown⟩

theorem entries_eq_written_pick :
    Scenario.ofDocument (pickDocument "U") = .ok (pickScenario "U") ∧
    ∃ reports r c entries, (pickScenario "U").reportCalls {} [] = .ok reports ∧ r ∈ reports ∧
      r.resolution.candidates[0]? = some c ∧
      substitutionAt? (callValue (pickScenario "U").store r) 0 = some (.object entries) ∧
      entries = written (pickScenario "U").store c.substitution ∧
      entries.map (fun e => (e.1, bindingText e.2)) = [("T", "String"), ("U", "Integer")] := by
  have hload : Scenario.ofDocument (pickDocument "U") = .ok (pickScenario "U") :=
    Scenario.ofDocument_eq_of_isSome (by decide +kernel)
  have hshows : pickShows "U" ["T", "U"] [("T", "String"), ("U", "Integer")] = true := by
    decide +kernel
  obtain ⟨reports, r, c, hreports, hr, hc, hnames, hshown⟩ := exists_of_pickShows hshows
  obtain ⟨entries, hentries, _, _, _, hall, _⟩ := entries_eq_written_iff hload hreports hr hc
  have heq := hall.2 (by rw [hnames]; decide)
  have hobject := hentries.symm.trans (substitutionAt?_callValue hc)
  refine ⟨hload, reports, r, c, entries, hreports, hr, hc, hentries, heq, ?_⟩
  cases hobject
  exact hshown

/-- Where the method has a type parameter of the name that the one of the class has, the string is
lost. -/
theorem pick_loses_string :
    Scenario.ofDocument (pickDocument "T") = .ok (pickScenario "T") ∧
    ∃ reports r c entries, (pickScenario "T").reportCalls {} [] = .ok reports ∧ r ∈ reports ∧
      r.resolution.candidates[0]? = some c ∧
      (written (pickScenario "T").store c.substitution).map Prod.fst = ["T", "T"] ∧
      substitutionAt? (callValue (pickScenario "T").store r) 0 = some (.object entries) ∧
      entries.map (fun e => (e.1, bindingText e.2)) = [("T", "Integer")] := by
  have hload : Scenario.ofDocument (pickDocument "T") = .ok (pickScenario "T") :=
    Scenario.ofDocument_eq_of_isSome (by decide +kernel)
  have hshows : pickShows "T" ["T", "T"] [("T", "Integer")] = true := by decide +kernel
  obtain ⟨reports, r, c, hreports, hr, hc, hnames, hshown⟩ := exists_of_pickShows hshows
  exact ⟨hload, reports, r, c, _, hreports, hr, hc, hnames, substitutionAt?_callValue hc, hshown⟩

end Report

end GenericCalls
