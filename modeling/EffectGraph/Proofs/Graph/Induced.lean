/-
What callers inherit when functions are left out.

The functions that stay make up an induced subgraph: they keep the calls
between them and lose the others. With fewer calls there is less to inherit,
so no pass over the results that stay adds anything that the same pass does
not add with all functions there. A pass may meet results that already differ,
because the pass before it added less; `updateLast_forall₂` carries a relation
between the two lists of results through a pass.
-/
import EffectGraph.Proofs.Graph.Part
import EffectGraph.Proofs.Model.Analysis

namespace EffectGraph

/-! ## Related results -/

section Results

variable {α : Type} {R : α → α → Prop} {idOf : α → String} {update : α → α} {results results' : List α}

theorem any_id_forall₂ (h : List.Forall₂ R results results') (hid : ∀ {a b}, R a b → idOf b = idOf a)
    (id : String) : results'.any (idOf · == id) = results.any (idOf · == id) := by
  induction h with
  | nil => rfl
  | cons hab _ ih => rw [List.any_cons, List.any_cons, ih, hid hab]

theorem lastWith_forall₂ (h : List.Forall₂ R results results')
    (hid : ∀ {a b}, R a b → idOf b = idOf a) {id : String} {b : α}
    (hb : lastWith idOf results' id = some b) : ∃ a, lastWith idOf results id = some a ∧ R a b := by
  induction h with
  | nil => cases hb
  | @cons a b' rest rest' hab hrest ih =>
    rw [lastWith_cons, Option.or_eq_some_iff] at hb
    rcases hb with hb | ⟨hnone, hb⟩
    · obtain ⟨a', ha', hR⟩ := ih hb
      exact ⟨a', by rw [lastWith_cons, ha', Option.some_or], hR⟩
    · have hnone' : lastWith idOf rest id = none := by
        rw [← Option.not_isSome_iff_eq_none, isSome_lastWith, ← any_id_forall₂ hrest hid,
          ← isSome_lastWith, hnone]
        simp
      split at hb
      · next he =>
        cases hb
        refine ⟨a, ?_, hab⟩
        rw [lastWith_cons, hnone', Option.none_or, if_pos (hid hab ▸ he)]
      · cases hb

/-- Results stay related if whatever changes on the right changes on the left too. -/
theorem updateLast_forall₂ {ids ids' : List String} (h : List.Forall₂ R results results')
    (hid : ∀ {a b}, R a b → idOf b = idOf a) (hleft : ∀ {a b}, R a b → R (update a) b)
    (hboth : ∀ {a b}, R a b → R (update a) (update b))
    (hids : ∀ a ∈ results, idOf a ∈ ids' → idOf a ∈ ids) :
    List.Forall₂ R (updateLast idOf ids update results) (updateLast idOf ids' update results') := by
  induction h with
  | nil => exact .nil
  | @cons a b rest rest' hab hrest ih =>
    rw [updateLast, updateLast]
    refine .cons ?_ (ih fun c hc => hids c (List.mem_cons_of_mem a hc))
    rw [hid hab, any_id_forall₂ hrest hid]
    have hmem := hids a List.mem_cons_self
    cases hany : rest.any (idOf · == idOf a) with
    | true => simpa using hab
    | false =>
      by_cases h' : idOf a ∈ ids'
      · simpa [h', hmem h'] using hboth hab
      · by_cases h : idOf a ∈ ids
        · simpa [h, h'] using hleft hab
        · simpa [h, h'] using hab

end Results

/-- The functions inside make up a graph: they call there what they call in the whole graph, as far
as it is inside. Ids tell what is inside from what is outside. -/
structure Induced (g g' : CallGraph) (inside : Label → Bool) (labels : List Label) : Prop where
  separate : ∀ a ∈ labels, ∀ b ∈ labels, a.id = b.id → inside a = true → inside b = true
  calls : ∀ {a b}, Part.Has inside labels a →
    (g'.Calls a b ↔ g.Calls a b ∧ Part.Has inside labels b)

namespace PurityResult

/-- A result that is pure stays pure. -/
def StaysPure (r r' : PurityResult) : Prop :=
  r'.label = r.label ∧ (r.isPure = true → r'.isPure = true)

theorem impure_addReason {r : PurityResult} (hr : r.isPure = r.reasons.isEmpty) (reason : String) :
    (r.addReason reason).2.isPure = false ∧ (r.addReason reason).2.reasons.isEmpty = false := by
  unfold addReason
  split
  · next h =>
    have hne : r.reasons.isEmpty = false := by
      cases hreasons : r.reasons with
      | nil => simp [hreasons] at h
      | cons x xs => rfl
    exact ⟨hr.trans hne, hne⟩
  · simp

end PurityResult

namespace AsyncResult

/-- The issues that callers inherit are told by their messages. -/
def Tame (r : AsyncResult) : Prop :=
  ∀ i ∈ r.issues, ∀ k ∈ [callsUnsafe, callsAwaitable], i.message = k.message → i = k

/-- A result with no other issues. -/
structure Fewer (r r' : AsyncResult) : Prop where
  label : r'.label = r.label
  issues : r'.issues ⊆ r.issues
  tame : r.Tame

theorem Tame.mem_addIssue {r : AsyncResult} (h : r.Tame) {issue : AsyncIssue}
    (hissue : issue ∈ [callsUnsafe, callsAwaitable]) : issue ∈ (r.addIssue issue).2.issues := by
  unfold addIssue
  split
  · next hr =>
    -- The issue is there already, because nothing else has its message.
    obtain ⟨i, hi, he⟩ := List.any_eq_true.1 hr
    rw [← h i hi issue hissue (eq_of_beq he)]
    exact hi
  · simp

theorem Tame.addIssue {r : AsyncResult} (h : r.Tame) {issue : AsyncIssue}
    (hissue : issue ∈ [callsUnsafe, callsAwaitable]) : (r.addIssue issue).2.Tame := by
  intro i hi k hk he
  rcases mem_issues_addIssue hi with hi | rfl
  · exact h i hi k hk he
  · have hne : callsUnsafe.message ≠ callsAwaitable.message := by decide
    simp only [List.mem_cons, List.not_mem_nil, or_false] at hissue hk
    rcases hissue with rfl | rfl <;> rcases hk with rfl | rfl
    · rfl
    · exact absurd he hne
    · exact absurd he.symm hne
    · rfl

namespace Fewer

variable {r r' : AsyncResult} {issue : AsyncIssue}

theorem id (h : Fewer r r') : r'.id = r.id := congrArg Label.id h.label

theorem left (h : Fewer r r') (hissue : issue ∈ [callsUnsafe, callsAwaitable]) :
    Fewer (r.addIssue issue).2 r' where
  label := by rw [label_addIssue, h.label]
  issues := List.Subset.trans h.issues (r.issues_subset_addIssue issue)
  tame := h.tame.addIssue hissue

theorem both (h : Fewer r r') (hissue : issue ∈ [callsUnsafe, callsAwaitable]) :
    Fewer (r.addIssue issue).2 (r'.addIssue issue).2 where
  label := by rw [label_addIssue, label_addIssue, h.label]
  issues := by
    intro i hi
    rcases mem_issues_addIssue hi with hi | rfl
    · exact r.issues_subset_addIssue issue (h.issues hi)
    · exact h.tame.mem_addIssue hissue
  tame := h.tame.addIssue hissue

theorem carriesAny {messages : List String} (h : Fewer r r') (hc : carriesAny messages r' = true) :
    AsyncResult.carriesAny messages r = true := by
  obtain ⟨i, hi, hmessage⟩ := List.any_eq_true.1 hc
  exact List.any_eq_true.2 ⟨i, h.issues hi, hmessage⟩

end Fewer

end AsyncResult

namespace Induced

variable {g g' : CallGraph} {inside : Label → Bool} {labels : List Label}

theorem inherits (ind : Induced g g' inside labels) {accepts accepts' : String → Bool}
    {starts starts' : List String}
    (haccepts : ∀ {a}, Part.Has inside labels a → accepts' a = true → accepts a = true)
    (hstarts : ∀ {a}, Part.Has inside labels a → a ∈ starts' → a ∈ starts) {a : String}
    (ha : Part.Has inside labels a) (h : a ∈ g'.spread accepts' starts') :
    a ∈ g.spread accepts starts := by
  rw [CallGraph.mem_spread] at *
  exact h.transfer (fun hS hab => (ind.calls hS).1 hab) haccepts hstarts ha

section Results

variable {α : Type} {label : α → Label} {results : List α}
  (ind : Induced g g' inside (results.map label))

include ind

/-- A pass that changes on the right only what it changes on the left keeps the results that stay
related. -/
theorem updateLast_related {R : α → α → Prop} {results' : List α} {update : α → α}
    {ids ids' : List String}
    (h : List.Forall₂ R (results.filter fun r => inside (label r)) results')
    (hlabel : ∀ {a b}, R a b → label b = label a) (hupdate : ∀ r, label (update r) = label r)
    (hleft : ∀ {a b}, R a b → R (update a) b) (hboth : ∀ {a b}, R a b → R (update a) (update b))
    (hids : ∀ {id}, Part.Has inside (results.map label) id → id ∈ ids' → id ∈ ids) :
    List.Forall₂ R
      ((updateLast (fun r => (label r).id) ids update results).filter fun r => inside (label r))
      (updateLast (fun r => (label r).id) ids' update results') := by
  rw [Part.updateLast_filter (fun r => by rw [hupdate]) fun r hr s hs =>
    ind.separate _ (List.mem_map_of_mem hr) _ (List.mem_map_of_mem hs)]
  refine updateLast_forall₂ h (fun hab => congrArg Label.id (hlabel hab)) hleft hboth ?_
  intro a ha
  obtain ⟨ha, hinside⟩ := List.mem_filter.1 ha
  exact hids ⟨label a, List.mem_map_of_mem ha, hinside, rfl⟩

end Results

/-! ## The passes -/

theorem propagate_purity {results : List PurityResult}
    (ind : Induced g g' inside (results.map (·.label)))
    (hown : ∀ r ∈ results, r.isPure = r.reasons.isEmpty) :
    List.Forall₂ PurityResult.StaysPure
      ((PurityResult.propagate g results).filter (inside ·.label))
      (PurityResult.propagate g' (results.filter (inside ·.label))) := by
  let R (r r' : PurityResult) : Prop :=
    r.isPure = r.reasons.isEmpty ∧ PurityResult.StaysPure r r'
  have hleft : ∀ {r r' s : PurityResult}, R r r' → s.label = r'.label →
      R (r.addReason PurityResult.callsImpure).2 s := by
    intro r r' s h hs
    obtain ⟨hpure, hreasons⟩ := PurityResult.impure_addReason h.1 PurityResult.callsImpure
    refine ⟨by rw [hpure, hreasons], ?_, fun hp => ?_⟩
    · rw [hs, h.2.1, PurityResult.label_addReason]
    · rw [hpure] at hp
      cases hp
  have hsame : List.Forall₂ R (results.filter (inside ·.label)) (results.filter (inside ·.label)) := by
    rw [List.forall₂_same]
    intro r hr
    exact ⟨hown r (List.mem_filter.1 hr).1, rfl, fun h => h⟩
  refine List.Forall₂.imp (fun r r' h => h.2) (ind.updateLast_related hsame (fun h => h.2.1)
    (fun r => r.label_addReason _) (fun h => hleft h rfl)
    (fun h => hleft h (PurityResult.label_addReason _ _)) ?_)
  intro id hid
  refine ind.inherits (fun ha => ?_) (fun _ ha => ?_) hid
  · intro hc
    unfold PurityResult.canChange at hc ⊢
    rwa [show PurityResult.id = fun r : PurityResult => r.label.id from rfl, Part.lastWith_inside ind.separate ha]
      at hc
  · obtain ⟨r, hr, rfl⟩ := List.mem_map.1 ha
    obtain ⟨hr, himpure⟩ := List.mem_filter.1 hr
    exact List.mem_map.2 ⟨r, List.mem_filter.2 ⟨(List.mem_filter.1 hr).1, himpure⟩, rfl⟩

theorem propagate_risk {results results' : List AsyncResult}
    (ind : Induced g g' inside (results.map (·.label)))
    (h : List.Forall₂ AsyncResult.Fewer (results.filter (inside ·.label)) results')
    (hfree : ∀ r ∈ results, ∀ i ∈ r.issues, i.message ≠ AsyncResult.callsUnsafe.message) :
    List.Forall₂ AsyncResult.Fewer ((AsyncResult.propagateRisk g results).filter (inside ·.label))
      (AsyncResult.propagateRisk g' results') := by
  refine ind.updateLast_related h (fun h => h.label) (fun r => r.label_addIssue _)
    (fun h => h.left (by simp)) (fun h => h.both (by simp)) ?_
  intro id hid
  refine ind.inherits (fun {a} ha hlacks => ?_) (fun _ ha => ?_) hid
  · -- No result has the message yet, so each function with a result can take it on.
    unfold AsyncResult.lacks at hlacks ⊢
    cases hb : lastWith AsyncResult.id results' a with
    | none => simp [hb] at hlacks
    | some r' =>
      obtain ⟨r, hr, -⟩ := lastWith_forall₂ h (fun h => h.id) hb
      have hr' : lastWith AsyncResult.id results a = some r :=
        (Part.lastWith_inside ind.separate ha).symm.trans hr
      have hmem := hfree r (mem_of_lastWith hr').1
      simpa [hr', AsyncResult.hasIssue] using hmem
  · obtain ⟨r', hr', rfl⟩ := List.mem_map.1 ha
    obtain ⟨hr', herror⟩ := List.mem_filter.1 hr'
    obtain ⟨r, hr, hfewer⟩ := exists_of_mem_right h hr'
    obtain ⟨i, hi, hseverity⟩ := List.any_eq_true.1 herror
    refine List.mem_map.2 ⟨r, List.mem_filter.2 ⟨(List.mem_filter.1 hr).1, ?_⟩, hfewer.id.symm⟩
    exact List.any_eq_true.2 ⟨i, hfewer.issues hi, hseverity⟩

theorem propagate_returns {messages : List String} (hw : AsyncResult.callsAwaitable.message ∉ messages)
    {results results' : List AsyncResult} (ind : Induced g g' inside (results.map (·.label)))
    (h : List.Forall₂ AsyncResult.Fewer (results.filter (inside ·.label)) results') :
    List.Forall₂ AsyncResult.Fewer
      ((AsyncResult.propagateReturns g messages results).filter (inside ·.label))
      (AsyncResult.propagateReturns g' messages results') := by
  rw [AsyncResult.propagateReturns_eq hw, AsyncResult.propagateReturns_eq hw]
  refine ind.updateLast_related h (fun h => h.label) (fun r => r.label_addIssue _)
    (fun h => h.left (by simp)) (fun h => h.both (by simp)) ?_
  intro id hid hflag
  rw [AsyncResult.mem_flagged] at hflag ⊢
  obtain ⟨b, hab, hcarries⟩ := hflag
  obtain ⟨hab, hb⟩ := (ind.calls hid).1 hab
  refine ⟨b, hab, ?_⟩
  unfold AsyncResult.carries at hcarries ⊢
  cases hlast : lastWith AsyncResult.id results' b with
  | none => simp [hlast] at hcarries
  | some r' =>
    obtain ⟨r, hr, hfewer⟩ := lastWith_forall₂ h (fun h => h.id) hlast
    have hr' : lastWith AsyncResult.id results b = some r :=
      (Part.lastWith_inside ind.separate hb).symm.trans hr
    rw [hr']
    exact hfewer.carriesAny (by simpa [hlast] using hcarries)

end Induced

end EffectGraph
