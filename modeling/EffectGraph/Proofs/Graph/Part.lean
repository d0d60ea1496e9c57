/-
What callers inherit inside a part of the functions.

A part that calls nothing outside of itself inherits nothing from outside. So
each pass over the results of all functions gives, for the functions of the
part, what the same pass gives over their results alone.
-/
import EffectGraph.Proofs.Graph.Propagation

namespace EffectGraph

variable {g g' : CallGraph}

/-- Some functions of a larger graph make up a smaller one. Ids tell what is inside from what is
outside, and what is inside calls the same in both graphs and nothing outside. -/
structure Part (g g' : CallGraph) (inside : Label → Bool) (labels : List Label) : Prop where
  separate : ∀ a ∈ labels, ∀ b ∈ labels, a.id = b.id → inside a = true → inside b = true
  callees : ∀ a ∈ labels, inside a = true → g'.callees a.id = g.callees a.id
  closed : ∀ a ∈ labels, inside a = true → ∀ v ∈ g.callees a.id,
    ∃ b ∈ labels, inside b = true ∧ b.id = v

/-- What inherits a finding in one graph inherits it in another one that has the calls. -/
theorem CallGraph.Inherits.transfer {S : String → Prop} {accepts accepts' : String → Bool}
    {starts starts' : List String} (hcalls : ∀ {a b}, S a → g.Calls a b → g'.Calls a b ∧ S b)
    (haccepts : ∀ {a}, S a → accepts a = true → accepts' a = true)
    (hstarts : ∀ {a}, S a → a ∈ starts → a ∈ starts') {a : String} (h : g.Inherits accepts starts a)
    (ha : S a) : g'.Inherits accepts' starts' a := by
  induction h with
  | direct hab hb hacc =>
    obtain ⟨hab, hS⟩ := hcalls ha hab
    exact .direct hab (hstarts hS hb) (haccepts ha hacc)
  | through hab _ hacc ih =>
    obtain ⟨hab, hS⟩ := hcalls ha hab
    exact .through hab (ih hS) (haccepts ha hacc)

namespace Part

variable {inside : Label → Bool} {labels : List Label}

/-- The ids inside. -/
def Has (inside : Label → Bool) (labels : List Label) (id : String) : Prop :=
  ∃ a ∈ labels, inside a = true ∧ a.id = id

theorem calls_iff (part : Part g g' inside labels) {a b : String} (ha : Has inside labels a) :
    g'.Calls a b ↔ g.Calls a b := by
  obtain ⟨label, hlabel, hinside, rfl⟩ := ha
  rw [← CallGraph.mem_callees, ← CallGraph.mem_callees, part.callees label hlabel hinside]

theorem has_of_calls (part : Part g g' inside labels) {a b : String} (ha : Has inside labels a)
    (h : g.Calls a b) : Has inside labels b := by
  obtain ⟨label, hlabel, hinside, rfl⟩ := ha
  exact part.closed label hlabel hinside b (CallGraph.mem_callees.2 h)

theorem inherits_iff (part : Part g g' inside labels) {accepts accepts' : String → Bool}
    {starts starts' : List String} (haccepts : ∀ {a}, Has inside labels a → accepts' a = accepts a)
    (hstarts : ∀ {a}, Has inside labels a → (a ∈ starts' ↔ a ∈ starts)) {a : String}
    (ha : Has inside labels a) : g'.Inherits accepts' starts' a ↔ g.Inherits accepts starts a := by
  constructor
  · intro h
    refine h.transfer (fun hS hab => ?_) (fun hS h => haccepts hS ▸ h) (fun hS => (hstarts hS).1) ha
    have hab := (part.calls_iff hS).1 hab
    exact ⟨hab, part.has_of_calls hS hab⟩
  · intro h
    refine h.transfer (fun hS hab => ?_) (fun hS h => (haccepts hS).symm ▸ h)
      (fun hS => (hstarts hS).2) ha
    exact ⟨(part.calls_iff hS).2 hab, part.has_of_calls hS hab⟩

section Results

variable {α : Type} {label : α → Label} {update : α → α} {results : List α}

theorem lastWith_filter {p : α → Bool} {idOf : α → String} {id : String}
    (h : ∀ r ∈ results, idOf r = id → p r = true) :
    lastWith idOf (results.filter p) id = lastWith idOf results id := by
  induction results with
  | nil => rfl
  | cons r rest ih =>
    have ih := ih fun s hs => h s (by simp [hs])
    cases hr : p r with
    | true => rw [List.filter_cons_of_pos hr, lastWith_cons, lastWith_cons, ih]
    | false =>
      have hne : idOf r ≠ id := fun he => by simp [h r (by simp) he] at hr
      rw [List.filter_cons_of_neg (by simp [hr]), lastWith_cons, ih, if_neg hne, Option.or_none]

theorem updateLast_filter {p : α → Bool} {idOf : α → String} {ids : List String}
    (hp : ∀ r, p (update r) = p r)
    (h : ∀ r ∈ results, ∀ s ∈ results, idOf r = idOf s → p r = true → p s = true) :
    (updateLast idOf ids update results).filter p = updateLast idOf ids update (results.filter p) := by
  induction results with
  | nil => rfl
  | cons r rest ih =>
    have ih := ih fun s hs t ht => h s (by simp [hs]) t (by simp [ht])
    have hhead : p (if ids.contains (idOf r) && !rest.any (idOf · == idOf r) then update r else r) = p r := by
      split <;> simp [hp]
    rw [updateLast]
    cases hr : p r with
    | true =>
      have hany : (rest.filter p).any (idOf · == idOf r) = rest.any (idOf · == idOf r) := by
        rw [← isSome_lastWith, ← isSome_lastWith, lastWith_filter fun s hs he => ?_]
        exact h r (by simp) s (by simp [hs]) he.symm hr
      rw [List.filter_cons_of_pos (by rw [hhead, hr]), List.filter_cons_of_pos hr, updateLast, ih, hany]
    | false =>
      rw [List.filter_cons_of_neg (by rw [hhead, hr]; simp), List.filter_cons_of_neg (by simp [hr]), ih]

/-- Where ids tell what is inside, the last result with an id inside is the last one inside. -/
theorem lastWith_inside (hseparate : ∀ a ∈ results.map label, ∀ b ∈ results.map label, a.id = b.id →
      inside a = true → inside b = true) {id : String} (hid : Has inside (results.map label) id) :
    lastWith (fun r => (label r).id) (results.filter fun r => inside (label r)) id =
      lastWith (fun r => (label r).id) results id := by
  obtain ⟨a, ha, hinside, rfl⟩ := hid
  refine lastWith_filter fun r hr he => ?_
  exact hseparate a ha (label r) (List.mem_map_of_mem hr) he.symm hinside

variable (part : Part g g' inside (results.map label))

include part

theorem updateLast_inside {ids ids' : List String} (hlabel : ∀ r, label (update r) = label r)
    (hids : ∀ {id}, Has inside (results.map label) id → (id ∈ ids' ↔ id ∈ ids)) :
    (updateLast (fun r => (label r).id) ids' update results).filter (fun r => inside (label r)) =
      updateLast (fun r => (label r).id) ids update (results.filter fun r => inside (label r)) := by
  rw [updateLast_filter (fun r => by rw [hlabel]) fun r hr s hs =>
    part.separate _ (List.mem_map_of_mem hr) _ (List.mem_map_of_mem hs)]
  refine updateLast_congr fun r hr => ?_
  obtain ⟨hr, hinside⟩ := List.mem_filter.1 hr
  exact hids ⟨label r, List.mem_map_of_mem hr, hinside, rfl⟩

/-- A finding that results have from the start, and that others can take on, spreads inside a part
as it does in the part alone. -/
theorem spread_inside {has can : α → Bool} {id : String} (hid : Has inside (results.map label) id) :
    id ∈ g'.spread (fun id => ((lastWith (fun r => (label r).id) results id).map can).getD false)
        ((results.filter has).map fun r => (label r).id) ↔
      id ∈ g.spread (fun id => ((lastWith (fun r => (label r).id)
          (results.filter fun r => inside (label r)) id).map can).getD false)
        (((results.filter fun r => inside (label r)).filter has).map fun r => (label r).id) := by
  rw [CallGraph.mem_spread, CallGraph.mem_spread]
  refine part.inherits_iff (fun ha => ?_) (fun ha => ?_) hid
  · simp only [lastWith_inside part.separate ha]
  · obtain ⟨a, ha, hinside, rfl⟩ := ha
    simp only [List.mem_map, List.mem_filter]
    constructor
    · rintro ⟨r, ⟨hr, hhas⟩, he⟩
      have hr' := part.separate a ha (label r) (List.mem_map_of_mem hr) he.symm hinside
      exact ⟨r, ⟨⟨hr, hr'⟩, hhas⟩, he⟩
    · rintro ⟨r, ⟨⟨hr, -⟩, hhas⟩, he⟩
      exact ⟨r, ⟨hr, hhas⟩, he⟩

end Results

/-! ## The passes -/

theorem propagate_purity {results : List PurityResult}
    (part : Part g g' inside (results.map (·.label))) :
    (PurityResult.propagate g' results).filter (inside ·.label) =
      PurityResult.propagate g (results.filter (inside ·.label)) :=
  part.updateLast_inside (fun r => r.label_addReason _) fun hid => part.spread_inside hid

theorem propagate_risk {results : List AsyncResult}
    (part : Part g g' inside (results.map (·.label))) :
    (AsyncResult.propagateRisk g' results).filter (inside ·.label) =
      AsyncResult.propagateRisk g (results.filter (inside ·.label)) :=
  part.updateLast_inside (fun r => r.label_addIssue _) fun hid => part.spread_inside hid

theorem propagate_returns {messages : List String} (hw : AsyncResult.callsAwaitable.message ∉ messages)
    {results : List AsyncResult} (part : Part g g' inside (results.map (·.label))) :
    (AsyncResult.propagateReturns g' messages results).filter (inside ·.label) =
      AsyncResult.propagateReturns g messages (results.filter (inside ·.label)) := by
  rw [AsyncResult.propagateReturns_eq hw, AsyncResult.propagateReturns_eq hw]
  refine part.updateLast_inside (fun r => r.label_addIssue _) fun {id} hid => ?_
  rw [AsyncResult.mem_flagged, AsyncResult.mem_flagged]
  refine exists_congr fun b => ?_
  rw [part.calls_iff hid]
  refine and_congr_right fun hab => ?_
  have hlast := lastWith_inside part.separate (part.has_of_calls hid hab)
  unfold AsyncResult.carries
  rw [show AsyncResult.id = fun r : AsyncResult => r.label.id from rfl, hlast]

end Part

end EffectGraph
