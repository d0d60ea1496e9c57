/-
The passes that hand findings on to callers, in closed form.

Each pass changes the results for some ids and leaves the others alone. Which
ids these are is said without the order of the work: for impurity and risk by
`Inherits`, for unawaited results by one look at the edges
(`propagateReturns_eq`). With one result for each id the passes become maps
over the results, and impurity and risk follow the paths among the functions
with results (`propagate_eq_map`, `propagateRisk_eq_map`,
`propagateReturns_eq_map`).
-/
import EffectGraph.Proofs.Graph.Reachability

namespace EffectGraph

section Results

variable {α : Type} {idOf : α → String} {update : α → α} {ids : List String}

theorem lastWith_cons (r : α) (rest : List α) (id : String) :
    lastWith idOf (r :: rest) id =
      (lastWith idOf rest id).or (if idOf r = id then some r else none) := by
  simp [lastWith, List.find?_append, List.find?_singleton]

theorem isSome_lastWith {results : List α} {id : String} :
    (lastWith idOf results id).isSome = results.any (idOf · == id) := by
  rw [lastWith, Bool.eq_iff_iff]
  simp

theorem mem_of_lastWith {results : List α} {id : String} {r : α}
    (h : lastWith idOf results id = some r) : r ∈ results ∧ idOf r = id := by
  have hp := List.find?_some h
  exact ⟨List.mem_reverse.1 (List.mem_of_find?_eq_some h), by simpa using hp⟩

theorem lastWith_of_mem {results : List α} (h : (results.map idOf).Nodup) {r : α}
    (hr : r ∈ results) : lastWith idOf results (idOf r) = some r := by
  cases hl : lastWith idOf results (idOf r) with
  | none =>
    rw [lastWith, List.find?_eq_none] at hl
    simpa using hl r (List.mem_reverse.2 hr)
  | some s =>
    obtain ⟨hs, he⟩ := mem_of_lastWith hl
    rw [List.inj_on_of_nodup_map h hs hr he]

theorem exists_of_lastWith {results : List α} {id : String} {p : α → Bool}
    (h : ((lastWith idOf results id).map p).getD false = true) :
    ∃ r ∈ results, p r = true ∧ idOf r = id := by
  cases hl : lastWith idOf results id with
  | none => simp [hl] at h
  | some r =>
    obtain ⟨hr, he⟩ := mem_of_lastWith hl
    exact ⟨r, hr, by simpa [hl] using h, he⟩

theorem mem_ids_of_lastWith {results : List α} {id : String} {p : α → Bool}
    (h : ((lastWith idOf results id).map p).getD false = true) : id ∈ results.map idOf := by
  obtain ⟨r, hr, -, rfl⟩ := exists_of_lastWith h
  exact List.mem_map_of_mem hr

theorem updateLast_nil (results : List α) : updateLast idOf [] update results = results := by
  induction results with
  | nil => rfl
  | cons r rest ih => simp [updateLast, ih]

theorem map_updateLast {β : Type} {k : α → β} (hk : ∀ r, k (update r) = k r) (results : List α) :
    (updateLast idOf ids update results).map k = results.map k := by
  induction results with
  | nil => rfl
  | cons r rest ih =>
    simp only [updateLast, List.map_cons, ih]
    split <;> simp [hk]

theorem any_id_updateLast (hid : ∀ r, idOf (update r) = idOf r) (results : List α) (id : String) :
    (updateLast idOf ids update results).any (idOf · == id) = results.any (idOf · == id) := by
  have hmap : (updateLast idOf ids update results).map idOf = results.map idOf :=
    map_updateLast hid results
  have hany := congrArg (List.any · (· == id)) hmap
  simpa [List.any_map, Function.comp_def] using hany

theorem lastWith_updateLast (hid : ∀ r, idOf (update r) = idOf r) (results : List α) (id : String) :
    lastWith idOf (updateLast idOf ids update results) id =
      (lastWith idOf results id).map fun r => if ids.contains id then update r else r := by
  induction results with
  | nil => rfl
  | cons r rest ih =>
    simp only [updateLast, lastWith_cons, ih]
    cases hl : lastWith idOf rest id with
    | some s => simp
    | none =>
      -- No later result has the id, so if this one has it, it is the last.
      have hany : rest.any (idOf · == id) = false := by
        rw [← isSome_lastWith, hl]
        rfl
      by_cases hr : idOf r = id
      · subst hr
        cases ids.contains (idOf r) <;> simp [hany, hid]
      · have hne : ∀ b : Bool, idOf (if b then update r else r) ≠ id := by
          intro b
          cases b <;> simp [hid, hr]
        simp only [if_neg (hne _), if_neg hr, Option.or_none, Option.map_none]

/-- Changing results once more changes nothing but the results for further ids. -/
theorem updateLast_updateLast (hid : ∀ r, idOf (update r) = idOf r)
    (hidem : ∀ r, update (update r) = update r) (ids' : List String) (results : List α) :
    updateLast idOf ids' update (updateLast idOf ids update results) =
      updateLast idOf (ids ++ ids') update results := by
  induction results with
  | nil => rfl
  | cons r rest ih =>
    simp only [updateLast, any_id_updateLast hid, ih, List.cons.injEq, and_true]
    have hsame : idOf (if ids.contains (idOf r) && !rest.any (idOf · == idOf r) then update r else r)
        = idOf r := by
      split <;> simp [hid]
    rw [hsame]
    cases hl : rest.any (idOf · == idOf r) with
    | true => simp
    | false =>
      cases h : ids.contains (idOf r) <;> cases h' : ids'.contains (idOf r) <;>
        simp_all [List.contains_eq_mem]

theorem updateLast_congr {ids' : List String} {results : List α}
    (h : ∀ r ∈ results, idOf r ∈ ids ↔ idOf r ∈ ids') :
    updateLast idOf ids update results = updateLast idOf ids' update results := by
  induction results with
  | nil => rfl
  | cons r rest ih =>
    have hr : ids.contains (idOf r) = ids'.contains (idOf r) := by
      simpa [List.contains_eq_mem] using h r (by simp)
    rw [updateLast, updateLast, ih fun s hs => h s (by simp [hs]), hr]

theorem updateLast_eq_map {results : List α} (h : (results.map idOf).Nodup) :
    updateLast idOf ids update results =
      results.map fun r => if idOf r ∈ ids then update r else r := by
  induction results with
  | nil => rfl
  | cons r rest ih =>
    simp only [List.map_cons, List.nodup_cons, List.mem_map, not_exists, not_and] at h
    have hany : rest.any (idOf · == idOf r) = false := by
      rw [List.any_eq_false]
      intro s hs
      simpa using h.1 s hs
    simp [updateLast, ih h.2, hany]

/-- Where each result has a finding or can take it on, a function with a result takes it on exactly
if it can and a path among the functions with results leads to one that has it. -/
theorem mem_spread_iff_path {g : CallGraph} {results : List α} (h : (results.map idOf).Nodup)
    {canTake has : α → Bool} (hcover : ∀ r ∈ results, canTake r = true ∨ has r = true) {r : α}
    (hr : r ∈ results) :
    idOf r ∈ g.spread (fun id => ((lastWith idOf results id).map canTake).getD false)
        ((results.filter has).map idOf) ↔
      canTake r = true ∧ ∃ s ∈ results, has s = true ∧
        Relation.TransGen (g.CallsAmong (results.map idOf)) (idOf r) (idOf s) := by
  have haccepts : ∀ s ∈ results, ((lastWith idOf results (idOf s)).map canTake).getD false = canTake s := by
    intro s hs
    simp [lastWith_of_mem h hs]
  have hstarts : ∀ x, x ∈ (results.filter has).map idOf ↔ ∃ s ∈ results, has s = true ∧ idOf s = x := by
    intro x
    simp [and_assoc]
  have hids : ∀ x ∈ results.map idOf, ((lastWith idOf results x).map canTake).getD false = true ∨
      x ∈ (results.filter has).map idOf := by
    intro x hx
    obtain ⟨s, hs, rfl⟩ := List.mem_map.1 hx
    rw [haccepts s hs, hstarts]
    exact (hcover s hs).imp_right fun hhas => ⟨s, hs, hhas, rfl⟩
  have hstartIds : ∀ x ∈ (results.filter has).map idOf, x ∈ results.map idOf := by
    intro x hx
    obtain ⟨s, hs, -, rfl⟩ := (hstarts x).1 hx
    exact List.mem_map_of_mem hs
  rw [CallGraph.mem_spread,
    CallGraph.inherits_iff_path (fun _ hx => mem_ids_of_lastWith hx) hstartIds hids, haccepts r hr]
  refine and_congr_right fun _ => ?_
  constructor
  · rintro ⟨v, hv, hpath⟩
    obtain ⟨s, hs, hhas, rfl⟩ := (hstarts v).1 hv
    exact ⟨s, hs, hhas, hpath⟩
  · rintro ⟨s, hs, hhas, hpath⟩
    exact ⟨idOf s, (hstarts _).2 ⟨s, hs, hhas, rfl⟩, hpath⟩

end Results

/-! ## Impurity -/

namespace PurityResult

@[simp] theorem label_addReason (r : PurityResult) (reason : String) :
    (r.addReason reason).2.label = r.label := by
  unfold addReason
  split <;> rfl

/-- A result takes on impurity exactly if it is pure and a path among the functions with results
leads to one that is impure. -/
theorem propagate_eq_map {g : CallGraph} {results : List PurityResult} (h : (results.map id).Nodup) :
    ∃ inherits : PurityResult → Bool,
      propagate g results =
        results.map (fun r => if inherits r then (r.addReason callsImpure).2 else r) ∧
      ∀ r ∈ results, inherits r = true ↔ r.isPure = true ∧ ∃ s ∈ results, s.isPure = false ∧
        Relation.TransGen (g.CallsAmong (results.map id)) r.id s.id := by
  refine ⟨fun r => (g.spread (canChange results) ((results.filter (!·.isPure)).map id)).contains r.id,
    by simp [propagate, updateLast_eq_map h], fun r hr => ?_⟩
  have hcover : ∀ r ∈ results, r.isPure = true ∨ (!r.isPure) = true := fun r _ => by
    cases r.isPure <;> simp
  have hpath := mem_spread_iff_path (g := g) h hcover hr
  simp only [List.contains_eq_mem, decide_eq_true_eq, Bool.not_eq_true'] at hpath ⊢
  exact hpath

end PurityResult

/-! ## Asynchronous risk -/

namespace AsyncResult

@[simp] theorem label_addIssue (r : AsyncResult) (issue : AsyncIssue) :
    (r.addIssue issue).2.label = r.label := by
  unfold addIssue
  split <;> rfl

@[simp] theorem id_addIssue (r : AsyncResult) (issue : AsyncIssue) :
    (r.addIssue issue).2.id = r.id :=
  congrArg Label.id (label_addIssue r issue)

theorem hasIssue_addIssue (r : AsyncResult) (issue : AsyncIssue) :
    (r.addIssue issue).2.hasIssue issue.message = true := by
  unfold addIssue
  split
  · assumption
  · simp [hasIssue]

theorem addIssue_addIssue (r : AsyncResult) (issue : AsyncIssue) :
    ((r.addIssue issue).2.addIssue issue).2 = (r.addIssue issue).2 := by
  rw [addIssue, if_pos (hasIssue_addIssue r issue)]

theorem mem_issues_addIssue {r : AsyncResult} {issue i : AsyncIssue} :
    i ∈ (r.addIssue issue).2.issues → i ∈ r.issues ∨ i = issue := by
  intro h
  unfold addIssue at h
  split at h
  · exact .inl h
  · simpa using h

theorem issues_subset_addIssue (r : AsyncResult) (issue : AsyncIssue) :
    r.issues ⊆ (r.addIssue issue).2.issues := by
  unfold addIssue
  split
  · exact List.Subset.refl _
  · exact List.subset_append_left _ _

/-- A result to which an issue may be added. -/
def addIf (r : AsyncResult) (b : Bool) (issue : AsyncIssue) : AsyncResult :=
  if b then (r.addIssue issue).2 else r

@[simp] theorem label_addIf (r : AsyncResult) (b : Bool) (issue : AsyncIssue) :
    (r.addIf b issue).label = r.label := by
  cases b with
  | false => rfl
  | true => exact label_addIssue r issue

@[simp] theorem id_addIf (r : AsyncResult) (b : Bool) (issue : AsyncIssue) :
    (r.addIf b issue).id = r.id :=
  congrArg Label.id (label_addIf r b issue)

@[simp] theorem awaitableCalls_addIf (r : AsyncResult) (b : Bool) (issue : AsyncIssue) :
    (r.addIf b issue).awaitableCalls = r.awaitableCalls := by
  unfold addIf addIssue
  repeat' split
  all_goals rfl

theorem issues_addIf {r : AsyncResult} {issue : AsyncIssue}
    (h : ∀ i ∈ r.issues, i.message ≠ issue.message) (b : Bool) :
    (r.addIf b issue).issues = r.issues ++ if b then [issue] else [] := by
  have hr : r.hasIssue issue.message = false := by simpa [hasIssue] using h
  cases b with
  | false => simp [addIf]
  | true => simp [addIf, addIssue, hr]

theorem map_label_propagateRisk (g : CallGraph) (results : List AsyncResult) :
    (propagateRisk g results).map (·.label) = results.map (·.label) :=
  map_updateLast (fun r => label_addIssue r callsUnsafe) results

theorem hasSeverity_of_hasIssue {r : AsyncResult} {message : String} {severity : Severity}
    (h : ∀ i ∈ r.issues, i.message = message → i.severity = severity)
    (hr : r.hasIssue message = true) : r.hasSeverity severity = true := by
  simp only [hasIssue, List.any_eq_true, beq_iff_eq] at hr
  obtain ⟨i, hi, hmessage⟩ := hr
  simp only [hasSeverity, List.any_eq_true, beq_iff_eq]
  exact ⟨i, hi, h i hi hmessage⟩

/-- Where the message of the risk is an error wherever it stands, a result is at risk exactly if it
lacks the message and a path among the functions with results leads to one with an error. -/
theorem propagateRisk_eq_map {g : CallGraph} {results : List AsyncResult}
    (h : (results.map id).Nodup)
    (herror : ∀ r ∈ results, ∀ i ∈ r.issues, i.message = callsUnsafe.message → i.severity = .error) :
    ∃ atRisk : AsyncResult → Bool,
      propagateRisk g results =
        results.map (fun r => r.addIf (atRisk r) callsUnsafe) ∧
      ∀ r ∈ results, atRisk r = true ↔ r.hasIssue callsUnsafe.message = false ∧
        ∃ s ∈ results, s.hasSeverity .error = true ∧
          Relation.TransGen (g.CallsAmong (results.map id)) r.id s.id := by
  refine ⟨fun r => (g.spread (lacks callsUnsafe.message results)
    ((results.filter (·.hasSeverity .error)).map id)).contains r.id,
    by simp [propagateRisk, updateLast_eq_map h, addIf], fun r hr => ?_⟩
  -- A result lacks the message, or it has an error: the message itself.
  have hcover : ∀ s ∈ results, (!s.hasIssue callsUnsafe.message) = true ∨ s.hasSeverity .error = true := by
    intro s hs
    cases hm : s.hasIssue callsUnsafe.message with
    | false => exact .inl rfl
    | true => exact .inr (hasSeverity_of_hasIssue (herror s hs) hm)
  have hpath := mem_spread_iff_path (g := g) h hcover hr
  simp only [List.contains_eq_mem, decide_eq_true_eq, Bool.not_eq_true'] at hpath ⊢
  exact hpath

/-! ## Unawaited results -/

/-- Whether a result has one of some messages. -/
def carriesAny (messages : List String) (r : AsyncResult) : Bool :=
  r.issues.any fun i => messages.contains i.message

/-- Whether the result for an id has one of some messages. -/
def carries (messages : List String) (results : List AsyncResult) (id : String) : Bool :=
  ((lastWith AsyncResult.id results id).map (carriesAny messages)).getD false

/-- The callers on edges to a function with one of the messages. -/
def flagged (messages : List String) (results : List AsyncResult) (edges : List (String × String)) :
    List String :=
  (edges.filter fun e => carries messages results e.2).map (·.1)

theorem returnsStep_eq (messages : List String) (results : List AsyncResult) (e : String × String) :
    returnsStep messages results e =
      updateLast AsyncResult.id (flagged messages results [e])
        (fun r => (r.addIssue callsAwaitable).2) results := by
  have hcarries : carries messages results e.2 =
      ((lastWith AsyncResult.id results e.2).map (carriesAny messages)).getD false := rfl
  unfold returnsStep flagged
  cases hl : lastWith AsyncResult.id results e.2 with
  | none =>
    rw [hl] at hcarries
    simp [hcarries, updateLast_nil]
  | some callee =>
    rw [hl] at hcarries
    have hcarries : carries messages results e.2 = carriesAny messages callee := hcarries
    rw [List.filter_singleton, hcarries]
    change (if carriesAny messages callee = true then _ else _) = _
    split <;> simp_all [updateLast_nil]

variable {messages : List String}

theorem carriesAny_addIssue {issue : AsyncIssue} (hw : issue.message ∉ messages) (r : AsyncResult) :
    carriesAny messages (r.addIssue issue).2 = carriesAny messages r := by
  unfold carriesAny addIssue
  split
  · rfl
  · simp [hw]

theorem carriesAny_addIf {issue : AsyncIssue} (hw : issue.message ∉ messages) (r : AsyncResult)
    (b : Bool) : carriesAny messages (r.addIf b issue) = carriesAny messages r := by
  cases b with
  | false => rfl
  | true => exact carriesAny_addIssue hw r

theorem carries_updateLast (hw : callsAwaitable.message ∉ messages) (ids : List String)
    (results : List AsyncResult) (id : String) :
    carries messages
        (updateLast AsyncResult.id ids (fun r => (r.addIssue callsAwaitable).2) results) id =
      carries messages results id := by
  unfold carries
  rw [lastWith_updateLast (fun r => id_addIssue r _)]
  cases lastWith AsyncResult.id results id with
  | none => rfl
  | some r =>
    simp only [Option.map_some, Option.getD_some]
    split
    · exact carriesAny_addIssue hw r
    · rfl

theorem foldl_returnsStep (hw : callsAwaitable.message ∉ messages) (edges : List (String × String)) :
    ∀ (ids : List String) (results : List AsyncResult),
      edges.foldl (returnsStep messages)
          (updateLast AsyncResult.id ids (fun r => (r.addIssue callsAwaitable).2) results) =
        updateLast AsyncResult.id (ids ++ flagged messages results edges)
          (fun r => (r.addIssue callsAwaitable).2) results := by
  induction edges with
  | nil => intro ids results; simp [flagged]
  | cons e edges ih =>
    intro ids results
    have hflag : flagged messages
        (updateLast AsyncResult.id ids (fun r => (r.addIssue callsAwaitable).2) results) [e] =
        flagged messages results [e] := by
      simp [flagged, carries_updateLast hw]
    have happ : flagged messages results (e :: edges) =
        flagged messages results [e] ++ flagged messages results edges := by
      simp [flagged, ← List.map_append, ← List.filter_append]
    rw [List.foldl_cons, returnsStep_eq, hflag,
      updateLast_updateLast (fun r => id_addIssue r _) (fun r => addIssue_addIssue r _), ih,
      List.append_assoc, ← happ]

/-- One look at the edges is enough, because the message that a look adds is none of those it
looks for. -/
theorem returnsRounds_eq (hw : callsAwaitable.message ∉ messages) (edges : List (String × String)) :
    ∀ (n : Nat) (results : List AsyncResult),
      returnsRounds messages edges (n + 1) results =
        updateLast AsyncResult.id (flagged messages results edges)
          (fun r => (r.addIssue callsAwaitable).2) results := by
  have pass : ∀ results : List AsyncResult, edges.foldl (returnsStep messages) results =
      updateLast AsyncResult.id (flagged messages results edges)
        (fun r => (r.addIssue callsAwaitable).2) results := by
    intro results
    simpa [updateLast_nil] using foldl_returnsStep hw edges [] results
  intro n
  induction n with
  | zero =>
    intro results
    simp only [returnsRounds, pass]
    split
    · next h => exact h.symm
    · rfl
  | succ n ih =>
    intro results
    rw [returnsRounds, pass]
    split
    · next h => exact h.symm
    · have hflag : flagged messages (updateLast AsyncResult.id (flagged messages results edges)
          (fun r => (r.addIssue callsAwaitable).2) results) edges = flagged messages results edges := by
        simp [flagged, carries_updateLast hw]
      rw [ih, hflag, updateLast_updateLast (fun r => id_addIssue r _) (fun r => addIssue_addIssue r _)]
      exact updateLast_congr fun r _ => by simp

theorem propagateReturns_eq (hw : callsAwaitable.message ∉ messages) (g : CallGraph)
    (results : List AsyncResult) :
    propagateReturns g messages results =
      updateLast AsyncResult.id (flagged messages results g.edges)
        (fun r => (r.addIssue callsAwaitable).2) results :=
  returnsRounds_eq hw g.edges results.length results

theorem mem_flagged {g : CallGraph} {results : List AsyncResult} {a : String} :
    a ∈ flagged messages results g.edges ↔ ∃ b, g.Calls a b ∧ carries messages results b = true := by
  simp only [flagged, List.mem_map, List.mem_filter]
  constructor
  · rintro ⟨⟨x, y⟩, ⟨he, hc⟩, rfl⟩
    exact ⟨y, CallGraph.mem_edges.1 he, hc⟩
  · rintro ⟨b, hab, hc⟩
    exact ⟨(a, b), ⟨CallGraph.mem_edges.2 hab, hc⟩, rfl⟩

theorem carries_iff {results : List AsyncResult} (h : (results.map id).Nodup) {id : String} :
    carries messages results id = true ↔
      ∃ s ∈ results, carriesAny messages s = true ∧ s.id = id := by
  constructor
  · exact exists_of_lastWith
  · rintro ⟨s, hs, hc, rfl⟩
    simp [carries, lastWith_of_mem h hs, hc]

theorem propagateReturns_eq_map (hw : callsAwaitable.message ∉ messages) {g : CallGraph}
    {results : List AsyncResult} (h : (results.map id).Nodup) :
    ∃ leaves : AsyncResult → Bool,
      propagateReturns g messages results =
        results.map (fun r => r.addIf (leaves r) callsAwaitable) ∧
      ∀ r ∈ results, leaves r = true ↔
        ∃ s ∈ results, carriesAny messages s = true ∧ g.Calls r.id s.id := by
  refine ⟨fun r => (flagged messages results g.edges).contains r.id, ?_, ?_⟩
  · rw [propagateReturns_eq hw, updateLast_eq_map h]
    simp [addIf]
  intro r _
  simp only [List.contains_eq_mem, decide_eq_true_eq, mem_flagged, carries_iff h]
  constructor
  · rintro ⟨b, hab, s, hs, hc, rfl⟩
    exact ⟨s, hs, hc, hab⟩
  · rintro ⟨s, hs, hc, hab⟩
    exact ⟨s.id, hab, s, hs, hc, rfl⟩

end AsyncResult

end EffectGraph
