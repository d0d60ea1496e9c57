/-
Unawaited results, for any messages that are looked for.

A round looks at all edges, and each look sees what the looks before it have
added. If the message that is added is one of those looked for, one addition
calls for the next, and the rounds go on until they have followed all paths.
Otherwise one round does all there is to do. `Owes` says both at once. A look
adds only what is owed (`OnlyOwed.returnsStep`), and a round that adds nothing
leaves nothing owed (`hasIssue_of_owes`). Each round but the last leaves fewer
results without the message, so the rounds end (`reaches_returnsRounds`).
-/
import EffectGraph.Proofs.Graph.Spread

namespace EffectGraph.AsyncResult

open Relation

variable {messages : List String} {results : List AsyncResult} {edges : List (String × String)}

/-- The results, with the message added for some ids. -/
def flag (ids : List String) (results : List AsyncResult) : List AsyncResult :=
  updateLast id ids (fun r => (r.addIssue callsAwaitable).2) results

/-- Looks at one edge, and notes whether that has changed a result. -/
def lookAt (messages : List String) (s : Bool × List AsyncResult) (edge : String × String) :
    Bool × List AsyncResult :=
  match lastWith id s.2 edge.1, lastWith id s.2 edge.2 with
  | some caller, some callee =>
    if carriesAny messages callee then
      (s.1 || (caller.addIssue callsAwaitable).1, flag [edge.1] s.2)
    else s
  | _, _ => s

/-- One turn of the loop: if the turn before has changed a result, it looks at all edges again. -/
def returnsTurn (messages : List String) (edges : List (String × String)) :
    Bool × List AsyncResult → Option (Bool × List AsyncResult)
  | (false, _) => none
  | (true, results) => some (edges.foldl (lookAt messages) (false, results))

/-! ## Giving the message -/

theorem map_id_flag (ids : List String) (results : List AsyncResult) :
    (flag ids results).map id = results.map id :=
  map_updateLast (fun r => id_addIssue r callsAwaitable) results

theorem flag_flag (ids ids' : List String) (results : List AsyncResult) :
    flag ids' (flag ids results) = flag (ids ++ ids') results :=
  updateLast_updateLast (fun r => id_addIssue r _) (fun r => addIssue_addIssue r _) ids' results

theorem flag_eq_map (h : (results.map id).Nodup) (ids : List String) :
    flag ids results = results.map fun r => if r.id ∈ ids then (r.addIssue callsAwaitable).2 else r :=
  updateLast_eq_map h

theorem lastWith_flag (ids : List String) (results : List AsyncResult) (b : String) :
    lastWith id (flag ids results) b =
      (lastWith id results b).map fun r => if ids.contains b then (r.addIssue callsAwaitable).2 else r :=
  lastWith_updateLast (fun r => id_addIssue r _) results b

theorem returnsStep_eq_flag (messages : List String) (results : List AsyncResult) (e : String × String) :
    returnsStep messages results e = flag (flagged messages results [e]) results :=
  returnsStep_eq messages results e

theorem addIssue_eq_self_iff {r : AsyncResult} {issue : AsyncIssue} :
    (r.addIssue issue).2 = r ↔ r.hasIssue issue.message = true := by
  constructor
  · intro h
    rw [← h]
    exact hasIssue_addIssue r issue
  · intro h
    rw [addIssue, if_pos h]

theorem flag_eq_self_iff (h : (results.map id).Nodup) {ids : List String} :
    flag ids results = results ↔
      ∀ r ∈ results, r.id ∈ ids → r.hasIssue callsAwaitable.message = true := by
  have hmap : flag ids results = results ↔
      results.map (fun r => if r.id ∈ ids then (r.addIssue callsAwaitable).2 else r) =
        results.map fun r => r := by
    rw [flag_eq_map h, List.map_id']
  rw [hmap, List.map_inj_left]
  refine forall₂_congr fun r _ => ?_
  by_cases hids : r.id ∈ ids <;> simp [hids, addIssue_eq_self_iff]

/-! ## Rounds end -/

/-- How many results do not have the message that the rounds add. -/
def unflagged (results : List AsyncResult) : Nat :=
  results.countP fun r => !r.hasIssue callsAwaitable.message

/-- A result that has the message stays as it is, and one that does not gets it. -/
theorem unflagged_flag (ids : List String) (results : List AsyncResult) :
    unflagged (flag ids results) ≤ unflagged results ∧
      (unflagged (flag ids results) = unflagged results → flag ids results = results) := by
  induction results with
  | nil => exact ⟨Nat.le_refl _, fun _ => rfl⟩
  | cons r rest ih =>
    simp only [unflagged, flag] at ih ⊢
    rw [updateLast, List.countP_cons, List.countP_cons]
    split
    · cases hr : r.hasIssue callsAwaitable.message with
      | true =>
        rw [addIssue_eq_self_iff.2 hr, hr]
        exact ⟨by omega, fun h => by rw [ih.2 (by omega)]⟩
      | false =>
        have hnew := hasIssue_addIssue r callsAwaitable
        simp only [hnew, Bool.not_true, Bool.not_false, if_true, if_false, Bool.false_eq_true]
        exact ⟨by omega, fun h => absurd h (by omega)⟩
    · exact ⟨by omega, fun h => by rw [ih.2 (by omega)]⟩

theorem unflagged_foldl (messages : List String) (edges : List (String × String)) :
    ∀ results : List AsyncResult,
    unflagged (edges.foldl (returnsStep messages) results) ≤ unflagged results ∧
      (unflagged (edges.foldl (returnsStep messages) results) = unflagged results →
        ∀ e ∈ edges, returnsStep messages results e = results) := by
  induction edges with
  | nil => exact fun _ => ⟨Nat.le_refl _, by simp⟩
  | cons e edges ih =>
    intro results
    have hstep := unflagged_flag (flagged messages results [e]) results
    rw [← returnsStep_eq_flag] at hstep
    have hrest := ih (returnsStep messages results e)
    rw [List.foldl_cons]
    refine ⟨by omega, fun h => ?_⟩
    -- No look has added anything, the first one included.
    have hfirst : returnsStep messages results e = results := hstep.2 (by omega)
    rw [hfirst] at hrest h
    exact List.forall_mem_cons.2 ⟨hfirst, hrest.2 h⟩

/-- A round changes nothing exactly if no look does. -/
theorem foldl_returnsStep_eq_self :
    edges.foldl (returnsStep messages) results = results ↔
      ∀ e ∈ edges, returnsStep messages results e = results := by
  refine ⟨fun h => (unflagged_foldl messages edges results).2 (by rw [h]), fun h => ?_⟩
  induction edges with
  | nil => rfl
  | cons e edges ih =>
    obtain ⟨hfirst, hrest⟩ := List.forall_mem_cons.1 h
    rw [List.foldl_cons, hfirst]
    exact ih hrest

theorem unflagged_foldl_lt (h : edges.foldl (returnsStep messages) results ≠ results) :
    unflagged (edges.foldl (returnsStep messages) results) < unflagged results := by
  have hround := unflagged_foldl messages edges results
  refine lt_of_le_of_ne hround.1 fun he => h ?_
  exact foldl_returnsStep_eq_self.2 (hround.2 he)

theorem map_id_returnsStep (messages : List String) (results : List AsyncResult) (e : String × String) :
    (returnsStep messages results e).map id = results.map id := by
  rw [returnsStep_eq_flag, map_id_flag]

theorem fst_addIssue (r : AsyncResult) (issue : AsyncIssue) :
    (r.addIssue issue).1 = !r.hasIssue issue.message := by
  unfold addIssue
  cases r.hasIssue issue.message <;> rfl

theorem returnsStep_of_callee {callee : AsyncResult} {e : String × String}
    (h : lastWith id results e.2 = some callee) :
    returnsStep messages results e =
      if carriesAny messages callee then flag [e.1] results else results := by
  rw [returnsStep, h]
  rfl

/-- The note of a look says whether the look has changed something. -/
theorem lookAt_eq (h : (results.map id).Nodup) (b : Bool) (e : String × String) :
    lookAt messages (b, results) e =
      (b || decide (returnsStep messages results e ≠ results), returnsStep messages results e) := by
  unfold lookAt
  cases hcallee : lastWith id results e.2 with
  | none =>
    have hstep : returnsStep messages results e = results := by rw [returnsStep, hcallee]
    cases lastWith id results e.1 <;> simp [hstep]
  | some callee =>
    rw [returnsStep_of_callee hcallee]
    cases hcaller : lastWith id results e.1 with
    | none =>
      -- Nothing has the id of the caller, so nothing changes.
      have hsame : flag [e.1] results = results := by
        refine (flag_eq_self_iff h).2 fun r hr he => ?_
        rw [← List.mem_singleton.1 he, lastWith_of_mem h hr] at hcaller
        cases hcaller
      simp [hsame]
    | some caller =>
      obtain ⟨hmem, hid⟩ := mem_of_lastWith hcaller
      have hchange : (caller.addIssue callsAwaitable).1 = decide (flag [e.1] results ≠ results) := by
        have hiff : flag [e.1] results = results ↔ caller.hasIssue callsAwaitable.message = true := by
          rw [flag_eq_self_iff h]
          refine ⟨fun hall => hall caller hmem (by simp [hid]), fun hcaller r hr he => ?_⟩
          rwa [List.inj_on_of_nodup_map h hr hmem ((List.mem_singleton.1 he).trans hid.symm)]
        rw [fst_addIssue]
        cases hissue : caller.hasIssue callsAwaitable.message <;> simp [hissue, hiff]
      cases hcarries : carriesAny messages callee <;> simp [hcarries, hchange]

theorem foldl_lookAt (edges : List (String × String)) : ∀ {results : List AsyncResult} (b : Bool),
    (results.map id).Nodup → edges.foldl (lookAt messages) (b, results) =
      (b || decide (edges.foldl (returnsStep messages) results ≠ results),
        edges.foldl (returnsStep messages) results) := by
  induction edges with
  | nil => intro results b _; simp
  | cons e edges ih =>
    intro results b h
    rw [List.foldl_cons, lookAt_eq h, ih _ (by rwa [map_id_returnsStep]), List.foldl_cons]
    by_cases hfirst : returnsStep messages results e = results
    · simp [hfirst]
    · -- What the first look has changed is not taken back.
      have hne : (e :: edges).foldl (returnsStep messages) results ≠ results := fun hsame =>
        hfirst (foldl_returnsStep_eq_self.1 hsame e (by simp))
      rw [List.foldl_cons] at hne
      simp [hfirst, hne]

/-- While more rounds are left than results without the message, the loop ends where the rounds end,
and there no look changes anything. -/
theorem reaches_returnsRounds (messages : List String) (edges : List (String × String)) (n : Nat) :
    ∀ {results : List AsyncResult}, (results.map id).Nodup → unflagged results < n →
    StateTransition.Reaches (returnsTurn messages edges) (true, results)
        (false, returnsRounds messages edges n results) ∧
      ∀ e ∈ edges, returnsStep messages (returnsRounds messages edges n results) e =
        returnsRounds messages edges n results := by
  induction n with
  | zero => intro results _ hn; omega
  | succ n ih =>
    intro results h hn
    have hturn : returnsTurn messages edges (true, results) =
        some (decide (edges.foldl (returnsStep messages) results ≠ results),
          edges.foldl (returnsStep messages) results) := by
      rw [returnsTurn, foldl_lookAt edges false h, Bool.false_or]
    rw [returnsRounds]
    split
    · next hsame =>
      rw [hsame] at hturn
      refine ⟨.single ?_, foldl_returnsStep_eq_self.1 hsame⟩
      simpa using hturn
    · next hchanged =>
      have hids : ((edges.foldl (returnsStep messages) results).map id).Nodup :=
        List.foldlRecOn (motive := fun now : List AsyncResult => (now.map id).Nodup) edges _ h
          fun results h e _ => by rwa [map_id_returnsStep]
      obtain ⟨hrun, hfixed⟩ := ih hids (by have := unflagged_foldl_lt hchanged; omega)
      refine ⟨.head ?_ hrun, hfixed⟩
      simpa [hchanged] using hturn

/-- The loop ends with the results of the pass, and no look at an edge changes them. -/
theorem reaches_propagateReturns (g : CallGraph) (messages : List String)
    (h : (results.map id).Nodup) :
    StateTransition.Reaches (returnsTurn messages g.edges) (true, results)
        (false, propagateReturns g messages results) ∧
      ∀ e ∈ g.edges, returnsStep messages (propagateReturns g messages results) e =
        propagateReturns g messages results :=
  reaches_returnsRounds messages g.edges _ h (Nat.lt_succ_of_le List.countP_le_length)

/-! ## What is owed -/

/-- A caller leaves something unawaited: it calls a function with one of the messages, or, if the
message that says so is one of them itself, a function that leaves something unawaited. -/
inductive Owes (g : CallGraph) (messages : List String) (results : List AsyncResult) : String → Prop
  | direct {a b : String} : g.Calls a b → carries messages results b = true → Owes g messages results a
  | through {a b : String} : callsAwaitable.message ∈ messages → g.Calls a b → b ∈ results.map id →
    Owes g messages results b → Owes g messages results a

variable {g : CallGraph}

/-- The results so far: some functions have got the message, and only such as owe it. -/
def OnlyOwed (g : CallGraph) (messages : List String) (results now : List AsyncResult) : Prop :=
  ∃ ids, now = flag ids results ∧ ∀ x ∈ ids, Owes g messages results x

/-- A function has one of the messages because it had one before or because it has got one. -/
theorem carries_of_flag {ids : List String} {b : String}
    (h : carries messages (flag ids results) b = true) :
    carries messages results b = true ∨
      (callsAwaitable.message ∈ messages ∧ b ∈ ids ∧ b ∈ results.map id) := by
  unfold carries at h ⊢
  rw [lastWith_flag] at h
  cases hl : lastWith id results b with
  | none => simp [hl] at h
  | some r =>
    simp only [hl, Option.map_some, Option.getD_some] at h ⊢
    split at h
    · next hb =>
      obtain ⟨i, hi, hmessage⟩ := List.any_eq_true.1 h
      rcases mem_issues_addIssue hi with hi | rfl
      · exact .inl (List.any_eq_true.2 ⟨i, hi, hmessage⟩)
      · obtain ⟨hr, rfl⟩ := mem_of_lastWith hl
        exact .inr ⟨by simpa using hmessage, by simpa using hb, List.mem_map_of_mem hr⟩
    · exact .inl h

theorem OnlyOwed.returnsStep {now : List AsyncResult} (h : OnlyOwed g messages results now)
    {e : String × String} (he : e ∈ g.edges) :
    OnlyOwed g messages results (AsyncResult.returnsStep messages now e) := by
  obtain ⟨ids, rfl, hids⟩ := h
  refine ⟨ids ++ flagged messages (flag ids results) [e], ?_, ?_⟩
  · rw [returnsStep_eq_flag, flag_flag]
  · intro x hx
    rcases List.mem_append.1 hx with hx | hx
    · exact hids x hx
    · simp only [flagged, List.mem_map, List.mem_filter, List.mem_singleton] at hx
      obtain ⟨e, ⟨rfl, hcarries⟩, rfl⟩ := hx
      rcases carries_of_flag hcarries with hcarries | ⟨hw, hb, hmem⟩
      · exact .direct (CallGraph.mem_edges.1 he) hcarries
      · exact .through hw (CallGraph.mem_edges.1 he) hmem (hids _ hb)

theorem OnlyOwed.returnsRounds (n : Nat) : ∀ {now : List AsyncResult}, OnlyOwed g messages results now →
    OnlyOwed g messages results (AsyncResult.returnsRounds messages g.edges n now) := by
  induction n with
  | zero => exact fun h => h
  | succ n ih =>
    intro now h
    rw [AsyncResult.returnsRounds]
    split
    · exact h
    · exact ih (g.edges.foldlRecOn _ h fun now h e he => h.returnsStep he)

theorem carriesAny_of_subset {r r' : AsyncResult} (h : r.issues ⊆ r'.issues)
    (hr : carriesAny messages r = true) : carriesAny messages r' = true := by
  obtain ⟨i, hi, hmessage⟩ := List.any_eq_true.1 hr
  exact List.any_eq_true.2 ⟨i, h hi, hmessage⟩

theorem carries_flag_of_carries {ids : List String} {b : String}
    (h : carries messages results b = true) : carries messages (flag ids results) b = true := by
  unfold carries at h ⊢
  rw [lastWith_flag]
  cases hl : lastWith id results b with
  | none => simp [hl] at h
  | some r =>
    simp only [hl, Option.map_some, Option.getD_some] at h ⊢
    split
    · exact carriesAny_of_subset (issues_subset_addIssue r callsAwaitable) h
    · exact h

theorem carriesAny_of_hasIssue {r : AsyncResult} {message : String} (hw : message ∈ messages)
    (h : r.hasIssue message = true) : carriesAny messages r = true := by
  obtain ⟨i, hi, hmessage⟩ := List.any_eq_true.1 h
  refine List.any_eq_true.2 ⟨i, hi, ?_⟩
  rw [eq_of_beq hmessage]
  simpa using hw

/-- Where no look changes anything, all that is owed is there. -/
theorem hasIssue_of_owes {ids : List String} (h : (results.map id).Nodup)
    (hfixed : ∀ e ∈ g.edges, returnsStep messages (flag ids results) e = flag ids results)
    {a : String} (ha : Owes g messages results a) :
    ∀ r ∈ flag ids results, r.id = a → r.hasIssue callsAwaitable.message = true := by
  have hids : ((flag ids results).map id).Nodup := by rwa [map_id_flag]
  -- The caller of a function that has one of the messages now has got its own.
  have hcaller : ∀ {a b : String}, g.Calls a b → carries messages (flag ids results) b = true →
      ∀ r ∈ flag ids results, r.id = a → r.hasIssue callsAwaitable.message = true := by
    intro a b hab hb r hr he
    have hstep := hfixed (a, b) (CallGraph.mem_edges.2 hab)
    rw [returnsStep_eq_flag, flag_eq_self_iff hids] at hstep
    exact hstep r hr (by simp [flagged, hb, he])
  induction ha with
  | direct hab hb => exact hcaller hab (carries_flag_of_carries hb)
  | through hw hab hb _ ih =>
    refine hcaller hab ?_
    rw [← map_id_flag ids results] at hb
    obtain ⟨s, hs, rfl⟩ := List.mem_map.1 hb
    exact (carries_iff hids).2 ⟨s, hs, carriesAny_of_hasIssue hw (ih s hs rfl), rfl⟩

/-- The passes give the message to all that owe it. -/
theorem propagateReturns_eq_owes (g : CallGraph) (messages : List String) (h : (results.map id).Nodup) :
    ∃ owes : AsyncResult → Bool,
      propagateReturns g messages results =
        results.map (fun r => r.addIf (owes r) callsAwaitable) ∧
      ∀ r, owes r = true ↔ Owes g messages results r.id := by
  classical
  obtain ⟨-, hfixed⟩ := reaches_propagateReturns g messages h
  obtain ⟨ids, hrounds, hids⟩ : OnlyOwed g messages results (propagateReturns g messages results) :=
    OnlyOwed.returnsRounds _ ⟨[], (updateLast_nil results).symm, by simp⟩
  refine ⟨fun r => decide (Owes g messages results r.id), ?_, fun r => decide_eq_true_iff⟩
  rw [hrounds] at hfixed ⊢
  have hall : ∀ r ∈ flag ids results, Owes g messages results r.id →
      r.hasIssue callsAwaitable.message = true :=
    fun r hr howes => hasIssue_of_owes h hfixed howes r hr rfl
  rw [flag_eq_map h] at hall ⊢
  refine List.map_congr_left fun r hr => ?_
  by_cases hmem : r.id ∈ ids
  · simp [hmem, hids _ hmem, addIf]
  · by_cases howes : Owes g messages results r.id
    · -- It has not got the message, so it had it before.
      have hkept : r ∈ results.map fun r => if r.id ∈ ids then (r.addIssue callsAwaitable).2 else r :=
        List.mem_map.2 ⟨r, hr, if_neg hmem⟩
      have hissue := hall r hkept howes
      simp [hmem, howes, addIf, addIssue_eq_self_iff.2 hissue]
    · simp [hmem, howes, addIf]

/-! ## Paths -/

theorem owes_iff_of_notMem (h : (results.map id).Nodup) (hw : callsAwaitable.message ∉ messages)
    {a : String} :
    Owes g messages results a ↔ ∃ s ∈ results, carriesAny messages s = true ∧ g.Calls a s.id := by
  constructor
  · intro ha
    cases ha with
    | direct hab hb =>
      obtain ⟨s, hs, hcarries, rfl⟩ := (carries_iff h).1 hb
      exact ⟨s, hs, hcarries, hab⟩
    | through hmem => exact absurd hmem hw
  · rintro ⟨s, hs, hcarries, hab⟩
    exact .direct hab ((carries_iff h).2 ⟨s, hs, hcarries, rfl⟩)

theorem owes_iff_of_mem (h : (results.map id).Nodup) (hw : callsAwaitable.message ∈ messages)
    {a : String} (ha : a ∈ results.map id) :
    Owes g messages results a ↔ ∃ s ∈ results, carriesAny messages s = true ∧
      TransGen (g.CallsAmong (results.map id)) a s.id := by
  constructor
  · intro howes
    induction howes with
    | direct hab hb =>
      obtain ⟨s, hs, hcarries, rfl⟩ := (carries_iff h).1 hb
      exact ⟨s, hs, hcarries, .single ⟨ha, List.mem_map_of_mem hs, hab⟩⟩
    | through _ hab hb _ ih =>
      obtain ⟨s, hs, hcarries, hpath⟩ := ih hb
      exact ⟨s, hs, hcarries, .head ⟨ha, hb, hab⟩ hpath⟩
  · rintro ⟨s, hs, hcarries, hpath⟩
    induction hpath using TransGen.head_induction_on with
    | single hab => exact .direct hab.2.2 ((carries_iff h).2 ⟨s, hs, hcarries, rfl⟩)
    | head hab _ ih => exact .through hw hab.2.2 hab.2.1 (ih hab.2.1)

/-- A result leaves something unawaited: what it calls has one of the messages, or, if the message that
says so is one of them, what it reaches among the functions with results has one. -/
def LeavesUnawaited (g : CallGraph) (messages : List String) (results : List AsyncResult)
    (r : AsyncResult) : Prop :=
  (callsAwaitable.message ∉ messages ∧
      ∃ s ∈ results, carriesAny messages s = true ∧ g.Calls r.id s.id) ∨
    (callsAwaitable.message ∈ messages ∧
      ∃ s ∈ results, carriesAny messages s = true ∧ TransGen (g.CallsAmong (results.map id)) r.id s.id)

theorem owes_iff_leavesUnawaited (h : (results.map id).Nodup) {r : AsyncResult} (hr : r ∈ results) :
    Owes g messages results r.id ↔ LeavesUnawaited g messages results r := by
  unfold LeavesUnawaited
  by_cases hw : callsAwaitable.message ∈ messages
  · simp [hw, owes_iff_of_mem h hw (List.mem_map_of_mem hr)]
  · simp [hw, owes_iff_of_notMem h hw]

theorem leavesUnawaited_congr {g' : CallGraph} {messages' : List String} {results' : List AsyncResult}
    (hg : ∀ a b, g'.Calls a b ↔ g.Calls a b) (hm : ∀ m, m ∈ messages' ↔ m ∈ messages)
    (hr : ∀ r, r ∈ results' ↔ r ∈ results) {r : AsyncResult} :
    LeavesUnawaited g' messages' results' r ↔ LeavesUnawaited g messages results r := by
  have hcarries : ∀ s, carriesAny messages' s = carriesAny messages s := by
    intro s
    simp [carriesAny, hm]
  have hcalls : g'.CallsAmong (results'.map id) = g.CallsAmong (results.map id) := by
    funext a b
    simp [CallGraph.CallsAmong, hg, hr]
  simp only [LeavesUnawaited, hm, hr, hcarries, hg, hcalls]

open scoped Classical in
/-- **Unawaited results, for any messages that are looked for.** The loop over the edges ends with
these results. A result gains the message at its end exactly if it lacked it and, where the message
is none of those looked for, one of its direct callees had one of them, or, where it is one of them, a
path among the functions with results leads to one that had one. Nothing else changes, and neither
the order of the edges or of the results nor that of the messages makes a difference. -/
theorem propagateReturns_exact (g : CallGraph) (messages : List String) (h : (results.map id).Nodup) :
    (false, propagateReturns g messages results) ∈
      StateTransition.eval (returnsTurn messages g.edges) (true, results) ∧
    ∃ outcome : AsyncResult → AsyncResult,
      (∀ r ∈ results, outcome r =
        if r.hasIssue "Calls awaitable-returning function without await" = false ∧
            LeavesUnawaited g messages results r
        then { r with issues :=
          r.issues ++ [⟨"Calls awaitable-returning function without await", .error⟩] }
        else r) ∧
      ∀ (g' : CallGraph) (messages' : List String) (results' : List AsyncResult),
        (∀ a b, g'.Calls a b ↔ g.Calls a b) → (∀ m, m ∈ messages' ↔ m ∈ messages) →
        results'.Perm results → propagateReturns g' messages' results' = results'.map outcome := by
  refine ⟨?_, fun r => r.addIf (decide (LeavesUnawaited g messages results r)) callsAwaitable, ?_, ?_⟩
  · exact StateTransition.mem_eval.2 ⟨(reaches_propagateReturns g messages h).1, rfl⟩
  · intro r _
    change _ = if r.hasIssue callsAwaitable.message = false ∧ LeavesUnawaited g messages results r
      then { r with issues := r.issues ++ [callsAwaitable] } else r
    by_cases hissue : r.hasIssue callsAwaitable.message = false
    · simp [hissue, addIf_of_lacks]
    · have hsame : (r.addIssue callsAwaitable).2 = r := addIssue_eq_self_iff.2 (by simpa using hissue)
      simp [hissue, addIf, hsame]
  · intro g' messages' results' hg hm hperm
    have h' : (results'.map id).Nodup := (hperm.map id).nodup_iff.2 h
    obtain ⟨owes, hpass, howes⟩ := propagateReturns_eq_owes g' messages' h'
    rw [hpass]
    refine List.map_congr_left fun r hr => ?_
    have hsame : owes r = decide (LeavesUnawaited g messages results r) := by
      rw [Bool.eq_iff_iff, howes, owes_iff_leavesUnawaited h' hr,
        leavesUnawaited_congr hg hm fun _ => hperm.mem_iff, decide_eq_true_iff]
    rw [hsame]

/-- Two functions that call each other, one of which calls one with a message, and one whose only way
to the message leads through an id without a result. -/
def waitingGraph : CallGraph :=
  .ofMapping [("a", ["b"]), ("b", ["a", "c"]), ("c", []), ("d", ["x"]), ("x", ["c"])]

def waitingResults : List AsyncResult :=
  [resultOf "a" [], resultOf "b" [], resultOf "c" [⟨"Floating awaitable", .error⟩], resultOf "d" []]

/-- With the message among those looked for, it goes on to the caller of the caller and stops at the
id without a result. Without it, it comes to the direct caller alone. -/
theorem propagateReturns_exact_cyclic :
    (waitingResults.map id).Nodup ∧
    propagateReturns waitingGraph ["Floating awaitable"] waitingResults =
      [resultOf "a" [], resultOf "b" [callsAwaitable],
        resultOf "c" [⟨"Floating awaitable", .error⟩], resultOf "d" []] ∧
    propagateReturns waitingGraph [callsAwaitable.message, "Floating awaitable"] waitingResults =
      [resultOf "a" [callsAwaitable], resultOf "b" [callsAwaitable],
        resultOf "c" [⟨"Floating awaitable", .error⟩], resultOf "d" []] ∧
    LeavesUnawaited waitingGraph [callsAwaitable.message, "Floating awaitable"] waitingResults
      (resultOf "a" []) ∧
    ¬ LeavesUnawaited waitingGraph [callsAwaitable.message, "Floating awaitable"] waitingResults
      (resultOf "d" []) := by
  have hid : (waitingResults.map id).Nodup := by decide +kernel
  have heval : propagateReturns waitingGraph [callsAwaitable.message, "Floating awaitable"]
      waitingResults =
        [resultOf "a" [callsAwaitable], resultOf "b" [callsAwaitable],
          resultOf "c" [⟨"Floating awaitable", .error⟩], resultOf "d" []] := by
    decide +kernel
  obtain ⟨-, outcome, houtcome, hsame⟩ :=
    propagateReturns_exact waitingGraph [callsAwaitable.message, "Floating awaitable"] hid
  have hmap := (hsame _ _ _ (fun _ _ => .rfl) (fun _ => .rfl) (.refl _)).symm.trans heval
  simp only [waitingResults, List.map_cons, List.map_nil, List.cons.injEq, and_true] at hmap
  obtain ⟨ha, -, -, hd⟩ := hmap
  rw [houtcome _ (by simp [waitingResults])] at ha hd
  refine ⟨hid, by decide +kernel, heval, ?_, ?_⟩
  · -- The result has changed, so it leaves something.
    by_contra hnone
    rw [if_neg fun h => hnone h.2] at ha
    simp [resultOf] at ha
  · intro hleaves
    rw [if_pos ⟨by decide +kernel, hleaves⟩] at hd
    simp [resultOf] at hd

end EffectGraph.AsyncResult
