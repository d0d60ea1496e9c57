/-
The awaitable calls of a function lie inside the call graph.

Two walks look at the calls of a body: the graph asks level by level what each
of them runs, and sorts the calls by their places, and the search for hazards
asks once more on its way down, for calls that can be awaited. Both ask the
same question about the same calls, and the passes over the graph add issues
alone. So whatever is recorded as awaitable is a callee, and a walk that comes
to its end records every such callee (`awaitableCalls_exact`).
-/
import EffectGraph.Proofs.Finding.HazardRule
import EffectGraph.Proofs.Report.Summary

namespace EffectGraph

@[simp] theorem AsyncResult.awaitableCalls_addIssue (r : AsyncResult) (issue : AsyncIssue) :
    (r.addIssue issue).2.awaitableCalls = r.awaitableCalls := by
  unfold addIssue
  split <;> rfl

namespace Project

variable {P : Project} {ignore : List String} {functions : List Function} {f : Function} {id : String}

/-- A function makes a call that can be awaited and that runs the function with an id. -/
def Awaits (P : Project) (functions : List Function) (f : Function) (id : String) : Prop :=
  ∃ call ∈ f.node.bodyNodes, call.isCall = true ∧ P.isAwaitable f.file call = .ok true ∧
    P.calleeId functions f.file call = .ok (some id)

/-! ## What the walk records -/

section Notes

variable {v : Visit} {notes : List Note}

theorem awaitableCallee_mem_calleeNotes {found : List Note} (h : P.calleeNotes functions f v = .ok found)
    (hid : .awaitableCallee id ∈ found) :
    P.isAwaitable f.file v.node = .ok true ∧ P.calleeId functions f.file v.node = .ok (some id) := by
  obtain ⟨b, hb, h⟩ := Analysis.bind_eq_ok.1 h
  cases b with
  | false =>
    cases h
    cases hid
  | true =>
    obtain ⟨id?, hcallee, h⟩ := Analysis.bind_eq_ok.1 h
    cases h
    obtain ⟨id', hid', he⟩ := Option.map_eq_some_iff.1 (Option.mem_toList.1 hid)
    cases he
    exact ⟨hb, hid' ▸ hcallee⟩

/-- Of the steps of a call, one records what an awaitable call runs. -/
theorem awaitableCallee_mem_callNotes_iff :
    (∃ found, .ok found ∈ P.callNotes functions f v ∧ .awaitableCallee id ∈ found) ↔
      P.isAwaitable f.file v.node = .ok true ∧ P.calleeId functions f.file v.node = .ok (some id) := by
  obtain ⟨first, rest, hnotes, hothers⟩ := callNotes_eq P f v
  rw [hnotes]
  constructor
  · rintro ⟨found, hfound, hid⟩
    rcases List.mem_cons.1 hfound with h | h
    · cases hothers first (by simp) found h.symm _ hid
    · rcases List.mem_cons.1 h with h | h
      · exact awaitableCallee_mem_calleeNotes h.symm hid
      · cases hothers (.ok found) (by simp [h]) found rfl _ hid
  · rintro ⟨hawaitable, hcallee⟩
    refine ⟨[.awaitableCallee id], ?_, List.mem_singleton_self _⟩
    have hstep : P.calleeNotes functions f v = .ok [.awaitableCallee id] :=
      Analysis.bind_eq_ok.2 ⟨true, hawaitable, Analysis.bind_eq_ok.2 ⟨some id, hcallee, rfl⟩⟩
    rw [hstep]
    exact List.mem_cons_of_mem _ List.mem_cons_self

theorem awaits_of_mem_notes (hnotes : P.notes functions f = .ok notes)
    (hid : .awaitableCallee id ∈ notes) : P.Awaits functions f id := by
  obtain ⟨v, hv, (⟨he, -⟩ | ⟨he, -⟩) | ⟨hcall, hfound⟩⟩ := exists_visit_of_mem_notes hnotes hid
  · cases he
  · cases he
  · exact ⟨v.node, Node.mem_bodyNodes_of_mem_bodyVisits hv, beq_iff_eq.2 hcall,
      awaitableCallee_mem_callNotes_iff.1 hfound⟩

theorem mem_notes_of_awaits (hnotes : P.notes functions f = .ok notes)
    (hcut : (collectFindings (P.noteWalk functions f)).2 ≠ some .tooDeep) (hid : P.Awaits functions f id) :
    .awaitableCallee id ∈ notes := by
  obtain ⟨call, hbody, hcall, hawaited⟩ := hid
  obtain ⟨v, hv, rfl⟩ := Node.exists_bodyVisit hbody
  exact (mem_notes_iff hnotes hcut).2
    ⟨v, hv, .inr ⟨eq_of_beq hcall, awaitableCallee_mem_callNotes_iff.2 hawaited⟩⟩

end Notes

/-- The awaitable calls of a function by itself are those the walk has recorded, each once. -/
theorem awaitableCalls_localFlow {flow : AsyncFlow} (h : P.localFlow functions f = .ok flow) :
    flow.result.awaitableCalls.Nodup ∧ ∃ notes, P.notes functions f = .ok notes ∧
      ∀ id, id ∈ flow.result.awaitableCalls ↔ .awaitableCallee id ∈ notes := by
  obtain ⟨notes, hnotes, h⟩ := Analysis.bind_eq_ok.1 h
  cases h
  refine ⟨CallGraph.nodup_eraseDups _, notes, hnotes, fun id => ?_⟩
  rw [List.mem_eraseDups, List.mem_filterMap]
  refine ⟨?_, fun hnote => ⟨_, hnote, rfl⟩⟩
  rintro ⟨note, hnote, he⟩
  cases note with
  | awaitableCallee id' =>
    cases he
    exact hnote
  | hazard | suspends | boundary | callsAwaitable => cases he

/-! ## The call graph -/

/-- What a call in a body runs is a callee, whichever walk has met the call. -/
theorem Awaits.mem_callees {g : CallGraph} (hg : P.callGraph functions = .ok g) (hf : f ∈ functions)
    (h : P.Awaits functions f id) : id ∈ g.callees f.id := by
  obtain ⟨call, hbody, hcall, -, hcallee⟩ := h
  rw [callees_callGraph hg, List.mem_eraseDups, List.mem_flatMap]
  refine ⟨f, List.mem_filter.2 ⟨hf, beq_self_eq_true _⟩, List.mem_filterMap.2 ⟨call, ?_, ?_⟩⟩
  · exact Node.mem_callsInBody.2 ⟨hbody, hcall⟩
  · rw [answer, hcallee]

/-- **Awaitable calls lie inside the call graph.** Each function of a report has its awaitable calls
once each, and they are callees of the function: the ids of what it calls and could await. If the walk
over its body comes to its end, all of these are there. -/
theorem awaitableCalls_exact {report : Report} (h : P.analyze ignore = .ok report) :
    List.Forall₂ (fun f r => r.label = f.label ∧ r.awaitableCalls.Nodup ∧
        (∀ id ∈ r.awaitableCalls, id ∈ report.graph.callees f.id ∧ P.Awaits (P.functions ignore) f id) ∧
        ((collectFindings (P.noteWalk (P.functions ignore) f)).2 ≠ some .tooDeep →
          ∀ id, P.Awaits (P.functions ignore) f id → id ∈ r.awaitableCalls))
      (P.functions ignore) report.async := by
  obtain ⟨found, hfound, rfl⟩ := analyze_eq_ok h
  obtain ⟨-, hgraph, -, hflows⟩ := findings_eq_ok hfound
  have hkept : (found.report (P.skipped.map (·.message))).async.map (fun r => (r.label, r.awaitableCalls)) =
      found.flows.map fun flow => (flow.result.label, flow.result.awaitableCalls) :=
    map_report_async (fun a issue => by simp) found _
  rw [← List.forall₂_eq_eq_eq, List.forall₂_map_left_iff, List.forall₂_map_right_iff] at hkept
  refine forall₂_of_common (forall₂_and_mem hflows).flip hkept.flip ?_
  rintro flow f r ⟨hflow, hf, -⟩ hsame
  obtain ⟨hlabel, hcalls⟩ := Prod.mk.inj (show (r.label, r.awaitableCalls) = _ from hsame)
  obtain ⟨hnodup, notes, hnotes, hmem⟩ := awaitableCalls_localFlow hflow
  rw [hlabel, hcalls]
  refine ⟨(localFlow_eq_ok hflow).1, hnodup, fun id hid => ?_, fun hcut id hawaits => ?_⟩
  · have hawaits := awaits_of_mem_notes hnotes ((hmem id).1 hid)
    exact ⟨hawaits.mem_callees hgraph hf, hawaits⟩
  · exact (hmem id).2 (mem_notes_of_awaits hnotes hcut hawaits)

/-- A coroutine that awaits another one inside a nested function, and a function that calls itself
with nothing to await. -/
def awaitingTexts : List (String × String) :=
  [("m.py", "async def fetch():\n    pass\nasync def wait():\n    async def inner():\n" ++
    "        await fetch()\ndef leave():\n    leave()\n")]

theorem awaitableCalls_exact_nested :
    ∃ P report, ofTexts awaitingTexts [] = .ok P ∧ P.analyze [] = .ok report ∧
      report.async.map (fun r => (r.id, r.awaitableCalls)) =
        [("m.py:0:fetch", []), ("m.py:28:wait", ["m.py:0:fetch"]), ("m.py:50:inner", ["m.py:0:fetch"]),
          ("m.py:91:leave", [])] ∧
      report.graph.callees "m.py:91:leave" = ["m.py:91:leave"] ∧
      ∀ r ∈ report.async, r.awaitableCalls.Nodup ∧ ∃ f ∈ P.functions [], r.label = f.label ∧
        ∀ id ∈ r.awaitableCalls, id ∈ report.graph.callees f.id ∧ P.Awaits (P.functions []) f id := by
  have heval : ((ofTexts awaitingTexts []).toOption.map fun P =>
      (P.analyze []).toOption.map fun report => (report.async.map (fun r => (r.id, r.awaitableCalls)),
        report.graph.callees "m.py:91:leave")) =
      some (some ([("m.py:0:fetch", []), ("m.py:28:wait", ["m.py:0:fetch"]),
        ("m.py:50:inner", ["m.py:0:fetch"]), ("m.py:91:leave", [])], ["m.py:91:leave"])) := by
    decide +kernel
  obtain ⟨P, hP, heval⟩ := exists_ok_of_map_toOption heval
  obtain ⟨report, hreport, he⟩ := exists_ok_of_map_toOption heval
  obtain ⟨hcalls, hcallees⟩ := Prod.mk.inj he
  refine ⟨P, report, hP, hreport, hcalls, hcallees, fun r hr => ?_⟩
  obtain ⟨f, hf, hlabel, hnodup, hinside, -⟩ := exists_of_mem_right (awaitableCalls_exact hreport) hr
  exact ⟨hnodup, f, hf, hlabel, hinside⟩

end Project

end EffectGraph
