/-
The call graph of a project has the ids of the inventory, and the callees of an
id are what the calls in its functions run, each once, in the order in which
they are first run.
-/
import EffectGraph.Proofs.Function.Inventory
import EffectGraph.Proofs.Graph.Growth
import EffectGraph.Proofs.Model.Query

namespace EffectGraph

namespace Node

/-- The calls in the body of a function in the order of the walk that meets them. -/
def walkedCalls (n : Node) : List Node := (n.bodyParts.flatMap levelOrder).filter isCall

theorem mem_walkedCalls {n call : Node} :
    call ∈ n.walkedCalls ↔ call ∈ n.bodyNodes ∧ call.isCall = true := by
  simp only [walkedCalls, bodyNodes, List.mem_filter, List.mem_flatMap,
    (levelOrder_perm_preorder _).mem_iff]

theorem mem_callsInBody {n call : Node} :
    call ∈ n.callsInBody ↔ call ∈ n.bodyNodes ∧ call.isCall = true := by
  rw [← mem_walkedCalls]
  exact (List.mergeSort_perm n.walkedCalls startsBefore).mem_iff

end Node

namespace Project

variable {P : Project} {functions : List Function}

theorem mem_of_idOf? {d : Definition} {id : String} (h : idOf? functions d = some id) :
    id ∈ functions.map Function.id := by
  obtain ⟨f, hf, rfl⟩ := Option.map_eq_some_iff.1 h
  exact List.mem_map_of_mem (List.mem_of_find?_eq_some hf)

theorem calleeId_eq_some {file : Nat} {call : Node} {id : String} :
    P.calleeId functions file call = .ok (some id) ↔
      ∃ d, P.callee file call = .ok (some d) ∧ P.isOwn d = true ∧ idOf? functions d = some id := by
  unfold calleeId
  rw [Analysis.bind_eq_ok]
  constructor
  · rintro ⟨d?, hd, h⟩
    cases d? with
    | none => cases h
    | some d =>
      cases hown : P.isOwn d with
      | false => simp [hown, pure, Except.pure] at h
      | true => exact ⟨d, hd, hown, by simpa [hown, pure, Except.pure] using h⟩
  · rintro ⟨d, hd, hown, hid⟩
    exact ⟨some d, hd, by simp [hown, hid, pure, Except.pure]⟩

theorem mem_of_calleeId {file : Nat} {call : Node} {id : String}
    (h : P.calleeId functions file call = .ok (some id)) : id ∈ functions.map Function.id := by
  obtain ⟨d, -, -, hid⟩ := calleeId_eq_some.1 h
  exact mem_of_idOf? hid

/-- What the calls of a function run: the answers to its calls, in their order. -/
theorem calleeIds_eq_ok {f : Function} {ids : List String}
    (h : P.calleeIds functions f = .ok ids) :
    ∃ answers, List.Forall₂ (fun call answer => P.calleeId functions f.file call = .ok answer)
      f.node.callsInBody answers ∧ ids = answers.filterMap id := by
  obtain ⟨answers, hanswers, h⟩ := Analysis.bind_eq_ok.1 h
  cases h
  exact ⟨answers, Analysis.mapM_eq_ok.1 hanswers, rfl⟩

/-- What a call runs, if asking for it does not break off. -/
def answer (P : Project) (functions : List Function) (f : Function) (call : Node) : Option String :=
  match P.calleeId functions f.file call with
  | .ok id => id
  | .error _ => none

theorem calleeIds_eq_filterMap {f : Function} {ids : List String}
    (h : P.calleeIds functions f = .ok ids) :
    ids = f.node.callsInBody.filterMap (P.answer functions f) := by
  obtain ⟨answers, hanswers, rfl⟩ := calleeIds_eq_ok h
  have hmap : f.node.callsInBody.map (P.answer functions f) = answers.map id :=
    map_eq_map_of_forall₂ hanswers fun call x hx => by simp [answer, hx]
  rw [← List.map_id answers, ← hmap, List.filterMap_map]
  rfl

theorem mem_ids_of_mem_calleeIds {f : Function} {ids : List String}
    (h : P.calleeIds functions f = .ok ids) {id : String} (hid : id ∈ ids) :
    id ∈ functions.map Function.id := by
  obtain ⟨answers, hanswers, rfl⟩ := calleeIds_eq_ok h
  obtain ⟨answer, hanswer, rfl⟩ := List.mem_filterMap.1 hid
  obtain ⟨call, -, hcall⟩ := exists_of_mem_right hanswers hanswer
  exact mem_of_calleeId hcall

/-- The rows of a call graph: each function's id with what its calls run. -/
theorem callGraph_eq_ok {g : CallGraph} (h : P.callGraph functions = .ok g) :
    ∃ rows : List (List String),
      List.Forall₂ (fun f ids => P.calleeIds functions f = .ok ids) functions rows ∧
      g = (functions.foldl (fun g f => g.addFunction f.id) CallGraph.empty).addRows
        ((functions.map Function.id).zip rows) := by
  obtain ⟨rows, hrows, h⟩ := Analysis.bind_eq_ok.1 h
  cases h
  refine ⟨rows, Analysis.mapM_eq_ok.1 hrows, ?_⟩
  rw [CallGraph.addRows, List.zip_map_left, List.foldl_map]
  rfl

theorem ids_callGraph {g : CallGraph} (h : P.callGraph functions = .ok g) :
    g.ids = (functions.map Function.id).eraseDups := by
  obtain ⟨rows, hrows, rfl⟩ := callGraph_eq_ok h
  have vertices : (functions.foldl (fun g f => g.addFunction f.id) CallGraph.empty).ids =
      (functions.map Function.id).eraseDups := by
    have h : CallGraph.empty.ids = ([] : List String).eraseDups := by
      simp [CallGraph.empty, CallGraph.ids, Adjacency.keys, Adjacency.empty]
    exact CallGraph.ids_foldl_addFunction Function.id functions h
  rw [CallGraph.ids_addRows, vertices]
  intro row hrow
  obtain ⟨id, ids⟩ := row
  simp only [vertices, List.mem_eraseDups]
  refine ⟨(List.of_mem_zip hrow).1, fun x hx => ?_⟩
  obtain ⟨f, -, hids⟩ := exists_of_mem_right hrows (List.of_mem_zip hrow).2
  exact mem_ids_of_mem_calleeIds hids hx

theorem callees_callGraph {g : CallGraph} (h : P.callGraph functions = .ok g) (u : String) :
    g.callees u = ((functions.filter (·.id == u)).flatMap fun f =>
      f.node.callsInBody.filterMap (P.answer functions f)).eraseDups := by
  obtain ⟨rows, hrows, rfl⟩ := callGraph_eq_ok h
  have hrow : rows = functions.map fun f => f.node.callsInBody.filterMap (P.answer functions f) := by
    rw [← List.map_id rows]
    exact (map_eq_map_of_forall₂ hrows fun f ids hids => (calleeIds_eq_filterMap hids).symm).symm
  have empty : (functions.foldl (fun g f => g.addFunction f.id) CallGraph.empty).callees u =
      ([] : List String).eraseDups := by
    rw [CallGraph.callees_foldl_addFunction]
    simp [CallGraph.empty, CallGraph.callees, Adjacency.row, Adjacency.empty]
  rw [CallGraph.callees_addRows _ empty, List.nil_append, hrow, List.zip_map', List.filter_map,
    List.flatMap_map]
  rfl

/-! ## The order of callees -/

/-- A call with the place of its caller in the inventory and its own place in the walk over the
body of the caller. -/
structure CallSite where
  caller : Nat
  call : Node
  walked : Nat

/-- Calls of functions that come first in the inventory, then calls that come first in the text,
then calls that come first in the walk. -/
def CallSite.Before (s t : CallSite) : Prop :=
  s.caller < t.caller ∨ s.caller = t.caller ∧
    (s.call.start.line < t.call.start.line ∨ s.call.start.line = t.call.start.line ∧
      (s.call.start.column < t.call.start.column ∨ s.call.start.column = t.call.start.column ∧
        s.walked < t.walked))

/-- A call in a function with one id that runs a function with another id. -/
def Runs (P : Project) (functions : List Function) (u v : String) (s : CallSite) : Prop :=
  ∃ f f', functions[s.caller]? = some f ∧ f.id = u ∧ f.node.walkedCalls[s.walked]? = some s.call ∧
    f' ∈ functions ∧ f'.id = v ∧ P.callee f.file s.call = .ok (some f'.definition)

/-- The calls of a function in their order, with their places in the walk. -/
def numberedCalls (n : Node) : List (Node × Nat) :=
  n.walkedCalls.zipIdx.mergeSort (List.zipIdxLE Node.startsBefore)

theorem map_fst_numberedCalls (n : Node) : (numberedCalls n).map (·.1) = n.callsInBody :=
  List.mergeSort_zipIdx

theorem mem_numberedCalls {n : Node} {x : Node × Nat} :
    x ∈ numberedCalls n ↔ n.walkedCalls[x.2]? = some x.1 := by
  rw [numberedCalls, (List.mergeSort_perm _ _).mem_iff, List.mem_zipIdx_iff_getElem?]

theorem startsBefore_iff {a b : Node} : a.startsBefore b = true ↔
    a.start.line < b.start.line ∨ a.start.line = b.start.line ∧ a.start.column ≤ b.start.column := by
  simp [Node.startsBefore, Pos.le]

theorem pairwise_numberedCalls (n : Node) (i : Nat) :
    (numberedCalls n).Pairwise fun a b => CallSite.Before ⟨i, a.1, a.2⟩ ⟨i, b.1, b.2⟩ := by
  have trans : ∀ a b c : Node, a.startsBefore b = true → b.startsBefore c = true →
      a.startsBefore c = true := by
    intro a b c hab hbc
    rw [startsBefore_iff] at *
    omega
  have total : ∀ a b : Node, (a.startsBefore b || b.startsBefore a) = true := by
    intro a b
    rw [Bool.or_eq_true, startsBefore_iff, startsBefore_iff]
    omega
  have sorted := List.pairwise_mergeSort (List.zipIdxLE_trans trans) (List.zipIdxLE_total total)
    n.walkedCalls.zipIdx
  have distinct : (numberedCalls n).Pairwise fun a b => a.2 ≠ b.2 := by
    have hnodup : (n.walkedCalls.zipIdx.map Prod.snd).Nodup := by
      rw [List.zipIdx_map_snd]
      exact List.nodup_range'
    have hperm := (List.mergeSort_perm n.walkedCalls.zipIdx (List.zipIdxLE Node.startsBefore)).map
      Prod.snd
    exact List.pairwise_map.1 (hperm.nodup_iff.2 hnodup)
  refine (sorted.and distinct).imp ?_
  rintro ⟨a, j⟩ ⟨b, k⟩ ⟨hle, hne⟩
  simp only [List.zipIdxLE] at hle
  refine .inr ⟨rfl, ?_⟩
  simp only
  split at hle
  · next hab =>
    rw [startsBefore_iff] at hab
    split at hle
    · next hba =>
      have hjk : j ≤ k := by simpa using hle
      rw [startsBefore_iff] at hba
      simp only [ne_eq] at hne
      omega
    · next hba =>
      rw [startsBefore_iff] at hba
      omega
  · cases hle

/-- The calls in the functions with an id, in their order. -/
def callSites (functions : List Function) (u : String) : List CallSite :=
  (functions.zipIdx.filter (·.1.id == u)).flatMap fun x =>
    (numberedCalls x.1.node).map fun y => ⟨x.2, y.1, y.2⟩

/-- What the call at a site runs. -/
def siteAnswer (P : Project) (functions : List Function) (s : CallSite) : Option String :=
  functions[s.caller]?.bind fun f => P.answer functions f s.call

theorem mem_callSites {u : String} {s : CallSite} :
    s ∈ callSites functions u ↔ ∃ f, functions[s.caller]? = some f ∧ f.id = u ∧
      f.node.walkedCalls[s.walked]? = some s.call := by
  simp only [callSites, List.mem_flatMap, List.mem_filter, List.mem_map, List.mem_zipIdx_iff_getElem?,
    mem_numberedCalls, beq_iff_eq, Prod.exists]
  constructor
  · rintro ⟨f, i, ⟨hf, hu⟩, call, k, hcall, rfl⟩
    exact ⟨f, hf, hu, hcall⟩
  · rintro ⟨f, hf, hu, hcall⟩
    exact ⟨f, s.caller, ⟨hf, hu⟩, s.call, s.walked, hcall, rfl⟩

theorem pairwise_callSites (functions : List Function) (u : String) :
    (callSites functions u).Pairwise CallSite.Before := by
  have callers : functions.zipIdx.Pairwise fun a b => a.2 < b.2 := by
    rw [← List.pairwise_map (f := Prod.snd) (R := (· < ·)), List.zipIdx_map_snd]
    exact List.pairwise_lt_range'
  refine List.pairwise_flatMap.2 ⟨fun x _ => ?_, ?_⟩
  · exact List.pairwise_map.2 (pairwise_numberedCalls x.1.node x.2)
  · refine (callers.sublist List.filter_sublist).imp fun hab s hs t ht => ?_
    obtain ⟨x, -, rfl⟩ := List.mem_map.1 hs
    obtain ⟨y, -, rfl⟩ := List.mem_map.1 ht
    exact .inl hab

theorem filterMap_callSites (P : Project) (functions : List Function) (u : String) :
    (callSites functions u).filterMap (P.siteAnswer functions) =
      (functions.filter (·.id == u)).flatMap fun f =>
        f.node.callsInBody.filterMap (P.answer functions f) := by
  have row : ∀ x ∈ functions.zipIdx.filter (·.1.id == u),
      ((numberedCalls x.1.node).map fun y => CallSite.mk x.2 y.1 y.2).filterMap
          (P.siteAnswer functions) =
        x.1.node.callsInBody.filterMap (P.answer functions x.1) := by
    intro x hx
    have hf : functions[x.2]? = some x.1 :=
      List.mem_zipIdx_iff_getElem?.1 (List.mem_filter.1 hx).1
    rw [← map_fst_numberedCalls, List.filterMap_map, List.filterMap_map]
    refine List.filterMap_congr fun y _ => ?_
    simp [siteAnswer, hf]
  have hmap : (functions.zipIdx.filter (·.1.id == u)).map Prod.fst = functions.filter (·.id == u) := by
    have hfst : functions.zipIdx.map Prod.fst = functions := List.zipIdx_map_fst 0 functions
    nth_rewrite 2 [← hfst]
    rw [List.filter_map]
    rfl
  rw [callSites, List.filterMap_flatMap, List.flatMap_congr row, ← hmap, List.flatMap_map]

/-- Things stand in the order of the first sites that show them. -/
theorem pairwise_eraseDups_filterMap {α β : Type} [BEq β] [LawfulBEq β] {before : α → α → Prop}
    {label : α → Option β} {sites : List α} (h : sites.Pairwise before) :
    (sites.filterMap label).eraseDups.Pairwise fun v w =>
      ∃ s ∈ sites, label s = some v ∧ ∀ t ∈ sites, label t = some w → before s t := by
  induction sites using List.reverseRecOn with
  | nil => simp
  | append_singleton sites last ih =>
    obtain ⟨hsites, -, hlast⟩ := List.pairwise_append.1 h
    have hlast : ∀ s ∈ sites, before s last := fun s hs => hlast s hs last (by simp)
    have old := (ih hsites).imp fun {v w} ⟨s, hs, hv, hw⟩ =>
      (⟨s, List.mem_append_left _ hs, hv, fun t ht htw => by
        rcases List.mem_append.1 ht with ht | ht
        · exact hw t ht htw
        · rw [List.mem_singleton.1 ht]
          exact hlast s hs⟩ : ∃ s ∈ sites ++ [last], label s = some v ∧
            ∀ t ∈ sites ++ [last], label t = some w → before s t)
    rw [List.filterMap_append]
    cases hl : label last with
    | none => simpa [hl] using old
    | some x =>
      rw [show [last].filterMap label = [x] by simp [hl], CallGraph.eraseDups_concat]
      split
      · exact old
      · next hx =>
        refine List.pairwise_append.2 ⟨old, by simp, fun v hv w hw => ?_⟩
        rw [List.mem_singleton.1 hw]
        obtain ⟨s, hs, hsv⟩ := List.mem_filterMap.1 (List.mem_eraseDups.1 hv)
        refine ⟨s, List.mem_append_left _ hs, hsv, fun t ht htx => ?_⟩
        -- The label is new, so only the last site shows it.
        rcases List.mem_append.1 ht with ht | ht
        · exact absurd (List.mem_filterMap.2 ⟨t, ht, htx⟩) hx
        · rw [List.mem_singleton.1 ht]
          exact hlast s hs

/-! ## Resolved calls -/

variable {ignore : List String}

theorem Holds.eq_of_same {a b : Definition} (ha : P.Holds a) (hb : P.Holds b) (h : a.same b = true) :
    a = b := by
  obtain ⟨hfile, hindex⟩ := Definition.same_iff.1 h
  obtain ⟨f, hf, hna⟩ := ha
  obtain ⟨f', hf', hnb⟩ := hb
  rw [hfile] at hf
  obtain rfl : f = f' := Option.some.inj (hf.symm.trans hf')
  have hnode := Tree.eq_of_index hna hnb hindex
  cases a
  cases b
  simp_all

theorem holds_of_mem_functions {f : Function} (hf : f ∈ P.functions ignore) : P.Holds f.definition := by
  obtain ⟨file, hfile, -, hnode⟩ := file_of_mem_functions hf
  exact ⟨file, hfile, hnode⟩

theorem holds_of_mem_bodyNodes {f : Function} (hf : P.Holds f.definition) {n : Node}
    (hn : n ∈ f.node.bodyNodes) : P.Holds ⟨f.file, n⟩ :=
  (P.closed_holds f.file).preorder hf n (Node.mem_preorder_of_mem_bodyNodes hn)

/-- A call runs a function of the inventory exactly if it resolves to that function's node. -/
theorem calleeId_eq_some_iff (hP : P.Sound) {file : Nat} {call : Node} (hc : P.Holds ⟨file, call⟩)
    {v : String} :
    P.calleeId (P.functions ignore) file call = .ok (some v) ↔
      ∃ f' ∈ P.functions ignore, f'.id = v ∧ P.callee file call = .ok (some f'.definition) := by
  rw [calleeId_eq_some]
  constructor
  · rintro ⟨d, hd, -, hid⟩
    obtain ⟨f', hf', hsame, hv⟩ := idOf?_eq_some_iff.1 hid
    have heq := (holds_of_mem_functions hf').eq_of_same (holds_of_callee hP hc hd) hsame
    exact ⟨f', hf', hv, heq ▸ hd⟩
  · rintro ⟨f', hf', hv, hd⟩
    have hsame : f'.definition.same f'.definition = true := by simp [Definition.same]
    exact ⟨f'.definition, hd, isOwn_of_same hf' hsame, idOf?_eq_some_iff.2 ⟨f', hf', hsame, hv⟩⟩

theorem runs_iff (hP : P.Sound) {u v : String} {s : CallSite} :
    P.Runs (P.functions ignore) u v s ↔
      s ∈ callSites (P.functions ignore) u ∧ P.siteAnswer (P.functions ignore) s = some v := by
  have answer_iff : ∀ {f}, f ∈ P.functions ignore → s.call ∈ f.node.bodyNodes →
      (P.answer (P.functions ignore) f s.call = some v ↔
        ∃ f' ∈ P.functions ignore, f'.id = v ∧ P.callee f.file s.call = .ok (some f'.definition)) := by
    intro f hf hcall
    rw [← calleeId_eq_some_iff hP (holds_of_mem_bodyNodes (holds_of_mem_functions hf) hcall), answer]
    cases P.calleeId (P.functions ignore) f.file s.call <;> simp
  have body : ∀ {f : Function}, f.node.walkedCalls[s.walked]? = some s.call → s.call ∈ f.node.bodyNodes :=
    fun hcall => (Node.mem_walkedCalls.1 (List.mem_of_getElem? hcall)).1
  rw [mem_callSites]
  constructor
  · rintro ⟨f, f', hf, hu, hcall, hf', hv, hd⟩
    refine ⟨⟨f, hf, hu, hcall⟩, ?_⟩
    rw [siteAnswer, hf]
    exact (answer_iff (List.mem_of_getElem? hf) (body hcall)).2 ⟨f', hf', hv, hd⟩
  · rintro ⟨⟨f, hf, hu, hcall⟩, hanswer⟩
    rw [siteAnswer, hf] at hanswer
    obtain ⟨f', hf', hv, hd⟩ := (answer_iff (List.mem_of_getElem? hf) (body hcall)).1 hanswer
    exact ⟨f, f', hf, hu, hcall, hf', hv, hd⟩

theorem callees_eq_eraseDups_callSites {g : CallGraph} (h : P.callGraph functions = .ok g)
    (u : String) :
    g.callees u = ((callSites functions u).filterMap (P.siteAnswer functions)).eraseDups := by
  rw [callees_callGraph h, filterMap_callSites]

theorem mem_callees_iff_runs (hP : P.Sound) {g : CallGraph}
    (h : P.callGraph (P.functions ignore) = .ok g) {u v : String} :
    v ∈ g.callees u ↔ ∃ s, P.Runs (P.functions ignore) u v s := by
  rw [callees_eq_eraseDups_callSites h, List.mem_eraseDups, List.mem_filterMap]
  exact exists_congr fun s => (runs_iff hP).symm

theorem exists_runs_iff {u v : String} :
    (∃ s, P.Runs (P.functions ignore) u v s) ↔
      ∃ f ∈ P.functions ignore, ∃ f' ∈ P.functions ignore, f.id = u ∧ f'.id = v ∧
        ∃ call ∈ f.node.bodyNodes, call.isCall = true ∧
          P.callee f.file call = .ok (some f'.definition) := by
  constructor
  · rintro ⟨s, f, f', hf, hu, hcall, hf', hv, hd⟩
    obtain ⟨hbody, hisCall⟩ := Node.mem_walkedCalls.1 (List.mem_of_getElem? hcall)
    exact ⟨f, List.mem_of_getElem? hf, f', hf', hu, hv, s.call, hbody, hisCall, hd⟩
  · rintro ⟨f, hf, f', hf', hu, hv, call, hbody, hisCall, hd⟩
    obtain ⟨i, hi⟩ := List.mem_iff_getElem?.1 hf
    obtain ⟨k, hk⟩ := List.mem_iff_getElem?.1 (Node.mem_walkedCalls.2 ⟨hbody, hisCall⟩)
    exact ⟨⟨i, call, k⟩, f, f', hi, hu, hk, hf', hv, hd⟩

theorem pairwise_callees (hP : P.Sound) {g : CallGraph}
    (h : P.callGraph (P.functions ignore) = .ok g) (u : String) :
    (g.callees u).Pairwise fun v w => ∃ s, P.Runs (P.functions ignore) u v s ∧
      ∀ t, P.Runs (P.functions ignore) u w t → s.Before t := by
  rw [callees_eq_eraseDups_callSites h]
  refine (pairwise_eraseDups_filterMap (pairwise_callSites (P.functions ignore) u)).imp ?_
  rintro v w ⟨s, hs, hv, hfirst⟩
  refine ⟨s, (runs_iff hP).2 ⟨hs, hv⟩, fun t ht => ?_⟩
  obtain ⟨hmem, hw⟩ := (runs_iff hP).1 ht
  exact hfirst t hmem hw

/-- **The call graph is exact.** Its ids are those of the inventory. An edge is there exactly if a
call in the body of a function with the first id resolves to the node of a function with the second
one. No call that resolves to a definition in an analysed file is lost. The callees of an id stand
in the order of the first calls that run them. -/
theorem callGraph_exact {sources : List SourceFile} {skipped : List Skipped}
    (hP : P = ofFiles sources skipped) {g : CallGraph}
    (h : P.callGraph (P.functions ignore) = .ok g) :
    (∀ id, id ∈ g.ids ↔ ∃ f ∈ P.functions ignore, f.id = id) ∧
    (∀ u v, g.Calls u v ↔ ∃ f ∈ P.functions ignore, ∃ f' ∈ P.functions ignore, f.id = u ∧ f'.id = v ∧
      ∃ call ∈ f.node.bodyNodes, call.isCall = true ∧
        P.callee f.file call = .ok (some f'.definition)) ∧
    (∀ f ∈ P.functions ignore, ∀ call ∈ f.node.bodyNodes, call.isCall = true →
      ∀ d, P.callee f.file call = .ok (some d) → d.node.kind.isFunctionDef = true →
      ∀ file, P.file? d.file = some file → file.source.isProject = true →
        isIgnored ignore file.source.path = false →
        ∃ f' ∈ P.functions ignore, f'.definition = d ∧ g.Calls f.id f'.id) ∧
    ∀ u, (g.callees u).Pairwise fun v w => ∃ s, P.Runs (P.functions ignore) u v s ∧
      ∀ t, P.Runs (P.functions ignore) u w t → s.Before t := by
  have hsound : P.Sound := hP ▸ ofFiles_sound sources skipped
  have edge : ∀ u v, g.Calls u v ↔ ∃ f ∈ P.functions ignore, ∃ f' ∈ P.functions ignore,
      f.id = u ∧ f'.id = v ∧ ∃ call ∈ f.node.bodyNodes, call.isCall = true ∧
        P.callee f.file call = .ok (some f'.definition) := by
    intro u v
    rw [← exists_runs_iff, ← mem_callees_iff_runs hsound h, CallGraph.mem_callees]
  refine ⟨fun id => ?_, edge, ?_, pairwise_callees hsound h⟩
  · rw [ids_callGraph h, List.mem_eraseDups, List.mem_map]
  · intro f hf call hcall hisCall d hd hdef file hfile hproject hignored
    have hholds := holds_of_callee hsound (holds_of_mem_bodyNodes (holds_of_mem_functions hf) hcall) hd
    obtain ⟨file', hfile', hnode⟩ := hholds
    obtain rfl : file = file' := Option.some.inj (hfile.symm.trans hfile')
    have hanalyzed : isAnalyzed ignore file.source = true := by simp [isAnalyzed, hproject, hignored]
    obtain ⟨f', hf', rfl⟩ := exists_function_of_mem_nodes hfile hanalyzed hnode hdef
    exact ⟨f', hf', rfl, (edge _ _).2 ⟨f, hf, f', hf', rfl, rfl, call, hcall, hisCall, hd⟩⟩

/-- A file of imports and of functions that make one call each. -/
def sampleFile (path module : String) (imports : List (String × String))
    (functions : List (Identifier × Bool × Identifier)) : SourceFile :=
  let importNode (line : Nat) (x : String × String) : Node :=
    let span : Span := ⟨⟨line, 0⟩, ⟨line, 10⟩⟩
    .mk 0 .body (.importFrom x.1 0) span [.mk 0 .importAlias (.importAlias x.2 none) span []]
  let functionNode (line : Nat) (x : Identifier × Bool × Identifier) : Node :=
    let span : Span := ⟨⟨line, 4⟩, ⟨line, 10⟩⟩
    .mk 0 .body (.functionDef x.1 x.2.1) ⟨⟨line, 0⟩, ⟨line, 10⟩⟩
      [.mk 0 .signature .arguments span [],
       .mk 0 .body .exprStmt span [.mk 0 .value .call span [.mk 0 .func (.name x.2.2 .read) span []]]]
  let root : Node := .new .module ⟨⟨1, 0⟩, ⟨10, 0⟩⟩
    (imports.map (importNode 1) ++ functions.zipIdx.map fun (x, i) => functionNode (i + 2) x)
  ⟨path, module, ⟨[]⟩, (Tree.ofNode? root).getD default⟩

/-- The names in the samples. -/
def nameF : Identifier := ⟨"f", rfl⟩

def nameG : Identifier := ⟨"g", rfl⟩

def namePrint : Identifier := ⟨"print", rfl⟩

/-- Three functions in one file: `f` calls `g`, `g` prints, and `h` is a coroutine that leaves a
call of itself unawaited. -/
def sample : Project :=
  ofFiles [sampleFile "a.py" "a" [] [(nameF, false, nameG), (nameG, false, namePrint),
    (⟨"h", rfl⟩, true, ⟨"h", rfl⟩)]] []

theorem callGraph_exact_sample :
    ∃ g, sample.callGraph (sample.functions []) = .ok g ∧
      g.edges = [("a.py:0:f", "a.py:0:g"), ("a.py:0:h", "a.py:0:h")] ∧
      (∀ id, id ∈ g.ids ↔ ∃ f ∈ sample.functions [], f.id = id) ∧
      ∀ u, (g.callees u).Pairwise fun v w => ∃ s, sample.Runs (sample.functions []) u v s ∧
        ∀ t, sample.Runs (sample.functions []) u w t → s.Before t := by
  have heval : (sample.callGraph (sample.functions [])).toOption.map (·.edges) =
      some [("a.py:0:f", "a.py:0:g"), ("a.py:0:h", "a.py:0:h")] := by
    decide +kernel
  obtain ⟨g, h, hcalls⟩ := exists_ok_of_map_toOption heval
  obtain ⟨hids, -, -, horder⟩ := callGraph_exact rfl h
  exact ⟨g, h, hcalls, hids, horder⟩

end Project

end EffectGraph
