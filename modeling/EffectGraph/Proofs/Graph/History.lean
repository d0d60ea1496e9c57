/-
A graph against the history of what was added to it.

A graph keeps each edge in two tables and counts it in a third place, and an
edge that comes again must leave all three alone. `Records` says what the
tables and the count are for a history. Each addition keeps it
(`Records.concat`), so it holds of every graph that grew from the empty one
(`records_ofHistory`). What the main theorem says on top of it, that the
degrees on both sides sum up to the count, holds because the two tables have
the same pairs, one of them turned round (`length_pairs_backward`).
-/
import EffectGraph.Proofs.Graph.Growth
import Mathlib.Data.List.Nodup

namespace EffectGraph

/-! ## Pairs of a table -/

namespace Adjacency

theorem length_pairs_eq_sum (t : Adjacency) :
    t.pairs.length = (t.keys.map fun id => (t.row id).length).sum := by
  rw [length_pairs, keys, List.map_map]
  congr 1
  refine List.map_congr_left fun row hrow => ?_
  rw [Function.comp_apply, row_of_mem hrow]

theorem nodup_pairs (t : Adjacency) : t.pairs.Nodup := by
  rw [pairs, List.nodup_flatMap]
  constructor
  · intro row hrow
    exact (t.nodup_rows row hrow).map fun _ _ he => congrArg Prod.snd he
  · have hkeys : t.rows.Pairwise fun row row' => row.1 ≠ row'.1 := List.pairwise_map.1 t.nodup_keys
    refine hkeys.imp ?_
    intro row row' hne p hp hp'
    obtain ⟨x, -, rfl⟩ := List.mem_map.1 hp
    obtain ⟨y, -, he⟩ := List.mem_map.1 hp'
    exact hne (congrArg Prod.fst he).symm

end Adjacency

namespace CallGraph

theorem edges_length_eq_edgeCount (g : CallGraph) : g.edges.length = g.edgeCount :=
  g.edgeCount_eq.symm

theorem sum_outDegree (g : CallGraph) : (g.ids.map g.outDegree).sum = g.edgeCount := by
  rw [g.edgeCount_eq, g.forward.length_pairs_eq_sum]
  rfl

/-- The table of callers holds the edges, turned round. -/
theorem length_pairs_backward (g : CallGraph) : g.backward.pairs.length = g.forward.pairs.length := by
  have hturned : (g.forward.pairs.map Prod.swap).Nodup :=
    g.forward.nodup_pairs.map fun _ _ he => Prod.swap_inj.1 he
  have hsame : ∀ e, e ∈ g.backward.pairs ↔ e ∈ g.forward.pairs.map Prod.swap := by
    rintro ⟨b, a⟩
    rw [Adjacency.mem_pairs, g.mirrored, ← Adjacency.mem_pairs]
    simp
  have hperm := (List.perm_ext_iff_of_nodup g.backward.nodup_pairs hturned).2 hsame
  rw [hperm.length_eq, List.length_map]

theorem sum_inDegree (g : CallGraph) : (g.ids.map g.inDegree).sum = g.edgeCount := by
  rw [g.edgeCount_eq, ← length_pairs_backward, g.backward.length_pairs_eq_sum, g.keys_eq]
  rfl

/-! ## Histories -/

inductive Addition
  | function (id : String)
  | edge (caller callee : String)

namespace Addition

def apply (g : CallGraph) : Addition → CallGraph
  | function id => g.addFunction id
  | edge caller callee => (g.addEdge caller callee).2

/-- The ids of an addition, in the order in which they are mentioned. -/
def mentioned : Addition → List String
  | function id => [id]
  | edge caller callee => [caller, callee]

def edge? : Addition → Option (String × String)
  | function _ => none
  | edge caller callee => some (caller, callee)

end Addition

def ofHistory (history : List Addition) : CallGraph := history.foldl Addition.apply empty

/-- The ids that a history mentions, each as often as it does. -/
def mentions (history : List Addition) : List String := history.flatMap Addition.mentioned

/-- The edges that a history adds, each as often as it does. -/
def added (history : List Addition) : List (String × String) := history.filterMap Addition.edge?

/-- The callees of a caller in a history, each as often as it is added. -/
def addedCallees (history : List Addition) (caller : String) : List String :=
  ((added history).filter (·.1 == caller)).map (·.2)

def addedCallers (history : List Addition) (callee : String) : List String :=
  ((added history).filter (·.2 == callee)).map (·.1)

/-- A graph holds what a history adds: in each place the first mentions, in their order. -/
structure Records (g : CallGraph) (history : List Addition) : Prop where
  ids : g.ids = (mentions history).eraseDups
  callees : ∀ u, g.callees u = (addedCallees history u).eraseDups
  callers : ∀ v, g.callers v = (addedCallers history v).eraseDups
  edgeCount : g.edgeCount = (added history).eraseDups.length

variable {g : CallGraph} {history : List Addition}

theorem mem_addedCallees {u v : String} : v ∈ addedCallees history u ↔ (u, v) ∈ added history := by
  simp [addedCallees]

theorem Records.mem_callees (h : Records g history) {u v : String} :
    v ∈ g.callees u ↔ (u, v) ∈ added history := by
  rw [h.callees, List.mem_eraseDups, mem_addedCallees]

/-! ## One addition -/

@[simp] theorem added_concat_function (history : List Addition) (id : String) :
    added (history ++ [.function id]) = added history := by
  rw [added, List.filterMap_append]
  exact List.append_nil _

@[simp] theorem added_concat_edge (history : List Addition) (a b : String) :
    added (history ++ [.edge a b]) = added history ++ [(a, b)] := by
  rw [added, List.filterMap_append]
  rfl

theorem mention_mention_eraseDups (xs : List String) (x y : String) :
    mention (mention xs.eraseDups x) y = (xs ++ [x, y]).eraseDups := by
  rw [mention_eraseDups, mention_eraseDups, List.append_assoc]
  rfl

theorem Records.addFunction (h : Records g history) (id : String) :
    Records (g.addFunction id) (history ++ [.function id]) where
  ids := by
    rw [ids_addFunction, h.ids, mention_eraseDups]
    simp [mentions, Addition.mentioned]
  callees u := by
    rw [callees_addFunction, h.callees, addedCallees, addedCallees, added_concat_function]
  callers v := by
    rw [callers_addFunction, h.callers, addedCallers, addedCallers, added_concat_function]
  edgeCount := by
    rw [added_concat_function]
    exact h.edgeCount

theorem Records.addEdge (h : Records g history) (a b : String) :
    Records (g.withEdge a b) (history ++ [.edge a b]) where
  ids := by
    rw [ids_withEdge, h.ids, mention_mention_eraseDups]
    simp [mentions, Addition.mentioned]
  callees u := by
    rw [callees_withEdge, h.callees, mention_eraseDups]
    by_cases hu : u = a
    · simp [hu, addedCallees]
    · simp [hu, Ne.symm hu, addedCallees]
  callers v := by
    rw [callers_withEdge, h.callers, mention_eraseDups]
    by_cases hv : v = b
    · simp [hv, addedCallers]
    · simp [hv, Ne.symm hv, addedCallers]
  edgeCount := by
    rw [edgeCount_withEdge, added_concat_edge, eraseDups_concat, h.edgeCount]
    simp only [h.mem_callees]
    split
    · rfl
    · rw [List.length_append, List.length_singleton]

/-- One addition keeps the tables and the count what the history says. -/
theorem Records.concat (h : Records g history) (x : Addition) :
    Records (x.apply g) (history ++ [x]) := by
  cases x with
  | function id => exact h.addFunction id
  | edge a b => exact h.addEdge a b

/-! ## Whole histories -/

theorem records_empty : Records empty [] where
  ids := rfl
  callees _ := rfl
  callers _ := rfl
  edgeCount := rfl

theorem records_ofHistory (history : List Addition) : Records (ofHistory history) history := by
  induction history using List.reverseRecOn with
  | nil => exact records_empty
  | append_singleton history x ih =>
    rw [ofHistory, List.foldl_concat]
    exact ih.concat x

/-- An edge that is there comes again: nothing changes. -/
theorem addEdge_of_calls {a b : String} (h : b ∈ g.callees a) : g.addEdge a b = (false, g) := by
  obtain ⟨ha, hb⟩ := (mem_callees.1 h).mem_ids
  rcases addEdge_cases g a b with ⟨-, he⟩ | ⟨hnot, -⟩
  · rw [he, addFunction_of_mem ha, addFunction_of_mem hb]
  · exact absurd h hnot

/-- **A graph is what its history says.** The callees and the callers of each function are the
distinct ones that were added, in the order in which they first came. The two tables have the same
ids, in the order of their first mention. The count of the edges is the number of distinct edges
that were added, and the sum of the degrees on either side. Adding an edge says whether it is new,
and one that is not new changes nothing. -/
theorem ofHistory_exact (history : List Addition) :
    (∀ u, (ofHistory history).callees u = (addedCallees history u).eraseDups) ∧
    (∀ v, (ofHistory history).callers v = (addedCallers history v).eraseDups) ∧
    (∀ u v, ((ofHistory history).hasEdge u v = true ↔ v ∈ (ofHistory history).callees u) ∧
      (v ∈ (ofHistory history).callees u ↔ u ∈ (ofHistory history).callers v)) ∧
    (ofHistory history).forward.keys = (mentions history).eraseDups ∧
    (ofHistory history).backward.keys = (mentions history).eraseDups ∧
    (ofHistory history).edgeCount = (added history).eraseDups.length ∧
    ((ofHistory history).ids.map (ofHistory history).outDegree).sum = (ofHistory history).edgeCount ∧
    ((ofHistory history).ids.map (ofHistory history).inDegree).sum = (ofHistory history).edgeCount ∧
    (ofHistory history).edges.length = (ofHistory history).edgeCount ∧
    ∀ u v,
      (((ofHistory history).addEdge u v).1 = true ↔ (u, v) ∉ added history) ∧
      ((ofHistory history).addEdge u v = (false, ofHistory history) ↔ (u, v) ∈ added history) := by
  have hrec := records_ofHistory history
  refine ⟨hrec.callees, hrec.callers, fun u v => ⟨?_, ?_⟩, hrec.ids, ?_, hrec.edgeCount,
    sum_outDegree _, sum_inDegree _, edges_length_eq_edgeCount _, fun u v => ⟨?_, fun h => ?_, fun h => ?_⟩⟩
  · rw [hasEdge, List.contains_iff_mem]
  · rw [mem_callees, mem_callers]
  · rw [keys_eq]
    exact hrec.ids
  · rw [fst_addEdge, ← hrec.mem_callees]
    simp [hasEdge]
  · have hold : (ofHistory history).hasEdge u v = true := by
      simpa [fst_addEdge] using congrArg Prod.fst h
    exact hrec.mem_callees.1 (List.contains_iff_mem.1 hold)
  · exact addEdge_of_calls (hrec.mem_callees.2 h)

/-- A function that calls itself and is called twice over: both edges come once, in both tables. -/
example :
    let g := ofHistory [.edge "f" "f", .function "h", .edge "g" "f", .edge "f" "f"]
    g.ids = ["f", "h", "g"] ∧ g.callees "f" = ["f"] ∧ g.callers "f" = ["f", "g"] ∧ g.edgeCount = 2 := by
  decide

end CallGraph

end EffectGraph
