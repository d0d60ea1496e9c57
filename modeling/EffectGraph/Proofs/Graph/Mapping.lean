/-
A graph read back from its plain mapping.

Reading a mapping adds its callers one by one, each followed by its calls, so a
callee that is no caller yet becomes a function there, ahead of its own row.
What comes out is told by that history (`ofMapping_eq_ofHistory`): its edges are
those of the mapping, in the order of the rows. A graph has each edge in one
place of one row, so all of them come back and none comes twice
(`ofMapping_toMapping`).
-/
import EffectGraph.Proofs.Graph.History

namespace EffectGraph

namespace Adjacency

/-- Rows of other ids have no pair of an id. -/
theorem filter_pairs_eq_nil {rows : List (String × List String)} {id : String}
    (h : id ∉ rows.map (·.1)) :
    (rows.flatMap fun row => row.2.map (row.1, ·)).filter (·.1 == id) = [] := by
  rw [List.filter_eq_nil_iff]
  intro p hp he
  obtain ⟨row, hrow, hp⟩ := List.mem_flatMap.1 hp
  obtain ⟨x, -, rfl⟩ := List.mem_map.1 hp
  exact h (List.mem_map.2 ⟨row, hrow, eq_of_beq he⟩)

/-- The row of an id is what the pairs say about it. -/
theorem map_filter_pairs (t : Adjacency) (id : String) :
    (t.pairs.filter (·.1 == id)).map (·.2) = t.row id := by
  by_cases h : id ∈ t.keys
  · obtain ⟨before, after, hrows⟩ := List.append_of_mem (row_mem_rows h)
    have hkeys := t.nodup_keys
    rw [hrows, List.map_append, List.map_cons, List.nodup_append, List.nodup_cons] at hkeys
    obtain ⟨-, ⟨hafter, -⟩, hne⟩ := hkeys
    have hbefore : id ∉ before.map (·.1) := fun hk => hne _ hk _ List.mem_cons_self rfl
    rw [pairs, hrows, List.flatMap_append, List.flatMap_cons, List.filter_append, List.filter_append,
      filter_pairs_eq_nil hbefore, filter_pairs_eq_nil hafter]
    simp [List.filter_map, Function.comp_def]
  · rw [pairs, filter_pairs_eq_nil h, row_of_notMem_keys h]
    rfl

end Adjacency

namespace CallGraph

/-- What reading a mapping adds: each caller, and then its calls. -/
def historyOf (mapping : List (String × List String)) : List Addition :=
  mapping.flatMap fun row => .function row.1 :: row.2.map (.edge row.1)

theorem ofMapping_eq_ofHistory (mapping : List (String × List String)) :
    ofMapping mapping = ofHistory (historyOf mapping) := by
  have hrow : ∀ (g : CallGraph) (row : String × List String),
      (Addition.function row.1 :: row.2.map (.edge row.1)).foldl Addition.apply g =
        g.addCalls row.1 row.2 := by
    intro g row
    rw [List.foldl_cons, List.foldl_map]
    rfl
  rw [ofHistory, historyOf, List.foldl_flatMap]
  exact List.foldl_ext _ _ _ fun g row _ => (hrow g row).symm

/-- The history of reading a graph's mapping adds the graph's edges. -/
theorem added_historyOf (g : CallGraph) : added (historyOf g.toMapping) = g.edges := by
  rw [added, historyOf, List.filterMap_flatMap, edges, Adjacency.pairs]
  refine List.flatMap_congr fun row _ => ?_
  rw [List.filterMap_cons_none rfl, List.filterMap_map, ← List.filterMap_eq_map]
  rfl

theorem mem_mentions_historyOf (g : CallGraph) (id : String) :
    id ∈ mentions (historyOf g.toMapping) ↔ id ∈ g.ids := by
  simp only [mentions, historyOf, List.mem_flatMap]
  constructor
  · rintro ⟨x, ⟨row, hrow, hx⟩, hid⟩
    have hcaller : row.1 ∈ g.ids := List.mem_map_of_mem hrow
    rcases List.mem_cons.1 hx with rfl | hx
    · rwa [List.mem_singleton.1 hid]
    · obtain ⟨callee, hcallee, rfl⟩ := List.mem_map.1 hx
      have hcalls : g.Calls row.1 callee := by
        rw [← mem_callees, callees, Adjacency.row_of_mem hrow]
        exact hcallee
      rcases List.mem_cons.1 hid with rfl | hid
      · exact hcaller
      · rw [List.mem_singleton.1 hid]
        exact hcalls.mem_ids.2
  · intro hid
    exact ⟨.function id, ⟨_, Adjacency.row_mem_rows hid, List.mem_cons_self⟩, List.mem_singleton_self id⟩

/-- **A graph comes back from its mapping.** Read from the mapping of a graph, whatever was added to it
and in which order, a graph has the same functions, the same callees of each in the same order, the
same callers of each, and as many edges. -/
theorem ofMapping_toMapping (g : CallGraph) :
    (ofMapping g.toMapping).ids.Perm g.ids ∧
    (∀ id, (ofMapping g.toMapping).callees id = g.callees id) ∧
    (∀ id, ((ofMapping g.toMapping).callers id).Perm (g.callers id)) ∧
    (ofMapping g.toMapping).edgeCount = g.edgeCount := by
  have hrec := records_ofHistory (historyOf g.toMapping)
  rw [← ofMapping_eq_ofHistory] at hrec
  have hcallees : ∀ id, (ofMapping g.toMapping).callees id = g.callees id := by
    intro id
    rw [hrec.callees, addedCallees, added_historyOf, edges, Adjacency.map_filter_pairs]
    exact eraseDups_of_nodup (g.forward.nodup_row id)
  refine ⟨?_, hcallees, fun id => ?_, ?_⟩
  · refine (List.perm_ext_iff_of_nodup (ofMapping g.toMapping).forward.nodup_keys g.forward.nodup_keys).2
      fun id => ?_
    change id ∈ (ofMapping g.toMapping).ids ↔ id ∈ g.ids
    rw [hrec.ids, List.mem_eraseDups, mem_mentions_historyOf]
  · refine (List.perm_ext_iff_of_nodup (nodup_callers _ id) (nodup_callers g id)).2 fun caller => ?_
    rw [mem_callers, mem_callers, ← mem_callees, ← mem_callees, hcallees]
  · rw [hrec.edgeCount, added_historyOf, edges, eraseDups_of_nodup g.forward.nodup_pairs,
      g.edgeCount_eq]

/-- A callee without a row yet comes ahead of a function that was added before it. -/
example :
    let g := ofHistory [.function "f", .function "g", .edge "f" "h", .edge "h" "f"]
    g.ids = ["f", "g", "h"] ∧ (ofMapping g.toMapping).ids = ["f", "h", "g"] := by
  decide

end CallGraph

end EffectGraph
