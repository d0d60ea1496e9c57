/-
Directed graphs of calls between function ids.

A graph keeps two tables, the callees of each id and the callers of each id,
and a count of its edges. The two tables have the same ids in the same order
and hold the same edges.
-/
import EffectGraph.Graph.Adjacency

namespace EffectGraph

@[ext] structure CallGraph where
  forward : Adjacency
  backward : Adjacency
  edgeCount : Nat
  keys_eq : backward.keys = forward.keys
  mirrored : ∀ a b, a ∈ backward.row b ↔ b ∈ forward.row a
  edgeCount_eq : edgeCount = forward.pairs.length

namespace CallGraph

def empty : CallGraph where
  forward := .empty
  backward := .empty
  edgeCount := 0
  keys_eq := rfl
  mirrored := by simp [Adjacency.row, Adjacency.empty]
  edgeCount_eq := rfl

instance : Inhabited CallGraph := ⟨empty⟩

def ids (g : CallGraph) : List String := g.forward.keys

/-- The functions that a function calls, in the order in which the edges came. -/
def callees (g : CallGraph) (id : String) : List String := g.forward.row id

/-- The functions that call a function, in the order in which the edges came. -/
def callers (g : CallGraph) (id : String) : List String := g.backward.row id

def hasEdge (g : CallGraph) (caller callee : String) : Bool := (g.callees caller).contains callee

def addFunction (g : CallGraph) (id : String) : CallGraph where
  forward := g.forward.withKey id
  backward := g.backward.withKey id
  edgeCount := g.edgeCount
  keys_eq := by rw [Adjacency.keys_withKey, Adjacency.keys_withKey, g.keys_eq]
  mirrored := by
    intro a b
    rw [Adjacency.row_withKey, Adjacency.row_withKey]
    exact g.mirrored a b
  edgeCount_eq := by
    rw [Adjacency.pairs_withKey]
    exact g.edgeCount_eq

/-- The graph with one more edge between two of its functions. -/
def connect (g : CallGraph) (caller callee : String) (hcaller : caller ∈ g.ids)
    (hcallee : callee ∈ g.ids) (hnew : callee ∉ g.callees caller) : CallGraph where
  forward := g.forward.insert caller callee
  backward := g.backward.insert callee caller
  edgeCount := g.edgeCount + 1
  keys_eq := by rw [Adjacency.keys_insert, Adjacency.keys_insert, g.keys_eq]
  mirrored := by
    intro a b
    rw [Adjacency.row_insert hcaller, Adjacency.row_insert (g.keys_eq ▸ hcallee)]
    -- Both rows get their new id where the row is that of the edge, and only there.
    by_cases ha : a = caller <;> by_cases hb : b = callee <;> simp [ha, hb, mem_mention, g.mirrored]
  edgeCount_eq := by rw [Adjacency.length_pairs_insert hcaller hnew, g.edgeCount_eq]

theorem mem_ids_addFunction_self (g : CallGraph) (id : String) : id ∈ (g.addFunction id).ids := by
  rw [ids, addFunction, Adjacency.keys_withKey, mem_mention]
  exact .inr rfl

theorem mem_ids_addFunction_of_mem {g : CallGraph} {x : String} (h : x ∈ g.ids) (id : String) :
    x ∈ (g.addFunction id).ids := by
  rw [ids, addFunction, Adjacency.keys_withKey, mem_mention]
  exact .inl h

/-- Adds an edge, and says whether it is new. -/
def addEdge (g : CallGraph) (caller callee : String) : Bool × CallGraph :=
  let g' := (g.addFunction caller).addFunction callee
  if h : callee ∈ g'.callees caller then (false, g')
  else
    (true, g'.connect caller callee (mem_ids_addFunction_of_mem (mem_ids_addFunction_self g caller) callee)
      (mem_ids_addFunction_self _ callee) h)

/-- The graph with the edge, whether it was there before or not. -/
def withEdge (g : CallGraph) (caller callee : String) : CallGraph := (g.addEdge caller callee).2

def contains (g : CallGraph) (id : String) : Bool := g.ids.contains id

/-- Each id with its callees. -/
def toMapping (g : CallGraph) : List (String × List String) := g.forward.rows

/-- The edges, caller by caller. -/
def edges (g : CallGraph) : List (String × String) := g.forward.pairs

def nodeCount (g : CallGraph) : Nat := g.ids.length

def outDegree (g : CallGraph) (id : String) : Nat := (g.callees id).length

def inDegree (g : CallGraph) (id : String) : Nat := (g.callers id).length

/-- Adds a caller with its callees. -/
def addCalls (g : CallGraph) (caller : String) (callees : List String) : CallGraph :=
  callees.foldl (fun g callee => g.withEdge caller callee) (g.addFunction caller)

def ofMapping (mapping : List (String × List String)) : CallGraph :=
  mapping.foldl (fun g (caller, callees) => g.addCalls caller callees) empty

def summary (g : CallGraph) : String :=
  s!"CallGraph(nodes={g.nodeCount}, edges={g.edgeCount})"

end CallGraph

end EffectGraph
