/-
The scopes of a file, and the scope that each node belongs to.
-/
import EffectGraph.Scope.Event
import EffectGraph.Source.File

namespace EffectGraph

namespace Event

/-- The scope that an event opens, with all that the events say about it. -/
def scope? (events : List Event) : Event → Option Scope
  | .opened node kind receiver ancestors => some
    { node, kind, receiver, ancestors
      bindings := events.filterMap fun
        | .bound s b => if s == node.index then some b else none
        | _ => none
      globals := events.flatMap fun
        | .global s names => if s == node.index then names else []
        | _ => []
      nonlocals := events.flatMap fun
        | .nonlocal s names => if s == node.index then names else []
        | _ => []
      stored := events.filterMap fun
        | .stored s a => if s == node.index then some a else none
        | _ => none }
  | _ => none

end Event

/-- The scopes of a file in the order in which they open, and for each node the scope that it
belongs to. The signature of a function belongs to none as a whole. -/
structure ScopeTable where
  scopes : List Scope
  homes : Array (Option Nat)
  deriving Inhabited

namespace ScopeTable

/-- The events of a file: the module's scope opens, then the tree is read. -/
def eventsOf (f : SourceFile) : List Event :=
  let root := f.tree.root
  let p : Place := ⟨⟨root.index, .module, none⟩, []⟩
  let resolve := SourcePath.importedModule f.module f.isPackage
  .opened root .module none [] :: root.events resolve p .plain

def ofEvents (size : Nat) (events : List Event) : ScopeTable where
  scopes := events.filterMap (Event.scope? events)
  homes := events.foldl
    (fun homes e =>
      match e with
      | .belongs node scope => homes.setIfInBounds node (some scope)
      | _ => homes)
    (Array.replicate size none)

def ofFile (f : SourceFile) : ScopeTable :=
  ofEvents f.tree.root.size (eventsOf f)

/-- The scope that a node opens. -/
def opened? (t : ScopeTable) (node : Nat) : Option Scope :=
  t.scopes.find? (·.id == node)

/-- A scope with the scopes around it. -/
def chain (t : ScopeTable) (s : Scope) : Chain :=
  s :: s.ancestors.filterMap t.opened?

/-- The scope that a node belongs to, with the scopes around it. -/
def chainOf? (t : ScopeTable) (node : Nat) : Option Chain :=
  match t.homes[node]? with
  | some (some home) => (t.opened? home).map t.chain
  | _ => none

end ScopeTable

end EffectGraph
