/-
What a tree says about scopes.

A walk over a tree gives events in the order in which the text is read: this
node belongs to that scope, this scope opens, this name is bound. The scope a
node belongs to depends only on the way down to it (`Place`): the body of a
function or a class and everything in a comprehension belong to the scope that
these open; decorators, defaults, hints, base classes and the first iterable of
a comprehension belong to the scope around.
-/
import EffectGraph.Scope.Basic
import EffectGraph.Source.Path

namespace EffectGraph

/-- A scope that is open around a node. -/
structure Frame where
  id : Nat
  kind : ScopeKind
  receiver : Option String
  deriving Repr, Inhabited

/-- The scope that a node stands in, and the scopes around that one, from the inside out. -/
structure Place where
  here : Frame
  outer : List Frame
  deriving Repr, Inhabited

namespace Place

def enter (p : Place) (f : Frame) : Place := ⟨f, p.here :: p.outer⟩

/-- The nearest scope that is no comprehension's: there `:=` binds. -/
def nearestBlock (p : Place) : Frame :=
  ((p.here :: p.outer).find? (·.kind != .comprehension)).getD p.here

end Place

inductive Event where
  | belongs (node scope : Nat)
  | opened (node : Node) (kind : ScopeKind) (receiver : Option String) (ancestors : List Nat)
  | bound (scope : Nat) (binding : Binding)
  | global (scope : Nat) (names : List String)
  | nonlocal (scope : Nat) (names : List String)
  | stored (scope : Nat) (attr : StoredAttribute)

/-- How the walk meets a node. -/
inductive Manner where
  | plain
  /-- As a target that binds its names, with the value and the type that the text gives them. -/
  | target (value hint : Option Node)
  /-- As the first clause of a comprehension. Its iterable belongs to the place around; after it
  the scope opens. -/
  | opening (around : Place) (opened : Event)

def Manner.isTarget : Manner → Bool
  | target .. => true
  | _ => false

namespace Node

/-- The place of the parts that belong to the scope a node opens. -/
def inside (n : Node) (p : Place) : Place :=
  match n.kind.scopeKind? with
  | none => p
  | some kind =>
    let receiver := if n.kind.isFunctionDef then n.receiverName (p.here.kind == .classBody) else none
    p.enter ⟨n.index, kind, receiver⟩

def openedEvent (n : Node) (p : Place) : Event :=
  let inner := n.inside p
  .opened n inner.here.kind inner.here.receiver (inner.outer.map (·.id))

/-- The place of a part of a node. -/
def placeOf (n : Node) (p : Place) (m : Manner) (r : Role) : Place :=
  match n.kind, m with
  | .functionDef .., _ | .lambda, _ | .classDef _, _ => if r = .body then n.inside p else p
  | .comprehension _, .opening around _ => if r = .iter then around else p
  | k, _ => if k.isComprehension then n.inside p else p

/-- How the walk meets a part of a node. `isFirst` holds up to the first clause. -/
def mannerOf (n : Node) (p : Place) (m : Manner) (isFirst : Bool) (r : Role) : Manner :=
  match n.kind, r with
  | .assign, .target => .target (n.part? .value) none
  | .annAssign, .target => .target (n.part? .value) (n.part? .hint)
  | .augAssign, .target | .deleteStmt, .target | .forLoop _, .target | .comprehension _, .target
  | .withItem, .captured => .target none none
  | .tuple, .element | .list, .element | .starred, .value =>
    if m.isTarget then .target none none else .plain
  | _, .generator => if isFirst then .opening p (n.openedEvent p) else .plain
  | _, _ => .plain

/-- The values that an assignment stores in attributes of the receiver, if it stands directly in a
method. -/
def storedIn (p : Place) (value : Node) (targets : List Node) : List Event :=
  match p.here.kind, p.here.receiver, p.outer with
  | .function, some receiver, f :: _ =>
    if f.kind != .classBody then []
    else targets.filterMap fun t =>
      match t.kind, (t.part? .value).map Node.kind with
      | .member name _, some (.name id _) =>
        if id.text == receiver then some (.stored f.id ⟨name, value, p.here.id⟩) else none
      | _, _ => none
  | _, _, _ => []

/-- The name that an alias of a plain import binds, and the dotted name that it stands for: the
whole one after `as`, otherwise the first part. -/
def importedName (name : String) (asName : Option String) : String × String :=
  match asName with
  | some local_ => (local_, name)
  | none =>
    let first := (Text.split '.' name).headD ""
    (first, first)

def aliasBindings (n : Node) (resolve : Nat → String → String) : List Binding :=
  (n.parts .importAlias).filterMap fun a =>
    match n.kind, a.kind with
    | .importStmt, .importAlias name asName =>
      let (bound, target) := importedName name asName
      some ⟨bound, .imported, a, none, some target, none⟩
    | .importFrom module level, .importAlias name asName =>
      if name == "*" then none
      else
        let base := resolve level module
        let target := if base.isEmpty then name else s!"{base}.{name}"
        some ⟨asName.getD name, .imported, a, none, some target, none⟩
    | _, _ => none

def parameterBindings (n : Node) : List Binding :=
  n.parameters.map fun a => ⟨a.argName, .parameter, a, none, none, a.part? .hint⟩

/-- The events of a node, in order, given those of its parts. -/
def arrange (resolve : Nat → String → String) (n : Node) (p : Place) (m : Manner)
    (parts : List (Role × List Event)) : List Event :=
  let own := Event.belongs n.index p.here.id
  let of (r : Role) : List Event := (parts.filter (·.1 == r)).flatMap (·.2)
  let all := parts.flatMap (·.2)
  let bind (b : Binding) : Event := .bound p.here.id b
  let bindInside (b : Binding) : Event := .bound n.index b
  let other (name : Option String) : List Event :=
    name.toList.map fun x => bind ⟨x, .other, n, none, none, none⟩
  match n.kind with
  | .functionDef name _ =>
    own :: of .decorator ++ of .signature ++ of .returns
      ++ bind ⟨name, .functionDef, n, none, none, none⟩ :: n.openedEvent p
      :: n.parameterBindings.map bindInside ++ of .body
  | .lambda =>
    own :: of .signature ++ n.openedEvent p :: n.parameterBindings.map bindInside ++ of .body
  | .classDef name =>
    own :: of .decorator ++ of .base ++ of .keyword
      ++ bind ⟨name, .classDef, n, none, none, none⟩ :: n.openedEvent p :: of .body
  | .arguments =>
    of .default ++ of .kwDefault ++ of .posonly ++ of .positional ++ of .vararg ++ of .kwonly
      ++ of .kwarg
  | .importStmt | .importFrom .. => own :: all ++ (n.aliasBindings resolve).map bind
  | .globalStmt names => [own, .global p.here.id names]
  | .nonlocalStmt names => [own, .nonlocal p.here.id names]
  | .assign | .annAssign =>
    own :: of .hint ++ of .value ++ of .target
      ++ ((n.part? .value).map fun v => storedIn p v (n.parts .target)).getD []
  | .augAssign => own :: of .value ++ of .target
  | .namedExpr =>
    own :: of .value ++ of .target ++ (n.parts .target).filterMap fun t =>
      match t.kind with
      | .name id _ =>
        some (.bound p.nearestBlock.id ⟨id, .assignment, t, n.part? .value, none, none⟩)
      | _ => none
  | .forLoop _ => own :: of .iter ++ of .target ++ of .body ++ of .orelse
  | .exceptHandler name => own :: of .exception ++ other name ++ of .body
  | .matchAs name | .matchStar name | .matchMapping name => own :: other name ++ all
  | .comprehension _ =>
    match m with
    | .opening _ opened => of .iter ++ opened :: own :: of .target ++ of .condition
    | _ => own :: of .iter ++ of .target ++ of .condition
  | .listComp | .setComp | .dictComp | .generatorExp =>
    own :: of .generator ++ of .element ++ of .key ++ of .value
  | .name id _ =>
    match m with
    | .target value hint => [own, bind ⟨id, .assignment, n, value, none, hint⟩]
    | _ => [own]
  | _ => own :: all

mutual

/-- The events of a tree. `resolve` gives the module that a relative import means. -/
def events (resolve : Nat → String → String) (p : Place) (m : Manner) : Node → List Event
  | mk i r k s cs =>
    arrange resolve (mk i r k s cs) p m (partEvents resolve (mk i r k s cs) p m true cs)

def partEvents (resolve : Nat → String → String) (n : Node) (p : Place) (m : Manner)
    (isFirst : Bool) : List Node → List (Role × List Event)
  | [] => []
  | c :: cs =>
    (c.role, events resolve (n.placeOf p m c.role) (n.mannerOf p m isFirst c.role) c)
      :: partEvents resolve n p m (isFirst && c.role != .generator) cs

end

end Node

end EffectGraph
