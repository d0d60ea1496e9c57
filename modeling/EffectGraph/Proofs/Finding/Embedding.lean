/-
What the analyses find in a function is the same in a project and in a larger
one that it lies in.

A finding comes from the nodes of the function's body, and each of them asks
questions that have the same answers in both projects. Only the ids of callees
also depend on the inventory; there the two inventories have to give the
project's own constructs the same ids.
-/
import EffectGraph.Finding.Effect
import EffectGraph.Finding.Hazard
import EffectGraph.Proofs.Graph.Calls

namespace EffectGraph

/-- The same function at the place that its file has in a larger project. -/
def Function.moved (place : Nat → Nat) (f : Function) : Function :=
  { f with definition := f.definition.moved place }

namespace Node

theorem mem_parts_of_argument? {call a : Node} {i : Nat} (h : call.argument? i = some a) :
    a ∈ call.parts .argument := by
  unfold argument? at h
  split at h
  · next hi =>
    split at h
    · cases h
    · cases h
      exact List.mem_of_getElem? hi
  · cases h

theorem visits_eq (parent : Node) (grandparent : Option Node) (inLoop ownScope : Bool) (n : Node) :
    visits parent grandparent inLoop ownScope n =
      ⟨n, parent, grandparent, inLoop, ownScope⟩ :: n.children.flatMap
        (visits n (some parent) (inLoop || n.kind.isLoop) (ownScope && !n.kind.isFunction)) := by
  have all : ∀ (m : Node) (g : Option Node) (a b : Bool) (cs : List Node),
      visitsAll m g a b cs = cs.flatMap (visits m g a b) := by
    intro m g a b cs
    induction cs with
    | nil => rfl
    | cons c cs ih => rw [visitsAll, ih, List.flatMap_cons]
  cases n with
  | mk i r k s cs => rw [visits, all]; rfl

theorem mem_preorder_of_mem_visits : ∀ (n parent : Node) (grandparent : Option Node)
    (inLoop ownScope : Bool), ∀ v ∈ visits parent grandparent inLoop ownScope n,
      v.node ∈ n.preorder := by
  refine induction fun n ih parent grandparent inLoop ownScope v hv => ?_
  rw [visits_eq, List.mem_cons, List.mem_flatMap] at hv
  rcases hv with rfl | ⟨c, hc, hv⟩
  · exact n.mem_preorder_self
  · exact mem_preorder_of_child hc (ih c hc _ _ _ _ v hv)

theorem mem_bodyNodes_of_mem_bodyVisits {n : Node} {v : Visit} (h : v ∈ n.bodyVisits) :
    v.node ∈ n.bodyNodes := by
  obtain ⟨b, hb, hv⟩ := List.mem_flatMap.1 h
  exact List.mem_flatMap.2 ⟨b, hb, mem_preorder_of_mem_visits b _ _ _ _ v hv⟩

end Node

namespace Project.Embedding

variable {P Q : Project} (E : Embedding P Q) {f : Function}

/-! ## Effects -/

theorem isParameter_moved (f : Function) (n : Node) :
    Q.isParameter (f.moved E.place) n = P.isParameter f n := by
  unfold isParameter
  split
  · next id access hk =>
    have hfile : (f.moved E.place).file = E.place f.file := rfl
    have hown : ownParameters (f.moved E.place) = ownParameters f := rfl
    simp only [hfile, hown, E.symbol?]
    cases P.symbol? f.file n.index id with
    | none => rfl
    | some s => simp [Definition.moved, Function.comp_def]
  · rfl

theorem nameWriteEffects_moved (f : Function) (n : Node) :
    Q.nameWriteEffects (f.moved E.place) n = P.nameWriteEffects f n := by
  funext name
  unfold nameWriteEffects
  have hfile : (f.moved E.place).file = E.place f.file := rfl
  have hnode : (f.moved E.place).node = f.node := rfl
  simp only [hfile, hnode, E.symbol?]
  cases P.symbol? f.file n.index name with
  | none => rfl
  | some s => simp [Definition.moved, Function.comp_def]

theorem writeEffects_moved (f : Function) : Q.writeEffects (f.moved E.place) = P.writeEffects f := by
  funext target
  unfold writeEffects
  simp only [E.isParameter_moved, E.nameWriteEffects_moved]
  rfl

theorem methodEffects_moved (f : Function) (func : Node) :
    Q.methodEffects (f.moved E.place) func = P.methodEffects f func := by
  unfold methodEffects
  simp only [E.isParameter_moved]

theorem effectSteps_moved {n : Node} (h : P.Holds ⟨f.file, n⟩) :
    Q.effectSteps (f.moved E.place) n = P.effectSteps f n := by
  unfold effectSteps
  have hfile : (f.moved E.place).file = E.place f.file := rfl
  simp only [hfile, E.writeEffects_moved, E.nameWriteEffects_moved, E.methodEffects_moved,
    E.qualifiedName_eq h]
  cases hfunc : n.part? .func with
  | none => rfl
  | some func => simp only [E.qualifiedName_eq ((P.closed_holds f.file).part? h hfunc)]

theorem localPurity_moved (h : P.Holds f.definition) :
    Q.localPurity (f.moved E.place) = P.localPurity f := by
  have heffects : Q.effects (f.moved E.place) = P.effects f := by
    unfold effects
    refine congrArg findingsOf (List.flatMap_congr fun n hn => ?_)
    exact E.effectSteps_moved (holds_of_mem_bodyNodes h hn)
  unfold localPurity
  rw [heffects]
  rfl

/-! ## Asynchronous hazards -/

theorem isAsyncHandler_place {file : Nat} {n? : Option Node} (h : ∀ n, n? = some n → P.Holds ⟨file, n⟩) :
    Q.isAsyncHandler (E.place file) n? = P.isAsyncHandler file n? := by
  cases n? with
  | none => rfl
  | some n => exact E.isAsyncCallable_eq (h n rfl)

theorem anyAwaitable_place {file : Nat} {ns : List Node} (h : ∀ n ∈ ns, P.Holds ⟨file, n⟩) :
    Q.anyAwaitable (E.place file) ns = P.anyAwaitable file ns := by
  induction ns with
  | nil => rfl
  | cons n ns ih =>
    rw [anyAwaitable, anyAwaitable, E.isAwaitable_eq (h n (by simp)), ih fun m hm => h m (by simp [hm])]

/-- What a call hands over stands below it. -/
theorem holds_of_mem_gathered {file : Nat} {call n : Node} (h : P.Holds ⟨file, call⟩)
    (hn : n ∈ call.gathered) : P.Holds ⟨file, n⟩ := by
  obtain ⟨a, ha, hn⟩ := List.mem_flatMap.1 hn
  have hclosed := P.closed_holds file
  have hargument := hclosed.parts h ha
  have hvalue : P.Holds ⟨file, if a.kind == .starred then (a.part? .value).getD a else a⟩ := by
    split
    · cases hv : a.part? .value with
      | none => exact hargument
      | some v => exact hclosed.part? hargument hv
    · exact hargument
  simp only at hn
  generalize (if a.kind == .starred then (a.part? .value).getD a else a) = value at hn hvalue
  split at hn
  · exact hclosed.parts hvalue hn
  · split at hn
    · simp at hn
    · rw [List.mem_singleton.1 hn]
      exact hargument

theorem holds_of_argument? {file : Nat} {call a : Node} {i : Nat} (h : P.Holds ⟨file, call⟩)
    (ha : call.argument? i = some a) : P.Holds ⟨file, a⟩ :=
  (P.closed_holds file).parts h (Node.mem_parts_of_argument? ha)

theorem holds_of_iterationCallback? {file : Nat} {call n : Node} {qualified : Option String}
    (h : P.Holds ⟨file, call⟩) (hn : iterationCallback? call qualified = some n) :
    P.Holds ⟨file, n⟩ := by
  unfold iterationCallback? at hn
  split at hn
  · exact holds_of_argument? h hn
  · split at hn
    · exact holds_of_argument? h hn
    · cases hn

theorem holds_of_listener? {file : Nat} {call n : Node} {qualified : Option String}
    (h : P.Holds ⟨file, call⟩) (hn : listener? call qualified = some n) : P.Holds ⟨file, n⟩ := by
  unfold listener? at hn
  split at hn
  · exact holds_of_argument? h hn
  · obtain ⟨i, -, hi⟩ := Option.bind_eq_some_iff.1 hn
    exact holds_of_argument? h hi

variable {functions functions' : List Function}
  (hids : ∀ d, P.Holds d → idOf? functions' (d.moved E.place) = idOf? functions d)

include hids

theorem calleeId_place {file : Nat} {call : Node} (h : P.Holds ⟨file, call⟩) :
    Q.calleeId functions' (E.place file) call = P.calleeId functions file call := by
  refine (Analysis.Related.eq_iff.1 ?_).symm
  refine Analysis.Related.bind (E.callee_rel h) fun d? d'? hd => ?_
  cases hd with
  | none => exact .done rfl
  | @some d d' hd =>
    obtain ⟨hholds, rfl⟩ := hd
    have hown : Q.isOwn (d.moved E.place) = P.isOwn d := by
      unfold isOwn
      rw [show (d.moved E.place).file = E.place d.file from rfl, E.file]
    simp only [hown, hids d hholds]
    exact .done rfl

theorem calleeIds_moved (h : P.Holds f.definition) :
    Q.calleeIds functions' (f.moved E.place) = P.calleeIds functions f := by
  have hcalls : f.node.callsInBody.mapM (Q.calleeId functions' (E.place f.file)) =
      f.node.callsInBody.mapM (P.calleeId functions f.file) := by
    refine Analysis.mapM_congr fun call hcall => ?_
    exact E.calleeId_place hids (holds_of_mem_bodyNodes h (Node.mem_callsInBody.1 hcall).1)
  exact congrArg (fun answers => do return (← answers).filterMap id) hcalls

theorem callNotes_moved {v : Visit} (h : P.Holds ⟨f.file, v.node⟩) :
    Q.callNotes functions' (f.moved E.place) v = P.callNotes functions f v := by
  have hfile : (f.moved E.place).file = E.place f.file := rfl
  unfold callNotes
  simp only [hfile, E.isAwaitable_eq h, E.calleeId_place hids h,
    E.anyAwaitable_place fun n hn => holds_of_mem_gathered h hn,
    E.isAsyncHandler_place fun n hn => holds_of_iterationCallback? h hn,
    E.isAsyncHandler_place fun n hn => holds_of_listener? h hn]
  cases hfunc : v.node.part? .func with
  | none => rfl
  | some func => simp only [E.qualifiedName_eq ((P.closed_holds f.file).part? h hfunc)]

theorem localFlow_moved (h : P.Holds f.definition) :
    Q.localFlow functions' (f.moved E.place) = P.localFlow functions f := by
  have hnotes : Q.notes functions' (f.moved E.place) = P.notes functions f := by
    unfold notes
    refine congrArg findingsOf (List.flatMap_congr fun v hv => ?_)
    unfold noteSteps
    rw [E.callNotes_moved hids (holds_of_mem_bodyNodes h (Node.mem_bodyNodes_of_mem_bodyVisits hv))]
  unfold localFlow
  rw [hnotes]
  rfl

end Project.Embedding

end EffectGraph
