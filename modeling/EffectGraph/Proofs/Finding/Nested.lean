/-
What is found in a nested function is found in the function around it.

The body of a nested function is a part of the body around it, and what a node
shows depends on its file, on the node and on what is around it. The walk over
the outer function comes to the same nodes with the same constructs around
them, except that a loop of the outer function may be one of them
(`exists_visit_around`). Effects on parameters, on the receiver and on outer
names are told from the function that is looked at, so they are left out here.
The graph knows functions by their ids alone. Where another function has the id
of the nested one, its calls count as calls of the nested one, and these the
outer function does not make.
-/
import EffectGraph.Proofs.Finding.Embedding
import EffectGraph.Proofs.Finding.Own
import EffectGraph.Proofs.Function.Unique

namespace EffectGraph

/-! ## Walks that come to their end -/

section Walks

variable {α : Type} {steps : List (Analysis (List α))}

theorem mem_collectFindings_of_ok {found : List α} {x : α} (hx : x ∈ found) :
    ∀ {steps : List (Analysis (List α))}, (collectFindings steps).2 = none → .ok found ∈ steps →
      x ∈ (collectFindings steps).1
  | .error e :: rest, h, _ => by cases h
  | .ok first :: rest, h, hfound => by
    rw [collectFindings, List.mem_append]
    rcases List.mem_cons.1 hfound with he | hfound
    · cases he
      exact .inl hx
    · exact .inr (mem_collectFindings_of_ok hx h hfound)

/-- A walk that is not cut off gives all that its steps show. -/
theorem mem_of_not_cut {all found : List α} {x : α} (hall : findingsOf steps = .ok all)
    (hcut : (collectFindings steps).2 ≠ some .tooDeep) (hfound : .ok found ∈ steps) (hx : x ∈ found) :
    x ∈ all := by
  have hmem : (collectFindings steps).2 = none → .ok found ∈ steps → x ∈ (collectFindings steps).1 :=
    mem_collectFindings_of_ok hx
  unfold findingsOf at hall
  split at hall
  · next h =>
    cases hall
    rw [h] at hmem
    exact hmem rfl hfound
  · next h =>
    rw [h] at hcut
    exact absurd rfl hcut
  · cases hall

theorem mem_iff_of_not_cut {all : List α} {x : α} (hall : findingsOf steps = .ok all)
    (hcut : (collectFindings steps).2 ≠ some .tooDeep) :
    x ∈ all ↔ ∃ found, .ok found ∈ steps ∧ x ∈ found :=
  ⟨mem_findingsOf hall, fun ⟨_, hfound, hx⟩ => mem_of_not_cut hall hcut hfound hx⟩

theorem exists_related_step {R : List α → List α → Prop} {steps' : List (Analysis (List α))}
    (h : List.Forall₂ (Analysis.Related R) steps steps') {found' : List α} (hfound' : .ok found' ∈ steps') :
    ∃ found, .ok found ∈ steps ∧ R found found' := by
  obtain ⟨step, hstep, hrelated⟩ := exists_of_mem_right h hfound'
  cases hrelated with
  | done hR => exact ⟨_, hstep, hR⟩

end Walks

/-! ## Effects -/

namespace Effect

/-- Effects that are told from what is used, whichever function it is used in. -/
def isAmbient : Effect → Bool
  | accessesGlobal _ | accessesEnvironment | writesConsole | callsNondeterministic _
  | readsCurrentTime _ | swallowsError => true
  | mutatesParameter _ | mutatesParameterVia .. | writesOuterScope _ | mutatesReceiver .. => false

/-- The fixed text that the message of an effect opens with. -/
def opening : Effect → String
  | mutatesParameter _ | mutatesParameterVia .. => "Mutates parameter `"
  | writesOuterScope _ => "Writes to outer scope `"
  | mutatesReceiver .. => "Mutates `"
  | accessesGlobal _ => "Accesses global `"
  | accessesEnvironment => "Accesses `os.environ` (non-deterministic)"
  | writesConsole => "Writes to console"
  | callsNondeterministic _ => "Calls "
  | readsCurrentTime _ => "Instantiates "
  | swallowsError => "Empty except block (error swallowed)"

theorem exists_toList_message (e : Effect) : ∃ rest, e.message.toList = e.opening.toList ++ rest := by
  cases e with
  | mutatesParameter name =>
    show ∃ rest, ("Mutates parameter `" ++ name ++ "`").toList = "Mutates parameter `".toList ++ rest
    simp only [String.toList_append, List.append_assoc, List.append_cancel_left_eq, exists_eq']
  | mutatesParameterVia name method =>
    show ∃ rest, ("Mutates parameter `" ++ name ++ "` via `" ++ method ++ "()`").toList =
      "Mutates parameter `".toList ++ rest
    simp only [String.toList_append, List.append_assoc, List.append_cancel_left_eq, exists_eq']
  | writesOuterScope name =>
    show ∃ rest, ("Writes to outer scope `" ++ name ++ "`").toList =
      "Writes to outer scope `".toList ++ rest
    simp only [String.toList_append, List.append_assoc, List.append_cancel_left_eq, exists_eq']
  | mutatesReceiver receiver path =>
    show ∃ rest, ("Mutates `" ++ receiver ++ "." ++ path ++ "`").toList = "Mutates `".toList ++ rest
    simp only [String.toList_append, List.append_assoc, List.append_cancel_left_eq, exists_eq']
  | accessesGlobal name =>
    show ∃ rest, ("Accesses global `" ++ name ++ "`").toList = "Accesses global `".toList ++ rest
    simp only [String.toList_append, List.append_assoc, List.append_cancel_left_eq, exists_eq']
  | callsNondeterministic name =>
    show ∃ rest, ("Calls " ++ name ++ "() (non-deterministic)").toList = "Calls ".toList ++ rest
    simp only [String.toList_append, List.append_assoc, List.append_cancel_left_eq, exists_eq']
  | readsCurrentTime name =>
    show ∃ rest, ("Instantiates " ++ name ++ " (non-deterministic)").toList =
      "Instantiates ".toList ++ rest
    simp only [String.toList_append, List.append_assoc, List.append_cancel_left_eq, exists_eq']
  | accessesEnvironment | writesConsole | swallowsError => exact ⟨[], (List.append_nil _).symm⟩

/-- The texts that messages open with. None of them goes on as another one does. -/
def openings : List String :=
  ["Mutates parameter `", "Writes to outer scope `", "Mutates `", "Accesses global `",
   "Accesses `os.environ` (non-deterministic)", "Writes to console", "Calls ", "Instantiates ",
   "Empty except block (error swallowed)"]

theorem find?_openings (e : Effect) :
    openings.find? (fun opening => opening.toList.isPrefixOf e.message.toList) = some e.opening := by
  obtain ⟨rest, h⟩ := e.exists_toList_message
  rw [h]
  cases e <;> simp [opening, openings, List.isPrefixOf]

/-- A message tells what it opens with. -/
theorem opening_eq_of_message_eq {e e' : Effect} (h : e.message = e'.message) :
    e.opening = e'.opening := by
  have hfind := e.find?_openings
  rw [h, find?_openings] at hfind
  exact (Option.some.inj hfind).symm

/-- Messages tell effects that are ambient from others. -/
theorem isAmbient_of_message_eq {e e' : Effect} (h : e.message = e'.message) :
    e.isAmbient = e'.isAmbient := by
  have hopening : ∀ e : Effect, e.isAmbient =
      !(["Mutates parameter `", "Writes to outer scope `", "Mutates `"].contains e.opening) := by
    intro e
    cases e <;> simp [isAmbient, opening]
  rw [hopening, hopening, opening_eq_of_message_eq h]

end Effect

namespace Project

variable {P : Project} {functions : List Function} {f g : Function}

theorem eq_of_mem_nameWriteEffects {n : Node} {name : String} {e : Effect}
    (h : e ∈ P.nameWriteEffects f n name) : e = .writesOuterScope name := by
  unfold nameWriteEffects at h
  split at h
  · cases h
  · split at h
    · exact List.mem_singleton.1 h
    · cases h

theorem not_ambient_nameWriteEffects {n : Node} {name : String} {e : Effect}
    (h : e ∈ P.nameWriteEffects f n name) : e.isAmbient = false := by
  rw [eq_of_mem_nameWriteEffects h]
  rfl

/-- What writing to a single target shows: a parameter at its start, a name alone, or a path of members
from the receiver. -/
theorem writeEffects_cases {target : Node} {e : Effect} (h : e ∈ P.writeEffects f target) :
    (∃ root id access, target.rootName? = some root ∧ root.kind = .name id access ∧
        P.isParameter f root = true ∧ e = .mutatesParameter id) ∨
      (∃ id access, target.kind = .name id access ∧ e ∈ P.nameWriteEffects f target id) ∨
      ∃ root id access receiver attr rest, target.rootName? = some root ∧ root.kind = .name id access ∧
        f.receiver = some id.text ∧ target.memberPath? = some (receiver :: attr :: rest) ∧
        e = .mutatesReceiver receiver (".".intercalate (attr :: rest)) := by
  unfold writeEffects at h
  rcases List.mem_append.1 h with h | h
  · split at h
    · next root id access hroot =>
      obtain ⟨root', hstart, he⟩ := Option.map_eq_some_iff.1 hroot
      obtain ⟨rfl, hkind⟩ := Prod.mk.inj he
      split at h
      · next hparameter => exact .inl ⟨root', id, access, hstart, hkind, hparameter, List.mem_singleton.1 h⟩
      · cases h
    · cases h
  · split at h
    · next id access hkind => exact .inr (.inl ⟨id, access, hkind, h⟩)
    · next id access receiver attr rest hkind hpath _ =>
      obtain ⟨root, hroot, hkind⟩ := Option.map_eq_some_iff.1 hkind
      split at h
      · next hreceiver =>
        exact .inr (.inr ⟨root, id, access, receiver, attr, rest, hroot, hkind, (eq_of_beq hreceiver).symm, hpath,
          List.mem_singleton.1 h⟩)
      · cases h
    · cases h

theorem not_ambient_writeEffects {target : Node} {e : Effect} (h : e ∈ P.writeEffects f target) :
    e.isAmbient = false := by
  rcases writeEffects_cases h with ⟨_, _, _, -, -, -, rfl⟩ | ⟨_, _, -, h⟩ | ⟨_, _, _, _, _, _, -, -, -, -, rfl⟩
  · rfl
  · exact not_ambient_nameWriteEffects h
  · rfl

theorem exists_of_mem_methodEffects {func : Node} {e : Effect} (h : e ∈ P.methodEffects f func) :
    ∃ name method, e = .mutatesParameterVia name method := by
  unfold methodEffects at h
  split at h
  · split at h
    · split at h
      · exact ⟨_, _, List.mem_singleton.1 h⟩
      · cases h
    · cases h
  · cases h

theorem not_ambient_methodEffects {func : Node} {e : Effect} (h : e ∈ P.methodEffects f func) :
    e.isAmbient = false := by
  obtain ⟨name, method, rfl⟩ := exists_of_mem_methodEffects h
  rfl

/-- The ambient effects of some are among others. -/
def Covers (effects effects' : List Effect) : Prop :=
  ∀ e ∈ effects', e.isAmbient = true → e ∈ effects

theorem covers_of_not_ambient {effects effects' : List Effect}
    (h : ∀ e ∈ effects', e.isAmbient = false) : Covers effects effects' := by
  intro e he hamb
  rw [h e he] at hamb
  cases hamb

/-- A node shows the same ambient effects in all functions of a file. -/
theorem effectSteps_covers (hfile : g.file = f.file) (n : Node) :
    List.Forall₂ (Analysis.Related Covers) (P.effectSteps f n) (P.effectSteps g n) := by
  have same : ∀ {x : Analysis (List Effect)}, Analysis.Related Covers x x := by
    intro x
    cases x with
    | error e => exact .aborted e
    | ok effects => exact .done fun e he _ => he
  unfold effectSteps
  rw [hfile]
  split
  case h_1 =>
    refine .cons (.done (covers_of_not_ambient fun e he => ?_)) .nil
    obtain ⟨t, -, he⟩ := List.mem_flatMap.1 he
    split at he
    · exact not_ambient_nameWriteEffects he
    · cases he
  case h_2 | h_3 =>
    refine .cons (.done (covers_of_not_ambient fun e he => ?_)) .nil
    obtain ⟨a, -, he⟩ := List.mem_flatMap.1 he
    split at he
    · exact not_ambient_nameWriteEffects he
    · split at he
      · cases he
      · exact not_ambient_nameWriteEffects he
    · cases he
  case h_4 | h_5 => exact .cons same .nil
  case h_6 =>
    split
    · refine .cons (.done (covers_of_not_ambient fun e he => ?_)) (.cons same .nil)
      exact not_ambient_methodEffects he
    · exact .nil
  case h_7 name hkind =>
    refine .cons (.done fun e he hamb => ?_) .nil
    rcases List.mem_append.1 he with he | he
    · -- The name of a handler is written in the function that is looked at.
      cases name with
      | none => cases he
      | some name =>
        rw [not_ambient_nameWriteEffects he] at hamb
        cases hamb
    · exact List.mem_append_right _ he
  case h_8 =>
    refine .cons (.done (covers_of_not_ambient fun e he => ?_)) .nil
    obtain ⟨t, -, he⟩ := List.mem_flatMap.1 he
    exact not_ambient_writeEffects he

/-- The steps of the walk that looks for effects. -/
def effectWalk (P : Project) (f : Function) : List (Analysis (List Effect)) :=
  f.node.bodyNodes.flatMap (P.effectSteps f)

theorem bodyNodes_nested (hnode : g.node ∈ f.node.bodyNodes) {n : Node} (hn : n ∈ g.node.bodyNodes) :
    n ∈ f.node.bodyNodes :=
  Node.mem_bodyNodes_of_mem_preorder hnode (Node.mem_preorder_of_mem_bodyNodes hn)

theorem reasons_nested (hfile : g.file = f.file) (hnode : g.node ∈ f.node.bodyNodes)
    {r r' : PurityResult} (hr : P.localPurity f = .ok r) (hr' : P.localPurity g = .ok r')
    (hcut : (collectFindings (P.effectWalk f)).2 ≠ some .tooDeep) {e : Effect}
    (hamb : e.isAmbient = true) (he : e.message ∈ r'.reasons) : e.message ∈ r.reasons := by
  obtain ⟨effects, heffects, hr⟩ := Analysis.bind_eq_ok.1 hr
  obtain ⟨effects', heffects', hr'⟩ := Analysis.bind_eq_ok.1 hr'
  cases hr
  cases hr'
  simp only [List.mem_eraseDups, List.mem_map] at he ⊢
  obtain ⟨e', he', hmessage⟩ := he
  obtain ⟨found', hfound', he'⟩ := mem_findingsOf heffects' he'
  obtain ⟨n, hn, hfound'⟩ := List.mem_flatMap.1 hfound'
  obtain ⟨found, hfound, hcovers⟩ := exists_related_step (effectSteps_covers hfile n) hfound'
  refine ⟨e', mem_of_not_cut heffects hcut ?_ (hcovers e' he' ?_), hmessage⟩
  · exact List.mem_flatMap.2 ⟨n, bodyNodes_nested hnode hn, hfound⟩
  · rw [Effect.isAmbient_of_message_eq hmessage, hamb]

end Project

/-! ## Visits -/

namespace Node

/-- The walk over a node holds the walk over each node below it, with what is around it there. -/
theorem exists_visits_subset {m : Node} :
    ∀ (n parent : Node) (grandparent : Option Node) (inLoop ownScope : Bool), m ∈ n.preorder →
      ∃ parent' grandparent' inLoop' ownScope',
        visits parent' grandparent' inLoop' ownScope' m ⊆
          visits parent grandparent inLoop ownScope n := by
  refine induction fun n ih parent grandparent inLoop ownScope hm => ?_
  rw [preorder_eq, List.mem_cons, List.mem_flatMap] at hm
  rcases hm with rfl | ⟨c, hc, hm⟩
  · exact ⟨parent, grandparent, inLoop, ownScope, List.Subset.refl _⟩
  · obtain ⟨parent', grandparent', inLoop', ownScope', hsub⟩ :=
      ih c hc n (some parent) (inLoop || n.kind.isLoop) (ownScope && !n.kind.isFunction) hm
    refine ⟨parent', grandparent', inLoop', ownScope', fun v hv => ?_⟩
    rw [visits_eq]
    exact List.mem_cons_of_mem _ (List.mem_flatMap.2 ⟨c, hc, hsub hv⟩)

/-- The same node with the same constructs around it, perhaps in a further loop. -/
structure SamePlace (v v' : Visit) : Prop where
  node : v.node = v'.node
  parent : v.parent = v'.parent
  grandparent : v.grandparent = v'.grandparent
  inLoop : v'.inLoop = true → v.inLoop = true

theorem exists_visit_samePlace :
    ∀ (n parent : Node) (grandparent : Option Node) (inLoop inLoop' ownScope ownScope' : Bool),
      (inLoop' = true → inLoop = true) →
      ∀ v' ∈ visits parent grandparent inLoop' ownScope' n,
        ∃ v ∈ visits parent grandparent inLoop ownScope n, SamePlace v v' := by
  refine induction fun n ih parent grandparent inLoop inLoop' ownScope ownScope' hloop v' hv' => ?_
  rw [visits_eq, List.mem_cons, List.mem_flatMap] at hv'
  rw [visits_eq]
  rcases hv' with rfl | ⟨c, hc, hv'⟩
  · exact ⟨_, List.mem_cons_self, rfl, rfl, rfl, hloop⟩
  · have hloop' : (inLoop' || n.kind.isLoop) = true → (inLoop || n.kind.isLoop) = true := by
      rw [Bool.or_eq_true, Bool.or_eq_true]
      exact Or.imp_left hloop
    obtain ⟨v, hv, hsame⟩ := ih c hc n (some parent) _ _ _ _ hloop' v' hv'
    exact ⟨v, List.mem_cons_of_mem _ (List.mem_flatMap.2 ⟨c, hc, hv⟩), hsame⟩

/-- The same node, of whose result the same constructs take care, perhaps in a further loop. -/
structure Around (v v' : Visit) : Prop where
  node : v.node = v'.node
  isConsumed : v.isConsumed = v'.isConsumed
  inLoop : v'.inLoop = true → v.inLoop = true

theorem SamePlace.around {v v' : Visit} (h : SamePlace v v') : Around v v' where
  node := h.node
  isConsumed := by rw [Visit.isConsumed, Visit.isConsumed, h.parent, h.grandparent]
  inLoop := h.inLoop

/-- The walk over the outer function comes to each node of a nested one. Only the statements
directly in the nested function have something else around them, namely what is around the nested
function itself, and that takes care of no result. -/
theorem exists_visit_around {m n : Node} (hm : m ∈ n.bodyNodes) (hkind : m.kind.isFunction = true)
    {v' : Visit} (hv' : v' ∈ m.bodyVisits) : ∃ v ∈ n.bodyVisits, Around v v' := by
  obtain ⟨b, hb, hm⟩ := List.mem_flatMap.1 hm
  obtain ⟨parent, grandparent, inLoop, ownScope, hsub⟩ := exists_visits_subset b n none false true hm
  have hbody : ∀ v ∈ visits parent grandparent inLoop ownScope m, v ∈ n.bodyVisits :=
    fun v hv => List.mem_flatMap.2 ⟨b, hb, hsub hv⟩
  obtain ⟨c, hc, hv'⟩ := List.mem_flatMap.1 hv'
  have hchild := mem_children_of_mem_parts hc
  have hmember : ∀ {v : Visit}, v.parent = m → v.isConsumed = m.kind.consumes := by
    intro v hv
    unfold Visit.isConsumed
    rw [hv]
    cases hk : m.kind <;> simp_all [Kind.isFunction]
  have hdown : ∀ v ∈ visits m (some parent) (inLoop || m.kind.isLoop) (ownScope && !m.kind.isFunction) c,
      v ∈ n.bodyVisits := by
    intro v hv
    refine hbody v ?_
    rw [visits_eq]
    exact List.mem_cons_of_mem _ (List.mem_flatMap.2 ⟨c, hchild, hv⟩)
  rw [visits_eq, List.mem_cons, List.mem_flatMap] at hv'
  rcases hv' with rfl | ⟨d, hd, hv'⟩
  · refine ⟨⟨c, m, some parent, inLoop || m.kind.isLoop, ownScope && !m.kind.isFunction⟩,
      hdown _ ?_, rfl, ?_, ?_⟩
    · rw [visits_eq]
      exact List.mem_cons_self
    · rw [hmember rfl, hmember rfl]
    · intro h
      cases h
  · have hloop : (false || c.kind.isLoop) = true →
        ((inLoop || m.kind.isLoop) || c.kind.isLoop) = true := by
      rw [Bool.false_or]
      intro h
      rw [h, Bool.or_true]
    obtain ⟨v, hv, hsame⟩ := exists_visit_samePlace d c (some m) _ _
      ((ownScope && !m.kind.isFunction) && !c.kind.isFunction) _ hloop v' hv'
    refine ⟨v, hdown v ?_, hsame.around⟩
    rw [visits_eq]
    exact List.mem_cons_of_mem _ (List.mem_flatMap.2 ⟨d, hd, hv⟩)

end Node

/-! ## Hazards -/

/-- Whether a note tells of something to await that is left floating. -/
def Note.isFloating : Note → Bool
  | .hazard .floating | .hazard .floatingInLoop => true
  | _ => false

/-- What some notes tell of awaitable calls, others tell too. -/
structure CoversNotes (notes notes' : List Note) : Prop where
  callees : ∀ id, .awaitableCallee id ∈ notes' → .awaitableCallee id ∈ notes
  floating : (∃ note ∈ notes', note.isFloating = true) → ∃ note ∈ notes, note.isFloating = true

theorem CoversNotes.refl (notes : List Note) : CoversNotes notes notes := ⟨fun _ h => h, fun h => h⟩

namespace Project

variable {P : Project} {functions : List Function} {f g : Function}

theorem callNotes_covers (hfile : g.file = f.file) {v v' : Visit} (h : Node.Around v v') :
    List.Forall₂ (Analysis.Related CoversNotes) (P.callNotes functions f v)
      (P.callNotes functions g v') := by
  have same : ∀ {x : Analysis (List Note)}, Analysis.Related CoversNotes x x := by
    intro x
    cases x with
    | error e => exact .aborted e
    | ok notes => exact .done (.refl notes)
  unfold callNotes
  rw [hfile, ← h.node, ← h.isConsumed]
  refine .cons ?_ (.cons same (.cons same (.cons same (.cons same (.cons same (.cons same .nil))))))
  refine (Analysis.Related.eq_iff.2 rfl).bind fun b b' hb => ?_
  subst hb
  cases b with
  | false => exact .done (.refl [])
  | true =>
    -- The outer function may have a loop around the call, so the two hazards may differ.
    refine .done ⟨fun id hid => ?_, fun hfloating => ?_⟩
    · cases hconsumed : v.isConsumed <;> simp [hconsumed] at hid
    · cases hconsumed : v.isConsumed with
      | true => simp [hconsumed, Note.isFloating] at hfloating
      | false => cases v.inLoop <;> simp [Note.isFloating]

theorem noteSteps_covers (hfile : g.file = f.file) {v v' : Visit} (h : Node.Around v v') :
    List.Forall₂ (Analysis.Related CoversNotes) (P.noteSteps functions f v)
      (P.noteSteps functions g v') := by
  have plain : ∀ {a b : Bool} {note : Note},
      note ∈ (if a then [Note.suspends] else []) ++ (if b then [Note.boundary] else []) →
        note = .suspends ∨ note = .boundary := by
    intro a b note hnote
    cases a <;> cases b <;> simp_all
  unfold noteSteps
  rw [h.node]
  refine .cons (.done ⟨fun id hid => ?_, fun ⟨note, hnote, hfloating⟩ => ?_⟩) ?_
  · rcases plain hid with he | he <;> cases he
  · rcases plain hnote with rfl | rfl <;> cases hfloating
  · split
    · exact callNotes_covers hfile h
    · exact .nil

/-- The steps of the walk that looks for hazards. -/
def noteWalk (P : Project) (functions : List Function) (f : Function) : List (Analysis (List Note)) :=
  f.node.bodyVisits.flatMap (P.noteSteps functions f)

theorem notes_nested (hfile : g.file = f.file) (hnode : g.node ∈ f.node.bodyNodes)
    (hkind : g.node.kind.isFunction = true) {notes notes' : List Note}
    (hnotes : P.notes functions f = .ok notes) (hnotes' : P.notes functions g = .ok notes')
    (hcut : (collectFindings (P.noteWalk functions f)).2 ≠ some .tooDeep) : CoversNotes notes notes' := by
  have step : ∀ note ∈ notes', ∃ found found', note ∈ found' ∧ CoversNotes found found' ∧
      ∀ x ∈ found, x ∈ notes := by
    intro note hnote
    obtain ⟨found', hfound', hmem⟩ := mem_findingsOf hnotes' hnote
    obtain ⟨v', hv', hfound'⟩ := List.mem_flatMap.1 hfound'
    obtain ⟨v, hv, haround⟩ := Node.exists_visit_around hnode hkind hv'
    obtain ⟨found, hfound, hcovers⟩ := exists_related_step (noteSteps_covers hfile haround) hfound'
    have hwalk : .ok found ∈ P.noteWalk functions f := List.mem_flatMap.2 ⟨v, hv, hfound⟩
    exact ⟨found, found', hmem, hcovers, fun x hx => mem_of_not_cut hnotes hcut hwalk hx⟩
  refine ⟨fun id hid => ?_, fun ⟨note, hnote, hfloating⟩ => ?_⟩
  · obtain ⟨found, found', hmem, hcovers, hall⟩ := step _ hid
    exact hall _ (hcovers.callees id hmem)
  · obtain ⟨found, found', hmem, hcovers, hall⟩ := step _ hnote
    obtain ⟨note', hnote', hfloating'⟩ := hcovers.floating ⟨note, hmem, hfloating⟩
    exact ⟨note', hall _ hnote', hfloating'⟩

/-- What a function shows is what its notes tell. -/
theorem localFlow_notes {flow : AsyncFlow} (h : P.localFlow functions f = .ok flow) :
    ∃ notes, P.notes functions f = .ok notes ∧
      (∀ id, id ∈ flow.result.awaitableCalls ↔ .awaitableCallee id ∈ notes) ∧
      ((flow.result.hasIssue Hazard.floating.message = true ∨
        flow.result.hasIssue Hazard.floatingInLoop.message = true) ↔
        ∃ note ∈ notes, note.isFloating = true) := by
  obtain ⟨notes, hnotes, h⟩ := Analysis.bind_eq_ok.1 h
  cases h
  have hhazard : ∀ k : Hazard, k ≠ .missingBoundary →
      (((hazardsOf f notes).map (·.issue)).any (·.message == k.message) = true ↔
        .hazard k ∈ notes) := by
    intro k hk
    have hmem : k ∈ hazardsOf f notes ↔ .hazard k ∈ notes := by
      rw [mem_hazardsOf]
      simp [hk]
    rw [← hmem, List.any_map, List.any_eq_true]
    constructor
    · intro ⟨k', hk', he⟩
      rwa [← Hazard.message_injective (eq_of_beq he)]
    · intro hk'
      exact ⟨k, hk', beq_self_eq_true k.message⟩
  refine ⟨notes, hnotes, fun id => ?_, ?_⟩
  · simp only [List.mem_eraseDups, List.mem_filterMap]
    constructor
    · intro ⟨note, hnote, he⟩
      cases note with
      | awaitableCallee id' =>
        cases he
        exact hnote
      | hazard | suspends | boundary | callsAwaitable => cases he
    · intro hid
      exact ⟨_, hid, rfl⟩
  · unfold AsyncResult.hasIssue
    rw [hhazard .floating (by decide), hhazard .floatingInLoop (by decide)]
    constructor
    · rintro (h | h)
      · exact ⟨_, h, rfl⟩
      · exact ⟨_, h, rfl⟩
    · intro ⟨note, hnote, hfloating⟩
      unfold Note.isFloating at hfloating
      split at hfloating
      · exact .inl hnote
      · exact .inr hnote
      · cases hfloating

/-! ## Calls -/

variable {ignore : List String}

theorem callees_nested (hf : f ∈ P.functions ignore) (hfile : g.file = f.file)
    (hnode : g.node ∈ f.node.bodyNodes) {graph : CallGraph}
    (hgraph : P.callGraph (P.functions ignore) = .ok graph) {v : String} (hv : v ∈ graph.callees g.id) :
    v ∈ graph.callees f.id ∨ ∃ k ∈ P.functions ignore, k ≠ g ∧ k.id = g.id ∧
      ∃ call ∈ k.node.bodyNodes, P.answer (P.functions ignore) k call = some v := by
  rw [callees_callGraph hgraph, List.mem_eraseDups, List.mem_flatMap] at hv
  obtain ⟨k, hk, hv⟩ := hv
  obtain ⟨hk, hid⟩ := List.mem_filter.1 hk
  obtain ⟨call, hcall, hanswer⟩ := List.mem_filterMap.1 hv
  obtain ⟨hbody, hisCall⟩ := Node.mem_callsInBody.1 hcall
  by_cases hkg : k = g
  · subst hkg
    left
    rw [callees_callGraph hgraph, List.mem_eraseDups, List.mem_flatMap]
    refine ⟨f, List.mem_filter.2 ⟨hf, beq_self_eq_true _⟩, List.mem_filterMap.2 ⟨call, ?_, ?_⟩⟩
    · exact Node.mem_callsInBody.2 ⟨bodyNodes_nested hnode hbody, hisCall⟩
    · rw [← hanswer, answer, answer, hfile]
  · exact .inr ⟨k, hk, hkg, eq_of_beq hid, call, hbody, hanswer⟩

/-- **What a nested function does, the function around it does.** This holds of the ambient effects,
of the awaitable calls and of awaitables that are left floating, as long as the walks over the outer
function are not cut off. It holds of the callees too, but for calls that another function of the
same id makes; and in a project of texts with paths of their own there is no such function, unless a
carriage return stands alone in the text. -/
theorem nested_findings (hf : f ∈ P.functions ignore) (hg : g ∈ P.functions ignore)
    (hfile : g.file = f.file) (hnode : g.node ∈ f.node.bodyNodes) {graph : CallGraph}
    (hgraph : P.callGraph (P.functions ignore) = .ok graph)
    {r r' : PurityResult} (hr : P.localPurity f = .ok r) (hr' : P.localPurity g = .ok r')
    {flow flow' : AsyncFlow} (hflow : P.localFlow (P.functions ignore) f = .ok flow)
    (hflow' : P.localFlow (P.functions ignore) g = .ok flow')
    (heffects : (collectFindings (P.effectWalk f)).2 ≠ some .tooDeep)
    (hnotes : (collectFindings (P.noteWalk (P.functions ignore) f)).2 ≠ some .tooDeep) :
    (∀ v ∈ graph.callees g.id, v ∈ graph.callees f.id ∨
      ∃ k ∈ P.functions ignore, k ≠ g ∧ k.id = g.id ∧
        ∃ call ∈ k.node.bodyNodes, P.answer (P.functions ignore) k call = some v) ∧
    (∀ texts roots, (texts.map (·.1)).Nodup → ofTexts texts roots = .ok P →
      (∀ x ∈ texts, x.1 = g.label.path → Token.returnsPaired x.2.toList = true) →
      graph.callees g.id ⊆ graph.callees f.id) ∧
    (∀ e : Effect, e.isAmbient = true → e.message ∈ r'.reasons → e.message ∈ r.reasons) ∧
    flow'.result.awaitableCalls ⊆ flow.result.awaitableCalls ∧
    (flow'.result.hasIssue Hazard.floating.message = true ∨
        flow'.result.hasIssue Hazard.floatingInLoop.message = true →
      flow.result.hasIssue Hazard.floating.message = true ∨
        flow.result.hasIssue Hazard.floatingInLoop.message = true) := by
  obtain ⟨notes, hn, hcallees, hfloating⟩ := localFlow_notes hflow
  obtain ⟨notes', hn', hcallees', hfloating'⟩ := localFlow_notes hflow'
  have hcovers := notes_nested hfile hnode (isFunction_of_mem hg) hn hn' hnotes
  have hcalls := fun v => callees_nested (v := v) hf hfile hnode hgraph
  refine ⟨fun v hv => hcalls v hv, fun texts roots hpaths hP hpaired v hv => ?_,
    fun e hamb he => reasons_nested hfile hnode hr hr' heffects hamb he, fun id hid => ?_, fun h => ?_⟩
  · rcases hcalls v hv with hv | ⟨k, hk, hne, hid, -⟩
    · exact hv
    · obtain ⟨x, hx, -, hpath, hlone⟩ := lone_return_of_id_eq hpaths hP hk hg hne hid
      rw [hpaired x hx hpath] at hlone
      cases hlone
  · rw [hcallees'] at hid
    rw [hcallees]
    exact hcovers.callees id hid
  · rw [hfloating'] at h
    rw [hfloating]
    exact hcovers.floating h

theorem mem_bodyNodes_of_index (hf : f ∈ P.functions ignore) (hg : g ∈ P.functions ignore)
    (hfile : g.file = f.file) {n : Node} (hn : n ∈ f.node.bodyNodes) (hindex : n.index = g.node.index) :
    g.node ∈ f.node.bodyNodes := by
  obtain ⟨file, hi, -, hfnode⟩ := file_of_mem_functions hf
  obtain ⟨file', hi', -, hgnode⟩ := file_of_mem_functions hg
  rw [hfile] at hi'
  obtain rfl : file = file' := Option.some.inj (hi.symm.trans hi')
  have hnode := Tree.mem_nodes_trans hfnode (Node.mem_preorder_of_mem_bodyNodes hn)
  rwa [← Tree.eq_of_index hnode hgnode hindex]

/-- The functions of a project with the numbers of their nodes and of the nodes in their bodies. -/
def places (P : Project) : List (String × Nat × Nat × List Nat) :=
  (P.functions []).map fun f => (f.id, f.file, f.node.index, f.node.bodyNodes.map (·.index))

/-- The numbers tell which function lies in the body of which. -/
theorem exists_nested_of_places {id id' : String} {file i i' : Nat} {body body' : List Nat}
    (h : (id, file, i, body) ∈ P.places) (h' : (id', file, i', body') ∈ P.places) (hi : i' ∈ body) :
    ∃ f ∈ P.functions [], ∃ g ∈ P.functions [], f.id = id ∧ g.id = id' ∧ g.file = f.file ∧
      g.node ∈ f.node.bodyNodes := by
  obtain ⟨f, hf, he⟩ := List.mem_map.1 h
  obtain ⟨g, hg, he'⟩ := List.mem_map.1 h'
  simp only [Prod.mk.injEq] at he he'
  obtain ⟨hid, hfile, -, hbody⟩ := he
  obtain ⟨hid', hfile', hindex, -⟩ := he'
  rw [← hbody, ← hindex] at hi
  obtain ⟨n, hn, hni⟩ := List.mem_map.1 hi
  have hfiles : g.file = f.file := by rw [hfile, hfile']
  exact ⟨f, hf, g, hg, hid, hid', hfiles, mem_bodyNodes_of_index hf hg hfiles hn hni⟩

/-- A coroutine that a nested function calls in vain, in a loop of the function around it. -/
def nestedTexts : List (String × String) :=
  [("m.py", "async def a():\n    pass\ndef f():\n    for x in y:\n        def g():\n            a()\n")]

theorem nested_findings_loop :
    ∃ P f g, ofTexts nestedTexts [] = .ok P ∧ f ∈ P.functions [] ∧ g ∈ P.functions [] ∧
      f.id = "m.py:24:f" ∧ g.id = "m.py:57:g" ∧ g.node ∈ f.node.bodyNodes ∧
      ∃ graph flow flow', P.callGraph (P.functions []) = .ok graph ∧
        P.localFlow (P.functions []) f = .ok flow ∧ P.localFlow (P.functions []) g = .ok flow' ∧
        graph.callees g.id = ["m.py:0:a"] ∧ graph.callees g.id ⊆ graph.callees f.id ∧
        flow'.result.hasIssue Hazard.floating.message = true ∧
        (flow.result.hasIssue Hazard.floating.message = true ∨
          flow.result.hasIssue Hazard.floatingInLoop.message = true) := by
  have heval : (ofTexts nestedTexts []).toOption.map (fun P => (P.findings []).toOption.map
      fun found => P.places == [("m.py:0:a", 0, 1, [3]),
          ("m.py:24:f", 0, 4, [6, 7, 8, 9, 10, 11, 12, 13]), ("m.py:57:g", 0, 9, [11, 12, 13])] &&
        found.graph.callees "m.py:57:g" == ["m.py:0:a"] &&
        (found.flows.all fun flow =>
          flow.result.id != "m.py:57:g" || flow.result.hasIssue Hazard.floating.message) &&
        (P.functions []).all fun f => (collectFindings (P.effectWalk f)).2.isNone &&
          (collectFindings (P.noteWalk (P.functions []) f)).2.isNone) = some (some true) := by
    decide +kernel
  obtain ⟨P, hP, heval⟩ := exists_ok_of_map_toOption heval
  obtain ⟨found, hfound, hgiven⟩ := exists_ok_of_map_toOption heval
  simp only [Bool.and_eq_true, beq_iff_eq, List.all_eq_true, Option.isNone_iff_eq_none] at hgiven
  obtain ⟨⟨⟨hplaces, hcallees⟩, hissues⟩, hends⟩ := hgiven
  obtain ⟨-, hgraph, hpurity, hflows⟩ := findings_eq_ok hfound
  have houter : ("m.py:24:f", 0, 4, [6, 7, 8, 9, 10, 11, 12, 13]) ∈ P.places := by simp [hplaces]
  have hinner : ("m.py:57:g", 0, 9, [11, 12, 13]) ∈ P.places := by simp [hplaces]
  obtain ⟨f, hf, g, hg, hid, hid', hfile, hnode⟩ := exists_nested_of_places houter hinner (by decide)
  obtain ⟨r, -, hr⟩ := exists_of_mem_left hpurity hf
  obtain ⟨r', -, hr'⟩ := exists_of_mem_left hpurity hg
  obtain ⟨flow, -, hflow⟩ := exists_of_mem_left hflows hf
  obtain ⟨flow', hmem, hflow'⟩ := exists_of_mem_left hflows hg
  have hend := hends f hf
  have hpaired : ∀ x ∈ nestedTexts, Token.returnsPaired x.2.toList = true := by decide +kernel
  have hfloating : flow'.result.hasIssue Hazard.floating.message = true := by
    have hlabel : flow'.result.id = g.id := congrArg Label.id (localFlow_eq_ok hflow').1
    simpa [hlabel, hid'] using hissues flow' hmem
  obtain ⟨-, hsub, -, -, hnested⟩ := nested_findings hf hg hfile hnode hgraph hr hr' hflow hflow'
    (by rw [hend.1]; decide) (by rw [hend.2]; decide)
  exact ⟨P, f, g, hP, hf, hg, hid, hid', hnode, found.graph, flow, flow', hgraph, hflow, hflow',
    hid' ▸ hcallees, hsub nestedTexts [] (by decide) hP (fun x hx _ => hpaired x hx), hfloating,
    hnested (.inl hfloating)⟩

/-- Two nested functions of one name, on lines that end in carriage returns alone. -/
def sharedTexts : List (String × String) :=
  [("m.py", "def f():\r    def g():\r        pass\rdef h():\r    def g():\r        h()\r")]

/-- Both nested functions have one id, and the call that one of them makes counts for the other. -/
theorem shared_callees_of_lone_return :
    ∃ P f g graph, ofTexts sharedTexts [] = .ok P ∧ f ∈ P.functions [] ∧ g ∈ P.functions [] ∧
      g.file = f.file ∧ g.node ∈ f.node.bodyNodes ∧ P.callGraph (P.functions []) = .ok graph ∧
      graph.callees g.id = ["m.py:0:h"] ∧ graph.callees f.id = [] := by
  have heval : (ofTexts sharedTexts []).toOption.map (fun P =>
      (P.callGraph (P.functions [])).toOption.map fun graph =>
        P.places == [("m.py:0:f", 0, 1, [3, 4, 5]), ("m.py:4:g", 0, 3, [5]),
          ("m.py:0:h", 0, 6, [8, 9, 10, 11, 12]), ("m.py:4:g", 0, 8, [10, 11, 12])] &&
        graph.callees "m.py:4:g" == ["m.py:0:h"] && graph.callees "m.py:0:f" == []) =
      some (some true) := by
    decide +kernel
  obtain ⟨P, hP, heval⟩ := exists_ok_of_map_toOption heval
  obtain ⟨graph, hgraph, hgiven⟩ := exists_ok_of_map_toOption heval
  simp only [Bool.and_eq_true, beq_iff_eq] at hgiven
  obtain ⟨⟨hplaces, hcallees'⟩, hcallees⟩ := hgiven
  have houter : ("m.py:0:f", 0, 1, [3, 4, 5]) ∈ P.places := by simp [hplaces]
  have hinner : ("m.py:4:g", 0, 3, [5]) ∈ P.places := by simp [hplaces]
  obtain ⟨f, hf, g, hg, hid, hid', hfile, hnode⟩ := exists_nested_of_places houter hinner (by decide)
  exact ⟨P, f, g, graph, hP, hf, hg, hfile, hnode, hgraph, hid' ▸ hcallees', hid ▸ hcallees⟩

end Project

end EffectGraph
