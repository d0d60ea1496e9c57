/-
One project inside another.

A project lies inside another one if its files stand there too, at other places
maybe, and the names that its own files can ask for mean the same. The search
for a value then finds the same in both: every step asks related questions, so
by induction on the number of steps the two resolvers give related answers
(`resolver_agrees`).

The relation between values also says where they come from: a function, class
or instance that a search finds stands in a tree of the smaller project. So a
project inside itself gives that no search leaves the project's trees.

A declared type may be a text, and the expression in it belongs to no tree. A
lambda expression in it is a value for the search (`Loose`), but a dead end: it
has no members, and as no scope is its own, a call of it gives nothing. What a
declared type stands for is a class, so nothing of the text comes out of it
(`step_hint`).
-/
import EffectGraph.Model.Query
import EffectGraph.Proofs.Model.ClassSearch
import EffectGraph.Proofs.Model.DottedName
import Mathlib.Logic.Function.Basic

namespace EffectGraph

/-- A project whose scopes are made of nodes of its trees, and which says of its modules, packages
and size what its files say. -/
structure Project.Sound (P : Project) : Prop where
  within : ∀ {i f}, P.file? i = some f → ∀ s ∈ f.scopes.scopes, s.Within (· ∈ f.source.tree.nodes)
  modules_eq : P.modules = modulesOf (P.files.map (·.source))
  packages_eq : P.packages = P.files.flatMap fun f => packagesOf f.source.module
  size_eq : P.size = (P.files.map fun f => f.source.tree.root.size).sum

/-- A project inside another one. `known` holds of the first parts of the names that the project's
files can ask for. -/
structure Project.Embedding (P Q : Project) where
  place : Nat → Nat
  known : String → Prop
  sound : P.Sound
  injective : Function.Injective place
  file : ∀ i, Q.file? (place i) = P.file? i
  module : ∀ {name}, known (firstPart name) → Q.module? name = (P.module? name).map place
  package : ∀ {name}, known (firstPart name) → Q.packages.contains name = P.packages.contains name
  size_le : P.size ≤ Q.size
  imports : ∀ {i f}, P.file? i = some f → ∀ s ∈ f.scopes.scopes, ∀ b ∈ s.bindings,
    b.kind = .imported → ∀ t, b.target = some t → known (firstPart t)

/-- The same construct at the place that its file has in a larger project. -/
def Definition.moved (place : Nat → Nat) (d : Definition) : Definition := ⟨place d.file, d.node⟩

def Site.moved (place : Nat → Nat) (site : Site) : Site := ⟨place site.file, site.chain⟩

/-- A reference whose lambda expressions are among some nodes. -/
def Reference.Within (S : Node → Prop) : Reference → Prop
  | .name _ | .other => True
  | .member base _ => base.Within S
  | .call callee => callee.Within S
  | .lambda node => S node ∧ node.kind = .lambda

theorem Definition.same_moved {place : Nat → Nat} (h : Function.Injective place) (a b : Definition) :
    (a.moved place).same (b.moved place) = a.same b := by
  simp [same, moved, h.eq_iff, Bool.beq_eq_decide_eq]

namespace Reference

variable {S : Node → Prop}

/-- What a node refers to is made of nodes below it. -/
theorem ofNode_within (hS : Closed S) : ∀ n : Node, S n → (ofNode n).Within S := by
  refine Node.induction fun n ih hn => ?_
  cases n with
  | mk i r k s cs =>
    have hfirst : (ofFirst cs).Within S := by
      cases cs with
      | nil => exact trivial
      | cons c cs => exact ih c List.mem_cons_self (hS _ c hn List.mem_cons_self)
    unfold ofNode
    split
    · exact trivial
    · exact hfirst
    · exact hfirst
    · exact ⟨hn, rfl⟩
    · exact trivial

end Reference

namespace Hint

variable {S : Node → Prop}

theorem read_within {first : Nat} {e e' : Node} (htexts : ∀ m : Node, S (m.number first)) (he : S e)
    (h : read first e = .ok e') : S e' := by
  unfold read at h
  split at h
  · split at h
    · cases h
    · split at h
      · cases h
        exact htexts _
      · cases h
        exact he
      · cases h
      · cases h
  · cases h
  · cases h
    exact he

/-- The name of a class is made of nodes of the declared type and of the expressions in its texts. -/
theorem classNameBy_within {first : Nat} (hS : Closed S) (htexts : ∀ m : Node, S (m.number first)) :
    ∀ {n : Nat} {hint : Node} {e : Reference}, S hint → classNameBy first n hint = .ok (some e) →
      e.Within S
  | 0, _, _, _, h => by cases h
  | n + 1, hint, e, hh, h => by
    obtain ⟨m, hread, h⟩ := Analysis.bind_eq_ok.1 h
    have hm := read_within htexts hh hread
    split at h
    · split at h
      · next left right hl hr =>
        refine classNameBy_within hS htexts ?_ h
        split
        · exact hS.part? hm hr
        · exact hS.part? hm hl
      · cases h
    · split at h
      · next value index hv hi =>
        obtain ⟨name, -, h⟩ := Analysis.bind_eq_ok.1 h
        split at h
        · split at h
          · refine classNameBy_within hS htexts ?_ h
            have hindex := hS.part? hm hi
            split
            · cases he : index.part? .element with
              | none => exact hindex
              | some x => exact hS.part? hindex he
            · exact hindex
          · cases h
        · cases h
      · cases h
    · cases h
      exact Reference.ofNode_within hS _ hm
    · cases h
      exact Reference.ofNode_within hS _ hm
    · cases h

end Hint

/-! ## Places in a project -/

namespace Project

variable {P Q : Project}

/-- A site whose scopes are scopes of its file. -/
def Fits (P : Project) (site : Site) : Prop :=
  ∃ f, P.file? site.file = some f ∧ ∀ s ∈ site.chain, s ∈ f.scopes.scopes

/-- A binding in one of the scopes of a file. -/
def Binds (P : Project) (file : Nat) (b : Binding) : Prop :=
  ∃ f, P.file? file = some f ∧ ∃ s ∈ f.scopes.scopes, b ∈ s.bindings

theorem closed_holds (P : Project) (file : Nat) : Closed fun n => P.Holds ⟨file, n⟩ := by
  rintro n c ⟨f, hf, hn⟩ hc
  exact ⟨f, hf, f.source.tree.closed_nodes n c hn hc⟩

/-- A construct in a text of a file: its numbers come after those of the file. -/
def Foreign (P : Project) (d : Definition) : Prop :=
  ∃ f, P.file? d.file = some f ∧ ∀ m ∈ d.node.preorder, f.source.tree.size ≤ m.index

/-- What a declared type of a file is made of: nodes of the file, and nodes of its texts. -/
def Reaches (P : Project) (file : Nat) (n : Node) : Prop := P.Holds ⟨file, n⟩ ∨ P.Foreign ⟨file, n⟩

theorem closed_reaches (P : Project) (file : Nat) : Closed (P.Reaches file) := by
  rintro n c (hn | ⟨f, hf, hn⟩) hc
  · exact .inl (P.closed_holds file n c hn hc)
  · exact .inr ⟨f, hf, fun m hm => hn m (Node.mem_preorder_of_child hc hm)⟩

theorem Holds.reaches_number {file : Nat} {h : Node} (hh : P.Holds ⟨file, h⟩) (m : Node) :
    P.Reaches file (m.number (P.nodeCount file)) := by
  obtain ⟨f, hf, -⟩ := hh
  refine .inr ⟨f, hf, fun k hk => ?_⟩
  have hindex := List.mem_map_of_mem (f := Node.index) hk
  rw [Node.map_index_number, List.mem_range'_1] at hindex
  simpa [nodeCount, hf] using hindex.1

/-- A construct in a text opens no scope of the file. -/
theorem Foreign.openedChain? (hP : P.Sound) {d : Definition} (hd : P.Foreign d) :
    P.openedChain? d.file d.node.index = none := by
  obtain ⟨f, hf, hnodes⟩ := hd
  simp only [Project.openedChain?, hf, Option.map_eq_none_iff]
  by_contra hne
  obtain ⟨s, hs⟩ := Option.ne_none_iff_exists'.1 hne
  have hmem := (hP.within hf s (ScopeTable.mem_scopes_of_opened? hs)).node
  have hindex := List.mem_map_of_mem (f := Node.index) hmem
  rw [Tree.nodes, f.source.tree.numbered, List.mem_range] at hindex
  have hid : s.node.index = d.node.index := by simpa [Scope.id] using List.find?_some hs
  exact Nat.not_lt.2 (hnodes d.node d.node.mem_preorder_self) (hid ▸ hindex)

/-- The body of a lambda expression that opens no scope is not looked at. -/
theorem result_of_openedChain? {r : Resolver} {d : Definition} (hk : d.node.kind = .lambda)
    (h : P.openedChain? d.file d.node.index = none) : Step.result P r (.function d) = .ok none := by
  simp only [Step.result, hk, h]
  cases d.node.part? .body <;> rfl

theorem fits_of_chainOf? {file node : Nat} {chain : Chain} (h : P.chainOf? file node = some chain) :
    P.Fits ⟨file, chain⟩ := by
  unfold chainOf? at h
  split at h
  · next f hf => exact ⟨f, hf, ScopeTable.mem_scopes_of_chainOf? h⟩
  · cases h

theorem fits_of_openedChain? {file node : Nat} {chain : Chain}
    (h : P.openedChain? file node = some chain) : P.Fits ⟨file, chain⟩ := by
  unfold openedChain? at h
  split at h
  · next f hf =>
    obtain ⟨s, hs, rfl⟩ := Option.map_eq_some_iff.1 h
    exact ⟨f, hf, fun u hu =>
      ScopeTable.mem_scopes_of_mem_chain (ScopeTable.mem_scopes_of_opened? hs) hu⟩
  · cases h

/-- The binding that counts in the first scope of a chain is a binding of the file. -/
theorem Fits.binds {site : Site} (h : P.Fits site) {name : String} {b : Binding}
    (hb : site.chain.head?.bind (·.lastBinding? name) = some b) : P.Binds site.file b := by
  obtain ⟨f, hf, hs⟩ := h
  obtain ⟨s, hhead, hb⟩ := Option.bind_eq_some_iff.1 hb
  exact ⟨f, hf, s, hs s (List.mem_of_mem_head? hhead), Scope.mem_of_lastBinding? hb⟩

theorem Fits.lookup {site : Site} (h : P.Fits site) {name : String} {owner : Chain}
    (ho : site.chain.lookup name = some owner) : P.Fits ⟨site.file, owner⟩ := by
  obtain ⟨f, hf, hs⟩ := h
  exact ⟨f, hf, fun s hmem => hs s (Chain.mem_of_lookup ho s hmem)⟩

theorem Sound.binding (h : P.Sound) {file : Nat} {b : Binding} (hb : P.Binds file b) :
    b.Within fun n => P.Holds ⟨file, n⟩ := by
  obtain ⟨f, hf, s, hs, hmem⟩ := hb
  have hw := (h.within hf s hs).bindings b hmem
  exact ⟨⟨f, hf, hw.node⟩, fun v hv => ⟨f, hf, hw.value v hv⟩, fun v hv => ⟨f, hf, hw.hint v hv⟩,
    hw.function⟩

/-- What the methods of a class store is in the tree of the class. -/
theorem Sound.stored (h : P.Sound) {file node : Nat} {a : StoredAttribute}
    (ha : a ∈ (((P.openedChain? file node).bind (·.head?)).map (·.stored)).getD []) :
    P.Holds ⟨file, a.value⟩ := by
  cases hscope : (P.openedChain? file node).bind (·.head?) with
  | none => simp [hscope] at ha
  | some s =>
    obtain ⟨chain, hchain, hhead⟩ := Option.bind_eq_some_iff.1 hscope
    obtain ⟨f, hf, hmem⟩ := fits_of_openedChain? hchain
    rw [hscope] at ha
    exact ⟨f, hf, (h.within hf s (hmem s (List.mem_of_mem_head? hhead))).stored a ha⟩

namespace Embedding

variable (E : Embedding P Q)

theorem chainOf? (file node : Nat) : Q.chainOf? (E.place file) node = P.chainOf? file node := by
  simp only [Project.chainOf?, E.file]

theorem openedChain? (file node : Nat) :
    Q.openedChain? (E.place file) node = P.openedChain? file node := by
  simp only [Project.openedChain?, E.file]

theorem nodeCount (file : Nat) : Q.nodeCount (E.place file) = P.nodeCount file := by
  simp only [Project.nodeCount, E.file]

theorem hasModule {name : String} (h : E.known (firstPart name)) :
    Q.hasModule name = P.hasModule name := by
  simp only [Project.hasModule, E.module h, E.package h, Option.isSome_map]

theorem splitDotted? {name : String} (h : E.known (firstPart name)) :
    ∀ n, Q.splitDotted? (Text.split '.' name) n = P.splitDotted? (Text.split '.' name) n
  | 0 => rfl
  | n + 1 => by
    rw [← firstPart_intercalate_take name n] at h
    simp only [Project.splitDotted?, E.hasModule h]
    split
    · rfl
    · rw [firstPart_intercalate_take] at h
      exact splitDotted? h n

/-- The module that a dotted name is cut at has the first part of the name. -/
theorem firstPart_of_splitDotted? {name : String} :
    ∀ {n : Nat} {m : String} {rest : List String},
      P.splitDotted? (Text.split '.' name) n = some (m, rest) → firstPart m = firstPart name
  | 0, _, _, h => by cases h
  | n + 1, m, rest, h => by
    rw [Project.splitDotted?] at h
    split at h
    · cases h
      exact firstPart_intercalate_take name n
    · exact firstPart_of_splitDotted? h

/-! ## Related answers -/

/-- The same value in both projects. What it stands for is in the smaller one. -/
inductive SameValue : Value → Value → Prop
  | module {m : String} (h : E.known (firstPart m)) : SameValue (.module m) (.module m)
  | function {d : Definition} (h : P.Holds d) (hk : d.node.kind.isFunction = true) :
    SameValue (.function d) (.function (d.moved E.place))
  | classObject {d : Definition} (h : P.Holds d) :
    SameValue (.classObject d) (.classObject (d.moved E.place))
  | instanceOf {d : Definition} (h : P.Holds d) :
    SameValue (.instanceOf d) (.instanceOf (d.moved E.place))
  | external (name : String) : SameValue (.external name) (.external name)
  | awaitable : SameValue .awaitable .awaitable

/-- The same value in both projects, or a lambda expression in the same text. -/
inductive Loose : Value → Value → Prop
  | same {v w : Value} (h : E.SameValue v w) : Loose v w
  | foreign {d : Definition} (h : P.Foreign d) (hk : d.node.kind = .lambda) :
    Loose (.function d) (.function (d.moved E.place))

abbrev SameAnswer (a b : Answer) : Prop := Analysis.Related (Option.Rel E.SameValue) a b

abbrev LooseAnswer (a b : Answer) : Prop := Analysis.Related (Option.Rel E.Loose) a b

def SameDefinition (d d' : Definition) : Prop := P.Holds d ∧ d' = d.moved E.place

/-- Two resolvers that answer alike whatever the smaller project can ask. -/
structure Agrees (r r' : Resolver) : Prop where
  expression : ∀ {e site}, P.Fits site → e.Within (fun n => P.Holds ⟨site.file, n⟩) →
    E.SameAnswer (r.expression e site) (r'.expression e (site.moved E.place))
  typeName : ∀ {e site}, P.Fits site → e.Within (P.Reaches site.file) →
    E.LooseAnswer (r.expression e site) (r'.expression e (site.moved E.place))
  name : ∀ {site}, P.Fits site → ∀ id,
    E.SameAnswer (r.name id site) (r'.name id (site.moved E.place))
  binding : ∀ {b site}, P.Fits site → P.Binds site.file b →
    E.SameAnswer (r.binding b site) (r'.binding b (site.moved E.place))
  hint : ∀ {h file}, P.Holds ⟨file, h⟩ → E.SameAnswer (r.hint h file) (r'.hint h (E.place file))
  dotted : ∀ {name}, E.known (firstPart name) → E.SameAnswer (r.dotted name) (r'.dotted name)
  member : ∀ {v w}, E.Loose v w → ∀ name, E.SameAnswer (r.member v name) (r'.member w name)
  classMember : ∀ {c}, P.Holds c → ∀ name,
    E.SameAnswer (r.classMember c name) (r'.classMember (c.moved E.place) name)
  stored : ∀ {c}, P.Holds c → ∀ name,
    E.SameAnswer (r.stored c name) (r'.stored (c.moved E.place) name)
  result : ∀ {v w}, E.Loose v w → E.SameAnswer (r.result v) (r'.result w)
  bases : ∀ {c}, P.Holds c →
    Analysis.Related (List.Forall₂ E.SameDefinition) (r.bases c) (r'.bases (c.moved E.place))
  length_bases : ∀ {c bs}, r.bases c = .ok bs → bs.length ≤ baseCount c

variable {E} {r r' : Resolver}

theorem unknown : E.SameAnswer (.ok none) (.ok none) := .done .none

theorem SameAnswer.loose {a b : Answer} (h : E.SameAnswer a b) : E.LooseAnswer a b :=
  Analysis.Related.imp h fun _ _ hxy => by
    cases hxy with
    | none => exact .none
    | some hv => exact .some (.same hv)

/-! ## One step -/

theorem step_expression (hr : E.Agrees r r') {e : Reference} {site : Site} (hs : P.Fits site)
    (he : e.Within fun n => P.Holds ⟨site.file, n⟩) :
    E.SameAnswer (Step.expression r e site) (Step.expression r' e (site.moved E.place)) := by
  unfold Step.expression
  cases e with
  | name id => exact hr.name hs id
  | member base name =>
    exact (hr.expression (e := base) hs he).bindOption unknown fun hv => hr.member (.same hv) name
  | call callee =>
    exact (hr.expression (e := callee) hs he).bindOption unknown fun hv => hr.result (.same hv)
  | lambda node => exact .done (.some (.function he.1 (by rw [he.2]; rfl)))
  | other => exact unknown

/-- The name of a class may go through the lambda expressions of a text. -/
theorem step_typeName (hr : E.Agrees r r') {e : Reference} {site : Site} (hs : P.Fits site)
    (he : e.Within (P.Reaches site.file)) :
    E.LooseAnswer (Step.expression r e site) (Step.expression r' e (site.moved E.place)) := by
  unfold Step.expression
  cases e with
  | name id => exact (hr.name hs id).loose
  | member base name =>
    exact (hr.typeName (e := base) hs he).bindOption (.done .none)
      fun hv => (hr.member hv name).loose
  | call callee =>
    exact (hr.typeName (e := callee) hs he).bindOption (.done .none) fun hv => (hr.result hv).loose
  | lambda node =>
    obtain ⟨hholds | hforeign, hk⟩ := he
    · exact .done (.some (.same (.function hholds (by rw [hk]; rfl))))
    · exact .done (.some (.foreign hforeign hk))
  | other => exact .done .none

theorem step_name (hr : E.Agrees r r') {site : Site} (hs : P.Fits site) (id : String) :
    E.SameAnswer (Step.name r id site) (Step.name r' id (site.moved E.place)) := by
  unfold Step.name
  simp only [Site.moved]
  cases ho : site.chain.lookup id with
  | none =>
    simp only
    split
    · exact .done (.some (.external _))
    · exact unknown
  | some owner =>
    simp only
    cases hb : owner.head?.bind (·.lastBinding? id) with
    | none => exact unknown
    | some b => exact hr.binding (hs.lookup ho) ((hs.lookup ho).binds hb)

/-- The receiver of a method stands for the class whose scope is next in the chain. -/
theorem receiver?_rel {b : Binding} {site : Site} (hs : P.Fits site) :
    Option.Rel E.SameValue (Step.receiver? b site) (Step.receiver? b (site.moved E.place)) := by
  obtain ⟨file, chain⟩ := site
  rcases chain with _ | ⟨owner, _ | ⟨parent, rest⟩⟩
  · exact .none
  · exact .none
  · simp only [Step.receiver?, Site.moved]
    split
    · have hparent : P.Holds ⟨file, parent.node⟩ := by
        obtain ⟨f, hf, hmem⟩ := hs
        exact ⟨f, hf, (E.sound.within hf parent (hmem parent (by simp))).node⟩
      cases owner.node.isClassMethod with
      | true => exact .some (.classObject hparent)
      | false => exact .some (.instanceOf hparent)
    · exact .none

theorem declared_rel (hr : E.Agrees r r') {b : Binding} {site : Site} (hb : P.Binds site.file b) :
    E.SameAnswer (Step.declared r b site) (Step.declared r' b (site.moved E.place)) := by
  unfold Step.declared
  cases hh : b.hint with
  | none => exact unknown
  | some h => exact hr.hint ((E.sound.binding hb).hint h hh)

theorem step_binding (hr : E.Agrees r r') {b : Binding} {site : Site} (hs : P.Fits site)
    (hb : P.Binds site.file b) :
    E.SameAnswer (Step.binding P r b site) (Step.binding Q r' b (site.moved E.place)) := by
  have hw := E.sound.binding hb
  unfold Step.binding
  split
  · next hk =>
    refine .done (.some (.function hw.node ?_))
    have hf := hw.function hk
    unfold Kind.isFunctionDef at hf
    split at hf
    · next he => simp [he, Kind.isFunction]
    · cases hf
  · exact .done (.some (.classObject hw.node))
  · next hk =>
    cases ht : b.target with
    | none => exact unknown
    | some target =>
      simp only
      split
      · exact unknown
      · obtain ⟨f, hf, s, hmem, hbs⟩ := hb
        exact hr.dotted (E.imports hf s hmem b hbs hk target ht)
  · have hrec : Option.Rel E.SameValue (Step.receiver? b site)
        (Step.receiver? b (site.moved E.place)) := receiver?_rel hs
    generalize Step.receiver? b site = x at hrec
    generalize Step.receiver? b (site.moved E.place) = y at hrec
    cases hrec with
    | none => exact declared_rel hr hb
    | some hv => exact .done (.some hv)
  · cases hv : b.value with
    | none => exact declared_rel hr hb
    | some v =>
      have hvalue := Reference.ofNode_within (P.closed_holds site.file) v (hw.value v hv)
      simp only [Site.moved, E.chainOf?]
      cases hc : P.chainOf? site.file v.index with
      | none => exact hr.expression hs hvalue
      | some chain => exact hr.expression (fits_of_chainOf? hc) hvalue
  · exact unknown

/-- Only a class comes out of a declared type. -/
theorem step_hint (hr : E.Agrees r r') {h : Node} {file : Nat} (hh : P.Holds ⟨file, h⟩) :
    E.SameAnswer (Step.hint P r h file) (Step.hint Q r' h (E.place file)) := by
  unfold Step.hint
  rw [E.nodeCount]
  cases hname : Hint.className (P.nodeCount file) h with
  | error e => exact .aborted e
  | ok e? =>
    simp only [Analysis.ok_bind, E.chainOf?]
    cases e? with
    | none => exact unknown
    | some e =>
      cases hc : P.chainOf? file h.index with
      | none => exact unknown
      | some chain =>
        have he := Hint.classNameBy_within (P.closed_reaches file) hh.reaches_number (.inl hh) hname
        refine (hr.typeName (fits_of_chainOf? hc) he).bindOption unknown fun hv => ?_
        cases hv with
        | foreign => exact unknown
        | same hv =>
          cases hv with
          | classObject hd => exact .done (.some (.instanceOf hd))
          | module | function | instanceOf | external | awaitable => exact unknown

theorem followMembers_rel (hr : E.Agrees r r') :
    ∀ (names : List String) {v w : Value}, E.SameValue v w →
      E.SameAnswer (followMembers r.member names v) (followMembers r'.member names w)
  | [], _, _, hv => .done (.some hv)
  | name :: names, v, w, hv => by
    unfold followMembers
    exact (hr.member (.same hv) name).bindOption unknown fun hu => followMembers_rel hr names hu

theorem step_dotted (hr : E.Agrees r r') {name : String} (h : E.known (firstPart name)) :
    E.SameAnswer (Step.dotted P r name) (Step.dotted Q r' name) := by
  unfold Step.dotted
  simp only [E.splitDotted? h]
  cases hsplit : P.splitDotted? (Text.split '.' name) (Text.split '.' name).length with
  | none => exact .done (.some (.external name))
  | some x =>
    obtain ⟨m, rest⟩ := x
    exact followMembers_rel hr rest (.module (firstPart_of_splitDotted? hsplit ▸ h))

theorem step_moduleMember (hr : E.Agrees r r') {m : String} (h : E.known (firstPart m))
    (name : String) :
    E.SameAnswer (Step.moduleMember P r m name) (Step.moduleMember Q r' m name) := by
  have hsub : E.known (firstPart s!"{m}.{name}") := by rwa [firstPart_member]
  have submodule : E.SameAnswer
      (.ok (if P.hasModule s!"{m}.{name}" then some (.module s!"{m}.{name}") else none))
      (.ok (if Q.hasModule s!"{m}.{name}" then some (.module s!"{m}.{name}") else none)) := by
    rw [E.hasModule hsub]
    split
    · exact .done (.some (.module hsub))
    · exact unknown
  unfold Step.moduleMember
  simp only [E.module h]
  cases hm : P.module? m with
  | none => exact submodule
  | some i =>
    simp only [Option.map_some, Option.bind_eq_bind, Option.bind_some, E.openedChain?]
    cases hc : P.openedChain? i 0 with
    | none => exact submodule
    | some chain =>
      have hfits := fits_of_openedChain? hc
      simp only [Option.bind_some]
      cases hb : chain.head?.bind (·.lastBinding? name) with
      | none => exact submodule
      | some b => exact hr.binding hfits (hfits.binds hb)

theorem step_member (hr : E.Agrees r r') {v w : Value} (hv : E.Loose v w) (name : String) :
    E.SameAnswer (Step.member P r v name) (Step.member Q r' w name) := by
  unfold Step.member
  obtain hv | _ := hv
  case foreign => exact unknown
  cases hv with
  | module h => exact step_moduleMember hr h name
  | function | awaitable => exact unknown
  | classObject h => exact hr.classMember h name
  | instanceOf h =>
    refine (hr.classMember h name).bindOption ?_ fun hv => ?_
    · exact hr.stored h name
    · exact .done (.some hv)
  | external e => exact .done (.some (.external _))

/-! ## Classes -/

theorem any_same_moved {c : Definition} :
    ∀ {seen seen' : List Definition}, List.Forall₂ E.SameDefinition seen seen' →
      seen'.any (c.moved E.place).same = seen.any c.same
  | _, _, .nil => rfl
  | _, _, .cons h hs => by
    rw [List.any_cons, List.any_cons, any_same_moved hs, h.2, Definition.same_moved E.injective]

theorem searchClasses_rel {α β : Type} {R : α → β → Prop}
    {bases bases' : Definition → Analysis (List Definition)} {find : Definition → Analysis (Option α)}
    {find' : Definition → Analysis (Option β)}
    (hbases : ∀ {c}, P.Holds c →
      Analysis.Related (List.Forall₂ E.SameDefinition) (bases c) (bases' (c.moved E.place)))
    (hfind : ∀ {c}, P.Holds c → Analysis.Related (Option.Rel R) (find c) (find' (c.moved E.place))) :
    ∀ (n : Nat) {stack stack' seen seen' : List Definition},
      List.Forall₂ E.SameDefinition stack stack' → List.Forall₂ E.SameDefinition seen seen' →
      Analysis.Related (Option.Rel R) (searchClasses bases find n stack seen)
        (searchClasses bases' find' n stack' seen')
  | 0, _, _, _, _, _, _ => .done .none
  | _ + 1, _, _, _, _, .nil, _ => .done .none
  | n + 1, _, _, seen, seen', .cons (a := c) h hs, hseen => by
    obtain ⟨hc, rfl⟩ := h
    rw [searchClasses, searchClasses, any_same_moved hseen]
    split
    · exact searchClasses_rel hbases hfind n hs hseen
    · refine (hfind hc).bind fun x y hxy => ?_
      cases hxy with
      | some hab => exact .done (.some hab)
      | none =>
        refine (hbases hc).bind fun bs bs' hbs => ?_
        exact searchClasses_rel hbases hfind n (List.rel_append hbs hs) (.cons ⟨hc, rfl⟩ hseen)

/-- The base classes of a class are of the project, and no more than the class lists. -/
theorem Agrees.holds_of_bases (hr : E.Agrees r r') {c : Definition} {bs : List Definition} (hc : P.Holds c)
    (hbs : r.bases c = .ok bs) : bs.length ≤ baseCount c ∧ ∀ b ∈ bs, P.Holds b := by
  refine ⟨hr.length_bases hbs, fun b hb => ?_⟩
  obtain ⟨bs', -, hrel⟩ := (hr.bases hc).of_ok hbs
  obtain ⟨b', -, hb'⟩ := exists_of_mem_left hrel hb
  exact hb'.1

/-- A search through the classes of both projects, each within its own bound. -/
theorem searchBound_rel (hr : E.Agrees r r') {α β : Type} {R : α → β → Prop}
    {find : Definition → Analysis (Option α)} {find' : Definition → Analysis (Option β)}
    (hfind : ∀ {c}, P.Holds c → Analysis.Related (Option.Rel R) (find c) (find' (c.moved E.place)))
    {c : Definition} (hc : P.Holds c) :
    Analysis.Related (Option.Rel R) (searchClasses r.bases find P.searchBound [c] [])
      (searchClasses r'.bases find' Q.searchBound [c.moved E.place] []) := by
  -- The bound of the smaller project is enough, so that of the larger one gives the same.
  have henough : searchClasses r.bases find Q.searchBound [c] [] =
      searchClasses r.bases find P.searchBound [c] [] := by
    have hunexpanded := E.sound.size_eq ▸ unexpanded_nil_le (P := P)
    have hsize := E.size_le
    refine searchClasses_eq_of_le hr.holds_of_bases (by simpa using hc) ?_ ?_
    · rw [searchBound, List.length_singleton]
      omega
    · rw [searchBound, searchBound]
      omega
  rw [← henough]
  exact searchClasses_rel hr.bases hfind Q.searchBound (.cons ⟨hc, rfl⟩ .nil) .nil

theorem step_classMember (hr : E.Agrees r r') {c : Definition} (hc : P.Holds c) (name : String) :
    E.SameAnswer (Step.classMember P r c name) (Step.classMember Q r' (c.moved E.place) name) := by
  unfold Step.classMember
  refine (searchBound_rel (R := Option.Rel E.SameValue) hr (fun {k} hk => ?_) hc).bind
    fun x y hxy => ?_
  · simp only [Definition.moved, E.openedChain?]
    cases hchain : P.openedChain? k.file k.node.index with
    | none => exact .done .none
    | some chain =>
      have hfits := fits_of_openedChain? hchain
      simp only [Option.bind_eq_bind, Option.bind_some]
      cases hb : chain.head?.bind (·.lastBinding? name) with
      | none => exact .done .none
      | some b =>
        exact Analysis.Related.bind (hr.binding hfits (hfits.binds hb)) fun v w hvw => .done (.some hvw)
  · cases hxy with
    | none => exact unknown
    | some hvw => exact .done hvw

theorem firstKnown_rel {α : Type} {ask ask' : α → Answer} :
    ∀ {as : List α}, (∀ a ∈ as, E.SameAnswer (ask a) (ask' a)) →
      E.SameAnswer (firstKnown ask as) (firstKnown ask' as)
  | [], _ => unknown
  | a :: as, h => by
    unfold firstKnown
    refine (h a (by simp)).bindOption ?_ fun hv => ?_
    · exact firstKnown_rel fun b hb => h b (by simp [hb])
    · exact .done (.some hv)

theorem step_stored (hr : E.Agrees r r') {c : Definition} (hc : P.Holds c) (name : String) :
    E.SameAnswer (Step.stored P r c name) (Step.stored Q r' (c.moved E.place) name) := by
  unfold Step.stored
  refine searchBound_rel hr (fun {k} hk => ?_) hc
  simp only [Definition.moved, E.openedChain?]
  refine firstKnown_rel fun a ha => ?_
  have hvalue := E.sound.stored (List.mem_filter.1 ha).1
  cases hm : P.openedChain? k.file a.method with
  | none => exact unknown
  | some chain =>
    exact hr.expression (fits_of_openedChain? hm)
      (Reference.ofNode_within (P.closed_holds k.file) a.value hvalue)

theorem step_result_function (hr : E.Agrees r r') {d : Definition} (h : P.Holds d) :
    E.SameAnswer (Step.result P r (.function d))
      (Step.result Q r' (.function ⟨E.place d.file, d.node⟩)) := by
  simp only [Step.result, E.openedChain?]
  split
  · cases hbody : d.node.part? .body with
    | none => exact unknown
    | some body =>
      cases hchain : P.openedChain? d.file d.node.index with
      | none => exact unknown
      | some chain =>
        refine hr.expression (fits_of_openedChain? hchain)
          (Reference.ofNode_within (P.closed_holds d.file) body ?_)
        exact (P.closed_holds d.file).part? h hbody
  · split
    · exact .done (.some .awaitable)
    · cases hreturns : d.node.part? .returns with
      | none => exact unknown
      | some hint =>
        simp only
        cases Hint.isAwaitable hint with
        | error e => exact .aborted e
        | ok b =>
          cases b with
          | true => exact .done (.some .awaitable)
          | false => exact hr.hint ((P.closed_holds d.file).part? h hreturns)

theorem step_result (hr : E.Agrees r r') {v w : Value} (hv : E.Loose v w) :
    E.SameAnswer (Step.result P r v) (Step.result Q r' w) := by
  obtain hv | @⟨d, hforeign, hk⟩ := hv
  case foreign =>
    have hnone := hforeign.openedChain? E.sound
    rw [result_of_openedChain? hk hnone, result_of_openedChain? (d := d.moved E.place) hk
      ((E.openedChain? _ _).trans hnone)]
    exact unknown
  cases hv with
  | module | awaitable => exact unknown
  | classObject h => exact .done (.some (.instanceOf h))
  | instanceOf h =>
    exact (hr.classMember h "__call__").bindOption unknown fun hv => hr.result (.same hv)
  | external e =>
    simp only [Step.result]
    split
    · exact .done (.some .awaitable)
    · cases Builtin.resultTypes.lookup e with
      | none => exact unknown
      | some t => exact .done (.some (.external t))
  | function h hk => exact step_result_function hr h

theorem step_bases (hr : E.Agrees r r') {c : Definition} (hc : P.Holds c) :
    Analysis.Related (List.Forall₂ E.SameDefinition) (Step.bases P r c)
      (Step.bases Q r' (c.moved E.place)) := by
  unfold Step.bases
  simp only [Definition.moved, E.chainOf?]
  cases hchain : P.chainOf? c.file c.node.index with
  | none => exact .done .nil
  | some chain =>
    have hparts : List.Forall₂ (fun b b' => b = b' ∧ P.Holds ⟨c.file, b⟩) (c.node.parts .base)
        (c.node.parts .base) :=
      List.forall₂_same.2 fun b hb => ⟨rfl, (P.closed_holds c.file).parts hc hb⟩
    refine (Analysis.Related.mapM (R := Option.Rel E.SameValue) ?_ hparts).bind fun vs ws hvs => ?_
    · rintro b _ ⟨rfl, hb⟩
      exact hr.expression (fits_of_chainOf? hchain)
        (Reference.ofNode_within (P.closed_holds c.file) b hb)
    · refine .done (List.rel_filterMap ?_ hvs)
      intro x y hxy
      cases hxy with
      | none => exact .none
      | some hv =>
        cases hv with
        | classObject h => exact .some ⟨h, rfl⟩
        | module | function | instanceOf | external | awaitable => exact .none

theorem length_step_bases {c : Definition} {bs : List Definition} (h : Step.bases P r c = .ok bs) :
    bs.length ≤ baseCount c := by
  unfold Step.bases at h
  split at h
  · obtain ⟨values, hvalues, h⟩ := Analysis.bind_eq_ok.1 h
    cases h
    rw [baseCount, (Analysis.mapM_eq_ok.1 hvalues).length_eq]
    exact List.length_filterMap_le _ _
  · cases h
    exact Nat.zero_le _

/-! ## Any number of steps -/

theorem step_agrees (hr : E.Agrees r r') : E.Agrees (step P r) (step Q r') where
  expression := step_expression hr
  typeName := step_typeName hr
  name := step_name hr
  binding := step_binding hr
  hint := step_hint hr
  dotted := step_dotted hr
  member := step_member hr
  classMember := step_classMember hr
  stored := step_stored hr
  result := step_result hr
  bases := step_bases hr
  length_bases := length_step_bases

theorem ignorant_agrees (E : Embedding P Q) : E.Agrees ignorant ignorant where
  expression _ _ := unknown
  typeName _ _ := .done .none
  name _ _ := unknown
  binding _ _ := unknown
  hint _ := unknown
  dotted _ := unknown
  member _ _ := unknown
  classMember _ _ := unknown
  stored _ _ := unknown
  result _ := unknown
  bases _ := .done .nil
  length_bases h := by cases h; exact Nat.zero_le _

/-- Searches in a project and in a larger one that it lies in find the same. -/
theorem resolver_agrees (E : Embedding P Q) : ∀ n, E.Agrees (P.resolver n) (Q.resolver n)
  | 0 =>
    have h := step_agrees E.ignorant_agrees
    { h with
      expression := E.ignorant_agrees.expression
      typeName := E.ignorant_agrees.typeName
      binding := E.ignorant_agrees.binding
      member := E.ignorant_agrees.member
      bases := E.ignorant_agrees.bases
      length_bases := E.ignorant_agrees.length_bases }
  | n + 1 => step_agrees (E.resolver_agrees n)

end Embedding

end Project

end EffectGraph
