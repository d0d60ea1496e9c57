/-
The rule by which a name finds its scope.

`ScopeTable.Resolves` says the rule of the language case by case, over the
scopes around a scope: what a declaration of the name asks for, else the scope
itself if it binds the name, else the nearest scope further out that is no
class. A search through a chain goes on in one loop where the rule starts
afresh at the scope it has come to. The two agree because the scopes around a
scope of a file are its parent and the scopes around that (`around_cases`), so
what is left of a chain is the chain of the scope that the search has reached.
-/
import EffectGraph.Proofs.Grammar.Statement
import EffectGraph.Proofs.Model.Files
import EffectGraph.Proofs.Scope.Table

namespace EffectGraph

/-- Whether a name that a scope further inside declares nonlocal is looked up in a scope. -/
def Scope.offers (x : String) (s : Scope) : Bool :=
  s.kind != .classBody && s.kind != .module && (s.binds x || s.nonlocals.contains x)

/-! ## Searches along a chain -/

namespace Chain

variable {x : String} {s : Scope} {inner outer : Chain}

theorem lookup_of_global (h : x ∈ s.globals) : lookup (s :: outer) x = some (outermost (s :: outer)) := by
  simp [lookup, lookupBy, Reach.passes, h]

theorem lookup_of_nonlocal (hg : x ∉ s.globals) (h : x ∈ s.nonlocals) :
    lookup (s :: outer) x = lookupBy x .nonlocally outer := by
  simp [lookup, lookupBy, Reach.passes, hg, h]

theorem lookup_of_binds (hg : x ∉ s.globals) (hn : x ∉ s.nonlocals) (h : s.binds x = true) :
    lookup (s :: outer) x = some (s :: outer) := by
  simp [lookup, lookupBy, Reach.passes, hg, hn, h]

theorem lookup_of_not_binds (hg : x ∉ s.globals) (hn : x ∉ s.nonlocals) (h : s.binds x = false) :
    lookup (s :: outer) x = lookupBy x .outward outer := by
  simp [lookup, lookupBy, Reach.passes, hg, hn, h]

/-- A search outward goes on at the nearest scope that is no class. -/
theorem lookupBy_outward (hinner : ∀ u ∈ inner, u.kind = .classBody) (hs : s.kind ≠ .classBody) :
    lookupBy x .outward (inner ++ s :: outer) = lookup (s :: outer) x := by
  induction inner with
  | nil => simp [lookup, lookupBy, Reach.passes, hs]
  | cons u inner ih =>
    obtain ⟨hu, hinner⟩ := List.forall_mem_cons.1 hinner
    rw [List.cons_append, lookupBy, if_neg (by simp), if_pos (by simp [Reach.passes, hu])]
    exact ih hinner

/-- A search from comprehensions in which nothing declares the name ends at one that binds the name,
or it is the search from the block around them. -/
theorem lookup_comprehensions
    (hinner : ∀ u ∈ inner, u.kind = .comprehension ∧ x ∉ u.globals ∧ x ∉ u.nonlocals)
    (hs : inner ≠ [] → s.kind ≠ .classBody) :
    lookup (inner ++ s :: outer) x = lookup (s :: outer) x ∨
      ∃ u ∈ inner, u.binds x = true ∧ ∃ around, lookup (inner ++ s :: outer) x = some (u :: around) := by
  induction inner with
  | nil => exact .inl rfl
  | cons u inner ih =>
    obtain ⟨⟨-, hg, hn⟩, hinner⟩ := List.forall_mem_cons.1 hinner
    by_cases hu : u.binds x = true
    · exact .inr ⟨u, List.mem_cons_self, hu, _, lookup_of_binds hg hn hu⟩
    -- The next scope further out is a comprehension or the block, which is no class.
    have hnext : lookup (u :: inner ++ s :: outer) x = lookup (inner ++ s :: outer) x := by
      rw [List.cons_append, lookup_of_not_binds hg hn (by simpa using hu)]
      cases inner with
      | nil => exact lookupBy_outward (List.forall_mem_nil _) (hs (by simp))
      | cons v inner =>
        have hv : v.kind ≠ .classBody := by simp [(hinner v List.mem_cons_self).1]
        exact lookupBy_outward (List.forall_mem_nil _) hv
    rw [hnext]
    refine (ih hinner fun _ => hs (by simp)).imp_right ?_
    rintro ⟨v, hv, hfound⟩
    exact ⟨v, List.mem_cons_of_mem _ hv, hfound⟩

/-- A search for a nonlocal name goes on at the nearest scope that offers it. -/
theorem lookupBy_nonlocally (hinner : ∀ u ∈ inner, u.offers x = false ∧ u.kind ≠ .module)
    (hs : s.offers x = true) : lookupBy x .nonlocally (inner ++ s :: outer) = lookup (s :: outer) x := by
  induction inner with
  | nil =>
    simp only [Scope.offers, Bool.and_eq_true, bne_iff_ne] at hs
    have hpasses : Reach.nonlocally.passes x s = false := by
      simp only [Reach.passes, hs.2, Bool.not_true, Bool.or_false]
      simpa using hs.1.1
    rw [List.nil_append, lookup, lookupBy, lookupBy, if_neg (by simp [hs.1.2]), hpasses]
    rfl
  | cons u inner ih =>
    obtain ⟨⟨hu, hmodule⟩, hinner⟩ := List.forall_mem_cons.1 hinner
    have hpasses : Reach.nonlocally.passes x u = true := by
      simp only [Scope.offers, Reach.passes] at hu ⊢
      cases hk : u.kind <;> simp_all
    rw [List.cons_append, lookupBy, if_neg (by simp [hmodule]), if_pos hpasses]
    exact ih hinner

/-- A nonlocal name that no scope offers belongs to none. -/
theorem lookupBy_nonlocally_eq_none (h : ∀ u ∈ outer, u.offers x = false) :
    lookupBy x .nonlocally outer = none := by
  induction outer with
  | nil => rfl
  | cons u outer ih =>
    obtain ⟨hu, houter⟩ := List.forall_mem_cons.1 h
    rw [lookupBy]
    split
    · rfl
    · next hmodule =>
      have hpasses : Reach.nonlocally.passes x u = true := by
        simp only [Scope.offers, Reach.passes] at hu ⊢
        cases hk : u.kind <;> simp_all
      rw [if_pos hpasses]
      exact ih houter

/-- A search from inside a function comes no further than to the function, if that binds the name and
nothing on the way declares it global: it ends there or at a scope further inside that binds the
name. -/
theorem lookupBy_of_function (outer : Chain) (hs : s.kind = .function) (hb : s.binds x = true)
    (hg : x ∉ s.globals) (hn : x ∉ s.nonlocals)
    (hinner : ∀ u ∈ inner, u.kind ≠ .module ∧ x ∉ u.globals) :
    ∀ reach, lookupBy x reach (inner ++ s :: outer) = some (s :: outer) ∨
      ∃ u ∈ inner, u.binds x = true ∧
        ∃ around, lookupBy x reach (inner ++ s :: outer) = some (u :: around) := by
  induction inner with
  | nil =>
    intro reach
    left
    cases reach <;> simp [lookupBy, Reach.passes, hs, hb, hg, hn]
  | cons u inner ih =>
    obtain ⟨⟨hmodule, hglobal⟩, hinner⟩ := List.forall_mem_cons.1 hinner
    intro reach
    -- Where the search goes on, it goes on among the rest.
    have further : ∀ reach', lookupBy x reach (u :: inner ++ s :: outer) =
          lookupBy x reach' (inner ++ s :: outer) →
        lookupBy x reach (u :: inner ++ s :: outer) = some (s :: outer) ∨
          ∃ v ∈ u :: inner, v.binds x = true ∧
            ∃ around, lookupBy x reach (u :: inner ++ s :: outer) = some (v :: around) := by
      intro reach' he
      rw [he]
      refine (ih hinner reach').imp_right ?_
      rintro ⟨v, hv, hfound⟩
      exact ⟨v, List.mem_cons_of_mem _ hv, hfound⟩
    have hstep : lookupBy x reach (u :: inner ++ s :: outer) =
        if reach.passes x u then lookupBy x reach (inner ++ s :: outer)
        else if u.nonlocals.contains x then lookupBy x .nonlocally (inner ++ s :: outer)
        else if u.binds x then some (u :: (inner ++ s :: outer))
        else lookupBy x .outward (inner ++ s :: outer) := by
      rw [List.cons_append, lookupBy, if_neg (by simp [hmodule])]
      simp [hglobal]
    by_cases hpasses : reach.passes x u = true
    · exact further reach (by rw [hstep, if_pos hpasses])
    rw [if_neg hpasses] at hstep
    by_cases hnonlocal : u.nonlocals.contains x = true
    · exact further .nonlocally (by rw [hstep, if_pos hnonlocal])
    rw [if_neg hnonlocal] at hstep
    by_cases hbinds : u.binds x = true
    · exact .inr ⟨u, List.mem_cons_self, hbinds, _, by rw [hstep, if_pos hbinds]⟩
    · exact further .outward (by rw [hstep, if_neg hbinds])

end Chain

namespace ScopeTable

/-- The scopes around a scope, from the inside out. -/
def around (t : ScopeTable) (s : Scope) : List Scope := s.ancestors.filterMap t.opened?

theorem chain_eq (t : ScopeTable) (s : Scope) : t.chain s = s :: t.around s := rfl

/-- The rule of the language for the scope that a name belongs to, if there is one, as seen from a
scope. -/
inductive Resolves (t : ScopeTable) (x : String) : Scope → Option Scope → Prop
  | global {s m : Scope} : x ∈ s.globals → m ∈ t.scopes → m.kind = .module → Resolves t x s (some m)
  | nonlocal {s u : Scope} {r : Option Scope} : x ∉ s.globals → x ∈ s.nonlocals →
    (t.around s).find? (·.offers x) = some u → Resolves t x u r → Resolves t x s r
  | lost {s : Scope} : x ∉ s.globals → x ∈ s.nonlocals → (t.around s).find? (·.offers x) = none →
    Resolves t x s none
  | here {s : Scope} : x ∉ s.globals → x ∉ s.nonlocals → s.binds x = true → Resolves t x s (some s)
  | outward {s u : Scope} {r : Option Scope} : x ∉ s.globals → x ∉ s.nonlocals → s.binds x = false →
    (t.around s).find? (·.kind != .classBody) = some u → Resolves t x u r → Resolves t x s r
  | unbound {s : Scope} : x ∉ s.globals → x ∉ s.nonlocals → s.binds x = false →
    (t.around s).find? (·.kind != .classBody) = none → Resolves t x s none

/-! ## The tree of scopes -/

section File

variable {f : SourceFile} (hroot : f.tree.root.Is .file) {s u : Scope}

include hroot

/-- A construct opens its scope once. -/
theorem opened_unique {n : Node} {kind kind' : ScopeKind} {receiver receiver' : Option String}
    {ancestors ancestors' : List Nat} (h : .opened n kind receiver ancestors ∈ eventsOf f)
    (h' : .opened n kind' receiver' ancestors' ∈ eventsOf f) :
    Event.opened n kind receiver ancestors = .opened n kind' receiver' ancestors' := by
  have hmodule := Kind.eq_module hroot.category
  rcases (opened_mem_eventsOf hroot).1 h with he | ⟨w, hw, hk, he⟩ <;>
    rcases (opened_mem_eventsOf hroot).1 h' with he' | ⟨w', hw', hk', he'⟩ <;>
    have hnode := (Event.opened.inj he).1 <;> have hnode' := (Event.opened.inj he').1
  · exact he.trans he'.symm
  · rw [← hnode', hnode, hmodule] at hk'
    cases hk'
  · rw [← hnode, hnode', hmodule] at hk
    cases hk
  · rw [he, he', Node.meeting_eq f.tree.nodup_index hw hw' (hnode.symm.trans hnode')]

theorem eq_of_node (hs : s ∈ (ofFile f).scopes) (hu : u ∈ (ofFile f).scopes) (h : s.node = u.node) :
    s = u := by
  obtain ⟨e, he, hs⟩ := List.mem_filterMap.1 hs
  obtain ⟨e', he', hu⟩ := List.mem_filterMap.1 hu
  cases e <;> cases hs
  cases e' <;> cases hu
  cases h
  cases opened_unique hroot he he'
  rfl

theorem scopeKind?_node (hs : s ∈ (ofFile f).scopes) : s.node.kind.scopeKind? = some s.kind := by
  obtain ⟨e, he, hs⟩ := List.mem_filterMap.1 hs
  cases e <;> cases hs
  rcases (opened_mem_eventsOf hroot).1 he with he | ⟨w, -, hk, he⟩
  · cases he
    rw [Kind.eq_module hroot.category]
    rfl
  · cases he
    cases hkind : w.node.kind <;> simp [hkind, Kind.opensScope] at hk <;>
      simp [Node.inside, hkind, Kind.scopeKind?, Place.enter]

/-- A scope is that of the module, or it has a parent, and the scopes around it are the parent and
those around the parent. -/
theorem around_cases (hs : s ∈ (ofFile f).scopes) :
    (s.node = f.tree.root ∧ s.kind = .module ∧ (ofFile f).around s = []) ∨
      (s.kind ≠ .module ∧ ∃ u ∈ (ofFile f).scopes, (ofFile f).around s = u :: (ofFile f).around u) := by
  have hkind := scopeKind?_node hroot hs
  rcases mem_scopes_cases hroot hs with ⟨hnode, hnone⟩ | ⟨w, hw, hk, hnode, hancestors⟩
  · rw [hnode, Kind.eq_module hroot.category] at hkind
    exact .inl ⟨hnode, (Option.some.inj hkind).symm, by rw [around, hnone]; rfl⟩
  · refine .inr ⟨fun hmodule => ?_, ?_⟩
    · rw [hmodule, hnode] at hkind
      cases hkw : w.node.kind <;> simp [hkw, Kind.opensScope, Kind.scopeKind?] at hk hkind
    · obtain ⟨scopes, h, hmatches⟩ := exists_scopes hroot hw
      have hids : s.ancestors = scopes.map Node.index :=
        hancestors.trans (map_eq_map_of_forall₂ hmatches fun _ _ h => h.1)
      cases hmatches with
      | @cons _ n _ outer hframe hrest =>
        have hmem := h.scopes_mem_preorder n (by simp)
        obtain ⟨u, hu, hopened, rfl⟩ :=
          exists_opened? hroot (n := n) (h.head.imp (·.1) fun h => ⟨hmem, h.1⟩)
        refine ⟨u, hu, ?_⟩
        rw [around, around, hids, ancestors_eq hroot hu h, List.map_cons, List.filterMap_cons_some hopened]

/-- What is left of the scopes around a scope, further out than one of them, is what stands around
that one. -/
theorem around_eq_append {inner outer : List Scope} (hs : s ∈ (ofFile f).scopes)
    (h : (ofFile f).around s = inner ++ u :: outer) :
    u ∈ (ofFile f).scopes ∧ outer = (ofFile f).around u ∧ ∀ v ∈ inner, v.kind ≠ .module := by
  induction inner generalizing s with
  | nil =>
    rcases around_cases hroot hs with ⟨-, -, hnone⟩ | ⟨-, p, hp, haround⟩
    · rw [hnone] at h
      cases h
    · rw [haround] at h
      cases h
      exact ⟨hp, rfl, by simp⟩
  | cons v inner ih =>
    rcases around_cases hroot hs with ⟨-, -, hnone⟩ | ⟨-, p, hp, haround⟩
    · rw [hnone] at h
      cases h
    · rw [haround, List.cons_append, List.cons.injEq] at h
      obtain ⟨rfl, h⟩ := h
      obtain ⟨hu, houter, hinner⟩ := ih hp h
      refine ⟨hu, houter, List.forall_mem_cons.2 ⟨?_, hinner⟩⟩
      rcases around_cases hroot hp with ⟨-, -, hnone⟩ | ⟨hne, -⟩
      · rw [hnone] at h
        cases inner <;> cases h
      · exact hne

/-- In the chain of a node, what is left further out than a scope is what stands around it. -/
theorem chainOf?_eq_append {inner outer : Chain} {node : Nat}
    (h : (ofFile f).chainOf? node = some (inner ++ s :: outer)) : outer = (ofFile f).around s := by
  unfold chainOf? at h
  split at h
  · obtain ⟨u, hu, hchain⟩ := Option.map_eq_some_iff.1 h
    rw [chain_eq] at hchain
    cases inner with
    | nil =>
      obtain ⟨rfl, hrest⟩ := List.cons.inj hchain
      exact hrest.symm
    | cons v inner => exact (around_eq_append hroot (mem_scopes_of_opened? hu) (List.cons.inj hchain).2).2.1
  · cases h

theorem node_eq_root (hs : s ∈ (ofFile f).scopes) (hmodule : s.kind = .module) : s.node = f.tree.root := by
  rcases around_cases hroot hs with ⟨hnode, -⟩ | ⟨hne, -⟩
  · exact hnode
  · exact absurd hmodule hne

theorem module_unique (hs : s ∈ (ofFile f).scopes) (hu : u ∈ (ofFile f).scopes)
    (hsm : s.kind = .module) (hum : u.kind = .module) : s = u :=
  eq_of_node hroot hs hu ((node_eq_root hroot hs hsm).trans (node_eq_root hroot hu hum).symm)

/-- The outermost scope is that of the module. -/
theorem outermost_chain (hs : s ∈ (ofFile f).scopes) :
    ∃ m ∈ (ofFile f).scopes, m.kind = .module ∧ m ∈ s :: (ofFile f).around s ∧
      Chain.outermost ((ofFile f).chain s) = (ofFile f).chain m := by
  generalize hn : ((ofFile f).around s).length = n
  induction n generalizing s with
  | zero =>
    rcases around_cases hroot hs with ⟨-, hmodule, hnone⟩ | ⟨-, p, -, haround⟩
    · exact ⟨s, hs, hmodule, by simp, by simp [Chain.outermost, chain_eq, hnone]⟩
    · rw [haround] at hn
      cases hn
  | succ n ih =>
    rcases around_cases hroot hs with ⟨-, -, hnone⟩ | ⟨-, p, hp, haround⟩
    · rw [hnone] at hn
      cases hn
    · rw [haround, List.length_cons, Nat.add_right_cancel_iff] at hn
      obtain ⟨m, hm, hmodule, hmem, houtermost⟩ := ih hp hn
      refine ⟨m, hm, hmodule, by rw [haround]; exact List.mem_cons_of_mem _ hmem, ?_⟩
      rw [← houtermost, chain_eq, chain_eq, haround, Chain.outermost, Chain.outermost,
        List.getLast?_cons_cons]

/-! ## The rule and the search -/

variable {x : String} {r : Option Scope}

/-- A search comes to what the rule says. -/
theorem Resolves.lookup_eq (h : (ofFile f).Resolves x s r) (hs : s ∈ (ofFile f).scopes) :
    ((ofFile f).chain s).lookup x = r.map (ofFile f).chain := by
  induction h with
  | global hg hm hmodule =>
    obtain ⟨m', hm', hmodule', -, houtermost⟩ := outermost_chain hroot hs
    rw [chain_eq, Chain.lookup_of_global hg, ← chain_eq, houtermost, module_unique hroot hm hm' hmodule hmodule']
    rfl
  | «nonlocal» hg hn hfind _ ih =>
    obtain ⟨hoffers, inner, outer, haround, hinner⟩ := List.find?_eq_some_iff_append.1 hfind
    obtain ⟨hu, rfl, hmodule⟩ := around_eq_append hroot hs haround
    rw [chain_eq, Chain.lookup_of_nonlocal hg hn, haround,
      Chain.lookupBy_nonlocally (fun v hv => ⟨by simpa using hinner v hv, hmodule v hv⟩) hoffers]
    exact ih hu
  | lost hg hn hfind =>
    rw [chain_eq, Chain.lookup_of_nonlocal hg hn]
    exact Chain.lookupBy_nonlocally_eq_none fun v hv => by simpa using List.find?_eq_none.1 hfind v hv
  | here hg hn hb =>
    rw [chain_eq, Chain.lookup_of_binds hg hn hb]
    rfl
  | outward hg hn hb hfind _ ih =>
    obtain ⟨hclass, inner, outer, haround, hinner⟩ := List.find?_eq_some_iff_append.1 hfind
    obtain ⟨hu, rfl, -⟩ := around_eq_append hroot hs haround
    rw [chain_eq, Chain.lookup_of_not_binds hg hn hb, haround,
      Chain.lookupBy_outward (fun v hv => by simpa using hinner v hv) (by simpa using hclass)]
    exact ih hu
  | @unbound s hg hn hb hfind =>
    -- The module is no class, so only the module itself has no such scope around it.
    rcases around_cases hroot hs with ⟨-, -, hnone⟩ | ⟨-, p, hp, haround⟩
    · rw [chain_eq, Chain.lookup_of_not_binds hg hn hb, hnone]
      rfl
    · obtain ⟨m, hm, hmodule, hmem, -⟩ := outermost_chain hroot hp
      rw [← haround] at hmem
      have := List.find?_eq_none.1 hfind m hmem
      simp [hmodule] at this

/-- The rule leaves no scope and no name without an answer. -/
theorem exists_resolves (hs : s ∈ (ofFile f).scopes) (x : String) : ∃ r, (ofFile f).Resolves x s r := by
  generalize hlength : ((ofFile f).around s).length = n
  induction n using Nat.strong_induction_on generalizing s with
  | _ n ih =>
    -- Whatever scope the rule goes on at, fewer scopes stand around it.
    have next : ∀ {p : Scope → Bool} {u : Scope}, ((ofFile f).around s).find? p = some u →
        ∃ r, (ofFile f).Resolves x u r := by
      intro p u hfind
      obtain ⟨-, inner, outer, haround, -⟩ := List.find?_eq_some_iff_append.1 hfind
      obtain ⟨hu, rfl, -⟩ := around_eq_append hroot hs haround
      refine ih _ ?_ hu rfl
      rw [← hlength, haround, List.length_append, List.length_cons]
      omega
    by_cases hg : x ∈ s.globals
    · obtain ⟨m, hm, hmodule, -⟩ := outermost_chain hroot hs
      exact ⟨_, .global hg hm hmodule⟩
    by_cases hn : x ∈ s.nonlocals
    · cases hfind : ((ofFile f).around s).find? (·.offers x) with
      | none => exact ⟨_, .lost hg hn hfind⟩
      | some u =>
        obtain ⟨r, hr⟩ := next hfind
        exact ⟨r, .nonlocal hg hn hfind hr⟩
    cases hb : s.binds x with
    | true => exact ⟨_, .here hg hn hb⟩
    | false =>
      cases hfind : ((ofFile f).around s).find? (·.kind != .classBody) with
      | none => exact ⟨_, .unbound hg hn hb hfind⟩
      | some u =>
        obtain ⟨r, hr⟩ := next hfind
        exact ⟨r, .outward hg hn hb hfind hr⟩

/-- What the rule gives stands around or is the scope it starts from, and, but for the module, binds
the name and declares nothing about it. -/
theorem Resolves.answer {a : Scope} (h : (ofFile f).Resolves x s (some a)) (hs : s ∈ (ofFile f).scopes) :
    a ∈ s :: (ofFile f).around s ∧ (a.kind = .classBody → a = s) ∧
      (a.kind ≠ .module → a.binds x = true ∧ x ∉ a.globals ∧ x ∉ a.nonlocals) := by
  -- Where the rule goes on further out, it is at a scope that is no class.
  have further : ∀ {s u : Scope} {p : Scope → Bool}, s ∈ (ofFile f).scopes →
      ((ofFile f).around s).find? p = some u → u.kind ≠ .classBody →
      (u ∈ (ofFile f).scopes → a ∈ u :: (ofFile f).around u ∧ (a.kind = .classBody → a = u) ∧
        (a.kind ≠ .module → a.binds x = true ∧ x ∉ a.globals ∧ x ∉ a.nonlocals)) →
      a ∈ s :: (ofFile f).around s ∧ (a.kind = .classBody → a = s) ∧
        (a.kind ≠ .module → a.binds x = true ∧ x ∉ a.globals ∧ x ∉ a.nonlocals) := by
    intro s u p hs hfind hclass ih
    obtain ⟨-, inner, outer, haround, -⟩ := List.find?_eq_some_iff_append.1 hfind
    obtain ⟨hu, rfl, -⟩ := around_eq_append hroot hs haround
    obtain ⟨hmem, hself, hbinds⟩ := ih hu
    refine ⟨?_, fun hk => absurd (hself hk ▸ hk) hclass, hbinds⟩
    rw [haround]
    exact List.mem_cons_of_mem _ (List.mem_append_right _ hmem)
  generalize hr : some a = r at h
  induction h with
  | global _ hm hmodule =>
    cases hr
    obtain ⟨m', hm', hmodule', hmem, -⟩ := outermost_chain hroot hs
    obtain rfl := module_unique hroot hm hm' hmodule hmodule'
    exact ⟨hmem, by simp [hmodule], fun hne => absurd hmodule hne⟩
  | «nonlocal» _ _ hfind _ ih =>
    have hoffers := List.find?_some hfind
    simp only [Scope.offers, Bool.and_eq_true, bne_iff_ne] at hoffers
    exact further hs hfind hoffers.1.1 (fun hu => ih hu hr)
  | lost => cases hr
  | here hg hn hb =>
    cases hr
    exact ⟨by simp, fun _ => rfl, fun _ => ⟨hb, hg, hn⟩⟩
  | outward _ _ _ hfind _ ih =>
    exact further hs hfind (by simpa using List.find?_some hfind) fun hu => ih hu hr
  | unbound => cases hr

end File

/-- **A name belongs to the scope that the rule of the language says.** The rule gives exactly one
answer for every scope of a file. An answer is the scope itself or one around it, it is a class only
if it is the scope itself, and unless it is the module it binds the name and declares it neither
global nor nonlocal. The scopes around a scope are its parent and those around the parent, up to the
module. -/
theorem lookup_resolves {f : SourceFile} {t : ScopeTable} (ht : ofFile? f = some t) {s : Scope}
    (hs : s ∈ t.scopes) (x : String) :
    ((s.kind = .module ∧ t.around s = []) ∨
      (s.kind ≠ .module ∧ ∃ parent ∈ t.scopes, t.around s = parent :: t.around parent)) ∧
    ∃ r, (t.chain s).lookup x = r.map t.chain ∧ (∀ r', t.Resolves x s r' ↔ r' = r) ∧
      ∀ a, r = some a → a ∈ s :: t.around s ∧ (a.kind = .classBody → a = s) ∧
        (a.kind ≠ .module → a.binds x = true ∧ x ∉ a.globals ∧ x ∉ a.nonlocals) := by
  have hroot := f.tree.is_file
  obtain rfl : ofFile f = t := by
    unfold ofFile? at ht
    split at ht
    · cases ht
    · exact Option.some.inj ht
  refine ⟨(around_cases hroot hs).imp_left (·.2), ?_⟩
  obtain ⟨r, hr⟩ := exists_resolves hroot hs x
  have hlookup := hr.lookup_eq hroot hs
  refine ⟨r, hlookup, fun r' => ⟨fun hr' => ?_, fun he => he ▸ hr⟩, fun a ha => ?_⟩
  · -- A chain starts with its scope, so one search has one answer.
    have hchains : r'.map (ofFile f).chain = r.map (ofFile f).chain :=
      (hr'.lookup_eq hroot hs).symm.trans hlookup
    exact Option.map_injective (fun a b hab => (List.cons.inj hab).1) hchains
  · subst ha
    exact hr.answer hroot hs

theorem lookup_resolves_nested : ∃ f t,
    SourceFile.ofText "m.py"
      "def f():\n  x = 1\n  class C:\n    x = 2\n    def g(self):\n      nonlocal x\n      x = 3\n" []
        = .ok f ∧ ofFile? f = some t ∧
      t.scopes.map (fun s => ((t.chain s).lookup "x").map (·.map (·.kind))) =
        [none, some [.function, .module], some [.classBody, .function, .module],
          some [.function, .module]] ∧
      ∀ s ∈ t.scopes, ∃ r, (t.chain s).lookup "x" = r.map t.chain ∧ t.Resolves "x" s r := by
  have heval : (SourceFile.ofText "m.py"
      "def f():\n  x = 1\n  class C:\n    x = 2\n    def g(self):\n      nonlocal x\n      x = 3\n"
      []).toOption.map (fun f => (ofFile? f).map fun t =>
        t.scopes.map fun s => ((t.chain s).lookup "x").map (·.map (·.kind))) =
      some (some [none, some [.function, .module], some [.classBody, .function, .module],
        some [.function, .module]]) := by
    decide +kernel
  obtain ⟨f, h, ht⟩ := exists_ok_of_map_toOption heval
  obtain ⟨t, ht, hkinds⟩ := Option.map_eq_some_iff.1 ht
  refine ⟨f, t, h, ht, hkinds, fun s hs => ?_⟩
  obtain ⟨-, r, hlookup, hiff, -⟩ := lookup_resolves ht hs "x"
  exact ⟨r, hlookup, (hiff r).2 rfl⟩

end ScopeTable

end EffectGraph
