/-
What calls and names are resolved to stands in the project.

A text that declares a type is read as an expression of its own, and the nodes
of that expression go through the search like those of a file. They never come
out of it: a search ends at a construct of the project's trees
(`function_of_callee`), a name at the places that bind it (`holds_of_symbol?`),
and each of these has a scope of its file (`declares_of_holds`).
-/
import EffectGraph.Disk.Load
import EffectGraph.Proofs.Model.Files
import EffectGraph.Proofs.Scope.Exact

namespace EffectGraph

namespace Project

/-- A project that was read, from texts or from a disk. -/
def WasRead (P : Project) : Prop :=
  (∃ texts roots, ofTexts texts roots = .ok P) ∨ ∃ disk settings, load disk settings = .ok P

/-- A construct of the tree of a file, in a scope of that file. -/
def Declares (P : Project) (d : Definition) : Prop :=
  ∃ f ∈ P.files, P.file? d.file = some f ∧ d.node ∈ f.source.tree.nodes ∧
    ∃ home around, P.chainOf? d.file d.node.index = some (home :: around) ∧ home ∈ f.scopes.scopes

variable {P : Project} {file : Nat} {d : Definition}

theorem sources_of_ofResults {results : List (Except FileError SourceFile)}
    (h : ofResults results = .ok P) :
    P.Sound ∧ ∀ f ∈ P.files, f.scopes = .ofFile f.source ∧ f.source.isShallow = true ∧
      .ok f.source ∈ results := by
  unfold ofResults at h
  simp only at h
  split at h
  · cases h
  · cases h
    refine ⟨ofFiles_sound _ _, fun f hf => ?_⟩
    rw [files_eq_map_withScopes] at hf
    obtain ⟨source, hsource, rfl⟩ := List.mem_map.1 hf
    obtain ⟨hread, hshallow⟩ := mem_sources.1 hsource
    refine ⟨rfl, hshallow, ?_⟩
    obtain ⟨result, hresult, hok⟩ := List.mem_filterMap.1 hread
    cases result with
    | error e => cases hok
    | ok f =>
      cases hok
      exact hresult

/-- What a project was read from: texts, of which some could not be read. -/
theorem WasRead.results (h : P.WasRead) : ∃ results, ofResults results = .ok P ∧
    ∀ f, .ok f ∈ results → ∃ path text roots, SourceFile.ofText path text roots = .ok f := by
  rcases h with ⟨texts, roots, h⟩ | ⟨disk, settings, h⟩
  · refine ⟨_, h, fun f hf => ?_⟩
    obtain ⟨x, -, hf⟩ := List.mem_map.1 hf
    exact ⟨x.1, x.2, roots, hf⟩
  · refine ⟨_, h, fun f hf => ?_⟩
    obtain ⟨below, -, hf⟩ := List.mem_map.1 hf
    unfold readSource at hf
    simp only at hf
    split at hf
    · exact ⟨_, _, _, hf⟩
    · cases hf

theorem WasRead.parsed (h : P.WasRead) {i : Nat} {f : ScopedFile} (hf : P.file? i = some f) :
    ∃ text, Tree.parse text = .ok f.source.tree := by
  obtain ⟨results, hresults, hread⟩ := h.results
  obtain ⟨-, -, hmem⟩ := (sources_of_ofResults hresults).2 f (List.mem_of_getElem? hf)
  obtain ⟨path, text, roots, htext⟩ := hread _ hmem
  exact ⟨text, (SourceFile.ofText_eq_ok htext).2.1⟩

/-- The files of a project that was read have their own scopes, and trees that the grammar gives and
that are not too deep. -/
theorem WasRead.sources (h : P.WasRead) : P.Sound ∧ ∀ {i f}, P.file? i = some f →
    f.scopes = .ofFile f.source ∧ f.source.tree.root.Is .file ∧ f.source.isShallow = true := by
  obtain ⟨results, hresults, -⟩ := h.results
  obtain ⟨hP, hfiles⟩ := sources_of_ofResults hresults
  refine ⟨hP, fun {i f} hf => ?_⟩
  obtain ⟨hscopes, hshallow, -⟩ := hfiles f (List.mem_of_getElem? hf)
  exact ⟨hscopes, f.source.tree.is_file, hshallow⟩

/-- Every construct but a whole signature has a scope of its file. -/
theorem declares_of_holds (h : P.WasRead) (hd : P.Holds d) (hk : d.node.kind ≠ .arguments) :
    P.Declares d := by
  obtain ⟨f, hf, hmem⟩ := hd
  obtain ⟨hscopes, hroot, -⟩ := h.sources.2 hf
  obtain ⟨scopes, hbelongs⟩ := Node.exists_belongsTo hroot _ hmem
  obtain ⟨chain, hchain, rfl⟩ := ScopeTable.chainOf?_eq hroot hk hbelongs
  have hhome : P.chainOf? d.file d.node.index = some chain := by
    simp only [chainOf?, hf, hscopes, hchain]
  cases chain with
  | nil => cases hbelongs.root_mem
  | cons home around =>
    obtain ⟨g, hg, hfits⟩ := fits_of_chainOf? hhome
    obtain rfl : f = g := Option.some.inj (hf.symm.trans hg)
    exact ⟨f, List.mem_of_getElem? hf, hf, hmem, home, around, hhome, hfits home (by simp)⟩

/-! ## Calls -/

theorem function_of_classMember (hP : P.Sound) {c : Definition} (hc : P.Holds c) {name : String}
    (h : (P.resolver maxSteps).classMember c name = .ok (some (.function d))) :
    P.Holds d ∧ d.node.kind.isFunction = true := by
  obtain ⟨w, -, hw⟩ := (((Embedding.refl hP).resolver_agrees maxSteps).classMember hc name).of_ok h
  cases hw with
  | some hv =>
    cases hv with
    | function hd hk => exact ⟨hd, hk⟩

/-- A call runs a function of the project's trees. -/
theorem function_of_callee (hP : P.Sound) {call : Node} (hcall : P.Holds ⟨file, call⟩)
    (h : P.callee file call = .ok (some d)) : P.Holds d ∧ d.node.kind.isFunction = true := by
  unfold callee calleeBy at h
  split at h
  · next func hfunc =>
    obtain ⟨v, hv, h⟩ := Analysis.bind_eq_ok.1 h
    obtain ⟨w, -, hvw⟩ :=
      ((Embedding.refl hP).value_rel ((P.closed_holds file).part? hcall hfunc)).of_ok hv
    unfold calledFunctionBy at h
    cases hvw with
    | none => cases h
    | some hsame =>
      cases hsame with
      | function hd hk =>
        cases h
        exact ⟨hd, hk⟩
      -- A class runs its constructor, an instance the method that stands for a call of it.
      | classObject hc | instanceOf hc =>
        obtain ⟨u, hu, h⟩ := Analysis.bind_eq_ok.1 h
        split at h
        · cases h
          exact function_of_classMember hP hc hu
        · cases h
      | module | external | awaitable => cases h
  · cases h

/-! ## Names -/

theorem kind_ne_arguments_of_binds {root s m : Node} {x : String} (hroot : root.Is .file)
    (h : root.Binds s x m) : m.kind ≠ .arguments := by
  intro hm
  cases h with
  | around _ h => cases h <;> simp_all
  | parameter hs _ ha =>
    obtain ⟨_, -, -, hk⟩ := Node.exists_signature (hroot.of_mem_preorder _ hs) ha
    rw [hm] at hk
    cases hk
  | named _ _ _ hk => simp_all

/-- A name is declared by constructs of its file, none of which is a whole signature. -/
theorem holds_of_symbol? (h : P.WasRead) {node : Nat} {name : String} {symbol : Symbol}
    (hs : P.symbol? file node name = some symbol) (hd : d ∈ symbol.declarations) :
    d.file = file ∧ P.Holds d ∧ d.node.kind ≠ .arguments := by
  unfold symbol? at hs
  split at hs
  · cases hs
  · next owner howner =>
    cases hs
    obtain ⟨chain, hchain, howner⟩ := Option.bind_eq_some_iff.1 howner
    obtain ⟨start, hstart, hlookup⟩ := Option.bind_eq_some_iff.1 hchain
    obtain ⟨f, hf, hscopes⟩ := (fits_of_chainOf? hstart).lookup hlookup
    have hmem := hscopes owner (List.mem_of_mem_head? howner)
    obtain ⟨hP, hfiles⟩ := h.sources
    obtain ⟨htable, hroot, -⟩ := hfiles hf
    have hwithin := hP.within hf owner hmem
    obtain ⟨n, hn, rfl⟩ := List.mem_map.1 hd
    split at hn
    · obtain rfl := List.mem_singleton.1 hn
      refine ⟨rfl, ⟨f, hf, hwithin.node⟩, fun hk => ?_⟩
      rcases ScopeTable.mem_scopes_cases hroot (htable ▸ hmem) with ⟨he, -⟩ | ⟨w, -, hw, he, -⟩
      · rw [he, Kind.eq_module hroot.category] at hk
        cases hk
      · rw [← he, hk] at hw
        cases hw
    · refine ⟨rfl, ⟨f, hf, ?_⟩, ?_⟩
      · obtain ⟨b, hb, rfl⟩ := List.mem_map.1 hn
        exact (hwithin.bindings b (List.mem_filter.1 hb).1).node
      · exact kind_ne_arguments_of_binds hroot ((ScopeTable.mem_bindingsOf hroot (htable ▸ hmem)).1 hn)

/-- Nothing is made up: the function that a call runs and the declarations of a name are constructs
of the project's trees, each in a scope of its own file. -/
theorem declares_resolved (h : P.WasRead) :
    (∀ {file call d}, P.Holds ⟨file, call⟩ → P.callee file call = .ok (some d) →
      P.Declares d ∧ d.node.kind.isFunction = true) ∧
    ∀ {file node name symbol}, P.symbol? file node name = some symbol →
      ∀ d ∈ symbol.declarations, d.file = file ∧ P.Declares d := by
  refine ⟨fun {file call d} hcall hd => ?_, fun {file node name symbol} hs d hd => ?_⟩
  · obtain ⟨hholds, hk⟩ := function_of_callee h.sources.1 hcall hd
    refine ⟨declares_of_holds h hholds fun he => ?_, hk⟩
    rw [he] at hk
    cases hk
  · obtain ⟨hfile, hholds, hk⟩ := holds_of_symbol? h hs hd
    exact ⟨hfile, declares_of_holds h hholds hk⟩

/-- A method that is found through a type declared by a text, and a lambda expression in such a text,
which stands in no file and is not found. -/
def declaredByText : List (String × String) :=
  [("m.py", "class A:\n    def go(self):\n        pass\n\ndef run(a: \"A\", b: \"lambda: 0\"):\n" ++
    "    a.go()\n    b()\n")]

theorem declares_resolved_declaredByText :
    ∃ P, ofTexts declaredByText [] = .ok P ∧ P.WasRead ∧
      (∃ call d, P.Holds ⟨0, call⟩ ∧ P.callee 0 call = .ok (some d) ∧ d.node.index = 2 ∧
        P.Declares d ∧ d.node.kind.isFunction = true) ∧
      (∃ call, P.Holds ⟨0, call⟩ ∧ call.index = 17 ∧ P.callee 0 call = .ok none) ∧
      ∃ symbol, P.symbol? 0 15 "a" = some symbol ∧ symbol.declarations.map (·.node.index) = [8] ∧
        ∀ d ∈ symbol.declarations, d.file = 0 ∧ P.Declares d := by
  have heval : (ofTexts declaredByText []).toOption.map (fun P =>
      (((P.file? 0).bind fun f => (f.source.tree.nodes.find? (·.index == 13)).bind fun call =>
        (P.callee 0 call).toOption.map (·.map (·.node.index)),
       (P.file? 0).bind fun f => (f.source.tree.nodes.find? (·.index == 17)).bind fun call =>
        (P.callee 0 call).toOption.map (·.map (·.node.index))),
      (P.symbol? 0 15 "a").map (·.declarations.map (·.node.index)))) =
        some ((some (some 2), some none), some [8]) := by
    decide +kernel
  obtain ⟨P, h, heval⟩ := exists_ok_of_map_toOption heval
  obtain ⟨hcalls, hsymbol⟩ := Prod.mk.inj heval
  obtain ⟨hmethod, hlambda⟩ := Prod.mk.inj hcalls
  have hread : P.WasRead := .inl ⟨_, _, h⟩
  obtain ⟨hresolved, hnames⟩ := declares_resolved hread
  refine ⟨P, h, hread, ?_, ?_, ?_⟩
  · obtain ⟨f, hf, hmethod⟩ := Option.bind_eq_some_iff.1 hmethod
    obtain ⟨call, hmem, hmethod⟩ := Option.bind_eq_some_iff.1 hmethod
    obtain ⟨callee, hcallee, hfound⟩ := exists_ok_of_map_toOption hmethod
    obtain ⟨d, rfl, hindex⟩ := Option.map_eq_some_iff.1 hfound
    have hholds : P.Holds ⟨0, call⟩ := ⟨f, hf, List.mem_of_find?_eq_some hmem⟩
    exact ⟨call, d, hholds, hcallee, hindex, hresolved hholds hcallee⟩
  · obtain ⟨f, hf, hlambda⟩ := Option.bind_eq_some_iff.1 hlambda
    obtain ⟨call, hmem, hlambda⟩ := Option.bind_eq_some_iff.1 hlambda
    obtain ⟨callee, hcallee, hfound⟩ := exists_ok_of_map_toOption hlambda
    obtain rfl := Option.map_eq_none_iff.1 hfound
    exact ⟨call, ⟨f, hf, List.mem_of_find?_eq_some hmem⟩, by simpa using List.find?_some hmem, hcallee⟩
  · obtain ⟨symbol, hsymbol, hindices⟩ := Option.map_eq_some_iff.1 hsymbol
    exact ⟨symbol, hsymbol, hindices, hnames hsymbol⟩

end Project

end EffectGraph
