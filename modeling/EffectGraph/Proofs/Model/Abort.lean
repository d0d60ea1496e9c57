/-
A search breaks off only where a declared type cannot be read.

Every step of a search either looks something up in the project, which always
ends, or reads a declared type. So by induction on the number of steps a
resolver breaks off for a reason that one of the project's declared types gives
(`resolver_careful`), and so does every question about a node. That a search
stays in the project's trees, as it does for a project inside itself, is what
makes these types the project's own.
-/
import EffectGraph.Proofs.Model.Declaration
import EffectGraph.Proofs.Model.Hint

namespace EffectGraph

namespace Project

/-- What a file declares a parameter, a variable or a result to be. -/
def DeclaresType (P : Project) (file : Nat) (h : Node) : Prop :=
  P.Holds ⟨file, h⟩ ∧ (h.role = .hint ∨ h.role = .returns)

/-- A reason for which reading one of the project's declared types breaks off. -/
def Blames (P : Project) (e : Abort) : Prop := ∃ file h, P.DeclaresType file h ∧ Hint.Breaks e h

variable {P : Project}

theorem WasRead.declaresType (hP : P.WasRead) {file : Nat} {b : Binding} (hb : P.Binds file b)
    {h : Node} (hh : b.hint = some h) : P.DeclaresType file h := by
  have hwithin := (hP.sources.1.binding hb).hint h hh
  obtain ⟨f, hf, s, hs, hmem⟩ := hb
  obtain ⟨hscopes, hroot, -⟩ := hP.sources.2 hf
  exact ⟨hwithin, .inl (ScopeTable.role_of_hint hroot (hscopes ▸ hs) hmem hh)⟩

theorem DeclaresType.blames {file : Nat} {h : Node} (hh : P.DeclaresType file h) {α : Type}
    {x : Analysis α} (hx : x.AbortsBy (Hint.Breaks · h)) : x.AbortsBy P.Blames :=
  fun e he => ⟨file, h, hh, hx e he⟩

/-- The scopes of a file were built, so below each of its nodes the calls sufficed. Names are bound
where the walk then is only if the node's role says so. -/
theorem exists_calls_le {m : Node} : ∀ (n : Node) (s : Manner), m ∈ n.preorder →
    ∃ s', m.calls Node.scopeDescent s' ≤ n.calls Node.scopeDescent s ∧
      (m = n ∧ s' = s ∨ ∃ p s₀, s' = Node.mannerOf p default s₀ false m.role) := by
  refine Node.induction fun n ih s hm => ?_
  rw [Node.preorder_eq, List.mem_cons, List.mem_flatMap] at hm
  rcases hm with rfl | ⟨c, hc, hm⟩
  · exact ⟨s, Nat.le_refl _, .inl ⟨rfl, rfl⟩⟩
  · have hchild := Node.calls_child_le (d := Node.scopeDescent) (s := s) hc rfl
    obtain ⟨s', hle, hs'⟩ := ih c hc (n.mannerOf default s false c.role) hm
    refine ⟨s', by omega, .inr ?_⟩
    rcases hs' with ⟨rfl, rfl⟩ | hs'
    · exact ⟨n, s, rfl⟩
    · exact hs'

theorem mannerOf_hint {n : Node} {p : Place} {m : Manner} {r : Role} (hr : r = .hint ∨ r = .returns) :
    n.mannerOf p m false r = .plain := by
  unfold Node.mannerOf
  rcases hr with rfl | rfl <;> split <;> simp_all

/-- The scopes of a file were built, so only a text in a declared type can break reading off. -/
theorem WasRead.exists_isText (hP : P.WasRead) {file : Nat} {h : Node} (hh : P.DeclaresType file h)
    {e : Abort} (he : Hint.Breaks e h) : ∃ m ∈ h.preorder, Hint.isText m = true := by
  obtain ⟨⟨f, hf, hmem⟩, hrole⟩ := hh
  have hshallow : f.source.tree.root.calls Node.scopeDescent .plain ≤ maxCalls :=
    of_decide_eq_true (hP.sources.2 hf).2.2
  obtain ⟨s', hle, hs'⟩ := exists_calls_le _ .plain hmem
  have hplain : s' = .plain := by
    rcases hs' with ⟨-, rfl⟩ | ⟨p, s₀, rfl⟩
    · rfl
    · exact mannerOf_hint hrole
  exact he.exists_isText (hplain ▸ Nat.le_trans hle hshallow)

/-- A resolver that breaks off only where a declared type cannot be read. -/
structure Careful (hP : P.Sound) (r : Resolver) : Prop where
  expression : ∀ {e site}, P.Fits site → e.Within (fun n => P.Holds ⟨site.file, n⟩) →
    (r.expression e site).AbortsBy P.Blames
  typeName : ∀ {e site}, P.Fits site → e.Within (P.Reaches site.file) →
    (r.expression e site).AbortsBy P.Blames
  name : ∀ {site}, P.Fits site → ∀ id, (r.name id site).AbortsBy P.Blames
  binding : ∀ {b site}, P.Fits site → P.Binds site.file b → (r.binding b site).AbortsBy P.Blames
  hint : ∀ {h file}, P.DeclaresType file h → (r.hint h file).AbortsBy P.Blames
  dotted : ∀ name, (r.dotted name).AbortsBy P.Blames
  member : ∀ {v w}, (Embedding.refl hP).Loose v w → ∀ name, (r.member v name).AbortsBy P.Blames
  classMember : ∀ {c}, P.Holds c → ∀ name, (r.classMember c name).AbortsBy P.Blames
  stored : ∀ {c}, P.Holds c → ∀ name, (r.stored c name).AbortsBy P.Blames
  result : ∀ {v w}, (Embedding.refl hP).Loose v w → (r.result v).AbortsBy P.Blames
  bases : ∀ {c}, P.Holds c → (r.bases c).AbortsBy P.Blames

section Step

open Analysis (AbortsBy)

variable {hP : P.Sound} {r : Resolver} (hr : Careful hP r) (ha : (Embedding.refl hP).Agrees r r)

include hr ha

theorem step_expression_aborts {e : Reference} {site : Site} (hs : P.Fits site)
    (he : e.Within fun n => P.Holds ⟨site.file, n⟩) :
    (Step.expression r e site).AbortsBy P.Blames := by
  unfold Step.expression
  cases e with
  | name id => exact hr.name hs id
  | member base name =>
    exact (ha.expression (e := base) hs he).aborts (hr.expression hs he) (.ok _)
      fun hv => hr.member (.same hv) name
  | call callee =>
    exact (ha.expression (e := callee) hs he).aborts (hr.expression hs he) (.ok _)
      fun hv => hr.result (.same hv)
  | lambda | other => exact .ok _

theorem step_typeName_aborts {e : Reference} {site : Site} (hs : P.Fits site)
    (he : e.Within (P.Reaches site.file)) : (Step.expression r e site).AbortsBy P.Blames := by
  unfold Step.expression
  cases e with
  | name id => exact hr.name hs id
  | member base name =>
    exact (ha.typeName (e := base) hs he).aborts (hr.typeName hs he) (.ok _) fun hv => hr.member hv name
  | call callee =>
    exact (ha.typeName (e := callee) hs he).aborts (hr.typeName hs he) (.ok _) fun hv => hr.result hv
  | lambda | other => exact .ok _

omit ha in
theorem step_name_aborts {site : Site} (hs : P.Fits site) (id : String) :
    (Step.name r id site).AbortsBy P.Blames := by
  unfold Step.name
  split
  · exact .ok _
  · next owner ho =>
    split
    · next b hb => exact hr.binding (hs.lookup ho) ((hs.lookup ho).binds hb)
    · exact .ok _

omit ha in
theorem declared_aborts (hread : P.WasRead) {b : Binding} {site : Site} (hb : P.Binds site.file b) :
    (Step.declared r b site).AbortsBy P.Blames := by
  unfold Step.declared
  split
  · next h hh => exact hr.hint (hread.declaresType hb hh)
  · exact .ok _

omit ha in
theorem step_binding_aborts (hread : P.WasRead) {b : Binding} {site : Site} (hs : P.Fits site)
    (hb : P.Binds site.file b) : (Step.binding P r b site).AbortsBy P.Blames := by
  unfold Step.binding
  split
  · exact .ok _
  · exact .ok _
  · split
    · split
      · exact .ok _
      · exact hr.dotted _
    · exact .ok _
  · split
    · exact .ok _
    · exact declared_aborts hr hread hb
  · split
    · next v hv =>
      have hvalue := Reference.ofNode_within (P.closed_holds site.file) v ((hP.binding hb).value v hv)
      cases hc : P.chainOf? site.file v.index with
      | none => exact hr.expression hs hvalue
      | some chain => exact hr.expression (fits_of_chainOf? hc) hvalue
    · exact declared_aborts hr hread hb
  · exact .ok _

theorem step_hint_aborts {h : Node} {file : Nat} (hh : P.DeclaresType file h) :
    (Step.hint P r h file).AbortsBy P.Blames := by
  unfold Step.hint
  refine (hh.blames (Hint.className_aborts _ h)).bind fun e? hname => ?_
  split
  · next e chain hc =>
    have he := Hint.classNameBy_within (P.closed_reaches file) hh.1.reaches_number (.inl hh.1) hname
    refine (ha.typeName (fits_of_chainOf? hc) he).aborts (hr.typeName (fits_of_chainOf? hc) he)
      (.ok _) fun hv => ?_
    split <;> exact .ok _
  · exact .ok _

theorem followMembers_aborts : ∀ (names : List String) {v w : Value},
    (Embedding.refl hP).SameValue v w → (followMembers r.member names v).AbortsBy P.Blames
  | [], _, _, _ => .ok _
  | name :: names, v, w, hv => by
    unfold followMembers
    exact (ha.member (.same hv) name).aborts (hr.member (.same hv) name) (.ok _)
      fun hu => followMembers_aborts names hu

theorem step_dotted_aborts (name : String) : (Step.dotted P r name).AbortsBy P.Blames := by
  unfold Step.dotted
  simp only
  split
  · exact followMembers_aborts hr ha _ (.module trivial)
  · exact .ok _

omit ha in
theorem step_moduleMember_aborts (m name : String) :
    (Step.moduleMember P r m name).AbortsBy P.Blames := by
  unfold Step.moduleMember
  simp only
  split
  · next b site hbound =>
    obtain ⟨i, -, hbound⟩ := Option.bind_eq_some_iff.1 hbound
    obtain ⟨chain, hchain, hbound⟩ := Option.bind_eq_some_iff.1 hbound
    obtain ⟨b', hb, hbound⟩ := Option.bind_eq_some_iff.1 hbound
    cases hbound
    have hfits := fits_of_openedChain? hchain
    exact hr.binding hfits (hfits.binds hb)
  · exact .ok _

theorem step_member_aborts {v w : Value} (hv : (Embedding.refl hP).Loose v w) (name : String) :
    (Step.member P r v name).AbortsBy P.Blames := by
  unfold Step.member
  obtain hv | _ := hv
  case foreign => exact .ok _
  cases hv with
  | module => exact step_moduleMember_aborts hr _ name
  | function | awaitable | external => exact .ok _
  | classObject h => exact hr.classMember h name
  | instanceOf h =>
    exact (ha.classMember h name).aborts (hr.classMember h name) (hr.stored h name) fun _ => .ok _

/-! ### Classes -/

theorem searchClasses_aborts {α : Type} {find : Definition → Analysis (Option α)}
    (hfind : ∀ {c}, P.Holds c → (find c).AbortsBy P.Blames) :
    ∀ (n : Nat) {stack seen : List Definition}, (∀ c ∈ stack, P.Holds c) →
      (searchClasses r.bases find n stack seen).AbortsBy P.Blames
  | 0, _, _, _ => .ok _
  | _ + 1, [], _, _ => .ok _
  | n + 1, c :: stack, seen, hstack => by
    obtain ⟨hc, hstack⟩ := List.forall_mem_cons.1 hstack
    rw [searchClasses]
    split
    · exact searchClasses_aborts hfind n hstack
    · refine (hfind hc).bind fun found _ => ?_
      split
      · exact .ok _
      · refine (hr.bases hc).bind fun bs hbs => ?_
        exact searchClasses_aborts hfind n
          (List.forall_mem_append.2 ⟨(ha.holds_of_bases hc hbs).2, hstack⟩)

theorem step_classMember_aborts {c : Definition} (hc : P.Holds c) (name : String) :
    (Step.classMember P r c name).AbortsBy P.Blames := by
  unfold Step.classMember
  refine (searchClasses_aborts hr ha (fun {k} _ => ?_) _ (by simpa using hc)).bind fun _ _ => .ok _
  simp only
  split
  · next b site hbound =>
    obtain ⟨chain, hchain, hbound⟩ := Option.bind_eq_some_iff.1 hbound
    obtain ⟨b', hb, hbound⟩ := Option.bind_eq_some_iff.1 hbound
    cases hbound
    have hfits := fits_of_openedChain? hchain
    exact (hr.binding hfits (hfits.binds hb)).bind fun _ _ => .ok _
  · exact .ok _

omit hr ha in
theorem firstKnown_aborts {α : Type} {ask : α → Answer} {F : Abort → Prop} :
    ∀ {as : List α}, (∀ a ∈ as, (ask a).AbortsBy F) → (firstKnown ask as).AbortsBy F
  | [], _ => .ok _
  | a :: as, h => by
    unfold firstKnown
    refine (h a (by simp)).bind fun v _ => ?_
    cases v with
    | none => exact firstKnown_aborts fun b hb => h b (by simp [hb])
    | some v => exact .ok _

theorem step_stored_aborts {c : Definition} (hc : P.Holds c) (name : String) :
    (Step.stored P r c name).AbortsBy P.Blames := by
  unfold Step.stored
  refine searchClasses_aborts hr ha (fun {k} _ => ?_) _ (by simpa using hc)
  refine firstKnown_aborts fun a hmem => ?_
  split
  · next chain hm =>
    refine hr.expression (fits_of_openedChain? hm)
      (Reference.ofNode_within (P.closed_holds k.file) a.value ?_)
    exact hP.stored (List.mem_filter.1 hmem).1
  · exact .ok _

omit ha in
theorem step_result_function_aborts {d : Definition} (h : P.Holds d) :
    (Step.result P r (.function d)).AbortsBy P.Blames := by
  simp only [Step.result]
  split
  · split
    · next body chain hbody hchain =>
      refine hr.expression (fits_of_openedChain? hchain)
        (Reference.ofNode_within (P.closed_holds d.file) body ?_)
      exact (P.closed_holds d.file).part? h hbody
    · exact .ok _
  · split
    · exact .ok _
    · split
      · next hint hreturns =>
        have hdeclared : P.DeclaresType d.file hint :=
          ⟨(P.closed_holds d.file).part? h hreturns, .inr (Node.role_of_part? hreturns)⟩
        refine (hdeclared.blames (Hint.isAwaitable_aborts hint)).bind fun b _ => ?_
        split
        · exact .ok _
        · exact hr.hint hdeclared
      · exact .ok _

theorem step_result_aborts {v w : Value} (hv : (Embedding.refl hP).Loose v w) :
    (Step.result P r v).AbortsBy P.Blames := by
  obtain hv | ⟨hforeign, hk⟩ := hv
  case foreign =>
    rw [result_of_openedChain? hk (hforeign.openedChain? hP)]
    exact .ok _
  cases hv with
  | module | awaitable | classObject => exact .ok _
  | instanceOf h =>
    exact (ha.classMember h "__call__").aborts (hr.classMember h _) (.ok _) fun hv => hr.result (.same hv)
  | external e =>
    simp only [Step.result]
    split <;> exact .ok _
  | function h _ => exact step_result_function_aborts hr h

omit ha in
theorem step_bases_aborts {c : Definition} (hc : P.Holds c) :
    (Step.bases P r c).AbortsBy P.Blames := by
  unfold Step.bases
  split
  · next chain hchain =>
    refine (AbortsBy.mapM fun b hb => ?_).bind fun _ _ => .ok _
    exact hr.expression (fits_of_chainOf? hchain)
      (Reference.ofNode_within (P.closed_holds c.file) b ((P.closed_holds c.file).parts hc hb))
  · exact .ok _

/-! ### Any number of steps -/

theorem step_careful (hread : P.WasRead) : Careful hP (step P r) where
  expression := step_expression_aborts hr ha
  typeName := step_typeName_aborts hr ha
  name := step_name_aborts hr
  binding := step_binding_aborts hr hread
  hint := step_hint_aborts hr ha
  dotted := step_dotted_aborts hr ha
  member := step_member_aborts hr ha
  classMember := step_classMember_aborts hr ha
  stored := step_stored_aborts hr ha
  result := step_result_aborts hr ha
  bases := step_bases_aborts hr

end Step

theorem ignorant_careful (hP : P.Sound) : Careful hP ignorant where
  expression _ _ := .ok _
  typeName _ _ := .ok _
  name _ _ := .ok _
  binding _ _ := .ok _
  hint _ := .ok _
  dotted _ := .ok _
  member _ _ := .ok _
  classMember _ _ := .ok _
  stored _ _ := .ok _
  result _ := .ok _
  bases _ := .ok _

/-- A search breaks off only where a declared type cannot be read. -/
theorem resolver_careful (hread : P.WasRead) : ∀ n, Careful hread.sources.1 (P.resolver n)
  | 0 =>
    have h := step_careful (ignorant_careful hread.sources.1)
      (Embedding.ignorant_agrees _) hread
    { h with
      expression := (ignorant_careful hread.sources.1).expression
      typeName := (ignorant_careful hread.sources.1).typeName
      binding := (ignorant_careful hread.sources.1).binding
      member := (ignorant_careful hread.sources.1).member
      bases := (ignorant_careful hread.sources.1).bases }
  | n + 1 => step_careful (resolver_careful hread n) (Embedding.resolver_agrees _ n) hread

/-! ## Questions about a node -/

section Questions

variable (hread : P.WasRead) {file : Nat} {n : Node} (hn : P.Holds ⟨file, n⟩)

include hread hn

theorem value_aborts : (P.value file n).AbortsBy P.Blames := by
  unfold value valueBy
  split
  · next chain hc =>
    exact (resolver_careful hread maxSteps).expression (fits_of_chainOf? hc)
      (Reference.ofNode_within (P.closed_holds file) n hn)
  · exact .ok _

theorem callee_aborts : (P.callee file n).AbortsBy P.Blames := by
  unfold callee calleeBy
  split
  · next func hfunc =>
    have hholds := (P.closed_holds file).part? hn hfunc
    refine ((Embedding.refl hread.sources.1).value_rel hholds).aborts (value_aborts hread hholds) (.ok _)
      fun hv => ?_
    cases hv with
    | classObject hc | instanceOf hc =>
      refine ((resolver_careful hread maxSteps).classMember hc _).bind fun v _ => ?_
      split <;> exact .ok _
    | function | module | external | awaitable => exact .ok _
  · exact .ok _

theorem qualifiedName_aborts : (P.qualifiedName file n).AbortsBy P.Blames :=
  (value_aborts hread hn).bind fun _ _ => .ok _

theorem isAwaitable_aborts : (P.isAwaitable file n).AbortsBy P.Blames := by
  refine ((Embedding.refl hread.sources.1).value_rel hn).aborts (value_aborts hread hn) (.ok _)
    fun hv => ?_
  cases hv with
  | instanceOf hc =>
    exact ((resolver_careful hread maxSteps).classMember hc "__await__").bind fun _ _ => .ok _
  | module | function | classObject | external | awaitable => exact .ok _

theorem isAsyncCallable_aborts : (P.isAsyncCallable file n).AbortsBy P.Blames := by
  refine ((Embedding.refl hread.sources.1).value_rel hn).aborts (value_aborts hread hn) (.ok _)
    fun hv => ?_
  cases hv with
  | function hd _ =>
    simp only
    split
    · next hbody => exact isAwaitable_aborts hread ((P.closed_holds _).part? hd hbody)
    · exact .ok _
  | module | classObject | instanceOf | external | awaitable => exact .ok _

end Questions

end Project

end EffectGraph
