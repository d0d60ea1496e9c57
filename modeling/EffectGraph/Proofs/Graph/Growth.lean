/-
How a graph grows: its ids and the callees of each id are what was added so
far, each once, in the order in which it first came. The callees of an id
change only with calls of that id.
-/
import EffectGraph.Proofs.Graph.Reachability
import Mathlib.Algebra.GroupWithZero.Nat
import Mathlib.Data.List.Induction

namespace EffectGraph

theorem Adjacency.length_pairs (t : Adjacency) : t.pairs.length = (t.rows.map (·.2.length)).sum := by
  simp [pairs, List.length_flatMap]

namespace CallGraph

theorem eraseDups_concat {α : Type} [BEq α] [LawfulBEq α] (xs : List α) (x : α) :
    (xs ++ [x]).eraseDups = if x ∈ xs then xs.eraseDups else xs.eraseDups ++ [x] := by
  rw [List.eraseDups_append, List.removeAll, List.filter_singleton]
  by_cases h : x ∈ xs <;> simp [h, List.eraseDups_cons]

theorem nodup_eraseDups {α : Type} [BEq α] [LawfulBEq α] (xs : List α) : xs.eraseDups.Nodup := by
  induction xs using List.reverseRecOn with
  | nil => simp
  | append_singleton xs x ih =>
    rw [eraseDups_concat]
    split
    · exact ih
    · next hx =>
      refine List.nodup_append.2 ⟨ih, by simp, ?_⟩
      rintro a ha b hb rfl
      rw [List.mem_singleton.1 hb] at ha
      exact hx (List.mem_eraseDups.1 ha)

theorem eraseDups_of_nodup {α : Type} [BEq α] [LawfulBEq α] {xs : List α} (h : xs.Nodup) :
    xs.eraseDups = xs := by
  induction xs using List.reverseRecOn with
  | nil => rfl
  | append_singleton xs x ih =>
    rw [List.nodup_append] at h
    have hx : x ∉ xs := fun hmem => h.2.2 x hmem x (List.mem_singleton_self x) rfl
    rw [eraseDups_concat, if_neg hx, ih h.1]

theorem eraseDups_filter {α : Type} [BEq α] [LawfulBEq α] (p : α → Bool) (xs : List α) :
    (xs.filter p).eraseDups = xs.eraseDups.filter p := by
  induction xs using List.reverseRecOn with
  | nil => rfl
  | append_singleton xs x ih =>
    rw [eraseDups_concat, List.filter_append]
    by_cases hp : p x = true <;> by_cases hx : x ∈ xs
    all_goals simp [hp, hx, ih, eraseDups_concat]

theorem mention_eraseDups (xs : List String) (x : String) :
    mention xs.eraseDups x = (xs ++ [x]).eraseDups := by
  rw [eraseDups_concat, mention]
  simp only [List.mem_eraseDups]

/-! ## Ids -/

@[simp] theorem ids_addFunction (g : CallGraph) (id : String) :
    (g.addFunction id).ids = mention g.ids id :=
  g.forward.keys_withKey id

@[simp] theorem callees_addFunction (g : CallGraph) (id u : String) :
    (g.addFunction id).callees u = g.callees u :=
  g.forward.row_withKey id u

@[simp] theorem callers_addFunction (g : CallGraph) (id u : String) :
    (g.addFunction id).callers u = g.callers u :=
  g.backward.row_withKey id u

theorem addFunction_of_mem {g : CallGraph} {id : String} (h : id ∈ g.ids) : g.addFunction id = g := by
  apply CallGraph.ext
  · exact Adjacency.withKey_of_mem h
  · exact Adjacency.withKey_of_mem (g.keys_eq ▸ h)
  · rfl

/-- An edge between two functions that is not there comes at the end of the two rows that it
concerns. One that is there changes nothing but the functions. -/
theorem addEdge_cases (g : CallGraph) (a b : String) :
    (b ∈ g.callees a ∧ g.addEdge a b = (false, (g.addFunction a).addFunction b)) ∨
    (b ∉ g.callees a ∧ ∃ ha hb hnew,
      g.addEdge a b = (true, ((g.addFunction a).addFunction b).connect a b ha hb hnew)) := by
  have hrow : ((g.addFunction a).addFunction b).callees a = g.callees a := by simp
  unfold addEdge
  by_cases h : b ∈ ((g.addFunction a).addFunction b).callees a
  · exact .inl ⟨hrow ▸ h, dif_pos h⟩
  · exact .inr ⟨hrow ▸ h, _, _, h, dif_neg h⟩

theorem fst_addEdge (g : CallGraph) (a b : String) : (g.addEdge a b).1 = !g.hasEdge a b := by
  rcases addEdge_cases g a b with ⟨h, he⟩ | ⟨h, _, _, _, he⟩ <;> simp [he, hasEdge, h]

theorem ids_withEdge (g : CallGraph) (a b : String) :
    (g.withEdge a b).ids = mention (mention g.ids a) b := by
  rw [withEdge, ← ids_addFunction, ← ids_addFunction]
  rcases addEdge_cases g a b with ⟨-, he⟩ | ⟨-, _, _, _, he⟩
  · rw [he]
  · rw [he]
    exact Adjacency.keys_insert _ a b

/-- A graph whose ids are known does not get new ones from calls between them. -/
theorem ids_addCalls {g : CallGraph} {caller : String} (hc : caller ∈ g.ids) {callees : List String}
    (h : ∀ x ∈ callees, x ∈ g.ids) : (g.addCalls caller callees).ids = g.ids := by
  have fold : ∀ (g' : CallGraph), g'.ids = g.ids →
      (callees.foldl (fun g callee => g.withEdge caller callee) g').ids = g.ids := by
    induction callees with
    | nil => exact fun g' hg' => hg'
    | cons x xs ih =>
      intro g' hg'
      rw [List.foldl_cons]
      refine ih (fun y hy => h y (by simp [hy])) _ ?_
      rw [ids_withEdge, hg', mention_of_mem hc, mention_of_mem (h x (by simp))]
  exact fold _ (by rw [ids_addFunction, mention_of_mem hc])

/-! ## Callees -/

theorem callees_withEdge (g : CallGraph) (a b u : String) :
    (g.withEdge a b).callees u = if u = a then mention (g.callees u) b else g.callees u := by
  rw [withEdge]
  rcases addEdge_cases g a b with ⟨h, he⟩ | ⟨-, ha, _, _, he⟩
  · rw [he, callees_addFunction, callees_addFunction]
    split
    · next hu => rw [hu, mention_of_mem h]
    · rfl
  · rw [he, callees, connect, Adjacency.row_insert ha, ← callees, callees_addFunction,
      callees_addFunction]

theorem callers_withEdge (g : CallGraph) (a b v : String) :
    (g.withEdge a b).callers v = if v = b then mention (g.callers v) a else g.callers v := by
  rw [withEdge]
  rcases addEdge_cases g a b with ⟨h, he⟩ | ⟨-, _, hb, _, he⟩
  · rw [he, callers_addFunction, callers_addFunction]
    split
    · next hv => rw [hv, mention_of_mem (mem_callers.2 (mem_callees.1 h))]
    · rfl
  · rw [he, callers, connect, Adjacency.row_insert (CallGraph.keys_eq _ ▸ hb), ← callers,
      callers_addFunction, callers_addFunction]

theorem edgeCount_withEdge (g : CallGraph) (a b : String) :
    (g.withEdge a b).edgeCount = if b ∈ g.callees a then g.edgeCount else g.edgeCount + 1 := by
  rw [withEdge]
  rcases addEdge_cases g a b with ⟨h, he⟩ | ⟨h, _, _, _, he⟩
  · rw [he, if_pos h]
    rfl
  · rw [he, if_neg h]
    rfl

/-- The callees of a caller after some calls: what it called before, then what is new. -/
theorem callees_addCalls {g : CallGraph} {u : String} {before : List String}
    (h : g.callees u = before.eraseDups) (caller : String) (callees : List String) :
    (g.addCalls caller callees).callees u =
      (before ++ if u = caller then callees else []).eraseDups := by
  have fold : ∀ (xs before : List String) (g' : CallGraph), g'.callees u = before.eraseDups →
      (xs.foldl (fun g callee => g.withEdge caller callee) g').callees u =
        (before ++ if u = caller then xs else []).eraseDups := by
    intro xs
    induction xs with
    | nil => intro before g' hg'; simpa using hg'
    | cons x xs ih =>
      intro before g' hg'
      rw [List.foldl_cons]
      by_cases hu : u = caller
      · rw [ih (before ++ [x])]
        · simp [hu]
        · rw [callees_withEdge, if_pos hu, hg', mention_eraseDups]
      · rw [ih before]
        · simp [hu]
        · rw [callees_withEdge, if_neg hu, hg']
  exact fold callees before _ (by rw [callees_addFunction, h])

/-- A graph made of rows of callers with their callees. -/
def addRows (g : CallGraph) (rows : List (String × List String)) : CallGraph :=
  rows.foldl (fun g row => g.addCalls row.1 row.2) g

theorem callees_addRows {u : String} (rows : List (String × List String)) :
    ∀ {g : CallGraph} {before : List String}, g.callees u = before.eraseDups →
      (g.addRows rows).callees u =
        (before ++ (rows.filter (·.1 == u)).flatMap (·.2)).eraseDups := by
  induction rows with
  | nil => intro g before h; simpa [addRows] using h
  | cons row rows ih =>
    intro g before h
    have step := ih (callees_addCalls h row.1 row.2)
    rw [addRows, List.foldl_cons, ← addRows, step, List.append_assoc]
    by_cases hu : u = row.1
    · simp [hu]
    · simp [hu, Ne.symm hu]

theorem ids_addRows {rows : List (String × List String)} :
    ∀ {g : CallGraph}, (∀ row ∈ rows, row.1 ∈ g.ids ∧ ∀ x ∈ row.2, x ∈ g.ids) →
      (g.addRows rows).ids = g.ids := by
  induction rows with
  | nil => exact fun _ => rfl
  | cons row rows ih =>
    intro g h
    obtain ⟨hrow, hxs⟩ := h row (by simp)
    have same := ids_addCalls hrow hxs
    rw [addRows, List.foldl_cons, ← addRows, ih, same]
    intro row' hrow'
    rw [same]
    exact h row' (by simp [hrow'])

theorem ids_foldl_addFunction {α : Type} (idOf : α → String) (xs : List α) :
    ∀ {g : CallGraph} {before : List String}, g.ids = before.eraseDups →
      (xs.foldl (fun g x => g.addFunction (idOf x)) g).ids = (before ++ xs.map idOf).eraseDups := by
  induction xs with
  | nil => intro g before h; simpa using h
  | cons x xs ih =>
    intro g before h
    have step : (g.addFunction (idOf x)).ids = (before ++ [idOf x]).eraseDups := by
      rw [ids_addFunction, h, mention_eraseDups]
    rw [List.foldl_cons, ih step]
    simp

theorem callees_foldl_addFunction {α : Type} (idOf : α → String) (xs : List α) (u : String) :
    ∀ g : CallGraph, (xs.foldl (fun g x => g.addFunction (idOf x)) g).callees u = g.callees u := by
  induction xs with
  | nil => exact fun _ => rfl
  | cons x xs ih => intro g; rw [List.foldl_cons, ih, callees_addFunction]

end CallGraph

end EffectGraph
