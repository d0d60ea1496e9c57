/-
What a finding that callers inherit spreads to: exactly the functions from
which a function with the finding is called, through functions that can take
it on.

`spread` works through a queue, and the graph may have cycles. Two facts carry
the exactness. Everything that is gathered inherits the finding
(`inherits_of_mem_spreadFrom`). When the rounds are over the queue is empty,
because each round takes one id from it and only ids that were never gathered
enter it, so nothing that inherits the finding is left out
(`spreadFrom_closed`).
-/
import EffectGraph.Graph.CallGraph
import EffectGraph.Graph.Propagation
import Mathlib.Data.List.Nodup
import Mathlib.Data.List.Perm.Subperm
import Mathlib.Logic.Relation

namespace EffectGraph.CallGraph

variable {g : CallGraph} {accepts : String → Bool} {starts : List String}

/-- A function calls another one. -/
def Calls (g : CallGraph) (caller callee : String) : Prop := (caller, callee) ∈ g.edges

/-- A function calls another one, directly or through others. -/
def Reaches (g : CallGraph) : String → String → Prop := Relation.TransGen g.Calls

theorem mem_callees {a b : String} : b ∈ g.callees a ↔ g.Calls a b := Adjacency.mem_pairs.symm

theorem mem_callers {a b : String} : a ∈ g.callers b ↔ g.Calls a b :=
  (g.mirrored a b).trans mem_callees

theorem Calls.mem_ids {a b : String} (h : g.Calls a b) : a ∈ g.ids ∧ b ∈ g.ids := by
  have hb : b ∈ g.backward.keys := Adjacency.mem_keys_of_mem_row (mem_callers.2 h)
  rw [g.keys_eq] at hb
  exact ⟨Adjacency.mem_keys_of_mem_row (mem_callees.2 h), hb⟩

theorem mem_edges {a b : String} : (a, b) ∈ g.edges ↔ g.Calls a b := Iff.rfl

theorem nodup_callers (g : CallGraph) (id : String) : (g.callers id).Nodup :=
  g.backward.nodup_row id

/-- A function takes on a finding: it can, and it calls a function that has the finding from the
start or takes it on. -/
inductive Inherits (g : CallGraph) (accepts : String → Bool) (starts : List String) : String → Prop
  | direct {a b : String} : g.Calls a b → b ∈ starts → accepts a = true → Inherits g accepts starts a
  | through {a b : String} :
    g.Calls a b → Inherits g accepts starts b → accepts a = true → Inherits g accepts starts a

theorem Inherits.accepted {a : String} (h : g.Inherits accepts starts a) : accepts a = true := by
  cases h <;> assumption

theorem Inherits.of_calls {a b : String} (h : g.Calls a b) (ha : accepts a = true)
    (hb : b ∈ starts ∨ g.Inherits accepts starts b) : g.Inherits accepts starts a :=
  hb.elim (fun hb => .direct h hb ha) (fun hb => .through h hb ha)

/-! ## The queue -/

/-- The callers that one round gathers. -/
def freshCallers (g : CallGraph) (accepts : String → Bool) (reached : List String) (id : String) :
    List String :=
  (g.callers id).filter fun c => accepts c && !reached.contains c

theorem mem_freshCallers {reached : List String} {id c : String} :
    c ∈ g.freshCallers accepts reached id ↔ g.Calls c id ∧ accepts c = true ∧ c ∉ reached := by
  simp [freshCallers, mem_callers]

theorem spreadFrom_succ (n : Nat) (id : String) (queue reached : List String) :
    g.spreadFrom accepts (n + 1) (id :: queue) reached =
      g.spreadFrom accepts n (queue ++ g.freshCallers accepts reached id)
        (reached ++ g.freshCallers accepts reached id) := rfl

theorem inherits_of_mem_spreadFrom (n : Nat) :
    ∀ {queue reached : List String},
      (∀ x ∈ queue, x ∈ starts ∨ g.Inherits accepts starts x) →
      (∀ x ∈ reached, g.Inherits accepts starts x) →
      ∀ x ∈ g.spreadFrom accepts n queue reached, g.Inherits accepts starts x := by
  induction n with
  | zero =>
    intro queue reached _ hr x hx
    exact hr x hx
  | succ n ih =>
    intro queue reached hq hr
    cases queue with
    | nil => exact hr
    | cons id queue =>
      rw [spreadFrom_succ]
      have hfresh : ∀ x ∈ g.freshCallers accepts reached id, g.Inherits accepts starts x := by
        intro x hx
        obtain ⟨hcall, hacc, -⟩ := mem_freshCallers.1 hx
        exact .of_calls hcall hacc (hq id (by simp))
      refine ih ?_ ?_
      · intro x hx
        rcases List.mem_append.1 hx with hx | hx
        · exact hq x (by simp [hx])
        · exact .inr (hfresh x hx)
      · intro x hx
        rcases List.mem_append.1 hx with hx | hx
        · exact hr x hx
        · exact hfresh x hx

/-- Every id with the finding waits in the queue, or all its callers that can take the finding on
are gathered. -/
def Worked (g : CallGraph) (accepts : String → Bool) (starts queue reached : List String) : Prop :=
  ∀ x, x ∈ starts ∨ x ∈ reached →
    x ∈ queue ∨ ∀ c, g.Calls c x → accepts c = true → c ∈ reached

theorem Worked.step {id : String} {queue reached : List String}
    (h : g.Worked accepts starts (id :: queue) reached) :
    g.Worked accepts starts (queue ++ g.freshCallers accepts reached id)
      (reached ++ g.freshCallers accepts reached id) := by
  intro x hx
  by_cases hf : x ∈ g.freshCallers accepts reached id
  · exact .inl (List.mem_append_right _ hf)
  have hx' : x ∈ starts ∨ x ∈ reached := by
    refine hx.imp_right fun hx => ?_
    exact (List.mem_append.1 hx).resolve_right hf
  rcases h x hx' with hq | hdone
  · rcases List.mem_cons.1 hq with rfl | hq
    · -- The id that leaves the queue: its callers are gathered now, unless they were before.
      refine .inr fun c hc hacc => ?_
      by_cases hcr : c ∈ reached
      · exact List.mem_append_left _ hcr
      · exact List.mem_append_right _ (mem_freshCallers.2 ⟨hc, hacc, hcr⟩)
    · exact .inl (List.mem_append_left _ hq)
  · exact .inr fun c hc hacc => List.mem_append_left _ (hdone c hc hacc)

theorem nodup_append_freshCallers {id : String} {reached : List String} (hn : reached.Nodup) :
    (reached ++ g.freshCallers accepts reached id).Nodup := by
  refine List.nodup_append.2 ⟨hn, (g.nodup_callers id).filter _, ?_⟩
  rintro a ha b hb rfl
  exact (mem_freshCallers.1 hb).2.2 ha

/-- The rounds are enough: each one takes an id from the queue, and each id enters it at most once,
as it is gathered. -/
theorem spreadFrom_closed (n : Nat) :
    ∀ {queue reached : List String}, reached.Nodup → reached ⊆ g.ids →
      queue.length + g.ids.length ≤ n + reached.length →
      g.Worked accepts starts queue reached →
      ∀ {a b : String}, g.Calls a b → accepts a = true →
        b ∈ starts ∨ b ∈ g.spreadFrom accepts n queue reached →
        a ∈ g.spreadFrom accepts n queue reached := by
  induction n with
  | zero =>
    intro queue reached hn hsub hlen hw a b hab hacc hb
    have hle : reached.length ≤ g.ids.length := (List.subperm_of_subset hn hsub).length_le
    have hq : queue = [] := List.length_eq_zero_iff.1 (by omega)
    subst hq
    exact (hw b hb).resolve_left (by simp) a hab hacc
  | succ n ih =>
    intro queue reached hn hsub hlen hw a b hab hacc hb
    cases queue with
    | nil => exact (hw b hb).resolve_left (by simp) a hab hacc
    | cons id queue =>
      rw [spreadFrom_succ] at hb ⊢
      refine ih (nodup_append_freshCallers hn) ?_ ?_ hw.step hab hacc hb
      · refine List.append_subset.2 ⟨hsub, fun c hc => ?_⟩
        exact (mem_freshCallers.1 hc).1.mem_ids.1
      · simp only [List.length_cons, List.length_append] at hlen ⊢
        omega

/-- What a finding spreads to is what inherits it. -/
theorem mem_spread {id : String} :
    id ∈ g.spread accepts starts ↔ g.Inherits accepts starts id := by
  unfold spread
  constructor
  · intro h
    exact inherits_of_mem_spreadFrom _ (fun x hx => .inl hx) (by simp) id h
  · intro h
    have closed := @spreadFrom_closed g accepts starts (starts.length + g.ids.length) starts []
      List.nodup_nil (by simp) (by simp) (fun x hx => .inl (by simpa using hx))
    induction h with
    | direct hab hb ha => exact closed hab ha (.inl hb)
    | through hab _ ha ih => exact closed hab ha (.inr ih)

/-! ## Paths -/

/-- A function calls another one, and both are among some ids. -/
def CallsAmong (g : CallGraph) (ids : List String) (a b : String) : Prop :=
  a ∈ ids ∧ b ∈ ids ∧ g.Calls a b

/-- Where each of some ids has the finding or can take it on, and no other id does, an id takes it on
exactly if it can and a path among these ids leads to one that has it. -/
theorem inherits_iff_path {ids : List String} (haccepts : ∀ x, accepts x = true → x ∈ ids)
    (hstarts : ∀ x ∈ starts, x ∈ ids) (hids : ∀ x ∈ ids, accepts x = true ∨ x ∈ starts) {id : String} :
    g.Inherits accepts starts id ↔
      accepts id = true ∧ ∃ v ∈ starts, Relation.TransGen (g.CallsAmong ids) id v := by
  constructor
  · intro hi
    refine ⟨hi.accepted, ?_⟩
    induction hi with
    | direct hab hb ha => exact ⟨_, hb, .single ⟨haccepts _ ha, hstarts _ hb, hab⟩⟩
    | through hab hb ha ih =>
      obtain ⟨v, hv, hpath⟩ := ih
      exact ⟨v, hv, .head ⟨haccepts _ ha, haccepts _ hb.accepted, hab⟩ hpath⟩
  · rintro ⟨ha, v, hv, hpath⟩
    induction hpath using Relation.TransGen.head_induction_on with
    | single hab => exact .direct hab.2.2 hv ha
    | head hab _ ih =>
      -- The next id has the finding itself, or it can take it on and so it does.
      rcases hids _ hab.2.1 with hb | hb
      · exact .through hab.2.2 (ih hb) ha
      · exact .direct hab.2.2 hb ha

/-- Paths among all ids of a graph are all paths. -/
theorem transGen_callsAmong_iff {ids : List String} (h : ∀ x ∈ g.ids, x ∈ ids) {a b : String} :
    Relation.TransGen (g.CallsAmong ids) a b ↔ g.Reaches a b := by
  have hcalls : g.CallsAmong ids = g.Calls := by
    funext x y
    refine propext ⟨fun hxy => hxy.2.2, fun hxy => ?_⟩
    exact ⟨h x hxy.mem_ids.1, h y hxy.mem_ids.2, hxy⟩
  rw [hcalls]
  rfl

end EffectGraph.CallGraph
