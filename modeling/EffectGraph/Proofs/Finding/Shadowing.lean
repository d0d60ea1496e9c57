/-
Functions of a project and functions of libraries.

The rules know the functions of libraries by their dotted names. A function or
class of the project has a dotted name too: the module of its file, and its own
name. A call that runs a function of the project calls a function, a class or an
instance of the project, so the dotted name of what it calls is of this form, and
the last dot tells its two parts apart (`splitLast_member`). It is the name of a
library's function only if a file of the project has the name of the library's
module and defines something by the name of that function, and only then does
the call add a finding about libraries (`own_call_unnoticed`). A file can have
such a name (`own_call_noticed`).
-/
import EffectGraph.Proofs.Finding.HazardRule
import Mathlib.Data.List.DropRight

namespace EffectGraph

namespace Library

/-- What is a finding by being called. -/
def primitives : List String :=
  consoleCalls ++ environmentCalls ++ nondeterministicCalls ++ currentTimeConstructors.map (·.1) ++ gatherCalls

/-- A dotted name as the module and the name in it. -/
def splitLast (name : String) : String × String :=
  (String.ofList (name.toList.rdropWhile (· != '.')).dropLast, String.ofList (name.toList.rtakeWhile (· != '.')))

theorem splitLast_member (module : String) (x : Identifier) :
    splitLast s!"{module}.{x.text}" = (module, x.text) := by
  have hdots : ∀ c ∈ x.text.toList.reverse, (c != '.') = true := by
    intro c hc
    have hword := List.all_eq_true.1 x.isWord c (List.mem_reverse.1 hc)
    rw [bne_iff_ne]
    rintro rfl
    cases hword
  have hchars : (s!"{module}.{x.text}").toList = module.toList ++ '.' :: x.text.toList := by
    simp [toString]
  simp [splitLast, hchars, List.rdropWhile, List.rtakeWhile, List.dropWhile_append_of_pos hdots,
    List.takeWhile_append_of_pos hdots]

example : (primitives.map fun name => (splitLast name).1).eraseDups =
    ["builtins", "pprint", "os", "os.environ", "time", "random", "uuid", "secrets", "datetime.datetime",
      "datetime.date", "asyncio"] := by
  decide +kernel

end Library

/-- The name that a definition gives to what it defines. -/
def Node.definedName? (n : Node) : Option Identifier :=
  match n.kind with
  | .functionDef name _ | .classDef name => some name
  | _ => none

/-- The definition of a function or class. -/
def Value.definition? : Value → Option Definition
  | .function c | .classObject c => some c
  | _ => none

namespace Project

variable {P : Project} {file : Nat} {call func : Node} {d : Definition}

/-- The module that a definition stands in, and the name that it defines. -/
def moduleAndName (P : Project) (c : Definition) : Option (String × String) := do
  let f ← P.file? c.file
  let x ← c.node.definedName?
  return (f.source.module, x.text)

/-- An expression that denotes what the project defines in place of a library's function. -/
def Shadows (P : Project) (file : Nat) (n : Node) : Prop :=
  ∃ v c own, P.value file n = .ok (some v) ∧ v.definition? = some c ∧ P.moduleAndName c = some own ∧
    own ∈ Library.primitives.map Library.splitLast

/-- A call that runs a function of the project calls a function, a class or an instance of the
project, and an instance has no dotted name. -/
theorem value_of_callee (hfunc : call.part? .func = some func) (h : P.callee file call = .ok (some d)) :
    ∃ v, P.value file func = .ok (some v) ∧
      ∀ name, P.qualifiedNameOf (some v) = some name → ∃ c, v.definition? = some c := by
  simp only [callee, calleeBy, hfunc] at h
  obtain ⟨v, hv, h⟩ := Analysis.bind_eq_ok.1 h
  unfold calledFunctionBy at h
  split at h
  · next c => exact ⟨.function c, hv, fun _ _ => ⟨c, rfl⟩⟩
  · next c => exact ⟨.classObject c, hv, fun _ _ => ⟨c, rfl⟩⟩
  · next c => exact ⟨.instanceOf c, hv, fun _ hname => by cases hname⟩
  · cases h

/-- The dotted name of what the project defines is made of its module and its name. -/
theorem qualifiedNameOf_own {v : Value} {c : Definition} (hv : v.definition? = some c) {name : String}
    (h : P.qualifiedNameOf (some v) = some name) :
    ∃ (module : String) (x : Identifier), P.moduleAndName c = some (module, x.text) ∧
      name = s!"{module}.{x.text}" := by
  have hname : P.qualifiedNameOf (some (.function c)) = some name := by
    cases v with
    | function | classObject =>
      cases hv
      exact h
    | module | instanceOf | external | awaitable => cases hv
  simp only [qualifiedNameOf] at hname
  split at hname
  next f x isAsync hf hk =>
    exact ⟨f.source.module, x, by simp [moduleAndName, Node.definedName?, hf, hk], (Option.some.inj hname).symm⟩
  next f x hf hk =>
    exact ⟨f.source.module, x, by simp [moduleAndName, Node.definedName?, hf, hk], (Option.some.inj hname).symm⟩
  next => cases hname

/-- What is called where a function of the project runs has no name of a library's function, unless
the project defines it by that name. -/
theorem notMem_primitives_of_callee (hfunc : call.part? .func = some func)
    (hcallee : P.callee file call = .ok (some d)) (hshadows : ¬ P.Shadows file func) :
    ∃ q, P.qualifiedName file func = .ok q ∧ ∀ name, q = some name → name ∉ Library.primitives := by
  obtain ⟨v, hv, hdefined⟩ := value_of_callee hfunc hcallee
  refine ⟨P.qualifiedNameOf (some v), by simp [qualifiedName, hv], fun name hname hmem => ?_⟩
  obtain ⟨c, hc⟩ := hdefined name hname
  obtain ⟨module, x, hown, rfl⟩ := qualifiedNameOf_own hc hname
  refine hshadows ⟨v, c, _, hv, hc, hown, List.mem_map.2 ⟨_, hmem, ?_⟩⟩
  exact Library.splitLast_member module x

theorem callEffects_eq_nil {q : Option String} (h : ∀ name, q = some name → name ∉ Library.primitives) :
    callEffects q = [] := by
  cases q with
  | none => rfl
  | some name =>
    have hname := h name rfl
    simp only [Library.primitives, List.mem_append, not_or] at hname
    obtain ⟨⟨⟨⟨hconsole, henvironment⟩, hnondeterministic⟩, htime⟩, -⟩ := hname
    have hlookup : Library.currentTimeConstructors.lookup name = none := by
      rw [List.lookup_eq_none_iff]
      intro p hp
      rw [bne_iff_ne]
      rintro rfl
      exact htime (List.mem_map_of_mem hp)
    simp [callEffects, hconsole, henvironment, hnondeterministic, hlookup]

/-- Only a call of a library's function is noted for gathering. -/
theorem gathers_of_hazard {functions : List Function} {f : Function} {v : Visit} {found : List Note}
    {k : Hazard} (h : .ok found ∈ P.callNotes functions f v) (hmem : .hazard k ∈ found)
    (hk : k = .unawaitedGather ∨ k = .gatherUnhandled) :
    ∃ name ∈ Library.gatherCalls, P.CallsNamed f.file v.node name := by
  have hother : ∀ l, k = l → l ≠ .unawaitedGather → l ≠ .gatherUnhandled →
      ∃ name ∈ Library.gatherCalls, P.CallsNamed f.file v.node name := by
    rintro l rfl hl hl'
    exact absurd hk (not_or.2 ⟨hl, hl'⟩)
  rw [callNotes_steps] at h
  simp only [List.mem_cons, List.not_mem_nil, or_false] at h
  rcases h with h | h | h | h | h | h | h
  · obtain ⟨-, -, hkind⟩ := (hazard_mem_floatingNotes h.symm).1 hmem
    split at hkind <;> exact hother _ hkind (by decide) (by decide)
  · exact absurd hmem (hazard_notMem_calleeNotes h.symm)
  · exact ((hazard_mem_gatherNotes h.symm).1 hmem).2.1
  · exact ((hazard_mem_gatheredNotes h.symm).1 hmem).2.1.1
  · obtain ⟨hkind, -⟩ := (hazard_mem_handlerNotes h.symm iterationCallback?_iff).1 hmem
    exact hother _ hkind (by decide) (by decide)
  · obtain ⟨hkind, -⟩ := (hazard_mem_handlerNotes h.symm listener?_iff).1 hmem
    exact hother _ hkind (by decide) (by decide)
  · cases h
    exact hother _ (hazard_mem_noteIf.1 hmem).1 (by decide) (by decide)

/-- A call that runs a function of the project calls no library's function by name, unless the project
defines what it calls by the module and the name of one. So it adds no effect but that of a method on
a parameter, and no hazard of gathering. -/
theorem own_call_unnoticed (hkind : call.kind = .call) (hfunc : call.part? .func = some func)
    (hcallee : P.callee file call = .ok (some d)) (hshadows : ¬ P.Shadows file func) :
    (∃ q, P.qualifiedName file func = .ok q ∧ ∀ name, q = some name → name ∉ Library.primitives) ∧
    (∀ f : Function, f.file = file → P.effectSteps f call = [.ok (P.methodEffects f func), .ok []]) ∧
    ∀ (functions : List Function) (f : Function) (v : Visit) (found : List Note), f.file = file →
      v.node = call → .ok found ∈ P.callNotes functions f v →
      .hazard .unawaitedGather ∉ found ∧ .hazard .gatherUnhandled ∉ found := by
  obtain ⟨q, hq, hname⟩ := notMem_primitives_of_callee hfunc hcallee hshadows
  have hgather : ¬ ∃ name ∈ Library.gatherCalls, P.CallsNamed file call name := by
    rintro ⟨name, hmem, func', hfunc', hnamed⟩
    cases hfunc.symm.trans hfunc'
    obtain rfl : q = some name := Except.ok.inj (hq.symm.trans hnamed)
    exact hname name rfl (List.mem_append_right _ hmem)
  refine ⟨⟨q, hq, hname⟩, ?_, ?_⟩
  · rintro f rfl
    simp [effectSteps, hkind, hfunc, hq, callEffects_eq_nil hname]
  · rintro functions f v found rfl rfl hfound
    exact ⟨fun hmem => hgather (gathers_of_hazard hfound hmem (.inl rfl)),
      fun hmem => hgather (gathers_of_hazard hfound hmem (.inr rfl))⟩

/-- A function that has the name of a library's function, in another module. -/
def ownPrint : List (String × String) := [("tools.py", "def print(text): pass\ndef f():\n    print(1)\n")]

theorem own_call_unnoticed_print :
    ∃ P call func d, ofTexts ownPrint [] = .ok P ∧ call.kind = .call ∧ call.part? .func = some func ∧
      P.callee 0 call = .ok (some d) ∧ ¬ P.Shadows 0 func ∧
      (∃ q, P.qualifiedName 0 func = .ok q ∧ ∀ name, q = some name → name ∉ Library.primitives) ∧
      (∀ f : Function, f.file = 0 → P.effectSteps f call = [.ok (P.methodEffects f func), .ok []]) ∧
      ∀ (functions : List Function) (f : Function) (v : Visit) (found : List Note), f.file = 0 →
        v.node = call → .ok found ∈ P.callNotes functions f v →
        .hazard .unawaitedGather ∉ found ∧ .hazard .gatherUnhandled ∉ found := by
  have heval : (ofTexts ownPrint []).toOption.map (fun P => decide (
      ∃ file ∈ (P.file? 0).toList, ∃ call ∈ file.source.tree.nodes, (call.kind == .call) = true ∧
        ∃ func ∈ (call.part? .func).toList, (P.callee 0 call).toOption.map Option.isSome = some true ∧
          (P.value 0 func).toOption.map (fun v => (v.bind (·.definition?)).bind P.moduleAndName) =
            some (some ("tools", "print")))) = some true := by
    decide +kernel
  obtain ⟨P, hP, heval⟩ := exists_ok_of_map_toOption heval
  obtain ⟨file, -, call, -, hkind, func, hfunc, hcallee, hvalue⟩ := of_decide_eq_true heval
  have hkind := beq_iff_eq.1 hkind
  have hfunc := Option.mem_toList.1 hfunc
  obtain ⟨callee, hcallee, hsome⟩ := exists_ok_of_map_toOption hcallee
  obtain ⟨d, rfl⟩ := Option.isSome_iff_exists.1 hsome
  have hshadows : ¬ P.Shadows 0 func := by
    rintro ⟨v, c, own, hv, hc, hown, hmem⟩
    obtain rfl : own = ("tools", "print") := by simpa [hv, hc, hown, Except.toOption] using hvalue
    exact absurd hmem (by decide +kernel)
  exact ⟨P, call, func, d, hP, hkind, hfunc, hcallee, hshadows,
    own_call_unnoticed hkind hfunc hcallee hshadows⟩

/-- A file with the name of a library's module. -/
def ownRandom : List (String × String) :=
  [("random.py", "def random():\n    return 4\n\ndef f():\n    return random()\n")]

theorem own_call_noticed :
    ∃ P call func d f result, ofTexts ownRandom [] = .ok P ∧ call.part? .func = some func ∧
      P.callee 0 call = .ok (some d) ∧ P.qualifiedName 0 func = .ok (some "random.random") ∧
      "random.random" ∈ Library.nondeterministicCalls ∧ f ∈ P.functions [] ∧ f.id = "random.py:28:f" ∧
      P.localPurity f = .ok result ∧ result.reasons = ["Calls random.random() (non-deterministic)"] := by
  have heval : (ofTexts ownRandom []).toOption.map (fun P => decide (
      (∃ file ∈ (P.file? 0).toList, ∃ call ∈ file.source.tree.nodes, ∃ func ∈ (call.part? .func).toList,
        (P.callee 0 call).toOption.map Option.isSome = some true ∧
        (P.qualifiedName 0 func).toOption = some (some "random.random")) ∧
      ∃ f ∈ P.functions [], f.id = "random.py:28:f" ∧
        (P.localPurity f).toOption.map (·.reasons) = some ["Calls random.random() (non-deterministic)"])) =
      some true := by
    decide +kernel
  obtain ⟨P, hP, heval⟩ := exists_ok_of_map_toOption heval
  obtain ⟨⟨file, -, call, -, func, hfunc, hcallee, hname⟩, f, hf, hid, hpurity⟩ := of_decide_eq_true heval
  obtain ⟨callee, hcallee, hsome⟩ := exists_ok_of_map_toOption hcallee
  obtain ⟨d, rfl⟩ := Option.isSome_iff_exists.1 hsome
  obtain ⟨result, hresult, hreasons⟩ := exists_ok_of_map_toOption hpurity
  obtain ⟨q, hname, rfl⟩ := exists_ok_of_map_toOption (f := id) (by simpa using hname)
  exact ⟨P, call, func, d, f, result, hP, Option.mem_toList.1 hfunc, hcallee, hname, by decide, hf, hid,
    hresult, hreasons⟩

end Project

end EffectGraph
