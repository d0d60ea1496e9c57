/-
Where reading a declared type breaks off.

Reading goes through the parts of a type that count: the members of a union and
the first argument of a wrapper. On its way it reads the texts that it meets.
`Hint.Breaks` says of the type alone when this cannot end well: one of these
texts holds a character that no source can hold or is more than the parser can
take, or the type nests too deeply, the expressions in its texts included.
Nothing else breaks reading off (`className_aborts`, `isAwaitable_aborts`).
-/
import EffectGraph.Proofs.Model.Analysis
import EffectGraph.Proofs.Syntax.Walk

namespace EffectGraph.Hint

/-- An expression stands for itself, and a text for the expression that it holds. -/
inductive StandsFor (n : Node) : Node → Prop
  | itself : StandsFor n n
  | text {s : String} {m : Node} {first : Nat} : n.kind = .constant (.text s) →
    Node.parseExpression s = .ok m → StandsFor n (m.number first)

/-- The brackets after the name of a wrapper. -/
def IsWrapper (n : Node) : Prop :=
  n.kind = .subscript ∧ ∃ value ∈ n.part? .value, ∃ name ∈ wrappers,
    lastName? maxDepth value = .ok (some name)

/-- The parts of a type that count: the members of a union, the first argument of a wrapper. -/
inductive Counts (n : Node) : Node → Prop
  | member {c : Node} : n.kind = .binOp true → n.part? .left = some c ∨ n.part? .right = some c →
    Counts n c
  | argument {c : Node} : IsWrapper n → n.part? .index = some c → Counts n c
  | first {c index : Node} : IsWrapper n → n.part? .index = some index → index.kind = .tuple →
    index.part? .element = some c → Counts n c

/-- The constructs whose parts reading goes into: unions, brackets, and lists of arguments. -/
def goesInto : Kind → Bool
  | .binOp true | .subscript | .tuple => true
  | _ => false

/-- A type that nests at least so many levels deep, the expressions in its texts included. -/
inductive Nests : Nat → Node → Prop
  | zero (n : Node) : Nests 0 n
  | deeper {depth : Nat} {n m c : Node} : StandsFor n m → goesInto m.kind = true → c ∈ m.children →
    Nests depth c → Nests (depth + 1) n

/-- A type that cannot be read, and why. -/
inductive Breaks : Abort → Node → Prop
  | nullCharacter {n : Node} {s : String} : n.kind = .constant (.text s) → '\x00' ∈ s.toList →
    Breaks .nullCharacter n
  | surrogate {n : Node} : n.kind = .constant .brokenText → Breaks .surrogate n
  | deepText {n : Node} {s : String} : n.kind = .constant (.text s) →
    Node.parseExpression s = .error .tooDeep → Breaks .tooDeep n
  | vastText {n : Node} {s : String} : n.kind = .constant (.text s) →
    Node.parseExpression s = .error .overflow → Breaks .overflow n
  | deep {n : Node} : Nests maxDepth n → Breaks .tooDeep n
  | part {e : Abort} {n m c : Node} : StandsFor n m → Counts m c → Breaks e c → Breaks e n

variable {n m : Node} {e : Abort}

theorem Counts.mem_preorder {c : Node} (h : Counts n c) : c ∈ n.preorder := by
  cases h with
  | member _ hc =>
    rcases hc with hc | hc
    · exact Node.mem_preorder_child (Node.mem_children_of_part? hc)
    · exact Node.mem_preorder_child (Node.mem_children_of_part? hc)
  | argument _ hc => exact Node.mem_preorder_child (Node.mem_children_of_part? hc)
  | first _ hindex _ hc =>
    exact Node.mem_preorder_of_child (Node.mem_children_of_part? hindex)
      (Node.mem_preorder_child (Node.mem_children_of_part? hc))

theorem Nests.of_le {depth depth' : Nat} (h : Nests depth n) (hle : depth' ≤ depth) :
    Nests depth' n := by
  induction h generalizing depth' with
  | zero n =>
    cases Nat.le_zero.1 hle
    exact .zero n
  | deeper hm hk hc _ ih =>
    cases depth' with
    | zero => exact .zero _
    | succ depth' => exact .deeper hm hk hc (ih (Nat.le_of_succ_le_succ hle))

/-- Whether an expression is a text. -/
def isText (n : Node) : Bool :=
  match n.kind with
  | .constant (.text _) | .constant .brokenText => true
  | _ => false

theorem StandsFor.eq_of_isText (h : StandsFor n m) (hn : isText n = false) : m = n := by
  cases h with
  | itself => rfl
  | text hk => simp [isText, hk] at hn

/-- Where reading goes one level down, building the scopes takes three calls. -/
theorem calls_of_goesInto {c : Node} (hk : goesInto n.kind = true) (hc : c ∈ n.children) :
    3 + c.calls Node.scopeDescent .plain ≤ n.calls Node.scopeDescent .plain := by
  refine Node.calls_child_le hc ?_
  unfold goesInto at hk
  split at hk
  · next h => cases hr : c.role <;> simp [Node.scopeDescent, Node.mannerOf, h, Kind.callsTo]
  · next h => cases hr : c.role <;> simp [Node.scopeDescent, Node.mannerOf, h, Kind.callsTo]
  · next h =>
    cases hr : c.role <;> simp [Node.scopeDescent, Node.mannerOf, h, Kind.callsTo, Manner.isTarget]
  · cases hk

theorem IsWrapper.goesInto (h : IsWrapper n) : goesInto n.kind = true := by
  rw [h.1]
  rfl

theorem Counts.calls_le {c : Node} (h : Counts n c) :
    c.calls Node.scopeDescent .plain ≤ n.calls Node.scopeDescent .plain := by
  cases h with
  | member hk hc =>
    have hinto : Hint.goesInto n.kind = true := by rw [hk]; rfl
    have hmem : c ∈ n.children := hc.elim Node.mem_children_of_part? Node.mem_children_of_part?
    have := calls_of_goesInto hinto hmem
    omega
  | argument hw hc =>
    have := calls_of_goesInto hw.goesInto (Node.mem_children_of_part? hc)
    omega
  | @first index hw hindex htuple hc =>
    have hinto : Hint.goesInto index.kind = true := by rw [htuple]; rfl
    have := calls_of_goesInto hw.goesInto (Node.mem_children_of_part? hindex)
    have := calls_of_goesInto hinto (Node.mem_children_of_part? hc)
    omega

/-- Without texts, a type nests no deeper than the calls allow that build the scopes. -/
theorem Nests.le_calls {depth : Nat} (h : Nests depth n)
    (htexts : ∀ m ∈ n.preorder, isText m = false) :
    3 * depth ≤ n.calls Node.scopeDescent .plain := by
  induction h with
  | zero n => exact Nat.zero_le _
  | @deeper depth n m c hm hk hc _ ih =>
    obtain rfl := hm.eq_of_isText (htexts n n.mem_preorder_self)
    have hbelow := ih fun m hmem => htexts m (Node.mem_preorder_of_child hc hmem)
    have hcalls := calls_of_goesInto hk hc
    omega

/-- A type that is no deeper than the scopes of its file allow can only break off at a text. -/
theorem Breaks.exists_isText (h : Breaks e n) (hcalls : n.calls Node.scopeDescent .plain ≤ maxCalls) :
    ∃ m ∈ n.preorder, isText m = true := by
  induction h with
  | @nullCharacter n s hk | @deepText n s hk | @vastText n s hk =>
    exact ⟨n, n.mem_preorder_self, by simp [isText, hk]⟩
  | @surrogate n hk => exact ⟨n, n.mem_preorder_self, by simp [isText, hk]⟩
  | @deep n hnests =>
    by_contra hnone
    have htexts : ∀ m ∈ n.preorder, isText m = false := by simpa using hnone
    have hmany := hnests.le_calls htexts
    simp only [maxDepth, maxCalls] at hmany hcalls
    omega
  | @part e n m c hm hc _ ih =>
    cases hn : isText n with
    | true => exact ⟨n, n.mem_preorder_self, hn⟩
    | false =>
      obtain rfl := hm.eq_of_isText hn
      obtain ⟨t, ht, htext⟩ := ih (Nat.le_trans hc.calls_le hcalls)
      exact ⟨t, Node.mem_preorder_trans ht m hc.mem_preorder, htext⟩

/-! ## One step -/

theorem standsFor_of_read {first : Nat} (h : read first n = .ok m) : StandsFor n m := by
  unfold read at h
  split at h
  · next s hk =>
    split at h
    · cases h
    · split at h
      · next hm =>
        cases h
        exact .text hk hm
      · cases h
        exact .itself
      · cases h
      · cases h
  · cases h
  · cases h
    exact .itself

/-- What ends reading within a depth: something is wrong with the type, or it nests that deep. -/
def StopsWithin (depth : Nat) (n : Node) (e : Abort) : Prop :=
  Breaks e n ∨ e = .tooDeep ∧ Nests depth n

theorem StopsWithin.breaks (h : StopsWithin maxDepth n e) : Breaks e n := by
  rcases h with h | ⟨rfl, h⟩
  · exact h
  · exact .deep h

theorem read_aborts (first depth : Nat) (n : Node) :
    (read first n).AbortsBy (StopsWithin depth n) := by
  intro e h
  unfold read at h
  split at h
  · next s hk =>
    split at h
    · next hnull =>
      cases h
      exact .inl (.nullCharacter hk (List.contains_iff_mem.1 hnull))
    · split at h
      · cases h
      · cases h
      · next hdeep =>
        cases h
        exact .inl (.deepText hk hdeep)
      · next hvast =>
        cases h
        exact .inl (.vastText hk hvast)
  · next hk =>
    cases h
    exact .inl (.surrogate hk)
  · cases h

/-- Brackets after a name can only nest too deeply. -/
theorem lastName?_aborts : ∀ {depth : Nat} {n m : Node}, StandsFor n m →
    (lastName? depth m).AbortsBy fun e => e = .tooDeep ∧ Nests depth n
  | 0, n, _, _ => by
    intro e h
    cases h
    exact ⟨rfl, .zero n⟩
  | depth + 1, n, m, hm => by
    unfold lastName?
    split
    · exact .ok _
    · exact .ok _
    · next hk =>
      split
      · next value hvalue =>
        refine (lastName?_aborts .itself).imp fun e he => ?_
        exact ⟨he.1, .deeper hm (by rw [hk]; rfl) (Node.mem_children_of_part? hvalue) he.2⟩
      · exact .ok _
    · exact .ok _

/-- What is wrong with a part that counts is wrong with the type. -/
theorem Counts.aborts {depth : Nat} {c : Node} (hm : StandsFor n m) (hc : Counts m c) {α : Type}
    {x : Analysis α} (hx : x.AbortsBy (StopsWithin depth c)) :
    x.AbortsBy (StopsWithin (depth + 1) n) := by
  refine hx.imp fun e he => ?_
  rcases he with he | ⟨he, hnests⟩
  · exact .inl (.part hm hc he)
  · refine .inr ⟨he, ?_⟩
    cases hc with
    | member hk hc =>
      have hmem : c ∈ m.children := hc.elim Node.mem_children_of_part? Node.mem_children_of_part?
      exact .deeper hm (by rw [hk]; rfl) hmem hnests
    | argument hw hc => exact .deeper hm hw.goesInto (Node.mem_children_of_part? hc) hnests
    | first hw hindex htuple hc =>
      -- The first argument is one level deeper than the brackets.
      have hdeep := Nests.deeper hm hw.goesInto (Node.mem_children_of_part? hindex)
        (.deeper .itself (by rw [htuple]; rfl) (Node.mem_children_of_part? hc) hnests)
      exact hdeep.of_le (Nat.le_succ _)

/-! ## Whole types -/

theorem classNameBy_aborts (start : Nat) : ∀ {depth : Nat} (n : Node), depth ≤ maxDepth →
    (classNameBy start depth n).AbortsBy (StopsWithin depth n)
  | 0, n, _ => by
    intro e h
    cases h
    exact .inr ⟨rfl, .zero n⟩
  | depth + 1, n, hdepth => by
    have hle := Nat.le_of_succ_le hdepth
    unfold classNameBy
    refine (read_aborts start _ n).bind fun m hread => ?_
    have hm := standsFor_of_read hread
    split
    · next hk =>
      split
      · next left right hl hr =>
        refine Counts.aborts hm ?_ (classNameBy_aborts start _ hle)
        split
        · exact .member hk (.inr hr)
        · exact .member hk (.inl hl)
      · exact .ok _
    · next hk =>
      split
      · next value index hv hi =>
        have hvalue : (lastName? maxDepth value).AbortsBy (StopsWithin (depth + 1) n) := by
          refine (lastName?_aborts .itself).imp fun e he => .inr ⟨he.1, ?_⟩
          have hnests := Nests.deeper hm (by rw [hk]; rfl) (Node.mem_children_of_part? hv) he.2
          exact hnests.of_le (Nat.le_succ_of_le hdepth)
        refine hvalue.bind fun name? hname => ?_
        split
        · next name =>
          split
          · next hcontains =>
            have hwrapper : IsWrapper m :=
              ⟨hk, value, hv, name, List.contains_iff_mem.1 hcontains, hname⟩
            refine Counts.aborts hm ?_ (classNameBy_aborts start _ hle)
            split
            · next htuple =>
              cases helement : index.part? .element with
              | none => exact .argument hwrapper hi
              | some c => exact .first hwrapper hi (eq_of_beq htuple) helement
            · exact .argument hwrapper hi
          · exact .ok _
        · exact .ok _
      · exact .ok _
    · exact .ok _
    · exact .ok _
    · exact .ok _

/-- Finding the class that a declared type names breaks off only if the type cannot be read. -/
theorem className_aborts (start : Nat) (n : Node) : (className start n).AbortsBy (Breaks · n) :=
  (classNameBy_aborts start n (Nat.le_refl _)).imp fun _ => StopsWithin.breaks

theorem isAwaitableBy_aborts : ∀ {depth : Nat} (n : Node), depth ≤ maxDepth →
    (isAwaitableBy depth n).AbortsBy (StopsWithin depth n)
  | 0, n, _ => by
    intro e h
    cases h
    exact .inr ⟨rfl, .zero n⟩
  | depth + 1, n, hdepth => by
    have hle := Nat.le_of_succ_le hdepth
    unfold isAwaitableBy
    refine (read_aborts 0 _ n).bind fun m hread => ?_
    have hm := standsFor_of_read hread
    split
    · next left right hk hl hr =>
      have hleft := Counts.aborts hm (.member hk (.inl hl)) (isAwaitableBy_aborts left hle)
      refine hleft.bind fun b _ => ?_
      split
      · exact .ok _
      · exact Counts.aborts hm (.member hk (.inr hr)) (isAwaitableBy_aborts right hle)
    · have hname : (lastName? maxDepth m).AbortsBy (StopsWithin (depth + 1) n) :=
        (lastName?_aborts hm).imp fun e he => .inr ⟨he.1, he.2.of_le hdepth⟩
      refine hname.bind fun name? _ => ?_
      split <;> exact .ok _

/-- Telling whether a declared type can be awaited breaks off only if the type cannot be read. -/
theorem isAwaitable_aborts (n : Node) : (isAwaitable n).AbortsBy (Breaks · n) :=
  (isAwaitableBy_aborts n (Nat.le_refl _)).imp fun _ => StopsWithin.breaks

end EffectGraph.Hint
