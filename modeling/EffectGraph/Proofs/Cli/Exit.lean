/-
The exit code of a run against the document of its report.

A run looks at the report itself, not at the summary that it prints, and what
it looks at is empty exactly where the summary has a zero (`fails_iff`). The
output can still break the run off: a document can always be written, but in a
text the name of the root and the names and paths of functions stand as markup.
Names of functions hold no bracket, so with a frontend that prints nested texts
a report has a text unless there is a bracket in a path (`exists_text?`), and
progress can be shown unless there is one in the name of the root.
-/
import EffectGraph.Proofs.Cli.Frontend
import EffectGraph.Proofs.Function.Id
import EffectGraph.Proofs.Report.Summary

namespace EffectGraph

/-! ## Names and places as markup -/

theorem IsFunctionName.notMem {name : String} (h : IsFunctionName name) {c : Char}
    (hc : isWordChar c = false) (hsign : c ∉ "<anonymous@:>".toList) : c ∉ name.toList := by
  rcases h with ⟨name, rfl⟩ | ⟨position, rfl⟩
  · exact name.notMem_text hc
  · have hdigit : c.isDigit = false := by
      simp only [isWordChar, Char.isAlphanum, Bool.or_eq_false_iff] at hc
      exact hc.1.1.2
    have hdigits : ∀ n, c ∉ Nat.toDigits 10 n := fun n => notMem_toDigits hdigit
    have hlist : (anonymousName position).toList = "<anonymous@".toList ++
        (Nat.toDigits 10 position.1 ++ ':' :: (Nat.toDigits 10 position.2 ++ ['>'])) := by
      simp [anonymousName, toString]
    rw [hlist]
    simp_all

theorem Project.isFunctionName_of_analyze {P : Project} {ignore : List String} {r : Report}
    (h : P.analyze ignore = .ok r) : ∀ a ∈ r.functions, IsFunctionName a.name := by
  obtain ⟨found, hfound, rfl⟩ := analyze_eq_ok h
  intro a ha
  obtain ⟨f, hf, rfl⟩ := List.mem_map.1 ha
  rw [(findings_eq_ok hfound).1] at hf
  obtain ⟨i, file, -, -, function, -, rfl⟩ := mem_functions.1 hf
  exact function.isFunctionName file.source i

namespace Report

open Cli (Nested styles)

variable {escape : String → String} {r : Report} {t : Severity}

/-- The place of a function is nested if its path holds no bracket. -/
theorem nested_place {l : Label} (hname : IsFunctionName l.name) (hpath : '[' ∉ l.path.toList)
    {after : List Char} (h : Nested escape [] after) : Nested escape [] ((place l).toList ++ after) := by
  have hlist : (place l).toList ++ after =
      '[' :: "cyan".toList ++ ']' :: (l.name.toList ++ ('[' :: ['/'] ++ ']' :: ([' '] ++
        ('[' :: "dim".toList ++ ']' :: (('(' :: l.path.toList ++ ':' :: Nat.toDigits 10 l.line ++ [')']) ++
          ('[' :: ['/'] ++ ']' :: after)))))) := by
    simp [place, toString]
  have hplace : '[' ∉ '(' :: l.path.toList ++ ':' :: Nat.toDigits 10 l.line ++ [')'] := by
    have hline : '[' ∉ Nat.toDigits 10 l.line := notMem_toDigits rfl
    simp [hpath, hline]
  rw [hlist]
  refine .styled (by decide) (hname.notMem (by decide) (by decide)) ?_
  exact .text (by decide) (by decide) (.styled (by decide) hplace h)

/-! ## Lines -/

/-- A line without markup, or one that a frontend has to print. -/
def Line.IsNested (escape : String → String) : Line → Prop
  | marked text | begun text => Nested escape [] text.toList
  | plain _ => True

/-- A title with numbers after it. -/
theorem nested_title (start title note : List Char) (hstart : '[' ∉ start)
    (hlast : start.getLast? ≠ some '\\') (htitle : '[' ∉ title) (hnote : '[' ∉ note) :
    Nested escape [] (start ++ ('[' :: "bold".toList ++ ']' :: (title ++ ('[' :: ['/'] ++ ']' ::
      ([' '] ++ ('[' :: "dim".toList ++ ']' :: (note ++ ('[' :: ['/'] ++ ']' :: [])))))))) := by
  refine .text hstart hlast (.styled (by decide) htitle ?_)
  exact .text (by decide) (by decide) (.styled (by decide) hnote .empty)

theorem nested_graphTitle (r : Report) : Nested escape []
    (s!"[bold]Call graph[/] [dim]({r.functions.length} functions, " ++
      s!"{r.graph.edgeCount} edges)[/]").toList := by
  have hdigits : ∀ n, '[' ∉ Nat.toDigits 10 n := fun n => notMem_toDigits rfl
  have h : Nested escape [] _ := nested_title [] "Call graph".toList
    ('(' :: Nat.toDigits 10 r.functions.length ++ " functions, ".toList ++
      Nat.toDigits 10 r.graph.edgeCount ++ " edges)".toList) (by decide) (by decide) (by decide)
    (by simp [hdigits])
  simpa [toString] using h

/-- The title of a section, with how much there is in it. -/
theorem nested_sectionTitle (title unit : String) (htitle : '[' ∉ title.toList)
    (hunit : '[' ∉ unit.toList) (n : Nat) :
    Nested escape [] (s!"\n[bold]{title}[/] [dim]({n} {unit})[/]").toList := by
  have hdigits : '[' ∉ Nat.toDigits 10 n := notMem_toDigits rfl
  have h : Nested escape [] _ := nested_title ['\n'] title.toList
    ('(' :: Nat.toDigits 10 n ++ ' ' :: unit.toList ++ [')']) (by decide) (by decide) htitle
    (by simp [hdigits, hunit])
  simpa [toString] using h

/-- What is said of a section with nothing in it. -/
theorem nested_verdict (verdict : List Char) (hverdict : '[' ∉ verdict) :
    Nested escape [] ("  ".toList ++ ('[' :: "green".toList ++ ']' ::
      (verdict ++ ('[' :: ['/'] ++ ']' :: [])))) :=
  .text (by decide) (by decide) (.styled (by decide) hverdict .empty)

theorem isNested_issueLines (i : AsyncIssue) : ∀ line ∈ issueLines i, line.IsNested escape := by
  have hname : '[' ∉ i.severity.name.toList := by cases i.severity <;> decide
  have hstyle : style i.severity ∈ styles := by cases i.severity <;> decide
  have h : Nested escape [] ("    ".toList ++ ('[' :: (style i.severity).toList ++ ']' ::
      (i.severity.name.toList ++ ('[' :: ['/'] ++ ']' :: ": ".toList)))) :=
    .text (by decide) (by decide) (.styled hstyle hname (.plain (by decide)))
  simp only [issueLines, List.forall_mem_cons, Line.IsNested]
  refine ⟨?_, trivial, by simp⟩
  simpa [toString] using h

section Lines

variable (hplaces : ∀ a ∈ r.functions, ∀ {after}, Nested escape [] after →
  Nested escape [] ((place a).toList ++ after))
include hplaces

theorem nested_indented {a : Label} (ha : a ∈ r.functions) :
    Nested escape [] ("  " ++ place a).toList := by
  rw [String.toList_append]
  refine .text (by decide) (by decide) ?_
  simpa using hplaces a ha .empty

theorem isNested_graphLines : ∀ line ∈ graphLines r, line.IsNested escape := by
  refine List.forall_mem_cons.2 ⟨nested_graphTitle r, fun line hline => ?_⟩
  obtain ⟨⟨caller, callee⟩, -, hline⟩ := List.mem_filterMap.1 hline
  simp only at hline
  split at hline
  · next a b ha hb =>
    cases hline
    have hlist : (s!"  {place a} -> {place b}").toList =
        "  ".toList ++ ((place a).toList ++ (" -> ".toList ++ (place b).toList)) := by
      simp [toString]
    rw [Line.IsNested, hlist]
    refine .text (by decide) (by decide) (hplaces a (mem_of_lastWith ha).1 ?_)
    refine .text (by decide) (by decide) ?_
    simpa using hplaces b (mem_of_lastWith hb).1 .empty
  · cases hline

theorem isNested_purityLines (hpurity : r.purity.map (·.label) = r.functions) :
    ∀ line ∈ purityLines r, line.IsNested escape := by
  refine List.forall_mem_cons.2 ⟨?_, fun line hline => ?_⟩
  · have h : Nested escape [] _ :=
      nested_sectionTitle "Purity" "impure" (by decide) (by decide) r.impure.length
    simpa [Line.IsNested, toString] using h
  · split at hline
    · cases List.mem_singleton.1 hline
      have h : Nested escape [] _ := nested_verdict "All functions are pure".toList (by decide)
      simpa [Line.IsNested] using h
    · obtain ⟨p, hp, hline⟩ := List.mem_flatMap.1 hline
      rcases List.mem_cons.1 hline with rfl | hline
      · exact nested_indented hplaces (hpurity ▸ List.mem_map_of_mem (List.mem_filter.1 hp).1)
      · obtain ⟨reason, -, rfl⟩ := List.mem_map.1 hline
        exact trivial

theorem isNested_asyncLines (hasync : r.async.map (·.label) = r.functions) (t : Severity) :
    ∀ line ∈ asyncLines (r.asyncAtLeast t), line.IsNested escape := by
  refine List.forall_mem_cons.2 ⟨?_, fun line hline => ?_⟩
  · have h : Nested escape [] _ := nested_sectionTitle "Async safety" "issues" (by decide) (by decide)
      ((r.asyncAtLeast t).flatMap (·.issues)).length
    simpa [Line.IsNested, toString] using h
  · split at hline
    · cases List.mem_singleton.1 hline
      have h : Nested escape [] _ := nested_verdict "No async issues".toList (by decide)
      simpa [Line.IsNested] using h
    · obtain ⟨a, ha, hline⟩ := List.mem_flatMap.1 hline
      rcases List.mem_cons.1 hline with rfl | hline
      · obtain ⟨⟨a, hmem, rfl⟩, -⟩ := AsyncResult.mem_filter.1 ha
        have hlabel : a.label ∈ r.functions := hasync ▸ List.mem_map_of_mem hmem
        exact nested_indented hplaces hlabel
      · obtain ⟨i, -, hline⟩ := List.mem_flatMap.1 hline
        exact isNested_issueLines i line hline

end Lines

theorem isNested_errorLines (errors : List String) : ∀ line ∈ errorLines errors, line.IsNested escape := by
  unfold errorLines
  split
  · simp
  · have hdigits : '[' ∉ Nat.toDigits 10 errors.length := notMem_toDigits rfl
    have h : Nested escape [] (['\n'] ++ ('[' :: "red".toList ++ ']' ::
        (("Skipped files: ".toList ++ Nat.toDigits 10 errors.length) ++
          ('[' :: ('/' :: "red".toList) ++ ']' :: [])))) :=
      .opening (by decide) (by decide) (by decide)
        (.closingBy (by simp [hdigits]) (by decide) .empty)
    refine List.forall_mem_cons.2 ⟨by simpa [Line.IsNested, toString] using h, fun line hline => ?_⟩
    obtain ⟨e, -, rfl⟩ := List.mem_map.1 hline
    exact trivial

/-! ## Texts -/

theorem exists_mapM_eq_some {α β : Type} {f : α → Option β} {xs : List α}
    (h : ∀ x ∈ xs, ∃ y, f x = some y) : ∃ ys, xs.mapM f = some ys := by
  induction xs with
  | nil => exact ⟨[], rfl⟩
  | cons x xs ih =>
    rw [List.forall_mem_cons] at h
    obtain ⟨y, hy⟩ := h.1
    obtain ⟨ys, hys⟩ := ih h.2
    exact ⟨y :: ys, by simp [hy, hys]⟩

/-- A report has a text unless the path of one of its functions holds a bracket. -/
theorem exists_text? {F : Cli.Frontend} (hF : F.Renders) (hpurity : r.purity.map (·.label) = r.functions)
    (hasync : r.async.map (·.label) = r.functions)
    (hnames : ∀ a ∈ r.functions, IsFunctionName a.name)
    (hpaths : ∀ a ∈ r.functions, '[' ∉ a.path.toList) (t : Severity) :
    ∃ text, r.text? F.toConsole t = some text := by
  have hplaces : ∀ a ∈ r.functions, ∀ {after}, Nested F.escape [] after →
      Nested F.escape [] ((place a).toList ++ after) :=
    fun a ha _ hafter => nested_place (hnames a ha) (hpaths a ha) hafter
  have hnested : ∀ line ∈ lines r t, line.IsNested F.escape := by
    simp only [lines, List.forall_mem_append]
    exact ⟨⟨⟨isNested_graphLines hplaces, isNested_purityLines hplaces hpurity⟩,
      isNested_asyncLines hplaces hasync t⟩, isNested_errorLines r.errors⟩
  have hlines : ∀ line ∈ lines r t, ∃ text, line.printed? F.toConsole = some text := by
    intro line hline
    have h := hnested line hline
    cases line with
    | plain text => exact ⟨_, rfl⟩
    | marked text =>
      obtain ⟨out, hout⟩ := hF.nested text h
      exact ⟨out ++ "\n", by simp [Line.printed?, hout]⟩
    | begun text => exact hF.nested text h
  obtain ⟨printed, hprinted⟩ := exists_mapM_eq_some hlines
  exact ⟨_, by rw [text?, hprinted]; rfl⟩

end Report

namespace Cli

variable {d : Disk} {cwd : Location} {args : List String} {o : Options} {s : Settings} {P : Project}
  {r : Report}

/-- A report fails a run exactly if its summary counts what the settings forbid. -/
theorem fails_iff (s : Settings) (r : Report) : fails s r = true ↔
    (s.failOnImpure = true ∧ 0 < (r.summary s.severity).impure) ∨
      (s.failOnAsync = true ∧ 0 < (r.summary s.severity).asyncIssues) := by
  have hissues : 0 < (r.summary s.severity).asyncIssues ↔ r.asyncAtLeast s.severity ≠ [] := by
    rw [Report.summary, List.length_pos_iff, Ne, List.flatMap_eq_nil_iff]
    constructor
    · rintro h he
      exact h (by simp [he])
    · intro h hnone
      obtain ⟨a, ha⟩ := List.exists_mem_of_ne_nil _ h
      exact (AsyncResult.mem_filter.1 ha).2 (hnone a ha)
  have himpure : 0 < (r.summary s.severity).impure ↔ r.impure ≠ [] := List.length_pos_iff
  rw [hissues, himpure]
  simp [fails]

variable {F : Frontend}

/-- Progress can be shown unless the name of the root holds a bracket. -/
theorem exists_bracket_of_progressLine (hF : F.Renders) (h : F.marked? (progressLine s) = none) :
    ∃ name, s.root.getLast? = some name ∧ '[' ∈ name.toList := by
  by_contra hnone
  have hname : '[' ∉ (s.root.getLast?.getD "").toList := by
    cases hlast : s.root.getLast? with
    | none => simp
    | some name => exact fun hmem => hnone ⟨name, hlast, hmem⟩
  have hnested : Nested F.escape [] (progressLine s).toList := by
    unfold progressLine
    generalize s.root.getLast?.getD "" = name at hname
    have h : Nested F.escape [] ('[' :: "progress.description".toList ++ ']' ::
        ("Analyzing ".toList ++ ('[' :: "cyan".toList ++ ']' ::
          (name.toList ++ ('[' :: ['/'] ++ ']' :: []))))) := by
      refine .started (by decide) (.text (by decide) (by decide) ?_)
      exact .styled (by decide) hname .empty
    simpa [toString] using h
  obtain ⟨out, hout⟩ := hF.nested _ hnested
  cases h.symm.trans hout

theorem run_of_report (hargs : F.command args = .ok (.analyze o))
    (hs : Settings.loadWith d cwd o.path o.config (overrides o) = .ok s)
    (hP : Project.load d s = .ok P) (hr : P.analyze s.ignore = .ok r) :
    run F d cwd args =
      if !o.json && (F.marked? (progressLine s)).isNone then .error .markup
      else (output F o.json s r).map fun out => ⟨if fails s r then 1 else 0, out, none⟩ := by
  have hanalyzed : analyzed d s = .ok (P, r) := by simp only [analyzed, hP, hr]
  have houtput : ((.ok (P, r) : Except Failure (Project × Report)) >>= fun x =>
      output F o.json s x.2 >>= fun out => pure (⟨if fails s x.2 then 1 else 0, out, none⟩ : Outcome)) =
        (output F o.json s r).map fun out => ⟨if fails s r then 1 else 0, out, none⟩ := by
    change (output F o.json s r >>= fun out => pure _) = _
    cases output F o.json s r <;> rfl
  simp only [run, hargs, runAnalyze, hs, hanalyzed, printed, houtput]
  cases o.json with
  | true => rfl
  | false => cases F.marked? (progressLine s) <;> rfl

/-- **A run, its document and its exit code agree.** The summary of a document has the numbers of
its lists, where an impure function is one with reasons and a listed function has hazards. Whenever
an analysis is asked for with settings that can be read and ends with the report, the exit code is 1
exactly if the settings forbid what the summary counts, and 0 otherwise. With a document as output
there is no exception. With a text there is one: the run breaks off where the markup of the progress
or of a line of the report has no meaning, and then the name of the root or the path of a function
holds a bracket. Filtering twice is filtering at the higher threshold. -/
theorem run_agrees_with_summary (hF : F.Renders) {ignore : List String} (h : P.analyze ignore = .ok r)
    (t : Severity) :
    (∃ graph purity async errors summary, Document.ofReport r t =
        .record [("graph", .record graph), ("purity", .list purity), ("async", .list async),
          ("errors", .list errors), ("summary", summary)] ∧
      Document.Totals graph purity async errors summary ∧
      ∃ impure issues, summary.number? "impure" = some impure ∧
        summary.number? "asyncIssues" = some issues ∧
        ∀ d cwd args o s, F.command args = .ok (.analyze o) →
          Settings.loadWith d cwd o.path o.config (overrides o) = .ok s →
          Project.load d s = .ok P → s.ignore = ignore → s.severity = t →
          ∃ exit, (exit = 1 ↔ (s.failOnImpure = true ∧ 0 < impure) ∨
              (s.failOnAsync = true ∧ 0 < issues)) ∧ (exit = 0 ∨ exit = 1) ∧
            (o.json = true →
              run F d cwd args = .ok ⟨exit, (Document.ofReport r t).render 0 ++ "\n", none⟩) ∧
            (o.json = false →
              (∃ text, r.text? F.toConsole t = some text ∧ run F d cwd args = .ok ⟨exit, text, none⟩) ∨
              (run F d cwd args = .error .markup ∧
                (F.marked? (progressLine s) = none ∧
                    (∃ name, s.root.getLast? = some name ∧ '[' ∈ name.toList) ∨
                  r.text? F.toConsole t = none ∧ ∃ f ∈ r.functions, '[' ∈ f.path.toList)))) ∧
    ∀ results t', AsyncResult.filter (AsyncResult.filter results t) t' =
      AsyncResult.filter results (t.higher t') := by
  refine ⟨?_, fun results t' => AsyncResult.filter_filter results t t'⟩
  obtain ⟨graph, purity, async, errors, hdoc, htotals⟩ := Document.exists_totals h t
  refine ⟨graph, purity, async, errors, _, hdoc, htotals, _, _, rfl, rfl, ?_⟩
  rintro d cwd args o s hargs hs hP rfl rfl
  have hrun := run_of_report hargs hs hP h
  refine ⟨if fails s r then 1 else 0, ?_, ?_, fun hjson => ?_, fun hjson => ?_⟩
  · rw [← fails_iff]
    cases fails s r <;> simp
  · cases fails s r <;> simp
  · rw [hrun, hjson, output, if_pos rfl]
    rfl
  rw [hjson, output, if_neg Bool.false_ne_true] at hrun
  cases hprogress : F.marked? (progressLine s) with
  | none =>
    rw [hprogress] at hrun
    exact .inr ⟨hrun, .inl ⟨rfl, exists_bracket_of_progressLine hF hprogress⟩⟩
  | some shown =>
    rw [hprogress] at hrun
    cases htext : r.text? F.toConsole s.severity with
    | some text =>
      rw [htext] at hrun
      exact .inl ⟨text, rfl, hrun⟩
    | none =>
      rw [htext] at hrun
      refine .inr ⟨hrun, .inr ⟨rfl, ?_⟩⟩
      by_contra hnone
      obtain ⟨text, he⟩ := Report.exists_text? hF (Project.map_label_report_purity h)
        (Project.map_label_report_async h) (Project.isFunctionName_of_analyze h)
        (fun a ha hb => hnone ⟨a, ha, hb⟩) s.severity
      cases htext.symm.trans he

/-- A function that prints, and a project of it alone. -/
def printingDisk (below : Location) : Disk where
  files := [("p" :: below, "def f():\n    print(1)\n".toUTF8.data.toList)]
  directories := []

theorem run_agrees_with_summary_printing :
    Frontend.standard.Renders ∧ ∃ o s P r,
      commandOf ["analyze", "/p", "--json", "--fail-on-impure"] = .ok (.analyze o) ∧
      Settings.loadWith (printingDisk ["m.py"]) [] o.path o.config (overrides o) = .ok s ∧
      Project.load (printingDisk ["m.py"]) s = .ok P ∧ P.analyze s.ignore = .ok r ∧
      run .standard (printingDisk ["m.py"]) [] ["analyze", "/p", "--json", "--fail-on-impure"] =
        .ok ⟨1, (Document.ofReport r s.severity).render 0 ++ "\n", none⟩ := by
  let o : Options := ⟨"/p", none, [], none, true, true, false⟩
  have hargs : commandOf ["analyze", "/p", "--json", "--fail-on-impure"] = .ok (.analyze o) := by
    decide +kernel
  have heval : (Settings.loadWith (printingDisk ["m.py"]) [] o.path o.config (overrides o)).toOption.map
      (fun s => (Project.load (printingDisk ["m.py"]) s).toOption.map fun P =>
        (P.analyze s.ignore).toOption.map fun r =>
          (s.failOnImpure, (r.summary s.severity).impure)) = some (some (some (true, 1))) := by
    decide +kernel
  obtain ⟨s, hs, heval⟩ := exists_ok_of_map_toOption heval
  obtain ⟨P, hP, heval⟩ := exists_ok_of_map_toOption heval
  obtain ⟨r, hr, heval⟩ := exists_ok_of_map_toOption heval
  obtain ⟨hgate, hcount⟩ := Prod.mk.inj heval
  obtain ⟨⟨_, _, _, _, _, hdoc, -, impure, issues, himpure, -, hruns⟩, -⟩ :=
    run_agrees_with_summary Frontend.standard_renders hr s.severity
  simp only [Document.ofReport] at hdoc
  cases hdoc
  cases himpure
  obtain ⟨exit, hexit, -, hjson, -⟩ := hruns _ _ ["analyze", "/p", "--json", "--fail-on-impure"] o s hargs hs hP rfl rfl
  obtain rfl : exit = 1 := hexit.2 (.inl ⟨hgate, hcount ▸ Nat.one_pos⟩)
  exact ⟨Frontend.standard_renders, o, s, P, r, hargs, hs, hP, hr, hjson rfl⟩

/-- A path with a bracket breaks a run off that nothing should fail. -/
theorem run_breaks_off_at_bracket :
    ∃ o s P r, commandOf ["analyze", "/p"] = .ok (.analyze o) ∧
      Settings.loadWith (printingDisk ["[", "x].py"]) [] o.path o.config (overrides o) = .ok s ∧
      Project.load (printingDisk ["[", "x].py"]) s = .ok P ∧ P.analyze s.ignore = .ok r ∧
      s.failOnImpure = false ∧ s.failOnAsync = false ∧
      run .standard (printingDisk ["[", "x].py"]) [] ["analyze", "/p"] = .error .markup := by
  let o : Options := ⟨"/p", none, [], none, false, false, false⟩
  have hargs : commandOf ["analyze", "/p"] = .ok (.analyze o) := by decide +kernel
  have heval : (Settings.loadWith (printingDisk ["[", "x].py"]) [] o.path o.config
      (overrides o)).toOption.map (fun s => (Project.load (printingDisk ["[", "x].py"]) s).toOption.map
        fun P => (P.analyze s.ignore).toOption.map fun r =>
          (s.failOnImpure, s.failOnAsync, r.text? .standard s.severity)) =
      some (some (some (false, false, none))) := by
    decide +kernel
  obtain ⟨s, hs, heval⟩ := exists_ok_of_map_toOption heval
  obtain ⟨P, hP, heval⟩ := exists_ok_of_map_toOption heval
  obtain ⟨r, hr, heval⟩ := exists_ok_of_map_toOption heval
  simp only [Prod.mk.injEq] at heval
  obtain ⟨himpure, hasync, htext⟩ := heval
  refine ⟨o, s, P, r, hargs, hs, hP, hr, himpure, hasync, ?_⟩
  have houtput : output .standard false s r = .error .markup := by
    rw [output, if_neg Bool.false_ne_true, show Frontend.standard.toConsole = .standard from rfl, htext]
  rw [run_of_report hargs hs hP hr, houtput]
  cases (Frontend.standard.marked? (progressLine s)).isNone <;> rfl

end Cli

end EffectGraph
