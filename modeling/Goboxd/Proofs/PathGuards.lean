import Goboxd.Api.Testcases
import Goboxd.Lib.GoSearch
import Goboxd.Runner.SeedCalls

/-!
# The strings of a client that become paths

Two guards stand between the strings of a client and a path that root opens:
`isValidFilename` before the name of the source file, and the two `Contains` of
`HandleTestcasesGet` before the language and the name of a test case. Both look
for bytes, and what they guard is joined to a directory and cleaned.

What a guard lets through is an element without a separator that is not two
dots, so the walk never goes back, and that is all that is needed of it. The
first guard refuses a leading dot as well, and what it lets through is a name.
The second lets a single dot through, which cleaning drops: the file is then
looked for higher up, but the name the program adds keeps it below the directory.

The root is the one directory that ends in a separator. A name joined to it is
not the root with a separator and the name behind it, since cleaning leaves one
separator of the two.
-/

namespace Goboxd.Api

open Go Models Config Runner

/-! ## What the guards let through -/

theorem isName_of_isValidFilename {name : GoString} (hvalid : isValidFilename name = true)
    (hne : name ≠ []) : Walk.IsName name := by
  unfold isValidFilename at hvalid
  rw [if_neg hne] at hvalid
  split at hvalid
  · cases hvalid
  · next hlen =>
      rw [Bool.not_eq_true', Bool.or_eq_false_iff, Bool.or_eq_false_iff] at hvalid
      obtain ⟨⟨hany, hdot⟩, -⟩ := hvalid
      have hslash : 47 ∉ name := fun h => containsAny_eq_false hany 47 h (by decide)
      have hfirst : ∀ rest, name ≠ str "." ++ rest := by
        rintro rest rfl
        exact absurd (List.isPrefixOf_iff_prefix.mpr (List.prefix_append _ rest))
          (Bool.eq_false_iff.mp hdot)
      exact ⟨hne, fun h => hfirst [] h, fun h => hfirst (str ".") h, hslash⟩

theorem checkTestcase_ok {lang name : GoString} {u : Unit}
    (h : checkTestcase lang name = .ok u) :
    ∀ e ∈ [lang, name], 47 ∉ e ∧ e ≠ str ".." := by
  unfold checkTestcase at h
  obtain ⟨_, _, h⟩ := bind_eq_ok h
  have hbad := reject_ok h
  rw [not_or, not_or, not_or] at hbad
  obtain ⟨hlangDots, hnameDots, hlangSlash, hnameSlash⟩ := hbad
  have hplain : ∀ e : GoString, ¬ contains e (str "..") = true → ¬ contains e (str "/") = true →
      47 ∉ e ∧ e ≠ str ".." := by
    intro e hdots hslash
    refine ⟨fun hmem => hslash (contains_byte.mpr hmem), ?_⟩
    rintro rfl
    exact hdots (by decide)
  intro e he
  rcases List.mem_pair.mp he with rfl | rfl
  · exact hplain e hlangDots hlangSlash
  · exact hplain e hnameDots hnameSlash

/-! ## Where they lead -/

theorem spelled_testcasesDir : Spelled testcasesDir := ⟨by decide, by decide⟩

/-- Whatever file of a test case is asked for, it is below the directory of the test
cases. -/
theorem strictlyUnder_testcase {lang name file : GoString} {u : Unit}
    (h : checkTestcase lang name = .ok u) (hfile : Walk.IsName file) :
    StrictlyUnder testcasesDir (pathJoin [testcasesDir, lang, name, file]) := by
  have helems : ∀ e ∈ [lang, name, file], 47 ∉ e ∧ e ≠ str ".." := by
    intro e he
    rcases List.mem_append.mp (show e ∈ [lang, name] ++ [file] from he) with he | he
    · exact checkTestcase_ok h e he
    · rw [List.mem_singleton.mp he]
      exact ⟨hfile.no_slash, hfile.ne_dots⟩
  have hkept : file ∈ Walk.named [lang, name, file] :=
    List.mem_filter.mpr ⟨by simp, decide_eq_true ⟨hfile.ne_nil, hfile.ne_dot⟩⟩
  exact spelled_testcasesDir.strictlyUnder (fun e he => (helems e he).1)
    (fun e he => (helems e he).2) (List.ne_nil_of_mem hkept)

theorem isName_input : Walk.IsName (str "input.json") :=
  ⟨by decide, by decide, by decide, by decide⟩

theorem isName_want : Walk.IsName (str "want.json") :=
  ⟨by decide, by decide, by decide, by decide⟩

/-- The two guards are enough: in every clean rooted directory a file name that is let
through is a direct child, and the two files of every test case that is let through
are below the directory of the test cases. -/
theorem path_guards_confine :
    (∀ base s : GoString, isAbs base = true → pathClean base = base →
      isValidFilename s = true → s ≠ [] →
        (base ≠ str "/" → pathJoin [base, s] = base ++ str "/" ++ s) ∧
        (base = str "/" → pathJoin [base, s] = str "/" ++ s) ∧
        pathDir (pathJoin [base, s]) = base ∧ pathBase (pathJoin [base, s]) = s ∧
        s ≠ str "." ∧ s ≠ str "..") ∧
    (∀ lang name : GoString, checkTestcase lang name = .ok () →
      StrictlyUnder testcasesDir (inputPath lang name) ∧
        StrictlyUnder testcasesDir (wantPath lang name)) := by
  constructor
  · intro base s habs hclean hvalid hne
    have hn := isName_of_isValidFilename hvalid hne
    obtain ⟨hdir, hbase⟩ := pathDir_pathJoin habs hclean hn
    refine ⟨fun hroot => ?_, fun hroot => ?_, hdir, hbase, hn.ne_dot, hn.ne_dots⟩
    · have hspelled := (root_or_spelled habs hclean).resolve_left hroot
      rw [hspelled.pathJoin hn, List.append_assoc]
      rfl
    · rw [hroot, pathJoin_root hn]
      rfl
  · intro lang name h
    exact ⟨strictlyUnder_testcase h isName_input, strictlyUnder_testcase h isName_want⟩

theorem solution_in_app :
    pathJoin [str "/app", str "solution.py"] = str "/app" ++ str "/" ++ str "solution.py" ∧
      StrictlyUnder testcasesDir (inputPath (str ".") (str "hello")) :=
  ⟨(path_guards_confine.1 (str "/app") (str "solution.py") (by decide) (by decide) (by decide)
      (by decide)).1 (by decide),
    (path_guards_confine.2 (str ".") (str "hello") (by decide)).1⟩

/-- A file name that is let through, joined to the root. -/
theorem root_child_one_separator :
    isAbs (str "/") = true ∧ pathClean (str "/") = str "/" ∧
      isValidFilename (str "x") = true ∧ str "x" ≠ [] ∧
      pathJoin [str "/", str "x"] ≠ str "/" ++ str "/" ++ str "x" := by
  decide

/-! ## What follows for the two consumers -/

/-- The answer depends on the files below the directory of the test cases and on
nothing else of the disk. -/
theorem handleTestcasesGet_congr {readFile readFile' : GoString → Option GoString}
    (h : ∀ path, StrictlyUnder testcasesDir path → readFile path = readFile' path)
    (lang name : GoString) :
    handleTestcasesGet readFile lang name = handleTestcasesGet readFile' lang name := by
  unfold handleTestcasesGet
  cases hcheck : checkTestcase lang name with
  | error e => rfl
  | ok u =>
      have hread : ∀ file what, Walk.IsName file →
          readTestcase readFile (pathJoin [testcasesDir, lang, name, file]) what =
            readTestcase readFile' (pathJoin [testcasesDir, lang, name, file]) what := by
        intro file what hfile
        rw [readTestcase, readTestcase, h _ (strictlyUnder_testcase hcheck hfile)]
      simp only [inputPath, wantPath, hread _ _ isName_input, hread _ _ isName_want]

/-- The source of an accepted request is written into the directory of its jail, under
the name the request gives, wherever that directory is. -/
theorem srcPath_accepted {getenv : Env} {reg : Registry}
    {decoded : Except GoString RunRequest} {req : RunRequest} {lc : LanguageConfig}
    (h : validateRun getenv reg decoded = .ok (req, lc)) (hne : req.sourceFilename ≠ [])
    (hfree : lc.sourceFilenameStrategy ≠ str "fixed") (dir : GoString) :
    Seed.srcPath dir (resolveSourceName req lc) =
      Seed.appDir dir ++ 47 :: req.sourceFilename := by
  have hn := isName_of_isValidFilename (validateRun_ok h).2.sourceFilename hne
  have happ : Spelled (Seed.appDir dir) :=
    spelled_pathJoin dir ⟨by decide, by decide, by decide, by decide⟩
  rw [resolveSourceName, if_neg hfree, if_pos hne, Seed.srcPath, happ.pathJoin hn]

end Goboxd.Api
