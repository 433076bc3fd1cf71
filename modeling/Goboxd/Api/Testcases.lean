import Goboxd.Api.Validate
import Goboxd.Lib.GoPath

/-!
# The test cases

`HandleTestcasesGet` serves the two files of a test case that the client names
by its language and its own name, both wildcards of the route and so decoded:
they may hold any bytes. Nothing is between them and the disk but the checks
made here.

The two files are read one after the other. They are never the same, so what
the reads return is a function of the path.
-/

namespace Goboxd.Api

open Go Models

def testcasesDir : GoString := str "/app/testcases"

structure TestcaseDetail where
  lang : GoString
  name : GoString
  input : GoString
  want : GoString
deriving DecidableEq, Repr

def checkTestcase (lang name : GoString) : Except ErrorDetail Unit := do
  reject (lang = [] ∨ name = []) "invalid_request" (str "lang and name are required")
  reject (contains lang (str "..") ∨ contains name (str "..") ∨
      contains lang (str "/") ∨ contains name (str "/")) "invalid_request"
    (str "invalid lang or name")

def inputPath (lang name : GoString) : GoString :=
  pathJoin [testcasesDir, lang, name, str "input.json"]

def wantPath (lang name : GoString) : GoString :=
  pathJoin [testcasesDir, lang, name, str "want.json"]

/-- `os.ReadFile`, and `writeError` when it fails. -/
def readTestcase (readFile : GoString → Option GoString) (path what : GoString) :
    Except ErrorDetail GoString :=
  match readFile path with
  | some data => .ok data
  | none => .error ⟨str "not_found", str "testcase " ++ what ++ str " not found"⟩

def handleTestcasesGet (readFile : GoString → Option GoString) (lang name : GoString) :
    Except ErrorDetail TestcaseDetail := do
  checkTestcase lang name
  let what := lang ++ str "/" ++ name
  let inputData ← readTestcase readFile (inputPath lang name) what
  let wantData ← readTestcase readFile (wantPath lang name) (what ++ str " want.json")
  return { lang, name, input := inputData, want := wantData }

end Goboxd.Api
