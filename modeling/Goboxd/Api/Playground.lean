import Goboxd.Lib.GoPath

/-!
# The playground

`HandlePlayground` serves a tree of files from the disk, and from a copy built
into the binary what the disk does not have. The prefix is taken off the path
twice, by `http.StripPrefix` in the router and again here, so the handler sees
a path without it. Both file systems are arguments.
-/

namespace Goboxd.Api

open Go

/-- The file that a path of the URL asks for. -/
def playgroundFile (urlPath : GoString) : GoString :=
  let filePath := trimPrefix urlPath (str "/playground")
  if filePath = [] ∨ filePath = str "/" then str "/index.html" else filePath

/-- The paths passed to `os.ReadFile`. -/
def playgroundReads (playgroundDistPath urlPath : GoString) : List GoString :=
  if playgroundDistPath ≠ [] then
    [pathJoin [playgroundDistPath, playgroundFile urlPath]]
  else []

/-- The content type `writePlaygroundFile` sets, if it sets one. -/
def playgroundContentType (filePath : GoString) : Option GoString :=
  let ext := pathExt filePath
  if ext = str ".html" then some (str "text/html; charset=utf-8")
  else if ext = str ".js" then some (str "application/javascript")
  else if ext = str ".css" then some (str "text/css")
  else if ext = str ".json" then some (str "application/json")
  else if ext = str ".svg" then some (str "image/svg+xml")
  else if ext = str ".png" then some (str "image/png")
  else if ext = str ".woff2" then some (str "font/woff2")
  else none

inductive PlaygroundAnswer where
  | file (contentType : Option GoString) (data : GoString)
  | notFound
deriving DecidableEq, Repr

/-- `HandlePlayground`: from the disk, from the embedded tree, or its index. -/
def handlePlayground (playgroundDistPath : GoString)
    (readFile embedded : GoString → Option GoString) (urlPath : GoString) :
    PlaygroundAnswer :=
  let filePath := playgroundFile urlPath
  let contentType := playgroundContentType filePath
  match (playgroundReads playgroundDistPath urlPath).findSome? readFile with
  | some data => .file contentType data
  | none =>
      match embedded (pathJoin [str "playground-dist", filePath]) with
      | some data => .file contentType data
      | none =>
          match embedded (str "playground-dist/index.html") with
          | some data => .file contentType data
          | none => .notFound

/-- Of the disk, the answer depends on the paths read and on nothing else. -/
theorem handlePlayground_congr {playgroundDistPath urlPath : GoString}
    {readFile readFile' : GoString → Option GoString}
    (embedded : GoString → Option GoString)
    (h : ∀ p ∈ playgroundReads playgroundDistPath urlPath, readFile p = readFile' p) :
    handlePlayground playgroundDistPath readFile embedded urlPath =
      handlePlayground playgroundDistPath readFile' embedded urlPath := by
  have hfind : (playgroundReads playgroundDistPath urlPath).findSome? readFile =
      (playgroundReads playgroundDistPath urlPath).findSome? readFile' := by
    generalize playgroundReads playgroundDistPath urlPath = reads at h
    induction reads with
    | nil => rfl
    | cons p ps ih =>
        rw [List.findSome?_cons, List.findSome?_cons, h p List.mem_cons_self,
          ih fun q hq => h q (List.mem_cons_of_mem _ hq)]
  unfold handlePlayground
  rw [hfind]

end Goboxd.Api
