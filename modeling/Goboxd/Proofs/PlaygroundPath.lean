import Goboxd.Api.Playground

/-!
# Which files the playground serves

The path of a request is joined to the directory of the playground. Joining
cleans, and cleaning resolves the two dots of the request against the
directory's own names, so the directory does not hold the path in: every two
dots that the request does not spend on its own names climb out of the tree.

Such a request still ends up inside when it names again what it climbed over.
-/

namespace Goboxd.Api

open Go

/-- Which requests are served from the tree. For every directory and every path
of a URL, what is passed to `os.ReadFile` lies in the directory exactly when the
file asked for stays in it: it climbs over no more than the directory's names,
and comes back down through them. -/
theorem playground_under_iff {playgroundDistPath : GoString}
    (hdist : playgroundDistPath ≠ []) (urlPath : GoString) :
    (∀ p ∈ playgroundReads playgroundDistPath urlPath, Under playgroundDistPath p) ↔
      StaysIn playgroundDistPath (playgroundFile urlPath) := by
  rw [playgroundReads, if_pos hdist, List.forall_mem_singleton]
  exact under_pathJoin_iff hdist _

def distPath : GoString := str "internal/api/playground-dist"

theorem playground_under_assets :
    Under distPath (str "internal/api/playground-dist/assets/app.js") := by
  have hdist : distPath ≠ [] := by decide
  have hunder := (playground_under_iff hdist (str "/assets/./app.js")).mpr
    (.of_ups (by decide))
  exact hunder _ (by decide)

/-- A decoded `..`, and one that the second trimming of the prefix lays bare. -/
theorem playground_escapes :
    (¬ ∀ p ∈ playgroundReads distPath (str "/../../../etc/shadow"), Under distPath p) ∧
      ¬ ∀ p ∈ playgroundReads distPath (str "/playground../playground.go"),
        Under distPath p := by
  refine ⟨fun h => ?_, fun h => ?_⟩
  · exact absurd (h (str "etc/shadow") (by decide)).names (by decide)
  · exact absurd (h (str "internal/api/playground.go") (by decide)).names (by decide)

end Goboxd.Api
