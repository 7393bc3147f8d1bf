import TraceWeave.Program.Patch
import TraceWeave.Proofs.Diff.Reading

/-!
Patches of files.

The patch of a file leads from its contents to its printed tree, where the headers of the hunks are
right.
-/

namespace TraceWeave.Program

open TraceWeave.Diff TraceWeave.Source TraceWeave.Syntax

/-- The patch of a file applies to its contents just if the headers of its hunks are right about
where the hunks begin and end, and then it gives the printed tree. -/
theorem filePatch_applies {root : Path} {file : SourceFile} {patch : String}
    (hpatch : filePatch? root file = some patch)
    (hcontents : breaksAtFeeds file.contents.toList = true)
    (hprinted : breaksAtFeeds file.tree.print.toList = true) (text : String) :
    applyPatch (patchName root file.path) patch file.contents = some text ↔
      (∀ hunk ∈ (Texts.ofStrings file.contents file.tree.print).hunks,
        Placed (Texts.ofStrings file.contents file.tree.print) hunk) ∧ text = file.tree.print := by
  unfold filePatch? at hpatch
  split at hpatch
  · cases hpatch
  · obtain rfl := Option.some.inj hpatch
    exact applyPatch_unified _ hcontents hprinted text

/-- A file whose tree has got a comment at its end. -/
def notedFile : SourceFile where
  path := { absolute := true, parts := ["app", "main.go"] }
  contents := "package p\n"
  baseline := "package p\n"
  tree := { package := "p", packageDecs := {}, decls := [], trailing := ["// end"] }
  generated := false

theorem filePatch_applies_notedFile :
    filePatch? { absolute := true, parts := ["app"] } notedFile =
        some "--- a/main.go\n+++ b/main.go\n@@ -1 +1,2 @@\n package p\n+// end\n" ∧
      breaksAtFeeds notedFile.contents.toList = true ∧
      breaksAtFeeds notedFile.tree.print.toList = true ∧
      applyPatch "main.go" "--- a/main.go\n+++ b/main.go\n@@ -1 +1,2 @@\n package p\n+// end\n"
        notedFile.contents = some notedFile.tree.print := by
  have hpatch : filePatch? { absolute := true, parts := ["app"] } notedFile =
      some "--- a/main.go\n+++ b/main.go\n@@ -1 +1,2 @@\n package p\n+// end\n" := by
    decide +kernel
  have hcontents : breaksAtFeeds notedFile.contents.toList = true := by decide +kernel
  have hprinted : breaksAtFeeds notedFile.tree.print.toList = true := by decide +kernel
  exact ⟨hpatch, hcontents, hprinted,
    (filePatch_applies hpatch hcontents hprinted _).2 ⟨by decide +kernel, rfl⟩⟩

end TraceWeave.Program
