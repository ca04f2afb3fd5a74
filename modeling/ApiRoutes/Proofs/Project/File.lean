import ApiRoutes.Project.File
import ApiRoutes.Proofs.Text.Patch
/-!
# The patch of a generated file

What a dry run shows of a file (`GeneratedFile.patch`) is empty exactly when nothing changes, and leads from the text
before to the new one unless other lines come for a last line without an end (`GeneratedFile.patch_describes`).
-/
namespace ApiRoutes.Project.GeneratedFile

open Patch

/-- **The patch of a file describes its change**: it is empty when there is none, and otherwise it makes the content of
the text before, unless it puts other lines in the place of an open line at the end of that text. -/
theorem patch_describes (f : GeneratedFile) :
    (f.patch = [] ↔ f.previous.getD [] = f.content) ∧
      (IsWithin f.path → (patched? f.patch (f.previous.getD []) = some f.content ↔
        ¬ ReplacesOpenLine (difference (linesOf (f.previous.getD [])) (linesOf f.content)))) := by
  refine ⟨render_eq_nil_iff, fun hpath => ?_⟩
  have hold : IsWithin (if f.previous.isSome then "a/" ++ f.path else "/dev/null" : Text) := by
    split
    · exact (show IsWithin (Text.ofString "a/") by decide).append hpath
    · decide
  have hnew : IsWithin (Text.ofString "b/" ++ f.path) := (show IsWithin (Text.ofString "b/") by decide).append hpath
  exact patched?_render hold hnew

/-- The lost end of a last line: nothing comes for the line before. -/
theorem patch_describes_lineEnds :
    IsWithin (Text.ofString "x.js") ∧
      patched? (patch ⟨"x.js", Text.ofString "a\r\nb", some (Text.ofString "a\r\nc\r\n")⟩) (Text.ofString "a\r\nc\r\n") =
        some (Text.ofString "a\r\nb") := by
  have hdifference : difference (linesOf (Text.ofString "a\r\nc\r\n")) (linesOf (Text.ofString "a\r\nb")) =
      [.same [Text.ofString "a\r\n"], .changed [Text.ofString "c\r\n"] [Text.ofString "b"]] := by cbv
  have hpath : IsWithin (Text.ofString "x.js") := by decide
  refine ⟨hpath, ((patch_describes ⟨"x.js", _, some _⟩).2 hpath).2 ?_⟩
  rintro ⟨old, l, new, h, hopen, -⟩
  rw [Option.getD_some, hdifference] at h
  obtain ⟨hold, -⟩ := Piece.changed.inj (Option.some.inj h)
  have hl : some (Text.ofString "c\r\n") = some l := (congrArg List.getLast? hold).trans List.getLast?_concat
  cases hl
  exact absurd hopen.2 (by decide)

/-- A last line without an end, and the line that comes for it, are one line of the patch. -/
theorem patch_of_openLine :
    patch ⟨"x", Text.ofString "b", some (Text.ofString "a")⟩ =
        Text.ofString "--- a/x\n+++ b/x\n@@ -1 +1 @@\n-a+b" ∧
      patched? (patch ⟨"x", Text.ofString "b", some (Text.ofString "a")⟩) (Text.ofString "a") = none := by
  have hpatch : patch ⟨"x", Text.ofString "b", some (Text.ofString "a")⟩ =
      Text.ofString "--- a/x\n+++ b/x\n@@ -1 +1 @@\n-a+b" := by cbv
  refine ⟨hpatch, ?_⟩
  rw [hpatch]
  decide +kernel

end ApiRoutes.Project.GeneratedFile
