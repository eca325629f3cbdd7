import LogQuery.Proofs.Engine.Pruning
import LogQuery.Proofs.Engine.Values
import LogQuery.Proofs.Log.Pieces

/-!
# Rotated logs

A log may be rotated after any line. A plan then reads two files where it read one, but
the same lines in the same order, and it cannot tell the difference: neither a count nor
the values of a field nor an ordered search depend on where one file ends.
-/

namespace LogQuery.Engine

open LogQuery.Text LogQuery.Store LogQuery.Log LogQuery.Record

variable {plan : Plan} {c c' : Config} {fs fs' : FileSystem} {files files' : List FilePath}

/-- A plan makes no difference between two lists of files, wherever they are: it always
answers from both with the same, or sends the same from both in order. -/
structure Alike (plan : Plan) (c : Config) (fs : FileSystem) (files : List FilePath)
    (c' : Config) (fs' : FileSystem) (files' : List FilePath) : Prop where
  answers : plan.kind ≠ .search →
    ∃ a, AlwaysAnswers c fs plan files a ∧ AlwaysAnswers c' fs' plan files' a
  sends : plan.kind = .search → c.skipSort = false → c'.skipSort = false →
    ∃ items, AlwaysSends c fs plan files items ∧ AlwaysSends c' fs' plan files' items

/-- Readable files with the same lines are alike. -/
theorem alike_of_lines (c c' : Config) (hfiles : ∀ p ∈ files, Readable fs p)
    (hfiles' : ∀ p ∈ files', Readable fs' p) (hlines : linesOf fs files = linesOf fs' files') :
    Alike plan c fs files c' fs' files' where
  answers hk := by
    refine ⟨_, alwaysAnswers_complete c hk fun _ => hfiles, ?_⟩
    rw [completeAnswer_of_lines hlines]
    exact alwaysAnswers_complete c' hk fun _ => hfiles'
  sends hk hsort hsort' := by
    refine ⟨_, alwaysSends hfiles hk hsort, ?_⟩
    rw [recordsIn_eq, hlines, ← recordsIn_eq]
    exact alwaysSends hfiles' hk hsort'

theorem linesOf_cons {p : FilePath} {content : Bytes} (h : fs.read p = .ok content)
    (files : List FilePath) :
    linesOf fs (p :: files) = (numberedLines content).map Prod.snd ++ linesOf fs files := by
  rw [linesOf, List.flatMap_cons, linesIn_of_ok h]
  rfl

/-- A content that ends in a line feed and one that follows it have the lines of both
together. -/
theorem linesOf_rotated {first second : Bytes} (hfirst : first.getLast? = some lineFeed)
    {p p₁ p₂ : FilePath} (hwhole : fs.read p = .ok (first ++ second))
    (hread₁ : fs'.read p₁ = .ok first) (hread₂ : fs'.read p₂ = .ok second) :
    linesOf fs [p] = linesOf fs' [p₁, p₂] := by
  rw [linesOf_cons hwhole, linesOf_cons hread₁, linesOf_cons hread₂,
    map_snd_numberedLines_append hfirst, List.append_assoc]
  rfl

/-- The lines of a content are its pieces between line feeds, numbered from 1 without gaps,
each without one carriage return at its end. So a content that ends in a line feed keeps its
lines when another one is appended to it, whose lines follow, and no plan makes a difference
between one file that holds both and two files that hold one each. -/
theorem rotation_unnoticed (content : Bytes) :
    (∀ i, (numberedLines content)[i]? =
      (pieces content)[i]?.map fun piece => (i + 1, bare piece)) ∧
    ∀ first second, content = first ++ second → first.getLast? = some lineFeed →
      (numberedLines content).map Prod.snd =
        (numberedLines first).map Prod.snd ++ (numberedLines second).map Prod.snd ∧
      ∀ (plan : Plan) (c c' : Config) (fs fs' : FileSystem) (p p₁ p₂ : FilePath),
        fs.read p = .ok content → fs'.read p₁ = .ok first → fs'.read p₂ = .ok second →
          Alike plan c fs [p] c' fs' [p₁, p₂] := by
  refine ⟨getElem?_numberedLines content, ?_⟩
  rintro first second rfl hfirst
  refine ⟨map_snd_numberedLines_append hfirst second, ?_⟩
  intro plan c c' fs fs' p p₁ p₂ hwhole hread₁ hread₂
  refine alike_of_lines c c' (by simpa [Readable] using ⟨_, hwhole⟩) ?_
    (linesOf_rotated hfirst hwhole hread₁ hread₂)
  simpa [Readable] using ⟨⟨_, hread₁⟩, _, hread₂⟩

/-- The log of `threeLines`, rotated after its second line. -/
def rotated : FileSystem where
  top := .directory [("log", .file (encode "\x7b\"n\":3\x7d")),
    ("log.1", .file (encode "\x7b\"n\":1\x7d\nn=3\n"))]
  working := []

/-- The records in which `n` is more than 2 are counted and found as before. -/
theorem rotated_alike :
    let old : FilePath := ⟨"/log.1"⟩
    let c : Config := ⟨⟨"/"⟩, 1, false, 1⟩
    threeLines.read theLog = .ok (encode "\x7b\"n\":1\x7d\nn=3\n\x7b\"n\":3\x7d") ∧
    rotated.read old = .ok (encode "\x7b\"n\":1\x7d\nn=3\n") ∧
    rotated.read theLog = .ok (encode "\x7b\"n\":3\x7d") ∧
    (∃ a, AlwaysAnswers c threeLines (large .count) [theLog] a ∧
      AlwaysAnswers c rotated (large .count) [old, theLog] a) ∧
    ∃ items, AlwaysSends c threeLines (large .search) [theLog] items ∧
      AlwaysSends c rotated (large .search) [old, theLog] items := by
  intro old c
  have hwhole : threeLines.read theLog = .ok (encode "\x7b\"n\":1\x7d\nn=3\n\x7b\"n\":3\x7d") := rfl
  have hold : rotated.read old = .ok (encode "\x7b\"n\":1\x7d\nn=3\n") := by decide +kernel
  have hnew : rotated.read theLog = .ok (encode "\x7b\"n\":3\x7d") := rfl
  obtain ⟨-, halike⟩ := (rotation_unnoticed (encode "\x7b\"n\":1\x7d\nn=3\n\x7b\"n\":3\x7d")).2
    (encode "\x7b\"n\":1\x7d\nn=3\n") (encode "\x7b\"n\":3\x7d") rfl rfl
  exact ⟨hwhole, hold, hnew, (halike (large .count) c c _ _ _ _ _ hwhole hold hnew).answers (by decide),
    (halike (large .search) c c _ _ _ _ _ hwhole hold hnew).sends rfl rfl rfl⟩

end LogQuery.Engine
