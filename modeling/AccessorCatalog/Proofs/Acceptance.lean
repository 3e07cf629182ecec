/-
# Which headers are accepted

A header is read by a segmentation with two searches and two checks, and a walk with a check of its
own.  On headers without backslashes all of that comes down to one condition,
`parseHeader_isOk_iff`: the braces of the normalized header balance.  The segmentation looks at the
text with its type definitions converted, and the condition is about the text without; the two agree
because the layout of a normalized header puts every closing brace on a line of its own
(`balanced_convertTypedefs_iff`).
-/
import AccessorCatalog.Proofs.Segmentation
import AccessorCatalog.Proofs.Walk

namespace AccessorCatalog.Outline

/-- A header that is segmented is read to its end. -/
theorem parseHeader_of_segment {limit : Nat} {header t : Text} {s : Segmented}
    (plain : '\\' ∉ Source.normalize t)
    (found : segment limit header (Source.normalize t) = .ok s) :
    ∃ cs, parseHeader limit header t = .ok cs := by
  obtain ⟨ps, qs, passes, written⟩ := exists_pieces plain found
  obtain ⟨f, nested⟩ := checkMarks_eq_ok_iff.mp
    (passes.checkMarks (Source.not_mem_convertTypedefs plain) written header)
  unfold parseHeader segmentHeader
  rw [found]
  show ∃ cs, classes header s = .ok cs
  unfold classes
  rw [nested, walk_forest]
  exact ⟨_, rfl⟩

/-- **A header is accepted exactly if its braces balance**, with a limit that is no less than the
number of its braces.  What is refused is refused as a malformed construct of the header. -/
theorem parseHeader_isOk_iff {limit : Nat} (header : Text) {t : Text}
    (plain : '\\' ∉ Source.normalize t)
    (enough : (braces (Source.convertTypedefs (Source.normalize t))).length ≤ limit) :
    ((∃ cs, parseHeader limit header t = .ok cs) ↔ Balanced (Source.normalize t)) ∧
      (¬ Balanced (Source.normalize t) → ∃ offset fault,
        parseHeader limit header t = .error (.malformedConstruct header offset fault)) := by
  have refused (unbalanced : ¬ Balanced (Source.normalize t)) : ∃ offset fault,
      parseHeader limit header t = .error (.malformedConstruct header offset fault) := by
    cases found : segment limit header (Source.normalize t) with
    | ok s => exact absurd ((segment_eq_ok_iff plain).mp found).1 unbalanced
    | error e =>
      obtain ⟨offset, fault, rfl⟩ := segment_error plain found
      refine ⟨offset, fault, ?_⟩
      unfold parseHeader segmentHeader
      rw [found]
      rfl
  refine ⟨⟨?_, fun balanced => ?_⟩, refused⟩
  · rintro ⟨cs, accepted⟩
    by_contra unbalanced
    obtain ⟨offset, fault, error⟩ := refused unbalanced
    rw [error] at accepted
    cases accepted
  · have converted := (balanced_convertTypedefs_iff (Source.laid_normalize t)).mpr balanced
    obtain ⟨s, found⟩ := segment_isOk header plain balanced converted enough
    exact parseHeader_of_segment plain found

/-- A type definition directly before the end of a class, and the same class without its end. -/
theorem parseHeader_isOk_iff_typedef :
    (∃ cs, parseHeader 4 "a.h".toList "class A \x7b typedef \x7d;".toList = .ok cs) ∧
      ∃ offset fault, parseHeader 3 "a.h".toList "class A \x7b typedef B C;".toList =
        .error (.malformedConstruct "a.h".toList offset fault) :=
  ⟨(parseHeader_isOk_iff "a.h".toList (by decide +kernel) (by decide +kernel)).1.mpr
      (by decide +kernel),
    (parseHeader_isOk_iff "a.h".toList (by decide +kernel) (by decide +kernel)).2
      (by decide +kernel)⟩

end AccessorCatalog.Outline
