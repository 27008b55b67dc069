import Mathlib.Algebra.BigOperators.Group.List.Basic
import TextGrammar.Proofs.Canonical
import TextGrammar.Proofs.Forced.Resolution

/-!
# Filling in forced references

Where every symbol stands for a list of alternatives, an alternative with forced references stands
for all the ways to fill them in, in lexicographic order, the leftmost reference first.

* `Alternative.fillings` lists them.
* `fillings_append` and `Alternative.fillings_ofSegments` say how the list depends on the segments.
* `Alternative.length_fillings` counts: as many as the product of the choices for each reference.
-/

namespace TextGrammar

/-- What a segment may be replaced with: a forced reference with each alternative of its target,
and any other segment with itself. -/
def Segment.fillings (choices : Symbol → List Alternative) : Segment → List (List Segment)
  | literal text => [[literal text]]
  | ref symbol => [[ref symbol]]
  | forced symbol => (choices symbol).map Alternative.segments

/-- Every way to fill in the forced references of some segments. The choice for the leftmost one
changes last. -/
def fillings (choices : Symbol → List Alternative) : List Segment → List (List Segment)
  | [] => [[]]
  | segment :: rest =>
    (segment.fillings choices).flatMap fun front =>
      (fillings choices rest).map fun back => front ++ back

/-- The alternatives that one with forced references stands for. -/
def Alternative.fillings (choices : Symbol → List Alternative) (a : Alternative) :
    List Alternative :=
  (TextGrammar.fillings choices a.segments).map ofSegments

variable {choices choices' : Symbol → List Alternative}

theorem fillings_append (left right : List Segment) :
    fillings choices (left ++ right) =
      (fillings choices left).flatMap fun front =>
        (fillings choices right).map fun back => front ++ back := by
  induction left with
  | nil => simp [fillings]
  | cons segment left ih =>
    rw [List.cons_append, fillings, fillings, ih, List.flatMap_assoc]
    apply List.flatMap_congr
    intro front _
    rw [List.map_flatMap, List.flatMap_map]
    apply List.flatMap_congr
    intro middle _
    rw [List.map_map]
    apply List.map_congr_left
    intro back _
    exact (List.append_assoc front middle back).symm

theorem Segment.fillings_of_forced?_eq_none {segment : Segment} (h : segment.forced? = none) :
    segment.fillings choices = [[segment]] := by
  cases segment with
  | literal text => rfl
  | ref symbol => rfl
  | forced symbol => cases h

theorem fillings_cons_of_forced?_eq_none {segment : Segment} (h : segment.forced? = none)
    (rest : List Segment) :
    fillings choices (segment :: rest) =
      (fillings choices rest).map fun filled => segment :: filled := by
  rw [fillings, Segment.fillings_of_forced?_eq_none h, List.flatMap_singleton]
  rfl

/-- Segments without forced references stand for themselves. -/
theorem fillings_of_free {segments : List Segment}
    (h : Alternative.firstForcedIn? segments = none) :
    fillings choices segments = [segments] := by
  induction segments with
  | nil => rfl
  | cons segment rest ih =>
    cases segment with
    | literal text =>
      have hrest : Alternative.firstForcedIn? rest = none := Option.map_eq_none_iff.1 h
      rw [fillings_cons_of_forced?_eq_none rfl, ih hrest, List.map_singleton]
    | ref symbol =>
      have hrest : Alternative.firstForcedIn? rest = none := Option.map_eq_none_iff.1 h
      rw [fillings_cons_of_forced?_eq_none rfl, ih hrest, List.map_singleton]
    | forced symbol => cases h

/-- What segments stand for depends on the choices for their forced references only. -/
theorem fillings_congr {segments : List Segment}
    (h : ∀ symbol ∈ segments.filterMap Segment.forced?, choices symbol = choices' symbol) :
    fillings choices segments = fillings choices' segments := by
  induction segments with
  | nil => rfl
  | cons segment rest ih =>
    have hsegment : segment.fillings choices = segment.fillings choices' := by
      cases segment with
      | literal text => rfl
      | ref symbol => rfl
      | forced symbol => exact congrArg (List.map _) (h symbol List.mem_cons_self)
    have hrest : fillings choices rest = fillings choices' rest := by
      apply ih
      intro symbol hsymbol
      apply h
      rw [List.filterMap_cons]
      split
      · exact hsymbol
      · exact List.mem_cons_of_mem _ hsymbol
    rw [fillings, fillings, hsegment, hrest]

/-! ## Up to the canonical form -/

namespace Alternative

open Segment

/-- What stands behind a segment counts only for what it stands for in the canonical form. -/
theorem map_ofSegments_fillings_cons (segment : Segment) {rest rest' : List Segment}
    (h : (TextGrammar.fillings choices rest).map ofSegments =
      (TextGrammar.fillings choices rest').map ofSegments) :
    (TextGrammar.fillings choices (segment :: rest)).map ofSegments =
      (TextGrammar.fillings choices (segment :: rest')).map ofSegments := by
  rw [TextGrammar.fillings, TextGrammar.fillings, List.map_flatMap, List.map_flatMap]
  apply List.flatMap_congr
  intro front _
  have hmap := congrArg
    (List.map fun a : Alternative => (⟨front.foldr attach a.segments⟩ : Alternative)) h
  simp only [List.map_map, Function.comp_def, ← ofSegments_append] at hmap
  rw [List.map_map, List.map_map]
  exact hmap

theorem map_ofSegments_fillings_attach (segment : Segment) (rest : List Segment) :
    (TextGrammar.fillings choices (segment.attach rest)).map ofSegments =
      (TextGrammar.fillings choices (segment :: rest)).map ofSegments := by
  unfold attach
  split
  · rw [fillings_cons_of_forced?_eq_none rfl, List.map_map]
    rfl
  · rename_i text next rest _
    rw [fillings_cons_of_forced?_eq_none rfl, fillings_cons_of_forced?_eq_none rfl,
      fillings_cons_of_forced?_eq_none rfl, List.map_map, List.map_map, List.map_map]
    apply List.map_congr_left
    intro filled _
    show ofSegments (.literal (text ++ next) :: filled) =
      ofSegments (.literal text :: .literal next :: filled)
    rw [ofSegments_cons, ofSegments_cons, ofSegments_cons, attach_literal_attach_literal]
  · rfl

/-- Joining literals changes nothing about what segments stand for. -/
theorem fillings_ofSegments (segments : List Segment) :
    (ofSegments segments).fillings choices =
      (TextGrammar.fillings choices segments).map ofSegments := by
  unfold fillings
  induction segments with
  | nil => rfl
  | cons segment rest ih =>
    rw [ofSegments_cons, map_ofSegments_fillings_attach]
    exact map_ofSegments_fillings_cons segment ih

/-- An alternative without forced references stands for itself. -/
theorem fillings_of_firstForced?_eq_none {a : Alternative} (hcanonical : a.Canonical)
    (h : a.firstForced? = none) : a.fillings choices = [a] := by
  rw [fillings, fillings_of_free h, List.map_singleton, hcanonical]

theorem fillings_congr {a : Alternative}
    (h : ∀ symbol ∈ a.forcedReferences, choices symbol = choices' symbol) :
    a.fillings choices = a.fillings choices' := by
  rw [fillings, fillings, TextGrammar.fillings_congr h]

/-! ## Counting -/

/-- An alternative stands for as many as the product of the choices for its forced references. -/
theorem length_fillings (a : Alternative) :
    (a.fillings choices).length =
      (a.forcedReferences.map fun symbol => (choices symbol).length).prod := by
  rw [fillings, List.length_map, forcedReferences]
  induction a.segments with
  | nil => rfl
  | cons segment rest ih =>
    cases segment with
    | literal text =>
      rw [fillings_cons_of_forced?_eq_none rfl, List.length_map, ih]
      rfl
    | ref symbol =>
      rw [fillings_cons_of_forced?_eq_none rfl, List.length_map, ih]
      rfl
    | forced symbol =>
      have hreferences : (forced symbol :: rest).filterMap Segment.forced? =
          symbol :: rest.filterMap Segment.forced? := rfl
      rw [hreferences, List.map_cons, List.prod_cons, ← ih, TextGrammar.fillings,
        List.length_flatMap]
      simp [Segment.fillings, Function.comp_def]

end Alternative

end TextGrammar
