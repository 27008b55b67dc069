import Mathlib.Data.List.Chain
import TextGrammar.Alternative.Reader
import TextGrammar.Proofs.References

/-!
# Canonical alternatives

Joining literals may be put off: segments that are brought into the canonical form piece by piece
come out as if they were brought into it at once.

* `Alternative.ofSegments_append_ofSegments` is that for a piece in the middle.
* `Alternative.Canonical` holds of what is in the canonical form already.
  `Alternative.canonical_parse` and `Alternative.canonical_ofSegments` give the two sources of such
  alternatives.
* `Alternative.Separated` is what one sees of that form: no literal is empty, and no two are
  adjacent. That is all there is to it (`Alternative.Separated.canonical`), so a part of what is in
  the form is in it, too.
* `Alternative.ofSegments_append_cons`: nothing is joined across a reference.
-/

namespace TextGrammar

namespace Segment

theorem attach_literal_attach_literal (text next : Text) (rest : List Segment) :
    (literal text).attach ((literal next).attach rest) = (literal (text ++ next)).attach rest := by
  cases next with
  | nil =>
    rw [List.append_nil]
    rfl
  | cons d next =>
    cases text with
    | nil =>
      cases rest with
      | nil => rfl
      | cons segment rest => cases segment <;> rfl
    | cons c text =>
      cases rest with
      | nil => rfl
      | cons segment rest =>
        cases segment with
        | literal last =>
          show [literal (c :: text ++ (d :: next ++ last))] ++ rest =
            [literal (c :: text ++ (d :: next) ++ last)] ++ rest
          rw [List.append_assoc]
        | ref symbol => rfl
        | forced symbol => rfl

/-- A segment may be attached before or after what follows is brought into form. -/
theorem foldr_attach_attach (segment : Segment) (segments rest : List Segment) :
    (segment.attach segments).foldr attach rest = segment.attach (segments.foldr attach rest) := by
  cases segment with
  | ref symbol => rfl
  | forced symbol => rfl
  | literal text =>
    cases text with
    | nil => rfl
    | cons c text =>
      cases segments with
      | nil => rfl
      | cons next segments =>
        cases next with
        | ref symbol => rfl
        | forced symbol => rfl
        | literal next =>
          show (literal (c :: text ++ next)).attach (segments.foldr attach rest) =
            (literal (c :: text)).attach ((literal next).attach (segments.foldr attach rest))
          rw [attach_literal_attach_literal]

theorem foldr_attach_foldr_attach (segments rest : List Segment) :
    (segments.foldr attach []).foldr attach rest = segments.foldr attach rest := by
  induction segments with
  | nil => rfl
  | cons segment segments ih => rw [List.foldr_cons, foldr_attach_attach, ih, List.foldr_cons]

/-- Whether a segment is a reference, forced or not. -/
def isReference (segment : Segment) : Bool :=
  segment.reference?.isSome

theorem attach_of_isReference {reference : Segment} (h : reference.isReference = true)
    (rest : List Segment) : reference.attach rest = reference :: rest := by
  cases reference with
  | literal text => cases h
  | ref symbol => rfl
  | forced symbol => rfl

theorem attach_append_cons {reference : Segment} (h : reference.isReference = true)
    (segment : Segment) (front back : List Segment) :
    segment.attach (front ++ reference :: back) = segment.attach front ++ reference :: back := by
  cases segment with
  | ref symbol => rfl
  | forced symbol => rfl
  | literal text =>
    cases text with
    | nil => rfl
    | cons c text =>
      cases front with
      | nil =>
        cases reference with
        | literal text => cases h
        | ref symbol => rfl
        | forced symbol => rfl
      | cons next front => cases next <;> rfl

/-- Joining literals keeps everything that literals have no part in, and its order. -/
theorem filterMap_attach {β : Type} {f : Segment → Option β}
    (hf : ∀ text, f (literal text) = none) (segment : Segment) (rest : List Segment) :
    (segment.attach rest).filterMap f = (segment :: rest).filterMap f := by
  unfold attach
  split
  · rw [List.filterMap_cons_none (hf _)]
  · rw [List.filterMap_cons_none (hf _), List.filterMap_cons_none (hf _),
      List.filterMap_cons_none (hf _)]
  · rfl

end Segment

namespace Alternative

open Segment

theorem ofSegments_cons (segment : Segment) (segments : List Segment) :
    ofSegments (segment :: segments) = ⟨segment.attach (ofSegments segments).segments⟩ :=
  rfl

theorem ofSegments_append (left right : List Segment) :
    ofSegments (left ++ right) = ⟨left.foldr attach (ofSegments right).segments⟩ :=
  congrArg Alternative.mk List.foldr_append

theorem filterMap_ofSegments {β : Type} {f : Segment → Option β}
    (hf : ∀ text, f (.literal text) = none) (segments : List Segment) :
    (ofSegments segments).segments.filterMap f = segments.filterMap f := by
  induction segments with
  | nil => rfl
  | cons segment rest ih =>
    rw [ofSegments_cons, filterMap_attach hf, List.filterMap_cons, List.filterMap_cons, ih]

/-- A piece in the middle may be brought into the canonical form first. -/
theorem ofSegments_append_ofSegments (front middle back : List Segment) :
    ofSegments (front ++ (ofSegments middle).segments ++ back) =
      ofSegments (front ++ middle ++ back) := by
  rw [List.append_assoc, List.append_assoc, ofSegments_append, ofSegments_append front]
  rw [ofSegments_append (ofSegments middle).segments, ofSegments_append middle]
  show Alternative.mk (front.foldr attach ((middle.foldr attach []).foldr attach _)) = _
  rw [foldr_attach_foldr_attach]

/-- Nothing is joined across a reference. -/
theorem ofSegments_append_cons {reference : Segment} (h : reference.isReference = true)
    (front back : List Segment) :
    (ofSegments (front ++ reference :: back)).segments =
      (ofSegments front).segments ++ reference :: (ofSegments back).segments := by
  induction front with
  | nil => exact attach_of_isReference h _
  | cons segment front ih =>
    rw [List.cons_append, ofSegments_cons, ofSegments_cons, ih]
    exact attach_append_cons h segment _ _

/-! ## What is in the form already -/

/-- An alternative that the canonical form leaves as it is. -/
def Canonical (a : Alternative) : Prop :=
  ofSegments a.segments = a

instance (a : Alternative) : Decidable a.Canonical :=
  inferInstanceAs (Decidable (_ = _))

theorem canonical_ofSegments (segments : List Segment) : (ofSegments segments).Canonical := by
  have h := ofSegments_append_ofSegments [] segments []
  rwa [List.nil_append, List.append_nil, List.nil_append, List.append_nil] at h

/-- No literal is empty, and no two are adjacent. -/
structure Separated (a : Alternative) : Prop where
  filled : ∀ segment ∈ a.segments, segment ≠ .literal []
  apart : a.segments.IsChain fun segment next =>
    ¬((∃ text, segment = .literal text) ∧ ∃ text, next = .literal text)

theorem Separated.attach {segment : Segment} {rest : List Segment}
    (h : (⟨rest⟩ : Alternative).Separated) : (⟨segment.attach rest⟩ : Alternative).Separated := by
  unfold Segment.attach
  split
  · exact h
  · rename_i text next rest hne
    constructor
    · refine List.forall_mem_cons.2 ⟨?_, (List.forall_mem_cons.1 h.filled).2⟩
      intro heq
      exact hne (List.append_eq_nil_iff.1 (Segment.literal.inj heq)).1
    · -- The joined literal is followed by what followed the second one.
      have hapart := h.apart
      cases rest with
      | nil => exact .singleton _
      | cons after rest =>
        rw [List.isChain_cons_cons] at hapart ⊢
        exact ⟨fun hboth => hapart.1 ⟨⟨next, rfl⟩, hboth.2⟩, hapart.2⟩
  · rename_i hempty hliteral
    constructor
    · exact List.forall_mem_cons.2 ⟨hempty, h.filled⟩
    · have hapart := h.apart
      cases rest with
      | nil => exact .singleton _
      | cons after rest =>
        rw [List.isChain_cons_cons]
        refine ⟨?_, hapart⟩
        rintro ⟨⟨text, rfl⟩, next, rfl⟩
        exact hliteral text next rest rfl rfl

theorem separated_ofSegments (segments : List Segment) : (ofSegments segments).Separated := by
  induction segments with
  | nil => exact ⟨by simp [ofSegments], .nil⟩
  | cons segment rest ih =>
    rw [ofSegments_cons]
    exact ih.attach

theorem Canonical.separated {a : Alternative} (h : a.Canonical) : a.Separated := by
  rw [← show ofSegments a.segments = a from h]
  exact separated_ofSegments a.segments

theorem Separated.tail {segment : Segment} {segments : List Segment}
    (h : (⟨segment :: segments⟩ : Alternative).Separated) :
    (⟨segments⟩ : Alternative).Separated :=
  ⟨(List.forall_mem_cons.1 h.filled).2, (List.isChain_cons.1 h.apart).2⟩

/-- In front of what it is separated from, a segment stays as it is. -/
theorem Separated.attach_eq_cons {segment : Segment} {segments : List Segment}
    (h : (⟨segment :: segments⟩ : Alternative).Separated) :
    segment.attach segments = segment :: segments := by
  unfold Segment.attach
  split
  · exact absurd rfl (h.filled _ List.mem_cons_self)
  · rename_i text next rest _
    exact absurd ⟨⟨text, rfl⟩, next, rfl⟩ ((List.isChain_cons.1 h.apart).1 _ rfl)
  · rfl

theorem Separated.canonical {a : Alternative} (h : a.Separated) : a.Canonical := by
  obtain ⟨segments⟩ := a
  induction segments with
  | nil => rfl
  | cons segment rest ih =>
    show ofSegments (segment :: rest) = _
    rw [ofSegments_cons, show ofSegments rest = _ from ih h.tail]
    exact congrArg Alternative.mk h.attach_eq_cons

/-- A part of what is in the canonical form is in it, too. -/
theorem Canonical.of_infix {a : Alternative} {segments : List Segment} (h : a.Canonical)
    (hinside : segments <:+: a.segments) : (⟨segments⟩ : Alternative).Canonical :=
  Separated.canonical ⟨fun segment hmem => h.separated.filled segment (hinside.subset hmem),
    h.separated.apart.infix hinside⟩

theorem canonical_attach {segment : Segment} {segments : List Segment}
    (h : (⟨segments⟩ : Alternative).Canonical) :
    (⟨segment.attach segments⟩ : Alternative).Canonical := by
  have hsegments : segments.foldr attach [] = segments := congrArg Alternative.segments h
  show Alternative.mk ((segment.attach segments).foldr attach []) = _
  rw [foldr_attach_attach, hsegments]

end Alternative

theorem attach_of_readReferenceSegment {text after : Text} {segment : Segment}
    (h : readReferenceSegment text = some (segment, after)) (rest : List Segment) :
    segment.attach rest = segment :: rest := by
  unfold readReferenceSegment at h
  split at h
  · rw [Option.map_eq_some_iff] at h
    obtain ⟨_, -, heq⟩ := h
    cases heq
    rfl
  · rw [Option.map_eq_some_iff] at h
    obtain ⟨_, -, heq⟩ := h
    cases heq
    rfl

theorem canonical_readSegments (text : Text) :
    (⟨readSegments text⟩ : Alternative).Canonical := by
  induction text using readSegments.induct with
  | case1 =>
    rw [readSegments]
    rfl
  | case2 c rest segment after hread ih =>
    rw [readSegments_of_some hread, ← attach_of_readReferenceSegment hread]
    exact Alternative.canonical_attach ih
  | case3 c rest hread ih =>
    rw [readSegments_of_none hread]
    exact Alternative.canonical_attach ih

/-- What is read is in the canonical form. -/
theorem Alternative.canonical_parse (text : Text) : (Alternative.parse text).Canonical :=
  canonical_readSegments text.trim

end TextGrammar
