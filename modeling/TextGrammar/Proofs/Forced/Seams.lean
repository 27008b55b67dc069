import Mathlib.Data.List.Chain
import TextGrammar.Proofs.Forced.Cycles
import TextGrammar.Proofs.Legible
import TextGrammar.Proofs.Reachable
import TextGrammar.Proofs.Statements

/-!
# Seams of resolved references

Resolving a forced reference puts the segments of one alternative between those of another. Literals
that meet there are joined, and what they spell together may be read as something else: the row
`x$b` that `$s = x$>$c; $c = b` is resolved to holds no reference, but is read as one.

* `Text.Open` is what a literal must not be where something is filled in behind it.
  `Text.not_open_append` and `Text.not_spellsReference_append`: other literals join without harm.
* `Seamless` holds of segments that may be joined, and `ClearEdge` where no whitespace comes first.
  `Seamless.ofSegments`, `ClearEdge.ofSegments` and `ClearEdge.ofSegments_reverse` are what joining
  keeps, and `Alternative.Sealed.splice` what filling in one reference does.
* `Table.Sealed` is the invariant of the passes, and `Table.Sealed.pass` that they keep it.
* `Table.JoinsSafely` tells from a table as it was read that the invariant holds at the beginning.
* `Grammar.compiled_rows_read_back` is the result, and `Grammar.seams_misread` has three rows that
  are not read back.
-/

namespace TextGrammar

/-! ## Texts that something may be completed in -/

namespace Text

/-- Whether a text is what a reference may begin with but does not end with: `>`, `$`, or `${` and
identifier characters. -/
def isStub : Text → Bool
  | [] => false
  | [c] => c = '>' || c = '$'
  | c :: d :: identifier => c = '$' && d = '{' && identifier.all isIdentifierChar

/-- A text ends in a stub, which may become part of a reference with what comes next. -/
def Open (text : Text) : Prop :=
  ∃ stub ∈ text.tails, isStub stub = true

instance (text : Text) : Decidable text.Open :=
  inferInstanceAs (Decidable (∃ stub ∈ text.tails, isStub stub = true))

theorem open_of_suffix {text stub : Text} (h : stub <:+ text) (hstub : stub.isStub = true) :
    text.Open :=
  ⟨stub, (List.mem_tails _ _).2 h, hstub⟩

theorem getLast?_ne_of_not_open {text : Text} (h : ¬text.Open) : text.getLast? ≠ some '>' := by
  intro hlast
  obtain ⟨front, rfl⟩ := List.getLast?_eq_some_iff.1 hlast
  exact h (open_of_suffix (List.suffix_append front ['>']) (by decide))

/-- What a stub begins with is a stub. -/
theorem isStub_of_append {front back : Text} (h : (front ++ back).isStub = true)
    (hne : front ≠ []) : front.isStub = true := by
  obtain ⟨c, front, rfl⟩ := List.exists_cons_of_ne_nil hne
  cases front with
  | nil =>
    cases back with
    | nil => exact h
    | cons d back =>
      simp only [List.cons_append, List.nil_append, isStub, Bool.and_eq_true] at h
      rw [isStub, h.1.1, Bool.or_true]
  | cons d front =>
    simp only [List.cons_append, isStub, List.all_append, Bool.and_eq_true] at h ⊢
    exact ⟨h.1, h.2.1⟩

/-- What a reference begins with is a stub, or a reference with a shorter name. -/
theorem isStub_or_spellsReference {front back : Text} {braced : Bool} {symbol : Symbol}
    (hvalid : symbol.Valid) (hform : writeReference braced symbol = front ++ back)
    (hfront : front ≠ []) (hback : back ≠ []) :
    front.isStub = true ∨ front.SpellsReference := by
  obtain ⟨c, identifier, rfl, hall⟩ := hvalid.exists_identifier
  obtain ⟨d, front, rfl⟩ := List.exists_cons_of_ne_nil hfront
  cases braced with
  | false =>
    obtain ⟨rfl, hrest⟩ := List.cons.inj hform
    cases front with
    | nil => exact .inl (by decide)
    | cons e front =>
      obtain ⟨rfl, -⟩ := List.cons.inj hrest
      exact .inr (.inl ⟨c, hall c List.mem_cons_self, (List.prefix_append ['$', c] front).isInfix⟩)
  | true =>
    obtain ⟨rfl, hrest⟩ := List.cons.inj hform
    cases front with
    | nil => exact .inl (by decide)
    | cons e front =>
      obtain ⟨rfl, hname⟩ := List.cons.inj hrest
      have hbrace : c :: identifier ++ ['}'] = front ++ back := hname
      -- The closing brace is behind `front`, so that has identifier characters only.
      rcases List.prefix_concat_iff.1 (⟨back, hbrace.symm⟩ : front <+: _) with heq | hshort
      · rw [heq, List.self_eq_append_right] at hbrace
        exact absurd hbrace hback
      · have hfront : front.all isIdentifierChar = true :=
          List.all_eq_true.2 fun f hf => hall f (hshort.subset hf)
        rw [isStub, hfront]
        exact .inl (by decide)

/-- Closed texts stay closed when they are joined. -/
theorem not_open_append {text next : Text} (h : ¬text.Open) (hnext : ¬next.Open) :
    ¬Open (text ++ next) := by
  rintro ⟨stub, hmem, hstub⟩
  obtain ⟨front, heq⟩ := (List.mem_tails _ _).1 hmem
  rcases List.append_eq_append_iff.1 heq with ⟨middle, rfl, rfl⟩ | ⟨middle, -, rfl⟩
  · -- The stub begins in the first text.
    cases middle with
    | nil => exact hnext (open_of_suffix List.suffix_rfl hstub)
    | cons c middle =>
      exact h (open_of_suffix (List.suffix_append front _)
        (isStub_of_append hstub (List.cons_ne_nil c middle)))
  · exact hnext (open_of_suffix (List.suffix_append middle stub) hstub)

/-- No reference comes into being where something is joined to a closed text. -/
theorem not_spellsReference_append {text next : Text} (hopen : ¬text.Open)
    (h : ¬text.SpellsReference) (hnext : ¬next.SpellsReference) :
    ¬SpellsReference (text ++ next) := by
  intro hspells
  obtain ⟨braced, symbol, hvalid, front, back, heq⟩ := spellsReference_iff.1 hspells
  have hspelled : ∀ {part : Text}, writeReference braced symbol <:+: part → part.SpellsReference :=
    fun hpart => spellsReference_iff.2 ⟨braced, symbol, hvalid, hpart⟩
  rw [List.append_assoc] at heq
  rcases List.append_eq_append_iff.1 heq with ⟨middle, rfl, hmiddle⟩ | ⟨middle, -, rfl⟩
  · rcases List.append_eq_append_iff.1 hmiddle with ⟨rest, rfl, -⟩ | ⟨rest, hform, rfl⟩
    · exact h (hspelled ⟨front, rest, List.append_assoc ..⟩)
    · -- The reference would begin with `middle` in the first text and end with `rest`.
      have hfront : middle ≠ [] := by
        rintro rfl
        exact hnext (hspelled (by rw [hform]; exact (List.prefix_append rest back).isInfix))
      have hback : rest ≠ [] := by
        rintro rfl
        rw [List.append_nil] at hform
        exact h (hspelled (by rw [hform]; exact (List.suffix_append front middle).isInfix))
      rcases isStub_or_spellsReference hvalid hform hfront hback with hstub | hshorter
      · exact hopen (open_of_suffix (List.suffix_append front middle) hstub)
      · exact h (hshorter.mono (List.suffix_append front middle).isInfix)
  · refine hnext (hspelled ⟨middle, back, List.append_assoc ..⟩)

end Text

/-! ## Segments that may be joined -/

namespace Segment

/-- Anything may come behind a segment. -/
def Closed : Segment → Prop
  | literal text => ¬text.Open
  | _ => True

/-- A segment may come behind another. -/
def Fits : Segment → Segment → Prop
  | literal text, ref _ => text.getLast? ≠ some '>'
  | segment, _ => segment.Closed

instance : (segment : Segment) → Decidable segment.Closed
  | literal text => inferInstanceAs (Decidable ¬text.Open)
  | ref _ => isTrue trivial
  | forced _ => isTrue trivial

variable {segment next : Segment}

theorem Closed.fits (h : segment.Closed) (next : Segment) : segment.Fits next := by
  cases segment with
  | literal text =>
    cases next with
    | literal next => exact h
    | ref symbol => exact Text.getLast?_ne_of_not_open h
    | forced symbol => exact h
  | ref symbol => exact h
  | forced symbol => exact h

theorem Fits.unforced (h : segment.Fits next) : segment.Unforced next := by
  cases segment with
  | literal text =>
    cases next with
    | literal next => trivial
    | ref symbol => exact h
    | forced symbol => trivial
  | ref symbol => trivial
  | forced symbol => trivial

theorem fits_forced_iff {symbol : Symbol} : segment.Fits (forced symbol) ↔ segment.Closed := by
  cases segment <;> exact Iff.rfl

/-- What may come behind a literal may come behind one that ends with it. -/
theorem Fits.append_literal {text last : Text} (hclosed : ¬text.Open) (hne : last ≠ [])
    (h : (literal last).Fits next) : (literal (text ++ last)).Fits next := by
  cases next with
  | literal next => exact Text.not_open_append hclosed h
  | ref symbol =>
    rw [Fits, List.getLast?_append_of_ne_nil _ hne]
    exact h
  | forced symbol => exact Text.not_open_append hclosed h

/-- What may come in front of a segment may come in front of what begins with it. -/
theorem Fits.head?_attach {segments : List Segment} {front : Segment}
    (hfilled : segment ≠ literal []) (h : front.Fits segment) :
    ∀ next ∈ (segment.attach segments).head?, front.Fits next := by
  unfold attach
  split
  · exact absurd rfl hfilled
  · intro next hnext
    cases hnext
    cases front <;> exact h
  · intro next hnext
    cases hnext
    exact h

end Segment

/-- Segments that show in their written form, also when literals that meet are joined. -/
structure Seamless (segments : List Segment) : Prop where
  /-- No literal is empty. -/
  filled : ∀ segment ∈ segments, segment ≠ .literal []
  /-- No literal holds a reference. -/
  plain : ∀ text, .literal text ∈ segments → ¬text.SpellsReference
  /-- Every segment may come behind the one in front of it. -/
  fits : segments.IsChain Segment.Fits

namespace Seamless

variable {segment : Segment} {segments : List Segment}

theorem tail (h : Seamless (segment :: segments)) : Seamless segments :=
  ⟨(List.forall_mem_cons.1 h.filled).2, fun text hmem => h.plain text (List.mem_cons_of_mem _ hmem),
    (List.isChain_cons.1 h.fits).2⟩

theorem append_iff {left right : List Segment} :
    Seamless (left ++ right) ↔ Seamless left ∧ Seamless right ∧
      ∀ last ∈ left.getLast?, ∀ next ∈ right.head?, last.Fits next := by
  constructor
  · intro h
    obtain ⟨hleft, hright⟩ := List.forall_mem_append.1 h.filled
    obtain ⟨hfront, hback, hseam⟩ := List.isChain_append.1 h.fits
    exact ⟨⟨hleft, fun text hmem => h.plain text (List.mem_append_left _ hmem), hfront⟩,
      ⟨hright, fun text hmem => h.plain text (List.mem_append_right _ hmem), hback⟩, hseam⟩
  · rintro ⟨hleft, hright, hseam⟩
    refine ⟨List.forall_mem_append.2 ⟨hleft.filled, hright.filled⟩, ?_,
      List.isChain_append.2 ⟨hleft.fits, hright.fits, hseam⟩⟩
    intro text hmem
    exact (List.mem_append.1 hmem).elim (hleft.plain text) (hright.plain text)

/-- Joining one segment with those behind it. -/
theorem attach (h : Seamless (segment :: segments)) : Seamless (segment.attach segments) := by
  have hrest := h.tail
  have hfront := (List.isChain_cons.1 h.fits).1
  unfold Segment.attach
  split
  · exact hrest
  · rename_i text next rest hne
    have hclosed : ¬text.Open := hfront _ rfl
    have hnext := Segment.ne_nil_of_ne_literal_nil (hrest.filled _ List.mem_cons_self)
    constructor
    · refine List.forall_mem_cons.2 ⟨?_, hrest.tail.filled⟩
      intro heq
      exact hnext (List.append_eq_nil_iff.1 (Segment.literal.inj heq)).2
    · intro joined hmem
      rcases List.mem_cons.1 hmem with heq | hmem
      · cases heq
        exact Text.not_spellsReference_append hclosed (h.plain text List.mem_cons_self)
          (hrest.plain next List.mem_cons_self)
      · exact hrest.tail.plain joined hmem
    · refine List.isChain_cons.2 ⟨fun after hafter => ?_, hrest.tail.fits⟩
      exact ((List.isChain_cons.1 hrest.fits).1 after hafter).append_literal hclosed hnext
  · exact h

theorem cons_ofSegments (h : Seamless (segment :: segments))
    (hrest : Seamless (Alternative.ofSegments segments).segments) :
    Seamless (segment :: (Alternative.ofSegments segments).segments) := by
  constructor
  · exact List.forall_mem_cons.2 ⟨h.filled segment List.mem_cons_self, hrest.filled⟩
  · intro text hmem
    rcases List.mem_cons.1 hmem with heq | hmem
    · exact h.plain text (heq ▸ List.mem_cons_self)
    · exact hrest.plain text hmem
  · refine List.isChain_cons.2 ⟨?_, hrest.fits⟩
    cases segments with
    | nil => exact fun _ hnext => absurd hnext (Option.not_mem_none _)
    | cons next rest =>
      exact ((List.isChain_cons.1 h.fits).1 next rfl).head?_attach
        (h.tail.filled next List.mem_cons_self)

/-- What joining segments keeps. -/
theorem ofSegments (h : Seamless segments) :
    Seamless (Alternative.ofSegments segments).segments := by
  induction segments with
  | nil => exact h
  | cons segment rest ih => exact (h.cons_ofSegments (ih h.tail)).attach

/-- A closed end stays closed, since it fits in front of a forced reference. -/
theorem closed_ofSegments (h : Seamless segments)
    (hlast : ∀ last ∈ segments.getLast?, last.Closed) :
    ∀ last ∈ (Alternative.ofSegments segments).segments.getLast?, last.Closed := by
  have hend : Seamless [.forced .start] := ⟨by simp, by simp, .singleton _⟩
  have hbehind : Seamless (segments ++ [.forced .start]) :=
    append_iff.2 ⟨h, hend, fun last hmem next _ => (hlast last hmem).fits next⟩
  have hjoined := hbehind.ofSegments
  rw [Alternative.ofSegments_append_cons rfl] at hjoined
  exact fun last hmem => Segment.fits_forced_iff.1 ((append_iff.1 hjoined).2.2 last hmem _ rfl)

end Seamless

/-! ## What may come first and last -/

namespace Segment

/-- Nothing is left of a segment if nothing is filled in, as it may be for some symbols. -/
def Vanishes (vanishing : Symbol → Prop) : Segment → Prop
  | forced symbol => vanishing symbol
  | _ => False

instance {vanishing : Symbol → Prop} [DecidablePred vanishing] :
    (segment : Segment) → Decidable (segment.Vanishes vanishing)
  | forced symbol => inferInstanceAs (Decidable (vanishing symbol))
  | literal _ => isFalse id
  | ref _ => isFalse id

theorem Vanishes.mono {vanishing vanishing' : Symbol → Prop} {segment : Segment}
    (h : segment.Vanishes vanishing) (hle : ∀ symbol, vanishing symbol → vanishing' symbol) :
    segment.Vanishes vanishing' := by
  cases segment with
  | literal text => exact h
  | ref symbol => exact h
  | forced symbol => exact hle symbol h

end Segment

/-- No segment that may come first has whitespace there: not the first one, and not one that comes
behind segments that vanish. -/
def ClearEdge (blank : Segment → Bool) (vanishing : Symbol → Prop) : List Segment → Prop
  | [] => True
  | segment :: rest =>
    blank segment = false ∧ (segment.Vanishes vanishing → ClearEdge blank vanishing rest)

instance ClearEdge.decidable (blank : Segment → Bool) (vanishing : Symbol → Prop)
    [DecidablePred vanishing] :
    (segments : List Segment) → Decidable (ClearEdge blank vanishing segments)
  | [] => isTrue trivial
  | _ :: rest =>
    have := ClearEdge.decidable blank vanishing rest
    inferInstanceAs (Decidable (_ ∧ _))

namespace ClearEdge

variable {blank : Segment → Bool} {vanishing vanishing' : Symbol → Prop} {segment : Segment}
variable {segments left right : List Segment}

theorem head? (h : ClearEdge blank vanishing segments) : segments.head?.any blank = false := by
  cases segments with
  | nil => rfl
  | cons segment rest => exact h.1

/-- Where nothing vanishes, only the first segment comes first. -/
theorem of_head? (h : segments.head?.any blank = false)
    (hkept : ∀ segment ∈ segments, ¬segment.Vanishes vanishing) :
    ClearEdge blank vanishing segments := by
  cases segments with
  | nil => trivial
  | cons segment rest =>
    exact ⟨h, fun hvanishes => absurd hvanishes (hkept segment List.mem_cons_self)⟩

theorem append_iff : ClearEdge blank vanishing (left ++ right) ↔
    ClearEdge blank vanishing left ∧
      ((∀ segment ∈ left, segment.Vanishes vanishing) → ClearEdge blank vanishing right) := by
  induction left with
  | nil => simp [ClearEdge]
  | cons segment left ih =>
    rw [List.cons_append, ClearEdge, ClearEdge, ih, List.forall_mem_cons]
    tauto

/-- The fewer segments vanish, the fewer come first. -/
theorem mono (h : ClearEdge blank vanishing' segments)
    (hle : ∀ symbol, vanishing symbol → vanishing' symbol) :
    ClearEdge blank vanishing segments := by
  induction segments with
  | nil => trivial
  | cons segment rest ih => exact ⟨h.1, fun hvanishes => ih (h.2 (hvanishes.mono hle))⟩

/-- What vanishes after joining did so before: no literal does. -/
theorem vanishes_of_ofSegments (hfilled : ∀ segment ∈ segments, segment ≠ .literal [])
    (h : ∀ segment ∈ (Alternative.ofSegments segments).segments, segment.Vanishes vanishing) :
    ∀ segment ∈ segments, segment.Vanishes vanishing := by
  induction segments with
  | nil => exact h
  | cons segment rest ih =>
    obtain ⟨hsegment, hrest⟩ := List.forall_mem_cons.1 hfilled
    rw [Alternative.ofSegments_cons] at h
    unfold Segment.attach at h
    split at h
    · exact absurd rfl hsegment
    · exact (List.forall_mem_cons.1 h).1.elim
    · exact List.forall_mem_cons.2
        ⟨(List.forall_mem_cons.1 h).1, ih hrest (List.forall_mem_cons.1 h).2⟩

/-- Joining keeps the beginning clear. -/
theorem ofSegments (hfilled : ∀ segment ∈ segments, segment ≠ .literal [])
    (h : ClearEdge Segment.beginsBlank vanishing segments) :
    ClearEdge Segment.beginsBlank vanishing (Alternative.ofSegments segments).segments := by
  induction segments with
  | nil => exact h
  | cons segment rest ih =>
    obtain ⟨hsegment, hrest⟩ := List.forall_mem_cons.1 hfilled
    have hjoined := fun hvanishes => ih hrest (h.2 hvanishes)
    rw [Alternative.ofSegments_cons]
    unfold Segment.attach
    split
    · exact absurd rfl hsegment
    · rename_i text next more _ _
      refine ⟨?_, False.elim⟩
      obtain ⟨c, text, rfl⟩ :=
        List.exists_cons_of_ne_nil (Segment.ne_nil_of_ne_literal_nil hsegment)
      exact h.1
    · exact ⟨h.1, hjoined⟩

/-- Joining keeps the end clear. -/
theorem ofSegments_reverse (hfilled : ∀ segment ∈ segments, segment ≠ .literal [])
    (h : ClearEdge Segment.endsBlank vanishing segments.reverse) :
    ClearEdge Segment.endsBlank vanishing
      (Alternative.ofSegments segments).segments.reverse := by
  induction segments with
  | nil => exact h
  | cons segment rest ih =>
    obtain ⟨hsegment, hrest⟩ := List.forall_mem_cons.1 hfilled
    rw [List.reverse_cons, append_iff] at h
    have hjoined := ih hrest h.1
    have hnext := (Alternative.separated_ofSegments rest).filled
    have hlast : (∀ next ∈ (Alternative.ofSegments rest).segments, next.Vanishes vanishing) →
        segment.endsBlank = false := fun hall =>
      (h.2 fun next hmem =>
        vanishes_of_ofSegments hrest hall next (List.mem_reverse.1 hmem)).1
    rw [Alternative.ofSegments_cons]
    generalize (Alternative.ofSegments rest).segments = joined at hjoined hnext hlast
    unfold Segment.attach
    split
    · exact absurd rfl hsegment
    · rename_i text next more _
      have hne := Segment.ne_nil_of_ne_literal_nil (hnext _ List.mem_cons_self)
      rw [List.reverse_cons, append_iff] at hjoined ⊢
      refine ⟨hjoined.1, fun hall => ⟨?_, False.elim⟩⟩
      exact (Text.endsBlank_append_of_ne_nil hne text).trans (hjoined.2 hall).1
    · rw [List.reverse_cons, append_iff]
      refine ⟨hjoined, fun hall => ⟨hlast fun next hmem => ?_, fun _ => trivial⟩⟩
      exact hall next (List.mem_reverse.2 hmem)

end ClearEdge

/-! ## Filling in one reference -/

namespace Alternative

/-- An alternative whose forced references may be filled in without harm, where `vanishing` has the
symbols that may be filled in as nothing. -/
structure Sealed (vanishing : Symbol → Prop) (a : Alternative) : Prop where
  separated : a.Separated
  seamless : Seamless a.segments
  begins : ClearEdge Segment.beginsBlank vanishing a.segments
  ends : ClearEdge Segment.endsBlank vanishing a.segments.reverse

variable {vanishing : Symbol → Prop} {a choice : Alternative}

theorem Sealed.legible (h : a.Sealed vanishing) : a.Legible where
  separated := h.separated
  unforced := h.seamless.fits.imp fun _ _ => Segment.Fits.unforced
  begins := h.begins.head?
  ends := by
    have hends := h.ends.head?
    rwa [List.head?_reverse] at hends
  plain := h.seamless.plain

/-- The segments of a legible alternative may be joined with what is filled in, if no literal in
front of a forced reference is open. -/
theorem Legible.seamless (h : a.Legible)
    (hfront : a.segments.IsChain fun segment next =>
      next.forced?.isSome = true → segment.Closed) : Seamless a.segments := by
  refine ⟨h.separated.filled, h.plain, List.isChain_iff_forall_rel_of_append_cons_cons.2 ?_⟩
  intro segment next front back heq
  have hapart := List.isChain_iff_forall_rel_of_append_cons_cons.1 h.separated.apart heq
  have hunforced := List.isChain_iff_forall_rel_of_append_cons_cons.1 h.unforced heq
  have hclosed := List.isChain_iff_forall_rel_of_append_cons_cons.1 hfront heq
  cases segment with
  | literal text =>
    cases next with
    | literal next => exact absurd ⟨⟨text, rfl⟩, next, rfl⟩ hapart
    | ref symbol => exact hunforced
    | forced symbol => exact hclosed rfl
  | ref symbol => trivial
  | forced symbol => trivial

section Splice

variable {before after : List Segment} {target : Symbol}

theorem Sealed.closed_front (h : Sealed vanishing ⟨before ++ .forced target :: after⟩) :
    ∀ last ∈ before.getLast?, last.Closed := fun last hlast =>
  Segment.fits_forced_iff.1 ((Seamless.append_iff.1 h.seamless).2.2 last hlast _ rfl)

/-- What is filled in fits to both sides. -/
theorem Sealed.seamless_splice (h : Sealed vanishing ⟨before ++ .forced target :: after⟩)
    (hchoice : choice.Sealed vanishing) (hclosed : ∀ last ∈ choice.segments.getLast?, last.Closed) :
    Seamless (before ++ choice.segments ++ after) := by
  obtain ⟨hbefore, hbehind, -⟩ := Seamless.append_iff.1 h.seamless
  have hright : Seamless (choice.segments ++ after) :=
    Seamless.append_iff.2 ⟨hchoice.seamless, hbehind.tail,
      fun last hlast next _ => (hclosed last hlast).fits next⟩
  rw [List.append_assoc]
  exact Seamless.append_iff.2
    ⟨hbefore, hright, fun last hlast next _ => (h.closed_front last hlast).fits next⟩

/-- Filling in the place of a forced reference leaves a sealed alternative. -/
theorem Sealed.splice (h : Sealed vanishing ⟨before ++ .forced target :: after⟩)
    (hchoice : choice.Sealed vanishing) (hclosed : ∀ last ∈ choice.segments.getLast?, last.Closed)
    (hvanish : (∀ segment ∈ choice.segments, segment.Vanishes vanishing) → vanishing target) :
    (ofSegments (before ++ choice.segments ++ after)).Sealed vanishing := by
  have hseamless := h.seamless_splice hchoice hclosed
  refine ⟨separated_ofSegments _, hseamless.ofSegments, ClearEdge.ofSegments hseamless.filled ?_,
    ClearEdge.ofSegments_reverse hseamless.filled ?_⟩
  · have hbegins := h.begins
    simp only [ClearEdge.append_iff, List.forall_mem_append] at hbegins ⊢
    refine ⟨⟨hbegins.1, fun _ => hchoice.begins⟩, fun hall => ?_⟩
    exact (hbegins.2 hall.1).2 (hvanish hall.2)
  · have hends := h.ends
    simp only [List.reverse_append, List.reverse_cons, ClearEdge.append_iff, List.mem_reverse,
      List.forall_mem_append, List.forall_mem_singleton] at hends ⊢
    exact ⟨hends.1.1, fun hall =>
      ⟨hchoice.ends, fun hchosen => hends.2 ⟨hall, hvanish hchosen⟩⟩⟩

/-- A closed end stays closed. -/
theorem Sealed.closed_splice (h : Sealed vanishing ⟨before ++ .forced target :: after⟩)
    (hlast : ∀ last ∈ (before ++ .forced target :: after).getLast?, last.Closed)
    (hchoice : choice.Sealed vanishing)
    (hclosed : ∀ last ∈ choice.segments.getLast?, last.Closed) :
    ∀ last ∈ (ofSegments (before ++ choice.segments ++ after)).segments.getLast?, last.Closed := by
  refine (h.seamless_splice hchoice hclosed).closed_ofSegments ?_
  intro last hmem
  rw [Option.mem_def, List.getLast?_append, List.getLast?_append, Option.or_eq_some_iff,
    Option.or_eq_some_iff] at hmem
  rcases hmem with hafter | ⟨-, hchosen | ⟨-, hbefore⟩⟩
  · refine hlast last ?_
    rw [Option.mem_def, List.getLast?_append, List.getLast?_cons, hafter]
    rfl
  · exact hclosed last hchosen
  · exact h.closed_front last hbefore

end Splice

end Alternative

/-! ## Passes -/

namespace Table

/-- A symbol may be filled in as nothing: it has an alternative that is empty, or that consists of
forced references to such symbols. -/
inductive MayVanish (table : Table) : Symbol → Prop where
  | intro {symbol : Symbol} {targets : List Symbol}
      (ha : ⟨targets.map .forced⟩ ∈ table.alternatives symbol)
      (hall : ∀ target ∈ targets, MayVanish table target) : MayVanish table symbol

/-- Filling in forced references does no harm to a symbol, where `inner` has the symbols that are
filled in somewhere, and `vanishing` those that may be filled in as nothing. -/
structure Sealed (inner vanishing : Symbol → Prop) (table : Table) (symbol : Symbol) : Prop where
  alternatives : ∀ a ∈ table.alternatives symbol, a.Sealed vanishing
  targets : ∀ target, table.Forces symbol target → inner target
  closed : inner symbol → ∀ a ∈ table.alternatives symbol, ∀ last ∈ a.segments.getLast?,
    last.Closed
  vanish : ∀ a ∈ table.alternatives symbol,
    (∀ segment ∈ a.segments, segment.Vanishes vanishing) → vanishing symbol

variable {table table' : Table} {inner vanishing : Symbol → Prop} {symbol root : Symbol}

theorem Sealed.congr (h : table.Sealed inner vanishing symbol)
    (heq : table'.alternatives symbol = table.alternatives symbol) :
    table'.Sealed inner vanishing symbol := by
  refine ⟨heq ▸ h.alternatives, ?_, heq ▸ h.closed, heq ▸ h.vanish⟩
  intro target hforces
  rw [forces_iff, heq, ← forces_iff] at hforces
  exact h.targets target hforces

/-- What a pass puts in place of an alternative. -/
theorem Sealed.resolved (h : table.Sealed inner vanishing symbol)
    (hinner : ∀ target, inner target → table.Sealed inner vanishing target) {a b : Alternative}
    (ha : a ∈ table.alternatives symbol) (hb : b ∈ table.resolved a) :
    b.Sealed vanishing ∧ (inner symbol → ∀ last ∈ b.segments.getLast?, last.Closed) ∧
      ((∀ segment ∈ b.segments, segment.Vanishes vanishing) → vanishing symbol) := by
  cases hfirst : a.firstForced? with
  | none =>
    rw [resolved_of_firstForced?_eq_none hfirst, List.mem_singleton] at hb
    subst hb
    exact ⟨h.alternatives b ha, fun hsymbol => h.closed hsymbol b ha, h.vanish b ha⟩
  | some found =>
    obtain ⟨index, target⟩ := found
    rw [resolved_of_firstForced? hfirst] at hb
    obtain ⟨before, after, rfl, rfl, -⟩ := Alternative.exists_of_firstForced? hfirst
    obtain ⟨choice, hchoice, rfl⟩ := List.mem_map.1 hb
    have hforces : table.Forces symbol target := by
      refine forces_iff.2 ⟨_, ha, ?_⟩
      rw [Alternative.forcedReferences, List.filterMap_append]
      exact List.mem_append_right _ List.mem_cons_self
    have htarget := hinner target (h.targets target hforces)
    have hsealed := h.alternatives _ ha
    have hchosen := htarget.alternatives choice hchoice
    have hclosed := htarget.closed (h.targets target hforces) choice hchoice
    have hvanish := htarget.vanish choice hchoice
    rw [Alternative.splice_append]
    refine ⟨hsealed.splice hchosen hclosed hvanish,
      fun hsymbol => hsealed.closed_splice (h.closed hsymbol _ ha) hchosen hclosed, fun hall => ?_⟩
    have hpieces := ClearEdge.vanishes_of_ofSegments
      (hsealed.seamless_splice hchosen hclosed).filled hall
    simp only [List.forall_mem_append] at hpieces
    refine h.vanish _ ha (List.forall_mem_append.2 ⟨hpieces.1.1, List.forall_mem_cons.2 ?_⟩)
    exact ⟨hvanish hpieces.1.2, hpieces.2⟩

/-- A pass keeps every sealed symbol sealed. -/
theorem Sealed.pass {passed : Symbol} (h : table.Sealed inner vanishing symbol)
    (hinner : ∀ target, inner target → table.Sealed inner vanishing target)
    (hpass : Pass passed table table') : table'.Sealed inner vanishing symbol := by
  by_cases heq : symbol = passed
  · subst heq
    have hof : ∀ b ∈ table'.alternatives symbol,
        ∃ a ∈ table.alternatives symbol, b ∈ table.resolved a := by
      intro b hb
      rw [hpass.alternatives_eq, if_pos rfl] at hb
      exact List.mem_flatMap.1 hb
    constructor
    · intro b hb
      obtain ⟨a, ha, hba⟩ := hof b hb
      exact (h.resolved hinner ha hba).1
    · intro reference hforces
      obtain ⟨b, hb, hreference⟩ := forces_iff.1 hforces
      obtain ⟨a, ha, hba⟩ := hof b hb
      rcases mem_filterMap_of_mem_resolved (fun _ => rfl) hba hreference with
        hold | ⟨target, htarget, choice, hchoice, hnew⟩
      · exact h.targets reference (forces_iff.2 ⟨a, ha, hold⟩)
      · exact (hinner target (h.targets target (forces_iff.2 ⟨a, ha, htarget⟩))).targets reference
          (forces_iff.2 ⟨choice, hchoice, hnew⟩)
    · intro hsymbol b hb
      obtain ⟨a, ha, hba⟩ := hof b hb
      exact (h.resolved hinner ha hba).2.1 hsymbol
    · intro b hb
      obtain ⟨a, ha, hba⟩ := hof b hb
      exact (h.resolved hinner ha hba).2.2
  · refine h.congr ?_
    rw [hpass.alternatives_eq, if_neg heq]

/-- Passes keep a symbol sealed, with all that is filled in. -/
theorem Sealed.of_steps (h : table.Sealed inner vanishing symbol)
    (hinner : ∀ target, inner target → table.Sealed inner vanishing target)
    (hsteps : Relation.ReflTransGen Step table table') : table'.Sealed inner vanishing symbol := by
  have hkeeps : table'.Sealed inner vanishing symbol ∧
      ∀ target, inner target → table'.Sealed inner vanishing target := by
    refine keeps_of_steps (P := fun table => table.Sealed inner vanishing symbol ∧
      ∀ target, inner target → table.Sealed inner vanishing target) ?_ ⟨h, hinner⟩ hsteps
    rintro passed table table' ⟨h, hinner⟩ hpass
    exact ⟨h.pass hinner hpass, fun target htarget => (hinner target htarget).pass hinner hpass⟩
  exact hkeeps.1

/-! ## Tables as they are read -/

/-- Filling in forced references does no harm to `root`, as far as one can tell from the table
before any is. -/
structure JoinsSafely (table : Table) (root : Symbol) : Prop where
  /-- No literal in front of a forced reference ends in a stub. -/
  front : ∀ symbol, Relation.ReflTransGen table.Forces root symbol →
    ∀ a ∈ table.alternatives symbol,
      a.segments.IsChain fun segment next => next.forced?.isSome = true → segment.Closed
  /-- No literal at the end of what is filled in ends in a stub. -/
  closed : ∀ symbol, Relation.TransGen table.Forces root symbol →
    ∀ a ∈ table.alternatives symbol, ∀ last ∈ a.segments.getLast?, last.Closed
  /-- No whitespace comes first where something is filled in as nothing. -/
  begins : ∀ symbol, Relation.ReflTransGen table.Forces root symbol →
    ∀ a ∈ table.alternatives symbol,
      ClearEdge Segment.beginsBlank table.MayVanish a.segments
  /-- No whitespace comes last where something is filled in as nothing. -/
  ends : ∀ symbol, Relation.ReflTransGen table.Forces root symbol →
    ∀ a ∈ table.alternatives symbol,
      ClearEdge Segment.endsBlank table.MayVanish a.segments.reverse

/-- Segments that vanish are forced references. -/
theorem exists_map_of_vanishes {segments : List Segment}
    (h : ∀ segment ∈ segments, segment.Vanishes vanishing) :
    ∃ targets : List Symbol, segments = targets.map .forced ∧
      ∀ target ∈ targets, vanishing target := by
  induction segments with
  | nil => exact ⟨[], rfl, List.forall_mem_nil _⟩
  | cons segment rest ih =>
    obtain ⟨hsegment, hrest⟩ := List.forall_mem_cons.1 h
    obtain ⟨targets, rfl, htargets⟩ := ih hrest
    cases segment with
    | literal text => exact hsegment.elim
    | ref symbol => exact hsegment.elim
    | forced symbol =>
      exact ⟨symbol :: targets, rfl, List.forall_mem_cons.2 ⟨hsegment, htargets⟩⟩

theorem mayVanish_of_vanishes {a : Alternative} (ha : a ∈ table.alternatives symbol)
    (hall : ∀ segment ∈ a.segments, segment.Vanishes table.MayVanish) :
    table.MayVanish symbol := by
  obtain ⟨targets, hsegments, htargets⟩ := exists_map_of_vanishes hall
  refine .intro ?_ htargets
  rw [← hsegments]
  exact ha

/-- What is read holds only legible alternatives. -/
theorem legible_of_parse {source : Text} (h : Table.parse source = .ok table) {a : Alternative}
    (ha : a ∈ table.alternatives symbol) : a.Legible := by
  obtain ⟨entries, -, -, hrows⟩ := exists_entries_of_parse h
  obtain ⟨production, hrow, hmem⟩ := exists_mem_rows_of_mem_alternatives ha
  rw [hrows] at hrow
  obtain ⟨entry, -, hentry⟩ := List.mem_map.1 hrow
  obtain ⟨rfl, rfl⟩ := Prod.mk.inj hentry
  obtain ⟨piece, -, rfl⟩ := List.mem_map.1 hmem
  exact Alternative.legible_parse piece

theorem JoinsSafely.sealed {source : Text} (h : table.JoinsSafely root)
    (hparse : Table.parse source = .ok table)
    (hreach : Relation.ReflTransGen table.Forces root symbol) :
    table.Sealed (Relation.TransGen table.Forces root) table.MayVanish symbol := by
  constructor
  · intro a ha
    have hlegible := legible_of_parse hparse ha
    exact ⟨hlegible.separated, hlegible.seamless (h.front symbol hreach a ha),
      h.begins symbol hreach a ha, h.ends symbol hreach a ha⟩
  · intro target hforces
    exact .trans_right hreach (.single hforces)
  · exact fun hinner => h.closed symbol hinner
  · exact fun a ha => mayVanish_of_vanishes ha

/-- What a symbol is resolved to where filling in does no harm. -/
theorem JoinsSafely.legible {source : Text} {limit : Nat} (h : table.JoinsSafely root)
    (hparse : Table.parse source = .ok table)
    (hunfold : table.unfoldAll limit = (.ok (), table')) {a : Alternative}
    (ha : a ∈ table'.alternatives root) : a.Legible := by
  have hstart : ∀ symbol, Relation.ReflTransGen table.Forces root symbol →
      Table.Sealed (Relation.TransGen table.Forces root) table.MayVanish
        { table with forced := [] } symbol :=
    fun symbol hreach => (h.sealed hparse hreach).congr rfl
  have hsealed := (hstart root .refl).of_steps
    (fun symbol hinner => hstart symbol hinner.to_reflTransGen) (steps_of_unfoldAll hunfold)
  exact (hsealed.alternatives a ha).legible

/-- Nothing is filled in for a symbol without forced references. -/
theorem Resolved.joinsSafely {source : Text} (h : table.Resolved root)
    (hparse : Table.parse source = .ok table) : table.JoinsSafely root := by
  have hself : ∀ symbol, Relation.ReflTransGen table.Forces root symbol → symbol = root := by
    intro symbol hreach
    rcases Relation.ReflTransGen.cases_head hreach with rfl | ⟨target, hforces, -⟩
    · rfl
    · exact absurd hforces h.not_forces
  have hfree : ∀ a ∈ table.alternatives root, ∀ segment ∈ a.segments, segment.forced? = none := by
    intro a ha segment hmem
    have hnone := Alternative.forcedReferences_of_firstForced?_eq_none (h.firstForced?_eq_none ha)
    exact List.filterMap_eq_nil_iff.1 hnone segment hmem
  have hkept : ∀ a ∈ table.alternatives root, ∀ segment ∈ a.segments,
      ¬segment.Vanishes table.MayVanish := by
    intro a ha segment hmem hvanishes
    have hnone := hfree a ha segment hmem
    cases segment with
    | literal text => exact hvanishes
    | ref symbol => exact hvanishes
    | forced symbol => cases hnone
  constructor
  · intro symbol hreach a ha
    rw [hself symbol hreach] at ha
    refine List.isChain_iff_forall_rel_of_append_cons_cons.2 ?_
    intro segment next front back heq hforced
    rw [hfree a ha next (by rw [heq]; simp)] at hforced
    cases hforced
  · intro symbol hreach
    obtain ⟨target, hforces, -⟩ := Relation.TransGen.head'_iff.1 hreach
    exact absurd hforces h.not_forces
  · intro symbol hreach a ha
    rw [hself symbol hreach] at ha
    exact .of_head? (legible_of_parse hparse ha).begins (hkept a ha)
  · intro symbol hreach a ha
    rw [hself symbol hreach] at ha
    refine .of_head? ?_ fun segment hmem => hkept a ha segment (List.mem_reverse.1 hmem)
    rw [List.head?_reverse]
    exact (legible_of_parse hparse ha).ends

/-- It can be told from the rows of a table, and a list of symbols outside of which none vanishes,
that filling in does no harm anywhere. -/
theorem joinsSafely_of_rows (vanishing : List Symbol)
    (hvanishing : ∀ row ∈ table.rows, ∀ a ∈ row.2.alternatives,
      (∀ segment ∈ a.segments, segment.Vanishes (· ∈ vanishing)) → row.1 ∈ vanishing)
    (h : ∀ row ∈ table.rows, ∀ a ∈ row.2.alternatives,
      (a.segments.IsChain fun segment next => next.forced?.isSome = true → segment.Closed) ∧
        (∀ last ∈ a.segments.getLast?, last.Closed) ∧
        ClearEdge Segment.beginsBlank (· ∈ vanishing) a.segments ∧
        ClearEdge Segment.endsBlank (· ∈ vanishing) a.segments.reverse) (root : Symbol) :
    table.JoinsSafely root := by
  have hle : ∀ symbol, table.MayVanish symbol → symbol ∈ vanishing := by
    intro symbol hmay
    induction hmay with
    | intro ha _ ih =>
      obtain ⟨production, hrow, hmem⟩ := exists_mem_rows_of_mem_alternatives ha
      refine hvanishing _ hrow _ hmem fun segment hsegment => ?_
      obtain ⟨target, htarget, rfl⟩ := List.mem_map.1 hsegment
      exact ih target htarget
  have hrows : ∀ symbol, ∀ a ∈ table.alternatives symbol, ∃ row ∈ table.rows,
      a ∈ row.2.alternatives := by
    intro symbol a ha
    obtain ⟨production, hrow, hmem⟩ := exists_mem_rows_of_mem_alternatives ha
    exact ⟨_, hrow, hmem⟩
  constructor
  · intro symbol _ a ha
    obtain ⟨row, hrow, hmem⟩ := hrows symbol a ha
    exact (h row hrow a hmem).1
  · intro symbol _ a ha
    obtain ⟨row, hrow, hmem⟩ := hrows symbol a ha
    exact (h row hrow a hmem).2.1
  · intro symbol _ a ha
    obtain ⟨row, hrow, hmem⟩ := hrows symbol a ha
    exact (h row hrow a hmem).2.2.1.mono hle
  · intro symbol _ a ha
    obtain ⟨row, hrow, hmem⟩ := hrows symbol a ha
    exact (h row hrow a hmem).2.2.2.mono hle

end Table

/-! ## The result -/

/-- A row of a compiled grammar is read from its written form exactly if it is legible. So are all
alternatives of a symbol without forced references, and of one where filling them in does no
harm. -/
theorem Grammar.compiled_rows_read_back {limits : Limits} {source : Text} {grammar : Grammar}
    (hcompile : Grammar.compileWith limits source = .ok grammar) :
    ∀ row ∈ grammar.table.rows,
      (∀ a ∈ row.2.alternatives, (Alternative.parse a.print = a ↔ a.Legible)) ∧
      ∀ table, Table.parse (desugar source) = .ok table →
        table.Resolved row.1 ∨ table.JoinsSafely row.1 →
          ∀ a ∈ row.2.alternatives, Alternative.parse a.print = a := by
  obtain ⟨table, hparse, hunfold⟩ := Table.exists_unfoldAll_of_compileWith hcompile
  have hreachable := (Table.Reachable.read hparse).run (.all limits.maxUnfoldPasses)
  rw [UnfoldCall.run, hunfold] at hreachable
  have hwell := hreachable.wellFormed
  rintro ⟨symbol, production⟩ hrow
  have halternatives : grammar.table.alternatives symbol = production.alternatives :=
    Table.alternatives_of_get? ((Table.get?_eq_some_iff hwell.distinct).2 hrow)
  have hiff : ∀ a ∈ production.alternatives, (Alternative.parse a.print = a ↔ a.Legible) := by
    intro a ha
    rw [← halternatives] at ha
    exact Alternative.parse_print_eq_self_iff (hwell.references symbol a ha)
  refine ⟨hiff, ?_⟩
  intro table' hparse' hsafe a ha
  obtain rfl : table' = table := Except.ok.inj (hparse'.symm.trans hparse)
  have hjoins : table'.JoinsSafely symbol :=
    hsafe.elim (fun hresolved => hresolved.joinsSafely hparse) id
  refine (hiff a ha).2 (hjoins.legible hparse hunfold ?_)
  rwa [halternatives]

/-- A source where literals meet, with nothing, a text or a reference filled in between them. -/
def skySource : Text :=
  "$s = a >$c hat;$c = |red|>$d $d;$d = 5$ sky".toList

/-- The table of that source. -/
def skyTable : Table :=
  let c := Symbol.ofIdentifier ['c']
  let d := Symbol.ofIdentifier ['d']
  { rows := [
      (.start, ⟨[⟨[.literal "a ".toList, .forced c, .literal " hat".toList]⟩]⟩),
      (c, ⟨[⟨[]⟩, ⟨[.literal "red".toList]⟩, ⟨[.forced d, .literal [' '], .ref d]⟩]⟩),
      (d, ⟨[⟨[.literal "5$ sky".toList]⟩]⟩)]
    forced := [.start, c] }

/-- The grammar of that source. -/
def skyGrammar : Grammar where
  table :=
    let c := Symbol.ofIdentifier ['c']
    let d := Symbol.ofIdentifier ['d']
    { rows := [
        (.start, ⟨[⟨[.literal "a  hat".toList]⟩, ⟨[.literal "a red hat".toList]⟩,
          ⟨[.literal "a 5$ sky ".toList, .ref d, .literal " hat".toList]⟩]⟩),
        (c, ⟨[⟨[]⟩, ⟨[.literal "red".toList]⟩, ⟨[.literal "5$ sky ".toList, .ref d]⟩]⟩),
        (d, ⟨[⟨[.literal "5$ sky".toList]⟩]⟩)]
      forced := [] }
  start := .start
  limits := .standard

/-- Only `$c` may be filled in as nothing, and that does no harm between `a` and `hat`. -/
theorem joinsSafely_skyTable (root : Symbol) : skyTable.JoinsSafely root := by
  have hvanishing : ∀ row ∈ skyTable.rows, ∀ a ∈ row.2.alternatives,
      (∀ segment ∈ a.segments, segment.Vanishes (· ∈ [Symbol.ofIdentifier ['c']])) →
        row.1 ∈ [Symbol.ofIdentifier ['c']] := by
    decide +kernel
  exact Table.joinsSafely_of_rows [Symbol.ofIdentifier ['c']] hvanishing (by decide +kernel) root

theorem acyclic_skyTable : skyTable.Acyclic := by
  apply Table.acyclic_of_rank fun symbol => skyTable.rows.length - skyTable.symbols.idxOf symbol
  decide +kernel

theorem Grammar.skyGrammar_reads_back :
    Grammar.compileWith .standard skySource = .ok skyGrammar ∧
      Table.parse (desugar skySource) = .ok skyTable ∧
      ∀ row ∈ skyGrammar.table.rows, skyTable.JoinsSafely row.1 ∧
        ∀ a ∈ row.2.alternatives, Alternative.parse a.print = a := by
  have hparse : Table.parse (desugar skySource) = .ok skyTable := by decide +kernel
  have hcompile : Grammar.compileWith .standard skySource = .ok skyGrammar := by
    rw [Table.compileWith_of_parse hparse, acyclic_skyTable.unfoldAll_eq]
    decide +kernel
  refine ⟨hcompile, hparse, fun row hrow => ⟨joinsSafely_skyTable row.1, ?_⟩⟩
  exact (compiled_rows_read_back hcompile row hrow).2 skyTable hparse
    (.inr (joinsSafely_skyTable row.1))

/-- A source where `$`, `>` and whitespace stand at the seams. -/
def seamsSource : Text :=
  "$s = x$>$c|>>$d|>$e hat;$c = b;$d = $f;$e = |red;$f = y".toList

/-- The table of that source. -/
def seamsTable : Table :=
  let c := Symbol.ofIdentifier ['c']
  let d := Symbol.ofIdentifier ['d']
  let e := Symbol.ofIdentifier ['e']
  { rows := [
      (.start, ⟨[⟨[.literal "x$".toList, .forced c]⟩, ⟨[.literal ['>'], .forced d]⟩,
        ⟨[.forced e, .literal " hat".toList]⟩]⟩),
      (c, ⟨[⟨[.literal ['b']]⟩]⟩),
      (d, ⟨[⟨[.ref (.ofIdentifier ['f'])]⟩]⟩),
      (e, ⟨[⟨[]⟩, ⟨[.literal "red".toList]⟩]⟩),
      (.ofIdentifier ['f'], ⟨[⟨[.literal ['y']]⟩]⟩)]
    forced := [.start] }

theorem acyclic_seamsTable : seamsTable.Acyclic := by
  apply Table.acyclic_of_rank fun symbol => seamsTable.rows.length - seamsTable.symbols.idxOf symbol
  decide +kernel

/-- What `$s` is resolved to there. -/
def seamsRow : Production :=
  ⟨[⟨[.literal "x$b".toList]⟩, ⟨[.literal ['>'], .ref (.ofIdentifier ['f'])]⟩,
    ⟨[.literal " hat".toList]⟩, ⟨[.literal "red hat".toList]⟩]⟩

/-- The grammar of that source. -/
def seamsGrammar : Grammar where
  table :=
    { rows := [
        (.start, seamsRow),
        (.ofIdentifier ['c'], ⟨[⟨[.literal ['b']]⟩]⟩),
        (.ofIdentifier ['d'], ⟨[⟨[.ref (.ofIdentifier ['f'])]⟩]⟩),
        (.ofIdentifier ['e'], ⟨[⟨[]⟩, ⟨[.literal "red".toList]⟩]⟩),
        (.ofIdentifier ['f'], ⟨[⟨[.literal ['y']]⟩]⟩)]
      forced := [] }
  start := .start
  limits := .standard

/-- What the alternatives at the seams are read as. -/
def seamsReading : List Alternative :=
  [⟨[.literal ['x'], .ref (.ofIdentifier ['b'])]⟩, ⟨[.forced (.ofIdentifier ['f'])]⟩,
    ⟨[.literal "hat".toList]⟩]

/-- What is filled in completes a reference to `$b`, is taken hold of by a `>`, or leaves whitespace
at the beginning. -/
theorem Grammar.seams_misread :
    Grammar.compileWith .standard seamsSource = .ok seamsGrammar ∧
      (Symbol.start, seamsRow) ∈ seamsGrammar.table.rows ∧
      List.Forall₂ (fun a reading => Alternative.parse a.print = reading ∧ reading ≠ a)
        (seamsRow.alternatives.take 3) seamsReading := by
  have hparse : Table.parse (desugar seamsSource) = .ok seamsTable := by decide +kernel
  have hcompile : Grammar.compileWith .standard seamsSource = .ok seamsGrammar := by
    rw [Table.compileWith_of_parse hparse, acyclic_seamsTable.unfoldAll_eq]
    decide +kernel
  refine ⟨hcompile, List.mem_cons_self, ?_⟩
  exact .cons (by decide +kernel) (.cons (by decide +kernel) (.cons (by decide +kernel) .nil))

end TextGrammar
