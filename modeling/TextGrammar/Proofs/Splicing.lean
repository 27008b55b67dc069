import TextGrammar.Proofs.Canonical
import TextGrammar.Proofs.Expansion.Derivations
import TextGrammar.Proofs.Forced.Resolution

/-!
# Splicing

Bringing segments into the canonical form keeps their references and, whatever stands for these,
their text; and it makes no difference whether a part of them is brought into it first. So when
two forced references of an alternative are to be replaced, either may go first.

* `fill_ofSegments`: the text stays.
* `Alternative.shiftedPlace` is where a segment stands after one in front of it was replaced. What
  is behind that one stays, so it is as far from the end as before
  (`Alternative.Canonical.drop_shiftedPlace`).
* `Alternative.Canonical.splice_before` and `Alternative.Canonical.splice_behind` are what each
  replacement leaves. A forced reference keeps the literals on its two sides apart, so only the
  ones around the replaced reference are joined.
* `Alternative.Canonical.splice_comm`: the two orders lead to one alternative.
* `Alternative.splicing_faithful` is the result.
-/

namespace TextGrammar

/-! ## Texts -/

theorem fill_attach (segment : Segment) (rest : List Segment) (texts : List Text) :
    fill (segment.attach rest) texts = fill (segment :: rest) texts := by
  unfold Segment.attach
  split
  · rfl
  · rename_i text next rest _
    exact List.append_assoc text next (fill rest texts)
  · rfl

theorem fill_cons_congr {rest rest' : List Segment}
    (h : ∀ texts, fill rest texts = fill rest' texts) (segment : Segment) (texts : List Text) :
    fill (segment :: rest) texts = fill (segment :: rest') texts := by
  cases segment with
  | literal text => exact congrArg (text ++ ·) (h texts)
  | ref symbol => exact congrArg (texts.headD [] ++ ·) (h texts.tail)
  | forced symbol => exact congrArg (texts.headD [] ++ ·) (h texts.tail)

/-- Whatever texts stand for the references, joining literals keeps the text. -/
theorem fill_ofSegments (segments : List Segment) (texts : List Text) :
    fill (Alternative.ofSegments segments).segments texts = fill segments texts := by
  induction segments generalizing texts with
  | nil => rfl
  | cons segment rest ih =>
    rw [Alternative.ofSegments_cons, fill_attach]
    exact fill_cons_congr ih segment texts

namespace Alternative

/-- Joining literals keeps the references, their kinds and their order. -/
theorem filter_isReference_ofSegments (segments : List Segment) :
    (ofSegments segments).segments.filter Segment.isReference =
      segments.filter Segment.isReference := by
  rw [← List.filterMap_eq_filter]
  exact filterMap_ofSegments (fun _ => rfl) segments

/-! ## Two places -/

/-- Where the segment at `place` stands after one in front of it, at `index`, was replaced. -/
def shiftedPlace (a : Alternative) (index : Nat) (replacement : Alternative) (place : Nat) : Nat :=
  (a.splice index replacement).segments.length - (a.segments.length - place)

theorem exists_append_of_getElem? {segments : List Segment} {place : Nat} {segment : Segment}
    (h : segments[place]? = some segment) :
    ∃ front back, segments = front ++ segment :: back ∧ front.length = place := by
  obtain ⟨hlt, rfl⟩ := List.getElem?_eq_some_iff.1 h
  refine ⟨segments.take place, segments.drop (place + 1), ?_, List.length_take_of_le hlt.le⟩
  rw [← List.drop_eq_getElem_cons hlt, List.take_append_drop]

/-- An alternative with two forced references consists of these and of what stands in front of them,
between them and behind them. -/
theorem exists_of_two_forced {a : Alternative} {i j : Nat} {first second : Symbol} (hij : i < j)
    (hfirst : a.segments[i]? = some (.forced first))
    (hsecond : a.segments[j]? = some (.forced second)) :
    ∃ before between after,
      a = ⟨before ++ .forced first :: (between ++ .forced second :: after)⟩ ∧
        before.length = i ∧ before.length + (between.length + 1) = j := by
  obtain ⟨before, rest, ha, rfl⟩ := exists_append_of_getElem? hfirst
  obtain ⟨place, rfl⟩ := Nat.exists_eq_add_of_lt hij
  have hrest : rest[place]? = some (.forced second) := by
    rwa [ha, Nat.add_assoc, List.getElem?_append_right (Nat.le_add_right _ _),
      Nat.add_sub_cancel_left, List.getElem?_cons_succ] at hsecond
  obtain ⟨between, after, rfl, rfl⟩ := exists_append_of_getElem? hrest
  exact ⟨before, between, after, congrArg mk ha, rfl, (Nat.add_assoc _ _ _).symm⟩

section TwoForced

variable {before between after : List Segment} {first second : Symbol}

/-- What stands around a forced reference is in the canonical form, too. -/
theorem Canonical.around (h : Canonical ⟨before ++ .forced first :: after⟩) :
    (ofSegments before).segments = before ∧ (ofSegments after).segments = after := by
  constructor
  · exact congrArg segments (h.of_infix (List.prefix_append before _).isInfix)
  · exact congrArg segments
      (h.of_infix ((List.suffix_cons _ after).trans (List.suffix_append before _)).isInfix)

/-- What stands in front of a forced reference stays when something behind it is replaced. -/
theorem Canonical.splice_behind
    (h : Canonical ⟨before ++ .forced first :: (between ++ .forced second :: after)⟩)
    (replacement : Alternative) :
    (splice ⟨before ++ .forced first :: (between ++ .forced second :: after)⟩
        (before.length + (between.length + 1)) replacement).segments =
      before ++ .forced first ::
        (ofSegments (between ++ replacement.segments ++ after)).segments := by
  have hsplice := splice_append (before ++ .forced first :: between) (.forced second) after
    replacement
  rw [List.length_append, List.length_cons, List.append_assoc, List.cons_append] at hsplice
  rw [hsplice, List.append_assoc, List.append_assoc, List.cons_append, ofSegments_append_cons rfl,
    h.around.1, List.append_assoc]

/-- What stands behind a forced reference stays when something in front of it is replaced. -/
theorem Canonical.splice_before
    (h : Canonical ⟨before ++ .forced first :: (between ++ .forced second :: after)⟩)
    (replacement : Alternative) :
    (splice ⟨before ++ .forced first :: (between ++ .forced second :: after)⟩ before.length
        replacement).segments =
      (ofSegments (before ++ replacement.segments ++ between)).segments ++
        .forced second :: after := by
  have hafter : Canonical ⟨(before ++ .forced first :: between) ++ .forced second :: after⟩ := by
    rwa [List.append_assoc, List.cons_append]
  rw [splice_append, ← List.append_assoc, ofSegments_append_cons rfl, hafter.around.2]

theorem Canonical.shiftedPlace_eq
    (h : Canonical ⟨before ++ .forced first :: (between ++ .forced second :: after)⟩)
    (replacement : Alternative) :
    shiftedPlace ⟨before ++ .forced first :: (between ++ .forced second :: after)⟩ before.length
        replacement (before.length + (between.length + 1)) =
      (ofSegments (before ++ replacement.segments ++ between)).segments.length := by
  rw [shiftedPlace, h.splice_before]
  simp only [List.length_append, List.length_cons]
  omega

/-- What stands behind the replaced reference moves as a whole. -/
theorem Canonical.drop_shiftedPlace
    (h : Canonical ⟨before ++ .forced first :: (between ++ .forced second :: after)⟩)
    (replacement : Alternative) :
    let a : Alternative := ⟨before ++ .forced first :: (between ++ .forced second :: after)⟩
    let j := before.length + (between.length + 1)
    (a.splice before.length replacement).segments.drop
        (a.shiftedPlace before.length replacement j) = a.segments.drop j := by
  intro a j
  have ha : a.segments = (before ++ .forced first :: between) ++ .forced second :: after := by
    rw [List.append_assoc, List.cons_append]
  have hj : (before ++ .forced first :: between).length = j := List.length_append
  rw [h.splice_before, h.shiftedPlace_eq, List.drop_left, ha, List.drop_left' hj]

/-- What stands in front of the replaced reference does not move. -/
theorem Canonical.take_splice
    (h : Canonical ⟨before ++ .forced first :: (between ++ .forced second :: after)⟩)
    (replacement : Alternative) :
    let a : Alternative := ⟨before ++ .forced first :: (between ++ .forced second :: after)⟩
    (a.splice (before.length + (between.length + 1)) replacement).segments.take
        (before.length + 1) = a.segments.take (before.length + 1) := by
  intro a
  have hlength : (before ++ [Segment.forced first]).length = before.length + 1 :=
    List.length_append
  have ha : a.segments = before ++ [.forced first] ++ (between ++ .forced second :: after) :=
    List.append_cons ..
  rw [h.splice_behind, List.append_cons, List.take_left' hlength, ha, List.take_left' hlength]

/-- Either of two forced references may be replaced first. -/
theorem Canonical.splice_comm
    (h : Canonical ⟨before ++ .forced first :: (between ++ .forced second :: after)⟩)
    (b c : Alternative) :
    let a : Alternative := ⟨before ++ .forced first :: (between ++ .forced second :: after)⟩
    let j := before.length + (between.length + 1)
    (a.splice before.length b).splice (a.shiftedPlace before.length b j) c =
      (a.splice j c).splice before.length b := by
  intro a j
  have hfront : a.splice before.length b =
      ⟨(ofSegments (before ++ b.segments ++ between)).segments ++ .forced second :: after⟩ :=
    congrArg mk (h.splice_before b)
  have hback : a.splice j c =
      ⟨before ++ .forced first :: (ofSegments (between ++ c.segments ++ after)).segments⟩ :=
    congrArg mk (h.splice_behind c)
  calc (a.splice before.length b).splice (a.shiftedPlace before.length b j) c
    _ = ofSegments ((ofSegments (before ++ b.segments ++ between)).segments ++ c.segments ++
          after) := by
      rw [h.shiftedPlace_eq, hfront, splice_append]
    _ = ofSegments (before ++ b.segments ++ between ++ c.segments ++ after) := by
      have hjoin := ofSegments_append_ofSegments [] (before ++ b.segments ++ between)
        (c.segments ++ after)
      simpa only [List.nil_append, List.append_assoc] using hjoin
    _ = ofSegments (before ++ b.segments ++
          (ofSegments (between ++ c.segments ++ after)).segments) := by
      have hjoin := ofSegments_append_ofSegments (before ++ b.segments)
        (between ++ c.segments ++ after) []
      simpa only [List.append_nil, List.append_assoc] using hjoin.symm
    _ = (a.splice j c).splice before.length b := by
      rw [hback, splice_append]

end TwoForced

/-! ## The result -/

/-- Splicing is faithful to the text, and it makes no difference in what order it goes. A part of
some segments may be brought into the canonical form first; there is no empty literal in what comes
out and no literal next to another, it has the references of the segments, of the same kinds and in
the same order, and whatever texts stand for these, it has the text of the segments. So of two
forced references in an alternative either may be replaced first, by anything. The one behind the
other moves by it, with all that is behind it; the one in front stays where it is. -/
theorem splicing_faithful :
    (∀ front middle back : List Segment,
      let joined := ofSegments (front ++ (ofSegments middle).segments ++ back)
      joined = ofSegments (front ++ middle ++ back) ∧ joined.Separated ∧
        joined.segments.filter Segment.isReference =
          (front ++ middle ++ back).filter Segment.isReference ∧
        ∀ texts, fill joined.segments texts = fill (front ++ middle ++ back) texts) ∧
    ∀ (a : Alternative) (i j : Nat) (first second : Symbol), a.Canonical → i < j →
      a.segments[i]? = some (.forced first) → a.segments[j]? = some (.forced second) →
        ∀ b c : Alternative,
          let shifted := a.shiftedPlace i b j
          (a.splice i b).segments.drop shifted = a.segments.drop j ∧
          (a.splice i b).segments[shifted]? = some (.forced second) ∧
          (a.splice j c).segments.take (i + 1) = a.segments.take (i + 1) ∧
          (a.splice j c).segments[i]? = some (.forced first) ∧
          (a.splice i b).splice shifted c = (a.splice j c).splice i b := by
  constructor
  · intro front middle back joined
    have hjoined : joined = ofSegments (front ++ middle ++ back) :=
      ofSegments_append_ofSegments front middle back
    rw [hjoined]
    exact ⟨rfl, separated_ofSegments _, filter_isReference_ofSegments _, fill_ofSegments _⟩
  · intro a i j first second hcanonical hij hfirst hsecond b c shifted
    obtain ⟨before, between, after, rfl, rfl, rfl⟩ := exists_of_two_forced hij hfirst hsecond
    have hdrop := hcanonical.drop_shiftedPlace b
    have htake := hcanonical.take_splice c
    refine ⟨hdrop, ?_, htake, ?_, hcanonical.splice_comm b c⟩
    · rw [← List.head?_drop, hdrop, List.head?_drop, hsecond]
    · rw [← List.getElem?_take_of_lt (Nat.lt_succ_self _), htake,
        List.getElem?_take_of_lt (Nat.lt_succ_self _), hfirst]

/-- An alternative with literals around its two forced references. -/
def menu : Alternative :=
  ⟨[.literal "try ".toList, .forced (.ofIdentifier ['a']), .literal " or ".toList,
    .forced (.ofIdentifier ['b']), .literal ['!']]⟩

/-- An alternative with an ordinary reference at its beginning. -/
def jam : Alternative :=
  ⟨[.ref (.ofIdentifier ['c']), .literal " jam".toList]⟩

/-- Nothing in place of the first reference, so the literals around it are joined and the second
one moves to the front. -/
theorem menu_splicing_faithful :
    menu.Canonical ∧ menu.segments[1]? = some (.forced (.ofIdentifier ['a'])) ∧
      menu.segments[3]? = some (.forced (.ofIdentifier ['b'])) ∧
      menu.shiftedPlace 1 ⟨[]⟩ 3 = 1 ∧
      (menu.splice 1 ⟨[]⟩).segments[1]? = some (.forced (.ofIdentifier ['b'])) ∧
      (menu.splice 3 jam).segments[1]? = some (.forced (.ofIdentifier ['a'])) ∧
      (menu.splice 1 ⟨[]⟩).splice 1 jam = (menu.splice 3 jam).splice 1 ⟨[]⟩ ∧
      (menu.splice 3 jam).splice 1 ⟨[]⟩ = ⟨[.literal "try  or ".toList,
        .ref (.ofIdentifier ['c']), .literal " jam!".toList]⟩ := by
  have hcanonical : menu.Canonical := by decide
  have hfirst : menu.segments[1]? = some (.forced (.ofIdentifier ['a'])) := rfl
  have hsecond : menu.segments[3]? = some (.forced (.ofIdentifier ['b'])) := rfl
  have hplace : menu.shiftedPlace 1 ⟨[]⟩ 3 = 1 := by decide
  obtain ⟨-, hmoved, -, hkept, hcomm⟩ :=
    splicing_faithful.2 menu 1 3 _ _ hcanonical (by decide) hfirst hsecond ⟨[]⟩ jam
  rw [hplace] at hmoved hcomm
  exact ⟨hcanonical, hfirst, hsecond, hplace, hmoved, hkept, hcomm, by decide⟩

end Alternative

end TextGrammar
