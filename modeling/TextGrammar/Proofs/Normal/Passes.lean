import TextGrammar.Proofs.Normal.Reading

/-!
# Passes and readings

No pass changes what is read (`Normal.scan_passes`). Each of them walks over a text with a memory
of its own; the statements about the walks say how that memory goes with what the reading
remembers of a gap.
-/

namespace TextGrammar.Normal

open Unicode

/-! ## One step of reading -/

theorem isGap_of_isPunctuation {c : Char} (h : isPunctuation c = true) : isGap c = false := by
  simp only [isPunctuation, Bool.or_eq_true, decide_eq_true_eq] at h
  rcases h with ((((rfl | rfl) | rfl) | rfl) | rfl) | rfl <;> decide

theorem scan_cons_of_gap {gap : Gap} {c : Char} (h : isGap c = true) (rest : Text) :
    scan gap (c :: rest) = scan (gap.step c) rest :=
  if_pos h

theorem scan_cons_of_not_gap {gap : Gap} {c : Char} (h : isGap c = false) (rest : Text) :
    scan gap (c :: rest) = gap.opening c ++ scan Gap.start rest :=
  if_neg (Bool.eq_false_iff.1 h)

theorem scan_append_of_not_gap {text : Text} (h : ∀ c ∈ text, isGap c = false) (rest : Text) :
    scan Gap.start (text ++ rest) = text ++ scan Gap.start rest := by
  induction text with
  | nil => rfl
  | cons c text ih =>
    rw [List.cons_append, scan_cons_of_not_gap (h c List.mem_cons_self),
      ih fun d hd => h d (List.mem_cons_of_mem _ hd)]
    rfl

theorem scan_blank (gap : Gap) {c : Char} (h : isWhitespace c = true) (rest : Text) :
    scan gap (c :: rest) = scan ⟨gap.lead?, gap.part.blanked⟩ rest := by
  rw [scan_cons_of_gap (isGap_of_isWhitespace h), Gap.step, if_pos h]

theorem scan_join (gap : Gap) (rest : Text) :
    scan gap ('^' :: rest) = scan ⟨gap.lead?, .joined⟩ rest := by
  rw [scan_cons_of_gap (by decide), Gap.step, if_neg (by decide), if_pos rfl]

theorem scan_mark (gap : Gap) (rest : Text) :
    scan gap ('\\' :: rest) = scan ⟨some gap.spaced, .empty⟩ rest := by
  rw [scan_cons_of_gap (by decide), Gap.step, if_neg (by decide), if_neg (by decide)]

/-- A character that ends a part of a gap leaves of it only whether there is a space. -/
theorem scan_cons_congr {lead? : Option Bool} {part part' : Part} {c : Char} (hjoin : c ≠ '^')
    (hblank : isWhitespace c = false) {rest rest' : Text}
    (hspaced : Gap.spaced ⟨lead?, part⟩ = Gap.spaced ⟨lead?, part'⟩)
    (hrest : ∀ lead?, scan ⟨lead?, .empty⟩ rest = scan ⟨lead?, .empty⟩ rest') :
    scan ⟨lead?, part⟩ (c :: rest) = scan ⟨lead?, part'⟩ (c :: rest') := by
  by_cases hgap : isGap c = true
  · rw [eq_mark_of_isGap hgap hblank hjoin, scan_mark, scan_mark, hspaced, hrest]
  · rw [Bool.not_eq_true] at hgap
    rw [scan_cons_of_not_gap hgap, scan_cons_of_not_gap hgap, Gap.opening, Gap.opening, hspaced]
    exact congrArg (_ ++ ·) (hrest none)

/-! ## Collapsing and stripping -/

/-- Further whitespace behind whitespace adds nothing to what is remembered. -/
theorem scan_collapseFrom (gap : Gap) (inBlank : Bool) (text : Text)
    (h : inBlank = true → gap.part ≠ .empty) :
    scan gap (collapseFrom inBlank text) = scan gap text := by
  induction text generalizing gap inBlank with
  | nil => rfl
  | cons c rest ih =>
    unfold collapseFrom
    by_cases hblank : isWhitespace c = true
    · rw [if_pos hblank, scan_blank gap hblank]
      cases inBlank with
      | true =>
        rw [if_pos rfl, Part.blanked_of_ne_empty (h rfl)]
        exact ih gap true h
      | false =>
        rw [if_neg Bool.false_ne_true, scan_blank gap (by decide)]
        exact ih _ true fun _ => Part.blanked_ne_empty _
    · rw [if_neg hblank]
      by_cases hgap : isGap c = true
      · rw [scan_cons_of_gap hgap, scan_cons_of_gap hgap]
        exact ih _ false Bool.noConfusion
      · rw [Bool.not_eq_true] at hgap
        rw [scan_cons_of_not_gap hgap, scan_cons_of_not_gap hgap, ih _ false Bool.noConfusion]

/-- Punctuation takes no space, so it does not matter whether there is one in front of it. -/
theorem scan_cons_of_isPunctuation {gap gap' : Gap} {c : Char} (h : isPunctuation c = true)
    (hlead : gap.lead?.isSome = gap'.lead?.isSome) (rest : Text) :
    scan gap (c :: rest) = scan gap' (c :: rest) := by
  have hgap := isGap_of_isPunctuation h
  rw [scan_cons_of_not_gap hgap, scan_cons_of_not_gap hgap]
  unfold Gap.opening
  rw [h, hlead, Bool.not_true, Bool.and_false, Bool.and_false]

theorem scan_stripBeforePunctuation (gap : Gap) (text : Text) :
    scan gap (stripBeforePunctuation text) = scan gap text := by
  induction text generalizing gap with
  | nil => rfl
  | cons c rest ih =>
    unfold stripBeforePunctuation
    by_cases hstrip : (isWhitespace c && rest.head?.any isPunctuation) = true
    · rw [if_pos hstrip, ih]
      obtain ⟨hblank, hhead⟩ := Bool.and_eq_true_iff.1 hstrip
      rw [scan_blank gap hblank]
      cases rest with
      | nil => cases hhead
      | cons d rest =>
        apply scan_cons_of_isPunctuation hhead
        rfl
    · rw [if_neg hstrip]
      by_cases hgap : isGap c = true
      · rw [scan_cons_of_gap hgap, scan_cons_of_gap hgap, ih]
      · rw [Bool.not_eq_true] at hgap
        rw [scan_cons_of_not_gap hgap, scan_cons_of_not_gap hgap, ih]

/-! ## Joining -/

theorem meetsJoin_cons_of_isWhitespace {c : Char} (h : isWhitespace c = true) (rest : Text) :
    meetsJoin (c :: rest) = meetsJoin rest := by
  unfold meetsJoin
  rw [Text.trimStart_cons_of_blank h]

theorem meetsJoin_cons_of_not_isWhitespace {c : Char} (h : isWhitespace c = false) (rest : Text) :
    meetsJoin (c :: rest) = decide (c = '^') := by
  unfold meetsJoin
  rw [Text.trimStart_eq_self (by simpa using h)]
  simp

/-- A `^` that only whitespace comes before makes the part it is in leave no space. -/
theorem scan_of_meetsJoin {text : Text} (h : meetsJoin text = true) (lead? : Option Bool)
    (part part' : Part) : scan ⟨lead?, part⟩ text = scan ⟨lead?, part'⟩ text := by
  induction text generalizing part part' with
  | nil => cases h
  | cons c rest ih =>
    by_cases hblank : isWhitespace c = true
    · rw [meetsJoin_cons_of_isWhitespace hblank] at h
      rw [scan_blank _ hblank, scan_blank _ hblank]
      exact ih h _ _
    · rw [Bool.not_eq_true] at hblank
      rw [meetsJoin_cons_of_not_isWhitespace hblank, decide_eq_true_eq] at h
      rw [h, scan_join, scan_join]

/-- A part that holds a `^` leaves no space, as one that holds nothing. -/
theorem spaced_joined (lead? : Option Bool) :
    Gap.spaced ⟨lead?, .joined⟩ = Gap.spaced ⟨lead?, .empty⟩ := by
  cases lead? <;> rfl

theorem closing_joined (lead? : Option Bool) :
    Gap.closing ⟨lead?, .joined⟩ = Gap.closing ⟨lead?, .empty⟩ := by
  cases lead? <;> rfl

/-- Behind a `^` the reading of the joined text remembers an empty part where that of the text
remembers a joined one. Whitespace is only kept where no `^` follows it. -/
theorem scan_joinFrom (lead? : Option Bool) (part : Part) (joined : Bool) (text : Text)
    (h : part = .empty ∨ part = .blank ∧ joined = false ∧ meetsJoin text = false) :
    scan ⟨lead?, part⟩ (joinFrom joined text) =
      scan ⟨lead?, if joined then .joined else part⟩ text := by
  induction text generalizing lead? part joined with
  | nil =>
    cases joined with
    | false => rfl
    | true =>
      have hempty : part = .empty := h.resolve_right fun ⟨_, hjoined, _⟩ => Bool.noConfusion hjoined
      rw [hempty, if_pos rfl]
      exact (closing_joined lead?).symm
  | cons c rest ih =>
    unfold joinFrom
    by_cases hjoin : c = '^'
    · subst hjoin
      have hempty : part = .empty := by
        apply h.resolve_right
        rintro ⟨-, -, hmeets⟩
        rw [meetsJoin_cons_of_not_isWhitespace (by decide), decide_eq_false_iff_not] at hmeets
        exact hmeets rfl
      rw [if_pos rfl, scan_join, hempty, ih _ _ true (Or.inl rfl), if_pos rfl]
    · rw [if_neg hjoin]
      by_cases hblank : isWhitespace c = true
      · rw [meetsJoin_cons_of_isWhitespace hblank] at h
        rw [if_pos hblank, scan_blank _ hblank]
        by_cases hdrop : (joined || meetsJoin rest) = true
        · have hempty : part = .empty := by
            apply h.resolve_right
            rintro ⟨-, rfl, hmeets⟩
            rw [hmeets] at hdrop
            cases hdrop
          rw [if_pos hdrop, hempty, ih _ _ joined (Or.inl rfl)]
          cases joined with
          | true => rfl
          | false => exact scan_of_meetsJoin hdrop _ _ _
        · obtain ⟨hjoined, hmeets⟩ := Bool.or_eq_false_iff.1 (Bool.not_eq_true _ ▸ hdrop)
          have hblanked : part.blanked = .blank := by
            rcases h with rfl | ⟨rfl, -⟩ <;> rfl
          subst hjoined
          rw [if_neg hdrop, scan_blank _ hblank]
          show scan ⟨lead?, part.blanked⟩ _ = scan ⟨lead?, part.blanked⟩ _
          rw [hblanked]
          exact ih _ _ false (Or.inr ⟨rfl, rfl, hmeets⟩)
      · rw [if_neg hblank]
        rw [Bool.not_eq_true] at hblank
        apply scan_cons_congr hjoin hblank
        · cases joined with
          | false => rfl
          | true =>
            have hempty : part = .empty :=
              h.resolve_right fun ⟨_, hjoined, _⟩ => Bool.noConfusion hjoined
            rw [hempty, if_pos rfl]
            exact (spaced_joined lead?).symm
        · intro lead?
          exact ih lead? _ false (Or.inl rfl)

theorem not_mem_joinFrom (joined : Bool) (text : Text) : '^' ∉ joinFrom joined text := by
  induction text generalizing joined with
  | nil => exact List.not_mem_nil
  | cons c rest ih =>
    unfold joinFrom
    by_cases hjoin : c = '^'
    · rw [if_pos hjoin]
      exact ih true
    · have hcons : ∀ joined, '^' ∉ c :: joinFrom joined rest := by
        intro joined
        exact List.not_mem_cons_of_ne_of_not_mem (Ne.symm hjoin) (ih joined)
      rw [if_neg hjoin]
      split
      · split
        · exact ih joined
        · exact hcons joined
      · exact hcons false

/-! ## Shifting the case -/

theorem exists_scan_blanks {blanks : Text} (h : ∀ c ∈ blanks, isWhitespace c = true)
    (lead? : Option Bool) (part : Part) :
    ∃ part', ∀ rest, scan ⟨lead?, part⟩ (blanks ++ rest) = scan ⟨lead?, part'⟩ rest := by
  induction blanks generalizing part with
  | nil => exact ⟨part, fun _ => rfl⟩
  | cons c blanks ih =>
    obtain ⟨part', hscan⟩ := ih (fun d hd => h d (List.mem_cons_of_mem _ hd)) part.blanked
    refine ⟨part', fun rest => ?_⟩
    rw [List.cons_append, scan_blank _ (h c List.mem_cons_self)]
    exact hscan rest

/-- A capital is read as the character it stands for would be behind a `\`. -/
theorem scan_upperChar (gap : Gap) {c : Char} (h : isGap c = false) (rest : Text) :
    scan gap (upperChar c ++ rest) =
      space (gap.spaced && !isPunctuation c) ++ upperChar c ++ scan Gap.start rest := by
  have hopening : ∀ d ds, upperChar c = d :: ds → upperChar d = [d] →
      isPunctuation d = isPunctuation c → (∀ e ∈ d :: ds, isGap e = false) →
      scan gap (upperChar c ++ rest) =
        space (gap.spaced && !isPunctuation c) ++ upperChar c ++ scan Gap.start rest := by
    intro d ds hupper hhead hpunctuation hgap
    have hsame : (if gap.lead?.isSome then upperChar d else [d]) = [d] := by
      rw [hhead, ite_self]
    rw [hupper, List.cons_append, scan_cons_of_not_gap (hgap d List.mem_cons_self), Gap.opening,
      hsame, hpunctuation, scan_append_of_not_gap fun e he => hgap e (List.mem_cons_of_mem _ he)]
    simp
  rcases upperChar_cases c with hself | ⟨hfree, d, ds, hupper, hhead, hds⟩
  · apply hopening c [] hself hself rfl
    intro e he
    rw [List.mem_singleton.1 he]
    exact h
  · rw [isReserved, Bool.or_eq_false_iff] at hfree
    simp only [isReserved, Bool.or_eq_false_iff] at hds
    apply hopening d ds hupper hhead
    · rw [(hds d List.mem_cons_self).2, hfree.2]
    · intro e he
      exact (hds e he).1

/-- A `\` in front of another one and the whitespace between them go without a trace, since what a
reading remembers of a gap is settled by its first `\` and its last part. -/
theorem scan_shiftCaseFrom {text : Text} (h : '^' ∉ text) :
    (∀ gap, scan gap (shiftCaseFrom none text) = scan gap text) ∧
      ∀ gap blanks, (∀ c ∈ blanks, isWhitespace c = true) →
        scan gap (shiftCaseFrom (some blanks) text) = scan gap ('\\' :: (blanks ++ text)) := by
  induction text with
  | nil =>
    refine ⟨fun _ => rfl, fun gap blanks _ => ?_⟩
    rw [shiftCaseFrom, List.append_nil]
  | cons c rest ih =>
    have hjoin : c ≠ '^' := (List.ne_of_not_mem_cons h).symm
    obtain ⟨ihnone, ihsome⟩ := ih (List.not_mem_of_not_mem_cons h)
    constructor
    · intro gap
      unfold shiftCaseFrom
      by_cases hmark : c = '\\'
      · rw [if_pos hmark, hmark]
        exact ihsome gap [] fun d hd => absurd hd List.not_mem_nil
      · rw [if_neg hmark]
        by_cases hgap : isGap c = true
        · rw [scan_cons_of_gap hgap, scan_cons_of_gap hgap, ihnone]
        · rw [Bool.not_eq_true] at hgap
          rw [scan_cons_of_not_gap hgap, scan_cons_of_not_gap hgap, ihnone]
    · intro gap blanks hblanks
      unfold shiftCaseFrom
      by_cases hblank : isWhitespace c = true
      · have hmore : ∀ d ∈ blanks ++ [c], isWhitespace d = true := by
          intro d hd
          rcases List.mem_append.1 hd with hd | hd
          · exact hblanks d hd
          · rw [List.mem_singleton.1 hd]
            exact hblank
        rw [if_pos hblank, ihsome gap _ hmore, List.append_assoc]
        rfl
      · rw [if_neg hblank]
        rw [Bool.not_eq_true] at hblank
        obtain ⟨part, hscan⟩ := exists_scan_blanks hblanks (some gap.spaced) .empty
        rw [scan_mark, hscan]
        by_cases hgap : isGap c = true
        · rw [eq_mark_of_isGap hgap hblank hjoin, upperChar_of_isReserved (by decide),
            List.singleton_append, scan_mark, scan_mark, ihnone]
          rfl
        · rw [Bool.not_eq_true] at hgap
          rw [scan_upperChar gap hgap, scan_cons_of_not_gap hgap, ihnone]
          rfl

/-! ## All four -/

/-- No pass changes what is read. -/
theorem scan_passes (text : Text) : scan Gap.start (passes text) = scan Gap.start text := by
  unfold passes shiftCase join collapse
  rw [(scan_shiftCaseFrom (not_mem_joinFrom false _)).1]
  have hjoin := scan_joinFrom none .empty false
    (stripBeforePunctuation (collapseFrom false text)) (Or.inl rfl)
  rw [if_neg Bool.false_ne_true] at hjoin
  show scan ⟨none, .empty⟩ _ = _
  rw [hjoin, scan_stripBeforePunctuation]
  exact scan_collapseFrom Gap.start false text Bool.noConfusion

end TextGrammar.Normal
