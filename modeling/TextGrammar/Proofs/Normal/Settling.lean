import TextGrammar.Proofs.Normal.Passes

/-!
# Settled texts

Repeating the passes ends at a text that they leave as it is, and such a text is its own reading.

* `Normal.Tidy` is what the first three passes bring about. They leave a tidy text without `^` as
  it is, so only the last pass can still make a difference.
* `Normal.shiftCaseFrom_cases`: the last pass changes nothing or uses up a `\`. Hence the rounds of
  `normalize` are enough (`Normal.passes_settle`).
* `normalize_eq_reading` is the result.
-/

namespace TextGrammar

namespace Normal

open Unicode

/-! ## Tidy texts -/

/-- Every whitespace character is a space, and no other one follows it. -/
def Collapsed : Text → Prop
  | [] => True
  | c :: rest =>
    (isWhitespace c = true → c = ' ' ∧ ∀ d ∈ rest.head?, isWhitespace d = false) ∧ Collapsed rest

/-- Every whitespace character is a space, and neither another one nor punctuation follows it. -/
def Tidy : Text → Prop
  | [] => True
  | c :: rest =>
    (isWhitespace c = true →
      c = ' ' ∧ ∀ d ∈ rest.head?, isWhitespace d = false ∧ isPunctuation d = false) ∧ Tidy rest

theorem collapsed_collapseFrom (inBlank : Bool) (text : Text) :
    Collapsed (collapseFrom inBlank text) ∧
      (inBlank = true → ∀ d ∈ (collapseFrom inBlank text).head?, isWhitespace d = false) := by
  induction text generalizing inBlank with
  | nil => exact ⟨trivial, fun _ _ hd => absurd hd (by simp [collapseFrom])⟩
  | cons c rest ih =>
    unfold collapseFrom
    by_cases hblank : isWhitespace c = true
    · rw [if_pos hblank]
      obtain ⟨hcollapsed, hhead⟩ := ih true
      cases inBlank with
      | true => exact ⟨hcollapsed, hhead⟩
      | false => exact ⟨⟨fun _ => ⟨rfl, hhead rfl⟩, hcollapsed⟩, Bool.noConfusion⟩
    · rw [if_neg hblank]
      refine ⟨⟨fun h => absurd h hblank, (ih false).1⟩, fun _ d hd => ?_⟩
      rw [List.head?_cons, Option.mem_some_iff] at hd
      rw [← hd, ← Bool.not_eq_true]
      exact hblank

theorem stripBeforePunctuation_cons_of_not_isWhitespace {c : Char} (h : isWhitespace c = false)
    (rest : Text) :
    stripBeforePunctuation (c :: rest) = c :: stripBeforePunctuation rest := by
  rw [stripBeforePunctuation, h, Bool.false_and, if_neg Bool.false_ne_true]

theorem Collapsed.tidy {text : Text} (h : Collapsed text) : Tidy (stripBeforePunctuation text) := by
  induction text with
  | nil => trivial
  | cons c rest ih =>
    obtain ⟨hfirst, hrest⟩ := h
    unfold stripBeforePunctuation
    by_cases hstrip : (isWhitespace c && rest.head?.any isPunctuation) = true
    · rw [if_pos hstrip]
      exact ih hrest
    · rw [if_neg hstrip]
      refine ⟨fun hblank => ⟨(hfirst hblank).1, fun d hd => ?_⟩, ih hrest⟩
      cases rest with
      | nil => cases hd
      | cons e rest =>
        have hblank' : isWhitespace e = false := (hfirst hblank).2 e rfl
        rw [stripBeforePunctuation_cons_of_not_isWhitespace hblank', List.head?_cons,
          Option.mem_some_iff] at hd
        subst hd
        refine ⟨hblank', ?_⟩
        rw [← Bool.not_eq_true]
        intro hpunctuation
        apply hstrip
        rw [hblank, Bool.true_and]
        exact hpunctuation

theorem Tidy.joinFrom {text : Text} (h : Tidy text) (joined : Bool) :
    Tidy (joinFrom joined text) := by
  induction text generalizing joined with
  | nil => trivial
  | cons c rest ih =>
    obtain ⟨hfirst, hrest⟩ := h
    unfold Normal.joinFrom
    by_cases hjoin : c = '^'
    · rw [if_pos hjoin]
      exact ih hrest true
    · rw [if_neg hjoin]
      by_cases hblank : isWhitespace c = true
      · rw [if_pos hblank]
        by_cases hdrop : (joined || meetsJoin rest) = true
        · rw [if_pos hdrop]
          exact ih hrest joined
        · rw [if_neg hdrop]
          obtain ⟨rfl, hmeets⟩ := Bool.or_eq_false_iff.1 (Bool.not_eq_true _ ▸ hdrop)
          refine ⟨fun _ => ⟨(hfirst hblank).1, fun d hd => ?_⟩, ih hrest false⟩
          cases rest with
          | nil => cases hd
          | cons e rest =>
            obtain ⟨hblank', hpunctuation⟩ := (hfirst hblank).2 e rfl
            rw [meetsJoin_cons_of_not_isWhitespace hblank', decide_eq_false_iff_not] at hmeets
            rw [Normal.joinFrom, if_neg hmeets, if_neg (Bool.eq_false_iff.1 hblank'),
              List.head?_cons, Option.mem_some_iff] at hd
            rw [← hd]
            exact ⟨hblank', hpunctuation⟩
      · rw [if_neg hblank]
        exact ⟨fun h => absurd h hblank, ih hrest false⟩

/-- The first three passes make a text tidy. -/
theorem tidy_join (text : Text) : Tidy (join (stripBeforePunctuation (collapse text))) :=
  (collapsed_collapseFrom false text).1.tidy.joinFrom false

/-! ## Tidy texts stay as they are -/

theorem Tidy.collapseFrom_eq {text : Text} (h : Tidy text) {inBlank : Bool}
    (hhead : inBlank = true → ∀ d ∈ text.head?, isWhitespace d = false) :
    collapseFrom inBlank text = text := by
  induction text generalizing inBlank with
  | nil => rfl
  | cons c rest ih =>
    obtain ⟨hfirst, hrest⟩ := h
    unfold collapseFrom
    by_cases hblank : isWhitespace c = true
    · have hfalse : inBlank = false := by
        rw [← Bool.not_eq_true]
        intro htrue
        have hc := hhead htrue c rfl
        rw [hblank] at hc
        cases hc
      obtain ⟨hspace, hnext⟩ := hfirst hblank
      rw [if_pos hblank, if_neg (Bool.eq_false_iff.1 hfalse),
        ih hrest fun _ d hd => (hnext d hd).1, hspace]
    · rw [if_neg hblank, ih hrest Bool.noConfusion]

theorem Tidy.stripBeforePunctuation_eq {text : Text} (h : Tidy text) :
    stripBeforePunctuation text = text := by
  induction text with
  | nil => rfl
  | cons c rest ih =>
    obtain ⟨hfirst, hrest⟩ := h
    have hkeep : ¬(isWhitespace c && rest.head?.any isPunctuation) = true := by
      intro hstrip
      obtain ⟨hblank, hany⟩ := Bool.and_eq_true_iff.1 hstrip
      cases rest with
      | nil => cases hany
      | cons d rest =>
        have hd := ((hfirst hblank).2 d rfl).2
        rw [show isPunctuation d = true from hany] at hd
        cases hd
    rw [stripBeforePunctuation, if_neg hkeep, ih hrest]

theorem meetsJoin_of_not_mem {text : Text} (h : '^' ∉ text) : meetsJoin text = false := by
  unfold meetsJoin Text.trimStart
  rw [decide_eq_false_iff_not]
  intro hhead
  exact h ((List.dropWhile_sublist _).subset (List.mem_of_mem_head? hhead))

theorem join_eq_of_not_mem {text : Text} (h : '^' ∉ text) : join text = text := by
  unfold join
  induction text with
  | nil => rfl
  | cons c rest ih =>
    have hjoin : c ≠ '^' := (List.ne_of_not_mem_cons h).symm
    have hrest : '^' ∉ rest := List.not_mem_of_not_mem_cons h
    rw [joinFrom, if_neg hjoin, meetsJoin_of_not_mem hrest, Bool.or_false,
      if_neg Bool.false_ne_true, ih hrest, ite_self]

/-- A tidy text of whitespace only is at most one space. -/
theorem Tidy.eq_of_blank {text : Text} (h : Tidy text)
    (hblank : ∀ c ∈ text, isWhitespace c = true) : text = [] ∨ text = [' '] := by
  cases text with
  | nil => exact Or.inl rfl
  | cons c rest =>
    obtain ⟨hspace, hnext⟩ := h.1 (hblank c List.mem_cons_self)
    cases rest with
    | nil => exact Or.inr (congrArg ([·]) hspace)
    | cons d rest =>
      have hd := hblank d (List.mem_cons_of_mem _ List.mem_cons_self)
      rw [(hnext d rfl).1] at hd
      cases hd

/-- On a tidy text without `^`, only the last pass can make a difference. -/
theorem Tidy.passes_eq {text : Text} (h : Tidy text) (hjoin : '^' ∉ text) :
    passes text = shiftCase text := by
  unfold passes collapse
  rw [h.collapseFrom_eq Bool.noConfusion, h.stripBeforePunctuation_eq, join_eq_of_not_mem hjoin]

/-! ## Marks are used up -/

theorem count_collapseFrom (inBlank : Bool) (text : Text) :
    (collapseFrom inBlank text).count '\\' = text.count '\\' := by
  induction text generalizing inBlank with
  | nil => rfl
  | cons c rest ih =>
    unfold collapseFrom
    by_cases hblank : isWhitespace c = true
    · have hne : c ≠ '\\' := ne_of_isWhitespace hblank (by decide)
      rw [if_pos hblank, List.count_cons_of_ne hne]
      cases inBlank with
      | true => exact ih true
      | false =>
        rw [if_neg Bool.false_ne_true, List.count_cons_of_ne (by decide)]
        exact ih true
    · rw [if_neg hblank, List.count_cons, List.count_cons, ih]

theorem count_stripBeforePunctuation_le (text : Text) :
    (stripBeforePunctuation text).count '\\' ≤ text.count '\\' := by
  induction text with
  | nil => exact Nat.le_refl _
  | cons c rest ih =>
    unfold stripBeforePunctuation
    split
    · rw [List.count_cons]
      omega
    · rw [List.count_cons, List.count_cons]
      omega

theorem count_joinFrom_le (joined : Bool) (text : Text) :
    (joinFrom joined text).count '\\' ≤ text.count '\\' := by
  induction text generalizing joined with
  | nil => exact Nat.le_refl _
  | cons c rest ih =>
    have hjoined := ih joined
    have htrue := ih true
    have hfalse := ih false
    unfold joinFrom
    split
    · rw [List.count_cons]
      omega
    · split
      · split <;> simp only [List.count_cons] <;> omega
      · simp only [List.count_cons]
        omega

theorem count_upperChar_le (c : Char) : (upperChar c).count '\\' ≤ [c].count '\\' := by
  rcases upperChar_cases c with hself | ⟨-, d, ds, hupper, -, hfree⟩
  · exact Nat.le_of_eq (congrArg (List.count '\\') hself)
  · have hnone : '\\' ∉ d :: ds := by
      intro hmem
      have hmark := hfree _ hmem
      exact absurd hmark (by decide)
    rw [hupper, List.count_eq_zero_of_not_mem hnone]
    exact Nat.zero_le _

/-- The last pass leaves a text alone or uses up a `\`. Behind a `\` it finds only whitespace, or it
uses that `\` up. -/
theorem shiftCaseFrom_cases (text : Text) :
    (shiftCaseFrom none text = text ∨
      (shiftCaseFrom none text).count '\\' < text.count '\\') ∧
    ∀ blanks, ((∀ c ∈ text, isWhitespace c = true) ∧
        shiftCaseFrom (some blanks) text = '\\' :: (blanks ++ text)) ∨
      (shiftCaseFrom (some blanks) text).count '\\' ≤ text.count '\\' := by
  induction text with
  | nil =>
    refine ⟨Or.inl rfl, fun blanks => Or.inl ⟨fun c hc => absurd hc List.not_mem_nil, ?_⟩⟩
    rw [shiftCaseFrom, List.append_nil]
  | cons c rest ih =>
    obtain ⟨ihnone, ihsome⟩ := ih
    constructor
    · unfold shiftCaseFrom
      by_cases hmark : c = '\\'
      · rw [if_pos hmark, hmark, List.count_cons_self]
        rcases ihsome [] with ⟨-, heq⟩ | hle
        · exact Or.inl heq
        · exact Or.inr (Nat.lt_succ_of_le hle)
      · rw [if_neg hmark, List.count_cons_of_ne hmark, List.count_cons_of_ne hmark]
        exact ihnone.imp_left (congrArg (c :: ·))
    · intro blanks
      unfold shiftCaseFrom
      by_cases hblank : isWhitespace c = true
      · rw [if_pos hblank]
        rcases ihsome (blanks ++ [c]) with ⟨hall, heq⟩ | hle
        · refine Or.inl ⟨List.forall_mem_cons.2 ⟨hblank, hall⟩, ?_⟩
          rw [heq, List.append_assoc]
          rfl
        · refine Or.inr ?_
          rw [List.count_cons]
          omega
      · rw [if_neg hblank]
        refine Or.inr ?_
        have hupper := count_upperChar_le c
        have hrest : (shiftCaseFrom none rest).count '\\' ≤ rest.count '\\' := by
          rcases ihnone with heq | hlt
          · exact Nat.le_of_eq (congrArg (List.count '\\') heq)
          · exact Nat.le_of_lt hlt
        rw [List.count_append]
        have hcons : (c :: rest).count '\\' = [c].count '\\' + rest.count '\\' := by
          rw [← List.count_append, List.singleton_append]
        omega

/-- A round uses up a `\`, or it gives a tidy text without `^` on which the last pass makes no
difference. -/
theorem passes_cases (text : Text) :
    (passes text).count '\\' < text.count '\\' ∨
      Tidy (passes text) ∧ '^' ∉ passes text ∧ shiftCase (passes text) = passes text := by
  have htidy := tidy_join text
  have hfree : '^' ∉ join (stripBeforePunctuation (collapse text)) := not_mem_joinFrom false _
  have hcount : (join (stripBeforePunctuation (collapse text))).count '\\' ≤ text.count '\\' :=
    calc (join (stripBeforePunctuation (collapse text))).count '\\'
      _ ≤ (stripBeforePunctuation (collapse text)).count '\\' := count_joinFrom_le false _
      _ ≤ (collapse text).count '\\' := count_stripBeforePunctuation_le _
      _ = text.count '\\' := count_collapseFrom false text
  unfold passes
  rcases (shiftCaseFrom_cases (join (stripBeforePunctuation (collapse text)))).1 with heq | hlt
  · refine Or.inr ?_
    unfold shiftCase
    rw [heq]
    exact ⟨htidy, hfree, heq⟩
  · exact Or.inl (Nat.lt_of_lt_of_le hlt hcount)

/-! ## Settling -/

/-- The passes leave a settled text as it is. -/
theorem passes_settle {rounds : Nat} {text : Text} (h : text.count '\\' + 2 ≤ rounds) :
    passes (settle rounds text) = settle rounds text := by
  induction rounds generalizing text with
  | zero => omega
  | succ rounds ih =>
    unfold settle
    by_cases hfixed : passes text = text
    · simp only [if_pos hfixed]
      exact hfixed
    · simp only [if_neg hfixed]
      rcases passes_cases text with hlt | ⟨htidy, hfree, hshift⟩
      · exact ih (by omega)
      · have hstable : passes (passes text) = passes text := by
          rw [htidy.passes_eq hfree, hshift]
        have hsettle : settle rounds (passes text) = passes text := by
          cases rounds with
          | zero => rfl
          | succ rounds =>
            unfold settle
            simp only [if_pos hstable]
        rw [hsettle]
        exact hstable

theorem scan_settle (rounds : Nat) (text : Text) :
    scan Gap.start (settle rounds text) = scan Gap.start text := by
  induction rounds generalizing text with
  | zero => rfl
  | succ rounds ih =>
    unfold settle
    by_cases hfixed : passes text = text
    · simp only [if_pos hfixed]
    · simp only [if_neg hfixed]
      rw [ih, scan_passes]

/-- A tidy text on which the last pass makes no difference is its own reading, also behind a
space. -/
theorem Tidy.scan_eq {text : Text} (h : Tidy text) (hjoin : '^' ∉ text)
    (hshift : shiftCase text = text) :
    scan Gap.start text = text ∧
      (Tidy (' ' :: text) → scan ⟨none, .blank⟩ text = ' ' :: text) := by
  induction text with
  | nil => exact ⟨rfl, fun _ => rfl⟩
  | cons c rest ih =>
    obtain ⟨hfirst, hrest⟩ := h
    have hfree : '^' ∉ rest := List.not_mem_of_not_mem_cons hjoin
    have hne : c ≠ '^' := (List.ne_of_not_mem_cons hjoin).symm
    by_cases hmark : c = '\\'
    · -- Behind the `\` there is nothing but at most one space.
      subst hmark
      have hblanks : ∀ d ∈ rest, isWhitespace d = true := by
        have hsome : shiftCaseFrom (some []) rest = '\\' :: rest := hshift
        rcases (shiftCaseFrom_cases rest).2 [] with ⟨hall, -⟩ | hle
        · exact hall
        · rw [hsome, List.count_cons_self] at hle
          omega
      rcases hrest.eq_of_blank hblanks with rfl | rfl
      · exact ⟨by decide, fun _ => by decide⟩
      · exact ⟨by decide, fun _ => by decide⟩
    · have hshift' : shiftCase rest = rest := by
        unfold shiftCase at hshift ⊢
        rw [shiftCaseFrom, if_neg hmark] at hshift
        exact List.tail_eq_of_cons_eq hshift
      obtain ⟨ihstart, ihblank⟩ := ih hrest hfree hshift'
      by_cases hblank : isWhitespace c = true
      · have hspace := (hfirst hblank).1
        subst hspace
        constructor
        · rw [scan_blank _ hblank]
          exact ihblank ⟨hfirst, hrest⟩
        · intro htidy
          have hnot := ((htidy.1 hblank).2 ' ' rfl).1
          rw [hblank] at hnot
          cases hnot
      · rw [Bool.not_eq_true] at hblank
        have hgap : isGap c = false := by
          rw [← Bool.not_eq_true]
          intro hgap
          exact hmark (eq_mark_of_isGap hgap hblank hne)
        rw [scan_cons_of_not_gap hgap, scan_cons_of_not_gap hgap, ihstart]
        refine ⟨rfl, fun htidy => ?_⟩
        have hpunctuation := ((htidy.1 (by decide)).2 c rfl).2
        rw [Gap.opening, hpunctuation]
        rfl

/-- A text that the passes leave as it is, is its own reading. -/
theorem scan_eq_of_passes_eq {text : Text} (h : passes text = text) :
    scan Gap.start text = text := by
  rcases passes_cases text with hlt | ⟨htidy, hfree, hshift⟩
  · rw [h] at hlt
    exact absurd hlt (Nat.lt_irrefl _)
  · rw [h] at htidy hfree hshift
    exact (htidy.scan_eq hfree hshift).1

end Normal

open TextGrammar.Normal

/-- Repeating the passes settles, and the text it settles at is read off the raw text in one walk
from left to right. -/
theorem normalize_eq_reading (raw : Text) :
    passes (normalize raw) = normalize raw ∧ normalize raw = reading raw := by
  have hsettled : passes (normalize raw) = normalize raw := passes_settle (by
    unfold rounds
    omega)
  refine ⟨hsettled, ?_⟩
  calc normalize raw = scan Gap.start (normalize raw) := (scan_eq_of_passes_eq hsettled).symm
    _ = scan Gap.start raw := scan_settle _ raw
    _ = reading raw := scan_eq_readFrom [] raw

end TextGrammar
