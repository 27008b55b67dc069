import TextGrammar.Proofs.Groups.Projection
import TextGrammar.Proofs.Groups.Reading

/-!
# Whitespace in front of a group and behind it

A group gives up the whitespace at an end of its body if every alternative has some there, since
alternatives are trimmed when they are read. Whether that is so is decided by cutting the body at
the `|` outside of nested groups, while its production is later cut at every `|`.

* `Group.Rewritten` says what may be left of the groups of a statement, for any rule about the
  blanks that a group gives up. `Group.Spaced` is that for a whole source.
* `Group.splitTopLevel_eq_split_of_unopened`: the two cuts agree on a body without parentheses, as
  long as no `|` stands behind a `[`. The bodies that are recorded hold no parentheses
  (`Group.not_mem_of_mem_innersAll`).
* `spaced_of_shared_edges`: groups with such bodies give up exactly what all their alternatives
  share.
* `stray_bracket_hides_bar`: a `[` that opens no group keeps a `|` behind it from being seen.
-/

namespace TextGrammar

namespace Group

/-! ## What is left of a statement -/

/-- The blank that a group gives up at one of its ends. -/
def blankIf (given : Bool) : Text :=
  if given then [' '] else []

/-- What may be left of a forest whose groups are numbered from `n`, and the bodies recorded for
them. The rule says of a recorded body whether it may give up a blank in front and behind. -/
inductive Rewritten (rule : Text → Bool → Bool → Prop) (kind : GroupKind) :
    Nat → Forest → Text → List Text → Prop where
  | nil {n} : Rewritten rule kind n .nil [] []
  | char {n c rest text bodies} :
      Rewritten rule kind n rest text bodies →
      Rewritten rule kind n (.char c rest) (c :: text) bodies
  | group {n body rest inner text before after leads trails braced} :
      Rewritten rule kind n body inner before →
      Rewritten rule kind (n + before.length + 1) rest text after →
      rule inner leads trails →
      Rewritten rule kind n (.group body rest)
        (blankIf leads ++ writeReference braced (kind.symbol (n + before.length)) ++
          blankIf trails ++ text)
        (before ++ inner :: after)

/-- The same for statements one after the other. Comments stay, and there are no groups in them. -/
inductive RewrittenAll (rule : Text → Bool → Bool → Prop) (kind : GroupKind) :
    Nat → List Text → List Text → List Text → Prop where
  | nil {n} : RewrittenAll rule kind n [] [] []
  | comment {n statement rest texts bodies} :
      isComment statement = true →
      RewrittenAll rule kind n rest texts bodies →
      RewrittenAll rule kind n (statement :: rest) (statement :: texts) bodies
  | statement {n statement rest text texts here bodies} :
      isComment statement = false →
      Rewritten rule kind n (Forest.ofText kind statement) text here →
      RewrittenAll rule kind (n + here.length) rest texts bodies →
      RewrittenAll rule kind n (statement :: rest) (text :: texts) (here ++ bodies)

/-- Desugaring a source writes the blanks around its plain groups by a rule. What is rewritten are
the statements behind the pass over optional groups, and the recorded bodies follow them as
productions. -/
def Spaced (rule : Text → Bool → Bool → Prop) (source : Text) : Prop :=
  ∃ texts bodies,
    RewrittenAll rule .plain 0 ((desugarKind .optional source).splitOn ';') texts bodies ∧
      (desugar source).splitOn ';' = texts ++ (mint .plain 0 bodies).map ('\n' :: ·)

/-- A body gives up a blank at an end exactly if each piece between its `|` has whitespace there. -/
def SharedEdges (body : Text) (leads trails : Bool) : Prop :=
  (leads = true ↔ ∀ piece ∈ body.splitOn '|', beginsBlank piece = true) ∧
    (trails = true ↔ ∀ piece ∈ body.splitOn '|', endsBlank piece = true)

variable {rule : Text → Bool → Bool → Prop} {kind : GroupKind}

theorem rewritten_replace {start : Nat} {forest : Forest}
    (h : ∀ body ∈ inners kind start forest, rule body (leadsBlank body) (trailsBlank body)) :
    Rewritten rule kind start forest (replace kind start forest).1
      (inners kind start forest) := by
  induction forest generalizing start with
  | nil => exact .nil
  | char c rest ih => exact .char (ih h)
  | group body rest ihbody ihrest =>
    rw [inners] at h
    obtain ⟨hbefore, hinner, hafter⟩ := List.forall_mem_append.1 h |>.imp_right
      List.forall_mem_cons.1
    have hlength : (replace kind start body).2.length = (inners kind start body).length := by
      rw [length_replace_snd, length_inners]
    simp only [replace, hlength]
    exact .group (ihbody hbefore) (ihrest hafter) hinner

theorem rewrittenAll_replaceAll {start : Nat} {statements : List Text}
    (h : ∀ body ∈ innersAll kind start statements,
      rule body (leadsBlank body) (trailsBlank body)) :
    RewrittenAll rule kind start statements (replaceAll kind start statements).1
      (innersAll kind start statements) := by
  induction statements generalizing start with
  | nil => exact .nil
  | cons statement rest ih =>
    rw [replaceAll_cons, innersAll]
    rw [innersAll] at h
    cases hcomment : isComment statement with
    | true =>
      rw [hcomment] at h
      exact .comment hcomment (ih h)
    | false =>
      simp only [hcomment, Bool.false_eq_true, if_false, List.forall_mem_append] at h
      have hlength : (replace kind start (Forest.ofText kind statement)).2.length =
          (inners kind start (Forest.ofText kind statement)).length := by
        rw [length_replace_snd, length_inners]
      simp only [Bool.false_eq_true, if_false, hlength]
      exact .statement hcomment (rewritten_replace h.1) (ih h.2)

/-- A source is spaced by every rule that holds of what its recorded bodies give up. -/
theorem spaced_of_forall {source : Text}
    (h : ∀ body ∈ innersAll .plain 0 ((desugarKind .optional source).splitOn ';'),
      rule body (leadsBlank body) (trailsBlank body)) : Spaced rule source := by
  refine ⟨_, _, rewrittenAll_replaceAll h, ?_⟩
  rw [desugar, split_desugarKind, replaceAll_snd]

/-! ## Recorded bodies -/

/-- A recorded body holds no delimiter of its kind. -/
theorem not_mem_of_mem_innersAll {start : Nat} {statements : List Text} {body : Text}
    (h : body ∈ innersAll kind start statements) :
    kind.opening ∉ body ∧ kind.closing ∉ body := by
  obtain ⟨statement, -, -, n, hmem⟩ := exists_of_mem_innersAll h
  obtain ⟨inner, hinner, hmarks⟩ := marks_of_mem_inners hmem
  obtain ⟨hopening, hclosing⟩ :=
    ((Forest.tame_ofText kind statement).bodies inner hinner).not_mem_surface
  obtain ⟨hopen, hclose⟩ := kind.isInert_delimiters
  rw [← Text.mem_marks hopen] at hopening ⊢
  rw [← Text.mem_marks hclose] at hclosing ⊢
  rw [hmarks]
  exact ⟨hopening, hclosing⟩

/-! ## Two ways to cut a body -/

theorem splitTopLevel_eq_singleton {text : Text} (h : '|' ∉ text) (depth : Nat) :
    splitTopLevel depth text = [text] := by
  induction text generalizing depth with
  | nil => rfl
  | cons c rest ih =>
    rw [List.mem_cons, not_or] at h
    rw [splitTopLevel, if_neg fun hbar => h.1 hbar.1.symm, ih h.2]
    rfl

/-- Without parentheses, only a `[` hides the `|` behind it. -/
theorem splitTopLevel_eq_split_of_unopened {text : Text} (hopening : '(' ∉ text)
    (hclosing : ')' ∉ text) (h : '|' ∉ text.dropWhile (· ≠ '[')) :
    splitTopLevel 0 text = text.splitOn '|' := by
  induction text with
  | nil => rfl
  | cons c rest ih =>
    rw [List.mem_cons, not_or] at hopening hclosing
    by_cases hc : c = '['
    · have hbar : '|' ∉ c :: rest := by simpa [hc] using h
      rw [splitTopLevel_eq_singleton hbar, List.splitOn_eq_singleton hbar]
    · have hdepth : depthAfter 0 c = 0 := by
        simp [depthAfter, hc, Ne.symm hopening.1]
      have hrest : '|' ∉ rest.dropWhile (· ≠ '[') := by simpa [hc] using h
      rw [splitTopLevel, hdepth, ih hopening.2 hclosing.2 hrest]
      by_cases hbar : c = '|'
      · rw [hbar, Text.splitOn_cons_self]
        simp
      · rw [Text.splitOn_cons_of_ne _ hbar]
        simp [hbar]

theorem sharedEdges_of_splitTopLevel {body : Text}
    (h : splitTopLevel 0 body = body.splitOn '|') :
    SharedEdges body (leadsBlank body) (trailsBlank body) := by
  rw [leadsBlank, trailsBlank, h]
  exact ⟨List.all_eq_true, List.all_eq_true⟩

end Group

open TextGrammar.Group

/-- Around every plain group there is a blank exactly where all pieces of its body have whitespace,
if no `|` stands behind a `[` in that body. -/
theorem spaced_of_shared_edges (source : Text) :
    Spaced (fun body leads trails =>
      '|' ∉ body.dropWhile (· ≠ '[') → SharedEdges body leads trails) source := by
  apply spaced_of_forall
  intro body hbody hbar
  have hparentheses := not_mem_of_mem_innersAll hbody
  apply sharedEdges_of_splitTopLevel
  exact splitTopLevel_eq_split_of_unopened hparentheses.1 hparentheses.2 hbar

/-! ## A bracket without a partner -/

/-- In front of the groups nothing is rewritten. -/
theorem Group.Rewritten.of_prepend {rule : Text → Bool → Bool → Prop} {kind : GroupKind} {n : Nat}
    {front text : Text} {forest : Forest} {bodies : List Text}
    (h : Rewritten rule kind n (Forest.prepend front forest) text bodies) :
    ∃ behind, text = front ++ behind ∧ Rewritten rule kind n forest behind bodies := by
  induction front generalizing text with
  | nil => exact ⟨text, rfl, h⟩
  | cons c front ih =>
    have hcons : Forest.prepend (c :: front) forest = .char c (Forest.prepend front forest) := rfl
    rw [hcons] at h
    cases h with
    | char h =>
      obtain ⟨behind, rfl, hbehind⟩ := ih h
      exact ⟨behind, rfl, hbehind⟩

/-- A source whose group holds a bracket without a partner. -/
def strayBracket : Text :=
  "$s = (a[|b )c".toList

/-- Behind the bracket, the `|` is not seen when the blank is moved out: only the second of the two
pieces `a[` and `b ` ends with whitespace, and there is a blank behind the group. -/
theorem stray_bracket_hides_bar : ¬Spaced SharedEdges strayBracket := by
  intro ⟨texts, bodies, hall, hsplit⟩
  have hstatements : (desugarKind .optional strayBracket).splitOn ';' = [strayBracket] := by decide
  have hdesugared : (desugar strayBracket).splitOn ';' =
      ["$s = $_grp0 c".toList, "\n$_grp0 = a[|b ".toList] := by decide
  have hforest : Forest.ofText .plain strayBracket =
      .prepend "$s = ".toList (.group (.prepend "a[|b ".toList .nil) (.char 'c' .nil)) := by decide
  rw [hstatements] at hall
  rw [hdesugared] at hsplit
  cases hall with
  | comment hcomment => exact absurd hcomment (by decide)
  | statement _ hstatement hrest =>
    cases hrest
    rw [hforest] at hstatement
    obtain ⟨behind, rfl, hgroup⟩ := hstatement.of_prepend
    cases hgroup with
    | @group _ _ _ _ _ _ _ leads trails braced hbody hbehind hshared =>
      obtain ⟨_, rfl, hnil⟩ := hbody.of_prepend
      cases hnil
      cases hbehind with
      | char hend =>
        cases hend
        have htrails : trails = false := by
          rw [← Bool.not_eq_true, hshared.2]
          decide
        have htext := (List.cons.inj hsplit).1
        rw [htrails] at htext
        revert htext
        cases leads <;> cases braced <;> decide

end TextGrammar
