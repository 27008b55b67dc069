import TextGrammar.Grammar.Basic
import TextGrammar.Proofs.Normal.Settling

/-!
# Normal forms

The texts that normalization leaves as they are, and the rounds it takes to reach one.

* `Normal.IsNormal` says of a text, without running a pass, that nothing is left to do, and
  `Normal.passes_eq_self_iff` that this is when the passes change nothing.
* `Normal.Settles` is the loop that repeats the passes until they change nothing, with the number
  of rounds it takes. `Normal.settles_exists` bounds that number by the marks in the text, and
  `Normal.Settles.settle_eq` compares the loop with the bounded one of `normalize`.
* A part of a normal form is one, so trimming keeps it (`Normal.IsNormal.trim`).
* `normalize_settles_at_normal_forms` is the result.
-/

namespace TextGrammar

namespace Normal

open Unicode

/-! ## Normal forms -/

/-- Nothing is left to do in a text. -/
structure IsNormal (text : Text) : Prop where
  /-- No `^` is left. -/
  joined : '^' ∉ text
  /-- Every whitespace character is a plain space. -/
  blanks : ∀ c ∈ text, isWhitespace c = true → c = ' '
  /-- Neither a space nor punctuation follows a space. -/
  spaced : ∀ c, [' ', c] <:+: text → c ≠ ' ' ∧ c ∉ punctuation
  /-- Nothing but at most one space follows a `\`. -/
  marks : ∀ after, '\\' :: after <:+ text → after = [] ∨ after = [' ']

/-- A part of a normal form is a normal form. -/
theorem IsNormal.of_isInfix {part text : Text} (h : IsNormal text) (hpart : part <:+: text) :
    IsNormal part where
  joined hmem := h.joined (hpart.subset hmem)
  blanks c hc := h.blanks c (hpart.subset hc)
  spaced c hc := h.spaced c (hc.trans hpart)
  marks after hafter := by
    obtain ⟨front, back, rfl⟩ := hpart
    obtain ⟨before, rfl⟩ := hafter
    have hsuffix : '\\' :: (after ++ back) <:+ front ++ (before ++ '\\' :: after) ++ back :=
      ⟨front ++ before, by simp⟩
    rcases h.marks _ hsuffix with hnil | hspace
    · exact Or.inl (List.append_eq_nil_iff.1 hnil).1
    · rcases List.append_eq_singleton_iff.1 hspace with ⟨hafter, -⟩ | ⟨hafter, -⟩
      · exact Or.inl hafter
      · exact Or.inr hafter

theorem IsNormal.trim {text : Text} (h : IsNormal text) : IsNormal text.trim :=
  h.of_isInfix text.trim_isInfix

/-! ## What the passes leave as it is -/

theorem isPunctuation_eq_false_iff {c : Char} : isPunctuation c = false ↔ c ∉ punctuation := by
  rw [isPunctuation_eq, ← Bool.not_eq_true, List.contains_iff_mem]

/-- The first three passes leave a text without `^` as it is when its whitespace is in order. -/
theorem tidy_iff (text : Text) :
    Tidy text ↔ (∀ c ∈ text, isWhitespace c = true → c = ' ') ∧
      ∀ c, [' ', c] <:+: text → c ≠ ' ' ∧ c ∉ punctuation := by
  induction text with
  | nil => simp [Tidy]
  | cons c rest ih =>
    have hpair : ∀ d, [' ', d] <+: c :: rest ↔ c = ' ' ∧ d ∈ rest.head? := by
      intro d
      cases rest with
      | nil => simp
      | cons e rest => simp [eq_comm]
    rw [Tidy, ih, List.forall_mem_cons]
    constructor
    · rintro ⟨hfirst, hblanks, hspaced⟩
      refine ⟨⟨fun h => (hfirst h).1, hblanks⟩, fun d hd => ?_⟩
      rcases List.infix_cons_iff.1 hd with hd | hd
      · obtain ⟨rfl, hhead⟩ := (hpair d).1 hd
        obtain ⟨hblank, hpunctuation⟩ := (hfirst (by decide)).2 d hhead
        refine ⟨?_, isPunctuation_eq_false_iff.1 hpunctuation⟩
        rintro rfl
        exact absurd hblank (by decide)
      · exact hspaced d hd
    · rintro ⟨⟨hfirst, hblanks⟩, hspaced⟩
      refine ⟨fun h => ⟨hfirst h, fun d hd => ?_⟩, hblanks,
        fun d hd => hspaced d (List.infix_cons hd)⟩
      obtain ⟨hne, hpunctuation⟩ := hspaced d ((hpair d).2 ⟨hfirst h, hd⟩).isInfix
      refine ⟨?_, isPunctuation_eq_false_iff.2 hpunctuation⟩
      rw [← Bool.not_eq_true]
      exact fun hblank => hne (hblanks d (List.mem_of_mem_head? hd) hblank)

theorem IsNormal.tidy {text : Text} (h : IsNormal text) : Tidy text :=
  (tidy_iff text).2 ⟨h.blanks, h.spaced⟩

theorem shiftCaseFrom_of_blank {text : Text} (h : ∀ c ∈ text, isWhitespace c = true)
    (blanks : Text) : shiftCaseFrom (some blanks) text = '\\' :: (blanks ++ text) := by
  induction text generalizing blanks with
  | nil => rw [shiftCaseFrom, List.append_nil]
  | cons c rest ih =>
    obtain ⟨hblank, hrest⟩ := List.forall_mem_cons.1 h
    rw [shiftCaseFrom, if_pos hblank, ih hrest, List.append_assoc, List.singleton_append]

/-- The last pass leaves a text as it is when no `\` has a character to make a capital of. -/
theorem shiftCase_eq_self_iff (text : Text) :
    shiftCase text = text ↔
      ∀ after, '\\' :: after <:+ text → ∀ c ∈ after, isWhitespace c = true := by
  unfold shiftCase
  induction text with
  | nil => simp [shiftCaseFrom]
  | cons c rest ih =>
    rw [shiftCaseFrom]
    by_cases hmark : c = '\\'
    · subst hmark
      rw [if_pos rfl]
      constructor
      · intro hself
        -- A `\` in front of a character that is not whitespace would be used up.
        have hblank : ∀ d ∈ rest, isWhitespace d = true := by
          rcases (shiftCaseFrom_cases rest).2 [] with ⟨hblank, -⟩ | hle
          · exact hblank
          · rw [hself, List.count_cons_self] at hle
            omega
        intro after hafter d hd
        rcases List.suffix_cons_iff.1 hafter with heq | hsuffix
        · rw [List.tail_eq_of_cons_eq heq] at hd
          exact hblank d hd
        · exact hblank d (hsuffix.subset (List.mem_cons_of_mem _ hd))
      · intro h
        exact shiftCaseFrom_of_blank (h rest (List.suffix_refl _)) []
    · rw [if_neg hmark, List.cons.injEq, eq_self, true_and, ih]
      refine forall_congr' fun after => imp_congr_left ?_
      rw [List.suffix_cons_iff, List.cons.injEq]
      simp [Ne.symm hmark]

/-- The passes leave exactly the normal forms as they are. -/
theorem passes_eq_self_iff (text : Text) : passes text = text ↔ IsNormal text := by
  constructor
  · intro hself
    obtain ⟨htidy, hjoin, hshift⟩ : Tidy text ∧ '^' ∉ text ∧ shiftCase text = text := by
      rcases passes_cases text with hlt | hstable
      · rw [hself] at hlt
        exact absurd hlt (Nat.lt_irrefl _)
      · rwa [hself] at hstable
    obtain ⟨hblanks, hspaced⟩ := (tidy_iff text).1 htidy
    refine ⟨hjoin, hblanks, hspaced, fun after hafter => ?_⟩
    have htail : after <:+ text := (List.suffix_cons _ _).trans hafter
    refine Tidy.eq_of_blank ?_ ((shiftCase_eq_self_iff text).1 hshift after hafter)
    exact (tidy_iff after).2 ⟨fun c hc => hblanks c (htail.subset hc),
      fun c hc => hspaced c (hc.trans htail.isInfix)⟩
  · intro h
    rw [h.tidy.passes_eq h.joined, shiftCase_eq_self_iff]
    intro after hafter c hc
    rcases h.marks after hafter with rfl | rfl
    · cases hc
    · rw [List.mem_singleton.1 hc]
      decide

/-! ## The loop -/

/-- Repeating the passes on a text until they change nothing ends at a result, after some number of
rounds. The last round is the one that changes nothing. -/
inductive Settles : Text → Nat → Text → Prop
  | stop {text : Text} (h : passes text = text) : Settles text 1 text
  | again {text result : Text} {rounds : Nat} (h : passes text ≠ text)
      (hrest : Settles (passes text) rounds result) : Settles text (rounds + 1) result

/-- The loop ends. All of its rounds but two use up a `\`. -/
theorem settles_exists (text : Text) :
    ∃ rounds result, Settles text rounds result ∧ rounds ≤ text.count '\\' + 2 := by
  induction hmarks : text.count '\\' using Nat.strong_induction_on generalizing text with
  | _ marks ih =>
    by_cases hself : passes text = text
    · exact ⟨1, text, .stop hself, by omega⟩
    · -- Either a `\` is used up, or the next round is the last one.
      rcases passes_cases text with hlt | ⟨htidy, hjoin, hshift⟩
      · obtain ⟨rounds, result, hrest, hle⟩ := ih _ (hmarks ▸ hlt) (passes text) rfl
        exact ⟨rounds + 1, result, .again hself hrest, by omega⟩
      · have hstable : passes (passes text) = passes text := by
          rw [htidy.passes_eq hjoin, hshift]
        exact ⟨2, passes text, .again hself (.stop hstable), by omega⟩

/-- The bounded loop gives the result when it is given enough rounds. -/
theorem Settles.settle_eq {text result : Text} {rounds bound : Nat}
    (h : Settles text rounds result) (hbound : rounds ≤ bound) : settle bound text = result := by
  induction h generalizing bound with
  | stop hself =>
    cases bound with
    | zero => omega
    | succ bound => rw [settle, if_pos hself]
  | again hself _ ih =>
    cases bound with
    | zero => omega
    | succ bound => rw [settle, if_neg hself, ih (by omega)]

/-- Applying the passes once and then repeating them ends at the normal form of a text. -/
theorem settles_normalize (raw : Text) :
    ∃ rounds, Settles (passes raw) rounds (normalize raw) ∧ 1 + rounds ≤ raw.count '\\' + 3 := by
  obtain ⟨rounds, result, hsettles, hle⟩ := settles_exists raw
  have hresult : normalize raw = result :=
    hsettles.settle_eq (show rounds ≤ raw.count '\\' + 3 by omega)
  rw [hresult]
  cases hsettles with
  | stop hself => exact ⟨1, hself.symm ▸ .stop hself, by omega⟩
  | again _ hrest => exact ⟨_, hrest, by omega⟩

theorem isNormal_normalize (raw : Text) : IsNormal (normalize raw) := by
  rw [← passes_eq_self_iff]
  exact passes_settle (show raw.count '\\' + 2 ≤ raw.count '\\' + 3 by omega)

theorem normalize_eq_self_iff (raw : Text) : normalize raw = raw ↔ IsNormal raw := by
  constructor
  · intro h
    rw [← h]
    exact isNormal_normalize raw
  · intro h
    rw [normalize, rounds, settle, if_pos ((passes_eq_self_iff raw).2 h)]

/-- A text in its final form: a normal form without a space at its ends. -/
structure IsFinished (text : Text) : Prop where
  normal : IsNormal text
  first : text.head? ≠ some ' '
  last : text.getLast? ≠ some ' '

theorem isFinished_finish (raw : Text) : IsFinished (Grammar.finish raw) := by
  obtain ⟨hfirst, hlast⟩ := Text.ends_trim (normalize raw)
  refine ⟨(isNormal_normalize raw).trim, fun h => ?_, fun h => ?_⟩
  · rw [show (normalize raw).trim.head? = some ' ' from h] at hfirst
    exact absurd hfirst (by decide)
  · rw [show (normalize raw).trim.getLast? = some ' ' from h] at hlast
    exact absurd hlast (by decide)

end Normal

open TextGrammar.Normal

namespace Grammar

variable {σ : Type} [RandomSource σ]

theorem exists_of_map_eq_ok {α β : Type} {f : α → β} {result : Except ExpansionError α} {b : β}
    (h : result.map f = .ok b) : ∃ a, f a = b := by
  cases result with
  | error error => cases h
  | ok a => exact ⟨a, Except.ok.inj h⟩

theorem isFinished_of_generateFrom {grammar : Grammar} {symbol : Symbol} {source : σ} {text : Text}
    (h : (grammar.generateFrom symbol source).1 = .ok text) : IsFinished text := by
  obtain ⟨raw, rfl⟩ := exists_of_map_eq_ok (show (_ : Except ExpansionError Text).map _ = _ from h)
  exact isFinished_finish raw

theorem isFinished_of_generateTraced {grammar : Grammar} {source : σ} {text : Text}
    {steps : List TraceStep} (h : (grammar.generateTraced source).1 = .ok (text, steps)) :
    IsFinished text := by
  obtain ⟨raw, hraw⟩ :=
    exists_of_map_eq_ok (show (_ : Except ExpansionError Text).map _ = _ from h)
  rw [← (Prod.mk.inj hraw).1]
  exact isFinished_finish raw

end Grammar

/-- Normalization settles, its normal forms are known, and every text that a grammar generates is
one.

* Applying the passes once and then repeating them until they change nothing ends at the normal
  form, and no more passes are applied than there are marks in the text, and three.
* Normalizing a normal form changes nothing, and a text is left as it is when it `IsNormal`.
* A text that is generated, from whichever symbol and with or without a trace, has no space at its
  ends. -/
theorem normalize_settles_at_normal_forms (raw : Text) :
    (∃ rounds, Settles (passes raw) rounds (normalize raw) ∧ 1 + rounds ≤ raw.count '\\' + 3) ∧
      normalize (normalize raw) = normalize raw ∧
      (normalize raw = raw ↔ IsNormal raw) ∧
      ∀ {σ : Type} [RandomSource σ] (grammar : Grammar) (symbol : Symbol) (source : σ)
        (text : Text),
        (grammar.generate source).1 = .ok text ∨
            (grammar.generateFrom symbol source).1 = .ok text ∨
            (∃ steps, (grammar.generateTraced source).1 = .ok (text, steps)) →
          IsFinished text := by
  refine ⟨settles_normalize raw, (normalize_eq_self_iff _).2 (isNormal_normalize raw),
    normalize_eq_self_iff raw, ?_⟩
  rintro σ _ grammar symbol source text (h | h | ⟨steps, h⟩)
  · exact Grammar.isFinished_of_generateFrom h
  · exact Grammar.isFinished_of_generateFrom h
  · exact Grammar.isFinished_of_generateTraced h

/-- A greeting with marks between its words. The `!` loses the space in front of it in the second
round only. -/
def greeting : Grammar :=
  let who := Symbol.ofIdentifier "who".toList
  { table :=
      { rows := [(.start, ⟨[⟨[.literal "\\  hello ^ , \\ ".toList, .ref who,
            .literal " \\ !".toList]⟩]⟩),
          (who, ⟨[⟨[.literal "joe".toList]⟩, ⟨[.literal " ada\n".toList]⟩]⟩)]
        forced := [] }
    start := .start
    limits := .standard }

theorem greeting_finished :
    (greeting.generate (Script.ofList [0, 1])).1 = .ok "Hello, Ada!".toList ∧
      IsFinished "Hello, Ada!".toList := by
  have h : (greeting.generate (Script.ofList [0, 1])).1 = .ok "Hello, Ada!".toList := by rfl
  exact ⟨h, (normalize_settles_at_normal_forms []).2.2.2 greeting .start _ _ (.inl h)⟩

end TextGrammar
