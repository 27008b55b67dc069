import TextGrammar.Expansion.Basic

/-!
# The language of a table

What a symbol can be expanded to, said without sources and without choices.

* `SpelledBy` reads a list of segments under an interpretation of the symbols.
* `Table.Derives` closes that reading under the productions of a table, with a bound on the
  nesting of symbols.
* `Table.produces_iff_derives` ties it to expansion: a text is derived within a bound exactly if
  some source makes the expansion with that limit give it.
* `Table.Language` drops the bound. `Table.language_iff` unfolds it once, and
  `Table.Language.least` is its induction principle.
-/

namespace TextGrammar

/-! ## Reading segments under an interpretation -/

/-- A literal spells itself, and a reference, forced or not, what its symbol produces. -/
def Segment.Spells (produces : Symbol → Text → Prop) : Segment → Text → Prop
  | literal piece, text => text = piece
  | ref symbol, text => produces symbol text
  | forced symbol, text => produces symbol text

/-- Segments spell the texts that are put together from what each of them spells. -/
def SpelledBy (produces : Symbol → Text → Prop) : List Segment → Text → Prop
  | [], text => text = []
  | segment :: rest, text =>
    ∃ before after, text = before ++ after ∧ segment.Spells produces before ∧
      SpelledBy produces rest after

section SpelledBy

variable {produces produces' : Symbol → Text → Prop}

theorem Segment.Spells.mono (hsub : ∀ symbol text, produces symbol text → produces' symbol text)
    {segment : Segment} {text : Text} (h : segment.Spells produces text) :
    segment.Spells produces' text := by
  cases segment with
  | literal piece => exact h
  | ref symbol => exact hsub symbol text h
  | forced symbol => exact hsub symbol text h

/-- A larger interpretation spells more. -/
theorem SpelledBy.mono (hsub : ∀ symbol text, produces symbol text → produces' symbol text)
    {segments : List Segment} {text : Text} (h : SpelledBy produces segments text) :
    SpelledBy produces' segments text := by
  induction segments generalizing text with
  | nil => exact h
  | cons segment rest ih =>
    obtain ⟨before, after, rfl, hsegment, hrest⟩ := h
    exact ⟨before, after, rfl, hsegment.mono hsub, ih hrest⟩

/-- Two lists of segments in a row spell two texts in a row. -/
theorem spelledBy_append {left right : List Segment} {text : Text} :
    SpelledBy produces (left ++ right) text ↔
      ∃ before after, text = before ++ after ∧ SpelledBy produces left before ∧
        SpelledBy produces right after := by
  induction left generalizing text with
  | nil =>
    constructor
    · intro h
      exact ⟨[], text, rfl, rfl, h⟩
    · rintro ⟨_, after, rfl, rfl, h⟩
      exact h
  | cons segment rest ih =>
    constructor
    · rintro ⟨u, v, rfl, hsegment, hrest⟩
      obtain ⟨v₁, v₂, rfl, hleft, hright⟩ := ih.1 hrest
      exact ⟨u ++ v₁, v₂, by simp, ⟨u, v₁, rfl, hsegment, hleft⟩, hright⟩
    · rintro ⟨_, v₂, rfl, ⟨u, v₁, rfl, hsegment, hleft⟩, hright⟩
      exact ⟨u, v₁ ++ v₂, by simp, hsegment, ih.2 ⟨v₁, v₂, rfl, hleft, hright⟩⟩

theorem spelledBy_literal_cons {piece : Text} {rest : List Segment} {text : Text} :
    SpelledBy produces (.literal piece :: rest) text ↔
      ∃ after, text = piece ++ after ∧ SpelledBy produces rest after := by
  constructor
  · rintro ⟨_, after, rfl, rfl, hrest⟩
    exact ⟨after, rfl, hrest⟩
  · rintro ⟨after, rfl, hrest⟩
    exact ⟨piece, after, rfl, rfl, hrest⟩

/-- Joining literals does not change what is spelled. -/
theorem spelledBy_attach {segment : Segment} {rest : List Segment} {text : Text} :
    SpelledBy produces (segment.attach rest) text ↔ SpelledBy produces (segment :: rest) text := by
  unfold Segment.attach
  split
  · rw [spelledBy_literal_cons]
    simp
  · simp only [spelledBy_literal_cons]
    constructor
    · rintro ⟨after, rfl, hrest⟩
      exact ⟨_, List.append_assoc .., after, rfl, hrest⟩
    · rintro ⟨_, rfl, after, rfl, hrest⟩
      exact ⟨after, (List.append_assoc ..).symm, hrest⟩
  · rfl

/-- The canonical form of segments spells what they spell. -/
theorem spelledBy_ofSegments {segments : List Segment} {text : Text} :
    SpelledBy produces (Alternative.ofSegments segments).segments text ↔
      SpelledBy produces segments text := by
  unfold Alternative.ofSegments
  induction segments generalizing text with
  | nil => rfl
  | cons segment rest ih =>
    rw [List.foldr_cons, spelledBy_attach]
    simp only [SpelledBy] at ih ⊢
    simp only [ih]

end SpelledBy

/-! ## Derivations -/

namespace Table

/-- The texts that a symbol derives with at most `depth` symbols inside of one another. -/
def Derives (table : Table) : Nat → Symbol → Text → Prop
  | 0, _, _ => False
  | depth + 1, symbol, text =>
    ∃ production, table.get? symbol = some production ∧
      ∃ a ∈ production.alternatives, SpelledBy (table.Derives depth) a.segments text

variable {table : Table} {symbol : Symbol} {text : Text}

theorem Derives.succ {depth : Nat} (h : table.Derives depth symbol text) :
    table.Derives (depth + 1) symbol text := by
  induction depth generalizing symbol text with
  | zero => exact h.elim
  | succ depth ih =>
    obtain ⟨production, hget, a, ha, hspell⟩ := h
    exact ⟨production, hget, a, ha, hspell.mono fun _ _ => ih⟩

/-- A greater bound derives more. -/
theorem Derives.mono {depth depth' : Nat} (hle : depth ≤ depth')
    (h : table.Derives depth symbol text) : table.Derives depth' symbol text := by
  induction hle with
  | refl => exact h
  | step _ ih => exact ih.succ

/-- The texts that a symbol derives at all. -/
def Language (table : Table) (symbol : Symbol) (text : Text) : Prop :=
  ∃ depth, table.Derives depth symbol text

theorem Derives.language {depth : Nat} (h : table.Derives depth symbol text) :
    table.Language symbol text :=
  ⟨depth, h⟩

/-- Finitely many derivations have a common bound. -/
theorem exists_depth_of_spelledBy {segments : List Segment}
    (h : SpelledBy table.Language segments text) :
    ∃ depth, SpelledBy (table.Derives depth) segments text := by
  induction segments generalizing text with
  | nil => exact ⟨0, h⟩
  | cons segment rest ih =>
    obtain ⟨before, after, rfl, hsegment, hrest⟩ := h
    obtain ⟨depth, hspell⟩ := ih hrest
    have hfirst : ∃ depth, segment.Spells (table.Derives depth) before := by
      cases segment with
      | literal piece => exact ⟨0, hsegment⟩
      | ref symbol => exact hsegment
      | forced symbol => exact hsegment
    obtain ⟨depth', hspell'⟩ := hfirst
    refine ⟨max depth depth', before, after, rfl, ?_, ?_⟩
    · exact hspell'.mono fun _ _ hd => hd.mono (Nat.le_max_right ..)
    · exact hspell.mono fun _ _ hd => hd.mono (Nat.le_max_left ..)

/-- A symbol derives what the segments of one of its alternatives spell. -/
theorem language_iff :
    table.Language symbol text ↔
      ∃ production, table.get? symbol = some production ∧
        ∃ a ∈ production.alternatives, SpelledBy table.Language a.segments text := by
  constructor
  · rintro ⟨depth, h⟩
    cases depth with
    | zero => exact h.elim
    | succ depth =>
      obtain ⟨production, hget, a, ha, hspell⟩ := h
      exact ⟨production, hget, a, ha, hspell.mono fun _ _ => Derives.language⟩
  · rintro ⟨production, hget, a, ha, hspell⟩
    obtain ⟨depth, hdepth⟩ := exists_depth_of_spelledBy hspell
    exact ⟨depth + 1, production, hget, a, ha, hdepth⟩

/-- The language of a table is contained in every interpretation that is closed under the
productions of the table. -/
theorem Language.least {produces : Symbol → Text → Prop}
    (hclosed : ∀ symbol production a text, table.get? symbol = some production →
      a ∈ production.alternatives → SpelledBy produces a.segments text → produces symbol text)
    (h : table.Language symbol text) : produces symbol text := by
  obtain ⟨depth, hderives⟩ := h
  induction depth generalizing symbol text with
  | zero => exact hderives.elim
  | succ depth ih =>
    obtain ⟨production, hget, a, ha, hspell⟩ := hderives
    exact hclosed symbol production a text hget ha (hspell.mono fun _ _ => ih)

end Table

/-! ## Runs that succeed derive their text -/

section Sound

variable {σ : Type}

theorem Outcome.andThen_result_eq_ok {first : Outcome σ} {second : σ → Outcome σ} {text : Text} :
    (first.andThen second).result = .ok text ↔
      ∃ before after, text = before ++ after ∧ first.result = .ok before ∧
        (second first.source).result = .ok after := by
  unfold Outcome.andThen
  split
  · rename_i hfirst
    simp [hfirst]
  · rename_i before hfirst
    cases hsecond : (second first.source).result with
    | error error => simp [hfirst, hsecond, Except.map]
    | ok after => simp [hfirst, hsecond, Except.map, eq_comm]

theorem spelledBy_of_expandSegments {visit : Symbol → σ → Outcome σ}
    {produces : Symbol → Text → Prop}
    (hvisit : ∀ symbol source text, (visit symbol source).result = .ok text → produces symbol text)
    {segments : List Segment} {source : σ} {text : Text}
    (h : (expandSegments visit segments source).result = .ok text) :
    SpelledBy produces segments text := by
  induction segments generalizing source text with
  | nil =>
    have hnil : ([] : Text) = text := by simpa [expandSegments, Outcome.done] using h
    exact hnil.symm
  | cons segment rest ih =>
    cases segment with
    | literal piece =>
      obtain ⟨before, after, rfl, hfirst, hrest⟩ := Outcome.andThen_result_eq_ok.1 h
      have hpiece : piece = before := by simpa [Outcome.done] using hfirst
      exact ⟨before, after, rfl, hpiece.symm, ih hrest⟩
    | ref symbol =>
      obtain ⟨before, after, rfl, hfirst, hrest⟩ := Outcome.andThen_result_eq_ok.1 h
      exact ⟨before, after, rfl, hvisit _ _ _ hfirst, ih hrest⟩
    | forced symbol =>
      obtain ⟨before, after, rfl, hfirst, hrest⟩ := Outcome.andThen_result_eq_ok.1 h
      exact ⟨before, after, rfl, hvisit _ _ _ hfirst, ih hrest⟩

/-- Whatever the source chooses, a text that comes out is derived within the bound. -/
theorem Table.derives_of_visit [RandomSource σ] {table : Table} {limit left : Nat}
    {stack : List Symbol} {symbol : Symbol} {source : σ} {text : Text}
    (h : (table.visit limit left stack symbol source).result = .ok text) :
    table.Derives left symbol text := by
  induction left generalizing stack symbol source text with
  | zero =>
    unfold Table.visit at h
    split at h <;> simp [Outcome.done] at h
  | succ left ih =>
    unfold Table.visit at h
    split at h
    · simp [Outcome.done] at h
    · rename_i production hget
      simp only [Outcome.after] at h
      split at h
      · simp [Outcome.done] at h
      · rename_i a ha
        refine ⟨production, hget, a, List.mem_of_getElem? ha, ?_⟩
        have hvisit : ∀ symbol' source' text',
            (table.visit limit left (stack ++ [symbol]) symbol' source').result = .ok text' →
              table.Derives left symbol' text' := fun _ _ _ => ih
        exact spelledBy_of_expandSegments hvisit h

end Sound

/-! ## Every derivation is the run of a script -/

/-- The script of some choices of which the first ones are made. -/
def Script.resume (made coming : List Nat) : Script :=
  ⟨(made ++ coming).toArray, made.length⟩

/-- A run gives a text by taking exactly the choices `picks` from any script that has them next. -/
def Plays (run : Script → Outcome Script) (picks : List Nat) (text : Text) : Prop :=
  ∀ made coming, (run (Script.resume made (picks ++ coming))).result = .ok text ∧
    (run (Script.resume made (picks ++ coming))).source = Script.resume (made ++ picks) coming

theorem Plays.andThen {first second : Script → Outcome Script} {picks picks' : List Nat}
    {before after : Text} (hfirst : Plays first picks before)
    (hsecond : Plays second picks' after) :
    Plays (fun script => (first script).andThen second) (picks ++ picks') (before ++ after) := by
  intro made coming
  obtain ⟨hresult, hsource⟩ := hfirst made (picks' ++ coming)
  obtain ⟨hresult', hsource'⟩ := hsecond (made ++ picks) coming
  rw [List.append_assoc picks]
  simp only [Outcome.andThen, hresult, hsource, hresult', hsource', Except.map]
  simp [List.append_assoc]

theorem exists_plays_of_spelledBy {visit : Symbol → Script → Outcome Script}
    {produces : Symbol → Text → Prop}
    (hvisit : ∀ symbol text, produces symbol text → ∃ picks, Plays (visit symbol) picks text)
    {segments : List Segment} {text : Text} (h : SpelledBy produces segments text) :
    ∃ picks, Plays (expandSegments visit segments) picks text := by
  induction segments generalizing text with
  | nil =>
    refine ⟨[], fun made coming => ?_⟩
    simp only [SpelledBy] at h
    simp [expandSegments, Outcome.done, h]
  | cons segment rest ih =>
    obtain ⟨before, after, rfl, hsegment, hrest⟩ := h
    obtain ⟨picks', hplays'⟩ := ih hrest
    cases segment with
    | literal piece =>
      have hliteral : Plays (Outcome.done (.ok piece)) [] before := by
        intro made coming
        simp only [Segment.Spells] at hsegment
        simp [Outcome.done, hsegment]
      exact ⟨[] ++ picks', hliteral.andThen hplays'⟩
    | ref symbol =>
      obtain ⟨picks, hplays⟩ := hvisit symbol before hsegment
      exact ⟨picks ++ picks', hplays.andThen hplays'⟩
    | forced symbol =>
      obtain ⟨picks, hplays⟩ := hvisit symbol before hsegment
      exact ⟨picks ++ picks', hplays.andThen hplays'⟩

theorem Script.pick_resume {made coming : List Nat} {choice length : Nat} (h : choice < length) :
    RandomSource.pick (Script.resume made (choice :: coming)) length =
      (choice, Script.resume (made ++ [choice]) coming) := by
  have hnext : made.length % (made ++ choice :: coming).length = made.length :=
    Nat.mod_eq_of_lt (by simp)
  simp only [RandomSource.pick, Script.pick, Script.resume, List.size_toArray, hnext]
  simp [Nat.mod_eq_of_lt h]

namespace Table

/-- A derived text comes out of a run, whatever stands on the stack. -/
theorem exists_plays_of_derives {table : Table} {limit depth : Nat} {stack : List Symbol}
    {symbol : Symbol} {text : Text} (h : table.Derives depth symbol text) :
    ∃ picks, Plays (table.visit limit depth stack symbol) picks text := by
  induction depth generalizing stack symbol text with
  | zero => exact h.elim
  | succ depth ih =>
    obtain ⟨production, hget, a, ha, hspell⟩ := h
    obtain ⟨choice, hchoice⟩ := List.getElem?_of_mem ha
    have hlt : choice < production.size := (List.getElem?_eq_some_iff.1 hchoice).1
    have hvisit : ∀ symbol' text', table.Derives depth symbol' text' →
        ∃ picks, Plays (table.visit limit depth (stack ++ [symbol]) symbol') picks text' :=
      fun _ _ => ih
    obtain ⟨picks, hplays⟩ := exists_plays_of_spelledBy hvisit hspell
    refine ⟨choice :: picks, fun made coming => ?_⟩
    obtain ⟨hresult, hsource⟩ := hplays (made ++ [choice]) coming
    unfold Table.visit
    simp only [hget, List.cons_append, Script.pick_resume hlt, hchoice, Outcome.after]
    exact ⟨hresult, by simpa using hsource⟩

/-- Whether a text can come out of the expansion of a symbol, under a limit, for some choices in
range. -/
def Produces (table : Table) (limit : Nat) (symbol : Symbol) (text : Text) : Prop :=
  ∃ (σ : Type) (_ : RandomSource σ) (_ : LawfulRandomSource σ) (source : σ),
    (table.expand limit symbol source).result = .ok text

/-- Expansion with a limit gives exactly the texts that are derived within it. -/
theorem produces_iff_derives {table : Table} {limit : Nat} {symbol : Symbol} {text : Text} :
    table.Produces limit symbol text ↔ table.Derives limit symbol text := by
  constructor
  · rintro ⟨σ, _, _, source, h⟩
    exact derives_of_visit h
  · intro h
    obtain ⟨picks, hplays⟩ : ∃ picks, Plays (table.visit limit limit [] symbol) picks text :=
      exists_plays_of_derives h
    exact ⟨Script, inferInstance, inferInstance, _, (hplays [] []).1⟩

/-- Some limit lets expansion give exactly the texts of the language. -/
theorem exists_produces_iff_language {table : Table} {symbol : Symbol} {text : Text} :
    (∃ limit, table.Produces limit symbol text) ↔ table.Language symbol text := by
  simp only [produces_iff_derives, Language]

end Table

end TextGrammar
