import TextGrammar.Proofs.Forced.Language
import TextGrammar.Proofs.Statements

/-!
# Tables that agree on some symbols

Two tables may differ in the productions of some symbols. On symbols that refer to none of these
they derive the same texts (`Table.AgreeOn.language_iff`), and so do segments that refer to such
symbols only. Which productions two tables have can be told from the definitions they were read
from (`Table.get?_eq_some_iff_of_parse`).
-/

namespace TextGrammar

/-- What segments spell depends on the symbols they refer to only. -/
theorem SpelledBy.of_references {produces produces' : Symbol → Text → Prop}
    {segments : List Segment} {text : Text}
    (h : ∀ symbol ∈ segments.filterMap Segment.reference?, ∀ text,
      produces symbol text → produces' symbol text)
    (hspell : SpelledBy produces segments text) : SpelledBy produces' segments text := by
  induction segments generalizing text with
  | nil => exact hspell
  | cons segment rest ih =>
    obtain ⟨before, after, rfl, hsegment, hrest⟩ := hspell
    cases segment with
    | literal piece => exact ⟨before, after, rfl, hsegment, ih h hrest⟩
    | ref symbol =>
      obtain ⟨hsymbol, hothers⟩ := List.forall_mem_cons.1 h
      exact ⟨before, after, rfl, hsymbol before hsegment, ih hothers hrest⟩
    | forced symbol =>
      obtain ⟨hsymbol, hothers⟩ := List.forall_mem_cons.1 h
      exact ⟨before, after, rfl, hsymbol before hsegment, ih hothers hrest⟩

namespace Table

/-- The tables have the same productions for some symbols, which refer to each other only. -/
structure AgreeOn (own : Symbol → Prop) (table table' : Table) : Prop where
  get?_eq : ∀ symbol, own symbol → table.get? symbol = table'.get? symbol
  closed : ∀ symbol production, own symbol → table.get? symbol = some production →
    ∀ a ∈ production.alternatives, ∀ reference ∈ a.references, own reference

variable {own : Symbol → Prop} {table table' : Table} {symbol : Symbol} {text : Text}

theorem AgreeOn.symm (h : AgreeOn own table table') : AgreeOn own table' table := by
  constructor
  · exact fun symbol hsymbol => (h.get?_eq symbol hsymbol).symm
  · intro symbol production hsymbol hget
    exact h.closed symbol production hsymbol (by rw [h.get?_eq symbol hsymbol, hget])

theorem AgreeOn.derives (h : AgreeOn own table table') {depth : Nat} (hsymbol : own symbol)
    (hderives : table.Derives depth symbol text) : table'.Derives depth symbol text := by
  induction depth generalizing symbol text with
  | zero => exact hderives
  | succ depth ih =>
    obtain ⟨production, hget, a, ha, hspell⟩ := hderives
    refine ⟨production, ?_, a, ha, hspell.of_references fun reference hreference _ => ?_⟩
    · rw [← h.get?_eq symbol hsymbol, hget]
    · exact ih (h.closed symbol production hsymbol hget a ha reference hreference)

theorem AgreeOn.language_iff (h : AgreeOn own table table') (hsymbol : own symbol) :
    table.Language symbol text ↔ table'.Language symbol text :=
  exists_congr fun _ => ⟨h.derives hsymbol, h.symm.derives hsymbol⟩

/-- Segments that refer to symbols of the agreement only spell the same under both tables. -/
theorem AgreeOn.spelledBy_iff (h : AgreeOn own table table') {a : Alternative}
    (ha : ∀ reference ∈ a.references, own reference) :
    SpelledBy table.Language a.segments text ↔ SpelledBy table'.Language a.segments text :=
  ⟨fun hspell => hspell.of_references fun _ hreference _ =>
      (h.language_iff (ha _ hreference)).1,
    fun hspell => hspell.of_references fun _ hreference _ =>
      (h.language_iff (ha _ hreference)).2⟩

/-- The production of a symbol is read from a definition with its name, and there is at most
one. -/
theorem get?_eq_some_iff_of_parse {source : Text} (h : Table.parse source = .ok table)
    {production : Production} :
    table.get? symbol = some production ↔
      ∃ content, ⟨symbol.name, content⟩ ∈ definitions source ∧
        Production.parse content = production := by
  obtain ⟨entries, hdefinitions, -, hrows⟩ := exists_entries_of_parse h
  rw [get?_eq_some_iff (asRead_of_parse h).distinct, hrows, hdefinitions]
  simp only [List.mem_map]
  constructor
  · rintro ⟨⟨_, content⟩, hentry, heq⟩
    cases heq
    exact ⟨content, ⟨_, hentry, rfl⟩, rfl⟩
  · rintro ⟨content, ⟨⟨⟨name⟩, content'⟩, hentry, heq⟩, rfl⟩
    cases heq
    exact ⟨_, hentry, rfl⟩

/-- A symbol with a definition derives what the alternatives of its content spell. -/
theorem language_iff_of_parse {source : Text} (h : Table.parse source = .ok table) {content : Text}
    (hmem : ⟨symbol.name, content⟩ ∈ definitions source) (text : Text) :
    table.Language symbol text ↔ ∃ a ∈ (Production.parse content).alternatives,
      SpelledBy table.Language a.segments text := by
  rw [language_iff_alternatives,
    alternatives_of_get? ((get?_eq_some_iff_of_parse h).2 ⟨content, hmem, rfl⟩)]

/-- Sources with the same definitions for some symbols, which refer to each other only, are read as
tables that agree on these. -/
theorem agreeOn_of_parse {source source' : Text} (h : Table.parse source = .ok table)
    (h' : Table.parse source' = .ok table')
    (hsame : ∀ symbol content, own symbol →
      (⟨symbol.name, content⟩ ∈ definitions source ↔ ⟨symbol.name, content⟩ ∈ definitions source'))
    (hclosed : ∀ symbol content, own symbol → ⟨symbol.name, content⟩ ∈ definitions source →
      ∀ a ∈ (Production.parse content).alternatives, ∀ reference ∈ a.references, own reference) :
    AgreeOn own table table' := by
  constructor
  · intro symbol hsymbol
    refine Option.ext fun production => ?_
    rw [get?_eq_some_iff_of_parse h, get?_eq_some_iff_of_parse h']
    exact exists_congr fun content => and_congr_left fun _ => hsame symbol content hsymbol
  · intro symbol production hsymbol hget
    obtain ⟨content, hmem, rfl⟩ := (get?_eq_some_iff_of_parse h).1 hget
    exact hclosed symbol content hsymbol hmem

end Table

end TextGrammar
