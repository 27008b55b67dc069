import TextGrammar.Proofs.Canonical
import TextGrammar.Proofs.Tables

/-!
# What reading a table guarantees

`Table.AsRead` is what holds of every table that a source is read as (`Table.asRead_of_parse`). It
is an invariant of adding one definition after the other (`Table.AsRead.addTo`). What is read for a
definition alone is in `Production.AsRead`.
-/

namespace TextGrammar

/-! ## One production -/

theorem valid_of_readReference {text after : Text} {symbol : Symbol}
    (h : readReference text = some (symbol, after)) : symbol.Valid := by
  have hvalid : ∀ {c identifier} {rest : Text},
      rest.takeWhile isIdentifierChar = c :: identifier →
        (Symbol.ofIdentifier (c :: identifier)).Valid := by
    intro c identifier rest htake
    apply Symbol.valid_ofIdentifier
    rw [← htake]
    exact List.all_eq_true.1 List.all_takeWhile
  unfold readReference at h
  split at h
  · split at h
    · rename_i htake _
      cases h
      exact hvalid htake
    · cases h
  · split at h
    · rename_i htake
      cases h
      exact hvalid htake
    · cases h
  · cases h

theorem valid_of_readReferenceSegment {text after : Text} {segment : Segment} {symbol : Symbol}
    (h : readReferenceSegment text = some (segment, after))
    (hsymbol : segment.reference? = some symbol) : symbol.Valid := by
  unfold readReferenceSegment at h
  split at h
  all_goals
    rw [Option.map_eq_some_iff] at h
    obtain ⟨⟨symbol', after'⟩, hread, heq⟩ := h
    cases heq
    cases hsymbol
    exact valid_of_readReference hread

/-- Whatever is read as a reference has a well-formed name. -/
theorem valid_of_mem_readSegments {text : Text} :
    ∀ symbol ∈ (readSegments text).filterMap Segment.reference?, symbol.Valid := by
  induction text using readSegments.induct with
  | case1 =>
    rw [readSegments]
    simp
  | case2 c rest segment after hread ih =>
    rw [readSegments_of_some hread]
    intro symbol hsymbol
    obtain ⟨segment', hsegment, hreference⟩ := List.mem_filterMap.1 hsymbol
    rcases List.mem_cons.1 hsegment with rfl | hrest
    · exact valid_of_readReferenceSegment hread hreference
    · exact ih symbol (List.mem_filterMap.2 ⟨segment', hrest, hreference⟩)
  | case3 c rest hread ih =>
    rw [readSegments_of_none hread, Segment.filterMap_attach fun _ => rfl]
    exact ih

/-- What holds of a production that a content is read as. -/
structure Production.AsRead (production : Production) : Prop where
  /-- There is an alternative. -/
  inhabited : production.alternatives ≠ []
  /-- No literal is empty, and no two are adjacent. -/
  canonical : ∀ a ∈ production.alternatives, a.Canonical
  /-- Only well-formed names are referred to. -/
  references : ∀ a ∈ production.alternatives, ∀ symbol ∈ a.references, symbol.Valid

theorem Production.asRead_parse (content : Text) : (Production.parse content).AsRead := by
  constructor
  · intro hnil
    exact List.splitOn_ne_nil _ content (List.map_eq_nil_iff.1 hnil)
  · intro a ha
    obtain ⟨piece, -, rfl⟩ := List.mem_map.1 ha
    exact Alternative.canonical_parse piece
  · intro a ha
    obtain ⟨piece, -, rfl⟩ := List.mem_map.1 ha
    exact valid_of_mem_readSegments

/-! ## One definition after the other -/

namespace Table

/-- A table before any of its forced references is resolved. -/
structure AsRead (table : Table) : Prop where
  /-- No symbol has two rows. -/
  distinct : table.symbols.Nodup
  /-- The symbols with forced references wait to be resolved, in the order of their rows. -/
  forced_eq : table.forced = (table.rows.filter fun row => row.2.hasForced).map Prod.fst
  /-- Every symbol has a well-formed name. -/
  valid : ∀ symbol ∈ table.symbols, symbol.Valid
  /-- Every production is as a content is read. -/
  productions : ∀ row ∈ table.rows, row.2.AsRead

theorem asRead_empty : empty.AsRead :=
  ⟨List.nodup_nil, rfl, by simp [empty, symbols], by simp [empty]⟩

theorem AsRead.insert {table table' : Table} (h : table.AsRead) {symbol : Symbol}
    {production : Production} (hvalid : symbol.Valid) (hproduction : production.AsRead)
    (hinsert : table.insert symbol production = .ok table') : table'.AsRead := by
  unfold Table.insert at hinsert
  split at hinsert
  · cases hinsert
  · rename_i hcontains
    rw [contains_iff_mem_symbols] at hcontains
    cases hinsert
    constructor
    · show ((table.rows ++ [(symbol, production)]).map Prod.fst).Nodup
      rw [List.map_append, List.nodup_append]
      refine ⟨h.distinct, List.nodup_singleton _, ?_⟩
      rintro other hother _ hlast rfl
      rw [List.map_singleton, List.mem_singleton] at hlast
      rw [hlast] at hother
      exact hcontains hother
    · show (if production.hasForced then table.forced ++ [symbol] else table.forced) =
        ((table.rows ++ [(symbol, production)]).filter fun row => row.2.hasForced).map Prod.fst
      rw [List.filter_append, List.map_append, ← h.forced_eq]
      by_cases hforced : production.hasForced
      · simp [hforced]
      · simp [hforced]
    · show ∀ other ∈ (table.rows ++ [(symbol, production)]).map Prod.fst, other.Valid
      rw [List.map_append, List.forall_mem_append]
      exact ⟨h.valid, List.forall_mem_singleton.2 hvalid⟩
    · exact List.forall_mem_append.2 ⟨h.productions, List.forall_mem_singleton.2 hproduction⟩

theorem AsRead.addTo {table table' : Table} (h : table.AsRead) {definition : Definition}
    (hadd : definition.addTo table = .ok table') : table'.AsRead := by
  unfold Definition.addTo at hadd
  split at hadd
  · cases hadd
  · rename_i symbol hsymbol
    split at hadd
    · cases hadd
    · exact h.insert (Symbol.valid_of_parse? hsymbol) (Production.asRead_parse _) hadd

theorem AsRead.foldlM {definitions : List Definition} {table table' : Table} (h : table.AsRead)
    (hfold : definitions.foldlM (fun table d => d.addTo table) table = Except.ok table') :
    table'.AsRead := by
  induction definitions generalizing table with
  | nil =>
    cases hfold
    exact h
  | cons definition rest ih =>
    rw [List.foldlM_cons] at hfold
    cases hadd : definition.addTo table with
    | error error =>
      rw [hadd] at hfold
      cases hfold
    | ok next =>
      rw [hadd] at hfold
      exact ih (h.addTo hadd) hfold

/-- A source is read by adding its definitions in turn, one of which has to be for `$s`. -/
theorem foldlM_of_parse {source : Text} {table : Table} (h : Table.parse source = .ok table) :
    (definitions source).foldlM (fun table d => d.addTo table) Table.empty = Except.ok table ∧
      table.contains Symbol.start = true := by
  unfold Table.parse at h
  cases hfold : (definitions source).foldlM (fun table d => d.addTo table) Table.empty with
  | error error =>
    rw [hfold] at h
    cases h
  | ok read =>
    rw [hfold] at h
    have hif : (if read.contains Symbol.start then Except.ok read
      else Except.error GrammarError.missingStartSymbol) = Except.ok table := h
    split at hif
    · rename_i hstart
      cases hif
      exact ⟨rfl, hstart⟩
    · cases hif

theorem asRead_of_parse {source : Text} {table : Table} (h : Table.parse source = .ok table) :
    table.AsRead :=
  asRead_empty.foldlM (foldlM_of_parse h).1

end Table

end TextGrammar
