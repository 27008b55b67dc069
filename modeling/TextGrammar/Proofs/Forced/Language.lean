import TextGrammar.Proofs.Forced.Resolution
import TextGrammar.Proofs.Language

/-!
# Resolving keeps the language

A forced reference stands for an alternative of its target as much as an ordinary one does. So a
pass neither adds a text to a symbol nor takes one away, and no derivation gets deeper by it:
where a symbol derived a text within some bound, it still does.

* `Table.Preserves` is that relation between the table before and the table after.
* `Table.Pass.preserves` shows it for one pass, and `Table.preserves_of_steps` for any number.
* `UnfoldCall.produces_run` is the result for expansion, whatever the outcome of the call is.
-/

namespace TextGrammar

namespace Table

/-- Every text is derived within the same bound as before, and there are no new texts. -/
structure Preserves (before after : Table) : Prop where
  derives : ∀ {depth symbol text}, before.Derives depth symbol text →
    after.Derives depth symbol text
  language : ∀ {symbol text}, after.Language symbol text → before.Language symbol text

theorem Preserves.refl (table : Table) : table.Preserves table :=
  ⟨id, id⟩

theorem Preserves.trans {table table' table'' : Table} (h : table.Preserves table')
    (h' : table'.Preserves table'') : table.Preserves table'' :=
  ⟨fun hderives => h'.derives (h.derives hderives),
    fun hlanguage => h.language (h'.language hlanguage)⟩

/-- Derivations do not depend on which symbols count as unresolved. -/
theorem Derives.of_rows_eq {table table' : Table} (hrows : table'.rows = table.rows)
    {depth : Nat} {symbol : Symbol} {text : Text} (h : table.Derives depth symbol text) :
    table'.Derives depth symbol text := by
  induction depth generalizing symbol text with
  | zero => exact h.elim
  | succ depth ih =>
    obtain ⟨production, hget, a, ha, hspell⟩ := h
    refine ⟨production, ?_, a, ha, hspell.mono fun _ _ => ih⟩
    unfold get? at hget ⊢
    rw [hrows]
    exact hget

theorem Preserves.of_rows_eq {table table' : Table} (hrows : table'.rows = table.rows) :
    table.Preserves table' := by
  constructor
  · intro depth symbol text h
    exact h.of_rows_eq hrows
  · rintro symbol text ⟨depth, h⟩
    exact ⟨depth, h.of_rows_eq hrows.symm⟩

/-! ## One alternative -/

theorem derives_succ_iff {table : Table} {depth : Nat} {symbol : Symbol} {text : Text} :
    table.Derives (depth + 1) symbol text ↔
      ∃ a ∈ table.alternatives symbol, SpelledBy (table.Derives depth) a.segments text := by
  unfold Derives alternatives
  cases table.get? symbol with
  | none => simp
  | some production => simp

theorem language_iff_alternatives {table : Table} {symbol : Symbol} {text : Text} :
    table.Language symbol text ↔
      ∃ a ∈ table.alternatives symbol, SpelledBy table.Language a.segments text := by
  rw [language_iff]
  unfold alternatives
  cases table.get? symbol with
  | none => simp
  | some production => simp

/-- What an alternative spells within a bound is spelled by one that a pass puts in its place. The
target of the forced reference is one symbol less deep, so the bound need not grow. -/
theorem exists_resolved_of_spelledBy {table : Table} {depth : Nat} {a : Alternative} {text : Text}
    (h : SpelledBy (table.Derives depth) a.segments text) :
    ∃ b ∈ table.resolved a, SpelledBy (table.Derives depth) b.segments text := by
  cases hfirst : a.firstForced? with
  | none =>
    rw [resolved_of_firstForced?_eq_none hfirst]
    exact ⟨a, List.mem_singleton_self a, h⟩
  | some found =>
    obtain ⟨index, reference⟩ := found
    rw [resolved_of_firstForced? hfirst]
    obtain ⟨before, after, rfl, rfl, -⟩ := Alternative.exists_of_firstForced? hfirst
    obtain ⟨u, _, rfl, hu, v, w, rfl, hv, hw⟩ := spelledBy_append.1 h
    have hderives : table.Derives depth reference v := hv
    cases depth with
    | zero => exact hderives.elim
    | succ depth =>
      obtain ⟨choice, hchoice, hspell⟩ := derives_succ_iff.1 hderives
      refine ⟨_, List.mem_map_of_mem hchoice, ?_⟩
      rw [Alternative.splice_append, spelledBy_ofSegments, List.append_assoc, spelledBy_append]
      refine ⟨u, v ++ w, rfl, hu, spelledBy_append.2 ⟨v, w, rfl, ?_, hw⟩⟩
      exact hspell.mono fun _ _ => Derives.succ

/-- What is spelled by an alternative that a pass puts in place of another was spelled by that
one. -/
theorem spelledBy_of_mem_resolved {table : Table} {a b : Alternative} {text : Text}
    (hb : b ∈ table.resolved a) (h : SpelledBy table.Language b.segments text) :
    SpelledBy table.Language a.segments text := by
  cases hfirst : a.firstForced? with
  | none =>
    rw [resolved_of_firstForced?_eq_none hfirst, List.mem_singleton] at hb
    rw [← hb]
    exact h
  | some found =>
    obtain ⟨index, reference⟩ := found
    rw [resolved_of_firstForced? hfirst] at hb
    obtain ⟨before, after, rfl, rfl, -⟩ := Alternative.exists_of_firstForced? hfirst
    obtain ⟨choice, hchoice, rfl⟩ := List.mem_map.1 hb
    rw [Alternative.splice_append, spelledBy_ofSegments, List.append_assoc] at h
    obtain ⟨u, _, rfl, hu, hrest⟩ := spelledBy_append.1 h
    obtain ⟨v, w, rfl, hv, hw⟩ := spelledBy_append.1 hrest
    have htarget : table.Language reference v :=
      language_iff_alternatives.2 ⟨choice, hchoice, hv⟩
    exact spelledBy_append.2 ⟨u, v ++ w, rfl, hu, v, w, rfl, htarget, hw⟩

/-! ## One pass -/

/-- A pass keeps the language, and the bounds of all derivations. -/
theorem Pass.preserves {table table' : Table} {symbol : Symbol} (h : Pass symbol table table') :
    table.Preserves table' := by
  constructor
  · intro depth symbol' text hderives
    induction depth generalizing symbol' text with
    | zero => exact hderives.elim
    | succ depth ih =>
      obtain ⟨a, ha, hspell⟩ := derives_succ_iff.1 hderives
      rw [derives_succ_iff, h.alternatives_eq]
      by_cases hsymbol : symbol' = symbol
      · subst hsymbol
        obtain ⟨b, hb, hspell'⟩ := exists_resolved_of_spelledBy hspell
        rw [if_pos rfl]
        exact ⟨b, List.mem_flatMap.2 ⟨a, ha, hb⟩, hspell'.mono fun _ _ => ih⟩
      · rw [if_neg hsymbol]
        exact ⟨a, ha, hspell.mono fun _ _ => ih⟩
  · intro symbol' text hlanguage
    apply Language.least _ hlanguage
    intro symbol'' production b text' hget hb hspell
    rw [← alternatives_of_get? hget, h.alternatives_eq] at hb
    rw [language_iff_alternatives]
    by_cases hsymbol : symbol'' = symbol
    · subst hsymbol
      rw [if_pos rfl] at hb
      obtain ⟨a, ha, hba⟩ := List.mem_flatMap.1 hb
      exact ⟨a, ha, spelledBy_of_mem_resolved hba hspell⟩
    · rw [if_neg hsymbol] at hb
      exact ⟨b, hb, hspell⟩

/-- Any number of passes keeps the language. -/
theorem preserves_of_steps {table table' : Table} (h : Relation.ReflTransGen Step table table') :
    table.Preserves table' := by
  induction h with
  | refl => exact .refl table
  | tail _ hstep ih =>
    obtain ⟨_, hpass⟩ := hstep
    exact ih.trans hpass.preserves

end Table

/-! ## Calls -/

/-- A request to resolve forced references in at most some number of passes for each symbol. -/
inductive UnfoldCall where
  /-- For one symbol. -/
  | one (symbol : Symbol) (limit : Nat)
  /-- For every symbol that counts as unresolved. -/
  | all (limit : Nat)
deriving DecidableEq, Repr

namespace UnfoldCall

/-- Carries a request out. Gives its outcome and the table it leaves. -/
def run (table : Table) : UnfoldCall → Except GrammarError Unit × Table
  | one symbol limit => table.unfold symbol limit
  | all limit => table.unfoldAll limit

theorem preserves_run (table : Table) (call : UnfoldCall) :
    table.Preserves (call.run table).2 := by
  cases call with
  | one symbol limit => exact Table.preserves_of_steps (Table.steps_unfold table symbol limit)
  | all limit =>
    have hforced : table.Preserves { table with forced := [] } := .of_rows_eq rfl
    exact hforced.trans (Table.preserves_of_steps (Table.steps_unfoldEach limit _ _))

/-- A request keeps what every symbol can be expanded to, also if it fails, and no expansion needs
a greater limit after it than before. -/
theorem produces_run (table : Table) (call : UnfoldCall) (symbol : Symbol) (text : Text) :
    ((∃ limit, table.Produces limit symbol text) ↔
      ∃ limit, (call.run table).2.Produces limit symbol text) ∧
    ∀ limit, table.Produces limit symbol text →
      (call.run table).2.Produces limit symbol text := by
  have hpreserves := preserves_run table call
  constructor
  · rw [Table.exists_produces_iff_language, Table.exists_produces_iff_language]
    constructor
    · rintro ⟨depth, h⟩
      exact ⟨depth, hpreserves.derives h⟩
    · exact hpreserves.language
  · intro limit h
    rw [Table.produces_iff_derives] at h ⊢
    exact hpreserves.derives h

end UnfoldCall

end TextGrammar
