import TextGrammar.Proofs.Groups.Reading
import TextGrammar.Proofs.Language

/-!
# Groups mean what they say

Desugaring and reading a source with groups gives a table whose symbols can be expanded to exactly
the texts that the direct meaning of the groups allows (`exists_parse_desugar_offers`).

Two facts carry the result. A pass over a kind of groups keeps the direct meaning
(`Lines.offers_pass`), and the table of lines without groups has the meaning of their rules
(`Lines.language_iff_offers`).
-/

namespace TextGrammar

namespace Content

/-! ## Reading flat alternatives -/

theorem beginsIdentifier_print {content : Content} (h : content.WellFormed) :
    beginsIdentifier content.print = content.beginsGlued := by
  have hdelimiter : ∀ kind : GroupKind, isIdentifierChar kind.opening = false := by
    intro kind
    cases kind <;> exact isIdentifierChar_of_mem_signs (by decide)
  have hbar : isIdentifierChar '|' = false := isIdentifierChar_of_mem_signs (by decide)
  have hsigil : isIdentifierChar '$' = false := isIdentifierChar_of_mem_signs (by decide)
  cases content with
  | nil => rfl
  | bar rest => exact hbar
  | char c rest => rfl
  | ref symbol braced rest =>
    obtain ⟨tail, htail⟩ := writeReference_eq_cons braced h.1
    rw [print, htail]
    exact hsigil
  | group kind body rest => exact hdelimiter kind

variable {produces : Symbol → Text → Prop} {text : Text}

theorem spelledBy_char {c : Char} {rest : Content} (h : (char c rest).WellFormed) :
    SpelledBy produces (readSegments (char c rest).print) text ↔
      ∃ after, text = c :: after ∧ SpelledBy produces (readSegments rest.print) after := by
  have hsigil : c ≠ '$' := by
    intro heq
    subst heq
    exact Bool.noConfusion h.1
  have hforced : c ≠ '>' := by
    intro heq
    subst heq
    exact Bool.noConfusion h.1
  rw [print, readSegments_cons_of_plain _ hsigil hforced, spelledBy_attach,
    spelledBy_literal_cons]
  rfl

theorem spelledBy_ref {symbol : Symbol} {braced : Bool} {rest : Content}
    (h : (ref symbol braced rest).WellFormed) :
    SpelledBy produces (readSegments (ref symbol braced rest).print) text ↔
      ∃ before after, text = before ++ after ∧ produces symbol before ∧
        SpelledBy produces (readSegments rest.print) after := by
  have hrest : braced = false → beginsIdentifier rest.print = false := by
    rw [beginsIdentifier_print h.2.2]
    exact h.2.1
  rw [print, readSegments_writeReference h.1 hrest]
  rfl

theorem spelledBy_nil : SpelledBy produces (readSegments nil.print) text ↔ text = [] := by
  rw [print, readSegments]
  rfl

end Content

namespace Lines

open Content

variable {lines : Lines} {table : Table} {text : Text}

/-! ## The table of lines without groups -/

theorem readable_rule {s : Statement} (h : lines.Readable) (hoptional : lines.Free .optional)
    (hplain : lines.Free .plain) (hs : s ∈ lines.statements) {a : Content}
    (ha : a ∈ s.rule.content.alternatives) : a.Flat ∧ a.WellFormed := by
  have hwf : s.rule.content.WellFormed ∧ s.rule.content.Free .optional ∧
      s.rule.content.Free .plain := by
    have hcontent := (h.readable s hs).wellFormed
    cases homittable : s.omittable with
    | false => simpa [Statement.rule, homittable] using ⟨hcontent, hoptional s hs, hplain s hs⟩
    | true =>
      simpa [Statement.rule, homittable, WellFormed, Content.Free] using
        ⟨hcontent, hoptional s hs, hplain s hs⟩
  exact ⟨flat_of_mem_alternatives hwf.2.1 hwf.2.2 a ha, hwf.1.alternatives a ha⟩

/-- What the segments of a flat alternative spell is what the alternative may come out as. -/
theorem yields_of_spelledBy {rules : List Rule} {a : Content} (hflat : a.Flat)
    (hwf : a.WellFormed)
    (h : SpelledBy (fun symbol text => ∃ rule ∈ rules, rule.symbol = symbol ∧
      Offers rules rule.content text) (readSegments a.print) text) : Yields rules a text := by
  induction hflat generalizing text with
  | nil =>
    rw [spelledBy_nil.1 h]
    exact .nil
  | char _ ih =>
    obtain ⟨after, rfl, hrest⟩ := (spelledBy_char hwf).1 h
    exact .char (ih hwf.2 hrest)
  | ref _ ih =>
    obtain ⟨before, after, rfl, ⟨rule, hrule, rfl, b, hb, hinner⟩, hrest⟩ :=
      (spelledBy_ref hwf).1 h
    exact .ref hrule hb hinner (ih hwf.2.2 hrest)

/-- What a flat alternative may come out as, its segments spell. Every target has an alternative
that comes out as what the reference stands for, and it is flat as well. -/
theorem spelledBy_of_yields (h : lines.Readable) (hoptional : lines.Free .optional)
    (hplain : lines.Free .plain)
    (hget : ∀ s ∈ lines.statements, table.get? s.symbol = some s.production) {a : Content}
    (hyields : Yields lines.rules a text) (hflat : a.Flat) (hwf : a.WellFormed) :
    SpelledBy table.Language (readSegments a.print) text := by
  induction hyields with
  | nil => exact spelledBy_nil.2 rfl
  | char _ ih =>
    cases hflat with
    | char hflat => exact (spelledBy_char hwf).2 ⟨_, rfl, ih hflat hwf.2⟩
  | @ref rule b _ _ before after hrule hb _ _ ihinner ihrest =>
    cases hflat with
    | ref hflat =>
      obtain ⟨s, hs, rfl⟩ := List.mem_map.1 hrule
      obtain ⟨hbflat, hbwf⟩ := readable_rule h hoptional hplain hs hb
      have hinner : table.Language s.symbol before :=
        Table.language_iff.2 ⟨_, hget s hs, _, List.mem_map_of_mem hb, ihinner hbflat hbwf⟩
      exact (spelledBy_ref hwf).2 ⟨before, after, rfl, hinner, ihrest hflat hwf.2.2⟩
  | plain => cases hflat
  | omitted => cases hflat
  | kept => cases hflat

/-- The table of lines without groups can expand a symbol to exactly what its rule offers. -/
theorem language_iff_offers (h : lines.Readable) (hoptional : lines.Free .optional)
    (hplain : lines.Free .plain)
    (htable : table.rows = lines.statements.map fun s => (s.symbol, s.production))
    {s : Statement} (hs : s ∈ lines.statements) :
    table.Language s.symbol text ↔ Offers lines.rules s.rule.content text := by
  have hdistinct : table.symbols.Nodup := by
    rw [Table.symbols, htable, List.map_map]
    exact h.distinct
  have hget : ∀ s ∈ lines.statements, table.get? s.symbol = some s.production := by
    intro s hs
    rw [Table.get?_eq_some_iff hdistinct, htable]
    exact List.mem_map_of_mem hs
  constructor
  · intro hlanguage
    let offered : Symbol → Text → Prop := fun symbol text =>
      ∃ rule ∈ lines.rules, rule.symbol = symbol ∧ Offers lines.rules rule.content text
    have hleast : offered s.symbol text := by
      refine Table.Language.least ?_ hlanguage
      intro symbol production a text hproduction ha hspell
      rw [Table.get?_eq_some_iff hdistinct, htable] at hproduction
      obtain ⟨s', hs', heq⟩ := List.mem_map.1 hproduction
      obtain ⟨rfl, rfl⟩ := Prod.mk.inj heq
      obtain ⟨b, hb, rfl⟩ := List.mem_map.1 ha
      obtain ⟨hflat, hwf⟩ := readable_rule h hoptional hplain hs' hb
      exact ⟨s'.rule, List.mem_map_of_mem hs', rfl, b, hb, yields_of_spelledBy hflat hwf hspell⟩
    obtain ⟨rule, hrule, hsymbol, hoffers⟩ := hleast
    obtain ⟨s', hs', rfl⟩ := List.mem_map.1 hrule
    rwa [← List.inj_on_of_nodup_map h.distinct hs' hs hsymbol]
  · rintro ⟨a, ha, hyields⟩
    obtain ⟨hflat, hwf⟩ := readable_rule h hoptional hplain hs ha
    exact Table.language_iff.2 ⟨_, hget s hs, _, List.mem_map_of_mem ha,
      spelledBy_of_yields h hoptional hplain hget hyields hflat hwf⟩

/-! ## Both passes -/

/-- A pass keeps what a rule offers. -/
theorem offers_pass {kind : GroupKind} (h : lines.Readable) (hclear : lines.Clear kind)
    {s : Statement} (hs : s ∈ lines.statements) :
    ∃ s' ∈ (lines.pass kind).statements, s'.symbol = s.symbol ∧ ∀ text,
      Offers (lines.pass kind).rules s'.rule.content text ↔
        Offers lines.rules s.rule.content text := by
  obtain ⟨s', hs', hsymbol, hextracted⟩ := exists_mem_pass hclear hs
  exact ⟨s', hs', hsymbol, fun text => (replaces_pass h hclear).offers_iff hextracted⟩

/-- The lines of a source that an author wrote. The last one is blank. -/
def ofRules (rules : List Rule) : Lines :=
  rules.map (fun rule => some ⟨[], rule.symbol, false, rule.content⟩) ++ [none]

theorem statements_ofRules (rules : List Rule) :
    (ofRules rules).statements = rules.map fun rule => ⟨[], rule.symbol, false, rule.content⟩ := by
  induction rules with
  | nil => rfl
  | cons rule rest ih => exact congrArg (_ :: ·) ih

theorem rules_ofRules (rules : List Rule) : (ofRules rules).rules = rules := by
  rw [Lines.rules, statements_ofRules, List.map_map]
  exact List.map_id rules

theorem join_ofRules (rules : List Rule) : (ofRules rules).join = printRules rules := by
  induction rules with
  | nil => rfl
  | cons rule rest ih =>
    have hne : (ofRules rest).map lineText ≠ [] := by simp [ofRules]
    have hlines : (ofRules (rule :: rest)).map lineText =
        rule.print :: (ofRules rest).map lineText := by
      simp [ofRules, lineText, Statement.text, Statement.lead, Rule.print]
    rw [join, hlines, List.intercalate_cons_of_ne_nil hne]
    rw [join] at ih
    rw [ih]
    simp [printRules]

variable {rules : List Rule}

theorem clear_ofRules (h : SoundRules rules) (kind : GroupKind) : (ofRules rules).Clear kind := by
  intro s hs
  rw [statements_ofRules] at hs
  obtain ⟨rule, hrule, rfl⟩ := List.mem_map.1 hs
  have hsound := h.sound rule hrule
  exact ⟨Symbol.ne_of_not_mentionsGroup hsound.clear kind, fun symbol hmem =>
    Symbol.ne_of_not_mentionsGroup (hsound.references_clear symbol hmem) kind⟩

theorem readable_ofRules (h : SoundRules rules) : (ofRules rules).Readable := by
  constructor
  · intro s hs
    rw [statements_ofRules] at hs
    obtain ⟨rule, hrule, rfl⟩ := List.mem_map.1 hs
    have hsound := h.sound rule hrule
    refine ⟨Or.inl rfl, hsound.valid, hsound.wellFormed, hsound.flush, Or.inl ?_⟩
    intro hnil
    exact hsound.nonempty (congrArg print hnil)
  · rw [statements_ofRules, List.map_map]
    exact h.distinct

theorem mem_statements_ofRules {rule : Rule} (h : rule ∈ rules) :
    ⟨[], rule.symbol, false, rule.content⟩ ∈ (ofRules rules).statements := by
  rw [statements_ofRules]
  exact List.mem_map_of_mem h

end Lines

open Content Lines

/-- Rules that an author may write are read as a table that can expand every symbol to exactly the
texts that the direct meaning of their groups allows. -/
theorem exists_parse_desugar_offers (rules : List Rule) (h : SoundRules rules) :
    ∃ table, Table.parse (desugar (printRules rules)) = .ok table ∧
      ∀ rule ∈ rules, ∀ text,
        (∃ limit, table.Produces limit rule.symbol text) ↔ Offers rules rule.content text := by
  have hclear : ∀ kind, (ofRules rules).Clear kind := clear_ofRules h
  have hreadable : (ofRules rules).Readable := readable_ofRules h
  have hreadable₁ := hreadable.pass (hclear .optional)
  have hclear₁ : ((ofRules rules).pass .optional).Clear .plain :=
    Clear.pass GroupKind.noConfusion (hclear .plain)
  have hreadable₂ := hreadable₁.pass hclear₁
  have hoptional : (((ofRules rules).pass .optional).pass .plain).Free .optional :=
    (free_pass_self (ofRules rules)).pass_plain
  have hplain : (((ofRules rules).pass .optional).pass .plain).Free .plain :=
    free_pass_self ((ofRules rules).pass .optional)
  have hsource : desugar (printRules rules) =
      (((ofRules rules).pass .optional).pass .plain).join := by
    have hne : ofRules rules ≠ [] := by simp [ofRules]
    have hne₁ : (ofRules rules).pass .optional ≠ [] := by
      simp [Lines.pass, extract_ne_nil hne]
    rw [desugar, ← join_ofRules, desugarKind_join hne fun s hs =>
      ⟨hreadable.readable s hs, (hclear .optional s hs).content⟩,
      desugarKind_join hne₁ fun s hs => ⟨hreadable₁.readable s hs, (hclear₁ s hs).content⟩]
  -- Every rule is followed through both passes to its row.
  have hfollow : ∀ rule ∈ rules, ∃ s ∈ (((ofRules rules).pass .optional).pass .plain).statements,
      s.symbol = rule.symbol ∧ ∀ text,
        Offers (((ofRules rules).pass .optional).pass .plain).rules s.rule.content text ↔
          Offers rules rule.content text := by
    intro rule hrule
    obtain ⟨s₁, hs₁, hsymbol₁, hoffers₁⟩ :=
      offers_pass hreadable (hclear .optional) (mem_statements_ofRules hrule)
    obtain ⟨s₂, hs₂, hsymbol₂, hoffers₂⟩ := offers_pass hreadable₁ hclear₁ hs₁
    refine ⟨s₂, hs₂, hsymbol₂.trans hsymbol₁, fun text => ?_⟩
    rw [hoffers₂ text, hoffers₁ text, rules_ofRules]
    rfl
  obtain ⟨table, hparse, hrows⟩ := hreadable₂.exists_parse_join hoptional hplain (by
    obtain ⟨rule, hrule, hstart⟩ := List.mem_map.1 h.start
    obtain ⟨s, hs, hsymbol, -⟩ := hfollow rule hrule
    exact List.mem_map.2 ⟨s, hs, hsymbol.trans hstart⟩)
  refine ⟨table, by rw [hsource, hparse], ?_⟩
  intro rule hrule text
  obtain ⟨s, hs, hsymbol, hoffers⟩ := hfollow rule hrule
  rw [Table.exists_produces_iff_language, ← hoffers text, ← hsymbol]
  exact language_iff_offers hreadable₂ hoptional hplain hrows hs

/-- `$s = Oh[,([my]${w}|)()|!];` and `$w = Bob|${s}[];`: groups of both kinds in one another,
empty ones among them, and a recursion. -/
def greetingRules : List Rule :=
  let word := Symbol.ofIdentifier ['w']
  [⟨.start, .char 'O' <| .char 'h' <| .group .optional
      (.char ',' <| .group .plain
        (.group .optional (.char 'm' <| .char 'y' .nil) <| .ref word true <| .bar .nil) <|
        .group .plain .nil <| .bar <| .char '!' .nil) .nil⟩,
    ⟨word, .char 'B' <| .char 'o' <| .char 'b' <| .bar <| .ref .start true <|
      .group .optional .nil .nil⟩]

theorem greetingRules_offers :
    printRules greetingRules = "$s = Oh[,([my]${w}|)()|!];$w = Bob|${s}[];".toList ∧
      SoundRules greetingRules ∧
      ∃ table, Table.parse (desugar (printRules greetingRules)) = .ok table ∧
        ∀ rule ∈ greetingRules, ∀ text,
          (∃ limit, table.Produces limit rule.symbol text) ↔
            Offers greetingRules rule.content text := by
  have hsound : SoundRules greetingRules := by decide +kernel
  exact ⟨by decide +kernel, hsound, exists_parse_desugar_offers greetingRules hsound⟩

end TextGrammar
