import TextGrammar.Proofs.Statements
import TextGrammar.Proofs.Groups.Layout

/-!
# Reading statements without groups

A statement whose content holds no group is read as a row of the table, with one alternative for
each alternative of its rule (`Statement.Readable.parse_body`, `Lines.Readable.exists_parse_join`).
-/

namespace TextGrammar

namespace Content

/-! ## The ends of a flush content -/

theorem eq_of_consFirst_eq_singleton {item : Content → Content} {rest a : Content}
    (hrest : ∀ b, rest.alternatives = [b] → b = rest)
    (h : consFirst item rest.alternatives = [a]) : a = item rest := by
  cases halternatives : rest.alternatives with
  | nil => exact absurd halternatives (alternatives_ne_nil rest)
  | cons first others =>
    rw [halternatives, consFirst, List.cons.injEq] at h
    rw [← h.1, hrest first (by rw [halternatives, h.2])]

/-- A single alternative is the whole content. -/
theorem eq_of_alternatives_eq_singleton {content a : Content} (h : content.alternatives = [a]) :
    a = content := by
  induction content generalizing a with
  | nil => simpa [alternatives, eq_comm] using h
  | bar rest ih =>
    rw [alternatives, List.cons.injEq] at h
    exact absurd h.2 (alternatives_ne_nil rest)
  | char c rest ih => exact eq_of_consFirst_eq_singleton (fun _ => ih) h
  | ref symbol braced rest ih => exact eq_of_consFirst_eq_singleton (fun _ => ih) h
  | group kind body rest _ ih => exact eq_of_consFirst_eq_singleton (fun _ => ih) h

theorem endsBlank_of_mem_getLast?_consFirst {item : Content → Content} {rest last : Content}
    (hrest : ∀ b, b ∈ rest.alternatives.getLast? → b.endsBlank = rest.endsBlank)
    (hitem : rest ≠ nil → (item rest).endsBlank = rest.endsBlank)
    (h : last ∈ (consFirst item rest.alternatives).getLast?) :
    last.endsBlank = (item rest).endsBlank := by
  cases halternatives : rest.alternatives with
  | nil => exact absurd halternatives (alternatives_ne_nil rest)
  | cons first others =>
    rw [halternatives, consFirst] at h
    cases others with
    | nil =>
      obtain rfl : item first = last := Option.some.inj h
      rw [eq_of_alternatives_eq_singleton halternatives]
    | cons second others =>
      have hne : rest ≠ nil := by
        intro heq
        subst heq
        simp [alternatives] at halternatives
      rw [hitem hne]
      refine hrest last ?_
      rw [halternatives]
      simpa [List.getLast?_cons_cons] using h

/-- The last alternative ends as the content does. -/
theorem endsBlank_of_mem_getLast? {content last : Content}
    (h : last ∈ content.alternatives.getLast?) : last.endsBlank = content.endsBlank := by
  induction content generalizing last with
  | nil =>
    obtain rfl : nil = last := Option.some.inj h
    rfl
  | bar rest ih =>
    obtain ⟨first, others, halternatives⟩ := List.exists_cons_of_ne_nil (alternatives_ne_nil rest)
    rw [alternatives, halternatives, List.getLast?_cons_cons, ← halternatives] at h
    exact ih h
  | char c rest ih =>
    refine endsBlank_of_mem_getLast?_consFirst (fun _ => ih) ?_ h
    intro hne
    cases rest with
    | nil => exact absurd rfl hne
    | _ => rfl
  | ref symbol braced rest ih =>
    exact endsBlank_of_mem_getLast?_consFirst (fun _ => ih) (fun _ => rfl) h
  | group kind body rest _ ih =>
    exact endsBlank_of_mem_getLast?_consFirst (fun _ => ih) (fun _ => rfl) h

/-- A flush content has no whitespace at its ends. -/
theorem Flush.ends {content : Content} (h : content.Flush) :
    content.beginsBlank = false ∧ content.endsBlank = false := by
  have hne := alternatives_ne_nil content
  constructor
  · have hfirst := List.head?_eq_some_head hne
    rw [← (begins_of_mem_head? hfirst).2]
    exact (h _ (List.head_mem hne)).1
  · have hlast := List.getLast?_eq_some_getLast hne
    rw [← endsBlank_of_mem_getLast? hlast]
    exact (h _ (List.getLast_mem hne)).2

/-! ## Contents without groups -/

/-- An alternative that holds characters and references only. -/
inductive Flat : Content → Prop where
  | nil : Flat nil
  | char {c rest} : Flat rest → Flat (char c rest)
  | ref {symbol braced rest} : Flat rest → Flat (ref symbol braced rest)

/-- The alternatives of a content without groups hold characters and references only. -/
theorem flat_of_mem_alternatives {content : Content} (hoptional : content.Free .optional)
    (hplain : content.Free .plain) : ∀ a ∈ content.alternatives, a.Flat := by
  induction content with
  | nil =>
    intro a ha
    obtain rfl : a = nil := List.mem_singleton.1 ha
    exact .nil
  | bar rest ih =>
    intro a ha
    rcases List.mem_cons.1 ha with rfl | ha
    · exact .nil
    · exact ih hoptional hplain a ha
  | char c rest ih =>
    have hrest := ih hoptional hplain
    exact forall_mem_consFirst (alternatives_ne_nil rest)
      (fun first hfirst => .char (hrest first (List.mem_of_mem_head? hfirst))) hrest
  | ref symbol braced rest ih =>
    have hrest := ih hoptional hplain
    exact forall_mem_consFirst (alternatives_ne_nil rest)
      (fun first hfirst => .ref (hrest first (List.mem_of_mem_head? hfirst))) hrest
  | group kind body rest _ _ =>
    cases kind with
    | optional => exact absurd rfl hoptional.1
    | plain => exact absurd rfl hplain.1

/-- A written content without groups holds no delimiter of a group. -/
theorem depthAfter_of_mem_print {content : Content} (hwf : content.WellFormed)
    (hoptional : content.Free .optional) (hplain : content.Free .plain) {c : Char}
    (h : c ∈ content.print) : Group.depthAfter 0 c = 0 := by
  induction content with
  | nil => simp [print] at h
  | bar rest ih =>
    rcases List.mem_cons.1 h with rfl | h
    · decide
    · exact ih hwf hoptional hplain h
  | char d rest ih =>
    rcases List.mem_cons.1 h with rfl | h
    · exact Group.depthAfter_of_isInert (isInert_of_isOrdinary hwf.1) 0
    · exact ih hwf.2 hoptional hplain h
  | ref symbol braced rest ih =>
    rcases List.mem_append.1 h with h | h
    · exact Group.depthAfter_of_isInert (isInert_of_mem_writeReference hwf.1 h) 0
    · exact ih hwf.2.2 hoptional hplain h
  | group kind body rest _ _ =>
    cases kind with
    | optional => exact absurd rfl hoptional.1
    | plain => exact absurd rfl hplain.1

theorem splitTopLevel_eq_split {text : Text} (h : ∀ c ∈ text, Group.depthAfter 0 c = 0) :
    Group.splitTopLevel 0 text = text.splitOn '|' := by
  induction text with
  | nil => rfl
  | cons c rest ih =>
    have hrest := ih fun d hd => h d (List.mem_cons_of_mem _ hd)
    rw [Group.splitTopLevel, h c List.mem_cons_self, hrest]
    by_cases hc : c = '|'
    · rw [hc, Text.splitOn_cons_self]
      simp
    · rw [Text.splitOn_cons_of_ne _ hc]
      simp [hc]

/-- Without groups, every `|` of a written content separates two of its alternatives. -/
theorem split_print {content : Content} (hwf : content.WellFormed)
    (hoptional : content.Free .optional) (hplain : content.Free .plain) :
    content.print.splitOn '|' = content.alternatives.map print := by
  rw [← splitTopLevel_print hwf,
    splitTopLevel_eq_split fun c hc => depthAfter_of_mem_print hwf hoptional hplain hc]

/-- A flush alternative is read without trimming. -/
theorem parse_print {a : Content} (hwf : a.WellFormed) (hbegins : a.beginsBlank = false)
    (hends : a.endsBlank = false) : Alternative.parse a.print = ⟨readSegments a.print⟩ := by
  rw [← beginsBlank_print hwf] at hbegins
  rw [← endsBlank_print hwf] at hends
  rw [Alternative.parse, Text.trim_eq_self hbegins hends]

end Content

namespace Statement

variable {statement : Statement}

/-- What stands behind the `=` of a statement. -/
def body (statement : Statement) : Text :=
  (if statement.omittable then ['|', ' '] else []) ++ statement.content.print

/-- The production of the rule of a statement. -/
def production (statement : Statement) : Production :=
  ⟨statement.rule.content.alternatives.map fun a => ⟨readSegments a.print⟩⟩

theorem Readable.print_ne_nil (h : statement.Readable) (homittable : statement.omittable = true) :
    statement.content.print ≠ [] := by
  refine Content.print_ne_nil h.wellFormed ?_
  rcases h.nonempty with hne | ⟨hfalse, -⟩
  · exact hne
  · rw [homittable] at hfalse
    exact Bool.noConfusion hfalse

theorem Readable.body_ends (h : statement.Readable) :
    Group.beginsBlank statement.body = false ∧ Group.endsBlank statement.body = false := by
  obtain ⟨hbegins, hends⟩ := h.flush.ends
  rw [← Content.beginsBlank_print h.wellFormed] at hbegins
  rw [← Content.endsBlank_print h.wellFormed] at hends
  have hbar : Unicode.isWhitespace '|' = false := by decide
  cases homittable : statement.omittable with
  | false => simp [body, homittable, hbegins, hends]
  | true =>
    constructor
    · simp [body, homittable, Group.beginsBlank, hbar]
    · obtain ⟨c, hc⟩ := Option.ne_none_iff_exists'.1 fun hnone =>
        h.print_ne_nil homittable (List.getLast?_eq_none_iff.1 hnone)
      rw [← hends]
      simp [body, homittable, Group.endsBlank, List.getLast?_cons, hc]

/-- The content of a statement is read as the production of its rule. -/
theorem Readable.parse_body (h : statement.Readable)
    (hoptional : statement.content.Free .optional) (hplain : statement.content.Free .plain) :
    Production.parse statement.body = statement.production := by
  have hsplit := Content.split_print h.wellFormed hoptional hplain
  have hparse : ∀ a ∈ statement.content.alternatives,
      Alternative.parse a.print = ⟨readSegments a.print⟩ := fun a ha =>
    Content.parse_print (h.wellFormed.alternatives a ha) (h.flush a ha).1 (h.flush a ha).2
  have halternatives : (statement.content.alternatives.map Content.print).map Alternative.parse =
      statement.content.alternatives.map fun a => ⟨readSegments a.print⟩ := by
    rw [List.map_map]
    exact List.map_congr_left hparse
  cases homittable : statement.omittable with
  | false =>
    simp only [Production.parse, body, production, rule, homittable, Bool.false_eq_true, if_false,
      List.nil_append, hsplit, halternatives]
  | true =>
    have hbar : Production.parse statement.body =
        ⟨⟨readSegments []⟩ ::
          (Production.parse (' ' :: statement.content.print)).alternatives⟩ := by
      simp only [body, homittable, if_true, List.cons_append, List.nil_append, Production.parse,
        Text.splitOn_cons_self, List.map_cons]
      rfl
    -- The blank behind the first `|` is trimmed off the second alternative.
    rw [hbar, Production.parse_cons_of_blank (by decide), Production.parse, hsplit, halternatives]
    simp only [production, rule, homittable, if_true, Content.alternatives, List.map_cons,
      Content.print]

/-! ## Statements as definitions -/

/-- What a statement defines. -/
def entry (statement : Statement) : Entry :=
  (statement.symbol, statement.body)

/-- Only the layout of a statement holds line breaks. -/
theorem Readable.body_not_break (h : statement.Readable) :
    ∀ c ∈ statement.body, c ≠ '\r' ∧ c ≠ '\n' := by
  have hbar : ∀ c ∈ (['|', ' '] : Text), c ≠ '\r' ∧ c ≠ '\n' := by simp
  intro c hc
  rcases List.mem_append.1 hc with hc | hc
  · split_ifs at hc
    · exact hbar c hc
    · exact absurd hc List.not_mem_nil
  · have hinert := Content.isInert_or_delimiter_of_mem_print h.wellFormed hc
    constructor
    · rintro rfl
      revert hinert
      decide
    · rintro rfl
      revert hinert
      decide

theorem Readable.flatten_body (h : statement.Readable) :
    Table.flatten (' ' :: statement.body) = statement.body := by
  have hline : Text.onOneLine (' ' :: statement.body) = ' ' :: Text.onOneLine statement.body := rfl
  obtain ⟨hbegins, hends⟩ := h.body_ends
  rw [Table.flatten_eq, hline, Text.onOneLine_eq_self h.body_not_break, Text.trim,
    Text.trimStart_cons_of_blank (by decide)]
  exact Text.trim_eq_self hbegins hends

/-- A statement is read as the definition of its symbol by its body. -/
theorem Readable.definition?_text (h : statement.Readable) :
    Table.definition? statement.text = some statement.entry.definition := by
  have hlayout : ∀ c ∈ statement.layout, Unicode.isWhitespace c = true := by
    have hbreak : Unicode.isWhitespace '\n' = true := by decide
    rcases h.layout with hnil | hnil
    · simp [hnil]
    · simp [hnil, hbreak]
  have hform : statement.text =
      statement.layout ++ statement.symbol.name ++ [' ', '='] ++ ' ' :: statement.body := by
    simp [text, lead, body]
  rw [hform, Table.definition?_of_name h.valid _ hlayout, h.flatten_body]
  rfl

/-- Only the rule of a group may have an empty body. -/
theorem Readable.sound (h : statement.Readable) : statement.entry.Sound := by
  refine ⟨h.valid, ?_⟩
  rcases h.nonempty with hne | ⟨-, hsynthetic⟩
  · have hprint := Content.print_ne_nil h.wellFormed hne
    exact Or.inl fun hnil => hprint (List.append_eq_nil_iff.1 hnil).2
  · exact Or.inr hsynthetic

end Statement

namespace Lines

variable {lines : Lines}

/-- The definitions of a source are the statements among its lines. -/
theorem definitions_join (hne : lines ≠ []) (h : ∀ s ∈ lines.statements, s.Readable) :
    Table.definitions lines.join = (lines.statements.map Statement.entry).map Entry.definition := by
  rw [Table.definitions_eq_filterMap, split_join hne h]
  clear hne
  induction lines with
  | nil => rfl
  | cons line rest ih =>
    cases line with
    | none =>
      have hblank : Table.definition? (lineText none) = none := rfl
      rw [List.map_cons, List.filterMap_cons_none hblank]
      exact ih h
    | some statement =>
      have hread : Table.definition? (lineText (some statement)) =
          some statement.entry.definition := (h statement List.mem_cons_self).definition?_text
      rw [List.map_cons, List.filterMap_cons_some hread,
        ih fun s hs => h s (List.mem_cons_of_mem _ hs)]
      rfl

/-- Lines without groups are read as a table whose rows are their rules. -/
theorem Readable.exists_parse_join (h : lines.Readable) (hoptional : lines.Free .optional)
    (hplain : lines.Free .plain) (hstart : Symbol.start ∈ lines.statements.map Statement.symbol) :
    ∃ table, Table.parse lines.join = .ok table ∧
      table.rows = lines.statements.map fun s => (s.symbol, s.production) := by
  have hne : lines ≠ [] := by
    intro heq
    subst heq
    simp [statements] at hstart
  have hsymbols : (lines.statements.map Statement.entry).map Prod.fst =
      lines.statements.map Statement.symbol := List.map_map
  have hsound : ∀ entry ∈ lines.statements.map Statement.entry, entry.Sound :=
    List.forall_mem_map.2 fun s hs => (h.readable s hs).sound
  obtain ⟨table, hparse, hrows⟩ := Table.exists_parse_of_entries
    (definitions_join hne h.readable) hsound (hsymbols ▸ h.distinct) (hsymbols ▸ hstart)
  refine ⟨table, hparse, ?_⟩
  rw [hrows, List.map_map]
  refine List.map_congr_left fun s hs => ?_
  show (s.symbol, Production.parse s.body) = _
  rw [(h.readable s hs).parse_body (hoptional s hs) (hplain s hs)]

end Lines

end TextGrammar
