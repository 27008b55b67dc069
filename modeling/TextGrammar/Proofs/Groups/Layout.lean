import Mathlib.Data.List.Nodup
import TextGrammar.Proofs.Groups.Scanning

/-!
# Sources as lists of statements

A source is laid out as statements between `;`, some of which may be blank. Desugaring one kind of
groups replaces them in every statement and adds the statements of the groups at the end
(`desugarKind_join`). What it does to the rules is `Content.Replaces` (`replaces_pass`), and the
statements stay readable (`Readable.pass`).
-/

namespace TextGrammar

namespace Statement

/-- What stands in front of the content of a statement. -/
def lead (statement : Statement) : Text :=
  statement.layout ++ statement.symbol.name ++ [' ', '=', ' '] ++
    (if statement.omittable then ['|', ' '] else [])

/-- The written form of a statement. -/
def text (statement : Statement) : Text :=
  statement.lead ++ statement.content.print

theorem text_eq_layout_append_print (statement : Statement) :
    statement.text = statement.layout ++ statement.print := by
  simp [text, lead, print]

/-- Replaces the groups of a statement, numbering them from `start`. -/
def extract (kind : GroupKind) (start : Nat) (statement : Statement) : Statement :=
  { statement with content := (statement.content.extract kind start).1 }

/-- The bodies of the groups of a statement. -/
def bodies (kind : GroupKind) (start : Nat) (statement : Statement) : List Content :=
  (statement.content.extract kind start).2

/-- A statement that is read as its rule. -/
structure Readable (statement : Statement) : Prop where
  layout : statement.layout = [] ∨ statement.layout = ['\n']
  valid : statement.symbol.Valid
  wellFormed : statement.content.WellFormed
  flush : statement.content.Flush
  nonempty : statement.content ≠ .nil ∨ statement.omittable = false ∧
    statement.symbol.isSynthetic = true

/-- A statement that has nothing to do with the groups of a kind but holding some. -/
structure Clear (kind : GroupKind) (statement : Statement) : Prop where
  symbol_ne : ∀ n, statement.symbol ≠ kind.symbol n
  content : statement.content.Clear kind

end Statement

/-! ## Lines -/

/-- A source, statement by statement; `none` is a blank one. -/
abbrev Lines := List (Option Statement)

namespace Lines

/-- The written form of a line. -/
def lineText : Option Statement → Text
  | none => []
  | some statement => statement.text

/-- The source that consists of some lines. -/
def join (lines : Lines) : Text :=
  [';'].intercalate (lines.map lineText)

/-- The statements among some lines. -/
def statements (lines : Lines) : List Statement :=
  lines.filterMap id

/-- The rules of some lines. -/
def rules (lines : Lines) : List Rule :=
  lines.statements.map Statement.rule

/-- Replaces the groups of a kind in some lines, numbering them from `start`. -/
def extract (kind : GroupKind) (start : Nat) : Lines → Lines × List Content
  | [] => ([], [])
  | none :: rest =>
    let after := extract kind start rest
    (none :: after.1, after.2)
  | some statement :: rest =>
    let inner := statement.bodies kind start
    let after := extract kind (start + inner.length) rest
    (some (statement.extract kind start) :: after.1, inner ++ after.2)

/-- The lines with the groups of a kind replaced, and the statements of the groups behind them. -/
def pass (kind : GroupKind) (lines : Lines) : Lines :=
  (extract kind 0 lines).1 ++ (kind.mint 0 (extract kind 0 lines).2).map some

theorem mem_statements {lines : Lines} {statement : Statement} :
    statement ∈ lines.statements ↔ some statement ∈ lines := by
  simp [statements]

theorem statements_append (lines lines' : Lines) :
    (lines ++ lines').statements = lines.statements ++ lines'.statements :=
  List.filterMap_append

theorem statements_map_some (statements : List Statement) :
    Lines.statements (statements.map some) = statements := by
  simp [Lines.statements]

end Lines

/-! ## Desugaring the written form -/

namespace Content

/-- Which characters a written content may hold. -/
theorem isInert_or_delimiter_of_mem_print {content : Content} (h : content.WellFormed) {c : Char}
    (hc : c ∈ content.print) : isInert c = true ∨ c ∈ ['|', '(', ')', '[', ']'] := by
  have hdelimiter : ∀ kind : GroupKind, kind.opening ∈ ['|', '(', ')', '[', ']'] ∧
      kind.closing ∈ ['|', '(', ')', '[', ']'] := by
    intro kind
    cases kind <;> decide
  induction content with
  | nil => simp [print] at hc
  | bar rest ih =>
    rcases List.mem_cons.1 hc with rfl | hc
    · exact Or.inr List.mem_cons_self
    · exact ih h hc
  | char d rest ih =>
    rcases List.mem_cons.1 hc with rfl | hc
    · exact Or.inl (isInert_of_isOrdinary h.1)
    · exact ih h.2 hc
  | ref symbol braced rest ih =>
    rcases List.mem_append.1 hc with hc | hc
    · exact Or.inl (isInert_of_mem_writeReference h.1 hc)
    · exact ih h.2.2 hc
  | group kind body rest ihbody ihrest =>
    simp only [print, List.mem_cons, List.mem_append] at hc
    rcases hc with rfl | hc | rfl | hc
    · exact Or.inr (hdelimiter kind).1
    · exact ihbody h.2.1 hc
    · exact Or.inr (hdelimiter kind).2
    · exact ihrest h.2.2 hc

theorem not_mem_print {content : Content} (h : content.WellFormed) {c : Char}
    (hinert : isInert c = false) (hdelimiter : c ∉ ['|', '(', ')', '[', ']']) :
    c ∉ content.print := by
  intro hc
  rcases isInert_or_delimiter_of_mem_print h hc with hmem | hmem
  · rw [hinert] at hmem
    exact Bool.noConfusion hmem
  · exact hdelimiter hmem

end Content

namespace Statement

variable {statement : Statement}

/-- Which characters may stand in front of a content. -/
theorem Readable.mem_lead (h : statement.Readable) {c : Char} (hc : c ∈ statement.lead) :
    isInert c = true ∨ c = '\n' ∨ c = '|' := by
  simp only [lead, List.mem_append] at hc
  rcases hc with ((hc | hc) | hc) | hc
  · rcases h.layout with hlayout | hlayout
    · simp [hlayout] at hc
    · rw [hlayout] at hc
      exact Or.inr (Or.inl (List.mem_singleton.1 hc))
  · exact Or.inl (isInert_of_mem_name h.valid hc)
  · have hinert : [' ', '=', ' '].all isInert = true := by decide
    exact Or.inl (List.all_eq_true.1 hinert c hc)
  · split at hc
    · simp only [List.mem_cons, List.not_mem_nil, or_false] at hc
      rcases hc with rfl | rfl
      · exact Or.inr (Or.inr rfl)
      · exact Or.inl (by decide)
    · simp at hc

theorem Readable.not_mem_text (h : statement.Readable) : ';' ∉ statement.text := by
  intro hc
  rcases List.mem_append.1 hc with hc | hc
  · have hmem := h.mem_lead hc
    revert hmem
    decide
  · exact Content.not_mem_print h.wellFormed (by decide) (by decide) hc

/-- A statement begins with `$`, once its layout is trimmed. -/
theorem Readable.exists_trimStart (h : statement.Readable) :
    ∃ tail, statement.text.trimStart = '$' :: tail := by
  obtain ⟨c, identifier, hsymbol, -⟩ := h.valid.exists_identifier
  have hname : statement.symbol.name = '$' :: c :: identifier := by
    rw [hsymbol]
    rfl
  have hsigil : Unicode.isWhitespace '$' = false := by decide
  have hbreak : Unicode.isWhitespace '\n' = true := by decide
  rcases h.layout with hlayout | hlayout
  · simp [text, lead, hlayout, hname, Text.trimStart, hsigil]
  · simp [text, lead, hlayout, hname, Text.trimStart, hsigil, hbreak]

theorem Readable.not_comment (h : statement.Readable) : isComment statement.text = false := by
  obtain ⟨tail, htail⟩ := h.exists_trimStart
  simp [isComment, htail]

/-- The groups of a statement are those of its content. -/
theorem Readable.ofText (h : statement.Readable) (kind : GroupKind) :
    Forest.ofText kind statement.text =
      Forest.prepend statement.lead (statement.content.forest kind) := by
  have hlead : ∀ c ∈ statement.lead, c ≠ kind.opening ∧ c ≠ kind.closing := by
    intro c hc
    rcases h.mem_lead hc with hinert | rfl | rfl
    · exact ⟨GroupKind.ne_opening_of_isInert hinert kind,
        GroupKind.ne_closing_of_isInert hinert kind⟩
    · cases kind <;> decide
    · cases kind <;> decide
  have hclean : (Forest.prepend statement.lead (statement.content.forest kind)).Clean kind :=
    (Content.clean_forest kind h.wellFormed).prepend hlead
  have htext : (Forest.prepend statement.lead (statement.content.forest kind)).toText kind =
      statement.text := by
    rw [Forest.toText_prepend, Content.toText_forest, text]
  rw [← htext]
  exact Forest.ofText_toText hclean

end Statement

namespace Lines

open TextGrammar.Group

variable {kind : GroupKind} {lines : Lines}

/-- Replacing the groups in the written lines is replacing them in the lines. -/
theorem replaceAll_lineText (h : ∀ s ∈ lines.statements, s.Readable ∧ s.content.Clear kind)
    (start : Nat) :
    replaceAll kind start (lines.map lineText) =
      ((lines.extract kind start).1.map lineText,
        (kind.mint start (lines.extract kind start).2).map Statement.print) := by
  induction lines generalizing start with
  | nil => rfl
  | cons line rest ih =>
    cases line with
    | none =>
      have hrest : ∀ s ∈ Lines.statements rest, s.Readable ∧ s.content.Clear kind := h
      have hblank : isComment [] = false := rfl
      simp only [List.map_cons, lineText, replaceAll, hblank]
      rw [ih hrest]
      rfl
    | some statement =>
      obtain ⟨hreadable, hclear⟩ := h statement List.mem_cons_self
      have hrest : ∀ s ∈ Lines.statements rest, s.Readable ∧ s.content.Clear kind :=
        fun s hs => h s (List.mem_cons_of_mem _ hs)
      simp only [List.map_cons, lineText, replaceAll, hreadable.not_comment,
        Bool.false_eq_true, if_false, hreadable.ofText, replace_prepend,
        Content.replace_forest hclear hreadable.wellFormed, List.length_map,
        Content.length_mint, ih hrest, extract, GroupKind.mint_append, List.map_append]
      rfl

theorem extract_ne_nil (hne : lines ≠ []) (start : Nat) : (lines.extract kind start).1 ≠ [] := by
  cases lines with
  | nil => exact absurd rfl hne
  | cons line rest => cases line <;> exact List.cons_ne_nil _ _

theorem split_join (hne : lines ≠ []) (h : ∀ s ∈ lines.statements, s.Readable) :
    List.splitOn ';' lines.join = lines.map lineText := by
  refine List.splitOn_intercalate ';' ?_ (by simpa using hne)
  intro piece hpiece
  obtain ⟨line, hline, rfl⟩ := List.mem_map.1 hpiece
  cases line with
  | none => exact List.not_mem_nil
  | some statement => exact (h statement (mem_statements.2 hline)).not_mem_text

/-- Desugaring the written form of some lines is a pass over the lines. -/
theorem desugarKind_join (hne : lines ≠ [])
    (h : ∀ s ∈ lines.statements, s.Readable ∧ s.content.Clear kind) :
    desugarKind kind lines.join = (lines.pass kind).join := by
  have hminted : ∀ start (bodies : List Content),
      ((kind.mint start bodies).map Statement.print).map ('\n' :: ·) =
        ((kind.mint start bodies).map some).map lineText := by
    intro start bodies
    rw [List.map_map, List.map_map]
    refine List.map_congr_left ?_
    intro statement hmem
    obtain ⟨n, body, -, -, rfl⟩ := GroupKind.exists_of_mem_mint hmem
    simp only [Function.comp_apply, lineText, Statement.text_eq_layout_append_print]
    cases kind <;> rfl
  have hpieces : (lines.extract kind 0).1.map lineText ≠ [] := by
    simpa using extract_ne_nil hne 0
  have hjoin := Text.intercalate_append_flatMap [';'] hpieces ('\n' :: ·)
    ((kind.mint 0 (lines.extract kind 0).2).map Statement.print)
  rw [desugarKind, split_join hne fun s hs => (h s hs).1, replaceAll_lineText h]
  rw [hminted, ← List.map_append] at hjoin
  exact hjoin

/-! ## What a pass does to the statements -/

theorem statements_pass (lines : Lines) :
    (lines.pass kind).statements =
      (lines.extract kind 0).1.statements ++ kind.mint 0 (lines.extract kind 0).2 := by
  rw [pass, statements_append, statements_map_some]

/-- The statements are replaced one by one, and those of their groups are all minted. -/
theorem forall₂_extract (kind : GroupKind) (start : Nat) (lines : Lines) :
    List.Forall₂
      (fun s s' => ∃ n, s' = s.extract kind n ∧
        kind.mint n (s.bodies kind n) ⊆ kind.mint start (lines.extract kind start).2)
      lines.statements (lines.extract kind start).1.statements := by
  induction lines generalizing start with
  | nil => exact List.Forall₂.nil
  | cons line rest ih =>
    cases line with
    | none => exact ih start
    | some statement =>
      simp only [extract, GroupKind.mint_append]
      refine List.Forall₂.cons ⟨start, rfl, List.subset_append_left _ _⟩ ?_
      refine (ih (start + (statement.bodies kind start).length)).imp ?_
      rintro s s' ⟨n, hs', hsubset⟩
      exact ⟨n, hs', List.Subset.trans hsubset (List.subset_append_right _ _)⟩

theorem symbols_extract (kind : GroupKind) (start : Nat) (lines : Lines) :
    (lines.extract kind start).1.statements.map Statement.symbol =
      lines.statements.map Statement.symbol := by
  induction lines generalizing start with
  | nil => rfl
  | cons line rest ih =>
    cases line with
    | none => exact ih start
    | some statement => exact congrArg (statement.symbol :: ·) (ih _)

theorem exists_of_mem_bodies {start : Nat} {body : Content}
    (h : body ∈ (lines.extract kind start).2) :
    ∃ s ∈ lines.statements, ∃ n, body ∈ s.bodies kind n := by
  induction lines generalizing start with
  | nil => simp [extract] at h
  | cons line rest ih =>
    cases line with
    | none => exact ih h
    | some statement =>
      rcases List.mem_append.1 h with h | h
      · exact ⟨statement, List.mem_cons_self, start, h⟩
      · obtain ⟨s, hs, hn⟩ := ih h
        exact ⟨s, List.mem_cons_of_mem _ hs, hn⟩

/-- A statement after a pass is one from before with its groups replaced, or that of a group. -/
theorem cases_of_mem_pass {s' : Statement} (h : s' ∈ (lines.pass kind).statements) :
    (∃ s ∈ lines.statements, ∃ n, s' = s.extract kind n) ∨
      ∃ s ∈ lines.statements, ∃ n, ∃ body ∈ s.bodies kind n, ∃ m, s' = kind.statement m body := by
  rw [statements_pass, List.mem_append] at h
  rcases h with h | h
  · obtain ⟨s, hs, n, hs', -⟩ := Content.exists_of_forall₂_right (forall₂_extract kind 0 lines) h
    exact Or.inl ⟨s, hs, n, hs'⟩
  · obtain ⟨m, body, -, hbody, hs'⟩ := GroupKind.exists_of_mem_mint h
    obtain ⟨s, hs, n, hmem⟩ := exists_of_mem_bodies hbody
    exact Or.inr ⟨s, hs, n, body, hmem, m, hs'⟩

/-- Lines that are read as their rules, one for each symbol. -/
structure Readable (lines : Lines) : Prop where
  readable : ∀ s ∈ lines.statements, s.Readable
  distinct : (lines.statements.map Statement.symbol).Nodup

/-- Lines that have nothing to do with the groups of a kind but holding some. -/
def Clear (kind : GroupKind) (lines : Lines) : Prop :=
  ∀ s ∈ lines.statements, s.Clear kind

/-- Lines without groups of a kind. -/
def Free (kind : GroupKind) (lines : Lines) : Prop :=
  ∀ s ∈ lines.statements, s.content.Free kind

theorem extract_content_ne_nil {content : Content} (h : content ≠ .nil) (start : Nat) :
    (content.extract kind start).1 ≠ .nil := by
  cases content with
  | nil => exact absurd rfl h
  | group kind' body rest =>
    rw [Content.extract]
    split <;> exact Content.noConfusion
  | _ => exact Content.noConfusion

/-- Lines stay readable under a pass. -/
theorem Readable.pass (h : lines.Readable) (hclear : lines.Clear kind) :
    (lines.pass kind).Readable := by
  constructor
  · intro s' hs'
    rcases cases_of_mem_pass hs' with ⟨s, hs, n, rfl⟩ | ⟨s, hs, n, body, hbody, m, rfl⟩
    · obtain ⟨hlayout, hvalid, hwf, hflush, hnonempty⟩ := h.readable s hs
      have hcontent := (hclear s hs).content
      exact ⟨hlayout, hvalid, (Content.wellFormed_extract hcontent hwf n).1,
        Content.flush_extract hcontent hflush n,
        hnonempty.imp_left fun hne => extract_content_ne_nil hne n⟩
    · obtain ⟨hwf, hflush⟩ :=
        (Content.wellFormed_extract (hclear s hs).content
          (h.readable s hs).wellFormed n).2 body hbody
      cases kind with
      | optional =>
        refine ⟨Or.inr rfl, GroupKind.symbol_valid _ m, ⟨hflush, hwf, trivial⟩, ?_,
          Or.inl Content.noConfusion⟩
        intro a ha
        obtain rfl : a = .group .plain body .nil := List.mem_singleton.1 ha
        exact ⟨rfl, rfl⟩
      | plain =>
        exact ⟨Or.inr rfl, GroupKind.symbol_valid _ m, hwf, hflush,
          Or.inr ⟨rfl, GroupKind.symbol_isSynthetic _ m⟩⟩
  · rw [statements_pass, List.map_append, symbols_extract]
    refine List.nodup_append.2 ⟨h.distinct, GroupKind.nodup_mint kind 0 _, ?_⟩
    intro symbol hsymbol symbol' hsymbol' heq
    obtain ⟨s, hs, rfl⟩ := List.mem_map.1 hsymbol
    obtain ⟨s', hs', rfl⟩ := List.mem_map.1 hsymbol'
    obtain ⟨n, body, -, -, rfl⟩ := GroupKind.exists_of_mem_mint hs'
    rw [GroupKind.statement_symbol] at heq
    exact (hclear s hs).symbol_ne n heq

/-- A pass over one kind of groups brings no names of the other kind. -/
theorem Clear.pass {kind' : GroupKind} (hkind : kind ≠ kind') (h : lines.Clear kind') :
    (lines.pass kind).Clear kind' := by
  have hreferences : ∀ s ∈ lines.statements, ∀ n, ∀ symbol,
      (symbol ∈ (s.content.extract kind n).1.references ∨
        ∃ body ∈ (s.content.extract kind n).2, symbol ∈ body.references) →
      ∀ m, symbol ≠ kind'.symbol m := by
    intro s hs n symbol hmem
    rcases Content.mem_references_extract hmem with hold | ⟨k, rfl⟩
    · exact (h s hs).content symbol hold
    · exact GroupKind.symbol_ne_symbol hkind k
  intro s' hs'
  rcases cases_of_mem_pass hs' with ⟨s, hs, n, rfl⟩ | ⟨s, hs, n, body, hbody, m, rfl⟩
  · exact ⟨(h s hs).symbol_ne, fun symbol hmem => hreferences s hs n symbol (Or.inl hmem)⟩
  · refine ⟨?_, ?_⟩
    · rw [GroupKind.statement_symbol]
      exact GroupKind.symbol_ne_symbol hkind m
    · intro symbol hmem
      have hbodies : symbol ∈ body.references := by
        cases kind with
        | optional => simpa [GroupKind.statement, Content.references] using hmem
        | plain => exact hmem
      exact hreferences s hs n symbol (Or.inr ⟨body, hbody, hbodies⟩)

/-- A pass removes its kind of groups. -/
theorem free_pass_self (lines : Lines) : (lines.pass kind).Free kind := by
  intro s' hs'
  rcases cases_of_mem_pass hs' with ⟨s, hs, n, rfl⟩ | ⟨s, hs, n, body, hbody, m, rfl⟩
  · exact (Content.free_extract (Or.inl rfl) n).1
  · have hfree : body.Free kind := (Content.free_extract (Or.inl rfl) n).2 body hbody
    cases kind with
    | optional => exact ⟨GroupKind.noConfusion, hfree, trivial⟩
    | plain => exact hfree

/-- A pass over plain groups brings no optional ones. -/
theorem Free.pass_plain {kind : GroupKind} (h : lines.Free kind) :
    (lines.pass .plain).Free kind := by
  intro s' hs'
  rcases cases_of_mem_pass hs' with ⟨s, hs, n, rfl⟩ | ⟨s, hs, n, body, hbody, m, rfl⟩
  · exact (Content.free_extract (Or.inr (h s hs)) n).1
  · exact (Content.free_extract (Or.inr (h s hs)) n).2 body hbody

/-! ## What a pass does to the rules -/

theorem extracted_rule {rules : List Rule} {s : Statement} {n : Nat}
    (hclear : s.content.Clear kind)
    (hrules : (kind.mint n (s.bodies kind n)).map Statement.rule ⊆ rules) :
    Content.Extracted kind rules s.rule.content (s.extract kind n).rule.content := by
  have hcontent := Content.extracted_extract hclear hrules
  cases homittable : s.omittable with
  | true =>
    simp only [Statement.rule, Statement.extract, homittable, if_true]
    exact .bar hcontent
  | false =>
    simp only [Statement.rule, Statement.extract, homittable, Bool.false_eq_true, if_false]
    exact hcontent

/-- Every statement is still there after a pass, with its groups replaced. -/
theorem exists_mem_pass (hclear : lines.Clear kind) {s : Statement} (hs : s ∈ lines.statements) :
    ∃ s' ∈ (lines.pass kind).statements, s'.symbol = s.symbol ∧
      Content.Extracted kind (lines.pass kind).rules s.rule.content s'.rule.content := by
  obtain ⟨_, hs', n, rfl, hminted⟩ :=
    Content.exists_of_forall₂_left (forall₂_extract kind 0 lines) hs
  refine ⟨s.extract kind n, ?_, rfl, extracted_rule (hclear s hs).content ?_⟩
  · rw [statements_pass]
    exact List.mem_append_left _ hs'
  · rw [rules, statements_pass]
    exact List.map_subset _ (List.Subset.trans hminted (List.subset_append_right _ _))

/-- A pass moves the groups of its kind into rules of their own. -/
theorem replaces_pass (h : lines.Readable) (hclear : lines.Clear kind) :
    Content.Replaces kind lines.rules (lines.pass kind).rules := by
  constructor
  · intro rule hrule rule' hrule' heq
    obtain ⟨s, hs, rfl⟩ := List.mem_map.1 hrule
    obtain ⟨s', hs', rfl⟩ := List.mem_map.1 hrule'
    rw [List.inj_on_of_nodup_map (h.pass hclear).distinct hs hs' heq]
  · intro rule hrule
    obtain ⟨s, hs, rfl⟩ := List.mem_map.1 hrule
    obtain ⟨s', hs', hsymbol, hextracted⟩ := exists_mem_pass hclear hs
    exact ⟨s'.rule, List.mem_map_of_mem hs', hsymbol, hextracted⟩
  · intro rule' hrule' hne
    obtain ⟨s', hs', rfl⟩ := List.mem_map.1 hrule'
    rw [statements_pass, List.mem_append] at hs'
    rcases hs' with hs' | hs'
    · obtain ⟨s, hs, n, rfl, hminted⟩ :=
        Content.exists_of_forall₂_right (forall₂_extract kind 0 lines) hs'
      refine ⟨s.rule, List.mem_map_of_mem hs, rfl, extracted_rule (hclear s hs).content ?_⟩
      rw [rules, statements_pass]
      exact List.map_subset _ (List.Subset.trans hminted (List.subset_append_right _ _))
    · obtain ⟨n, body, -, -, rfl⟩ := GroupKind.exists_of_mem_mint hs'
      exact absurd (GroupKind.statement_symbol kind n body) (hne n)

end Lines

end TextGrammar
