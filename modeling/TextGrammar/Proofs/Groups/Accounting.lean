import Mathlib.Algebra.GroupWithZero.Nat
import Mathlib.Data.List.Perm.Basic
import TextGrammar.Proofs.Agreement
import TextGrammar.Proofs.Mentions

/-!
# Accounting for the symbols of groups

A pass over a source moves what it mentions from one statement to another, and adds the symbol of
each group twice: where the group stood, and in front of its production. So what a table refers to
can be counted in the source it was desugared from.

* `Group.mentions_replace_perm` is the account of one statement, by induction on its groups.
  `Group.mentionsAll_desugarKind_perm` is that of a whole pass.
* `Table.mentionsAll_of_parse`: a table defines and refers to exactly what its source mentions.
* `Table.symbols_of_parse_desugar`: the symbols of the groups are the last ones of the table, and
  those in front of them are the author's.
* `minted_names_counted` puts these together.
-/

namespace TextGrammar

/-- The symbols that are mentioned in some statements, comments apart. -/
def mentionsAll (statements : List Text) : List Symbol :=
  statements.flatMap fun s => if isComment s then [] else mentions s

theorem mentionsAll_append (statements others : List Text) :
    mentionsAll (statements ++ others) = mentionsAll statements ++ mentionsAll others :=
  List.flatMap_append

/-- All references in a table, in the order of its rows. -/
def Table.references (table : Table) : List Symbol :=
  table.rows.flatMap fun row => row.2.alternatives.flatMap Alternative.references

/-- The symbols of some groups of a kind, numbered from `start`. -/
def GroupKind.symbols (kind : GroupKind) (start count : Nat) : List Symbol :=
  (List.range' start count).map kind.symbol

/-- The number of groups of a kind in a source. -/
def Group.closed (kind : GroupKind) (source : Text) : Nat :=
  ((source.splitOn ';').map fun s =>
    if isComment s then 0 else (Forest.ofText kind s).bodies.length).sum

/-- The names that desugaring gives to the groups of a source, in the order of their productions. -/
def mintedSymbols (source : Text) : List Symbol :=
  GroupKind.optional.symbols 0 (Group.closed .optional source) ++
    GroupKind.plain.symbols 0 (Group.closed .plain (Group.desugarKind .optional source))

namespace GroupKind

theorem symbols_append (kind : GroupKind) (start m n : Nat) :
    kind.symbols start m ++ kind.symbols (start + m) n = kind.symbols start (m + n) := by
  rw [symbols, symbols, symbols, ← List.map_append, List.range'_append_1]

theorem mem_symbols {kind : GroupKind} {start count : Nat} {symbol : Symbol} :
    symbol ∈ kind.symbols start count ↔
      ∃ n, start ≤ n ∧ n < start + count ∧ symbol = kind.symbol n := by
  simp only [symbols, List.mem_map, List.mem_range'_1, and_assoc, eq_comm]

end GroupKind

/-! ## One statement -/

namespace Group

variable {kind : GroupKind}

/-- Where groups are replaced, every symbol that was mentioned still is, in the text that is left or
in a recorded body, and so is the symbol of each group, once. -/
theorem mentions_replace_perm (kind : GroupKind) (start : Nat) (forest : Forest) :
    (mentions (replace kind start forest).1 ++
      (inners kind start forest).flatMap mentions).Perm
        (mentions (forest.toText kind) ++ kind.symbols start forest.bodies.length) := by
  induction forest generalizing start with
  | nil => exact List.Perm.refl _
  | char c rest ih =>
    have hstep : (replace kind start (.char c rest)).1 = c :: (replace kind start rest).1 := rfl
    rw [hstep, Forest.toText, mentions, mentions, named?_congr (nameRun_replace kind start rest),
      List.append_assoc, List.append_assoc]
    exact (ih start).append_left _
  | group body rest ihbody ihrest =>
    have hstep : (replace kind start (.group body rest)).1 =
        reference (kind.symbol (start + body.bodies.length)) (replace kind start body).1
          rest.beginsGlued ++ (replace kind (start + body.bodies.length + 1) rest).1 := by
      simp only [replace, length_replace_snd]
    have hglued : rest.beginsGlued = false →
        beginsIdentifier (replace kind (start + body.bodies.length + 1) rest).1 = false := by
      rw [beginsIdentifier_replace]
      exact id
    have hsymbols : kind.symbols start (Forest.group body rest).bodies.length =
        kind.symbols start body.bodies.length ++ kind.symbol (start + body.bodies.length) ::
          kind.symbols (start + body.bodies.length + 1) rest.bodies.length := by
      rw [Forest.bodies, List.length_append, List.length_cons, ← GroupKind.symbols_append]
      rfl
    rw [hstep, mentions_reference_append (kind.symbol_valid _) _ hglued, mentions_group, hsymbols,
      inners, length_inners]
    apply List.perm_iff_count.2
    intro symbol
    have hbody := List.perm_iff_count.1 (ihbody start) symbol
    have hrest := List.perm_iff_count.1 (ihrest (start + body.bodies.length + 1)) symbol
    simp only [List.flatMap_append, List.flatMap_cons, List.count_append, List.count_cons]
      at hbody hrest ⊢
    omega

/-- A production mentions its symbol and what its body does. -/
theorem mentions_production (kind : GroupKind) (n : Nat) (body : Text) :
    mentions (production kind (kind.symbol n) body) = kind.symbol n :: mentions body := by
  have hvalid := kind.symbol_valid n
  have hspace : isIdentifierChar ' ' = false := isIdentifierChar_of_mem_signs (by decide)
  have hname : ∀ rest : Text, mentions ((kind.symbol n).name ++ ' ' :: rest) =
      kind.symbol n :: mentions (' ' :: rest) := by
    intro rest
    refine @mentions_writeReference_append _ hvalid false _ fun _ => ?_
    simp [beginsIdentifier, hspace]
  cases kind with
  | optional =>
    have hform : production .optional (GroupKind.optional.symbol n) body =
        (GroupKind.optional.symbol n).name ++
          ' ' :: (['=', ' ', '|', ' ', '('] ++ (body ++ [')'])) := by
      simp [production]
    have hclosing : isReferenceChar ')' = false := isReferenceChar_closing .plain
    rw [hform, hname, mentions_cons_of_ne _ (by decide), mentions_append_of_not_mem (by decide),
      mentions_append_cons _ _ hclosing, mentions_cons_of_ne _ (by decide), mentions,
      List.append_nil]
  | plain =>
    have hform : production .plain (GroupKind.plain.symbol n) body =
        (GroupKind.plain.symbol n).name ++ ' ' :: (['=', ' '] ++ body) := by
      simp [production]
    rw [hform, hname, mentions_cons_of_ne _ (by decide), mentions_append_of_not_mem (by decide)]

/-! ## One pass -/

theorem length_innersAll (kind : GroupKind) (start : Nat) (source : Text) :
    (innersAll kind start (source.splitOn ';')).length = closed kind source := by
  rw [closed]
  generalize source.splitOn ';' = statements
  induction statements generalizing start with
  | nil => rfl
  | cons statement rest ih =>
    rw [innersAll, List.length_append, ih, List.map_cons, List.sum_cons]
    cases hcomment : isComment statement with
    | true => rfl
    | false => rw [if_neg Bool.false_ne_true, if_neg Bool.false_ne_true, length_inners]

/-- The account of one statement, for a list of statements. -/
theorem mentionsAll_replaceAll_perm (kind : GroupKind) (start : Nat) (statements : List Text) :
    (mentionsAll (replaceAll kind start statements).1 ++
      (innersAll kind start statements).flatMap mentions).Perm
        (mentionsAll statements ++
          kind.symbols start (innersAll kind start statements).length) := by
  induction statements generalizing start with
  | nil => exact List.Perm.refl _
  | cons statement rest ih =>
    rw [replaceAll_cons, innersAll]
    cases hcomment : isComment statement with
    | true =>
      simpa [mentionsAll, hcomment] using ih start
    | false =>
      have hreplaced : isComment (replace kind start (Forest.ofText kind statement)).1 = false := by
        rw [isComment_replace, Forest.toText_ofText, hcomment]
      have hhere := mentions_replace_perm kind start (Forest.ofText kind statement)
      rw [Forest.toText_ofText] at hhere
      simp only [Bool.false_eq_true, if_false, length_replace_snd, length_inners,
        List.length_append, ← GroupKind.symbols_append]
      apply List.perm_iff_count.2
      intro symbol
      have hhere := List.perm_iff_count.1 hhere symbol
      have hrest := List.perm_iff_count.1
        (ih (start + (Forest.ofText kind statement).bodies.length)) symbol
      simp only [mentionsAll, List.flatMap_append, List.flatMap_cons, hreplaced, hcomment,
        Bool.false_eq_true, if_false, List.count_append] at hhere hrest ⊢
      omega

theorem mentionsAll_mint_perm (kind : GroupKind) (start : Nat) (bodies : List Text) :
    (mentionsAll ((mint kind start bodies).map ('\n' :: ·))).Perm
      (kind.symbols start bodies.length ++ bodies.flatMap mentions) := by
  induction bodies generalizing start with
  | nil => exact List.Perm.refl _
  | cons body bodies ih =>
    have hsymbols : kind.symbols start (body :: bodies).length =
        kind.symbol start :: kind.symbols (start + 1) bodies.length := rfl
    have hmention : mentionsAll ((mint kind start (body :: bodies)).map ('\n' :: ·)) =
        kind.symbol start :: (mentions body ++
          mentionsAll ((mint kind (start + 1) bodies).map ('\n' :: ·))) := by
      rw [mint_cons, List.map_cons, mentionsAll, List.flatMap_cons, isComment_production,
        if_neg Bool.false_ne_true, mentions_cons_of_ne _ (by decide), mentions_production]
      rfl
    rw [hmention, hsymbols, List.flatMap_cons, List.cons_append]
    apply List.Perm.cons
    have hrest := (ih (start + 1)).append_left (mentions body)
    refine hrest.trans ?_
    rw [← List.append_assoc, ← List.append_assoc]
    exact List.perm_append_comm.append_right _

/-- The statements that a pass adds at the end of a source. -/
def appended (kind : GroupKind) (source : Text) : List Text :=
  (mint kind 0 (innersAll kind 0 (source.splitOn ';'))).map ('\n' :: ·)

theorem split_desugarKind_appended (kind : GroupKind) (source : Text) :
    (desugarKind kind source).splitOn ';' =
      (replaceAll kind 0 (source.splitOn ';')).1 ++ appended kind source := by
  rw [split_desugarKind, replaceAll_snd, appended]

/-- A pass adds the symbol of each group twice: once for the group, once for its production. -/
theorem mentionsAll_desugarKind_perm (kind : GroupKind) (source : Text) :
    (mentionsAll ((desugarKind kind source).splitOn ';')).Perm
      (mentionsAll (source.splitOn ';') ++
        (kind.symbols 0 (closed kind source) ++ kind.symbols 0 (closed kind source))) := by
  have hleft := mentionsAll_replaceAll_perm kind 0 (source.splitOn ';')
  have hadded := mentionsAll_mint_perm kind 0 (innersAll kind 0 (source.splitOn ';'))
  rw [length_innersAll] at hleft hadded
  rw [split_desugarKind_appended, mentionsAll_append, appended]
  apply List.perm_iff_count.2
  intro symbol
  have hleft := List.perm_iff_count.1 hleft symbol
  have hadded := List.perm_iff_count.1 hadded symbol
  simp only [List.count_append] at hleft hadded ⊢
  omega

end Group

/-- Both passes together add the name of each group twice. -/
theorem mentionsAll_desugar_perm (source : Text) :
    (mentionsAll ((desugar source).splitOn ';')).Perm
      (mentionsAll (source.splitOn ';') ++ (mintedSymbols source ++ mintedSymbols source)) := by
  have hoptional := Group.mentionsAll_desugarKind_perm .optional source
  have hplain := Group.mentionsAll_desugarKind_perm .plain (Group.desugarKind .optional source)
  apply List.perm_iff_count.2
  intro symbol
  have hoptional := List.perm_iff_count.1 hoptional symbol
  have hplain := List.perm_iff_count.1 hplain symbol
  simp only [desugar, mintedSymbols, List.count_append] at hoptional hplain ⊢
  omega

/-! ## The table -/

namespace Table

/-- A statement mentions the symbol it defines, and then what its content does. -/
theorem mentions_of_definition? {statement : Text} {entry : Entry} (hvalid : entry.1.Valid)
    (h : definition? statement = some entry.definition) :
    mentions statement = entry.1 :: mentions entry.2 := by
  obtain ⟨-, ⟨before, after, -, rfl, hread⟩ | ⟨-, hread⟩⟩ := cases_of_definition? h
  · obtain ⟨hname, hcontent⟩ := Definition.mk.inj hread
    have hequals : isReferenceChar '=' = false :=
      isReferenceChar_of_mem_signs (by decide) (by decide) (by decide)
    rw [mentions_append_cons _ _ hequals, mentions_cons_of_ne _ (by decide),
      ← mentions_flatten before, ← mentions_flatten after, ← hname, ← hcontent,
      mentions_name hvalid]
    rfl
  · obtain ⟨hname, hcontent⟩ := Definition.mk.inj hread
    rw [← mentions_flatten statement, ← hname, hcontent, mentions_name hvalid]
    rfl

/-- A statement that defines nothing mentions nothing, unless it is a comment. -/
theorem mentions_of_definition?_eq_none {statement : Text} (h : definition? statement = none)
    (hcomment : isComment statement = false) : mentions statement = [] := by
  have hhead : (flatten statement).head? ≠ some '#' := by
    rw [ne_eq, head?_flatten_eq_iff, hcomment]
    exact Bool.false_ne_true
  have hempty : flatten statement = [] := by
    by_contra hne
    rw [definition?] at h
    simp [hne, hhead] at h
  rw [← mentions_flatten, hempty, mentions]

theorem mentionsAll_of_entries {statements : List Text} {entries : List Entry}
    (h : statements.filterMap definition? = entries.map Entry.definition)
    (hvalid : ∀ entry ∈ entries, entry.1.Valid) :
    mentionsAll statements = entries.flatMap fun entry => entry.1 :: mentions entry.2 := by
  induction statements generalizing entries with
  | nil =>
    rw [List.map_eq_nil_iff.1 h.symm]
    rfl
  | cons statement rest ih =>
    rw [mentionsAll, List.flatMap_cons]
    cases hread : definition? statement with
    | none =>
      rw [List.filterMap_cons_none hread] at h
      have hnothing : (if isComment statement then [] else mentions statement) = [] := by
        cases hcomment : isComment statement with
        | true => rfl
        | false => exact mentions_of_definition?_eq_none hread hcomment
      rw [hnothing]
      exact ih h hvalid
    | some definition =>
      rw [List.filterMap_cons_some hread, eq_comm, List.map_eq_cons_iff] at h
      obtain ⟨entry, entries, rfl, rfl, hrest⟩ := h
      obtain ⟨hentry, hentries⟩ := List.forall_mem_cons.1 hvalid
      rw [(exists_of_definition? hread).1, if_neg Bool.false_ne_true,
        mentions_of_definition? hentry hread, List.flatMap_cons]
      exact congrArg _ (ih hrest.symm hentries)

/-- A table defines and refers to what its source mentions. -/
theorem mentionsAll_of_parse {source : Text} {table : Table} (h : Table.parse source = .ok table) :
    (table.symbols ++ table.references).Perm (mentionsAll (source.splitOn ';')) := by
  obtain ⟨entries, hdefinitions, hsound, hrows⟩ := exists_entries_of_parse h
  rw [definitions_eq_filterMap] at hdefinitions
  have hsymbols : table.symbols = entries.map Prod.fst := by
    rw [symbols, hrows, List.map_map]
    rfl
  have hreferences : table.references = entries.flatMap fun entry => mentions entry.2 := by
    rw [references, hrows, List.flatMap_map]
    simp only [Entry.row, flatMap_references_parse]
  rw [mentionsAll_of_entries hdefinitions fun entry hentry => (hsound entry hentry).valid,
    hsymbols, hreferences]
  exact List.map_append_flatMap_perm entries Prod.fst fun entry => mentions entry.2

/-! ## Names that stay -/

/-- Whether a statement defines a symbol. -/
def Defines (statement : Text) (symbol : Symbol) : Prop :=
  symbol.Valid ∧ ∃ content, definition? statement = some ⟨symbol.name, content⟩

theorem not_mem_of_flatten_eq_name {text : Text} {symbol : Symbol} (hvalid : symbol.Valid)
    (h : flatten text = symbol.name) {c : Char} (hblank : Unicode.isWhitespace c = false)
    (hinert : isInert c = false) : c ∉ text := by
  intro hmem
  have hname := mem_flatten hblank hmem
  rw [h] at hname
  rw [isInert_of_mem_name hvalid hname] at hinert
  cases hinert

/-- No group stands in a name, so replacing groups keeps what a statement defines. -/
theorem Defines.replace {statement : Text} {symbol : Symbol} (h : Defines statement symbol)
    (kind : GroupKind) (start : Nat) :
    Defines (Group.replace kind start (Forest.ofText kind statement)).1 symbol := by
  obtain ⟨hvalid, content, hread⟩ := h
  obtain ⟨hopening, hclosing⟩ := Content.isWhitespace_delimiter kind
  obtain ⟨hopen, hclose⟩ := kind.isInert_delimiters
  refine ⟨hvalid, ?_⟩
  obtain ⟨hcomment, ⟨before, after, hbefore, rfl, hdefinition⟩ | ⟨-, hdefinition⟩⟩ :=
    cases_of_definition? hread
  · have hname : flatten before = symbol.name := (Definition.mk.inj hdefinition).1.symm
    have hfront : ∀ c ∈ before ++ ['='], c ≠ kind.opening ∧ c ≠ kind.closing := by
      intro c hc
      rcases List.mem_append.1 hc with hc | hc
      · constructor
        · rintro rfl
          exact not_mem_of_flatten_eq_name hvalid hname hopening hopen hc
        · rintro rfl
          exact not_mem_of_flatten_eq_name hvalid hname hclosing hclose hc
      · rw [List.mem_singleton.1 hc]
        cases kind <;> decide
    have hsplit : before ++ '=' :: after = before ++ ['='] ++ after := by simp
    have hreplace : (Group.replace kind start (Forest.ofText kind (before ++ '=' :: after))).1 =
        before ++ '=' :: (Group.replace kind start (Forest.ofText kind after)).1 := by
      rw [hsplit, Forest.ofText_append hfront, Group.replace_prepend]
      simp
    have hkept := Group.isComment_replace kind start (Forest.ofText kind (before ++ '=' :: after))
    rw [Forest.toText_ofText, hcomment, hreplace] at hkept
    exact ⟨_, by rw [hreplace, definition?_append_cons _ hbefore hkept, hname]⟩
  · have hname : flatten statement = symbol.name := (Definition.mk.inj hdefinition).1.symm
    have hbodies : (Forest.ofText kind statement).bodies = [] := by
      rw [Forest.bodies_ofText_eq_nil_iff]
      apply GroupKind.not_hasPair_of_opening
      exact not_mem_of_flatten_eq_name hvalid hname hopening hopen
    rw [Group.replace_eq_self hbodies, Forest.toText_ofText]
    exact ⟨content, hread⟩

theorem defines_production (kind : GroupKind) (n : Nat) (body : Text) :
    Defines ('\n' :: Group.production kind (kind.symbol n) body) (kind.symbol n) := by
  have hbreak : ∀ c ∈ ['\n'], Unicode.isWhitespace c = true :=
    List.forall_mem_singleton.2 (by decide)
  have hread := definition?_of_name (kind.symbol_valid n) ['\n'] hbreak
  refine ⟨kind.symbol_valid n, ?_⟩
  cases kind with
  | optional =>
    have hoptional := hread ([' ', '|', ' ', '('] ++ body ++ [')'])
    exact ⟨_, by simpa [Group.production] using hoptional⟩
  | plain => exact ⟨_, by simpa [Group.production] using hread (' ' :: body)⟩

theorem forall₂_defines_mint (kind : GroupKind) (start : Nat) (bodies : List Text) :
    List.Forall₂ Defines ((Group.mint kind start bodies).map ('\n' :: ·))
      (kind.symbols start bodies.length) := by
  induction bodies generalizing start with
  | nil => exact List.Forall₂.nil
  | cons body bodies ih => exact List.Forall₂.cons (defines_production kind start body) (ih _)

theorem forall₂_defines_replaceAll {statements : List Text} {symbols : List Symbol}
    (h : List.Forall₂ Defines statements symbols) (kind : GroupKind) (start : Nat) :
    List.Forall₂ Defines (Group.replaceAll kind start statements).1 symbols := by
  induction h generalizing start with
  | nil => exact List.Forall₂.nil
  | @cons statement symbol rest symbols hdefines _ ih =>
    obtain ⟨-, content, hread⟩ := id hdefines
    rw [Group.replaceAll_cons, (exists_of_definition? hread).1, if_neg Bool.false_ne_true]
    exact List.Forall₂.cons (hdefines.replace kind start) (ih _)

theorem names_of_forall₂_defines {statements : List Text} {symbols : List Symbol}
    (h : List.Forall₂ Defines statements symbols) :
    (statements.filterMap definition?).map Definition.name = symbols.map Symbol.name := by
  induction h with
  | nil => rfl
  | cons hdefines _ ih =>
    obtain ⟨-, content, hread⟩ := hdefines
    rw [List.filterMap_cons_some hread, List.map_cons, List.map_cons, ih]

/-- What is left of the statements of a source behind both passes. -/
def authored (source : Text) : List Text :=
  (Group.replaceAll .plain 0 (Group.replaceAll .optional 0 (source.splitOn ';')).1).1

/-- The statements behind both passes are those of the author, and one for each group. -/
theorem exists_split_desugar (source : Text) : ∃ statements,
    (desugar source).splitOn ';' = authored source ++ statements ∧
      List.Forall₂ Defines statements (mintedSymbols source) := by
  have hoptional := forall₂_defines_mint .optional 0
    (Group.innersAll .optional 0 (source.splitOn ';'))
  have hplain := forall₂_defines_mint .plain 0
    (Group.innersAll .plain 0 ((Group.desugarKind .optional source).splitOn ';'))
  rw [Group.length_innersAll] at hoptional hplain
  -- The productions of the optional groups go through the second pass.
  have hsplit : (desugar source).splitOn ';' = authored source ++
      ((Group.replaceAll .plain (0 + (Group.innersAll .plain 0
          (Group.replaceAll .optional 0 (source.splitOn ';')).1).length)
            (Group.appended .optional source)).1 ++
        Group.appended .plain (Group.desugarKind .optional source)) := by
    rw [desugar, Group.split_desugarKind_appended, Group.split_desugarKind_appended .optional,
      Group.replaceAll_append_fst, List.append_assoc]
    rfl
  exact ⟨_, hsplit, List.rel_append (forall₂_defines_replaceAll hoptional .plain _) hplain⟩

/-- The symbols of a table behind those of the author are the ones of the groups, and no author's
symbol is among them. -/
theorem symbols_of_parse_desugar {source : Text} {table : Table}
    (h : Table.parse (desugar source) = .ok table) :
    ∃ authors, table.symbols = authors ++ mintedSymbols source ∧
      (∀ symbol ∈ mintedSymbols source, symbol ∉ authors) ∧
      authors.map Symbol.name = ((authored source).filterMap definition?).map Definition.name := by
  obtain ⟨entries, hdefinitions, -, hrows⟩ := exists_entries_of_parse h
  obtain ⟨statements, hsplit, hdefines⟩ := exists_split_desugar source
  have hnames : table.symbols.map Symbol.name =
      ((authored source).filterMap definition?).map Definition.name ++
        (mintedSymbols source).map Symbol.name := by
    rw [← names_of_forall₂_defines hdefines, ← List.map_append, ← List.filterMap_append, ← hsplit,
      ← definitions_eq_filterMap, hdefinitions, symbols, hrows, List.map_map, List.map_map,
      List.map_map]
    rfl
  obtain ⟨authors, minted, hsymbols, hauthors, hminted⟩ := List.map_eq_append_iff.1 hnames
  rw [Symbol.name_injective.list_map hminted] at hsymbols
  have hdistinct := (asRead_of_parse h).distinct
  rw [hsymbols] at hdistinct
  refine ⟨authors, hsymbols, fun symbol hsymbol hauthor => ?_, hauthors⟩
  exact (List.nodup_append.1 hdistinct).2.2 symbol hauthor symbol hsymbol rfl

/-- What a statement of the source defines is still defined behind both passes. -/
theorem mem_names_authored {source statement : Text} {symbol : Symbol}
    (hmem : statement ∈ source.splitOn ';') (h : Defines statement symbol) :
    symbol.name ∈ ((authored source).filterMap definition?).map Definition.name := by
  have hpass : ∀ (kind : GroupKind) {statement statements}, statement ∈ statements →
      Defines statement symbol →
        ∃ statement' ∈ (Group.replaceAll kind 0 statements).1, Defines statement' symbol := by
    intro kind statement statements hmem hdefines
    obtain ⟨statement', hmem', hcases⟩ :=
      Content.exists_of_forall₂_left (Group.forall₂_replaceAll kind 0 statements) hmem
    refine ⟨statement', hmem', ?_⟩
    rcases hcases with ⟨-, rfl⟩ | ⟨-, n, rfl⟩
    · exact hdefines
    · exact hdefines.replace kind n
  obtain ⟨left, hleft, hdefines⟩ := hpass .optional hmem h
  obtain ⟨last, hlast, -, content, hread⟩ := hpass .plain hleft hdefines
  exact List.mem_map.2 ⟨_, List.mem_filterMap.2 ⟨last, hlast, hread⟩, rfl⟩

/-- The symbol of a group is referred to where its group stood, and besides as often as the source
mentions it. -/
theorem count_references_of_mem_mintedSymbols {source : Text} {table : Table}
    (h : Table.parse (desugar source) = .ok table) {symbol : Symbol}
    (hsymbol : symbol ∈ mintedSymbols source) :
    table.references.count symbol = (mentionsAll (source.splitOn ';')).count symbol + 1 := by
  have hdistinct := (asRead_of_parse h).distinct
  obtain ⟨authors, hsymbols, hapart, -⟩ := symbols_of_parse_desugar h
  rw [hsymbols] at hdistinct
  have hminted : (mintedSymbols source).count symbol = 1 :=
    List.count_eq_one_of_mem (List.nodup_append.1 hdistinct).2.1 hsymbol
  have hauthors : authors.count symbol = 0 := List.count_eq_zero_of_not_mem (hapart symbol hsymbol)
  have htable := List.perm_iff_count.1 (mentionsAll_of_parse h) symbol
  have hsource := List.perm_iff_count.1 (mentionsAll_desugar_perm source) symbol
  rw [hsymbols] at htable
  simp only [List.count_append] at htable hsource
  omega

end Table

open Table

/-- The names that desugaring mints belong to productions behind the statements of the author, and
have no others: a source that defines one is not read as a table. Each is referred to where its
group stood, and besides as often as the source mentions it. -/
theorem minted_names_counted (source : Text) :
    (∃ statements, (desugar source).splitOn ';' = authored source ++ statements ∧
      List.Forall₂ Defines statements (mintedSymbols source)) ∧
    (∀ statement ∈ source.splitOn ';', ∀ symbol ∈ mintedSymbols source, Defines statement symbol →
      ∃ error, Table.parse (desugar source) = .error error) ∧
    ∀ table, Table.parse (desugar source) = .ok table →
      table.symbols.Nodup ∧
      (∃ authors, table.symbols = authors ++ mintedSymbols source) ∧
      ∀ symbol ∈ mintedSymbols source,
        table.references.count symbol = (mentionsAll (source.splitOn ';')).count symbol + 1 := by
  refine ⟨exists_split_desugar source, ?_, ?_⟩
  · intro statement hstatement symbol hsymbol hdefines
    cases hparse : Table.parse (desugar source) with
    | error error => exact ⟨error, rfl⟩
    | ok table =>
      obtain ⟨authors, -, hapart, hauthors⟩ := symbols_of_parse_desugar hparse
      have hmem := mem_names_authored hstatement hdefines
      rw [← hauthors] at hmem
      obtain ⟨author, hauthor, hname⟩ := List.mem_map.1 hmem
      have heq : author = symbol := Symbol.name_injective hname
      rw [heq] at hauthor
      exact absurd hauthor (hapart symbol hsymbol)
  · intro table hparse
    obtain ⟨authors, hsymbols, -⟩ := symbols_of_parse_desugar hparse
    exact ⟨(asRead_of_parse hparse).distinct, ⟨authors, hsymbols⟩,
      fun _ => count_references_of_mem_mintedSymbols hparse⟩

/-- A source whose author refers to the name that its group gets. -/
def capturing : Text :=
  "$s = (x) $_grp0".toList

/-- The table of that source. Both references are to the group. -/
def capturedTable : Table :=
  let group := GroupKind.plain.symbol 0
  { rows := [
      (.start, ⟨[⟨[.ref group, .literal [' '], .ref group]⟩]⟩),
      (group, ⟨[⟨[.literal ['x']]⟩]⟩)]
    forced := [] }

/-- A source whose author defines that name. -/
def redefining : Text :=
  "$s = (x); $_grp0 = y".toList

theorem capturing_counted :
    (" $_grp0 = y".toList ∈ redefining.splitOn ';' ∧
      GroupKind.plain.symbol 0 ∈ mintedSymbols redefining ∧
      Defines " $_grp0 = y".toList (GroupKind.plain.symbol 0) ∧
      ∃ error, Table.parse (desugar redefining) = .error error) ∧
    Table.parse (desugar capturing) = .ok capturedTable ∧
      GroupKind.plain.symbol 0 ∈ mintedSymbols capturing ∧
      capturedTable.symbols.Nodup ∧
      capturedTable.references.count (GroupKind.plain.symbol 0) =
        (mentionsAll (capturing.splitOn ';')).count (GroupKind.plain.symbol 0) + 1 := by
  have hstatement : " $_grp0 = y".toList ∈ redefining.splitOn ';' := by decide
  have hredefined : GroupKind.plain.symbol 0 ∈ mintedSymbols redefining := by decide
  have hdefines : Defines " $_grp0 = y".toList (GroupKind.plain.symbol 0) :=
    ⟨GroupKind.plain.symbol_valid 0, ['y'], by decide⟩
  have hparse : Table.parse (desugar capturing) = .ok capturedTable := by decide +kernel
  have hcaptured : GroupKind.plain.symbol 0 ∈ mintedSymbols capturing := by decide
  have herror := (minted_names_counted redefining).2.1 _ hstatement _ hredefined hdefines
  obtain ⟨hdistinct, -, hcount⟩ := (minted_names_counted capturing).2.2 _ hparse
  exact ⟨⟨hstatement, hredefined, hdefines, herror⟩, hparse, hcaptured, hdistinct,
    hcount _ hcaptured⟩

/-- Names are minted without regard to the source: a name that the author refers to may be given to
a group, and then the reference is to the group. -/
theorem author_refers_to_minted_name :
    Table.parse (desugar capturing) = .ok capturedTable ∧
      capturedTable.references.count (GroupKind.plain.symbol 0) = 2 ∧
      ¬∀ source, ∀ symbol ∈ mintedSymbols source, symbol ∉ mentionsAll (source.splitOn ';') := by
  refine ⟨by decide +kernel, by decide, fun hfresh => ?_⟩
  have hmentioned : GroupKind.plain.symbol 0 ∈ mentionsAll (capturing.splitOn ';') := by decide
  exact hfresh capturing _ (by decide) hmentioned

end TextGrammar
