import Mathlib.Logic.Relation
import TextGrammar.Proofs.Groups.Accounting

/-!
# How groups refer to one another

In a source that mentions no name of a group, every group is referred to from one place only, where
it stood, and going from a group to the groups in it never leads back.

The numbers alone do not show the latter: in `$s = ([b] c)` the plain group 0 holds the optional
group 0, whose body is the plain group 1. But the body of a group mentions, besides symbols of the
source, only groups of its own pass with lower numbers (`Group.cases_of_mem_inners`). So the
optional groups are accessible by induction on their numbers, and with them the plain groups of a
statement, again by induction on their numbers (`Table.acc_plain`, `Table.acc_optional`).

`groups_referenced_once` is the result.
-/

namespace TextGrammar

/-! ## Names in a text -/

theorem infix_of_mem_mentions {text : Text} {symbol : Symbol} (h : symbol ∈ mentions text) :
    symbol.identifier <:+: text := by
  induction text with
  | nil => simp [mentions] at h
  | cons c rest ih =>
    rw [mentions, List.mem_append] at h
    rcases h with h | h
    · split_ifs at h with hsigil
      · subst hsigil
        rw [Option.mem_toList, named?, Option.map_eq_some_iff] at h
        obtain ⟨⟨_, after⟩, hread, rfl⟩ := h
        have hvalid := valid_of_readReference hread
        obtain ⟨braced, hspelled, -⟩ := exists_of_readReference hread
        rw [hspelled]
        apply List.IsInfix.trans _ (List.prefix_append _ _).isInfix
        obtain ⟨d, identifier, rfl, -⟩ := hvalid.exists_identifier
        cases braced with
        | false =>
          exact ⟨['$'], [], by simp [writeReference, Symbol.identifier, Symbol.ofIdentifier]⟩
        | true => exact ⟨['$', '{'], ['}'], by simp [writeReference]⟩
      · simp at h
    · exact (ih h).trans (List.suffix_cons c rest).isInfix

/-- The name of a group holds the stem of its kind. -/
theorem Symbol.infix_of_isSynthetic {symbol : Symbol} (h : symbol.isSynthetic = true) :
    optionalStem <:+: symbol.identifier ∨ plainStem <:+: symbol.identifier := by
  have hstem : ∀ stem, isNumbered ('$' :: stem) symbol.name = true →
      stem <:+: symbol.identifier := by
    intro stem hnumbered
    unfold isNumbered at hnumbered
    split at hnumbered
    · rename_i number hprefix
      have hname := List.isPrefixOf?_eq_some_iff_append_eq.1 hprefix
      exact ⟨[], number, by rw [identifier, ← hname]; rfl⟩
    · cases hnumbered
  rw [isSynthetic, Bool.or_eq_true] at h
  exact h.imp (hstem _) (hstem _)

/-- A source without the stems mentions no group. -/
theorem isSynthetic_of_mem_mentionsAll {source : Text} (hplain : ¬Symbol.plainStem <:+: source)
    (hoptional : ¬Symbol.optionalStem <:+: source) {symbol : Symbol}
    (h : symbol ∈ mentionsAll (source.splitOn ';')) : symbol.isSynthetic = false := by
  have hsource : symbol ∈ mentions source := by
    have hterminator : isReferenceChar ';' = false :=
      isReferenceChar_of_mem_signs (by decide) (by decide) (by decide)
    rw [← flatMap_mentions_split hterminator (by decide)]
    obtain ⟨s, hs, hmem⟩ := List.mem_flatMap.1 h
    split_ifs at hmem
    · simp at hmem
    · exact List.mem_flatMap.2 ⟨s, hs, hmem⟩
  have hinfix := infix_of_mem_mentions hsource
  rw [← Bool.not_eq_true]
  intro hsynthetic
  rcases Symbol.infix_of_isSynthetic hsynthetic with hstem | hstem
  · exact hoptional (hstem.trans hinfix)
  · exact hplain (hstem.trans hinfix)

/-! ## What the body of a group mentions -/

namespace Group

variable {kind : GroupKind} {start n : Nat} {inner : Text} {symbol : Symbol}

theorem cases_of_mem_replace {forest : Forest}
    (h : symbol ∈ mentions (replace kind start forest).1) :
    symbol ∈ mentions (forest.toText kind) ∨
      ∃ k, start ≤ k ∧ k < start + forest.bodies.length ∧ symbol = kind.symbol k := by
  have hmem := (mentions_replace_perm kind start forest).subset (List.mem_append_left _ h)
  exact (List.mem_append.1 hmem).imp_right GroupKind.mem_symbols.1

/-- A recorded body mentions what its statement does, and groups of the statement with lower
numbers. -/
theorem cases_of_mem_inners {forest : Forest}
    (h : (inner, n) ∈ (inners kind start forest).zipIdx start) (hsymbol : symbol ∈ mentions inner) :
    symbol ∈ mentions (forest.toText kind) ∨
      ∃ k, start ≤ k ∧ k < n ∧ symbol = kind.symbol k := by
  induction forest generalizing start with
  | nil => simp [inners] at h
  | char c rest ih => exact (ih h).imp_left (mem_mentions_append_right [c])
  | group body rest ihbody ihrest =>
    rw [inners, List.zipIdx_append, List.zipIdx_cons, List.mem_append, List.mem_cons] at h
    rw [mentions_group, List.mem_append]
    rcases h with h | h | h
    · exact (ihbody h).imp_left Or.inl
    · obtain ⟨rfl, rfl⟩ := Prod.mk.inj h
      rw [length_inners]
      exact (cases_of_mem_replace hsymbol).imp_left Or.inl
    · refine (ihrest h).imp Or.inr ?_
      rintro ⟨k, hk, hlt, heq⟩
      exact ⟨k, by omega, hlt, heq⟩

theorem cases_of_mem_innersAll {statements : List Text}
    (h : (inner, n) ∈ (innersAll kind start statements).zipIdx start)
    (hsymbol : symbol ∈ mentions inner) :
    symbol ∈ mentionsAll statements ∨ ∃ k, start ≤ k ∧ k < n ∧ symbol = kind.symbol k := by
  induction statements generalizing start with
  | nil => simp [innersAll] at h
  | cons statement rest ih =>
    rw [innersAll, List.zipIdx_append, List.mem_append] at h
    rw [mentionsAll, List.flatMap_cons, List.mem_append]
    rcases h with h | h
    · cases hcomment : isComment statement with
      | true => simp [hcomment] at h
      | false =>
        rw [hcomment] at h
        have hcases := cases_of_mem_inners h hsymbol
        rw [Forest.toText_ofText] at hcases
        exact hcases.imp_left Or.inl
    · refine (ih h).imp Or.inr ?_
      rintro ⟨k, hk, hlt, heq⟩
      exact ⟨k, by omega, hlt, heq⟩

/-- The groups of a statement are numbered one after the other from some number on. -/
theorem exists_numbering {statements : List Text} {statement : Text}
    (h : statement ∈ statements) (hcomment : isComment statement = false) (first : Nat) :
    ∃ start, (replace kind start (Forest.ofText kind statement)).1 ∈
        (replaceAll kind first statements).1 ∧
      ∀ numbered ∈ (inners kind start (Forest.ofText kind statement)).zipIdx start,
        numbered ∈ (innersAll kind first statements).zipIdx first := by
  obtain ⟨front, rest, rfl⟩ := List.append_of_mem h
  refine ⟨first + (innersAll kind first front).length, ?_, fun numbered hmem => ?_⟩
  · rw [replaceAll_append_fst, replaceAll_cons, hcomment]
    exact List.mem_append_right _ List.mem_cons_self
  · rw [innersAll_append, innersAll, hcomment, List.zipIdx_append, List.zipIdx_append]
    exact List.mem_append_right _ (List.mem_append_left _ hmem)

/-- Every group belongs to a statement, with all other groups of the statement. -/
theorem exists_of_mem_zipIdx_innersAll {statements : List Text} {first : Nat}
    (h : (inner, n) ∈ (innersAll kind first statements).zipIdx first) :
    ∃ statement ∈ statements, isComment statement = false ∧ ∃ start,
      (inner, n) ∈ (inners kind start (Forest.ofText kind statement)).zipIdx start ∧
        ∀ numbered ∈ (inners kind start (Forest.ofText kind statement)).zipIdx start,
          numbered ∈ (innersAll kind first statements).zipIdx first := by
  induction statements generalizing first with
  | nil => simp [innersAll] at h
  | cons statement rest ih =>
    rw [innersAll, List.zipIdx_append] at h ⊢
    rcases List.mem_append.1 h with h | h
    · cases hcomment : isComment statement with
      | true => simp [hcomment] at h
      | false =>
        rw [hcomment] at h
        exact ⟨statement, List.mem_cons_self, hcomment, first, h,
          fun _ hmem => List.mem_append_left _ hmem⟩
    · obtain ⟨s, hs, hcomment, start, hmem, hall⟩ := ih h
      exact ⟨s, List.mem_cons_of_mem _ hs, hcomment, start, hmem,
        fun numbered hnumbered => List.mem_append_right _ (hall numbered hnumbered)⟩

end Group

/-! ## From a group to the groups in it -/

namespace Table

/-- A symbol of a group refers to a symbol of a group. -/
def Nests (table : Table) (symbol target : Symbol) : Prop :=
  (symbol.isSynthetic = true ∧ target.isSynthetic = true) ∧
    ∃ a ∈ table.alternatives symbol, target ∈ a.references

/-- Every way from a symbol of a group to others comes to an end. -/
def Ends (table : Table) (symbol : Symbol) : Prop :=
  Acc (fun target symbol => table.Nests symbol target) symbol

/-- A way that comes to an end does not lead back to where it began. -/
theorem Ends.not_transGen {table : Table} {symbol : Symbol} (h : table.Ends symbol) :
    ¬Relation.TransGen table.Nests symbol symbol := by
  induction h with
  | intro symbol _ ih =>
    intro hcycle
    obtain ⟨target, hedge, hback⟩ := Relation.TransGen.head'_iff.1 hcycle
    exact ih target hedge (Relation.TransGen.tail' hback hedge)

variable {source : Text} {table : Table}

theorem mem_mentions_of_nests (hparse : Table.parse source = .ok table) {symbol target : Symbol}
    {content : Text} (hmem : ⟨symbol.name, content⟩ ∈ definitions source)
    (h : table.Nests symbol target) : target ∈ mentions content := by
  obtain ⟨-, a, ha, htarget⟩ := h
  rw [alternatives_of_get? ((get?_eq_some_iff_of_parse hparse).2 ⟨content, hmem, rfl⟩)] at ha
  exact mem_mentions_of_references ha htarget

/-- A plain group is defined by its recorded body. -/
theorem mem_definitions_plain {inner : Text} {n : Nat}
    (h : (inner, n) ∈ (Group.innersAll .plain 0 (source.splitOn ';')).zipIdx) :
    ⟨(GroupKind.plain.symbol n).name, flatten (' ' :: inner)⟩ ∈
      definitions (Group.desugarKind .plain source) := by
  have hbreak : ∀ c ∈ ['\n'], Unicode.isWhitespace c = true :=
    List.forall_mem_singleton.2 (by decide)
  have hread := definition?_of_name (GroupKind.plain.symbol_valid n) ['\n'] hbreak (' ' :: inner)
  rw [definitions_eq_filterMap, Group.split_desugarKind_appended]
  refine List.mem_filterMap.2 ⟨'\n' :: Group.production .plain (GroupKind.plain.symbol n) inner,
    List.mem_append_right _ ?_, ?_⟩
  · exact List.mem_map_of_mem (List.mem_map.2 ⟨_, h, rfl⟩)
  · rw [← hread]
    simp [Group.production]

/-- The plain groups of a statement come to an end if the groups that it mentions do. -/
theorem ends_plain (hparse : Table.parse (Group.desugarKind .plain source) = .ok table)
    {forest : Forest} {start : Nat}
    (hall : ∀ numbered ∈ (Group.inners .plain start forest).zipIdx start,
      numbered ∈ (Group.innersAll .plain 0 (source.splitOn ';')).zipIdx)
    (hforest : ∀ symbol ∈ mentions (forest.toText .plain), symbol.isSynthetic = true →
      table.Ends symbol) {n : Nat} (hstart : start ≤ n)
    (hn : n < start + forest.bodies.length) : table.Ends (GroupKind.plain.symbol n) := by
  induction n using Nat.strongRecOn with
  | ind n ih =>
    constructor
    intro target hnests
    obtain ⟨inner, hinner⟩ : ∃ inner, (inner, n) ∈
        (Group.inners .plain start forest).zipIdx start := by
      have hlength : n - start < (Group.inners .plain start forest).length := by
        rw [Group.length_inners]
        omega
      refine ⟨(Group.inners .plain start forest)[n - start], ?_⟩
      rw [List.mk_mem_zipIdx_iff_le_and_getElem?_sub]
      exact ⟨hstart, List.getElem?_eq_getElem hlength⟩
    have hmention := mem_mentions_of_nests hparse (mem_definitions_plain (hall _ hinner)) hnests
    rw [mentions_flatten, mentions_cons_of_ne _ (by decide)] at hmention
    rcases Group.cases_of_mem_inners hinner hmention with hmem | ⟨k, hk, hlt, rfl⟩
    · exact hforest target hmem hnests.1.2
    · exact ih k hlt hk (Nat.lt_trans hlt hn)

/-- The production of an optional group is itself replaced by the second pass, which numbers the
groups in it. -/
theorem exists_of_optional {inner : Text} {n : Nat}
    (h : (inner, n) ∈ (Group.innersAll .optional 0 (source.splitOn ';')).zipIdx) :
    ∃ forest start, mentions (forest.toText .plain) = mentions inner ∧
      (∀ numbered ∈ (Group.inners .plain start forest).zipIdx start, numbered ∈
        (Group.innersAll .plain 0 ((Group.desugarKind .optional source).splitOn ';')).zipIdx) ∧
      ⟨(GroupKind.optional.symbol n).name, flatten (Group.replace .plain start forest).1⟩ ∈
        definitions (desugar source) := by
  have hvalid := GroupKind.optional.symbol_valid n
  have hbreak : ∀ c ∈ ['\n'], Unicode.isWhitespace c = true :=
    List.forall_mem_singleton.2 (by decide)
  have hfront : ∀ c ∈ ['\n'] ++ (GroupKind.optional.symbol n).name ++ [' ', '='],
      c ≠ GroupKind.plain.opening ∧ c ≠ GroupKind.plain.closing := by
    intro c hc
    have hinert : isInert c = true ∨ c = '\n' := by
      simp only [List.mem_append, List.mem_cons, List.not_mem_nil, or_false] at hc
      rcases hc with (rfl | hc) | rfl | rfl
      · exact Or.inr rfl
      · exact Or.inl (isInert_of_mem_name hvalid hc)
      · exact Or.inl (by decide)
      · exact Or.inl (by decide)
    rcases hinert with hinert | rfl
    · exact ⟨GroupKind.ne_opening_of_isInert hinert _, GroupKind.ne_closing_of_isInert hinert _⟩
    · decide
  have hform : '\n' :: Group.production .optional (GroupKind.optional.symbol n) inner =
      ['\n'] ++ (GroupKind.optional.symbol n).name ++ [' ', '='] ++
        ([' ', '|', ' ', '('] ++ (inner ++ [')'])) := by
    simp [Group.production]
  have hstatement : '\n' :: Group.production .optional (GroupKind.optional.symbol n) inner ∈
      (Group.desugarKind .optional source).splitOn ';' := by
    rw [Group.split_desugarKind_appended]
    exact List.mem_append_right _ (List.mem_map_of_mem (List.mem_map.2 ⟨_, h, rfl⟩))
  obtain ⟨start, hreplaced, hall⟩ :=
    Group.exists_numbering hstatement (Group.isComment_production .optional n inner) 0
  rw [hform, Forest.ofText_append hfront] at hreplaced hall
  rw [Group.replace_prepend] at hreplaced
  rw [Group.inners_prepend] at hall
  refine ⟨_, start, ?_, hall, ?_⟩
  · have hclosing : isReferenceChar ')' = false := Group.isReferenceChar_closing .plain
    rw [Forest.toText_ofText, mentions_append_of_not_mem (by decide),
      mentions_append_cons _ _ hclosing, mentions_cons_of_ne _ (by decide), mentions,
      List.append_nil]
  · rw [definitions_eq_filterMap, desugar, Group.split_desugarKind_appended]
    exact List.mem_filterMap.2 ⟨_, List.mem_append_left _ hreplaced,
      definition?_of_name hvalid ['\n'] hbreak _⟩

/-- In a source that mentions no group, every optional group comes to an end. -/
theorem ends_optional (hparse : Table.parse (desugar source) = .ok table)
    (hsource : ∀ symbol ∈ mentionsAll (source.splitOn ';'), symbol.isSynthetic = false) {n : Nat}
    (hn : n < Group.closed .optional source) : table.Ends (GroupKind.optional.symbol n) := by
  induction n using Nat.strongRecOn with
  | ind n ih =>
    constructor
    intro target hnests
    obtain ⟨inner, hinner⟩ : ∃ inner, (inner, n) ∈
        (Group.innersAll .optional 0 (source.splitOn ';')).zipIdx := by
      rw [← Group.length_innersAll .optional 0] at hn
      exact ⟨_, List.mk_mem_zipIdx_iff_getElem?.2 (List.getElem?_eq_getElem hn)⟩
    obtain ⟨forest, start, hforest, hall, hmem⟩ := exists_of_optional hinner
    have hends : ∀ symbol ∈ mentions (forest.toText .plain), symbol.isSynthetic = true →
        table.Ends symbol := by
      intro symbol hsymbol hsynthetic
      rw [hforest] at hsymbol
      rcases Group.cases_of_mem_innersAll hinner hsymbol with hmem | ⟨k, -, hlt, rfl⟩
      · rw [hsource symbol hmem] at hsynthetic
        cases hsynthetic
      · exact ih k hlt (Nat.lt_trans hlt hn)
    have hmention := mem_mentions_of_nests hparse hmem hnests
    rw [mentions_flatten] at hmention
    rcases Group.cases_of_mem_replace hmention with hmention | ⟨k, hk, hlt, rfl⟩
    · exact hends target hmention hnests.1.2
    · exact ends_plain hparse hall hends hk hlt

/-- So do all groups. -/
theorem ends_of_mem_mintedSymbols (hparse : Table.parse (desugar source) = .ok table)
    (hsource : ∀ symbol ∈ mentionsAll (source.splitOn ';'), symbol.isSynthetic = false)
    {symbol : Symbol} (h : symbol ∈ mintedSymbols source) : table.Ends symbol := by
  rcases List.mem_append.1 h with h | h
  · obtain ⟨n, -, hn, rfl⟩ := GroupKind.mem_symbols.1 h
    exact ends_optional hparse hsource (by omega)
  · obtain ⟨n, -, hn, rfl⟩ := GroupKind.mem_symbols.1 h
    rw [Nat.zero_add, ← Group.length_innersAll .plain 0] at hn
    obtain ⟨statement, hstatement, hcomment, start, hmem, hall⟩ :=
      Group.exists_of_mem_zipIdx_innersAll
        (List.mk_mem_zipIdx_iff_getElem?.2 (List.getElem?_eq_getElem hn))
    obtain ⟨hstart, hlt, -⟩ := List.mem_zipIdx hmem
    rw [Group.length_inners] at hlt
    refine ends_plain hparse hall (fun target htarget hsynthetic => ?_) hstart hlt
    rw [Forest.toText_ofText] at htarget
    have hmention : target ∈ mentionsAll ((Group.desugarKind .optional source).splitOn ';') := by
      refine List.mem_flatMap.2 ⟨statement, hstatement, ?_⟩
      rwa [hcomment]
    have hpass := (Group.mentionsAll_desugarKind_perm .optional source).subset hmention
    rw [List.mem_append, List.mem_append, or_self] at hpass
    rcases hpass with hpass | hpass
    · rw [hsource target hpass] at hsynthetic
      cases hsynthetic
    · obtain ⟨k, -, hk, rfl⟩ := GroupKind.mem_symbols.1 hpass
      exact ends_optional hparse hsource (by omega)

end Table

theorem isSynthetic_of_mem_mintedSymbols {source : Text} {symbol : Symbol}
    (h : symbol ∈ mintedSymbols source) : symbol.isSynthetic = true := by
  rcases List.mem_append.1 h with h | h
  · obtain ⟨n, -, -, rfl⟩ := GroupKind.mem_symbols.1 h
    exact GroupKind.symbol_isSynthetic _ n
  · obtain ⟨n, -, -, rfl⟩ := GroupKind.mem_symbols.1 h
    exact GroupKind.symbol_isSynthetic _ n

/-- If the source mentions no synthetic symbol, none of those in front of the groups is one. -/
theorem Table.exists_authors_of_parse {source : Text} {table : Table}
    (h : Table.parse (desugar source) = .ok table)
    (hsource : ∀ symbol ∈ mentionsAll (source.splitOn ';'), symbol.isSynthetic = false) :
    ∃ authors, table.symbols = authors ++ mintedSymbols source ∧
      ∀ author ∈ authors, author.isSynthetic = false := by
  obtain ⟨authors, hsymbols, hapart, -⟩ := symbols_of_parse_desugar h
  refine ⟨authors, hsymbols, fun author hauthor => ?_⟩
  have hmem : author ∈ table.symbols ++ table.references := by
    rw [hsymbols]
    exact List.mem_append_left _ (List.mem_append_left _ hauthor)
  have hmention := (mentionsAll_desugar_perm source).subset ((mentionsAll_of_parse h).subset hmem)
  rw [List.mem_append, List.mem_append, or_self] at hmention
  rcases hmention with hmention | hmention
  · exact hsource author hmention
  · exact absurd hauthor (hapart author hmention)

/-- A class that begins where one list ends and the next begins tells them apart. -/
theorem filter_append_of_forall {α : Type} {p : α → Bool} {front back : List α}
    (hfront : ∀ a ∈ front, p a = false) (hback : ∀ a ∈ back, p a = true) :
    (front ++ back).filter p = back ∧ (front ++ back).filter (!p ·) = front := by
  have hnone : front.filter p = [] := by simpa [List.filter_eq_nil_iff] using hfront
  have hall : front.filter (!p ·) = front := by simpa [List.filter_eq_self] using hfront
  have hnone' : back.filter (!p ·) = [] := by simpa [List.filter_eq_nil_iff] using hback
  rw [List.filter_append, List.filter_append, hnone, hall, hnone', List.filter_eq_self.2 hback]
  exact ⟨List.nil_append _, List.append_nil _⟩

/-- In a source that does not hold the stems of groups, the synthetic symbols of the table are those
of its groups. They stand behind all others, optional ones first, by their numbers; each is referred
to once in the whole table; and references between them do not lead back to where they began. -/
theorem groups_referenced_once {source : Text} {table : Table}
    (hplain : ¬Symbol.plainStem <:+: source) (hoptional : ¬Symbol.optionalStem <:+: source)
    (hparse : Table.parse (desugar source) = .ok table) :
    table.symbols.filter (·.isSynthetic) = mintedSymbols source ∧
      table.symbols = table.symbols.filter (!·.isSynthetic) ++ mintedSymbols source ∧
      (∀ symbol ∈ mintedSymbols source, table.references.count symbol = 1) ∧
      ∀ symbol, ¬Relation.TransGen table.Nests symbol symbol := by
  have hsource : ∀ symbol ∈ mentionsAll (source.splitOn ';'), symbol.isSynthetic = false :=
    fun symbol => isSynthetic_of_mem_mentionsAll hplain hoptional
  have hminted : ∀ symbol ∈ mintedSymbols source, symbol.isSynthetic = true :=
    fun symbol => isSynthetic_of_mem_mintedSymbols
  obtain ⟨authors, hsymbols, hauthors⟩ := Table.exists_authors_of_parse hparse hsource
  obtain ⟨hsynthetic, hothers⟩ := filter_append_of_forall hauthors hminted
  rw [← hsymbols] at hsynthetic hothers
  refine ⟨hsynthetic, by rw [hothers, hsymbols], fun symbol hsymbol => ?_, ?_⟩
  · have hcount := Table.count_references_of_mem_mintedSymbols hparse hsymbol
    have hnone : (mentionsAll (source.splitOn ';')).count symbol = 0 := by
      apply List.count_eq_zero_of_not_mem
      intro hmention
      have hfalse := hsource symbol hmention
      rw [hminted symbol hsymbol] at hfalse
      cases hfalse
    omega
  · intro symbol hcycle
    obtain ⟨target, ⟨⟨hsymbol, -⟩, a, ha, -⟩, -⟩ := Relation.TransGen.head'_iff.1 hcycle
    have hmem : symbol ∈ table.symbols := by
      by_contra hnot
      rw [Table.alternatives_of_not_mem hnot] at ha
      cases ha
    have hminted : symbol ∈ mintedSymbols source := by
      rw [← hsynthetic]
      exact List.mem_filter.2 ⟨hmem, hsymbol⟩
    exact (Table.ends_of_mem_mintedSymbols hparse hsource hminted).not_transGen hcycle

/-- A source with an optional group in a plain one, and a plain group in an optional one. -/
def nestedSource : Text :=
  "$s = ([b] c)[d (>$e)]; $e = f".toList

/-- The table of that source. -/
def nestedTable : Table :=
  let e := Symbol.ofIdentifier ['e']
  let optional := GroupKind.optional.symbol
  let plain := GroupKind.plain.symbol
  { rows := [
      (.start, ⟨[⟨[.ref (plain 0), .ref (optional 1)]⟩]⟩),
      (e, ⟨[⟨[.literal ['f']]⟩]⟩),
      (optional 0, ⟨[⟨[]⟩, ⟨[.ref (plain 1)]⟩]⟩),
      (optional 1, ⟨[⟨[]⟩, ⟨[.ref (plain 3)]⟩]⟩),
      (plain 0, ⟨[⟨[.ref (optional 0), .literal [' ', 'c']]⟩]⟩),
      (plain 1, ⟨[⟨[.literal ['b']]⟩]⟩),
      (plain 2, ⟨[⟨[.forced e]⟩]⟩),
      (plain 3, ⟨[⟨[.literal ['d', ' '], .ref (plain 2)]⟩]⟩)]
    forced := [plain 2] }

theorem nestedSource_referenced_once :
    (¬Symbol.plainStem <:+: nestedSource ∧ ¬Symbol.optionalStem <:+: nestedSource ∧
      Table.parse (desugar nestedSource) = .ok nestedTable) ∧
    nestedTable.symbols.filter (·.isSynthetic) = mintedSymbols nestedSource ∧
      nestedTable.symbols =
        nestedTable.symbols.filter (!·.isSynthetic) ++ mintedSymbols nestedSource ∧
      (∀ symbol ∈ mintedSymbols nestedSource, nestedTable.references.count symbol = 1) ∧
      ∀ symbol, ¬Relation.TransGen nestedTable.Nests symbol symbol := by
  have hplain : ¬Symbol.plainStem <:+: nestedSource := by decide +kernel
  have hoptional : ¬Symbol.optionalStem <:+: nestedSource := by decide +kernel
  have hparse : Table.parse (desugar nestedSource) = .ok nestedTable := by decide +kernel
  exact ⟨⟨hplain, hoptional, hparse⟩, groups_referenced_once hplain hoptional hparse⟩

end TextGrammar
