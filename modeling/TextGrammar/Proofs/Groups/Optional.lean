import TextGrammar.Proofs.Agreement
import TextGrammar.Proofs.Mentions
import TextGrammar.Proofs.Reachable

/-!
# What an optional group may come out as

An optional group stands for nothing or for its body. The body is read in a pair of parentheses
that desugaring adds, so it comes out as what `$t` does in a source that defines `$t` as the body in
parentheses (`optional_group_offers_enclosed`). If every parenthesis in the body has a partner
there, that is what it comes out as without them (`optional_group_offers`). A parenthesis without
one finds its partner in the added pair, and then it is not (`stray_parenthesis_moves`).
-/

namespace TextGrammar

open Table

/-! ## The two sources -/

/-- The symbol that is defined as the body of the group, `$t`. -/
def Symbol.twin : Symbol :=
  ofIdentifier ['t']

/-- The statement `$s = x[body]y`. -/
def optionalStatement (body : Text) : Text :=
  Symbol.start.name ++ [' ', '='] ++ ([' ', 'x', '['] ++ body ++ [']', 'y'])

/-- The statement `$s = x`. -/
def startStatement : Text :=
  Symbol.start.name ++ [' ', '='] ++ [' ', 'x']

/-- The statement `$t = body`, with a space in front. -/
def twinStatement (body : Text) : Text :=
  [' '] ++ Symbol.twin.name ++ [' ', '='] ++ ' ' :: body

/-- The source `$s = x[body]y`, with more statements behind it. -/
def optionalSource (body rest : Text) : Text :=
  optionalStatement body ++ ';' :: rest

/-- The source `$s = x; $t = body`, with more statements behind it. -/
def separateSource (body rest : Text) : Text :=
  startStatement ++ ';' :: (twinStatement body ++ ';' :: rest)

/-- A body in parentheses. -/
def enclosed (body : Text) : Text :=
  '(' :: (body ++ [')'])

example : optionalSource ['b'] "$a = c".toList = "$s = x[b]y;$a = c".toList := rfl

example : separateSource ['b'] "$a = c".toList = "$s = x; $t = b;$a = c".toList := rfl

/-- The symbols of both sources that neither defines by itself. -/
def Symbol.Apart (symbol : Symbol) : Prop :=
  symbol ≠ start ∧ symbol ≠ twin ∧ ¬symbol.MentionsGroup

instance (symbol : Symbol) : Decidable symbol.Apart :=
  inferInstanceAs (Decidable (_ ∧ _ ∧ _))

/-- A body that may stand in brackets, with flat statements for the symbols it mentions. Neither the
body nor these statements mention `$s`, `$t` or the name of a group. -/
structure OptionalBody (body rest : Text) : Prop where
  inline : ∀ c ∈ body, c ≠ '[' ∧ c ≠ ']' ∧ c ≠ ';'
  flat : desugar rest = rest
  body_apart : ∀ symbol ∈ mentions body, symbol.Apart
  rest_apart : ∀ s ∈ rest.splitOn ';', isComment s = false → ∀ symbol ∈ mentions s, symbol.Apart

instance (body rest : Text) : Decidable (OptionalBody body rest) :=
  haveI : Decidable (∀ c ∈ body, c ≠ '[' ∧ c ≠ ']' ∧ c ≠ ';') := List.decidableBAll _ _
  decidable_of_iff
    ((∀ c ∈ body, c ≠ '[' ∧ c ≠ ']' ∧ c ≠ ';') ∧ desugar rest = rest ∧
      (∀ symbol ∈ mentions body, symbol.Apart) ∧
      ∀ s ∈ rest.splitOn ';', isComment s = false → ∀ symbol ∈ mentions s, symbol.Apart)
    ⟨fun ⟨h₁, h₂, h₃, h₄⟩ => ⟨h₁, h₂, h₃, h₄⟩, fun ⟨h₁, h₂, h₃, h₄⟩ => ⟨h₁, h₂, h₃, h₄⟩⟩

/-! ## What they are read as -/

/-- The definitions of plain groups with given bodies, numbered from `start`. -/
def bodyDefinitions (start : Nat) (bodies : List Text) : List Definition :=
  (bodies.zipIdx start).map fun (body, n) =>
    ⟨(GroupKind.plain.symbol n).name, flatten (' ' :: body)⟩

/-- The definitions of the plain groups of a forest. -/
def groupDefinitions (forest : Forest) : List Definition :=
  ((Group.inners .plain 0 forest).zipIdx).map fun (inner, n) =>
    ⟨(GroupKind.plain.symbol n).name, flatten (' ' :: inner)⟩

/-- The content that is left of a text when its plain groups are replaced. -/
def outerContent (forest : Forest) : Text :=
  (Group.replace .plain 0 forest).1

theorem filterMap_definition?_mint (start : Nat) (bodies : List Text) :
    ((Group.mint .plain start bodies).map ('\n' :: ·)).filterMap definition? =
      bodyDefinitions start bodies := by
  rw [Group.mint, List.map_map, List.filterMap_map, bodyDefinitions, ← List.filterMap_eq_map]
  refine List.filterMap_congr fun numbered _ => ?_
  obtain ⟨body, n⟩ := numbered
  have hbreak : ∀ c ∈ ['\n'], Unicode.isWhitespace c = true :=
    List.forall_mem_singleton.2 (by decide)
  have hread := definition?_of_name (GroupKind.plain.symbol_valid n) ['\n'] hbreak (' ' :: body)
  have hform : '\n' :: Group.production .plain (GroupKind.plain.symbol n) body =
      ['\n'] ++ (GroupKind.plain.symbol n).name ++ [' ', '='] ++ ' ' :: body := by
    simp [Group.production]
  simp only [Function.comp_apply, hform, hread]

theorem filterMap_definition?_minted (forest : Forest) :
    ((Group.replace .plain 0 forest).2.map ('\n' :: ·)).filterMap definition? =
      groupDefinitions forest := by
  rw [Group.replace_snd]
  exact filterMap_definition?_mint 0 _

/-- Statements without pairs stay, and the plain groups of one behind them become definitions. -/
theorem definitions_desugarKind_plain {source front layout body : Text} {symbol : Symbol}
    {before after : List Text} (hvalid : symbol.Valid)
    (hlayout : ∀ c ∈ layout, Unicode.isWhitespace c = true)
    (hfront : ∀ c ∈ front, c ≠ '(' ∧ c ≠ ')')
    (hsplit : source.splitOn ';' =
      before ++ (layout ++ symbol.name ++ [' ', '='] ++ (front ++ body)) :: after)
    (hbefore : ∀ s ∈ before, isComment s = false → ¬GroupKind.plain.HasPair s)
    (hafter : ∀ s ∈ after, isComment s = false → ¬GroupKind.plain.HasPair s) :
    definitions (Group.desugarKind .plain source) =
      before.filterMap definition? ++
        ⟨symbol.name, flatten (front ++ outerContent (Forest.ofText .plain body))⟩ ::
          (after.filterMap definition? ++ groupDefinitions (Forest.ofText .plain body)) := by
  have hlead : ∀ c ∈ layout ++ symbol.name ++ [' ', '='] ++ front,
      c ≠ GroupKind.plain.opening ∧ c ≠ GroupKind.plain.closing := by
    intro c hc
    simp only [List.mem_append, List.mem_cons, List.not_mem_nil, or_false] at hc
    rcases hc with ((hc | hc) | rfl | rfl) | hc
    · have hblank := hlayout c hc
      exact ⟨ne_of_isWhitespace hblank (by decide), ne_of_isWhitespace hblank (by decide)⟩
    · have hinert := isInert_of_mem_name hvalid hc
      exact ⟨GroupKind.ne_opening_of_isInert hinert .plain,
        GroupKind.ne_closing_of_isInert hinert .plain⟩
    · decide
    · decide
    · exact hfront c hc
  have hforest : Forest.ofText .plain (layout ++ symbol.name ++ [' ', '='] ++ (front ++ body)) =
      Forest.prepend (layout ++ symbol.name ++ [' ', '='] ++ front)
        (Forest.ofText .plain body) := by
    rw [← List.append_assoc, Forest.ofText_append hlead]
  have hcomment : isComment (layout ++ symbol.name ++ [' ', '='] ++ (front ++ body)) = false := by
    obtain ⟨tail, htail⟩ := writeReference_eq_cons false hvalid
    have hname : symbol.name = '$' :: tail := htail
    rw [hname, List.append_assoc, List.append_assoc, List.cons_append]
    exact Group.isComment_append_sigil hlayout _
  have hread := definition?_of_name hvalid layout hlayout
    (front ++ outerContent (Forest.ofText .plain body))
  have hreplace : Group.replaceAll .plain 0 (source.splitOn ';') =
      (before ++ (layout ++ symbol.name ++ [' ', '='] ++
          (front ++ outerContent (Forest.ofText .plain body))) :: after,
        (Group.replace .plain 0 (Forest.ofText .plain body)).2) := by
    rw [hsplit, Group.replaceAll_append hbefore, Group.replaceAll_cons, hcomment,
      if_neg Bool.false_ne_true, hforest, Group.replace_prepend]
    simp only [Group.replaceAll_eq_self hafter, List.append_nil, List.append_assoc, outerContent]
  rw [definitions_eq_filterMap, Group.split_desugarKind, hreplace, List.filterMap_append,
    filterMap_definition?_minted, List.filterMap_append, List.filterMap_cons, hread,
    List.append_assoc, List.cons_append]

variable {body rest : Text}

theorem terminator_not_mem_name {symbol : Symbol} (hvalid : symbol.Valid) : ';' ∉ symbol.name :=
  hvalid.not_mem_name (by decide) (isIdentifierChar_of_mem_signs (by decide))

theorem Symbol.valid_start : start.Valid := by
  decide

theorem Symbol.valid_twin : twin.Valid := by
  decide

namespace OptionalBody

theorem flat_rest (h : OptionalBody body rest) (kind : GroupKind) : Group.Flat kind rest :=
  Group.desugar_eq_self_iff.1 h.flat kind

theorem not_mem_body (h : OptionalBody body rest) : '[' ∉ body ∧ ']' ∉ body ∧ ';' ∉ body :=
  ⟨fun hmem => (h.inline _ hmem).1 rfl, fun hmem => (h.inline _ hmem).2.1 rfl,
    fun hmem => (h.inline _ hmem).2.2 rfl⟩

/-- The first pass puts the group away: its production is the last statement. -/
theorem split_desugarKind_optional (h : OptionalBody body rest) :
    (Group.desugarKind .optional (optionalSource body rest)).splitOn ';' =
      (Symbol.start.name ++ [' ', '='] ++
          ([' ', 'x'] ++ (Group.reference (GroupKind.optional.symbol 0) body true ++ ['y']))) ::
        (rest.splitOn ';' ++
          ['\n' :: Group.production .optional (GroupKind.optional.symbol 0) body]) := by
  obtain ⟨hopening, hclosing, hterminator⟩ := h.not_mem_body
  have hsplit : (optionalSource body rest).splitOn ';' =
      optionalStatement body :: rest.splitOn ';' := by
    refine List.splitOn_append_cons_self_of_not_mem ?_ rest
    have hname := terminator_not_mem_name Symbol.valid_start
    simp [optionalStatement, hname, hterminator]
  have hbody : Forest.ofText .optional (['['] ++ body ++ [']', 'y']) =
      .group (Forest.prepend body .nil) (.char 'y' .nil) := by
    have hclean : (Forest.group (Forest.prepend body .nil) (.char 'y' .nil)).Clean .optional := by
      refine ⟨Forest.Clean.prepend (fun c hc => ?_) trivial, ⟨by decide, by decide⟩, trivial⟩
      exact ⟨(h.inline c hc).1, (h.inline c hc).2.1⟩
    rw [← Forest.ofText_toText hclean]
    simp [Forest.toText, Forest.toText_prepend, GroupKind.opening, GroupKind.closing]
  have hforest : Forest.ofText .optional (optionalStatement body) =
      Forest.prepend (Symbol.start.name ++ [' ', '='] ++ [' ', 'x'])
        (.group (Forest.prepend body .nil) (.char 'y' .nil)) := by
    have hfront : ∀ c ∈ Symbol.start.name ++ [' ', '='] ++ [' ', 'x'],
        c ≠ GroupKind.optional.opening ∧ c ≠ GroupKind.optional.closing := by
      simp [Symbol.start, Symbol.ofIdentifier, GroupKind.opening, GroupKind.closing]
    rw [← hbody, ← Forest.ofText_append hfront]
    simp [optionalStatement]
  have hcomment : isComment (optionalStatement body) = false :=
    Group.isComment_append_sigil (List.forall_mem_nil _) _
  have hkept : Group.replace .optional 0 (Forest.prepend body .nil) = (body, []) := by
    rw [Group.replace_prepend, Group.replace, List.append_nil]
  rw [Group.split_desugarKind, hsplit, Group.replaceAll_cons, hcomment,
    if_neg Bool.false_ne_true, hforest, Group.replace_prepend]
  have hglued : isIdentifierChar 'y' = true := by decide
  simp only [Group.replaceAll_eq_self (h.flat_rest .optional), Group.replace, hkept,
    Forest.beginsGlued, hglued]
  simp

/-- The group is defined as nothing or the body in parentheses. -/
theorem definitions_optionalSource (h : OptionalBody body rest) :
    ∃ content, definitions (desugar (optionalSource body rest)) =
      ⟨Symbol.start.name, content⟩ ::
        (definitions rest ++
          ⟨(GroupKind.optional.symbol 0).name,
              flatten ([' ', '|', ' '] ++ outerContent (Forest.ofText .plain (enclosed body)))⟩ ::
            groupDefinitions (Forest.ofText .plain (enclosed body))) := by
  have hbreak : ∀ c ∈ ['\n'], Unicode.isWhitespace c = true :=
    List.forall_mem_singleton.2 (by decide)
  have hfront : ∀ c ∈ [' ', '|', ' '], c ≠ '(' ∧ c ≠ ')' := by simp
  have hsplit := h.split_desugarKind_optional
  have hproduction : '\n' :: Group.production .optional (GroupKind.optional.symbol 0) body =
      ['\n'] ++ (GroupKind.optional.symbol 0).name ++ [' ', '='] ++
        ([' ', '|', ' '] ++ enclosed body) := by
    simp [Group.production, enclosed]
  rw [hproduction, ← List.cons_append] at hsplit
  have hbefore : ∀ s ∈ (Symbol.start.name ++ [' ', '='] ++
      ([' ', 'x'] ++ (Group.reference (GroupKind.optional.symbol 0) body true ++ ['y']))) ::
        rest.splitOn ';', isComment s = false → ¬GroupKind.plain.HasPair s := by
    refine List.forall_mem_cons.2 ⟨fun _ hpair => ?_, h.flat_rest .plain⟩
    have hinert : ∀ c ∈ Symbol.start.name ++ [' ', '='] ++
        ([' ', 'x'] ++ (Group.reference (GroupKind.optional.symbol 0) body true ++ ['y'])),
        isInert c = true := by
      intro c hc
      simp only [List.mem_append, List.mem_cons, List.not_mem_nil, or_false] at hc
      rcases hc with (hc | rfl | rfl) | (rfl | rfl) | hc | rfl
      · exact isInert_of_mem_name Symbol.valid_start hc
      · decide
      · decide
      · decide
      · decide
      · exact Group.isInert_of_mem_reference (GroupKind.optional.symbol_valid 0) hc
      · decide
    rw [← GroupKind.hasPair_marks, Text.marks_eq_nil hinert] at hpair
    cases hpair
  rw [desugar, definitions_desugarKind_plain (GroupKind.optional.symbol_valid 0) hbreak hfront
    hsplit hbefore (List.forall_mem_nil _), List.filterMap_cons,
    definition?_name_append Symbol.valid_start, ← definitions_eq_filterMap]
  exact ⟨_, rfl⟩

end OptionalBody

/-- Without a group in brackets, only the parentheses in a body become productions. -/
theorem definitions_separateSource (hbody : ∀ c ∈ body, c ≠ '[' ∧ c ≠ ']' ∧ c ≠ ';')
    (hrest : desugar rest = rest) :
    definitions (desugar (separateSource body rest)) =
      ⟨Symbol.start.name, flatten [' ', 'x']⟩ ::
        ⟨Symbol.twin.name, flatten ([' '] ++ outerContent (Forest.ofText .plain body))⟩ ::
          (definitions rest ++ groupDefinitions (Forest.ofText .plain body)) := by
  have hflat := Group.desugar_eq_self_iff.1 hrest
  have hname : ∀ {symbol : Symbol} {c : Char}, symbol.Valid → isInert c = false →
      c ∉ symbol.name := by
    intro symbol c hvalid hc hmem
    rw [isInert_of_mem_name hvalid hmem] at hc
    cases hc
  have hsplit : (separateSource body rest).splitOn ';' =
      [startStatement] ++ twinStatement body :: rest.splitOn ';' := by
    have hstart : ';' ∉ startStatement := by
      simp [startStatement, hname Symbol.valid_start (by decide : isInert ';' = false)]
    have htwin : ';' ∉ twinStatement body := by
      have hnot : ';' ∉ body := fun hmem => (hbody _ hmem).2.2 rfl
      simp [twinStatement, hname Symbol.valid_twin (by decide : isInert ';' = false), hnot]
    rw [separateSource, List.splitOn_append_cons_self_of_not_mem hstart,
      List.splitOn_append_cons_self_of_not_mem htwin]
    rfl
  have hstart : ∀ kind : GroupKind, ¬kind.HasPair startStatement := by
    intro kind
    apply GroupKind.not_hasPair_of_opening
    have hopening := hname Symbol.valid_start kind.isInert_delimiters.1
    cases kind <;> simpa [startStatement, GroupKind.opening] using hopening
  have hoptional : Group.Flat .optional (separateSource body rest) := by
    have htwin : ¬GroupKind.optional.HasPair (twinStatement body) := by
      apply GroupKind.not_hasPair_of_opening
      have hopening := hname Symbol.valid_twin GroupKind.optional.isInert_delimiters.1
      have hnot : '[' ∉ body := fun hmem => (hbody _ hmem).1 rfl
      simp only [GroupKind.opening] at hopening
      simp [twinStatement, GroupKind.opening, hopening, hnot]
    intro s hs hcomment
    rw [hsplit] at hs
    rcases List.mem_cons.1 hs with rfl | hs
    · exact hstart .optional
    rcases List.mem_cons.1 hs with rfl | hs
    · exact htwin
    · exact hflat .optional s hs hcomment
  have hblank : ∀ c ∈ [' '], Unicode.isWhitespace c = true :=
    List.forall_mem_singleton.2 (by decide)
  have hfront : ∀ c ∈ [' '], c ≠ '(' ∧ c ≠ ')' := by simp
  rw [desugar, hoptional.desugarKind_eq, definitions_desugarKind_plain Symbol.valid_twin hblank
    hfront hsplit (List.forall_mem_singleton.2 fun _ => hstart .plain) (hflat .plain),
    List.filterMap_cons, startStatement, definition?_name_append Symbol.valid_start,
    ← definitions_eq_filterMap]
  rfl

/-! ## What both tables have in common -/

/-- The symbols that both tables have the same productions for: those of the author, and those of
the first groups. -/
def Shared (groups : Nat) (symbol : Symbol) : Prop :=
  symbol.Apart ∨ ∃ n < groups, symbol = GroupKind.plain.symbol n

theorem Symbol.not_mentionsGroup_start : ¬start.MentionsGroup := by
  decide

theorem Symbol.not_mentionsGroup_twin : ¬twin.MentionsGroup := by
  decide

/-- None of them is among the symbols that the sources define by themselves. -/
theorem Shared.ne {groups : Nat} {symbol : Symbol} (h : Shared groups symbol) :
    symbol ≠ .start ∧ symbol ≠ .twin ∧ symbol ≠ GroupKind.optional.symbol 0 ∧
      symbol ≠ GroupKind.plain.symbol groups := by
  rcases h with ⟨hstart, htwin, hgroup⟩ | ⟨n, hn, rfl⟩
  · exact ⟨hstart, htwin, Symbol.ne_of_not_mentionsGroup hgroup _ _,
      Symbol.ne_of_not_mentionsGroup hgroup _ _⟩
  · refine ⟨(Symbol.ne_of_not_mentionsGroup Symbol.not_mentionsGroup_start _ _).symm,
      (Symbol.ne_of_not_mentionsGroup Symbol.not_mentionsGroup_twin _ _).symm,
      (GroupKind.optional_symbol_ne_plain_symbol _ _).symm, fun heq => ?_⟩
    exact Nat.ne_of_lt hn (GroupKind.symbol_inj heq)

theorem Shared.of_knows {forest : Forest} {symbol : Symbol}
    (hforest : ∀ symbol ∈ mentions (forest.toText .plain), symbol.Apart)
    (h : Group.Knows .plain 0 forest symbol) : Shared forest.bodies.length symbol := by
  refine h.imp (hforest symbol) fun ⟨n, hn, heq⟩ => ⟨n, ?_, heq⟩
  rwa [Nat.zero_add] at hn

theorem mem_mentions_of_flatten {front content : Text} {a : Alternative} {symbol : Symbol}
    (hfront : '$' ∉ front) (ha : a ∈ (Production.parse (flatten (front ++ content))).alternatives)
    (h : symbol ∈ a.references) : symbol ∈ mentions content := by
  have hmem := mem_mentions_of_references ha h
  rwa [mentions_flatten, mentions_append_of_not_mem hfront] at hmem

/-- The alternatives that are left refer to shared symbols. -/
theorem shared_of_outerContent {forest : Forest}
    (hforest : ∀ symbol ∈ mentions (forest.toText .plain), symbol.Apart) {a : Alternative}
    (ha : a ∈ (Production.parse (flatten ([' '] ++ outerContent forest))).alternatives) :
    ∀ symbol ∈ a.references, Shared forest.bodies.length symbol := fun _ hsymbol =>
  have hblank : '$' ∉ [' '] := by decide
  .of_knows hforest (Group.knows_of_mem_replace (mem_mentions_of_flatten hblank ha hsymbol))

theorem shared_of_groupDefinitions {forest : Forest}
    (hforest : ∀ symbol ∈ mentions (forest.toText .plain), symbol.Apart) {definition : Definition}
    (h : definition ∈ groupDefinitions forest) {a : Alternative}
    (ha : a ∈ (Production.parse definition.content).alternatives) :
    ∀ symbol ∈ a.references, Shared forest.bodies.length symbol := by
  intro symbol hsymbol
  obtain ⟨⟨inner, n⟩, hmem, rfl⟩ := List.mem_map.1 h
  have hinner : inner ∈ Group.inners .plain 0 forest := by
    obtain ⟨-, -, heq⟩ := List.mem_zipIdx hmem
    exact heq ▸ List.getElem_mem _
  have hblank : '$' ∉ [' '] := by decide
  exact .of_knows hforest (Group.knows_of_mem_inners hinner
    (mem_mentions_of_flatten hblank ha hsymbol))

theorem shared_of_rest (h : OptionalBody body rest) {definition : Definition}
    (hdefinition : definition ∈ definitions rest) {a : Alternative}
    (ha : a ∈ (Production.parse definition.content).alternatives) (groups : Nat) :
    ∀ symbol ∈ a.references, Shared groups symbol := by
  intro symbol hsymbol
  obtain ⟨s, hs, hcomment, rfl⟩ := exists_of_mem_definitions hdefinition
  have hmem := mentions_content_subset _ (mem_mentions_of_references ha hsymbol)
  rw [mentions_flatten] at hmem
  exact Or.inl (h.rest_apart s hs hcomment symbol hmem)

/-- The tables of both sources agree on what the author defines and on the groups in both. -/
theorem agreeOn_shared (h : OptionalBody body rest) {source source' : Text} {table table' : Table}
    {forest : Forest} {extra : List Definition} {startContent optionalContent : Text}
    {startContent' twinContent : Text}
    (hforest : ∀ symbol ∈ mentions (forest.toText .plain), symbol.Apart)
    (hparse : Table.parse source = .ok table) (hparse' : Table.parse source' = .ok table')
    (hdefinitions : definitions source =
      ⟨Symbol.start.name, startContent⟩ ::
        (definitions rest ++ ⟨(GroupKind.optional.symbol 0).name, optionalContent⟩ ::
          (groupDefinitions forest ++ extra)))
    (hextra : ∀ definition ∈ extra,
      definition.name = (GroupKind.plain.symbol forest.bodies.length).name)
    (hdefinitions' : definitions source' =
      ⟨Symbol.start.name, startContent'⟩ :: ⟨Symbol.twin.name, twinContent⟩ ::
        (definitions rest ++ groupDefinitions forest)) :
    AgreeOn (Shared forest.bodies.length) table table' := by
  have hname : ∀ {symbol other : Symbol}, symbol ≠ other → symbol.name ≠ other.name := by
    rintro ⟨name⟩ ⟨other⟩ hne heq
    exact hne (congrArg Symbol.mk heq)
  have hmem : ∀ symbol content, Shared forest.bodies.length symbol →
      (⟨symbol.name, content⟩ ∈ definitions source ↔
        (⟨symbol.name, content⟩ : Definition) ∈ definitions rest ∨
          ⟨symbol.name, content⟩ ∈ groupDefinitions forest) := by
    intro symbol content hshared
    obtain ⟨hstart, htwin, hoptional, hplain⟩ := hshared.ne
    have hnot : (⟨symbol.name, content⟩ : Definition) ∉ extra := fun hmem =>
      hname hplain (hextra _ hmem)
    simp [hdefinitions, hname hstart, hname hoptional, hnot]
  refine agreeOn_of_parse hparse hparse' ?_ ?_
  · intro symbol content hshared
    obtain ⟨hstart, htwin, hoptional, hplain⟩ := hshared.ne
    rw [hmem symbol content hshared, hdefinitions']
    simp [hname hstart, hname htwin]
  · intro symbol content hshared hdefinition a ha
    rcases (hmem symbol content hshared).1 hdefinition with hrest | hgroup
    · exact shared_of_rest h hrest ha _
    · exact shared_of_groupDefinitions hforest hgroup ha

/-! ## Nothing or the body in parentheses -/

/-- The `|` in front of a content is an alternative of its own. -/
theorem alternatives_omittable (content : Text) :
    (Production.parse (flatten ([' ', '|', ' '] ++ content))).alternatives =
      ⟨[]⟩ :: (Production.parse (flatten ([' '] ++ content))).alternatives := by
  have hspace : Unicode.isWhitespace ' ' = true := by decide
  have hlead : Text.onOneLine ([' ', '|', ' '] ++ content) =
      ' ' :: '|' :: Text.onOneLine ([' '] ++ content) := rfl
  have hempty : Alternative.parse [] = ⟨[]⟩ := by
    have htrim : Text.trim [] = [] := rfl
    rw [Alternative.parse, htrim, readSegments]
  rw [Production.parse_flatten, hlead, Production.parse_cons_of_blank hspace,
    Production.parse_flatten, Production.parse, Text.splitOn_cons_self, List.map_cons, hempty,
    Production.parse]

/-- What is defined as `| content` comes out as nothing or as `content` does. -/
theorem language_omittable {source : Text} {table : Table} (hparse : Table.parse source = .ok table)
    {symbol : Symbol} {content : Text}
    (hmem : ⟨symbol.name, flatten ([' ', '|', ' '] ++ content)⟩ ∈ definitions source)
    (text : Text) :
    table.Language symbol text ↔
      text = [] ∨ ∃ a ∈ (Production.parse (flatten ([' '] ++ content))).alternatives,
        SpelledBy table.Language a.segments text := by
  rw [language_iff_of_parse hparse hmem, alternatives_omittable, List.exists_mem_cons_iff]
  exact or_congr Iff.rfl Iff.rfl

/-- What the symbols of a compiled grammar come out as is what they derive before their forced
references are resolved. -/
theorem exists_parse_of_compileWith {limits : Limits} {source : Text} {grammar : Grammar}
    (h : Grammar.compileWith limits source = .ok grammar) :
    ∃ table, Table.parse (desugar source) = .ok table ∧ ∀ symbol text,
      (∃ limit, grammar.table.Produces limit symbol text) ↔ table.Language symbol text := by
  obtain ⟨table, hparse, hunfold⟩ := exists_unfoldAll_of_compileWith h
  refine ⟨table, hparse, fun symbol text => ?_⟩
  have hrun := (UnfoldCall.produces_run table (.all limits.maxUnfoldPasses) symbol text).1
  rw [UnfoldCall.run, hunfold] at hrun
  rw [← hrun, exists_produces_iff_language]

theorem mentions_enclosed (body : Text) : mentions (enclosed body) = mentions body := by
  have hclosing : isReferenceChar ')' = false :=
    isReferenceChar_of_mem_signs (by decide) (by decide) (by decide)
  rw [enclosed, mentions_cons_of_ne _ (by decide), mentions_append_cons _ _ hclosing,
    mentions_cons_of_ne _ (by decide), mentions, List.append_nil]

/-- An optional group comes out as nothing or as its body in parentheses does, whatever parentheses
the body holds. -/
theorem optional_group_offers_enclosed (h : OptionalBody body rest) {limits limits' : Limits}
    {grammar grammar' : Grammar}
    (hcompile : Grammar.compileWith limits (optionalSource body rest) = .ok grammar)
    (hcompile' : Grammar.compileWith limits' (separateSource (enclosed body) rest) = .ok grammar')
    (text : Text) :
    (∃ limit, grammar.table.Produces limit (GroupKind.optional.symbol 0) text) ↔
      text = [] ∨ ∃ limit, grammar'.table.Produces limit .twin text := by
  obtain ⟨table, hparse, hproduces⟩ := exists_parse_of_compileWith hcompile
  obtain ⟨table', hparse', hproduces'⟩ := exists_parse_of_compileWith hcompile'
  obtain ⟨startContent, hdefinitions⟩ := h.definitions_optionalSource
  have hinline : ∀ c ∈ enclosed body, c ≠ '[' ∧ c ≠ ']' ∧ c ≠ ';' := by
    intro c hc
    rcases List.mem_cons.1 hc with rfl | hc
    · decide
    rcases List.mem_append.1 hc with hc | hc
    · exact h.inline c hc
    · rw [List.mem_singleton.1 hc]
      decide
  have hdefinitions' := definitions_separateSource hinline h.flat
  have hforest : ∀ symbol ∈ mentions ((Forest.ofText .plain (enclosed body)).toText .plain),
      symbol.Apart := by
    rw [Forest.toText_ofText, mentions_enclosed]
    exact h.body_apart
  have hnone : groupDefinitions (Forest.ofText .plain (enclosed body)) =
      groupDefinitions (Forest.ofText .plain (enclosed body)) ++ [] := (List.append_nil _).symm
  have hagree := agreeOn_shared h hforest hparse hparse' (by rw [hdefinitions, ← hnone])
    (List.forall_mem_nil _) hdefinitions'
  have hoptional : (⟨(GroupKind.optional.symbol 0).name,
      flatten ([' ', '|', ' '] ++ outerContent (Forest.ofText .plain (enclosed body)))⟩ :
        Definition) ∈ definitions (desugar (optionalSource body rest)) := by
    rw [hdefinitions]
    exact List.mem_cons_of_mem _ (List.mem_append_right _ List.mem_cons_self)
  have htwin : (⟨Symbol.twin.name,
      flatten ([' '] ++ outerContent (Forest.ofText .plain (enclosed body)))⟩ : Definition) ∈
        definitions (desugar (separateSource (enclosed body) rest)) := by
    rw [hdefinitions']
    exact List.mem_cons_of_mem _ List.mem_cons_self
  rw [hproduces, hproduces', language_omittable hparse hoptional,
    language_iff_of_parse hparse' htwin]
  refine or_congr Iff.rfl (exists_congr fun a => and_congr_right fun ha => ?_)
  exact hagree.spelledBy_iff (shared_of_outerContent hforest ha)

/-! ## Nothing or the body -/

/-- A name is read as a reference to its symbol. -/
theorem parse_name {symbol : Symbol} (hvalid : symbol.Valid) :
    Production.parse symbol.name = ⟨[⟨[.ref symbol]⟩]⟩ := by
  have hbar : '|' ∉ symbol.name :=
    hvalid.not_mem_name (by decide) (isIdentifierChar_of_mem_signs (by decide))
  obtain ⟨tail, htail⟩ := writeReference_eq_cons false hvalid
  have hname : symbol.name = '$' :: tail := htail
  have hsigil : Unicode.isWhitespace '$' = false := by decide
  have htrim : symbol.name.trim = symbol.name :=
    Text.trim_eq_self (by simp [hname, hsigil]) (Content.endsBlank_writeReference hvalid false)
  have hread : readSegments (writeReference false symbol ++ []) = .ref symbol :: readSegments [] :=
    readSegments_writeReference hvalid fun _ => rfl
  have hwrite : writeReference false symbol = symbol.name := rfl
  rw [hwrite, List.append_nil, readSegments] at hread
  rw [Production.parse, List.splitOn_eq_singleton hbar, List.map_singleton, Alternative.parse, htrim,
    hread]

/-- The whitespace that a body gives up makes no difference around its reference. -/
theorem parse_reference {symbol : Symbol} (hvalid : symbol.Valid) (body : Text) :
    Production.parse (flatten ([' '] ++ Group.reference symbol body false)) =
      ⟨[⟨[.ref symbol]⟩]⟩ := by
  have hspace : Unicode.isWhitespace ' ' = true := by decide
  have hbreak : ∀ c ∈ [' '] ++ Group.reference symbol body false, c ≠ '\r' ∧ c ≠ '\n' := by
    intro c hc
    have hinert : isInert c = true := by
      rcases List.mem_append.1 hc with hc | hc
      · rw [List.mem_singleton.1 hc]
        decide
      · exact Group.isInert_of_mem_reference hvalid hc
    constructor
    · rintro rfl
      exact absurd hinert (by decide)
    · rintro rfl
      exact absurd hinert (by decide)
  have hform : Group.reference symbol body false =
      (if Group.leadsBlank body then [' '] else []) ++ symbol.name ++
        (if Group.trailsBlank body then [' '] else []) := by
    simp [Group.reference]
  rw [Production.parse_flatten, Text.onOneLine_eq_self hbreak, List.singleton_append,
    Production.parse_cons_of_blank hspace, hform, ← Production.parse_trimEnd]
  have hend : ∀ front : Text,
      Text.trimEnd (front ++ if Group.trailsBlank body then [' '] else []) = front.trimEnd := by
    intro front
    split_ifs
    · exact Text.trimEnd_append_blank front hspace
    · rw [List.append_nil]
  rw [hend, Production.parse_trimEnd, ← parse_name hvalid]
  split_ifs
  · exact Production.parse_cons_of_blank hspace _
  · rfl

theorem ofText_enclosed {forest : Forest} (hclean : forest.Clean .plain) :
    Forest.ofText .plain (enclosed (forest.toText .plain)) = .group forest .nil := by
  have hgroup : (Forest.group forest .nil).Clean .plain := ⟨hclean, trivial⟩
  exact Forest.ofText_toText hgroup

theorem groupDefinitions_group (forest : Forest) :
    groupDefinitions (.group forest .nil) =
      groupDefinitions forest ++
        [⟨(GroupKind.plain.symbol forest.bodies.length).name,
          flatten ([' '] ++ outerContent forest)⟩] := by
  simp [groupDefinitions, Group.inners, List.zipIdx_append, Group.length_inners, outerContent]

theorem outerContent_group (forest : Forest) :
    outerContent (.group forest .nil) =
      Group.reference (GroupKind.plain.symbol forest.bodies.length) (outerContent forest)
        false := by
  simp [outerContent, Group.replace, Group.length_replace_snd, Forest.beginsGlued]

/-- An optional group whose parentheses all have partners in its body comes out as nothing or as its
body does. -/
theorem optional_group_offers (h : OptionalBody body rest)
    (hclean : (Forest.ofText .plain body).Clean .plain) {limits limits' : Limits}
    {grammar grammar' : Grammar}
    (hcompile : Grammar.compileWith limits (optionalSource body rest) = .ok grammar)
    (hcompile' : Grammar.compileWith limits' (separateSource body rest) = .ok grammar')
    (text : Text) :
    (∃ limit, grammar.table.Produces limit (GroupKind.optional.symbol 0) text) ↔
      text = [] ∨ ∃ limit, grammar'.table.Produces limit .twin text := by
  obtain ⟨table, hparse, hproduces⟩ := exists_parse_of_compileWith hcompile
  obtain ⟨table', hparse', hproduces'⟩ := exists_parse_of_compileWith hcompile'
  obtain ⟨startContent, hdefinitions⟩ := h.definitions_optionalSource
  have hdefinitions' := definitions_separateSource h.inline h.flat
  have hforest : ∀ symbol ∈ mentions ((Forest.ofText .plain body).toText .plain),
      symbol.Apart := by
    rw [Forest.toText_ofText]
    exact h.body_apart
  -- The added pair is a group of its own, and its body is what `$t` is defined as.
  have henclosed := ofText_enclosed hclean
  rw [Forest.toText_ofText] at henclosed
  rw [henclosed, outerContent_group, groupDefinitions_group] at hdefinitions
  have hagree := agreeOn_shared h hforest hparse hparse' hdefinitions
    (List.forall_mem_singleton.2 rfl) hdefinitions'
  have hoptional : (⟨(GroupKind.optional.symbol 0).name, flatten ([' ', '|', ' '] ++
      Group.reference (GroupKind.plain.symbol (Forest.ofText .plain body).bodies.length)
        (outerContent (Forest.ofText .plain body)) false)⟩ : Definition) ∈
        definitions (desugar (optionalSource body rest)) := by
    rw [hdefinitions]
    exact List.mem_cons_of_mem _ (List.mem_append_right _ List.mem_cons_self)
  have hgroup : (⟨(GroupKind.plain.symbol (Forest.ofText .plain body).bodies.length).name,
      flatten ([' '] ++ outerContent (Forest.ofText .plain body))⟩ : Definition) ∈
        definitions (desugar (optionalSource body rest)) := by
    rw [hdefinitions]
    refine List.mem_cons_of_mem _ (List.mem_append_right _ (List.mem_cons_of_mem _ ?_))
    exact List.mem_append_right _ List.mem_cons_self
  have htwin : (⟨Symbol.twin.name,
      flatten ([' '] ++ outerContent (Forest.ofText .plain body))⟩ : Definition) ∈
        definitions (desugar (separateSource body rest)) := by
    rw [hdefinitions']
    exact List.mem_cons_of_mem _ List.mem_cons_self
  have hlanguage : table.Language (GroupKind.plain.symbol (Forest.ofText .plain body).bodies.length)
      text ↔ table'.Language .twin text := by
    rw [language_iff_of_parse hparse hgroup, language_iff_of_parse hparse' htwin]
    refine exists_congr fun a => and_congr_right fun ha => ?_
    exact hagree.spelledBy_iff (shared_of_outerContent hforest ha)
  rw [hproduces, hproduces', language_omittable hparse hoptional,
    parse_reference (GroupKind.plain.symbol_valid _), ← hlanguage]
  simp [SpelledBy, Segment.Spells]

/-- A body with nested parentheses and a symbol of the author. -/
def nestedBody : Text :=
  "(b|$a) c".toList

/-- The definition of that symbol. -/
def nestedRest : Text :=
  "$a = d".toList

/-- The grammar with that body as an optional group. -/
def nestedGrammar : Grammar :=
  let a := Symbol.ofIdentifier ['a']
  let optional := GroupKind.optional.symbol 0
  let inner := GroupKind.plain.symbol 0
  let outer := GroupKind.plain.symbol 1
  { table := {
      rows := [
        (.start, ⟨[⟨[.literal ['x'], .ref optional, .literal ['y']]⟩]⟩),
        (a, ⟨[⟨[.literal ['d']]⟩]⟩),
        (optional, ⟨[⟨[]⟩, ⟨[.ref outer]⟩]⟩),
        (inner, ⟨[⟨[.literal ['b']]⟩, ⟨[.ref a]⟩]⟩),
        (outer, ⟨[⟨[.ref inner, .literal [' ', 'c']]⟩]⟩)]
      forced := [] }
    start := .start
    limits := .standard }

/-- The grammar with that body as the definition of `$t`. -/
def separateGrammar : Grammar :=
  let a := Symbol.ofIdentifier ['a']
  let inner := GroupKind.plain.symbol 0
  { table := {
      rows := [
        (.start, ⟨[⟨[.literal ['x']]⟩]⟩),
        (.twin, ⟨[⟨[.ref inner, .literal [' ', 'c']]⟩]⟩),
        (a, ⟨[⟨[.literal ['d']]⟩]⟩),
        (inner, ⟨[⟨[.literal ['b']]⟩, ⟨[.ref a]⟩]⟩)]
      forced := [] }
    start := .start
    limits := .standard }

theorem nestedBody_offers :
    OptionalBody nestedBody nestedRest ∧ (Forest.ofText .plain nestedBody).Clean .plain ∧
      Grammar.compileWith .standard (optionalSource nestedBody nestedRest) = .ok nestedGrammar ∧
      Grammar.compileWith .standard (separateSource nestedBody nestedRest) = .ok separateGrammar ∧
      ∀ text, (∃ limit, nestedGrammar.table.Produces limit (GroupKind.optional.symbol 0) text) ↔
        text = [] ∨ ∃ limit, separateGrammar.table.Produces limit .twin text := by
  have hbody : OptionalBody nestedBody nestedRest := by decide +kernel
  have hclean : (Forest.ofText .plain nestedBody).Clean .plain := by decide
  have hcompile : Grammar.compileWith .standard (optionalSource nestedBody nestedRest) =
      .ok nestedGrammar := by decide +kernel
  have hcompile' : Grammar.compileWith .standard (separateSource nestedBody nestedRest) =
      .ok separateGrammar := by decide +kernel
  exact ⟨hbody, hclean, hcompile, hcompile',
    fun text => optional_group_offers hbody hclean hcompile hcompile' text⟩

/-! ## A parenthesis without a partner -/

/-- A body with a parenthesis that has no partner in it. -/
def strayBody : Text :=
  "b) c".toList

/-- The grammar with that body as an optional group. The parenthesis closes the added pair. -/
def strayGrammar : Grammar :=
  let optional := GroupKind.optional.symbol 0
  let inner := GroupKind.plain.symbol 0
  { table := {
      rows := [
        (.start, ⟨[⟨[.literal ['x'], .ref optional, .literal ['y']]⟩]⟩),
        (optional, ⟨[⟨[]⟩, ⟨[.ref inner, .literal [' ', 'c', ')']]⟩]⟩),
        (inner, ⟨[⟨[.literal ['b']]⟩]⟩)]
      forced := [] }
    start := .start
    limits := .standard }

/-- The grammar with that body as the definition of `$t`. -/
def strayTwinGrammar : Grammar :=
  { table := {
      rows := [
        (.start, ⟨[⟨[.literal ['x']]⟩]⟩),
        (.twin, ⟨[⟨[.literal ['b', ')', ' ', 'c']]⟩]⟩)]
      forced := [] }
    start := .start
    limits := .standard }

theorem language_strayGrammar (text : Text) :
    strayGrammar.table.Language (GroupKind.optional.symbol 0) text ↔
      text = [] ∨ text = ['b', ' ', 'c', ')'] := by
  have hinner : ∀ text, strayGrammar.table.Language (GroupKind.plain.symbol 0) text ↔
      text = ['b'] := by
    intro text
    have halternatives : strayGrammar.table.alternatives (GroupKind.plain.symbol 0) =
        [⟨[.literal ['b']]⟩] := by decide
    rw [language_iff_alternatives, halternatives]
    simp [SpelledBy, Segment.Spells]
  have halternatives : strayGrammar.table.alternatives (GroupKind.optional.symbol 0) =
      [⟨[]⟩, ⟨[.ref (GroupKind.plain.symbol 0), .literal [' ', 'c', ')']]⟩] := by decide
  rw [language_iff_alternatives, halternatives]
  simp [SpelledBy, Segment.Spells, hinner]

theorem language_strayTwinGrammar (text : Text) :
    strayTwinGrammar.table.Language .twin text ↔ text = ['b', ')', ' ', 'c'] := by
  have halternatives : strayTwinGrammar.table.alternatives .twin =
      [⟨[.literal ['b', ')', ' ', 'c']]⟩] := by decide
  rw [language_iff_alternatives, halternatives]
  simp [SpelledBy, Segment.Spells]

/-- A closing parenthesis without a partner in the body of an optional group is not produced in its
place, as it is where the same body is a definition of its own. -/
theorem stray_parenthesis_moves :
    OptionalBody strayBody [] ∧
      Grammar.compileWith .standard (optionalSource strayBody []) = .ok strayGrammar ∧
      Grammar.compileWith .standard (separateSource strayBody []) = .ok strayTwinGrammar ∧
      (∀ text, (∃ limit, strayGrammar.table.Produces limit (GroupKind.optional.symbol 0) text) ↔
        text = [] ∨ text = "b c)".toList) ∧
      (∀ text, (∃ limit, strayTwinGrammar.table.Produces limit .twin text) ↔
        text = "b) c".toList) ∧
      ¬∀ text, (∃ limit, strayGrammar.table.Produces limit (GroupKind.optional.symbol 0) text) ↔
        text = [] ∨ ∃ limit, strayTwinGrammar.table.Produces limit .twin text := by
  have hoptional : ∀ text, (∃ limit, strayGrammar.table.Produces limit
      (GroupKind.optional.symbol 0) text) ↔ text = [] ∨ text = "b c)".toList := fun text =>
    exists_produces_iff_language.trans (language_strayGrammar text)
  have htwin : ∀ text, (∃ limit, strayTwinGrammar.table.Produces limit .twin text) ↔
      text = "b) c".toList := fun text =>
    exists_produces_iff_language.trans (language_strayTwinGrammar text)
  refine ⟨by decide, by decide +kernel, by decide +kernel, hoptional, htwin, fun hall => ?_⟩
  have hmoved := (hall "b c)".toList).1 ((hoptional _).2 (Or.inr rfl))
  rw [htwin] at hmoved
  revert hmoved
  decide

end TextGrammar
