import TextGrammar.Proofs.Groups.Doubling

/-!
# Redundant parentheses

A group comes out as the same texts when its body is put in one more pair of parentheses
(`redundant_parentheses`). The pass over the brackets sees nothing of that pair, and behind it the
pair is one around a group in parentheses, whether these are the author's or stand in the production
of an optional group.

* `ProperlyNested.exists_forest`: a text whose delimiters are nested still has its parentheses
  nested when its brackets are replaced.
* `doubled_parenthesized` and `doubled_bracketed`: the added pair gives one definition more.
* `redundant_parentheses_noticed`: the names of the groups shift, which a source that mentions them
  can tell, and the pair keeps whitespace in the brackets that would be moved out of them.
-/

namespace TextGrammar

open Table

/-- A body in the delimiters of a kind. -/
def GroupKind.enclose (kind : GroupKind) (body : Text) : Text :=
  kind.opening :: (body ++ [kind.closing])

/-- The parentheses and the brackets of a text are nested in each other. -/
inductive ProperlyNested : Text → Prop where
  | nil : ProperlyNested []
  | char {c : Char} {rest : Text} (hc : ∀ kind : GroupKind, c ≠ kind.opening ∧ c ≠ kind.closing)
      (hrest : ProperlyNested rest) : ProperlyNested (c :: rest)
  | group (kind : GroupKind) {body rest : Text} (hbody : ProperlyNested body)
      (hrest : ProperlyNested rest) :
      ProperlyNested (kind.opening :: (body ++ kind.closing :: rest))

/-- A text without delimiters. -/
theorem ProperlyNested.of_not_mem {text : Text}
    (h : ∀ kind : GroupKind, kind.opening ∉ text ∧ kind.closing ∉ text) : ProperlyNested text := by
  induction text with
  | nil => exact .nil
  | cons c rest ih =>
    simp only [List.mem_cons, not_or] at h
    refine .char (fun kind => ?_) (ih fun kind => ⟨(h kind).1.2, (h kind).2.2⟩)
    exact ⟨Ne.symm (h kind).1.1, Ne.symm (h kind).2.1⟩

/-- The texts in front of a group, in it and behind it. No pair of delimiters begins in one and ends
in another, and no statement ends in them. -/
structure NestedParts (front body back : Text) : Prop where
  nested_front : ProperlyNested front
  nested_body : ProperlyNested body
  nested_back : ProperlyNested back
  terminator_not_mem : ';' ∉ front ++ (body ++ back)

/-- A pair of brackets around the body gives up no whitespace. -/
def KeepsEdges (body : Text) : Prop :=
  Group.leadsBlank (Group.replace .optional 0 (.ofText .optional body)).1 = false ∧
    Group.trailsBlank (Group.replace .optional 0 (.ofText .optional body)).1 = false

/-- The source mentions none of its own plain groups, and not the one that a group more would be. -/
def MentionsNoGroup (source : Text) : Prop :=
  ∀ n ≤ Group.closed .plain (Group.desugarKind .optional source),
    GroupKind.plain.symbol n ∉ mentionsAll (source.splitOn ';')

instance (body : Text) : Decidable (KeepsEdges body) :=
  inferInstanceAs (Decidable (_ ∧ _))

instance (source : Text) : Decidable (MentionsNoGroup source) :=
  inferInstanceAs (Decidable (∀ n ≤ _, _ ∉ _))

/-- What stands in front of the content of `$s`. -/
def startLead : Text :=
  Symbol.start.name ++ [' ', '=', ' ']

/-- The source `$s = front group back`, with more statements behind it. -/
def groupSource (front group back rest : Text) : Text :=
  startLead ++ (front ++ (group ++ back)) ++ ';' :: rest

/-- The texts that a grammar can generate for some choices, if the limit on the depth of expansions
does not matter. -/
def Grammar.CanGenerate (grammar : Grammar) (text : Text) : Prop :=
  ∃ (depth : Nat) (σ : Type) (_ : RandomSource σ) (_ : LawfulRandomSource σ) (source : σ),
    (Grammar.generate { grammar with limits.maxExpansionDepth := depth } source).1 = .ok text

/-- These are the final forms of what the start symbol comes out as. -/
theorem Grammar.canGenerate_iff {grammar : Grammar} {text : Text} :
    grammar.CanGenerate text ↔
      ∃ raw, grammar.table.Language grammar.start raw ∧ finish raw = text := by
  have hgenerate : ∀ (depth : Nat) {σ : Type} [RandomSource σ] (source : σ),
      (Grammar.generate { grammar with limits.maxExpansionDepth := depth } source).1 = .ok text ↔
        ∃ raw, (grammar.table.expand depth grammar.start source).result = .ok raw ∧
          finish raw = text := by
    intro depth σ _ source
    show ((grammar.table.expand depth grammar.start source).result.map finish) = .ok text ↔ _
    cases (grammar.table.expand depth grammar.start source).result with
    | error error => simp [Except.map]
    | ok raw => simp [Except.map]
  constructor
  · rintro ⟨depth, σ, _, hlawful, source, h⟩
    obtain ⟨raw, hraw, hfinish⟩ := (hgenerate depth source).1 h
    exact ⟨raw, exists_produces_iff_language.1 ⟨depth, σ, _, hlawful, source, hraw⟩, hfinish⟩
  · rintro ⟨raw, hlanguage, hfinish⟩
    obtain ⟨depth, σ, _, hlawful, source, hraw⟩ := exists_produces_iff_language.2 hlanguage
    exact ⟨depth, σ, _, hlawful, source, (hgenerate depth source).2 ⟨raw, hraw, hfinish⟩⟩

/-! ## Parentheses in front of the brackets -/

namespace Forest

/-- A forest of brackets in parentheses, in front of another. -/
def parenthesized (body rest : Forest) : Forest :=
  .char '(' (body.append (.char ')' rest))

variable {body rest : Forest}

theorem toText_group (kind : GroupKind) (body rest : Forest) :
    (Forest.group body rest).toText kind =
      kind.enclose (body.toText kind) ++ rest.toText kind := by
  simp [toText, GroupKind.enclose]

theorem toText_parenthesized (kind : GroupKind) (body rest : Forest) :
    (parenthesized body rest).toText kind =
      GroupKind.plain.enclose (body.toText kind) ++ rest.toText kind := by
  simp [parenthesized, toText, toText_append, GroupKind.enclose, GroupKind.opening,
    GroupKind.closing]

theorem toText_parenthesized_nil (kind : GroupKind) (body : Forest) :
    (parenthesized body .nil).toText kind = GroupKind.plain.enclose (body.toText kind) := by
  rw [toText_parenthesized, toText, List.append_nil]

theorem Clean.parenthesized (hbody : body.Clean .optional) (hrest : rest.Clean .optional) :
    (Forest.parenthesized body rest).Clean .optional :=
  ⟨by decide, hbody.append ⟨by decide, hrest⟩⟩

theorem bodies_parenthesized (body rest : Forest) :
    (parenthesized body rest).bodies = body.bodies ++ rest.bodies := by
  rw [parenthesized, bodies, bodies_append, bodies]

end Forest

namespace Group

theorem inners_parenthesized (kind : GroupKind) (start : Nat) (body rest : Forest) :
    inners kind start (.parenthesized body rest) =
      inners kind start body ++ inners kind (start + body.bodies.length) rest := by
  rw [Forest.parenthesized, inners, inners_append, inners]

theorem replace_parenthesized (kind : GroupKind) (start : Nat) (body rest : Forest) :
    (replace kind start (.parenthesized body rest)).1 =
      GroupKind.plain.enclose (replace kind start body).1 ++
        (replace kind (start + body.bodies.length) rest).1 := by
  have hclosing : (Forest.char ')' rest).beginsGlued = false :=
    isIdentifierChar_of_mem_signs (by decide)
  simp only [Forest.parenthesized, replace, replace_append kind start body hclosing,
    length_replace_snd, GroupKind.enclose, GroupKind.opening, GroupKind.closing,
    List.cons_append, List.append_assoc, List.nil_append]

end Group

/-- Behind the pass over its brackets a properly nested text still has its parentheses nested. -/
theorem ProperlyNested.exists_forest {text : Text} (h : ProperlyNested text) :
    ∃ forest : Forest, forest.Clean .optional ∧ forest.toText .optional = text ∧
      ∀ start, ∃ left : Forest, left.Clean .plain ∧
        left.toText .plain = (Group.replace .optional start forest).1 := by
  induction h with
  | nil => exact ⟨.nil, trivial, rfl, fun _ => ⟨.nil, trivial, rfl⟩⟩
  | @char c rest hc _ ih =>
    obtain ⟨forest, hclean, rfl, hleft⟩ := ih
    refine ⟨.char c forest, ⟨hc .optional, hclean⟩, rfl, fun start => ?_⟩
    obtain ⟨left, hcleft, hleft⟩ := hleft start
    exact ⟨.char c left, ⟨hc .plain, hcleft⟩, congrArg (c :: ·) hleft⟩
  | @group kind body rest _ _ ihbody ihrest =>
    obtain ⟨inner, hinner, rfl, hbody⟩ := ihbody
    obtain ⟨forest, hclean, rfl, hrest⟩ := ihrest
    cases kind with
    | plain =>
      refine ⟨.parenthesized inner forest, hinner.parenthesized hclean, ?_, fun start => ?_⟩
      · simp [Forest.toText_parenthesized, GroupKind.enclose]
      obtain ⟨left, hcleft, hleft⟩ := hbody start
      obtain ⟨right, hcright, hright⟩ := hrest (start + inner.bodies.length)
      refine ⟨.group left right, ⟨hcleft, hcright⟩, ?_⟩
      rw [Group.replace_parenthesized, ← hleft, ← hright, Forest.toText_group]
    | optional =>
      refine ⟨.group inner forest, ⟨hinner, hclean⟩, rfl, fun start => ?_⟩
      obtain ⟨right, hcright, hright⟩ := hrest (start + inner.bodies.length + 1)
      refine ⟨.prepend (Group.reference (GroupKind.optional.symbol (start + inner.bodies.length))
        (Group.replace .optional start inner).1 forest.beginsGlued) right, ?_, ?_⟩
      · refine hcright.prepend fun c hc => ?_
        have hinert := Group.isInert_of_mem_reference (GroupKind.optional.symbol_valid _) hc
        exact ⟨GroupKind.ne_opening_of_isInert hinert _, GroupKind.ne_closing_of_isInert hinert _⟩
      · simp only [Forest.toText_prepend, hright, Group.replace, Group.length_replace_snd]

/-! ## The pass over the brackets -/

theorem isComment_startLead_append (text : Text) : isComment (startLead ++ text) = false :=
  Group.isComment_append_sigil (List.forall_mem_nil _) _

theorem ne_delimiter_of_mem_startLead (kind : GroupKind) :
    ∀ c ∈ startLead, c ≠ kind.opening ∧ c ≠ kind.closing := by
  simp only [startLead, Symbol.start, Symbol.ofIdentifier]
  cases kind <;> simp [GroupKind.opening, GroupKind.closing]

namespace Group

/-- The pass over the brackets, for a source that begins with a definition of `$s` with known
brackets. -/
theorem split_desugarKind_groupSource {left middle : Forest} {group back : Text} (rest : Text)
    (hleft : left.Clean .optional) (hmiddle : middle.Clean .optional)
    (hglued : middle.beginsGlued = false) (htext : middle.toText .optional = group ++ back)
    (hterminator : ';' ∉ left.toText .optional ++ (group ++ back)) :
    (desugarKind .optional (groupSource (left.toText .optional) group back rest)).splitOn ';' =
      (startLead ++ ((replace .optional 0 left).1 ++
          (replace .optional left.bodies.length middle).1)) ::
        ((replaceAll .optional (left.bodies.length + middle.bodies.length) (rest.splitOn ';')).1 ++
          (mint .optional 0 (inners .optional 0 left ++
            inners .optional left.bodies.length middle ++
              innersAll .optional (left.bodies.length + middle.bodies.length)
                (rest.splitOn ';'))).map ('\n' :: ·)) := by
  have hclean : (Forest.prepend startLead (left.append middle)).Clean .optional :=
    (hleft.append hmiddle).prepend (ne_delimiter_of_mem_startLead .optional)
  have hstatement : (Forest.prepend startLead (left.append middle)).toText .optional =
      startLead ++ (left.toText .optional ++ (group ++ back)) := by
    rw [Forest.toText_prepend, Forest.toText_append, htext]
  have hsplit : (groupSource (left.toText .optional) group back rest).splitOn ';' =
      (startLead ++ (left.toText .optional ++ (group ++ back))) :: rest.splitOn ';' := by
    refine List.splitOn_append_cons_self_of_not_mem ?_ rest
    rw [List.mem_append, not_or]
    exact ⟨by decide, hterminator⟩
  rw [split_desugarKind_appended, appended, hsplit, replaceAll_cons, innersAll,
    isComment_startLead_append, if_neg Bool.false_ne_true, if_neg Bool.false_ne_true, ← hstatement,
    Forest.ofText_toText hclean, replace_prepend, inners_prepend, inners_append,
    replace_append _ _ left hglued]
  simp only [length_replace_snd, length_inners, Nat.zero_add, List.cons_append,
    List.length_append, List.append_assoc]

/-- The same where the definition of `$s` has a known pair of brackets. -/
theorem split_desugarKind_bracketed {left inner right : Forest} {n : Nat} (rest : Text)
    (hn : left.bodies.length + inner.bodies.length = n) (hleft : left.Clean .optional)
    (hinner : inner.Clean .optional) (hright : right.Clean .optional)
    (hterminator : ';' ∉ left.toText .optional ++ (inner.toText .optional ++
      right.toText .optional)) :
    (desugarKind .optional (groupSource (left.toText .optional)
        (GroupKind.optional.enclose (inner.toText .optional)) (right.toText .optional)
          rest)).splitOn ';' =
      ((startLead ++ ((replace .optional 0 left).1 ++
          (reference (GroupKind.optional.symbol n) (replace .optional left.bodies.length inner).1
              right.beginsGlued ++ (replace .optional (n + 1) right).1))) ::
        ((replaceAll .optional (n + 1 + right.bodies.length) (rest.splitOn ';')).1 ++
          (mint .optional 0 (inners .optional 0 left ++
            inners .optional left.bodies.length inner)).map ('\n' :: ·))) ++
        ('\n' :: production .optional (GroupKind.optional.symbol n)
            (replace .optional left.bodies.length inner).1) ::
          (mint .optional (n + 1) (inners .optional (n + 1) right ++
            innersAll .optional (n + 1 + right.bodies.length) (rest.splitOn ';'))).map
              ('\n' :: ·) := by
  have hcount : left.bodies.length + (Forest.group inner right).bodies.length =
      n + 1 + right.bodies.length := by
    simp only [Forest.bodies, List.length_append, List.length_cons]
    omega
  simp only [List.mem_append, not_or] at hterminator
  have hmiddle : (Forest.group inner right).Clean .optional := ⟨hinner, hright⟩
  rw [split_desugarKind_groupSource rest hleft hmiddle rfl (Forest.toText_group ..), hcount]
  · simp only [replace, inners, length_replace_snd, length_inners, mint_append, mint_cons, hn,
      List.map_append, List.map_cons, List.append_assoc, List.cons_append,
      Nat.zero_add]
  · simp [GroupKind.enclose, GroupKind.opening, GroupKind.closing, hterminator]

/-! ## A body in parentheses -/

theorem splitTopLevel_ne_nil (depth : Nat) (text : Text) : splitTopLevel depth text ≠ [] := by
  induction text generalizing depth with
  | nil => exact List.cons_ne_nil _ _
  | cons c rest ih =>
    rw [splitTopLevel]
    split_ifs with hcut
    · exact List.cons_ne_nil _ _
    · exact mt List.modifyHead_eq_nil_iff.1 (ih _)

theorem leadsBlank_enclose (kind : GroupKind) (body : Text) :
    leadsBlank (kind.enclose body) = false := by
  have hopening := (Content.isWhitespace_delimiter kind).1
  rw [leadsBlank, GroupKind.enclose, Content.splitTopLevel_opening]
  cases hpieces : splitTopLevel (0 + 1) (body ++ [kind.closing]) with
  | nil => exact absurd hpieces (splitTopLevel_ne_nil _ _)
  | cons first others => simp [beginsBlank, hopening]

/-- The last character of a text ends one of its pieces. -/
theorem exists_mem_splitTopLevel_append {c : Char} (hc : c ≠ '|') (depth : Nat) (text : Text) :
    ∃ piece ∈ splitTopLevel depth (text ++ [c]), piece.getLast? = some c := by
  induction text generalizing depth with
  | nil => exact ⟨[c], by simp [splitTopLevel, hc], rfl⟩
  | cons d text ih =>
    rw [List.cons_append, splitTopLevel]
    split_ifs with hcut
    · obtain ⟨piece, hpiece, hlast⟩ := ih depth
      exact ⟨piece, List.mem_cons_of_mem _ hpiece, hlast⟩
    · obtain ⟨piece, hpiece, hlast⟩ := ih (depthAfter depth d)
      cases hpieces : splitTopLevel (depthAfter depth d) (text ++ [c]) with
      | nil => simp [hpieces] at hpiece
      | cons first others =>
        rw [hpieces] at hpiece
        rcases List.mem_cons.1 hpiece with rfl | hother
        · exact ⟨d :: piece, by simp, by simp [List.getLast?_cons, hlast]⟩
        · exact ⟨piece, by simp [hother], hlast⟩

theorem trailsBlank_enclose (kind : GroupKind) (body : Text) :
    trailsBlank (kind.enclose body) = false := by
  have hbar : kind.closing ≠ '|' := by cases kind <;> decide
  obtain ⟨piece, hpiece, hlast⟩ :=
    exists_mem_splitTopLevel_append hbar 0 (kind.opening :: body)
  refine List.all_eq_false.2 ⟨piece, hpiece, ?_⟩
  simp [endsBlank, hlast, (Content.isWhitespace_delimiter kind).2]

/-- Parentheses keep a body from giving up whitespace, which is no change if it has none to give up.
Which numbers its groups have does not matter for that. -/
theorem reference_enclose {forest : Forest} (hclean : forest.Clean .optional)
    (h : KeepsEdges (forest.toText .optional)) (symbol : Symbol) (start : Nat) (glued : Bool) :
    reference symbol (GroupKind.plain.enclose (replace .optional start forest).1) glued =
      reference symbol (replace .optional start forest).1 glued := by
  obtain ⟨hleads, htrails⟩ := h
  have hshared : Renamed (fun _ _ => True) (replace .optional 0 forest).1
      (replace .optional start forest).1 :=
    (renamed_replace (fun _ _ => trivial) fun _ _ => trivial).1
  rw [Forest.ofText_toText hclean, hshared.leadsBlank_eq] at hleads
  rw [Forest.ofText_toText hclean, hshared.trailsBlank_eq] at htrails
  rw [reference, reference, leadsBlank_enclose, trailsBlank_enclose, hleads, htrails]

/-- What stands in front of the body in the production of an optional group. -/
def optionalLead (symbol : Symbol) : Text :=
  '\n' :: (symbol.name ++ [' ', '=', ' ', '|', ' '])

theorem production_optional (symbol : Symbol) (body : Text) :
    '\n' :: production .optional symbol body =
      optionalLead symbol ++ ([] ++ (GroupKind.plain.enclose body ++ [])) := by
  simp [production, optionalLead, GroupKind.enclose, GroupKind.opening, GroupKind.closing]

theorem ne_delimiter_of_mem_optionalLead {symbol : Symbol} (hvalid : symbol.Valid)
    (kind : GroupKind) : ∀ c ∈ optionalLead symbol, c ≠ kind.opening ∧ c ≠ kind.closing := by
  intro c hc
  rw [optionalLead, List.mem_cons, List.mem_append] at hc
  rcases hc with rfl | hc | hc
  · cases kind <;> decide
  · have hinert := isInert_of_mem_name hvalid hc
    exact ⟨GroupKind.ne_opening_of_isInert hinert kind, GroupKind.ne_closing_of_isInert hinert kind⟩
  · have hsigns : ∀ c ∈ [' ', '=', ' ', '|', ' '], c ≠ kind.opening ∧ c ≠ kind.closing := by
      cases kind <;> simp [GroupKind.opening, GroupKind.closing]
    exact hsigns c hc

theorem isComment_optionalLead_append (n : Nat) (text : Text) :
    isComment (optionalLead (GroupKind.optional.symbol n) ++ text) = false := by
  obtain ⟨tail, htail⟩ := writeReference_eq_cons false (GroupKind.optional.symbol_valid n)
  have hname : (GroupKind.optional.symbol n).name = '$' :: tail := htail
  have hbreak : Unicode.isWhitespace '\n' = true := by decide
  rw [optionalLead, hname, List.cons_append, isComment_cons, if_pos hbreak]
  exact isComment_append_sigil (List.forall_mem_nil _) _

end Group

section Doubling

variable {front body back rest : Text}

/-- What names a plain group once the brackets are gone named one before. -/
theorem MentionsNoGroup.desugarKind_optional {source : Text} (h : MentionsNoGroup source) :
    ∀ n ≤ Group.closed .plain (Group.desugarKind .optional source),
      GroupKind.plain.symbol n ∉
        mentionsAll ((Group.desugarKind .optional source).splitOn ';') := by
  intro n hn hmem
  have hpass := (Group.mentionsAll_desugarKind_perm .optional source).subset hmem
  rw [List.mem_append, List.mem_append, or_self] at hpass
  rcases hpass with hpass | hpass
  · exact h n hn hpass
  · obtain ⟨m, -, -, heq⟩ := GroupKind.mem_symbols.1 hpass
    exact GroupKind.optional_symbol_ne_plain_symbol m n heq.symm

/-- A pair of parentheses around a group behind a text without parentheses. -/
theorem doubled_behind_lead {source source' lead : Text} (before : List Text) {after : List Text}
    {left inner right : Forest} (hlead : ∀ c ∈ lead, c ≠ '(' ∧ c ≠ ')')
    (hleft : left.Clean .plain) (hinner : inner.Clean .plain) (hright : right.Clean .plain)
    (hcomment : ∀ text, isComment (lead ++ text) = false)
    (hsplit : source.splitOn ';' = before ++ (lead ++ (left.toText .plain ++
      (GroupKind.plain.enclose (inner.toText .plain) ++ right.toText .plain))) :: after)
    (hsplit' : source'.splitOn ';' = before ++ (lead ++ (left.toText .plain ++
      (GroupKind.plain.enclose (GroupKind.plain.enclose (inner.toText .plain)) ++
        right.toText .plain))) :: after)
    (hapart : ∀ n ≤ Group.closed .plain source,
      GroupKind.plain.symbol n ∉ mentionsAll (source.splitOn ';')) :
    ∃ number total, Doubled number total (definitions (Group.desugarKind .plain source))
      (definitions (Group.desugarKind .plain source')) := by
  have hfront := hleft.prepend hlead
  have hsingle : ((Forest.prepend lead left).append (.group inner right)).toText .plain =
      lead ++ (left.toText .plain ++
        (GroupKind.plain.enclose (inner.toText .plain) ++ right.toText .plain)) := by
    rw [Forest.toText_append, Forest.toText_prepend, List.append_assoc, Forest.toText_group]
  have hdouble : ((Forest.prepend lead left).append
      (.group (.group inner .nil) right)).toText .plain = lead ++ (left.toText .plain ++
        (GroupKind.plain.enclose (GroupKind.plain.enclose (inner.toText .plain)) ++
          right.toText .plain)) := by
    rw [Forest.toText_append, Forest.toText_prepend, List.append_assoc, Forest.toText_group,
      Forest.toText_group, Forest.toText, List.append_nil]
  rw [← hsingle] at hsplit
  rw [← hdouble] at hsplit'
  have hnone := hcomment (left.toText .plain ++
    (GroupKind.plain.enclose (inner.toText .plain) ++ right.toText .plain))
  have hnone' := hcomment (left.toText .plain ++ (GroupKind.plain.enclose
    (GroupKind.plain.enclose (inner.toText .plain)) ++ right.toText .plain))
  rw [← hsingle] at hnone
  rw [← hdouble] at hnone'
  obtain ⟨number, hdoubled⟩ :=
    doubled_desugarKind hfront hinner hright hsplit hsplit' hnone hnone' hapart
  exact ⟨number, _, hdoubled⟩

/-- A pair of parentheses around a group in parentheses. -/
theorem doubled_parenthesized (hparts : NestedParts front body back)
    (hmentions : MentionsNoGroup (groupSource front (GroupKind.plain.enclose body) back rest)) :
    ∃ number total, Doubled number total
      (definitions (desugar (groupSource front (GroupKind.plain.enclose body) back rest)))
      (definitions (desugar (groupSource front
        (GroupKind.plain.enclose (GroupKind.plain.enclose body)) back rest))) := by
  obtain ⟨hfront, hbody, hback, hterminator⟩ := hparts
  obtain ⟨left, hleft, rfl, hleftover⟩ := hfront.exists_forest
  obtain ⟨inner, hinner, rfl, hmiddle⟩ := hbody.exists_forest
  obtain ⟨right, hright, rfl, hremains⟩ := hback.exists_forest
  have hnil : Forest.nil.Clean .optional := trivial
  have hglued : ∀ inner right, (Forest.parenthesized inner right).beginsGlued = false :=
    fun _ _ => isIdentifierChar_of_mem_signs (by decide)
  have hdouble := Forest.toText_parenthesized_nil .optional inner
  have henclose : ∀ group : Text, ';' ∉ group → ';' ∉ GroupKind.plain.enclose group := by
    simp [GroupKind.enclose, GroupKind.opening, GroupKind.closing]
  simp only [List.mem_append, not_or] at hterminator
  obtain ⟨hterminator_left, hterminator, hterminator_right⟩ := hterminator
  have hfirst := Group.split_desugarKind_groupSource rest hleft (hinner.parenthesized hright)
    (hglued inner right) (Forest.toText_parenthesized _ inner right) (by
      simp [hterminator_left, hterminator_right, henclose _ hterminator])
  have hsecond := Group.split_desugarKind_groupSource rest hleft
    ((hinner.parenthesized hnil).parenthesized hright)
    (hglued (.parenthesized inner .nil) right)
    (Forest.toText_parenthesized _ (.parenthesized inner .nil) right) (by
      simp [hterminator_left, hterminator_right, hdouble, henclose _ (henclose _ hterminator)])
  obtain ⟨u, hu, hleftover⟩ := hleftover 0
  obtain ⟨b, hb, hmiddle⟩ := hmiddle left.bodies.length
  obtain ⟨v, hv, hremains⟩ := hremains (left.bodies.length + inner.bodies.length)
  simp only [hdouble, Group.replace_parenthesized, Group.inners_parenthesized,
    Forest.bodies_parenthesized, List.length_append, Forest.bodies,
    Group.inners, List.append_nil, Group.replace, ← hleftover, ← hmiddle, ← hremains]
    at hfirst hsecond
  exact doubled_behind_lead [] (ne_delimiter_of_mem_startLead .plain) hu hb hv
    isComment_startLead_append hfirst hsecond hmentions.desugarKind_optional

/-- A pair of parentheses around what is all in a pair of brackets. -/
theorem doubled_bracketed (hparts : NestedParts front body back) (hedges : KeepsEdges body)
    (hmentions : MentionsNoGroup (groupSource front (GroupKind.optional.enclose body) back rest)) :
    ∃ number total, Doubled number total
      (definitions (desugar (groupSource front (GroupKind.optional.enclose body) back rest)))
      (definitions (desugar (groupSource front
        (GroupKind.optional.enclose (GroupKind.plain.enclose body)) back rest))) := by
  obtain ⟨hfront, hbody, hback, hterminator⟩ := hparts
  obtain ⟨left, hleft, rfl, -⟩ := hfront.exists_forest
  obtain ⟨inner, hinner, rfl, hmiddle⟩ := hbody.exists_forest
  obtain ⟨right, hright, rfl, -⟩ := hback.exists_forest
  have hnil : Forest.nil.Clean .optional := trivial
  have hdouble := Forest.toText_parenthesized_nil .optional inner
  have hbodies : (Forest.parenthesized inner .nil).bodies.length = inner.bodies.length := by
    rw [Forest.bodies_parenthesized, Forest.bodies, List.append_nil]
  have hterminator' : ';' ∉ left.toText .optional ++
      ((Forest.parenthesized inner .nil).toText .optional ++ right.toText .optional) := by
    simpa [hdouble, GroupKind.enclose, GroupKind.opening, GroupKind.closing] using hterminator
  obtain ⟨n, hn⟩ : ∃ n, left.bodies.length + inner.bodies.length = n := ⟨_, rfl⟩
  obtain ⟨b, hb, hb'⟩ := hmiddle left.bodies.length
  have hfirst := Group.split_desugarKind_bracketed rest hn hleft hinner hright hterminator
  have hsecond := Group.split_desugarKind_bracketed rest (hbodies ▸ hn) hleft
    (hinner.parenthesized hnil) hright hterminator'
  rw [← hb'] at hfirst
  simp only [Group.replace_parenthesized, Group.inners_parenthesized, Group.inners,
    List.append_nil, Group.replace, ← hb'] at hsecond
  rw [hdouble] at hsecond
  have hsame := Group.reference_enclose hinner hedges (GroupKind.optional.symbol n)
    left.bodies.length right.beginsGlued
  rw [← hb'] at hsame
  rw [hsame, Group.production_optional] at hsecond
  rw [Group.production_optional] at hfirst
  have hnone : Forest.nil.Clean .plain := trivial
  have hlead := Group.ne_delimiter_of_mem_optionalLead (GroupKind.optional.symbol_valid n) .plain
  exact doubled_behind_lead _ hlead hnone hb hnone (Group.isComment_optionalLead_append n) hfirst
    hsecond hmentions.desugarKind_optional

end Doubling

/-! ## Redundant parentheses -/

/-- A group generates the same texts with its body in another pair of parentheses, if both sources
compile. -/
def RedundantParentheses (kind : GroupKind) (front body back rest : Text) : Prop :=
  ∀ {limits limits' : Limits} {grammar grammar' : Grammar},
    Grammar.compileWith limits (groupSource front (kind.enclose body) back rest) = .ok grammar →
      Grammar.compileWith limits' (groupSource front
          (kind.enclose (GroupKind.plain.enclose body)) back rest) = .ok grammar' →
        ∀ text, grammar.CanGenerate text ↔ grammar'.CanGenerate text

theorem start_of_compileWith {limits : Limits} {source : Text} {grammar : Grammar}
    (h : Grammar.compileWith limits source = .ok grammar) : grammar.start = .start := by
  obtain ⟨table, hparse, hunfold⟩ := exists_unfoldAll_of_compileWith h
  simp only [Grammar.compileWith, hparse, bind, Except.bind, hunfold, Except.ok.injEq] at h
  rw [← h]

/-- What a compiled source can generate are the final forms of what `$s` derives in the table that
is read. -/
theorem exists_canGenerate_iff {limits : Limits} {source : Text} {grammar : Grammar}
    (h : Grammar.compileWith limits source = .ok grammar) :
    ∃ table, Table.parse (desugar source) = .ok table ∧ ∀ text,
      grammar.CanGenerate text ↔ ∃ raw, table.Language .start raw ∧ Grammar.finish raw = text := by
  obtain ⟨table, hparse, hproduces⟩ := exists_parse_of_compileWith h
  refine ⟨table, hparse, fun text => ?_⟩
  rw [Grammar.canGenerate_iff, start_of_compileWith h]
  refine exists_congr fun raw => and_congr_left' ?_
  rw [← hproduces, exists_produces_iff_language]

/-- Parentheses around all that is in a group make no difference, if the brackets around them would
give up no whitespace without them and no plain group is mentioned by its name. -/
theorem redundant_parentheses (kind : GroupKind) {front body back rest : Text}
    (hparts : NestedParts front body back) (hedges : kind = .optional → KeepsEdges body)
    (hmentions : MentionsNoGroup (groupSource front (kind.enclose body) back rest)) :
    RedundantParentheses kind front body back rest := by
  intro limits limits' grammar grammar' hcompile hcompile' text
  obtain ⟨table, hparse, hgenerate⟩ := exists_canGenerate_iff hcompile
  obtain ⟨table', hparse', hgenerate'⟩ := exists_canGenerate_iff hcompile'
  have hdoubled : ∃ number total, Doubled number total
      (definitions (desugar (groupSource front (kind.enclose body) back rest)))
      (definitions (desugar (groupSource front
        (kind.enclose (GroupKind.plain.enclose body)) back rest))) := by
    cases kind with
    | plain => exact doubled_parenthesized hparts hmentions
    | optional => exact doubled_bracketed hparts (hedges rfl) hmentions
  obtain ⟨number, total, hdoubled⟩ := hdoubled
  have hstart : Shifted number total .start .start := .apart fun n _ =>
    Symbol.ne_of_not_mentionsGroup Symbol.not_mentionsGroup_start .plain n
  rw [hgenerate, hgenerate']
  exact exists_congr fun raw => and_congr_left' (hdoubled.language_iff hparse hparse' hstart)

/-- The grammar of `$s = a[x|(y)]b;`. -/
def singleGrammar : Grammar :=
  let optional := GroupKind.optional.symbol 0
  let inner := GroupKind.plain.symbol 0
  let outer := GroupKind.plain.symbol 1
  { table := {
      rows := [
        (.start, ⟨[⟨[.literal ['a'], .ref optional, .literal ['b']]⟩]⟩),
        (optional, ⟨[⟨[]⟩, ⟨[.ref outer]⟩]⟩),
        (inner, ⟨[⟨[.literal ['y']]⟩]⟩),
        (outer, ⟨[⟨[.literal ['x']]⟩, ⟨[.ref inner]⟩]⟩)]
      forced := [] }
    start := .start
    limits := .standard }

/-- The grammar of `$s = a[(x|(y))]b;`. -/
def doubleGrammar : Grammar :=
  let optional := GroupKind.optional.symbol 0
  let inner := GroupKind.plain.symbol 0
  let middle := GroupKind.plain.symbol 1
  let outer := GroupKind.plain.symbol 2
  { table := {
      rows := [
        (.start, ⟨[⟨[.literal ['a'], .ref optional, .literal ['b']]⟩]⟩),
        (optional, ⟨[⟨[]⟩, ⟨[.ref outer]⟩]⟩),
        (inner, ⟨[⟨[.literal ['y']]⟩]⟩),
        (middle, ⟨[⟨[.literal ['x']]⟩, ⟨[.ref inner]⟩]⟩),
        (outer, ⟨[⟨[.ref middle]⟩]⟩)]
      forced := [] }
    start := .start
    limits := .standard }

/-- A body with a choice and a group in it. -/
def choiceBody : Text :=
  ['x', '|', '(', 'y', ')']

theorem choiceBody_redundant :
    NestedParts ['a'] choiceBody ['b'] ∧ KeepsEdges choiceBody ∧
      MentionsNoGroup (groupSource ['a'] (GroupKind.optional.enclose choiceBody) ['b'] []) ∧
      Grammar.compileWith .standard (groupSource ['a']
        (GroupKind.optional.enclose choiceBody) ['b'] []) = .ok singleGrammar ∧
      Grammar.compileWith .standard (groupSource ['a']
        (GroupKind.optional.enclose (GroupKind.plain.enclose choiceBody)) ['b'] []) =
          .ok doubleGrammar ∧
      ∀ text, singleGrammar.CanGenerate text ↔ doubleGrammar.CanGenerate text := by
  have hflat : ∀ c, (∀ kind : GroupKind, c ≠ kind.opening ∧ c ≠ kind.closing) →
      ProperlyNested [c] := fun c hc => .char hc .nil
  have hparts : NestedParts ['a'] choiceBody ['b'] := by
    refine ⟨hflat 'a' ?_, .char ?_ (.char ?_ (.group .plain (hflat 'y' ?_) .nil)), hflat 'b' ?_,
      by decide⟩
    all_goals exact fun kind => by cases kind <;> decide
  have hedges : KeepsEdges choiceBody := by decide
  have hmentions : MentionsNoGroup (groupSource ['a']
      (GroupKind.optional.enclose choiceBody) ['b'] []) := by decide
  have hcompile : Grammar.compileWith .standard (groupSource ['a']
      (GroupKind.optional.enclose choiceBody) ['b'] []) = .ok singleGrammar := by decide +kernel
  have hcompile' : Grammar.compileWith .standard (groupSource ['a']
      (GroupKind.optional.enclose (GroupKind.plain.enclose choiceBody)) ['b'] []) =
        .ok doubleGrammar := by decide +kernel
  exact ⟨hparts, hedges, hmentions, hcompile, hcompile',
    redundant_parentheses .optional hparts (fun _ => hedges) hmentions hcompile hcompile'⟩

/-! ## Parentheses that are noticed -/

/-- The grammar of `$s = (x) $_grp1;`, where no group has that name. -/
def unmintedGrammar : Grammar :=
  let first := GroupKind.plain.symbol 0
  let second := GroupKind.plain.symbol 1
  { table := {
      rows := [
        (.start, ⟨[⟨[.ref first, .literal [' '], .ref second]⟩]⟩),
        (first, ⟨[⟨[.literal ['x']]⟩]⟩)]
      forced := [] }
    start := .start
    limits := .standard }

/-- The grammar of `$s = ((x)) $_grp1;`. The outer group is referred to twice. -/
def mintedGrammar : Grammar :=
  let first := GroupKind.plain.symbol 0
  let second := GroupKind.plain.symbol 1
  { table := {
      rows := [
        (.start, ⟨[⟨[.ref second, .literal [' '], .ref second]⟩]⟩),
        (first, ⟨[⟨[.literal ['x']]⟩]⟩),
        (second, ⟨[⟨[.ref first]⟩]⟩)]
      forced := [] }
    start := .start
    limits := .standard }

/-- The grammar of `$s = a[ x ]b;`, where the whitespace in the brackets is moved out of them. -/
def spacedGrammar : Grammar :=
  let optional := GroupKind.optional.symbol 0
  let inner := GroupKind.plain.symbol 0
  { table := {
      rows := [
        (.start, ⟨[⟨[.literal ['a', ' '], .ref optional, .literal [' ', 'b']]⟩]⟩),
        (optional, ⟨[⟨[]⟩, ⟨[.ref inner]⟩]⟩),
        (inner, ⟨[⟨[.literal ['x']]⟩]⟩)]
      forced := [] }
    start := .start
    limits := .standard }

/-- The grammar of `$s = a[( x )]b;`, where it is trimmed. -/
def trimmedGrammar : Grammar :=
  let optional := GroupKind.optional.symbol 0
  let inner := GroupKind.plain.symbol 0
  let outer := GroupKind.plain.symbol 1
  { table := {
      rows := [
        (.start, ⟨[⟨[.literal ['a'], .ref optional, .literal ['b']]⟩]⟩),
        (optional, ⟨[⟨[]⟩, ⟨[.ref outer]⟩]⟩),
        (inner, ⟨[⟨[.literal ['x']]⟩]⟩),
        (outer, ⟨[⟨[.ref inner]⟩]⟩)]
      forced := [] }
    start := .start
    limits := .standard }

theorem not_canGenerate_unmintedGrammar (text : Text) : ¬unmintedGrammar.CanGenerate text := by
  have hstart : unmintedGrammar.table.alternatives .start =
      [⟨[.ref (GroupKind.plain.symbol 0), .literal [' '], .ref (GroupKind.plain.symbol 1)]⟩] := by
    decide
  have hnone : unmintedGrammar.table.alternatives (GroupKind.plain.symbol 1) = [] := by decide
  have hsecond : ∀ text, ¬unmintedGrammar.table.Language (GroupKind.plain.symbol 1) text := by
    simp [language_iff_alternatives, hnone]
  rw [Grammar.canGenerate_iff]
  rintro ⟨raw, hlanguage, -⟩
  rw [show unmintedGrammar.start = .start from rfl, language_iff_alternatives, hstart] at hlanguage
  simp [SpelledBy, Segment.Spells, hsecond] at hlanguage

theorem canGenerate_mintedGrammar : mintedGrammar.CanGenerate ['x', ' ', 'x'] := by
  have hstart : mintedGrammar.table.alternatives .start =
      [⟨[.ref (GroupKind.plain.symbol 1), .literal [' '], .ref (GroupKind.plain.symbol 1)]⟩] := by
    decide
  have hfirst : mintedGrammar.table.alternatives (GroupKind.plain.symbol 0) =
      [⟨[.literal ['x']]⟩] := by decide
  have hsecond : mintedGrammar.table.alternatives (GroupKind.plain.symbol 1) =
      [⟨[.ref (GroupKind.plain.symbol 0)]⟩] := by decide
  have hlanguage : ∀ text,
      mintedGrammar.table.Language (GroupKind.plain.symbol 1) text ↔ text = ['x'] := by
    intro text
    rw [language_iff_alternatives, hsecond]
    simp [SpelledBy, Segment.Spells, language_iff_alternatives, hfirst]
  rw [Grammar.canGenerate_iff]
  refine ⟨['x', ' ', 'x'], ?_, by decide⟩
  rw [show mintedGrammar.start = .start from rfl, language_iff_alternatives, hstart]
  simp [SpelledBy, Segment.Spells, hlanguage]

theorem not_canGenerate_spacedGrammar : ¬spacedGrammar.CanGenerate ['a', 'x', 'b'] := by
  have hstart : spacedGrammar.table.alternatives .start =
      [⟨[.literal ['a', ' '], .ref (GroupKind.optional.symbol 0), .literal [' ', 'b']]⟩] := by
    decide
  have hoptional : spacedGrammar.table.alternatives (GroupKind.optional.symbol 0) =
      [⟨[]⟩, ⟨[.ref (GroupKind.plain.symbol 0)]⟩] := by decide
  have hinner : spacedGrammar.table.alternatives (GroupKind.plain.symbol 0) =
      [⟨[.literal ['x']]⟩] := by decide
  have hlanguage : ∀ text, spacedGrammar.table.Language (GroupKind.optional.symbol 0) text ↔
      text = [] ∨ text = ['x'] := by
    intro text
    rw [language_iff_alternatives, hoptional]
    simp [SpelledBy, Segment.Spells, language_iff_alternatives, hinner]
  rw [Grammar.canGenerate_iff]
  rintro ⟨raw, hraw, hfinish⟩
  rw [show spacedGrammar.start = .start from rfl, language_iff_alternatives, hstart] at hraw
  have hcases : ∃ before after, raw = 'a' :: ' ' :: (before ++ after) ∧
      (before = [] ∧ after = [' ', 'b'] ∨ before = ['x'] ∧ after = [' ', 'b']) := by
    simpa [SpelledBy, Segment.Spells, hlanguage, or_and_right] using hraw
  obtain ⟨_, _, rfl, ⟨rfl, rfl⟩ | ⟨rfl, rfl⟩⟩ := hcases
  · revert hfinish
    decide
  · revert hfinish
    decide

theorem canGenerate_trimmedGrammar : trimmedGrammar.CanGenerate ['a', 'x', 'b'] := by
  have hstart : trimmedGrammar.table.alternatives .start =
      [⟨[.literal ['a'], .ref (GroupKind.optional.symbol 0), .literal ['b']]⟩] := by
    decide
  have hoptional : trimmedGrammar.table.alternatives (GroupKind.optional.symbol 0) =
      [⟨[]⟩, ⟨[.ref (GroupKind.plain.symbol 1)]⟩] := by decide
  have hinner : trimmedGrammar.table.alternatives (GroupKind.plain.symbol 0) =
      [⟨[.literal ['x']]⟩] := by decide
  have houter : trimmedGrammar.table.alternatives (GroupKind.plain.symbol 1) =
      [⟨[.ref (GroupKind.plain.symbol 0)]⟩] := by decide
  have hlanguage : trimmedGrammar.table.Language (GroupKind.optional.symbol 0) ['x'] := by
    simp [SpelledBy, Segment.Spells, language_iff_alternatives, hoptional, hinner, houter]
  have hsplit : ∃ before, ['x', 'b'] = before ++ ['b'] ∧
      trimmedGrammar.table.Language (GroupKind.optional.symbol 0) before :=
    ⟨['x'], rfl, hlanguage⟩
  rw [Grammar.canGenerate_iff]
  refine ⟨['a', 'x', 'b'], ?_, by decide⟩
  rw [show trimmedGrammar.start = .start from rfl, language_iff_alternatives, hstart]
  simpa [SpelledBy, Segment.Spells] using hsplit

/-- A group that is referred to by its name has another name within more parentheses, and
parentheses hold back the whitespace that brackets move out of them. -/
theorem redundant_parentheses_noticed :
    (NestedParts [] ['x'] " $_grp1".toList ∧ KeepsEdges ['x'] ∧
      ¬RedundantParentheses .plain [] ['x'] " $_grp1".toList []) ∧
    (NestedParts ['a'] [' ', 'x', ' '] ['b'] ∧
      MentionsNoGroup (groupSource ['a'] (GroupKind.optional.enclose [' ', 'x', ' ']) ['b'] []) ∧
      ¬RedundantParentheses .optional ['a'] [' ', 'x', ' '] ['b'] []) := by
  have hunminted : Grammar.compileWith .standard
      (groupSource [] (GroupKind.plain.enclose ['x']) " $_grp1".toList []) =
        .ok unmintedGrammar := by decide +kernel
  have hminted : Grammar.compileWith .standard (groupSource []
      (GroupKind.plain.enclose (GroupKind.plain.enclose ['x'])) " $_grp1".toList []) =
        .ok mintedGrammar := by decide +kernel
  have hspaced : Grammar.compileWith .standard
      (groupSource ['a'] (GroupKind.optional.enclose [' ', 'x', ' ']) ['b'] []) =
        .ok spacedGrammar := by decide +kernel
  have htrimmed : Grammar.compileWith .standard (groupSource ['a']
      (GroupKind.optional.enclose (GroupKind.plain.enclose [' ', 'x', ' '])) ['b'] []) =
        .ok trimmedGrammar := by decide +kernel
  have hnamed : ¬RedundantParentheses .plain [] ['x'] " $_grp1".toList [] := fun h =>
    not_canGenerate_unmintedGrammar _ ((h hunminted hminted _).2 canGenerate_mintedGrammar)
  have hmoved : ¬RedundantParentheses .optional ['a'] [' ', 'x', ' '] ['b'] [] := fun h =>
    not_canGenerate_spacedGrammar ((h hspaced htrimmed _).2 canGenerate_trimmedGrammar)
  have hnested : NestedParts [] ['x'] " $_grp1".toList := by
    refine ⟨.nil, ?_, ?_, by decide⟩
    all_goals exact .of_not_mem fun kind => by cases kind <;> decide
  have hnestedSpaced : NestedParts ['a'] [' ', 'x', ' '] ['b'] := by
    refine ⟨?_, ?_, ?_, by decide⟩
    all_goals exact .of_not_mem fun kind => by cases kind <;> decide
  exact ⟨⟨hnested, by decide, hnamed⟩, hnestedSpaced, by decide, hmoved⟩

end TextGrammar
