import TextGrammar.Proofs.Spelling
import TextGrammar.Proofs.Statements

/-!
# The symbols a text mentions

`mentions` gives the symbol of every reference that stands in a text, without reading it from left
to right: a `$` and the run of reference characters behind it decide (`named?_congr`). So the
symbols of a text are those of its parts, wherever a character that belongs to no reference
separates them (`mentions_append_cons`), and trimming, line breaks and cutting at `|` add none.

`flatMap_references_parse` is what the notion is for: the content of a definition refers, when it is
read, to the symbols it mentions, each as often as it mentions it.
-/

namespace TextGrammar

/-- Whether a character may stand behind the `$` of a reference. -/
def isReferenceChar (c : Char) : Bool :=
  isIdentifierChar c || c = '{' || c = '}'

/-- The characters at the beginning of a text that may belong to a reference. -/
def nameRun (text : Text) : Text :=
  text.takeWhile isReferenceChar

/-- The symbol of the reference that a `$` in front of a text begins. -/
def named? (text : Text) : Option Symbol :=
  (readReference ('$' :: text)).map Prod.fst

/-- The symbols of the references in a text. -/
def mentions : Text → List Symbol
  | [] => []
  | c :: rest => (if c = '$' then (named? rest).toList else []) ++ mentions rest

/-! ## One reference -/

theorem isReferenceChar_of_mem_signs {c : Char} (h : c ∈ signs) (hopening : c ≠ '{')
    (hclosing : c ≠ '}') : isReferenceChar c = false := by
  simp [isReferenceChar, isIdentifierChar_of_mem_signs h, hopening, hclosing]

theorem isReferenceChar_of_mem_writeReference {symbol : Symbol} (hvalid : symbol.Valid)
    {braced : Bool} {tail : Text} (h : writeReference braced symbol = '$' :: tail) :
    ∀ c ∈ tail, isReferenceChar c = true := by
  obtain ⟨d, identifier, rfl, hall⟩ := hvalid.exists_identifier
  intro c hc
  have hidentifier : ∀ c ∈ d :: identifier, isReferenceChar c = true := by
    intro c hc
    simp [isReferenceChar, hall c hc]
  cases braced with
  | false =>
    have htail : tail = d :: identifier := (List.cons.inj h).2.symm
    exact hidentifier c (htail ▸ hc)
  | true =>
    have htail : tail = '{' :: (d :: identifier ++ ['}']) := (List.cons.inj h).2.symm
    rw [htail, List.mem_cons, List.mem_append, List.mem_singleton] at hc
    rcases hc with rfl | hc | rfl
    · simp [isReferenceChar]
    · exact hidentifier c hc
    · simp [isReferenceChar]

/-- A name ends before a text exactly if it ends before the reference characters in it. -/
theorem beginsIdentifier_nameRun (text : Text) :
    beginsIdentifier (nameRun text) = beginsIdentifier text := by
  cases text with
  | nil => rfl
  | cons c rest =>
    cases hc : isReferenceChar c with
    | true => simp [beginsIdentifier, nameRun, hc]
    | false =>
      have hidentifier : isIdentifierChar c = false := by
        simp only [isReferenceChar, Bool.or_eq_false_iff] at hc
        exact hc.1.1
      simp [beginsIdentifier, nameRun, hc, hidentifier]

theorem named?_of_nameRun_eq {text text' : Text} {symbol : Symbol}
    (h : nameRun text = nameRun text') (hnamed : named? text = some symbol) :
    named? text' = some symbol := by
  obtain ⟨⟨_, after⟩, hread, rfl⟩ := Option.map_eq_some_iff.1 hnamed
  have hvalid := valid_of_readReference hread
  obtain ⟨braced, hspelled, hafter⟩ := exists_of_readReference hread
  obtain ⟨tail, htail⟩ := writeReference_eq_cons braced hvalid
  have hname := isReferenceChar_of_mem_writeReference hvalid htail
  rw [htail, List.cons_append, List.cons.injEq] at hspelled
  obtain ⟨-, rfl⟩ := hspelled
  -- The other text has the same reference in front of what follows there.
  have hrun : nameRun text' = tail ++ nameRun after := by
    rw [← h, nameRun, List.takeWhile_append_of_pos hname, nameRun]
  obtain ⟨after', hafter', htext'⟩ : ∃ after', nameRun after' = nameRun after ∧
      text' = tail ++ after' := by
    have hsplit : text' = nameRun text' ++ text'.dropWhile isReferenceChar :=
      List.takeWhile_append_dropWhile.symm
    rw [hrun, List.append_assoc] at hsplit
    refine ⟨_, ?_, hsplit⟩
    rw [hsplit, nameRun, List.takeWhile_append_of_pos hname] at hrun
    exact List.append_cancel_left hrun
  have hends : braced = false → beginsIdentifier after' = false := by
    rw [← beginsIdentifier_nameRun, hafter', beginsIdentifier_nameRun]
    exact hafter
  have hread' := readReference_writeReference hvalid hends
  rw [htail, List.cons_append, ← htext'] at hread'
  rw [named?, hread']
  rfl

/-- Only the run of reference characters decides which reference it is. -/
theorem named?_congr {text text' : Text} (h : nameRun text = nameRun text') :
    named? text = named? text' :=
  Option.ext fun _ => ⟨named?_of_nameRun_eq h, named?_of_nameRun_eq h.symm⟩

/-! ## Texts in parts -/

theorem mentions_cons_of_ne {c : Char} (rest : Text) (h : c ≠ '$') :
    mentions (c :: rest) = mentions rest := by
  rw [mentions, if_neg h, List.nil_append]

theorem mentions_sigil (rest : Text) :
    mentions ('$' :: rest) = (named? rest).toList ++ mentions rest := by
  rw [mentions, if_pos rfl]

theorem mentions_append_of_not_mem {front : Text} (h : '$' ∉ front) (rest : Text) :
    mentions (front ++ rest) = mentions rest := by
  induction front with
  | nil => rfl
  | cons c front ih =>
    rw [List.mem_cons, not_or] at h
    rw [List.cons_append, mentions_cons_of_ne _ (Ne.symm h.1), ih h.2]

theorem mem_mentions_append_right (front : Text) {rest : Text} {symbol : Symbol}
    (h : symbol ∈ mentions rest) : symbol ∈ mentions (front ++ rest) := by
  induction front with
  | nil => exact h
  | cons c front ih =>
    rw [List.cons_append, mentions]
    exact List.mem_append_right _ ih

theorem nameRun_append_cons (text rest : Text) {d : Char} (hd : isReferenceChar d = false) :
    nameRun (text ++ d :: rest) = nameRun text := by
  unfold nameRun
  rw [List.takeWhile_append]
  split_ifs with hall
  · rw [List.takeWhile_cons, hd, if_neg Bool.false_ne_true, List.append_nil]
    exact (List.takeWhile_prefix _).eq_of_length hall |>.symm
  · rfl

/-- A character that belongs to no name separates the symbols in front of it from those behind. -/
theorem mentions_append_cons (text rest : Text) {d : Char} (hd : isReferenceChar d = false) :
    mentions (text ++ d :: rest) = mentions text ++ mentions (d :: rest) := by
  induction text with
  | nil => rfl
  | cons c text ih =>
    rw [List.cons_append, mentions, mentions, ih, List.append_assoc,
      named?_congr (nameRun_append_cons text rest hd)]

theorem isReferenceChar_of_isWhitespace {c : Char} (h : Unicode.isWhitespace c = true) :
    isReferenceChar c = false := by
  have hidentifier : isIdentifierChar c = false := by
    by_contra hne
    rw [Bool.not_eq_false] at hne
    rw [isWhitespace_eq_false_of_isIdentifierChar hne] at h
    cases h
  have hopening : c ≠ '{' := ne_of_isWhitespace h (by decide)
  have hclosing : c ≠ '}' := ne_of_isWhitespace h (by decide)
  simp [isReferenceChar, hidentifier, hopening, hclosing]

theorem sigil_not_mem_of_blank {text : Text} (h : ∀ c ∈ text, Unicode.isWhitespace c = true) :
    '$' ∉ text :=
  fun hmem => absurd (h _ hmem) (by decide)

theorem mentions_trimStart (text : Text) : mentions text.trimStart = mentions text := by
  have hsplit : text.takeWhile Unicode.isWhitespace ++ text.trimStart = text :=
    List.takeWhile_append_dropWhile
  have hsigil : '$' ∉ text.takeWhile Unicode.isWhitespace :=
    sigil_not_mem_of_blank (List.all_eq_true.1 List.all_takeWhile)
  have hmentions := mentions_append_of_not_mem hsigil text.trimStart
  rw [hsplit] at hmentions
  exact hmentions.symm

theorem mentions_trimEnd (text : Text) : mentions text.trimEnd = mentions text := by
  have hsplit : text.trimEnd ++ text.rtakeWhile Unicode.isWhitespace = text :=
    List.rdropWhile_append_rtakeWhile
  have hblank : ∀ c ∈ text.rtakeWhile Unicode.isWhitespace, Unicode.isWhitespace c = true :=
    fun _ => List.mem_rtakeWhile_imp
  cases hback : text.rtakeWhile Unicode.isWhitespace with
  | nil =>
    rw [hback, List.append_nil] at hsplit
    rw [hsplit]
  | cons d back =>
    rw [hback] at hsplit hblank
    have hnone := mentions_append_of_not_mem (sigil_not_mem_of_blank hblank) []
    rw [List.append_nil] at hnone
    have hmentions := mentions_append_cons text.trimEnd back
      (isReferenceChar_of_isWhitespace (hblank d List.mem_cons_self))
    rw [hsplit, hnone] at hmentions
    rw [hmentions, mentions, List.append_nil]

theorem mentions_trim (text : Text) : mentions text.trim = mentions text := by
  rw [Text.trim, mentions_trimEnd, mentions_trimStart]

theorem nameRun_onOneLine (text : Text) : nameRun text.onOneLine = nameRun text := by
  induction text with
  | nil => rfl
  | cons c rest ih =>
    have hspace : isReferenceChar ' ' = false := isReferenceChar_of_isWhitespace (by decide)
    rw [Text.onOneLine_cons, nameRun, List.takeWhile_cons, nameRun, List.takeWhile_cons]
    rcases Text.spaceForBreak_cases c with hc | ⟨hc, hbreak⟩
    · rw [hc]
      exact congrArg (fun run => if isReferenceChar c = true then c :: run else []) ih
    · have hname : isReferenceChar c = false := by
        rcases hbreak with rfl | rfl <;> exact isReferenceChar_of_isWhitespace (by decide)
      simp [hc, hspace, hname]

theorem mentions_onOneLine (text : Text) : mentions text.onOneLine = mentions text := by
  induction text with
  | nil => rfl
  | cons c rest ih =>
    rw [Text.onOneLine_cons]
    rcases Text.spaceForBreak_cases c with hc | ⟨hc, hbreak⟩
    · rw [hc, mentions, mentions, ih, named?_congr (nameRun_onOneLine rest)]
    · have hsigil : c ≠ '$' := by
        rcases hbreak with rfl | rfl <;> decide
      rw [hc, mentions_cons_of_ne _ (by decide), mentions_cons_of_ne _ hsigil, ih]

theorem mentions_flatten (statement : Text) :
    mentions (Table.flatten statement) = mentions statement := by
  rw [Table.flatten_eq, mentions_trim, mentions_onOneLine]

/-- Cutting at a separator that belongs to no reference neither adds a symbol nor loses one. -/
theorem flatMap_mentions_split {separator : Char} (hname : isReferenceChar separator = false)
    (hsigil : separator ≠ '$') (text : Text) :
    (text.splitOn separator).flatMap mentions = mentions text := by
  have hjoin : ∀ (piece : Text) (pieces : List Text),
      mentions ([separator].intercalate (piece :: pieces)) =
        (piece :: pieces).flatMap mentions := by
    intro piece pieces
    induction pieces generalizing piece with
    | nil => simp
    | cons next pieces ih =>
      rw [List.intercalate_cons_cons, List.append_assoc, List.singleton_append,
        mentions_append_cons _ _ hname, mentions_cons_of_ne _ hsigil, ih]
      rfl
  obtain ⟨piece, pieces, hpieces⟩ :=
    List.exists_cons_of_ne_nil (List.splitOn_ne_nil separator text)
  rw [hpieces, ← hjoin, ← hpieces, List.intercalate_splitOn]

/-! ## What is referred to is mentioned -/

/-- A written reference is the first that is mentioned, in front of what it does not take in. -/
theorem mentions_writeReference_append {symbol : Symbol} (hvalid : symbol.Valid) {braced : Bool}
    {rest : Text} (hrest : braced = false → beginsIdentifier rest = false) :
    mentions (writeReference braced symbol ++ rest) = symbol :: mentions rest := by
  obtain ⟨tail, htail⟩ := writeReference_eq_cons braced hvalid
  have hsigil : '$' ∉ tail := by
    intro hmem
    have hname := isReferenceChar_of_mem_writeReference hvalid htail _ hmem
    rw [isReferenceChar_of_mem_signs (by decide) (by decide) (by decide)] at hname
    cases hname
  have hread := readReference_writeReference hvalid hrest
  rw [htail, List.cons_append] at hread ⊢
  rw [mentions_sigil, named?, hread, mentions_append_of_not_mem hsigil]
  rfl

theorem mentions_name {symbol : Symbol} (hvalid : symbol.Valid) :
    mentions symbol.name = [symbol] := by
  have hname := @mentions_writeReference_append _ hvalid false [] fun _ => rfl
  rw [List.append_nil] at hname
  exact hname

/-- Reading a text gives references to the symbols it mentions, in their order. -/
theorem filterMap_readSegments (text : Text) :
    (readSegments text).filterMap Segment.reference? = mentions text := by
  induction text using readSegments.induct with
  | case1 => simp [readSegments, mentions]
  | case2 c rest segment after hread ih =>
    rw [readSegments_of_some hread]
    generalize c :: rest = text at hread ⊢
    cases spelled_of_readReferenceSegment hread with
    | ref hvalid hafter =>
      rw [mentions_writeReference_append hvalid hafter, ← ih]
      rfl
    | forced hvalid hafter =>
      rw [mentions_cons_of_ne _ (by decide), mentions_writeReference_append hvalid hafter, ← ih]
      rfl
  | case3 c rest hread ih =>
    rw [readSegments_of_none hread, Segment.filterMap_attach fun _ => rfl]
    by_cases hsigil : c = '$'
    · subst hsigil
      rw [readReferenceSegment_sigil, Option.map_eq_none_iff] at hread
      rw [mentions_sigil, named?, hread, ← ih]
      rfl
    · rw [mentions_cons_of_ne _ hsigil, ← ih]
      rfl

/-- The alternatives of a content refer to the symbols it mentions, in their order. -/
theorem flatMap_references_parse (content : Text) :
    (Production.parse content).alternatives.flatMap Alternative.references = mentions content := by
  have hpiece : ∀ piece : Text, (Alternative.parse piece).references = mentions piece := by
    intro piece
    rw [Alternative.references, Alternative.parse, filterMap_readSegments, mentions_trim]
  rw [Production.parse, List.flatMap_map]
  simp only [hpiece]
  exact flatMap_mentions_split
    (isReferenceChar_of_mem_signs (by decide) (by decide) (by decide)) (by decide) content

/-- Whatever a content refers to when it is read, it mentions. -/
theorem mem_mentions_of_references {content : Text} {a : Alternative} {symbol : Symbol}
    (ha : a ∈ (Production.parse content).alternatives) (h : symbol ∈ a.references) :
    symbol ∈ mentions content := by
  rw [← flatMap_references_parse]
  exact List.mem_flatMap.2 ⟨a, ha, h⟩

/-- The content of a definition mentions nothing that its statement does not. -/
theorem mentions_content_subset (statement : Text) :
    mentions (Definition.ofStatement statement).content ⊆ mentions statement := by
  unfold Definition.ofStatement
  cases hsplit : statement.splitFirst? '=' with
  | none => exact List.nil_subset _
  | some parts =>
    obtain ⟨name, content⟩ := parts
    unfold Text.splitFirst? at hsplit
    split at hsplit
    · cases hsplit
    · rename_i hdrop
      cases hsplit
      have hstatement : statement.takeWhile (· ≠ '=') ++ statement.dropWhile (· ≠ '=') =
          statement := List.takeWhile_append_dropWhile
      rw [hdrop] at hstatement
      intro symbol hsymbol
      rw [mentions_trim] at hsymbol
      rw [← hstatement]
      exact mem_mentions_append_right _ (mem_mentions_append_right [_] hsymbol)

/-! ## Replaced groups -/

namespace Group

/-- In front of what it does not take in, the reference to a group mentions its symbol only. -/
theorem mentions_reference_append {symbol : Symbol} (hvalid : symbol.Valid) (body : Text)
    {glued : Bool} {rest : Text} (hrest : glued = false → beginsIdentifier rest = false) :
    mentions (reference symbol body glued ++ rest) = symbol :: mentions rest := by
  have hform : reference symbol body glued ++ rest =
      (if leadsBlank body then [' '] else []) ++
        (writeReference (glued && !trailsBlank body) symbol ++
          ((if trailsBlank body then [' '] else []) ++ rest)) := by
    rw [← List.append_assoc, ← List.append_assoc]
    rfl
  have hblank : ∀ b : Bool, '$' ∉ (if b then [' '] else [] : Text) := by decide
  have hafter : (glued && !trailsBlank body) = false →
      beginsIdentifier ((if trailsBlank body then [' '] else []) ++ rest) = false := by
    have hspace : isIdentifierChar ' ' = false := isIdentifierChar_of_mem_signs (by decide)
    cases htrails : trailsBlank body with
    | true => exact fun _ => by simp [beginsIdentifier, hspace]
    | false => simpa using hrest
  rw [hform, mentions_append_of_not_mem (hblank _), mentions_writeReference_append hvalid hafter,
    mentions_append_of_not_mem (hblank _)]

theorem head?_reference_append {symbol : Symbol} (hvalid : symbol.Valid) (body : Text)
    (glued : Bool) (rest : Text) : ∃ c ∈ (reference symbol body glued ++ rest).head?,
      isReferenceChar c = false := by
  obtain ⟨tail, htail⟩ := reference_eq_cons symbol hvalid body glued
  rw [htail]
  split_ifs
  · exact ⟨' ', rfl, isReferenceChar_of_isWhitespace (by decide)⟩
  · exact ⟨'$', rfl, isReferenceChar_of_mem_signs (by decide) (by decide) (by decide)⟩

theorem isReferenceChar_opening (kind : GroupKind) : isReferenceChar kind.opening = false := by
  cases kind <;> exact isReferenceChar_of_mem_signs (by decide) (by decide) (by decide)

theorem isReferenceChar_closing (kind : GroupKind) : isReferenceChar kind.closing = false := by
  cases kind <;> exact isReferenceChar_of_mem_signs (by decide) (by decide) (by decide)

theorem nameRun_of_head? {text : Text} (h : ∃ c ∈ text.head?, isReferenceChar c = false) :
    nameRun text = [] := by
  obtain ⟨c, hc, hname⟩ := h
  obtain ⟨rest, rfl⟩ := List.head?_eq_some_iff.1 hc
  simp [nameRun, hname]

/-- A group ends a name just as the reference to it does. -/
theorem nameRun_replace (kind : GroupKind) (start : Nat) (forest : Forest) :
    nameRun (replace kind start forest).1 = nameRun (forest.toText kind) := by
  induction forest with
  | nil => rfl
  | char c rest ih =>
    show nameRun (c :: (replace kind start rest).1) = nameRun (c :: rest.toText kind)
    rw [nameRun, List.takeWhile_cons, nameRun, List.takeWhile_cons]
    exact congrArg (fun run => if isReferenceChar c = true then c :: run else []) ih
  | group body rest _ _ =>
    have hopening : nameRun (Forest.toText kind (.group body rest)) = [] :=
      nameRun_of_head? ⟨_, rfl, isReferenceChar_opening kind⟩
    rw [hopening]
    exact nameRun_of_head? (head?_reference_append (kind.symbol_valid _) _ _ _)

theorem beginsIdentifier_replace (kind : GroupKind) (start : Nat) (forest : Forest) :
    beginsIdentifier (replace kind start forest).1 = forest.beginsGlued := by
  cases forest with
  | nil => rfl
  | char c rest => rfl
  | group body rest =>
    have hrun := nameRun_replace kind start (.group body rest)
    have hopening : nameRun (Forest.toText kind (.group body rest)) = [] :=
      nameRun_of_head? ⟨_, rfl, isReferenceChar_opening kind⟩
    rw [← beginsIdentifier_nameRun, hrun, hopening]
    rfl

/-- A group mentions what its body does. -/
theorem mentions_group (kind : GroupKind) (body rest : Forest) :
    mentions (Forest.toText kind (.group body rest)) =
      mentions (body.toText kind) ++ mentions (rest.toText kind) := by
  have hopening : kind.opening ≠ '$' := by cases kind <;> decide
  have hclosing : kind.closing ≠ '$' := by cases kind <;> decide
  show mentions (kind.opening :: (body.toText kind ++ kind.closing :: rest.toText kind)) = _
  rw [mentions_cons_of_ne _ hopening, mentions_append_cons _ _ (isReferenceChar_closing kind),
    mentions_cons_of_ne _ hclosing]

/-- Whether a symbol is mentioned in a text with groups, or is that of one of its groups. -/
def Knows (kind : GroupKind) (start : Nat) (forest : Forest) (symbol : Symbol) : Prop :=
  symbol ∈ mentions (forest.toText kind) ∨
    ∃ n < start + forest.bodies.length, symbol = kind.symbol n

variable {kind : GroupKind} {start : Nat} {body rest : Forest} {symbol : Symbol}

theorem Knows.of_body (h : Knows kind start body symbol) :
    Knows kind start (.group body rest) symbol := by
  refine h.imp (fun hmem => ?_) fun ⟨n, hn, heq⟩ => ⟨n, ?_, heq⟩
  · rw [mentions_group]
    exact List.mem_append_left _ hmem
  · simp only [Forest.bodies, List.length_append, List.length_cons]
    omega

theorem Knows.of_rest (h : Knows kind (start + body.bodies.length + 1) rest symbol) :
    Knows kind start (.group body rest) symbol := by
  refine h.imp (fun hmem => ?_) fun ⟨n, hn, heq⟩ => ⟨n, ?_, heq⟩
  · rw [mentions_group]
    exact List.mem_append_right _ hmem
  · simp only [Forest.bodies, List.length_append, List.length_cons]
    omega

/-- Behind the replacement, a text mentions what it did before, and groups. -/
theorem knows_of_mem_replace {forest : Forest}
    (h : symbol ∈ mentions (replace kind start forest).1) : Knows kind start forest symbol := by
  induction forest generalizing start with
  | nil => simp [replace, mentions] at h
  | char c rest ih =>
    have hstep : (replace kind start (.char c rest)).1 = c :: (replace kind start rest).1 := rfl
    rw [hstep, mentions, named?_congr (nameRun_replace kind start rest)] at h
    rcases List.mem_append.1 h with h | h
    · exact Or.inl (List.mem_append_left _ h)
    · exact (ih h).imp_left (List.mem_append_right _)
  | group body rest _ ih =>
    have hstep : (replace kind start (.group body rest)).1 =
        reference (kind.symbol (start + body.bodies.length)) (replace kind start body).1
          rest.beginsGlued ++ (replace kind (start + body.bodies.length + 1) rest).1 := by
      simp only [replace, length_replace_snd]
    have hglued : rest.beginsGlued = false →
        beginsIdentifier (replace kind (start + body.bodies.length + 1) rest).1 = false := by
      rw [beginsIdentifier_replace]
      exact id
    rw [hstep, mentions_reference_append (kind.symbol_valid _) _ hglued] at h
    rcases List.mem_cons.1 h with rfl | h
    · refine Or.inr ⟨_, ?_, rfl⟩
      simp only [Forest.bodies, List.length_append, List.length_cons]
      omega
    · exact (ih h).of_rest

/-- The body of a group, with its own groups replaced, mentions what the whole text does, and
groups. -/
theorem knows_of_mem_inners {forest : Forest} {inner : Text}
    (hinner : inner ∈ inners kind start forest) (h : symbol ∈ mentions inner) :
    Knows kind start forest symbol := by
  induction forest generalizing start with
  | nil => simp [inners] at hinner
  | char c rest ih => exact (ih hinner).imp_left (mem_mentions_append_right [c])
  | group body rest ihbody ihrest =>
    simp only [inners, List.mem_append, List.mem_cons, length_inners] at hinner
    rcases hinner with hinner | rfl | hinner
    · exact (ihbody hinner).of_body
    · exact (knows_of_mem_replace h).of_body
    · exact (ihrest hinner).of_rest

end Group

end TextGrammar
