import TextGrammar.Proofs.Groups.Numbering
import TextGrammar.Proofs.Texts

/-!
# Finding the groups of a written content

The groups that are found in the written form of a content are the groups of the content, and
replacing them in the text is extracting them from the tree.

* `Forest.ofText_toText`: a forest without stray delimiters is found again in its text.
* `Content.splitTopLevel_print`: the top-level pieces of a written content are its alternatives.
* `Content.replace_forest`: replacing in the text agrees with `Content.extract`.
-/

namespace TextGrammar

/-! ## Characters that mean nothing to the passes over a source -/

/-- Whether a character is neither a separator nor a delimiter nor a line break. -/
def isInert (c : Char) : Bool :=
  c ∉ [';', '|', '(', ')', '[', ']', '\r', '\n']

theorem isInert_of_isIdentifierChar {c : Char} (h : isIdentifierChar c = true) :
    isInert c = true := by
  have hsigns : [';', '|', '(', ')', '[', ']', '\r', '\n'] ⊆ signs := by decide
  simp only [isInert, decide_eq_true_eq]
  intro hmem
  rw [isIdentifierChar_of_mem_signs (hsigns hmem)] at h
  cases h

theorem isInert_of_isOrdinary {c : Char} (h : Content.isOrdinary c = true) :
    isInert c = true := by
  simp only [Content.isOrdinary, isInert, List.mem_cons, List.not_mem_nil, or_false, not_or,
    decide_eq_true_eq] at h ⊢
  tauto

theorem isInert_of_mem_name {symbol : Symbol} (hvalid : symbol.Valid) {c : Char}
    (h : c ∈ symbol.name) : isInert c = true := by
  obtain ⟨d, identifier, rfl, hall⟩ := hvalid.exists_identifier
  rcases List.mem_cons.1 h with rfl | h
  · decide
  · exact isInert_of_isIdentifierChar (hall c h)

theorem isInert_of_mem_writeReference {symbol : Symbol} (hvalid : symbol.Valid) {braced : Bool}
    {c : Char} (h : c ∈ writeReference braced symbol) : isInert c = true := by
  cases braced with
  | false => exact isInert_of_mem_name hvalid h
  | true =>
    simp only [writeReference, if_true, List.mem_cons, List.mem_append, List.not_mem_nil,
      or_false] at h
    rcases h with rfl | rfl | h | rfl
    · decide
    · decide
    · exact isInert_of_mem_name hvalid (List.mem_of_mem_tail h)
    · decide

theorem GroupKind.ne_opening_of_isInert {c : Char} (h : isInert c = true) (kind : GroupKind) :
    c ≠ kind.opening := by
  intro heq
  subst heq
  cases kind <;> simp [isInert, opening] at h

theorem GroupKind.ne_closing_of_isInert {c : Char} (h : isInert c = true) (kind : GroupKind) :
    c ≠ kind.closing := by
  intro heq
  subst heq
  cases kind <;> simp [isInert, closing] at h

theorem Group.depthAfter_of_isInert {c : Char} (h : isInert c = true) (depth : Nat) :
    depthAfter depth c = depth := by
  have hopen := GroupKind.ne_opening_of_isInert h
  have hclose := GroupKind.ne_closing_of_isInert h
  simp only [GroupKind.opening, GroupKind.closing] at hopen hclose
  simp [depthAfter, hopen .plain, hopen .optional, hclose .plain, hclose .optional]

theorem ne_bar_of_isInert {c : Char} (h : isInert c = true) : c ≠ '|' := by
  intro heq
  subst heq
  simp [isInert] at h

/-! ## Scanning a text whose delimiters all have partners -/

namespace Forest

variable {kind : GroupKind}

/-- A text in front of a forest. -/
def prepend (text : Text) (forest : Forest) : Forest :=
  text.foldr char forest

/-- No character of a forest is a delimiter of the kind, so that every delimiter of its text has
a partner. -/
def Clean (kind : GroupKind) : Forest → Prop
  | nil => True
  | char c rest => (c ≠ kind.opening ∧ c ≠ kind.closing) ∧ Clean kind rest
  | group body rest => Clean kind body ∧ Clean kind rest

theorem append_nil (forest : Forest) : forest.append nil = forest := by
  induction forest with
  | nil => rfl
  | char c rest ih => rw [append, ih]
  | group body rest _ ih => rw [append, ih]

/-- A forest in front of a text is found whole, and what is found in the text stays the same. -/
theorem scan_toText_append {forest : Forest} (h : forest.Clean kind) (text : Text) :
    scan kind (forest.toText kind ++ text) =
      (forest.append (scan kind text).1, (scan kind text).2) := by
  induction forest generalizing text with
  | nil => rfl
  | char c rest ih =>
    obtain ⟨⟨hopen, hclose⟩, hrest⟩ := h
    simp only [toText, List.cons_append, scan, if_neg hopen, if_neg hclose, ih hrest, append]
  | group body rest ihbody ihrest =>
    obtain ⟨hbody, hrest⟩ := h
    have hne : kind.closing ≠ kind.opening := by
      cases kind <;> decide
    simp only [toText, List.cons_append, List.append_assoc, scan, ihbody hbody, if_neg hne,
      ihrest hrest, if_true, append_nil, append]

/-- A forest without stray delimiters is found again in its text. -/
theorem ofText_toText {forest : Forest} (h : forest.Clean kind) :
    ofText kind (forest.toText kind) = forest := by
  have hscan := scan_toText_append h []
  rw [List.append_nil] at hscan
  simp only [ofText, hscan, scan, rejoin, append_nil]

theorem toText_prepend (text : Text) (forest : Forest) :
    (prepend text forest).toText kind = text ++ forest.toText kind := by
  induction text with
  | nil => rfl
  | cons c text ih => simpa [prepend, toText] using ih

theorem toText_append (forest other : Forest) :
    (forest.append other).toText kind = forest.toText kind ++ other.toText kind := by
  induction forest with
  | nil => rfl
  | char c rest ih => simp [append, toText, ih]
  | group body rest _ ih => simp [append, toText, ih]

theorem Clean.prepend {text : Text} {forest : Forest}
    (htext : ∀ c ∈ text, c ≠ kind.opening ∧ c ≠ kind.closing) (h : forest.Clean kind) :
    (Forest.prepend text forest).Clean kind := by
  induction text with
  | nil => exact h
  | cons c text ih =>
    exact ⟨htext c List.mem_cons_self, ih fun d hd => htext d (List.mem_cons_of_mem _ hd)⟩

theorem Clean.append {forest other : Forest} (h : forest.Clean kind) (hother : other.Clean kind) :
    (forest.append other).Clean kind := by
  induction forest with
  | nil => exact hother
  | char c rest ih => exact ⟨h.1, ih h.2⟩
  | group body rest _ ih => exact ⟨h.1, ih h.2⟩

theorem beginsGlued_append {forest other : Forest} (h : other.beginsGlued = false) :
    (forest.append other).beginsGlued = forest.beginsGlued := by
  cases forest with
  | nil => exact h
  | char c rest => rfl
  | group body rest => rfl

end Forest

/-! ## Replacing in parts -/

namespace Group

theorem replace_prepend (kind : GroupKind) (start : Nat) (text : Text) (forest : Forest) :
    replace kind start (Forest.prepend text forest) =
      (text ++ (replace kind start forest).1, (replace kind start forest).2) := by
  induction text with
  | nil => rfl
  | cons c text ih =>
    have hcons : Forest.prepend (c :: text) forest = .char c (Forest.prepend text forest) := rfl
    rw [hcons, replace, ih]
    rfl

/-- Two forests in a row are replaced one after the other, unless a name at the end of the first
could take in a character of the second. -/
theorem replace_append (kind : GroupKind) (start : Nat) (forest : Forest) {other : Forest}
    (hglued : other.beginsGlued = false) :
    replace kind start (forest.append other) =
      ((replace kind start forest).1 ++
          (replace kind (start + (replace kind start forest).2.length) other).1,
        (replace kind start forest).2 ++
          (replace kind (start + (replace kind start forest).2.length) other).2) := by
  induction forest generalizing start with
  | nil => rfl
  | char c rest ih =>
    simp only [Forest.append, replace, ih]
    rfl
  | group body rest _ ihrest =>
    have hlength : ∀ a b : Nat, start + (a + (b + 1)) = start + a + 1 + b := by
      intro a b
      omega
    simp only [Forest.append, replace, ihrest, Forest.beginsGlued_append hglued,
      List.length_append, List.length_cons, hlength, List.append_assoc, List.cons_append]

end Group

/-! ## The top-level pieces of a written content -/

/-- Puts a text in front of the first of some pieces. -/
def Text.appendFirst (text : Text) (pieces : List Text) : List Text :=
  pieces.modifyHead (text ++ ·)

theorem Text.appendFirst_cons (text piece : Text) (pieces : List Text) :
    Text.appendFirst text (piece :: pieces) = (text ++ piece) :: pieces :=
  List.modifyHead_cons

@[simp]
theorem Text.appendFirst_nil (pieces : List Text) : Text.appendFirst [] pieces = pieces :=
  congrFun List.modifyHead_id pieces

theorem Text.appendFirst_append (text text' : Text) (pieces : List Text) :
    Text.appendFirst (text ++ text') pieces =
      Text.appendFirst text (Text.appendFirst text' pieces) := by
  cases pieces with
  | nil => rfl
  | cons piece pieces => simp only [appendFirst_cons, List.append_assoc]

theorem Text.modifyHead_cons_appendFirst (c : Char) (text : Text) (pieces : List Text) :
    (Text.appendFirst text pieces).modifyHead (List.cons c) = Text.appendFirst (c :: text) pieces :=
  (Text.appendFirst_append [c] text pieces).symm

namespace Content

open TextGrammar.Group

theorem splitTopLevel_append_of_isInert {text : Text} (h : ∀ c ∈ text, isInert c = true)
    (depth : Nat) (rest : Text) :
    splitTopLevel depth (text ++ rest) = Text.appendFirst text (splitTopLevel depth rest) := by
  induction text with
  | nil => exact (Text.appendFirst_nil _).symm
  | cons c text ih =>
    have hc : isInert c = true := h c List.mem_cons_self
    have hbar : ¬(c = '|' ∧ depth = 0) := fun hand => ne_bar_of_isInert hc hand.1
    rw [List.cons_append, splitTopLevel, if_neg hbar, depthAfter_of_isInert hc,
      ih fun d hd => h d (List.mem_cons_of_mem _ hd), Text.modifyHead_cons_appendFirst]

theorem splitTopLevel_opening (kind : GroupKind) (depth : Nat) (rest : Text) :
    splitTopLevel depth (kind.opening :: rest) =
      (splitTopLevel (depth + 1) rest).modifyHead (List.cons kind.opening) := by
  cases kind <;> simp [splitTopLevel, GroupKind.opening, depthAfter]

theorem splitTopLevel_closing (kind : GroupKind) (depth : Nat) (rest : Text) :
    splitTopLevel (depth + 1) (kind.closing :: rest) =
      (splitTopLevel depth rest).modifyHead (List.cons kind.closing) := by
  cases kind <;> simp [splitTopLevel, GroupKind.closing, depthAfter]

/-- Inside of a group a written content is not cut. -/
theorem splitTopLevel_succ_print_append {content : Content} (h : content.WellFormed) (depth : Nat)
    (rest : Text) :
    splitTopLevel (depth + 1) (content.print ++ rest) =
      Text.appendFirst content.print (splitTopLevel (depth + 1) rest) := by
  induction content generalizing depth rest with
  | nil => exact (Text.appendFirst_nil _).symm
  | bar others ih =>
    have hstep : splitTopLevel (depth + 1) ('|' :: (others.print ++ rest)) =
        (splitTopLevel (depth + 1) (others.print ++ rest)).modifyHead (List.cons '|') := by
      simp [splitTopLevel, depthAfter]
    rw [print, List.cons_append, hstep, ih h, Text.modifyHead_cons_appendFirst]
  | char c others ih =>
    have hinert : ∀ d ∈ [c], isInert d = true := by
      simpa using isInert_of_isOrdinary h.1
    rw [print, ← List.singleton_append, List.append_assoc,
      splitTopLevel_append_of_isInert hinert, ih h.2, Text.appendFirst_append]
  | ref symbol braced others ih =>
    rw [print, List.append_assoc,
      splitTopLevel_append_of_isInert fun c hc => isInert_of_mem_writeReference h.1 hc,
      ih h.2.2, Text.appendFirst_append]
  | group kind body others ihbody ihothers =>
    obtain ⟨-, hbody, hothers⟩ := h
    rw [print, List.cons_append, splitTopLevel_opening, List.append_assoc, ihbody hbody,
      List.cons_append, splitTopLevel_closing, ihothers hothers, Text.modifyHead_cons_appendFirst,
      Text.modifyHead_cons_appendFirst, ← Text.appendFirst_append]
    rfl

theorem map_print_consFirst {item : Content → Content} (text : Text) {others : List Content}
    (hitem : ∀ a, (item a).print = text ++ a.print) (hne : others ≠ []) :
    (consFirst item others).map print = Text.appendFirst text (others.map print) := by
  cases others with
  | nil => exact absurd rfl hne
  | cons first others =>
    rw [consFirst, List.map_cons, List.map_cons, Text.appendFirst_cons, hitem]

/-- The top-level pieces of a written content are its alternatives. -/
theorem splitTopLevel_print {content : Content} (h : content.WellFormed) :
    splitTopLevel 0 content.print = content.alternatives.map print := by
  induction content with
  | nil => rfl
  | bar rest ih =>
    have hstep : splitTopLevel 0 ('|' :: rest.print) = [] :: splitTopLevel 0 rest.print := by
      simp [splitTopLevel]
    rw [print, hstep, ih h]
    rfl
  | char c rest ih =>
    have hinert : ∀ d ∈ [c], isInert d = true := by
      simpa using isInert_of_isOrdinary h.1
    rw [print, ← List.singleton_append, splitTopLevel_append_of_isInert hinert, ih h.2,
      alternatives, map_print_consFirst [c] (fun _ => rfl) (alternatives_ne_nil rest)]
  | ref symbol braced rest ih =>
    rw [print, splitTopLevel_append_of_isInert fun c hc => isInert_of_mem_writeReference h.1 hc,
      ih h.2.2, alternatives, map_print_consFirst _ (fun _ => rfl) (alternatives_ne_nil rest)]
  | group kind body rest _ ihrest =>
    obtain ⟨-, hbody, hrest⟩ := h
    have hform : ∀ a, (group kind body a).print =
        kind.opening :: (body.print ++ [kind.closing]) ++ a.print := by
      intro a
      simp [print]
    rw [print, splitTopLevel_opening, splitTopLevel_succ_print_append hbody,
      splitTopLevel_closing, ihrest hrest, alternatives,
      map_print_consFirst _ hform (alternatives_ne_nil rest), Text.modifyHead_cons_appendFirst,
      ← List.cons_append, Text.appendFirst_append _ [kind.closing]]
    rfl

/-! ## No whitespace to hoist -/

theorem isWhitespace_delimiter (kind : GroupKind) :
    Unicode.isWhitespace kind.opening = false ∧ Unicode.isWhitespace kind.closing = false := by
  cases kind <;> decide

theorem beginsBlank_print {a : Content} (h : a.WellFormed) :
    Group.beginsBlank a.print = a.beginsBlank := by
  have hbar : Unicode.isWhitespace '|' = false := by decide
  have hsigil : Unicode.isWhitespace '$' = false := by decide
  cases a with
  | nil => rfl
  | bar rest => simp [Group.beginsBlank, print, beginsBlank, hbar]
  | char c rest => simp [Group.beginsBlank, print, beginsBlank]
  | ref symbol braced rest =>
    obtain ⟨tail, htail⟩ := writeReference_eq_cons braced h.1
    simp [Group.beginsBlank, print, beginsBlank, htail, hsigil]
  | group kind body rest =>
    simp [Group.beginsBlank, print, beginsBlank, (isWhitespace_delimiter kind).1]

theorem endsBlank_append {text : Text} (h : Group.endsBlank text = false) (rest : Text) :
    Group.endsBlank (text ++ rest) = Group.endsBlank rest := by
  cases hrest : rest.getLast? with
  | none =>
    rw [List.getLast?_eq_none_iff.1 hrest, List.append_nil, h]
    rfl
  | some c => simp [Group.endsBlank, hrest]

theorem endsBlank_writeReference {symbol : Symbol} (h : symbol.Valid) (braced : Bool) :
    Group.endsBlank (writeReference braced symbol) = false := by
  obtain ⟨c, identifier, rfl, hall⟩ := h.exists_identifier
  have hsigil : Unicode.isWhitespace '$' = false := by decide
  have hname : Group.endsBlank ('$' :: c :: identifier) = false := by
    simp only [Group.endsBlank, Option.any_eq_false]
    intro d hd
    rcases List.mem_cons.1 (List.mem_of_getLast? hd) with rfl | hmem
    · simp [hsigil]
    · simp [isWhitespace_eq_false_of_isIdentifierChar (hall d hmem)]
  cases braced with
  | false => exact hname
  | true =>
    have hbrace : Unicode.isWhitespace '}' = false := by decide
    simp [writeReference, Group.endsBlank, List.getLast?_cons, hbrace]

theorem print_ne_nil {content : Content} (h : content.WellFormed) (hne : content ≠ nil) :
    content.print ≠ [] := by
  cases content with
  | nil => exact absurd rfl hne
  | ref symbol braced rest =>
    obtain ⟨tail, htail⟩ := writeReference_eq_cons braced h.1
    simp [print, htail]
  | _ => exact List.cons_ne_nil _ _

theorem endsBlank_print {a : Content} (h : a.WellFormed) :
    Group.endsBlank a.print = a.endsBlank := by
  induction a with
  | nil => rfl
  | bar rest ih =>
    have hbar : Group.endsBlank ['|'] = false := by decide
    rw [print, ← List.singleton_append, endsBlank_append hbar, ih h, endsBlank]
  | char c rest ih =>
    cases hrest : rest with
    | nil => simp [print, Group.endsBlank, endsBlank]
    | _ =>
      rw [← hrest]
      have hne : rest.print ≠ [] := print_ne_nil h.2 (by simp [hrest])
      obtain ⟨d, hd⟩ := Option.ne_none_iff_exists'.1 fun hnone =>
        hne (List.getLast?_eq_none_iff.1 hnone)
      have hlast : Group.endsBlank (c :: rest.print) = Group.endsBlank rest.print := by
        simp [Group.endsBlank, List.getLast?_cons, hd]
      rw [print, hlast, ih h.2, hrest]
      rfl
  | ref symbol braced rest ih =>
    rw [print, endsBlank_append (endsBlank_writeReference h.1 braced), ih h.2.2, endsBlank]
  | group kind body rest _ ih =>
    have hgroup : Group.endsBlank (kind.opening :: (body.print ++ [kind.closing])) = false := by
      simp [Group.endsBlank, List.getLast?_cons, (isWhitespace_delimiter kind).2]
    have hform : (group kind body rest).print =
        kind.opening :: (body.print ++ [kind.closing]) ++ rest.print := by
      simp [print]
    rw [hform, endsBlank_append hgroup, ih h.2.2, endsBlank]

theorem forall_mem_consFirst {p : Content → Prop} {item : Content → Content}
    {others : List Content} (hne : others ≠ [])
    (hitem : ∀ first ∈ others.head?, p (item first)) (h : ∀ a ∈ others, p a) :
    ∀ a ∈ consFirst item others, p a := by
  cases others with
  | nil => exact absurd rfl hne
  | cons first others =>
    intro a ha
    rcases List.mem_cons.1 ha with rfl | hmem
    · exact hitem first rfl
    · exact h a (List.mem_cons_of_mem _ hmem)

/-- The first alternative begins as the content does. -/
theorem begins_of_mem_head? {content first : Content}
    (h : first ∈ content.alternatives.head?) :
    first.beginsGlued = content.beginsGlued ∧ first.beginsBlank = content.beginsBlank := by
  have hcons : ∀ (item : Content → Content) (others : List Content),
      first ∈ (consFirst item others).head? → ∃ a, first = item a := by
    intro item others hmem
    cases others with
    | nil => exact ⟨_, (Option.some.inj hmem).symm⟩
    | cons a others => exact ⟨a, (Option.some.inj hmem).symm⟩
  cases content with
  | nil =>
    obtain rfl : nil = first := Option.some.inj h
    exact ⟨rfl, rfl⟩
  | bar rest =>
    obtain rfl : nil = first := Option.some.inj h
    exact ⟨rfl, rfl⟩
  | char c rest =>
    obtain ⟨a, rfl⟩ := hcons _ _ h
    exact ⟨rfl, rfl⟩
  | ref symbol braced rest =>
    obtain ⟨a, rfl⟩ := hcons _ _ h
    exact ⟨rfl, rfl⟩
  | group kind body rest =>
    obtain ⟨a, rfl⟩ := hcons _ _ h
    exact ⟨rfl, rfl⟩

/-- The alternatives of a readable content are readable. -/
theorem WellFormed.alternatives {content : Content} (h : content.WellFormed) :
    ∀ a ∈ content.alternatives, a.WellFormed := by
  induction content with
  | nil => simp [Content.alternatives, WellFormed]
  | bar rest ih => simpa [Content.alternatives, WellFormed] using ih h
  | char c rest ih =>
    refine forall_mem_consFirst (alternatives_ne_nil rest) ?_ (ih h.2)
    intro first hfirst
    exact ⟨h.1, ih h.2 first (List.mem_of_mem_head? hfirst)⟩
  | ref symbol braced rest ih =>
    refine forall_mem_consFirst (alternatives_ne_nil rest) ?_ (ih h.2.2)
    intro first hfirst
    refine ⟨h.1, ?_, ih h.2.2 first (List.mem_of_mem_head? hfirst)⟩
    rw [(begins_of_mem_head? hfirst).1]
    exact h.2.1
  | group kind body rest _ ih =>
    refine forall_mem_consFirst (alternatives_ne_nil rest) ?_ (ih h.2.2)
    intro first hfirst
    exact ⟨h.1, h.2.1, ih h.2.2 first (List.mem_of_mem_head? hfirst)⟩

theorem leadsBlank_print {content : Content} (hwf : content.WellFormed)
    (hflush : content.Flush) : leadsBlank content.print = false := by
  rw [leadsBlank, splitTopLevel_print hwf]
  cases halternatives : content.alternatives with
  | nil => exact absurd halternatives (alternatives_ne_nil content)
  | cons first others =>
    have hmem : first ∈ content.alternatives := by
      rw [halternatives]
      exact List.mem_cons_self
    simp [beginsBlank_print (hwf.alternatives first hmem), (hflush first hmem).1]

theorem trailsBlank_print {content : Content} (hwf : content.WellFormed)
    (hflush : content.Flush) : trailsBlank content.print = false := by
  rw [trailsBlank, splitTopLevel_print hwf]
  cases halternatives : content.alternatives with
  | nil => exact absurd halternatives (alternatives_ne_nil content)
  | cons first others =>
    have hmem : first ∈ content.alternatives := by
      rw [halternatives]
      exact List.mem_cons_self
    simp [endsBlank_print (hwf.alternatives first hmem), (hflush first hmem).2]

/-! ## Replacing in the text and in the tree -/

/-- The forest of the groups of a kind in the written form of a content. -/
def forest (kind : GroupKind) : Content → Forest
  | nil => .nil
  | bar rest => .char '|' (forest kind rest)
  | char c rest => .char c (forest kind rest)
  | ref symbol braced rest => .prepend (writeReference braced symbol) (forest kind rest)
  | group kind' body rest =>
    if kind' = kind then .group (forest kind body) (forest kind rest)
    else .char kind'.opening
      ((forest kind body).append (.char kind'.closing (forest kind rest)))

theorem toText_forest (kind : GroupKind) (content : Content) :
    (content.forest kind).toText kind = content.print := by
  induction content with
  | nil => rfl
  | bar rest ih => rw [forest, Forest.toText, ih, print]
  | char c rest ih => rw [forest, Forest.toText, ih, print]
  | ref symbol braced rest ih => rw [forest, Forest.toText_prepend, ih, print]
  | group kind' body rest ihbody ihrest =>
    rw [forest]
    split
    · rename_i hkind
      rw [hkind, Forest.toText, ihbody, ihrest, print]
    · rw [Forest.toText, Forest.toText_append, Forest.toText, ihbody, ihrest, print]

theorem clean_forest (kind : GroupKind) {content : Content} (h : content.WellFormed) :
    (content.forest kind).Clean kind := by
  have hinert : ∀ c, isInert c = true → c ≠ kind.opening ∧ c ≠ kind.closing := fun c hc =>
    ⟨GroupKind.ne_opening_of_isInert hc kind, GroupKind.ne_closing_of_isInert hc kind⟩
  induction content with
  | nil => trivial
  | bar rest ih =>
    refine ⟨?_, ih h⟩
    cases kind <;> decide
  | char c rest ih => exact ⟨hinert c (isInert_of_isOrdinary h.1), ih h.2⟩
  | ref symbol braced rest ih =>
    exact (ih h.2.2).prepend fun c hc => hinert c (isInert_of_mem_writeReference h.1 hc)
  | group kind' body rest ihbody ihrest =>
    obtain ⟨-, hbody, hrest⟩ := h
    rw [forest]
    split
    · exact ⟨ihbody hbody, ihrest hrest⟩
    · rename_i hkind
      have hdelimiters : (kind'.opening ≠ kind.opening ∧ kind'.opening ≠ kind.closing) ∧
          kind'.closing ≠ kind.opening ∧ kind'.closing ≠ kind.closing := by
        revert hkind
        cases kind' <;> cases kind <;> decide
      exact ⟨hdelimiters.1, (ihbody hbody).append ⟨hdelimiters.2, ihrest hrest⟩⟩

theorem beginsGlued_forest (kind : GroupKind) {content : Content} (h : content.WellFormed) :
    (content.forest kind).beginsGlued = content.beginsGlued := by
  have hdelimiter : ∀ kind' : GroupKind, isIdentifierChar kind'.opening = false := by
    intro kind'
    cases kind' <;> exact isIdentifierChar_of_mem_signs (by decide)
  have hbar : isIdentifierChar '|' = false := isIdentifierChar_of_mem_signs (by decide)
  have hsigil : isIdentifierChar '$' = false := isIdentifierChar_of_mem_signs (by decide)
  cases content with
  | nil => rfl
  | bar rest => exact hbar
  | char c rest => rfl
  | ref symbol braced rest =>
    obtain ⟨tail, htail⟩ := writeReference_eq_cons braced h.1
    rw [forest, htail]
    exact hsigil
  | group kind' body rest =>
    rw [forest]
    split
    · rfl
    · exact hdelimiter kind'

end Content

namespace Statement

/-- The written form of a statement, without its layout. -/
def print (statement : Statement) : Text :=
  statement.symbol.name ++ [' ', '=', ' '] ++ (if statement.omittable then ['|', ' '] else []) ++
    statement.content.print

end Statement

theorem GroupKind.print_statement (kind : GroupKind) (n : Nat) (body : Content) :
    (kind.statement n body).print = Group.production kind (kind.symbol n) body.print := by
  cases kind <;> simp [statement, Statement.print, Group.production, Content.print, opening, closing]

namespace Content

open TextGrammar.Group

theorem reference_print {symbol : Symbol} {content : Content} (hwf : content.WellFormed)
    (hflush : content.Flush) (glued : Bool) :
    reference symbol content.print glued = writeReference glued symbol := by
  simp [reference, leadsBlank_print hwf hflush, trailsBlank_print hwf hflush, writeReference]

theorem length_mint (kind : GroupKind) (start : Nat) (bodies : List Content) :
    (kind.mint start bodies).length = bodies.length := by
  induction bodies generalizing start with
  | nil => rfl
  | cons body bodies ih => rw [GroupKind.mint, List.length_cons, ih, List.length_cons]

/-- Replacing the groups of a written content gives the written form of what extraction leaves,
and the statements of the extracted bodies. -/
theorem replace_forest {kind : GroupKind} {content : Content} (hclear : content.Clear kind)
    (hwf : content.WellFormed) (start : Nat) :
    replace kind start (content.forest kind) =
      ((content.extract kind start).1.print,
        (kind.mint start (content.extract kind start).2).map Statement.print) := by
  induction content generalizing start with
  | nil => rfl
  | bar rest ih =>
    rw [forest, replace, ih hclear hwf]
    rfl
  | char c rest ih =>
    rw [forest, replace, ih hclear hwf.2]
    rfl
  | ref symbol braced rest ih =>
    rw [forest, replace_prepend, ih (clear_ref.1 hclear).2 hwf.2.2]
    rfl
  | group kind' body rest ihbody ihrest =>
    obtain ⟨hclearbody, hclearrest⟩ := clear_group.1 hclear
    obtain ⟨hflush, hbody, hrest⟩ := hwf
    rw [forest, extract]
    split
    · have hinner := (wellFormed_extract hclearbody hbody start).1
      have hinnerflush := flush_extract hclearbody hflush start
      simp only [replace, ihbody hclearbody hbody, ihrest hclearrest hrest,
        beginsGlued_forest kind hrest, List.length_map, length_mint,
        reference_print hinner hinnerflush, GroupKind.mint_append, GroupKind.mint,
        List.map_append, List.map_cons, GroupKind.print_statement, print]
    · have hdelimiter : isIdentifierChar kind'.closing = false := by
        cases kind' <;> exact isIdentifierChar_of_mem_signs (by decide)
      have hclosing : (Forest.char kind'.closing (rest.forest kind)).beginsGlued = false :=
        hdelimiter
      simp only [replace, replace_append kind _ _ hclosing, ihbody hclearbody hbody,
        ihrest hclearrest hrest, List.length_map, length_mint, GroupKind.mint_append,
        List.map_append, print]

end Content

end TextGrammar
