import TextGrammar.Proofs.Agreement
import TextGrammar.Proofs.Mentions

/-!
# Texts that refer to other symbols

Two texts may be the same but for the symbols they refer to (`Renamed`). What is done to texts does
not look at the symbols, so it keeps that relation: trimming, cutting, reading statements and
reading alternatives.

* `LeavesReferences.forall₂_cutWith` is that for every way to cut a text that leaves references
  whole. Cutting at each `|` and cutting at the `|` outside of groups are two of them.
* `Renamed.definition?`: statements are read as definitions that are the same but for symbols.
* `Renamed.forall₂_parse`: so are contents, as alternatives.
* `SpelledBy.of_renamed`: alternatives spell the same texts if the symbols of each do.
-/

namespace TextGrammar

/-- The texts are the same but for their references: where one refers to a symbol, the other refers
in the same form to a symbol it is renamed to. A reference that is not replaced as a whole stays,
and its symbol has to be renamed to itself. -/
inductive Renamed (renames : Symbol → Symbol → Prop) : Text → Text → Prop where
  | nil : Renamed renames [] []
  | char {c : Char} {text text' : Text}
      (hkept : c = '$' → ∀ symbol ∈ named? text, renames symbol symbol)
      (h : Renamed renames text text') : Renamed renames (c :: text) (c :: text')
  | reference {braced : Bool} {symbol symbol' : Symbol} {text text' : Text}
      (hvalid : symbol.Valid) (hvalid' : symbol'.Valid) (hrenames : renames symbol symbol')
      (hends : braced = false → beginsIdentifier text = false) (h : Renamed renames text text') :
      Renamed renames (writeReference braced symbol ++ text)
        (writeReference braced symbol' ++ text')

variable {renames : Symbol → Symbol → Prop} {text text' : Text}

/-! ## What both texts have in common -/

theorem nameRun_writeReference_append {symbol : Symbol} (hvalid : symbol.Valid) (braced : Bool)
    (rest : Text) : nameRun (writeReference braced symbol ++ rest) = [] := by
  obtain ⟨tail, htail⟩ := writeReference_eq_cons braced hvalid
  have hsigil : isReferenceChar '$' = false :=
    isReferenceChar_of_mem_signs (by decide) (by decide) (by decide)
  simp [htail, nameRun, hsigil]

/-- The characters of a written reference. -/
theorem isReferenceChar_of_mem {symbol : Symbol} (hvalid : symbol.Valid) {braced : Bool} {c : Char}
    (h : c ∈ writeReference braced symbol) : c = '$' ∨ isReferenceChar c = true := by
  obtain ⟨tail, htail⟩ := writeReference_eq_cons braced hvalid
  rw [htail, List.mem_cons] at h
  exact h.imp_right (isReferenceChar_of_mem_writeReference hvalid htail c)

theorem nameRun_trimEnd (text : Text) : nameRun text.trimEnd = nameRun text := by
  induction text with
  | nil => rfl
  | cons c rest ih =>
    rw [Text.trimEnd_cons]
    split_ifs with hblank
    · simp [nameRun, isReferenceChar_of_isWhitespace hblank.1]
    · rw [nameRun, List.takeWhile_cons, nameRun, List.takeWhile_cons]
      exact congrArg (fun run => if isReferenceChar c = true then c :: run else []) ih

theorem trimEnd_writeReference_append {symbol : Symbol} (hvalid : symbol.Valid) {braced : Bool}
    (rest : Text) : Text.trimEnd (writeReference braced symbol ++ rest) =
      writeReference braced symbol ++ rest.trimEnd := by
  have hends := Content.endsBlank_writeReference hvalid braced
  obtain ⟨tail, htail⟩ := writeReference_eq_cons braced hvalid
  rcases List.eq_nil_or_concat (writeReference braced symbol) with hnil | ⟨front, c, hconcat⟩
  · rw [htail] at hnil
    cases hnil
  · rw [List.concat_eq_append] at hconcat
    rw [hconcat] at hends ⊢
    have hc : Unicode.isWhitespace c = false := by simpa [Group.endsBlank] using hends
    rw [List.append_assoc, List.singleton_append, Text.trimEnd_append_cons _ _ hc,
      List.append_assoc, List.singleton_append]

namespace Renamed

theorem head?_eq (h : Renamed renames text text') : text.head? = text'.head? := by
  cases h with
  | nil => rfl
  | char hkept h => rfl
  | @reference braced symbol symbol' _ _ hvalid hvalid' =>
    obtain ⟨tail, htail⟩ := writeReference_eq_cons braced hvalid
    obtain ⟨tail', htail'⟩ := writeReference_eq_cons braced hvalid'
    rw [htail, htail']
    rfl

theorem eq_nil_iff (h : Renamed renames text text') : text = [] ↔ text' = [] := by
  rw [← List.head?_eq_none_iff, h.head?_eq, List.head?_eq_none_iff]

theorem beginsIdentifier_eq (h : Renamed renames text text') :
    beginsIdentifier text = beginsIdentifier text' := by
  rw [beginsIdentifier, h.head?_eq, beginsIdentifier]

theorem beginsBlank_eq (h : Renamed renames text text') :
    Group.beginsBlank text = Group.beginsBlank text' := by
  rw [Group.beginsBlank, h.head?_eq, Group.beginsBlank]

theorem nameRun_eq (h : Renamed renames text text') : nameRun text = nameRun text' := by
  induction h with
  | nil => rfl
  | @char c text text' _ _ ih =>
    rw [nameRun, List.takeWhile_cons, nameRun, List.takeWhile_cons]
    exact congrArg (fun run => if isReferenceChar c = true then c :: run else []) ih
  | reference hvalid hvalid' =>
    rw [nameRun_writeReference_append hvalid, nameRun_writeReference_append hvalid']

theorem named?_eq (h : Renamed renames text text') : named? text = named? text' :=
  named?_congr h.nameRun_eq

theorem endsBlank_eq (h : Renamed renames text text') :
    Group.endsBlank text = Group.endsBlank text' := by
  induction h with
  | nil => rfl
  | char hkept h ih => simp only [Text.endsBlank_cons, ih, h.eq_nil_iff]
  | @reference braced _ _ _ _ hvalid hvalid' _ _ _ ih =>
    rw [Content.endsBlank_append (Content.endsBlank_writeReference hvalid braced),
      Content.endsBlank_append (Content.endsBlank_writeReference hvalid' braced), ih]

/-- Renaming back. -/
theorem flip (h : Renamed renames text text') :
    Renamed (fun symbol symbol' => renames symbol' symbol) text' text := by
  induction h with
  | nil => exact .nil
  | char hkept h ih =>
    refine .char (fun hsigil symbol hsymbol => hkept hsigil symbol ?_) ih
    rwa [h.named?_eq]
  | reference hvalid hvalid' hrenames hends h ih =>
    exact .reference hvalid' hvalid hrenames (h.beginsIdentifier_eq ▸ hends) ih

/-- Texts in a row, where no name at the end of the first goes on in the second. -/
theorem append {rest rest' : Text} (h : Renamed renames text text')
    (hrest : Renamed renames rest rest') (hrun : nameRun rest = []) :
    Renamed renames (text ++ rest) (text' ++ rest') := by
  have hname : ∀ text : Text, nameRun (text ++ rest) = nameRun text := by
    intro text
    cases rest with
    | nil => rw [List.append_nil]
    | cons d rest =>
      refine nameRun_append_cons text rest (Bool.not_eq_true _ ▸ fun hd => ?_)
      simp [nameRun, hd] at hrun
  induction h with
  | nil => exact hrest
  | @char c text text' hkept _ ih =>
    refine .char (fun hsigil symbol hsymbol => hkept hsigil symbol ?_) ih
    rw [← named?_congr (hname text)]
    exact hsymbol
  | @reference braced symbol symbol' text text' hvalid hvalid' hrenames hends _ ih =>
    rw [List.append_assoc, List.append_assoc]
    refine .reference hvalid hvalid' hrenames ?_ ih
    rwa [← beginsIdentifier_nameRun, hname, beginsIdentifier_nameRun]

/-! ## Trimming and line breaks -/

theorem trimStart (h : Renamed renames text text') :
    Renamed renames text.trimStart text'.trimStart := by
  induction h with
  | nil => exact .nil
  | @char c text text' hkept h ih =>
    cases hc : Unicode.isWhitespace c with
    | true => rwa [Text.trimStart_cons_of_blank hc, Text.trimStart_cons_of_blank hc]
    | false =>
      rw [Text.trimStart_eq_self (by simpa using hc), Text.trimStart_eq_self (by simpa using hc)]
      exact .char hkept h
  | @reference braced symbol symbol' _ _ hvalid hvalid' hrenames hends h _ =>
    have hfirst : ∀ {symbol : Symbol} (rest : Text), symbol.Valid →
        Text.trimStart (writeReference braced symbol ++ rest) =
          writeReference braced symbol ++ rest := by
      intro symbol rest hvalid
      obtain ⟨tail, htail⟩ := writeReference_eq_cons braced hvalid
      have hsigil : Unicode.isWhitespace '$' = false := by decide
      exact Text.trimStart_eq_self (by simp [htail, hsigil])
    rw [hfirst _ hvalid, hfirst _ hvalid']
    exact .reference hvalid hvalid' hrenames hends h

theorem trimEnd (h : Renamed renames text text') :
    Renamed renames text.trimEnd text'.trimEnd := by
  induction h with
  | nil => exact .nil
  | @char c text text' hkept h ih =>
    rw [Text.trimEnd_cons, Text.trimEnd_cons]
    simp only [ih.eq_nil_iff]
    split_ifs
    · exact .nil
    · refine .char (fun hsigil symbol hsymbol => hkept hsigil symbol ?_) ih
      rwa [named?_congr (nameRun_trimEnd text)] at hsymbol
  | @reference braced symbol symbol' text _ hvalid hvalid' hrenames hends _ ih =>
    rw [trimEnd_writeReference_append hvalid, trimEnd_writeReference_append hvalid']
    refine .reference hvalid hvalid' hrenames ?_ ih
    rwa [← beginsIdentifier_nameRun, nameRun_trimEnd, beginsIdentifier_nameRun]

theorem trim (h : Renamed renames text text') : Renamed renames text.trim text'.trim :=
  h.trimStart.trimEnd

theorem onOneLine (h : Renamed renames text text') :
    Renamed renames text.onOneLine text'.onOneLine := by
  induction h with
  | nil => exact .nil
  | @char c text text' hkept h ih =>
    rw [Text.onOneLine_cons, Text.onOneLine_cons]
    rcases Text.spaceForBreak_cases c with hc | ⟨hc, hbreak⟩
    · rw [hc]
      refine .char (fun hsigil symbol hsymbol => hkept hsigil symbol ?_) ih
      rwa [named?_congr (nameRun_onOneLine text)] at hsymbol
    · rw [hc]
      exact .char (fun hsigil => absurd hsigil (by decide)) ih
  | @reference braced symbol symbol' text _ hvalid hvalid' hrenames hends _ ih =>
    have hline : ∀ {symbol : Symbol} (rest : Text), symbol.Valid →
        Text.onOneLine (writeReference braced symbol ++ rest) =
          writeReference braced symbol ++ rest.onOneLine := by
      intro symbol rest hvalid
      rw [Text.onOneLine_append, Text.onOneLine_eq_self fun c hc => ?_]
      have hinert := isInert_of_mem_writeReference hvalid hc
      constructor
      · rintro rfl
        exact absurd hinert (by decide)
      · rintro rfl
        exact absurd hinert (by decide)
    rw [hline _ hvalid, hline _ hvalid']
    refine .reference hvalid hvalid' hrenames ?_ ih
    rwa [← beginsIdentifier_nameRun, nameRun_onOneLine, beginsIdentifier_nameRun]

theorem flatten (h : Renamed renames text text') :
    Renamed renames (Table.flatten text) (Table.flatten text') :=
  h.onOneLine.trim

end Renamed

/-! ## Cutting -/

/-- The pieces of a text between the characters that a rule picks. The rule may look at what stands
in front of a character, by a state that is passed along. -/
def cutWith {σ : Type} (cuts : σ → Char → Bool) (next : σ → Char → σ) : σ → Text → List Text
  | _, [] => [[]]
  | state, c :: rest =>
    if cuts state c then [] :: cutWith cuts next (next state c) rest
    else (cutWith cuts next (next state c) rest).modifyHead (List.cons c)

theorem splitOn_eq_cutWith (separator : Char) (text : Text) :
    text.splitOn separator = cutWith (fun _ c => c = separator) (fun _ _ => ()) () text := by
  induction text with
  | nil => rfl
  | cons c rest ih =>
    rw [cutWith, ← ih]
    by_cases hc : c = separator
    · rw [hc, Text.splitOn_cons_self]
      simp
    · rw [Text.splitOn_cons_of_ne _ hc]
      simp [hc]

theorem splitTopLevel_eq_cutWith (depth : Nat) (text : Text) :
    Group.splitTopLevel depth text =
      cutWith (fun depth c => c = '|' ∧ depth = 0) Group.depthAfter depth text := by
  induction text generalizing depth with
  | nil => rfl
  | cons c rest ih =>
    rw [Group.splitTopLevel, cutWith, ih, ih]
    by_cases hbar : c = '|' ∧ depth = 0
    · rw [if_pos hbar, if_pos (by simpa using hbar), hbar.1, hbar.2]
      rfl
    · rw [if_neg hbar, if_neg (by simpa using hbar)]

theorem cutWith_ne_nil {σ : Type} (cuts : σ → Char → Bool) (next : σ → Char → σ) (state : σ)
    (text : Text) : cutWith cuts next state text ≠ [] := by
  induction text generalizing state with
  | nil => exact List.cons_ne_nil _ _
  | cons c rest ih =>
    rw [cutWith]
    split_ifs
    · exact List.cons_ne_nil _ _
    · exact mt List.modifyHead_eq_nil_iff.1 (ih _)

/-- A rule that picks no character of a reference, and takes no notice of them. -/
structure LeavesReferences {σ : Type} (cuts : σ → Char → Bool) (next : σ → Char → σ) : Prop where
  cuts_eq : ∀ state c, c = '$' ∨ isReferenceChar c = true → cuts state c = false
  next_eq : ∀ state c, c = '$' ∨ isReferenceChar c = true → next state c = state

namespace LeavesReferences

variable {σ : Type} {cuts : σ → Char → Bool} {next : σ → Char → σ}

theorem cutWith_append (h : LeavesReferences cuts next) {front : Text}
    (hfront : ∀ c ∈ front, c = '$' ∨ isReferenceChar c = true) (state : σ) (rest : Text) :
    cutWith cuts next state (front ++ rest) =
      Text.appendFirst front (cutWith cuts next state rest) := by
  induction front with
  | nil => exact (Text.appendFirst_nil _).symm
  | cons c front ih =>
    obtain ⟨hc, hrest⟩ := List.forall_mem_cons.1 hfront
    rw [List.cons_append, cutWith, h.cuts_eq state c hc, h.next_eq state c hc, ih hrest,
      if_neg Bool.false_ne_true, Text.modifyHead_cons_appendFirst]

/-- The first piece begins with the name that the text begins with. -/
theorem nameRun_cutWith (h : LeavesReferences cuts next) {state : σ} {text first : Text}
    {others : List Text} (hcut : cutWith cuts next state text = first :: others) :
    nameRun first = nameRun text := by
  induction text generalizing state first others with
  | nil =>
    rw [cutWith, List.cons.injEq] at hcut
    rw [← hcut.1]
  | cons c rest ih =>
    rw [cutWith] at hcut
    split_ifs at hcut with hc
    · have hname : isReferenceChar c = false := by
        by_contra hname
        rw [Bool.not_eq_false] at hname
        rw [h.cuts_eq state c (Or.inr hname)] at hc
        cases hc
      rw [← (List.cons.inj hcut).1]
      simp [nameRun, hname]
    · obtain ⟨piece, pieces, hrest⟩ :=
        List.exists_cons_of_ne_nil (cutWith_ne_nil cuts next (next state c) rest)
      rw [hrest, List.modifyHead_cons, List.cons.injEq] at hcut
      rw [← hcut.1, nameRun, List.takeWhile_cons, nameRun, List.takeWhile_cons]
      exact congrArg (fun run => if isReferenceChar c = true then c :: run else []) (ih hrest)

/-- There is a first piece on both sides, which begins with the name that the text begins with. -/
theorem exists_first (h : LeavesReferences cuts next) {state : σ}
    (hpieces : List.Forall₂ (Renamed renames) (cutWith cuts next state text)
      (cutWith cuts next state text')) :
    ∃ first first' others others', cutWith cuts next state text = first :: others ∧
      cutWith cuts next state text' = first' :: others' ∧ nameRun first = nameRun text ∧
        Renamed renames first first' ∧ List.Forall₂ (Renamed renames) others others' := by
  obtain ⟨first, others, hcut⟩ := List.exists_cons_of_ne_nil (cutWith_ne_nil cuts next state text)
  rw [hcut] at hpieces
  obtain ⟨first', others', hfirst, hothers, hcut'⟩ := List.forall₂_cons_left_iff.1 hpieces
  exact ⟨first, first', others, others', hcut, hcut', h.nameRun_cutWith hcut, hfirst, hothers⟩

/-- Texts that are the same but for symbols are cut into pieces that are. -/
theorem forall₂_cutWith (h : LeavesReferences cuts next) (hrenamed : Renamed renames text text')
    (state : σ) :
    List.Forall₂ (Renamed renames) (cutWith cuts next state text)
      (cutWith cuts next state text') := by
  induction hrenamed generalizing state with
  | nil => exact .cons .nil .nil
  | @char c text text' hkept hrest ih =>
    rw [cutWith, cutWith]
    split_ifs with hc
    · exact .cons .nil (ih _)
    · obtain ⟨_, _, _, _, hcut, hcut', hname, hfirst, hothers⟩ := h.exists_first (ih (next state c))
      rw [hcut, hcut']
      refine .cons (.char (fun hsigil symbol hsymbol => hkept hsigil symbol ?_) hfirst) hothers
      rwa [← named?_congr hname]
  | @reference braced symbol symbol' text text' hvalid hvalid' hrenames hends hrest ih =>
    rw [h.cutWith_append fun c => isReferenceChar_of_mem hvalid,
      h.cutWith_append fun c => isReferenceChar_of_mem hvalid']
    obtain ⟨_, _, _, _, hcut, hcut', hname, hfirst, hothers⟩ := h.exists_first (ih state)
    rw [hcut, hcut', Text.appendFirst_cons, Text.appendFirst_cons]
    refine .cons (.reference hvalid hvalid' hrenames ?_ hfirst) hothers
    rwa [← beginsIdentifier_nameRun, hname, beginsIdentifier_nameRun]

end LeavesReferences

theorem not_referenceChar_of_mem_signs {c : Char} (hc : c ∈ signs)
    (hbraces : c ≠ '{' ∧ c ≠ '}' ∧ c ≠ '$') : ¬(c = '$' ∨ isReferenceChar c = true) := by
  rw [isReferenceChar_of_mem_signs hc hbraces.1 hbraces.2.1]
  simp [hbraces.2.2]

theorem leavesReferences_separator {separator : Char}
    (h : ¬(separator = '$' ∨ isReferenceChar separator = true)) :
    LeavesReferences (fun _ c => c = separator) (fun _ _ => ()) := by
  refine ⟨fun _ c hc => decide_eq_false ?_, fun _ _ _ => rfl⟩
  rintro rfl
  exact h hc

theorem leavesReferences_topLevel :
    LeavesReferences (fun depth c => c = '|' ∧ depth = 0) Group.depthAfter := by
  have hne : ∀ {c d : Char}, c = '$' ∨ isReferenceChar c = true → d ∈ signs →
      d ≠ '{' ∧ d ≠ '}' ∧ d ≠ '$' → c ≠ d := by
    rintro c _ hc hd hbraces rfl
    exact not_referenceChar_of_mem_signs hd hbraces hc
  constructor
  · intro depth c hc
    simp [hne hc (by decide : '|' ∈ signs) (by decide)]
  · intro depth c hc
    simp [Group.depthAfter, hne hc (by decide : '(' ∈ signs) (by decide),
      hne hc (by decide : '[' ∈ signs) (by decide), hne hc (by decide : ')' ∈ signs) (by decide),
      hne hc (by decide : ']' ∈ signs) (by decide)]

theorem all_eq_of_forall₂ {R : Text → Text → Prop} {p : Text → Bool}
    (hp : ∀ piece piece', R piece piece' → p piece = p piece') {pieces pieces' : List Text}
    (h : List.Forall₂ R pieces pieces') : pieces.all p = pieces'.all p := by
  induction h with
  | nil => rfl
  | cons hpiece _ ih => rw [List.all_cons, List.all_cons, hp _ _ hpiece, ih]

namespace Renamed

theorem forall₂_split (h : Renamed renames text text') {separator : Char}
    (hseparator : ¬(separator = '$' ∨ isReferenceChar separator = true)) :
    List.Forall₂ (Renamed renames) (text.splitOn separator) (text'.splitOn separator) := by
  rw [splitOn_eq_cutWith, splitOn_eq_cutWith]
  exact (leavesReferences_separator hseparator).forall₂_cutWith h ()

theorem leadsBlank_eq (h : Renamed renames text text') :
    Group.leadsBlank text = Group.leadsBlank text' := by
  rw [Group.leadsBlank, Group.leadsBlank, splitTopLevel_eq_cutWith, splitTopLevel_eq_cutWith]
  exact all_eq_of_forall₂ (fun _ _ hpiece => hpiece.beginsBlank_eq)
    (leavesReferences_topLevel.forall₂_cutWith h 0)

theorem trailsBlank_eq (h : Renamed renames text text') :
    Group.trailsBlank text = Group.trailsBlank text' := by
  rw [Group.trailsBlank, Group.trailsBlank, splitTopLevel_eq_cutWith, splitTopLevel_eq_cutWith]
  exact all_eq_of_forall₂ (fun _ _ hpiece => hpiece.endsBlank_eq)
    (leavesReferences_topLevel.forall₂_cutWith h 0)

end Renamed

/-! ## Statements -/

/-- The definitions are the same but for the symbols in them. -/
structure RenamedDefinition (renames : Symbol → Symbol → Prop)
    (definition definition' : Definition) : Prop where
  name : Renamed renames definition.name definition'.name
  content : Renamed renames definition.content definition'.content

/-- Whether a character is the first `=`, told from whether there was one before. -/
def cutsFirst (found : Bool) (c : Char) : Bool :=
  !found && c = '='

/-- Whether there was a `=`, behind a character. -/
def findsFirst (found : Bool) (c : Char) : Bool :=
  found || c = '='

theorem leavesReferences_first : LeavesReferences cutsFirst findsFirst := by
  have hequals : ∀ c, c = '$' ∨ isReferenceChar c = true → c ≠ '=' := by
    rintro _ hc rfl
    exact not_referenceChar_of_mem_signs (by decide) (by decide) hc
  constructor
  · intro found c hc
    simp [cutsFirst, hequals c hc]
  · intro found c hc
    simp [findsFirst, hequals c hc]

theorem cutWith_found (text : Text) : cutWith cutsFirst findsFirst true text = [text] := by
  induction text with
  | nil => rfl
  | cons c rest ih => simp [cutWith, cutsFirst, findsFirst, ih]

theorem cutWith_first_append {before : Text} (h : '=' ∉ before) (rest : Text) :
    cutWith cutsFirst findsFirst false (before ++ rest) =
      Text.appendFirst before (cutWith cutsFirst findsFirst false rest) := by
  induction before with
  | nil => exact (Text.appendFirst_nil _).symm
  | cons c before ih =>
    rw [List.mem_cons, not_or] at h
    have hstep : cutWith cutsFirst findsFirst false (c :: (before ++ rest)) =
        (cutWith cutsFirst findsFirst false (before ++ rest)).modifyHead (List.cons c) := by
      simp [cutWith, cutsFirst, findsFirst, Ne.symm h.1]
    rw [List.cons_append, hstep, ih h.2, Text.modifyHead_cons_appendFirst]

theorem cutWith_first (text : Text) : cutWith cutsFirst findsFirst false text =
    match text.splitFirst? '=' with
    | some (name, content) => [name, content]
    | none => [text] := by
  by_cases hequals : '=' ∈ text
  · obtain ⟨before, after, rfl, hbefore⟩ := List.eq_append_cons_of_mem hequals
    have hstep : cutWith cutsFirst findsFirst false ('=' :: after) = [[], after] := by
      simp [cutWith, cutsFirst, findsFirst, cutWith_found]
    rw [cutWith_first_append hbefore, hstep, Text.appendFirst_cons, List.append_nil,
      Text.splitFirst?_append_cons _ hbefore]
  · have happend := cutWith_first_append hequals []
    rw [List.append_nil, cutWith, Text.appendFirst_cons, List.append_nil] at happend
    rw [happend, Text.splitFirst?_eq_none hequals]

namespace Renamed

theorem ofStatement (h : Renamed renames text text') :
    RenamedDefinition renames (Definition.ofStatement text) (Definition.ofStatement text') := by
  have hpieces := leavesReferences_first.forall₂_cutWith h false
  rw [cutWith_first, cutWith_first] at hpieces
  rw [Definition.ofStatement, Definition.ofStatement]
  cases hsplit : text.splitFirst? '=' with
  | none =>
    cases hsplit' : text'.splitFirst? '=' with
    | none => exact ⟨h, .nil⟩
    | some parts' => simp [hsplit, hsplit'] at hpieces
  | some parts =>
    cases hsplit' : text'.splitFirst? '=' with
    | none => simp [hsplit, hsplit'] at hpieces
    | some parts' =>
      simp only [hsplit, hsplit', List.forall₂_cons, List.Forall₂.nil, and_true] at hpieces
      exact ⟨hpieces.1.trim, hpieces.2.trim⟩

/-- Statements that are the same but for symbols are read as definitions that are, or not at all. -/
theorem definition? (h : Renamed renames text text') :
    Option.Rel (RenamedDefinition renames) (Table.definition? text) (Table.definition? text') := by
  have hline := h.flatten
  have hempty : (Table.flatten text).isEmpty = (Table.flatten text').isEmpty := by
    rw [Bool.eq_iff_iff, List.isEmpty_iff, List.isEmpty_iff, hline.eq_nil_iff]
  rw [Table.definition?, Table.definition?]
  simp only [hempty, hline.head?_eq]
  split_ifs
  · exact .some hline.ofStatement
  · exact .none

end Renamed

/-! ## Alternatives -/

/-- The segments are the same but for the symbols they refer to. -/
inductive RenamedSegment (renames : Symbol → Symbol → Prop) : Segment → Segment → Prop where
  | literal (text : Text) : RenamedSegment renames (.literal text) (.literal text)
  | ref {symbol symbol'} (h : renames symbol symbol') :
      RenamedSegment renames (.ref symbol) (.ref symbol')
  | forced {symbol symbol'} (h : renames symbol symbol') :
      RenamedSegment renames (.forced symbol) (.forced symbol')

/-- Segments spell what they did, if the symbols that theirs are renamed to do. -/
theorem SpelledBy.of_renamed {produces produces' : Symbol → Text → Prop}
    (hproduces : ∀ symbol symbol', renames symbol symbol' → ∀ text,
      produces symbol text → produces' symbol' text) {segments segments' : List Segment}
    (hrenamed : List.Forall₂ (RenamedSegment renames) segments segments')
    (h : SpelledBy produces segments text) : SpelledBy produces' segments' text := by
  induction hrenamed generalizing text with
  | nil => exact h
  | cons hsegment _ ih =>
    obtain ⟨before, after, rfl, hspells, hrest⟩ := h
    refine ⟨before, after, rfl, ?_, ih hrest⟩
    cases hsegment with
    | literal piece => exact hspells
    | ref hrenames => exact hproduces _ _ hrenames before hspells
    | forced hrenames => exact hproduces _ _ hrenames before hspells

theorem forall₂_attach {segments segments' : List Segment} (text : Text)
    (h : List.Forall₂ (RenamedSegment renames) segments segments') :
    List.Forall₂ (RenamedSegment renames) (Segment.attach (.literal text) segments)
      (Segment.attach (.literal text) segments') := by
  cases text with
  | nil => exact h
  | cons c text =>
    cases h with
    | nil => exact .cons (.literal _) .nil
    | cons hsegment hrest =>
      cases hsegment with
      | literal piece => exact .cons (.literal _) hrest
      | ref hrenames => exact .cons (.literal _) (.cons (.ref hrenames) hrest)
      | forced hrenames => exact .cons (.literal _) (.cons (.forced hrenames) hrest)

namespace Renamed

/-- In front of the first `$` nothing is renamed. -/
theorem exists_of_append {front : Text} (hfront : '$' ∉ front)
    (h : Renamed renames (front ++ text) text') :
    ∃ rest, text' = front ++ rest ∧ Renamed renames text rest := by
  induction front generalizing text' with
  | nil => exact ⟨text', rfl, h⟩
  | cons c front ih =>
    rw [List.mem_cons, not_or] at hfront
    rw [List.cons_append] at h
    generalize htext : c :: (front ++ text) = whole at h
    cases h with
    | nil => cases htext
    | char hkept h =>
      cases htext
      obtain ⟨rest, rfl, hrest⟩ := ih hfront.2 h
      exact ⟨rest, rfl, hrest⟩
    | reference hvalid =>
      obtain ⟨tail, htail⟩ := writeReference_eq_cons _ hvalid
      rw [htail, List.cons_append, List.cons.injEq] at htext
      exact absurd htext.1.symm hfront.1

/-- A reference that is read in one text is there in the other, to a symbol it is renamed to. -/
theorem exists_of_writeReference {braced : Bool} {symbol : Symbol} (hvalid : symbol.Valid)
    (hends : braced = false → beginsIdentifier text = false)
    (h : Renamed renames (writeReference braced symbol ++ text) text') :
    ∃ symbol' rest, symbol'.Valid ∧ renames symbol symbol' ∧
      text' = writeReference braced symbol' ++ rest ∧ Renamed renames text rest := by
  have hread := readReference_writeReference hvalid hends
  generalize htext : writeReference braced symbol ++ text = whole at h hread
  cases h with
  | nil => cases hread
  | @char c rest rest' hkept h =>
    obtain ⟨tail, htail⟩ := writeReference_eq_cons braced hvalid
    have hsigil : '$' ∉ tail := by
      intro hmem
      have hname := isReferenceChar_of_mem_writeReference hvalid htail _ hmem
      rw [isReferenceChar_of_mem_signs (by decide) (by decide) (by decide)] at hname
      cases hname
    rw [htail, List.cons_append, List.cons.injEq] at htext
    obtain ⟨rfl, rfl⟩ := htext
    obtain ⟨after, rfl, hafter⟩ := exists_of_append hsigil h
    have hnamed : named? (tail ++ text) = some symbol := by
      rw [named?, hread]
      rfl
    exact ⟨symbol, after, hvalid, hkept rfl symbol hnamed, by rw [htail, List.cons_append], hafter⟩
  | @reference braced₁ symbol₁ symbol' after after' hvalid₁ hvalid' hrenames hends₁ h =>
    rw [readReference_writeReference hvalid₁ hends₁, Option.some.injEq, Prod.mk.injEq] at hread
    obtain ⟨rfl, rfl⟩ := hread
    have hform : braced = braced₁ := by
      have hsame := congrArg List.length (List.append_cancel_right htext)
      cases braced <;> cases braced₁ <;>
        simp [writeReference, Symbol.identifier, List.length_tail] at hsame ⊢ <;> omega
    exact ⟨symbol', after', hvalid', hrenames, by rw [hform], h⟩

/-- A name is renamed to a name. -/
theorem exists_of_name {symbol : Symbol} (hvalid : symbol.Valid)
    (h : Renamed renames symbol.name text') :
    ∃ symbol' : Symbol, symbol'.Valid ∧ renames symbol symbol' ∧ text' = symbol'.name := by
  have hname : symbol.name = writeReference false symbol ++ [] := (List.append_nil _).symm
  rw [hname] at h
  obtain ⟨symbol', rest, hvalid', hrenames, rfl, hrest⟩ :=
    exists_of_writeReference hvalid (fun _ => rfl) h
  rw [hrest.eq_nil_iff.1 rfl, List.append_nil]
  exact ⟨symbol', hvalid', hrenames, rfl⟩

theorem readReference_eq_none (h : Renamed renames text text') (hread : readReference text = none) :
    readReference text' = none := by
  by_cases hhead : text.head? = some '$'
  · obtain ⟨rest, rfl⟩ := List.head?_eq_some_iff.1 hhead
    generalize htext : '$' :: rest = whole at h hread
    cases h with
    | nil => rfl
    | char hkept h =>
      cases htext
      have hnamed : named? rest = none := by
        rw [named?, hread]
        rfl
      rw [h.named?_eq, named?, Option.map_eq_none_iff] at hnamed
      exact hnamed
    | reference hvalid _ _ hends =>
      rw [readReference_writeReference hvalid hends] at hread
      cases hread
  · exact readReference_of_head (h.head?_eq ▸ hhead)

/-- A character that begins no reference begins none in the other text. -/
theorem readReferenceSegment_eq_none {c : Char} (h : Renamed renames (c :: text) text')
    (hread : readReferenceSegment (c :: text) = none) :
    ∃ rest, text' = c :: rest ∧ Renamed renames text rest ∧
      readReferenceSegment (c :: rest) = none := by
  generalize htext : c :: text = whole at h
  cases h with
  | nil => cases htext
  | @char _ _ rest hkept h =>
    cases htext
    refine ⟨rest, rfl, h, ?_⟩
    by_cases hforced : c = '>'
    · subst hforced
      rw [readReferenceSegment, Option.map_eq_none_iff] at hread ⊢
      exact h.readReference_eq_none hread
    by_cases hsigil : c = '$'
    · subst hsigil
      rw [readReferenceSegment_sigil, Option.map_eq_none_iff] at hread ⊢
      exact (Renamed.char hkept h).readReference_eq_none hread
    · exact readReferenceSegment_of_plain rest hsigil hforced
  | @reference _ _ _ after _ hvalid _ _ hends =>
    obtain ⟨tail, htail⟩ := writeReference_eq_cons _ hvalid
    have hfound := readReference_writeReference hvalid hends
    rw [htail, List.cons_append] at htext hfound
    rw [htext, readReferenceSegment_sigil, hfound] at hread
    cases hread

/-- Texts that are the same but for symbols are read as segments that are. -/
theorem forall₂_readSegments (h : Renamed renames text text') :
    List.Forall₂ (RenamedSegment renames) (readSegments text) (readSegments text') := by
  induction text using readSegments.induct generalizing text' with
  | case1 =>
    rw [h.eq_nil_iff.1 rfl, readSegments]
    exact .nil
  | case2 c rest segment after hread ih =>
    rw [readSegments_of_some hread]
    generalize c :: rest = text at h hread
    cases spelled_of_readReferenceSegment hread with
    | ref hvalid hends =>
      obtain ⟨symbol', after', hvalid', hrenames, rfl, hafter⟩ :=
        exists_of_writeReference hvalid hends h
      rw [readSegments_writeReference hvalid' (hafter.beginsIdentifier_eq ▸ hends)]
      exact .cons (.ref hrenames) (ih hafter)
    | forced hvalid hends =>
      have hfront : '$' ∉ ['>'] := by decide
      obtain ⟨tail, rfl, htail⟩ := exists_of_append hfront h
      obtain ⟨symbol', after', hvalid', hrenames, rfl, hafter⟩ :=
        exists_of_writeReference hvalid hends htail
      rw [List.singleton_append,
        readSegments_forced_writeReference hvalid' (hafter.beginsIdentifier_eq ▸ hends)]
      exact .cons (.forced hrenames) (ih hafter)
  | case3 c rest hread ih =>
    obtain ⟨rest', rfl, hrest, hread'⟩ := h.readReferenceSegment_eq_none hread
    rw [readSegments_of_none hread, readSegments_of_none hread']
    exact forall₂_attach [c] (ih hrest)

/-- Contents that are the same but for symbols are read as alternatives that are. -/
theorem forall₂_parse (h : Renamed renames text text') :
    List.Forall₂ (fun a a' : Alternative =>
        List.Forall₂ (RenamedSegment renames) a.segments a'.segments)
      (Production.parse text).alternatives (Production.parse text').alternatives := by
  have hbar := not_referenceChar_of_mem_signs (by decide : '|' ∈ signs) (by decide)
  rw [Production.parse, Production.parse, List.forall₂_map_left_iff, List.forall₂_map_right_iff]
  exact (h.forall₂_split hbar).imp fun _ _ hpiece => hpiece.trim.forall₂_readSegments

/-- What an alternative of a content spells, one of the other content does. -/
theorem exists_spelledBy (h : Renamed renames text text')
    {produces produces' : Symbol → Text → Prop}
    (hproduces : ∀ symbol symbol', renames symbol symbol' → ∀ text,
      produces symbol text → produces' symbol' text) {a : Alternative} {spelled : Text}
    (ha : a ∈ (Production.parse text).alternatives)
    (hspell : SpelledBy produces a.segments spelled) :
    ∃ a' ∈ (Production.parse text').alternatives, SpelledBy produces' a'.segments spelled := by
  obtain ⟨a', ha', hsegments⟩ := Content.exists_of_forall₂_left h.forall₂_parse ha
  exact ⟨a', ha', hspell.of_renamed hproduces hsegments⟩

end Renamed

end TextGrammar
