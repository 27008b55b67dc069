import TextGrammar.Proofs.Renaming
import TextGrammar.Proofs.Groups.Accounting

/-!
# Groups with other numbers

Where the numbers of the groups begin decides nothing but the symbols in what a pass leaves behind:
the texts that are left, and the recorded bodies, are the same but for these
(`Group.renamed_replace` for one statement, `Group.readAlike_replaceAll` for all).

A group whose body is nothing but a group has a reference for its body, and gives up the whitespace
that the inner group gives up (`Group.leadsBlank_reference`, `Group.trailsBlank_reference`).
-/

namespace TextGrammar

/-- Every number of a run becomes the one in its place in a run that begins elsewhere. -/
def Renumbers (renames : Symbol → Symbol → Prop) (kind : GroupKind) (start start' count : Nat) :
    Prop :=
  ∀ i < count, renames (kind.symbol (start + i)) (kind.symbol (start' + i))

namespace Renumbers

variable {renames : Symbol → Symbol → Prop} {kind : GroupKind} {start start' m n : Nat}

theorem left (h : Renumbers renames kind start start' (m + n)) :
    Renumbers renames kind start start' m :=
  fun i hi => h i (Nat.lt_add_right n hi)

theorem right (h : Renumbers renames kind start start' (m + n)) :
    Renumbers renames kind (start + m) (start' + m) n := by
  intro i hi
  rw [Nat.add_assoc, Nat.add_assoc]
  exact h (m + i) (Nat.add_lt_add_left hi m)

end Renumbers

namespace Group

variable {renames : Symbol → Symbol → Prop} {kind : GroupKind}

/-! ## References to groups -/

theorem reference_append_eq (symbol : Symbol) (body : Text) (glued : Bool) (rest : Text) :
    reference symbol body glued ++ rest = (if leadsBlank body then [' '] else []) ++
      (writeReference (glued && !trailsBlank body) symbol ++
        ((if trailsBlank body then [' '] else []) ++ rest)) := by
  rw [← List.append_assoc, ← List.append_assoc]
  rfl

theorem renamed_blank_append {text text' : Text} (h : Renamed renames text text') (blank : Bool) :
    Renamed renames ((if blank then [' '] else []) ++ text)
      ((if blank then [' '] else []) ++ text') := by
  cases blank with
  | true => exact .char (fun hsigil => absurd hsigil (by decide)) h
  | false => exact h

/-- Another symbol, and another body that gives up the same whitespace. -/
theorem renamed_reference_append {symbol symbol' : Symbol} {body body' rest rest' : Text}
    {glued : Bool} (hvalid : symbol.Valid) (hvalid' : symbol'.Valid)
    (hrenames : renames symbol symbol') (hleads : leadsBlank body = leadsBlank body')
    (htrails : trailsBlank body = trailsBlank body')
    (hglued : glued = false → beginsIdentifier rest = false) (hrest : Renamed renames rest rest') :
    Renamed renames (reference symbol body glued ++ rest)
      (reference symbol' body' glued ++ rest') := by
  rw [reference_append_eq, reference_append_eq, ← hleads, ← htrails]
  refine renamed_blank_append (.reference hvalid hvalid' hrenames ?_ ?_) _
  · have hspace : isIdentifierChar ' ' = false := isIdentifierChar_of_mem_signs (by decide)
    cases trailsBlank body with
    | true => exact fun _ => by simp [beginsIdentifier, hspace]
    | false => simpa using hglued
  · exact renamed_blank_append hrest _

theorem splitTopLevel_reference {symbol : Symbol} (hvalid : symbol.Valid) (body : Text)
    (glued : Bool) :
    splitTopLevel 0 (reference symbol body glued) = [reference symbol body glued] := by
  have hinert : ∀ c ∈ reference symbol body glued, isInert c = true := fun _ =>
    isInert_of_mem_reference hvalid
  have hsplit := Content.splitTopLevel_append_of_isInert hinert 0 []
  rw [List.append_nil, splitTopLevel, Text.appendFirst_cons, List.append_nil] at hsplit
  exact hsplit

theorem leadsBlank_reference {symbol : Symbol} (hvalid : symbol.Valid) (body : Text)
    (glued : Bool) : leadsBlank (reference symbol body glued) = leadsBlank body := by
  obtain ⟨tail, htail⟩ := reference_eq_cons symbol hvalid body glued
  have hspace : Unicode.isWhitespace ' ' = true := by decide
  have hsigil : Unicode.isWhitespace '$' = false := by decide
  rw [leadsBlank, splitTopLevel_reference hvalid, List.all_cons, List.all_nil, Bool.and_true, htail]
  cases leadsBlank body <;> simp [beginsBlank, hspace, hsigil]

theorem trailsBlank_reference {symbol : Symbol} (hvalid : symbol.Valid) (body : Text)
    (glued : Bool) : trailsBlank (reference symbol body glued) = trailsBlank body := by
  have hspace : endsBlank [' '] = true := by decide
  have hnil : endsBlank [] = false := rfl
  have hform := reference_append_eq symbol body glued []
  rw [List.append_nil, List.append_nil] at hform
  have hlead : endsBlank ((if leadsBlank body then [' '] else []) ++
      writeReference (glued && !trailsBlank body) symbol) = false := by
    have hends := Content.endsBlank_writeReference hvalid (glued && !trailsBlank body)
    cases leadsBlank body with
    | false => exact hends
    | true =>
      obtain ⟨tail, htail⟩ := writeReference_eq_cons (glued && !trailsBlank body) hvalid
      rw [htail] at hends ⊢
      exact hends
  rw [trailsBlank, splitTopLevel_reference hvalid, List.all_cons, List.all_nil, Bool.and_true,
    hform, ← List.append_assoc, Content.endsBlank_append hlead]
  cases trailsBlank body <;> simp [hspace, hnil]

/-- A reference to a group stands where its body did, as the body of a group around it. -/
theorem renamed_nested_reference {symbol symbol' : Symbol} {rest rest' : Text} {glued : Bool}
    (hvalid : symbol.Valid) (hvalid' : symbol'.Valid) (hrenames : renames symbol symbol')
    (body : Text) (hglued : glued = false → beginsIdentifier rest = false)
    (hrest : Renamed renames rest rest') :
    Renamed renames (reference symbol body glued ++ rest)
      (reference symbol' (reference symbol body false) glued ++ rest') :=
  renamed_reference_append hvalid hvalid' hrenames (leadsBlank_reference hvalid body false).symm
    (trailsBlank_reference hvalid body false).symm hglued hrest

/-! ## One statement -/

/-- Other numbers give the same texts but for the symbols. -/
theorem renamed_replace {forest : Forest} {start start' : Nat}
    (hkept : ∀ symbol ∈ mentions (forest.toText kind), renames symbol symbol)
    (hnumbers : Renumbers renames kind start start' forest.bodies.length) :
    Renamed renames (replace kind start forest).1 (replace kind start' forest).1 ∧
      List.Forall₂ (Renamed renames) (inners kind start forest) (inners kind start' forest) := by
  induction forest generalizing start start' with
  | nil => exact ⟨.nil, .nil⟩
  | char c rest ih =>
    obtain ⟨htext, hinners⟩ := ih
      (fun symbol hsymbol => hkept symbol (mem_mentions_append_right [c] hsymbol)) hnumbers
    refine ⟨.char (fun hsigil symbol hsymbol => hkept symbol ?_) htext, hinners⟩
    rw [named?_congr (nameRun_replace kind start rest)] at hsymbol
    rw [hsigil, Forest.toText, mentions_sigil]
    exact List.mem_append_left _ (Option.mem_toList.2 hsymbol)
  | group body rest ihbody ihrest =>
    rw [mentions_group, List.forall_mem_append] at hkept
    rw [Forest.bodies, List.length_append, List.length_cons, Nat.add_comm rest.bodies.length 1]
      at hnumbers
    obtain ⟨hbody, hbodies⟩ := ihbody hkept.1 hnumbers.left
    obtain ⟨hrest, hothers⟩ := ihrest hkept.2 hnumbers.right.right
    have hsymbol : renames (kind.symbol (start + body.bodies.length))
        (kind.symbol (start' + body.bodies.length)) := hnumbers.right.left 0 Nat.one_pos
    have hglued : rest.beginsGlued = false →
        beginsIdentifier (replace kind (start + body.bodies.length + 1) rest).1 = false := by
      rw [beginsIdentifier_replace]
      exact id
    simp only [replace, inners, length_replace_snd, length_inners]
    constructor
    · exact renamed_reference_append (kind.symbol_valid _) (kind.symbol_valid _) hsymbol
        hbody.leadsBlank_eq hbody.trailsBlank_eq hglued hrest
    · exact List.rel_append hbodies (.cons hbody hothers)

/-! ## All statements -/

/-- The statements are read as definitions that are the same but for symbols, or not at all. -/
def ReadAlike (renames : Symbol → Symbol → Prop) (statement statement' : Text) : Prop :=
  Option.Rel (RenamedDefinition renames) (Table.definition? statement)
    (Table.definition? statement')

theorem readAlike_of_isComment {statement : Text} (h : isComment statement = true) :
    ReadAlike renames statement statement := by
  have hnone : Table.definition? statement = none := by
    by_contra hsome
    obtain ⟨definition, hread⟩ := Option.ne_none_iff_exists'.1 hsome
    rw [(Table.exists_of_definition? hread).1] at h
    cases h
  rw [ReadAlike, hnone]
  exact .none

/-- A group and a group around nothing but it, at the same place of a statement. -/
theorem readAlike_nested_reference {symbol symbol' : Symbol} {front front' rest rest' : Text}
    {glued : Bool} (hvalid : symbol.Valid) (hvalid' : symbol'.Valid)
    (hrenames : renames symbol symbol') (body : Text) (hfront : Renamed renames front front')
    (hglued : glued = false → beginsIdentifier rest = false) (hrest : Renamed renames rest rest') :
    ReadAlike renames (front ++ (reference symbol body glued ++ rest))
      (front' ++ (reference symbol' (reference symbol body false) glued ++ rest')) := by
  refine Renamed.definition? (hfront.append ?_ ?_)
  · exact renamed_nested_reference hvalid hvalid' hrenames body hglued hrest
  · exact nameRun_of_head? (head?_reference_append hvalid _ _ _)

/-- So do all statements together, comments apart. -/
theorem readAlike_replaceAll {statements : List Text} {start start' : Nat}
    (hkept : ∀ symbol ∈ mentionsAll statements, renames symbol symbol)
    (hnumbers : Renumbers renames kind start start' (innersAll kind start statements).length) :
    List.Forall₂ (ReadAlike renames) (replaceAll kind start statements).1
        (replaceAll kind start' statements).1 ∧
      List.Forall₂ (Renamed renames) (innersAll kind start statements)
        (innersAll kind start' statements) := by
  induction statements generalizing start start' with
  | nil => exact ⟨.nil, .nil⟩
  | cons statement rest ih =>
    rw [mentionsAll, List.flatMap_cons, List.forall_mem_append] at hkept
    rw [innersAll, List.length_append] at hnumbers
    simp only [replaceAll_cons, innersAll]
    cases hcomment : isComment statement with
    | true =>
      rw [hcomment] at hnumbers
      obtain ⟨hrest, hbodies⟩ := ih hkept.2 hnumbers.right
      exact ⟨.cons (readAlike_of_isComment hcomment) hrest, hbodies⟩
    | false =>
      rw [hcomment] at hkept hnumbers
      simp only [Bool.false_eq_true, if_false, length_inners, length_replace_snd]
        at hkept hnumbers ⊢
      have hhere : ∀ symbol ∈ mentions ((Forest.ofText kind statement).toText kind),
          renames symbol symbol := by
        rw [Forest.toText_ofText]
        exact hkept.1
      obtain ⟨htext, hinners⟩ := renamed_replace hhere hnumbers.left
      obtain ⟨hrest, hbodies⟩ := ih hkept.2 hnumbers.right
      exact ⟨.cons htext.definition? hrest, List.rel_append hinners hbodies⟩

end Group

end TextGrammar
