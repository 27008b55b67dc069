import TextGrammar.Proofs.Groups.Extraction

/-!
# Numbering the groups

`Content.extract` replaces the groups of a kind and numbers them in the order in which they close,
as desugaring does on the written form. It gives contents that are related by `Extracted`
(`Content.extracted_extract`), and keeps everything that makes a content readable:
`Content.wellFormed_extract`, `Content.mem_references_extract`, `Content.free_extract`.
-/

namespace TextGrammar

namespace Content

/-- Replaces the groups of a kind by references, numbering them from `start`. Gives the content
that is left and the bodies of the groups in the order of their numbers. -/
def extract (kind : GroupKind) (start : Nat) : Content → Content × List Content
  | nil => (nil, [])
  | bar rest =>
    let after := extract kind start rest
    (bar after.1, after.2)
  | char c rest =>
    let after := extract kind start rest
    (char c after.1, after.2)
  | ref symbol braced rest =>
    let after := extract kind start rest
    (ref symbol braced after.1, after.2)
  | group kind' body rest =>
    let inner := extract kind start body
    if kind' = kind then
      let after := extract kind (start + inner.2.length + 1) rest
      (ref (kind.symbol (start + inner.2.length)) rest.beginsGlued after.1,
        inner.2 ++ inner.1 :: after.2)
    else
      let after := extract kind (start + inner.2.length) rest
      (group kind' inner.1 after.1, inner.2 ++ after.2)

/-- No reference has the symbol of a group of a kind. -/
def Clear (kind : GroupKind) (content : Content) : Prop :=
  ∀ symbol ∈ content.references, ∀ n, symbol ≠ kind.symbol n

/-- There is no group of a kind at any level. -/
def Free (kind : GroupKind) : Content → Prop
  | nil => True
  | bar rest => Free kind rest
  | char _ rest => Free kind rest
  | ref _ _ rest => Free kind rest
  | group kind' body rest => kind' ≠ kind ∧ Free kind body ∧ Free kind rest

variable {kind : GroupKind}

theorem clear_group {kind' : GroupKind} {body rest : Content} :
    (group kind' body rest).Clear kind ↔ body.Clear kind ∧ rest.Clear kind := by
  simp [Clear, references, or_imp, forall_and]

theorem clear_ref {symbol : Symbol} {braced : Bool} {rest : Content} :
    (ref symbol braced rest).Clear kind ↔ (∀ n, symbol ≠ kind.symbol n) ∧ rest.Clear kind := by
  simp [Clear, references]

end Content

/-! ## The rules of the groups -/

/-- A rule as it is laid out in a source: behind some layout, and with an empty first alternative
if it may come out as nothing. -/
structure Statement where
  layout : Text
  symbol : Symbol
  omittable : Bool
  content : Content

namespace Statement

/-- The rule of a statement. -/
def rule (statement : Statement) : Rule :=
  ⟨statement.symbol, if statement.omittable then .bar statement.content else statement.content⟩

end Statement

namespace GroupKind

/-- The statement for the group number `n` with a given body. -/
def statement (kind : GroupKind) (n : Nat) (body : Content) : Statement :=
  match kind with
  | .optional => ⟨['\n'], kind.symbol n, true, .group .plain body .nil⟩
  | .plain => ⟨['\n'], kind.symbol n, false, body⟩

theorem statement_symbol (kind : GroupKind) (n : Nat) (body : Content) :
    (kind.statement n body).symbol = kind.symbol n := by
  cases kind <;> rfl

theorem statement_rule (kind : GroupKind) (n : Nat) (body : Content) :
    (kind.statement n body).rule = ⟨kind.symbol n, kind.wrap body⟩ := by
  cases kind <;> rfl

/-- The statements for groups with given bodies, numbered from `start`. -/
def mint (kind : GroupKind) (start : Nat) : List Content → List Statement
  | [] => []
  | body :: bodies => kind.statement start body :: mint kind (start + 1) bodies

theorem mint_append (kind : GroupKind) (start : Nat) (bodies bodies' : List Content) :
    kind.mint start (bodies ++ bodies') =
      kind.mint start bodies ++ kind.mint (start + bodies.length) bodies' := by
  induction bodies generalizing start with
  | nil => rfl
  | cons body bodies ih =>
    rw [List.cons_append, mint, ih, mint, List.length_cons, List.cons_append, Nat.add_assoc,
      Nat.add_comm 1]

theorem exists_of_mem_mint {kind : GroupKind} {start : Nat} {bodies : List Content}
    {statement : Statement} (h : statement ∈ kind.mint start bodies) :
    ∃ n body, start ≤ n ∧ body ∈ bodies ∧ statement = kind.statement n body := by
  induction bodies generalizing start with
  | nil => simp [mint] at h
  | cons body bodies ih =>
    rcases List.mem_cons.1 h with rfl | hrest
    · exact ⟨start, body, Nat.le_refl _, List.mem_cons_self, rfl⟩
    · obtain ⟨n, other, hle, hmem, rfl⟩ := ih hrest
      exact ⟨n, other, by omega, List.mem_cons_of_mem _ hmem, rfl⟩

/-- Every group has a symbol of its own. -/
theorem nodup_mint (kind : GroupKind) (start : Nat) (bodies : List Content) :
    ((kind.mint start bodies).map Statement.symbol).Nodup := by
  induction bodies generalizing start with
  | nil => exact List.nodup_nil
  | cons body bodies ih =>
    rw [mint, List.map_cons, List.nodup_cons]
    refine ⟨?_, ih (start + 1)⟩
    intro hmem
    obtain ⟨statement, hstatement, hsymbol⟩ := List.mem_map.1 hmem
    obtain ⟨n, other, hle, -, rfl⟩ := exists_of_mem_mint hstatement
    rw [statement_symbol, statement_symbol] at hsymbol
    have := symbol_inj hsymbol
    omega

end GroupKind

/-! ## Extraction is a replacement -/

namespace Content

variable {kind : GroupKind}

/-- The content that is left is related to the one before, for rules that hold the bodies. -/
theorem extracted_extract {rules : List Rule} {start : Nat} {content : Content}
    (hclear : content.Clear kind)
    (hrules : (kind.mint start (content.extract kind start).2).map Statement.rule ⊆ rules) :
    Extracted kind rules content (content.extract kind start).1 := by
  induction content generalizing start with
  | nil => exact .nil
  | bar rest ih => exact .bar (ih hclear hrules)
  | char c rest ih => exact .char (ih hclear hrules)
  | ref symbol braced rest ih =>
    obtain ⟨hsymbol, hrest⟩ := clear_ref.1 hclear
    exact .ref hsymbol (ih hrest hrules)
  | group kind' body rest ihbody ihrest =>
    obtain ⟨hbody, hrest⟩ := clear_group.1 hclear
    simp only [extract] at hrules ⊢
    split at hrules
    · rename_i hkind
      subst hkind
      simp only [GroupKind.mint_append, GroupKind.mint, List.map_append, List.map_cons,
        List.append_subset, List.cons_subset, GroupKind.statement_rule] at hrules
      obtain ⟨hinner, hminted, hafter⟩ := hrules
      rw [if_pos rfl]
      exact .group (ihbody hbody hinner) hminted (ihrest hrest hafter)
    · rename_i hkind
      simp only [GroupKind.mint_append, List.map_append, List.append_subset] at hrules
      rw [if_neg hkind]
      exact .other hkind (ihbody hbody hrules.1) (ihrest hrest hrules.2)

/-! ## What extraction keeps -/

theorem beginsGlued_extract (start : Nat) (content : Content) :
    (content.extract kind start).1.beginsGlued = content.beginsGlued := by
  cases content with
  | group kind' body rest =>
    simp only [extract]
    split <;> rfl
  | _ => rfl

theorem Extracted.beginsBlank {rules : List Rule} {content content' : Content}
    (h : Extracted kind rules content content') :
    content'.beginsBlank = content.beginsBlank := by
  cases h <;> rfl

theorem Extracted.endsBlank {rules : List Rule} {content content' : Content}
    (h : Extracted kind rules content content') : content'.endsBlank = content.endsBlank := by
  induction h with
  | nil => rfl
  | bar _ ih => exact ih
  | char hrest ih =>
    cases hrest with
    | nil => rfl
    | _ => exact ih
  | ref _ _ ih => exact ih
  | other _ _ _ _ ih => exact ih
  | group _ _ _ _ ih => exact ih

/-- Replacing groups brings no whitespace to the ends of alternatives. -/
theorem Extracted.flush {rules : List Rule} {content content' : Content}
    (h : Extracted kind rules content content') (hflush : content.Flush) : content'.Flush := by
  intro a' ha'
  obtain ⟨a, ha, hextracted⟩ := exists_of_forall₂_right h.alternatives ha'
  rw [hextracted.beginsBlank, hextracted.endsBlank]
  exact hflush a ha

theorem flush_extract {content : Content} (hclear : content.Clear kind)
    (hflush : content.Flush) (start : Nat) : (content.extract kind start).1.Flush :=
  (extracted_extract hclear (List.Subset.refl _)).flush hflush

/-- What is left and the bodies of the groups are as readable as the content before. -/
theorem wellFormed_extract {content : Content} (hclear : content.Clear kind)
    (hwf : content.WellFormed) (start : Nat) :
    (content.extract kind start).1.WellFormed ∧
      ∀ body ∈ (content.extract kind start).2, body.WellFormed ∧ body.Flush := by
  induction content generalizing start with
  | nil => exact ⟨trivial, by simp [extract]⟩
  | bar rest ih => exact ih hclear hwf start
  | char c rest ih =>
    obtain ⟨hrest, hbodies⟩ := ih hclear hwf.2 start
    exact ⟨⟨hwf.1, hrest⟩, hbodies⟩
  | ref symbol braced rest ih =>
    obtain ⟨hrest, hbodies⟩ := ih (clear_ref.1 hclear).2 hwf.2.2 start
    refine ⟨⟨hwf.1, ?_, hrest⟩, hbodies⟩
    rw [beginsGlued_extract]
    exact hwf.2.1
  | group kind' body rest ihbody ihrest =>
    obtain ⟨hclearbody, hclearrest⟩ := clear_group.1 hclear
    obtain ⟨hflush, hbody, hrest⟩ := hwf
    obtain ⟨hinner, hbodies⟩ := ihbody hclearbody hbody start
    have hinnerflush := flush_extract hclearbody hflush start
    simp only [extract]
    split
    · obtain ⟨hafter, hmore⟩ :=
        ihrest hclearrest hrest (start + (body.extract kind start).2.length + 1)
      refine ⟨⟨kind.symbol_valid _, ?_, hafter⟩, ?_⟩
      · rw [beginsGlued_extract]
        exact id
      · intro other hother
        rcases List.mem_append.1 hother with h | h
        · exact hbodies other h
        · rcases List.mem_cons.1 h with rfl | h
          · exact ⟨hinner, hinnerflush⟩
          · exact hmore other h
    · obtain ⟨hafter, hmore⟩ :=
        ihrest hclearrest hrest (start + (body.extract kind start).2.length)
      refine ⟨⟨hinnerflush, hinner, hafter⟩, ?_⟩
      intro other hother
      rcases List.mem_append.1 hother with h | h
      · exact hbodies other h
      · exact hmore other h

/-- The only new references are those to the groups. -/
theorem mem_references_extract {start : Nat} {content : Content} {symbol : Symbol}
    (h : symbol ∈ (content.extract kind start).1.references ∨
      ∃ body ∈ (content.extract kind start).2, symbol ∈ body.references) :
    symbol ∈ content.references ∨ ∃ n, symbol = kind.symbol n := by
  induction content generalizing start with
  | nil => simp [extract, references] at h
  | bar rest ih => exact ih h
  | char c rest ih => exact ih h
  | ref symbol' braced rest ih =>
    simp only [extract, references, List.mem_cons] at h ⊢
    rcases h with (rfl | h) | h
    · exact Or.inl (Or.inl rfl)
    · exact (ih (Or.inl h)).imp_left Or.inr
    · exact (ih (Or.inr h)).imp_left Or.inr
  | group kind' body rest ihbody ihrest =>
    simp only [references, List.mem_append]
    simp only [extract] at h
    split at h
    · simp only [references, List.mem_cons, List.mem_append] at h
      rcases h with (h | h) | ⟨other, h | rfl | h, hmem⟩
      · exact Or.inr ⟨_, h⟩
      · exact (ihrest (Or.inl h)).imp_left Or.inr
      · exact (ihbody (Or.inr ⟨other, h, hmem⟩)).imp_left Or.inl
      · exact (ihbody (Or.inl hmem)).imp_left Or.inl
      · exact (ihrest (Or.inr ⟨other, h, hmem⟩)).imp_left Or.inr
    · simp only [references, List.mem_append] at h
      rcases h with (h | h) | ⟨other, h | h, hmem⟩
      · exact (ihbody (Or.inl h)).imp_left Or.inl
      · exact (ihrest (Or.inl h)).imp_left Or.inr
      · exact (ihbody (Or.inr ⟨other, h, hmem⟩)).imp_left Or.inl
      · exact (ihrest (Or.inr ⟨other, h, hmem⟩)).imp_left Or.inr

/-- No group of a kind that was replaced is left, and none of another kind is added. -/
theorem free_extract {kind' : GroupKind} {content : Content}
    (h : kind' = kind ∨ content.Free kind') (start : Nat) :
    (content.extract kind start).1.Free kind' ∧
      ∀ body ∈ (content.extract kind start).2, body.Free kind' := by
  induction content generalizing start with
  | nil => exact ⟨trivial, by simp [extract]⟩
  | bar rest ih => exact ih h start
  | char c rest ih => exact ih h start
  | ref symbol braced rest ih => exact ih h start
  | group other body rest ihbody ihrest =>
    obtain ⟨hinner, hbodies⟩ := ihbody (h.imp_right fun hfree => hfree.2.1) start
    have hrest : kind' = kind ∨ rest.Free kind' := h.imp_right fun hfree => hfree.2.2
    simp only [extract]
    split
    · obtain ⟨hafter, hmore⟩ :=
        ihrest hrest (start + (body.extract kind start).2.length + 1)
      refine ⟨hafter, ?_⟩
      intro b hb
      rcases List.mem_append.1 hb with hb | hb
      · exact hbodies b hb
      · rcases List.mem_cons.1 hb with rfl | hb
        · exact hinner
        · exact hmore b hb
    · rename_i hother
      obtain ⟨hafter, hmore⟩ :=
        ihrest hrest (start + (body.extract kind start).2.length)
      have hne : other ≠ kind' := by
        rcases h with rfl | hfree
        · exact hother
        · exact hfree.1
      refine ⟨⟨hne, hinner, hafter⟩, ?_⟩
      intro b hb
      rcases List.mem_append.1 hb with hb | hb
      · exact hbodies b hb
      · exact hmore b hb

end Content

end TextGrammar
