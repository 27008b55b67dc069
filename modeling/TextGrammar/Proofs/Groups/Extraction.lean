import Mathlib.Data.List.Forall2
import TextGrammar.Proofs.Groups.Content

/-!
# Groups moved into rules of their own

Replacing each group of one kind by a reference to a rule that holds its body does not change what
a content may come out as.

* `Extracted` says that one content is another with its groups replaced, for rules that hold the
  bodies. It does not care how the groups are numbered.
* `Replaces` says so of whole lists of rules, and `Replaces.offers_iff` is the result.
-/

namespace TextGrammar

/-- The content of the rule for a group with a given body. -/
def GroupKind.wrap (kind : GroupKind) (body : Content) : Content :=
  match kind with
  | .optional => .bar (.group .plain body .nil)
  | .plain => body

namespace Content

/-- The second content is the first with every group of a kind replaced by a reference to one of
the given rules. References to other symbols are as before. -/
inductive Extracted (kind : GroupKind) (rules : List Rule) : Content → Content → Prop where
  | nil : Extracted kind rules nil nil
  | bar {rest rest'} (hrest : Extracted kind rules rest rest') :
      Extracted kind rules (bar rest) (bar rest')
  | char {c rest rest'} (hrest : Extracted kind rules rest rest') :
      Extracted kind rules (char c rest) (char c rest')
  | ref {symbol braced rest rest'} (hclear : ∀ n, symbol ≠ kind.symbol n)
      (hrest : Extracted kind rules rest rest') :
      Extracted kind rules (ref symbol braced rest) (ref symbol braced rest')
  | other {kind' body body' rest rest'} (hkind : kind' ≠ kind)
      (hbody : Extracted kind rules body body') (hrest : Extracted kind rules rest rest') :
      Extracted kind rules (group kind' body rest) (group kind' body' rest')
  | group {n braced body body' rest rest'} (hbody : Extracted kind rules body body')
      (hrule : ⟨kind.symbol n, kind.wrap body'⟩ ∈ rules)
      (hrest : Extracted kind rules rest rest') :
      Extracted kind rules (group kind body rest) (ref (kind.symbol n) braced rest')

/-! ## Alternatives -/

theorem alternatives_ne_nil (content : Content) : content.alternatives ≠ [] := by
  have hcons : ∀ (item : Content → Content) (others : List Content),
      consFirst item others ≠ [] := by
    intro item others
    cases others <;> simp [consFirst]
  cases content with
  | nil => simp [alternatives]
  | bar rest => simp [alternatives]
  | char c rest => exact hcons _ _
  | ref symbol braced rest => exact hcons _ _
  | group kind body rest => exact hcons _ _

theorem forall₂_consFirst {R : Content → Content → Prop} {item item' : Content → Content}
    {as as' : List Content} (hitem : ∀ {a a'}, R a a' → R (item a) (item' a'))
    (hnil : R nil nil) (h : List.Forall₂ R as as') :
    List.Forall₂ R (consFirst item as) (consFirst item' as') := by
  cases h with
  | nil => exact List.Forall₂.cons (hitem hnil) List.Forall₂.nil
  | cons hfirst hothers => exact List.Forall₂.cons (hitem hfirst) hothers

variable {kind : GroupKind} {rules before after : List Rule}

/-- Replacing groups goes alternative by alternative. -/
theorem Extracted.alternatives {content content' : Content}
    (h : Extracted kind rules content content') :
    List.Forall₂ (Extracted kind rules) content.alternatives content'.alternatives := by
  induction h with
  | nil => exact List.Forall₂.cons .nil List.Forall₂.nil
  | bar _ ih => exact List.Forall₂.cons .nil ih
  | char _ ih => exact forall₂_consFirst .char .nil ih
  | ref hclear _ ih => exact forall₂_consFirst (.ref hclear) .nil ih
  | other hkind hbody _ _ ih => exact forall₂_consFirst (.other hkind hbody) .nil ih
  | group hbody hrule _ _ ih => exact forall₂_consFirst (.group hbody hrule) .nil ih

theorem exists_of_forall₂_left {α β : Type} {R : α → β → Prop} {as : List α} {bs : List β}
    (h : List.Forall₂ R as bs) {a : α} (ha : a ∈ as) : ∃ b ∈ bs, R a b := by
  induction h with
  | nil => simp at ha
  | cons hfirst _ ih =>
    rcases List.mem_cons.1 ha with rfl | hrest
    · exact ⟨_, List.mem_cons_self, hfirst⟩
    · obtain ⟨b, hb, hab⟩ := ih hrest
      exact ⟨b, List.mem_cons_of_mem _ hb, hab⟩

theorem exists_of_forall₂_right {α β : Type} {R : α → β → Prop} {as : List α} {bs : List β}
    (h : List.Forall₂ R as bs) {b : β} (hb : b ∈ bs) : ∃ a ∈ as, R a b :=
  exists_of_forall₂_left h.flip hb

theorem alternatives_group_nil (kind : GroupKind) (body : Content) :
    (group kind body nil).alternatives = [group kind body nil] := by
  rfl

/-! ## The meaning stays -/

/-- One list of rules is another with the groups of a kind moved into rules of their own. -/
structure Replaces (kind : GroupKind) (before after : List Rule) : Prop where
  /-- Every symbol has one rule. -/
  unique : ∀ rule ∈ after, ∀ rule' ∈ after, rule.symbol = rule'.symbol → rule = rule'
  /-- Every rule is still there, with its groups replaced. -/
  forward : ∀ rule ∈ before, ∃ rule' ∈ after, rule'.symbol = rule.symbol ∧
    Extracted kind after rule.content rule'.content
  /-- Every rule that is not that of a group was there before. -/
  backward : ∀ rule' ∈ after, (∀ n, rule'.symbol ≠ kind.symbol n) →
    ∃ rule ∈ before, rule.symbol = rule'.symbol ∧ Extracted kind after rule.content rule'.content

/-- Whatever an alternative may come out as, it still may after its groups were replaced. -/
theorem Yields.extract (hreplaces : Replaces kind before after) {a a' : Content} {text : Text}
    (h : Yields before a text) (ha : Extracted kind after a a') : Yields after a' text := by
  induction h generalizing a' with
  | nil =>
    cases ha
    exact .nil
  | char _ ih =>
    cases ha with
    | char hrest => exact .char (ih hrest)
  | @ref rule _ _ _ _ _ hrule hmem _ _ ihinner ihrest =>
    cases ha with
    | ref hclear hrest =>
      obtain ⟨rule', hrule', hsymbol, hcontent⟩ := hreplaces.forward rule hrule
      obtain ⟨b, hb, hextracted⟩ := exists_of_forall₂_left hcontent.alternatives hmem
      rw [← hsymbol]
      exact .ref hrule' hb (ihinner hextracted) (ihrest hrest)
  | plain hmem _ _ ihinner ihrest =>
    cases ha with
    | other hkind hbody hrest =>
      obtain ⟨b, hb, hextracted⟩ := exists_of_forall₂_left hbody.alternatives hmem
      exact .plain hb (ihinner hextracted) (ihrest hrest)
    | group hbody hrule hrest =>
      obtain ⟨b, hb, hextracted⟩ := exists_of_forall₂_left hbody.alternatives hmem
      exact .ref hrule hb (ihinner hextracted) (ihrest hrest)
  | omitted _ ihrest =>
    cases ha with
    | other hkind hbody hrest => exact .omitted (ihrest hrest)
    | group hbody hrule hrest => exact .ref hrule List.mem_cons_self .nil (ihrest hrest)
  | @kept _ _ _ inner _ hmem _ _ ihinner ihrest =>
    cases ha with
    | other hkind hbody hrest =>
      obtain ⟨b, hb, hextracted⟩ := exists_of_forall₂_left hbody.alternatives hmem
      exact .kept hb (ihinner hextracted) (ihrest hrest)
    | @group _ _ _ body' _ _ hbody hrule hrest =>
      obtain ⟨b, hb, hextracted⟩ := exists_of_forall₂_left hbody.alternatives hmem
      have hgroup : Yields after (Content.group .plain body' .nil) (inner ++ []) :=
        .plain hb (ihinner hextracted) .nil
      rw [List.append_nil] at hgroup
      exact .ref hrule (List.mem_cons_of_mem _ List.mem_cons_self) hgroup (ihrest hrest)

theorem Yields.eq_nil {text : Text} (h : Yields rules Content.nil text) : text = [] := by
  cases h
  rfl

/-- Whatever an alternative may come out as after its groups were replaced, it could before. -/
theorem Yields.restore (hreplaces : Replaces kind before after) {a a' : Content} {text : Text}
    (h : Yields after a' text) (ha : Extracted kind after a a') : Yields before a text := by
  induction h generalizing a with
  | nil =>
    cases ha
    exact .nil
  | char _ ih =>
    cases ha with
    | char hrest => exact .char (ih hrest)
  | @ref rule' b _ _ inner _ hrule hmem hinner _ ihinner ihrest =>
    generalize hname : rule'.symbol = name at ha
    cases ha with
    | ref hclear hrest =>
      subst hname
      obtain ⟨rule, hrule₀, hsymbol, hcontent⟩ := hreplaces.backward rule' hrule hclear
      obtain ⟨b₀, hb₀, hextracted⟩ := exists_of_forall₂_right hcontent.alternatives hmem
      rw [← hsymbol]
      exact .ref hrule₀ hb₀ (ihinner hextracted) (ihrest hrest)
    | @group n _ body body' _ _ hbody hminted hrest =>
      -- A symbol has one rule, so this one holds the body that was moved.
      have hsame : rule' = ⟨kind.symbol n, kind.wrap body'⟩ :=
        hreplaces.unique rule' hrule _ hminted hname
      subst hsame
      cases kind with
      | plain =>
        obtain ⟨b₀, hb₀, hextracted⟩ := exists_of_forall₂_right hbody.alternatives hmem
        exact .plain hb₀ (ihinner hextracted) (ihrest hrest)
      | optional =>
        rcases List.mem_cons.1 hmem with rfl | hmem
        · rw [hinner.eq_nil]
          exact .omitted (ihrest hrest)
        · have hb : b = Content.group .plain body' .nil := by
            simpa [alternatives_group_nil] using hmem
          subst hb
          have hgroup : Yields before (Content.group .plain body .nil) inner :=
            ihinner (.other GroupKind.noConfusion hbody .nil)
          cases hgroup with
          | plain hb₀ hinner₀ hnil =>
            rw [hnil.eq_nil, List.append_nil]
            exact .kept hb₀ hinner₀ (ihrest hrest)
  | plain hmem _ _ ihinner ihrest =>
    cases ha with
    | other hkind hbody hrest =>
      obtain ⟨b, hb, hextracted⟩ := exists_of_forall₂_right hbody.alternatives hmem
      exact .plain hb (ihinner hextracted) (ihrest hrest)
  | omitted _ ihrest =>
    cases ha with
    | other hkind hbody hrest => exact .omitted (ihrest hrest)
  | kept hmem _ _ ihinner ihrest =>
    cases ha with
    | other hkind hbody hrest =>
      obtain ⟨b, hb, hextracted⟩ := exists_of_forall₂_right hbody.alternatives hmem
      exact .kept hb (ihinner hextracted) (ihrest hrest)

/-- Moving the groups of a kind into rules of their own does not change what a content may come
out as. -/
theorem Replaces.offers_iff (hreplaces : Replaces kind before after) {content content' : Content}
    (h : Extracted kind after content content') {text : Text} :
    Offers after content' text ↔ Offers before content text := by
  constructor
  · rintro ⟨a', ha', hyields⟩
    obtain ⟨a, ha, hextracted⟩ := exists_of_forall₂_right h.alternatives ha'
    exact ⟨a, ha, hyields.restore hreplaces hextracted⟩
  · rintro ⟨a, ha, hyields⟩
    obtain ⟨a', ha', hextracted⟩ := exists_of_forall₂_left h.alternatives ha
    exact ⟨a', ha', hyields.extract hreplaces hextracted⟩

end Content

end TextGrammar
