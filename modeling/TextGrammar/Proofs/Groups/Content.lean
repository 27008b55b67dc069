import TextGrammar.Group.Desugar
import TextGrammar.Proofs.References

/-!
# Syntax trees with groups

A content with groups, as an author thinks of it, and what it means without any detour over
productions for the groups.

* `Content` is the syntax tree, `Content.print` its written form.
* `Content.alternatives` cuts it at the `|` of its own level.
* `Yields` is the direct meaning of one alternative, and `Offers` that of a whole content.
* `Content.WellFormed` and `Content.Flush` say which trees are written in a way that leaves no
  doubt about them.
-/

namespace TextGrammar

/-- A content: alternatives, separated by `|`, of characters, references and groups. -/
inductive Content where
  /-- The end of the last alternative. -/
  | nil
  /-- The end of an alternative, with the next one behind it. -/
  | bar (rest : Content)
  /-- A literal character. -/
  | char (c : Char) (rest : Content)
  /-- A reference, `${name}` if it is braced and `$name` otherwise. -/
  | ref (symbol : Symbol) (braced : Bool) (rest : Content)
  /-- A group with a content of its own. -/
  | group (kind : GroupKind) (body rest : Content)
deriving DecidableEq, Repr

/-- The definition of a symbol by a content. -/
structure Rule where
  symbol : Symbol
  content : Content
deriving DecidableEq, Repr

namespace Content

/-- The written form of a content. -/
def print : Content → Text
  | nil => []
  | bar rest => '|' :: print rest
  | char c rest => c :: print rest
  | ref symbol braced rest => writeReference braced symbol ++ print rest
  | group kind body rest => kind.opening :: (print body ++ kind.closing :: print rest)

/-- Puts something in front of the first of some alternatives. -/
def consFirst (item : Content → Content) : List Content → List Content
  | [] => [item nil]
  | first :: others => item first :: others

/-- The alternatives of a content, in order. None of them holds a `|` of its own level. -/
def alternatives : Content → List Content
  | nil => [nil]
  | bar rest => nil :: alternatives rest
  | char c rest => consFirst (char c) (alternatives rest)
  | ref symbol braced rest => consFirst (ref symbol braced) (alternatives rest)
  | group kind body rest => consFirst (group kind body) (alternatives rest)

/-- The symbols a content refers to, at any level. -/
def references : Content → List Symbol
  | nil => []
  | bar rest => references rest
  | char _ rest => references rest
  | ref symbol _ rest => symbol :: references rest
  | group _ body rest => references body ++ references rest

/-! ## Meaning -/

/-- What an alternative may come out as: the texts of its items in a row. A reference comes out as
an alternative of its definition, a plain group as one of its alternatives, and an optional group
as one of its alternatives or as nothing. -/
inductive Yields (rules : List Rule) : Content → Text → Prop where
  | nil : Yields rules nil []
  | char {c rest text} : Yields rules rest text → Yields rules (char c rest) (c :: text)
  | ref {rule a braced rest before after} (hrule : rule ∈ rules)
      (ha : a ∈ rule.content.alternatives) (hinner : Yields rules a before)
      (hrest : Yields rules rest after) :
      Yields rules (ref rule.symbol braced rest) (before ++ after)
  | plain {a body rest before after} (ha : a ∈ body.alternatives)
      (hinner : Yields rules a before) (hrest : Yields rules rest after) :
      Yields rules (group .plain body rest) (before ++ after)
  | omitted {body rest after} (hrest : Yields rules rest after) :
      Yields rules (group .optional body rest) after
  | kept {a body rest before after} (ha : a ∈ body.alternatives)
      (hinner : Yields rules a before) (hrest : Yields rules rest after) :
      Yields rules (group .optional body rest) (before ++ after)

/-- What a content may come out as: what one of its alternatives does. -/
def Offers (rules : List Rule) (content : Content) (text : Text) : Prop :=
  ∃ a ∈ content.alternatives, Yields rules a text

/-! ## Written without doubt -/

/-- Whether a character stands for itself wherever it is written in a content. -/
def isOrdinary (c : Char) : Bool :=
  c ∉ ['$', '>', ';', '|', '(', ')', '[', ']', '\r', '\n']

/-- Whether a literal identifier character comes first. -/
def beginsGlued : Content → Bool
  | char c _ => isIdentifierChar c
  | _ => false

/-- Whether whitespace comes first. -/
def beginsBlank : Content → Bool
  | char c _ => Unicode.isWhitespace c
  | _ => false

/-- Whether whitespace comes last. -/
def endsBlank : Content → Bool
  | nil => false
  | bar rest => endsBlank rest
  | char c nil => Unicode.isWhitespace c
  | char _ rest => endsBlank rest
  | ref _ _ rest => endsBlank rest
  | group _ _ rest => endsBlank rest

/-- No alternative begins or ends with whitespace. -/
def Flush (content : Content) : Prop :=
  ∀ a ∈ content.alternatives, a.beginsBlank = false ∧ a.endsBlank = false

instance (content : Content) : Decidable content.Flush :=
  inferInstanceAs (Decidable (∀ _ ∈ _, _))

/-- Every literal character stands for itself, every name is well formed and is not followed by a
character it would take in, and no alternative of a group begins or ends with whitespace. -/
def WellFormed : Content → Prop
  | nil => True
  | bar rest => WellFormed rest
  | char c rest => isOrdinary c = true ∧ WellFormed rest
  | ref symbol braced rest =>
    symbol.Valid ∧ (braced = false → rest.beginsGlued = false) ∧ WellFormed rest
  | group _ body rest => body.Flush ∧ WellFormed body ∧ WellFormed rest

instance decidableWellFormed : (content : Content) → Decidable content.WellFormed
  | nil => isTrue trivial
  | bar rest => decidableWellFormed rest
  | char _ rest => @instDecidableAnd _ _ _ (decidableWellFormed rest)
  | ref _ _ rest => @instDecidableAnd _ _ _ (@instDecidableAnd _ _ _ (decidableWellFormed rest))
  | group _ body rest =>
    @instDecidableAnd _ _ _
      (@instDecidableAnd _ _ (decidableWellFormed body) (decidableWellFormed rest))

end Content

namespace Rule

/-- The written form of a rule. -/
def print (rule : Rule) : Text :=
  rule.symbol.name ++ [' ', '=', ' '] ++ rule.content.print

/-- A rule that an author may write: its names are well formed and keep clear of the names of
groups, and its content is not empty and has no whitespace at the ends of its alternatives. -/
structure Sound (rule : Rule) : Prop where
  valid : rule.symbol.Valid
  clear : ¬rule.symbol.MentionsGroup
  references_clear : ∀ symbol ∈ rule.content.references, ¬symbol.MentionsGroup
  wellFormed : rule.content.WellFormed
  flush : rule.content.Flush
  nonempty : rule.content.print ≠ []

instance (rule : Rule) : Decidable rule.Sound :=
  decidable_of_iff
    (rule.symbol.Valid ∧ ¬rule.symbol.MentionsGroup ∧
      (∀ symbol ∈ rule.content.references, ¬symbol.MentionsGroup) ∧
      rule.content.WellFormed ∧ rule.content.Flush ∧ rule.content.print ≠ [])
    ⟨fun ⟨h₁, h₂, h₃, h₄, h₅, h₆⟩ => ⟨h₁, h₂, h₃, h₄, h₅, h₆⟩,
      fun ⟨h₁, h₂, h₃, h₄, h₅, h₆⟩ => ⟨h₁, h₂, h₃, h₄, h₅, h₆⟩⟩

end Rule

/-- The source that consists of some rules, each with its `;`. -/
def printRules (rules : List Rule) : Text :=
  rules.flatMap fun rule => rule.print ++ [';']

/-- Rules that an author may write together: one for each symbol, and one for `$s`. -/
structure SoundRules (rules : List Rule) : Prop where
  sound : ∀ rule ∈ rules, rule.Sound
  distinct : (rules.map Rule.symbol).Nodup
  start : Symbol.start ∈ rules.map Rule.symbol

instance (rules : List Rule) : Decidable (SoundRules rules) :=
  decidable_of_iff
    ((∀ rule ∈ rules, rule.Sound) ∧ (rules.map Rule.symbol).Nodup ∧
      Symbol.start ∈ rules.map Rule.symbol)
    ⟨fun ⟨h₁, h₂, h₃⟩ => ⟨h₁, h₂, h₃⟩, fun ⟨h₁, h₂, h₃⟩ => ⟨h₁, h₂, h₃⟩⟩

end TextGrammar
