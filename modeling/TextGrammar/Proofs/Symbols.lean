import TextGrammar.Group.Forest
import TextGrammar.Proofs.Characters

/-!
# Names of groups

The symbols of the groups are well formed and synthetic, and no two of them are the same
(`GroupKind.symbol_inj`, `GroupKind.optional_symbol_ne_plain_symbol`). A symbol whose name does not
hold the stem of a group is none of them (`Symbol.ne_of_not_mentionsGroup`).
-/

namespace TextGrammar

namespace Symbol

theorem name_injective : Function.Injective name := by
  rintro ⟨_⟩ ⟨_⟩ heq
  exact congrArg mk heq

/-! ## Well-formed names -/

/-- A well-formed name is `$` and an identifier. -/
theorem Valid.exists_identifier {symbol : Symbol} (h : symbol.Valid) :
    ∃ c identifier, symbol = ofIdentifier (c :: identifier) ∧
      ∀ d ∈ c :: identifier, isIdentifierChar d = true := by
  obtain ⟨name⟩ := symbol
  simp only [Valid] at h
  unfold isName at h
  split at h
  · rename_i identifier
    simp only [Bool.and_eq_true, List.all_eq_true] at h
    cases identifier with
    | nil => simp at h
    | cons c identifier => exact ⟨c, identifier, rfl, h.2⟩
  · exact Bool.noConfusion h

theorem valid_ofIdentifier {c : Char} {identifier : Text}
    (h : ∀ d ∈ c :: identifier, isIdentifierChar d = true) :
    (ofIdentifier (c :: identifier)).Valid := by
  have hall : (c :: identifier).all isIdentifierChar = true := List.all_eq_true.2 h
  simpa [Valid, isName, ofIdentifier] using hall

/-- A character that is neither `$` nor an identifier character does not occur in a name. -/
theorem Valid.not_mem_name {symbol : Symbol} (h : symbol.Valid) {c : Char} (hsigil : c ≠ '$')
    (hc : isIdentifierChar c = false) : c ∉ symbol.name := by
  obtain ⟨d, identifier, rfl, hall⟩ := h.exists_identifier
  intro hmem
  rcases List.mem_cons.1 hmem with hfirst | hrest
  · exact hsigil hfirst
  · exact ne_of_isIdentifierChar (hall c hrest) hc rfl

theorem Valid.parse? {symbol : Symbol} (h : symbol.Valid) : parse? symbol.name = some symbol := by
  have hname : isName symbol.name = true := h
  simp [Symbol.parse?, hname]

theorem valid_of_parse? {text : Text} {symbol : Symbol} (h : parse? text = some symbol) :
    symbol.Valid := by
  unfold Symbol.parse? at h
  split at h
  · rename_i hname
    cases h
    exact hname
  · cases h

/-! ## Numbered names -/

theorem isDigit_of_mem_decimal {n : Nat} {c : Char} (h : c ∈ decimal n) : c.isDigit = true :=
  Nat.isDigit_of_mem_toDigits (by omega) (by omega) h

theorem decimal_inj {m n : Nat} (h : decimal m = decimal n) : m = n := by
  rw [← Nat.ofDigitChars_ten_toDigits (n := m), ← Nat.ofDigitChars_ten_toDigits (n := n)]
  exact congrArg (Nat.ofDigitChars 10 · 0) h

theorem numbered_inj {stem : Text} {m n : Nat} (h : numbered stem m = numbered stem n) :
    m = n := by
  simp only [numbered, ofIdentifier, Symbol.mk.injEq, List.cons.injEq, true_and,
    List.append_cancel_left_eq] at h
  exact decimal_inj h

theorem isPrefixOf?_append (front rest : Text) : front.isPrefixOf? (front ++ rest) = some rest := by
  induction front with
  | nil => rfl
  | cons c front ih =>
    show (if c == c then front.isPrefixOf? (front ++ rest) else none) = some rest
    rw [if_pos (beq_self_eq_true c)]
    exact ih

theorem isNumbered_name {stem : Text} (n : Nat) :
    isNumbered ('$' :: stem) (numbered stem n).name = true := by
  have hprefix : ('$' :: stem).isPrefixOf? (numbered stem n).name = some (decimal n) :=
    isPrefixOf?_append ('$' :: stem) (decimal n)
  simp only [isNumbered, hprefix]
  have hne : decimal n ≠ [] := Nat.toDigits_ne_nil
  have hall : (decimal n).all Char.isDigit = true :=
    List.all_eq_true.2 fun c hc => isDigit_of_mem_decimal hc
  simp [hne, hall]

/-- Whether the name of a symbol holds the stem of a kind of groups. -/
def MentionsGroup (symbol : Symbol) : Prop :=
  plainStem <:+: symbol.name ∨ optionalStem <:+: symbol.name

instance (symbol : Symbol) : Decidable symbol.MentionsGroup :=
  inferInstanceAs (Decidable (_ ∨ _))

end Symbol

namespace GroupKind

open TextGrammar.Symbol

/-- What the identifiers of the groups of a kind begin with. -/
def stem : GroupKind → Text
  | optional => optionalStem
  | plain => plainStem

theorem symbol_eq_numbered (kind : GroupKind) (n : Nat) :
    kind.symbol n = numbered kind.stem n := by
  cases kind <;> rfl

/-- Two groups of a kind with one symbol have one number. -/
theorem symbol_inj {kind : GroupKind} {m n : Nat} (h : kind.symbol m = kind.symbol n) :
    m = n := by
  rw [symbol_eq_numbered, symbol_eq_numbered] at h
  exact numbered_inj h

/-- Groups of different kinds have different symbols. -/
theorem optional_symbol_ne_plain_symbol (m n : Nat) : optional.symbol m ≠ plain.symbol n := by
  simp [symbol, numbered, ofIdentifier, optionalStem, plainStem]

theorem symbol_ne_symbol {kind kind' : GroupKind} (h : kind ≠ kind') (m n : Nat) :
    kind.symbol m ≠ kind'.symbol n := by
  cases kind <;> cases kind'
  · exact absurd rfl h
  · exact optional_symbol_ne_plain_symbol m n
  · exact (optional_symbol_ne_plain_symbol n m).symm
  · exact absurd rfl h

theorem symbol_valid (kind : GroupKind) (n : Nat) : (kind.symbol n).Valid := by
  have hall : kind.stem.all isIdentifierChar = true := by
    cases kind <;> decide +kernel
  have hstem := List.all_eq_true.1 hall
  have hdigits : ∀ c ∈ decimal n, isIdentifierChar c = true := by
    intro c hc
    simp [isIdentifierChar, isDigit_of_mem_decimal hc]
  have hall : ∀ c ∈ kind.stem ++ decimal n, isIdentifierChar c = true := by
    intro c hc
    rcases List.mem_append.1 hc with h | h
    · exact hstem c h
    · exact hdigits c h
  rw [symbol_eq_numbered, numbered]
  cases kind <;> exact valid_ofIdentifier hall

theorem symbol_isSynthetic (kind : GroupKind) (n : Nat) : (kind.symbol n).isSynthetic = true := by
  rw [isSynthetic, Bool.or_eq_true]
  cases kind
  · exact Or.inl (isNumbered_name n)
  · exact Or.inr (isNumbered_name n)

end GroupKind

/-- A name without the stem of a group is not the name of a group. -/
theorem Symbol.ne_of_not_mentionsGroup {symbol : Symbol} (h : ¬symbol.MentionsGroup)
    (kind : GroupKind) (n : Nat) : symbol ≠ kind.symbol n := by
  intro heq
  subst heq
  have hinfix : kind.stem <:+: (kind.symbol n).name := by
    rw [GroupKind.symbol_eq_numbered]
    exact ⟨['$'], decimal n, by simp [numbered, ofIdentifier]⟩
  cases kind
  · exact h (Or.inr hinfix)
  · exact h (Or.inl hinfix)

end TextGrammar
