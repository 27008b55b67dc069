import TextGrammar.Proofs.Groups.Optional
import TextGrammar.Proofs.Groups.Renumbering

/-!
# A pair of parentheses more

Around nothing but a group, a pair of parentheses is a group whose production is a reference to the
first. It takes a number of its own, so the plain groups behind it have the next ones (`Shifted`).

* `Doubled` says so of the definitions of two sources, and `Doubled.language_iff` that both come out
  as the same texts.
* `doubled_desugarKind` is that the pass over the parentheses gives such definitions, for two
  sources that differ in such a pair. No plain group may be mentioned by its name.
-/

namespace TextGrammar

open Table

/-! ## One number more -/

/-- The plain groups from a number on have the next one; all other symbols stay. There are `total`
plain groups before, so the last of them takes that number. -/
def Shifted (number total : Nat) (symbol symbol' : Symbol) : Prop :=
  (∃ n, number ≤ n ∧ n < total ∧ symbol = GroupKind.plain.symbol n ∧
      symbol' = GroupKind.plain.symbol (n + 1)) ∨
    symbol' = symbol ∧ ∀ n, number ≤ n → n ≤ total → symbol ≠ GroupKind.plain.symbol n

namespace Shifted

variable {number total : Nat} {symbol symbol' other : Symbol}

theorem later {n : Nat} (h : number ≤ n) (hlt : n < total) :
    Shifted number total (GroupKind.plain.symbol n) (GroupKind.plain.symbol (n + 1)) :=
  Or.inl ⟨n, h, hlt, rfl, rfl⟩

theorem earlier {n : Nat} (h : n < number) :
    Shifted number total (GroupKind.plain.symbol n) (GroupKind.plain.symbol n) := by
  refine Or.inr ⟨rfl, fun m hm _ heq => ?_⟩
  have := GroupKind.symbol_inj heq
  omega

theorem apart (h : ∀ n ≤ total, symbol ≠ GroupKind.plain.symbol n) :
    Shifted number total symbol symbol :=
  Or.inr ⟨rfl, fun n _ => h n⟩

/-- What is not among some symbols does not rename any of them. -/
theorem self_of_not_mem {symbols : List Symbol} (number : Nat)
    (h : ∀ n ≤ total, GroupKind.plain.symbol n ∉ symbols) :
    ∀ symbol ∈ symbols, Shifted number total symbol symbol :=
  fun _ hsymbol => .apart fun n hn heq => h n hn (heq ▸ hsymbol)

theorem unique (h : Shifted number total symbol symbol')
    (hother : Shifted number total symbol other) : symbol' = other := by
  rcases h with ⟨n, hn, hlt, rfl, rfl⟩ | ⟨rfl, hnone⟩
  · rcases hother with ⟨m, hm, -, heq, rfl⟩ | ⟨rfl, hnone⟩
    · rw [GroupKind.symbol_inj heq]
    · exact absurd rfl (hnone n hn hlt.le)
  · rcases hother with ⟨m, hm, hlt, rfl, rfl⟩ | ⟨rfl, -⟩
    · exact absurd rfl (hnone m hm hlt.le)
    · rfl

theorem injective (h : Shifted number total symbol other)
    (h' : Shifted number total symbol' other) : symbol = symbol' := by
  rcases h with ⟨n, hn, hlt, rfl, rfl⟩ | ⟨rfl, hnone⟩
  · rcases h' with ⟨m, hm, -, rfl, heq⟩ | ⟨rfl, hnone⟩
    · rw [Nat.succ_injective (GroupKind.symbol_inj heq)]
    · exact absurd rfl (hnone (n + 1) (Nat.le_succ_of_le hn) hlt)
  · rcases h' with ⟨m, hm, hlt, rfl, rfl⟩ | ⟨rfl, -⟩
    · exact absurd rfl (hnone (m + 1) (Nat.le_succ_of_le hm) hlt)
    · rfl

/-- No symbol comes to have the number itself. -/
theorem ne_number (h : Shifted number total symbol symbol') (hlt : number < total) :
    symbol' ≠ GroupKind.plain.symbol number := by
  rintro rfl
  rcases h with ⟨n, hn, -, -, heq⟩ | ⟨rfl, hnone⟩
  · have := GroupKind.symbol_inj heq
    omega
  · exact hnone number (Nat.le_refl _) hlt.le rfl

end Shifted

/-! ## A group in a group -/

/-- The second definitions are the first with one plain group more: at its number stands the group
that did before, and the next one comes out as that group. -/
structure Doubled (number total : Nat) (single double : List Definition) : Prop where
  lt : number < total
  exists_own : ∃ content, Renamed (Shifted number total) content content ∧
    ⟨(GroupKind.plain.symbol number).name, content⟩ ∈ single ∧
    ⟨(GroupKind.plain.symbol number).name, content⟩ ∈ double
  exists_alias : ∃ content, ⟨(GroupKind.plain.symbol (number + 1)).name, content⟩ ∈ double ∧
    Production.parse content = ⟨[⟨[.ref (GroupKind.plain.symbol number)]⟩]⟩
  forward : ∀ definition ∈ single, definition.name ≠ (GroupKind.plain.symbol number).name →
    ∃ definition' ∈ double, RenamedDefinition (Shifted number total) definition definition'
  backward : ∀ definition' ∈ double, definition'.name ≠ (GroupKind.plain.symbol number).name →
    definition'.name ≠ (GroupKind.plain.symbol (number + 1)).name →
      ∃ definition ∈ single, RenamedDefinition (Shifted number total) definition definition'

theorem Table.valid_of_get? {source : Text} {table : Table} (h : Table.parse source = .ok table)
    {symbol : Symbol} {production : Production} (hget : table.get? symbol = some production) :
    symbol.Valid :=
  (asRead_of_parse h).valid symbol (List.mem_map_of_mem (mem_rows_of_get? hget))

namespace Doubled

variable {number total : Nat} {source source' : Text} {table table' : Table} {text : Text}

theorem language_own (h : Doubled number total (definitions source) (definitions source'))
    (hparse' : Table.parse source' = .ok table') (text : Text) :
    table'.Language (GroupKind.plain.symbol (number + 1)) text ↔
      table'.Language (GroupKind.plain.symbol number) text := by
  obtain ⟨content, hmem, hread⟩ := h.exists_alias
  rw [language_iff_of_parse hparse' hmem, hread]
  simp [SpelledBy, Segment.Spells]

/-- What a symbol comes out as, the symbol it is renamed to does. -/
theorem language_of_single (h : Doubled number total (definitions source) (definitions source'))
    (hparse : Table.parse source = .ok table) (hparse' : Table.parse source' = .ok table')
    {symbol symbol' : Symbol} (hshifted : Shifted number total symbol symbol')
    (hlanguage : table.Language symbol text) : table'.Language symbol' text := by
  let produces : Symbol → Text → Prop := fun symbol text =>
    ∀ symbol', Shifted number total symbol symbol' → table'.Language symbol' text
  have hproduces : ∀ symbol symbol', Shifted number total symbol symbol' → ∀ text,
      produces symbol text → table'.Language symbol' text :=
    fun _ symbol' hshifted _ hall => hall symbol' hshifted
  have hleast : produces symbol text := by
    refine Language.least ?_ hlanguage
    intro symbol production a text hget ha hspell symbol' hshifted
    by_cases hown : symbol = GroupKind.plain.symbol number
    · obtain ⟨content, hkept, hmem, hmem'⟩ := h.exists_own
      have hread := (get?_eq_some_iff_of_parse hparse).2 ⟨content, hmem, rfl⟩
      rw [hown, hread, Option.some.injEq] at hget
      rw [hown] at hshifted
      rw [← hget] at ha
      rw [hshifted.unique (.later (Nat.le_refl number) h.lt), h.language_own hparse',
        language_iff_of_parse hparse' hmem']
      exact hkept.exists_spelledBy hproduces ha hspell
    · obtain ⟨content, hmem, rfl⟩ := (get?_eq_some_iff_of_parse hparse).1 hget
      obtain ⟨⟨name', content'⟩, hmem', hrenamed⟩ :=
        h.forward _ hmem fun hname => hown (Symbol.name_injective hname)
      obtain ⟨other, -, hother, rfl⟩ :=
        Renamed.exists_of_name (valid_of_get? hparse hget) hrenamed.name
      rw [hshifted.unique hother, language_iff_of_parse hparse' hmem']
      exact hrenamed.content.exists_spelledBy hproduces ha hspell
  exact hleast symbol' hshifted

/-- What a symbol that another is renamed to comes out as, that one does. So does the group that
gained a number. -/
theorem language_of_double (h : Doubled number total (definitions source) (definitions source'))
    (hparse : Table.parse source = .ok table) (hparse' : Table.parse source' = .ok table')
    {symbol symbol' : Symbol} (hshifted : Shifted number total symbol symbol')
    (hlanguage : table'.Language symbol' text) : table.Language symbol text := by
  let produces : Symbol → Text → Prop := fun symbol' text =>
    (∀ symbol, Shifted number total symbol symbol' → table.Language symbol text) ∧
      (symbol' = GroupKind.plain.symbol number →
        table.Language (GroupKind.plain.symbol number) text)
  have hproduces : ∀ symbol' symbol, Shifted number total symbol symbol' → ∀ text,
      produces symbol' text → table.Language symbol text :=
    fun _ symbol hshifted _ hall => hall.1 symbol hshifted
  have hleast : produces symbol' text := by
    refine Language.least ?_ hlanguage
    intro symbol' production a text hget ha hspell
    by_cases hown : symbol' = GroupKind.plain.symbol number
    · refine ⟨fun symbol hshifted => absurd hown (hshifted.ne_number h.lt), fun _ => ?_⟩
      obtain ⟨content, hkept, hmem, hmem'⟩ := h.exists_own
      have hread := (get?_eq_some_iff_of_parse hparse').2 ⟨content, hmem', rfl⟩
      rw [hown, hread, Option.some.injEq] at hget
      rw [← hget] at ha
      rw [language_iff_of_parse hparse hmem]
      exact hkept.flip.exists_spelledBy hproduces ha hspell
    refine ⟨fun symbol hshifted => ?_, fun heq => absurd heq hown⟩
    by_cases halias : symbol' = GroupKind.plain.symbol (number + 1)
    · obtain ⟨content, hmem, hread⟩ := h.exists_alias
      have hfound := (get?_eq_some_iff_of_parse hparse').2 ⟨content, hmem, hread⟩
      rw [halias, hfound, Option.some.injEq] at hget
      rw [halias] at hshifted
      rw [← hget, List.mem_singleton] at ha
      rw [ha] at hspell
      rw [hshifted.injective (.later (Nat.le_refl number) h.lt)]
      obtain ⟨before, after, rfl, hbefore, rfl⟩ := hspell
      rw [List.append_nil]
      exact hbefore.2 rfl
    · obtain ⟨content', hmem', rfl⟩ := (get?_eq_some_iff_of_parse hparse').1 hget
      obtain ⟨⟨name, content⟩, hmem, hrenamed⟩ := h.backward _ hmem'
        (fun hname => hown (Symbol.name_injective hname))
        (fun hname => halias (Symbol.name_injective hname))
      obtain ⟨other, -, hother, rfl⟩ :=
        Renamed.exists_of_name (valid_of_get? hparse' hget) hrenamed.name.flip
      rw [hshifted.injective hother, language_iff_of_parse hparse hmem]
      exact hrenamed.content.flip.exists_spelledBy hproduces ha hspell
  exact hleast.1 symbol hshifted

/-- A symbol and the symbol it is renamed to come out as the same texts. -/
theorem language_iff (h : Doubled number total (definitions source) (definitions source'))
    (hparse : Table.parse source = .ok table) (hparse' : Table.parse source' = .ok table')
    {symbol symbol' : Symbol} (hshifted : Shifted number total symbol symbol') :
    table.Language symbol text ↔ table'.Language symbol' text :=
  ⟨h.language_of_single hparse hparse' hshifted, h.language_of_double hparse hparse' hshifted⟩

end Doubled

/-! ## The pass over the parentheses -/

namespace Group

/-- Around nothing but a group, a group has a reference for its body. -/
theorem replace_group_nil (kind : GroupKind) (start : Nat) (body : Forest) :
    (replace kind start (.group body .nil)).1 =
      reference (kind.symbol (start + body.bodies.length)) (replace kind start body).1 false := by
  simp only [replace, length_replace_snd, Forest.beginsGlued, List.append_nil]

theorem inners_group_nil (kind : GroupKind) (start : Nat) (body : Forest) :
    inners kind start (.group body .nil) =
      inners kind start body ++ [(replace kind start body).1] := by
  simp only [inners]

theorem replace_append_group_fst (kind : GroupKind) (start : Nat) (front body rest : Forest) :
    (replace kind start (front.append (.group body rest))).1 = (replace kind start front).1 ++
      (reference (kind.symbol (start + front.bodies.length + body.bodies.length))
          (replace kind (start + front.bodies.length) body).1 rest.beginsGlued ++
        (replace kind (start + front.bodies.length + body.bodies.length + 1) rest).1) := by
  rw [replace_append kind start front rfl]
  simp only [replace, length_replace_snd]

end Group

/-! ## Definitions of groups -/

theorem bodyDefinitions_append (start : Nat) (bodies others : List Text) :
    bodyDefinitions start (bodies ++ others) =
      bodyDefinitions start bodies ++ bodyDefinitions (start + bodies.length) others := by
  rw [bodyDefinitions, List.zipIdx_append, List.map_append]
  rfl

theorem bodyDefinitions_cons (start : Nat) (body : Text) (bodies : List Text) :
    bodyDefinitions start (body :: bodies) =
      ⟨(GroupKind.plain.symbol start).name, flatten ([' '] ++ body)⟩ ::
        bodyDefinitions (start + 1) bodies :=
  rfl

section Numbers

variable {renames : Symbol → Symbol → Prop}

theorem renamed_name {symbol symbol' : Symbol} (hvalid : symbol.Valid) (hvalid' : symbol'.Valid)
    (hrenames : renames symbol symbol') : Renamed renames symbol.name symbol'.name := by
  have hreference : Renamed renames (writeReference false symbol ++ [])
      (writeReference false symbol' ++ []) :=
    .reference hvalid hvalid' hrenames (fun _ => rfl) .nil
  rw [List.append_nil, List.append_nil] at hreference
  exact hreference

theorem renamed_content {body body' : Text} (h : Renamed renames body body') :
    Renamed renames (flatten ([' '] ++ body)) (flatten ([' '] ++ body')) :=
  (Renamed.char (fun hsigil => absurd hsigil (by decide)) h).flatten

/-- Bodies that are the same but for symbols, with other numbers. -/
theorem forall₂_bodyDefinitions {bodies bodies' : List Text}
    (h : List.Forall₂ (Renamed renames) bodies bodies') {start start' : Nat}
    (hnumbers : Renumbers renames .plain start start' bodies.length) :
    List.Forall₂ (RenamedDefinition renames) (bodyDefinitions start bodies)
      (bodyDefinitions start' bodies') := by
  induction h generalizing start start' with
  | nil => exact .nil
  | @cons body body' bodies bodies' hbody _ ih =>
    rw [List.length_cons, Nat.add_comm bodies.length 1] at hnumbers
    have hsymbol : renames (GroupKind.plain.symbol start) (GroupKind.plain.symbol start') :=
      hnumbers.left 0 Nat.one_pos
    rw [bodyDefinitions_cons, bodyDefinitions_cons]
    refine .cons ⟨?_, renamed_content hbody⟩ (ih hnumbers.right)
    exact renamed_name (GroupKind.plain.symbol_valid _) (GroupKind.plain.symbol_valid _) hsymbol

end Numbers

/-- Definitions that are the same but for symbols, around those of a group and of the reference to
it. -/
theorem Doubled.of_forall₂ {number total : Nat} {front front' back back' : List Definition}
    {content outer : Text} (hlt : number < total)
    (hkept : Renamed (Shifted number total) content content)
    (hread : Production.parse outer = ⟨[⟨[.ref (GroupKind.plain.symbol number)]⟩]⟩)
    (hfront : List.Forall₂ (RenamedDefinition (Shifted number total)) front front')
    (hback : List.Forall₂ (RenamedDefinition (Shifted number total)) back back') :
    Doubled number total (front ++ ⟨(GroupKind.plain.symbol number).name, content⟩ :: back)
      (front' ++ ⟨(GroupKind.plain.symbol number).name, content⟩ ::
        ⟨(GroupKind.plain.symbol (number + 1)).name, outer⟩ :: back') := by
  refine ⟨hlt, ?_, ?_, ?_, ?_⟩
  · exact ⟨content, hkept, by simp, by simp⟩
  · exact ⟨outer, by simp, hread⟩
  · intro definition hmem hname
    rcases List.mem_append.1 hmem with hmem | hmem
    · obtain ⟨definition', hmem', hrenamed⟩ := Content.exists_of_forall₂_left hfront hmem
      exact ⟨definition', List.mem_append_left _ hmem', hrenamed⟩
    rcases List.mem_cons.1 hmem with rfl | hmem
    · exact absurd rfl hname
    · obtain ⟨definition', hmem', hrenamed⟩ := Content.exists_of_forall₂_left hback hmem
      exact ⟨definition', by simp [hmem'], hrenamed⟩
  · intro definition' hmem' hname hnext
    rcases List.mem_append.1 hmem' with hmem' | hmem'
    · obtain ⟨definition, hmem, hrenamed⟩ := Content.exists_of_forall₂_right hfront hmem'
      exact ⟨definition, List.mem_append_left _ hmem, hrenamed⟩
    rcases List.mem_cons.1 hmem' with rfl | hmem'
    · exact absurd rfl hname
    rcases List.mem_cons.1 hmem' with rfl | hmem'
    · exact absurd rfl hnext
    · obtain ⟨definition, hmem, hrenamed⟩ := Content.exists_of_forall₂_right hback hmem'
      exact ⟨definition, by simp [hmem], hrenamed⟩

theorem renumbers_earlier {number total count : Nat} (first : Nat) (h : first + count ≤ number) :
    Renumbers (Shifted number total) .plain first first count := by
  intro i hi
  apply Shifted.earlier
  omega

theorem renumbers_later {number total count : Nat} (first : Nat) (h : number < first)
    (hle : first + count ≤ total) :
    Renumbers (Shifted number total) .plain first (first + 1) count := by
  intro i hi
  rw [Nat.add_right_comm]
  apply Shifted.later
  · omega
  · omega

/-- The same for statements and recorded bodies. The body in question is recorded at its number, and
behind it a reference to its group. -/
theorem Doubled.of_bodies {texts texts' earlier later later' : List Text} {body : Text}
    {number total : Nat} (hcount : earlier.length = number)
    (htotal : (earlier ++ body :: later).length = total)
    (htexts : List.Forall₂ (Group.ReadAlike (Shifted number total)) texts texts')
    (hearlier : List.Forall₂ (Renamed (Shifted number total)) earlier earlier)
    (hbody : Renamed (Shifted number total) body body)
    (hlater : List.Forall₂ (Renamed (Shifted number total)) later later') :
    Doubled number total
      (texts.filterMap definition? ++ bodyDefinitions 0 (earlier ++ body :: later))
      (texts'.filterMap definition? ++ bodyDefinitions 0 (earlier ++ body ::
        Group.reference (GroupKind.plain.symbol number) body false :: later')) := by
  have hvalid := GroupKind.plain.symbol_valid number
  rw [List.length_append, List.length_cons, hcount] at htotal
  simp only [bodyDefinitions_append, bodyDefinitions_cons, hcount, Nat.zero_add,
    ← List.append_assoc]
  refine .of_forall₂ (by omega) (renamed_content hbody) (parse_reference hvalid body) ?_ ?_
  · have hread := List.rel_filterMap (fun _ _ => id) htexts
    exact List.rel_append hread
      (forall₂_bodyDefinitions hearlier (renumbers_earlier 0 (by omega)))
  · exact forall₂_bodyDefinitions hlater (renumbers_later (number + 1) (by omega) (by omega))

/-- What a source defines behind the pass: what is left of its statements, and the groups. -/
theorem definitions_desugarKind_eq (source : Text) :
    definitions (Group.desugarKind .plain source) =
      (Group.replaceAll .plain 0 (source.splitOn ';')).1.filterMap definition? ++
        bodyDefinitions 0 (Group.innersAll .plain 0 (source.splitOn ';')) := by
  rw [definitions_eq_filterMap, Group.split_desugarKind_appended, Group.appended,
    List.filterMap_append, filterMap_definition?_mint]

namespace Group

section Around

variable {before after : List Text} {front body rest : Forest} {start number : Nat}

theorem length_bodies_around (hnumber : start + front.bodies.length + body.bodies.length = number) :
    start + (front.append (.group body rest)).bodies.length = number + 1 + rest.bodies.length := by
  simp only [Forest.bodies_append, Forest.bodies, List.length_append, List.length_cons]
  omega

/-- The statements that are left, around one with a group of a known number. -/
theorem replaceAll_around_group (hclean : (front.append (.group body rest)).Clean .plain)
    (hcomment : isComment ((front.append (.group body rest)).toText .plain) = false)
    (hstart : (innersAll .plain 0 before).length = start)
    (hnumber : start + front.bodies.length + body.bodies.length = number) :
    (replaceAll .plain 0 (before ++ (front.append (.group body rest)).toText .plain :: after)).1 =
      (replaceAll .plain 0 before).1 ++
        ((replace .plain start front).1 ++
          (reference (GroupKind.plain.symbol number)
              (replace .plain (start + front.bodies.length) body).1 rest.beginsGlued ++
            (replace .plain (number + 1) rest).1)) ::
          (replaceAll .plain (number + 1 + rest.bodies.length) after).1 := by
  rw [replaceAll_append_fst, Nat.zero_add, hstart, replaceAll_cons, hcomment,
    if_neg Bool.false_ne_true, Forest.ofText_toText hclean]
  simp only [length_replace_snd, length_bodies_around hnumber]
  rw [replace_append_group_fst, hnumber]

/-- The recorded bodies, around that of the group. -/
theorem innersAll_around_group (hclean : (front.append (.group body rest)).Clean .plain)
    (hcomment : isComment ((front.append (.group body rest)).toText .plain) = false)
    (hstart : (innersAll .plain 0 before).length = start)
    (hnumber : start + front.bodies.length + body.bodies.length = number) :
    innersAll .plain 0 (before ++ (front.append (.group body rest)).toText .plain :: after) =
      (innersAll .plain 0 before ++ inners .plain start front ++
          inners .plain (start + front.bodies.length) body) ++
        (replace .plain (start + front.bodies.length) body).1 ::
          (inners .plain (number + 1) rest ++
            innersAll .plain (number + 1 + rest.bodies.length) after) := by
  rw [innersAll_append, Nat.zero_add, hstart, innersAll, hcomment, if_neg Bool.false_ne_true,
    Forest.ofText_toText hclean]
  simp only [length_inners, length_bodies_around hnumber]
  rw [inners_append]
  simp only [inners, length_inners, hnumber, List.append_assoc, List.cons_append]

/-- How many bodies are recorded before that of the group. -/
theorem length_innersAll_before_group (hstart : (innersAll .plain 0 before).length = start)
    (hnumber : start + front.bodies.length + body.bodies.length = number) :
    (innersAll .plain 0 before ++ inners .plain start front ++
      inners .plain (start + front.bodies.length) body).length = number := by
  simp only [List.length_append, length_inners]
  omega

/-- How many groups there are in all. -/
theorem closed_around_group {source : Text}
    (hclean : (front.append (.group body rest)).Clean .plain)
    (hcomment : isComment ((front.append (.group body rest)).toText .plain) = false)
    (hstart : (innersAll .plain 0 before).length = start)
    (hnumber : start + front.bodies.length + body.bodies.length = number)
    (hsplit : source.splitOn ';' =
      before ++ (front.append (.group body rest)).toText .plain :: after) :
    closed .plain source = number + 1 + rest.bodies.length +
      (innersAll .plain (number + 1 + rest.bodies.length) after).length := by
  rw [← length_innersAll .plain 0, hsplit,
    innersAll_around_group hclean hcomment hstart hnumber, List.length_append,
    length_innersAll_before_group hstart hnumber, List.length_cons, List.length_append,
    length_inners]
  omega

end Around

end Group

/-- A group mentions what its body does, and so does a text around it. -/
theorem mentions_append_group (kind : GroupKind) (front body rest : Forest) :
    mentions ((front.append (.group body rest)).toText kind) =
      mentions (front.toText kind) ++
        (mentions (body.toText kind) ++ mentions (rest.toText kind)) := by
  have hgroup := Group.mentions_group kind body rest
  rw [Forest.toText] at hgroup
  rw [Forest.toText_append, Forest.toText,
    mentions_append_cons _ _ (Group.isReferenceChar_opening kind), hgroup]

/-- A pair of parentheses around nothing but a group gives one definition more. -/
theorem doubled_desugarKind {source source' : Text} {before after : List Text}
    {front body rest : Forest} (hfront : front.Clean .plain) (hbody : body.Clean .plain)
    (hrest : rest.Clean .plain)
    (hsplit : source.splitOn ';' =
      before ++ (front.append (.group body rest)).toText .plain :: after)
    (hsplit' : source'.splitOn ';' =
      before ++ (front.append (.group (.group body .nil) rest)).toText .plain :: after)
    (hcomment : isComment ((front.append (.group body rest)).toText .plain) = false)
    (hcomment' : isComment ((front.append (.group (.group body .nil) rest)).toText .plain) = false)
    (hapart : ∀ n ≤ Group.closed .plain source,
      GroupKind.plain.symbol n ∉ mentionsAll (source.splitOn ';')) :
    ∃ number, Doubled number (Group.closed .plain source)
      (definitions (Group.desugarKind .plain source))
      (definitions (Group.desugarKind .plain source')) := by
  obtain ⟨start, hstart⟩ : ∃ start, (Group.innersAll .plain 0 before).length = start := ⟨_, rfl⟩
  obtain ⟨number, hnumber⟩ : ∃ number,
    start + front.bodies.length + body.bodies.length = number := ⟨_, rfl⟩
  obtain ⟨total, htotal⟩ : ∃ total, Group.closed .plain source = total := ⟨_, rfl⟩
  rw [htotal] at hapart ⊢
  refine ⟨number, ?_⟩
  have hclean : (front.append (.group body rest)).Clean .plain := hfront.append ⟨hbody, hrest⟩
  have hclean' : (front.append (.group (.group body .nil) rest)).Clean .plain :=
    hfront.append ⟨⟨hbody, trivial⟩, hrest⟩
  have hnumber' : start + front.bodies.length + (Forest.group body .nil).bodies.length =
      number + 1 := by
    simp only [Forest.bodies, List.length_append, List.length_cons, List.length_nil]
    omega
  have hcount := Group.length_innersAll_before_group hstart hnumber
  have hend := Group.closed_around_group hclean hcomment hstart hnumber hsplit
  rw [htotal] at hend
  -- What is mentioned is not renamed, and neither are the groups in front of the one in question.
  rw [hsplit, mentionsAll_append, mentionsAll, mentionsAll, List.flatMap_cons, hcomment,
    if_neg Bool.false_ne_true, mentions_append_group] at hapart
  have hmention := Shifted.self_of_not_mem number hapart
  simp only [List.forall_mem_append] at hmention
  obtain ⟨hbefore, ⟨hu, hb, hv⟩, hafter⟩ := hmention
  obtain ⟨hstatements, hbodies⟩ :=
    Group.readAlike_replaceAll hbefore (renumbers_earlier 0 (by omega))
  obtain ⟨htext, hinners⟩ := Group.renamed_replace hu (renumbers_earlier start (by omega))
  obtain ⟨hinner, hnested⟩ :=
    Group.renamed_replace hb (renumbers_earlier (start + front.bodies.length) (by omega))
  obtain ⟨hback, hlast⟩ :=
    Group.renamed_replace hv (renumbers_later (number + 1) (by omega) (by omega))
  obtain ⟨hothers, hmore⟩ := Group.readAlike_replaceAll hafter
    (renumbers_later (number + 1 + rest.bodies.length) (by omega) hend.ge)
  rw [Nat.add_right_comm _ _ 1] at hothers hmore
  -- The outer group has a reference to the inner one for its body.
  rw [definitions_desugarKind_eq, definitions_desugarKind_eq, hsplit, hsplit',
    Group.replaceAll_around_group hclean hcomment hstart hnumber,
    Group.innersAll_around_group hclean hcomment hstart hnumber,
    Group.replaceAll_around_group hclean' hcomment' hstart hnumber',
    Group.innersAll_around_group hclean' hcomment' hstart hnumber', Group.inners_group_nil,
    Group.replace_group_nil, hnumber, ← List.append_assoc _ _ [_], List.append_assoc _ [_],
    List.singleton_append]
  have hglued : rest.beginsGlued = false →
      beginsIdentifier (Group.replace .plain (number + 1) rest).1 = false := by
    rw [Group.beginsIdentifier_replace]
    exact id
  have hvalid := GroupKind.plain.symbol_valid
  have hstatement := Group.readAlike_nested_reference (hvalid number) (hvalid (number + 1))
    (.later (Nat.le_refl number) (by omega))
    (Group.replace .plain (start + front.bodies.length) body).1 htext hglued hback
  refine Doubled.of_bodies hcount ?_ (List.rel_append hstatements (.cons hstatement hothers))
    (List.rel_append (List.rel_append hbodies hinners) hnested) hinner
    (List.rel_append hlast hmore)
  rw [List.length_append, hcount, List.length_cons, List.length_append, Group.length_inners]
  omega

end TextGrammar
