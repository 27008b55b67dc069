import TextGrammar.Proofs.Groups.Pairs

/-!
# Desugaring leaves nothing to desugar

A source is flat if none of its statements has a pair of delimiters, comments apart. Desugaring
gives a flat source, whatever mixture of nested, crossing and stray delimiters there was, and it
leaves flat sources alone. So it is a projection.

* `Group.flat_desugarKind` and `Group.Flat.desugarKind_eq` are that for one kind of groups, and
  `Group.Flat.desugarKind_plain` says that the second pass does not undo the first.
* `Group.KeepsComments`: comments stay in their places, and there are no new ones.
* `desugar_projection` is the result.
-/

namespace TextGrammar

namespace Group

/-! ## Comments -/

theorem isComment_cons (c : Char) (rest : Text) :
    isComment (c :: rest) = if Unicode.isWhitespace c then isComment rest else c = '#' := by
  simp only [isComment, Text.trimStart, List.dropWhile_cons]
  split_ifs with hblank
  · rfl
  · simp

theorem reference_eq_cons (symbol : Symbol) (hvalid : symbol.Valid) (body : Text) (glued : Bool) :
    ∃ tail, reference symbol body glued =
      (if leadsBlank body then [' '] else []) ++ '$' :: tail := by
  obtain ⟨tail, htail⟩ := writeReference_eq_cons (glued && !trailsBlank body) hvalid
  refine ⟨tail ++ if trailsBlank body then [' '] else [], ?_⟩
  rw [← List.cons_append, ← List.append_assoc, ← htail]
  rfl

theorem isComment_append_sigil {front : Text} (h : ∀ c ∈ front, Unicode.isWhitespace c = true)
    (rest : Text) : isComment (front ++ '$' :: rest) = false := by
  have hsigil : Unicode.isWhitespace '$' = false := by decide
  induction front with
  | nil =>
    rw [List.nil_append, isComment_cons, hsigil]
    rfl
  | cons c front ih =>
    rw [List.cons_append, isComment_cons, h c List.mem_cons_self, if_pos rfl]
    exact ih fun d hd => h d (List.mem_cons_of_mem _ hd)

/-- What is left of a statement is a comment only if the statement was one: a reference cannot make
it one. -/
theorem isComment_replace (kind : GroupKind) (start : Nat) (forest : Forest) :
    isComment (replace kind start forest).1 = isComment (forest.toText kind) := by
  induction forest generalizing start with
  | nil => rfl
  | char c rest ih =>
    show isComment (c :: (replace kind start rest).1) = isComment (c :: rest.toText kind)
    rw [isComment_cons, isComment_cons, ih]
  | group body rest _ _ =>
    have hopening : isComment (kind.opening :: (body.toText kind ++ kind.closing ::
        rest.toText kind)) = false := by
      rw [isComment_cons, (Content.isWhitespace_delimiter kind).1]
      cases kind <;> rfl
    rw [Forest.toText, hopening, replace]
    obtain ⟨tail, htail⟩ := reference_eq_cons
      (kind.symbol (start + (replace kind start body).2.length))
      (kind.symbol_valid _) (replace kind start body).1 rest.beginsGlued
    show isComment (reference _ _ _ ++ _) = false
    rw [htail, List.append_assoc]
    refine isComment_append_sigil ?_ _
    intro c hc
    split at hc
    · rw [List.mem_singleton.1 hc]
      decide
    · simp at hc

/-! ## One statement -/

variable {kind : GroupKind} {start : Nat} {forest : Forest} {text : Text}

theorem marks_production (kind : GroupKind) (n : Nat) (body : Text) :
    (production kind (kind.symbol n) body).marks =
      (if kind = .optional then ['|', '('] else []) ++ body.marks ++
        (if kind = .optional then [')'] else []) := by
  have hname : (kind.symbol n).name.marks = [] :=
    Text.marks_eq_nil fun _ => isInert_of_mem_name (kind.symbol_valid n)
  cases kind with
  | optional =>
    have hbetween : Text.marks [' ', '=', ' ', '|', ' ', '('] = ['|', '('] := by decide
    have hclosing : Text.marks [')'] = [')'] := by decide
    simp only [production, Text.marks_append, hname, hbetween, hclosing]
    rfl
  | plain =>
    have hbetween : Text.marks [' ', '=', ' '] = [] := by decide
    simp only [production, Text.marks_append, hname, hbetween]
    simp

theorem exists_of_mem_mint {bodies : List Text} {minted : Text}
    (h : minted ∈ mint kind start bodies) :
    ∃ n, n < start + bodies.length ∧
      ∃ body ∈ bodies, minted = production kind (kind.symbol n) body := by
  obtain ⟨⟨body, n⟩, hmem, rfl⟩ := List.mem_map.1 h
  obtain ⟨-, hlt, hbody⟩ := List.mem_zipIdx hmem
  exact ⟨n, hlt, body, hbody ▸ List.getElem_mem _, rfl⟩

theorem exists_of_mem_replace_snd {minted : Text} (h : minted ∈ (replace kind start forest).2) :
    ∃ n, ∃ body ∈ forest.bodies, ∃ inner, inner.marks = body.surface.marks ∧
      minted = production kind (kind.symbol n) inner := by
  rw [replace_snd] at h
  obtain ⟨n, -, inner, hinner, rfl⟩ := exists_of_mem_mint h
  obtain ⟨body, hbody, hmarks⟩ := marks_of_mem_inners hinner
  exact ⟨n, body, hbody, inner, hmarks, rfl⟩

/-- No pair is left of the kind that was replaced. -/
theorem not_hasPair_replace (kind : GroupKind) (start : Nat) (text : Text) :
    ¬kind.HasPair (replace kind start (Forest.ofText kind text)).1 := by
  rw [← GroupKind.hasPair_marks, marks_replace, GroupKind.hasPair_marks]
  exact (Forest.tame_ofText kind text).surface

theorem not_hasPair_of_mem_replace {minted : Text}
    (h : minted ∈ (replace kind start (Forest.ofText kind text)).2) : ¬kind.HasPair minted := by
  obtain ⟨n, body, hbody, inner, hmarks, rfl⟩ := exists_of_mem_replace_snd h
  have hclean := ((Forest.tame_ofText kind text).bodies body hbody).not_mem_surface.1
  rw [← Text.mem_marks kind.isInert_delimiters.1, ← hmarks] at hclean
  rw [← GroupKind.hasPair_marks, marks_production]
  apply GroupKind.not_hasPair_of_opening
  cases kind <;> simpa [GroupKind.opening] using hclean

/-- A pair of any kind that is left was there before. -/
theorem hasPair_of_replace {kind' : GroupKind} (h : kind'.HasPair (replace kind start forest).1) :
    kind'.HasPair (forest.toText kind) := by
  rw [← GroupKind.hasPair_marks, marks_replace, GroupKind.hasPair_marks] at h
  exact h.mono (Forest.surface_sublist kind forest)

/-- The production of a plain group adds no pair of any kind. -/
theorem hasPair_of_mem_replace_plain {kind' : GroupKind} {minted : Text}
    (h : minted ∈ (replace .plain start forest).2) (hpair : kind'.HasPair minted) :
    kind'.HasPair (forest.toText .plain) := by
  obtain ⟨n, body, hbody, inner, hmarks, rfl⟩ := exists_of_mem_replace_snd h
  rw [← GroupKind.hasPair_marks, marks_production, hmarks] at hpair
  have hsurface : kind'.HasPair body.surface.marks := by simpa using hpair
  exact (GroupKind.hasPair_marks.1 hsurface).mono ((Forest.surface_sublist .plain body).trans
    (Forest.toText_sublist_of_mem_bodies hbody))

theorem not_mem_replace {c : Char} (hc : isInert c = false) (h : c ∉ forest.toText kind) :
    c ∉ (replace kind start forest).1 := by
  rw [← Text.mem_marks hc, marks_replace, Text.mem_marks hc]
  exact fun hmem => h ((Forest.surface_sublist kind forest).subset hmem)

theorem terminator_not_mem_of_mem_replace {minted : Text} (h : ';' ∉ forest.toText kind)
    (hminted : minted ∈ (replace kind start forest).2) : ';' ∉ minted := by
  obtain ⟨n, body, hbody, inner, hmarks, rfl⟩ := exists_of_mem_replace_snd hminted
  have hinert : isInert ';' = false := by decide
  have hbody' : ';' ∉ body.surface.marks := by
    rw [Text.mem_marks hinert]
    exact fun hmem => h ((Forest.toText_sublist_of_mem_bodies hbody).subset
      ((Forest.surface_sublist kind body).subset hmem))
  rw [← Text.mem_marks hinert, marks_production, hmarks]
  cases kind <;> simpa using hbody'

theorem isComment_production (kind : GroupKind) (n : Nat) (body : Text) :
    isComment ('\n' :: production kind (kind.symbol n) body) = false := by
  obtain ⟨tail, htail⟩ := writeReference_eq_cons false (kind.symbol_valid n)
  have hname : (kind.symbol n).name = '$' :: tail := htail
  have hbreak : ∀ c ∈ ['\n'], Unicode.isWhitespace c = true :=
    List.forall_mem_singleton.2 (by decide)
  cases kind <;> exact isComment_append_sigil hbreak _

/-! ## All statements -/

theorem replaceAll_cons (kind : GroupKind) (start : Nat) (statement : Text) (rest : List Text) :
    replaceAll kind start (statement :: rest) =
      let here := if isComment statement then (statement, [])
        else replace kind start (Forest.ofText kind statement)
      let after := replaceAll kind (start + here.2.length) rest
      (here.1 :: after.1, here.2 ++ after.2) :=
  rfl

/-- Every statement is a comment that stays, or has its groups replaced. -/
theorem forall₂_replaceAll (kind : GroupKind) (start : Nat) (statements : List Text) :
    List.Forall₂
      (fun s s' => isComment s = true ∧ s' = s ∨ isComment s = false ∧
        ∃ n, s' = (replace kind n (Forest.ofText kind s)).1)
      statements (replaceAll kind start statements).1 := by
  induction statements generalizing start with
  | nil => exact List.Forall₂.nil
  | cons statement rest ih =>
    rw [replaceAll_cons]
    refine List.Forall₂.cons ?_ (ih _)
    cases hcomment : isComment statement with
    | true => exact Or.inl ⟨rfl, rfl⟩
    | false => exact Or.inr ⟨rfl, start, rfl⟩

theorem exists_of_mem_replaceAll_snd {statements : List Text} {minted : Text}
    (h : minted ∈ (replaceAll kind start statements).2) :
    ∃ s ∈ statements, isComment s = false ∧
      ∃ n, minted ∈ (replace kind n (Forest.ofText kind s)).2 := by
  induction statements generalizing start with
  | nil => simp [replaceAll] at h
  | cons statement rest ih =>
    rw [replaceAll_cons] at h
    rcases List.mem_append.1 h with h | h
    · cases hcomment : isComment statement with
      | true => simp [hcomment] at h
      | false =>
        rw [hcomment] at h
        exact ⟨statement, List.mem_cons_self, hcomment, start, h⟩
    · obtain ⟨s, hs, hfound⟩ := ih h
      exact ⟨s, List.mem_cons_of_mem _ hs, hfound⟩

/-- The bodies of the groups of all statements with their own groups replaced, in the order of their
numbers. -/
def innersAll (kind : GroupKind) (start : Nat) : List Text → List Text
  | [] => []
  | statement :: rest =>
    let here := if isComment statement then [] else inners kind start (Forest.ofText kind statement)
    here ++ innersAll kind (start + here.length) rest

theorem replaceAll_snd (kind : GroupKind) (start : Nat) (statements : List Text) :
    (replaceAll kind start statements).2 = mint kind start (innersAll kind start statements) := by
  induction statements generalizing start with
  | nil => rfl
  | cons statement rest ih =>
    rw [replaceAll_cons, innersAll]
    cases hcomment : isComment statement with
    | true => exact ih start
    | false =>
      simp only [Bool.false_eq_true, if_false, ih, replace_snd, length_mint, mint_append]

theorem innersAll_append (kind : GroupKind) (start : Nat) (front rest : List Text) :
    innersAll kind start (front ++ rest) = innersAll kind start front ++
      innersAll kind (start + (innersAll kind start front).length) rest := by
  induction front generalizing start with
  | nil => rfl
  | cons statement front ih =>
    simp only [List.cons_append, innersAll, ih, List.append_assoc, List.length_append,
      Nat.add_assoc]

/-- What is left of a list of statements is left of its parts, numbered one after the other. -/
theorem replaceAll_append_fst (kind : GroupKind) (start : Nat) (front rest : List Text) :
    (replaceAll kind start (front ++ rest)).1 = (replaceAll kind start front).1 ++
      (replaceAll kind (start + (innersAll kind start front).length) rest).1 := by
  induction front generalizing start with
  | nil => rfl
  | cons statement front ih =>
    simp only [List.cons_append, replaceAll_cons, innersAll, List.length_append]
    rw [ih]
    cases hcomment : isComment statement with
    | true => simp
    | false =>
      simp only [Bool.false_eq_true, if_false, length_replace_snd, length_inners, Nat.add_assoc]

theorem exists_of_mem_innersAll {statements : List Text} {inner : Text}
    (h : inner ∈ innersAll kind start statements) :
    ∃ s ∈ statements, isComment s = false ∧
      ∃ n, inner ∈ inners kind n (Forest.ofText kind s) := by
  induction statements generalizing start with
  | nil => simp [innersAll] at h
  | cons statement rest ih =>
    rw [innersAll] at h
    rcases List.mem_append.1 h with h | h
    · cases hcomment : isComment statement with
      | true => simp [hcomment] at h
      | false =>
        rw [hcomment] at h
        exact ⟨statement, List.mem_cons_self, hcomment, start, h⟩
    · obtain ⟨s, hs, hfound⟩ := ih h
      exact ⟨s, List.mem_cons_of_mem _ hs, hfound⟩

/-- Statements without pairs, comments apart, stay as they are. -/
theorem replaceAll_append {front : List Text}
    (h : ∀ s ∈ front, isComment s = false → ¬kind.HasPair s) (start : Nat) (rest : List Text) :
    replaceAll kind start (front ++ rest) =
      (front ++ (replaceAll kind start rest).1, (replaceAll kind start rest).2) := by
  induction front with
  | nil => rfl
  | cons statement front ih =>
    have hhere : (if isComment statement then (statement, [])
        else replace kind start (Forest.ofText kind statement)) = (statement, []) := by
      cases hcomment : isComment statement with
      | true => rfl
      | false =>
        have hbodies := Forest.bodies_ofText_eq_nil_iff.2 (h statement List.mem_cons_self hcomment)
        rw [if_neg Bool.false_ne_true, replace_eq_self hbodies, Forest.toText_ofText]
    rw [List.cons_append, replaceAll_cons, hhere]
    simp [ih fun s hs => h s (List.mem_cons_of_mem _ hs)]

theorem replaceAll_eq_self {statements : List Text}
    (h : ∀ s ∈ statements, isComment s = false → ¬kind.HasPair s) (start : Nat) :
    replaceAll kind start statements = (statements, []) := by
  have hall := replaceAll_append h start []
  rw [List.append_nil] at hall
  simpa [replaceAll] using hall

/-! ## Whole sources -/

/-- No statement but a comment has a pair. -/
def Flat (kind : GroupKind) (source : Text) : Prop :=
  ∀ s ∈ source.splitOn ';', isComment s = false → ¬kind.HasPair s

instance (kind : GroupKind) (source : Text) : Decidable (Flat kind source) :=
  inferInstanceAs (Decidable (∀ s ∈ source.splitOn ';', isComment s = false → ¬kind.HasPair s))

end Group

namespace Group

variable {kind : GroupKind} {source : Text}

/-- The statements of a source with the groups of a kind replaced: those of the source, and behind
them one for each group. -/
theorem split_desugarKind (kind : GroupKind) (source : Text) :
    (desugarKind kind source).splitOn ';' =
      (replaceAll kind 0 (source.splitOn ';')).1 ++
        (replaceAll kind 0 (source.splitOn ';')).2.map ('\n' :: ·) := by
  have hsplit : ∀ s ∈ source.splitOn ';', ';' ∉ s := fun s => Text.not_mem_of_mem_splitOn
  have hlength := (forall₂_replaceAll kind 0 (source.splitOn ';')).length_eq
  have hne : (replaceAll kind 0 (source.splitOn ';')).1 ≠ [] := by
    intro hnil
    rw [hnil, List.length_nil, List.length_eq_zero_iff] at hlength
    exact List.splitOn_ne_nil _ source hlength
  have hjoin : desugarKind kind source = [';'].intercalate
      ((replaceAll kind 0 (source.splitOn ';')).1 ++
        (replaceAll kind 0 (source.splitOn ';')).2.map ('\n' :: ·)) :=
    Text.intercalate_append_flatMap [';'] hne ('\n' :: ·) _
  rw [hjoin]
  refine List.splitOn_intercalate ';' ?_ (by simp [hne])
  intro piece hpiece
  rcases List.mem_append.1 hpiece with hpiece | hpiece
  · obtain ⟨s, hs, hcases⟩ := Content.exists_of_forall₂_right (forall₂_replaceAll ..) hpiece
    rcases hcases with ⟨-, rfl⟩ | ⟨-, n, rfl⟩
    · exact hsplit _ hs
    · refine not_mem_replace (by decide) ?_
      rw [Forest.toText_ofText]
      exact hsplit s hs
  · obtain ⟨minted, hminted, rfl⟩ := List.mem_map.1 hpiece
    obtain ⟨s, hs, -, n, hmem⟩ := exists_of_mem_replaceAll_snd hminted
    have hnot : ';' ∉ minted := by
      refine terminator_not_mem_of_mem_replace ?_ hmem
      rw [Forest.toText_ofText]
      exact hsplit s hs
    simpa using hnot

/-- A statement behind a pass is one from before, with its groups replaced unless it is a comment,
or belongs to a group of a statement from before. -/
theorem cases_of_mem_split_desugarKind {s' : Text} (h : s' ∈ (desugarKind kind source).splitOn ';') :
    ∃ s ∈ source.splitOn ';',
      isComment s = true ∧ s' = s ∨ isComment s = false ∧
        ((∃ n, s' = (replace kind n (Forest.ofText kind s)).1) ∨
          ∃ n, ∃ minted ∈ (replace kind n (Forest.ofText kind s)).2, s' = '\n' :: minted) := by
  rw [split_desugarKind] at h
  rcases List.mem_append.1 h with h | h
  · obtain ⟨s, hs, hcases⟩ := Content.exists_of_forall₂_right (forall₂_replaceAll ..) h
    rcases hcases with hcomment | ⟨hcomment, hreplaced⟩
    · exact ⟨s, hs, Or.inl hcomment⟩
    · exact ⟨s, hs, Or.inr ⟨hcomment, Or.inl hreplaced⟩⟩
  · obtain ⟨minted, hminted, rfl⟩ := List.mem_map.1 h
    obtain ⟨s, hs, hcomment, n, hmem⟩ := exists_of_mem_replaceAll_snd hminted
    exact ⟨s, hs, Or.inr ⟨hcomment, Or.inr ⟨n, minted, hmem, rfl⟩⟩⟩

theorem hasPair_cons_break {minted : Text} :
    kind.HasPair ('\n' :: minted) ↔ kind.HasPair minted := by
  have hbreak : Text.marks ('\n' :: minted) = '\n' :: minted.marks := rfl
  have hmarks : kind.HasPair minted.marks ↔ kind.HasPair minted := GroupKind.hasPair_marks
  rw [← GroupKind.hasPair_marks, hbreak, ← hmarks]
  constructor
  · intro h
    rw [← List.singleton_append] at h
    refine h.of_append ?_
    cases kind <;> decide
  · exact fun h => h.mono (List.sublist_cons_self _ _)

/-- A pass leaves no pair of its kind. -/
theorem flat_desugarKind (kind : GroupKind) (source : Text) :
    Flat kind (desugarKind kind source) := by
  intro s' hs' hcomment'
  obtain ⟨s, -, ⟨hcomment, rfl⟩ | ⟨-, ⟨n, rfl⟩ | ⟨n, minted, hminted, rfl⟩⟩⟩ :=
    cases_of_mem_split_desugarKind hs'
  · rw [hcomment] at hcomment'
    cases hcomment'
  · exact not_hasPair_replace kind n s
  · rw [hasPair_cons_break]
    exact not_hasPair_of_mem_replace hminted

/-- The pass over plain groups adds no pair of any kind. -/
theorem Flat.desugarKind_plain (h : Flat kind source) : Flat kind (desugarKind .plain source) := by
  intro s' hs' hcomment' hpair
  obtain ⟨s, hs, ⟨hcomment, rfl⟩ | ⟨hcomment, ⟨n, rfl⟩ | ⟨n, minted, hminted, rfl⟩⟩⟩ :=
    cases_of_mem_split_desugarKind hs'
  · rw [hcomment] at hcomment'
    cases hcomment'
  · have hbefore := hasPair_of_replace hpair
    rw [Forest.toText_ofText] at hbefore
    exact h s hs hcomment hbefore
  · have hbefore := hasPair_of_mem_replace_plain hminted (hasPair_cons_break.1 hpair)
    rw [Forest.toText_ofText] at hbefore
    exact h s hs hcomment hbefore

theorem flat_desugar (kind : GroupKind) (source : Text) : Flat kind (desugar source) := by
  cases kind with
  | optional => exact (flat_desugarKind .optional source).desugarKind_plain
  | plain => exact flat_desugarKind .plain _

theorem Flat.desugarKind_eq (h : Flat kind source) : desugarKind kind source = source := by
  rw [desugarKind, replaceAll_eq_self h]
  show [';'].intercalate (source.splitOn ';') ++ [] = source
  rw [List.intercalate_splitOn, List.append_nil]

theorem desugar_eq_self_iff : desugar source = source ↔ ∀ kind, Flat kind source := by
  constructor
  · intro h
    have hfirst : Flat .optional source := by
      rw [← h]
      exact flat_desugar .optional source
    intro kind
    cases kind with
    | optional => exact hfirst
    | plain =>
      rw [← h]
      exact flat_desugar .plain source
  · intro h
    rw [desugar, (h .optional).desugarKind_eq, (h .plain).desugarKind_eq]

/-- Comments stay in their places, no statement becomes one, and none is added. -/
structure KeepsComments (source result : Text) : Prop where
  kept : ∀ (i : Nat) (s : Text), (source.splitOn ';')[i]? = some s →
    ∃ s', (result.splitOn ';')[i]? = some s' ∧ isComment s' = isComment s ∧
      (isComment s = true → s' = s)
  added : ∀ (i : Nat) (s' : Text), (source.splitOn ';').length ≤ i →
    (result.splitOn ';')[i]? = some s' → isComment s' = false

theorem KeepsComments.trans {result last : Text} (h : KeepsComments source result)
    (h' : KeepsComments result last) : KeepsComments source last := by
  constructor
  · intro i s hs
    obtain ⟨s', hs', hcomment, hsame⟩ := h.kept i s hs
    obtain ⟨s'', hs'', hcomment', hsame'⟩ := h'.kept i s' hs'
    refine ⟨s'', hs'', hcomment'.trans hcomment, fun hc => ?_⟩
    rw [hsame' (hcomment.trans hc), hsame hc]
  · intro i s'' hi hs''
    by_cases hresult : (result.splitOn ';').length ≤ i
    · exact h'.added i s'' hresult hs''
    · obtain ⟨s', hs'⟩ : ∃ s', (result.splitOn ';')[i]? = some s' :=
        ⟨_, List.getElem?_eq_getElem (Nat.lt_of_not_le hresult)⟩
      obtain ⟨other, hother, hcomment, -⟩ := h'.kept i s' hs'
      cases hs''.symm.trans hother
      rw [hcomment]
      exact h.added i s' hi hs'

theorem keepsComments_desugarKind (kind : GroupKind) (source : Text) :
    KeepsComments source (desugarKind kind source) := by
  have hforall := forall₂_replaceAll kind 0 (source.splitOn ';')
  have hlength := hforall.length_eq
  constructor
  · intro i s hs
    obtain ⟨hi, rfl⟩ := List.getElem?_eq_some_iff.1 hs
    have hi' : i < (replaceAll kind 0 (source.splitOn ';')).1.length := hlength ▸ hi
    refine ⟨(replaceAll kind 0 (source.splitOn ';')).1[i], ?_, ?_⟩
    · rw [split_desugarKind, List.getElem?_append_left hi', List.getElem?_eq_getElem hi']
    · rcases hforall.get hi hi' with ⟨hcomment, heq⟩ | ⟨hcomment, n, heq⟩
      · rw [List.get_eq_getElem, List.get_eq_getElem] at heq
        rw [heq]
        exact ⟨rfl, fun _ => rfl⟩
      · rw [List.get_eq_getElem] at heq hcomment
        rw [List.get_eq_getElem] at heq
        rw [heq, isComment_replace, Forest.toText_ofText]
        refine ⟨rfl, fun hc => ?_⟩
        rw [hcomment] at hc
        cases hc
  · intro i s' hi hs'
    rw [split_desugarKind, List.getElem?_append_right (hlength ▸ hi)] at hs'
    obtain ⟨minted, hminted, rfl⟩ := List.mem_map.1 (List.mem_of_getElem? hs')
    obtain ⟨s, -, -, n, hmem⟩ := exists_of_mem_replaceAll_snd hminted
    obtain ⟨m, -, -, inner, -, rfl⟩ := exists_of_mem_replace_snd hmem
    exact isComment_production kind m inner

end Group

/-! ## The result -/

/-- Desugaring is a projection onto the sources without pairs of delimiters outside of comments: it
leaves exactly those alone, and a second time changes nothing. Comments stay word for word where
they are, among the statements of the source and those that are added there are no other ones. -/
theorem desugar_projection (source : Text) :
    (desugar source = source ↔
      ∀ s ∈ source.splitOn ';', isComment s = false → ∀ kind : GroupKind, ¬kind.HasPair s) ∧
    desugar (desugar source) = desugar source ∧
    (∀ (i : Nat) (s : Text), (source.splitOn ';')[i]? = some s →
      ∃ s', ((desugar source).splitOn ';')[i]? = some s' ∧ isComment s' = isComment s ∧
        (isComment s = true → s' = s)) ∧
    ∀ (i : Nat) (s' : Text), (source.splitOn ';').length ≤ i →
      ((desugar source).splitOn ';')[i]? = some s' → isComment s' = false := by
  have hcomments : Group.KeepsComments source (desugar source) :=
    (Group.keepsComments_desugarKind .optional source).trans
      (Group.keepsComments_desugarKind .plain _)
  refine ⟨?_, ?_, hcomments.kept, hcomments.added⟩
  · rw [Group.desugar_eq_self_iff]
    exact ⟨fun h s hs hcomment kind => h kind s hs hcomment,
      fun h kind s hs hcomment => h s hs hcomment kind⟩
  · exact Group.desugar_eq_self_iff.2 fun kind => Group.flat_desugar kind source

/-- A source with nested and stray delimiters, and with a comment that holds pairs. -/
def knottedSource : Text :=
  "$s = ] [a (b)] c) [d;# [x] (y);$t = ((e) f]".toList

/-- That source desugared. -/
def unknottedSource : Text :=
  ("$s = ] $_optgrp0 c) [d;# [x] (y);$t = ($_grp0 f];\n$_optgrp0 = | $_grp2;\n$_grp0 = e;\n" ++
    "$_grp1 = b;\n$_grp2 = a $_grp1").toList

theorem knottedSource_projection :
    desugar knottedSource = unknottedSource ∧ desugar unknottedSource = unknottedSource ∧
      (unknottedSource.splitOn ';')[1]? = some "# [x] (y)".toList ∧
      ∀ s ∈ unknottedSource.splitOn ';', isComment s = false →
        ∀ kind : GroupKind, ¬kind.HasPair s := by
  have hdesugar : desugar knottedSource = unknottedSource := by decide +kernel
  obtain ⟨-, hagain, hkept, -⟩ := desugar_projection knottedSource
  rw [hdesugar] at hagain hkept
  have hcomment : (knottedSource.splitOn ';')[1]? = some "# [x] (y)".toList := by decide +kernel
  obtain ⟨s', hs', -, hsame⟩ := hkept 1 _ hcomment
  rw [hsame (by decide)] at hs'
  exact ⟨hdesugar, hagain, hs', (desugar_projection unknottedSource).1.1 hagain⟩

end TextGrammar
