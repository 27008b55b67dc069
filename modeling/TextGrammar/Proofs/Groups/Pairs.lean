import Mathlib.Data.List.Basic
import TextGrammar.Proofs.Groups.Scanning

/-!
# Pairs of delimiters

A text has groups of a kind exactly if an opening delimiter stands somewhere in front of a closing
one (`Forest.bodies_ofText_eq_nil_iff`), whatever else of that kind it holds.

* `Text.marks` is what the passes over a source see of a text. Pairs are among the marks, and a
  reference to a group has none.
* `Forest.Tame` is what matching delimiters achieves: nothing outside of the groups is a pair, and
  the bodies hold no delimiter without a partner. `Forest.tame_ofText` is the invariant of the scan
  from the right end.
* `Group.marks_replace` and `Group.marks_of_mem_inners`: replacing the groups leaves the marks
  outside of them, and those of a body in its production.
-/

namespace TextGrammar

/-! ## Marks -/

/-- The separators, delimiters and line breaks of a text. -/
def Text.marks (text : Text) : Text :=
  text.filter (!isInert ·)

/-- Whether an opening delimiter stands somewhere in front of a closing one. -/
def GroupKind.HasPair (kind : GroupKind) (text : Text) : Prop :=
  [kind.opening, kind.closing].Sublist text

instance (kind : GroupKind) (text : Text) : Decidable (kind.HasPair text) :=
  inferInstanceAs (Decidable (List.Sublist _ _))

namespace Text

theorem marks_cons (c : Char) (rest : Text) :
    marks (c :: rest) = if isInert c then rest.marks else c :: rest.marks := by
  cases hc : isInert c <;> simp [marks, hc]

theorem marks_append (text rest : Text) : (text ++ rest).marks = text.marks ++ rest.marks :=
  List.filter_append _ _

theorem marks_eq_nil {text : Text} (h : ∀ c ∈ text, isInert c = true) : text.marks = [] := by
  rw [marks, List.filter_eq_nil_iff]
  intro c hc
  simp [h c hc]

theorem mem_marks {c : Char} {text : Text} (h : isInert c = false) :
    c ∈ text.marks ↔ c ∈ text := by
  simp [marks, h]

end Text

namespace GroupKind

variable {kind : GroupKind} {text : Text}

theorem isInert_delimiters (kind : GroupKind) :
    isInert kind.opening = false ∧ isInert kind.closing = false := by
  cases kind <;> decide

theorem hasPair_marks : kind.HasPair text.marks ↔ kind.HasPair text := by
  have hkept : [kind.opening, kind.closing].filter (!isInert ·) =
      [kind.opening, kind.closing] := by
    simp [kind.isInert_delimiters]
  constructor
  · intro h
    exact h.trans List.filter_sublist
  · intro h
    have hfilter := h.filter (!isInert ·)
    rwa [hkept] at hfilter

theorem HasPair.mono {other : Text} (h : kind.HasPair text) (hsub : text.Sublist other) :
    kind.HasPair other :=
  List.Sublist.trans h hsub

theorem not_hasPair_of_opening (h : kind.opening ∉ text) : ¬kind.HasPair text :=
  fun hpair => h (hpair.subset List.mem_cons_self)

theorem not_hasPair_of_closing (h : kind.closing ∉ text) : ¬kind.HasPair text :=
  fun hpair => h (hpair.subset (List.mem_cons_of_mem _ List.mem_cons_self))

/-- Behind a text without an opening delimiter, only the rest can have a pair. -/
theorem HasPair.of_append {front rest : Text} (h : kind.HasPair (front ++ rest))
    (hfront : kind.opening ∉ front) : kind.HasPair rest := by
  obtain ⟨left, right, heq, hleft, hright⟩ := List.sublist_append_iff.1 h
  cases left with
  | nil =>
    rw [List.nil_append] at heq
    rwa [← heq] at hright
  | cons c left =>
    rw [List.cons_append, List.cons.injEq] at heq
    rw [← heq.1] at hleft
    exact absurd (hleft.subset List.mem_cons_self) hfront

end GroupKind

/-! ## Outside of the groups -/

namespace Forest

variable {kind : GroupKind} {forest : Forest}

/-- The characters outside of all groups. -/
def surface : Forest → Text
  | nil => []
  | char c rest => c :: surface rest
  | group _ rest => surface rest

/-- The bodies of all groups, inner ones first. -/
def bodies : Forest → List Forest
  | nil => []
  | char _ rest => bodies rest
  | group body rest => bodies body ++ body :: bodies rest

theorem surface_sublist (kind : GroupKind) (forest : Forest) :
    forest.surface.Sublist (forest.toText kind) := by
  induction forest with
  | nil => exact List.Sublist.refl _
  | char c rest ih => exact ih.cons_cons c
  | group body rest _ ih =>
    rw [surface, toText]
    refine List.Sublist.cons _ (List.Sublist.trans ?_ (List.sublist_append_right _ _))
    exact ih.cons _

theorem toText_sublist_of_mem_bodies {body : Forest} (h : body ∈ forest.bodies) :
    (body.toText kind).Sublist (forest.toText kind) := by
  induction forest with
  | nil => simp [bodies] at h
  | char c rest ih => exact (ih h).cons c
  | group body' rest ihbody ihrest =>
    rw [toText]
    refine List.Sublist.cons _ ?_
    rcases List.mem_append.1 h with hmem | hmem
    · exact (ihbody hmem).trans (List.sublist_append_left _ _)
    rcases List.mem_cons.1 hmem with rfl | hmem
    · exact List.sublist_append_left _ _
    · exact ((ihrest hmem).cons _).trans (List.sublist_append_right _ _)

theorem surface_append (forest other : Forest) :
    (forest.append other).surface = forest.surface ++ other.surface := by
  induction forest with
  | nil => rfl
  | char c rest ih => simp [append, surface, ih]
  | group body rest _ ih => simp [append, surface, ih]

theorem bodies_append (forest other : Forest) :
    (forest.append other).bodies = forest.bodies ++ other.bodies := by
  induction forest with
  | nil => rfl
  | char c rest ih => simp [append, bodies, ih]
  | group body rest _ ih => simp [append, bodies, ih]

theorem surface_eq_toText (h : forest.bodies = []) : forest.surface = forest.toText kind := by
  induction forest with
  | nil => rfl
  | char c rest ih => exact congrArg (c :: ·) (ih h)
  | group body rest _ _ => simp [bodies] at h

theorem hasPair_of_bodies_ne_nil (h : forest.bodies ≠ []) : kind.HasPair (forest.toText kind) := by
  induction forest with
  | nil => exact absurd rfl h
  | char c rest ih => exact (ih h).mono (List.sublist_cons_self c _)
  | group body rest _ _ =>
    refine List.Sublist.cons_cons _ (List.Sublist.trans ?_ (List.sublist_append_right _ _))
    exact (List.nil_sublist _).cons_cons _

/-! ## What the scan achieves -/

theorem Clean.not_mem_surface (h : forest.Clean kind) :
    kind.opening ∉ forest.surface ∧ kind.closing ∉ forest.surface := by
  induction forest with
  | nil => simp [surface]
  | char c rest ih =>
    obtain ⟨⟨hopen, hclose⟩, hrest⟩ := h
    simp [surface, ih hrest, hopen.symm, hclose.symm]
  | group body rest _ ih => exact ih h.2

theorem Clean.bodies (h : forest.Clean kind) : ∀ body ∈ forest.bodies, body.Clean kind := by
  induction forest with
  | nil => simp [Forest.bodies]
  | char c rest ih => exact ih h.2
  | group body rest ihbody ihrest =>
    obtain ⟨hbody, hrest⟩ := h
    exact List.forall_mem_append.2 ⟨ihbody hbody, List.forall_mem_cons.2 ⟨hbody, ihrest hrest⟩⟩

instance decidableClean (kind : GroupKind) : (forest : Forest) → Decidable (forest.Clean kind)
  | .nil => isTrue trivial
  | .char _ rest => @instDecidableAnd _ _ inferInstance (decidableClean kind rest)
  | .group body rest =>
    @instDecidableAnd _ _ (decidableClean kind body) (decidableClean kind rest)

/-- Nothing outside of the groups is a pair, and every delimiter in a body has a partner. -/
structure Tame (kind : GroupKind) (forest : Forest) : Prop where
  surface : ¬kind.HasPair forest.surface
  bodies : ∀ body ∈ forest.bodies, body.Clean kind

/-- No closing delimiter is without a partner; opening ones outside of the groups may be. -/
def Open (kind : GroupKind) : Forest → Prop
  | nil => True
  | char c rest => c ≠ kind.closing ∧ Open kind rest
  | group body rest => Clean kind body ∧ Open kind rest

theorem Open.tame (h : forest.Open kind) : forest.Tame kind := by
  have hclosing : kind.closing ∉ forest.surface := by
    induction forest with
    | nil => simp [Forest.surface]
    | char c rest ih => simp [Forest.surface, ih h.2, h.1.symm]
    | group body rest _ ih => exact ih h.2
  have hbodies : ∀ body ∈ forest.bodies, body.Clean kind := by
    clear hclosing
    induction forest with
    | nil => simp [Forest.bodies]
    | char c rest ih => exact ih h.2
    | group body rest _ ih =>
      exact List.forall_mem_append.2 ⟨h.1.bodies, List.forall_mem_cons.2 ⟨h.1, ih h.2⟩⟩
  exact ⟨GroupKind.not_hasPair_of_closing hclosing, hbodies⟩

/-- What lies between the closing delimiters that wait for a partner: only behind the last of them
may there be an opening one without a partner. -/
def Layers (kind : GroupKind) : Forest → List Forest → Prop
  | front, [] => Open kind front
  | front, after :: outer => Clean kind front ∧ Layers kind after outer

theorem Layers.char {c : Char} {behind : List Forest} (hopen : c ≠ kind.opening)
    (hclose : c ≠ kind.closing) (h : Layers kind forest behind) :
    Layers kind (.char c forest) behind := by
  cases behind with
  | nil => exact ⟨hclose, h⟩
  | cons after outer => exact ⟨⟨⟨hopen, hclose⟩, h.1⟩, h.2⟩

theorem Layers.group {after : Forest} {outer : List Forest}
    (h : Layers kind forest (after :: outer)) : Layers kind (.group forest after) outer := by
  obtain ⟨hfront, hafter⟩ := h
  cases outer with
  | nil => exact ⟨hfront, hafter⟩
  | cons next outer => exact ⟨⟨hfront, hafter.1⟩, hafter.2⟩

/-- The invariant of the scan. -/
theorem layers_scan (kind : GroupKind) (text : Text) :
    Layers kind (scan kind text).1 (scan kind text).2 := by
  have hne : kind.opening ≠ kind.closing := by cases kind <;> decide
  induction text with
  | nil => trivial
  | cons c rest ih =>
    rw [scan]
    generalize scan kind rest = scanned at ih ⊢
    obtain ⟨front, behind⟩ := scanned
    split_ifs with hopen hclose
    · cases behind with
      | nil => exact ⟨hopen ▸ hne, ih⟩
      | cons after outer => exact ih.group
    · exact ⟨trivial, ih⟩
    · exact ih.char hopen hclose

theorem tame_rejoin {behind : List Forest} (h : Layers kind forest behind) :
    (rejoin kind forest behind).Tame kind := by
  have hne : kind.opening ≠ kind.closing := by cases kind <;> decide
  induction behind generalizing forest with
  | nil => exact h.tame
  | cons after outer ih =>
    obtain ⟨hfront, hafter⟩ := h
    have hrest := ih hafter
    rw [rejoin]
    constructor
    · rw [surface_append, Forest.surface]
      intro hpair
      have hbehind := hpair.of_append hfront.not_mem_surface.1
      rw [← List.singleton_append] at hbehind
      exact hrest.surface (hbehind.of_append (by simpa using hne))
    · rw [bodies_append]
      exact List.forall_mem_append.2 ⟨hfront.bodies, hrest.bodies⟩

theorem tame_ofText (kind : GroupKind) (text : Text) : (ofText kind text).Tame kind :=
  tame_rejoin (layers_scan kind text)

/-! ## Nothing is lost -/

theorem toText_rejoin (front : Forest) (behind : List Forest) :
    (rejoin kind front behind).toText kind =
      front.toText kind ++ behind.flatMap fun after => kind.closing :: after.toText kind := by
  induction behind generalizing front with
  | nil => simp [rejoin]
  | cons after outer ih => simp [rejoin, toText_append, toText, ih]

theorem toText_scan (kind : GroupKind) (text : Text) :
    (scan kind text).1.toText kind ++
      (scan kind text).2.flatMap (fun after => kind.closing :: after.toText kind) = text := by
  induction text with
  | nil => rfl
  | cons c rest ih =>
    rw [scan]
    generalize scan kind rest = scanned at ih ⊢
    obtain ⟨front, behind⟩ := scanned
    split_ifs with hopen hclose
    · cases behind with
      | nil => simpa [toText] using ih
      | cons after outer => simpa [toText, hopen] using ih
    · simpa [toText, hclose] using ih
    · simpa [toText] using ih

/-- The forest of a text has that text. -/
theorem toText_ofText (kind : GroupKind) (text : Text) : (ofText kind text).toText kind = text := by
  rw [ofText, toText_rejoin, toText_scan]

/-- A text without delimiters of the kind stays in front of the groups. -/
theorem ofText_append {front : Text} (h : ∀ c ∈ front, c ≠ kind.opening ∧ c ≠ kind.closing)
    (text : Text) : ofText kind (front ++ text) = prepend front (ofText kind text) := by
  induction front with
  | nil => rfl
  | cons c front ih =>
    obtain ⟨⟨hopen, hclose⟩, hrest⟩ := List.forall_mem_cons.1 h
    have hcons : prepend (c :: front) (ofText kind text) =
        char c (prepend front (ofText kind text)) := rfl
    rw [hcons, ← ih hrest, List.cons_append, ofText, ofText, scan]
    generalize scan kind (front ++ text) = scanned
    obtain ⟨first, behind⟩ := scanned
    simp only [if_neg hopen, if_neg hclose]
    cases behind <;> rfl

/-- A text has groups exactly if it has a pair of delimiters. -/
theorem bodies_ofText_eq_nil_iff {text : Text} :
    (ofText kind text).bodies = [] ↔ ¬kind.HasPair text := by
  constructor
  · intro h
    rw [← toText_ofText kind text, ← surface_eq_toText h]
    exact (tame_ofText kind text).surface
  · intro h
    by_contra hne
    have hpair : kind.HasPair ((ofText kind text).toText kind) := hasPair_of_bodies_ne_nil hne
    rw [toText_ofText] at hpair
    exact h hpair

end Forest

/-! ## Replacing groups -/

namespace Group

variable {kind : GroupKind} {forest : Forest}

/-- The bodies of all groups with their own groups replaced, in the order of their numbers. -/
def inners (kind : GroupKind) (start : Nat) : Forest → List Text
  | .nil => []
  | .char _ rest => inners kind start rest
  | .group body rest =>
    let before := inners kind start body
    before ++ (replace kind start body).1 :: inners kind (start + before.length + 1) rest

/-- The productions of some bodies, numbered from `start`. -/
def mint (kind : GroupKind) (start : Nat) (bodies : List Text) : List Text :=
  (bodies.zipIdx start).map fun (body, n) => production kind (kind.symbol n) body

theorem length_mint (kind : GroupKind) (start : Nat) (bodies : List Text) :
    (mint kind start bodies).length = bodies.length := by
  simp [mint]

theorem mint_append (kind : GroupKind) (start : Nat) (bodies others : List Text) :
    mint kind start (bodies ++ others) =
      mint kind start bodies ++ mint kind (start + bodies.length) others := by
  rw [mint, List.zipIdx_append, List.map_append]
  rfl

theorem mint_cons (kind : GroupKind) (start : Nat) (body : Text) (bodies : List Text) :
    mint kind start (body :: bodies) =
      production kind (kind.symbol start) body :: mint kind (start + 1) bodies :=
  rfl

theorem replace_snd (kind : GroupKind) (start : Nat) (forest : Forest) :
    (replace kind start forest).2 = mint kind start (inners kind start forest) := by
  induction forest generalizing start with
  | nil => rfl
  | char c rest ih => exact ih start
  | group body rest ihbody ihrest =>
    simp only [replace, inners, ihbody, ihrest, length_mint, mint_append, mint_cons]

theorem length_inners (kind : GroupKind) (start : Nat) (forest : Forest) :
    (inners kind start forest).length = forest.bodies.length := by
  induction forest generalizing start with
  | nil => rfl
  | char c rest ih => exact ih start
  | group body rest ihbody ihrest => simp [inners, Forest.bodies, ihbody, ihrest]

theorem inners_prepend (kind : GroupKind) (start : Nat) (text : Text) (forest : Forest) :
    inners kind start (.prepend text forest) = inners kind start forest := by
  induction text with
  | nil => rfl
  | cons c text ih => exact ih

theorem inners_append (kind : GroupKind) (start : Nat) (front other : Forest) :
    inners kind start (front.append other) =
      inners kind start front ++ inners kind (start + front.bodies.length) other := by
  induction front generalizing start with
  | nil => rfl
  | char c rest ih => exact ih start
  | group body rest _ ih =>
    simp only [Forest.append, inners, Forest.bodies, ih, length_inners, List.length_append,
      List.length_cons, List.append_assoc, List.cons_append]
    congr 4
    omega

theorem length_replace_snd (kind : GroupKind) (start : Nat) (forest : Forest) :
    (replace kind start forest).2.length = forest.bodies.length := by
  rw [replace_snd, length_mint, length_inners]

/-- Without groups nothing is replaced. -/
theorem replace_eq_self (h : forest.bodies = []) (start : Nat) :
    replace kind start forest = (forest.toText kind, []) := by
  induction forest with
  | nil => rfl
  | char c rest ih => rw [replace, ih h, Forest.toText]
  | group body rest _ _ => simp [Forest.bodies] at h

theorem isInert_of_mem_reference {symbol : Symbol} (hvalid : symbol.Valid) {body : Text}
    {glued : Bool} {c : Char} (h : c ∈ reference symbol body glued) : isInert c = true := by
  have hform : reference symbol body glued =
      (if leadsBlank body then [' '] else []) ++
        writeReference (glued && !trailsBlank body) symbol ++
        (if trailsBlank body then [' '] else []) := rfl
  have hblank : ∀ b : Bool, c ∈ (if b then [' '] else [] : Text) → isInert c = true := by
    intro b hc
    cases b with
    | false => simp at hc
    | true =>
      rw [List.mem_singleton.1 hc]
      decide
  rw [hform, List.mem_append, List.mem_append] at h
  rcases h with (h | h) | h
  · exact hblank _ h
  · exact isInert_of_mem_writeReference hvalid h
  · exact hblank _ h

/-- The marks that are left are those outside of the groups. -/
theorem marks_replace (kind : GroupKind) (start : Nat) (forest : Forest) :
    (replace kind start forest).1.marks = forest.surface.marks := by
  induction forest generalizing start with
  | nil => rfl
  | char c rest ih =>
    have hrest := ih start
    simp only [replace, Forest.surface, Text.marks, List.filter_cons] at hrest ⊢
    rw [hrest]
  | group body rest _ ih =>
    have hreference : ∀ n inner glued, (reference (kind.symbol n) inner glued).marks = [] :=
      fun n _ _ => Text.marks_eq_nil fun _ => isInert_of_mem_reference (kind.symbol_valid n)
    simp only [replace, Text.marks_append, hreference, List.nil_append, ih, Forest.surface]

/-- The marks of a body are those outside of the groups in it. -/
theorem marks_of_mem_inners {start : Nat} {inner : Text} (h : inner ∈ inners kind start forest) :
    ∃ body ∈ forest.bodies, inner.marks = body.surface.marks := by
  induction forest generalizing start with
  | nil => simp [inners] at h
  | char c rest ih => exact ih h
  | group body rest ihbody ihrest =>
    simp only [inners, List.mem_append, List.mem_cons] at h
    rcases h with h | rfl | h
    · obtain ⟨other, hother, hmarks⟩ := ihbody h
      exact ⟨other, List.mem_append_left _ hother, hmarks⟩
    · exact ⟨body, List.mem_append_right _ List.mem_cons_self, marks_replace kind start body⟩
    · obtain ⟨other, hother, hmarks⟩ := ihrest h
      exact ⟨other, List.mem_append_right _ (List.mem_cons_of_mem _ hother), hmarks⟩

end Group

end TextGrammar
