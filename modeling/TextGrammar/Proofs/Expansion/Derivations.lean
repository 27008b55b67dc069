import TextGrammar.Expansion.Expander
import TextGrammar.Proofs.Expansion.Replies
import TextGrammar.Proofs.Tables

/-!
# Derivation trees

A derivation tree shows how a text comes from a symbol: at each node an alternative of its symbol is
chosen, and the children stand for the references of the alternative. Expansion walks such a tree
in preorder, and its source chooses the alternatives.

* `Derivation` is a tree, with its `yield`, its `height` and the picks it takes.
* `Derivation.Of` says that a tree follows the productions of a table.
* `Walks` says that a run walks a tree, and `WalksAll` that it walks several in a row.
* `Table.Call.exists_walks`: a run that succeeds walks a tree.
* `Derivation.Of.walks`: a run whose source answers with the choices of a tree walks this tree.
* `Table.expand_iff_derivation` is the result.
-/

namespace TextGrammar

/-- A tree of chosen alternatives. -/
inductive Derivation where
  /-- An alternative of a symbol, with its number, and a tree for each of its references. -/
  | node (symbol : Symbol) (choice : Nat) (chosen : Alternative) (children : List Derivation)

/-- The text of some segments, where the references, forced or not, stand for given texts. -/
def fill : List Segment → List Text → Text
  | [], _ => []
  | .literal text :: rest, texts => text ++ fill rest texts
  | .ref _ :: rest, texts => texts.headD [] ++ fill rest texts.tail
  | .forced _ :: rest, texts => texts.headD [] ++ fill rest texts.tail

namespace Derivation

/-- The symbol at the root. -/
def root : Derivation → Symbol
  | node symbol _ _ _ => symbol

/-- The number of the alternative that is chosen at the root. -/
def choice : Derivation → Nat
  | node _ choice _ _ => choice

/-- The text that a tree derives. -/
def yield : Derivation → Text
  | node _ _ chosen children => fill chosen.segments (children.map yield)

/-- The number of nodes on the longest path from the root to a leaf. -/
def height : Derivation → Nat
  | node _ _ _ children => (children.map height).foldr max 0 + 1

/-- The subtrees, each before those below it, from left to right. -/
def preorder : Derivation → List Derivation
  | node symbol choice chosen children =>
    node symbol choice chosen children :: children.flatMap preorder

/-- The picks that choose the alternatives of a tree, in preorder: for each node one among the
alternatives of its symbol. -/
def picks (table : Table) (tree : Derivation) : List Pick :=
  tree.preorder.map fun node => ⟨(table.alternatives node.root).length, node.choice⟩

/-- A tree that follows the productions of a table: every node has a symbol that is defined and one
of its alternatives, with a child for each reference of the alternative, in order. -/
inductive Of (table : Table) : Derivation → Prop where
  | node {symbol : Symbol} {choice : Nat} {chosen : Alternative} {children : List Derivation}
      {production : Production} (hget : table.get? symbol = some production)
      (hchoice : production.alternatives[choice]? = some chosen)
      (hroots : children.map root = chosen.references)
      (hchildren : ∀ child ∈ children, Of table child) :
      Of table (node symbol choice chosen children)

theorem picks_node (table : Table) (symbol : Symbol) (choice : Nat) (chosen : Alternative)
    (children : List Derivation) :
    (node symbol choice chosen children).picks table =
      ⟨(table.alternatives symbol).length, choice⟩ :: children.flatMap (picks table) := by
  rw [picks, preorder, List.map_cons, List.map_flatMap]
  rfl

theorem height_node_le_iff {symbol : Symbol} {choice depth : Nat} {chosen : Alternative}
    {children : List Derivation} :
    (node symbol choice chosen children).height ≤ depth + 1 ↔
      ∀ child ∈ children, child.height ≤ depth := by
  rw [height, Nat.add_le_add_iff_right]
  induction children with
  | nil => simp
  | cons child rest ih =>
    rw [List.map_cons, List.foldr_cons, Nat.max_le, ih, List.forall_mem_cons]

end Derivation

/-! ## Trees and runs -/

theorem fill_cons_of_reference? {segment : Segment} {symbol : Symbol}
    (h : segment.reference? = some symbol) (rest : List Segment) (text : Text)
    (texts : List Text) : fill (segment :: rest) (text :: texts) = text ++ fill rest texts := by
  cases segment with
  | literal piece => cases h
  | ref symbol => rfl
  | forced symbol => rfl

variable {σ : Type} {table : Table} {depth limit : Nat} {stack : List Symbol}

theorem Segment.expand_of_reference? {visit : Symbol → σ → Outcome σ} {segment : Segment}
    {symbol : Symbol} (h : segment.reference? = some symbol) :
    segment.expand visit = visit symbol := by
  cases segment with
  | literal piece => cases h
  | ref symbol' =>
    cases h
    rfl
  | forced symbol' =>
    cases h
    rfl

/-- A run that walks a tree and gives its text. -/
structure Walks (table : Table) (depth : Nat) (run : Outcome σ) (tree : Derivation) : Prop where
  derivation : tree.Of table
  height : tree.height ≤ depth
  result : run.result = .ok tree.yield
  picks : run.steps.map TraceStep.pick = tree.picks table

/-- A run that walks one tree for each reference of some segments, and gives the text of the
segments with those of the trees filled in. -/
structure WalksAll (table : Table) (depth : Nat) (run : Outcome σ) (segments : List Segment)
    (children : List Derivation) : Prop where
  derivation : ∀ child ∈ children, child.Of table
  height : ∀ child ∈ children, child.height ≤ depth
  roots : children.map Derivation.root = segments.filterMap Segment.reference?
  result : run.result = .ok (fill segments (children.map Derivation.yield))
  picks : run.steps.map TraceStep.pick = children.flatMap (Derivation.picks table)

section WalksAll

variable {visit : Symbol → σ → Outcome σ} {rest : List Segment} {source : σ}
  {children : List Derivation}

theorem walksAll_nil : WalksAll table depth (expandSegments visit [] source) [] [] :=
  ⟨by simp, by simp, rfl, rfl, rfl⟩

theorem WalksAll.literal (text : Text)
    (h : WalksAll table depth (expandSegments visit rest source) rest children) :
    WalksAll table depth (expandSegments visit (.literal text :: rest) source)
      (.literal text :: rest) children := by
  have hrun : expandSegments visit (.literal text :: rest) source =
      ⟨(expandSegments visit rest source).result.map (text ++ ·),
        (expandSegments visit rest source).steps, (expandSegments visit rest source).source⟩ := rfl
  refine ⟨h.derivation, h.height, h.roots, ?_, ?_⟩
  · rw [hrun, h.result]
    rfl
  · rw [hrun]
    exact h.picks

theorem WalksAll.reference {segment : Segment} {symbol : Symbol} {child : Derivation}
    (hsegment : segment.reference? = some symbol) (hroot : child.root = symbol)
    (hchild : Walks table depth (visit symbol source) child)
    (hrest : WalksAll table depth (expandSegments visit rest (visit symbol source).source) rest
      children) :
    WalksAll table depth (expandSegments visit (segment :: rest) source) (segment :: rest)
      (child :: children) := by
  have hrun : expandSegments visit (segment :: rest) source =
      (visit symbol source).andThen (expandSegments visit rest) := by
    rw [expandSegments_cons, Segment.expand_of_reference? hsegment]
  refine ⟨List.forall_mem_cons.2 ⟨hchild.derivation, hrest.derivation⟩,
    List.forall_mem_cons.2 ⟨hchild.height, hrest.height⟩, ?_, ?_, ?_⟩
  · rw [List.map_cons, hroot, List.filterMap_cons_some hsegment, hrest.roots]
  · rw [hrun, List.map_cons, fill_cons_of_reference? hsegment]
    simp only [Outcome.andThen, hchild.result, hrest.result]
    rfl
  · rw [hrun, List.flatMap_cons, ← hchild.picks, ← hrest.picks]
    simp only [Outcome.andThen, hchild.result, List.map_append]

theorem WalksAll.node {run : Outcome σ} {symbol : Symbol} {choice : Nat} {chosen : Alternative}
    {production : Production} (h : WalksAll table depth run chosen.segments children)
    (hget : table.get? symbol = some production)
    (hchoice : production.alternatives[choice]? = some chosen) :
    Walks table (depth + 1) (.after ⟨stack.length, symbol, choice, production.size⟩ run)
      (.node symbol choice chosen children) := by
  refine ⟨.node hget hchoice h.roots h.derivation, Derivation.height_node_le_iff.2 h.height, ?_, ?_⟩
  · rw [Derivation.yield]
    exact h.result
  · rw [Derivation.picks_node, Table.alternatives_of_get? hget, ← h.picks]
    rfl

/-- A run over segments that succeeds walks a tree for each reference, if the runs for the
references do. -/
theorem exists_walksAll
    (hvisit : ∀ symbol source text, (visit symbol source).result = .ok text →
      ∃ tree, tree.root = symbol ∧ Walks table depth (visit symbol source) tree)
    {segments : List Segment} {text : Text}
    (h : (expandSegments visit segments source).result = .ok text) :
    ∃ children, WalksAll table depth (expandSegments visit segments source) segments children := by
  induction segments generalizing source text with
  | nil => exact ⟨[], walksAll_nil⟩
  | cons segment rest ih =>
    rw [expandSegments_cons] at h
    obtain ⟨before, after, -, hfirst, hrest⟩ := Outcome.andThen_result_eq_ok.1 h
    cases hsegment : segment.reference? with
    | none =>
      cases segment with
      | literal piece =>
        obtain ⟨children, hchildren⟩ := ih hrest
        exact ⟨children, hchildren.literal piece⟩
      | ref symbol => cases hsegment
      | forced symbol => cases hsegment
    | some symbol =>
      rw [Segment.expand_of_reference? hsegment] at hfirst hrest
      obtain ⟨child, hroot, hchild⟩ := hvisit symbol source before hfirst
      obtain ⟨children, hchildren⟩ := ih hrest
      exact ⟨child :: children, .reference hsegment hroot hchild hchildren⟩

/-- A run over segments walks given trees, if its source gives their answers one after the other. -/
theorem walksAll_of_replies [RandomSource σ] (visit : Symbol → σ → Outcome σ)
    {segments : List Segment} {last : σ}
    (hroots : children.map Derivation.root = segments.filterMap Segment.reference?)
    (hchildren : ∀ child ∈ children, ∀ source last, Replies source (child.picks table) last →
      Walks table depth (visit child.root source) child ∧ (visit child.root source).source = last)
    (hreplies : Replies source (children.flatMap (Derivation.picks table)) last) :
    WalksAll table depth (expandSegments visit segments source) segments children ∧
      (expandSegments visit segments source).source = last := by
  induction segments generalizing children source with
  | nil =>
    obtain rfl : children = [] := List.map_eq_nil_iff.1 hroots
    exact ⟨walksAll_nil, hreplies⟩
  | cons segment rest ih =>
    cases hsegment : segment.reference? with
    | none =>
      cases segment with
      | literal piece =>
        obtain ⟨hwalks, hlast⟩ := ih hroots hchildren hreplies
        exact ⟨hwalks.literal piece, hlast⟩
      | ref symbol => cases hsegment
      | forced symbol => cases hsegment
    | some symbol =>
      rw [List.filterMap_cons_some hsegment] at hroots
      cases children with
      | nil => cases hroots
      | cons child children =>
        obtain ⟨hroot, hroots⟩ := List.cons.inj hroots
        obtain ⟨hfirst, hothers⟩ := List.forall_mem_cons.1 hchildren
        rw [List.flatMap_cons, replies_append] at hreplies
        obtain ⟨middle, hmiddle, hreplies⟩ := hreplies
        obtain ⟨hchild, hsource⟩ := hfirst source middle hmiddle
        rw [hroot] at hchild hsource
        rw [← hsource] at hreplies
        obtain ⟨hwalks, hlast⟩ := ih hroots hothers hreplies
        refine ⟨.reference hsegment hroot hchild hwalks, ?_⟩
        rw [expandSegments_cons, Segment.expand_of_reference? hsegment]
        simp only [Outcome.andThen, hchild.result]
        exact hlast

end WalksAll

/-- A call that succeeds walks a tree. -/
theorem Table.Call.exists_walks [RandomSource σ] {left : Nat} {symbol : Symbol} {source : σ}
    {run : Outcome σ} (h : table.Call limit left stack symbol source run) {text : Text}
    (htext : run.result = .ok text) : ∃ tree, tree.root = symbol ∧ Walks table left run tree := by
  induction h generalizing text with
  | undefined => cases htext
  | full => cases htext
  | outOfRange => cases htext
  | @chosen stack symbol _ next _ choice a left hget _ hchoice _ ih =>
    have hinner : (expandSegments (table.visit limit left (stack ++ [symbol])) a.segments
      next).result = .ok text := htext
    obtain ⟨children, hchildren⟩ := exists_walksAll (fun symbol' source' _ => ih symbol' source')
      hinner
    exact ⟨.node symbol choice a children, rfl, hchildren.node hget hchoice⟩

/-- Every tree of a table is walked by a run whose source gives its answers. -/
theorem Derivation.Of.walks [RandomSource σ] {tree : Derivation} (h : tree.Of table) (limit : Nat)
    {left : Nat} (hheight : tree.height ≤ left) (stack : List Symbol) {source last : σ}
    (hreplies : Replies source (tree.picks table) last) :
    Walks table left (table.visit limit left stack tree.root source) tree ∧
      (table.visit limit left stack tree.root source).source = last := by
  induction h generalizing left stack source last with
  | @node symbol choice chosen children production hget hchoice hroots _ ih =>
    cases left with
    | zero =>
      rw [height] at hheight
      cases hheight
    | succ left =>
      rw [picks_node, Table.alternatives_of_get? hget] at hreplies
      obtain ⟨next, hpick, hrest⟩ := hreplies
      obtain ⟨hwalks, hlast⟩ := walksAll_of_replies
        (table.visit limit left (stack ++ [symbol])) hroots
        (fun child hchild _ _ => ih child hchild (height_node_le_iff.1 hheight child hchild) _)
        hrest
      rw [root, (Table.Call.chosen left hget hpick hchoice fun _ _ => table.call_visit ..).visit_eq]
      exact ⟨hwalks.node hget hchoice, hlast⟩

namespace Derivation

theorem Of.choice_lt {tree : Derivation} (h : tree.Of table) :
    ∀ asked ∈ tree.picks table, asked.choice < asked.length := by
  induction h with
  | @node symbol choice chosen children production hget hchoice _ _ ih =>
    rw [picks_node, List.forall_mem_cons]
    constructor
    · rw [Table.alternatives_of_get? hget]
      exact (List.getElem?_eq_some_iff.1 hchoice).1
    · intro asked hasked
      obtain ⟨child, hchild, hmem⟩ := List.mem_flatMap.1 hasked
      exact ih child hchild asked hmem

end Derivation

/-! ## The result -/

namespace Table

/-- Expansion is sound and complete: some source in range lets an expander give a text if and only
if a derivation tree of the table with the symbol at its root derives the text, and no path in it is
longer than the limit. In a run that succeeds the source is asked once for each node of such a tree,
in preorder, each time for one of the alternatives of its symbol. -/
theorem expand_iff_derivation (table : Table) (limit : Nat) (symbol : Symbol) (text : Text) :
    ((∃ (σ : Type) (_ : RandomSource σ) (_ : LawfulRandomSource σ) (source : σ),
        ((Expander.new table limit).expand symbol source).1 = .ok text) ↔
      ∃ tree : Derivation, tree.Of table ∧ tree.root = symbol ∧ tree.yield = text ∧
        tree.height ≤ limit) ∧
    ∀ (σ : Type) [RandomSource σ] [LawfulRandomSource σ] (source : σ),
      ((Expander.new table limit).expand symbol source).1 = .ok text →
        ∃ tree : Derivation, tree.Of table ∧ tree.root = symbol ∧ tree.yield = text ∧
          tree.height ≤ limit ∧
          ((Expander.new table limit).expand symbol (Journal.start source)).2.2 =
            ⟨((Expander.new table limit).expand symbol source).2.2,
              tree.preorder.map fun node =>
                ⟨(table.alternatives node.root).length, node.choice⟩⟩ := by
  have hsound : ∀ (σ : Type) [RandomSource σ] (source : σ),
      (table.expand limit symbol source).result = .ok text →
        ∃ tree : Derivation, tree.Of table ∧ tree.root = symbol ∧ tree.yield = text ∧
          tree.height ≤ limit ∧
          (table.expand limit symbol (Journal.start source)).source =
            ⟨(table.expand limit symbol source).source, tree.picks table⟩ := by
    intro σ _ source h
    obtain ⟨tree, hroot, hwalks⟩ := (table.call_visit limit limit [] symbol source).exists_walks h
    refine ⟨tree, hwalks.derivation, hroot, ?_, hwalks.height, ?_⟩
    · exact Except.ok.inj (hwalks.result.symm.trans h)
    · rw [expand_journal]
      exact congrArg (Journal.mk _) hwalks.picks
  refine ⟨⟨?_, ?_⟩, fun σ _ _ source h => hsound σ source h⟩
  · rintro ⟨σ, _, _, source, h⟩
    obtain ⟨tree, hof, hroot, hyield, hheight, -⟩ := hsound σ source h
    exact ⟨tree, hof, hroot, hyield, hheight⟩
  · rintro ⟨tree, hof, rfl, rfl, hheight⟩
    have hreplies := Script.replies_resume hof.choice_lt [] []
    obtain ⟨hwalks, -⟩ := hof.walks limit hheight [] hreplies
    exact ⟨Script, inferInstance, inferInstance, _, hwalks.result⟩

/-- A symbol that refers to itself and leaves one reference open. -/
def commaList : Table :=
  let list := Symbol.ofIdentifier "list".toList
  { rows := [(.start, ⟨[⟨[.forced list, .literal ['.']]⟩]⟩),
      (list, ⟨[⟨[.literal ['a']]⟩, ⟨[.literal ['b', ','], .ref list]⟩,
        ⟨[.ref (.ofIdentifier "gone".toList)]⟩]⟩)]
    forced := [.start] }

theorem commaList_derivation :
    ((Expander.new commaList 4).expand .start (Script.ofList [0, 1, 1, 0])).1 =
        .ok "b,b,a.".toList ∧
      ∃ tree : Derivation, tree.Of commaList ∧ tree.root = .start ∧
        tree.yield = "b,b,a.".toList ∧ tree.height ≤ 4 ∧
        ((Expander.new commaList 4).expand .start
            (Journal.start (Script.ofList [0, 1, 1, 0]))).2.2 =
          ⟨((Expander.new commaList 4).expand .start (Script.ofList [0, 1, 1, 0])).2.2,
            tree.preorder.map fun node =>
              ⟨(commaList.alternatives node.root).length, node.choice⟩⟩ := by
  have h : ((Expander.new commaList 4).expand .start (Script.ofList [0, 1, 1, 0])).1 =
      .ok "b,b,a.".toList := by decide +kernel
  exact ⟨h, (expand_iff_derivation commaList 4 .start _).2 _ _ h⟩

end Table

end TextGrammar
