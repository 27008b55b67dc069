import TextGrammar.Ron.Scalar

/-!
# Values of RON documents

A document may name extensions in front of its value. A value whose field nobody knows is read and
forgotten, which only takes to find its end.
-/

namespace TextGrammar.Ron

/-! ## Extensions -/

/-- The extension that lets a value stand for `Some` of it. -/
def implicitSome : Text :=
  "implicit_some".toList

/-- The extensions a document may name. -/
def extensions : List Text :=
  [implicitSome, "unwrap_newtypes".toList, "unwrap_variant_newtypes".toList]

/-- Reads names of extensions with commas between them, of which one may follow the last. -/
def extensionNames : Nat → Reader (List Text)
  | 0 => failure
  | fuel + 1 => do
    let name ← identifier
    unless name ∈ extensions do failure
    let more ← comma
    if ((← get).head?.any isNameChar) then
      unless more do failure
      return name :: (← extensionNames fuel)
    return [name]

/-- Takes tokens with layout behind each of them. -/
def takeAll : List Text → Reader Unit
  | [] => return
  | token :: rest => do
    take token
    gap
    takeAll rest

/-- Reads the attributes `#![enable(…)]` that a document begins with. -/
def attributes : Nat → Reader (List Text)
  | 0 => return []
  | fuel + 1 => do
    gap
    if (← get).head? = some '#' then
      takeAll [['#'], ['!'], ['['], "enable".toList, ['(']]
      let names ← extensionNames (← get).length
      gap
      takeAll [[')'], [']']]
      return names ++ (← attributes fuel)
    return []

/-! ## Sequences -/

/-- Reads items with commas between them up to a closing delimiter; a comma may follow the last.
`ready` tells whether an item may come next. -/
def items {α : Type} (closing : Char) (item : α → Reader α) : Nat → Bool → α → Reader α
  | 0, _, _ => failure
  | fuel + 1, ready, a => do
    gap
    if (← peek) = closing then
      take [closing]
      return a
    unless ready do failure
    let a ← item a
    items closing item fuel (← comma) a

/-- Reads items behind an opening delimiter. -/
def itemsUpTo {α : Type} (closing : Char) (item : α → Reader α) (a : α) : Reader α := do
  items closing item ((← get).length + 1) true a

/-- Reads `None`, or `Some` of a value; under the extension also the value alone. -/
def option {α : Type} (implicit : Bool) (value : Reader α) : Reader (Option α) := do
  if ← take? "None".toList then
    return none
  if ← take? "Some".toList then
    gap
    if ← take? ['('] then
      gap
      let a ← value
      let _ ← comma
      take [')']
      return some a
  if implicit then
    return some (← value)
  failure

/-! ## Values that are forgotten -/

/-- Whether a field name with its colon comes next. -/
def meetsField : Reader Bool := fun text =>
  match (do let _ ← identifier; gap; take [':'] : Reader Unit) text with
  | some _ => some (true, text)
  | none => some (false, text)

/-- Passes over a key, a colon and a value. -/
def skipEntry (key value : Reader Unit) : Reader Unit := do
  key
  gap
  take [':']
  gap
  value

/-- Passes over the name of a field. Words such as `Some` and `inf` are names here. -/
def fieldName : Reader Unit := do
  let _ ← identifier

/-- Passes over what may follow the name of a structure: nothing, named fields, or items in
parentheses. -/
def skipBody (item : Option (Reader Unit)) : Reader Unit := do
  if ← take? ['('] then
    let some item := item | failure
    gap
    if ← meetsField then itemsUpTo ')' (fun _ => skipEntry fieldName item) ()
    else itemsUpTo ')' (fun _ => item) ()

/-- Takes the first of some words that comes next, and tells whether one did. -/
def takeWords? : List Text → Reader Bool
  | [] => return false
  | word :: rest => do
    if ← takeWord? word then return true
    takeWords? rest

/-- The words that stand for infinite numbers and for what is no number. -/
def specialNumbers : List Text :=
  ["inf".toList, "+inf".toList, "-inf".toList, "NaN".toList, "+NaN".toList, "-NaN".toList]

/-- Passes over a value. `content` passes over what `Some` holds, and `item` over the items of a
list, a map or a structure; without it no such group may come. -/
def skipLevel (implicit : Bool) (content : Reader Unit) (item : Option (Reader Unit)) :
    Reader Unit := do
  if ← takeWords? ["true".toList, "false".toList] then return
  if ← meetsWord "Some".toList then
    let _ ← option implicit content
    return
  if ← takeWords? ["None".toList] then return
  if ← take? ['(', ')'] then return
  if ← takeWords? specialNumbers then return
  if (← attempt identifier).isSome then
    gap
    skipBody item
    return
  match ← peek with
  | '(' => skipBody item
  | '[' =>
    let some item := item | failure
    take ['[']
    itemsUpTo ']' (fun _ => item) ()
  | '\x7b' =>
    let some item := item | failure
    take ['\x7b']
    itemsUpTo '\x7d' (fun _ => skipEntry item item) ()
  | '.' => fraction
  | '"' => let _ ← text
  | 'r' => let _ ← text
  | '\'' => character
  | c => if c.isDigit || c = '+' || c = '-' then number else failure

/-- Passes over a value with at most `levels` levels below it. What `Some` holds lies one level
below it. A list, a map or a structure takes up a level of its own, and its items lie below that. -/
def skipValue (implicit : Bool) : Nat → Text → Option (Unit × Text)
  | 0, text => skipLevel implicit failure none text
  | 1, text => skipLevel implicit (skipValue implicit 0) (some failure) text
  | levels + 2, text =>
    skipLevel implicit (skipValue implicit (levels + 1)) (some (skipValue implicit levels)) text

/-- How many levels a document may have. -/
def maxLevels : Nat :=
  128

end TextGrammar.Ron
