/-
Reading YAML texts: a text is taken apart into tokens, they are built into
a tree, and the tree stands for a settings document.

An anchor names the tree that follows it, from where that tree ends; until
then references to it stand for nothing. What is left out, such as the
value of a name that has none, is null.

Every call but the first takes a token off or is made at most twice for
one, which bounds the fuel.
-/
import Metrograph.Yaml.Lexer
import Metrograph.Yaml.Node
import Metrograph.Yaml.Token

namespace Metrograph.Yaml

-- ============================================================= anchors

/-- The trees that anchors name, in the order of the anchors. -/
abbrev Anchors := Array (String × Option Node)

namespace Anchors

/-- Takes the tree of an anchor in. -/
def complete (anchors : Anchors) (number : Nat) (node : Node) : Anchors :=
  anchors.modify number fun (name, _) => (name, some node)

/-- The tree that the last anchor of a name stands for. -/
def find? (anchors : Anchors) (name : String) : Option Node :=
  (anchors.findRev? fun (other, _) => other == name).map fun (_, node?) => node?.getD .invalid

end Anchors

/-- What stands before a tree. -/
structure Properties where
  /-- The number of its anchor. -/
  anchor? : Option Nat
  tag? : Option Tag

/-- What the reading of a tree comes to: the tree, the anchors so far and the
tokens after it. -/
structure Built where
  node : Node
  anchors : Anchors
  rest : List Token

/-- As `Built`, with some trees in a row. -/
structure BuiltList where
  nodes : List Node
  anchors : Anchors
  rest : List Token

namespace BuiltList

/-- Puts a tree in front. -/
def cons (node : Node) (b : BuiltList) : BuiltList := { b with nodes := node :: b.nodes }

end BuiltList

-- ================================================================ tags

/-- The tag of a handle and a suffix. A handle that is a word between two
exclamation marks has to be declared. -/
def resolveTag (handles : List (String × String)) (handle suffix : String) : Option Tag :=
  match handles.lookup handle with
  | some family => some ⟨family, suffix⟩
  | none =>
    if handle = "!!" then some ⟨Node.kinds, suffix⟩
    else if 2 ≤ handle.length then none
    else some ⟨handle, suffix⟩

/-- Takes the anchor and the tag before a tree off, in either order. -/
def properties (handles : List (String × String)) (anchors : Anchors) :
    List Token → Option (Properties × Anchors × List Token)
  | .anchor name :: .tag handle suffix :: rest => do
    let tag ← resolveTag handles handle suffix
    return (⟨some anchors.size, some tag⟩, anchors.push (name, none), rest)
  | .tag handle suffix :: .anchor name :: rest => do
    let tag ← resolveTag handles handle suffix
    return (⟨some anchors.size, some tag⟩, anchors.push (name, none), rest)
  | .anchor name :: rest => some (⟨some anchors.size, none⟩, anchors.push (name, none), rest)
  | .tag handle suffix :: rest => do
    return (⟨none, some (← resolveTag handles handle suffix)⟩, anchors, rest)
  | ts => some (⟨none, none⟩, anchors, ts)

-- =============================================================== trees

/-- Which trees may stand somewhere. -/
structure Room where
  /-- Blocks. -/
  block : Bool
  /-- A list that is not indented deeper than the table around it. -/
  flush : Bool

/-- In brackets. -/
def Room.flow : Room := ⟨false, false⟩

/-- Whether a value of a table is left out. -/
def endsMember : List Token → Bool
  | .name :: _ => true
  | .value :: _ => true
  | .blockEnd :: _ => true
  | _ => false

/-- Whether an entry of a list is left out. -/
def endsEntry (flush : Bool) : List Token → Bool
  | .blockEntry :: _ => true
  | .blockEnd :: _ => true
  | .name :: _ => flush
  | .value :: _ => flush
  | _ => false

/-- Whether the next token is a comma or closes brackets. -/
def endsFlow (close : Token) : List Token → Bool
  | t :: _ => t == .flowEntry || t == close
  | [] => false

section

variable (handles : List (String × String))

mutual

/-- Takes a tree off. -/
def node (room : Room) : (fuel : Nat) → Anchors → List Token → Option Built
  | 0, _, _ => none
  | _ + 1, anchors, .reference name :: rest => do
    let node ← anchors.find? name
    return ⟨node, anchors, rest⟩
  | fuel + 1, anchors, ts => do
    let (p, anchors, ts) ← properties handles anchors ts
    let b ← content room p fuel anchors ts
    match p.anchor? with
    | some number => return { b with anchors := b.anchors.complete number b.node }
    | none => return b

/-- Takes a tree off without what stands before it. With an anchor or a tag
before it, it may be left out. -/
def content (room : Room) (p : Properties) : (fuel : Nat) → Anchors → List Token → Option Built
  | 0, _, _ => none
  | fuel + 1, anchors, ts =>
    let list (b : BuiltList) : Built := ⟨.list b.nodes, b.anchors, b.rest⟩
    let table (b : BuiltList) : Option Built :=
      (Node.membersOf [] none b.nodes).map fun members => ⟨.table members, b.anchors, b.rest⟩
    let omitted : Option Built :=
      if p.anchor?.isSome || p.tag?.isSome then some ⟨.ofScalar true p.tag? "", anchors, ts⟩
      else none
    match ts with
    | .blockEntry :: _ =>
      if room.flush then (entries true fuel anchors ts).map list else omitted
    | .scalar plain s :: rest => some ⟨.ofScalar plain p.tag? s, anchors, rest⟩
    | .flowListStart :: rest => (flowItems true fuel anchors rest).map list
    | .flowTableStart :: rest => (flowMembers true fuel anchors rest).bind table
    | .blockListStart :: rest =>
      if room.block then (entries false fuel anchors rest).map list else omitted
    | .blockTableStart :: rest =>
      if room.block then (members fuel anchors rest).bind table else omitted
    | _ => omitted

/-- Takes a tree off, or nothing where it is left out. -/
def optional (omitted : Bool) (room : Room) : (fuel : Nat) → Anchors → List Token → Option Built
  | 0, _, _ => none
  | fuel + 1, anchors, ts =>
    if omitted then some ⟨.null, anchors, ts⟩ else node room fuel anchors ts

/-- Takes the entries of a list off, each after a dash, and the end of its
block unless it is flush with a table. -/
def entries (flush : Bool) : (fuel : Nat) → Anchors → List Token → Option BuiltList
  | 0, _, _ => none
  | fuel + 1, anchors, .blockEntry :: ts => do
    let b ← optional (endsEntry flush ts) ⟨true, false⟩ fuel anchors ts
    return (← entries flush fuel b.anchors b.rest).cons b.node
  | _ + 1, anchors, ts =>
    if flush then some ⟨[], anchors, ts⟩
    else match ts with
      | .blockEnd :: rest => some ⟨[], anchors, rest⟩
      | _ => none

/-- Takes the names and values of a table off, in turn, and the end of its
block. -/
def members : (fuel : Nat) → Anchors → List Token → Option BuiltList
  | 0, _, _ => none
  | _ + 1, anchors, .blockEnd :: rest => some ⟨[], anchors, rest⟩
  | fuel + 1, anchors, .name :: ts => do
    let b ← optional (endsMember ts) ⟨true, true⟩ fuel anchors ts
    return (← memberValue fuel b.anchors b.rest).cons b.node
  | fuel + 1, anchors, .value :: ts => do
    return (← memberValue fuel anchors (.value :: ts)).cons .null
  | _, _, _ => none

/-- Takes the value after a name off, and the members after it. -/
def memberValue : (fuel : Nat) → Anchors → List Token → Option BuiltList
  | 0, _, _ => none
  | fuel + 1, anchors, .value :: ts => do
    let b ← optional (endsMember ts) ⟨true, true⟩ fuel anchors ts
    return (← members fuel b.anchors b.rest).cons b.node
  | fuel + 1, anchors, ts => do return (← members fuel anchors ts).cons .null

/-- Takes the items of a list in brackets off, and the bracket that closes it.
A name written at length makes a table of itself and its value. -/
def flowItems (first : Bool) : (fuel : Nat) → Anchors → List Token → Option BuiltList
  | 0, _, _ => none
  | _ + 1, anchors, .flowListEnd :: rest => some ⟨[], anchors, rest⟩
  | fuel + 1, anchors, ts => do
    let ts ← match first, ts with
      | true, _ => some ts
      | false, .flowEntry :: rest => some rest
      | false, _ => none
    match ts with
    | .flowListEnd :: rest => return ⟨[], anchors, rest⟩
    | .name :: rest =>
      let b ← flowPair fuel anchors rest
      return (← flowItems false fuel b.anchors b.rest).cons b.node
    | _ =>
      let b ← node .flow fuel anchors ts
      return (← flowItems false fuel b.anchors b.rest).cons b.node

/-- Takes the name and the value of a table in a list in brackets off. Where
the name is left out, so is its first token. -/
def flowPair : (fuel : Nat) → Anchors → List Token → Option Built
  | 0, _, _ => none
  | fuel + 1, anchors, ts => do
    let omitted := endsFlow .flowListEnd ts || ts.head? == some .value
    let name ← optional omitted .flow fuel anchors (if omitted then ts.drop 1 else ts)
    let value ← match name.rest with
      | .value :: rest => optional (endsFlow .flowListEnd rest) .flow fuel name.anchors rest
      | rest => some ⟨.null, name.anchors, rest⟩
    let members ← Node.membersOf [] none [name.node, value.node]
    return { value with node := .table members }

/-- Takes the names and values of a table in brackets off, in turn, and the
bracket that closes it. -/
def flowMembers (first : Bool) : (fuel : Nat) → Anchors → List Token → Option BuiltList
  | 0, _, _ => none
  | _ + 1, anchors, .flowTableEnd :: rest => some ⟨[], anchors, rest⟩
  | fuel + 1, anchors, ts => do
    let ts ← match first, ts with
      | true, _ => some ts
      | false, .flowEntry :: rest => some rest
      | false, _ => none
    match ts with
    | .flowTableEnd :: rest => return ⟨[], anchors, rest⟩
    | .name :: rest =>
      let omitted := endsFlow .flowTableEnd rest || rest.head? == some .value
      let b ← optional omitted .flow fuel anchors rest
      return (← flowValue fuel b.anchors b.rest).cons b.node
    | .value :: _ => return (← flowValue fuel anchors ts).cons .null
    | _ =>
      let b ← node .flow fuel anchors ts
      return ((← flowMembers false fuel b.anchors b.rest).cons .null).cons b.node

/-- Takes the value after a name in a table in brackets off, and the members
after it. -/
def flowValue : (fuel : Nat) → Anchors → List Token → Option BuiltList
  | 0, _, _ => none
  | fuel + 1, anchors, .value :: ts => do
    let b ← optional (endsFlow .flowTableEnd ts) .flow fuel anchors ts
    return (← flowMembers false fuel b.anchors b.rest).cons b.node
  | fuel + 1, anchors, ts => do return (← flowMembers false fuel anchors ts).cons .null

end

end

-- =========================================================== documents

/-- What the directives before a document say about handles: the last one
counts, and a version may be said only once. -/
def directives (versioned : Bool) (handles : List (String × String)) :
    List Token → Option (List (String × String) × List Token)
  | .version :: rest => if versioned then none else directives true [] rest
  | .handle name text :: rest => directives versioned [(name, text)] rest
  | ts => some (handles, ts)

/-- Whether nothing stands between the mark of a document and its end. -/
def isOmitted : List Token → Bool
  | [] => true
  | .version :: _ => true
  | .handle _ _ :: _ => true
  | .documentStart :: _ => true
  | .documentEnd :: _ => true
  | _ => false

/-- The tree of the only document that some tokens hold, none if they hold no
document. -/
def Node.ofTokens (tokens : List Token) : Option (Option Node) :=
  match tokens.dropWhile (· == .documentEnd) with
  | [] => some none
  | ts => do
    let (handles, after) ← directives false [] ts
    let (marked, body) ← match after with
      | .documentStart :: rest => some (true, rest)
      | _ => if after.length = ts.length then some (false, after) else none
    let b ← optional handles (marked && isOmitted body) ⟨true, false⟩ (4 * body.length + 4) #[] body
    if b.rest.all (· == .documentEnd) then return some b.node else none

-- =============================================================== texts

/-- A text in which every end of a line is written the same way, up to the
character that ends a text early. -/
def uniform : List Char → List Char
  | [] => []
  | '\x00' :: _ => []
  | '\r' :: '\n' :: rest => '\n' :: uniform rest
  | '\r' :: rest => '\n' :: uniform rest
  | c :: rest => c :: uniform rest

/-- Reads a text that holds one document. A text without any stands for an
empty table. -/
def read (text : String) : Option Document := do
  match ← Node.ofTokens (← tokensOf (uniform text.toList)) with
  | none => return .table []
  | some node => node.document?

end Metrograph.Yaml
