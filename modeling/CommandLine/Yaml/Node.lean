import CommandLine.Table
import CommandLine.Yaml.Kind
import CommandLine.Yaml.Token.Lexer

/-!
Nodes: the tree of a YAML document. Sequences and mappings are numbered, and an alias for one is a
link to its number, which may be the number of a node around it; an alias for a scalar is that
scalar.
-/

set_option autoImplicit false

namespace CommandLine.Yaml

inductive Node
  | scalar (kind : Kind) (text : List Char)
  | sequence (number : Nat) (kind : Kind) (items : List Node)
  | mapping (number : Nat) (kind : Kind) (members : List (Node × Node))
  | link (number : Nat)

namespace Node

/-- A node that is not written. -/
def empty : Node := .scalar .null []

/-- What is known in the midst of a document: the tokens to come, what anchors stand for, the stems
of the handles of tags, and the number for the next sequence or mapping. -/
structure State where
  tokens : List Token
  anchors : Table (List Char) Node
  handles : Table (List Char) (List Char)
  next : Nat

abbrev Reading := StateT State (Except Error)

def malformed {α : Type} : Reading α := throw .malformed

/-- The next token. -/
def peek : Reading (Option Token) := return (← get).tokens.head?

def advance : Reading Unit := modify fun state ↦ { state with tokens := state.tokens.drop 1 }

/-- Takes the next token, which must be the given one. -/
def expect (token : Token) : Reading Unit := do
  if (← peek) = some token then advance else malformed

/-- A number for a sequence or mapping. -/
def fresh : Reading Nat :=
  modifyGet fun state ↦ (state.next, { state with next := state.next + 1 })

/-- What is written in front of a node. -/
structure Properties where
  anchor : Option (List Char)
  tag : Option (List Char)

namespace Properties

def bare : Properties := ⟨none, none⟩

def isBare (properties : Properties) : Bool :=
  properties.anchor.isNone && properties.tag.isNone

/-- No tag is written, or the one that says nothing. -/
def isUntagged (properties : Properties) : Bool :=
  properties.tag.isNone || properties.tag == some ['!']

/-- The kind of a sequence or mapping. -/
def kind (properties : Properties) (untagged : Kind) : Kind :=
  match properties.tag with
  | some tag => if tag = ['!'] then untagged else .ofTag tag
  | none => untagged

/-- The kind of a scalar. The tag that says nothing makes a quoted scalar count as a plain one. -/
def scalarKind (properties : Properties) (plain : Bool) (text : List Char) : Kind :=
  match properties.tag with
  | some tag => if tag = ['!'] then .ofPlain text else .ofTag tag
  | none => if plain then .ofPlain text else .text

end Properties

/-- A tag with its handle written out. -/
def wholeTag (handle : Option (List Char)) (suffix : List Char) : Reading (List Char) := do
  match handle with
  | none => return suffix
  | some handle =>
    match (← get).handles.get? handle with
    | some stem => return stem ++ suffix
    | none => malformed

/-- The anchor that may be ahead. -/
def anchor? : Reading (Option (List Char)) := do
  match ← peek with
  | some (.anchor name) => advance; return some name
  | _ => return none

/-- The tag that may be ahead. -/
def tag? : Reading (Option (List Char)) := do
  match ← peek with
  | some (.tag handle suffix) => advance; return some (← wholeTag handle suffix)
  | _ => return none

/-- The properties that are ahead, in either order. -/
def properties : Reading Properties := do
  match ← anchor? with
  | some anchor => return ⟨some anchor, ← tag?⟩
  | none =>
    match ← tag? with
    | some tag => return ⟨← anchor?, some tag⟩
    | none => return .bare

/-- Lets an anchor, which must be new, stand for a node. -/
def bind (anchor : Option (List Char)) (node : Node) : Reading Unit := do
  match anchor with
  | none => return
  | some name =>
    if ((← get).anchors.get? name).isSome then malformed
    else modify fun state ↦ { state with anchors := state.anchors.put name node }

/-- A scalar with its properties. -/
def takeScalar (properties : Properties) (plain : Bool) (text : List Char) : Reading Node := do
  let node := Node.scalar (properties.scalarKind plain text) text
  bind properties.anchor node
  return node

/-- No node is written in front of this token. -/
def isOneOf (tokens : List Token) : Option Token → Bool
  | some token => tokens.contains token
  | none => false

mutual

/-- The node that is ahead. Outside of brackets it may be a block, and where `indentless` is set,
entries that are not indented. -/
def node (fuel : Nat) (block indentless : Bool) : Reading Node := do
  match fuel with
  | 0 => malformed
  | fuel + 1 =>
    match ← peek with
    | some (.alias name) =>
      advance
      match (← get).anchors.get? name with
      | some node => return node
      | none => malformed
    | _ =>
      let properties ← properties
      match ← peek with
      | some (.scalar plain text) => advance; takeScalar properties plain text
      | some .openSequence =>
        advance
        sequence properties (flowItems fuel true)
      | some .openMapping =>
        advance
        mapping properties (flowMembers fuel true)
      | some .blockSequence =>
        if block then
          advance
          sequence properties (blockItems fuel)
        else absent properties
      | some .blockMapping =>
        if block then
          advance
          mapping properties (blockMembers fuel)
        else absent properties
      | some .blockEntry =>
        if indentless then sequence properties (indentlessItems fuel) else absent properties
      | _ => absent properties
where
  /-- A node of which only properties are written. -/
  absent (properties : Properties) : Reading Node :=
    if properties.isBare then malformed else takeScalar properties properties.isUntagged []
  sequence (properties : Properties) (items : Reading (List Node)) : Reading Node := do
    let number ← fresh
    bind properties.anchor (.link number)
    return .sequence number (properties.kind .sequence) (← items)
  mapping (properties : Properties) (members : Reading (List (Node × Node))) : Reading Node := do
    let number ← fresh
    bind properties.anchor (.link number)
    return .mapping number (properties.kind .mapping) (← members)

/-- The node that is ahead, or the empty one where one of the tokens `ends` follows. -/
def nodeUnless (fuel : Nat) (ends : List Token) (block indentless : Bool) : Reading Node := do
  match fuel with
  | 0 => malformed
  | fuel + 1 => if isOneOf ends (← peek) then return empty else node fuel block indentless

/-- The items of an indented block. -/
def blockItems (fuel : Nat) : Reading (List Node) := do
  match fuel with
  | 0 => malformed
  | fuel + 1 =>
    match ← peek with
    | some .blockEntry =>
      advance
      let item ← nodeUnless fuel [.blockEntry, .blockEnd] true false
      return item :: (← blockItems fuel)
    | _ => expect .blockEnd; return []

/-- The items of entries that are not indented. -/
def indentlessItems (fuel : Nat) : Reading (List Node) := do
  match fuel with
  | 0 => malformed
  | fuel + 1 =>
    match ← peek with
    | some .blockEntry =>
      advance
      let item ← nodeUnless fuel [.blockEntry, .key, .value, .blockEnd] true false
      return item :: (← indentlessItems fuel)
    | _ => return []

/-- The members of an indented block. -/
def blockMembers (fuel : Nat) : Reading (List (Node × Node)) := do
  match fuel with
  | 0 => malformed
  | fuel + 1 =>
    let ends := [Token.key, .value, .blockEnd]
    match ← peek with
    | some .key =>
      advance
      let key ← nodeUnless fuel ends true true
      let value ← valueAfter fuel ends
      return (key, value) :: (← blockMembers fuel)
    | _ => expect .blockEnd; return []

/-- The value behind a key of a block, which may be left out with its sign. -/
def valueAfter (fuel : Nat) (ends : List Token) : Reading Node := do
  match fuel with
  | 0 => malformed
  | fuel + 1 =>
    if (← peek) = some .value then
      advance
      nodeUnless fuel ends true true
    else return empty

/-- The value behind a key in brackets. -/
def flowValue (fuel : Nat) (ends : List Token) : Reading Node := do
  match fuel with
  | 0 => malformed
  | fuel + 1 =>
    if (← peek) = some .value then
      advance
      nodeUnless fuel ends false false
    else return empty

/-- The items up to a closing bracket. An item with a key is a mapping of that key alone. -/
def flowItems (fuel : Nat) (first : Bool) : Reading (List Node) := do
  match fuel with
  | 0 => malformed
  | fuel + 1 =>
    if (← peek) = some .closeSequence then
      advance
      return []
    if !first then expect .comma
    match ← peek with
    | some .closeSequence => advance; return []
    | some .key =>
      advance
      let number ← fresh
      let key ← nodeUnless fuel [.value, .comma, .closeSequence] false false
      let value ← flowValue fuel [.comma, .closeSequence]
      return .mapping number .mapping [(key, value)] :: (← flowItems fuel false)
    | _ =>
      let item ← node fuel false false
      return item :: (← flowItems fuel false)

/-- The members up to a closing bracket. One without a key sign has no value. -/
def flowMembers (fuel : Nat) (first : Bool) : Reading (List (Node × Node)) := do
  match fuel with
  | 0 => malformed
  | fuel + 1 =>
    if (← peek) = some .closeMapping then
      advance
      return []
    if !first then expect .comma
    match ← peek with
    | some .closeMapping => advance; return []
    | some .key =>
      advance
      let key ← nodeUnless fuel [.value, .comma, .closeMapping] false false
      let value ← flowValue fuel [.comma, .closeMapping]
      return (key, value) :: (← flowMembers fuel false)
    | _ =>
      let key ← node fuel false false
      return (key, empty) :: (← flowMembers fuel false)

end

/-! ### Documents -/

/-- The stems of the handles that need no directive. -/
def commonHandles : Table (List Char) (List Char) :=
  [(['!'], ['!']), (['!', '!'], Kind.stem)]

/-- Takes the directives that are ahead. Each may be given once. -/
def directives (versioned : Bool) (handles : Table (List Char) (List Char)) :
    List Token → Except Error (Table (List Char) (List Char) × List Token)
  | .directive (.version major) :: rest =>
    if versioned || major != 1 then .error .malformed else directives true handles rest
  | .directive (.handle name stem) :: rest =>
    if (handles.get? name).isSome then .error .malformed
    else directives versioned (handles.put name stem) rest
  | .directive .other :: rest => directives versioned handles rest
  | tokens =>
    .ok (commonHandles.foldl
      (fun handles (name, stem) ↦
        if (handles.get? name).isSome then handles else handles.put name stem) handles, tokens)

/-- A token at which a document without content ends. -/
def endsDocument : Option Token → Bool
  | none | some .documentStart | some .documentEnd | some (.directive _) => true
  | _ => false

/-- The root of a document whose tokens are the given ones, up to the end of the text. -/
def root (handles : Table (List Char) (List Char)) (mayBeEmpty : Bool) (tokens : List Token) :
    Except Error Node := do
  if mayBeEmpty && endsDocument tokens.head? && tokens.all (· = .documentEnd) then return empty
  let (node, state) ← (node (4 * tokens.length + 4) true false).run ⟨tokens, [], handles, 0⟩
  if state.tokens.all (· = .documentEnd) then return node else throw .malformed

/-- The root of the only document of a text, if there is one. -/
def ofTokens (tokens : List Token) : Except Error (Option Node) :=
  match tokens with
  | [] => .ok none
  | .directive _ :: _ | .documentStart :: _ => do
    match ← directives false [] tokens with
    | (handles, .documentStart :: rest) => return some (← root handles true rest)
    | _ => throw .malformed
  | tokens => do return some (← root commonHandles false tokens)

def ofText (text : List Char) : Except Error (Option Node) := do ofTokens (← Token.ofText text)

end Node

end CommandLine.Yaml
