import CommandLine.Text.Base64
import CommandLine.Yaml.Node
import CommandLine.Yaml.Number
import CommandLine.Yaml.Value

/-!
The values of nodes. Mappings first take in the members that are merged into them. Faults are found
level by level: one further out comes before those further in, and of those at one level the first
counts.
-/

set_option autoImplicit false

namespace CommandLine.Yaml

/-- An error, so many levels further in. -/
structure Fault where
  depth : Nat
  error : Error

abbrev Found (α : Type) := Except Fault α

namespace Found

def here {α : Type} : Except Error α → Found α
  | .ok value => .ok value
  | .error error => .error ⟨0, error⟩

/-- What was found one level further in. -/
def deeper {α : Type} : Found α → Found α
  | .ok value => .ok value
  | .error fault => .error ⟨fault.depth + 1, fault.error⟩

/-- Two findings together. -/
def both {α β γ : Type} (join : α → β → γ) : Found α → Found β → Found γ
  | .ok first, .ok second => .ok (join first second)
  | .ok _, .error fault | .error fault, .ok _ => .error fault
  | .error first, .error second => .error (if second.depth < first.depth then second else first)

def toExcept {α : Type} (found : Found α) : Except Error α :=
  match found with
  | .ok value => .ok value
  | .error fault => .error fault.error

end Found

namespace Node

/-! ### Collections by their numbers -/

mutual

/-- The sequences and mappings in a node, by their numbers. -/
def collections : Node → List (Nat × Node)
  | .sequence number kind items =>
    (number, .sequence number kind items) :: collectionsOfItems items
  | .mapping number kind members =>
    (number, .mapping number kind members) :: collectionsOfMembers members
  | .scalar .. | .link _ => []

def collectionsOfItems : List Node → List (Nat × Node)
  | [] => []
  | item :: rest => item.collections ++ collectionsOfItems rest

def collectionsOfMembers : List (Node × Node) → List (Nat × Node)
  | [] => []
  | (key, value) :: rest => key.collections ++ value.collections ++ collectionsOfMembers rest

end

mutual

/-- The numbers that links in a node lead to. -/
def links : Node → List Nat
  | .link number => [number]
  | .sequence _ _ items => linksOfItems items
  | .mapping _ _ members => linksOfMembers members
  | .scalar .. => []

def linksOfItems : List Node → List Nat
  | [] => []
  | item :: rest => item.links ++ linksOfItems rest

def linksOfMembers : List (Node × Node) → List Nat
  | [] => []
  | (key, value) :: rest => key.links ++ value.links ++ linksOfMembers rest

end

/-- What a link leads to. -/
def follow (collections : List (Nat × Node)) : Node → Node
  | link number => ((collections.find? (·.1 = number)).map (·.2)).getD (.link number)
  | node => node

/-! ### Merging -/

def isMerge : Node → Bool
  | scalar .merge _ | sequence _ .merge _ | mapping _ .merge _ => true
  | _ => false

/-- The members of a mapping, behind those that its merge keys bring in. A mapping that is being
merged brings in its own members alone. The fuel bounds the mappings merged one inside the other. -/
def merged (collections : List (Nat × Node)) (fuel : Nat) (outer : List Nat) (number : Nat)
    (members : List (Node × Node)) : Except Error (List (Node × Node)) := do
  let own := members.filter (!·.1.isMerge)
  match fuel with
  | 0 => return own
  | fuel + 1 =>
    if outer.contains number then return own
    else
      let ofMapping (node : Node) : Except Error (List (Node × Node)) :=
        match follow collections node with
        | .mapping inner _ members => merged collections fuel (number :: outer) inner members
        | _ => .error .malformed
      let brought ← (members.filter (·.1.isMerge)).mapM fun (_, source) ↦
        match follow collections source with
        | .sequence _ _ items => do return (← items.mapM ofMapping).reverse.flatten
        | node => ofMapping node
      return brought.flatten ++ own

/-! ### Scalars -/

/-- The text of a scalar, or of the one that stands for a mapping. -/
def scalarText? : Node → Option (List Char)
  | scalar _ text => some text
  | mapping _ _ members => ofMembers members
  | _ => none
where
  ofMembers : List (Node × Node) → Option (List Char)
    | [] => none
    | (.scalar .value _, value) :: _ => value.scalarText?
    | _ :: rest => ofMembers rest

def boolOf (text : List Char) : Except Error Bool :=
  match String.ofList (text.map Char.toLower) with
  | "yes" | "true" | "on" => .ok true
  | "no" | "false" | "off" => .ok false
  | word => .error (.noBool word.toList)

/-- The scalar of a kind that a text writes. -/
def scalarOf (kind : Kind) (text : List Char) : Except Error Scalar :=
  match kind with
  | .null => .ok .null
  | .bool => (boolOf text).map .bool
  | .int => (readInt text).map .int
  | .float => (readFloat text).map .float
  | .timestamp => (readMoment text).map .moment
  | .text => .ok (.text text)
  | .binary =>
    match Text.Base64.decode text with
    | some octets => .ok (.octets octets)
    | none => .error .malformed
  | _ => .error .malformed

/-! ### Values -/

/-- The key that a node writes. A collection is no key, and the sign for a value is one. -/
def keyOf : Node → Except Error Scalar
  | scalar .value text => .ok (.text text)
  | scalar kind text => scalarOf kind text
  | mapping _ kind members =>
    match kind, (mapping 0 kind members).scalarText? with
    | .mapping, _ | .set, _ | _, none => .error .malformed
    | kind, some text => scalarOf kind text
  | _ => .error .malformed

/-- A node of a kind that it cannot be of. Collections are filled, and so refused, one level in. -/
def misplaced (kind : Kind) : Found Value :=
  let refused := Found.here (.error .malformed)
  if kind.isCollection then Found.deeper refused else refused

/-- The value of a scalar's kind that a mapping writes. -/
def asScalar (kind : Kind) (node : Node) : Except Error Value :=
  match node.scalarText? with
  | some text => (scalarOf kind text).map .scalar
  | none => .error .malformed

/-- The only member of a mapping. -/
def onlyMember (collections : List (Nat × Node)) (node : Node) : Option (Node × Node) :=
  match follow collections node with
  | .mapping _ _ [member] => some member
  | _ => none

/-- The value of a node inside the collections with the numbers `outer`; one of these is a link. The
fuel bounds the collections one inside the other. -/
def valueOf (collections : List (Nat × Node)) (fuel : Nat) (outer : List Nat) (node : Node) :
    Found Value :=
  match fuel, node with
  | _, .scalar kind text =>
    if kind.isCollection then misplaced kind else Found.here ((scalarOf kind text).map .scalar)
  | _, .link number => .ok (.link number)
  | 0, .sequence number _ _ | 0, .mapping number _ _ => .ok (.link number)
  | fuel + 1, .sequence number kind items =>
    if outer.contains number then .ok (.link number)
    else
      let inner := valueOf collections fuel (number :: outer)
      match kind with
      | .sequence =>
        let values := items.foldr
          (fun item values ↦ Found.both List.cons (inner item) values) (.ok [])
        Found.deeper (values.map (.list number))
      | .orderedMap | .pairs =>
        let pairs := items.foldr
          (fun item pairs ↦
            Found.both List.cons
              (match onlyMember collections item with
                | some (key, value) => Found.both Prod.mk (inner key) (inner value)
                | none => Found.here (.error .malformed))
              pairs)
          (.ok [])
        Found.deeper (pairs.map (.pairs number))
      | kind => misplaced kind
  | fuel + 1, .mapping number kind members =>
    if outer.contains number then .ok (.link number)
    else
      let inner := valueOf collections fuel (number :: outer)
      let found : Found (List (Scalar × Value)) :=
        match merged collections (collections.length + 1) [] number members with
        | .error error => Found.here (.error error)
        | .ok members =>
          members.foldr
            (fun (key, value) values ↦
              Found.both List.cons
                (Found.both Prod.mk (Found.here key.keyOf) (inner value)) values)
            (.ok [])
      let distinct := found.map fun pairs ↦
        pairs.foldl (fun members member ↦ Value.put members member.1 member.2) []
      match kind with
      | .mapping => Found.deeper (distinct.map (.mapping number))
      | .set => Found.deeper (distinct.map fun members ↦ .set number (members.map (·.1)))
      | kind =>
        if kind.isCollection then misplaced kind
        else Found.here (asScalar kind (.mapping number kind members))

end Node

/-- The document of a text, with no document counting as null. -/
def Document.ofText (text : List Char) : Except Error Document := do
  match ← Node.ofText text with
  | none => return ⟨.scalar .null, []⟩
  | some node =>
    let nodes := node.collections
    let value (node : Node) := (node.valueOf nodes (nodes.length + 1) []).toExcept
    let collections := node.links.eraseDups.filterMap fun number ↦
      ((value (Node.follow nodes (.link number))).toOption).map fun value ↦ (number, value)
    return ⟨← value node, collections⟩

end CommandLine.Yaml
