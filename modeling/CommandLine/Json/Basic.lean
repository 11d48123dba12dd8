import CommandLine.Decimal.Text

/-!
JSON values. The members of an object keep the order in which their keys were first put, and the
items of an array and the members of an object are lists of their own, so that functions on values
recurse through them.
-/

set_option autoImplicit false

namespace CommandLine

mutual

inductive Json
  | null
  | bool (value : Bool)
  | int (value : Int)
  | float (value : Decimal.Binary64)
  | string (text : String)
  | array (items : Json.Items)
  | object (members : Json.Members)

inductive Json.Items
  | nil
  | cons (head : Json) (tail : Json.Items)

inductive Json.Members
  | nil
  | cons (key : String) (value : Json) (rest : Json.Members)

end

namespace Json

deriving instance DecidableEq for Json, Json.Items, Json.Members

/-! ### Items and members as lists -/

def Items.ofList : List Json → Items
  | [] => .nil
  | head :: tail => .cons head (ofList tail)

def Items.toList : Items → List Json
  | .nil => []
  | .cons head tail => head :: tail.toList

@[simp] theorem Items.toList_ofList (items : List Json) : (ofList items).toList = items := by
  induction items with
  | nil => rfl
  | cons head tail ih => simp [ofList, toList, ih]

theorem Items.ofList_toList (items : Items) : ofList items.toList = items := by
  match items with
  | .nil => rfl
  | .cons head tail => rw [toList, ofList, ofList_toList tail]

def Members.toList : Members → List (String × Json)
  | .nil => []
  | .cons key value rest => (key, value) :: rest.toList

def Members.ofList : List (String × Json) → Members
  | [] => .nil
  | (key, value) :: rest => .cons key value (ofList rest)

@[simp] theorem Members.toList_ofList (members : List (String × Json)) :
    (ofList members).toList = members := by
  induction members with
  | nil => rfl
  | cons head rest ih => simp [ofList, toList, ih]

theorem Members.ofList_toList (members : Members) : ofList members.toList = members := by
  match members with
  | .nil => rfl
  | .cons key value rest => rw [toList, ofList, ofList_toList rest]

namespace Members

def keys (members : Members) : List String := members.toList.map Prod.fst

/-- The value under a key. -/
def get? (key : String) : Members → Option Json
  | nil => none
  | cons k value rest => if k = key then some value else rest.get? key

/-- Puts a value under a key. A key that is there keeps its place. -/
def put (key : String) (value : Json) : Members → Members
  | nil => cons key value nil
  | cons k v rest => if k = key then cons k value rest else cons k v (rest.put key value)

/-- The members that satisfy a condition. -/
def filter (keep : String → Json → Bool) : Members → Members
  | nil => nil
  | cons key value rest =>
    if keep key value then cons key value (rest.filter keep) else rest.filter keep

@[simp] theorem get?_put (members : Members) (key other : String) (value : Json) :
    (members.put key value).get? other =
      if key = other then some value else members.get? other := by
  match members with
  | nil => rfl
  | cons k v rest =>
    by_cases hk : k = key
    · subst hk
      by_cases ho : k = other <;> simp [put, get?, ho]
    · by_cases ho : k = other
      · subst ho
        simp [put, get?, hk, Ne.symm hk]
      · simp [put, get?, hk, ho, get?_put rest]

/-- The keys after a put: the old ones in their order, and the key last if it is new. -/
theorem keys_put (members : Members) (key : String) (value : Json) :
    (members.put key value).keys =
      if key ∈ members.keys then members.keys else members.keys ++ [key] := by
  match members with
  | nil => simp [put, keys, toList]
  | cons k v rest =>
    have ih := keys_put rest key value
    simp only [keys] at ih ⊢
    by_cases hk : k = key
    · subst hk
      simp [put, toList]
    · by_cases hmem : key ∈ rest.toList.map Prod.fst
      · simp only [put, hk, if_false, toList, List.map_cons, ih, List.mem_cons, hmem, or_true,
          if_true]
      · simp only [put, hk, if_false, toList, List.map_cons, ih, List.mem_cons, Ne.symm hk, hmem,
          or_false, List.cons_append]

end Members

mutual

/-- Every object in the value has each key once. -/
def Distinct : Json → Prop
  | array items => items.Distinct
  | object members => members.keys.Nodup ∧ members.Distinct
  | _ => True

def Items.Distinct : Items → Prop
  | .nil => True
  | .cons head tail => head.Distinct ∧ tail.Distinct

def Members.Distinct : Members → Prop
  | .nil => True
  | .cons _ value rest => value.Distinct ∧ rest.Distinct

end

/-! ### Kinds of values -/

/-- The kind of a value. -/
inductive Kind
  | null
  | bool
  | int
  | float
  | string
  | array
  | object
  deriving DecidableEq, Repr

/-- The name of a kind in messages. -/
def Kind.name : Kind → String
  | null => "NoneType"
  | bool => "bool"
  | int => "int"
  | float => "float"
  | string => "str"
  | array => "list"
  | object => "dict"

def kind : Json → Kind
  | null => .null
  | bool _ => .bool
  | int _ => .int
  | float _ => .float
  | string _ => .string
  | array _ => .array
  | object _ => .object

theorem kind_eq_object_iff {value : Json} :
    value.kind = .object ↔ ∃ members, value = .object members := by
  cases value <;> simp [kind]

/-- A value that says nothing: null, false, zero, or empty. -/
def isBlank : Json → Bool
  | null | bool false | int 0 | array .nil | object .nil => true
  | float value => value.isZero
  | string text => text.isEmpty
  | _ => false

/-- An empty object. -/
def empty : Json := object .nil

end Json

end CommandLine
