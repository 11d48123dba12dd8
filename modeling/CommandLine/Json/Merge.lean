import CommandLine.Json.Access

/-!
Merging objects. The members of the second object are put into the first; where both hold an object
under a key, the two are merged in turn.
-/

set_option autoImplicit false

namespace CommandLine.Json

mutual

/-- Puts the members of another object over those of `base`. -/
def Members.merge (base : Members) : Members → Members
  | .nil => base
  | .cons key value rest => (base.put key (value.mergeOver (base.get? key))).merge rest

/-- A value that is put over what is there. -/
def mergeOver (old : Option Json) : Json → Json
  | object members =>
    match old with
    | some (object base) => object (base.merge members)
    | _ => object members
  | value => value

end

/-- Merges the second value into the first. Both have to be objects; only an empty object merges
into an array. -/
def merge (base other : Json) : Except AccessError Json :=
  match base, other with
  | object base, object other => .ok (object (base.merge other))
  | array items, object .nil => .ok (array items)
  | array _, object _ => .error .noKeys
  | object _, other | array _, other => .error (.noItems other.kind)
  | base, _ => .error (.noCopy base.kind)

@[simp] theorem Members.merge_nil (base : Members) : base.merge .nil = base := by
  simp [Members.merge]

end CommandLine.Json
