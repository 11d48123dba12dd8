import CommandLine.Proofs.Json.Faithful

/-!
Objects in layers. Merging a layer again changes nothing, and it does not matter which two of three
layers are merged first, except where the middle one has something other than an object between two
objects: then the objects are merged on one side, and only the last one is left on the other. The
order of the keys is the same on both sides in any case.
-/

set_option autoImplicit false

namespace CommandLine.Json

/-- What stands at the end of a path of keys. -/
def under? : Json → List String → Option Json
  | value, [] => some value
  | object members, key :: path => (members.get? key).bind fun value ↦ value.under? path
  | _, _ :: _ => none

/-- Something other than an object stands at the end of a path. -/
def EndsOtherwise (value : Json) (path : List String) : Prop :=
  ∃ other, value.under? path = some other ∧ other.kind ≠ .object

/-- At the end of a path stand an object in the first layer and one in the last, and something else
in the layer between them. -/
def Interrupts (first middle last : Json) (path : List String) : Prop :=
  (∃ members, first.under? path = some (.object members)) ∧ middle.EndsOtherwise path ∧
    ∃ members, last.under? path = some (.object members)

/-- Wherever the middle layer interrupts the others, the last one holds all that the first one has:
merged or not, the objects come to the same. -/
def Absorbs (first middle last : Json) : Prop :=
  ∀ path outer inner, first.under? path = some (object outer) → middle.EndsOtherwise path →
    last.under? path = some (object inner) → outer.merge inner = inner

theorem under?_cons_eq_some {value found : Json} {key : String} {path : List String}
    (h : value.under? (key :: path) = some found) :
    ∃ members inner, value = .object members ∧ members.get? key = some inner ∧
      inner.under? path = some found := by
  cases value with
  | object members =>
    rw [under?, Option.bind_eq_some_iff] at h
    obtain ⟨inner, hget, hunder⟩ := h
    exact ⟨members, inner, rfl, hget, hunder⟩
  | null | bool | int | float | string | array => cases h

theorem under?_cons {members : Members} {key : String} {value : Json}
    (hget : members.get? key = some value) (path : List String) :
    (object members).under? (key :: path) = value.under? path := by
  rw [under?, hget]
  rfl

/-! ### What stands under a key of two layers -/

/-- What stands under a key: what the upper layer has there, put over what the lower one has. -/
def layered (lower : Option Json) : Option Json → Option Json
  | none => lower
  | some value => some (value.mergeOver lower)

@[simp] theorem layered_none (lower : Option Json) : layered lower none = lower := rfl

theorem layered_object (base members : Members) :
    layered (some (object base)) (some (object members)) = some (object (base.merge members)) := by
  simp [layered, mergeOver]

/-- Over anything but an object a value stands as it is. -/
theorem layered_of_not_object {lower : Option Json} (h : ∀ members, lower ≠ some (object members))
    (value : Json) : layered lower (some value) = some value :=
  congrArg some (mergeOver_of_not_object h value)

@[simp] theorem none_layered (upper : Option Json) : layered none upper = upper := by
  cases upper with
  | none => rfl
  | some value => exact layered_of_not_object (by simp) value

/-- A value other than an object stands as it is. -/
theorem layered_of_kind_ne {value : Json} (h : value.kind ≠ .object) (lower : Option Json) :
    layered lower (some value) = some value := by
  cases value with
  | object members => exact absurd rfl h
  | null | bool | int | float | string | array => simp [layered, mergeOver]

theorem ne_some_object_of_kind_ne {value : Json} (h : value.kind ≠ .object) (members : Members) :
    some value ≠ some (object members) := by
  rintro ⟨⟩
  exact h rfl

/-- Three layers under one key. The order in which they are merged matters only between objects. -/
theorem layered_assoc_iff (first middle last : Option Json) :
    layered (layered first middle) last = layered first (layered middle last) ↔
      ∀ outer inner, first = some (object outer) → last = some (object inner) →
        (∀ between, middle = some (object between) →
          (outer.merge between).merge inner = outer.merge (between.merge inner)) ∧
        ∀ other, middle = some other → other.kind ≠ .object → outer.merge inner = inner := by
  rcases last with _ | last
  · simp
  rcases middle with _ | middle
  · simp
  by_cases hlast : last.kind = .object
  · obtain ⟨inner, rfl⟩ := kind_eq_object_iff.mp hlast
    by_cases hfirst : ∃ outer, first = some (object outer)
    · obtain ⟨outer, rfl⟩ := hfirst
      by_cases hmiddle : middle.kind = .object
      · obtain ⟨between, rfl⟩ := kind_eq_object_iff.mp hmiddle
        simp [layered_object, kind]
      · -- the last layer alone on one side, both objects merged on the other
        rw [layered_of_kind_ne hmiddle,
          layered_of_not_object (ne_some_object_of_kind_ne hmiddle), layered_object]
        have hne : ∀ between, middle ≠ object between := fun between h ↦ hmiddle (h ▸ rfl)
        simpa [hne, hmiddle] using eq_comm
    · have hnot : ∀ members, first ≠ some (object members) := fun members h ↦ hfirst ⟨members, h⟩
      rw [layered_of_not_object hnot middle]
      refine iff_of_true ?_ fun outer _ houter ↦ absurd houter (hnot outer)
      exact (layered_of_not_object hnot _).symm
  · refine iff_of_true ?_ fun _ inner _ hinner ↦
      absurd hinner (ne_some_object_of_kind_ne hlast inner)
    rw [layered_of_kind_ne hlast, layered_of_kind_ne hlast, layered_of_kind_ne hlast]

namespace Members

theorem sizeOf_of_get? {members : Members} {key : String} {value : Json}
    (h : members.get? key = some value) : sizeOf value < sizeOf members := by
  match members with
  | nil => cases h
  | cons k v rest =>
    rw [get?_cons] at h
    split at h
    · cases h
      simp only [cons.sizeOf_spec]
      omega
    · have hrest := sizeOf_of_get? h
      simp only [cons.sizeOf_spec]
      omega

/-- What holds of members if it holds of the objects under their keys holds of all members. -/
theorem induction_on_get? {holds : Members → Prop}
    (h : ∀ members, (∀ key inner, members.get? key = some (object inner) → holds inner) →
      holds members) (members : Members) : holds members := by
  refine h members fun key inner hget ↦ ?_
  have hless := sizeOf_of_get? hget
  exact induction_on_get? h inner
termination_by sizeOf members
decreasing_by
  simp only [object.sizeOf_spec] at hless
  omega

theorem distinct_of_get? {members : Members} (hmembers : (object members).Distinct) {key : String}
    {value : Json} (hget : members.get? key = some value) : value.Distinct :=
  (distinct_iff members).mp hmembers.2 _ (mem_toList_of_get? hget)

theorem get?_merge_eq_layered (base : Members) {members : Members} (hnodup : members.keys.Nodup)
    (key : String) :
    (base.merge members).get? key = layered (base.get? key) (members.get? key) := by
  rw [get?_merge base hnodup]
  cases members.get? key <;> rfl

/-- Merging members into themselves changes nothing. -/
theorem merge_self {members : Members} (hmembers : (object members).Distinct) :
    members.merge members = members := by
  induction members using induction_on_get? with
  | h members ih =>
    have hnodup : members.keys.Nodup := hmembers.1
    have hkeys : (members.merge members).keys = members.keys := by
      rw [keys_merge members hnodup]
      simp
    refine ext_get? (nodup_keys_merge hnodup members) hkeys fun key _ ↦ ?_
    rw [get?_merge_eq_layered members hnodup]
    cases hget : members.get? key with
    | none => rfl
    | some value =>
      by_cases hvalue : value.kind = .object
      · obtain ⟨inner, rfl⟩ := kind_eq_object_iff.mp hvalue
        rw [layered_object, ih key inner hget (distinct_of_get? hmembers hget)]
      · exact layered_of_kind_ne hvalue _

/-- The keys of three layers stand in the same order, whichever two are merged first. -/
theorem keys_merge_assoc {first middle last : Members} (hmiddle : middle.keys.Nodup)
    (hlast : last.keys.Nodup) :
    ((first.merge middle).merge last).keys = (first.merge (middle.merge last)).keys := by
  have hboth : (middle.merge last).keys.Nodup := nodup_keys_merge hmiddle last
  rw [keys_merge _ hlast, keys_merge _ hmiddle, keys_merge _ hboth, keys_merge _ hlast]
  simp only [List.filter_append, List.filter_filter, List.append_assoc, List.mem_append,
    List.mem_filter]
  congr 2
  refine List.filter_congr fun key _ ↦ ?_
  by_cases hfirst : key ∈ first.keys <;> simp [hfirst]

/-- Three layers come to the same, whichever two are merged first, exactly when they do so under
every key. -/
theorem merge_assoc_iff_layered {first middle last : Members} (hfirst : first.keys.Nodup)
    (hmiddle : middle.keys.Nodup) (hlast : last.keys.Nodup) :
    (first.merge middle).merge last = first.merge (middle.merge last) ↔
      ∀ key, layered (layered (first.get? key) (middle.get? key)) (last.get? key) =
        layered (first.get? key) (layered (middle.get? key) (last.get? key)) := by
  have hboth : (middle.merge last).keys.Nodup := nodup_keys_merge hmiddle last
  have hleft (key : String) : ((first.merge middle).merge last).get? key =
      layered (layered (first.get? key) (middle.get? key)) (last.get? key) := by
    rw [get?_merge_eq_layered _ hlast, get?_merge_eq_layered _ hmiddle]
  have hright (key : String) : (first.merge (middle.merge last)).get? key =
      layered (first.get? key) (layered (middle.get? key) (last.get? key)) := by
    rw [get?_merge_eq_layered _ hboth, get?_merge_eq_layered _ hlast]
  constructor
  · intro h key
    rw [← hleft, ← hright, h]
  · intro h
    have hnodup : ((first.merge middle).merge last).keys.Nodup :=
      nodup_keys_merge (nodup_keys_merge hfirst middle) last
    refine ext_get? hnodup (keys_merge_assoc hmiddle hlast) fun key _ ↦ ?_
    rw [hleft, hright, h]

/-- The paths from here on are those from each key on, and the key alone. -/
theorem absorbs_object_iff (first middle last : Members) :
    Absorbs (object first) (object middle) (object last) ↔
      ∀ key outer inner, first.get? key = some (object outer) →
        last.get? key = some (object inner) →
          (∀ between, middle.get? key = some (object between) →
            Absorbs (object outer) (object between) (object inner)) ∧
          ∀ other, middle.get? key = some other → other.kind ≠ .object →
            outer.merge inner = inner := by
  constructor
  · intro h key outer inner houter hinner
    refine ⟨fun between hbetween ↦ ?_, fun other hmiddle hother ↦ ?_⟩
    · rintro path deeper deepest hdeeper ⟨other, hfound, hother⟩ hdeepest
      refine h (key :: path) deeper deepest ?_ ⟨other, ?_, hother⟩ ?_
      · rwa [under?_cons houter]
      · rwa [under?_cons hbetween]
      · rwa [under?_cons hinner]
    · refine h [key] outer inner ?_ ⟨other, ?_, hother⟩ ?_
      · rw [under?_cons houter, under?]
      · rw [under?_cons hmiddle, under?]
      · rw [under?_cons hinner, under?]
  · rintro h path outer inner houter ⟨other, hfound, hother⟩ hinner
    cases path with
    | nil =>
      cases hfound
      exact absurd rfl hother
    | cons key path =>
      obtain ⟨_, outer', ⟨⟩, hfirst, houter⟩ := under?_cons_eq_some houter
      obtain ⟨_, other', ⟨⟩, hmiddle, hfound⟩ := under?_cons_eq_some hfound
      obtain ⟨_, inner', ⟨⟩, hlast, hinner⟩ := under?_cons_eq_some hinner
      cases path with
      | nil =>
        cases houter
        cases hfound
        cases hinner
        exact (h key outer inner hfirst hlast).2 other hmiddle hother
      | cons next path =>
        -- all three layers have objects under the first key
        obtain ⟨outermost, _, rfl, -⟩ := under?_cons_eq_some houter
        obtain ⟨between, _, rfl, -⟩ := under?_cons_eq_some hfound
        obtain ⟨innermost, _, rfl, -⟩ := under?_cons_eq_some hinner
        have habsorbs := (h key outermost innermost hfirst hlast).1 between hmiddle
        exact habsorbs (next :: path) outer inner houter ⟨other, hfound, hother⟩ hinner

/-- Exactly when it does not matter which two of three layers are merged first. -/
theorem merge_assoc_iff {first middle last : Members} (hfirst : (object first).Distinct)
    (hmiddle : (object middle).Distinct) (hlast : (object last).Distinct) :
    (first.merge middle).merge last = first.merge (middle.merge last) ↔
      Absorbs (object first) (object middle) (object last) := by
  induction first using induction_on_get? generalizing middle last with
  | h first ih =>
    rw [merge_assoc_iff_layered hfirst.1 hmiddle.1 hlast.1, absorbs_object_iff]
    simp only [layered_assoc_iff]
    refine forall_congr' fun key ↦ forall_congr' fun outer ↦ forall_congr' fun inner ↦ ?_
    refine imp_congr_right fun houter ↦ imp_congr_right fun hinner ↦ and_congr_left' ?_
    refine forall_congr' fun between ↦ imp_congr_right fun hbetween ↦ ?_
    exact ih key outer houter (distinct_of_get? hfirst houter) (distinct_of_get? hmiddle hbetween)
      (distinct_of_get? hlast hinner)

/-- What the middle layer has between two objects decides whether they are merged. -/
example :
    let first : Members := .ofList [("a", .object (.ofList [("x", .null)]))]
    let middle : Members := .ofList [("a", .null)]
    let last : Members := .ofList [("a", .object .nil)]
    (first.merge middle).merge last ≠ first.merge (middle.merge last) := by
  decide

/-- At a path where a layer has an object it has nothing else. -/
theorem not_endsOtherwise {value : Json} {path : List String} {inner : Members}
    (h : value.under? path = some (object inner)) : ¬value.EndsOtherwise path := by
  rintro ⟨other, hfound, hother⟩
  cases h.symm.trans hfound
  exact hother rfl

section Layers

variable {first middle last : Members} (hfirst : (object first).Distinct)
  (hmiddle : (object middle).Distinct)

include hfirst hmiddle

/-- The upper layer can be merged again. -/
theorem merge_merge_upper : (first.merge middle).merge middle = first.merge middle := by
  have hassoc : (first.merge middle).merge middle = first.merge (middle.merge middle) :=
    (merge_assoc_iff hfirst hmiddle hmiddle).mpr fun _ _ _ _ hother hinner ↦
      absurd hother (not_endsOtherwise hinner)
  rw [hassoc, merge_self hmiddle]

/-- The lower layer can be put underneath again. -/
theorem merge_merge_lower : first.merge (first.merge middle) = first.merge middle := by
  have hassoc : (first.merge first).merge middle = first.merge (first.merge middle) :=
    (merge_assoc_iff hfirst hfirst hmiddle).mpr fun _ _ _ houter hother _ ↦
      absurd hother (not_endsOtherwise houter)
  rw [← hassoc, merge_self hfirst]

/-- Objects in layers, with the order of their keys: a layer that is merged again changes nothing,
and it does not matter which two of three layers are merged first unless the middle one interrupts
the others at some path. -/
theorem merge_layers (hlast : (object last).Distinct) :
    (first.merge middle).merge middle = first.merge middle ∧
      first.merge (first.merge middle) = first.merge middle ∧
      ((∀ path, ¬Interrupts (object first) (object middle) (object last) path) →
        (first.merge middle).merge last = first.merge (middle.merge last)) := by
  refine ⟨merge_merge_upper hfirst hmiddle, merge_merge_lower hfirst hmiddle, fun h ↦ ?_⟩
  rw [merge_assoc_iff hfirst hmiddle hlast]
  intro path outer inner houter hother hinner
  exact absurd ⟨⟨outer, houter⟩, hother, inner, hinner⟩ (h path)

end Layers

/-- That the middle layer has no object where the first one has does not matter where the last one
has none either. -/
theorem merge_layers_of_settings :
    let first : Members := .ofList [("shell", .object (.ofList [("path", .string "sh")])),
      ("macros", .object (.ofList [("X", .int 1)]))]
    let middle : Members := .ofList [("shell", .null),
      ("macros", .object (.ofList [("Y", .int 2)]))]
    let last : Members := .ofList [("macros", .object (.ofList [("X", .object .nil)])),
      ("note", .array .nil)]
    ((object first).Distinct ∧ (object middle).Distinct ∧ (object last).Distinct ∧
        ∀ path, ¬Interrupts (object first) (object middle) (object last) path) ∧
      (first.merge middle).merge middle = first.merge middle ∧
      first.merge (first.merge middle) = first.merge middle ∧
      (first.merge middle).merge last = first.merge (middle.merge last) := by
  intro first middle last
  have hfirst : (object first).Distinct := by
    simp [first, ofList, Json.Distinct, Members.Distinct, keys, toList]
  have hmiddle : (object middle).Distinct := by
    simp [middle, ofList, Json.Distinct, Members.Distinct, keys, toList]
  have hlast : (object last).Distinct := by
    simp [last, ofList, Json.Distinct, Members.Distinct, Items.Distinct, keys, toList]
  have hapart : ∀ path, ¬Interrupts (object first) (object middle) (object last) path := by
    rintro path ⟨-, ⟨other, hother, hkind⟩, inner, hinner⟩
    cases path with
    | nil =>
      cases hother
      exact hkind rfl
    | cons key path =>
      obtain ⟨_, found, ⟨⟩, hlast', hinner⟩ := under?_cons_eq_some hinner
      obtain ⟨_, between, ⟨⟩, hmiddle', hother⟩ := under?_cons_eq_some hother
      by_cases hshell : "shell" = key
      · subst hshell
        cases hlast'
      · by_cases hmacros : "macros" = key
        · subst hmacros
          cases hmiddle'
          cases hlast'
          cases path with
          | nil =>
            cases hother
            exact hkind rfl
          | cons name path =>
            obtain ⟨_, value, ⟨⟩, hget, -⟩ := under?_cons_eq_some hother
            obtain ⟨_, number, ⟨⟩, hnumber, -⟩ := under?_cons_eq_some hinner
            by_cases hname : "Y" = name
            · subst hname
              cases hnumber
            · simp [ofList, get?, hname] at hget
        · simp [middle, ofList, get?, hshell, hmacros] at hmiddle'
  obtain ⟨hupper, hlower, hassoc⟩ := merge_layers hfirst hmiddle hlast
  exact ⟨⟨hfirst, hmiddle, hlast, hapart⟩, hupper, hlower, hassoc hapart⟩

end Members

end CommandLine.Json
