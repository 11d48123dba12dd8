import CommandLine.Json.Limits
import CommandLine.Json.Merge
import CommandLine.Proofs.Decimal.Bits
import CommandLine.Proofs.Json.Members

/-!
Faithful values: those that a text can say. Every object has each key once, since of a repeated key
only the last value counts, and of the numbers that are none there is only the one that the word
for them means. A faithful value fits limits that none of its parts exceeds. Whatever is read is
faithful and fits the limits of the reader, and so does what fitting values are put together to.
-/

set_option autoImplicit false

namespace CommandLine.Json

mutual

/-- Every number in the value that is none is the one that a text can say. -/
def Canonical : Json → Prop
  | float value => value.isNaN = true → value = .nan
  | array items => items.Canonical
  | object members => members.Canonical
  | _ => True

def Items.Canonical : Items → Prop
  | .nil => True
  | .cons head tail => head.Canonical ∧ tail.Canonical

def Members.Canonical : Members → Prop
  | .nil => True
  | .cons _ value rest => value.Canonical ∧ rest.Canonical

end

/-- A value that a text can say. -/
structure Faithful (value : Json) : Prop where
  distinct : value.Distinct
  canonical : value.Canonical

theorem Items.distinct_iff (items : Items) :
    items.Distinct ↔ ∀ value ∈ items.toList, value.Distinct := by
  match items with
  | .nil => simp [Items.Distinct, toList]
  | .cons head tail => simp [Items.Distinct, toList, distinct_iff tail]

theorem Items.canonical_iff (items : Items) :
    items.Canonical ↔ ∀ value ∈ items.toList, value.Canonical := by
  match items with
  | .nil => simp [Items.Canonical, toList]
  | .cons head tail => simp [Items.Canonical, toList, canonical_iff tail]

theorem Members.distinct_iff (members : Members) :
    members.Distinct ↔ ∀ member ∈ members.toList, member.2.Distinct := by
  match members with
  | .nil => simp [Members.Distinct, toList]
  | .cons key value rest => simp [Members.Distinct, toList, distinct_iff rest]

theorem Members.canonical_iff (members : Members) :
    members.Canonical ↔ ∀ member ∈ members.toList, member.2.Canonical := by
  match members with
  | .nil => simp [Members.Canonical, toList]
  | .cons key value rest => simp [Members.Canonical, toList, canonical_iff rest]

@[simp] theorem faithful_null : null.Faithful := ⟨trivial, trivial⟩

@[simp] theorem faithful_bool (value : Bool) : (bool value).Faithful := ⟨trivial, trivial⟩

@[simp] theorem faithful_int (value : Int) : (int value).Faithful := ⟨trivial, trivial⟩

@[simp] theorem faithful_string (text : String) : (string text).Faithful := ⟨trivial, trivial⟩

@[simp] theorem faithful_empty : empty.Faithful := ⟨⟨List.nodup_nil, trivial⟩, trivial⟩

theorem faithful_float_iff (value : Decimal.Binary64) :
    (float value).Faithful ↔ (value.isNaN = true → value = .nan) :=
  ⟨fun h ↦ h.canonical, fun h ↦ ⟨trivial, h⟩⟩

theorem faithful_array_iff (items : Items) :
    (array items).Faithful ↔ ∀ value ∈ items.toList, value.Faithful := by
  have hdistinct := items.distinct_iff
  have hcanonical := items.canonical_iff
  constructor
  · intro h value hvalue
    exact ⟨hdistinct.mp h.distinct value hvalue, hcanonical.mp h.canonical value hvalue⟩
  · intro h
    exact ⟨hdistinct.mpr fun value hvalue ↦ (h value hvalue).distinct,
      hcanonical.mpr fun value hvalue ↦ (h value hvalue).canonical⟩

theorem faithful_object_iff (members : Members) : (object members).Faithful ↔
    members.keys.Nodup ∧ ∀ member ∈ members.toList, member.2.Faithful := by
  have hdistinct := members.distinct_iff
  have hcanonical := members.canonical_iff
  constructor
  · intro h
    exact ⟨h.distinct.1, fun member hmember ↦
      ⟨hdistinct.mp h.distinct.2 member hmember, hcanonical.mp h.canonical member hmember⟩⟩
  · rintro ⟨hnodup, h⟩
    exact ⟨⟨hnodup, hdistinct.mpr fun member hmember ↦ (h member hmember).distinct⟩,
      hcanonical.mpr fun member hmember ↦ (h member hmember).canonical⟩

/-- An object is faithful if its keys are distinct and what stands under them is faithful. -/
theorem Members.faithful_iff_get? (members : Members) : (object members).Faithful ↔
    members.keys.Nodup ∧ ∀ key value, members.get? key = some value → value.Faithful := by
  rw [faithful_object_iff]
  refine and_congr_right fun hnodup ↦ ⟨fun h key value hget ↦ h _ (mem_toList_of_get? hget), ?_⟩
  rintro h ⟨key, value⟩ hmember
  exact h key value (get?_of_mem_toList hnodup hmember)

/-! ### Values within limits -/

theorem Items.obstacle?_eq_none_iff (digits depth : Nat) (items : Items) :
    items.obstacle? digits depth = none ↔
      ∀ value ∈ items.toList, value.obstacle? digits depth = none := by
  match items with
  | .nil => simp [Items.obstacle?, toList]
  | .cons head tail =>
    simp [Items.obstacle?, toList, Option.or_eq_none_iff, obstacle?_eq_none_iff digits depth tail]

theorem Members.obstacle?_eq_none_iff (digits depth : Nat) (members : Members) :
    members.obstacle? digits depth = none ↔
      ∀ member ∈ members.toList, member.2.obstacle? digits depth = none := by
  match members with
  | .nil => simp [Members.obstacle?, toList]
  | .cons key value rest =>
    simp [Members.obstacle?, toList, Option.or_eq_none_iff, obstacle?_eq_none_iff digits depth rest]

/-- A faithful value without an obstacle, where integers have at most `digits` digits and arrays and
objects are nested at most `depth` deep. -/
structure Fits (digits depth : Nat) (value : Json) : Prop where
  faithful : value.Faithful
  unhindered : value.obstacle? digits depth = none

variable {digits depth : Nat}

theorem fits_null : null.Fits digits depth := ⟨faithful_null, rfl⟩

theorem fits_string (text : String) : (string text).Fits digits depth := ⟨faithful_string text, rfl⟩

theorem fits_int_iff (value : Int) : (int value).Fits digits depth ↔ digitCount value ≤ digits := by
  constructor
  · intro h
    have hnone := h.unhindered
    rw [obstacle?] at hnone
    by_contra hlong
    rw [if_neg hlong] at hnone
    cases hnone
  · intro h
    exact ⟨faithful_int value, by rw [obstacle?, if_pos h]⟩

theorem fits_array_iff (items : Items) : (array items).Fits digits depth ↔
    0 < depth ∧ ∀ value ∈ items.toList, value.Fits digits (depth - 1) := by
  have hnone := items.obstacle?_eq_none_iff digits (depth - 1)
  constructor
  · rintro ⟨hfaithful, hobstacle⟩
    rw [faithful_array_iff] at hfaithful
    rw [obstacle?] at hobstacle
    split at hobstacle
    · cases hobstacle
    · rename_i hdepth
      exact ⟨Nat.pos_of_ne_zero hdepth, fun value hvalue ↦
        ⟨hfaithful value hvalue, hnone.mp hobstacle value hvalue⟩⟩
  · rintro ⟨hdepth, h⟩
    refine ⟨(faithful_array_iff items).mpr fun value hvalue ↦ (h value hvalue).faithful, ?_⟩
    rw [obstacle?, if_neg (Nat.ne_of_gt hdepth), hnone]
    exact fun value hvalue ↦ (h value hvalue).unhindered

theorem fits_object_iff (members : Members) : (object members).Fits digits depth ↔
    0 < depth ∧ members.keys.Nodup ∧
      ∀ member ∈ members.toList, member.2.Fits digits (depth - 1) := by
  have hnone := members.obstacle?_eq_none_iff digits (depth - 1)
  constructor
  · rintro ⟨hfaithful, hobstacle⟩
    rw [faithful_object_iff] at hfaithful
    rw [obstacle?] at hobstacle
    split at hobstacle
    · cases hobstacle
    · rename_i hdepth
      exact ⟨Nat.pos_of_ne_zero hdepth, hfaithful.1, fun member hmember ↦
        ⟨hfaithful.2 member hmember, hnone.mp hobstacle member hmember⟩⟩
  · rintro ⟨hdepth, hnodup, h⟩
    refine ⟨(faithful_object_iff members).mpr
      ⟨hnodup, fun member hmember ↦ (h member hmember).faithful⟩, ?_⟩
    rw [obstacle?, if_neg (Nat.ne_of_gt hdepth), hnone]
    exact fun member hmember ↦ (h member hmember).unhindered

theorem fits_empty_iff : empty.Fits digits depth ↔ 0 < depth := by
  simp [empty, fits_object_iff, Members.toList]

namespace Members

variable {members : Members} {key : String} {value : Json}

/-- An object fits if its keys are distinct and what stands under them fits one level further in. -/
theorem fits_iff_get? (members : Members) : (object members).Fits digits depth ↔
    0 < depth ∧ members.keys.Nodup ∧
      ∀ key value, members.get? key = some value → value.Fits digits (depth - 1) := by
  rw [fits_object_iff]
  refine and_congr_right fun _ ↦ and_congr_right fun hnodup ↦
    ⟨fun h key value hget ↦ h _ (mem_toList_of_get? hget), ?_⟩
  rintro h ⟨key, value⟩ hmember
  exact h key value (get?_of_mem_toList hnodup hmember)

theorem fits_put (hmembers : (object members).Fits digits depth)
    (hvalue : value.Fits digits (depth - 1)) :
    (object (members.put key value)).Fits digits depth := by
  rw [fits_iff_get?] at hmembers ⊢
  obtain ⟨hdepth, hnodup, hfits⟩ := hmembers
  refine ⟨hdepth, nodup_keys_put hnodup, fun other found hget ↦ ?_⟩
  rw [get?_put] at hget
  split at hget
  · exact Option.some.inj hget ▸ hvalue
  · exact hfits other found hget

theorem fits_filter (keep : String → Json → Bool) (hmembers : (object members).Fits digits depth) :
    (object (members.filter keep)).Fits digits depth := by
  rw [fits_iff_get?] at hmembers ⊢
  obtain ⟨hdepth, hnodup, hfits⟩ := hmembers
  refine ⟨hdepth, nodup_keys_filter keep hnodup, fun other found hget ↦ ?_⟩
  rw [get?_filter keep hnodup, Option.filter_eq_some_iff] at hget
  exact hfits other found hget.1

end Members

mutual

/-- Merging keeps values within limits. -/
theorem Members.fits_merge {depth : Nat} {base : Members} (hbase : (object base).Fits digits depth)
    (members : Members) (hmembers : (object members).Fits digits depth) :
    (object (base.merge members)).Fits digits depth := by
  match members with
  | .nil => rwa [Members.merge_nil]
  | .cons key value rest =>
    rw [fits_object_iff, Members.keys_cons, List.nodup_cons] at hmembers
    obtain ⟨hdepth, ⟨-, hnodup⟩, hfits⟩ := hmembers
    have hvalue : value.Fits digits (depth - 1) := hfits (key, value) List.mem_cons_self
    have hrest : (object rest).Fits digits depth := (fits_object_iff rest).mpr
      ⟨hdepth, hnodup, fun member hmember ↦ hfits member (List.mem_cons_of_mem _ hmember)⟩
    have hold : ∀ found, base.get? key = some found → found.Fits digits (depth - 1) :=
      ((Members.fits_iff_get? base).mp hbase).2.2 key
    have hput : (object (base.put key (value.mergeOver (base.get? key)))).Fits digits depth :=
      Members.fits_put hbase (fits_mergeOver hold value hvalue)
    rw [Members.merge_cons]
    exact Members.fits_merge hput rest hrest

theorem fits_mergeOver {depth : Nat} {old : Option Json}
    (hold : ∀ found, old = some found → found.Fits digits depth)
    (value : Json) (hvalue : value.Fits digits depth) :
    (value.mergeOver old).Fits digits depth := by
  match value with
  | .object members =>
    unfold mergeOver
    split
    · exact Members.fits_merge (hold _ rfl) members hvalue
    · exact hvalue
  | .null | .bool _ | .int _ | .float _ | .string _ | .array _ =>
    simpa only [mergeOver] using hvalue

end

end CommandLine.Json
