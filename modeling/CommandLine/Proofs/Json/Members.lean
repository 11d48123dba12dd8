import CommandLine.Json.Merge
import Mathlib.Data.List.Nodup

/-!
The members of objects, looked at through their keys and what stands under each. Where every key
stands once, the keys in their order and the values under them determine the members, so that two
ways to put, select and merge members lead to the same if they agree in both. A merge keeps the keys
of the base in their places and puts the other object's new keys behind them.
-/

set_option autoImplicit false

namespace CommandLine.Json

namespace Members

variable {members : Members} {key other : String} {value : Json}

@[simp] theorem keys_nil : Members.nil.keys = [] := rfl

@[simp] theorem keys_cons : (cons key value members).keys = key :: members.keys := rfl

theorem get?_cons : (cons key value members).get? other =
    if key = other then some value else members.get? other := rfl

theorem get?_eq_none_iff (members : Members) (key : String) :
    members.get? key = none ↔ key ∉ members.keys := by
  match members with
  | nil => simp [get?]
  | cons k value rest =>
    by_cases hk : k = key
    · simp [get?_cons, hk]
    · simp [get?_cons, hk, Ne.symm hk, get?_eq_none_iff rest key]

theorem isSome_get?_iff : (members.get? key).isSome ↔ key ∈ members.keys := by
  rw [← not_iff_not, ← get?_eq_none_iff, Option.not_isSome_iff_eq_none]

theorem mem_keys_of_get? (h : members.get? key = some value) : key ∈ members.keys := by
  rw [← isSome_get?_iff, h]
  rfl

theorem mem_toList_of_get? {members : Members} (h : members.get? key = some value) :
    (key, value) ∈ members.toList := by
  match members with
  | nil => simp [get?] at h
  | cons k v rest =>
    rw [get?_cons] at h
    split at h
    · rename_i hk
      obtain rfl := hk
      obtain rfl := Option.some.inj h
      exact List.mem_cons_self
    · exact List.mem_cons_of_mem _ (mem_toList_of_get? h)

theorem get?_of_mem_toList {members : Members} (hnodup : members.keys.Nodup)
    (h : (key, value) ∈ members.toList) : members.get? key = some value := by
  match members with
  | nil => simp [toList] at h
  | cons k v rest =>
    rw [keys_cons, List.nodup_cons] at hnodup
    rw [get?_cons]
    rcases List.mem_cons.mp h with heq | hrest
    · obtain ⟨rfl, rfl⟩ := Prod.mk.inj heq
      rw [if_pos rfl]
    · have hmem : key ∈ rest.keys := List.mem_map_of_mem (f := Prod.fst) hrest
      have hne : k ≠ key := fun hk ↦ hnodup.1 (hk ▸ hmem)
      rw [if_neg hne, get?_of_mem_toList hnodup.2 hrest]

/-- Members with each key once are determined by their keys and the values under them. -/
theorem ext_get? {first second : Members} (hnodup : first.keys.Nodup)
    (hkeys : first.keys = second.keys)
    (hget : ∀ key ∈ first.keys, first.get? key = second.get? key) : first = second := by
  match first, second with
  | nil, nil => rfl
  | nil, cons k value rest => simp at hkeys
  | cons k value rest, nil => simp at hkeys
  | cons k value rest, cons l other behind =>
    simp only [keys_cons, List.cons.injEq] at hkeys
    obtain ⟨rfl, hrest⟩ := hkeys
    rw [keys_cons, List.nodup_cons] at hnodup
    have hhead := hget k List.mem_cons_self
    simp only [get?_cons, if_true, Option.some.injEq] at hhead
    have htail : rest = behind := by
      refine ext_get? hnodup.2 hrest fun key hkey ↦ ?_
      have hne : k ≠ key := fun h ↦ hnodup.1 (h ▸ hkey)
      have hkept := hget key (List.mem_cons_of_mem _ hkey)
      simpa only [get?_cons, if_neg hne] using hkept
    rw [hhead, htail]

/-! ### Putting -/

theorem keys_put_of_mem (hkey : key ∈ members.keys) :
    (members.put key value).keys = members.keys := by
  rw [keys_put, if_pos hkey]

theorem keys_put_of_notMem (hkey : key ∉ members.keys) :
    (members.put key value).keys = members.keys ++ [key] := by
  rw [keys_put, if_neg hkey]

/-- A new key comes last. -/
theorem toList_put_of_notMem {members : Members} (hkey : key ∉ members.keys) :
    (members.put key value).toList = members.toList ++ [(key, value)] := by
  match members with
  | nil => rfl
  | cons k v rest =>
    rw [keys_cons, List.mem_cons, not_or] at hkey
    rw [put, if_neg (Ne.symm hkey.1), toList, toList_put_of_notMem hkey.2, toList, List.cons_append]

theorem nodup_keys_put (hnodup : members.keys.Nodup) : (members.put key value).keys.Nodup := by
  by_cases hkey : key ∈ members.keys
  · rwa [keys_put_of_mem hkey]
  · rw [keys_put_of_notMem hkey, List.nodup_append]
    refine ⟨hnodup, List.nodup_singleton key, ?_⟩
    rintro k hk _ hlast rfl
    exact hkey (List.mem_singleton.mp hlast ▸ hk)

/-- What stands under a key can be put there again. -/
theorem put_get? (hnodup : members.keys.Nodup) (h : members.get? key = some value) :
    members.put key value = members := by
  refine ext_get? (nodup_keys_put hnodup) (keys_put_of_mem (mem_keys_of_get? h)) fun k _ ↦ ?_
  rw [get?_put]
  split
  · rename_i hk
    rw [← hk, h]
  · rfl

/-! ### Selecting -/

variable (keep : String → Json → Bool)

theorem keys_filter_sublist (members : Members) :
    (members.filter keep).keys.Sublist members.keys := by
  match members with
  | nil => exact List.Sublist.refl _
  | cons key value rest =>
    rw [filter]
    split
    · exact (keys_filter_sublist rest).cons_cons key
    · exact (keys_filter_sublist rest).cons key

theorem nodup_keys_filter (hnodup : members.keys.Nodup) : (members.filter keep).keys.Nodup :=
  (keys_filter_sublist keep members).nodup hnodup

/-- What stands under a key among the selected members. -/
theorem get?_filter {members : Members} (hnodup : members.keys.Nodup) (key : String) :
    (members.filter keep).get? key = (members.get? key).filter (keep key) := by
  match members with
  | nil => rfl
  | cons k value rest =>
    rw [keys_cons, List.nodup_cons] at hnodup
    have ih := get?_filter hnodup.2 key
    by_cases hk : k = key
    · subst hk
      have hrest : rest.get? k = none := (get?_eq_none_iff rest k).mpr hnodup.1
      rw [hrest] at ih
      by_cases hkeep : keep k value <;> simp [filter, hkeep, get?_cons, ih, Option.filter]
    · by_cases hkeep : keep k value <;> simp [filter, hkeep, get?_cons, hk, ih]

/-- The keys of the selected members are those whose values are selected. -/
theorem keys_filter {members : Members} (hnodup : members.keys.Nodup) :
    (members.filter keep).keys =
      members.keys.filter fun key ↦ (members.get? key).any (keep key) := by
  match members with
  | nil => rfl
  | cons k value rest =>
    rw [keys_cons, List.nodup_cons] at hnodup
    have ih := keys_filter hnodup.2
    have hrest : rest.keys.filter (fun key ↦ ((cons k value rest).get? key).any (keep key)) =
        rest.keys.filter fun key ↦ (rest.get? key).any (keep key) := by
      refine List.filter_congr fun key hkey ↦ ?_
      have hne : k ≠ key := fun h ↦ hnodup.1 (h ▸ hkey)
      rw [get?_cons, if_neg hne]
    rw [keys_cons, List.filter_cons, hrest, ← ih]
    by_cases hkeep : keep k value <;> simp [filter, hkeep, get?_cons]

/-- Nothing is left out where everything is selected. -/
theorem filter_eq_self_iff (members : Members) :
    members.filter keep = members ↔ ∀ member ∈ members.toList, keep member.1 member.2 = true := by
  match members with
  | nil => simp [filter, toList]
  | cons key value rest =>
    by_cases hkeep : keep key value
    · simp [filter, toList, hkeep, filter_eq_self_iff rest]
    · simp only [filter, toList, hkeep, Bool.false_eq_true, if_false, List.forall_mem_cons,
        false_and, iff_false]
      intro h
      have hlength := (keys_filter_sublist keep rest).length_le
      rw [h, keys_cons, List.length_cons] at hlength
      omega

/-! ### Merging -/

theorem merge_cons {base : Members} : base.merge (cons key value members) =
    (base.put key (value.mergeOver (base.get? key))).merge members := by
  simp [merge]

/-- A key is there after a merge if one of the two sides has it. -/
theorem mem_keys_merge (base members : Members) (key : String) :
    key ∈ (base.merge members).keys ↔ key ∈ base.keys ∨ key ∈ members.keys := by
  match members with
  | nil => simp
  | cons k value rest =>
    rw [merge_cons, mem_keys_merge _ rest, keys_put]
    split
    · rename_i hk
      simp only [keys_cons, List.mem_cons]
      exact ⟨fun h ↦ h.imp_right .inr, fun h ↦ h.elim .inl fun h ↦
        h.elim (fun h ↦ .inl (h ▸ hk)) .inr⟩
    · simp [or_assoc]

/-- The keys of the base stay in their places, and new ones follow in their order. -/
theorem keys_merge (base : Members) {members : Members} (hnodup : members.keys.Nodup) :
    (base.merge members).keys = base.keys ++ members.keys.filter (· ∉ base.keys) := by
  match members with
  | nil => simp
  | cons k value rest =>
    rw [keys_cons, List.nodup_cons] at hnodup
    rw [merge_cons, keys_merge _ hnodup.2, keys_cons]
    by_cases hk : k ∈ base.keys
    · simp [keys_put_of_mem hk, hk]
    · have hrest : rest.keys.filter (· ∉ base.keys ++ [k]) = rest.keys.filter (· ∉ base.keys) := by
        refine List.filter_congr fun key hkey ↦ ?_
        have hne : key ≠ k := fun h ↦ hnodup.1 (h ▸ hkey)
        simp [hne]
      rw [keys_put_of_notMem hk, hrest]
      simp [hk]

theorem nodup_keys_merge {base : Members} (hbase : base.keys.Nodup) (members : Members) :
    (base.merge members).keys.Nodup := by
  match members with
  | nil => simpa using hbase
  | cons key value rest =>
    rw [merge_cons]
    exact nodup_keys_merge (nodup_keys_put hbase) rest

/-- What stands under a key after a merge: what the other object has, put over what was there. -/
theorem get?_merge (base : Members) {members : Members} (hnodup : members.keys.Nodup)
    (key : String) :
    (base.merge members).get? key =
      match members.get? key with
      | some value => some (value.mergeOver (base.get? key))
      | none => base.get? key := by
  match members with
  | nil => rw [merge_nil]; rfl
  | cons k value rest =>
    rw [keys_cons, List.nodup_cons] at hnodup
    rw [merge_cons, get?_merge _ hnodup.2 key, get?_put, get?_cons]
    by_cases hk : k = key
    · subst hk
      have hrest : rest.get? k = none := (get?_eq_none_iff rest k).mpr hnodup.1
      simp [hrest]
    · simp [hk]

/-- Members with each key once are what they add to nothing. -/
theorem nil_merge (hnodup : members.keys.Nodup) : Members.nil.merge members = members := by
  have hempty : nil.keys.Nodup := List.nodup_nil
  refine ext_get? (nodup_keys_merge hempty members) (by simp [keys_merge _ hnodup]) fun key _ ↦ ?_
  rw [get?_merge _ hnodup]
  cases members.get? key with
  | none => rfl
  | some value => cases value <;> simp [mergeOver, get?]

end Members

/-- What is put over nothing, or over anything but an object, stands as it is. -/
theorem mergeOver_of_not_object {old : Option Json} (h : ∀ members, old ≠ some (.object members))
    (value : Json) : value.mergeOver old = value := by
  cases value with
  | object members =>
    unfold mergeOver
    split
    · rename_i base
      exact absurd rfl (h base)
    · rfl
  | null | bool | int | float | string | array => simp [mergeOver]

end CommandLine.Json
