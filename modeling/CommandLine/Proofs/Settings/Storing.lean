import CommandLine.Platform
import CommandLine.Proofs.Settings.Stored

/-!
Settings that are saved and loaded again. A file leaves out what has its default value, and loading
puts what it holds over the defaults, so that the members left out come back where the defaults have
them. Only a null member without a default is lost, since it is left out as well. What is loaded is
therefore what merging the settings into the defaults gives, its members in the same order.
-/

set_option autoImplicit false

namespace CommandLine.Settings

open Json.Members

variable {limits : Json.Limits} {settings : Settings} {key : String} {value : Json}

/-! ### Defaults -/

theorem nodup_keys_default : default.keys.Nodup := by decide

/-- The defaults are within all limits that allow one digit and an object in an object. -/
theorem fits_default {digits depth : Nat} (hdigits : 0 < digits) (hdepth : 1 < depth) :
    (Json.object default).Fits digits depth := by
  refine (Json.fits_object_iff default).mpr ⟨Nat.lt_of_succ_lt hdepth, nodup_keys_default, ?_⟩
  simp only [default, Json.Members.toList_ofList, List.forall_mem_cons]
  refine ⟨?_, ?_, ?_, ?_, ?_, ?_, List.forall_mem_nil _⟩
  · exact (Json.fits_int_iff 1).mpr hdigits
  · exact Json.fits_string _
  · exact Json.fits_null
  · exact Json.fits_null
  · exact Json.fits_string _
  · exact Json.fits_empty_iff.mpr (Nat.sub_pos_of_lt hdepth)

/-- The only object among the defaults is empty. -/
theorem eq_nil_of_default {members : Json.Members} (h : default.get? key = some (.object members)) :
    members = .nil := by
  have hmember := mem_toList_of_get? h
  simp only [default, Json.Members.toList_ofList, List.mem_cons, Prod.mk.injEq, reduceCtorEq,
    and_false, false_or, List.not_mem_nil, or_false, Json.empty, Json.object.injEq] at hmember
  exact hmember.2

/-- What is put over a default stands as it is. -/
theorem mergeOver_default (hvalue : value.Faithful) (key : String) :
    value.mergeOver (default.get? key) = value := by
  by_cases hobject : ∃ base, default.get? key = some (.object base)
  · obtain ⟨base, hbase⟩ := hobject
    cases value with
    | object members =>
      have hnodup : members.keys.Nodup := ((Json.faithful_object_iff members).mp hvalue).1
      rw [hbase, eq_nil_of_default hbase, Json.mergeOver, nil_merge hnodup]
    | null | bool | int | float | string | array => simp [Json.mergeOver]
  · exact Json.mergeOver_of_not_object (fun base hbase ↦ hobject ⟨base, hbase⟩) value

/-! ### What a file keeps -/

/-- Settings without the null members that have no default. -/
def kept (settings : Settings) : Settings :=
  settings.filter fun key value ↦ value ≠ .null ∨ key ∈ default.keys

/-- Nothing is lost from settings whose null members all have a default. -/
theorem kept_eq_self_iff (hnodup : settings.keys.Nodup) :
    kept settings = settings ↔ ∀ key, settings.get? key = some .null → key ∈ default.keys := by
  rw [kept, filter_eq_self_iff]
  refine ⟨fun h key hget ↦ ?_, ?_⟩
  · simpa using h _ (mem_toList_of_get? hget)
  · rintro h ⟨key, value⟩ hmember
    rw [decide_eq_true_eq]
    refine or_iff_not_imp_left.mpr fun hnull ↦ h key ?_
    rw [get?_of_mem_toList hnodup hmember, (not_not.mp hnull : value = .null)]

/-- A member without a default is stored unless it is null. -/
theorem stored_iff_kept (hkey : key ∉ default.keys) (value : Json) :
    (key = versionKey ∨ (default.get? key).getD .null ≠ value) ↔
      (value ≠ .null ∨ key ∈ default.keys) := by
  have hversion : key ≠ versionKey := by
    rintro rfl
    exact hkey (by decide)
  rw [(get?_eq_none_iff default key).mpr hkey, Option.getD_none]
  simp [hversion, hkey, eq_comm]

/-- What is not stored though it has a default is the default. -/
theorem default_of_not_stored (hkey : key ∈ default.keys)
    (h : ¬(key = versionKey ∨ (default.get? key).getD .null ≠ value)) :
    default.get? key = some value := by
  rw [not_or, not_not] at h
  obtain ⟨found, hfound⟩ := Option.isSome_iff_exists.mp (isSome_get?_iff.mpr hkey)
  rw [hfound, Option.getD_some] at h
  rw [hfound, h.2]

theorem keys_merge_changed (hnodup : settings.keys.Nodup) :
    (default.merge (changed settings)).keys = (default.merge (kept settings)).keys := by
  rw [changed, kept, keys_merge _ (nodup_keys_filter _ hnodup),
    keys_merge _ (nodup_keys_filter _ hnodup), keys_filter _ hnodup, keys_filter _ hnodup,
    List.filter_filter, List.filter_filter]
  congr 1
  refine List.filter_congr fun key _ ↦ ?_
  by_cases hkey : key ∈ default.keys
  · simp [hkey]
  · cases settings.get? key with
    | none => rfl
    | some value =>
      rw [Option.any_some, Option.any_some, decide_eq_decide.mpr (stored_iff_kept hkey value)]

theorem get?_merge_changed (h : (Json.object settings).Faithful) (key : String) :
    (default.merge (changed settings)).get? key = (default.merge (kept settings)).get? key := by
  obtain ⟨hnodup, hfaithful⟩ := (faithful_iff_get? settings).mp h
  rw [changed, kept, get?_merge _ (nodup_keys_filter _ hnodup),
    get?_merge _ (nodup_keys_filter _ hnodup), get?_filter _ hnodup, get?_filter _ hnodup]
  cases hget : settings.get? key with
  | none => rfl
  | some value =>
    by_cases hkey : key ∈ default.keys
    · by_cases hstored : key = versionKey ∨ (default.get? key).getD .null ≠ value
      · simp only [Option.filter, hkey, hstored, or_true, decide_true, if_true]
      · have hdefault := default_of_not_stored hkey hstored
        have hover := mergeOver_default (hfaithful key value hget) key
        simp only [Option.filter, hkey, hstored, or_true, decide_true, if_true, decide_false,
          Bool.false_eq_true, if_false]
        rw [hover, hdefault]
    · simp only [Option.filter, decide_eq_decide.mpr (stored_iff_kept hkey value)]

/-- The defaults bring back what a file leaves out. -/
theorem merge_changed (h : (Json.object settings).Faithful) :
    default.merge (changed settings) = default.merge (kept settings) := by
  have hnodup := ((faithful_iff_get? settings).mp h).1
  exact ext_get? (nodup_keys_merge nodup_keys_default _) (keys_merge_changed hnodup)
    fun key _ ↦ get?_merge_changed h key

/-- Settings that have every default, in the order of the defaults and in front of the rest. -/
def Complete (settings : Settings) : Prop := default.keys <+: settings.keys

theorem complete_merge (hnodup : settings.keys.Nodup) : Complete (default.merge settings) := by
  rw [Complete, keys_merge _ hnodup]
  exact List.prefix_append _ _

/-- Complete settings are what they add to the defaults. -/
theorem Complete.merge_eq_self (hcomplete : Complete settings)
    (h : (Json.object settings).Faithful) : default.merge settings = settings := by
  obtain ⟨hnodup, hfaithful⟩ := (faithful_iff_get? settings).mp h
  obtain ⟨others, hkeys⟩ := hcomplete
  have hdisjoint : ∀ key ∈ others, key ∉ default.keys := by
    rw [← hkeys, List.nodup_append] at hnodup
    exact fun key hother hdefault ↦ hnodup.2.2 key hdefault key hother rfl
  refine ext_get? (nodup_keys_merge nodup_keys_default _) ?_ fun key _ ↦ ?_
  · rw [keys_merge _ hnodup, ← hkeys, List.filter_append,
      List.filter_eq_nil_iff.mpr (by simp), List.nil_append,
      List.filter_eq_self.mpr (by simpa using hdisjoint)]
  · rw [get?_merge _ hnodup]
    cases hget : settings.get? key with
    | none =>
      rw [get?_eq_none_iff, ← hkeys, List.mem_append, not_or] at hget
      exact (get?_eq_none_iff default key).mpr hget.1
    | some value => exact congrArg some (mergeOver_default (hfaithful key value hget) key)

theorem Complete.put (hcomplete : Complete settings) (hkey : key ∈ default.keys) (value : Json) :
    Complete (settings.put key value) := by
  rw [Complete, keys_put_of_mem (hcomplete.subset hkey)]
  exact hcomplete

theorem Complete.kept (hcomplete : Complete settings) (hnodup : settings.keys.Nodup) :
    Complete (kept settings) := by
  obtain ⟨others, hkeys⟩ := hcomplete
  rw [Complete, Settings.kept, keys_filter _ hnodup, ← hkeys, List.filter_append]
  rw [List.filter_eq_self.mpr]
  · exact List.prefix_append _ _
  · intro key hkey
    have hmem : key ∈ settings.keys := hkeys ▸ List.mem_append_left _ hkey
    obtain ⟨value, hvalue⟩ := Option.isSome_iff_exists.mp (isSome_get?_iff.mpr hmem)
    simp [hvalue, hkey]

/-! ### Saving and loading -/

/-- What is loaded of settings that were saved: what a file keeps of them, over the defaults. -/
theorem load_of_save_kept {tree saved : Files.Tree} {directory : Files.Path}
    (h : (Json.object settings).Fits limits.digits limits.readingDepth)
    (hsave : save limits tree directory settings = .ok saved) :
    ∃ notices, load limits saved directory .null =
      .ok (default.merge (kept settings), notices) := by
  rw [← merge_changed h.faithful]
  exact load_of_save (fits_filter _ h) hsave

/-- Complete settings come back as they were saved, without what a file does not keep. -/
theorem Complete.load_of_save {tree saved : Files.Tree} {directory : Files.Path}
    (hcomplete : Complete settings)
    (h : (Json.object settings).Fits limits.digits limits.readingDepth)
    (hsave : save limits tree directory settings = .ok saved) :
    ∃ notices, load limits saved directory .null = .ok (Settings.kept settings, notices) := by
  have hnodup := ((faithful_iff_get? settings).mp h.faithful).1
  have hkept : (Json.object (Settings.kept settings)).Faithful := (fits_filter _ h).faithful
  rw [← (hcomplete.kept hnodup).merge_eq_self hkept]
  exact load_of_save_kept h hsave

/-- Settings that are saved and loaded again are what merging them into the defaults gives, if the
text of their JSON is read as they are and none of their null members is without a default. -/
theorem load_save {tree saved : Files.Tree} {directory : Files.Path}
    (hread : Json.read limits (Json.indented (.object settings)) = .ok (.object settings))
    (hnull : ∀ key, settings.get? key = some .null → key ∈ default.keys)
    (hsave : save limits tree directory settings = .ok saved) :
    ∃ notices, load limits saved directory .null = .ok (default.merge settings, notices) := by
  have hfits : (Json.object settings).Fits limits.digits limits.readingDepth :=
    Json.fits_of_read hread
  have hnodup := ((faithful_iff_get? settings).mp hfits.faithful).1
  have hkept : kept settings = settings := (kept_eq_self_iff hnodup).mpr hnull
  obtain ⟨notices, hload⟩ := load_of_save_kept hfits hsave
  rw [hkept] at hload
  exact ⟨notices, hload⟩

/-- Settings of a directory with defaults, with values of their own, one of them of the wrong kind,
and with a member without a meaning come back behind the defaults. -/
theorem load_save_of_own_values :
    let limits : Json.Limits := Platform.plain.limits
    let tree : Files.Tree := ⟨[(["a".toList], .directory)]⟩
    let directory : Files.Path := ⟨.slash, ["a".toList, "..".toList, "b".toList]⟩
    let theme : Json := .array (.ofList [.null, .float ⟨0x3FF8000000000000⟩, .string "é\n"])
    let settings : Settings := .ofList
      [("theme", theme), (dialectKey, .string "windows"), (unixShellKey, .null),
        (macrosKey, .object (.ofList [("X", .string "1")])), (windowsShellKey, .bool true)]
    let loaded : Settings := .ofList
      [(versionKey, .int 1), (dialectKey, .string "windows"), (unixShellKey, .null),
        (windowsShellKey, .bool true),
        (patternKey, .string (String.ofList Macro.Pattern.defaultText)),
        (macrosKey, .object (.ofList [("X", .string "1")])), ("theme", theme)]
    ∃ saved notices, save limits tree directory settings = .ok saved ∧
      load limits saved directory .null = .ok (loaded, notices) := by
  intro limits tree directory theme settings loaded
  have hread : Json.read limits (Json.indented (.object settings)) = .ok (.object settings) := by
    decide +kernel
  have hnull : ∀ key ∈ settings.keys, settings.get? key = some .null → key ∈ default.keys := by
    decide +kernel
  have hmerged : default.merge settings = loaded := by decide +kernel
  have hisOk : (save limits tree directory settings).isOk = true := by decide +kernel
  cases hsave : save limits tree directory settings with
  | error error =>
    rw [hsave] at hisOk
    exact absurd hisOk Bool.false_ne_true
  | ok saved =>
    obtain ⟨notices, hload⟩ :=
      load_save hread (fun key hkey ↦ hnull key (mem_keys_of_get? hkey) hkey) hsave
    rw [hmerged] at hload
    exact ⟨saved, notices, rfl, hload⟩

end CommandLine.Settings
