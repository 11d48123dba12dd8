import CommandLine.Program.Run
import CommandLine.Proofs.Settings.Stored

/-!
Loading settings for a request. A file of settings leads to settings without faults and a dialect,
or to lines that name the faults, unless one of these ends the load without a word about what is
wrong with the settings: octets that are no text, a value beyond the limits of the reader, a value
that is no object, a dialect that is an array or an object where the request asks for none itself,
and a pattern that makes the compiler of expressions fail. Files with strings that are no text are
left aside.
-/

set_option autoImplicit false

namespace CommandLine

open Json.Members

namespace Settings

variable {compile : Macro.Compiler} {settings : Settings} {value : Json}

/-! ### Faults -/

theorem shown_eq_none_iff (value : Json) :
    shown value = none ↔ value.kind = .array ∨ value.kind = .object := by
  cases value <;> simp [shown, Json.kind]

/-- What is neither array nor object has its faults listed, and no other fault of a dialect is
none. -/
theorem dialectFaults_cases (value : Json) :
    (shown value = none ∧ dialectFaults value = .error (.unhashable value.kind)) ∨
      ∃ text found, shown value = some text ∧ dialectFaults value = .ok found ∧
        (found = [] → ∃ name ∈ dialectNames, value = .string name) := by
  unfold dialectFaults
  cases htext : shown value with
  | none => exact .inl ⟨rfl, rfl⟩
  | some text =>
    refine .inr ⟨text, _, rfl, rfl, fun hfound ↦ ?_⟩
    split at hfound
    · rename_i hname
      simpa using hname
    · cases hfound

/-- A value that makes the compiler of expressions fail. -/
def MakesFail (compile : Macro.Compiler) (value : Json) : Prop :=
  ∃ text reason, value = .string text ∧ compile text.toList = .error (.failed reason)

/-- A pattern has its faults listed, unless it makes the compiler fail. -/
theorem patternFaults_cases (compile : Macro.Compiler) (value : Json) :
    (MakesFail compile value ∧ ∃ reason, patternFaults compile value = .error (.pattern reason)) ∨
      ¬MakesFail compile value ∧ ∃ found, patternFaults compile value = .ok found := by
  have hlisted (h : ∀ reason, compileValue compile value ≠ .error (.failed reason)) :
      ∃ found, patternFaults compile value = .ok found := by
    unfold patternFaults
    split
    · exact ⟨_, rfl⟩
    · exact ⟨_, rfl⟩
    · rename_i reason hfailed
      exact absurd hfailed (h reason)
  cases value with
  | string text =>
    by_cases hfails : ∃ reason, compile text.toList = .error (.failed reason)
    · obtain ⟨reason, hreason⟩ := hfails
      refine .inl ⟨⟨text, reason, rfl, hreason⟩, reason, ?_⟩
      rw [patternFaults, compileValue, hreason]
    · refine .inr ⟨?_, hlisted fun reason hreason ↦ hfails ⟨reason, hreason⟩⟩
      rintro ⟨_, reason, ⟨⟩, hreason⟩
      exact hfails ⟨reason, hreason⟩
  | null | bool | int | float | array | object =>
    refine .inr ⟨?_, hlisted fun reason hreason ↦ by cases hreason⟩
    rintro ⟨_, _, ⟨⟩, _⟩

/-- The faults of the settings that are neither the dialect nor the pattern. -/
def otherFaults (settings : Settings) : List Fault × List Fault :=
  ([unixShellKey, windowsShellKey].flatMap (fun key ↦ shellFaults key (settings.get? key)),
    macroFaults (settings.getD macrosKey))

theorem faults_eq_of_error {error : Error}
    (h : dialectFaults (settings.getD dialectKey) = .error error) :
    settings.faults compile = .error error := by
  rw [faults, h]
  rfl

theorem faults_eq_of_ok {found : List Fault}
    (h : dialectFaults (settings.getD dialectKey) = .ok found) :
    settings.faults compile = (patternFaults compile (settings.getD patternKey)).map
      fun pattern ↦ found ++ settings.otherFaults.1 ++ pattern ++ settings.otherFaults.2 := by
  rw [faults, h]
  cases patternFaults compile (settings.getD patternKey) <;> rfl

/-- The faults of settings are listed unless the dialect is an array or an object, or the pattern
makes the compiler fail. -/
theorem faults_cases (compile : Macro.Compiler) (settings : Settings) :
    ((shown (settings.getD dialectKey) = none ∨ MakesFail compile (settings.getD patternKey)) ∧
      ∃ error, settings.faults compile = .error error) ∨
      ∃ text found, shown (settings.getD dialectKey) = some text ∧
        ¬MakesFail compile (settings.getD patternKey) ∧ settings.faults compile = .ok found ∧
          (found = [] → ∃ name ∈ dialectNames, settings.getD dialectKey = .string name) := by
  rcases dialectFaults_cases (settings.getD dialectKey) with
    ⟨hshown, hfaults⟩ | ⟨text, found, hshown, hfaults, hname⟩
  · exact .inl ⟨.inl hshown, _, faults_eq_of_error hfaults⟩
  · rcases patternFaults_cases compile (settings.getD patternKey) with
      ⟨hfails, reason, hpattern⟩ | ⟨hcompiles, listed, hpattern⟩
    · exact .inl ⟨.inr hfails, _, by rw [faults_eq_of_ok hfaults, hpattern]; rfl⟩
    · refine .inr ⟨text, _, hshown, hcompiles, by rw [faults_eq_of_ok hfaults, hpattern]; rfl, ?_⟩
      intro hnone
      simp only [List.append_eq_nil_iff] at hnone
      exact hname hnone.1.1.1

/-- Settings without faults say a dialect. -/
theorem exists_dialect (system : String) (h : settings.faults compile = .ok []) :
    ∃ dialect, settings.dialect system = .ok dialect := by
  rcases settings.faults_cases compile with ⟨-, error, hfaults⟩ | ⟨-, found, -, -, hfaults, hname⟩
  · rw [hfaults] at h
    cases h
  · rw [hfaults] at h
    obtain ⟨name, hmem, hvalue⟩ := hname (Except.ok.inj h)
    rw [dialect, hvalue]
    simp only [dialectNames, List.mem_cons, List.not_mem_nil, or_false] at hmem
    rcases hmem with rfl | rfl | rfl
    · exact ⟨_, rfl⟩
    · exact ⟨.unix, rfl⟩
    · exact ⟨.windows, rfl⟩

/-! ### What is asked for -/

/-- Settings with the dialect that is asked for, if one is. -/
def withDialect (dialect : Option String) (settings : Settings) : Settings :=
  match dialect with
  | none => settings
  | some name => settings.put dialectKey (.string name)

theorem withAsked_asked (dialect : Option String) (settings : Settings) :
    withAsked (Program.asked dialect) settings = .ok (settings.withDialect dialect) := by
  cases dialect with
  | none => exact congrArg Except.ok (merge_nil settings)
  | some name =>
    have hmerge : settings.merge (.cons dialectKey (.string name) .nil) =
        settings.put dialectKey (.string name) := by
      rw [merge_cons, merge_nil, Json.mergeOver]
      simp
    exact congrArg Except.ok hmerge

theorem mem_keys_withDialect {key : String} (hkey : key ∈ settings.keys) (dialect : Option String) :
    key ∈ (settings.withDialect dialect).keys := by
  cases dialect with
  | none => exact hkey
  | some name =>
    rw [withDialect, ← isSome_get?_iff, get?_put]
    split
    · rfl
    · exact isSome_get?_iff.mpr hkey

theorem get?_withDialect_of_ne {key : String} (hkey : key ≠ dialectKey) (dialect : Option String) :
    (settings.withDialect dialect).get? key = settings.get? key := by
  cases dialect with
  | none => rfl
  | some name => rw [withDialect, get?_put, if_neg (Ne.symm hkey)]

/-- What a file says of a setting whose default is no object counts as it stands. -/
theorem getD_merge {members : Json.Members} (hnodup : members.keys.Nodup) {key : String}
    {standard : Json} (hdefault : default.get? key = some standard)
    (hkind : standard.kind ≠ .object) :
    getD (default.merge members) key = (members.get? key).getD standard := by
  rw [getD, get?_merge _ hnodup, hdefault]
  cases members.get? key with
  | none => rfl
  | some value =>
    refine Json.mergeOver_of_not_object (fun base hbase ↦ hkind ?_) value
    rw [Option.some.inj hbase]
    rfl

/-- The dialect of a file that is merged into the defaults, and of a request. -/
theorem getD_withDialect {members : Json.Members} (hnodup : members.keys.Nodup)
    (dialect : Option String) :
    getD (withDialect dialect (default.merge members)) dialectKey =
      (dialect.map Json.string).getD
        ((members.get? dialectKey).getD (.string Dialect.automatic)) := by
  cases dialect with
  | none => exact getD_merge hnodup (by decide) (by decide)
  | some name =>
    rw [withDialect, getD, get?_put, if_pos rfl]
    rfl

/-- The pattern of a file that is merged into the defaults. -/
theorem getD_withDialect_pattern {members : Json.Members} (hnodup : members.keys.Nodup)
    (dialect : Option String) :
    getD (withDialect dialect (default.merge members)) patternKey =
      (members.get? patternKey).getD (.string (String.ofList Macro.Pattern.defaultText)) := by
  have hne : patternKey ≠ dialectKey := by decide
  rw [getD, get?_withDialect_of_ne hne]
  exact getD_merge hnodup (by decide) (by decide)

/-- The default pattern makes no compiler fail. -/
theorem not_makesFail_default (platform : Platform) :
    ¬MakesFail platform.compile (.string (String.ofList Macro.Pattern.defaultText)) := by
  rintro ⟨text, reason, htext, hfailed⟩
  rw [← Json.string.inj htext, String.toList_ofList, platform.compile_default] at hfailed
  cases hfailed

end Settings

namespace Program

open Settings (Fault MakesFail content dialectKey patternKey withDialect)

variable {host : Host} {request : Request} {octets : List UInt8}

/-- What is loaded for a request. -/
def Loads (host : Host) (request : Request) (settings : Settings) : Prop :=
  ∃ notices, Settings.load host.platform.limits host.tree request.directory
    (asked request.dialect) = .ok (settings, notices)

/-- A load of settings that ends as it should: with settings that hold every key that has a default,
have no faults and name a dialect, or with a line for each of their faults. -/
inductive Settled (host : Host) (request : Request) : Run (Settings × Dialect) → Prop
  | faultless {settings : Settings} {dialect : Dialect} (loads : Loads host request settings)
      (keys : ∀ key ∈ Settings.default.keys, key ∈ settings.keys)
      (faults : settings.faults host.platform.compile = .ok [])
      (resolved : settings.dialect host.system = .ok dialect) :
      Settled host request (.ok (settings, dialect))
  | faulty {settings : Settings} {faults : List Fault} (loads : Loads host request settings)
      (found : settings.faults host.platform.compile = .ok faults) (nonempty : faults ≠ []) :
      Settled host request (exit (faultLines "" faults))

/-- What keeps the octets of a file from being settings, for a request that asks for a dialect or
for none. -/
inductive Unloadable (platform : Platform) (octets : List UInt8) (dialect : Option String) : Prop
  | encoding {error : Text.Utf8Error} (found : Text.decode octets = .error error)
  | limit {obstacle : Json.Obstacle} (limited : obstacle ≠ .unpaired)
      (found : content platform.limits octets = .error (.unreadable obstacle))
  | kind {value : Json} (found : content platform.limits octets = .ok value)
      (other : value.kind ≠ .object)
  | dialect {members : Json.Members} {value : Json}
      (found : content platform.limits octets = .ok (.object members)) (unasked : dialect = none)
      (held : members.get? dialectKey = some value)
      (shape : value.kind = .array ∨ value.kind = .object)
  | pattern {members : Json.Members} {value : Json}
      (found : content platform.limits octets = .ok (.object members))
      (held : members.get? patternKey = some value) (fails : MakesFail platform.compile value)

/-- What keeps an object from being settings. -/
theorem unloadable_iff_of_object {platform : Platform} {members : Json.Members}
    (hcontent : content platform.limits octets = .ok (.object members)) (dialect : Option String) :
    Unloadable platform octets dialect ↔
      (dialect = none ∧ ∃ value, members.get? dialectKey = some value ∧
        (value.kind = .array ∨ value.kind = .object)) ∨
      ∃ value, members.get? patternKey = some value ∧ MakesFail platform.compile value := by
  constructor
  · intro h
    cases h with
    | encoding found =>
      rw [content, found] at hcontent
      cases hcontent
    | limit limited found =>
      rw [hcontent] at found
      cases found
    | kind found other =>
      rw [hcontent] at found
      cases found
      exact absurd rfl other
    | dialect found unasked held shape =>
      rw [hcontent] at found
      cases found
      exact .inl ⟨unasked, _, held, shape⟩
    | pattern found held fails =>
      rw [hcontent] at found
      cases found
      exact .inr ⟨_, held, fails⟩
  · rintro (⟨unasked, value, held, shape⟩ | ⟨value, held, fails⟩)
    · exact .dialect hcontent unasked held shape
    · exact .pattern hcontent held fails

/-- A failure tells nothing of faults. -/
theorem not_settled_of_failure (failure : Failure)
    (h : loadSettings host request = .error (.failure failure)) :
    ¬Settled host request (loadSettings host request) := by
  rw [h]
  rintro ⟨⟩

theorem not_settled_of_load_error {error : Settings.Error}
    (h : Settings.load host.platform.limits host.tree request.directory (asked request.dialect) =
      .error error) :
    ¬Settled host request (loadSettings host request) := by
  refine not_settled_of_failure (.settings error) ?_
  rw [loadSettings, h]
  rfl

/-- What becomes of settings that are loaded. -/
theorem Loads.loadSettings_eq {settings : Settings} (h : Loads host request settings) :
    loadSettings host request = do
      let faults ← orFail (settings.faults host.platform.compile)
      if !faults.isEmpty then exit (faultLines "" faults)
      let dialect ← orFail ((settings.dialect host.system).mapError Settings.Error.dialect)
      return (settings, dialect) := by
  obtain ⟨notices, hload⟩ := h
  rw [loadSettings, hload]
  rfl

/-- Settings that are loaded settle the load unless their dialect is an array or an object, or their
pattern makes the compiler fail. -/
theorem Loads.settled_iff {settings : Settings} (h : Loads host request settings)
    (hkeys : ∀ key ∈ Settings.default.keys, key ∈ settings.keys) :
    Settled host request (loadSettings host request) ↔
      ¬(Settings.shown (settings.getD dialectKey) = none ∨
        MakesFail host.platform.compile (settings.getD patternKey)) := by
  rw [h.loadSettings_eq]
  rcases settings.faults_cases host.platform.compile with
    ⟨hfails, error, hfaults⟩ | ⟨text, found, hshown, hcompiles, hfaults, -⟩
  · refine iff_of_false ?_ (not_not.mpr hfails)
    rw [hfaults]
    rintro ⟨⟩
  · refine iff_of_true ?_ (by simp [hshown, hcompiles])
    rw [hfaults]
    cases found with
    | nil =>
      obtain ⟨dialect, hdialect⟩ := Settings.exists_dialect host.system hfaults
      rw [hdialect]
      exact .faultless h hkeys hfaults hdialect
    | cons fault faults => exact .faulty h hfaults (List.cons_ne_nil fault faults)

/-- Where the file says an object, the load settles unless the dialect or the pattern that counts
ends it. -/
theorem settled_iff_of_object
    (hfind : host.tree.find (Settings.path host.tree request.directory) = .ok (.file octets))
    {members : Json.Members}
    (hcontent : content host.platform.limits octets = .ok (.object members)) :
    Settled host request (loadSettings host request) ↔
      ¬Unloadable host.platform octets request.dialect := by
  have hnodup :=
    ((Json.faithful_object_iff members).mp (Settings.fits_content hcontent).faithful).1
  obtain ⟨notices, hload⟩ := Settings.load_of_object (asked request.dialect) hfind hcontent
  rw [Settings.withAsked_asked] at hload
  have hkeys : ∀ key ∈ Settings.default.keys,
      key ∈ (withDialect request.dialect (Settings.default.merge members)).keys :=
    fun key hkey ↦ Settings.mem_keys_withDialect
      ((mem_keys_merge _ members key).mpr (.inl hkey)) request.dialect
  have hloads : Loads host request
      (withDialect request.dialect (Settings.default.merge members)) := ⟨notices, hload⟩
  rw [hloads.settled_iff hkeys, unloadable_iff_of_object hcontent, Settings.getD_withDialect hnodup,
    Settings.getD_withDialect_pattern hnodup, Settings.shown_eq_none_iff]
  refine not_congr (or_congr ?_ ?_)
  · cases request.dialect with
    | some name => simp [Json.kind]
    | none => cases members.get? dialectKey <;> simp [Json.kind]
  · cases members.get? patternKey with
    | none => simpa using Settings.not_makesFail_default host.platform
    | some value => simp

/-- Loading settings from a file settles unless one of the causes above keeps it from being
settings, if no string of the file has half of a surrogate pair. -/
theorem settled_loadSettings_iff
    (hread : host.tree.read (Settings.path host.tree request.directory) = .ok octets)
    (hpaired : content host.platform.limits octets ≠ .error (.unreadable .unpaired)) :
    Settled host request (loadSettings host request) ↔
      ¬Unloadable host.platform octets request.dialect := by
  have hfind := Files.Tree.read_eq_ok_iff.mp hread
  cases hcontent : content host.platform.limits octets with
  | error error =>
    refine iff_of_false (not_settled_of_load_error (Settings.load_of_error _ hfind hcontent))
      (not_not.mpr ?_)
    rcases Settings.error_of_content hcontent with ⟨_, hdecode⟩ | ⟨obstacle, rfl⟩
    · exact .encoding hdecode
    · exact .limit (fun hsame ↦ hpaired (hsame ▸ hcontent)) hcontent
  | ok value =>
    by_cases hkind : value.kind = .object
    · obtain ⟨members, rfl⟩ := Json.kind_eq_object_iff.mp hkind
      exact settled_iff_of_object hfind hcontent
    · exact iff_of_false
        (not_settled_of_load_error (Settings.load_of_not_object _ hfind hcontent hkind))
        (not_not.mpr (.kind hcontent hkind))

/-- A host with nothing but a file of settings for the directory `/d`. -/
def hostOf (octets : List UInt8) : Host :=
  ⟨.plain, ⟨[(["d".toList], .directory), (["d".toList, ".procargs".toList], .directory),
    (["d".toList, ".procargs".toList, "config.json".toList], .file octets)]⟩, "Linux", [], []⟩

/-- A request for the directory `/d` that asks for no dialect. -/
def plainRequest : Request := ⟨.quote [], ⟨.slash, ["d".toList]⟩, none⟩

/-- An unknown dialect and macros that are no object are faults that are shown. -/
theorem settled_loadSettings_of_faults :
    let octets := Text.encode "\x7b\"dialect\": \"vms\", \"macros\": [1]\x7d".toList
    Settled (hostOf octets) plainRequest (loadSettings (hostOf octets) plainRequest) := by
  intro octets
  have hread : (hostOf octets).tree.read
      (Settings.path (hostOf octets).tree plainRequest.directory) = .ok octets := by
    decide +kernel
  have hcontent : content (hostOf octets).platform.limits octets = .ok (.object (.ofList
      [("dialect", .string "vms"), ("macros", .array (.ofList [.int 1]))])) := by
    decide +kernel
  refine (settled_loadSettings_iff hread (by rw [hcontent]; rintro ⟨⟩)).mpr ?_
  rw [unloadable_iff_of_object hcontent]
  rintro (⟨-, _, ⟨⟩, hshape⟩ | ⟨_, ⟨⟩, -⟩)
  exact absurd hshape (by decide)

/-- Octets that are no text, a value that is no object, and a dialect that is an array end a load
without a word about settings. -/
theorem not_settled_loadSettings :
    let number := Text.encode "[1]".toList
    let dialect := Text.encode "\x7b\"dialect\": []\x7d".toList
    ¬Settled (hostOf [0xFF]) plainRequest (loadSettings (hostOf [0xFF]) plainRequest) ∧
      ¬Settled (hostOf number) plainRequest (loadSettings (hostOf number) plainRequest) ∧
        ¬Settled (hostOf dialect) plainRequest (loadSettings (hostOf dialect) plainRequest) := by
  refine ⟨not_settled_of_failure (.settings (.read (.encoding ⟨.invalidStart, 0xFF, 0, 0⟩))) ?_,
    not_settled_of_failure (.settings (.access (.noItems .array))) ?_,
    not_settled_of_failure (.settings (.unhashable .array)) ?_⟩
  all_goals decide +kernel

end Program

end CommandLine
