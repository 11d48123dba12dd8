import CommandLine.Proofs.Settings.Loading
import CommandLine.Proofs.Settings.Storing

/-!
Settings that are written again. Writing the settings of a directory a second time keeps what the
file there says, apart from the dialect, which becomes that of the request, and from null members
without a default, which are not stored. The settings that are loaded afterwards are those that were
loaded before exactly if these changes change nothing. All this is for files that a writer can
follow as deep as a reader has followed them.
-/

set_option autoImplicit false

namespace CommandLine

open Json.Members

namespace Settings

variable {compile : Macro.Compiler} {settings : Settings}

/-- Putting a known dialect leaves settings without faults. -/
theorem faults_put_dialect (h : settings.faults compile = .ok []) {name : String}
    (hname : name ∈ dialectNames) :
    faults compile (settings.put dialectKey (.string name)) = .ok [] := by
  have hkept : ∀ key, dialectKey ≠ key →
      (settings.put dialectKey (.string name)).get? key = settings.get? key := fun key hkey ↦ by
    rw [get?_put, if_neg hkey]
  have hother : otherFaults (settings.put dialectKey (.string name)) = settings.otherFaults := by
    simp only [otherFaults, getD, List.flatMap_cons, List.flatMap_nil,
      hkept unixShellKey (by decide), hkept windowsShellKey (by decide),
      hkept macrosKey (by decide)]
  have hpattern : getD (settings.put dialectKey (.string name)) patternKey =
      settings.getD patternKey := by
    rw [getD, hkept patternKey (by decide), getD]
  have hdialect : getD (settings.put dialectKey (.string name)) dialectKey = .string name := by
    rw [getD, get?_put, if_pos rfl, Option.getD_some]
  have hknown : dialectFaults (.string name) = .ok [] := by
    simp only [dialectNames, List.mem_cons, List.not_mem_nil, or_false] at hname
    rcases hname with rfl | rfl | rfl <;> rfl
  obtain ⟨found, hfound⟩ : ∃ found, dialectFaults (settings.getD dialectKey) = .ok found := by
    cases hfound : dialectFaults (settings.getD dialectKey) with
    | error error =>
      rw [faults_eq_of_error hfound] at h
      cases h
    | ok found => exact ⟨found, rfl⟩
  rw [faults_eq_of_ok hfound] at h
  rw [faults_eq_of_ok (by rw [hdialect, hknown]), hpattern, hother]
  cases hlisted : patternFaults compile (settings.getD patternKey) with
  | error error =>
    rw [hlisted] at h
    cases h
  | ok pattern =>
    rw [hlisted] at h
    have hnone : (found ++ settings.otherFaults.1 ++ pattern) ++ settings.otherFaults.2 = [] :=
      Except.ok.inj h
    simp only [List.append_eq_nil_iff] at hnone
    simp only [Except.map, hnone.1.1.2, hnone.1.2, hnone.2, List.append_nil]

/-- What a file says stays within limits over the defaults and with a dialect put. -/
theorem fits_put_merge {digits depth : Nat} (hdigits : 0 < digits) (hdepth : 1 < depth)
    {members : Json.Members} (hmembers : (Json.object members).Fits digits depth) (name : String) :
    (Json.object ((default.merge members).put dialectKey (.string name))).Fits digits depth :=
  fits_put (fits_merge (fits_default hdigits hdepth) members hmembers) (Json.fits_string name)

end Settings

namespace Program

open Settings (content dialectKey kept pathIn)

variable {host : Host} {directory : Files.Path} {octets : List UInt8} {before : Settings}

/-- Settings that are loaded for a directory with a file of its own are those of that file. -/
theorem eq_merge_of_load (hfind : host.tree.find (pathIn directory) = .ok (.file octets))
    {members : Json.Members}
    (hcontent : content host.platform.limits octets = .ok (.object members))
    {notices : List Notice}
    (hload : Settings.load host.platform.limits host.tree directory .null = .ok (before, notices)) :
    before = Settings.default.merge members := by
  obtain ⟨found, hfound⟩ :=
    Settings.load_of_object .null (Settings.path_of_find hfind).2 hcontent
  rw [hfound] at hload
  cases hload
  rfl

/-- Writing settings again stores those that were loaded, with the dialect of the request. -/
theorem init_of_load (hfind : host.tree.find (pathIn directory) = .ok (.file octets))
    {members : Json.Members}
    (hcontent : content host.platform.limits octets = .ok (.object members))
    {notices : List Notice}
    (hload : Settings.load host.platform.limits host.tree directory .null = .ok (before, notices))
    (hfaults : before.faults host.platform.compile = .ok [])
    (hwritable : (Json.object members).obstacle? host.platform.limits.digits
      host.platform.limits.writingDepth = none)
    {name : String} (hname : name ∈ Settings.dialectNames) :
    ∃ saved, Settings.save host.platform.limits host.tree directory
        (before.put dialectKey (.string name)) = .ok saved ∧
      init host ⟨.init false, directory, some name⟩ false =
        .ok ([line "  Merged with existing config",
          .panel "procargs".toList ("Config: ".toList ++ (pathIn directory).toText)], saved) := by
  have hbefore := eq_merge_of_load hfind hcontent hload
  have hfits : (Json.object (before.put dialectKey (.string name))).Fits
      host.platform.limits.digits host.platform.limits.writingDepth := by
    rw [hbefore]
    exact Settings.fits_put_merge host.platform.limits.digits_pos
      host.platform.limits.one_lt_writingDepth
      ⟨(Settings.fits_content hcontent).faithful, hwritable⟩ name
  obtain ⟨saved, hsaved⟩ := Settings.exists_save hfind (fits_filter _ hfits)
  have hcontains : host.tree.contains (pathIn directory) = true := by
    rw [Files.Tree.contains, hfind]
    rfl
  have hstart : initialSettings host.platform.limits host.tree (pathIn directory) false =
      .ok (before, line "  Merged with existing config") := by
    rw [initialSettings, hcontains, Settings.readJson_of_find hfind, hcontent, hbefore]
    rfl
  have hput : dialectSetting (some name) = .string name := rfl
  refine ⟨saved, hsaved, ?_⟩
  rw [init, hstart]
  dsimp only [bind, Except.bind]
  rw [hput, Settings.faults_put_dialect hfaults hname, hsaved]
  rfl

/-- Settings stay as they are if their dialect is put again and their null members have defaults. -/
theorem kept_put_eq_self_iff (hnodup : before.keys.Nodup) (name : String) :
    kept (before.put dialectKey (.string name)) = before ↔
      before.get? dialectKey = some (.string name) ∧
        ∀ key, before.get? key = some .null → key ∈ Settings.default.keys := by
  have hput : (before.put dialectKey (.string name)).keys.Nodup := nodup_keys_put hnodup
  constructor
  · intro h
    have hget : before.get? dialectKey = some (.string name) := by
      rw [← h, kept, get?_filter _ hput, get?_put, if_pos rfl]
      rfl
    rw [put_get? hnodup hget] at h
    exact ⟨hget, (Settings.kept_eq_self_iff hnodup).mp h⟩
  · rintro ⟨hget, hnull⟩
    rw [put_get? hnodup hget]
    exact (Settings.kept_eq_self_iff hnodup).mpr hnull

/-- Where the settings of a directory are an object without faults, writing them again ends well,
and what is loaded afterwards is what was loaded before with the dialect of the request, which is
the automatic one where none is asked for, and without the null members that have no default. -/
theorem report_init (hfind : host.tree.find (pathIn directory) = .ok (.file octets))
    {members : Json.Members}
    (hcontent : content host.platform.limits octets = .ok (.object members))
    {notices : List Notice}
    (hload : Settings.load host.platform.limits host.tree directory .null = .ok (before, notices))
    (hfaults : before.faults host.platform.compile = .ok [])
    (hwritable : (Json.object members).obstacle? host.platform.limits.digits
      host.platform.limits.writingDepth = none)
    {name : String} (hname : name ∈ Settings.dialectNames) :
    ∃ after : Report, report host ⟨.init false, directory, some name⟩ = .ok after ∧
      after.exitCode = 0 ∧
        ∃ settings found,
          Settings.load host.platform.limits after.tree directory .null = .ok (settings, found) ∧
          settings = kept (before.put dialectKey (.string name)) ∧
            (settings = before ↔ before.get? dialectKey = some (.string name) ∧
              ∀ key, before.get? key = some .null → key ∈ Settings.default.keys) := by
  obtain ⟨saved, hsaved, hinit⟩ := init_of_load hfind hcontent hload hfaults hwritable hname
  have hrun : run host ⟨.init false, directory, some name⟩ = .ok (_, saved) := hinit
  refine ⟨⟨_, 0, saved⟩, by rw [report, hrun], rfl, ?_⟩
  have hbefore := eq_merge_of_load hfind hcontent hload
  have hmembers := Settings.fits_content hcontent
  have hnodup : members.keys.Nodup := ((Json.faithful_object_iff members).mp hmembers.faithful).1
  have hcomplete : Settings.Complete before := by
    rw [hbefore]
    exact Settings.complete_merge hnodup
  have hwritten : (Json.object (before.put dialectKey (.string name))).Fits
      host.platform.limits.digits host.platform.limits.readingDepth := by
    rw [hbefore]
    exact Settings.fits_put_merge host.platform.limits.digits_pos
      host.platform.limits.one_lt_readingDepth hmembers name
  obtain ⟨found, hafter⟩ :=
    (hcomplete.put (by decide) (.string name)).load_of_save hwritten hsaved
  refine ⟨_, found, hafter, rfl, kept_put_eq_self_iff ?_ name⟩
  rw [hbefore]
  exact nodup_keys_merge Settings.nodup_keys_default members

/-- A request to write the settings of the directory `/d` that asks for no dialect. -/
def initialRequest : Request := ⟨.init false, plainRequest.directory, some Dialect.automatic⟩

/-- Macros and a member without a meaning stay. -/
theorem report_init_of_macros :
    let octets := Text.encode "\x7b\"macros\": \x7b\"X\": \"1\"\x7d, \"note\": [null]\x7d".toList
    let before : Settings := Settings.default.merge (.ofList
      [("macros", .object (.ofList [("X", .string "1")])), ("note", .array (.ofList [.null]))])
    ∃ after : Report, report (hostOf octets) initialRequest = .ok after ∧ after.exitCode = 0 ∧
      ∃ found, Settings.load (hostOf octets).platform.limits after.tree
        initialRequest.directory .null = .ok (before, found) := by
  intro octets before
  have hfind : (hostOf octets).tree.find (pathIn initialRequest.directory) =
      .ok (.file octets) := by
    decide +kernel
  have hcontent : content (hostOf octets).platform.limits octets = .ok (.object (.ofList
      [("macros", .object (.ofList [("X", .string "1")])),
        ("note", .array (.ofList [.null]))])) := by
    decide +kernel
  have hload : Settings.load (hostOf octets).platform.limits (hostOf octets).tree
      initialRequest.directory .null = .ok (before, []) := by
    decide +kernel
  have hfaults : before.faults (hostOf octets).platform.compile = .ok [] := by decide +kernel
  have hname : Dialect.automatic ∈ Settings.dialectNames := by decide
  have hdialect : before.get? dialectKey = some (.string Dialect.automatic) := by decide +kernel
  have hnull : ∀ key ∈ before.keys, before.get? key = some .null → key ∈ Settings.default.keys := by
    decide +kernel
  obtain ⟨after, hreport, hexit, settings, found, hafter, -, hsame⟩ :=
    report_init hfind hcontent hload hfaults (by rfl) hname
  obtain rfl : settings = before :=
    hsame.mpr ⟨hdialect, fun key hkey ↦ hnull key (mem_keys_of_get? hkey) hkey⟩
  exact ⟨after, hreport, hexit, found, hafter⟩

/-- The settings that are loaded behind a request. -/
def reloaded (host : Host) (request : Request) : Option Settings :=
  match report host request with
  | .ok after =>
    (Settings.load host.platform.limits after.tree request.directory .null).toOption.map Prod.fst
  | .error _ => none

/-- A dialect that was set becomes the automatic one, though none is asked for, and a null member
without a default is lost. -/
theorem reloaded_init_ne :
    let dialect := hostOf (Text.encode "\x7b\"dialect\": \"unix\"\x7d".toList)
    let note := hostOf (Text.encode "\x7b\"note\": null\x7d".toList)
    let directory := initialRequest.directory
    (∃ before : Settings,
      Settings.load dialect.platform.limits dialect.tree directory .null = .ok (before, []) ∧
        before.faults dialect.platform.compile = .ok [] ∧
          reloaded dialect initialRequest ≠ some before) ∧
      ∃ before : Settings,
        Settings.load note.platform.limits note.tree directory .null = .ok (before, []) ∧
          before.faults note.platform.compile = .ok [] ∧
            reloaded note initialRequest ≠ some before := by
  refine ⟨⟨Settings.default.merge (.ofList [("dialect", .string "unix")]), ?_⟩,
    ⟨Settings.default.merge (.ofList [("note", .null)]), ?_⟩⟩
  · decide +kernel
  · decide +kernel

end Program

end CommandLine
