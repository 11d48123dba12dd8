import CommandLine.Proofs.Files.Tree
import CommandLine.Proofs.Json.Written
import CommandLine.Settings.Store

/-!
What a settings file says, and what it makes of the defaults. The nearest file for a directory is
its own, where there is one, also if the directory is written with double dots. A file of octets
that are no text, of a value beyond the limits of the reader, or of one that is no object, is no
settings file, and loading it fails.
-/

set_option autoImplicit false

namespace CommandLine.Settings

variable {limits : Json.Limits} {tree : Files.Tree} {path directory : Files.Path}
  {octets : List UInt8}

/-! ### The nearest file -/

theorem pathIn_resolve (directory : Files.Path) :
    pathIn directory.resolve = (pathIn directory).resolve := by
  have hfolder : ".procargs".toList ≠ ['.', '.'] := by decide
  have hname : "config.json".toList ≠ ['.', '.'] := by decide
  simp only [pathIn, Files.Path.child, Files.Path.resolve, Files.Path.resolvedParts_eq,
    List.foldl_append, List.foldl_cons, List.foldl_nil]
  rw [Files.Tree.step, if_neg hname, Files.Tree.step, if_neg hfolder]

theorem upward_eq_cons (directory : Files.Path) :
    ∃ others, upward directory = directory :: others := by
  have hself : above directory 0 = directory := by
    rw [above, Nat.sub_zero, List.take_length]
  refine ⟨(List.range directory.parts.length).map fun count ↦ above directory (count + 1), ?_⟩
  rw [upward, List.range_succ_eq_map, List.map_cons, List.map_map, hself]
  rfl

/-- The file of a directory is the nearest one. -/
theorem path_of_find (h : tree.find (pathIn directory) = .ok (.file octets)) :
    Settings.path tree directory = pathIn directory.resolve ∧
      tree.find (Settings.path tree directory) = .ok (.file octets) := by
  have hresolved := Files.Tree.find_resolve h
  rw [← pathIn_resolve] at hresolved
  have hfile : tree.isFile (pathIn directory.resolve) = true :=
    Files.Tree.isFile_iff.mpr ⟨octets, hresolved⟩
  obtain ⟨others, hupward⟩ := upward_eq_cons directory.resolve
  have hpath : Settings.path tree directory = pathIn directory.resolve := by
    rw [Settings.path, hupward, List.map_cons, List.find?_cons_of_pos hfile, Option.getD_some]
  exact ⟨hpath, by rw [hpath, hresolved]⟩

/-! ### Contents -/

/-- What the octets of a settings file say; what is not JSON says nothing. -/
def content (limits : Json.Limits) (octets : List UInt8) : Except Error Json :=
  match Text.decode octets with
  | .error error => .error (.read (.encoding error))
  | .ok text => value limits (Text.unifyLineEnds text)

theorem readJson_of_find (h : tree.find path = .ok (.file octets)) :
    readJson limits tree path = content limits octets := by
  rw [readJson, Files.Tree.readText, Files.Tree.read_eq_ok_iff.mpr h]
  dsimp only
  rw [content]
  cases Text.decode octets <;> rfl

theorem fits_content {value : Json} (h : content limits octets = .ok value) :
    value.Fits limits.digits limits.readingDepth := by
  rw [content] at h
  split at h
  · cases h
  · rename_i text _
    rw [Settings.value] at h
    split at h
    · rename_i found hread
      obtain rfl := Except.ok.inj h
      exact Json.fits_of_read hread
    · obtain rfl := Except.ok.inj h
      exact Json.fits_empty_iff.mpr (Nat.lt_of_succ_lt limits.one_lt_readingDepth)
    · cases h

/-- What keeps a file from saying anything: its octets, or what a reader does not take. -/
theorem error_of_content {error : Error} (h : content limits octets = .error error) :
    (∃ failure, Text.decode octets = .error failure) ∨
      ∃ obstacle, error = .unreadable obstacle := by
  rw [content] at h
  split at h
  · rename_i failure hdecode
    exact .inl ⟨failure, hdecode⟩
  · rw [value] at h
    split at h
    · cases h
    · cases h
    · cases h
      exact .inr ⟨_, rfl⟩

/-- A file that is written of settings within the limits of the reader says them. -/
theorem content_encode_fileText {settings : Settings}
    (h : (Json.object settings).Fits limits.digits limits.readingDepth) :
    content limits (Text.encode (fileText settings)) = .ok (.object settings) := by
  have hplain : ∀ c ∈ fileText settings, Text.IsPlain c := List.forall_mem_append.mpr
    ⟨Json.isPlain_write 0 _ h.faithful.canonical, Text.isPlain_of_all (by decide)⟩
  have hreturn : '\r' ∉ fileText settings := fun hmem ↦ (hplain _ hmem).2 rfl
  have hread : Json.read limits (fileText settings) = .ok (.object settings) :=
    Json.read_write (.indented 0) h (List.all_eq_true.mp (by decide))
  rw [content, Text.decode_encode hplain]
  dsimp only
  rw [Text.unifyLineEnds_eq_self hreturn, value, hread]

/-! ### Loading -/

theorem withStored_of_find (h : tree.find path = .ok (.file octets)) (settings : Settings) :
    withStored limits tree path settings = do
      let stored ← content limits octets
      let merged ← mergeValue settings stored
      return (merged,
        if stored.isBlank then [.unreadableSettings (String.ofList path.toText)] else []) := by
  have hcontains : tree.contains path = true := by
    rw [Files.Tree.contains, h]
    rfl
  rw [withStored, if_pos hcontains, readJson_of_find h]

variable (asked : Json)

/-- Loading an object puts its members, and then what is asked for, over the defaults. -/
theorem load_of_object (h : tree.find (Settings.path tree directory) = .ok (.file octets))
    {members : Json.Members} (hcontent : content limits octets = .ok (.object members)) :
    ∃ notices, load limits tree directory asked =
      (withAsked asked (default.merge members)).map (·, notices) := by
  refine ⟨if (Json.object members).isBlank then
    [.unreadableSettings (String.ofList (Settings.path tree directory).toText)] else [], ?_⟩
  rw [load, withStored_of_find h, hcontent]
  change (withAsked asked (default.merge members)).bind (fun all ↦ .ok (all, _)) = _
  cases withAsked asked (default.merge members) <;> rfl

/-- Loading what is no text, or beyond the limits of the reader, fails. -/
theorem load_of_error (h : tree.find (Settings.path tree directory) = .ok (.file octets))
    {error : Error} (hcontent : content limits octets = .error error) :
    load limits tree directory asked = .error error := by
  rw [load, withStored_of_find h, hcontent]
  rfl

/-- Loading a value that is no object fails. -/
theorem load_of_not_object (h : tree.find (Settings.path tree directory) = .ok (.file octets))
    {value : Json} (hcontent : content limits octets = .ok value) (hkind : value.kind ≠ .object) :
    load limits tree directory asked = .error (.access (.noItems value.kind)) := by
  rw [load, withStored_of_find h, hcontent]
  cases value with
  | object members => exact absurd rfl hkind
  | null | bool | int | float | string | array => rfl

/-! ### Saving -/

/-- Settings that are saved for a directory are found in its file. -/
theorem find_of_save {saved : Files.Tree} {settings : Settings}
    (h : save limits tree directory settings = .ok saved) :
    saved.find (pathIn directory) = .ok (.file (Text.encode (fileText (changed settings)))) := by
  rw [save] at h
  cases hmade : tree.makeDirectories (pathIn directory).parent with
  | error error => simp [hmade, Except.mapError, bind, Except.bind] at h
  | ok made =>
    cases hobstacle :
        (Json.object (changed settings)).obstacle? limits.digits limits.writingDepth with
    | some obstacle =>
      simp [hmade, hobstacle, Except.mapError, bind, Except.bind] at h
    | none =>
      cases hwritten : made.writeText (pathIn directory) (fileText (changed settings)) with
      | error error =>
        simp [hmade, hobstacle, hwritten, Except.mapError, bind, Except.bind] at h
      | ok written =>
        simp only [hmade, hobstacle, hwritten, Except.mapError, bind, Except.bind,
          Except.ok.injEq] at h
        rw [← h]
        exact Files.Tree.find_of_write hwritten

/-- Where a directory has a file of settings, others within the limits of the writer can be
saved. -/
theorem exists_save (h : tree.find (pathIn directory) = .ok (.file octets)) {settings : Settings}
    (hfits : (Json.object (changed settings)).Fits limits.digits limits.writingDepth) :
    ∃ saved, save limits tree directory settings = .ok saved := by
  have hparent : (pathIn directory).parent = directory.child ".procargs".toList := by
    simp [pathIn, Files.Path.child, Files.Path.parent]
  have hdirectory : tree.find (pathIn directory).parent = .ok .directory := by
    rw [hparent]
    exact Files.Tree.find_of_child h
  obtain ⟨saved, hsaved⟩ := Files.Tree.exists_write h (Text.encode (fileText (changed settings)))
  refine ⟨saved, ?_⟩
  rw [save, Files.Tree.makeDirectories_of_find hdirectory]
  simp only [hfits.unhindered, Except.mapError, bind, Except.bind, Files.Tree.writeText, hsaved]

/-- Loading what was saved puts what was stored of it over the defaults. -/
theorem load_of_save {saved : Files.Tree} {settings : Settings}
    (hfits : (Json.object (changed settings)).Fits limits.digits limits.readingDepth)
    (h : save limits tree directory settings = .ok saved) :
    ∃ notices, load limits saved directory .null =
      .ok (default.merge (changed settings), notices) := by
  obtain ⟨notices, hload⟩ := load_of_object .null (path_of_find (find_of_save h)).2
    (content_encode_fileText hfits)
  exact ⟨notices, hload⟩

end CommandLine.Settings
