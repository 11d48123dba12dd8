import CommandLine.Files.Tree
import Mathlib.Data.List.Basic
import Mathlib.Data.List.Infix

/-!
Walks through a tree of files. A walk that gets anywhere passes directories alone, and where it ends
it can be repeated without the double dots; so a path and the same path resolved name one thing. A
file that is written stands at the end of its path, since it takes the place of no directory that
the walk there passes.
-/

set_option autoImplicit false

namespace CommandLine.Files

namespace Tree

variable {tree : Tree} {place last : Place} {parts : List (List Char)}

/-! ### Walks -/

theorem walk_cons_of_directory (h : tree.get? place = some .directory) (part : List Char) :
    tree.walk place (part :: parts) = tree.walk (step place part) parts := by
  rw [walk, h]

/-- A walk goes on only from a directory. -/
theorem walk_cons_eq_ok {part : List Char} (h : tree.walk place (part :: parts) = .ok last) :
    tree.get? place = some .directory ∧ tree.walk (step place part) parts = .ok last := by
  rw [walk] at h
  split at h
  · rename_i hdirectory
    exact ⟨hdirectory, h⟩
  · cases h
  · cases h

/-- A walk goes on where a walk has ended. -/
theorem walk_append (h : tree.walk place parts = .ok last) (behind : List (List Char)) :
    tree.walk place (parts ++ behind) = tree.walk last behind := by
  induction parts generalizing place with
  | nil => rw [List.nil_append, Except.ok.inj h]
  | cons part parts ih =>
    obtain ⟨hdirectory, hrest⟩ := walk_cons_eq_ok h
    rw [List.cons_append, walk_cons_of_directory hdirectory, ih hrest]

theorem exists_walk_of_append {behind : List (List Char)}
    (h : tree.walk place (parts ++ behind) = .ok last) :
    ∃ middle, tree.walk place parts = .ok middle ∧ tree.walk middle behind = .ok last := by
  induction parts generalizing place with
  | nil => exact ⟨place, rfl, h⟩
  | cons part parts ih =>
    obtain ⟨hdirectory, hrest⟩ := walk_cons_eq_ok h
    obtain ⟨middle, hparts, hbehind⟩ := ih hrest
    exact ⟨middle, by rw [walk_cons_of_directory hdirectory, hparts], hbehind⟩

/-- A walk ends where its parts lead. -/
theorem eq_foldl_of_walk (h : tree.walk place parts = .ok last) :
    last = parts.foldl step place := by
  induction parts generalizing place with
  | nil => exact (Except.ok.inj h).symm
  | cons part parts ih => exact ih (walk_cons_eq_ok h).2

/-! ### Resolved paths -/

/-- A place all above which are directories, named without double dots. -/
structure Grounded (tree : Tree) (place : Place) : Prop where
  above : ∀ front, front <+: place → front ≠ place → tree.get? front = some .directory
  names : ['.', '.'] ∉ place

theorem grounded_top (tree : Tree) : tree.Grounded [] := by
  refine ⟨fun front hprefix hne ↦ ?_, List.not_mem_nil⟩
  exact absurd (List.prefix_nil.mp hprefix) hne

theorem Grounded.of_prefix {front : Place} (hplace : tree.Grounded place) (h : front <+: place) :
    tree.Grounded front := by
  refine ⟨fun other hother hne ↦ ?_, fun hmem ↦ hplace.names (h.subset hmem)⟩
  refine hplace.above other (hother.trans h) fun heq ↦ hne (hother.eq_of_length_le ?_)
  rw [heq]
  exact h.length_le

theorem Grounded.step (hplace : tree.Grounded place)
    (hdirectory : tree.get? place = some .directory) (part : List Char) :
    tree.Grounded (step place part) := by
  unfold Tree.step
  split
  · exact hplace.of_prefix (List.dropLast_prefix place)
  · rename_i hname
    refine ⟨fun front hprefix hne ↦ ?_, ?_⟩
    · rcases List.prefix_concat_iff.mp hprefix with heq | habove
      · exact absurd heq hne
      · by_cases hfront : front = place
        · rwa [hfront]
        · exact hplace.above front habove hfront
    · simpa using ⟨hplace.names, Ne.symm hname⟩

/-- A walk stays grounded. -/
theorem Grounded.walk (hplace : tree.Grounded place) (h : tree.walk place parts = .ok last) :
    tree.Grounded last := by
  induction parts generalizing place with
  | nil => rwa [← Except.ok.inj h]
  | cons part parts ih =>
    obtain ⟨hdirectory, hrest⟩ := walk_cons_eq_ok h
    exact ih (hplace.step hdirectory part) hrest

/-- The names of a grounded place lead there from the top. -/
theorem Grounded.walk_names (hplace : tree.Grounded place) : tree.walk [] place = .ok place := by
  induction place using List.reverseRecOn with
  | nil => rfl
  | append_singleton front name ih =>
    have hprefix : front <+: front ++ [name] := List.prefix_append front [name]
    have hdirectory := hplace.above front hprefix (by simp)
    have hname : name ≠ ['.', '.'] := by
      rintro rfl
      exact hplace.names (by simp)
    rw [walk_append (ih (hplace.of_prefix hprefix)), walk_cons_of_directory hdirectory, Tree.step,
      if_neg hname]
    rfl

end Tree

/-- Taking the double dots away is stepping through the parts. -/
theorem Path.resolvedParts_eq (parts : List (List Char)) :
    resolvedParts parts = parts.foldl Tree.step [] := by
  have hgeneral : ∀ reversed : List (List Char),
      (parts.foldl (fun reversed part ↦
        if part = ['.', '.'] then reversed.tail else part :: reversed) reversed).reverse =
        parts.foldl Tree.step reversed.reverse := by
    induction parts with
    | nil => exact fun reversed ↦ rfl
    | cons part parts ih =>
      intro reversed
      rw [List.foldl_cons, List.foldl_cons, ih, Tree.step]
      split
      · rw [List.dropLast_reverse]
      · rw [List.reverse_cons]
  exact hgeneral []

namespace Tree

variable {tree : Tree} {place : Place} {path : Path} {entry : Entry}

/-- A path that leads to a place does so without its double dots. -/
theorem placeOf_resolve (h : tree.placeOf path = .ok place) :
    tree.placeOf path.resolve = .ok place := by
  have hparts : path.resolve.parts = place := by
    rw [Path.resolve, Path.resolvedParts_eq, ← eq_foldl_of_walk h]
  rw [placeOf, hparts]
  exact ((grounded_top tree).walk h).walk_names

/-! ### What is found -/

theorem find_eq_ok_iff : tree.find path = .ok entry ↔
    ∃ place, tree.placeOf path = .ok place ∧ tree.get? place = some entry := by
  unfold find
  cases tree.placeOf path with
  | error obstacle => simp [bind, Except.bind]
  | ok place =>
    cases hentry : tree.get? place with
    | none => simp [bind, Except.bind, hentry, throw, throwThe, MonadExceptOf.throw]
    | some found => simp [bind, Except.bind, hentry, pure, Except.pure]

theorem isFile_iff : tree.isFile path = true ↔ ∃ octets, tree.find path = .ok (.file octets) := by
  unfold isFile
  split
  · rename_i octets hfind
    simp [hfind]
  · rename_i hnone
    simp only [Bool.false_eq_true, false_iff, not_exists]
    exact fun octets hfind ↦ hnone octets hfind

/-- What is found at a path is found at the path resolved. -/
theorem find_resolve (h : tree.find path = .ok entry) : tree.find path.resolve = .ok entry := by
  obtain ⟨place, hplace, hentry⟩ := find_eq_ok_iff.mp h
  exact find_eq_ok_iff.mpr ⟨place, placeOf_resolve hplace, hentry⟩

/-- What stands below a path stands in a directory. -/
theorem find_of_child {name : List Char} (h : tree.find (path.child name) = .ok entry) :
    tree.find path = .ok .directory := by
  obtain ⟨place, hplace, -⟩ := find_eq_ok_iff.mp h
  obtain ⟨middle, hmiddle, hlast⟩ := exists_walk_of_append hplace
  exact find_eq_ok_iff.mpr ⟨middle, hmiddle, (walk_cons_eq_ok hlast).1⟩

theorem read_eq_ok_iff {octets : List UInt8} :
    tree.read path = .ok octets ↔ tree.find path = .ok (.file octets) := by
  unfold read
  split <;> simp_all

/-! ### Writing -/

/-- A walk passes by what is put where no directory stands. -/
theorem walk_put {written last : Place} {parts : List (List Char)}
    (h : tree.walk place parts = .ok last) (hwritten : tree.get? written ≠ some .directory)
    (entry : Entry) : (tree.put written entry).walk place parts = .ok last := by
  have htop : written ≠ [] := by
    rintro rfl
    exact hwritten rfl
  induction parts generalizing place with
  | nil => exact h
  | cons part parts ih =>
    obtain ⟨hdirectory, hrest⟩ := walk_cons_eq_ok h
    have hne : written ≠ place := by
      rintro rfl
      exact hwritten hdirectory
    have hkept : (tree.put written entry).get? place = some .directory := by
      rw [get?_put _ _ _ _ htop, if_neg hne, hdirectory]
    rw [walk_cons_of_directory hkept, ih hrest]

theorem write_eq_ok {octets : List UInt8} {written : Tree}
    (h : tree.write path octets = .ok written) :
    ∃ place, tree.placeOf path = .ok place ∧ tree.get? place ≠ some .directory ∧
      written = tree.put place (.file octets) := by
  unfold write at h
  split at h
  · cases h
  · rename_i place hplace
    split at h
    · cases h
    · rename_i hdirectory
      exact ⟨place, hplace, hdirectory, (Except.ok.inj h).symm⟩

/-- A file that is written is found. -/
theorem find_of_write {octets : List UInt8} {written : Tree}
    (h : tree.write path octets = .ok written) : written.find path = .ok (.file octets) := by
  obtain ⟨place, hplace, hdirectory, rfl⟩ := write_eq_ok h
  have htop : place ≠ [] := by
    rintro rfl
    exact hdirectory rfl
  refine find_eq_ok_iff.mpr ⟨place, walk_put hplace hdirectory _, ?_⟩
  rw [get?_put _ _ _ _ htop, if_pos rfl]

/-- A file that is there can be written over. -/
theorem exists_write {old : List UInt8} (h : tree.find path = .ok (.file old))
    (octets : List UInt8) : ∃ written, tree.write path octets = .ok written := by
  obtain ⟨place, hplace, hfile⟩ := find_eq_ok_iff.mp h
  refine ⟨tree.put place (.file octets), ?_⟩
  unfold write
  rw [hplace]
  exact if_neg (by simp [hfile])

/-! ### Directories -/

/-- A directory that is there need not be made. -/
theorem makeDirectories_of_find (h : tree.find path = .ok .directory) :
    tree.makeDirectories path = .ok tree := by
  obtain ⟨place, hplace, hdirectory⟩ := find_eq_ok_iff.mp h
  unfold makeDirectories
  cases hreversed : path.parts.reverse with
  | nil => rfl
  | cons part above =>
    have hpath : (⟨path.root, (part :: above).reverse⟩ : Path) = path := by
      rw [← hreversed, List.reverse_reverse]
    have hmake : tree.makeDirectory path = .error ⟨.present, path⟩ := by
      unfold makeDirectory
      rw [hplace]
      exact if_pos (by simp [hdirectory])
    have hpresent : tree.isDirectory path = true := by
      rw [isDirectory, h]
    unfold makeAbove
    simp only [hpath, hmake, orPresent, hpresent, if_true]

end Tree

end CommandLine.Files
