import CommandLine.Piece

/-!
Words as they are gathered from left to right. A row of pieces is read with the words that are
complete and the word that is open; what has been gathered decides how every further piece counts.
The characters of all words together are the characters of the pieces.
-/

set_option autoImplicit false

namespace CommandLine

namespace Piece

/-- The characters among pieces. -/
def text : List Piece → List Char
  | [] => []
  | char c :: rest => c :: text rest
  | opening :: rest | closing :: rest | gap :: rest => text rest

@[simp] theorem text_append (first second : List Piece) :
    text (first ++ second) = text first ++ text second := by
  induction first with
  | nil => rfl
  | cons piece rest ih => cases piece <;> simp [text, ih]

@[simp] theorem text_chars (characters : List Char) : text (chars characters) = characters := by
  induction characters with
  | nil => rfl
  | cons c rest ih => simpa [chars, text] using ih

@[simp] theorem chars_nil : chars [] = [] := rfl

@[simp] theorem gap_notMem_chars (characters : List Char) : gap ∉ chars characters := by
  simp [chars]

@[simp] theorem chars_append (first second : List Char) :
    chars (first ++ second) = chars first ++ chars second := List.map_append

/-- No character is lost or invented by grouping pieces into words. -/
theorem flatten_words (pieces : List Piece) : (words pieces).flatten = text pieces := by
  have hgroup : (group pieces).1.getD [] ++ (group pieces).2.flatten = text pieces := by
    induction pieces with
    | nil => rfl
    | cons piece rest ih =>
      cases piece with
      | char c => simp [group, text, ih]
      | opening | closing => simpa [group, text] using ih
      | gap =>
        rw [text, ← ih]
        cases h : (group rest).1 <;> simp [group, h]
  rw [← hgroup]
  cases h : (group pieces).1 <;> simp [words, h]

/-- Pieces without a gap in front belong to the first word. -/
theorem group_append_of_gap_notMem {first : List Piece} (hgap : gap ∉ first) (hfirst : first ≠ [])
    (second : List Piece) :
    group (first ++ second) =
      (some (text first ++ (group second).1.getD []), (group second).2) := by
  induction first with
  | nil => exact absurd rfl hfirst
  | cons piece rest ih =>
    have hrest : gap ∉ rest := fun h ↦ hgap (List.mem_cons_of_mem _ h)
    by_cases hnil : rest = []
    · subst hnil
      cases piece <;> simp_all [group, text]
    · have := ih hrest hnil
      cases piece <;> simp_all [group, text]

/-- Pieces without a gap are one word. -/
theorem words_of_gap_notMem {pieces : List Piece} (hgap : gap ∉ pieces) (hpieces : pieces ≠ []) :
    words pieces = [text pieces] := by
  have hgroup := group_append_of_gap_notMem hgap hpieces []
  rw [List.append_nil] at hgroup
  simp [words, hgroup, group]

/-- Gaps between rows of pieces keep the words of each row apart. -/
theorem words_append_flatMap_gap (first : List Piece) (rows : List (List Piece)) :
    words (first ++ rows.flatMap (gap :: ·)) = words first ++ rows.flatMap words := by
  induction rows generalizing first with
  | nil => simp
  | cons row rest ih =>
    rw [List.flatMap_cons, List.cons_append, words_append_gap, ih, List.flatMap_cons]

/-- What has been gathered from pieces: the words that are complete and the one that is open. -/
structure Gathered where
  complete : List Word
  current : Option Word
  deriving DecidableEq, Repr

namespace Gathered

def none : Gathered := ⟨[], .none⟩

/-- What is gathered with one more piece. -/
def add (gathered : Gathered) : Piece → Gathered
  | char c => ⟨gathered.complete, some (gathered.current.getD [] ++ [c])⟩
  | opening | closing => ⟨gathered.complete, some (gathered.current.getD [])⟩
  | gap => ⟨gathered.complete ++ gathered.current.toList, .none⟩

def addAll (gathered : Gathered) (pieces : List Piece) : Gathered := pieces.foldl add gathered

/-- The words when nothing follows. -/
def words (gathered : Gathered) : List Word := gathered.complete ++ gathered.current.toList

@[simp] theorem addAll_nil (gathered : Gathered) : gathered.addAll [] = gathered := rfl

@[simp] theorem addAll_cons (gathered : Gathered) (piece : Piece) (pieces : List Piece) :
    gathered.addAll (piece :: pieces) = (gathered.add piece).addAll pieces := rfl

@[simp] theorem addAll_append (gathered : Gathered) (first second : List Piece) :
    gathered.addAll (first ++ second) = (gathered.addAll first).addAll second :=
  List.foldl_append

/-- Pieces without a gap extend the open word. -/
theorem addAll_of_gap_notMem (gathered : Gathered) {pieces : List Piece} (hgap : gap ∉ pieces)
    (hpieces : pieces ≠ []) :
    gathered.addAll pieces =
      ⟨gathered.complete, some (gathered.current.getD [] ++ text pieces)⟩ := by
  induction pieces generalizing gathered with
  | nil => exact absurd rfl hpieces
  | cons piece rest ih =>
    have hrest : gap ∉ rest := fun h ↦ hgap (List.mem_cons_of_mem _ h)
    by_cases hnil : rest = []
    · subst hnil
      cases piece <;> simp_all [add, text]
    · rw [addAll_cons, ih (gathered.add piece) hrest hnil]
      cases piece <;> simp_all [add, text]

/-- Only the characters of pieces without a gap count. -/
theorem addAll_eq_of_text_eq (gathered : Gathered) {first second : List Piece}
    (hfirst : gap ∉ first) (hsecond : gap ∉ second) (htext : text first = text second)
    (hne : text second ≠ []) : gathered.addAll first = gathered.addAll second := by
  have hnil {pieces : List Piece} (h : text pieces ≠ []) : pieces ≠ [] := by
    rintro rfl
    exact h rfl
  rw [addAll_of_gap_notMem gathered hfirst (hnil (by rwa [htext])),
    addAll_of_gap_notMem gathered hsecond (hnil hne), htext]

/-- A closing mark changes nothing in an open word. -/
theorem add_closing {gathered : Gathered} (h : gathered.current.isSome = true) :
    gathered.add closing = gathered := by
  obtain ⟨complete, current⟩ := gathered
  obtain ⟨word, rfl⟩ := Option.isSome_iff_exists.mp h
  rfl

/-- A piece that opens a word changes nothing in an open word. -/
theorem add_opening {gathered : Gathered} (h : gathered.current.isSome = true) :
    gathered.add opening = gathered := add_closing h

theorem add_opening_add_opening (gathered : Gathered) :
    (gathered.add opening).add opening = gathered.add opening := add_opening rfl

/-- A word that goes on is open anyway. -/
theorem addAll_add_opening (gathered : Gathered) {piece : Piece} (hpiece : piece ≠ gap)
    (rest : List Piece) :
    (gathered.add opening).addAll (piece :: rest) = gathered.addAll (piece :: rest) := by
  cases piece with
  | gap => exact absurd rfl hpiece
  | char | opening | closing => simp [add]

/-- Pieces without a gap leave a word open. -/
theorem isSome_addAll (gathered : Gathered) {pieces : List Piece} (hgap : gap ∉ pieces)
    (h : pieces ≠ [] ∨ gathered.current.isSome = true) :
    (gathered.addAll pieces).current.isSome = true := by
  by_cases hnil : pieces = []
  · subst hnil
    exact h.resolve_left fun hne ↦ hne rfl
  · rw [addAll_of_gap_notMem gathered hgap hnil]
    rfl

/-- Gathering from the left finds the words that grouping from the right finds. -/
theorem words_addAll (gathered : Gathered) (pieces : List Piece) :
    (gathered.addAll pieces).words =
      gathered.complete ++
        match gathered.current with
        | .none => Piece.words pieces
        | some word => (word ++ (group pieces).1.getD []) :: (group pieces).2 := by
  induction pieces generalizing gathered with
  | nil =>
    cases h : gathered.current <;> simp [words, h, group]
  | cons piece rest ih =>
    rw [addAll_cons, ih]
    cases h : gathered.current <;> cases piece <;> simp [add, h, group, Piece.words]

theorem words_addAll_none (pieces : List Piece) :
    (none.addAll pieces).words = Piece.words pieces := by
  simp [words_addAll, none]

/-- What has been gathered, with every character replaced. -/
def replace (replacement : Char → List Char) (gathered : Gathered) : Gathered :=
  ⟨gathered.complete.map (List.flatMap replacement),
    gathered.current.map (List.flatMap replacement)⟩

theorem words_replace (replacement : Char → List Char) (gathered : Gathered) :
    (gathered.replace replacement).words = gathered.words.map (List.flatMap replacement) := by
  cases h : gathered.current <;> simp [replace, words, h]

/-- A piece whose character stands for itself is added after the replacement as before it. -/
theorem replace_add {replacement : Char → List Char} (gathered : Gathered) {piece : Piece}
    (h : ∀ c, piece = char c → replacement c = [c]) :
    (gathered.add piece).replace replacement = (gathered.replace replacement).add piece := by
  cases piece with
  | char c => cases hc : gathered.current <;> simp [add, replace, hc, h c rfl]
  | opening | closing => cases hc : gathered.current <;> simp [add, replace, hc]
  | gap => cases hc : gathered.current <;> simp [add, replace, hc]

theorem replace_addAll {replacement : Char → List Char} (gathered : Gathered)
    {pieces : List Piece} (h : ∀ c, char c ∈ pieces → replacement c = [c]) :
    (gathered.addAll pieces).replace replacement =
      (gathered.replace replacement).addAll pieces := by
  induction pieces generalizing gathered with
  | nil => rfl
  | cons piece rest ih =>
    have hpiece : ∀ c, piece = char c → replacement c = [c] := fun c hc ↦ h c (by simp [hc])
    have hrest : ∀ c, char c ∈ rest → replacement c = [c] := fun c hc ↦
      h c (List.mem_cons_of_mem _ hc)
    rw [addAll_cons, addAll_cons, ih _ hrest, replace_add gathered hpiece]

/-- A character that is replaced extends the open word by what it stands for. -/
theorem replace_add_char (replacement : Char → List Char) (gathered : Gathered) (c : Char) :
    (gathered.add (char c)).replace replacement =
      ⟨(gathered.replace replacement).complete,
        some ((gathered.replace replacement).current.getD [] ++ replacement c)⟩ := by
  cases hc : gathered.current <;> simp [add, replace, hc]

/-- A character that stands for nothing opens a word. -/
theorem replace_add_of_eq_nil {replacement : Char → List Char} {c : Char}
    (h : replacement c = []) (gathered : Gathered) :
    (gathered.add (char c)).replace replacement = (gathered.replace replacement).add opening := by
  rw [replace_add_char, h, List.append_nil]
  rfl

/-- Pieces that spell out what a character stands for are added as the character is replaced. -/
theorem addAll_replace {replacement : Char → List Char} (gathered : Gathered) {c : Char}
    {pieces : List Piece} (hgap : gap ∉ pieces) (htext : text pieces = replacement c)
    (hword : pieces = [] → gathered.current.isSome = true) :
    (gathered.replace replacement).addAll pieces = (gathered.add (char c)).replace replacement := by
  rw [replace_add_char, ← htext]
  by_cases hpieces : pieces = []
  · obtain ⟨word, hcurrent⟩ := Option.isSome_iff_exists.mp (hword hpieces)
    simp [hpieces, replace, hcurrent, text]
  · exact addAll_of_gap_notMem _ hgap hpieces

end Gathered

end Piece

end CommandLine
