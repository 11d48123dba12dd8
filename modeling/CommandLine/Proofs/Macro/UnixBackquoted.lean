import CommandLine.Proofs.Macro.UnixAlongside
import CommandLine.Proofs.Macro.UnixOpeners
import CommandLine.Proofs.Macro.UnixShifts

/-!
Backquoted commands with macros. A command is written between backquotes with a backslash in front
of what a backquoted command would take for something else. The scan takes these backslashes away
and goes on inside of a substitution as it would in the command alone, so that the values come out
the same; the escapes of a double quotation around the backquotes come off together with the others.
-/

set_option autoImplicit false

namespace CommandLine.Macro.Unix

namespace Scan

/-! ### Escaped commands -/

/-- A command as it is written between backquotes. -/
def escaped (quoted : Bool) (text : List Char) : List Char :=
  text.flatMap fun c ↦ if isUnescaped quoted c then ['\\', c] else [c]

/-- The escapes of a command, which unquoting takes away. -/
def escapes (quoted : Bool) (text : List Char) : Edits :=
  text.map fun c ↦ if isUnescaped quoted c then .edit ['\\', c] [c] else .same c

variable {quoted : Bool}

theorem text_escapes_false (text : List Char) :
    (escapes quoted text).text false = escaped quoted text := by
  induction text with
  | nil => rfl
  | cons c rest ih =>
    rw [escapes, List.map_cons, Edits.text_cons, escaped, List.flatMap_cons]
    refine congrArg₂ (· ++ ·) ?_ ih
    split <;> rfl

theorem text_escapes_true (text : List Char) : (escapes quoted text).text true = text := by
  induction text with
  | nil => rfl
  | cons c rest ih =>
    rw [escapes, List.map_cons, Edits.text_cons]
    refine (congrArg₂ (· ++ ·) ?_ ih).trans List.singleton_append
    split <;> rfl

theorem unquoting_escaped (text tail : List Char) :
    unquoting quoted (escaped quoted text ++ '`' :: tail) =
      escapes quoted text ++ closingMark :: Edits.unchanged tail := by
  induction text with
  | nil => rfl
  | cons c rest ih =>
    rw [escaped, List.flatMap_cons, escapes, List.map_cons, List.append_assoc, List.cons_append]
    split
    · rename_i hc
      rw [List.cons_append, List.cons_append, unquoting, if_pos hc]
      exact congrArg _ ih
    · rename_i hc
      rw [List.singleton_append, unquoting]
      · exact congrArg _ ih
      · rintro rfl
        simp [isUnescaped] at hc
      · rintro d behind rfl
        simp [isUnescaped] at hc

theorem isPlain_escapes (text : List Char) : (escapes quoted text).IsPlain := by
  have hplain : (unquoting quoted (escaped quoted text ++ ['`'])).IsPlain := isPlain_unquoting _
  rw [unquoting_escaped] at hplain
  exact hplain.of_append.1

/-- An escape stands for a character that is in no name, and is one itself. -/
theorem not_ordinary_of_hasEdit {text : List Char} {inside : Edits}
    (hinside : inside <:+: escapes quoted text) (hedit : inside.HasEdit) (edited : Bool) :
    ∃ c ∈ inside.text edited, ¬IsOrdinary c := by
  obtain ⟨cell, hcell, hcelledit⟩ := hedit
  obtain ⟨c, -, hc⟩ := List.mem_map.mp (hinside.subset hcell)
  split at hc
  · rename_i hunescaped
    subst hc
    have hmem : c ∈ (Cell.edit ['\\', c] [c]).text edited := by cases edited <;> simp [Cell.text]
    refine ⟨c, List.mem_flatMap.mpr ⟨_, hcell, hmem⟩, ?_⟩
    simp [IsOrdinary, isUnescaped_of_false hunescaped]
  · subst hc
    exact hcelledit.elim

variable {macros : Macros} (hpattern : macros.pattern = .default)
  (hnames : HasOrdinaryNames macros)

include hpattern hnames in
/-- The first macro of an escaped command is that of the command, which no escape reaches into. -/
theorem exists_find_escaped {text : List Char} {found : Occurrence}
    (hfound : macros.find text = some found) :
    ∃ front others, escapes quoted text = front ++ others ∧
      found.gap = (front.text true).length ∧
      macros.find (escaped quoted text) =
        some { found with gap := (front.text false).length } := by
  have hunknown {inside : Edits} (hinside : inside <:+: escapes quoted text)
      (hedit : inside.HasEdit) (edited : Bool) :
      macros.values.get? (inside.text edited) = none := by
    obtain ⟨c, hc, hordinary⟩ := not_ordinary_of_hasEdit hinside hedit edited
    cases hvalue : macros.values.get? (inside.text edited) with
    | none => rfl
    | some value => exact absurd (hnames _ value hvalue c hc) hordinary
  have hfinds := Edits.finds hpattern (isPlain_escapes text) fun inside hinside hedit ↦
    hunknown hinside hedit true
  have htrue : (escapes quoted text).text true = text := text_escapes_true text
  rw [← text_escapes_false]
  rw [← htrue] at hfound
  cases hfinds with
  | none hnone =>
    rw [hnone] at hfound
    cases hfound
  | same front name behind value hcells _ hsome =>
    rw [hsome, Option.some.injEq] at hfound
    subst hfound
    exact ⟨front, Edits.unchanged (spelled name) ++ behind, by simp [hcells], rfl, hsome false⟩
  | edited front inside behind value hcells hedit hvalue _ =>
    have hinside : inside <:+: escapes quoted text :=
      ⟨front ++ [.same '%', .same '{'], .same '}' :: behind, by simp [hcells, Edits.word]⟩
    rw [hunknown hinside hedit false] at hvalue
    cases hvalue

include hpattern hnames in
theorem exists_find_backquoted {text tail : List Char} {found : Occurrence}
    (htail : '}' ∉ tail) (hfound : macros.find text = some found) :
    ∃ front others, escapes quoted text = front ++ others ∧
      found.gap = (front.text true).length ∧
      macros.find ('`' :: (escaped quoted text ++ '`' :: tail)) =
        some { found with gap := (front.text false).length + 1 } := by
  have hclosing : '}' ∉ '`' :: tail := by simp [htail]
  obtain ⟨front, others, hcells, hgap, hescaped⟩ := exists_find_escaped hpattern hnames hfound
  refine ⟨front, others, hcells, hgap, ?_⟩
  rw [Macros.find_cons_of_ne hpattern (by decide), Macros.find_append hpattern hclosing, hescaped]
  rfl

theorem step_of_backquote {find : Finder} {scan : Scan} {rest : List Char} {ahead : Occurrence}
    (hcontext : scan.context.construct ≠ .singleQuote) (hrest : scan.rest = '`' :: rest)
    (hnext : scan.next = some ahead) (hgap : 0 < ahead.gap) :
    scan.step find = scan.openBackquote := by
  rw [step_eq_read find hrest hnext hgap, read, if_neg hcontext, if_neg (by decide),
    if_neg (by decide), if_pos rfl]

theorem step_of_quote {find : Finder} {scan : Scan} {rest : List Char} {ahead : Occurrence}
    (hcontext : scan.context = .basic) (hrest : scan.rest = '"' :: rest)
    (hnext : scan.next = some ahead) (hgap : 0 < ahead.gap) :
    scan.step find = .more (scan.push 1 .doubleQuotation) := by
  rw [step_eq_read find hrest hnext hgap, read, hcontext]
  rfl

include hpattern hnames in
/-- At an escaped command between backquotes the scan goes on in the command. -/
theorem step_escaped {scan : Scan} {text tail : List Char} {found : Occurrence}
    (hcontext : scan.context.construct ≠ .singleQuote)
    (hrest : scan.rest = '`' :: (escaped scan.context.quoted text ++ '`' :: tail))
    (htail : '}' ∉ tail) (hnext : scan.next = macros.find scan.rest)
    (hfound : macros.find text = some found) :
    scan.step macros.finder = .more
      ⟨[.literal ' ', .literal '(', .literal '$'] ++ scan.finished, text ++ ')' :: tail,
        some found, .substitution, scan.context :: scan.stack, scan.saves⟩ := by
  obtain ⟨front, others, hcells, hgap, hahead⟩ :=
    exists_find_backquoted hpattern hnames htail hfound
  rw [hrest, hahead] at hnext
  have hunquoting :
      unquoting scan.context.quoted (escaped scan.context.quoted text ++ '`' :: tail) =
      escapes scan.context.quoted text ++ closingMark :: Edits.unchanged tail :=
    unquoting_escaped text tail
  obtain ⟨next, hopen⟩ := exists_openBackquote hrest (by simp [hunquoting])
  obtain ⟨hunquotes, -⟩ := unquotes_of_openBackquote hrest hopen
  have hahead : next.next = some found := by
    rw [hcells, List.append_assoc] at hunquoting
    rw [hunquotes.some front _ _ hunquoting hnext rfl, ← hgap]
  have htext : next.rest = text ++ ')' :: tail := by
    rw [hunquotes.rest, unquoting_escaped, Edits.text_append, text_escapes_true]
    simp [closingMark, Cell.text]
  rw [step_of_backquote hcontext hrest hnext (by dsimp only; omega), hopen]
  obtain ⟨finished, rest, ahead, context, stack, saves⟩ := next
  simp only [Progress.more.injEq, Scan.mk.injEq]
  exact ⟨hunquotes.finished, htext, hahead, hunquotes.context, hunquotes.stack, hunquotes.saves⟩

/-! ### The command alone and the command in a substitution -/

/-- Where nothing is open in the command alone, the substitution is in its backquotes. -/
def nested (context : Context) : Context :=
  if context.construct = .basic then ⟨.commandSubstitution, context.quoted⟩ else context

theorem nests_nested : Nests nested where
  quoted context := by
    unfold nested
    split <;> rfl
  basic context h := .inr (by rw [nested, if_pos h])
  other context h := by rw [nested, if_neg h]

/-- The second place has more in front and more behind. Arithmetic is not ahead. -/
structure Encloses (macros : Macros) (before : List Fragment) (behind : List Char)
    (first second : Save) : Prop where
  finished : second.finished = first.finished ++ before
  rest : second.rest = first.rest ++ behind
  next : second.next = first.next
  shows : Shows macros first.next first.rest
  openers : openers first.rest = 0

namespace Encloses

variable {before : List Fragment} {behind : List Char} {first second : Scan}
  (hbehind : '}' ∉ behind)

theorem skip (h : Encloses macros before behind first.place second.place) {count : Nat}
    (hnext : first.next ≠ none) (hclears : first.Clears count) :
    Encloses macros before behind (first.skip count).place (second.skip count).place := by
  have hshows : Shows macros first.next first.rest := h.shows
  have hle := le_gap_of_clears hshows hclears
  have hcount : count ≤ first.rest.length := by
    obtain ⟨found, hfound⟩ := Option.ne_none_iff_exists'.mp hnext
    obtain ⟨front, name, after, hrest, -, hgap, -⟩ := hshows found hfound
    have hgap := hle found hfound
    simp only [hrest, List.length_append]
    omega
  have hrest : second.rest = first.rest ++ behind := h.rest
  have hsame : second.next = first.next := h.next
  have hfinished : second.finished = first.finished ++ before := h.finished
  refine ⟨?_, ?_, ?_, hshows.nearer hle, ?_⟩
  · simp [Scan.place, Scan.skip, hrest, hfinished, List.take_append_of_le_length hcount]
  · simp [Scan.place, Scan.skip, hrest, List.drop_append_of_le_length hcount]
  · simp [Scan.place, Scan.skip, hsame]
  · exact Nat.le_zero.mp (h.openers ▸ openers_drop_le _ _)

include hpattern hbehind in
theorem substitute (h : Encloses macros before behind first.place second.place)
    (hcontext : second.context = nested first.context) {found other : Occurrence}
    (hfirst : first.next = some found) (hsecond : second.next = some other)
    (hgap : found.gap = 0) :
    Encloses macros before behind (first.substitute macros.finder found).place
      (second.substitute macros.finder other).place := by
  have hsame : second.next = first.next := h.next
  obtain rfl : other = found := by rwa [hsecond, hfirst, Option.some.injEq] at hsame
  have hrest : second.rest = first.rest ++ behind := h.rest
  have hfinished : second.finished = first.finished ++ before := h.finished
  have hprotection := nests_nested.inContext first.context
  have hlength : other.length ≤ first.rest.length := by
    obtain ⟨front, name, after, hsplit, -, -, hlength⟩ := h.shows other hfirst
    have hsplit : first.rest = front ++ (spelled name ++ after) := hsplit
    rw [hsplit, hlength]
    simp only [List.length_append]
    omega
  refine ⟨?_, ?_, ?_, Macros.shows_find hpattern _, ?_⟩
  · simp [Scan.place, Scan.substitute, hfinished, hcontext, hprotection]
  · simp [Scan.place, Scan.substitute, hrest, List.drop_append_of_le_length hlength]
  · simp only [Scan.place, Scan.substitute, Macros.finder, hrest]
    rw [List.drop_append_of_le_length hlength, Macros.find_append hpattern hbehind]
  · exact Nat.le_zero.mp (h.openers ▸ openers_drop_le _ _)

include hnames in
theorem unquote (h : Encloses macros before behind first.place second.place)
    (hcontext : second.context = nested first.context) {rest : List Char} {next : Scan}
    (hrest : first.rest = '`' :: rest) (hopen : first.openBackquote = .more next) :
    ∃ other, second.openBackquote = .more other ∧
      Encloses macros before behind next.place other.place := by
  have hquoted : second.context.quoted = first.context.quoted := by
    rw [hcontext, nests_nested.quoted]
  have hshows : Shows macros first.next first.rest := h.shows
  obtain ⟨hfirst, hclosing⟩ := unquotes_of_openBackquote hrest hopen
  have hcells : unquoting second.context.quoted (rest ++ behind) =
      unquoting first.context.quoted rest ++ Edits.unchanged behind := by
    rw [hquoted, unquoting_append_of_closing hclosing]
  have hsecond : second.rest = '`' :: (rest ++ behind) := by
    have hplace : second.rest = first.rest ++ behind := h.rest
    rw [hplace, hrest, List.cons_append]
  obtain ⟨other, hother⟩ := exists_openBackquote hsecond (by simp [hcells, hclosing])
  obtain ⟨hunquotes, -⟩ := unquotes_of_openBackquote hsecond hother
  have hnone : second.next = first.next := h.next
  refine ⟨other, hother, ?_, ?_, ?_, hfirst.shows hnames hrest hshows, ?_⟩
  · have hfinished : second.finished = first.finished ++ before := h.finished
    simp only [Scan.place, hunquotes.finished, hfirst.finished, hfinished, List.append_assoc]
  · simp only [Scan.place, hunquotes.rest, hfirst.rest, hcells, Edits.text_append,
      Edits.text_unchanged]
  · change other.next = next.next
    cases hnext : first.next with
    | none => rw [hunquotes.none (hnone.trans hnext), hfirst.none hnext]
    | some found =>
      obtain ⟨front, name, others, hsplit, -, hgap, -⟩ :=
        exists_unquoting_name hnames hrest hshows hnext first.context.quoted
      rw [hsplit, List.append_assoc] at hcells
      rw [hfirst.some front _ found hsplit hnext hgap,
        hunquotes.some front _ found hcells (hnone.trans hnext) hgap]
  · have hzero : Unix.openers first.rest = 0 := h.openers
    rw [hrest, openers_cons_of_ne (by decide)] at hzero
    change Unix.openers next.rest = 0
    rw [hfirst.rest, openers_unquoting, hzero]

include hpattern hnames hbehind in
/-- Up to the last macro of the command alone both scans have the same ahead. -/
theorem mirrors (h : Encloses macros before behind first.place second.place)
    (hcontext : second.context = nested first.context) (hnext : first.next ≠ none) :
    Mirrors macros.finder (Encloses macros before behind) first second where
  rest := by
    obtain ⟨found, hfound⟩ := Option.ne_none_iff_exists'.mp hnext
    obtain ⟨front, name, after, hsplit, -⟩ := h.shows found hfound
    have hsplit : first.rest = front ++ (spelled name ++ after) := hsplit
    have hrest : second.rest = first.rest ++ behind := h.rest
    have hlength : 3 ≤ first.rest.length := by
      simp only [hsplit, List.length_append, length_spelled]
      omega
    rw [hrest, List.take_append_of_le_length hlength]
  next_eq_none hnone := absurd hnone hnext
  next_eq_some found hfound := by
    have hsame : second.next = first.next := h.next
    exact ⟨found, hsame.trans hfound, .inl rfl⟩
  skip _ hclears := h.skip hnext hclears
  substitute _ _ hfirst hsecond hgap _ :=
    h.substitute hpattern hbehind hcontext hfirst hsecond hgap
  unquote _ _ hrest hopen := h.unquote hnames hcontext hrest hopen

end Encloses

/-- The command alone and the command in its substitution: no arithmetic was opened. -/
structure Nested (macros : Macros) (before : List Fragment) (behind : List Char)
    (below : List Context) (first second : Scan) : Prop
    extends Beside (Encloses macros before behind) nested below first second where
  plain : first.saves = []

variable {before : List Fragment} {behind : List Char} {below : List Context}
  (hbehind : '}' ∉ behind)

include hpattern hnames hbehind in
theorem carries_nested {first second : Scan}
    (h : Nested macros before behind below first second) :
    (first.step macros.finder).Carries (Nested macros before behind below)
      (second.step macros.finder) := by
  intro next hstep
  have hnext : first.next ≠ none := by
    intro hnone
    unfold step at hstep
    rw [hnone, h.plain] at hstep
    split at hstep <;> cases hstep
  have hmirrors := h.place.mirrors hpattern hnames hbehind h.context hnext
  obtain ⟨other, hother, hbeside⟩ :=
    carries_step nests_nested h.toAlongside hmirrors next hstep
  refine ⟨other, hother, hbeside, ?_⟩
  have hplain := h.plain
  cases shifts_step hstep with
  | kept _ _ _ hsaves | entered _ _ _ hsaves | left _ _ _ hsaves => rw [hsaves, hplain]
  | guessed hrest =>
    have hzero : openers first.rest = 0 := h.place.openers
    rw [hrest, openers_opener] at hzero
    omega
  | confirmed _ _ _ hsaves | abandoned _ hsaves => simp [hplain] at hsaves

/-- The scan of the command ends where nothing is ahead any more, and so does the other one. -/
theorem done_nested {first second : Scan} (h : Nested macros before behind below first second)
    (hdone : first.step macros.finder = .done first) :
    second.step macros.finder = .done second := by
  have hnone : first.next = none := by
    rcases step_eq_done_iff.mp hdone with hnil | ⟨hnone, -⟩
    · have hshows : Shows macros first.next first.rest := h.place.shows
      rw [hnil] at hshows
      exact hshows.next_eq_none
    · exact hnone
  have hsame : second.next = first.next := h.place.next
  have hsaves : second.saves = [] := by
    have hboth := h.saves
    rw [h.plain] at hboth
    exact List.forall₂_nil_left_iff.mp hboth
  exact step_eq_done_iff.mpr (.inr ⟨hsame.trans hnone, hsaves⟩)

include hpattern hnames hbehind in
/-- What becomes of a command alone becomes of it inside of its substitution. -/
theorem exists_run_nested {text : List Char} {found : Occurrence}
    (hopeners : openers text = 0) (hfound : macros.find text = some found) {last : Scan}
    (hrun : (Scan.start text found).run macros.finder = .done last)
    (before : List Fragment) (below : List Context) :
    ∃ final, (Scan.mk before (text ++ behind) (some found) .substitution below []).run
        macros.finder = .done final ∧
      final.text = textOf before ++ (last.text ++ behind) := by
  have hstart : Nested macros before behind below (Scan.start text found)
      ⟨before, text ++ behind, some found, .substitution, below, []⟩ := by
    refine ⟨⟨⟨rfl, rfl, .nil⟩, ⟨rfl, rfl, rfl, ?_, hopeners⟩⟩, rfl⟩
    have hshows := Macros.shows_find hpattern text
    rw [hfound] at hshows
    exact hshows
  obtain ⟨final, hfinal, hlast⟩ := exists_run_eq_done
    (fun _ _ ↦ carries_nested hpattern hnames hbehind) (fun _ _ ↦ done_nested) hstart hrun
  have hfinished : final.finished = last.finished ++ before := hlast.place.finished
  have hrest : final.rest = last.rest ++ behind := hlast.place.rest
  refine ⟨final, hfinal, ?_⟩
  simp [Scan.text, textOf, hfinished, hrest]

end Scan

/-! ### Expanded commands -/

section Expanded

variable {macros : Macros} (hpattern : macros.pattern = .default)
  (hnames : Scan.HasOrdinaryNames macros) {text : List Char} (hplain : ¬['(', '('] <:+: text)
  (hknown : macros.find text ≠ none)
  (hok : (Macro.expand .unix macros.finder text).ok = true)

include hpattern hnames hplain hknown hok in
/-- From the opening mark on, whatever is open and finished there, an escaped command is expanded
as the command alone is. -/
theorem exists_run_backquoted (scan : Scan) {tail : List Char}
    (hcontext : scan.context.construct ≠ .singleQuote) (hsaves : scan.saves = [])
    (hrest : scan.rest = '`' :: (Scan.escaped scan.context.quoted text ++ '`' :: tail))
    (htail : '}' ∉ tail) (hnext : scan.next = macros.find scan.rest) :
    ∃ final, scan.run macros.finder = .done final ∧ final.text = textOf scan.finished ++
      ("$( ".toList ++ ((Macro.expand .unix macros.finder text).text ++ ')' :: tail)) := by
  obtain ⟨found, hfound⟩ := Option.ne_none_iff_exists'.mp hknown
  have hfind : macros.finder [] text = some found := hfound
  rw [expand_of_find hfind] at hok ⊢
  cases hrun : (Scan.start text found).run macros.finder with
  | failed | underflow =>
    rw [hrun] at hok
    cases hok
  | done last =>
    have hbehind : '}' ∉ ')' :: tail := by simp [htail]
    have hopeners : openers text = 0 :=
      openers_eq_zero fun hopener ↦ hplain (List.IsInfix.trans (by decide) hopener)
    have hstep := Scan.step_escaped hpattern hnames hcontext hrest htail hnext hfound
    rw [hsaves] at hstep
    obtain ⟨final, hfinal, htext⟩ := Scan.exists_run_nested hpattern hnames hbehind
      hopeners hfound hrun _ _
    refine ⟨final, (Scan.run_of_more hstep).trans hfinal, ?_⟩
    rw [htext]
    simp [textOf, Fragment.text]

include hpattern hnames hplain hknown hok in
/-- An escaped command between backquotes is expanded to a substitution of the command with its
macros put in, also between double quotes, where it is written with more escapes. -/
theorem expand_unix_backquoted :
    ((Macro.expand .unix macros.finder ('`' :: (Scan.escaped false text ++ ['`']))).ok = true ∧
      (Macro.expand .unix macros.finder ('`' :: (Scan.escaped false text ++ ['`']))).text =
        "$( ".toList ++ (Macro.expand .unix macros.finder text).text ++ ")".toList) ∧
    (Macro.expand .unix macros.finder
        ('"' :: '`' :: (Scan.escaped true text ++ ['`', '"']))).ok = true ∧
      (Macro.expand .unix macros.finder
          ('"' :: '`' :: (Scan.escaped true text ++ ['`', '"']))).text =
        "\"$( ".toList ++ (Macro.expand .unix macros.finder text).text ++ ")\"".toList := by
  obtain ⟨found, hfound⟩ := Option.ne_none_iff_exists'.mp hknown
  constructor
  · obtain ⟨front, -, -, -, hahead⟩ :=
      Scan.exists_find_backquoted hpattern hnames List.not_mem_nil hfound
    have hcontext : Context.basic.construct ≠ .singleQuote := by decide
    obtain ⟨final, hrun, htext⟩ := exists_run_backquoted hpattern hnames hplain hknown hok
      (Scan.start _ _) hcontext rfl rfl List.not_mem_nil hahead.symm
    rw [expand_of_run_eq_done hahead hrun]
    refine ⟨rfl, ?_⟩
    rw [htext]
    simp [textOf, Scan.start]
  · -- the scan opens the double quotation first
    have htail : '}' ∉ ['"'] := by decide
    obtain ⟨front, -, -, -, hahead⟩ := Scan.exists_find_backquoted hpattern hnames htail hfound
    let start := Scan.start ('"' :: '`' :: (Scan.escaped true text ++ ['`', '"']))
      ⟨(front.text false).length + 1 + 1, found.length, found.value, found.length_pos⟩
    have hfind : macros.finder [] ('"' :: '`' :: (Scan.escaped true text ++ ['`', '"'])) =
        start.next := by
      rw [Macros.finder, Macros.find_cons_of_ne hpattern (by decide), hahead]
      rfl
    have hstep : start.step macros.finder = .more (start.push 1 .doubleQuotation) :=
      Scan.step_of_quote rfl rfl rfl (by dsimp only; omega)
    have hnext : (start.push 1 .doubleQuotation).next =
        macros.find (start.push 1 .doubleQuotation).rest := by
      refine Eq.trans ?_ hahead.symm
      simp [start, Scan.start, Scan.push, Scan.skip, Occurrence.nearer]
    have hcontext : Context.doubleQuotation.construct ≠ .singleQuote := by decide
    obtain ⟨final, hrun, htext⟩ := exists_run_backquoted hpattern hnames hplain hknown hok
      (start.push 1 .doubleQuotation) hcontext rfl rfl htail hnext
    rw [expand_of_run_eq_done hfind ((Scan.run_of_more hstep).trans hrun)]
    refine ⟨rfl, ?_⟩
    rw [htext]
    simp [textOf, start, Scan.start, Scan.push, Scan.skip, Fragment.text]

end Expanded

/-- A command that holds a backquoted command with a macro. -/
theorem expand_unix_backquoted_in_backquotes :
    (Macro.expand .unix (Macros.mk [(['X'], "a b".toList)] .default).finder
        "`ls \\`cat \"%\x7bX\x7d\"\\` \\$HOME`".toList).text =
      "$( ls $( cat \"a b\") $HOME)".toList ∧
    (Macro.expand .unix (Macros.mk [(['X'], "a b".toList)] .default).finder
        "\"`ls \\`cat \\\"%\x7bX\x7d\\\"\\` \\$HOME`\"".toList).text =
      "\"$( ls $( cat \"a b\") $HOME)\"".toList := by
  have hkeys : ∀ name ∈ [['X']], ∀ c ∈ name, Scan.IsOrdinary c :=
    List.forall_mem_singleton.mpr (List.forall_mem_singleton.mpr (by decide))
  have hnames : Scan.HasOrdinaryNames (Macros.mk [(['X'], "a b".toList)] .default) := by
    intro name value hvalue
    exact hkeys name ((Table.isSome_get? _ name).mp (Option.isSome_of_eq_some hvalue))
  have hplain : ¬['(', '('] <:+: "ls `cat \"%\x7bX\x7d\"` $HOME".toList := by decide
  obtain ⟨⟨-, halone⟩, -, hquoted⟩ :=
    expand_unix_backquoted rfl hnames hplain (by decide +kernel) (by decide +kernel)
  have hexpanded : (Macro.expand .unix (Macros.mk [(['X'], "a b".toList)] .default).finder
      "ls `cat \"%\x7bX\x7d\"` $HOME".toList).text = "ls $( cat \"a b\") $HOME".toList := by
    decide +kernel
  rw [hexpanded] at halone hquoted
  exact ⟨halone, hquoted⟩

end CommandLine.Macro.Unix
