import CommandLine.Proofs.Macro.Named
import CommandLine.Proofs.Macro.UnixSteps

/-!
The layout of a line with macros for a POSIX shell. No value is ever read again: a scan that puts
in names goes through the same steps as a scan that puts in the values of these names, so that the
characters of the result, the places of the values and their protection are settled by the line and
the names. In a line without backquoted commands nothing but the macros is touched, and every one
of them is put in.
-/

set_option autoImplicit false

namespace CommandLine.Macro.Unix

/-- A slot of a layout: a character, or the place of the value of a name and its protection. -/
inductive Slot
  | literal (c : Char)
  | place (protection : Protection) (name : List Char)
  deriving DecidableEq, Repr

/-- What a slot holds when the macros have their values. -/
def Slot.fill (macros : Macros) : Slot → List Char
  | literal c => [c]
  | place protection name => protection.apply (macros.value name)

/-- The part of a line that a slot takes the place of. -/
def Slot.part (macros : Macros) : Slot → Part
  | literal c => .literal c
  | place _ name => .hole (spelled name) (macros.value name)

/-- The slot of a fragment that has a name for its value. -/
def Fragment.slot : Fragment → Slot
  | literal c => .literal c
  | inserted protection name => .place protection name

/-- The slots of a scan that puts in names. -/
def Scan.layout (scan : Scan) : List Slot :=
  scan.finished.reverse.map Fragment.slot ++ scan.rest.map .literal

/-! ### Values looked up afterwards -/

/-- The fragment with another value. -/
def Fragment.mapValue (f : List Char → List Char) : Fragment → Fragment
  | literal c => literal c
  | inserted protection value => inserted protection (f value)

@[simp] theorem Fragment.mapValue_literal (f : List Char → List Char) (c : Char) :
    (literal c).mapValue f = literal c := rfl

/-- The place with other values. -/
def Save.mapValue (f : List Char → List Char) (save : Save) : Save :=
  { finished := save.finished.map (·.mapValue f)
    rest := save.rest
    next := save.next.map (·.mapValue f) }

/-- The scan with other values. -/
def Scan.mapValue (f : List Char → List Char) (scan : Scan) : Scan :=
  { scan with
    finished := scan.finished.map (·.mapValue f)
    next := scan.next.map (·.mapValue f)
    saves := scan.saves.map (·.mapValue f) }

/-- Two steps lead to the same, but for the values that were put in. Failures tell offsets, and may
differ in them. -/
inductive Progress.Maps (f : List Char → List Char) : Progress → Progress → Prop
  | more (scan : Scan) : Maps f (.more scan) (.more (scan.mapValue f))
  | done (scan : Scan) : Maps f (.done scan) (.done (scan.mapValue f))
  | failed (first second : Failure) : Maps f (.failed first) (.failed second)
  | underflow : Maps f .underflow .underflow

/-- Two scans end in the same way, but for the values that were put in. -/
inductive Scan.Outcome.Maps (f : List Char → List Char) : Outcome → Outcome → Prop
  | done (scan : Scan) : Maps f (.done scan) (.done (scan.mapValue f))
  | failed (first second : Failure) : Maps f (.failed first) (.failed second)
  | underflow : Maps f .underflow .underflow

/-- A choice leads to the same where both of its sides do. -/
theorem Progress.Maps.ite {f : List Char → List Char} {chosen : Prop} [Decidable chosen]
    {first second other another : Progress} (hpos : first.Maps f other)
    (hneg : second.Maps f another) :
    (if chosen then first else second).Maps f (if chosen then other else another) := by
  split
  · exact hpos
  · exact hneg

namespace Scan

variable (f : List Char → List Char) (scan : Scan)

theorem mapValue_skip (count : Nat) :
    (scan.mapValue f).skip count = (scan.skip count).mapValue f := by
  have hnext (next : Option Occurrence) : (next.map (·.mapValue f)).map (·.nearer count) =
      (next.map (·.nearer count)).map (·.mapValue f) := by
    cases next <;> rfl
  simp [skip, mapValue, hnext, Function.comp_def]

theorem mapValue_push (count : Nat) (context : Context) :
    (scan.mapValue f).push count context = (scan.push count context).mapValue f := by
  rw [push, mapValue_skip]
  rfl

theorem reaches_mapValue (count : Nat) : (scan.mapValue f).reaches count = scan.reaches count := by
  unfold reaches mapValue
  cases scan.next <;> rfl

theorem maps_skip (count : Nat) :
    (Progress.more (scan.skip count)).Maps f (.more ((scan.mapValue f).skip count)) := by
  rw [mapValue_skip]
  exact .more _

theorem maps_push (count : Nat) (context : Context) :
    (Progress.more (scan.push count context)).Maps f
      (.more ((scan.mapValue f).push count context)) := by
  rw [mapValue_push]
  exact .more _

theorem maps_pop (count : Nat) : (scan.pop count).Maps f ((scan.mapValue f).pop count) := by
  have hstack : (scan.mapValue f).stack = scan.stack := rfl
  unfold pop
  rw [hstack, mapValue_skip]
  cases scan.stack with
  | nil => exact .underflow
  | cons context stack => exact .more { scan.skip count with context, stack }

theorem maps_openArithmetic :
    (Progress.more scan.openArithmetic).Maps f (.more (scan.mapValue f).openArithmetic) := by
  have hcontext : (scan.mapValue f).context = scan.context := rfl
  have hopen : (scan.mapValue f).openArithmetic = scan.openArithmetic.mapValue f := by
    unfold openArithmetic
    rw [hcontext, mapValue_push]
    rfl
  rw [hopen]
  exact .more _

theorem maps_closeArithmetic :
    scan.closeArithmetic.Maps f (scan.mapValue f).closeArithmetic := by
  have hsaves : (scan.mapValue f).saves = scan.saves.map (·.mapValue f) := rfl
  unfold closeArithmetic
  rw [hsaves]
  cases scan.saves with
  | nil => exact .underflow
  | cons save saves => exact maps_pop f { scan with saves } 2

theorem maps_reopen : scan.reopen.Maps f (scan.mapValue f).reopen := by
  have hsaves : (scan.mapValue f).saves = scan.saves.map (·.mapValue f) := rfl
  unfold reopen
  rw [hsaves]
  cases scan.saves with
  | nil => exact .underflow
  | cons save saves => exact .more _

theorem maps_openBackquote : scan.openBackquote.Maps f (scan.mapValue f).openBackquote := by
  obtain ⟨finished, rest, next, context, stack, saves⟩ := scan
  unfold openBackquote mapValue
  cases unescaped context.quoted 0 (rest.drop 1) with
  | none => exact .failed _ _
  | some found => cases next <;> exact .more _

theorem maps_readDollar : scan.readDollar.Maps f (scan.mapValue f).readDollar := by
  have hrest : (scan.mapValue f).rest = scan.rest := rfl
  unfold readDollar
  rw [reaches_mapValue, hrest]
  refine .ite (.failed _ _) ?_
  split
  · exact maps_openArithmetic f scan
  · exact maps_push f scan 2 _
  · exact maps_push f scan 2 _
  · exact maps_skip f scan 1

theorem maps_readParenthesis : scan.readParenthesis.Maps f (scan.mapValue f).readParenthesis := by
  have hconstruct : (scan.mapValue f).context.construct = scan.context.construct := rfl
  unfold readParenthesis
  rw [hconstruct]
  split
  · exact .ite (maps_closeArithmetic f scan) (maps_reopen f scan)
  · exact maps_pop f scan 1
  · exact maps_pop f scan 1
  · exact .failed _ _

theorem maps_readPlain (c : Char) :
    (scan.readPlain c).Maps f ((scan.mapValue f).readPlain c) := by
  refine .ite (maps_readParenthesis f scan) ?_
  refine .ite (.ite (maps_pop f scan 1) (.failed _ _)) ?_
  refine .ite (maps_push f scan 1 _) ?_
  exact .ite (maps_push f scan 1 _) (maps_skip f scan 1)

theorem maps_read (c : Char) : (scan.read c).Maps f ((scan.mapValue f).read c) := by
  have hopening (context : Context) :
      (Progress.more (if scan.context.quoted then scan.skip 1 else scan.push 1 context)).Maps f
        (.more (if scan.context.quoted then (scan.mapValue f).skip 1
          else (scan.mapValue f).push 1 context)) := by
    split
    · exact maps_skip f scan 1
    · exact maps_push f scan 1 context
  have hescape : Progress.Maps f
      (if scan.reaches 2 then .failed .afterBackslash else .more (scan.skip 2))
      (if (scan.mapValue f).reaches 2 then .failed .afterBackslash
        else .more ((scan.mapValue f).skip 2)) := by
    rw [reaches_mapValue]
    exact .ite (.failed _ _) (maps_skip f scan 2)
  have hclosing (closes : Prop) [Decidable closes] :
      (if closes then scan.pop 1 else .more (scan.skip 1)).Maps f
        (if closes then (scan.mapValue f).pop 1 else .more ((scan.mapValue f).skip 1)) :=
    .ite (maps_pop f scan 1) (maps_skip f scan 1)
  -- the choices in the order in which the scan makes them, none of which looks at a value
  refine .ite (hclosing _) ?_
  refine .ite hescape ?_
  refine .ite (maps_readDollar f scan) ?_
  refine .ite (maps_openBackquote f scan) ?_
  refine .ite (hclosing _) ?_
  refine .ite (hopening _) ?_
  refine .ite (hopening _) ?_
  exact .ite (hclosing _) (maps_readPlain f scan c)

variable {f} {first second : Finder}
  (hfind : ∀ front behind rest, second front rest = (first behind rest).map (·.mapValue f))

include hfind in
theorem mapValue_substitute (found : Occurrence) :
    (scan.mapValue f).substitute second (found.mapValue f) =
      (scan.substitute first found).mapValue f := by
  have hnext := hfind
    (textOf (.inserted (.inContext scan.context) (f found.value) ::
      scan.finished.map (·.mapValue f)))
    (textOf (.inserted (.inContext scan.context) found.value :: scan.finished))
    (scan.rest.drop found.length)
  exact congrArg (fun next ↦ (⟨_, _, next, _, _, _⟩ : Scan)) hnext

include hfind in
/-- A step does not look at the values that were put in. -/
theorem maps_step : (scan.step first).Maps f ((scan.mapValue f).step second) := by
  have hrest : (scan.mapValue f).rest = scan.rest := rfl
  have hnext : (scan.mapValue f).next = scan.next.map (·.mapValue f) := rfl
  have hsaves : (scan.mapValue f).saves.isEmpty = scan.saves.isEmpty := by
    simp [mapValue]
  unfold step
  rw [hrest, hnext, hsaves]
  cases scan.rest with
  | nil => exact .done scan
  | cons c rest =>
    cases scan.next with
    | none => exact .ite (.done scan) (maps_read f scan c)
    | some found =>
      refine .ite ?_ (.ite (.failed _ _) (maps_read f scan c))
      rw [mapValue_substitute scan hfind]
      exact .more _

include hfind in
/-- A scan with other values ends in the same way. -/
theorem maps_run (scan : Scan) : (scan.run first).Maps f ((scan.mapValue f).run second) := by
  rw [run_eq first, run_eq second]
  have hmaps := maps_step scan hfind
  generalize hstep : scan.step first = here at hmaps
  generalize (scan.mapValue f).step second = there at hmaps
  cases hmaps with
  | more next => exact maps_run next
  | done final => exact .done final
  | failed => exact .failed _ _
  | underflow => exact .underflow
termination_by scan.weight
decreasing_by exact weight_step hstep

end Scan

/-! ### What is put in -/

variable {names : List (List Char)} {pattern : Pattern}

/-- What was put in, and what is to be put in next, are names. -/
structure Save.PutsIn (names : List (List Char)) (save : Save) : Prop where
  finished : ∀ protection name, .inserted protection name ∈ save.finished → name ∈ names
  next : ∀ found, save.next = some found → found.value ∈ names

namespace Save.PutsIn

variable {scan next : Scan}

theorem substitute {found : Occurrence} (h : Save.PutsIn names scan.place)
    (hnext : scan.next = some found) :
    Save.PutsIn names (scan.substitute (Macros.named names pattern).finder found).place where
  finished := by
    intro protection name hmem
    rcases List.mem_cons.mp hmem with heq | hold
    · cases heq
      exact h.next found hnext
    · exact h.finished protection name hold
  next _ hcloser := Macros.mem_names_of_find hcloser

theorem skip (h : Save.PutsIn names scan.place) (count : Nat) :
    Save.PutsIn names (scan.skip count).place where
  finished := by
    intro protection name hmem
    rcases List.mem_append.mp hmem with hpassed | hold
    · obtain ⟨c, -, heq⟩ := List.mem_map.mp hpassed
      cases heq
    · exact h.finished protection name hold
  next := by
    intro closer hcloser
    obtain ⟨found, hfound, rfl⟩ := Option.map_eq_some_iff.mp hcloser
    exact h.next found hfound

theorem unquote (h : Save.PutsIn names scan.place) (hopen : scan.openBackquote = .more next) :
    Save.PutsIn names next.place := by
  unfold Scan.openBackquote at hopen
  split at hopen <;> cases hopen
  constructor
  · intro protection name hmem
    exact h.finished protection name (by simpa [Scan.place] using hmem)
  · intro closer hcloser
    obtain ⟨found, hfound, rfl⟩ := Option.map_eq_some_iff.mp hcloser
    exact h.next found hfound

/-- The places of a layout are places of names. -/
theorem mem_names (h : Save.PutsIn names scan.place) {protection : Protection} {name : List Char}
    (hslot : .place protection name ∈ scan.layout) : name ∈ names := by
  rcases List.mem_append.mp hslot with hfinished | hrest
  · obtain ⟨fragment, hfragment, heq⟩ := List.mem_map.mp hfinished
    cases fragment with
    | literal c => cases heq
    | inserted protection name =>
      cases heq
      exact h.finished _ _ (List.mem_reverse.mp hfragment)
  · obtain ⟨c, -, heq⟩ := List.mem_map.mp hrest
    cases heq

end Save.PutsIn

theorem putsIn_start {text : List Char} {found : Occurrence}
    (h : (Macros.named names pattern).find text = some found) :
    (Scan.start text found).Everywhere (Save.PutsIn names) := by
  refine ⟨⟨fun _ _ hmem ↦ absurd hmem (by simp [Scan.place, Scan.start]), ?_⟩, ?_⟩
  · intro first hfirst
    cases hfirst
    exact Macros.mem_names_of_find h
  · simp [Scan.start]

/-- A scan that finds macros by their names puts in names only. -/
theorem putsIn_moves {scan next : Scan} (h : scan.Everywhere (Save.PutsIn names))
    (hmoves : Scan.Moves (Macros.named names pattern).finder scan next) :
    next.Everywhere (Save.PutsIn names) :=
  h.moves (fun _ _ hplace hnext _ ↦ hplace.substitute hnext)
    (fun _ count hplace _ ↦ hplace.skip count) (fun _ _ _ hplace _ hopen ↦ hplace.unquote hopen)
    hmoves

/-! ### Lines without backquoted commands -/

/-- The part of the line that a fragment with a name for its value takes the place of. -/
def Fragment.part : Fragment → Part
  | literal c => .literal c
  | inserted _ name => .hole (spelled name) name

/-- What is finished takes the place of the parts of the line up to here, and the other parts are
ahead. -/
structure Save.Divides (names : List (List Char)) (text : List Char) (save : Save) : Prop where
  plain : '`' ∉ save.rest
  announced : Announced save.next save.rest
  parts : save.finished.reverse.map Fragment.part ++
      (Macros.named names .default).ahead save.next save.rest =
    (Macros.named names .default).template text

namespace Save.Divides

variable {text : List Char} {scan : Scan}

theorem substitute {found : Occurrence} (h : Save.Divides names text scan.place)
    (hnext : scan.next = some found) (hgap : found.gap = 0) :
    Save.Divides names text
      (scan.substitute (Macros.named names .default).finder found).place where
  plain hmem := h.plain (List.mem_of_mem_drop hmem)
  announced := announced_find names _
  parts := by
    have hplace : scan.place = ⟨scan.finished, scan.rest, some found⟩ := by
      rw [Scan.place, hnext]
    rw [hplace] at h
    rw [← h.parts, Macros.ahead_of_gap_eq_zero _ hgap, h.announced.take_length hgap]
    simp [Scan.place, Scan.substitute, Fragment.part, Macros.finder]

/-- No macro starts with a parenthesis, so that none is passed. -/
theorem skip (h : Save.Divides names text scan.place) {count : Nat} (hclears : scan.Clears count) :
    Save.Divides names text (scan.skip count).place := by
  have hcount : ∀ found, scan.next = some found → (count : Int) ≤ found.gap := by
    intro found hfound
    rcases hclears found hfound with hle | ⟨index, hgap, hparenthesis⟩
    · exact hle
    · have hpercent : scan.rest[index]? = some '%' := by
        have hannounced := h.announced
        rw [Scan.place, hfound] at hannounced
        exact hannounced.getElem?_gap hgap
      rw [hpercent] at hparenthesis
      exact absurd hparenthesis (by decide)
  have hahead : (Macros.named names .default).ahead scan.place.next scan.place.rest =
      (scan.rest.take count).map .literal ++ (Macros.named names .default).ahead
        (scan.next.map (·.nearer count)) (scan.rest.drop count) := Macros.ahead_drop _ hcount
  refine ⟨fun hmem ↦ h.plain (List.mem_of_mem_drop hmem), h.announced.nearer hcount, ?_⟩
  rw [← h.parts, hahead]
  simp [Scan.place, Scan.skip, Fragment.part, Function.comp_def]

end Save.Divides

/-- A scan that finds macros by their names divides a line without backquotes. -/
theorem divides_moves {text : List Char} {scan next : Scan}
    (h : scan.Everywhere (Save.Divides names text))
    (hmoves : Scan.Moves (Macros.named names .default).finder scan next) :
    next.Everywhere (Save.Divides names text) := by
  refine h.moves (fun _ _ hplace hnext hgap ↦ hplace.substitute hnext hgap)
    (fun _ _ hplace hclears ↦ hplace.skip hclears) (fun scan next rest hplace hrest _ ↦ ?_) hmoves
  have hnone := hplace.plain
  simp [Scan.place, hrest] at hnone

/-! ### The layout of an expanded line -/

theorem Fragment.fill_slot (macros : Macros) (fragment : Fragment) :
    fragment.slot.fill macros = (fragment.mapValue macros.value).text := by
  cases fragment <;> rfl

theorem Fragment.part_slot (macros : Macros) (fragment : Fragment) :
    fragment.slot.part macros = fragment.part.mapValue macros.value := by
  cases fragment <;> rfl

/-- A scan that puts in values ends with the text that fills the layout of the scan that puts in
their names. -/
theorem text_mapValue (macros : Macros) (scan : Scan) :
    (scan.mapValue macros.value).text = scan.layout.flatMap (Slot.fill macros) := by
  have hrest : (scan.rest.map Slot.literal).flatMap (Slot.fill macros) = scan.rest := by
    rw [List.flatMap_map]
    exact List.flatMap_singleton' scan.rest
  have hfinished : (scan.finished.reverse.map Fragment.slot).flatMap (Slot.fill macros) =
      textOf (scan.finished.map (·.mapValue macros.value)) := by
    rw [textOf, ← List.map_reverse, List.flatMap_map, List.flatMap_map]
    simp only [Fragment.fill_slot]
  rw [Scan.layout, List.flatMap_append, hfinished, hrest]
  rfl

/-- When a scan that divides its line ends, the slots of its layout take the place of the parts of
the line. -/
theorem map_part_layout {text : List Char} {scan : Scan}
    (h : Save.Divides names text scan.place) (hend : scan.rest = [] ∨ scan.next = none)
    {macros : Macros} (hpattern : macros.pattern = .default) (hnames : macros.HasNames names) :
    scan.layout.map (Slot.part macros) = macros.template text := by
  have hahead : (Macros.named names .default).ahead scan.next scan.rest =
      scan.rest.map .literal := by
    rcases hend with hnil | hnone
    · have hannounced : Announced scan.next scan.rest := h.announced
      rw [hnil] at hannounced
      rw [hnil, hannounced.next_eq_none]
      rfl
    · rw [hnone]
      rfl
  have hparts : scan.finished.reverse.map Fragment.part ++ scan.rest.map .literal =
      (Macros.named names .default).template text := by
    rw [← hahead]
    exact h.parts
  rw [hnames.template, hpattern, ← hparts, Scan.layout, List.map_append, List.map_append]
  simp only [List.map_map, Function.comp_def, Fragment.part_slot]
  rfl

/-- At the start of a line without backquotes all of its parts are ahead. -/
theorem divides_start (names : List (List Char)) {text : List Char} (hplain : '`' ∉ text) :
    Save.Divides names text ⟨[], text, (Macros.named names .default).find text⟩ where
  plain := hplain
  announced := announced_find names text
  parts := (Macros.template_eq_ahead _ text).symm

section Names

variable {text : List Char} {macros : Macros} (hpattern : macros.pattern = .default)
  (hnames : macros.HasNames names)

include hpattern hnames in
/-- Where no macro is found by its name the line stays as it is. -/
theorem expand_of_named_find_eq_none (h : (Macros.named names .default).find text = none) :
    Macro.expand .unix macros.finder text = ⟨text, none, 0⟩ := by
  have hfind : macros.finder [] text = none := by
    rw [hnames.finder [] [], hpattern, Macros.finder, h]
    rfl
  rw [Macro.expand, expand, hfind]

include hpattern hnames in
/-- Values are put in where their names can be put in, and at the same places. -/
theorem expand_of_named_find {found : Occurrence}
    (h : (Macros.named names .default).find text = some found) :
    match (Scan.start text found).run (Macros.named names .default).finder with
    | .done last =>
      Macro.expand .unix macros.finder text =
        ⟨(last.mapValue macros.value).text, none, last.stack.length⟩
    | _ => (Macro.expand .unix macros.finder text).ok = false := by
  have hfinder := hnames.finder
  rw [hpattern] at hfinder
  have hfind : macros.finder [] text = some (found.mapValue macros.value) := by
    rw [hfinder [] [], Macros.finder, h]
    rfl
  rw [expand_of_find hfind]
  have hmaps := Scan.maps_run hfinder (Scan.start text found)
  have hstart : (Scan.start text found).mapValue macros.value =
      Scan.start text (found.mapValue macros.value) := rfl
  rw [hstart] at hmaps
  generalize (Scan.start text found).run (Macros.named names .default).finder = first at hmaps ⊢
  generalize (Scan.start text (found.mapValue macros.value)).run macros.finder = second at hmaps ⊢
  cases hmaps <;> rfl

end Names

/-- Values are put into a line without being looked at. For every line and names of macros, either
no values can be put in, or there is a layout that is filled whatever the values are; without
backquotes its slots take the place of the characters and of the macros of the line, one by one. -/
theorem expand_unix_layout (names : List (List Char)) (text : List Char) :
    (∀ macros : Macros, macros.pattern = .default → macros.HasNames names →
      (Macro.expand .unix macros.finder text).ok = false) ∨
    ∃ layout : List Slot,
      (∀ protection name, .place protection name ∈ layout → name ∈ names) ∧
      ∀ macros : Macros, macros.pattern = .default → macros.HasNames names →
        (Macro.expand .unix macros.finder text).ok = true ∧
        (Macro.expand .unix macros.finder text).text = layout.flatMap (Slot.fill macros) ∧
        ('`' ∉ text → layout.map (Slot.part macros) = macros.template text) := by
  cases hfound : (Macros.named names .default).find text with
  | none =>
    refine .inr ⟨Scan.layout ⟨[], text, none, .basic, [], []⟩, by simp [Scan.layout], ?_⟩
    intro macros hpattern hnames
    rw [expand_of_named_find_eq_none hpattern hnames hfound, ← text_mapValue]
    refine ⟨rfl, rfl, fun hplain ↦ ?_⟩
    have hstart := divides_start names hplain
    rw [hfound] at hstart
    exact map_part_layout hstart (.inr rfl) hpattern hnames
  | some found =>
    have hexpand (macros : Macros) (hpattern : macros.pattern = .default)
        (hnames : macros.HasNames names) := expand_of_named_find hpattern hnames hfound
    cases hrun : (Scan.start text found).run (Macros.named names .default).finder with
    | failed | underflow =>
      rw [hrun] at hexpand
      exact .inl hexpand
    | done last =>
      rw [hrun] at hexpand
      refine .inr ⟨last.layout, ?_, fun macros hpattern hnames ↦ ?_⟩
      · obtain ⟨hlast, -⟩ :=
          Scan.of_run_eq_done (fun _ _ ↦ putsIn_moves) hrun (putsIn_start hfound)
        exact fun _ _ hslot ↦ hlast.place.mem_names hslot
      · rw [hexpand macros hpattern hnames]
        refine ⟨rfl, text_mapValue macros last, fun hplain ↦ ?_⟩
        have hstart := divides_start names hplain
        rw [hfound] at hstart
        obtain ⟨hlast, hend⟩ :=
          Scan.of_run_eq_done (fun _ _ ↦ divides_moves) hrun ⟨hstart, by simp [Scan.start]⟩
        exact map_part_layout hlast.place hend hpattern hnames

/-- A macro in what turns out not to be arithmetic and one in a double quotation, with a value that
calls for quotes and with an empty one. -/
theorem expand_unix_layout_of_two_values :
    ∃ layout : List Slot,
      layout.map (Slot.part ⟨[(['X'], "a $b".toList)], .default⟩) =
        (Macros.mk [(['X'], "a $b".toList)] .default).template
          "$((echo %\x7bX\x7d) \"%\x7bX\x7d\")".toList ∧
      layout.flatMap (Slot.fill ⟨[(['X'], "a $b".toList)], .default⟩) =
        "$((echo 'a $b') \"a \\$b\")".toList ∧
      layout.flatMap (Slot.fill ⟨[(['X'], [])], .default⟩) = "$((echo '') \"\")".toList := by
  rcases expand_unix_layout [['X']] "$((echo %\x7bX\x7d) \"%\x7bX\x7d\")".toList with
    hfails | ⟨layout, -, hlayout⟩
  · have hfail := hfails ⟨[(['X'], [])], .default⟩ rfl fun _ ↦ Iff.rfl
    exact absurd hfail (by decide +kernel)
  · obtain ⟨-, hvalue, hparts⟩ := hlayout ⟨[(['X'], "a $b".toList)], .default⟩ rfl fun _ ↦ Iff.rfl
    obtain ⟨-, hempty, -⟩ := hlayout ⟨[(['X'], [])], .default⟩ rfl fun _ ↦ Iff.rfl
    refine ⟨layout, hparts (by decide), ?_, ?_⟩
    · rw [← hvalue]
      decide +kernel
    · rw [← hempty]
      decide +kernel

end CommandLine.Macro.Unix
