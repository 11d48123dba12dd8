import CommandLine.Proofs.Macro.UnixOpeners
import CommandLine.Proofs.Macro.UnixWalkEnd

/-!
A scan for a POSIX shell walks over the template of its line. It rewrites a backquoted command
before it looks at the macros in it; where no edit of a command reaches into a name or makes one
known, the template ahead is edited as the text is. Where the scan guesses that arithmetic begins,
the walk stops in front of it, and what is inside is walked by itself until the guess is confirmed
or given up.
-/

set_option autoImplicit false

namespace CommandLine.Macro.Unix

open Scan

/-! ### One more backquoted command -/

theorem isUnescaped_iff {quoted : Bool} {c : Char} :
    isUnescaped quoted c = true ↔ IsEscapable quoted c := by
  simp [isUnescaped, IsEscapable, or_assoc]

/-- The edits of a backquoted command, and the rest of the line behind it. -/
inductive IsUnquoted (quoted : Bool) : Edits → Prop
  | closing (after : List Char) : IsUnquoted quoted (closingMark :: Edits.unchanged after)
  | unescaped {cells : Edits} {c : Char} (hc : isUnescaped quoted c = true)
    (h : IsUnquoted quoted cells) : IsUnquoted quoted (.edit ['\\', c] [c] :: cells)
  | same {cells : Edits} {c : Char} (hc : c ≠ '`')
    (hnext : c = '\\' → ∃ d others, cells = .same d :: others ∧ isUnescaped quoted d = false)
    (h : IsUnquoted quoted cells) : IsUnquoted quoted (.same c :: cells)

theorem isUnquoted_unquoting {quoted : Bool} {text : List Char}
    (h : closingMark ∈ unquoting quoted text) : IsUnquoted quoted (unquoting quoted text) := by
  fun_induction unquoting quoted text with
  | case1 => cases h
  | case2 after => exact .closing after
  | case3 c rest hc ih => exact .unescaped hc (ih (by simpa [closingMark] using h))
  | case4 c rest hc ih =>
    rw [Bool.not_eq_true] at hc
    have hbackquote : c ≠ '`' := by
      rintro rfl
      cases hc
    have hbackslash : c ≠ '\\' := by
      rintro rfl
      cases hc
    refine .same (by decide) (fun _ ↦ ⟨c, _, rfl, hc⟩) (.same hbackquote ?_ ?_)
    · exact fun heq ↦ absurd heq hbackslash
    · exact ih (by simpa [closingMark] using h)
  | case5 c rest hclosing hescape ih =>
    have hrest : closingMark ∈ unquoting quoted rest := by simpa [closingMark] using h
    refine .same hclosing (fun hc ↦ ?_) (ih hrest)
    cases rest with
    | nil => cases hrest
    | cons d tail => exact (hescape d tail hc rfl).elim

theorem IsUnquoted.of_unchanged {quoted : Bool} {text : List Char} {cells : Edits}
    (h : IsUnquoted quoted (Edits.unchanged text ++ cells)) : IsUnquoted quoted cells := by
  induction text with
  | nil => exact h
  | cons c rest ih =>
    cases h with
    | same _ _ h => exact ih h

/-- A part that begins with a character that stays is the character or a macro. -/
theorem eq_of_divides_same {cells : Edits} {d c : Char} {others new : Template}
    (h : Edits.Divides (.same d :: cells) (.literal c :: others) new) : c = d := by
  generalize hcells : Cell.same d :: cells = all at h
  generalize hold : Part.literal c :: others = old at h
  cases h with
  | nil | hole => cases hold
  | same e h =>
    cases hold
    cases hcells
    rfl
  | edit => cases hcells

/-- What is done to the line ahead at the opening mark of a backquoted command is what the walk does
to the template ahead. -/
theorem unquoted_of_divides {quoted : Bool} {cells : Edits} {old new : Template}
    (h : Edits.Divides cells old new) (hcells : IsUnquoted quoted cells) :
    Unquoted quoted old new := by
  induction h with
  | nil => cases hcells
  | @same cells old new c h ih =>
    cases hcells with
    | same hc hnext hcells =>
      by_cases hbackslash : c = '\\'
      · subst hbackslash
        obtain ⟨d, rest, rfl, hd⟩ := hnext rfl
        refine .backslash (fun e others hold hescapable ↦ ?_) (ih hcells)
        subst hold
        rw [eq_of_divides_same h, ← isUnescaped_iff, hd] at hescapable
        cases hescapable
      · exact .literal hc hbackslash (ih hcells)
  | edit first second h ih =>
    cases hcells with
    | closing after =>
      obtain rfl := h.eq_of_unchanged rfl
      exact .closed _
    | unescaped hc hcells => exact .unescaped (isUnescaped_iff.mp hc) (ih hcells)
  | hole written value h ih => exact .hole (ih hcells.of_unchanged)

/-! ### Names -/

/-- No name holds a character that an escape may stand for, or a parenthesis that a closing mark
becomes. -/
def HasPlainNames (macros : Macros) : Prop :=
  ∀ name value, macros.values.get? name = some value → ∀ c ∈ name, IsOrdinary c ∧ c ≠ ')'

section Names

variable {macros : Macros} (hpattern : macros.pattern = .default) (hnames : HasPlainNames macros)

include hnames

theorem HasPlainNames.ordinary : HasOrdinaryNames macros :=
  fun name value hvalue c hc ↦ (hnames name value hvalue c hc).1

/-- A name that an edit reaches into is known neither before nor afterwards. -/
theorem unknown_of_isUnquoting {inside : Edits} (hcells : ∀ cell ∈ inside, IsUnquoting cell)
    (hedit : inside.HasEdit) (edited : Bool) : macros.values.get? (inside.text edited) = none := by
  obtain ⟨cell, hcell, hcelledit⟩ := hedit
  have hmem : ∃ c ∈ cell.text edited, ¬(IsOrdinary c ∧ c ≠ ')') := by
    cases hcells cell hcell with
    | same c => exact hcelledit.elim
    | closing => cases edited <;> exact ⟨_, List.mem_singleton.mpr rfl, by decide⟩
    | @unescaped c hc =>
      refine ⟨c, by cases edited <;> simp [Cell.text], fun hordinary ↦ ?_⟩
      simp [IsOrdinary, hc] at hordinary
  obtain ⟨c, hc, hnot⟩ := hmem
  cases hvalue : macros.values.get? (inside.text edited) with
  | none => rfl
  | some value =>
    exact absurd (hnames _ value hvalue c (List.mem_flatMap.mpr ⟨cell, hcell, hc⟩)) hnot

include hpattern in
/-- The edits of a backquoted command leave the macros ahead as they are. -/
theorem divides_unquoted {scan next : Scan} {rest : List Char} (hrest : scan.rest = '`' :: rest)
    (hshows : Shows macros scan.next scan.rest) (h : Unquotes scan rest next) :
    Edits.Divides (unquoting scan.context.quoted rest)
      (macros.ahead (scan.next.map (·.nearer 1)) rest) (macros.ahead next.next next.rest) := by
  cases hnext : scan.next with
  | none =>
    rw [h.none hnext, h.rest]
    have hliterals := Edits.divides_literals (unquoting scan.context.quoted rest)
    rwa [text_unquoting_false] at hliterals
  | some found =>
    obtain ⟨front, name, others, hcells, hvalue, hgap, hlength⟩ :=
      exists_unquoting_name hnames.ordinary hrest hshows hnext scan.context.quoted
    have hothers {cell : Cell} (hcell : cell ∈ others) : IsUnquoting cell := by
      have hmem : cell ∈ unquoting scan.context.quoted rest := by simp [hcells, hcell]
      exact isUnquoting_of_mem hmem
    have hplain : Edits.IsPlain others := by
      have hall : Edits.IsPlain (unquoting scan.context.quoted rest) := isPlain_unquoting rest
      rw [hcells] at hall
      exact hall.of_append.2.of_append.2
    have hdivides := Edits.divides_template hpattern hplain fun inside hinside hedit edited ↦
      unknown_of_isUnquoting hnames (fun cell hcell ↦ hothers (hinside.subset hcell)) hedit edited
    have hnew := h.some front _ found hcells hnext hgap
    obtain ⟨gap, length, value, hpos⟩ := found
    dsimp only at hgap hlength hnew
    rw [length_spelled] at hlength
    subst hgap hlength
    have hnearer :
        Occurrence.nearer ⟨(front.text false).length + 1, name.length + 3, value, hpos⟩ 1 =
        ⟨(front.text false).length, name.length + 3, value, hpos⟩ := by simp [Occurrence.nearer]
    have hdivided : Edits.Divides (front ++ Edits.unchanged (spelled name) ++ others) _ _ :=
      Edits.divides_ahead hdivides name value
    rw [List.append_assoc, ← hcells, text_unquoting_false] at hdivided
    rw [Option.map_some, hnearer, hnew, h.rest]
    exact hdivided

end Names

/-- The macro ahead is known, and no name needs what a backquoted command is edited for. -/
structure Save.IsPlain (macros : Macros) (save : Save) : Prop where
  names : '`' ∈ save.rest → HasPlainNames macros
  shows : Shows macros save.next save.rest

namespace Save.IsPlain

variable {macros : Macros} {scan next : Scan}

theorem skip (h : Save.IsPlain macros scan.place) {count : Nat} (hclears : scan.Clears count) :
    Save.IsPlain macros (scan.skip count).place :=
  ⟨fun hmem ↦ h.names (List.mem_of_mem_drop hmem),
    Shows.nearer h.shows (le_gap_of_clears h.shows hclears)⟩

theorem unquote {rest : List Char} (h : Save.IsPlain macros scan.place)
    (hrest : scan.rest = '`' :: rest) (hopen : scan.openBackquote = .more next) :
    Save.IsPlain macros next.place := by
  have hnames : HasPlainNames macros := h.names (by simp [Scan.place, hrest])
  obtain ⟨hunquotes, -⟩ := unquotes_of_openBackquote hrest hopen
  exact ⟨fun _ ↦ hnames, hunquotes.shows hnames.ordinary hrest h.shows⟩

theorem moves (hpattern : macros.pattern = .default)
    (h : scan.Everywhere (Save.IsPlain macros))
    (hmoves : Scan.Moves macros.finder scan next) : next.Everywhere (Save.IsPlain macros) :=
  h.moves
    (fun _ _ hplace _ _ ↦
      ⟨fun hmem ↦ hplace.names (List.mem_of_mem_drop hmem), macros.shows_find hpattern _⟩)
    (fun _ _ hplace hclears ↦ hplace.skip hclears)
    (fun _ _ _ hplace hrest hopen ↦ hplace.unquote hrest hopen) hmoves

end Save.IsPlain

/-! ### The walk of a scan -/

/-- Nothing but a base is open, and in it no arithmetic. -/
def Place.RestsOn (base : Context) (place : Place) : Prop :=
  ∃ inner, place.context :: place.stack = inner ++ [base] ∧
    ∀ context ∈ inner, context.construct ≠ .arithmetic

namespace Place.RestsOn

variable {base : Context} {place : Place}

/-- Where arithmetic is open it is the base. -/
theorem eq_of_arithmetic (h : place.RestsOn base)
    (hcontext : place.context.construct = .arithmetic) :
    place.context = base ∧ place.stack = [] := by
  obtain ⟨inner, hinner, hnone⟩ := h
  cases inner with
  | nil => exact List.cons.inj hinner
  | cons context inner =>
    obtain ⟨rfl, -⟩ := List.cons.inj hinner
    exact absurd hcontext (hnone _ List.mem_cons_self)

/-- Something other than arithmetic is opened. -/
theorem above (h : place.RestsOn base) {next : Place} (opened : List Context)
    (hnext : next.context :: next.stack = opened ++ (place.context :: place.stack))
    (hopened : ∀ context ∈ opened, context.construct ≠ .arithmetic) : next.RestsOn base := by
  obtain ⟨inner, hinner, hnone⟩ := h
  refine ⟨opened ++ inner, by rw [hnext, hinner, List.append_assoc], fun context hmem ↦ ?_⟩
  exact (List.mem_append.mp hmem).elim (hopened context) (hnone context)

/-- Something other than arithmetic is opened or closed, or nothing. -/
theorem apply (h : place.RestsOn base) {turn : Turn} {next : Context} {stack : List Context}
    (hopens : ∀ inner, turn = .opens inner → inner.construct ≠ .arithmetic)
    (hturn : turn.apply place.context place.stack = some (next, stack)) (token : List Char)
    (parts : Template) : (place.pass token next stack parts).RestsOn base := by
  cases turn with
  | stays =>
    cases hturn
    exact h
  | opens opened =>
    cases hturn
    exact h.above [next] rfl (List.forall_mem_singleton.mpr (hopens next rfl))
  | closes =>
    obtain ⟨inner, hinner, hnone⟩ := h
    cases hstack : place.stack with
    | nil =>
      rw [hstack] at hturn
      cases hturn
    | cons outer around =>
      rw [hstack] at hturn hinner
      cases hturn
      cases inner with
      | nil => cases hinner
      | cons context inner =>
        obtain ⟨-, hinner⟩ := List.cons.inj hinner
        exact ⟨inner, hinner, fun context hmem ↦ hnone context (List.mem_cons_of_mem _ hmem)⟩

end Place.RestsOn

/-- The walk up to a place, as it is known to a scan with places to go back to: it stops in front of
each arithmetic that is open, and from behind it the arithmetic is walked by itself. The place
stands within what was written and what is open in front of the last one. -/
inductive Trail (macros : Macros) (first : Place) :
    List Save → List Fragment → List Context → Place → Prop
  | walk {place : Place} (h : Walks first place) (hrests : place.RestsOn first.context) :
    Trail macros first [] [] [] place
  | guess {saves : List Save} {front : List Fragment} {below : List Context} {outer place : Place}
    {save : Save} (h : Trail macros first saves front below outer)
    (hunsettled : ¬outer.IsSettled) (hcontext : outer.context.construct ≠ .singleQuote)
    (hahead : outer.ahead = ['$', '(', '('].map .literal ++ macros.ahead save.next save.rest)
    (hsave : save.finished.reverse = front ++ (outer.written ++ ['$', '(', '('].map .literal))
    (hinside : Walks
      ⟨[], outer.context.enter .arithmetic, [], macros.ahead save.next save.rest⟩ place)
    (hrests : place.RestsOn (outer.context.enter .arithmetic)) :
    Trail macros first (save :: saves) (front ++ (outer.written ++ ['$', '(', '('].map .literal))
      (outer.context :: (outer.stack ++ below)) place

/-- What is inside of an arithmetic is walked as a part of the line. -/
theorem Walks.arithmetic {outer place : Place} {parts : Template}
    (hunsettled : ¬outer.IsSettled) (hcontext : outer.context.construct ≠ .singleQuote)
    (hahead : outer.ahead = ['$', '(', '('].map .literal ++ parts)
    (hinside : Walks ⟨[], outer.context.enter .arithmetic, [], parts⟩ place) :
    Walks outer (place.within (outer.written ++ ['$', '(', '('].map .literal)
      (outer.context :: outer.stack)) := by
  have hopening := Walks.step (.refl outer) (.token hunsettled hahead (.arithmetic hcontext) rfl)
  have hwithin := hinside.within (outer.written ++ ['$', '(', '('].map .literal)
    (outer.context :: outer.stack)
  simp only [Place.within, List.append_nil, List.nil_append] at hwithin
  exact hopening.trans hwithin

namespace Trail

variable {macros : Macros} {first place next : Place} {saves : List Save} {save : Save}
  {front : List Fragment} {below : List Context}

/-- The place is walked on from. -/
theorem extend (h : Trail macros first saves front below place) (hwalks : Walks place next)
    (hrests : ∀ base, place.RestsOn base → next.RestsOn base) :
    Trail macros first saves front below next := by
  cases h with
  | walk h hplace => exact .walk (h.trans hwalks) (hrests _ hplace)
  | guess h hunsettled hcontext hahead hsave hinside hplace =>
    exact .guess h hunsettled hcontext hahead hsave (hinside.trans hwalks) (hrests _ hplace)

/-- The walk to the place in the whole line. -/
theorem walks (h : Trail macros first saves front below place) :
    Walks first (place.within front below) := by
  induction h with
  | walk h => simpa [Place.within] using h
  | @guess saves front below outer place save h hunsettled hcontext hahead _ hinside _ ih =>
    have houter : ¬(outer.within front below).IsSettled := fun hsettled ↦
      hunsettled hsettled.of_within
    simpa [Place.within] using ih.trans (Walks.arithmetic houter hcontext hahead hinside)

/-- Inside of a guess the arithmetic is open. -/
theorem not_isSettled (h : Trail macros first (save :: saves) front below place)
    (hahead : place.ahead ≠ []) : ¬place.IsSettled := by
  cases h with
  | @guess _ _ _ outer _ _ _ _ _ _ _ _ hrests =>
    obtain ⟨inner, hinner, -⟩ := hrests
    rintro (hnil | ⟨-, hnone⟩)
    · exact hahead hnil
    · have hmem : outer.context.enter .arithmetic ∈ place.context :: place.stack := by
        rw [hinner]
        exact List.mem_append_right _ (List.mem_singleton.mpr rfl)
      exact hnone _ hmem rfl

/-- What can be closed in the whole line can be closed in the walk by itself, but for arithmetic. -/
theorem exists_apply (h : Trail macros first saves front below place) {turn : Turn}
    {context : Context} {stack : List Context}
    (hcloses : turn = .closes → place.context.construct ≠ .arithmetic)
    (hturn : turn.apply place.context (place.stack ++ below) = some (context, stack)) :
    ∃ inner, turn.apply place.context place.stack = some (context, inner) ∧
      stack = inner ++ below := by
  cases turn with
  | stays | opens =>
    cases hturn
    exact ⟨_, rfl, rfl⟩
  | closes =>
    cases hstack : place.stack with
    | cons outer around =>
      rw [hstack] at hturn
      cases hturn
      exact ⟨around, rfl, rfl⟩
    | nil =>
      rw [hstack] at hturn
      cases h with
      | walk => cases hturn
      | guess _ _ _ _ _ _ hrests =>
        obtain ⟨inner, hinner, -⟩ := hrests
        rw [hstack] at hinner
        cases inner with
        | nil => exact absurd (congrArg Context.construct (List.cons.inj hinner).1) (hcloses rfl)
        | cons => simp at hinner

end Trail

/-- A scan stands at a place of the walk within more that is written and more that is open. -/
structure Scan.StandsAt (macros : Macros) (front : List Fragment) (below : List Context)
    (place : Place) (scan : Scan) : Prop where
  written : scan.finished.reverse = front ++ place.written
  context : scan.context = place.context
  stack : scan.stack = place.stack ++ below
  ahead : macros.ahead scan.next scan.rest = place.ahead

/-- A scan is on the walk over its line. -/
def Scan.IsUnderWay (macros : Macros) (first : Place) (scan : Scan) : Prop :=
  ∃ front below place, Trail macros first scan.saves front below place ∧
    scan.StandsAt macros front below place

namespace Scan.StandsAt

variable {macros : Macros} {first place : Place} {scan next : Scan} {front : List Fragment}
  {below : List Context}

/-- In front of a macro, and inside of a guess, the walk is not over. -/
theorem not_isSettled (h : scan.StandsAt macros front below place)
    (htrail : Trail macros first scan.saves front below place) (hnil : scan.rest ≠ [])
    (hsaves : scan.next = none → scan.saves ≠ []) : ¬place.IsSettled := by
  have hahead : place.ahead ≠ [] := by
    intro hempty
    have hwritten := macros.written_ahead scan.next scan.rest
    rw [h.ahead, hempty] at hwritten
    exact hnil hwritten.symm
  cases hkept : scan.saves with
  | nil =>
    rintro (hempty | ⟨hvalues, -⟩)
    · exact hahead hempty
    · rw [← h.ahead] at hvalues
      exact hsaves (macros.next_eq_none_of_values hvalues) hkept
  | cons save saves =>
    rw [hkept] at htrail
    exact htrail.not_isSettled hahead

/-- What is passed in front of the next macro is characters. -/
theorem ahead_eq (h : scan.StandsAt macros front below place)
    (hplain : Save.IsPlain macros scan.place) {count : Nat} (hclears : scan.Clears count) :
    place.ahead = (scan.rest.take count).map .literal ++
      macros.ahead (scan.skip count).next (scan.skip count).rest := by
  rw [← h.ahead]
  exact macros.ahead_drop (le_gap_of_clears hplain.shows hclears)

theorem substitute (h : scan.StandsAt macros front below place)
    (htrail : Trail macros first scan.saves front below place) {found : Occurrence}
    (hnext : scan.next = some found) (hgap : found.gap = 0) :
    (scan.substitute macros.finder found).IsUnderWay macros first := by
  have hahead : place.ahead = .hole (scan.rest.take found.length) found.value ::
      macros.ahead (macros.find (scan.rest.drop found.length)) (scan.rest.drop found.length) := by
    rw [← h.ahead, hnext, macros.ahead_of_gap_eq_zero hgap]
  refine ⟨front, below, _, htrail.extend (.step (.refl place) (.value hahead))
    fun _ hrests ↦ hrests,
    ?_, h.context, h.stack, rfl⟩
  simp [Scan.substitute, h.written, h.context]

/-- A token that does not open or close arithmetic. -/
theorem read (h : scan.StandsAt macros front below place)
    (htrail : Trail macros first scan.saves front below place)
    (hplain : Save.IsPlain macros scan.place) (hunsettled : ¬place.IsSettled) {count : Nat}
    {turn : Turn} {context : Context} {stack : List Context} (hclears : scan.Clears count)
    (htoken : Token scan.context (scan.rest.take count) (scan.rest.drop count) turn)
    (hopens : ∀ inner, turn = .opens inner → inner.construct ≠ .arithmetic)
    (hcloses : turn = .closes → scan.context.construct ≠ .arithmetic)
    (hturn : turn.apply scan.context scan.stack = some (context, stack)) :
    { scan.skip count with context := context, stack := stack }.IsUnderWay macros first := by
  rw [h.context] at htoken hcloses hturn
  rw [h.stack] at hturn
  obtain ⟨inner, hinner, rfl⟩ := htrail.exists_apply hcloses hturn
  have hwritten := macros.written_ahead (scan.skip count).next (scan.skip count).rest
  have hstep := Walks.step (.refl place)
    (.token hunsettled (h.ahead_eq hplain hclears) (hwritten.symm ▸ htoken) hinner)
  refine ⟨front, below, _, htrail.extend hstep fun _ hrests ↦ hrests.apply hopens hinner _ _,
    ?_, rfl, rfl, rfl⟩
  simp [Scan.skip, Place.pass, h.written]

theorem guess (h : scan.StandsAt macros front below place)
    (htrail : Trail macros first scan.saves front below place)
    (hplain : Save.IsPlain macros scan.place) (hunsettled : ¬place.IsSettled)
    {rest : List Char} (hcontext : scan.context.construct ≠ .singleQuote)
    (hrest : scan.rest = '$' :: '(' :: '(' :: rest) (hclears : scan.Clears 3) :
    scan.openArithmetic.IsUnderWay macros first := by
  have hahead := h.ahead_eq hplain hclears
  rw [h.context] at hcontext
  have htake : scan.rest.take 3 = ['$', '(', '('] := by rw [hrest]; rfl
  have hfinished : (scan.skip 3).finished.reverse =
      front ++ (place.written ++ ['$', '(', '('].map .literal) := by
    simp [Scan.skip, htake, h.written]
  rw [htake] at hahead
  refine ⟨_, _, _, .guess htrail hunsettled hcontext hahead hfinished (.refl _) ⟨[], rfl, by simp⟩,
    ?_, ?_, ?_, rfl⟩
  · rw [List.append_nil]
    exact hfinished
  · simp [Scan.openArithmetic, Scan.push, h.context]
  · simp [Scan.openArithmetic, Scan.push, h.context, h.stack]

/-- Arithmetic is closed: the walk that stopped in front of it goes through it. -/
theorem confirm (h : scan.StandsAt macros front below place)
    (htrail : Trail macros first scan.saves front below place)
    (hplain : Save.IsPlain macros scan.place) (hunsettled : ¬place.IsSettled)
    {rest : List Char} {outer : Context} {stack : List Context} {save : Save} {saves : List Save}
    (hcontext : scan.context.construct = .arithmetic) (hrest : scan.rest = ')' :: ')' :: rest)
    (hclears : scan.Clears 2) (hstack : scan.stack = outer :: stack)
    (hsaves : scan.saves = save :: saves) :
    { scan.skip 2 with context := outer, stack := stack, saves := saves }.IsUnderWay macros
      first := by
  have hahead := h.ahead_eq hplain hclears
  have htake : scan.rest.take 2 = [')', ')'] := by rw [hrest]; rfl
  rw [htake] at hahead
  rw [h.context] at hcontext
  rw [hsaves] at htrail
  cases htrail with
  | @guess _ front' below' before _ _ htrail hopening hsingle hbefore _ hinside hrests =>
    obtain ⟨-, hnil⟩ := hrests.eq_of_arithmetic hcontext
    have hall := h.stack
    rw [hstack, hnil, List.nil_append] at hall
    obtain ⟨rfl, rfl⟩ := List.cons.inj hall
    have hthrough := Walks.arithmetic hopening hsingle hbefore hinside
    have hclosing := Walks.step hthrough
      (.token (fun hsettled ↦ hunsettled hsettled.of_within) hahead (.arithmeticEnd hcontext)
        (by rw [Place.within, hnil]; rfl))
    refine ⟨front', below', _, htrail.extend hclosing fun _ hrests ↦ hrests, ?_, rfl, rfl, rfl⟩
    simp [Scan.skip, Place.pass, Place.within, htake, h.written]

/-- Arithmetic is given up: what was walked of it by itself shows that it is none. -/
theorem abandon (h : scan.StandsAt macros front below place)
    (htrail : Trail macros first scan.saves front below place)
    (hplain : Save.IsPlain macros scan.place) {rest : List Char} {save : Save} {saves : List Save}
    (hcontext : scan.context.construct = .arithmetic) (hrest : scan.rest = ')' :: rest)
    (hclears : scan.Clears 1) (hlone : rest.head? ≠ some ')')
    (hsaves : scan.saves = save :: saves) :
    Scan.IsUnderWay macros first
      ⟨save.finished, save.rest, save.next, .subshell, .substitution :: scan.stack, saves⟩ := by
  have hahead := h.ahead_eq hplain hclears
  have htake : scan.rest.take 1 = [')'] := by rw [hrest]; rfl
  have hdrop : (scan.skip 1).rest = rest := by simp [Scan.skip, hrest]
  rw [htake, hdrop] at hahead
  rw [h.context] at hcontext
  rw [hsaves] at htrail
  cases htrail with
  | @guess _ front' below' before _ _ htrail hopening hsingle hbefore hsave hinside hrests =>
    obtain ⟨hbase, hnil⟩ := hrests.eq_of_arithmetic hcontext
    obtain ⟨inside, context, stack, ahead⟩ := place
    cases hbase
    cases hnil
    cases hahead
    have hsubshell := Walks.subshell (.refl before) hopening hsingle hbefore hinside
      (by simpa [macros.written_ahead] using hlone)
    refine ⟨front', below', _, htrail.extend hsubshell fun _ hrests ↦ ?_, hsave, rfl, ?_, rfl⟩
    · exact hrests.above [.subshell, .substitution] rfl
        (by simp [Context.subshell, Context.substitution])
    · simp [Place.pass, h.stack]

theorem unquote (hpattern : macros.pattern = .default)
    (h : scan.StandsAt macros front below place)
    (htrail : Trail macros first scan.saves front below place)
    (hplain : Save.IsPlain macros scan.place) (hunsettled : ¬place.IsSettled)
    {rest : List Char} (hcontext : scan.context.construct ≠ .singleQuote)
    (hrest : scan.rest = '`' :: rest) (hclears : scan.Clears 1)
    (hopen : scan.openBackquote = .more next) : next.IsUnderWay macros first := by
  have hnames : HasPlainNames macros := hplain.names (by simp [Scan.place, hrest])
  have hahead := h.ahead_eq hplain hclears
  have htake : scan.rest.take 1 = ['`'] := by rw [hrest]; rfl
  have hdrop : (scan.skip 1).rest = rest := by simp [Scan.skip, hrest]
  rw [htake, hdrop] at hahead
  obtain ⟨hunquotes, hclosing⟩ := unquotes_of_openBackquote hrest hopen
  have hdivides := divides_unquoted hpattern hnames hrest hplain.shows hunquotes
  have hlater := unquoted_of_divides hdivides (isUnquoted_unquoting hclosing)
  rw [h.context] at hcontext hlater
  have hstep := Walks.step (.refl place) (.command hunsettled hcontext hahead hlater)
  have hextended := htrail.extend hstep fun _ hrests ↦ hrests.above [.substitution] rfl
    (by simp [Context.substitution])
  refine ⟨front, below, _, hunquotes.saves ▸ hextended, ?_, hunquotes.context, ?_, rfl⟩
  · simp [Place.pass, hunquotes.finished, h.written]
  · simp [Place.pass, hunquotes.stack, h.context, h.stack]

end Scan.StandsAt

namespace Scan.IsUnderWay

variable {macros : Macros} {first : Place} {scan next : Scan}

/-- Every step of a scan goes along the walk. -/
theorem advances (hpattern : macros.pattern = .default) (h : scan.IsUnderWay macros first)
    (hplain : Save.IsPlain macros scan.place) (hadvances : Advances macros.finder scan next) :
    next.IsUnderWay macros first := by
  obtain ⟨front, below, place, htrail, hstands⟩ := h
  cases hadvances with
  | substituted hnext hgap => exact hstands.substitute htrail hnext hgap
  | turned hsaves hturns =>
    have hunsettled (hnil : scan.rest ≠ []) := hstands.not_isSettled htrail hnil hsaves
    cases hturns with
    | read turn count hclears htoken hopens hcloses hturn =>
      have hnil : scan.rest ≠ [] := by
        intro hnil
        have htake := htoken.ne_nil
        simp [hnil] at htake
      exact hstands.read htrail hplain (hunsettled hnil) hclears htoken hopens hcloses hturn
    | guessed hcontext hrest hclears =>
      exact hstands.guess htrail hplain (hunsettled (by simp [hrest])) hcontext hrest hclears
    | confirmed hcontext hrest hclears hstack hkept =>
      exact hstands.confirm htrail hplain (hunsettled (by simp [hrest])) hcontext hrest hclears
        hstack hkept
    | abandoned hcontext hrest hclears hlone hkept =>
      exact hstands.abandon htrail hplain hcontext hrest hclears hlone hkept
    | unquoted hcontext hrest hclears hopen =>
      exact hstands.unquote hpattern htrail hplain (hunsettled (by simp [hrest])) hcontext hrest
        hclears hopen

/-- A whole scan goes along the walk. -/
theorem of_run (hpattern : macros.pattern = .default) (h : scan.IsUnderWay macros first)
    (hplain : scan.Everywhere (Save.IsPlain macros)) {last : Scan}
    (hrun : scan.run macros.finder = .done last) :
    last.IsUnderWay macros first ∧ Save.IsPlain macros last.place ∧
      (last.rest = [] ∨ last.next = none ∧ last.saves = []) := by
  have hpreserved (scan next : Scan)
      (hscan : scan.IsUnderWay macros first ∧ scan.Everywhere (Save.IsPlain macros))
      (hadvances : Advances macros.finder scan next) :
      next.IsUnderWay macros first ∧ next.Everywhere (Save.IsPlain macros) :=
    ⟨hscan.1.advances hpattern hscan.2.place hadvances,
      Save.IsPlain.moves hpattern hscan.2 hadvances.moves⟩
  obtain ⟨⟨hlast, hplaces⟩, hend⟩ := Scan.of_run hpreserved hrun ⟨h, hplain⟩
  exact ⟨hlast, hplaces.place, hend⟩

/-- Before anything of a line is read the walk has not begun. -/
theorem of_find {text : List Char} {next : Option Occurrence} (hnext : macros.find text = next) :
    (⟨[], text, next, .basic, [], []⟩ : Scan).IsUnderWay macros
      (.start (macros.template text)) := by
  subst hnext
  exact ⟨[], [], _, .walk (.refl _) ⟨[], rfl, by simp⟩, rfl, rfl, rfl,
    (macros.template_eq_ahead text).symm⟩

/-- Where a scan ends the walk is over. -/
theorem survives {parts : Template} (h : scan.IsUnderWay macros (.start parts))
    (hplain : Save.IsPlain macros scan.place)
    (hend : scan.rest = [] ∨ scan.next = none ∧ scan.saves = []) :
    Survives parts scan.text := by
  obtain ⟨front, below, place, htrail, hstands⟩ := h
  refine ⟨place.within front below, htrail.walks, ?_, ?_⟩
  · rcases hend with hnil | ⟨hnone, hsaves⟩
    · refine .inl ?_
      have hshows : Shows macros scan.next scan.rest := hplain.shows
      rw [hnil] at hshows
      rw [Place.within, ← hstands.ahead, hshows.next_eq_none, hnil]
      rfl
    · rw [hsaves] at htrail
      cases htrail with
      | walk _ hrests =>
        obtain ⟨inner, hinner, hopen⟩ := hrests
        refine .inr ⟨?_, ?_⟩
        · rw [Place.within, ← hstands.ahead, hnone]
          exact Template.values_map_literal scan.rest
        · change ∀ context ∈ place.context :: (place.stack ++ []), _
          rw [List.append_nil, hinner]
          refine List.forall_mem_append.mpr ⟨hopen, List.forall_mem_singleton.mpr ?_⟩
          simp [Place.start, Context.basic]
  · rw [Place.text, Place.within, ← hstands.ahead, macros.written_ahead, ← hstands.written]
    rfl

end Scan.IsUnderWay

/-- What is expanded is what the walk over the template of its line comes to. -/
theorem survives_expand_unix {macros : Macros} (hpattern : macros.pattern = .default)
    {text : List Char} (hnames : '`' ∈ text → HasPlainNames macros)
    (hok : (Macro.expand .unix macros.finder text).ok = true) :
    Survives (macros.template text) (Macro.expand .unix macros.finder text).text := by
  have hplain : Save.IsPlain macros ⟨[], text, macros.find text⟩ :=
    ⟨hnames, macros.shows_find hpattern text⟩
  cases hfound : macros.find text with
  | none =>
    have hexpand : Macro.expand .unix macros.finder text = ⟨text, none, 0⟩ := by
      have hfind : macros.finder [] text = none := hfound
      rw [Macro.expand, expand, hfind]
    rw [hexpand]
    rw [hfound] at hplain
    exact (Scan.IsUnderWay.of_find hfound).survives hplain (.inr ⟨rfl, rfl⟩)
  | some found =>
    rw [hfound] at hplain
    have hfind : macros.finder [] text = some found := hfound
    cases hrun : (Scan.start text found).run macros.finder with
    | failed | underflow =>
      rw [expand_of_find hfind, hrun] at hok
      cases hok
    | done last =>
      obtain ⟨hlast, hplace, hend⟩ := (Scan.IsUnderWay.of_find hfound).of_run hpattern
        ⟨hplain, by simp⟩ hrun
      rw [expand_of_run_eq_done hfind hrun]
      exact hlast.survives hplace hend

/-- No character of a line is lost. What a line is expanded to is the one text that a walk over its
template comes to, which puts in the values of the macros and keeps the characters of the line in
their order; only backquoted commands are rewritten, for which the names of the macros must be free
of what is rewritten. -/
theorem survives_iff_eq_expand_unix {macros : Macros} (hpattern : macros.pattern = .default)
    {text : List Char} (hnames : '`' ∈ text → HasPlainNames macros)
    (hok : (Macro.expand .unix macros.finder text).ok = true) (other : List Char) :
    Survives (macros.template text) other ↔
      other = (Macro.expand .unix macros.finder text).text := by
  have hsurvives := survives_expand_unix hpattern hnames hok
  constructor
  · intro hother
    exact hother.unique hsurvives
  · rintro rfl
    exact hsurvives

/-- Of a pair of backslashes in front of a dollar sign a backquoted command loses one, and none in
front of a double quote. Macros are in it and behind it. -/
theorem survives_of_backslashes :
    let parts := (Macros.mk [(['X'], "v w".toList)] .default).template
      "`a \\\\$b \\\" %\x7bX\x7d`%\x7bX\x7d".toList
    Survives parts "$( a \\$b \\\" 'v w')'v w'".toList ∧
      ¬Survives parts "$( a $b \\\" 'v w')'v w'".toList ∧
        ¬Survives parts "$( a \\$b \" 'v w')'v w'".toList := by
  intro parts
  have hkeys : ∀ name ∈ [['X']], ∀ c ∈ name, IsOrdinary c ∧ c ≠ ')' :=
    List.forall_mem_singleton.mpr (List.forall_mem_singleton.mpr (by decide))
  have hnames : HasPlainNames (Macros.mk [(['X'], "v w".toList)] .default) := by
    intro name value hvalue
    exact hkeys name ((Table.isSome_get? _ name).mp (Option.isSome_of_eq_some hvalue))
  have hok : (Macro.expand .unix (Macros.mk [(['X'], "v w".toList)] .default).finder
      "`a \\\\$b \\\" %\x7bX\x7d`%\x7bX\x7d".toList).ok = true := by decide +kernel
  have htext : (Macro.expand .unix (Macros.mk [(['X'], "v w".toList)] .default).finder
      "`a \\\\$b \\\" %\x7bX\x7d`%\x7bX\x7d".toList).text =
      "$( a \\$b \\\" 'v w')'v w'".toList := by decide +kernel
  have hsurvives (other : List Char) := survives_iff_eq_expand_unix rfl (fun _ ↦ hnames) hok other
  rw [htext] at hsurvives
  refine ⟨(hsurvives _).mpr rfl, fun h ↦ ?_, fun h ↦ ?_⟩
  · exact absurd ((hsurvives _).mp h) (by decide)
  · exact absurd ((hsurvives _).mp h) (by decide)

/-- Where an escape is taken out of a name, the macro ahead keeps its length and swallows a
character behind it. -/
theorem not_survives_expand_unix_of_escape_in_name :
    (Macro.expand .unix (Macros.mk [(['\\', '$'], ['v'])] .default).finder
      "`%\x7b\\$\x7dx`".toList).ok = true ∧
    ¬Survives ((Macros.mk [(['\\', '$'], ['v'])] .default).template "`%\x7b\\$\x7dx`".toList)
      (Macro.expand .unix (Macros.mk [(['\\', '$'], ['v'])] .default).finder
        "`%\x7b\\$\x7dx`".toList).text := by
  refine ⟨by decide +kernel, fun hsurvives ↦ ?_⟩
  have hliteral : 'x' ∈ (((Macros.mk [(['\\', '$'], ['v'])] .default).template
      "`%\x7b\\$\x7dx`".toList).literals.filter isKept) := by decide +kernel
  exact absurd (hsurvives.sublist.subset hliteral) (by decide +kernel)

end CommandLine.Macro.Unix
