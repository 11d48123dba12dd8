import CommandLine.Proofs.Macro.UnixWalk

/-!
A walk over a line has no choice. From a place it goes on to one place only, but at `$((` it may
take the arithmetic or leave it. It leaves it only where the arithmetic, walked by itself, comes
upon a parenthesis that closes nothing, and then a walk that takes it is never over
(`Walks.not_isOver`). So a line becomes one text at most (`Survives.unique`).
-/

set_option autoImplicit false

namespace CommandLine.Macro.Unix

/-! ### One step -/

theorem Unquoted.unique {quoted : Bool} {parts later other : Template}
    (h : Unquoted quoted parts later) (hother : Unquoted quoted parts other) : later = other := by
  induction h generalizing other with
  | closed parts =>
    cases hother with
    | closed => rfl
    | literal hbackquote => exact absurd rfl hbackquote
  | unescaped hc _ ih =>
    cases hother with
    | unescaped _ hother => rw [ih hother]
    | backslash hparts => exact absurd hc (hparts _ _ rfl)
    | literal _ hbackslash => exact absurd rfl hbackslash
  | backslash hparts _ ih =>
    cases hother with
    | unescaped hc => exact absurd hc (hparts _ _ rfl)
    | backslash _ hother => rw [ih hother]
    | literal _ hbackslash => exact absurd rfl hbackslash
  | literal hbackquote hbackslash _ ih =>
    cases hother with
    | closed => exact absurd rfl hbackquote
    | unescaped | backslash => exact absurd rfl hbackslash
    | literal _ _ hother => rw [ih hother]
  | hole _ ih =>
    cases hother with
    | hole hother => rw [ih hother]

theorem Unquoted.length_le {quoted : Bool} {parts later : Template}
    (h : Unquoted quoted parts later) : later.length ≤ parts.length := by
  induction h <;> simp only [List.length_cons] <;> omega

/-- A token is made of characters, and it does not begin with the mark of a backquoted command. -/
theorem Token.exists_cons {context : Context} {token behind : List Char} {turn : Turn}
    (h : Token context token behind turn) :
    ∃ c rest, token = c :: rest ∧ (context.construct ≠ .singleQuote → c ≠ '`') := by
  obtain ⟨c, rest, rfl⟩ := List.exists_cons_of_ne_nil h.ne_nil
  refine ⟨c, rest, rfl, ?_⟩
  rintro hcontext rfl
  have hhead := h.tokenAt?_append
  rw [List.cons_append, tokenAt?_of_isSpecial rfl hcontext] at hhead
  cases hhead

namespace Goes

variable {place next other : Place}

/-- A walk goes on to one place only. -/
theorem unique (h : Goes place next) (hother : Goes place other) : next = other := by
  cases h with
  | value hahead =>
    cases hother with
    | value hhole =>
      rw [hahead] at hhole
      cases hhole
      rfl
    | token _ hliteral htoken _ =>
      obtain ⟨c, rest, rfl, -⟩ := htoken.exists_cons
      rw [hahead] at hliteral
      cases hliteral
    | command _ _ hbackquote _ =>
      rw [hahead] at hbackquote
      cases hbackquote
  | token _ hahead htoken hturn =>
    obtain ⟨c, rest, rfl, hc⟩ := htoken.exists_cons
    cases hother with
    | value hhole =>
      rw [hahead] at hhole
      cases hhole
    | token _ hsame hsecond hsecondTurn =>
      have htext := congrArg Template.written (hahead.symm.trans hsame)
      rw [Template.written_append, Template.written_map_literal, Template.written_append,
        Template.written_map_literal] at htext
      obtain ⟨rfl, rfl⟩ := htoken.unique hsecond htext
      obtain rfl := List.append_cancel_left (hahead.symm.trans hsame)
      rw [hturn] at hsecondTurn
      cases hsecondTurn
      rfl
    | command _ hcontext hbackquote _ =>
      rw [hahead] at hbackquote
      cases hbackquote
      exact absurd rfl (hc hcontext)
  | command _ hcontext hahead hlater =>
    cases hother with
    | value hhole =>
      rw [hahead] at hhole
      cases hhole
    | token _ hliteral htoken _ =>
      obtain ⟨c, rest, rfl, hc⟩ := htoken.exists_cons
      rw [hahead] at hliteral
      cases hliteral
      exact absurd rfl (hc hcontext)
    | command _ _ hsame hsecond =>
      rw [hahead] at hsame
      cases hsame
      rw [hlater.unique hsecond]

/-- Less of the line is ahead. -/
theorem length_lt (h : Goes place next) : next.ahead.length < place.ahead.length := by
  cases h with
  | value hahead =>
    rw [hahead]
    exact Nat.lt_succ_self _
  | @token _ _ _ _ parts _ hahead htoken _ =>
    obtain ⟨c, rest, rfl, -⟩ := htoken.exists_cons
    change parts.length < _
    rw [hahead, List.length_append, List.length_map, List.length_cons]
    omega
  | command _ _ hahead hlater =>
    rw [hahead]
    exact Nat.lt_succ_of_le hlater.length_le

end Goes

theorem Place.IsSettled.not_goes {place next : Place} (h : place.IsSettled) : ¬Goes place next := by
  rintro (hahead | hunsettled | hunsettled)
  · rcases h with hnil | ⟨hnone, -⟩
    · rw [hahead] at hnil
      cases hnil
    · rw [hahead] at hnone
      simp [Template.values, Part.value?] at hnone
  · exact hunsettled h
  · exact hunsettled h

/-! ### A parenthesis that closes nothing -/

/-- In arithmetic a parenthesis is ahead that closes nothing. -/
structure Place.IsLone (place : Place) : Prop where
  context : place.context.construct = .arithmetic
  ahead : ∃ later : Template, place.ahead = .literal ')' :: later ∧ later.written.head? ≠ some ')'

namespace Place.IsLone

variable {place next : Place}

theorem not_isSettled (h : place.IsLone) : ¬place.IsSettled := by
  obtain ⟨later, hahead, -⟩ := h.ahead
  rintro (hnil | ⟨-, hnone⟩)
  · rw [hahead] at hnil
    cases hnil
  · exact hnone _ List.mem_cons_self h.context

theorem not_goes (h : place.IsLone) : ¬Goes place next := by
  obtain ⟨later, hahead, hlone⟩ := h.ahead
  have hcontext := h.context
  rintro (hhole | ⟨-, hliteral, htoken, -⟩ | ⟨-, -, hbackquote, -⟩)
  · rw [hahead] at hhole
    cases hhole
  · have htext := congrArg Template.written (hliteral.symm.trans hahead)
    rw [Template.written_append, Template.written_map_literal] at htext
    have hnone : tokenAt? place.context (')' :: later.written) = none := by
      cases hwritten : later.written with
      | nil => simp [tokenAt?, jointTokenAt?, hcontext, closing, opened, isLiteral]
      | cons c rest =>
        have hc : c ≠ ')' := by simpa [hwritten] using hlone
        simp [tokenAt?, jointTokenAt?, hcontext, closing, opened, isLiteral, hc]
    have hhead := htoken.tokenAt?_append
    rw [htext] at hhead
    exact absurd (hnone.symm.trans hhead) (by simp)
  · rw [hahead] at hbackquote
    cases hbackquote

end Place.IsLone

/-- What looks like arithmetic is none: walked by itself, it comes upon a parenthesis that closes
nothing. -/
structure Place.IsSubshell (place : Place) (parts : Template) : Prop where
  unsettled : ¬place.IsSettled
  context : place.context.construct ≠ .singleQuote
  ahead : place.ahead = ['$', '(', '('].map .literal ++ parts
  fails : ∃ lone : Place, Walks ⟨[], place.context.enter .arithmetic, [], parts⟩ lone ∧
    lone.IsLone ∧ lone.stack = []

namespace Walks

variable {first last other : Place}

/-- A walk has not begun, or it begins with a step. -/
theorem head (h : Walks first last) :
    last = first ∨ (∃ next, Goes first next ∧ Walks next last) ∨
      ∃ parts, first.IsSubshell parts ∧
        Walks (first.pass ['$', '(', '('] .subshell
          (.substitution :: first.context :: first.stack) parts) last := by
  induction h with
  | refl => exact .inl rfl
  | @step first place next h hgoes ih =>
    rcases ih with rfl | ⟨second, hsecond, hwalks⟩ | ⟨parts, hsubshell, hwalks⟩
    · exact .inr (.inl ⟨next, hgoes, .refl next⟩)
    · exact .inr (.inl ⟨second, hsecond, hwalks.step hgoes⟩)
    · exact .inr (.inr ⟨parts, hsubshell, hwalks.step hgoes⟩)
  | @subshell first place inside parts later h hunsettled hcontext hahead hinside hlone ih _ =>
    rcases ih with rfl | ⟨second, hsecond, hwalks⟩ | ⟨others, hsubshell, hwalks⟩
    · exact .inr (.inr ⟨parts, ⟨hunsettled, hcontext, hahead, _, hinside,
        ⟨rfl, later, rfl, hlone⟩, rfl⟩, .refl _⟩)
    · exact .inr (.inl ⟨second, hsecond,
        hwalks.subshell hunsettled hcontext hahead hinside hlone⟩)
    · exact .inr (.inr ⟨others, hsubshell,
        hwalks.subshell hunsettled hcontext hahead hinside hlone⟩)

theorem eq_of_isSettled (h : Walks first last) (hsettled : first.IsSettled) : last = first := by
  rcases h.head with heq | ⟨next, hgoes, -⟩ | ⟨parts, hsubshell, -⟩
  · exact heq
  · exact absurd hgoes hsettled.not_goes
  · exact absurd hsettled hsubshell.unsettled

end Walks

/-! ### The end of a walk -/

namespace Place

variable {place : Place} {parts : Template}

theorem within_within (place : Place) (front outer : List Fragment) (below around : List Context) :
    (place.within front below).within outer around =
      place.within (outer ++ front) (below ++ around) := by
  simp [within]

theorem IsLone.within (h : place.IsLone) (front : List Fragment) (below : List Context) :
    (place.within front below).IsLone :=
  ⟨h.context, h.ahead⟩

namespace IsSubshell

/-- It may be taken for arithmetic all the same. -/
theorem goes (h : place.IsSubshell parts) :
    Goes place (Place.within (place.written ++ ['$', '(', '('].map .literal)
      (place.context :: place.stack) ⟨[], place.context.enter .arithmetic, [], parts⟩) := by
  have hgoes : Goes place _ := .token h.unsettled h.ahead (.arithmetic h.context) rfl
  simpa [pass, Place.within] using hgoes

theorem length_lt (h : place.IsSubshell parts) : parts.length < place.ahead.length := by
  rw [h.ahead, List.length_append, List.length_map]
  exact Nat.lt_add_of_pos_left (by decide)

theorem parts_eq (h : place.IsSubshell parts) {others : Template}
    (hother : place.IsSubshell others) : parts = others :=
  List.append_cancel_left (h.ahead.symm.trans hother.ahead)

theorem of_within {front : List Fragment} {below : List Context}
    (h : (place.within front below).IsSubshell parts) (hsettled : ¬place.IsSettled) :
    place.IsSubshell parts :=
  ⟨hsettled, h.context, h.ahead, h.fails⟩

end IsSubshell

/-- A walk is over, or it has come upon a parenthesis that closes nothing, in arithmetic that has
less than `depth` constructs around it. -/
def IsOver (depth : Nat) (place : Place) : Prop :=
  place.IsSettled ∨ place.IsLone ∧ place.stack.length < depth

theorem IsOver.mono {depth deeper : Nat} (h : place.IsOver depth) (hdepth : depth ≤ deeper) :
    place.IsOver deeper :=
  h.imp_right fun ⟨hlone, hlt⟩ ↦ ⟨hlone, Nat.lt_of_lt_of_le hlt hdepth⟩

end Place

namespace Walks

variable {first last other inner lone : Place} {front : List Fragment} {below : List Context}

/-- Where arithmetic by itself comes upon a parenthesis that closes nothing, no walk through it is
over before that. -/
theorem not_isOver (h : Walks inner lone) (hlone : lone.IsLone) (hstack : lone.stack = [])
    (hlast : Walks (inner.within front below) last) : ¬last.IsOver below.length := by
  -- Both walks take the same steps until one of them takes for arithmetic what the other leaves:
  -- that one is inside of arithmetic that fails, of which less is ahead.
  induction hlength : inner.ahead.length using Nat.strongRecOn
    generalizing inner lone last front below with
  | ind length ih =>
    have hinner : ¬inner.IsSettled := fun hsettled ↦
      hlone.not_isSettled (h.eq_of_isSettled hsettled ▸ hsettled)
    rcases hlast.head with rfl | ⟨next, hgoes, hnext⟩ | ⟨parts, hsubshell, hnext⟩
    · rintro (hsettled | ⟨-, hdepth⟩)
      · exact hinner hsettled.of_within
      · rw [Place.within, List.length_append] at hdepth
        omega
    · rcases h.head with rfl | ⟨second, hsecond, hwalks⟩ | ⟨parts, hsubshell, -⟩
      · exact absurd hgoes (hlone.within front below).not_goes
      · obtain rfl := hgoes.unique (hsecond.within front below)
        exact ih _ (hlength ▸ hsecond.length_lt) hwalks hlone hstack hnext rfl
      · obtain rfl := hgoes.unique (hsubshell.goes.within front below)
        obtain ⟨deeper, hdeeper, hfails, hempty⟩ := hsubshell.fails
        rw [Place.within_within] at hnext
        have hover := ih _ (hlength ▸ hsubshell.length_lt) hdeeper hfails hempty hnext rfl
        refine fun h ↦ hover (h.mono ?_)
        rw [List.length_append]
        exact Nat.le_add_left _ _
    · have hsame := hsubshell.of_within hinner
      rcases h.head with rfl | ⟨second, hsecond, hwalks⟩ | ⟨others, hother, hwalks⟩
      · obtain ⟨later, hahead, -⟩ := hlone.ahead
        cases hahead.symm.trans hsame.ahead
      · obtain rfl := hsecond.unique hsame.goes
        obtain ⟨deeper, hdeeper, hfails, hempty⟩ := hsame.fails
        have hover := ih _ (hlength ▸ hsame.length_lt) hdeeper hfails hempty hwalks rfl
        exact absurd (.inr ⟨hlone, by simp [hstack]⟩) hover
      · obtain rfl := hsame.parts_eq hother
        exact ih _ (hlength ▸ hsame.length_lt) hwalks hlone hstack
          (by simpa [Place.within, Place.pass] using hnext) rfl

/-- What fails as arithmetic is not taken for it by a walk that is over. -/
theorem not_isSettled_of_isSubshell {parts : Template} {next : Place}
    (hsubshell : first.IsSubshell parts) (hgoes : Goes first next) (h : Walks next last) :
    ¬last.IsSettled := by
  obtain rfl := hgoes.unique hsubshell.goes
  obtain ⟨lone, hwalks, hlone, hstack⟩ := hsubshell.fails
  exact fun hsettled ↦ hwalks.not_isOver hlone hstack h (.inl hsettled)

/-- Walks from one place that are over have come to the same place. -/
theorem unique (h : Walks first last) (hother : Walks first other) (hlast : last.IsSettled)
    (hend : other.IsSettled) : last = other := by
  induction hlength : first.ahead.length using Nat.strongRecOn generalizing first with
  | ind length ih =>
    rcases h.head with rfl | ⟨next, hgoes, hwalks⟩ | ⟨parts, hsubshell, hwalks⟩
    · exact (hother.eq_of_isSettled hlast).symm
    · rcases hother.head with rfl | ⟨second, hsecond, hrest⟩ | ⟨others, hleaves, -⟩
      · exact h.eq_of_isSettled hend
      · obtain rfl := hgoes.unique hsecond
        exact ih _ (hlength ▸ hgoes.length_lt) hwalks hrest rfl
      · exact absurd hlast (not_isSettled_of_isSubshell hleaves hgoes hwalks)
    · rcases hother.head with rfl | ⟨second, hsecond, hrest⟩ | ⟨others, hleaves, hrest⟩
      · exact h.eq_of_isSettled hend
      · exact absurd hend (not_isSettled_of_isSubshell hsubshell hsecond hrest)
      · obtain rfl := hsubshell.parts_eq hleaves
        exact ih _ (hlength ▸ hsubshell.length_lt) hwalks hrest rfl

end Walks

/-- A line becomes one text at most. -/
theorem Survives.unique {parts : Template} {text other : List Char} (h : Survives parts text)
    (hother : Survives parts other) : text = other := by
  obtain ⟨place, hwalks, hsettled, rfl⟩ := h
  obtain ⟨last, hlast, hend, rfl⟩ := hother
  rw [hwalks.unique hlast hsettled hend]

end CommandLine.Macro.Unix
