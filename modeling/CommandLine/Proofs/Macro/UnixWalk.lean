import CommandLine.Macro.Unix
import CommandLine.Proofs.Macro.Template
import CommandLine.Proofs.Macro.UnixTokens

/-!
What a line with macros for a POSIX shell is to become, told by a walk over its template. The walk
knows no positions and no lengths, and never looks at the text that is written so far. It takes the
line token by token as the shell does, writes a value in place of each macro, and leaves every
character of the line as it is, with two exceptions: the marks of a backquoted command become `$( `
and `)`, and of the backslashes in it those go that the backquotes call for, each of them once.
Which these are depends on whether a double quotation is in force where the command begins.

At `$((` there are two ways to go on. One of them is arithmetic; the walk takes the other exactly
where the arithmetic, walked by itself, comes upon a parenthesis that closes nothing.
-/

set_option autoImplicit false

namespace CommandLine.Macro.Unix

/-- Backquotes call for a backslash in front of the character. -/
def IsEscapable (quoted : Bool) (c : Char) : Prop :=
  c = '$' ∨ c = '`' ∨ c = '\\' ∨ quoted = true ∧ c = '"'

/-- What becomes of a template behind the opening mark of a backquoted command. -/
inductive Unquoted (quoted : Bool) : Template → Template → Prop
  /-- What follows the command stays as it is. -/
  | closed (parts : Template) : Unquoted quoted (.literal '`' :: parts) (.literal ')' :: parts)
  | unescaped {c : Char} {parts later : Template} (hc : IsEscapable quoted c)
    (h : Unquoted quoted parts later) :
    Unquoted quoted (.literal '\\' :: .literal c :: parts) (.literal c :: later)
  | backslash {parts later : Template}
    (hparts : ∀ c others, parts = .literal c :: others → ¬IsEscapable quoted c)
    (h : Unquoted quoted parts later) :
    Unquoted quoted (.literal '\\' :: parts) (.literal '\\' :: later)
  | literal {c : Char} {parts later : Template} (hbackquote : c ≠ '`') (hbackslash : c ≠ '\\')
    (h : Unquoted quoted parts later) : Unquoted quoted (.literal c :: parts) (.literal c :: later)
  | hole {written value : List Char} {parts later : Template} (h : Unquoted quoted parts later) :
    Unquoted quoted (.hole written value :: parts) (.hole written value :: later)

/-- A place on the walk: what is written, what is open, from the inside out, and what is ahead. -/
structure Place where
  written : List Fragment
  context : Context
  stack : List Context
  ahead : Template

namespace Place

/-- The beginning of a line. -/
def start (parts : Template) : Place := ⟨[], .basic, [], parts⟩

/-- The walk is over: the line is at its end, or nothing but its characters is ahead and no
arithmetic is open that might still turn out to be none. -/
def IsSettled (place : Place) : Prop :=
  place.ahead = [] ∨
    place.ahead.values = [] ∧ ∀ context ∈ place.context :: place.stack,
      context.construct ≠ .arithmetic

/-- The text of a line that was walked so far. -/
def text (place : Place) : List Char := place.written.flatMap Fragment.text ++ place.ahead.written

/-- The place behind some characters. -/
def pass (place : Place) (token : List Char) (context : Context) (stack : List Context)
    (ahead : Template) : Place :=
  ⟨place.written ++ token.map .literal, context, stack, ahead⟩

/-- The place as it is within more that was written and more that is open. -/
def within (front : List Fragment) (below : List Context) (place : Place) : Place :=
  { place with written := front ++ place.written, stack := place.stack ++ below }

end Place

/-- A walk goes on: to a place behind a macro, behind a token, or into a backquoted command. -/
inductive Goes (place : Place) : Place → Prop
  | value {written value : List Char} {parts : Template}
    (hahead : place.ahead = .hole written value :: parts) :
    Goes place
      { place with
        written := place.written ++ [.inserted (.inContext place.context) value], ahead := parts }
  | token {token : List Char} {turn : Turn} {context : Context} {stack : List Context}
    {parts : Template} (hunsettled : ¬place.IsSettled)
    (hahead : place.ahead = token.map .literal ++ parts)
    (htoken : Token place.context token parts.written turn)
    (hturn : turn.apply place.context place.stack = some (context, stack)) :
    Goes place (place.pass token context stack parts)
  | command {parts later : Template} (hunsettled : ¬place.IsSettled)
    (hcontext : place.context.construct ≠ .singleQuote)
    (hahead : place.ahead = .literal '`' :: parts)
    (hlater : Unquoted place.context.quoted parts later) :
    Goes place (place.pass ['$', '(', ' '] .substitution (place.context :: place.stack) later)

/-- The walk from one place to another. -/
inductive Walks : Place → Place → Prop
  | refl (place : Place) : Walks place place
  | step {first place next : Place} (h : Walks first place) (hgoes : Goes place next) :
    Walks first next
  | subshell {first place : Place} {inside : List Fragment} {parts later : Template}
    (h : Walks first place) (hunsettled : ¬place.IsSettled)
    (hcontext : place.context.construct ≠ .singleQuote)
    (hahead : place.ahead = ['$', '(', '('].map .literal ++ parts)
    (hinside : Walks ⟨[], place.context.enter .arithmetic, [], parts⟩
      ⟨inside, place.context.enter .arithmetic, [], .literal ')' :: later⟩)
    (hlone : later.written.head? ≠ some ')') :
    Walks first
      (place.pass ['$', '(', '('] .subshell (.substitution :: place.context :: place.stack) parts)

/-- A text is what a line becomes when its macros are put in. -/
def Survives (parts : Template) (text : List Char) : Prop :=
  ∃ place, Walks (.start parts) place ∧ place.IsSettled ∧ text = place.text

namespace Walks

variable {first second third place : Place}

theorem trans (h : Walks first second) (hsecond : Walks second third) : Walks first third := by
  induction hsecond with
  | refl => exact h
  | step _ hgoes ih => exact .step (ih h) hgoes
  | subshell _ hunsettled hcontext hahead hinside hlone ih _ =>
    exact .subshell (ih h) hunsettled hcontext hahead hinside hlone

end Walks

theorem Turn.apply_append {turn : Turn} {context next : Context} {stack around : List Context}
    (h : turn.apply context stack = some (next, around)) (below : List Context) :
    turn.apply context (stack ++ below) = some (next, around ++ below) := by
  cases turn with
  | stays | opens =>
    cases h
    rfl
  | closes =>
    cases stack with
    | nil => cases h
    | cons outer stack =>
      cases h
      rfl

theorem Place.IsSettled.of_within {place : Place} {front : List Fragment} {below : List Context}
    (h : (place.within front below).IsSettled) : place.IsSettled := by
  refine h.imp_right fun ⟨hvalues, hstack⟩ ↦ ⟨hvalues, fun context hcontext ↦ hstack context ?_⟩
  exact List.mem_append_left below hcontext

theorem Goes.within {place next : Place} (h : Goes place next) (front : List Fragment)
    (below : List Context) : Goes (place.within front below) (next.within front below) := by
  cases h with
  | value hahead =>
    have hstep : Goes (place.within front below) _ := .value hahead
    simpa [Place.within] using hstep
  | token hunsettled hahead htoken hturn =>
    have hstep : Goes (place.within front below) _ :=
      .token (fun hsettled ↦ hunsettled hsettled.of_within) hahead htoken
        (Turn.apply_append hturn below)
    simpa [Place.within, Place.pass] using hstep
  | command hunsettled hcontext hahead hlater =>
    have hstep : Goes (place.within front below) _ :=
      .command (fun hsettled ↦ hunsettled hsettled.of_within) hcontext hahead hlater
    simpa [Place.within, Place.pass] using hstep

/-- A walk by itself is a walk within more that is written and open. -/
theorem Walks.within {first place : Place} (h : Walks first place) (front : List Fragment)
    (below : List Context) : Walks (first.within front below) (place.within front below) := by
  induction h with
  | refl => exact .refl _
  | step _ hgoes ih => exact .step ih (hgoes.within front below)
  | subshell _ hunsettled hcontext hahead hinside hlone ih _ =>
    have hstep := Walks.subshell ih (fun hsettled ↦ hunsettled hsettled.of_within) hcontext hahead
      hinside hlone
    simpa [Place.within, Place.pass] using hstep

/-! ### What is not lost -/

/-- A character that is neither the mark of a backquoted command nor an escape. -/
def isKept (c : Char) : Bool := c != '`' && c != '\\'

theorem Unquoted.sublist {quoted : Bool} {parts later : Template}
    (h : Unquoted quoted parts later) :
    (parts.literals.filter isKept).Sublist (later.literals.filter isKept) := by
  have hcons (c : Char) {first second : List Char}
      (h : (first.filter isKept).Sublist (second.filter isKept)) :
      ((c :: first).filter isKept).Sublist ((c :: second).filter isKept) := by
    rw [List.filter_cons, List.filter_cons]
    split
    · exact h.cons_cons c
    · exact h
  induction h with
  | closed parts => exact List.sublist_cons_self ..
  | @unescaped c parts later hc h ih => exact hcons c ih
  | backslash hparts h ih => exact ih
  | @literal c parts later hbackquote hbackslash h ih => exact hcons c ih
  | hole h ih => exact ih

/-- What is written so far, and what is ahead of the characters that are kept. -/
def Place.kept (place : Place) : List Char :=
  place.written.flatMap Fragment.text ++ place.ahead.literals.filter isKept

theorem literals_append (token : List Char) (parts : Template) :
    Template.literals (token.map .literal ++ parts) = token ++ parts.literals := by
  induction token with
  | nil => rfl
  | cons c rest ih => exact congrArg (c :: ·) ih

theorem flatMap_text_literal (token : List Char) :
    (token.map Fragment.literal).flatMap Fragment.text = token := by
  rw [List.flatMap_map]
  exact List.flatMap_singleton' token

/-- Characters that are passed are kept. -/
theorem Place.sublist_pass {place : Place} {token : List Char} {parts : Template}
    (hahead : place.ahead = token.map .literal ++ parts) (context : Context)
    (stack : List Context) :
    place.kept.Sublist (place.pass token context stack parts).kept := by
  rw [kept, kept, pass, hahead, literals_append, List.filter_append, List.flatMap_append,
    flatMap_text_literal, List.append_assoc]
  exact (List.Sublist.refl _).append ((List.filter_sublist).append (.refl _))

theorem Goes.sublist {place next : Place} (h : Goes place next) : place.kept.Sublist next.kept := by
  cases h with
  | value hahead =>
    rw [Place.kept, Place.kept, hahead, List.flatMap_append, List.append_assoc]
    exact (List.Sublist.refl _).append (List.sublist_append_right _ _)
  | token _ hahead _ _ => exact Place.sublist_pass hahead _ _
  | command _ _ hahead hlater =>
    rw [Place.kept, Place.kept, Place.pass, hahead, List.flatMap_append, List.append_assoc]
    exact (List.Sublist.refl _).append (hlater.sublist.trans (List.sublist_append_right _ _))

/-- No character is lost on a walk, and none comes out of its place. -/
theorem Walks.sublist {first place : Place} (h : Walks first place) :
    first.kept.Sublist place.kept := by
  induction h with
  | refl => exact .refl _
  | step _ hgoes ih => exact ih.trans hgoes.sublist
  | subshell _ _ _ hahead _ _ ih _ => exact ih.trans (Place.sublist_pass hahead _ _)

theorem literals_sublist_written (parts : Template) : parts.literals.Sublist parts.written := by
  induction parts with
  | nil => exact .slnil
  | cons part rest ih =>
    cases part with
    | literal c => exact ih.cons_cons c
    | hole written value => exact ih.trans (List.sublist_append_right _ _)

/-- The characters of a line survive in their order. -/
theorem Survives.sublist {parts : Template} {text : List Char} (h : Survives parts text) :
    (parts.literals.filter isKept).Sublist text := by
  obtain ⟨place, hwalks, -, rfl⟩ := h
  refine hwalks.sublist.trans ((List.Sublist.refl _).append ?_)
  exact List.filter_sublist.trans (literals_sublist_written place.ahead)

end CommandLine.Macro.Unix
