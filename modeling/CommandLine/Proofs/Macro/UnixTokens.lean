import CommandLine.Context

/-!
What a POSIX shell makes of the characters at a place of a line. A few of them belong together, and
they leave what is open as it is, open something further, or close the innermost construct. Where
a backquoted command begins and where a parenthesis closes nothing is left open here: the one is
rewritten before it is read, and the other says that `$((` was not what it seemed.
-/

set_option autoImplicit false

namespace CommandLine.Macro.Unix

/-- What some characters do to what is open. -/
inductive Turn
  | stays
  | opens (inner : Context)
  | closes
  deriving DecidableEq, Repr

/-- What is open afterwards, from the inside out. Something has to be open for it to be closed. -/
def Turn.apply : Turn → Context → List Context → Option (Context × List Context)
  | stays, context, stack => some (context, stack)
  | opens inner, context, stack => some (inner, context :: stack)
  | closes, _, outer :: around => some (outer, around)
  | closes, _, [] => none

/-- The one character that closes a construct. -/
def closing : Construct → Option Char
  | .basic | .arithmetic => none
  | .singleQuote => some '\''
  | .doubleQuote => some '"'
  | .parenthesis | .commandSubstitution => some ')'
  | .variableSubstitution | .brace => some '}'

theorem closing_ne {c : Char} (hsingle : c ≠ '\'') (hdouble : c ≠ '"') (hparenthesis : c ≠ ')')
    (hbrace : c ≠ '}') (construct : Construct) : closing construct ≠ some c := by
  cases construct <;>
    simp [closing, hsingle.symm, hdouble.symm, hparenthesis.symm, hbrace.symm]

/-- What a character opens by itself. Quotes mean nothing within a double quotation, and parentheses
and braces nothing within a variable substitution. -/
def opened (context : Context) (c : Char) : Option Context :=
  match context.construct with
  | .singleQuote | .doubleQuote => none
  | construct =>
    if c = '\'' then if context.quoted then none else some (context.enter .singleQuote)
    else if c = '"' then if context.quoted then none else some .doubleQuotation
    else if construct = .variableSubstitution then none
    else if c = '(' then some (context.enter .parenthesis)
    else if c = '{' then some (context.enter .brace)
    else none

/-- A character that begins something wherever it is not single-quoted. -/
def isSpecial (c : Char) : Bool := c == '\\' || c == '$' || c == '`'

/-- A character that stands for itself. What closes parentheses and braces does so only in quotes
and in variable substitutions. -/
def isLiteral (context : Context) (c : Char) : Bool :=
  match context.construct with
  | .singleQuote => true
  | .doubleQuote | .variableSubstitution => !isSpecial c
  | _ => !(isSpecial c || c == ')' || c == '}')

/-- What the shell makes of characters with others behind them. -/
inductive Token (context : Context) : List Char → List Char → Turn → Prop
  | closing {c : Char} {behind : List Char} (hc : closing context.construct = some c) :
    Token context [c] behind .closes
  | opening {c : Char} {behind : List Char} {inner : Context} (hc : opened context c = some inner) :
    Token context [c] behind (.opens inner)
  | literal {c : Char} {behind : List Char} (hclosing : Unix.closing context.construct ≠ some c)
    (hopened : opened context c = none) (hc : isLiteral context c = true) :
    Token context [c] behind .stays
  | escaped {c : Char} {behind : List Char} (h : context.construct ≠ .singleQuote) :
    Token context ['\\', c] behind .stays
  /-- Nothing is left to be escaped. -/
  | escape (h : context.construct ≠ .singleQuote) : Token context ['\\'] [] .stays
  | dollar {behind : List Char} (h : context.construct ≠ .singleQuote)
    (hparenthesis : behind.head? ≠ some '(') (hbrace : behind.head? ≠ some '{') :
    Token context ['$'] behind .stays
  | substitution {behind : List Char} (h : context.construct ≠ .singleQuote)
    (hparenthesis : behind.head? ≠ some '(') :
    Token context ['$', '('] behind (.opens .substitution)
  | variableSubstitution {behind : List Char} (h : context.construct ≠ .singleQuote) :
    Token context ['$', '{'] behind (.opens (context.enter .variableSubstitution))
  | arithmetic {behind : List Char} (h : context.construct ≠ .singleQuote) :
    Token context ['$', '(', '('] behind (.opens (context.enter .arithmetic))
  | arithmeticEnd {behind : List Char} (h : context.construct = .arithmetic) :
    Token context [')', ')'] behind .closes

/-! ### The token at the head of a text -/

/-- What closes a construct opens nothing in it. -/
theorem opened_of_closing {context : Context} {c : Char} (h : closing context.construct = some c) :
    opened context c = none := by
  obtain ⟨construct, quoted⟩ := context
  cases construct <;> cases h <;> rfl

/-- A special character closes nothing, opens nothing by itself and does not stand for itself. -/
theorem of_isSpecial {context : Context} {c : Char} (hc : isSpecial c = true)
    (h : context.construct ≠ .singleQuote) :
    closing context.construct ≠ some c ∧ opened context c = none ∧ isLiteral context c = false := by
  have hcases : c = '\\' ∨ c = '$' ∨ c = '`' := by simpa [isSpecial, or_assoc] using hc
  obtain ⟨construct, quoted⟩ := context
  rcases hcases with rfl | rfl | rfl <;> cases construct <;>
    first | exact absurd rfl h | decide +revert

/-- The token at the head of a text where its first character means something together with
others. -/
def jointTokenAt? (context : Context) : List Char → Option (List Char × Turn)
  | ['\\'] => some (['\\'], .stays)
  | '\\' :: c :: _ => some (['\\', c], .stays)
  | '$' :: '(' :: '(' :: _ => some (['$', '(', '('], .opens (context.enter .arithmetic))
  | '$' :: '(' :: _ => some (['$', '('], .opens .substitution)
  | '$' :: '{' :: _ => some (['$', '{'], .opens (context.enter .variableSubstitution))
  | '$' :: _ => some (['$'], .stays)
  | ')' :: ')' :: _ => some ([')', ')'], .closes)
  | _ => none

/-- The token at the head of a text, and what it does. -/
def tokenAt? (context : Context) : List Char → Option (List Char × Turn)
  | [] => none
  | c :: rest =>
    if closing context.construct = some c then some ([c], .closes)
    else if let some inner := opened context c then some ([c], .opens inner)
    else if isLiteral context c then some ([c], .stays)
    else jointTokenAt? context (c :: rest)

theorem tokenAt?_of_isSpecial {context : Context} {c : Char} (hc : isSpecial c = true)
    (h : context.construct ≠ .singleQuote) (rest : List Char) :
    tokenAt? context (c :: rest) = jointTokenAt? context (c :: rest) := by
  obtain ⟨hclosing, hopened, hliteral⟩ := of_isSpecial hc h
  simp [tokenAt?, hclosing, hopened, hliteral]

namespace Token

variable {context inner : Context} {token behind : List Char} {turn : Turn}

theorem ne_nil (h : Token context token behind turn) : token ≠ [] := by
  cases h <;> simp

/-- Something is open inside of what is opened. -/
theorem construct_ne_basic (h : Token context token behind (.opens inner)) :
    inner.construct ≠ .basic := by
  cases h with
  | opening hc =>
    unfold opened at hc
    repeat' split at hc
    all_goals cases hc
    all_goals simp [Context.enter, Context.doubleQuotation]
  | substitution => simp [Context.substitution]
  | variableSubstitution | arithmetic => simp [Context.enter]

theorem tokenAt?_append (h : Token context token behind turn) :
    tokenAt? context (token ++ behind) = some (token, turn) := by
  cases h with
  | closing hc => simp [tokenAt?, hc]
  | @opening c behind inner hc =>
    have hclosing : Unix.closing context.construct ≠ some c := by
      intro hclosing
      rw [opened_of_closing hclosing] at hc
      cases hc
    simp [tokenAt?, hc, hclosing]
  | literal hclosing hopened hc => simp [tokenAt?, hclosing, hopened, hc]
  | escaped h | escape h | variableSubstitution h | arithmetic h =>
    exact tokenAt?_of_isSpecial rfl h _
  | dollar h hparenthesis hbrace =>
    refine (tokenAt?_of_isSpecial rfl h _).trans ?_
    cases behind <;> simp_all [jointTokenAt?]
  | substitution h hparenthesis =>
    refine (tokenAt?_of_isSpecial rfl h _).trans ?_
    cases behind <;> simp_all [jointTokenAt?]
  | arithmeticEnd h => simp [tokenAt?, jointTokenAt?, h, Unix.closing, opened, isLiteral]

/-- A text begins with one token at most. -/
theorem unique {other beyond : List Char} {otherTurn : Turn}
    (h : Token context token behind turn) (hother : Token context other beyond otherTurn)
    (htext : token ++ behind = other ++ beyond) : token = other ∧ turn = otherTurn := by
  have hhead := h.tokenAt?_append
  rw [htext, hother.tokenAt?_append] at hhead
  cases hhead
  exact ⟨rfl, rfl⟩

end Token

end CommandLine.Macro.Unix
