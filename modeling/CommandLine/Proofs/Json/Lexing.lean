import CommandLine.Json.Text
import CommandLine.Proofs.Decimal.Text
import CommandLine.Proofs.Json.Faithful

/-!
The tokens of a written value. A text in front of any other has its own tokens if it ends by itself,
as brackets and strings do; a number or a word ends where a character follows that could not go on
with it. Written values are such texts in every style, since what follows an item is a comma, a
blank or a bracket.
-/

set_option autoImplicit false

namespace CommandLine.Text

/-! ### Hexadecimal digits -/

theorem hexValue?_hexDigit (n : Nat) : hexValue? (hexDigit n) = some (n % 16) := by
  have hall : ∀ d < 16, hexValue? (hexDigit d) = some d := by decide
  rw [← hexDigit_mod, hall _ (Nat.mod_lt _ (by decide))]

theorem ofHex?_concat (digits : List Char) (c : Char) : ofHex? (digits ++ [c]) =
    (ofHex? digits).bind fun value ↦ (hexValue? c).map (value * 16 + ·) := by
  simp only [ofHex?, List.foldl_append, List.foldl_cons, List.foldl_nil]
  cases digits.foldl (fun value c ↦ do return (← value) * 16 + (← hexValue? c)) (some 0) <;>
    cases hexValue? c <;> rfl

theorem ofHex?_hex (width n : Nat) : ofHex? (hex width n) = some (n % 16 ^ width) := by
  induction width generalizing n with
  | zero => simp [hex, ofHex?, Nat.mod_one]
  | succ width ih =>
    rw [hex, ofHex?_concat, ih, hexValue?_hexDigit, Option.bind_some, Option.map_some,
      Nat.pow_succ', Nat.mod_mul, Nat.mul_comm, Nat.add_comm]

end CommandLine.Text

namespace CommandLine.Json

/-! ### Tokens of values -/

mutual

/-- The tokens of a value. -/
def tokens : Json → List Token
  | null => [.scalar .null]
  | bool value => [.scalar (.bool value)]
  | int value => [.scalar (.int value)]
  | float value => [.scalar (.float value)]
  | string text => [.string text]
  | array .nil => [.openArray, .closeArray]
  | array (.cons head tail) =>
    .openArray :: (head.tokens ++ (tail.tokensRest ++ [.closeArray]))
  | object .nil => [.openObject, .closeObject]
  | object (.cons key value rest) =>
    .openObject :: .string key :: .colon :: (value.tokens ++ (rest.tokensRest ++ [.closeObject]))

/-- The tokens of items behind others. -/
def Items.tokensRest : Items → List Token
  | .nil => []
  | .cons head tail => .comma :: (head.tokens ++ tail.tokensRest)

/-- The tokens of members behind others. -/
def Members.tokensRest : Members → List Token
  | .nil => []
  | .cons key value rest => .comma :: .string key :: .colon :: (value.tokens ++ rest.tokensRest)

end

namespace Token

/-! ### Texts that end by themselves, and texts that go on -/

/-- A text that does not go on with a run. -/
def EndsRun (rest : List Char) : Prop := ∀ c ∈ rest.head?, isRunChar c = false

/-- A text has tokens of its own in front of any other. -/
def Closed (text : List Char) (own : List Token) : Prop :=
  ∀ rest, lexFrom .between (text ++ rest) = own ++ lexFrom .between rest

/-- A text has tokens of its own in front of one that does not go on with a run. -/
def Bounded (text : List Char) (own : List Token) : Prop :=
  ∀ rest, EndsRun rest → lexFrom .between (text ++ rest) = own ++ lexFrom .between rest

variable {first second : List Char} {own others : List Token}

theorem Closed.bounded (h : Closed first own) : Bounded first own := fun rest _ ↦ h rest

theorem closed_nil : Closed [] [] := fun _ ↦ rfl

theorem Closed.append (hfirst : Closed first own) (hsecond : Closed second others) :
    Closed (first ++ second) (own ++ others) := by
  intro rest
  rw [List.append_assoc, hfirst, hsecond, List.append_assoc]

theorem Bounded.append_closed (hfirst : Bounded first own) (hsecond : Closed second others)
    (hends : EndsRun second) (hne : second ≠ []) : Closed (first ++ second) (own ++ others) := by
  intro rest
  have hnext : EndsRun (second ++ rest) := by
    rwa [EndsRun, List.head?_append_of_ne_nil _ hne]
  rw [List.append_assoc, hfirst _ hnext, hsecond, List.append_assoc]

theorem lexFrom_cons {mode next : Mode} {c : Char} {made : List Token}
    (hstep : step mode c = (made, next)) (rest : List Char) :
    lexFrom mode (c :: rest) = made ++ lexFrom next rest := by
  rw [lexFrom, hstep]

/-- A character that completes no token only changes the mode. -/
theorem lexFrom_skip {mode next : Mode} {c : Char} (hstep : step mode c = ([], next))
    (rest : List Char) : lexFrom mode (c :: rest) = lexFrom next rest := lexFrom_cons hstep rest

/-- A bracket, a colon or a comma. -/
theorem closed_punctuation {c : Char} {token : Token} (h : punctuation? c = some token) :
    Closed [c] [token] := by
  have hcases : c = '[' ∨ c = ']' ∨ c = '{' ∨ c = '}' ∨ c = ':' ∨ c = ',' := by
    unfold punctuation? at h
    split at h <;> simp_all
  intro rest
  refine lexFrom_cons ?_ rest
  rw [step, startStep, h]
  rcases hcases with rfl | rfl | rfl | rfl | rfl | rfl <;> rfl

theorem closed_space {c : Char} (h : isSpace c = true) : Closed [c] [] := by
  intro rest
  refine lexFrom_cons ?_ rest
  rw [step, startStep, if_pos h]

theorem closed_spaces {text : List Char} (h : ∀ c ∈ text, isSpace c = true) : Closed text [] := by
  induction text with
  | nil => exact closed_nil
  | cons c rest ih =>
    exact (closed_space (h c List.mem_cons_self)).append
      (ih fun c hc ↦ h c (List.mem_cons_of_mem _ hc))

/-! ### Runs -/

theorem lexFrom_run (reversed : List Char) {run rest : List Char}
    (hrun : ∀ c ∈ run, isRunChar c = true) (hrest : EndsRun rest) {value : Json}
    (hvalue : scalar? (reversed.reverse ++ run) = some value) :
    lexFrom (.run reversed) (run ++ rest) = [.scalar value] ++ lexFrom .between rest := by
  induction run generalizing reversed with
  | nil =>
    rw [List.append_nil] at hvalue
    have hown : runTokens reversed.reverse = [.scalar value] := by rw [runTokens, hvalue]
    cases rest with
    | nil => simp [lexFrom, hown]
    | cons c others =>
      have hc : isRunChar c = false := hrest c rfl
      rw [List.nil_append, lexFrom, lexFrom, step, step, hc, hown]
      simp
  | cons c run ih =>
    have hc : isRunChar c = true := hrun c List.mem_cons_self
    have hstep : step (.run reversed) c = ([], .run (c :: reversed)) := by
      rw [step, if_pos hc]
    rw [List.cons_append, lexFrom_skip hstep, ih (c :: reversed)
      (fun c hmem ↦ hrun c (List.mem_cons_of_mem _ hmem)) (by simpa using hvalue)]

/-- A text of letters, digits and signs that writes a value. -/
structure Run (text : List Char) (value : Json) : Prop where
  nonempty : text ≠ []
  chars : ∀ c ∈ text, isRunChar c = true
  read : scalar? text = some value

theorem Run.bounded {text : List Char} {value : Json} (h : Run text value) :
    Bounded text [.scalar value] := by
  intro rest hrest
  obtain ⟨c, run, rfl⟩ := List.exists_cons_of_ne_nil h.nonempty
  have hc : isRunChar c = true := h.chars c List.mem_cons_self
  have hnot : isSpace c = false ∧ c ≠ '"' := by
    constructor
    · by_contra hspace
      rw [Bool.not_eq_false] at hspace
      simp only [isSpace, Bool.or_eq_true, beq_iff_eq] at hspace
      rcases hspace with ((rfl | rfl) | rfl) | rfl <;> exact absurd hc (by decide)
    · rintro rfl
      exact absurd hc (by decide)
  have hstep : step .between c = ([], .run [c]) := by
    rw [step, startStep, hnot.1, if_neg Bool.false_ne_true, if_neg hnot.2, if_pos hc]
  rw [List.cons_append, lexFrom_skip hstep, lexFrom_run [c]
    (fun c hmem ↦ h.chars c (List.mem_cons_of_mem _ hmem)) hrest h.read]

theorem run_of_numeral {numeral : Numeral} (h : numeral.Proper) {value : Json}
    (hvalue : numeral.value? = some value) : Run numeral.text value := by
  refine ⟨?_, h.isRunChar_text, by rw [Numeral.scalar?_text h, hvalue]⟩
  obtain ⟨digit, rest, -, htext⟩ := h.text_eq_cons
  simp [htext]

theorem run_null : Run "null".toList null :=
  ⟨by decide, List.all_eq_true.mp (by decide), by decide⟩

theorem run_bool (value : Bool) : Run (if value then "true" else "false").toList (bool value) := by
  cases value <;> exact ⟨by decide, List.all_eq_true.mp (by decide), by decide⟩

theorem run_int (value : Int) : Run (toString value).toList (.int value) := by
  let numeral : Numeral := ⟨value < 0, Nat.toDigits 10 value.natAbs, none, none⟩
  have hproper : numeral.Proper := ⟨isWhole_toDigits _, by rintro _ ⟨⟩, by rintro _ ⟨⟩⟩
  have htext : (toString value).toList = numeral.text := by
    cases value with
    | ofNat n => simp [numeral, Numeral.text, Numeral.base, Numeral.power, toString, Int.repr]
    | negSucc n => simp [numeral, Numeral.text, Numeral.base, Numeral.power, toString, Int.repr]
  have hvalue : numeral.value? = some (.int value) := by
    rw [Numeral.value?_int]
    simp only [decide_eq_true_eq, Option.some.injEq, int.injEq]
    split <;> omega
  rw [htext]
  exact run_of_numeral hproper hvalue

theorem run_float {value : Decimal.Binary64} (h : (float value).Canonical) :
    Run (Decimal.text numberLayout value).toList (.float value) := by
  cases hnan : value.isNaN with
  | true =>
    obtain rfl : value = .nan := h hnan
    exact ⟨by decide, List.all_eq_true.mp (by decide), by decide⟩
  | false =>
    cases hinfinite : value.isInfinite with
    | true =>
      rw [Decimal.Binary64.eq_infinity hinfinite]
      cases value.isNegative <;> exact ⟨by decide, List.all_eq_true.mp (by decide), by decide⟩
    | false =>
      obtain ⟨numeral, hproper, htext, hvalue⟩ := Decimal.exists_text numberLayout hnan hinfinite
      rw [htext]
      exact run_of_numeral hproper hvalue

/-! ### Strings -/

/-- A digit of a numeric escape, and the code behind the fourth. -/
theorem step_unicode (reversed : Option (List Char)) (high : Option Nat) (width n : Nat) :
    step (.unicode reversed high (Text.hex width (n / 16))) (Text.hexDigit n) =
      ([], if width < 3 then .unicode reversed high (Text.hex (width + 1) n)
        else takeCode reversed high (n % 16 ^ (width + 1))) := by
  have hcode : Text.ofHex? (Text.hex width (n / 16) ++ [Text.hexDigit n]) =
      some (n % 16 ^ (width + 1)) := Text.ofHex?_hex (width + 1) n
  simp only [step, hcode, Text.length_hex]
  rfl

theorem lexFrom_hex (reversed : Option (List Char)) (high : Option Nat) {n : Nat} (hn : n < 0x10000)
    (rest : List Char) : lexFrom (.unicode reversed high []) (Text.hex 4 n ++ rest) =
      lexFrom (takeCode reversed high n) rest := by
  have hcode : n % 16 ^ (3 + 1) = n := Nat.mod_eq_of_lt hn
  change lexFrom (.unicode reversed high (Text.hex 0 (n / 16 / 16 / 16 / 16)))
    (Text.hexDigit (n / 16 / 16 / 16) :: Text.hexDigit (n / 16 / 16) :: Text.hexDigit (n / 16) ::
      Text.hexDigit n :: rest) = _
  rw [lexFrom_skip (step_unicode reversed high 0 _), if_pos (by decide),
    lexFrom_skip (step_unicode reversed high 1 _), if_pos (by decide),
    lexFrom_skip (step_unicode reversed high 2 _), if_pos (by decide),
    lexFrom_skip (step_unicode reversed high 3 _), if_neg (by decide), hcode]

/-- The escape of a code unit. -/
theorem lexFrom_unitEscape (reversed : Option (List Char)) {unit : Nat} (h : unit < 0x10000)
    (rest : List Char) : lexFrom (.string reversed) (unitEscape unit ++ rest) =
      lexFrom (takeCode reversed none unit) rest := by
  have hsplit : unitEscape unit ++ rest = '\\' :: 'u' :: (Text.hex 4 unit ++ rest) := rfl
  rw [hsplit, lexFrom_skip (by rfl : step (.string reversed) '\\' = ([], .escape reversed)),
    lexFrom_skip (by rfl : step (.escape reversed) 'u' = ([], .unicode reversed none [])),
    lexFrom_hex reversed none h]

/-- The escape of the second of a pair of code units. -/
theorem lexFrom_secondEscape (reversed : Option (List Char)) (first : Nat) {unit : Nat}
    (h : unit < 0x10000) (rest : List Char) :
    lexFrom (.surrogate reversed first false) (unitEscape unit ++ rest) =
      lexFrom (takeCode reversed (some first) unit) rest := by
  have hsplit : unitEscape unit ++ rest = '\\' :: 'u' :: (Text.hex 4 unit ++ rest) := rfl
  have hbackslash : step (.surrogate reversed first false) '\\' =
      ([], .surrogate reversed first true) := rfl
  have hletter : step (.surrogate reversed first true) 'u' =
      ([], .unicode reversed (some first) []) := rfl
  rw [hsplit, lexFrom_skip hbackslash, lexFrom_skip hletter, lexFrom_hex reversed _ h]

theorem not_surrogate (c : Char) : isHigh c.toNat = false ∧ isLow c.toNat = false := by
  have hvalid : c.toNat < 0xD800 ∨ 0xDFFF < c.toNat ∧ c.toNat < 0x110000 := c.valid
  simp only [isHigh, isLow, Bool.and_eq_false_iff, decide_eq_false_iff_not]
  omega

/-- The escape of a character is read as the character. -/
theorem lexFrom_codeEscape (reversed : List Char) (c : Char) (rest : List Char) :
    lexFrom (.string (some reversed)) (codeEscape c ++ rest) =
      lexFrom (.string (some (c :: reversed))) rest := by
  obtain ⟨hhigh, hlow⟩ := not_surrogate c
  unfold codeEscape
  split
  · rename_i hplane
    rw [lexFrom_unitEscape _ hplane, takeCode, hhigh, if_neg Bool.false_ne_true, hlow,
      if_neg Bool.false_ne_true, Char.ofNat_toNat, Option.map_some]
  · rename_i hplane
    have hvalid : c.toNat < 0xD800 ∨ 0xDFFF < c.toNat ∧ c.toNat < 0x110000 := c.valid
    dsimp only
    generalize hoffset : c.toNat - 0x10000 = offset
    have hfirst : isHigh (0xD800 + offset / 0x400) = true := by simp [isHigh]; omega
    have hsecond : isLow (0xDC00 + offset % 0x400) = true := by simp [isLow]; omega
    have hcode : 0x10000 + (0xD800 + offset / 0x400 - 0xD800) * 0x400 +
        (0xDC00 + offset % 0x400 - 0xDC00) = c.toNat := by omega
    rw [List.append_assoc, lexFrom_unitEscape _ (by omega), takeCode, hfirst, if_pos rfl,
      lexFrom_secondEscape _ _ (by omega), takeCode, hsecond, if_pos rfl, hcode,
      Char.ofNat_toNat, Option.map_some]

/-- A written character is read as the character. -/
theorem lexFrom_stringChar (ascii : Bool) (reversed : List Char) (c : Char) (rest : List Char) :
    lexFrom (.string (some reversed)) (stringChar ascii c ++ rest) =
      lexFrom (.string (some (c :: reversed))) rest := by
  have hescape : ∀ {letter : Char}, letter ≠ 'u' → escaped? letter = some c →
      lexFrom (.string (some reversed)) (['\\', letter] ++ rest) =
        lexFrom (.string (some (c :: reversed))) rest := by
    intro letter hletter hc
    have hstep : step (.escape (some reversed)) letter = ([], .string (some (c :: reversed))) := by
      rw [step, escapeStep, if_neg hletter, hc]
      rfl
    have hescape : step (.string (some reversed)) '\\' = ([], .escape (some reversed)) := rfl
    rw [List.cons_append, lexFrom_skip hescape, List.cons_append, lexFrom_skip hstep,
      List.nil_append]
  unfold stringChar
  split
  · exact hescape (by decide) rfl
  · exact hescape (by decide) rfl
  · exact hescape (by decide) rfl
  · exact hescape (by decide) rfl
  · exact hescape (by decide) rfl
  · exact hescape (by decide) rfl
  · exact hescape (by decide) rfl
  · rename_i hquote hbackslash _ _ _ _ _
    split
    · exact lexFrom_codeEscape reversed c rest
    · rename_i hplain
      have hprinted : ¬c.toNat < 0x20 := fun hlt ↦ hplain (.inl hlt)
      have hstep : step (.string (some reversed)) c = ([], .string (some (c :: reversed))) := by
        rw [step, stringStep, if_neg hquote, if_neg hbackslash, if_neg hprinted,
          Option.map_some]
      rw [List.cons_append, lexFrom_skip hstep, List.nil_append]

theorem lexFrom_stringChars (ascii : Bool) (reversed text rest : List Char) :
    lexFrom (.string (some reversed)) (text.flatMap (stringChar ascii) ++ rest) =
      lexFrom (.string (some (text.reverse ++ reversed))) rest := by
  induction text generalizing reversed with
  | nil => rfl
  | cons c text ih =>
    rw [List.flatMap_cons, List.append_assoc, lexFrom_stringChar, ih, List.reverse_cons,
      List.append_assoc, List.singleton_append]

/-- A written string is one token. -/
theorem closed_stringText (ascii : Bool) (text : String) :
    Closed (stringText ascii text) [.string text] := by
  intro rest
  have hclose : step (.string (some (text.toList.reverse ++ []))) '"' =
      ([.string text], .between) := by
    rw [step, stringStep, if_pos rfl, List.append_nil, List.reverse_reverse, String.ofList_toList]
  rw [stringText, List.cons_append, List.cons_append, lexFrom_skip
    (by rfl : step .between '"' = ([], .string (some []))), List.append_assoc, lexFrom_stringChars,
    List.singleton_append, lexFrom_cons hclose]

end Token

/-! ### Written values -/

open Token

namespace Style

theorem closed_lineBreak (style : Style) : Closed style.lineBreak [] := by
  refine closed_spaces fun c hc ↦ ?_
  cases style with
  | compact => simp [lineBreak] at hc
  | indented depth =>
    rcases List.mem_cons.mp hc with rfl | hblank
    · rfl
    · rw [List.eq_of_mem_replicate hblank]
      rfl

theorem closed_colon (style : Style) : Closed style.colon [.colon] := by
  have hcolon : Closed [':'] [Token.colon] := closed_punctuation rfl
  cases style with
  | compact => exact hcolon
  | indented depth => exact hcolon.append (closed_space rfl)

/-- A bracket on a line of its own closes what is open. -/
theorem closed_closing (style : Style) {bracket : Char} {token : Token}
    (h : punctuation? bracket = some token) : Closed (style.lineBreak ++ [bracket]) [token] :=
  style.closed_lineBreak.append (closed_punctuation h)

theorem endsRun_closing (style : Style) {bracket : Char} (h : isRunChar bracket = false) :
    EndsRun (style.lineBreak ++ [bracket]) := by
  cases style with
  | compact =>
    rintro _ ⟨⟩
    exact h
  | indented depth =>
    rintro _ ⟨⟩
    rfl

end Style

theorem Items.endsRun_writeRest (style : Style) (items : Items) {closing : List Char}
    (h : EndsRun closing) : EndsRun (items.writeRest style ++ closing) := by
  cases items with
  | nil => exact h
  | cons head tail =>
    rintro _ ⟨⟩
    rfl

theorem Members.endsRun_writeRest (style : Style) (members : Members) {closing : List Char}
    (h : EndsRun closing) : EndsRun (members.writeRest style ++ closing) := by
  cases members with
  | nil => exact h
  | cons key value rest =>
    rintro _ ⟨⟩
    rfl

/-- A key with the colon behind it. -/
theorem closed_key (style : Style) (key : String) :
    Closed (stringText style.ascii key ++ style.colon) [.string key, .colon] :=
  (closed_stringText style.ascii key).append style.closed_colon

mutual

/-- What is written of a value has the tokens of the value. -/
theorem bounded_write (style : Style) (value : Json) (h : value.Canonical) :
    Bounded (value.write style) value.tokens := by
  match value with
  | .null => simpa only [write, tokens] using run_null.bounded
  | .bool value => simpa only [write, tokens] using (run_bool value).bounded
  | .int value => simpa only [write, tokens] using (run_int value).bounded
  | .float value => simpa only [write, tokens] using (run_float h).bounded
  | .string text => simpa only [write, tokens] using (closed_stringText style.ascii text).bounded
  | .array .nil =>
    have hopen : Closed ['['] [.openArray] := closed_punctuation rfl
    have hclose : Closed [']'] [.closeArray] := closed_punctuation rfl
    simpa only [write, tokens, List.singleton_append] using (hopen.append hclose).bounded
  | .array (.cons head tail) =>
    have hopen : Closed ['['] [.openArray] := closed_punctuation rfl
    have hclose : Closed (style.lineBreak ++ [']']) [.closeArray] := style.closed_closing rfl
    have hends : EndsRun (style.lineBreak ++ [']']) := style.endsRun_closing rfl
    have htail := Items.closed_writeRest style.deeper tail h.2 hclose hends (by simp)
    have hitems := (bounded_write style.deeper head h.1).append_closed htail
      (tail.endsRun_writeRest style.deeper hends) (by simp)
    have hwhole := (hopen.append (style.deeper.closed_lineBreak.append hitems)).bounded
    simpa only [write, tokens, List.append_assoc, List.cons_append, List.nil_append] using hwhole
  | .object .nil =>
    have hopen : Closed ['\x7b'] [.openObject] := closed_punctuation rfl
    have hclose : Closed ['\x7d'] [.closeObject] := closed_punctuation rfl
    simpa only [write, tokens, List.singleton_append] using (hopen.append hclose).bounded
  | .object (.cons key value rest) =>
    have hopen : Closed ['\x7b'] [.openObject] := closed_punctuation rfl
    have hclose : Closed (style.lineBreak ++ ['\x7d']) [.closeObject] := style.closed_closing rfl
    have hends : EndsRun (style.lineBreak ++ ['\x7d']) := style.endsRun_closing rfl
    have hrest := Members.closed_writeRest style.deeper rest h.2 hclose hends (by simp)
    have hvalue := (bounded_write style.deeper value h.1).append_closed hrest
      (rest.endsRun_writeRest style.deeper hends) (by simp)
    have hmembers := (closed_key style.deeper key).append hvalue
    have hwhole := (hopen.append (style.deeper.closed_lineBreak.append hmembers)).bounded
    have hascii : style.deeper.ascii = style.ascii := by cases style <;> rfl
    have hcolon : style.deeper.colon = style.colon := by cases style <;> rfl
    rw [hascii, hcolon] at hwhole
    simpa only [write, tokens, List.append_assoc, List.cons_append, List.nil_append] using hwhole

theorem Items.closed_writeRest (style : Style) (items : Items) (h : items.Canonical)
    {closing : List Char} {own : List Token} (hclosing : Closed closing own)
    (hends : EndsRun closing) (hne : closing ≠ []) :
    Closed (items.writeRest style ++ closing) (items.tokensRest ++ own) := by
  match items with
  | .nil => simpa only [Items.writeRest, Items.tokensRest, List.nil_append] using hclosing
  | .cons head tail =>
    have hcomma : Closed [','] [.comma] := closed_punctuation rfl
    have htail := Items.closed_writeRest style tail h.2 hclosing hends hne
    have hitems := (bounded_write style head h.1).append_closed htail
      (tail.endsRun_writeRest style hends) (by simp [hne])
    have hwhole := hcomma.append (style.closed_lineBreak.append hitems)
    simpa only [Items.writeRest, Items.tokensRest, List.append_assoc, List.cons_append,
      List.nil_append] using hwhole

theorem Members.closed_writeRest (style : Style) (members : Members) (h : members.Canonical)
    {closing : List Char} {own : List Token} (hclosing : Closed closing own)
    (hends : EndsRun closing) (hne : closing ≠ []) :
    Closed (members.writeRest style ++ closing) (members.tokensRest ++ own) := by
  match members with
  | .nil => simpa only [Members.writeRest, Members.tokensRest, List.nil_append] using hclosing
  | .cons key value rest =>
    have hcomma : Closed [','] [.comma] := closed_punctuation rfl
    have hrest := Members.closed_writeRest style rest h.2 hclosing hends hne
    have hvalue := (bounded_write style value h.1).append_closed hrest
      (rest.endsRun_writeRest style hends) (by simp [hne])
    have hmembers := (closed_key style key).append hvalue
    have hwhole := hcomma.append (style.closed_lineBreak.append hmembers)
    simpa only [Members.writeRest, Members.tokensRest, List.append_assoc, List.cons_append,
      List.nil_append] using hwhole

end

end CommandLine.Json
