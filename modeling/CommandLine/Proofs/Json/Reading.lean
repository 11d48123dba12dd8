import CommandLine.Json.Reader
import CommandLine.Proofs.Json.Faithful
import CommandLine.Proofs.Json.Lexing

/-!
Reading values. What a text is read as is faithful and fits the limits of the reader: each put keeps
the keys of an object distinct, the one word for what is no number has one meaning, and a reader
never is deeper inside than its limit. In turn the tokens of a value that fits are read as the
value, wherever in an array or object a value is waited for.
-/

set_option autoImplicit false

namespace CommandLine.Json

/-! ### What is read is faithful -/

namespace Token

/-- A token whose value, if it is one, is faithful and holds no other values. -/
def Sound (token : Token) : Prop :=
  ∀ value, token = .scalar value → value.Faithful ∧ value.kind ≠ .array ∧ value.kind ≠ .object

theorem sound_punctuation (c : Char) : ((punctuation? c).getD .junk).Sound := by
  unfold Sound punctuation?
  split <;> simp

theorem sound_float {value : Decimal.Binary64} (h : (float value).Faithful) :
    (Token.scalar (.float value)).Sound := by
  rintro _ ⟨⟩
  exact ⟨h, by simp [kind]⟩

theorem sound_int (value : Int) : (Token.scalar (.int value)).Sound := by
  rintro _ ⟨⟩
  exact ⟨faithful_int value, by simp [kind]⟩

theorem faithful_ofDecimal (negative : Bool) (mantissa : Nat) (exponent : Int) :
    (float (.ofDecimal negative mantissa exponent)).Faithful := by
  rw [faithful_float_iff, Decimal.Binary64.isNaN_ofDecimal]
  exact fun h ↦ absurd h Bool.false_ne_true

theorem Numeral.sound_value? {numeral : Numeral} {value : Json}
    (h : numeral.value? = some value) : (Token.scalar value).Sound := by
  unfold value? at h
  split at h
  · cases h
  split at h
  · obtain rfl := Option.some.inj h
    exact sound_int _
  · obtain rfl := Option.some.inj h
    exact sound_float (faithful_ofDecimal ..)

theorem sound_scalar? {run : List Char} {value : Json} (h : scalar? run = some value) :
    (Token.scalar value).Sound := by
  have hinfinity : ∀ negative, (float (.infinity negative)).Faithful := fun negative ↦ by
    rw [faithful_float_iff, Decimal.Binary64.isNaN_infinity]
    exact fun h ↦ absurd h Bool.false_ne_true
  unfold scalar? at h
  split at h
  · obtain rfl := Option.some.inj h
    simp [Sound, kind]
  · obtain rfl := Option.some.inj h
    simp [Sound, kind]
  · obtain rfl := Option.some.inj h
    simp [Sound, kind]
  · exact Option.some.inj h ▸ sound_float ((faithful_float_iff _).mpr fun _ ↦ rfl)
  · exact Option.some.inj h ▸ sound_float (hinfinity false)
  · exact Option.some.inj h ▸ sound_float (hinfinity true)
  · exact Numeral.sound_value? h

theorem sound_runTokens (run : List Char) : ∀ token ∈ runTokens run, token.Sound := by
  have hjunk : Token.junk.Sound := by simp [Sound]
  unfold runTokens
  split
  · rename_i value _ hvalue
    exact List.forall_mem_singleton.mpr (sound_scalar? hvalue)
  · rename_i value _ _
    exact List.forall_mem_cons.mpr ⟨sound_int value, List.forall_mem_singleton.mpr hjunk⟩
  · exact List.forall_mem_singleton.mpr hjunk

theorem sound_startStep (c : Char) : ∀ token ∈ (startStep c).1, token.Sound := by
  unfold startStep
  split
  · simp
  split
  · simp
  split
  · simp
  · exact List.forall_mem_singleton.mpr (sound_punctuation c)

theorem sound_stringStep (reversed : Option (List Char)) (c : Char) :
    ∀ token ∈ (stringStep reversed c).1, token.Sound := by
  unfold stringStep
  split
  · cases reversed <;> simp [Sound]
  split
  · simp
  split <;> simp [Sound]

theorem sound_escapeStep (reversed : Option (List Char)) (high : Option Nat) (c : Char) :
    ∀ token ∈ (escapeStep reversed high c).1, token.Sound := by
  unfold escapeStep
  split
  · simp
  · cases escaped? c <;> simp [Sound]

theorem sound_step (mode : Mode) (c : Char) : ∀ token ∈ (step mode c).1, token.Sound := by
  cases mode with
  | between => exact sound_startStep c
  | run reversed =>
    rw [step]
    split
    · simp
    · exact List.forall_mem_append.mpr ⟨sound_runTokens _, sound_startStep c⟩
  | string reversed => exact sound_stringStep reversed c
  | escape reversed => exact sound_escapeStep reversed none c
  | unicode reversed high digits =>
    rw [step]
    split <;> simp [Sound]
  | surrogate reversed high escaped =>
    cases escaped with
    | false =>
      rw [step]
      split
      · simp
      · exact sound_stringStep none c
    | true => exact sound_escapeStep reversed (some high) c

/-- Every value among the tokens of a text is sound. -/
theorem sound_lexFrom (mode : Mode) (text : List Char) :
    ∀ token ∈ lexFrom mode text, token.Sound := by
  induction text generalizing mode with
  | nil =>
    cases mode with
    | between => simp [lexFrom]
    | run reversed => exact sound_runTokens _
    | string | escape | unicode | surrogate => simp [lexFrom, Sound]
  | cons c rest ih => exact List.forall_mem_append.mpr ⟨sound_step mode c, ih _⟩

end Token

/-! ### What is read fits -/

variable {limits : Limits}

/-- A value that a reader with these limits takes inside so many arrays and objects. -/
def Taken (limits : Limits) (outer : Nat) (value : Json) : Prop :=
  value.Fits limits.digits (limits.readingDepth - outer)

theorem taken_of_scalar {value : Json} (h : (Token.scalar value).Sound)
    (hdigits : ∀ number, value = .int number → digitCount number ≤ limits.digits) (outer : Nat) :
    value.Taken limits outer := by
  obtain ⟨hfaithful, harray, hobject⟩ := h value rfl
  cases value with
  | array | object => simp [kind] at harray hobject
  | int number => exact (fits_int_iff number).mpr (hdigits number rfl)
  | null | bool | float | string => exact ⟨hfaithful, rfl⟩

theorem taken_array_iff (items : Items) (outer : Nat) : (array items).Taken limits outer ↔
    outer < limits.readingDepth ∧ ∀ value ∈ items.toList, value.Taken limits (outer + 1) := by
  rw [Taken, fits_array_iff, Nat.sub_pos_iff_lt]
  rfl

theorem taken_object_iff (members : Members) (outer : Nat) : (object members).Taken limits outer ↔
    outer < limits.readingDepth ∧ members.keys.Nodup ∧
      ∀ member ∈ members.toList, member.2.Taken limits (outer + 1) := by
  rw [Taken, fits_object_iff, Nat.sub_pos_iff_lt]
  rfl

/-- What is open is, as far as it is read, a value that can be taken where it is. -/
def Frame.Sound (limits : Limits) (outer : Nat) : Frame → Prop
  | .array reversed => (Json.array (.ofList reversed)).Taken limits outer
  | .object members _ => (Json.object members).Taken limits outer

/-- Every open array and object is sound inside those further out. -/
def StackSound (limits : Limits) : List Frame → Prop
  | [] => True
  | frame :: stack => frame.Sound limits stack.length ∧ StackSound limits stack

def Expected.Sound (limits : Limits) (outer : Nat) : Expected → Prop
  | .value => True
  | .valueOrClose => (array .nil).Taken limits (outer - 1)
  | .keyOrClose => empty.Taken limits outer
  | .key members | .colon members _ => (object members).Taken limits outer
  | .commaOrClose frame => frame.Sound limits outer
  | .nothing found => found.Taken limits 0

theorem StackSound.tail {stack : List Frame} (h : StackSound limits stack) :
    StackSound limits stack.tail := by
  cases stack with
  | nil => exact h
  | cons frame stack => exact h.2

namespace Reader

/-- All that a reader has taken fits. -/
structure Sound (limits : Limits) (reader : Reader) : Prop where
  expected : reader.expected.Sound limits reader.stack.length
  stack : StackSound limits reader.stack

theorem sound_supply {value : Json} {stack : List Frame} (hvalue : value.Taken limits stack.length)
    (hstack : StackSound limits stack) : (supply value stack).Sound limits := by
  match stack with
  | [] => exact ⟨hvalue, hstack⟩
  | .array reversed :: stack =>
    obtain ⟨hframe, hstack⟩ := hstack
    rw [Frame.Sound, taken_array_iff, Items.toList_ofList] at hframe
    refine ⟨(taken_array_iff ..).mpr ⟨hframe.1, ?_⟩, hstack⟩
    rw [Items.toList_ofList]
    exact List.forall_mem_cons.mpr ⟨hvalue, hframe.2⟩
  | .object members key :: stack => exact ⟨Members.fits_put hstack.1 hvalue, hstack.2⟩

theorem sound_enter {kind : Kind} {stack : List Frame} {inside next : Reader}
    (hinside : stack.length < limits.readingDepth → inside.Sound limits)
    (h : enter limits kind stack inside = .ok next) : next.Sound limits := by
  unfold enter at h
  split at h
  · rename_i hdepth
    cases h
    exact hinside hdepth
  · cases h

theorem sound_readValue {stack : List Frame} (hstack : StackSound limits stack)
    {token : Token} (htoken : token.Sound) {next : Reader}
    (h : readValue limits stack token = .ok next) : next.Sound limits := by
  cases token with
  | openArray =>
    refine sound_enter (fun hdepth ↦ ?_) h
    have hnew : (array .nil).Taken limits stack.length :=
      (taken_array_iff ..).mpr ⟨hdepth, by simp [Items.toList]⟩
    exact ⟨hnew, hnew, hstack⟩
  | openObject =>
    refine sound_enter (fun hdepth ↦ ⟨?_, hstack⟩) h
    exact fits_empty_iff.mpr (Nat.sub_pos_of_lt hdepth)
  | string text =>
    cases h
    exact sound_supply (fits_string text) hstack
  | scalar value =>
    have hnext : next = supply value stack ∧
        ∀ number, value = .int number → digitCount number ≤ limits.digits := by
      cases value with
      | int number =>
        rw [readValue] at h
        split at h
        · rename_i hdigits
          cases h
          exact ⟨rfl, by rintro _ ⟨⟩; exact hdigits⟩
        · cases h
      | null | bool | float | string | array | object =>
        cases h
        exact ⟨rfl, by rintro _ ⟨⟩⟩
    rw [hnext.1]
    exact sound_supply (taken_of_scalar htoken hnext.2 _) hstack
  | closeArray | closeObject | colon | comma | unpaired | junk => cases h

/-- One token keeps what is taken within the limits. -/
theorem sound_read {reader next : Reader} (hreader : reader.Sound limits) {token : Token}
    (htoken : token.Sound) (h : reader.read limits token = .ok next) : next.Sound limits := by
  obtain ⟨expected, stack⟩ := reader
  obtain ⟨hexpected, hstack⟩ := hreader
  dsimp only at hexpected hstack
  cases expected with
  | value => exact sound_readValue hstack htoken h
  | valueOrClose =>
    cases token with
    | closeArray =>
      cases h
      refine sound_supply ?_ hstack.tail
      rw [List.length_tail]
      exact hexpected
    | openArray | openObject | closeObject | colon | comma | string | unpaired | scalar | junk =>
      exact sound_readValue hstack htoken h
  | keyOrClose =>
    cases token with
    | closeObject =>
      cases h
      exact sound_supply hexpected hstack
    | string key =>
      cases h
      exact ⟨hexpected, hstack⟩
    | openArray | openObject | closeArray | colon | comma | unpaired | scalar | junk => cases h
  | key members =>
    cases token with
    | string key =>
      cases h
      exact ⟨hexpected, hstack⟩
    | openArray | openObject | closeArray | closeObject | colon | comma | unpaired | scalar
    | junk => cases h
  | colon members key =>
    cases token with
    | colon =>
      cases h
      exact ⟨trivial, hexpected, hstack⟩
    | openArray | openObject | closeArray | closeObject | comma | string | unpaired | scalar
    | junk => cases h
  | commaOrClose frame =>
    cases frame with
    | array reversed =>
      cases token with
      | comma =>
        cases h
        exact ⟨trivial, hexpected, hstack⟩
      | closeArray =>
        cases h
        refine sound_supply ?_ hstack
        rw [Expected.Sound, Frame.Sound, taken_array_iff, Items.toList_ofList] at hexpected
        refine (taken_array_iff ..).mpr ⟨hexpected.1, fun value hvalue ↦ hexpected.2 value ?_⟩
        simpa using hvalue
      | openArray | openObject | closeObject | colon | string | unpaired | scalar | junk => cases h
    | object members key =>
      cases token with
      | comma =>
        cases h
        exact ⟨hexpected, hstack⟩
      | closeObject =>
        cases h
        exact sound_supply hexpected hstack
      | openArray | openObject | closeArray | colon | string | unpaired | scalar | junk => cases h
  | nothing value => cases h

theorem sound_foldlM {tokens : List Token} (htokens : ∀ token ∈ tokens, token.Sound)
    {reader last : Reader} (hreader : reader.Sound limits)
    (h : tokens.foldlM (read limits) reader = .ok last) : last.Sound limits := by
  induction tokens generalizing reader with
  | nil =>
    cases h
    exact hreader
  | cons token tokens ih =>
    rw [List.forall_mem_cons] at htokens
    rw [List.foldlM_cons] at h
    cases hread : reader.read limits token with
    | error error =>
      rw [hread] at h
      cases h
    | ok next =>
      rw [hread] at h
      exact ih htokens.2 (sound_read hreader htokens.1 hread) h

end Reader

/-- Whatever is read is faithful and within the limits of the reader. -/
theorem fits_of_read {text : List Char} {value : Json} (h : read limits text = .ok value) :
    value.Fits limits.digits limits.readingDepth := by
  rw [read] at h
  cases hfold : (Token.lex text).foldlM (Reader.read limits) .start with
  | error error =>
    rw [hfold] at h
    cases h
  | ok reader =>
    rw [hfold] at h
    have hstart : Reader.start.Sound limits := ⟨trivial, trivial⟩
    have hsound : reader.Sound limits :=
      Reader.sound_foldlM (Token.sound_lexFrom .between text) hstart hfold
    obtain ⟨expected, stack⟩ := reader
    cases expected with
    | nothing found =>
      cases h
      exact hsound.expected
    | value | valueOrClose | key | keyOrClose | colon | commaOrClose => cases h

/-! ### Tokens of a value are read as the value -/

namespace Reader

/-- A reader that waits for a value, perhaps for the first of an array. -/
def AwaitsValue (expected : Expected) : Prop := expected = .value ∨ expected = .valueOrClose

theorem read_awaiting {expected : Expected} (hexpected : AwaitsValue expected)
    (stack : List Frame) {token : Token} (htoken : token ≠ .closeArray) :
    read limits ⟨expected, stack⟩ token = readValue limits stack token := by
  rcases hexpected with rfl | rfl
  · rfl
  · cases token with
    | closeArray => exact absurd rfl htoken
    | openArray | openObject | closeObject | colon | comma | string | unpaired | scalar | junk =>
      rfl

theorem foldlM_cons_awaiting {expected : Expected} (hexpected : AwaitsValue expected)
    (stack : List Frame) {token : Token} (htoken : token ≠ .closeArray) {next : Reader}
    (hnext : readValue limits stack token = .ok next) (tokens : List Token) :
    (token :: tokens).foldlM (read limits) ⟨expected, stack⟩ =
      tokens.foldlM (read limits) next := by
  rw [List.foldlM_cons, read_awaiting hexpected stack htoken, hnext]
  rfl

theorem readValue_openArray {stack : List Frame} (hdepth : stack.length < limits.readingDepth) :
    readValue limits stack .openArray = .ok ⟨.valueOrClose, .array [] :: stack⟩ := if_pos hdepth

theorem readValue_openObject {stack : List Frame} (hdepth : stack.length < limits.readingDepth) :
    readValue limits stack .openObject = .ok ⟨.keyOrClose, stack⟩ := if_pos hdepth

/-- Tokens are read one row after the other. -/
theorem foldlM_append {first second : List Token} {reader next : Reader}
    (h : first.foldlM (read limits) reader = .ok next) :
    (first ++ second).foldlM (read limits) reader = second.foldlM (read limits) next := by
  rw [List.foldlM_append, h]
  rfl

mutual

/-- Wherever a value is waited for, the tokens of a faithful one supply it. -/
theorem foldlM_tokens (value : Json) (stack : List Frame) (h : value.Taken limits stack.length)
    {expected : Expected}
    (hexpected : AwaitsValue expected) :
    value.tokens.foldlM (read limits) ⟨expected, stack⟩ = .ok (supply value stack) := by
  match value with
  | .null => exact foldlM_cons_awaiting hexpected stack (by simp) rfl []
  | .bool value => exact foldlM_cons_awaiting hexpected stack (by simp) rfl []
  | .int value =>
    have hdigits : digitCount value ≤ limits.digits := (fits_int_iff value).mp h
    have htaken : readValue limits stack (.scalar (.int value)) = .ok (supply (.int value) stack) :=
      if_pos hdigits
    exact foldlM_cons_awaiting hexpected stack (by simp) htaken []
  | .float value => exact foldlM_cons_awaiting hexpected stack (by simp) rfl []
  | .string text => exact foldlM_cons_awaiting hexpected stack (by simp) rfl []
  | .array .nil =>
    have hopened := readValue_openArray ((taken_array_iff ..).mp h).1
    exact foldlM_cons_awaiting hexpected stack (by simp) hopened [Token.closeArray]
  | .array (.cons head tail) =>
    obtain ⟨hdepth, hitems⟩ := (taken_array_iff ..).mp h
    rw [Items.toList, List.forall_mem_cons] at hitems
    have hhead := foldlM_tokens head (.array [] :: stack) hitems.1 (.inr rfl)
    have htail := foldlM_itemTokens tail stack hitems.2 [head]
    rw [List.reverse_singleton, List.singleton_append, Items.ofList, Items.ofList_toList] at htail
    rw [tokens, foldlM_cons_awaiting hexpected stack (by simp) (readValue_openArray hdepth),
      foldlM_append hhead]
    exact htail
  | .object .nil =>
    have hopened := readValue_openObject ((taken_object_iff ..).mp h).1
    exact foldlM_cons_awaiting hexpected stack (by simp) hopened [Token.closeObject]
  | .object (.cons key value rest) =>
    obtain ⟨hdepth, hnodup, hmembers⟩ := (taken_object_iff ..).mp h
    rw [Members.toList, List.forall_mem_cons] at hmembers
    have hvalue := foldlM_tokens value (.object .nil key :: stack) hmembers.1 (.inl rfl)
    have hrest := foldlM_memberTokens rest stack hmembers.2 (.cons key value .nil) key
      (.cons key value rest) rfl hnodup
    rw [tokens, foldlM_cons_awaiting hexpected stack (by simp) (readValue_openObject hdepth)]
    change (value.tokens ++ (rest.tokensRest ++ [Token.closeObject])).foldlM (read limits)
      ⟨.value, .object .nil key :: stack⟩ = _
    rw [foldlM_append hvalue]
    exact hrest

theorem foldlM_itemTokens (items : Items) (stack : List Frame)
    (h : ∀ value ∈ items.toList, value.Taken limits (stack.length + 1)) (reversed : List Json) :
    (items.tokensRest ++ [Token.closeArray]).foldlM (read limits)
        ⟨.commaOrClose (.array reversed), stack⟩ =
      .ok (supply (.array (.ofList (reversed.reverse ++ items.toList))) stack) := by
  match items with
  | .nil =>
    rw [Items.toList, List.append_nil]
    rfl
  | .cons head tail =>
    rw [Items.toList, List.forall_mem_cons] at h
    have hhead := foldlM_tokens head (.array reversed :: stack) h.1 (.inl rfl)
    have htail := foldlM_itemTokens tail stack h.2 (head :: reversed)
    rw [Items.toList]
    rw [List.reverse_cons, List.append_assoc, List.singleton_append] at htail
    rw [← htail, Items.tokensRest, List.cons_append, List.append_assoc, List.foldlM_cons]
    change (head.tokens ++ (tail.tokensRest ++ [Token.closeArray])).foldlM (read limits)
      ⟨.value, .array reversed :: stack⟩ = _
    exact foldlM_append hhead

theorem foldlM_memberTokens (rest : Members) (stack : List Frame)
    (h : ∀ member ∈ rest.toList, member.2.Taken limits (stack.length + 1)) (members : Members)
    (last : String) (whole : Members)
    (hwhole : whole.toList = members.toList ++ rest.toList) (hnodup : whole.keys.Nodup) :
    (rest.tokensRest ++ [Token.closeObject]).foldlM (read limits)
        ⟨.commaOrClose (.object members last), stack⟩ =
      .ok (supply (.object whole) stack) := by
  match rest with
  | .nil =>
    rw [Members.toList, List.append_nil] at hwhole
    rw [← Members.ofList_toList whole, hwhole, Members.ofList_toList]
    rfl
  | .cons key value rest =>
    rw [Members.toList, List.forall_mem_cons] at h
    have hvalue := foldlM_tokens value (.object members key :: stack) h.1 (.inl rfl)
    have hnew : key ∉ members.keys := by
      rw [Members.keys, hwhole, Members.toList, List.map_append, List.map_cons,
        List.nodup_append] at hnodup
      exact fun hmem ↦ hnodup.2.2 key hmem key List.mem_cons_self rfl
    have hput : whole.toList = (members.put key value).toList ++ rest.toList := by
      rw [Members.toList_put_of_notMem hnew, hwhole, Members.toList,
        List.append_assoc, List.singleton_append]
    have hrest := foldlM_memberTokens rest stack h.2 (members.put key value) key whole hput
      hnodup
    rw [← hrest, Members.tokensRest, List.cons_append, List.cons_append, List.cons_append,
      List.append_assoc, List.foldlM_cons]
    change (value.tokens ++ (rest.tokensRest ++ [Token.closeObject])).foldlM (read limits)
      ⟨.value, .object members key :: stack⟩ = _
    exact foldlM_append hvalue

end

end Reader

end CommandLine.Json
