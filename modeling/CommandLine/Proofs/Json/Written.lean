import CommandLine.Proofs.Json.Reading
import CommandLine.Text.Alphanumeric
import CommandLine.Text.Lines
import CommandLine.Text.Utf8

/-!
A value that is written to a file is read from it again. What is written of a faithful value, with
blanks behind it, is read as the value, and no other value is read from its own text. The indented
style writes nothing beyond ASCII and no carriage return, so that neither the octets of the file nor
its line ends change the text on the way.
-/

set_option autoImplicit false

namespace CommandLine

namespace Json

open Token

/-- A written value with blanks behind it is read as the value, if it is within the limits of the
reader. -/
theorem read_write {limits : Limits} (style : Style) {value : Json}
    (h : value.Fits limits.digits limits.readingDepth) {blanks : List Char}
    (hblanks : ∀ c ∈ blanks, isSpace c = true) :
    read limits (value.write style ++ blanks) = .ok value := by
  have hends : EndsRun blanks := by
    intro c hc
    have hspace := hblanks c (List.mem_of_mem_head? hc)
    simp only [isSpace, Bool.or_eq_true, beq_iff_eq] at hspace
    rcases hspace with ((rfl | rfl) | rfl) | rfl <;> rfl
  have hlexed : lex (value.write style ++ blanks) = value.tokens := by
    have hblank : lexFrom .between blanks = [] := by
      simpa [lexFrom] using closed_spaces hblanks []
    rw [lex, bounded_write style value h.faithful.canonical blanks hends, hblank, List.append_nil]
  have hread : value.tokens.foldlM (Reader.read limits) .start = .ok (Reader.supply value []) :=
    Reader.foldlM_tokens value [] h (.inl rfl)
  rw [read, hlexed, hread]
  rfl

end Json

/-! ### Octets and line ends -/

namespace Text

/-- A character that one octet encodes, and that ends no line of another system. -/
def IsPlain (c : Char) : Prop := c.toNat < 0x80 ∧ c ≠ '\r'

instance (c : Char) : Decidable (IsPlain c) := inferInstanceAs (Decidable (_ ∧ _))

theorem isPlain_of_all {text : List Char} (h : text.all (fun c ↦ IsPlain c) = true) :
    ∀ c ∈ text, IsPlain c := by
  simpa using h

theorem decodeFrom_encode (position : Nat) {text : List Char} (h : ∀ c ∈ text, IsPlain c) :
    decodeFrom none position (encode text) = .ok text := by
  induction text generalizing position with
  | nil => rfl
  | cons c rest ih =>
    rw [List.forall_mem_cons] at h
    have hsmall : c.toNat < 0x80 := h.1.1
    have hoctet : String.utf8EncodeChar c = [UInt8.ofNat c.toNat] := by
      rw [String.utf8EncodeChar]
      exact if_pos (show c.toNat ≤ 0x7F by omega)
    have hback : (UInt8.ofNat c.toNat).toNat = c.toNat := by
      rw [UInt8.toNat_ofNat']
      omega
    have hsplit : encode (c :: rest) = UInt8.ofNat c.toNat :: encode rest := by
      rw [encode, List.flatMap_cons, hoctet]
      rfl
    rw [hsplit, decodeFrom]
    simp only [hback, if_pos hsmall, ih (position + 1) h.2, Char.ofNat_toNat]
    rfl

/-- Plain text is decoded from its octets. -/
theorem decode_encode {text : List Char} (h : ∀ c ∈ text, IsPlain c) :
    decode (encode text) = .ok text := decodeFrom_encode 0 h

/-- Text without carriage returns has its line ends unified. -/
theorem unifyLineEnds_eq_self {text : List Char} (h : '\r' ∉ text) : unifyLineEnds text = text := by
  induction text with
  | nil => rfl
  | cons c rest ih =>
    rw [List.mem_cons, not_or] at h
    rw [unifyLineEnds, ih h.2]
    · rintro _ rfl
      exact absurd rfl h.1
    · rintro rfl
      exact absurd rfl h.1

theorem isPlain_hexDigit (n : Nat) : IsPlain (hexDigit n) := by
  have hall : ∀ d < 16, IsPlain (hexDigit d) := by decide
  rw [← hexDigit_mod]
  exact hall _ (Nat.mod_lt _ (by decide))

theorem isPlain_hex (width n : Nat) : ∀ c ∈ hex width n, IsPlain c := by
  induction width generalizing n with
  | zero => exact List.forall_mem_nil _
  | succ width ih =>
    exact List.forall_mem_append.mpr ⟨ih (n / 16), by simpa using isPlain_hexDigit n⟩

end Text

namespace Json

open Token
open Text (IsPlain)

theorem isPlain_of_isRunChar {c : Char} (h : isRunChar c = true) : IsPlain c := by
  refine ⟨?_, by rintro rfl; exact absurd h (by decide)⟩
  simp only [isRunChar, Bool.or_eq_true, beq_iff_eq] at h
  rcases h with ((h | rfl) | rfl) | rfl
  · exact Text.toNat_lt_of_isAlphanum h
  · decide
  · decide
  · decide

theorem Token.Run.isPlain {run : List Char} {value : Json} (h : Run run value) :
    ∀ c ∈ run, IsPlain c := fun c hc ↦ isPlain_of_isRunChar (h.chars c hc)

theorem isPlain_unitEscape (unit : Nat) : ∀ c ∈ unitEscape unit, IsPlain c :=
  List.forall_mem_append.mpr ⟨Text.isPlain_of_all (by decide), Text.isPlain_hex 4 unit⟩

theorem isPlain_codeEscape (c : Char) : ∀ written ∈ codeEscape c, IsPlain written := by
  unfold codeEscape
  split
  · exact isPlain_unitEscape _
  · exact List.forall_mem_append.mpr ⟨isPlain_unitEscape _, isPlain_unitEscape _⟩

theorem isPlain_stringChar (c : Char) : ∀ written ∈ stringChar true c, IsPlain written := by
  unfold stringChar
  split
  · exact Text.isPlain_of_all (by decide)
  · exact Text.isPlain_of_all (by decide)
  · exact Text.isPlain_of_all (by decide)
  · exact Text.isPlain_of_all (by decide)
  · exact Text.isPlain_of_all (by decide)
  · exact Text.isPlain_of_all (by decide)
  · exact Text.isPlain_of_all (by decide)
  · rename_i hreturn _ _ _
    split
    · exact isPlain_codeEscape c
    · rename_i hplain
      rw [not_or] at hplain
      refine List.forall_mem_singleton.mpr ⟨?_, hreturn⟩
      have hascii : ¬0x7E < c.toNat := fun h ↦ hplain.2 ⟨rfl, h⟩
      omega

theorem isPlain_stringText (text : String) : ∀ c ∈ stringText true text, IsPlain c := by
  refine List.forall_mem_append.mpr
    ⟨List.forall_mem_cons.mpr ⟨by decide, fun c hc ↦ ?_⟩, Text.isPlain_of_all (by decide)⟩
  obtain ⟨original, -, hwritten⟩ := List.mem_flatMap.mp hc
  exact isPlain_stringChar original c hwritten

theorem isPlain_lineBreak (depth : Nat) : ∀ c ∈ (Style.indented depth).lineBreak, IsPlain c := by
  refine List.forall_mem_cons.mpr ⟨by decide, fun c hc ↦ ?_⟩
  rw [List.eq_of_mem_replicate hc]
  decide

theorem isPlain_colon (depth : Nat) : ∀ c ∈ (Style.indented depth).colon, IsPlain c := by
  have hall : ∀ c ∈ [':', ' '], IsPlain c := Text.isPlain_of_all (by decide)
  exact hall

mutual

/-- The indented style writes plain text. -/
theorem isPlain_write (depth : Nat) (value : Json) (h : value.Canonical) :
    ∀ c ∈ value.write (.indented depth), IsPlain c := by
  have hdeeper := isPlain_lineBreak (depth + 1)
  have hbreak := isPlain_lineBreak depth
  match value with
  | .null => simpa only [write] using run_null.isPlain
  | .bool value => simpa only [write] using (run_bool value).isPlain
  | .int value => simpa only [write] using (run_int value).isPlain
  | .float value => simpa only [write] using (run_float h).isPlain
  | .string text => simpa only [write, Style.ascii] using isPlain_stringText text
  | .array .nil =>
    rw [write]
    exact Text.isPlain_of_all (by decide)
  | .array (.cons head tail) =>
    have hhead := isPlain_write (depth + 1) head h.1
    have htail := Items.isPlain_writeRest (depth + 1) tail h.2
    simp only [write, Style.deeper, List.cons_append, List.forall_mem_cons, List.forall_mem_append]
    exact ⟨by decide, ⟨⟨⟨hdeeper, hhead⟩, htail⟩, hbreak⟩, by decide, List.forall_mem_nil _⟩
  | .object .nil =>
    rw [write]
    exact Text.isPlain_of_all (by decide)
  | .object (.cons key value rest) =>
    have hkey := isPlain_stringText key
    have hvalue := isPlain_write (depth + 1) value h.1
    have hrest := Members.isPlain_writeRest (depth + 1) rest h.2
    have hcolon := isPlain_colon (depth + 1)
    simp only [write, Style.deeper, Style.ascii, List.cons_append, List.forall_mem_cons,
      List.forall_mem_append]
    exact ⟨by decide, ⟨⟨⟨⟨⟨hdeeper, hkey⟩, hcolon⟩, hvalue⟩, hrest⟩, hbreak⟩, by decide,
      List.forall_mem_nil _⟩

theorem Items.isPlain_writeRest (depth : Nat) (items : Items) (h : items.Canonical) :
    ∀ c ∈ items.writeRest (.indented depth), IsPlain c := by
  match items with
  | .nil =>
    rw [Items.writeRest]
    exact List.forall_mem_nil _
  | .cons head tail =>
    have hhead := isPlain_write depth head h.1
    have htail := Items.isPlain_writeRest depth tail h.2
    simp only [Items.writeRest, List.cons_append, List.forall_mem_cons, List.forall_mem_append]
    exact ⟨by decide, ⟨isPlain_lineBreak depth, hhead⟩, htail⟩

theorem Members.isPlain_writeRest (depth : Nat) (members : Members) (h : members.Canonical) :
    ∀ c ∈ members.writeRest (.indented depth), IsPlain c := by
  match members with
  | .nil =>
    rw [Members.writeRest]
    exact List.forall_mem_nil _
  | .cons key value rest =>
    have hkey := isPlain_stringText key
    have hvalue := isPlain_write depth value h.1
    have hrest := Members.isPlain_writeRest depth rest h.2
    simp only [Members.writeRest, Style.ascii, List.cons_append, List.forall_mem_cons,
      List.forall_mem_append]
    exact ⟨by decide, ⟨⟨⟨isPlain_lineBreak depth, hkey⟩, isPlain_colon depth⟩, hvalue⟩, hrest⟩

end

end Json

end CommandLine
