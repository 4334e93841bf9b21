import DtgProxy.Language.Lexer

/-! # The lexer returns

The cursor of the lexer always stands at a place in the text, never inside a
character: outside of string literals only bytes below 128 are stepped over, and
inside them whole characters.  Each round moves it forwards.
-/
namespace DtgProxy.Language

open Lib

/-- A character starts at the offset, or the text ends there. -/
def Place (source : List Char) (offset : ℕ) : Prop :=
  ∃ rest, Utf8.suffix source offset = some rest

section Bytes

variable {b : UInt8}

theorem isAsciiDigit_lt (h : isAsciiDigit b = true) : b.toNat < 128 := by
  simp only [isAsciiDigit, Bool.and_eq_true, decide_eq_true_eq, UInt8.le_iff_toNat_le] at h
  exact lt_of_le_of_lt h.2 (by decide)

theorem isAsciiAlphabetic_lt (h : isAsciiAlphabetic b = true) : b.toNat < 128 := by
  simp only [isAsciiAlphabetic, Bool.or_eq_true, Bool.and_eq_true, decide_eq_true_eq,
    UInt8.le_iff_toNat_le] at h
  rcases h with h | h
  · exact lt_of_le_of_lt h.2 (by decide)
  · exact lt_of_le_of_lt h.2 (by decide)

theorem isNameByte_lt (h : isNameByte b = true) : b.toNat < 128 := by
  simp only [isNameByte, Bool.or_eq_true, beq_iff_eq] at h
  rcases h with (h | h) | h
  · exact isAsciiAlphabetic_lt h
  · exact isAsciiDigit_lt h
  · subst h
    decide

theorem isAsciiWhitespace_lt (h : isAsciiWhitespace b = true) : b.toNat < 128 := by
  simp only [isAsciiWhitespace, Bool.or_eq_true, beq_iff_eq] at h
  rcases h with (((h | h) | h) | h) | h
  all_goals
    subst h
    decide

theorem symbolBytes_lt (h : b ∈ symbolBytes) : b.toNat < 128 := by
  have hall : symbolBytes.all (fun b => decide (b.toNat < 128)) = true := by decide
  exact of_decide_eq_true (List.all_eq_true.mp hall b h)

end Bytes

section Places

variable {source : List Char} {cursor : ℕ}

theorem place_zero (source : List Char) : Place source 0 := ⟨source, Utf8.suffix_zero source⟩

theorem Place.le_length (h : Place source cursor) : cursor ≤ (Utf8.bytes source).length := by
  obtain ⟨rest, hrest⟩ := h
  rw [Utf8.length_bytes hrest]
  exact Nat.le_add_right _ _

theorem Place.succ {b : UInt8} (h : Place source cursor)
    (hb : (Utf8.bytes source)[cursor]? = some b) (hlt : b.toNat < 128) :
    Place source (cursor + 1) := by
  obtain ⟨rest, hrest⟩ := h
  obtain ⟨_, more, _, _, hmore⟩ := Utf8.suffix_succ_of_lt hrest hb hlt
  exact ⟨more, hmore⟩

theorem Place.scan {p : UInt8 → Bool} (hp : ∀ b, p b = true → b.toNat < 128)
    (h : Place source cursor) : Place source (Utf8.scan source p cursor) := by
  obtain ⟨rest, hrest⟩ := h
  exact Utf8.exists_suffix_scan hp hrest

theorem meets_sliceText {start stop : ℕ} (hle : start ≤ stop) (hstart : Place source start)
    (hstop : Place source stop) : Meets (sliceText source start stop) fun _ => True := by
  obtain ⟨rest, hrest⟩ := hstart
  obtain ⟨more, hmore⟩ := hstop
  obtain ⟨part, hpart⟩ := Utf8.exists_slice hle hrest hmore
  unfold sliceText
  rw [hpart]
  exact trivial

/-- Before the end of the text a character is read, and behind it is a place again. -/
theorem meets_charAt (h : Place source cursor) (hne : cursor ≠ (Utf8.bytes source).length) :
    Meets (charAt source cursor) fun c => Place source (cursor + c.utf8Size) := by
  obtain ⟨rest, hrest⟩ := h
  unfold charAt
  rw [hrest]
  cases rest with
  | nil => exact absurd (by simpa using Utf8.length_bytes hrest) (Ne.symm hne)
  | cons c rest => exact ⟨rest, Utf8.suffix_add_utf8Size hrest⟩

theorem lt_scan {p : UInt8 → Bool} {b : UInt8} (hb : (Utf8.bytes source)[cursor]? = some b)
    (hp : p b = true) : cursor < Utf8.scan source p cursor := by
  obtain ⟨hlt, heq⟩ := List.getElem?_eq_some_iff.mp hb
  unfold Utf8.scan
  rw [List.drop_eq_getElem_cons hlt, heq, List.takeWhile_cons, if_pos hp, List.length_cons]
  omega

end Places

/-! ### One token -/

section Tokens

variable {source : List Char} {start : ℕ}

/-- The token that starts at `start` ends at a later place. -/
def EndsLater (source : List Char) (start : ℕ) (result : TokenKind × ℕ) : Prop :=
  start < result.2 ∧ Place source result.2

theorem meets_stringRound {quote : UInt8} (hquote : quote.toNat < 128) {cursor : ℕ}
    (hcursor : Place source cursor) (value : List Char) :
    Meets (stringRound source quote start cursor value) fun
      | .inl (next, _) => cursor < next ∧ Place source next
      | .inr (next, _) => cursor < next ∧ Place source next := by
  unfold stringRound
  cases hb : (Utf8.bytes source)[cursor]? with
  | none => exact meets_error _
  | some b =>
    dsimp only
    by_cases hq : b = quote
    · rw [if_pos hq]
      exact ⟨Nat.lt_succ_self _, hcursor.succ hb (hq ▸ hquote)⟩
    · rw [if_neg hq]
      -- Behind a backslash the character is taken as it is.
      have hnext : Place source (if b = 0x5C then cursor + 1 else cursor) := by
        split_ifs with hslash
        · exact hcursor.succ hb (by rw [hslash]; decide)
        · exact hcursor
      have hle : cursor ≤ if b = 0x5C then cursor + 1 else cursor := by
        split_ifs <;> omega
      generalize (if b = 0x5C then cursor + 1 else cursor) = next at hnext hle
      split_ifs with hend
      · exact meets_error _
      · refine (meets_charAt hnext hend).bind fun c hc => ?_
        have hpos : 0 < c.utf8Size := c.utf8Size_pos
        exact ⟨by omega, hc⟩

theorem meets_lexString {quote : UInt8} (hquote : quote.toNat < 128) (fuel : ℕ) {cursor : ℕ}
    (hcursor : Place source cursor) (hstart : start < cursor)
    (hfuel : (Utf8.bytes source).length < cursor + fuel) (value : List Char) :
    Meets (lexString source quote start fuel cursor value) (EndsLater source start) := by
  induction fuel generalizing cursor value with
  | zero => exact absurd hcursor.le_length (by omega)
  | succ fuel ih =>
    refine (meets_stringRound hquote hcursor value).bind fun next hnext => ?_
    match next, hnext with
    | .inl (next, value), ⟨hlt, hplace⟩ => exact ih hplace (by omega) (by omega) value
    | .inr (next, value), ⟨hlt, hplace⟩ => exact ⟨by dsimp only; omega, hplace⟩

variable {b : UInt8} (hstart : Place source start) (hb : (Utf8.bytes source)[start]? = some b)

include hstart hb

theorem meets_lexParameter (hlt : b.toNat < 128) :
    Meets (lexParameter source start) (EndsLater source start) := by
  have hname := hstart.succ hb hlt
  have hstop := hname.scan fun _ => isNameByte_lt
  have hle := Utf8.le_scan source isNameByte (start + 1)
  unfold lexParameter
  dsimp only
  split_ifs
  · exact meets_error _
  · exact (meets_sliceText hle hname hstop).bind fun _ _ => ⟨by dsimp only; omega, hstop⟩

theorem meets_lexInteger (hdigit : b = 0x2D ∨ isAsciiDigit b = true) :
    Meets (lexInteger source b start) (EndsLater source start) := by
  have hdigits : Place source (if b = 0x2D then start + 1 else start) := by
    split_ifs with hminus
    · exact hstart.succ hb (by rw [hminus]; decide)
    · exact hstart
  have hstop := hdigits.scan fun _ => isAsciiDigit_lt
  have hlt : start < Utf8.scan source isAsciiDigit (if b = 0x2D then start + 1 else start) := by
    split_ifs with hminus
    · have hle := Utf8.le_scan source isAsciiDigit (start + 1)
      omega
    · exact lt_scan hb (hdigit.resolve_left hminus)
  refine (meets_sliceText hlt.le hstart hstop).bind fun literal _ => ?_
  cases parseInteger literal with
  | none => exact meets_error _
  | some => exact ⟨hlt, hstop⟩

theorem meets_lexWord (hlt : b.toNat < 128) :
    Meets (lexWord source start) (EndsLater source start) := by
  have hstop := (hstart.succ hb hlt).scan fun _ => isNameByte_lt
  have hlt : start < Utf8.scan source isNameByte (start + 1) :=
    Utf8.le_scan source isNameByte (start + 1)
  exact (meets_sliceText hlt.le hstart hstop).bind fun _ _ => ⟨hlt, hstop⟩

theorem meets_lexToken :
    Meets (lexToken source b start) (EndsLater source start) := by
  unfold lexToken
  dsimp only
  split_ifs with hdollar hinteger hquote hword hright hleft hsymbol
  · exact meets_lexParameter hstart hb (by rw [hdollar]; decide)
  · refine meets_lexInteger hstart hb ?_
    rw [Bool.or_eq_true, Bool.and_eq_true, beq_iff_eq] at hinteger
    exact hinteger.symm.imp And.left id
  · have hlt : b.toNat < 128 := by
      rcases hquote with h | h
      all_goals
        rw [h]
        decide
    exact meets_lexString hlt _ (hstart.succ hb hlt) (Nat.lt_succ_self _) (by omega) []
  · refine meets_lexWord hstart hb ?_
    rw [Bool.or_eq_true, beq_iff_eq] at hword
    rcases hword with h | h
    · exact isAsciiAlphabetic_lt h
    · rw [h]
      decide
  · have hmiddle := hstart.succ hb (by rw [hright.1]; decide)
    exact ⟨by dsimp only; omega, hmiddle.succ hright.2 (by decide)⟩
  · have hmiddle := hstart.succ hb (by rw [hleft.1]; decide)
    exact ⟨by dsimp only; omega, hmiddle.succ hleft.2 (by decide)⟩
  · exact ⟨Nat.lt_succ_self _, hstart.succ hb (symbolBytes_lt hsymbol)⟩
  · exact meets_error _

end Tokens

/-! ### The token list -/

/-- The list ends with the end token. -/
def Terminated (tokens : List Token) : Prop :=
  ∃ front last, tokens = front ++ [last] ∧ last.kind = .end

theorem meets_lexFrom (source : List Char) (fuel : ℕ) {cursor : ℕ} (hcursor : Place source cursor)
    (hfuel : (Utf8.bytes source).length < cursor + fuel) (tokens : List Token) :
    Meets (lexFrom source fuel cursor tokens) fun _ => True := by
  induction fuel generalizing cursor tokens with
  | zero => exact absurd hcursor.le_length (by omega)
  | succ fuel ih =>
    unfold lexFrom
    cases hb : (Utf8.bytes source)[cursor]? with
    | none => exact trivial
    | some b =>
      dsimp only
      by_cases hspace : isAsciiWhitespace b = true
      · rw [if_pos hspace]
        exact ih (hcursor.succ hb (isAsciiWhitespace_lt hspace)) (by omega) tokens
      · rw [if_neg hspace]
        refine (meets_lexToken hcursor hb).bind fun result hresult => ?_
        obtain ⟨hlt, hplace⟩ := hresult
        split_ifs
        · exact meets_error _
        · exact ih hplace (by omega) _

/-- The lexer returns for every source, and its tokens end with the end token. -/
theorem meets_lex (source : String) : Meets (lex source) Terminated := by
  unfold lex
  dsimp only
  split_ifs
  · exact meets_error _
  · refine (meets_lexFrom source.toList _ (place_zero _) (by omega) []).bind fun tokens _ => ?_
    exact ⟨tokens, _, rfl, rfl⟩

end DtgProxy.Language
