import Mathlib.Data.List.Basic
import Mathlib.Tactic

/-! JSON string literals: the escapes a serializer prints, their length in bytes, and a reader
that gives the text back. -/
namespace JsonText

/-- The length of a text in UTF-8. -/
def byteLength (text : List Char) : ℕ := (text.map Char.utf8Size).sum

@[simp] theorem byteLength_nil : byteLength [] = 0 := rfl

@[simp] theorem byteLength_cons (c : Char) (text : List Char) :
    byteLength (c :: text) = c.utf8Size + byteLength text := rfl

@[simp] theorem byteLength_append (a b : List Char) :
    byteLength (a ++ b) = byteLength a + byteLength b := by
  simp [byteLength]

def hexDigit (n : ℕ) : Char := "0123456789abcdef".toList.getD n '0'

def hexValue (c : Char) : ℕ := "0123456789abcdef".toList.idxOf c

theorem hexValue_hexDigit : ∀ n < 16, hexValue (hexDigit n) = n := by decide

theorem utf8Size_hexDigit : ∀ n < 16, (hexDigit n).utf8Size = 1 := by decide

def quoteMark : Char := '\u0022'

/-- The character as it stands in a literal. -/
def escapeChar (c : Char) : List Char :=
  if c = quoteMark then ['\\', quoteMark]
  else if c = '\\' then ['\\', '\\']
  else if c = '\x08' then ['\\', 'b']
  else if c = '\t' then ['\\', 't']
  else if c = '\n' then ['\\', 'n']
  else if c = '\x0c' then ['\\', 'f']
  else if c = '\r' then ['\\', 'r']
  else if c.toNat < 32 then ['\\', 'u', '0', '0', hexDigit (c.toNat / 16), hexDigit (c.toNat % 16)]
  else [c]

def escape (text : List Char) : List Char := text.flatMap escapeChar

/-- A literal with its quotes. -/
def quote (text : String) : List Char := quoteMark :: escape text.toList ++ [quoteMark]

theorem byteLength_escapeChar (c : Char) : byteLength (escapeChar c) ≤ 6 * c.utf8Size := by
  have hpos : 1 ≤ c.utf8Size := c.utf8Size_pos
  unfold escapeChar
  repeat' split
  all_goals try (simp only [byteLength_cons, byteLength_nil]; subst_vars; decide)
  · next h =>
    have h₁ := utf8Size_hexDigit (c.toNat / 16) (by omega)
    have h₂ := utf8Size_hexDigit (c.toNat % 16) (by omega)
    have h₃ : ('\\' : Char).utf8Size = 1 ∧ ('u' : Char).utf8Size = 1 ∧ ('0' : Char).utf8Size = 1 := by
      decide
    simp only [byteLength_cons, byteLength_nil, h₁, h₂, h₃]
    omega
  · simp only [byteLength_cons, byteLength_nil]
    omega

theorem byteLength_escape (text : List Char) : byteLength (escape text) ≤ 6 * byteLength text := by
  induction text with
  | nil => simp [escape]
  | cons c text ih =>
    have hc := byteLength_escapeChar c
    simp only [escape, List.flatMap_cons, byteLength_append, byteLength_cons] at ih ⊢
    omega

theorem byteLength_quote (text : String) :
    byteLength (quote text) ≤ 6 * byteLength text.toList + 2 := by
  have h := byteLength_escape text.toList
  have hq : quoteMark.utf8Size = 1 := by decide
  simp only [quote, List.cons_append, byteLength_cons, byteLength_append, byteLength_nil, hq]
  omega

/-- The character a two-character escape stands for. -/
def unescape (c : Char) : Option Char :=
  if c = quoteMark then some quoteMark
  else if c = '\\' then some '\\'
  else if c = 'b' then some '\x08'
  else if c = 't' then some '\t'
  else if c = 'n' then some '\n'
  else if c = 'f' then some '\x0c'
  else if c = 'r' then some '\r'
  else none

/-- The rest of a literal after its opening quote, and what follows it. -/
def readBody : List Char → Option (List Char × List Char)
  | [] => none
  | c :: text =>
    if c = quoteMark then some ([], text)
    else if c = '\\' then
      match text with
      | 'u' :: _ :: _ :: high :: low :: text =>
        (readBody text).map fun (body, rest) =>
          (Char.ofNat (16 * hexValue high + hexValue low) :: body, rest)
      | e :: text => (unescape e).bind fun c => (readBody text).map fun (body, rest) => (c :: body, rest)
      | [] => none
    else (readBody text).map fun (body, rest) => (c :: body, rest)

theorem readBody_escapeChar (c : Char) (text : List Char) :
    readBody (escapeChar c ++ text) = (readBody text).map fun (body, rest) => (c :: body, rest) := by
  unfold escapeChar
  split_ifs
  -- the two-character escapes
  all_goals try (subst_vars; rfl)
  next h =>
    have h₁ := hexValue_hexDigit (c.toNat / 16) (by omega)
    have h₂ := hexValue_hexDigit (c.toNat % 16) (by omega)
    have hc : Char.ofNat (16 * (c.toNat / 16) + c.toNat % 16) = c := by
      rw [Nat.div_add_mod, Char.ofNat_toNat]
    have hne : ('\\' : Char) ≠ quoteMark := by decide
    simp only [List.cons_append, List.nil_append, readBody, hne, if_false, if_true, h₁, h₂, hc]
  next =>
    rw [List.singleton_append, readBody.eq_def]
    simp_all

/-- The reader gives the escaped text back, whatever follows the literal. -/
theorem readBody_escape (text rest : List Char) :
    readBody (escape text ++ quoteMark :: rest) = some (text, rest) := by
  induction text with
  | nil =>
    change readBody (quoteMark :: rest) = _
    rw [readBody.eq_def]
    simp
  | cons c text ih =>
    rw [escape, List.flatMap_cons, List.append_assoc, readBody_escapeChar, ← escape, ih]
    rfl

end JsonText
