import Mathlib.Tactic

/-! The URL-safe base64 text of a byte string, without padding. A byte is written with shifts and
masks; below these are quotients and remainders by powers of two. -/
namespace Base64

def alphabet : List Char :=
  "ABCDEFGHIJKLMNOPQRSTUVWXYZabcdefghijklmnopqrstuvwxyz0123456789-_".toList

def digit (value : ℕ) : Char := alphabet.getD value 'A'

def decodeDigit (c : Char) : Option ℕ :=
  if 'A' ≤ c ∧ c ≤ 'Z' then some (c.toNat - 'A'.toNat)
  else if 'a' ≤ c ∧ c ≤ 'z' then some (c.toNat - 'a'.toNat + 26)
  else if '0' ≤ c ∧ c ≤ '9' then some (c.toNat - '0'.toNat + 52)
  else if c = '-' then some 62
  else if c = '_' then some 63
  else none

def isAscii (c : Char) : Bool := c.toNat < 128

def base64urlEncode : List UInt8 → List Char
  | [] => []
  | [first] => [digit (first.toNat / 4), digit (first.toNat % 4 * 16)]
  | [first, second] =>
    [digit (first.toNat / 4), digit (first.toNat % 4 * 16 + second.toNat / 16),
      digit (second.toNat % 16 * 4)]
  | first :: second :: third :: rest =>
    digit (first.toNat / 4) :: digit (first.toNat % 4 * 16 + second.toNat / 16) ::
      digit (second.toNat % 16 * 4 + third.toNat / 64) :: digit (third.toNat % 64) ::
      base64urlEncode rest

/-- The bytes of chunks of four digits. The bits of a last digit that no byte takes are zero. -/
def decodeChunks : List Char → Option (List UInt8)
  | [] => some []
  | [_] => none
  | [a, b] => do
    let first ← decodeDigit a
    let second ← decodeDigit b
    if second % 16 ≠ 0 then none else some [.ofNat (first * 4 + second / 16)]
  | [a, b, c] => do
    let first ← decodeDigit a
    let second ← decodeDigit b
    let third ← decodeDigit c
    if third % 4 ≠ 0 then none
    else some [.ofNat (first * 4 + second / 16), .ofNat (second * 16 + third / 4)]
  | a :: b :: c :: d :: rest => do
    let first ← decodeDigit a
    let second ← decodeDigit b
    let third ← decodeDigit c
    let fourth ← decodeDigit d
    let tail ← decodeChunks rest
    some (.ofNat (first * 4 + second / 16) :: .ofNat (second * 16 + third / 4) ::
      .ofNat (third * 64 + fourth) :: tail)

def base64urlDecode (input : List Char) : Option (List UInt8) :=
  if input = [] ∨ input.length % 4 = 1 ∨ input.all isAscii = false then none
  else
    match decodeChunks input with
    | none => none
    | some output => if base64urlEncode output = input then some output else none

theorem decodeDigit_digit : ∀ value < 64, decodeDigit (digit value) = some value := by
  decide +kernel

theorem isAscii_digit (value : ℕ) : isAscii (digit value) = true := by
  have hall : alphabet.all isAscii = true := by decide +kernel
  rw [digit, List.getD_eq_getElem?_getD]
  cases hget : alphabet[value]? with
  | none => rfl
  | some c => exact List.all_eq_true.mp hall c (List.mem_of_getElem? hget)

theorem isAscii_base64urlEncode (bytes : List UInt8) :
    ∀ c ∈ base64urlEncode bytes, isAscii c = true := by
  fun_induction base64urlEncode bytes with
  | case1 => exact fun _ h => nomatch h
  | case2 first => simp [isAscii_digit]
  | case3 first second => simp [isAscii_digit]
  | case4 first second third rest ih => simpa [isAscii_digit] using ih

theorem length_base64urlEncode (bytes : List UInt8) :
    (base64urlEncode bytes).length % 4 ≠ 1 ∧ (base64urlEncode bytes = [] → bytes = []) := by
  fun_induction base64urlEncode bytes with
  | case1 => simp
  | case2 first => simp
  | case3 first second => simp
  | case4 first second third rest ih =>
    refine ⟨?_, nofun⟩
    simp only [List.length_cons]
    have := ih.1
    omega

theorem ofNat_eq {value : ℕ} {byte : UInt8} (h : value % 256 = byte.toNat) :
    UInt8.ofNat value = byte := by
  apply UInt8.toNat_inj.mp
  rw [UInt8.toNat_ofNat', ← h]

theorem decodeChunks_base64urlEncode (bytes : List UInt8) :
    decodeChunks (base64urlEncode bytes) = some bytes := by
  fun_induction base64urlEncode bytes with
  | case1 => rfl
  | case2 first =>
    have h₁ := UInt8.toNat_lt first
    have hbyte : UInt8.ofNat (first.toNat / 4 * 4 + first.toNat % 4 * 16 / 16) = first :=
      ofNat_eq (by omega)
    simp only [decodeChunks, decodeDigit_digit (first.toNat / 4) (by omega),
      decodeDigit_digit (first.toNat % 4 * 16) (by omega), Option.bind_eq_bind, Option.bind_some,
      hbyte]
    exact if_neg (by omega)
  | case3 first second =>
    have h₁ := UInt8.toNat_lt first
    have h₂ := UInt8.toNat_lt second
    have hfirst : UInt8.ofNat (first.toNat / 4 * 4 +
        (first.toNat % 4 * 16 + second.toNat / 16) / 16) = first := ofNat_eq (by omega)
    have hsecond : UInt8.ofNat ((first.toNat % 4 * 16 + second.toNat / 16) * 16 +
        second.toNat % 16 * 4 / 4) = second := ofNat_eq (by omega)
    simp only [decodeChunks, decodeDigit_digit (first.toNat / 4) (by omega),
      decodeDigit_digit (first.toNat % 4 * 16 + second.toNat / 16) (by omega),
      decodeDigit_digit (second.toNat % 16 * 4) (by omega), Option.bind_eq_bind, Option.bind_some,
      hfirst, hsecond]
    exact if_neg (by omega)
  | case4 first second third rest ih =>
    have h₁ := UInt8.toNat_lt first
    have h₂ := UInt8.toNat_lt second
    have h₃ := UInt8.toNat_lt third
    have hfirst : UInt8.ofNat (first.toNat / 4 * 4 +
        (first.toNat % 4 * 16 + second.toNat / 16) / 16) = first := ofNat_eq (by omega)
    have hsecond : UInt8.ofNat ((first.toNat % 4 * 16 + second.toNat / 16) * 16 +
        (second.toNat % 16 * 4 + third.toNat / 64) / 4) = second := ofNat_eq (by omega)
    have hthird : UInt8.ofNat ((second.toNat % 16 * 4 + third.toNat / 64) * 64 +
        third.toNat % 64) = third := ofNat_eq (by omega)
    simp only [decodeChunks, decodeDigit_digit (first.toNat / 4) (by omega),
      decodeDigit_digit (first.toNat % 4 * 16 + second.toNat / 16) (by omega),
      decodeDigit_digit (second.toNat % 16 * 4 + third.toNat / 64) (by omega),
      decodeDigit_digit (third.toNat % 64) (by omega), ih, Option.bind_eq_bind, Option.bind_some,
      hfirst, hsecond, hthird]

/-- The decoder accepts what the encoder writes for a byte string that is not empty, and no other
text. -/
theorem base64urlDecode_eq_some {input : List Char} {bytes : List UInt8} :
    base64urlDecode input = some bytes ↔ bytes ≠ [] ∧ input = base64urlEncode bytes := by
  constructor
  · intro h
    rw [base64urlDecode] at h
    split_ifs at h with hshape
    obtain ⟨hne, -, -⟩ := not_or.mp hshape |>.imp_right not_or.mp
    cases hchunks : decodeChunks input with
    | none =>
      rw [hchunks] at h
      cases h
    | some output =>
      rw [hchunks] at h
      simp only at h
      split_ifs at h with heq
      cases h
      exact ⟨fun hnil => hne (by rw [← heq, hnil]; rfl), heq.symm⟩
  · rintro ⟨hne, rfl⟩
    have hshape := length_base64urlEncode bytes
    rw [base64urlDecode, if_neg, decodeChunks_base64urlEncode]
    · exact if_pos rfl
    · rintro (hnil | hlength | hascii)
      · exact hne (hshape.2 hnil)
      · exact hshape.1 hlength
      · have hall := List.all_eq_true.mpr (isAscii_base64urlEncode bytes)
        rw [hascii] at hall
        cases hall

end Base64
