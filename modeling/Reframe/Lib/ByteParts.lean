import Mathlib.Tactic

/-! Parts of a byte string at their offsets, and the numbers stored in them, lowest byte first. -/
namespace ByteParts

/-- The part stands in the string from the offset on. -/
def At (bytes : List UInt8) (offset : ℕ) (part : List UInt8) : Prop :=
  ∃ front rest, bytes = front ++ (part ++ rest) ∧ front.length = offset

section

variable {bytes part part' : List UInt8} {offset : ℕ}

theorem At.le (h : At bytes offset part) : offset + part.length ≤ bytes.length := by
  obtain ⟨front, rest, rfl, rfl⟩ := h
  simp only [List.length_append]
  omega

theorem at_append : At bytes offset (part ++ part') ↔
    At bytes offset part ∧ At bytes (offset + part.length) part' := by
  constructor
  · rintro ⟨front, rest, rfl, rfl⟩
    exact ⟨⟨front, part' ++ rest, by simp only [List.append_assoc], rfl⟩,
      ⟨front ++ part, rest, by simp only [List.append_assoc], List.length_append⟩⟩
  · rintro ⟨⟨front, rest, rfl, rfl⟩, front', rest', hsame, hlength⟩
    rw [← List.append_assoc front] at hsame
    obtain ⟨-, hrest⟩ := List.append_inj hsame (by rw [List.length_append, hlength])
    exact ⟨front, rest', by rw [hrest, List.append_assoc], rfl⟩

theorem at_nil : At bytes offset [] ↔ offset ≤ bytes.length := by
  constructor
  · exact fun h => h.le
  · intro h
    exact ⟨bytes.take offset, bytes.drop offset, (List.take_append_drop _ _).symm,
      List.length_take_of_le h⟩

theorem At.unique (h : At bytes offset part) (h' : At bytes offset part')
    (hlength : part.length = part'.length) : part = part' := by
  obtain ⟨front, rest, rfl, rfl⟩ := h
  obtain ⟨front', rest', hsame, hfront⟩ := h'
  obtain ⟨-, hsame⟩ := List.append_inj hsame hfront.symm
  exact (List.append_inj hsame hlength).1

/-- Where there is room for a part there is one. -/
theorem exists_at {length : ℕ} (h : offset + length ≤ bytes.length) :
    ∃ part, part.length = length ∧ At bytes offset part := by
  refine ⟨(bytes.drop offset).take length, ?_, bytes.take offset, (bytes.drop offset).drop length, ?_,
    List.length_take_of_le (by omega)⟩
  · rw [List.length_take_of_le]
    rw [List.length_drop]
    omega
  · rw [List.take_append_drop, List.take_append_drop]

end

/-- `bytes.get(start..stop)`. -/
def slice (bytes : List UInt8) (start stop : ℕ) : Option (List UInt8) :=
  if start ≤ stop ∧ stop ≤ bytes.length then some ((bytes.drop start).take (stop - start)) else none

theorem slice_eq_some {bytes part : List UInt8} {start stop : ℕ} :
    slice bytes start stop = some part ↔ At bytes start part ∧ stop = start + part.length := by
  rw [slice]
  split_ifs with hbounds
  · obtain ⟨part', hlength, hat⟩ : ∃ part', part'.length = stop - start ∧ At bytes start part' :=
      exists_at (by omega)
    have htake : (bytes.drop start).take (stop - start) = part' := by
      obtain ⟨front, rest, rfl, rfl⟩ := hat
      rw [List.drop_left, ← hlength, List.take_left]
    rw [htake, Option.some.injEq]
    constructor
    · rintro rfl
      exact ⟨hat, by omega⟩
    · rintro ⟨hat', hstop⟩
      exact hat.unique hat' (by omega)
  · refine iff_of_false (fun h => by cases h) ?_
    rintro ⟨hat, hstop⟩
    exact hbounds ⟨by omega, hstop ▸ hat.le⟩

theorem slice_eq_none {bytes : List UInt8} {start length : ℕ} :
    slice bytes start (start + length) = none ↔ bytes.length < start + length := by
  rw [slice]
  split_ifs with hbounds
  · exact iff_of_false (fun h => by cases h) (by omega)
  · exact iff_of_true rfl (by omega)

/-! Numbers. -/

def toLittle : ℕ → ℕ → List UInt8
  | 0, _ => []
  | width + 1, value => UInt8.ofNat value :: toLittle width (value / 256)

def ofLittle : List UInt8 → ℕ
  | [] => 0
  | byte :: bytes => byte.toNat + 256 * ofLittle bytes

@[simp] theorem length_toLittle (width value : ℕ) : (toLittle width value).length = width := by
  induction width generalizing value with
  | zero => rfl
  | succ width ih => rw [toLittle, List.length_cons, ih]

theorem ofLittle_lt (bytes : List UInt8) : ofLittle bytes < 256 ^ bytes.length := by
  induction bytes with
  | nil => exact Nat.one_pos
  | cons byte bytes ih =>
    have hbyte := byte.toNat_lt
    rw [ofLittle, List.length_cons, pow_succ]
    omega

theorem ofLittle_toLittle {width value : ℕ} (h : value < 256 ^ width) :
    ofLittle (toLittle width value) = value := by
  induction width generalizing value with
  | zero =>
    rw [pow_zero, Nat.lt_one_iff] at h
    exact h.symm
  | succ width ih =>
    rw [pow_succ, mul_comm] at h
    rw [toLittle, ofLittle, ih (Nat.div_lt_of_lt_mul h), UInt8.toNat_ofNat']
    omega

theorem toLittle_ofLittle (bytes : List UInt8) : toLittle bytes.length (ofLittle bytes) = bytes := by
  induction bytes with
  | nil => rfl
  | cons byte bytes ih =>
    have hbyte := byte.toNat_lt
    have hdiv : (byte.toNat + 256 * ofLittle bytes) / 256 = ofLittle bytes := by omega
    have hmod : UInt8.ofNat (byte.toNat + 256 * ofLittle bytes) = byte := by
      apply UInt8.toNat_inj.mp
      rw [UInt8.toNat_ofNat']
      omega
    rw [List.length_cons, ofLittle, toLittle, hdiv, ih, hmod]

theorem toLittle_of_length {part : List UInt8} {width : ℕ} (h : part.length = width) :
    toLittle width (ofLittle part) = part := by
  rw [← h, toLittle_ofLittle]

/-- The number stored at an offset, of so many bytes. -/
def number (width : ℕ) (bytes : List UInt8) (offset : ℕ) : ℕ :=
  ofLittle ((bytes.drop offset).take width)

theorem number_lt (width : ℕ) (bytes : List UInt8) (offset : ℕ) :
    number width bytes offset < 256 ^ width :=
  (ofLittle_lt _).trans_le (Nat.pow_le_pow_right (by decide) (List.length_take_le _ _))

theorem At.number {bytes part : List UInt8} {offset : ℕ} (h : At bytes offset part) :
    number part.length bytes offset = ofLittle part := by
  obtain ⟨front, rest, rfl, rfl⟩ := h
  rw [ByteParts.number, List.drop_left, List.take_left]

theorem at_toLittle {bytes : List UInt8} {offset width value : ℕ} (hvalue : value < 256 ^ width) :
    At bytes offset (toLittle width value) ↔
      offset + width ≤ bytes.length ∧ number width bytes offset = value := by
  constructor
  · intro h
    have hnumber := h.number
    rw [length_toLittle, ofLittle_toLittle hvalue] at hnumber
    exact ⟨length_toLittle width value ▸ h.le, hnumber⟩
  · rintro ⟨hroom, rfl⟩
    obtain ⟨part, hlength, hat⟩ := exists_at hroom
    have hnumber := hat.number
    rw [hlength] at hnumber
    rwa [hnumber, toLittle_of_length hlength]

end ByteParts
