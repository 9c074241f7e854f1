import Reframe.Lib.Run
import Reframe.Protocol.PackageShape

/-! The scan accepts exactly the well-formed encodings within its limits, and it never panics or
runs out of fuel. -/
namespace Protocol
open WireFormat Run

/-- A stop that the source reports as an error. -/
def Reported (stop : Stop) : Prop := ∃ error, stop = .error error

theorem reported_error (error : PayloadShapeError) : Reported (.error error) := ⟨error, rfl⟩

section

variable {μ : Type*} (schema : Schema μ)

/-- The limit is for a repeated field of this message type. -/
def RepeatedFieldLimit.applies (limit : RepeatedFieldLimit) (descriptor : μ) : Bool :=
  limit.messageFullName = schema.fullName descriptor &&
    (schema.field descriptor limit.fieldNumber).any FieldShape.isList

/-- The elements of the limited field among the records of a message. -/
def tallyOf (descriptor : μ) (records : List Record) (limit : RepeatedFieldLimit) : ℕ :=
  if limit.applies schema descriptor then countOf limit.fieldNumber records else 0

/-- Every message occurrence stays within the limits. -/
def WithinLimits (limits : List RepeatedFieldLimit) (descriptor : μ) (records : List Record) :
    Prop :=
  ∀ other occurrence, Occurs schema descriptor records other occurrence →
    ∀ limit ∈ limits, tallyOf schema other occurrence limit ≤ limit.maximumValues

end

/-! The budget. -/

/-- So many values and messages are taken from the budget. -/
structure Charged (budget left : ValueBudget) (values messages : ℕ) : Prop where
  depth : left.maximumDepth = budget.maximumDepth
  limits : left.repeatedFieldLimits = budget.repeatedFieldLimits
  values : budget.remaining = values + left.remaining
  messages : budget.remainingMessages = messages + left.remainingMessages

theorem Charged.refl (budget : ValueBudget) : Charged budget budget 0 0 :=
  ⟨rfl, rfl, (Nat.zero_add _).symm, (Nat.zero_add _).symm⟩

theorem Charged.trans {budget middle left : ValueBudget} {v v' g g' : ℕ}
    (h : Charged budget middle v g) (h' : Charged middle left v' g') :
    Charged budget left (v + v') (g + g') where
  depth := h'.depth.trans h.depth
  limits := h'.limits.trans h.limits
  values := by rw [h.values, h'.values, Nat.add_assoc]
  messages := by rw [h.messages, h'.messages, Nat.add_assoc]

namespace ValueBudget

theorem consume_sound (budget : ValueBudget) (count : ℕ) :
    Ensures Reported (budget.consume count) fun left =>
      Charged budget left count 0 ∧ left.repeatedCounts = budget.repeatedCounts := by
  unfold consume
  split <;> rename_i hcount
  · exact ⟨⟨rfl, rfl, by simp; omega, by simp⟩, rfl⟩
  · exact reported_error _

theorem consume_complete {budget : ValueBudget} (count : ℕ) (left : ℕ)
    (h : budget.remaining = count + left) :
    budget.consume count = .ok { budget with remaining := left } := by
  rw [consume, if_pos (by omega), h, Nat.add_sub_cancel_left]

theorem consumeMessage_sound (budget : ValueBudget) :
    Ensures Reported budget.consumeMessage fun left =>
      Charged budget left 0 1 ∧ left.repeatedCounts = budget.repeatedCounts := by
  unfold consumeMessage
  split <;> rename_i hcount
  · exact ⟨⟨rfl, rfl, by simp, by simp; omega⟩, rfl⟩
  · exact reported_error _

theorem consumeMessage_complete {budget : ValueBudget} {left : ℕ}
    (h : budget.remainingMessages = 1 + left) :
    budget.consumeMessage = .ok { budget with remainingMessages := left } := by
  rw [consumeMessage, if_pos (by omega), h, Nat.add_sub_cancel_left]

/-- The counters after `count` more elements of a field. -/
def addTally (messageName : String) (fieldNumber count : ℕ) (tally : RepeatedFieldLimit → ℕ)
    (limit : RepeatedFieldLimit) : ℕ :=
  if limit.messageFullName = messageName ∧ limit.fieldNumber = fieldNumber then
    tally limit + count
  else tally limit

/-- What one run over the limits does to the open counters of a message: `done` are those of the
limits already passed. -/
theorem addRepeated_eq (messageName : String) (fieldNumber count : ℕ)
    (tally : RepeatedFieldLimit → ℕ) (before : List ℕ) :
    ∀ (limits : List RepeatedFieldLimit) (done : List ℕ),
      addRepeated messageName fieldNumber before.length count done.length limits
          (before ++ done ++ limits.map tally) =
        if ∀ limit ∈ limits, addTally messageName fieldNumber count tally limit ≤
            limit.maximumValues ∨
            ¬ (limit.messageFullName = messageName ∧ limit.fieldNumber = fieldNumber) then
          .ok (before ++ done ++ limits.map (addTally messageName fieldNumber count tally))
        else .error (.error .repeatedFieldLimit) := by
  intro limits
  induction limits with
  | nil => intro done; simp [addRepeated]
  | cons limit limits ih =>
    intro done
    have hget : (before ++ done ++ (limit :: limits).map tally)[before.length + done.length]? =
        some (tally limit) := by
      rw [List.getElem?_append_right (by simp)]
      simp
    by_cases hmatch : limit.messageFullName = messageName ∧ limit.fieldNumber = fieldNumber
    · have hset : (before ++ done ++ (limit :: limits).map tally).set
          (before.length + done.length) (tally limit + count) =
          before ++ (done ++ [tally limit + count]) ++ limits.map tally := by
        rw [List.set_append_right _ _ (by simp)]
        simp
      have hadd : addTally messageName fieldNumber count tally limit = tally limit + count :=
        if_pos hmatch
      have hnext := ih (done ++ [tally limit + count])
      rw [List.length_append, List.length_singleton] at hnext
      rw [addRepeated, if_neg (by tauto), hget]
      simp only [List.forall_mem_cons, hadd]
      by_cases hmax : limit.maximumValues < tally limit + count
      · rw [if_pos hmax, if_neg]
        rintro ⟨hle | hnot, -⟩
        · omega
        · exact hnot hmatch
      · rw [if_neg hmax, hset, hnext]
        have hle : tally limit + count ≤ limit.maximumValues := by omega
        simp only [hle, true_or, true_and, List.map_cons, hadd, List.append_assoc,
          List.singleton_append]
    · have hadd : addTally messageName fieldNumber count tally limit = tally limit :=
        if_neg hmatch
      have hnext := ih (done ++ [tally limit])
      rw [List.length_append, List.length_singleton] at hnext
      rw [addRepeated, if_pos (by tauto)]
      simp only [List.append_assoc, List.singleton_append, List.map_cons] at hnext ⊢
      rw [hnext]
      simp only [List.forall_mem_cons, hmatch, not_false_eq_true, or_true, true_and, hadd]

theorem consumeRepeated_eq {budget : ValueBudget} {tally : RepeatedFieldLimit → ℕ}
    {before : List ℕ} (messageName : String) (fieldNumber count : ℕ)
    (hcounts : budget.repeatedCounts = before ++ budget.repeatedFieldLimits.map tally) :
    budget.consumeRepeated messageName fieldNumber before.length count =
      if ∀ limit ∈ budget.repeatedFieldLimits,
          addTally messageName fieldNumber count tally limit ≤ limit.maximumValues ∨
            ¬ (limit.messageFullName = messageName ∧ limit.fieldNumber = fieldNumber) then
        .ok { budget with
          repeatedCounts := before ++ budget.repeatedFieldLimits.map
            (addTally messageName fieldNumber count tally) }
      else .error (.error .repeatedFieldLimit) := by
  have hadd := addRepeated_eq messageName fieldNumber count tally before
    budget.repeatedFieldLimits []
  rw [List.append_nil, List.length_nil] at hadd
  rw [consumeRepeated, hcounts, hadd]
  split <;> rfl

end ValueBudget

/-! The wire readers. -/

theorem readVarint_ensures (input : List UInt8) :
    Ensures Reported (readVarint input) fun read =>
      ∃ bytes, input = bytes ++ read.2 ∧ Varint 0 bytes read.1 := by
  unfold readVarint
  cases hread : decodeVarint input with
  | none => exact reported_error _
  | some read => exact readVarint_sound hread

theorem readVarint_eq {bytes : List UInt8} {value : ℕ} (h : Varint 0 bytes value)
    (rest : List UInt8) : readVarint (bytes ++ rest) = .ok (value, rest) := by
  rw [readVarint, decodeVarint, readVarint_complete h]

theorem readKey_ensures (input : List UInt8) :
    Ensures Reported (readKey input) fun read =>
      ∃ bytes, input = bytes ++ read.2.2 ∧ Key bytes read.1 read.2.1 := by
  unfold readKey
  cases hread : decodeKey input with
  | none => exact reported_error _
  | some read => exact decodeKey_sound hread

theorem readKey_eq {bytes : List UInt8} {number : ℕ} {wireType : WireType}
    (h : Key bytes number wireType) (rest : List UInt8) :
    readKey (bytes ++ rest) = .ok (number, wireType, rest) := by
  rw [readKey, decodeKey_complete h]

theorem splitAt_ensures {input : List UInt8} {length : ℕ} (h : length ≤ input.length) :
    Ensures Reported (splitAt input length) fun read =>
      input = read.1 ++ read.2 ∧ read.1.length = length := by
  rw [splitAt, if_pos h]
  exact ⟨(List.take_append_drop length input).symm, List.length_take_of_le h⟩

theorem splitAt_eq (value rest : List UInt8) :
    splitAt (value ++ rest) value.length = .ok (value, rest) := by
  rw [splitAt, if_pos (by simp), List.take_left, List.drop_left]

theorem takeDelimited_ensures (input : List UInt8) :
    Ensures Reported (takeDelimited input) fun read =>
      ∃ bytes, input = bytes ++ read.2 ∧ Delimited read.1 bytes := by
  apply (readVarint_ensures input).bind
  rintro ⟨length, rest⟩ ⟨bytes, rfl, hvarint⟩
  dsimp only
  split <;> rename_i hlength
  · exact reported_error _
  · apply (splitAt_ensures (Nat.not_lt.mp hlength)).mono
    rintro ⟨value, rest'⟩ ⟨rfl, rfl⟩
    exact ⟨bytes ++ value, by simp, bytes, hvarint, rfl⟩

theorem takeDelimited_eq {value bytes : List UInt8} (h : Delimited value bytes)
    (rest : List UInt8) : takeDelimited (bytes ++ rest) = .ok (value, rest) := by
  obtain ⟨length, hvarint, rfl⟩ := h
  rw [takeDelimited, List.append_assoc, readVarint_eq hvarint]
  simp only [bind, Except.bind]
  rw [if_neg (by simp), splitAt_eq]

theorem advance_ensures (input : List UInt8) (length : ℕ) :
    Ensures Reported (advance input length) fun rest =>
      ∃ bytes, input = bytes ++ rest ∧ bytes.length = length := by
  unfold advance
  split <;> rename_i hlength
  · exact reported_error _
  · apply (splitAt_ensures (Nat.not_lt.mp hlength)).bind
    rintro ⟨value, rest⟩ ⟨hinput, hvalue⟩
    exact ⟨value, hinput, hvalue⟩

theorem advance_eq (value rest : List UInt8) :
    advance (value ++ rest) value.length = .ok rest := by
  rw [advance, if_neg (by simp), splitAt_eq]
  rfl

theorem requireWire_ensures (actual expected : WireType) :
    Ensures Reported (requireWire actual expected) fun _ => actual = expected := by
  unfold requireWire
  split <;> rename_i h
  · exact h
  · exact reported_error _

/-! Packed fields. -/

/-- Bytes of a multiple of the width are packed elements of that width. -/
theorem packed_of_length {width : ℕ} {make : List UInt8 → Payload}
    (hmake : ∀ value, value.length = width → (make value).Encodes value) :
    ∀ (count : ℕ) (input : List UInt8), input.length = count * width →
      ∃ elements, Packed elements input ∧ elements.length = count ∧
        ∀ element ∈ elements, ∃ value, element = make value := by
  intro count
  induction count with
  | zero =>
    intro input hinput
    have hnil : input = [] := List.length_eq_zero_iff.mp (by simpa using hinput)
    exact ⟨[], hnil ▸ .nil, rfl, by simp⟩
  | succ count ih =>
    intro input hinput
    rw [Nat.succ_mul] at hinput
    obtain ⟨elements, hpacked, hlength, hmade⟩ := ih (input.drop width) (by simp; omega)
    have htake : (input.take width).length = width := List.length_take_of_le (by omega)
    refine ⟨make (input.take width) :: elements, ?_, by simp [hlength], ?_⟩
    · have hcons := Packed.cons (hmake _ htake) hpacked
      rwa [List.take_append_drop] at hcons
    · intro element hmem
      rcases List.mem_cons.mp hmem with rfl | hmem
      · exact ⟨_, rfl⟩
      · exact hmade element hmem

theorem length_of_packed {width : ℕ} {elements : List Payload} {body : List UInt8}
    (h : Packed elements body)
    (hwidth : ∀ element ∈ elements, ∀ bytes, element.Encodes bytes → bytes.length = width) :
    body.length = elements.length * width := by
  induction h with
  | nil => simp
  | cons hhead _ ih =>
    rw [List.length_append, hwidth _ List.mem_cons_self _ hhead,
      ih fun element hmem => hwidth element (List.mem_cons_of_mem _ hmem), List.length_cons,
      Nat.succ_mul, Nat.add_comm]

theorem scanFixed_ensures (width : ℕ) (make : List UInt8 → Payload) (input : List UInt8)
    (budget : ValueBudget)
    (hmake : ∀ value, value.length = width → (make value).Encodes value) :
    Ensures Reported (scanFixed input width budget) fun scanned =>
      ∃ elements, Packed elements input ∧ (∀ element ∈ elements, ∃ value, element = make value) ∧
        scanned.1 = elements.length ∧ Charged budget scanned.2 elements.length 0 ∧
          scanned.2.repeatedCounts = budget.repeatedCounts := by
  unfold scanFixed
  split <;> rename_i hwidth
  · exact reported_error _
  · apply (budget.consume_sound (input.length / width)).bind
    rintro left ⟨hcharged, hcounts⟩
    obtain ⟨elements, hpacked, hlength, hmade⟩ := packed_of_length hmake (input.length / width) input
      (Nat.div_mul_cancel (Nat.dvd_of_mod_eq_zero (not_not.mp hwidth))).symm
    exact ⟨elements, hpacked, hmade, hlength.symm, hlength ▸ hcharged, hcounts⟩

theorem scanFixed_eq {width : ℕ} (hpos : 0 < width) {elements : List Payload} {body : List UInt8}
    (hpacked : Packed elements body)
    (hwidth : ∀ element ∈ elements, ∀ bytes, element.Encodes bytes → bytes.length = width)
    {budget : ValueBudget} {left : ℕ} (hleft : budget.remaining = elements.length + left) :
    scanFixed body width budget = .ok (elements.length, { budget with remaining := left }) := by
  have hlength := length_of_packed hpacked hwidth
  rw [scanFixed, if_neg (by simp [hlength]), hlength, Nat.mul_div_cancel _ hpos,
    ValueBudget.consume_complete _ _ hleft]
  rfl

theorem scanVarints_ensures (fuel : ℕ) :
    ∀ (input : List UInt8) (count : ℕ) (budget : ValueBudget), input.length < fuel →
      Ensures Reported (scanVarints fuel input count budget) fun scanned =>
        ∃ elements, Packed elements input ∧
          (∀ element ∈ elements, ∃ value, element = .varint value) ∧
          scanned.1 = count + elements.length ∧ Charged budget scanned.2 elements.length 0 ∧
            scanned.2.repeatedCounts = budget.repeatedCounts := by
  induction fuel with
  | zero => intro input count budget hfuel; omega
  | succ fuel ih =>
    intro input count budget hfuel
    cases input with
    | nil => exact ⟨[], .nil, by simp, rfl, .refl budget, rfl⟩
    | cons byte bytes =>
      apply (budget.consume_sound 1).bind
      rintro middle ⟨hcharged, hcounts⟩
      apply (readVarint_ensures (byte :: bytes)).bind
      rintro ⟨value, rest⟩ ⟨read, hinput, hvarint⟩
      have hshorter : rest.length < fuel := by
        have hsum := congrArg List.length hinput
        have := List.length_pos_iff.mpr hvarint.ne_nil
        simp only [List.length_append, List.length_cons] at hsum hfuel
        omega
      apply (ih rest (count + 1) middle hshorter).mono
      rintro ⟨total, left⟩ ⟨elements, hpacked, hvarints, htotal, hcharged', hcounts'⟩
      refine ⟨.varint value :: elements, ?_, ?_, ?_, ?_, hcounts'.trans hcounts⟩
      · rw [hinput]
        exact .cons hvarint hpacked
      · intro element hmem
        rcases List.mem_cons.mp hmem with rfl | hmem
        · exact ⟨value, rfl⟩
        · exact hvarints element hmem
      · simp only [List.length_cons] at htotal ⊢
        omega
      · rw [List.length_cons, Nat.add_comm]
        exact hcharged.trans hcharged'

theorem scanVarints_eq {elements : List Payload} {body : List UInt8}
    (h : Packed elements body) (hvarints : ∀ element ∈ elements, element.wireType = .varint) :
    ∀ (fuel count left : ℕ) (budget : ValueBudget), body.length < fuel →
      budget.remaining = elements.length + left →
        scanVarints fuel body count budget =
          .ok (count + elements.length, { budget with remaining := left }) := by
  induction h with
  | nil =>
    intro fuel count left budget hfuel hleft
    obtain ⟨fuel, rfl⟩ := Nat.exists_eq_succ_of_ne_zero (Nat.ne_of_gt hfuel)
    rw [List.length_nil, Nat.zero_add] at hleft
    rw [scanVarints, ← hleft]
    rfl
  | @cons element elements bytes rest hhead hrest ih =>
    intro fuel count left budget hfuel hleft
    obtain ⟨fuel, rfl⟩ := Nat.exists_eq_succ_of_ne_zero (Nat.ne_of_gt (Nat.zero_lt_of_lt hfuel))
    cases element with
    | varint value =>
      have hvarint : Varint 0 bytes value := hhead
      obtain ⟨byte, tail, rfl⟩ := List.exists_cons_of_ne_nil hvarint.ne_nil
      rw [List.cons_append, scanVarints,
        ValueBudget.consume_complete 1 (elements.length + left) (by
          rw [hleft, List.length_cons]; omega)]
      simp only [bind, Except.bind]
      rw [← List.cons_append, readVarint_eq hvarint]
      simp only
      rw [ih (fun element hmem => hvarints element (List.mem_cons_of_mem _ hmem)) fuel (count + 1)
        left _ (by simp at hfuel; omega) rfl, List.length_cons, Nat.add_assoc,
        Nat.add_comm 1]
    | _ => exact absurd (hvarints _ List.mem_cons_self) (by simp [Payload.wireType])

section

variable {μ : Type*}

theorem scanPacked_ensures {kind : Kind μ} (hkind : kind.isPackable = true) (input : List UInt8)
    (budget : ValueBudget) :
    Ensures Reported (scanPacked kind input budget) fun scanned =>
      ∃ elements, Packed elements input ∧
        (∀ element ∈ elements, kind.scalarType = some element.wireType) ∧
        scanned.1 = elements.length ∧ Charged budget scanned.2 elements.length 0 ∧
          scanned.2.repeatedCounts = budget.repeatedCounts := by
  have hfixed64 := scanFixed_ensures 8 .sixtyFourBit input budget fun _ hvalue => ⟨rfl, hvalue⟩
  have hfixed32 := scanFixed_ensures 4 .thirtyTwoBit input budget fun _ hvalue => ⟨rfl, hvalue⟩
  have hvarints := scanVarints_ensures (input.length + 1) input 0 budget (Nat.lt_succ_self _)
  cases kind with
  | string | bytes | message descriptor => cases hkind
  | double | fixed64 | sfixed64 =>
    apply hfixed64.mono
    rintro scanned ⟨elements, hpacked, hmade, hrest⟩
    refine ⟨elements, hpacked, fun element hmem => ?_, hrest⟩
    obtain ⟨value, rfl⟩ := hmade element hmem
    rfl
  | float | fixed32 | sfixed32 =>
    apply hfixed32.mono
    rintro scanned ⟨elements, hpacked, hmade, hrest⟩
    refine ⟨elements, hpacked, fun element hmem => ?_, hrest⟩
    obtain ⟨value, rfl⟩ := hmade element hmem
    rfl
  | int32 | int64 | uint32 | uint64 | sint32 | sint64 | bool | enum =>
    apply hvarints.mono
    rintro scanned ⟨elements, hpacked, hmade, hcount, hrest⟩
    refine ⟨elements, hpacked, fun element hmem => ?_, by simpa using hcount, hrest⟩
    obtain ⟨value, rfl⟩ := hmade element hmem
    rfl

theorem scanPacked_eq {kind : Kind μ} (hkind : kind.isPackable = true) {elements : List Payload}
    {body : List UInt8} (hpacked : Packed elements body)
    (htypes : ∀ element ∈ elements, kind.scalarType = some element.wireType)
    {budget : ValueBudget} {left : ℕ} (hleft : budget.remaining = elements.length + left) :
    scanPacked kind body budget = .ok (elements.length, { budget with remaining := left }) := by
  have hfixed64 : (∀ element ∈ elements, element.wireType = .sixtyFourBit) →
      scanFixed body 8 budget = .ok (elements.length, { budget with remaining := left }) := by
    intro htype
    apply scanFixed_eq (by decide) hpacked _ hleft
    intro element hmem bytes hencodes
    cases element with
    | sixtyFourBit value => exact hencodes.1 ▸ hencodes.2
    | _ => cases htype _ hmem
  have hfixed32 : (∀ element ∈ elements, element.wireType = .thirtyTwoBit) →
      scanFixed body 4 budget = .ok (elements.length, { budget with remaining := left }) := by
    intro htype
    apply scanFixed_eq (by decide) hpacked _ hleft
    intro element hmem bytes hencodes
    cases element with
    | thirtyTwoBit value => exact hencodes.1 ▸ hencodes.2
    | _ => cases htype _ hmem
  have hvarints : (∀ element ∈ elements, element.wireType = .varint) →
      scanVarints (body.length + 1) body 0 budget =
        .ok (elements.length, { budget with remaining := left }) := by
    intro htype
    have heq := scanVarints_eq hpacked htype (body.length + 1) 0 left budget
      (Nat.lt_succ_self _) hleft
    rwa [Nat.zero_add] at heq
  cases kind with
  | string | bytes | message descriptor => cases hkind
  | double | fixed64 | sfixed64 =>
    exact hfixed64 fun element hmem => (Option.some.inj (htypes element hmem)).symm
  | float | fixed32 | sfixed32 =>
    exact hfixed32 fun element hmem => (Option.some.inj (htypes element hmem)).symm
  | int32 | int64 | uint32 | uint64 | sint32 | sint64 | bool | enum =>
    exact hvarints fun element hmem => (Option.some.inj (htypes element hmem)).symm

/-! Unknown fields. -/

variable {schema : Schema μ}

theorem messagesOf_eq_zero {context : Option μ} {records : List Record} {bytes : List UInt8}
    (h : Encodes schema context records bytes) (hcontext : context = none) :
    messagesOf records = 0 := by
  induction h with
  | nil => rfl
  | scalar | packed | message | group => cases hcontext
  | unknown _ _ _ _ ih => rw [messagesOf, Record.messages, ih hcontext]
  | unknownGroup _ _ _ _ _ ihbody ih =>
    rw [messagesOf, Record.messages, ih hcontext, ihbody rfl]

variable (schema) in
/-- The scan of an unknown group from behind its opening key. -/
def SkippedGroup (number : ℕ) (input : List UInt8) (depth : ℕ) (budget : ValueBudget)
    (scanned : List UInt8 × ValueBudget) : Prop :=
  ∃ records body close, Encodes schema none records body ∧ Key close number .endGroup ∧
    input = body ++ close ++ scanned.1 ∧ Charged budget scanned.2 (valuesOf records) 0 ∧
      scanned.2.repeatedCounts = budget.repeatedCounts ∧
        depth + depthOf records ≤ budget.maximumDepth

variable (schema) in
/-- The scan of an unknown record from behind its key. -/
def Skipped (number : ℕ) (wireType : WireType) (input : List UInt8) (depth : ℕ)
    (budget : ValueBudget) (scanned : List UInt8 × ValueBudget) : Prop :=
  ∃ record body values, input = body ++ scanned.1 ∧
    (∀ context : Option μ, (∀ descriptor ∈ context, schema.field descriptor number = none) →
      Body schema context number wireType record body) ∧
    record.values = 1 + values ∧ record.messages = 0 ∧ record.number = number ∧
      Charged budget scanned.2 values 0 ∧ scanned.2.repeatedCounts = budget.repeatedCounts ∧
        depth + record.depth ≤ budget.maximumDepth

theorem skipped_payload {number depth : ℕ} (payload : Payload) {body rest : List UInt8}
    {budget : ValueBudget} (hbody : payload.Encodes body) (hdepth : depth ≤ budget.maximumDepth) :
    Skipped schema number payload.wireType (body ++ rest) depth budget (rest, budget) :=
  ⟨.unknown number payload, body, 0, rfl,
    fun _ hfield _ _ _ hkey hrest => .unknown hfield hkey hbody hrest, rfl, rfl, rfl, .refl budget,
    rfl, hdepth⟩

theorem skipUnknown_ensures {group : ℕ → List UInt8 → ℕ → ValueBudget → Scan} {number depth : ℕ}
    {input : List UInt8} {budget : ValueBudget} (wireType : WireType)
    (hdepth : depth ≤ budget.maximumDepth)
    (hgroup : Ensures Reported (group number input (depth + 1) budget)
      (SkippedGroup schema number input (depth + 1) budget)) :
    Ensures Reported (skipUnknown group number wireType input depth budget)
      (Skipped schema number wireType input depth budget) := by
  cases wireType with
  | varint =>
    apply (readVarint_ensures input).bind
    rintro ⟨value, rest⟩ ⟨body, rfl, hvarint⟩
    exact skipped_payload (.varint value) hvarint hdepth
  | sixtyFourBit =>
    apply (advance_ensures input 8).bind
    rintro rest ⟨body, rfl, hlength⟩
    exact skipped_payload (.sixtyFourBit body) ⟨rfl, hlength⟩ hdepth
  | lengthDelimited =>
    apply (takeDelimited_ensures input).bind
    rintro ⟨value, rest⟩ ⟨body, rfl, hdelimited⟩
    exact skipped_payload (.lengthDelimited value) hdelimited hdepth
  | thirtyTwoBit =>
    apply (advance_ensures input 4).bind
    rintro rest ⟨body, rfl, hlength⟩
    exact skipped_payload (.thirtyTwoBit body) ⟨rfl, hlength⟩ hdepth
  | endGroup => exact reported_error _
  | startGroup =>
    apply hgroup.mono
    rintro ⟨rest, left⟩ ⟨records, body, close, hencodes, hclose, rfl, hcharged, hcounts, hnested⟩
    refine ⟨.unknownGroup number records, body ++ close, valuesOf records, rfl, ?_, rfl,
      messagesOf_eq_zero hencodes rfl, rfl, hcharged, hcounts, ?_⟩
    · intro context hfield key tail others hkey hrest
      exact .unknownGroup hfield hkey hencodes hclose hrest
    · rw [Record.depth]
      omega

theorem skipFields_ensures {group : ℕ → List UInt8 → ℕ → ValueBudget → Scan}
    {groupNumber depth maximumDepth : ℕ} (hdepth : depth ≤ maximumDepth)
    (hgroup : ∀ number input budget, budget.maximumDepth = maximumDepth →
      Ensures Reported (group number input (depth + 1) budget)
        (SkippedGroup schema number input (depth + 1) budget)) (fuel : ℕ) :
    ∀ (input : List UInt8) (budget : ValueBudget), input.length < fuel →
      budget.maximumDepth = maximumDepth →
        Ensures Reported (skipFields group groupNumber depth fuel input budget)
          (SkippedGroup schema groupNumber input depth budget) := by
  induction fuel with
  | zero => intro input budget hfuel; omega
  | succ fuel ih =>
    intro input budget hfuel hmaximum
    cases input with
    | nil => exact reported_error _
    | cons byte bytes =>
      apply (readKey_ensures (byte :: bytes)).bind
      rintro ⟨number, wireType, input⟩ ⟨key, hinput, hkey⟩
      have hlength : input.length < fuel := by
        have hsum := congrArg List.length hinput
        have := List.length_pos_iff.mpr hkey.ne_nil
        simp only [List.length_append, List.length_cons] at hsum hfuel
        omega
      dsimp only at hinput hkey ⊢
      split_ifs with hend hnumber
      · subst hend hnumber
        refine ⟨[], [], key, .nil, hkey, hinput, .refl budget, rfl, ?_⟩
        rw [depthOf]
        omega
      · exact reported_error _
      · apply (budget.consume_sound 1).bind
        rintro middle ⟨hone, hcounts⟩
        have hmiddle : middle.maximumDepth = maximumDepth := hone.depth.trans hmaximum
        apply (skipUnknown_ensures wireType (by omega) (hgroup number input middle hmiddle)).bind
        rintro ⟨rest, left⟩ ⟨record, body, values, rfl, hbody, hvalues, -, -, hcharged, hcounts',
          hrecord⟩
        have hleft : left.maximumDepth = maximumDepth := hcharged.depth.trans hmiddle
        apply (ih rest left (by simp at hlength ⊢; omega) hleft).mono
        rintro ⟨rest', left'⟩ ⟨records, body', close, hencodes, hclose, rfl, hcharged', hcounts'',
          hrecords⟩
        refine ⟨record :: records, key ++ body ++ body', close, ?_, hclose, ?_, ?_, ?_, ?_⟩
        · exact hbody none (by simp) hkey hencodes
        · rw [hinput]
          simp
        · rw [valuesOf, hvalues]
          exact (hone.trans hcharged).trans hcharged'
        · exact hcounts''.trans (hcounts'.trans hcounts)
        · rw [depthOf]
          omega

theorem skipUnknownGroup_ensures (levels : ℕ) :
    ∀ (number : ℕ) (input : List UInt8) (depth : ℕ) (budget : ValueBudget),
      budget.maximumDepth + 2 ≤ levels + depth → depth ≤ budget.maximumDepth + 1 →
        Ensures Reported (skipUnknownGroup levels number input depth budget)
          (SkippedGroup schema number input depth budget) := by
  induction levels with
  | zero => intro number input depth budget hlevels hdepth; omega
  | succ levels ih =>
    intro number input depth budget hlevels hdepth
    unfold skipUnknownGroup
    split <;> rename_i hnested
    · exact reported_error _
    · apply skipFields_ensures (Nat.not_lt.mp hnested) _ _ input budget (Nat.lt_succ_self _) rfl
      intro number input budget' hmaximum
      exact ih number input (depth + 1) budget' (by omega) (by omega)

/-! Known fields. -/

variable (schema) in
/-- The nested message of a record stays within the limits. -/
def RecordWithin (limits : List RepeatedFieldLimit) (descriptor : μ) (record : Record) : Prop :=
  ∀ number inner field nested, record = .message number inner →
    schema.field descriptor number = some field → field.kind = .message nested →
      WithinLimits schema limits nested inner

theorem withinLimits_iff {limits : List RepeatedFieldLimit} {descriptor : μ}
    {records : List Record} :
    WithinLimits schema limits descriptor records ↔
      (∀ limit ∈ limits, tallyOf schema descriptor records limit ≤ limit.maximumValues) ∧
        ∀ record ∈ records, RecordWithin schema limits descriptor record := by
  constructor
  · intro h
    refine ⟨h descriptor records .here, ?_⟩
    rintro record hmem number inner field nested rfl hfield hkind other occurrence hoccurs
    exact h other occurrence (.inside hmem hfield hkind hoccurs)
  · rintro ⟨hown, hnested⟩ other occurrence hoccurs
    cases hoccurs with
    | here => exact hown
    | inside hmem hfield hkind hinner =>
      exact hnested _ hmem _ _ _ _ rfl hfield hkind other occurrence hinner

theorem tallyOf_cons (descriptor : μ) (record : Record) (records : List Record)
    (limit : RepeatedFieldLimit) :
    tallyOf schema descriptor (record :: records) limit =
      tallyOf schema descriptor [record] limit + tallyOf schema descriptor records limit := by
  unfold tallyOf
  split
  · simp [countOf]
  · rfl

/-- A record whose field is no list counts for no limit. -/
theorem tallyOf_eq_zero {descriptor : μ} {record : Record}
    (hlist : (schema.field descriptor record.number).any FieldShape.isList = false)
    (limit : RepeatedFieldLimit) : tallyOf schema descriptor [record] limit = 0 := by
  unfold tallyOf
  split <;> rename_i happlies
  · simp only [RepeatedFieldLimit.applies, Bool.and_eq_true] at happlies
    have hne : record.number ≠ limit.fieldNumber := by
      intro heq
      rw [← heq, hlist] at happlies
      cases happlies.2
    simp [countOf, hne]
  · rfl

/-- A record counts through its number and its elements only. -/
theorem tallyOf_congr {descriptor : μ} {record other : Record}
    (hnumber : record.number = other.number) (helements : record.elements = other.elements)
    (limit : RepeatedFieldLimit) :
    tallyOf schema descriptor [record] limit = tallyOf schema descriptor [other] limit := by
  simp [tallyOf, countOf, hnumber, helements]

/-- A record of a list field counts for the limits of that field. -/
theorem addTally_eq {descriptor : μ} {record : Record} {field : FieldShape μ}
    (hfield : schema.field descriptor record.number = some field) (hlist : field.isList = true)
    (tally : RepeatedFieldLimit → ℕ) (limit : RepeatedFieldLimit) :
    ValueBudget.addTally (schema.fullName descriptor) record.number record.elements tally limit =
      tally limit + tallyOf schema descriptor [record] limit := by
  unfold ValueBudget.addTally tallyOf RepeatedFieldLimit.applies
  by_cases hnumber : limit.fieldNumber = record.number
  · by_cases hname : limit.messageFullName = schema.fullName descriptor
    · simp [hname, hnumber, hfield, hlist, countOf]
    · simp [hname]
  · simp [hnumber, countOf, Ne.symm hnumber]

/-- A record of a list field is counted, or refused when it exceeds a limit. -/
theorem consumeRepeated_ensures {descriptor : μ} (record : Record) {field : FieldShape μ}
    (hfield : schema.field descriptor record.number = some field) (hlist : field.isList = true)
    {budget : ValueBudget} {before : List ℕ} {tally : RepeatedFieldLimit → ℕ}
    (hcounts : budget.repeatedCounts = before ++ budget.repeatedFieldLimits.map tally)
    (htally : ∀ limit ∈ budget.repeatedFieldLimits, tally limit ≤ limit.maximumValues) :
    Ensures Reported
      (budget.consumeRepeated (schema.fullName descriptor) record.number before.length
        record.elements)
      fun left => Charged budget left 0 0 ∧
        left.repeatedCounts = before ++ budget.repeatedFieldLimits.map
          (fun limit => tally limit + tallyOf schema descriptor [record] limit) ∧
        ∀ limit ∈ budget.repeatedFieldLimits,
          tally limit + tallyOf schema descriptor [record] limit ≤ limit.maximumValues := by
  have hadd : ValueBudget.addTally (schema.fullName descriptor) record.number record.elements
      tally = fun limit => tally limit + tallyOf schema descriptor [record] limit :=
    funext (addTally_eq hfield hlist tally)
  rw [ValueBudget.consumeRepeated_eq _ _ _ hcounts]
  split <;> rename_i hlimits
  · refine ⟨⟨rfl, rfl, (Nat.zero_add _).symm, (Nat.zero_add _).symm⟩, by rw [hadd], ?_⟩
    intro limit hmem
    rw [← congrFun hadd limit]
    rcases hlimits limit hmem with hle | hnot
    · exact hle
    · rw [ValueBudget.addTally, if_neg hnot]
      exact htally limit hmem
  · exact reported_error _

variable (schema) in
/-- The scan of a known record from behind its key: `tally` counts the elements of the limited
fields that the message had before it. -/
def ScannedRecord (policy : UnknownFieldPolicy) (descriptor : μ) (number : ℕ)
    (wireType : WireType) (input : List UInt8) (depth : ℕ) (before : List ℕ)
    (tally : RepeatedFieldLimit → ℕ) (budget : ValueBudget) (record : Record)
    (scanned : List UInt8 × ValueBudget) : Prop :=
  ∃ body values, input = body ++ scanned.1 ∧
    Body schema (some descriptor) number wireType record body ∧
    record.values = 1 + values ∧ Charged budget scanned.2 values record.messages ∧
    depth + record.depth ≤ budget.maximumDepth ∧
    (policy = .reject → record.allKnown = true) ∧
    RecordWithin schema budget.repeatedFieldLimits descriptor record ∧
    scanned.2.repeatedCounts = before ++ budget.repeatedFieldLimits.map
      (fun limit => tally limit + tallyOf schema descriptor [record] limit) ∧
    ∀ limit ∈ budget.repeatedFieldLimits,
      tally limit + tallyOf schema descriptor [record] limit ≤ limit.maximumValues

/-- The end of a message: the end of the input, or the key that closes its group. -/
def Terminated (body input rest : List UInt8) : Option ℕ → Prop
  | none => input = body ∧ rest = []
  | some number => ∃ close, Key close number .endGroup ∧ input = body ++ close ++ rest

variable (schema) in
/-- The scan of a message. -/
def ScannedMessage (policy : UnknownFieldPolicy) (descriptor : μ) (input : List UInt8)
    (depth : ℕ) (endGroup : Option ℕ) (budget : ValueBudget)
    (scanned : List UInt8 × ValueBudget) : Prop :=
  ∃ records body, Encodes schema (some descriptor) records body ∧
    Terminated body input scanned.1 endGroup ∧
    Charged budget scanned.2 (valuesOf records) (messagesOf records) ∧
    scanned.2.repeatedCounts = budget.repeatedCounts ∧
    depth + depthOf records ≤ budget.maximumDepth ∧
    (policy = .reject → allKnownOf records = true) ∧
    WithinLimits schema budget.repeatedFieldLimits descriptor records

variable (schema) in
/-- What the scan of a single record, scalar or message, finds; the counters are untouched. -/
def ScannedValue (policy : UnknownFieldPolicy) (descriptor : μ) (number : ℕ)
    (wireType : WireType) (input : List UInt8) (depth : ℕ) (budget : ValueBudget)
    (scanned : List UInt8 × ValueBudget) : Prop :=
  ∃ record body values, input = body ++ scanned.1 ∧
    Body schema (some descriptor) number wireType record body ∧ record.number = number ∧
    record.elements = 1 ∧ record.values = 1 + values ∧
    Charged budget scanned.2 values record.messages ∧
    depth + record.depth ≤ budget.maximumDepth ∧
    (policy = .reject → record.allKnown = true) ∧
    RecordWithin schema budget.repeatedFieldLimits descriptor record ∧
    scanned.2.repeatedCounts = budget.repeatedCounts

theorem scannedValue_payload {policy : UnknownFieldPolicy} {descriptor : μ} {number depth : ℕ}
    {field : FieldShape μ} (payload : Payload) {wireType : WireType} {body rest : List UInt8}
    {budget : ValueBudget} (hfield : schema.field descriptor number = some field)
    (htype : field.kind.scalarType = some payload.wireType) (hwire : wireType = payload.wireType)
    (hbody : payload.Encodes body) (hdepth : depth ≤ budget.maximumDepth) :
    ScannedValue schema policy descriptor number wireType (body ++ rest) depth budget
      (rest, budget) := by
  subst hwire
  refine ⟨.scalar number payload, body, 0, rfl, ?_, rfl, rfl, rfl, .refl budget, hdepth,
    fun _ => rfl, ?_, rfl⟩
  · intro key tail records hkey hrest
    exact .scalar hfield htype hkey hbody hrest
  · intro _ _ _ _ heq
    cases heq

/-- A nested message, with the bytes between the record's key and the next one. -/
theorem scannedValue_message {policy : UnknownFieldPolicy} {descriptor nested : μ}
    {number depth : ℕ} {wireType : WireType} {field : FieldShape μ} {records : List Record}
    {body rest : List UInt8} {budget middle left : ValueBudget}
    (hfield : schema.field descriptor number = some field)
    (hkind : field.kind = .message nested)
    (hbody : Body schema (some descriptor) number wireType (.message number records) body)
    (hone : Charged budget middle 0 1)
    (hcharged : Charged middle left (valuesOf records) (messagesOf records))
    (hcounts : left.repeatedCounts = budget.repeatedCounts)
    (hdepth : depth + 1 + depthOf records ≤ middle.maximumDepth)
    (hknown : policy = .reject → allKnownOf records = true)
    (hwithin : WithinLimits schema middle.repeatedFieldLimits nested records) :
    ScannedValue schema policy descriptor number wireType (body ++ rest) depth budget
      (rest, left) := by
  refine ⟨.message number records, body, valuesOf records, rfl, hbody, rfl, rfl, rfl, ?_, ?_,
    hknown, ?_, hcounts⟩
  · have htotal := hone.trans hcharged
    rwa [Nat.zero_add] at htotal
  · rw [Record.depth, ← hone.depth]
    omega
  · intro number' inner field' nested' heq hfield' hkind'
    cases heq
    rw [hfield] at hfield'
    cases hfield'
    rw [hkind] at hkind'
    cases hkind'
    rwa [hone.limits] at hwithin

theorem scanScalarOrMessage_ensures {policy : UnknownFieldPolicy} {descriptor : μ}
    {scan : μ → List UInt8 → ℕ → Option ℕ → ValueBudget → Scan} {number depth : ℕ}
    {field : FieldShape μ} {budget : ValueBudget}
    (hfield : schema.field descriptor number = some field) (hdepth : depth ≤ budget.maximumDepth)
    (hscan : ∀ nested input endGroup middle, middle.maximumDepth = budget.maximumDepth →
      Ensures Reported (scan nested input (depth + 1) endGroup middle)
        (ScannedMessage schema policy nested input (depth + 1) endGroup middle))
    (wireType : WireType) (input : List UInt8) :
    Ensures Reported (scanScalarOrMessage scan field number wireType input depth budget)
      (ScannedValue schema policy descriptor number wireType input depth budget) := by
  unfold scanScalarOrMessage
  cases hkind : field.kind with
  | message nested =>
    dsimp only
    cases hgroup : field.isGroup with
    | true =>
      simp only [if_true]
      apply (requireWire_ensures wireType .startGroup).bind
      rintro - rfl
      apply (budget.consumeMessage_sound).bind
      rintro middle ⟨hone, hcounts⟩
      apply (hscan nested input (some number) middle hone.depth).mono
      rintro ⟨rest, left⟩ ⟨records, body, hencodes, ⟨close, hclose, rfl⟩, hcharged, hcounts', hnested,
        hknown, hwithin⟩
      refine scannedValue_message hfield hkind ?_ hone hcharged (hcounts'.trans hcounts) hnested
        hknown hwithin
      intro key tail others hkey hrest
      exact .group hfield hkind hgroup hkey hencodes hclose hrest
    | false =>
      simp only [Bool.false_eq_true, if_false]
      apply (requireWire_ensures wireType .lengthDelimited).bind
      rintro - rfl
      apply (budget.consumeMessage_sound).bind
      rintro middle ⟨hone, hcounts⟩
      apply (takeDelimited_ensures input).bind
      rintro ⟨value, rest⟩ ⟨body, rfl, hdelimited⟩
      apply (hscan nested value none middle hone.depth).bind
      rintro ⟨rest', left⟩ ⟨records, body', hencodes, ⟨rfl, -⟩, hcharged, hcounts', hnested, hknown,
        hwithin⟩
      refine scannedValue_message hfield hkind ?_ hone hcharged (hcounts'.trans hcounts) hnested
        hknown hwithin
      intro key tail others hkey hrest
      exact .message hfield hkind hgroup hkey hencodes hdelimited hrest
  | string | bytes =>
    apply (requireWire_ensures wireType .lengthDelimited).bind
    rintro - rfl
    apply (takeDelimited_ensures input).bind
    rintro ⟨value, rest⟩ ⟨body, rfl, hdelimited⟩
    exact scannedValue_payload (.lengthDelimited value) hfield (by rw [hkind]; rfl) rfl hdelimited
      hdepth
  | double | fixed64 | sfixed64 =>
    apply (requireWire_ensures wireType .sixtyFourBit).bind
    rintro - rfl
    apply (advance_ensures input 8).bind
    rintro rest ⟨body, rfl, hlength⟩
    exact scannedValue_payload (.sixtyFourBit body) hfield (by rw [hkind]; rfl) rfl ⟨rfl, hlength⟩
      hdepth
  | float | fixed32 | sfixed32 =>
    apply (requireWire_ensures wireType .thirtyTwoBit).bind
    rintro - rfl
    apply (advance_ensures input 4).bind
    rintro rest ⟨body, rfl, hlength⟩
    exact scannedValue_payload (.thirtyTwoBit body) hfield (by rw [hkind]; rfl) rfl ⟨rfl, hlength⟩
      hdepth
  | int32 | int64 | uint32 | uint64 | sint32 | sint64 | bool | enum =>
    apply (requireWire_ensures wireType .varint).bind
    rintro - rfl
    apply (readVarint_ensures input).bind
    rintro ⟨value, rest⟩ ⟨body, rfl, hvarint⟩
    exact scannedValue_payload (.varint value) hfield (by rw [hkind]; rfl) rfl hvarint hdepth

theorem scanField_ensures {policy : UnknownFieldPolicy} {descriptor : μ}
    {scan : μ → List UInt8 → ℕ → Option ℕ → ValueBudget → Scan} {number depth : ℕ}
    {field : FieldShape μ} {budget : ValueBudget} {before : List ℕ}
    {tally : RepeatedFieldLimit → ℕ}
    (hfield : schema.field descriptor number = some field) (hdepth : depth ≤ budget.maximumDepth)
    (hcounts : budget.repeatedCounts = before ++ budget.repeatedFieldLimits.map tally)
    (htally : ∀ limit ∈ budget.repeatedFieldLimits, tally limit ≤ limit.maximumValues)
    (hscan : ∀ nested input endGroup middle, middle.maximumDepth = budget.maximumDepth →
      Ensures Reported (scan nested input (depth + 1) endGroup middle)
        (ScannedMessage schema policy nested input (depth + 1) endGroup middle))
    (wireType : WireType) (input : List UInt8) :
    Ensures Reported
      (scanField scan field number wireType input depth (schema.fullName descriptor) before.length
        budget)
      fun scanned => ∃ record, ScannedRecord schema policy descriptor number wireType input depth
        before tally budget record scanned := by
  unfold scanField
  split_ifs with hpacked hlist
  · simp only [Bool.and_eq_true, decide_eq_true_eq] at hpacked
    obtain ⟨⟨hlist, rfl⟩, hpackable⟩ := hpacked
    apply (takeDelimited_ensures input).bind
    rintro ⟨value, rest⟩ ⟨body, rfl, hdelimited⟩
    apply (scanPacked_ensures hpackable value budget).bind
    rintro ⟨count, middle⟩ ⟨elements, helements, htypes, rfl, hcharged, hmiddle⟩
    have hmiddle' : middle.repeatedCounts = before ++ middle.repeatedFieldLimits.map tally := by
      rw [hmiddle, hcounts, hcharged.limits]
    apply (consumeRepeated_ensures (.packed number elements) hfield hlist hmiddle'
      (by rwa [hcharged.limits])).bind
    rintro left ⟨hzero, hcounted, hlimits⟩
    rw [hcharged.limits] at hcounted hlimits
    refine ⟨.packed number elements, body, elements.length, rfl, ?_, rfl, hcharged.trans hzero,
      hdepth, fun _ => rfl, ?_, hcounted, hlimits⟩
    · intro key tail others hkey hrest
      exact .packed hfield hlist hpackable htypes hkey helements hdelimited hrest
    · intro _ _ _ _ heq
      cases heq
  · -- the element is counted before the record is known: any record of the field will do
    apply (consumeRepeated_ensures (.scalar number (.varint 0)) hfield hlist hcounts htally).bind
    rintro middle ⟨hzero, hcounted, hlimits⟩
    apply (scanScalarOrMessage_ensures hfield (by rwa [hzero.depth]) (by
      intro nested input' endGroup middle' hmiddle
      exact hscan nested input' endGroup middle' (hmiddle.trans hzero.depth)) wireType input).mono
    rintro ⟨rest, left⟩ ⟨record, body, values, rfl, hbody, hnumber, helements, hvalues, hcharged,
      hrecord, hknown, hwithin, hsame⟩
    have hcongr : ∀ limit, tallyOf schema descriptor [.scalar number (.varint 0)] limit =
        tallyOf schema descriptor [record] limit := tallyOf_congr hnumber.symm helements.symm
    simp only [hcongr] at hcounted hlimits
    rw [hzero.depth] at hrecord
    rw [hzero.limits] at hwithin
    have htotal := hzero.trans hcharged
    rw [Nat.zero_add, Nat.zero_add] at htotal
    exact ⟨record, body, values, rfl, hbody, hvalues, htotal, hrecord, hknown, hwithin,
      hsame.trans hcounted, hlimits⟩
  · apply (scanScalarOrMessage_ensures hfield hdepth hscan wireType input).mono
    rintro ⟨rest, left⟩ ⟨record, body, values, rfl, hbody, hnumber, -, hvalues, hcharged, hrecord,
      hknown, hwithin, hsame⟩
    have hzero : ∀ limit, tallyOf schema descriptor [record] limit = 0 :=
      tallyOf_eq_zero (by rw [hnumber, hfield]; simpa using hlist)
    refine ⟨record, body, values, rfl, hbody, hvalues, hcharged, hrecord, hknown, hwithin, ?_, ?_⟩
    · simp only [hzero, Nat.add_zero]
      exact hsame.trans hcounts
    · simpa only [hzero, Nat.add_zero] using htally

variable (schema) in
/-- The loop over the fields of a message, with the counters it has open. -/
def ScannedFields (policy : UnknownFieldPolicy) (descriptor : μ) (input : List UInt8)
    (depth : ℕ) (endGroup : Option ℕ) (before : List ℕ) (tally : RepeatedFieldLimit → ℕ)
    (budget : ValueBudget) (scanned : List UInt8 × ValueBudget) : Prop :=
  ∃ records body, Encodes schema (some descriptor) records body ∧
    Terminated body input scanned.1 endGroup ∧
    Charged budget scanned.2 (valuesOf records) (messagesOf records) ∧
    depth + depthOf records ≤ budget.maximumDepth ∧
    (policy = .reject → allKnownOf records = true) ∧
    (∀ record ∈ records, RecordWithin schema budget.repeatedFieldLimits descriptor record) ∧
    scanned.2.repeatedCounts = before ++ budget.repeatedFieldLimits.map
      (fun limit => tally limit + tallyOf schema descriptor records limit) ∧
    ∀ limit ∈ budget.repeatedFieldLimits,
      tally limit + tallyOf schema descriptor records limit ≤ limit.maximumValues

theorem tallyOf_nil (descriptor : μ) (limit : RepeatedFieldLimit) :
    tallyOf schema descriptor [] limit = 0 := by
  simp [tallyOf, countOf]

theorem Terminated.prepend {body input rest : List UInt8} {endGroup : Option ℕ}
    (h : Terminated body input rest endGroup) (front : List UInt8) :
    Terminated (front ++ body) (front ++ input) rest endGroup := by
  cases endGroup with
  | none => exact ⟨by rw [h.1], h.2⟩
  | some number =>
    obtain ⟨close, hclose, rfl⟩ := h
    exact ⟨close, hclose, by simp⟩

theorem scannedFields_nil {policy : UnknownFieldPolicy} {descriptor : μ} {input rest : List UInt8}
    {depth : ℕ} {endGroup : Option ℕ} {before : List ℕ} {tally : RepeatedFieldLimit → ℕ}
    {budget : ValueBudget} (hend : Terminated [] input rest endGroup)
    (hdepth : depth ≤ budget.maximumDepth)
    (hcounts : budget.repeatedCounts = before ++ budget.repeatedFieldLimits.map tally)
    (htally : ∀ limit ∈ budget.repeatedFieldLimits, tally limit ≤ limit.maximumValues) :
    ScannedFields schema policy descriptor input depth endGroup before tally budget
      (rest, budget) := by
  refine ⟨[], [], .nil, hend, .refl budget, by simpa [depthOf] using hdepth, fun _ => rfl,
    by simp, ?_, ?_⟩
  · simpa only [tallyOf_nil, Nat.add_zero] using hcounts
  · simpa only [tallyOf_nil, Nat.add_zero] using htally

/-- One record in front of the rest of the loop. -/
theorem scannedFields_cons {policy : UnknownFieldPolicy} {descriptor : μ} {number depth : ℕ}
    {wireType : WireType} {key input : List UInt8} {endGroup : Option ℕ} {before : List ℕ}
    {tally : RepeatedFieldLimit → ℕ} {budget middle : ValueBudget}
    {record : Record} {between scanned : List UInt8 × ValueBudget}
    (hkey : Key key number wireType) (hone : Charged budget middle 1 0)
    (hrecord : ScannedRecord schema policy descriptor number wireType input depth before tally
      middle record between)
    (hrest : ScannedFields schema policy descriptor between.1 depth endGroup before
      (fun limit => tally limit + tallyOf schema descriptor [record] limit) between.2 scanned) :
    ScannedFields schema policy descriptor (key ++ input) depth endGroup before tally budget
      scanned := by
  obtain ⟨body, values, rfl, hbody, hvalues, hcharged, hdepth, hknown, hwithin, -, -⟩ := hrecord
  obtain ⟨records, body', hencodes, hend, hcharged', hdepth', hknown', hwithin', hcounts',
    hlimits'⟩ := hrest
  have hsame : between.2.repeatedFieldLimits = budget.repeatedFieldLimits :=
    hcharged.limits.trans hone.limits
  have hmaximum : between.2.maximumDepth = budget.maximumDepth := hcharged.depth.trans hone.depth
  have htotal : ∀ limit, tally limit + tallyOf schema descriptor [record] limit +
      tallyOf schema descriptor records limit =
        tally limit + tallyOf schema descriptor (record :: records) limit := by
    intro limit
    rw [tallyOf_cons descriptor record records, Nat.add_assoc]
  simp only [htotal, hsame] at hcounts' hlimits'
  rw [hsame] at hwithin'
  rw [hone.limits] at hwithin
  refine ⟨record :: records, key ++ body ++ body', hbody hkey hencodes, ?_, ?_, ?_, ?_, ?_,
    hcounts', hlimits'⟩
  · have hfront := hend.prepend (key ++ body)
    simpa using hfront
  · have hsum := (hone.trans hcharged).trans hcharged'
    rwa [valuesOf, messagesOf, hvalues, ← Nat.zero_add record.messages]
  · rw [depthOf]
    rw [hmaximum] at hdepth'
    rw [hone.depth] at hdepth
    omega
  · intro hpolicy
    rw [allKnownOf, hknown hpolicy, hknown' hpolicy]
    rfl
  · intro other hmem
    rcases List.mem_cons.mp hmem with rfl | hmem
    · exact hwithin
    · exact hwithin' other hmem

/-- A skipped record, in a message whose schema does not know its number. -/
theorem scannedRecord_of_skipped {policy : UnknownFieldPolicy} {descriptor : μ} {number depth : ℕ}
    {wireType : WireType} {input : List UInt8} {before : List ℕ} {tally : RepeatedFieldLimit → ℕ}
    {budget : ValueBudget} {scanned : List UInt8 × ValueBudget} (hpolicy : policy ≠ .reject)
    (hfield : schema.field descriptor number = none)
    (hcounts : budget.repeatedCounts = before ++ budget.repeatedFieldLimits.map tally)
    (htally : ∀ limit ∈ budget.repeatedFieldLimits, tally limit ≤ limit.maximumValues)
    (h : Skipped schema number wireType input depth budget scanned) :
    ∃ record, ScannedRecord schema policy descriptor number wireType input depth before tally budget
      record scanned := by
  obtain ⟨record, body, values, hinput, hbody, hvalues, hmessages, hnumber, hcharged, hsame,
    hdepth⟩ := h
  have hzero : ∀ limit, tallyOf schema descriptor [record] limit = 0 :=
    tallyOf_eq_zero (by rw [hnumber, hfield]; rfl)
  refine ⟨record, body, values, hinput, ?_, hvalues, hmessages ▸ hcharged, hdepth,
    fun hreject => absurd hreject hpolicy, ?_, ?_, ?_⟩
  · exact hbody (some descriptor) fun other hother => Option.mem_some.mp hother ▸ hfield
  · rintro number' inner field nested rfl
    rw [Record.messages] at hmessages
    omega
  · simp only [hzero, Nat.add_zero]
    exact hsame.trans hcounts
  · simpa only [hzero, Nat.add_zero] using htally

theorem scanFields_ensures {policy : UnknownFieldPolicy} {descriptor : μ}
    {scan : μ → List UInt8 → ℕ → Option ℕ → ValueBudget → Scan}
    {group : ℕ → List UInt8 → ℕ → ValueBudget → Scan} {depth maximumDepth : ℕ}
    {endGroup : Option ℕ} {before : List ℕ} (hdepth : depth ≤ maximumDepth)
    (hscan : ∀ nested input endGroup budget, budget.maximumDepth = maximumDepth →
      Ensures Reported (scan nested input (depth + 1) endGroup budget)
        (ScannedMessage schema policy nested input (depth + 1) endGroup budget))
    (hgroup : ∀ number input budget, budget.maximumDepth = maximumDepth →
      Ensures Reported (group number input (depth + 1) budget)
        (SkippedGroup schema number input (depth + 1) budget)) (fuel : ℕ) :
    ∀ (input : List UInt8) (budget : ValueBudget) (tally : RepeatedFieldLimit → ℕ),
      input.length < fuel → budget.maximumDepth = maximumDepth →
      budget.repeatedCounts = before ++ budget.repeatedFieldLimits.map tally →
      (∀ limit ∈ budget.repeatedFieldLimits, tally limit ≤ limit.maximumValues) →
        Ensures Reported
          (scanFields schema policy scan group descriptor depth endGroup before.length fuel input
            budget)
          (ScannedFields schema policy descriptor input depth endGroup before tally budget) := by
  induction fuel with
  | zero => intro input budget tally hfuel; omega
  | succ fuel ih =>
    intro input budget tally hfuel hmaximum hcounts htally
    cases input with
    | nil =>
      unfold scanFields
      split <;> rename_i hend
      · exact reported_error _
      · have hnone : endGroup = none := by simpa using hend
        exact scannedFields_nil (hnone ▸ ⟨rfl, rfl⟩) (by omega) hcounts htally
    | cons byte bytes =>
      apply (readKey_ensures (byte :: bytes)).bind
      rintro ⟨number, wireType, input⟩ ⟨key, hinput, hkey⟩
      have hlength : input.length < fuel := by
        have hsum := congrArg List.length hinput
        have := List.length_pos_iff.mpr hkey.ne_nil
        simp only [List.length_append, List.length_cons] at hsum hfuel
        omega
      dsimp only at hinput hkey ⊢
      rw [hinput]
      split_ifs with hend hnumber
      · subst hend hnumber
        exact scannedFields_nil ⟨key, hkey, rfl⟩ (by omega) hcounts htally
      · exact reported_error _
      · apply (budget.consume_sound 1).bind
        rintro middle ⟨hone, hmiddle⟩
        rw [← hone.limits] at hcounts htally
        rw [← hmiddle] at hcounts
        have hmaximum' : middle.maximumDepth = maximumDepth := hone.depth.trans hmaximum
        have hnext : ∀ between : List UInt8 × ValueBudget,
            (∃ record, ScannedRecord schema policy descriptor number wireType input depth before
              tally middle record between) →
            Ensures Reported
              (scanFields schema policy scan group descriptor depth endGroup before.length fuel
                between.1 between.2)
              (ScannedFields schema policy descriptor (key ++ input) depth endGroup before tally
                budget) := by
          rintro between ⟨record, hrecord⟩
          obtain ⟨body, values, hsplit, -, -, hcharged, -, -, -, hcounts', hlimits'⟩ := id hrecord
          have hshort : between.1.length < fuel := by
            rw [hsplit] at hlength
            simp at hlength
            omega
          rw [← hcharged.limits] at hcounts' hlimits'
          apply (ih between.1 between.2 _ hshort (hcharged.depth.trans hmaximum') hcounts'
            hlimits').mono
          intro scanned hrest
          exact scannedFields_cons hkey hone hrecord hrest
        cases hfield : schema.field descriptor number with
        | none =>
          cases policy with
          | reject => exact reported_error _
          | skip =>
            apply (skipUnknown_ensures wireType (by omega) (hgroup number input middle hmaximum')).bind
            intro between hskipped
            exact hnext between
              (scannedRecord_of_skipped (by simp) hfield hcounts htally hskipped)
        | some field =>
          apply (scanField_ensures hfield (by omega) hcounts htally (by
            intro nested input' endGroup' budget' hsame
            exact hscan nested input' endGroup' budget' (hsame.trans hmaximum')) wireType
              input).bind
          exact hnext

/-- A scan with room for the levels below the limit stops with an error or reads a message. -/
theorem scanMessage_ensures (policy : UnknownFieldPolicy) (levels : ℕ) :
    ∀ (descriptor : μ) (input : List UInt8) (depth : ℕ) (endGroup : Option ℕ)
      (budget : ValueBudget), budget.maximumDepth + 2 ≤ levels + depth →
      depth ≤ budget.maximumDepth + 1 →
        Ensures Reported (scanMessage schema policy levels descriptor input depth endGroup budget)
          (ScannedMessage schema policy descriptor input depth endGroup budget) := by
  induction levels with
  | zero => intro descriptor input depth endGroup budget hlevels hdepth; omega
  | succ levels ih =>
    intro descriptor input depth endGroup budget hlevels hdepth
    unfold scanMessage
    split <;> rename_i hnested
    · exact reported_error _
    · have hopen : budget.enterMessage.repeatedCounts =
          budget.repeatedCounts ++ budget.enterMessage.repeatedFieldLimits.map fun _ => 0 := by
        simp [ValueBudget.enterMessage, List.map_const']
      have hscan : ∀ nested input endGroup middle, middle.maximumDepth = budget.maximumDepth →
          Ensures Reported
            (scanMessage schema policy levels nested input (depth + 1) endGroup middle)
            (ScannedMessage schema policy nested input (depth + 1) endGroup middle) :=
        fun nested input endGroup middle hsame => ih nested input (depth + 1) endGroup middle
          (by omega) (by omega)
      have hgroup : ∀ number input middle, middle.maximumDepth = budget.maximumDepth →
          Ensures Reported (skipUnknownGroup levels number input (depth + 1) middle)
            (SkippedGroup schema number input (depth + 1) middle) :=
        fun number input middle hsame => skipUnknownGroup_ensures levels number input (depth + 1)
          middle (by omega) (by omega)
      apply (scanFields_ensures (Nat.not_lt.mp hnested) hscan hgroup (input.length + 1) input
        budget.enterMessage (fun _ => 0) (Nat.lt_succ_self _) rfl hopen
        fun _ _ => Nat.zero_le _).bind
      rintro ⟨rest, left⟩ ⟨records, body, hencodes, hend, hcharged, hdepth', hknown, hwithin, hcounts,
        hlimits⟩
      refine ⟨records, body, hencodes, hend, ?_, ?_, hdepth', hknown, ?_⟩
      · exact ⟨hcharged.depth, hcharged.limits, hcharged.values, hcharged.messages⟩
      · have hcounts' : left.repeatedCounts = budget.repeatedCounts ++ _ := hcounts
        rw [ValueBudget.leaveMessage, hcounts', List.take_left]
      · refine withinLimits_iff.mpr ⟨fun limit hmem => ?_, hwithin⟩
        have := hlimits limit hmem
        omega

/-! Every well-formed encoding within the limits is read. -/

/-- The payload is read from behind its key. -/
theorem skipUnknown_payload {group : ℕ → List UInt8 → ℕ → ValueBudget → Scan} {payload : Payload}
    {body : List UInt8} (h : payload.Encodes body) (number depth : ℕ) (rest : List UInt8)
    (budget : ValueBudget) :
    skipUnknown group number payload.wireType (body ++ rest) depth budget = .ok (rest, budget) := by
  cases payload with
  | varint value =>
    simp only [Payload.wireType, skipUnknown]
    rw [readVarint_eq h]
    rfl
  | sixtyFourBit value =>
    obtain ⟨rfl, hlength⟩ := h
    simp only [Payload.wireType, skipUnknown]
    rw [← hlength, advance_eq]
    rfl
  | lengthDelimited value =>
    simp only [Payload.wireType, skipUnknown]
    rw [takeDelimited_eq h]
    rfl
  | thirtyTwoBit value =>
    obtain ⟨rfl, hlength⟩ := h
    simp only [Payload.wireType, skipUnknown]
    rw [← hlength, advance_eq]
    rfl

theorem scanScalarOrMessage_payload {scan : μ → List UInt8 → ℕ → Option ℕ → ValueBudget → Scan}
    {field : FieldShape μ} {payload : Payload} {body : List UInt8}
    (htype : field.kind.scalarType = some payload.wireType) (h : payload.Encodes body)
    (number depth : ℕ) (rest : List UInt8) (budget : ValueBudget) :
    scanScalarOrMessage scan field number payload.wireType (body ++ rest) depth budget =
      .ok (rest, budget) := by
  have hskip : skipUnknown (fun _ _ _ _ => .error .panic) number payload.wireType (body ++ rest)
      depth budget = .ok (rest, budget) := skipUnknown_payload h number depth rest budget
  unfold scanScalarOrMessage
  cases hkind : field.kind <;> rw [hkind] at htype <;> simp only [Kind.scalarType] at htype
  all_goals try (rw [← Option.some.inj htype] at hskip ⊢; exact hskip)
  cases htype

theorem consumeRepeated_complete {descriptor : μ} (record : Record) {field : FieldShape μ}
    (hfield : schema.field descriptor record.number = some field) (hlist : field.isList = true)
    {budget : ValueBudget} {before : List ℕ} {tally : RepeatedFieldLimit → ℕ}
    (hcounts : budget.repeatedCounts = before ++ budget.repeatedFieldLimits.map tally)
    (hlimits : ∀ limit ∈ budget.repeatedFieldLimits,
      tally limit + tallyOf schema descriptor [record] limit ≤ limit.maximumValues) :
    budget.consumeRepeated (schema.fullName descriptor) record.number before.length
        record.elements =
      .ok { budget with
        repeatedCounts := before ++ budget.repeatedFieldLimits.map
          (fun limit => tally limit + tallyOf schema descriptor [record] limit) } := by
  have hadd : ValueBudget.addTally (schema.fullName descriptor) record.number record.elements
      tally = fun limit => tally limit + tallyOf schema descriptor [record] limit :=
    funext (addTally_eq hfield hlist tally)
  rw [ValueBudget.consumeRepeated_eq _ _ _ hcounts, if_pos, hadd]
  intro limit hmem
  rw [hadd]
  exact .inl (hlimits limit hmem)

/-- A record that is not packed: its element is counted if the field is a list, then read. -/
theorem scanField_complete {descriptor : μ}
    {scan : μ → List UInt8 → ℕ → Option ℕ → ValueBudget → Scan} (record : Record)
    {field : FieldShape μ} {wireType : WireType} {input : List UInt8} {depth : ℕ}
    {budget : ValueBudget} {before : List ℕ} {tally : RepeatedFieldLimit → ℕ} {result : Scan}
    (hfield : schema.field descriptor record.number = some field)
    (helements : record.elements = 1)
    (hpacked : ¬ (wireType = .lengthDelimited ∧ field.kind.isPackable = true))
    (hcounts : budget.repeatedCounts = before ++ budget.repeatedFieldLimits.map tally)
    (hlimits : ∀ limit ∈ budget.repeatedFieldLimits,
      tally limit + tallyOf schema descriptor [record] limit ≤ limit.maximumValues)
    (hvalue : scanScalarOrMessage scan field record.number wireType input depth
      { budget with
        repeatedCounts := before ++ budget.repeatedFieldLimits.map
          (fun limit => tally limit + tallyOf schema descriptor [record] limit) } = result) :
    scanField scan field record.number wireType input depth (schema.fullName descriptor)
      before.length budget = result := by
  unfold scanField
  rw [if_neg (by simpa [and_assoc] using fun _ => not_and.mp hpacked)]
  cases hlist : field.isList with
  | true =>
    have hcount := consumeRepeated_complete record hfield hlist hcounts hlimits
    rw [helements] at hcount
    rw [if_pos rfl, hcount]
    exact hvalue
  | false =>
    have hzero : ∀ limit, tallyOf schema descriptor [record] limit = 0 :=
      tallyOf_eq_zero (by rw [hfield]; simpa using hlist)
    simp only [hzero, Nat.add_zero] at hvalue
    rw [← hcounts] at hvalue
    rw [if_neg (by simp)]
    exact hvalue

theorem scanField_packed {descriptor : μ}
    {scan : μ → List UInt8 → ℕ → Option ℕ → ValueBudget → Scan} {number depth left : ℕ}
    {elements : List Payload} {field : FieldShape μ} {body bytes : List UInt8}
    {budget : ValueBudget} {before : List ℕ} {tally : RepeatedFieldLimit → ℕ}
    (hfield : schema.field descriptor number = some field) (hlist : field.isList = true)
    (hpackable : field.kind.isPackable = true)
    (htypes : ∀ element ∈ elements, field.kind.scalarType = some element.wireType)
    (hbody : Packed elements body) (hbytes : Delimited body bytes)
    (hcounts : budget.repeatedCounts = before ++ budget.repeatedFieldLimits.map tally)
    (hlimits : ∀ limit ∈ budget.repeatedFieldLimits,
      tally limit + tallyOf schema descriptor [.packed number elements] limit ≤
        limit.maximumValues)
    (hleft : budget.remaining = elements.length + left) (rest : List UInt8) :
    scanField scan field number .lengthDelimited (bytes ++ rest) depth
        (schema.fullName descriptor) before.length budget =
      .ok (rest, { budget with
        remaining := left
        repeatedCounts := before ++ budget.repeatedFieldLimits.map (fun limit =>
          tally limit + tallyOf schema descriptor [.packed number elements] limit) }) := by
  have hcount : ValueBudget.consumeRepeated { budget with remaining := left }
      (schema.fullName descriptor) number before.length elements.length = .ok { budget with
        remaining := left
        repeatedCounts := before ++ budget.repeatedFieldLimits.map (fun limit =>
          tally limit + tallyOf schema descriptor [.packed number elements] limit) } :=
    consumeRepeated_complete (.packed number elements) hfield hlist hcounts hlimits
  unfold scanField
  rw [if_pos (by simp [hlist, hpackable]), takeDelimited_eq hbytes]
  simp only [bind, Except.bind]
  rw [scanPacked_eq hpackable hbody htypes hleft]
  dsimp only
  rw [hcount]

/-- One turn of the loop, for a known field. -/
theorem scanFields_known {policy : UnknownFieldPolicy} {descriptor : μ}
    {scan : μ → List UInt8 → ℕ → Option ℕ → ValueBudget → Scan}
    {group : ℕ → List UInt8 → ℕ → ValueBudget → Scan} {number depth base fuel : ℕ} (left : ℕ)
    {endGroup : Option ℕ} {wireType : WireType} {field : FieldShape μ}
    {key input rest : List UInt8} {budget budget' : ValueBudget} (hkey : Key key number wireType)
    (hend : wireType ≠ .endGroup) (hfield : schema.field descriptor number = some field)
    (hleft : budget.remaining = 1 + left)
    (hscan : scanField scan field number wireType input depth (schema.fullName descriptor) base
      { budget with remaining := left } = .ok (rest, budget')) :
    scanFields schema policy scan group descriptor depth endGroup base (fuel + 1) (key ++ input)
        budget =
      scanFields schema policy scan group descriptor depth endGroup base fuel rest budget' := by
  obtain ⟨byte, tail, hcons⟩ := List.exists_cons_of_ne_nil hkey.ne_nil
  have hread := readKey_eq hkey input
  rw [hcons, List.cons_append] at hread ⊢
  rw [scanFields, hread]
  simp only [bind, Except.bind]
  rw [if_neg hend, ValueBudget.consume_complete 1 left hleft, hfield]
  dsimp only
  rw [hscan]

/-- One turn of the loop, for an unknown field. -/
theorem scanFields_unknown {descriptor : μ}
    {scan : μ → List UInt8 → ℕ → Option ℕ → ValueBudget → Scan}
    {group : ℕ → List UInt8 → ℕ → ValueBudget → Scan} {number depth base fuel : ℕ} (left : ℕ)
    {endGroup : Option ℕ} {wireType : WireType} {key input rest : List UInt8}
    {budget budget' : ValueBudget} (hkey : Key key number wireType)
    (hend : wireType ≠ .endGroup) (hfield : schema.field descriptor number = none)
    (hleft : budget.remaining = 1 + left)
    (hskip : skipUnknown group number wireType input depth { budget with remaining := left } =
      .ok (rest, budget')) :
    scanFields schema .skip scan group descriptor depth endGroup base (fuel + 1) (key ++ input)
        budget =
      scanFields schema .skip scan group descriptor depth endGroup base fuel rest budget' := by
  obtain ⟨byte, tail, hcons⟩ := List.exists_cons_of_ne_nil hkey.ne_nil
  have hread := readKey_eq hkey input
  rw [hcons, List.cons_append] at hread ⊢
  rw [scanFields, hread]
  simp only [bind, Except.bind]
  rw [if_neg hend, ValueBudget.consume_complete 1 left hleft, hfield]
  dsimp only
  rw [hskip]

/-- One turn of the loop in an unknown group. -/
theorem skipFields_step {group : ℕ → List UInt8 → ℕ → ValueBudget → Scan}
    {groupNumber number depth fuel left : ℕ} {wireType : WireType} {key input rest : List UInt8}
    {budget budget' : ValueBudget} (hkey : Key key number wireType)
    (hend : wireType ≠ .endGroup) (hleft : budget.remaining = 1 + left)
    (hskip : skipUnknown group number wireType input depth { budget with remaining := left } =
      .ok (rest, budget')) :
    skipFields group groupNumber depth (fuel + 1) (key ++ input) budget =
      skipFields group groupNumber depth fuel rest budget' := by
  obtain ⟨byte, tail, hcons⟩ := List.exists_cons_of_ne_nil hkey.ne_nil
  have hread := readKey_eq hkey input
  rw [hcons, List.cons_append] at hread ⊢
  rw [skipFields, hread]
  simp only [bind, Except.bind]
  rw [if_neg hend, ValueBudget.consume_complete 1 left hleft]
  dsimp only
  rw [hskip]

variable (schema) in
/-- The loop over the fields of a message passes over the records, whatever follows them. -/
def ReadsFields (descriptor : μ) (records : List Record) (body : List UInt8) : Prop :=
  ∀ (policy : UnknownFieldPolicy) (levels depth maximumDepth values messages : ℕ)
    (limits : List RepeatedFieldLimit) (before : List ℕ) (tally : RepeatedFieldLimit → ℕ)
    (endGroup : Option ℕ) (tail : List UInt8) (fuel : ℕ),
    depth + depthOf records ≤ maximumDepth → maximumDepth + 1 ≤ levels + depth →
    (policy = .reject → allKnownOf records = true) →
    (∀ record ∈ records, RecordWithin schema limits descriptor record) →
    (∀ limit ∈ limits,
      tally limit + tallyOf schema descriptor records limit ≤ limit.maximumValues) →
    (body ++ tail).length < fuel →
      ∃ fuel', tail.length < fuel' ∧
        scanFields schema policy (scanMessage schema policy levels) (skipUnknownGroup levels)
            descriptor depth endGroup before.length fuel (body ++ tail)
            ⟨maximumDepth, valuesOf records + values, messagesOf records + messages, limits,
              before ++ limits.map tally⟩ =
          scanFields schema policy (scanMessage schema policy levels) (skipUnknownGroup levels)
            descriptor depth endGroup before.length fuel' tail
            ⟨maximumDepth, values, messages, limits, before ++ limits.map
              (fun limit => tally limit + tallyOf schema descriptor records limit)⟩

/-- The loop over an unknown group passes over the records. -/
def SkipsFields (records : List Record) (body : List UInt8) : Prop :=
  ∀ (levels depth groupNumber values : ℕ) (budget : ValueBudget) (tail : List UInt8) (fuel : ℕ),
    depth + depthOf records ≤ budget.maximumDepth → budget.maximumDepth + 1 ≤ levels + depth →
    budget.remaining = valuesOf records + values → (body ++ tail).length < fuel →
      ∃ fuel', tail.length < fuel' ∧
        skipFields (skipUnknownGroup levels) groupNumber depth fuel (body ++ tail) budget =
          skipFields (skipUnknownGroup levels) groupNumber depth fuel' tail
            { budget with remaining := values }

theorem skipFields_close {group : ℕ → List UInt8 → ℕ → ValueBudget → Scan} {number depth fuel : ℕ}
    {close rest : List UInt8} (hclose : Key close number .endGroup)
    (hfuel : (close ++ rest).length < fuel) (budget : ValueBudget) :
    skipFields group number depth fuel (close ++ rest) budget = .ok (rest, budget) := by
  obtain ⟨fuel, rfl⟩ := Nat.exists_eq_succ_of_ne_zero (Nat.ne_of_gt (Nat.zero_lt_of_lt hfuel))
  obtain ⟨byte, tail, hcons⟩ := List.exists_cons_of_ne_nil hclose.ne_nil
  have hread := readKey_eq hclose rest
  rw [hcons, List.cons_append] at hread ⊢
  rw [skipFields, hread]
  simp only [bind, Except.bind, if_true]

theorem SkipsFields.group {records : List Record} {body : List UInt8}
    (h : SkipsFields records body) {levels depth number values : ℕ} {budget : ValueBudget}
    {close : List UInt8} (hclose : Key close number .endGroup)
    (hdepth : depth + depthOf records ≤ budget.maximumDepth)
    (hlevels : budget.maximumDepth + 2 ≤ levels + depth)
    (hvalues : budget.remaining = valuesOf records + values) (rest : List UInt8) :
    skipUnknownGroup levels number (body ++ close ++ rest) depth budget =
      .ok (rest, { budget with remaining := values }) := by
  obtain ⟨levels, rfl⟩ : ∃ n, levels = n + 1 := ⟨levels - 1, by omega⟩
  obtain ⟨fuel, hfuel, heq⟩ := h levels depth number values budget (close ++ rest)
    ((body ++ (close ++ rest)).length + 1) hdepth (by omega) hvalues (Nat.lt_succ_self _)
  rw [skipUnknownGroup, if_neg (by omega), List.append_assoc, heq, skipFields_close hclose hfuel]

theorem scanFields_close {policy : UnknownFieldPolicy} {descriptor : μ}
    {scan : μ → List UInt8 → ℕ → Option ℕ → ValueBudget → Scan}
    {group : ℕ → List UInt8 → ℕ → ValueBudget → Scan} {depth base fuel : ℕ}
    {endGroup : Option ℕ} {input rest : List UInt8} (hend : Terminated [] input rest endGroup)
    (hfuel : input.length < fuel) (budget : ValueBudget) :
    scanFields schema policy scan group descriptor depth endGroup base fuel input budget =
      .ok (rest, budget) := by
  obtain ⟨fuel, rfl⟩ := Nat.exists_eq_succ_of_ne_zero (Nat.ne_of_gt (Nat.zero_lt_of_lt hfuel))
  cases endGroup with
  | none =>
    obtain ⟨rfl, rfl⟩ := hend
    rfl
  | some number =>
    obtain ⟨close, hclose, rfl⟩ := hend
    obtain ⟨byte, tail, hcons⟩ := List.exists_cons_of_ne_nil hclose.ne_nil
    have hread := readKey_eq hclose rest
    rw [List.nil_append]
    rw [hcons, List.cons_append] at hread ⊢
    rw [scanFields, hread]
    simp only [bind, Except.bind, if_true]

/-- A message whose records are passed over is read to its end. -/
theorem ReadsFields.message {descriptor : μ} {records : List Record} {body : List UInt8}
    (h : ReadsFields schema descriptor records body) {policy : UnknownFieldPolicy}
    {levels depth maximumDepth values messages : ℕ} {limits : List RepeatedFieldLimit}
    {counts : List ℕ} {endGroup : Option ℕ} {input rest : List UInt8}
    (hend : Terminated body input rest endGroup)
    (hdepth : depth + depthOf records ≤ maximumDepth) (hlevels : maximumDepth + 2 ≤ levels + depth)
    (hknown : policy = .reject → allKnownOf records = true)
    (hwithin : WithinLimits schema limits descriptor records) :
    scanMessage schema policy levels descriptor input depth endGroup
        ⟨maximumDepth, valuesOf records + values, messagesOf records + messages, limits, counts⟩ =
      .ok (rest, ⟨maximumDepth, values, messages, limits, counts⟩) := by
  obtain ⟨levels, rfl⟩ : ∃ n, levels = n + 1 := ⟨levels - 1, by omega⟩
  obtain ⟨tail, rfl, htail⟩ : ∃ tail, input = body ++ tail ∧ Terminated [] tail rest endGroup := by
    cases endGroup with
    | none => exact ⟨[], by simpa using hend.1, rfl, hend.2⟩
    | some number =>
      obtain ⟨close, hclose, rfl⟩ := hend
      exact ⟨close ++ rest, by simp, close, hclose, rfl⟩
  obtain ⟨hown, hnested⟩ := withinLimits_iff.mp hwithin
  obtain ⟨fuel, hfuel, heq⟩ := h policy levels depth maximumDepth values messages limits counts
    (fun _ => 0) endGroup tail ((body ++ tail).length + 1) hdepth (by omega) hknown hnested
    (by simpa using hown) (Nat.lt_succ_self _)
  rw [scanMessage, if_neg (by dsimp only; omega)]
  have hopen : ValueBudget.enterMessage ⟨maximumDepth, valuesOf records + values,
      messagesOf records + messages, limits, counts⟩ = ⟨maximumDepth, valuesOf records + values,
        messagesOf records + messages, limits, counts ++ limits.map fun _ => 0⟩ := by
    simp [ValueBudget.enterMessage, List.map_const']
  dsimp only
  rw [hopen, heq, scanFields_close htail hfuel]
  simp only [bind, Except.bind, ValueBudget.leaveMessage, List.take_left]

/-- One record in front: its turn of the loop, then the rest. -/
theorem ReadsFields.cons {descriptor : μ} {record : Record} {records : List Record}
    {key bytes rest : List UInt8} {number : ℕ} {wireType : WireType}
    (hkey : Key key number wireType) (hrest : ReadsFields schema descriptor records rest)
    (hturn : ∀ (policy : UnknownFieldPolicy) (levels depth maximumDepth values messages fuel : ℕ)
      (limits : List RepeatedFieldLimit) (before : List ℕ) (tally : RepeatedFieldLimit → ℕ)
      (endGroup : Option ℕ) (tail : List UInt8),
      depth + record.depth ≤ maximumDepth → maximumDepth + 1 ≤ levels + depth →
      (policy = .reject → record.allKnown = true) → RecordWithin schema limits descriptor record →
      (∀ limit ∈ limits,
        tally limit + tallyOf schema descriptor [record] limit ≤ limit.maximumValues) →
        scanFields schema policy (scanMessage schema policy levels) (skipUnknownGroup levels)
            descriptor depth endGroup before.length (fuel + 1) (key ++ (bytes ++ tail))
            ⟨maximumDepth, record.values + values, record.messages + messages, limits,
              before ++ limits.map tally⟩ =
          scanFields schema policy (scanMessage schema policy levels) (skipUnknownGroup levels)
            descriptor depth endGroup before.length fuel tail
            ⟨maximumDepth, values, messages, limits, before ++ limits.map
              (fun limit => tally limit + tallyOf schema descriptor [record] limit)⟩) :
    ReadsFields schema descriptor (record :: records) (key ++ bytes ++ rest) := by
  intro policy levels depth maximumDepth values messages limits before tally endGroup tail fuel
    hdepth hlevels hknown hwithin hlimits hfuel
  rw [depthOf] at hdepth
  have htotal : ∀ limit, tally limit + tallyOf schema descriptor (record :: records) limit =
      tally limit + tallyOf schema descriptor [record] limit +
        tallyOf schema descriptor records limit := by
    intro limit
    rw [tallyOf_cons descriptor record records, Nat.add_assoc]
  simp only [htotal] at hlimits ⊢
  have hpos := List.length_pos_iff.mpr hkey.ne_nil
  obtain ⟨fuel, rfl⟩ : ∃ n, fuel = n + 1 := ⟨fuel - 1, by omega⟩
  have hturn' := hturn policy levels depth maximumDepth (valuesOf records + values)
    (messagesOf records + messages) fuel limits before tally endGroup (rest ++ tail) (by omega)
    hlevels (fun hpolicy => (Bool.and_eq_true_iff.mp (hknown hpolicy)).1)
    (hwithin record List.mem_cons_self) (fun limit hmem => by have := hlimits limit hmem; omega)
  obtain ⟨fuel', hfuel', heq⟩ := hrest policy levels depth maximumDepth values messages limits
    before (fun limit => tally limit + tallyOf schema descriptor [record] limit) endGroup tail fuel
    (by omega) hlevels (fun hpolicy => (Bool.and_eq_true_iff.mp (hknown hpolicy)).2)
    (fun other hmem => hwithin other (List.mem_cons_of_mem _ hmem)) hlimits
    (by simp only [List.length_append] at hfuel ⊢; omega)
  refine ⟨fuel', hfuel', ?_⟩
  rw [valuesOf, messagesOf, Nat.add_assoc, Nat.add_assoc, List.append_assoc, List.append_assoc,
    hturn', heq]

theorem SkipsFields.cons {record : Record} {records : List Record} {key bytes rest : List UInt8}
    {number : ℕ} {wireType : WireType} (hkey : Key key number wireType)
    (hend : wireType ≠ .endGroup) (hrest : SkipsFields records rest)
    (hskip : ∀ (levels depth values : ℕ) (budget : ValueBudget) (tail : List UInt8),
      depth + record.depth ≤ budget.maximumDepth → budget.maximumDepth + 1 ≤ levels + depth →
      1 + budget.remaining = record.values + values →
        skipUnknown (skipUnknownGroup levels) number wireType (bytes ++ tail) depth budget =
          .ok (tail, { budget with remaining := values })) :
    SkipsFields (record :: records) (key ++ bytes ++ rest) := by
  intro levels depth groupNumber values budget tail fuel hdepth hlevels hvalues hfuel
  rw [depthOf] at hdepth
  rw [valuesOf] at hvalues
  have hpos := List.length_pos_iff.mpr hkey.ne_nil
  obtain ⟨fuel, rfl⟩ : ∃ n, fuel = n + 1 := ⟨fuel - 1, by omega⟩
  obtain ⟨left, hleft⟩ : ∃ left, budget.remaining = 1 + left := by
    have hone : 0 < record.values := by
      cases record <;> simp only [Record.values] <;> omega
    exact ⟨budget.remaining - 1, by omega⟩
  have hskip' := hskip levels depth (valuesOf records + values) { budget with remaining := left }
    (rest ++ tail) (by dsimp only; omega) hlevels (by dsimp only; omega)
  obtain ⟨fuel', hfuel', heq⟩ := hrest levels depth groupNumber values
    { budget with remaining := valuesOf records + values } tail fuel (by dsimp only; omega) hlevels
    rfl (by simp only [List.length_append] at hfuel ⊢; omega)
  refine ⟨fuel', hfuel', ?_⟩
  rw [List.append_assoc, List.append_assoc, skipFields_step hkey hend hleft hskip', heq]

/-- An unknown record that is skipped inside an unknown group is skipped in a message too. -/
theorem ReadsFields.cons_unknown {descriptor : μ} {record : Record} {records : List Record}
    {key bytes rest : List UInt8} {number : ℕ} {wireType : WireType}
    (hkey : Key key number wireType) (hend : wireType ≠ .endGroup)
    (hfield : schema.field descriptor number = none) (hnumber : record.number = number)
    (hrest : ReadsFields schema descriptor records rest) (hunknown : record.allKnown = false)
    (hmessages : record.messages = 0)
    (hskip : ∀ (levels depth values : ℕ) (budget : ValueBudget) (tail : List UInt8),
      depth + record.depth ≤ budget.maximumDepth → budget.maximumDepth + 1 ≤ levels + depth →
      1 + budget.remaining = record.values + values →
        skipUnknown (skipUnknownGroup levels) number wireType (bytes ++ tail) depth budget =
          .ok (tail, { budget with remaining := values })) :
    ReadsFields schema descriptor (record :: records) (key ++ bytes ++ rest) := by
  apply ReadsFields.cons hkey hrest
  intro policy levels depth maximumDepth values messages fuel limits before tally endGroup tail
    hdepth hlevels hknown _ _
  have hzero : ∀ limit, tallyOf schema descriptor [record] limit = 0 :=
    tallyOf_eq_zero (by rw [hnumber, hfield]; rfl)
  simp only [hzero, Nat.add_zero, hmessages, Nat.zero_add]
  cases policy with
  | reject => simp [hunknown] at hknown
  | skip =>
    obtain ⟨inner, hinner⟩ : ∃ inner, record.values = 1 + inner := by
      have hone : 0 < record.values := by
        cases record <;> simp only [Record.values] <;> omega
      exact ⟨record.values - 1, by omega⟩
    rw [hinner]
    apply scanFields_unknown (inner + values) hkey hend hfield
    · dsimp only
      omega
    · exact hskip levels depth values ⟨maximumDepth, inner + values, messages, limits, _⟩ tail
        hdepth hlevels (by rw [hinner]; dsimp only; omega)

/-- A nested message in front, read by the scan of its own fields. -/
theorem ReadsFields.cons_message {descriptor nested : μ} {inner records : List Record}
    {key bytes rest : List UInt8} {number : ℕ} {wireType : WireType} {field : FieldShape μ}
    (hkey : Key key number wireType) (hend : wireType ≠ .endGroup)
    (hfield : schema.field descriptor number = some field) (hkind : field.kind = .message nested)
    (hrest : ReadsFields schema descriptor records rest)
    (hvalue : ∀ (policy : UnknownFieldPolicy) (levels depth maximumDepth values messages : ℕ)
      (limits : List RepeatedFieldLimit) (counts : List ℕ) (tail : List UInt8),
      depth + 1 + depthOf inner ≤ maximumDepth → maximumDepth + 1 ≤ levels + depth →
      (policy = .reject → allKnownOf inner = true) → WithinLimits schema limits nested inner →
        scanScalarOrMessage (scanMessage schema policy levels) field number wireType
            (bytes ++ tail) depth
            ⟨maximumDepth, valuesOf inner + values, 1 + messagesOf inner + messages, limits, counts⟩ =
          .ok (tail, ⟨maximumDepth, values, messages, limits, counts⟩)) :
    ReadsFields schema descriptor (.message number inner :: records) (key ++ bytes ++ rest) := by
  apply ReadsFields.cons hkey hrest
  intro policy levels depth maximumDepth values messages fuel limits before tally endGroup tail
    hdepth hlevels hknown hwithin hlimits
  rw [Record.depth] at hdepth
  apply scanFields_known (valuesOf inner + values) hkey hend hfield
  · rw [Record.values, Nat.add_assoc]
  · apply scanField_complete (.message number inner) hfield rfl _ rfl hlimits
    · exact hvalue policy levels depth maximumDepth values messages limits _ tail (by omega) hlevels
        hknown (hwithin number inner field nested rfl hfield hkind)
    · rintro ⟨-, hpackable⟩
      rw [hkind] at hpackable
      cases hpackable

/-- The scan passes over every well-formed encoding within its limits. -/
theorem encodes_reads {context : Option μ} {records : List Record} {bytes : List UInt8}
    (h : Encodes schema context records bytes) :
    (∀ descriptor, context = some descriptor → ReadsFields schema descriptor records bytes) ∧
      (context = none → SkipsFields records bytes) := by
  have hunknown : ∀ {number : ℕ} {payload : Payload} {body : List UInt8}, payload.Encodes body →
      ∀ (levels depth values : ℕ) (budget : ValueBudget) (tail : List UInt8),
      depth + (Record.unknown number payload).depth ≤ budget.maximumDepth →
      budget.maximumDepth + 1 ≤ levels + depth →
      1 + budget.remaining = (Record.unknown number payload).values + values →
        skipUnknown (skipUnknownGroup levels) number payload.wireType (body ++ tail) depth budget =
          .ok (tail, { budget with remaining := values }) := by
    intro number payload body hbody levels depth values budget tail _ _ hvalues
    rw [Record.values] at hvalues
    rw [skipUnknown_payload hbody, show values = budget.remaining by omega]
  have hgroup : ∀ {number : ℕ} {inner : List Record} {body close : List UInt8},
      SkipsFields inner body → Key close number .endGroup →
      ∀ (levels depth values : ℕ) (budget : ValueBudget) (tail : List UInt8),
      depth + (Record.unknownGroup number inner).depth ≤ budget.maximumDepth →
      budget.maximumDepth + 1 ≤ levels + depth →
      1 + budget.remaining = (Record.unknownGroup number inner).values + values →
        skipUnknown (skipUnknownGroup levels) number .startGroup (body ++ close ++ tail) depth
          budget = .ok (tail, { budget with remaining := values }) := by
    intro number inner body close hskips hclose levels depth values budget tail hdepth hlevels
      hvalues
    rw [Record.values] at hvalues
    rw [Record.depth] at hdepth
    exact hskips.group hclose (by omega) (by omega) (by omega) tail
  have hpayload : ∀ payload : Payload, payload.wireType ≠ .endGroup := by
    intro payload
    cases payload <;> simp [Payload.wireType]
  induction h with
  | nil =>
    constructor
    · intro descriptor _ policy levels depth maximumDepth values messages limits before tally
        endGroup tail fuel _ _ _ _ _ hfuel
      exact ⟨fuel, hfuel, by simp [valuesOf, messagesOf, tallyOf_nil]⟩
    · intro _ levels depth groupNumber values budget tail fuel _ _ hvalues hfuel
      rw [valuesOf, Nat.zero_add] at hvalues
      exact ⟨fuel, hfuel, by rw [← hvalues]; rfl⟩
  | @scalar descriptor number field payload records key bytes rest hfield htype hkey hbytes _ ih =>
    refine ⟨?_, fun hcontext => by cases hcontext⟩
    rintro _ ⟨⟩
    apply ReadsFields.cons hkey (ih.1 descriptor rfl)
    intro policy levels depth maximumDepth values messages fuel limits before tally endGroup tail
      _ _ _ _ hlimits
    apply scanFields_known values hkey (hpayload payload) hfield rfl
    apply scanField_complete (.scalar number payload) hfield rfl _ rfl hlimits
    · rw [scanScalarOrMessage_payload htype hbytes]
      simp [Record.messages]
    · rintro ⟨hwire, hpackable⟩
      rw [hwire] at htype
      cases hkind : field.kind <;> rw [hkind] at htype hpackable <;>
        simp [Kind.scalarType, Kind.isPackable] at htype hpackable
  | @packed descriptor number field elements records key body bytes rest hfield hlist hpackable
      htypes hkey hbody hbytes _ ih =>
    refine ⟨?_, fun hcontext => by cases hcontext⟩
    rintro _ ⟨⟩
    apply ReadsFields.cons hkey (ih.1 descriptor rfl)
    intro policy levels depth maximumDepth values messages fuel limits before tally endGroup tail
      _ _ _ _ hlimits
    apply scanFields_known (elements.length + values) hkey (by simp) hfield
    · rw [Record.values, Nat.add_assoc]
    · rw [scanField_packed hfield hlist hpackable htypes hbody hbytes rfl hlimits rfl tail]
      simp [Record.messages]
  | @message descriptor nested number field inner records key body bytes rest hfield hkind hnot
      hkey _ hbytes _ ihbody ih =>
    refine ⟨?_, fun hcontext => by cases hcontext⟩
    rintro _ ⟨⟩
    apply (ih.1 descriptor rfl).cons_message hkey (by simp) hfield hkind
    intro policy levels depth maximumDepth values messages limits counts tail hdepth hlevels hknown
      hwithin
    have hscan : scanMessage schema policy levels nested body (depth + 1) none _ =
        .ok ([], ⟨maximumDepth, values, messages, limits, counts⟩) :=
      (ihbody.1 nested rfl).message ⟨rfl, rfl⟩ hdepth (by omega) hknown hwithin
    rw [scanScalarOrMessage, hkind]
    simp only [hnot, Bool.false_eq_true, if_false, requireWire, if_true, bind, Except.bind]
    rw [ValueBudget.consumeMessage_complete (Nat.add_assoc _ _ _)]
    dsimp only
    rw [takeDelimited_eq hbytes]
    dsimp only
    rw [hscan]
  | @group descriptor nested number field inner records key body close rest hfield hkind his
      hkey _ hclose _ ihbody ih =>
    refine ⟨?_, fun hcontext => by cases hcontext⟩
    rintro _ ⟨⟩
    apply (ih.1 descriptor rfl).cons_message hkey (by simp) hfield hkind
    intro policy levels depth maximumDepth values messages limits counts tail hdepth hlevels hknown
      hwithin
    have hscan : scanMessage schema policy levels nested (body ++ close ++ tail) (depth + 1)
        (some number) _ = .ok (tail, ⟨maximumDepth, values, messages, limits, counts⟩) :=
      (ihbody.1 nested rfl).message ⟨close, hclose, rfl⟩ hdepth (by omega) hknown hwithin
    rw [scanScalarOrMessage, hkind]
    simp only [his, if_true, requireWire, bind, Except.bind]
    rw [ValueBudget.consumeMessage_complete (Nat.add_assoc _ _ _)]
    dsimp only
    rw [hscan]
  | @unknown context number payload records key bytes rest hfield hkey hbytes _ ih =>
    constructor
    · rintro descriptor rfl
      exact (ih.1 descriptor rfl).cons_unknown hkey (hpayload payload) (hfield descriptor rfl) rfl
        rfl rfl (hunknown hbytes)
    · intro hcontext
      exact (ih.2 hcontext).cons hkey (hpayload payload) (hunknown hbytes)
  | @unknownGroup context number inner records key body close rest hfield hkey hbody hclose _
      ihbody ih =>
    constructor
    · rintro descriptor rfl
      apply (ih.1 descriptor rfl).cons_unknown hkey (by simp) (hfield descriptor rfl) rfl rfl
      · exact messagesOf_eq_zero hbody rfl
      · exact hgroup (ihbody.2 rfl) hclose
    · intro hcontext
      exact (ih.2 hcontext).cons hkey (by simp) (hgroup (ihbody.2 rfl) hclose)

end

/-- The records are within all limits of the budget and the policy. -/
structure FitsBudget (limits : ProtobufShapeBudget) (unknownFields : UnknownFieldPolicy)
    (records : List Record) : Prop where
  values : valuesOf records ≤ limits.maximumValues
  messages : messagesOf records ≤ limits.maximumMessages
  depth : depthOf records ≤ limits.maximumDepth
  known : unknownFields = .reject → allKnownOf records = true

theorem scanMessage_root_ensures {μ : Type*} (schema : Schema μ) (descriptor : μ)
    (bytes : List UInt8) (limits : ProtobufShapeBudget) (unknownFields : UnknownFieldPolicy) :
    Ensures Reported
      (scanMessage schema unknownFields (limits.maximumDepth + 2) descriptor bytes 0 none
        (ValueBudget.new limits))
      (ScannedMessage schema unknownFields descriptor bytes 0 none (ValueBudget.new limits)) :=
  scanMessage_ensures unknownFields (limits.maximumDepth + 2) descriptor bytes 0 none
    (ValueBudget.new limits) (Nat.le_refl _) (Nat.zero_le _)

/-- What the scan accepts is a well-formed encoding within its limits. -/
theorem validateMessageShape_sound {μ : Type*} {schema : Schema μ} {descriptor : μ}
    {bytes : List UInt8} {limits : ProtobufShapeBudget} {unknownFields : UnknownFieldPolicy}
    (haccept : validateMessageShape schema descriptor bytes limits unknownFields = .ok ()) :
    ∃ records, Encodes schema (some descriptor) records bytes ∧
      FitsBudget limits unknownFields records ∧
        WithinLimits schema limits.repeatedFieldLimits descriptor records := by
  have hensures := scanMessage_root_ensures schema descriptor bytes limits unknownFields
  obtain ⟨scanned, hscan, -⟩ := bind_eq_ok.mp haccept
  rw [hscan] at hensures
  obtain ⟨records, body, hencodes, ⟨rfl, -⟩, hcharged, -, hdepth, hknown, hwithin⟩ := hensures
  have hvalues : limits.maximumValues = _ := hcharged.values
  have hmessages : limits.maximumMessages = _ := hcharged.messages
  rw [Nat.zero_add] at hdepth
  exact ⟨records, hencodes, ⟨by omega, by omega, hdepth, hknown⟩, hwithin⟩

/-- A well-formed encoding within the limits is accepted. -/
theorem validateMessageShape_complete {μ : Type*} {schema : Schema μ} {descriptor : μ}
    {bytes : List UInt8} {limits : ProtobufShapeBudget} {unknownFields : UnknownFieldPolicy}
    {records : List Record} (hencodes : Encodes schema (some descriptor) records bytes)
    (hfits : FitsBudget limits unknownFields records)
    (hwithin : WithinLimits schema limits.repeatedFieldLimits descriptor records) :
    validateMessageShape schema descriptor bytes limits unknownFields = .ok () := by
  have hscan : scanMessage schema unknownFields (limits.maximumDepth + 2) descriptor bytes 0 none
      ⟨limits.maximumDepth, valuesOf records + (limits.maximumValues - valuesOf records),
        messagesOf records + (limits.maximumMessages - messagesOf records),
        limits.repeatedFieldLimits, []⟩ = .ok ([], _) :=
    ((encodes_reads hencodes).1 descriptor rfl).message ⟨rfl, rfl⟩
      (by rw [Nat.zero_add]; exact hfits.depth) (Nat.le_refl _) hfits.known hwithin
  rw [Nat.add_sub_cancel' hfits.values, Nat.add_sub_cancel' hfits.messages] at hscan
  rw [validateMessageShape, ValueBudget.new, hscan]
  rfl

/-- The scan ends, with an error of its own or by accepting. -/
theorem validateMessageShape_reported {μ : Type*} (schema : Schema μ) (descriptor : μ)
    (bytes : List UInt8) (limits : ProtobufShapeBudget) (unknownFields : UnknownFieldPolicy) :
    Ensures Reported (validateMessageShape schema descriptor bytes limits unknownFields)
      fun _ => True :=
  (scanMessage_root_ensures schema descriptor bytes limits unknownFields).bind fun _ _ => trivial

/-- The scan accepts exactly the well-formed encodings within its limits, the ceilings of repeated
fields in every message occurrence included. It ends on every input within its levels of
recursion, and never with a panic. -/
theorem validateMessageShape_accepts_iff {μ : Type*} (schema : Schema μ) (descriptor : μ)
    (bytes : List UInt8) (limits : ProtobufShapeBudget) (unknownFields : UnknownFieldPolicy) :
    (validateMessageShape schema descriptor bytes limits unknownFields = .ok () ↔
      ∃ records, Encodes schema (some descriptor) records bytes ∧
        FitsBudget limits unknownFields records ∧
          WithinLimits schema limits.repeatedFieldLimits descriptor records) ∧
    validateMessageShape schema descriptor bytes limits unknownFields ≠ .error .panic ∧
    validateMessageShape schema descriptor bytes limits unknownFields ≠ .error .exhausted := by
  refine ⟨⟨validateMessageShape_sound, ?_⟩, ?_⟩
  · rintro ⟨records, hencodes, hfits, hwithin⟩
    exact validateMessageShape_complete hencodes hfits hwithin
  · have hreported := validateMessageShape_reported schema descriptor bytes limits unknownFields
    cases hshape : validateMessageShape schema descriptor bytes limits unknownFields with
    | ok accepted => exact ⟨fun h => (by cases h), fun h => (by cases h)⟩
    | error stop =>
      rw [hshape] at hreported
      obtain ⟨error, rfl⟩ := hreported
      exact ⟨fun h => (by cases h), fun h => (by cases h)⟩

namespace TestVectors

def entryLimit : ProtobufShapeBudget :=
  ⟨32, 4, 8, [⟨CatalogMessage.catalog.fullName, 7, 2⟩]⟩

def threeEmptyEntries : List UInt8 := [0x3a, 0, 0x3a, 0, 0x3a, 0]

theorem threeEmptyEntries_encodes : Encodes catalogSchema (some .catalog)
    [.message 7 [], .message 7 [], .message 7 []] threeEmptyEntries := by
  have hkey : Key [0x3a] 7 .lengthDelimited := ⟨.last (by decide) (by decide), by decide, by decide⟩
  have hempty : Delimited [] [0] := ⟨[0], .last (by decide) (by decide), rfl⟩
  have hone : ∀ {records : List Record} {rest : List UInt8},
      Encodes catalogSchema (some .catalog) records rest →
        Encodes catalogSchema (some .catalog) (.message 7 [] :: records) ([0x3a] ++ [0] ++ rest) :=
    fun hrest => .message rfl rfl rfl
      hkey .nil hempty hrest
  exact hone (hone (hone .nil))

/-- Three entries of a field limited to two are refused, although the encoding is well formed and
within the budgets of values, messages and levels. -/
theorem three_entries_refused :
    ¬ (validateMessageShape catalogSchema .catalog threeEmptyEntries entryLimit .reject = .ok () ↔
      ∃ records, Encodes catalogSchema (some .catalog) records threeEmptyEntries ∧
        FitsBudget entryLimit .reject records) := by
  have hrefused : validateMessageShape catalogSchema .catalog threeEmptyEntries entryLimit .reject =
      .error (.error .repeatedFieldLimit) := by decide +kernel
  intro hiff
  have haccepted := hiff.mpr ⟨_, threeEmptyEntries_encodes, by decide, by decide, by decide,
    fun _ => by decide⟩
  rw [hrefused] at haccepted
  cases haccepted

end TestVectors

end Protocol
