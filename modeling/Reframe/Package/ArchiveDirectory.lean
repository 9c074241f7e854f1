import Reframe.Package.Archive

/-! The archives whose directory passes the check: the directory is four records and nothing else,
one for each required file, and lies where the end record says, directly before it. -/
namespace Package.Archive
open ByteParts
open Run (Stop bind_ok)

/-- A record of the central directory. -/
structure DirectoryRecord where
  attributes : List UInt8
  placement : List UInt8
  name : List UInt8
  extra : List UInt8
  comment : List UInt8
  attributes_length : attributes.length = 24
  placement_length : placement.length = 12
  name_length : name.length < 2 ^ 16
  extra_length : extra.length < 2 ^ 16
  comment_length : comment.length < 2 ^ 16

def DirectoryRecord.encode (record : DirectoryRecord) : List UInt8 :=
  entrySignature ++ (record.attributes ++ (toLittle 2 record.name.length ++
    (toLittle 2 record.extra.length ++ (toLittle 2 record.comment.length ++
      (record.placement ++ (record.name ++ (record.extra ++ record.comment)))))))

/-- The end record of a package. -/
structure EndRecord where
  directorySize : ℕ
  directoryStart : ℕ
  comment : List UInt8
  size_lt : directorySize < 2 ^ 32 - 1
  start_lt : directoryStart < 2 ^ 32 - 1
  comment_length : comment.length < 2 ^ 16

def EndRecord.encode (record : EndRecord) : List UInt8 :=
  endSignature ++ (toLittle 2 0 ++ (toLittle 2 0 ++ (toLittle 2 requiredFiles.length ++
    (toLittle 2 requiredFiles.length ++ (toLittle 4 record.directorySize ++
      (toLittle 4 record.directoryStart ++ (toLittle 2 record.comment.length ++ record.comment)))))))

/-- An end record, whatever its fields say, starts at the offset and ends where the bytes end. -/
def EndsAt (bytes : List UInt8) (offset : ℕ) : Prop :=
  ∃ fields comment : List UInt8, fields.length = 16 ∧ comment.length < 2 ^ 16 ∧
    At bytes offset (endSignature ++ (fields ++ (toLittle 2 comment.length ++ comment))) ∧
    offset + endSize + comment.length = bytes.length

/-- A package archive: what stands before the directory, the directory and the end record. -/
structure Packed (bytes : List UInt8) (front : List UInt8) (records : List DirectoryRecord)
    (ending : EndRecord) : Prop where
  layout : bytes = front ++ (records.flatMap DirectoryRecord.encode ++ ending.encode)
  start : ending.directoryStart = front.length
  size : ending.directorySize = (records.flatMap DirectoryRecord.encode).length
  names : (records.map DirectoryRecord.name).Perm (requiredFiles.map nameBytes)
  last : ∀ offset, EndsAt bytes offset → offset ≤ front.length + ending.directorySize

section

variable {bytes : List UInt8} {offset width position : ℕ}

theorem usizeAdd_ok {left right : ℕ} (h : left + right < 2 ^ 64) :
    usizeAdd left right = .ok (left + right) := if_pos h

theorem checkedAdd_ok {left right : ℕ} (h : left + right < 2 ^ 64) :
    checkedAdd left right = .ok (left + right) := if_pos h

theorem little_ok (hbytes : bytes.length < 2 ^ 63) (hroom : offset + width ≤ bytes.length) :
    little width bytes offset = .ok (number width bytes offset) := by
  obtain ⟨part, hlength, hat⟩ := exists_at hroom
  have hslice : slice bytes offset (offset + width) = some part :=
    slice_eq_some.mpr ⟨hat, by rw [hlength]⟩
  have hnumber := hat.number
  rw [hlength] at hnumber
  rw [little, usizeAdd_ok (by omega)]
  dsimp only [bind, Except.bind]
  rw [hslice, hnumber]

theorem field_ok (hbytes : bytes.length < 2 ^ 63)
    (hroom : offset + position + width ≤ bytes.length) :
    field (little width) bytes offset position =
      .ok (number width bytes (offset + position)) := by
  rw [field, usizeAdd_ok (by omega)]
  exact little_ok hbytes hroom

/-- A field that does not lie inside the bytes is refused. -/
theorem field_refused (hbytes : bytes.length < 2 ^ 63) (hoffset : offset ≤ bytes.length)
    (hsmall : position + width < 2 ^ 16) (hroom : bytes.length < offset + position + width) :
    field (little width) bytes offset position = refuse structureError := by
  have hslice : slice bytes (offset + position) (offset + position + width) = none :=
    slice_eq_none.mpr (by omega)
  rw [field, usizeAdd_ok (by omega)]
  change little width bytes (offset + position) = _
  rw [little, usizeAdd_ok (by omega)]
  dsimp only [bind, Except.bind]
  rw [hslice]

theorem field_cases (hbytes : bytes.length < 2 ^ 63) (hoffset : offset ≤ bytes.length)
    (hsmall : position + width < 2 ^ 16) :
    field (little width) bytes offset position = .ok (number width bytes (offset + position)) ∨
      field (little width) bytes offset position = refuse structureError := by
  by_cases hroom : offset + position + width ≤ bytes.length
  · exact .inl (field_ok hbytes hroom)
  · exact .inr (field_refused hbytes hoffset hsmall (by omega))

theorem signed_cases {signature : List UInt8} (offset : ℕ) (hlength : signature.length = 4)
    (hbytes : bytes.length < 2 ^ 63) (hoffset : offset ≤ bytes.length) :
    (signed signature bytes offset = .ok true ∧ At bytes offset signature) ∨
      (signed signature bytes offset = .ok false ∧ ¬At bytes offset signature) := by
  have hslice : slice bytes offset (offset + 4) = some signature ↔ At bytes offset signature := by
    rw [slice_eq_some, hlength, and_iff_left rfl]
  rw [signed, usizeAdd_ok (by omega)]
  change (Except.ok (decide (slice bytes offset (offset + 4) = some signature)) = _ ∧ _) ∨
    (Except.ok (decide (slice bytes offset (offset + 4) = some signature)) = _ ∧ _)
  by_cases hat : At bytes offset signature
  · exact .inl ⟨by rw [decide_eq_true (hslice.mpr hat)], hat⟩
  · exact .inr ⟨by rw [decide_eq_false (fun h => hat (hslice.mp h))], hat⟩

/-! The end record. -/

theorem EndsAt.le (h : EndsAt bytes offset) : offset + endSize ≤ bytes.length := by
  obtain ⟨fields, comment, -, -, -, hend⟩ := h
  omega

theorem endsAt_iff (hoffset : offset + endSize ≤ bytes.length) : EndsAt bytes offset ↔
    At bytes offset endSignature ∧
      offset + endSize + number 2 bytes (offset + 20) = bytes.length := by
  rw [endSize] at hoffset ⊢
  constructor
  · rintro ⟨fields, comment, hfields, hcomment, hall, hend⟩
    simp only [at_append, hfields] at hall
    obtain ⟨hsignature, -, hlength, -⟩ := hall
    obtain ⟨-, hnumber⟩ := (at_toLittle hcomment).mp hlength
    refine ⟨hsignature, ?_⟩
    rw [show offset + 20 = offset + endSignature.length + 16 from rfl, hnumber]
    exact hend
  · rintro ⟨hsignature, hend⟩
    obtain ⟨fields, hfields, hfieldsAt⟩ : ∃ part, part.length = 16 ∧ At bytes (offset + 4) part :=
      exists_at (by omega)
    obtain ⟨comment, hcomment, hcommentAt⟩ : ∃ comment, comment.length =
        number 2 bytes (offset + 20) ∧ At bytes (offset + 22) comment := exists_at (by omega)
    have hlt : comment.length < 2 ^ 16 := hcomment ▸ number_lt 2 bytes (offset + 20)
    refine ⟨fields, comment, hfields, hlt, ?_, by rw [hcomment]; exact hend⟩
    simp only [at_append, hfields, length_toLittle]
    exact ⟨hsignature, hfieldsAt, (at_toLittle hlt).mpr ⟨by rw [endSignature]; simp; omega, hcomment.symm⟩,
      hcommentAt⟩

theorem endsAt_cases (offset : ℕ) (hbytes : bytes.length < 2 ^ 63)
    (hoffset : offset + endSize ≤ bytes.length) :
    (endsAt bytes offset = .ok true ∧ EndsAt bytes offset) ∨
      (endsAt bytes offset = .ok false ∧ ¬EndsAt bytes offset) := by
  have hroom := hoffset
  rw [endsAt_iff hoffset]
  rw [endSize] at hroom
  have hlt : number 2 bytes (offset + 20) < 2 ^ 16 := number_lt 2 bytes (offset + 20)
  rcases signed_cases offset (rfl : endSignature.length = 4) hbytes (by omega) with
    ⟨hsigned, hat⟩ | ⟨hsigned, hnot⟩
  · have hrun : endsAt bytes offset =
        .ok (offset + endSize + number 2 bytes (offset + 20) = bytes.length) := by
      have hfield : field littleU16 bytes offset 20 = .ok (number 2 bytes (offset + 20)) :=
        field_ok hbytes (by omega)
      have hsize : usizeAdd offset endSize = .ok (offset + endSize) :=
        usizeAdd_ok (by rw [endSize]; omega)
      have hend : usizeAdd (offset + endSize) (number 2 bytes (offset + 20)) =
          .ok (offset + endSize + number 2 bytes (offset + 20)) :=
        usizeAdd_ok (by rw [endSize]; omega)
      simp only [endsAt, hsigned, hfield, hsize, hend, bind, Except.bind, if_true]
    rw [hrun]
    by_cases hend : offset + endSize + number 2 bytes (offset + 20) = bytes.length
    · exact .inl ⟨by rw [decide_eq_true hend], hat, hend⟩
    · exact .inr ⟨by rw [decide_eq_false hend], fun h => hend h.2⟩
  · refine .inr ⟨?_, fun h => hnot h.1⟩
    rw [endsAt, hsigned]
    rfl

theorem scanEndRecord_cases (hbytes : bytes.length < 2 ^ 63) :
    ∀ offsets : List ℕ, (∀ offset ∈ offsets, offset + endSize ≤ bytes.length) →
      ((∃ error, scanEndRecord bytes offsets = refuse error) ∧ ∀ offset ∈ offsets, ¬EndsAt bytes offset) ∨
      ∃ before offset after, offsets = before ++ offset :: after ∧
        (∀ offset ∈ before, ¬EndsAt bytes offset) ∧ EndsAt bytes offset ∧
        scanEndRecord bytes offsets = checkEndRecord bytes offset := by
  intro offsets
  induction offsets with
  | nil => exact fun _ => .inl ⟨⟨_, rfl⟩, fun _ h => (List.not_mem_nil h).elim⟩
  | cons offset offsets ih =>
    intro hroom
    rw [List.forall_mem_cons] at hroom
    rcases endsAt_cases offset hbytes hroom.1 with ⟨hrun, hends⟩ | ⟨hrun, hnot⟩
    · refine .inr ⟨[], offset, offsets, rfl, fun _ h => (List.not_mem_nil h).elim, hends, ?_⟩
      rw [scanEndRecord, hrun]
      rfl
    · have hscan : scanEndRecord bytes (offset :: offsets) = scanEndRecord bytes offsets := by
        rw [scanEndRecord, hrun]
        rfl
      rw [hscan]
      rcases ih hroom.2 with ⟨hfails, hnone⟩ | ⟨before, found, after, rfl, hbefore, hends, hfound⟩
      · exact .inl ⟨hfails, List.forall_mem_cons.mpr ⟨hnot, hnone⟩⟩
      · exact .inr ⟨offset :: before, found, after, rfl, List.forall_mem_cons.mpr ⟨hnot, hbefore⟩,
          hends, hfound⟩

/-- The scan stops at the last end record, if there is one. -/
theorem findEndRecord_cases (hbytes : bytes.length < 2 ^ 63) :
    ((∃ error, findEndRecord bytes = refuse error) ∧ ∀ offset, ¬EndsAt bytes offset) ∨
      ∃ offset, EndsAt bytes offset ∧ (∀ other, EndsAt bytes other → other ≤ offset) ∧
        findEndRecord bytes = checkEndRecord bytes offset := by
  set start := bytes.length - (endSize + maxComment) with hstart
  set stop := bytes.length - (endSize - 1) with hstop
  rw [endSize, maxComment] at hstart
  rw [endSize] at hstop
  have hmem : ∀ offset, offset ∈ (List.range' start (stop - start)).reverse ↔
      start ≤ offset ∧ offset < stop := by
    intro offset
    rw [List.mem_reverse, List.mem_range'_1]
    omega
  have hroom : ∀ offset ∈ (List.range' start (stop - start)).reverse,
      offset + endSize ≤ bytes.length := by
    intro offset hoffset
    have := (hmem offset).mp hoffset
    rw [endSize]
    omega
  have hcandidate : ∀ offset, EndsAt bytes offset →
      offset ∈ (List.range' start (stop - start)).reverse := by
    rintro offset ⟨fields, comment, -, hcomment, -, hend⟩
    rw [hmem]
    rw [endSize] at hend
    omega
  have hsorted : (List.range' start (stop - start)).reverse.Pairwise (· > ·) :=
    List.pairwise_reverse.mpr (List.pairwise_lt_range' ..)
  rcases scanEndRecord_cases hbytes _ hroom with
    ⟨hfails, hnone⟩ | ⟨before, offset, after, hsplit, hbefore, hends, hscan⟩
  · exact .inl ⟨hfails, fun offset hends => hnone offset (hcandidate offset hends) hends⟩
  · refine .inr ⟨offset, hends, fun other hother => ?_, hscan⟩
    have hcandidates := hcandidate other hother
    rw [hsplit] at hsorted hcandidates
    rcases List.mem_append.mp hcandidates with hmember | hmember
    · exact absurd hother (hbefore other hmember)
    · rcases List.mem_cons.mp hmember with rfl | hafter
      · exact le_refl _
      · exact (List.rel_of_pairwise_cons (List.pairwise_append.mp hsorted).2.1 hafter).le

/-- What the fields of an end record say. -/
structure EndFields (bytes : List UInt8) (offset : ℕ) : Prop where
  disk : number 2 bytes (offset + 4) = 0
  directoryDisk : number 2 bytes (offset + 6) = 0
  entries : number 2 bytes (offset + 8) = number 2 bytes (offset + 10)
  count : number 2 bytes (offset + 10) ≠ 2 ^ 16 - 1
  size : number 4 bytes (offset + 12) ≠ 2 ^ 32 - 1
  start : number 4 bytes (offset + 16) ≠ 2 ^ 32 - 1

theorem checkEndRecord_cases (offset : ℕ) (hbytes : bytes.length < 2 ^ 63)
    (hoffset : offset + endSize ≤ bytes.length) :
    (checkEndRecord bytes offset = .ok offset ∧ EndFields bytes offset) ∨
      ((∃ error, checkEndRecord bytes offset = refuse error) ∧ ¬EndFields bytes offset) := by
  rw [endSize] at hoffset
  have hdisk : field littleU16 bytes offset 4 = .ok (number 2 bytes (offset + 4)) :=
    field_ok hbytes (by omega)
  have hdirectoryDisk : field littleU16 bytes offset 6 = .ok (number 2 bytes (offset + 6)) :=
    field_ok hbytes (by omega)
  have honDisk : field littleU16 bytes offset 8 = .ok (number 2 bytes (offset + 8)) :=
    field_ok hbytes (by omega)
  have htotal : field littleU16 bytes offset 10 = .ok (number 2 bytes (offset + 10)) :=
    field_ok hbytes (by omega)
  have hsize : field littleU32 bytes offset 12 = .ok (number 4 bytes (offset + 12)) :=
    field_ok hbytes (by omega)
  have hstart : field littleU32 bytes offset 16 = .ok (number 4 bytes (offset + 16)) :=
    field_ok hbytes (by omega)
  have hzip64 : needsZip64 bytes offset (number 2 bytes (offset + 10)) =
      .ok (number 2 bytes (offset + 10) = 2 ^ 16 - 1 ∨ number 4 bytes (offset + 12) = 2 ^ 32 - 1 ∨
        number 4 bytes (offset + 16) = 2 ^ 32 - 1) := by
    simp only [needsZip64, hsize, hstart, bind, Except.bind]
    split_ifs with hcount hlarge
    · simp only [hcount, true_or, decide_true]
    · simp only [hlarge, true_or, or_true, decide_true]
    · simp only [hcount, hlarge, false_or]
  simp only [checkEndRecord, hdisk, hdirectoryDisk, honDisk, htotal, hzip64, bind, Except.bind,
    decide_eq_true_eq]
  split_ifs with hmulti hlarge
  · refine .inr ⟨⟨_, rfl⟩, fun h => ?_⟩
    rcases hmulti with hne | hne | hne
    · exact hne h.disk
    · exact hne h.directoryDisk
    · exact hne h.entries
  · refine .inr ⟨⟨_, rfl⟩, fun h => ?_⟩
    rcases hlarge with heq | heq | heq
    · exact h.count heq
    · exact h.size heq
    · exact h.start heq
  · push Not at hmulti hlarge
    exact .inl ⟨rfl, hmulti.1, hmulti.2.1, hmulti.2.2, hlarge.1, hlarge.2.1, hlarge.2.2⟩

/-! The records. -/

theorem DirectoryRecord.length_encode (record : DirectoryRecord) : record.encode.length =
    46 + record.name.length + record.extra.length + record.comment.length := by
  simp only [encode, List.length_append, length_toLittle, record.attributes_length,
    record.placement_length, entrySignature, List.length_cons, List.length_nil]
  omega

/-- Where a record stands its fields stand. -/
theorem at_encode {record : DirectoryRecord} : At bytes offset record.encode ↔
    At bytes offset entrySignature ∧ At bytes (offset + 4) record.attributes ∧
      At bytes (offset + 28) (toLittle 2 record.name.length) ∧
      At bytes (offset + 30) (toLittle 2 record.extra.length) ∧
      At bytes (offset + 32) (toLittle 2 record.comment.length) ∧
      At bytes (offset + 34) record.placement ∧ At bytes (offset + 46) record.name ∧
      At bytes (offset + 46 + record.name.length) record.extra ∧
      At bytes (offset + 46 + record.name.length + record.extra.length) record.comment := by
  simp only [DirectoryRecord.encode, at_append, length_toLittle, record.attributes_length,
    record.placement_length]
  rfl

theorem nameBytes_inj : ∀ left ∈ requiredFiles, ∀ right ∈ requiredFiles,
    nameBytes left = nameBytes right → left = right := by decide +kernel

theorem canonicalName_eq_some {rawName : List UInt8} {name : String} :
    canonicalName rawName = some name ↔ name ∈ requiredFiles ∧ nameBytes name = rawName := by
  constructor
  · intro h
    have hsame := List.find?_some (p := fun candidate => decide (nameBytes candidate = rawName)) h
    exact ⟨List.mem_of_find?_eq_some h, of_decide_eq_true hsame⟩
  · rintro ⟨hname, rfl⟩
    cases hfind : canonicalName (nameBytes name) with
    | none => exact absurd (decide_eq_true rfl) (List.find?_eq_none.mp hfind name hname)
    | some found =>
      have hsame := List.find?_some
        (p := fun candidate => decide (nameBytes candidate = nameBytes name)) hfind
      rw [nameBytes_inj found (List.mem_of_find?_eq_some hfind) name hname (of_decide_eq_true hsame)]

/-- A record stands at the offset, inside the directory, and has a name that was not seen. -/
def RecordAt (bytes : List UInt8) (stop offset : ℕ) (names : Finset String)
    (next : ℕ × Finset String) : Prop :=
  ∃ (record : DirectoryRecord) (name : String), At bytes offset record.encode ∧
    next.1 = offset + record.encode.length ∧ next.1 ≤ stop ∧ name ∈ requiredFiles ∧
    nameBytes name = record.name ∧ name ∉ names ∧ next.2 = insert name names

theorem RecordAt.lengths {stop : ℕ} {names : Finset String} {next : ℕ × Finset String}
    (h : RecordAt bytes stop offset names next) : ∃ rawName name, At bytes (offset + 46) rawName ∧
      rawName.length = number 2 bytes (offset + 28) ∧ canonicalName rawName = some name ∧
      name ∉ names ∧ At bytes offset entrySignature ∧ offset + 46 ≤ bytes.length ∧
      next.1 = offset + 46 + number 2 bytes (offset + 28) + number 2 bytes (offset + 30) +
        number 2 bytes (offset + 32) ∧ next.1 ≤ stop ∧ next.2 = insert name names := by
  obtain ⟨record, name, hat, hnext, hle, hrequired, hname, hfresh, hnames⟩ := h
  have hroom := hat.le
  rw [record.length_encode] at hroom hnext
  obtain ⟨hsignature, -, hnameLength, hextra, hcomment, -, hnameAt, -, -⟩ := at_encode.mp hat
  obtain ⟨-, hnameLength⟩ := (at_toLittle record.name_length).mp hnameLength
  obtain ⟨-, hextra⟩ := (at_toLittle record.extra_length).mp hextra
  obtain ⟨-, hcomment⟩ := (at_toLittle record.comment_length).mp hcomment
  refine ⟨record.name, name, hnameAt, hnameLength.symm, canonicalName_eq_some.mpr ⟨hrequired, hname⟩,
    hfresh, hsignature, by omega, by omega, hle, hnames⟩

theorem RecordAt.unique {stop : ℕ} {names : Finset String} {next next' : ℕ × Finset String}
    (h : RecordAt bytes stop offset names next) (h' : RecordAt bytes stop offset names next') :
    next = next' := by
  obtain ⟨rawName, name, hrawName, hlength, hname, -, -, -, hnext, -, hnames⟩ := h.lengths
  obtain ⟨rawName', name', hrawName', hlength', hname', -, -, -, hnext', -, hnames'⟩ := h'.lengths
  rw [hrawName.unique hrawName' (hlength.trans hlength'.symm), hname', Option.some.injEq] at hname
  refine Prod.ext (hnext.trans hnext'.symm) ?_
  rw [hnames, hnames', hname]

/-- A round of the loop reads a record, where one stands, and refuses everything else. -/
theorem directoryEntry_cases {stop : ℕ} (offset : ℕ) (names : Finset String)
    (hbytes : bytes.length < 2 ^ 63) (hstop : stop ≤ bytes.length) (hoffset : offset ≤ stop) :
    (∃ state, directoryEntry bytes stop (offset, names) = .ok state ∧
      RecordAt bytes stop offset names state) ∨
    ((∃ error, directoryEntry bytes stop (offset, names) = refuse error) ∧
      ∀ state, ¬RecordAt bytes stop offset names state) := by
  rw [directoryEntry]
  rcases signed_cases offset (rfl : entrySignature.length = 4) hbytes (by omega) with
    ⟨hsigned, hat⟩ | ⟨hsigned, hnot⟩
  case inr =>
    refine .inr ⟨⟨_, by rw [hsigned]; rfl⟩, fun state h => ?_⟩
    obtain ⟨_, _, -, -, -, -, hsignature, -⟩ := h.lengths
    exact hnot hsignature
  have hname16 : number 2 bytes (offset + 28) < 2 ^ 16 := number_lt 2 bytes _
  have hextra16 : number 2 bytes (offset + 30) < 2 ^ 16 := number_lt 2 bytes _
  have hcomment16 : number 2 bytes (offset + 32) < 2 ^ 16 := number_lt 2 bytes _
  have hnameLength : field littleU16 bytes offset 28 = _ ∨ field littleU16 bytes offset 28 = _ :=
    field_cases hbytes (by omega) (by decide)
  have hextraLength : field littleU16 bytes offset 30 = _ ∨ field littleU16 bytes offset 30 = _ :=
    field_cases hbytes (by omega) (by decide)
  have hcommentLength : field littleU16 bytes offset 32 = _ ∨ field littleU16 bytes offset 32 = _ :=
    field_cases hbytes (by omega) (by decide)
  have hnameStart : checkedAdd offset 46 = .ok (offset + 46) := checkedAdd_ok (by omega)
  have hnameEnd : checkedAdd (offset + 46) (number 2 bytes (offset + 28)) = _ :=
    checkedAdd_ok (by omega)
  have hextraEnd : checkedAdd (offset + 46 + number 2 bytes (offset + 28))
      (number 2 bytes (offset + 30)) = _ := checkedAdd_ok (by omega)
  have hnext : checkedAdd (offset + 46 + number 2 bytes (offset + 28) +
      number 2 bytes (offset + 30)) (number 2 bytes (offset + 32)) = _ := checkedAdd_ok (by omega)
  -- With too few bytes for its fixed part the entry is refused at a field or at its name.
  by_cases hroom : offset + 46 ≤ bytes.length
  case neg =>
    refine .inr ⟨?_, fun state h => ?_⟩
    · have hslice : slice bytes (offset + 46) (offset + 46 + number 2 bytes (offset + 28)) = none :=
        slice_eq_none.mpr (by omega)
      rcases hnameLength with hnameLength | hnameLength
      · rcases hextraLength with hextraLength | hextraLength
        · rcases hcommentLength with hcommentLength | hcommentLength
          · simp only [hsigned, hnameLength, hextraLength, hcommentLength, hnameStart, hnameEnd,
              hslice, bind, Except.bind, if_true]
            exact ⟨_, rfl⟩
          · simp only [hsigned, hnameLength, hextraLength, hcommentLength, bind, Except.bind, if_true]
            exact ⟨_, rfl⟩
        · simp only [hsigned, hnameLength, hextraLength, bind, Except.bind, if_true]
          exact ⟨_, rfl⟩
      · simp only [hsigned, hnameLength, bind, Except.bind, if_true]
        exact ⟨_, rfl⟩
    · obtain ⟨_, _, -, -, -, -, -, hle, -⟩ := h.lengths
      exact hroom hle
  have hnameLength : field littleU16 bytes offset 28 = _ := field_ok hbytes (by omega)
  have hextraLength : field littleU16 bytes offset 30 = _ := field_ok hbytes (by omega)
  have hcommentLength : field littleU16 bytes offset 32 = _ := field_ok hbytes (by omega)
  simp only [hsigned, hnameLength, hextraLength, hcommentLength, hnameStart, hnameEnd, hextraEnd,
    hnext, bind, Except.bind, if_true]
  cases hslice : slice bytes (offset + 46) (offset + 46 + number 2 bytes (offset + 28)) with
  | none =>
    refine .inr ⟨⟨_, rfl⟩, fun state h => ?_⟩
    obtain ⟨rawName, _, hrawName, hlength, -⟩ := h.lengths
    have hsome := slice_eq_some.mpr ⟨hrawName, rfl⟩
    rw [hlength, hslice] at hsome
    cases hsome
  | some rawName =>
    obtain ⟨hrawName, hlength⟩ := slice_eq_some.mp hslice
    have hsame : ∀ state, RecordAt bytes stop offset names state →
        ∃ name, canonicalName rawName = some name ∧ name ∉ names ∧
          offset + 46 + number 2 bytes (offset + 28) + number 2 bytes (offset + 30) +
            number 2 bytes (offset + 32) ≤ stop := by
      intro state h
      obtain ⟨rawName', name, hrawName', hlength', hname, hfresh, -, -, hnext, hle, -⟩ := h.lengths
      rw [hrawName.unique hrawName' (by omega)]
      exact ⟨name, hname, hfresh, hnext ▸ hle⟩
    cases hname : canonicalName rawName with
    | none =>
      simp only [hname]
      refine .inr ⟨⟨_, rfl⟩, fun state h => ?_⟩
      obtain ⟨name, hname', -⟩ := hsame state h
      rw [hname] at hname'
      cases hname'
    | some name =>
      simp only [hname]
      split_ifs with hseen hover
      · refine .inr ⟨⟨_, rfl⟩, fun state h => ?_⟩
        obtain ⟨name', hname', hfresh, -⟩ := hsame state h
        rw [hname, Option.some.injEq] at hname'
        exact hfresh (hname' ▸ hseen)
      · refine .inr ⟨⟨_, rfl⟩, fun state h => ?_⟩
        obtain ⟨_, -, -, hle⟩ := hsame state h
        omega
      · obtain ⟨attributes, hattributes, hattributesAt⟩ : ∃ part, part.length = 24 ∧
            At bytes (offset + 4) part := exists_at (by omega)
        obtain ⟨placement, hplacement, hplacementAt⟩ : ∃ part, part.length = 12 ∧
            At bytes (offset + 34) part := exists_at (by omega)
        obtain ⟨extra, hextra, hextraAt⟩ : ∃ part, part.length = number 2 bytes (offset + 30) ∧
            At bytes (offset + 46 + rawName.length) part := exists_at (by omega)
        obtain ⟨comment, hcomment, hcommentAt⟩ : ∃ part, part.length =
            number 2 bytes (offset + 32) ∧
            At bytes (offset + 46 + rawName.length + extra.length) part := exists_at (by omega)
        have hrawLength : number 2 bytes (offset + 28) = rawName.length := by omega
        have hnameLt : rawName.length < 2 ^ 16 := by omega
        have hextraLt : extra.length < 2 ^ 16 := by omega
        have hcommentLt : comment.length < 2 ^ 16 := by omega
        obtain ⟨hrequired, hbytesName⟩ := canonicalName_eq_some.mp hname
        refine .inl ⟨_, rfl, ⟨attributes, placement, rawName, extra, comment, hattributes, hplacement,
          hnameLt, hextraLt, hcommentLt⟩, name, at_encode.mpr ⟨hat, hattributesAt, ?_, ?_, ?_,
          hplacementAt, hrawName, hextraAt, hcommentAt⟩, ?_, by omega, hrequired, hbytesName,
          hseen, rfl⟩
        · exact (at_toLittle hnameLt).mpr ⟨by omega, hrawLength⟩
        · exact (at_toLittle hextraLt).mpr ⟨by omega, hextra.symm⟩
        · exact (at_toLittle hcommentLt).mpr ⟨by omega, hcomment.symm⟩
        · rw [DirectoryRecord.length_encode]
          simp only
          omega

/-- So many records stand from the offset on, inside the directory, with names of their own that
were not seen; they end at `next`. -/
structure RecordsAt (bytes : List UInt8) (stop offset : ℕ) (names : Finset String)
    (records : List DirectoryRecord) (next : ℕ) : Prop where
  stand : At bytes offset (records.flatMap DirectoryRecord.encode)
  stops : next = offset + (records.flatMap DirectoryRecord.encode).length
  inside : next ≤ stop
  nodup : (records.map DirectoryRecord.name).Nodup
  required : ∀ record ∈ records, ∃ name ∈ requiredFiles, nameBytes name = record.name ∧ name ∉ names

theorem recordsAt_cons {stop next : ℕ} {names : Finset String} {record : DirectoryRecord}
    {records : List DirectoryRecord} : RecordsAt bytes stop offset names (record :: records) next ↔
      ∃ name, At bytes offset record.encode ∧ offset + record.encode.length ≤ stop ∧
        name ∈ requiredFiles ∧ nameBytes name = record.name ∧ name ∉ names ∧
        RecordsAt bytes stop (offset + record.encode.length) (insert name names) records next := by
  constructor
  · rintro ⟨hbytes, hnext, hinside, hnodup, hrequired⟩
    rw [List.flatMap_cons] at hbytes hnext
    rw [List.length_append] at hnext
    rw [List.map_cons, List.nodup_cons] at hnodup
    rw [List.forall_mem_cons] at hrequired
    obtain ⟨name, hname, hsame, hfresh⟩ := hrequired.1
    obtain ⟨hrecord, hrecords⟩ := at_append.mp hbytes
    refine ⟨name, hrecord, by omega, hname, hsame, hfresh, hrecords, by omega, hinside, hnodup.2,
      fun other hother => ?_⟩
    obtain ⟨name', hname', hsame', hfresh'⟩ := hrequired.2 other hother
    refine ⟨name', hname', hsame', ?_⟩
    rw [Finset.mem_insert, not_or]
    refine ⟨?_, hfresh'⟩
    rintro rfl
    exact hnodup.1 (List.mem_map.mpr ⟨other, hother, hsame'.symm.trans hsame⟩)
  · rintro ⟨name, hrecord, -, hname, hsame, hfresh, hbytes, hnext, hinside, hnodup, hrequired⟩
    refine ⟨?_, ?_, hinside, ?_, ?_⟩
    · rw [List.flatMap_cons]
      exact at_append.mpr ⟨hrecord, hbytes⟩
    · rw [List.flatMap_cons, List.length_append]
      omega
    · rw [List.map_cons, List.nodup_cons]
      refine ⟨fun hmem => ?_, hnodup⟩
      obtain ⟨other, hother, hsame'⟩ := List.mem_map.mp hmem
      obtain ⟨name', hname', hbytes', hfresh'⟩ := hrequired other hother
      have heq := nameBytes_inj name' hname' name hname (hbytes'.trans (hsame'.trans hsame.symm))
      exact hfresh' (heq ▸ Finset.mem_insert_self _ _)
    · refine List.forall_mem_cons.mpr ⟨⟨name, hname, hsame, hfresh⟩, fun other hother => ?_⟩
      obtain ⟨name', hname', hsame', hfresh'⟩ := hrequired other hother
      exact ⟨name', hname', hsame', fun h => hfresh' (Finset.mem_insert_of_mem h)⟩

theorem directoryEntries_cases {stop : ℕ} (hbytes : bytes.length < 2 ^ 63)
    (hstop : stop ≤ bytes.length) :
    ∀ (count offset : ℕ) (names : Finset String), offset ≤ stop →
      (∃ next names', directoryEntries bytes stop count (offset, names) = .ok (next, names') ∧
        ∃ records, records.length = count ∧ RecordsAt bytes stop offset names records next) ∨
      (∃ error, directoryEntries bytes stop count (offset, names) = refuse error) := by
  intro count
  induction count with
  | zero =>
    intro offset names hoffset
    refine .inl ⟨offset, names, rfl, [], rfl, at_nil.mpr (hoffset.trans hstop), rfl, hoffset,
      List.nodup_nil, fun _ h => (List.not_mem_nil h).elim⟩
  | succ count ih =>
    intro offset names hoffset
    rcases directoryEntry_cases offset names hbytes hstop hoffset with
      ⟨⟨next, names'⟩, hrun, record, name, hat, hnext, hle, hname, hsame, hfresh, hnames⟩ |
      ⟨⟨error, hrun⟩, -⟩
    · simp only at hnext hle hnames
      subst hnext hnames
      have hstep : directoryEntries bytes stop (count + 1) (offset, names) =
          directoryEntries bytes stop count (offset + record.encode.length, insert name names) := by
        rw [directoryEntries, hrun]
        rfl
      rw [hstep]
      rcases ih _ (insert name names) hle with ⟨next, names', hrest, records, hcount, hrecords⟩ | hrest
      · exact .inl ⟨next, names', hrest, record :: records, by rw [List.length_cons, hcount],
          recordsAt_cons.mpr ⟨name, hat, hle, hname, hsame, hfresh, hrecords⟩⟩
      · exact .inr hrest
    · exact .inr ⟨error, by rw [directoryEntries, hrun]; rfl⟩

theorem directoryEntries_records {stop next : ℕ} (hbytes : bytes.length < 2 ^ 63)
    (hstop : stop ≤ bytes.length) :
    ∀ (records : List DirectoryRecord) (offset : ℕ) (names : Finset String),
      RecordsAt bytes stop offset names records next →
      ∃ names', directoryEntries bytes stop records.length (offset, names) = .ok (next, names') := by
  intro records
  induction records with
  | nil =>
    intro offset names h
    exact ⟨names, by rw [h.stops]; rfl⟩
  | cons record records ih =>
    intro offset names h
    obtain ⟨name, hat, hle, hname, hsame, hfresh, hrest⟩ := recordsAt_cons.mp h
    have hrecord : RecordAt bytes stop offset names
        (offset + record.encode.length, insert name names) :=
      ⟨record, name, hat, rfl, hle, hname, hsame, hfresh, rfl⟩
    rcases directoryEntry_cases offset names hbytes hstop (by omega) with
      ⟨state, hrun, hstate⟩ | ⟨-, hnone⟩
    · rw [hstate.unique hrecord] at hrun
      obtain ⟨names', hrun'⟩ := ih _ _ hrest
      refine ⟨names', ?_⟩
      rw [List.length_cons, directoryEntries, hrun]
      exact hrun'
    · exact absurd hrecord (hnone _)

/-! The layout. -/

variable {front : List UInt8} {records : List DirectoryRecord} {ending : EndRecord}

theorem length_requiredFiles : requiredFiles.length = 4 := by decide

theorem at_ending : At bytes offset ending.encode ↔ At bytes offset endSignature ∧
    At bytes (offset + 4) (toLittle 2 0) ∧ At bytes (offset + 6) (toLittle 2 0) ∧
    At bytes (offset + 8) (toLittle 2 4) ∧ At bytes (offset + 10) (toLittle 2 4) ∧
    At bytes (offset + 12) (toLittle 4 ending.directorySize) ∧
    At bytes (offset + 16) (toLittle 4 ending.directoryStart) ∧
    At bytes (offset + 20) (toLittle 2 ending.comment.length) ∧
    At bytes (offset + 22) ending.comment := by
  simp only [EndRecord.encode, at_append, length_toLittle, length_requiredFiles]
  rfl

theorem EndRecord.length_encode (ending : EndRecord) :
    ending.encode.length = endSize + ending.comment.length := by
  simp only [encode, List.length_append, length_toLittle, endSignature, List.length_cons,
    List.length_nil, endSize]
  omega

/-- What the end record of a package archive says. -/
structure PackedFields (bytes : List UInt8) (stop : ℕ) (ending : EndRecord) : Prop where
  ends : EndsAt bytes stop
  fields : EndFields bytes stop
  count : number 2 bytes (stop + 10) = 4
  size : number 4 bytes (stop + 12) = ending.directorySize
  start : number 4 bytes (stop + 16) = ending.directoryStart

theorem Packed.at_stop (h : Packed bytes front records ending) :
    At bytes front.length (records.flatMap DirectoryRecord.encode) ∧
      At bytes (front.length + ending.directorySize) ending.encode := by
  rw [h.size]
  refine at_append.mp ⟨front, [], ?_, rfl⟩
  rw [List.append_nil]
  exact h.layout

theorem Packed.fields (h : Packed bytes front records ending) :
    PackedFields bytes (front.length + ending.directorySize) ending := by
  obtain ⟨hsignature, hdisk, hdirectoryDisk, honDisk, htotal, hsize, hstart, hlength, -⟩ :=
    at_ending.mp h.at_stop.2
  have hsmall := ending.size_lt
  have hlow := ending.start_lt
  obtain ⟨-, hdisk⟩ := (at_toLittle (by decide)).mp hdisk
  obtain ⟨-, hdirectoryDisk⟩ := (at_toLittle (by decide)).mp hdirectoryDisk
  obtain ⟨-, honDisk⟩ := (at_toLittle (by decide)).mp honDisk
  obtain ⟨-, htotal⟩ := (at_toLittle (by decide)).mp htotal
  obtain ⟨-, hsize⟩ := (at_toLittle (hsmall.trans (by decide))).mp hsize
  obtain ⟨-, hstart⟩ := (at_toLittle (hlow.trans (by decide))).mp hstart
  obtain ⟨-, hlength⟩ := (at_toLittle ending.comment_length).mp hlength
  have hend : front.length + ending.directorySize + ending.encode.length = bytes.length := by
    have hlayout := congrArg List.length h.layout
    rw [List.length_append, List.length_append, ← h.size] at hlayout
    omega
  rw [ending.length_encode] at hend
  refine ⟨(endsAt_iff (by omega)).mpr ⟨hsignature, by rw [hlength]; omega⟩,
    ⟨hdisk, hdirectoryDisk, honDisk.trans htotal.symm, ?_, ?_, ?_⟩, htotal, hsize, hstart⟩
  · rw [htotal]
    decide
  · rw [hsize]
    exact hsmall.ne
  · rw [hstart]
    exact hlow.ne

/-- The records of a package archive are those the loop reads. -/
theorem Packed.recordsAt (h : Packed bytes front records ending) :
    records.length = 4 ∧ RecordsAt bytes (front.length + ending.directorySize) front.length ∅ records
      (front.length + ending.directorySize) := by
  have hlength := h.names.length_eq
  rw [List.length_map, List.length_map, length_requiredFiles] at hlength
  refine ⟨hlength, h.at_stop.1, by rw [h.size], le_refl _, ?_, fun record hrecord => ?_⟩
  · refine h.names.nodup_iff.mpr ?_
    exact List.Nodup.map_on nameBytes_inj (by decide)
  · have hname : record.name ∈ requiredFiles.map nameBytes :=
      h.names.mem_iff.mp (List.mem_map.mpr ⟨record, hrecord, rfl⟩)
    obtain ⟨name, hname, hsame⟩ := List.mem_map.mp hname
    exact ⟨name, hname, hsame, Finset.notMem_empty _⟩

theorem RecordsAt.perm {stop next : ℕ} (h : RecordsAt bytes stop offset ∅ records next)
    (hcount : records.length = 4) :
    (records.map DirectoryRecord.name).Perm (requiredFiles.map nameBytes) := by
  refine (h.nodup.subperm fun rawName hmem => ?_).perm_of_length_le ?_
  · obtain ⟨record, hrecord, rfl⟩ := List.mem_map.mp hmem
    obtain ⟨name, hname, hsame, -⟩ := h.required record hrecord
    exact List.mem_map.mpr ⟨name, hname, hsame⟩
  · rw [List.length_map, List.length_map, hcount, length_requiredFiles]

/-- Records that fill the directory of an end record make a package archive. -/
theorem packed_of_records {stop : ℕ} (hends : EndsAt bytes stop)
    (hlast : ∀ other, EndsAt bytes other → other ≤ stop) (hfields : EndFields bytes stop)
    (hcount : number 2 bytes (stop + 10) = 4)
    (hbounds : number 4 bytes (stop + 16) + number 4 bytes (stop + 12) = stop)
    (hlength : records.length = 4)
    (hrecords : RecordsAt bytes stop (number 4 bytes (stop + 16)) ∅ records stop) :
    ∃ front ending, Packed bytes front records ending := by
  have hroom := hends.le
  rw [endSize] at hroom
  obtain ⟨hsignature, hend⟩ := (endsAt_iff hends.le).mp hends
  rw [endSize] at hend
  have hsizeLt : number 4 bytes (stop + 12) < 2 ^ 32 := number_lt 4 bytes _
  have hstartLt : number 4 bytes (stop + 16) < 2 ^ 32 := number_lt 4 bytes _
  have hlengthLt : number 2 bytes (stop + 20) < 2 ^ 16 := number_lt 2 bytes _
  have hsize := hfields.size
  have hstart := hfields.start
  obtain ⟨comment, hcomment, hcommentAt⟩ : ∃ comment, comment.length = number 2 bytes (stop + 20) ∧
      At bytes (stop + 22) comment := exists_at (by omega)
  have hcommentLt : comment.length < 2 ^ 16 := by omega
  obtain ⟨ending, hending⟩ : ∃ ending : EndRecord, ending.directorySize =
      number 4 bytes (stop + 12) ∧ ending.directoryStart = number 4 bytes (stop + 16) ∧
      ending.comment = comment :=
    ⟨⟨number 4 bytes (stop + 12), number 4 bytes (stop + 16), comment, by omega, by omega,
      hcommentLt⟩, rfl, rfl, rfl⟩
  obtain ⟨hendingSize, hendingStart, rfl⟩ := hending
  have hstands : At bytes stop ending.encode := by
    refine at_ending.mpr ⟨hsignature, ?_, ?_, ?_, ?_, ?_, ?_, ?_, hcommentAt⟩
    · exact (at_toLittle (by decide)).mpr ⟨by omega, hfields.disk⟩
    · exact (at_toLittle (by decide)).mpr ⟨by omega, hfields.directoryDisk⟩
    · exact (at_toLittle (by decide)).mpr ⟨by omega, hfields.entries.trans hcount⟩
    · exact (at_toLittle (by decide)).mpr ⟨by omega, hcount⟩
    · exact (at_toLittle (by omega)).mpr ⟨by omega, hendingSize.symm⟩
    · exact (at_toLittle (by omega)).mpr ⟨by omega, hendingStart.symm⟩
    · exact (at_toLittle hcommentLt).mpr ⟨by omega, hcomment.symm⟩
  have hfilled : (records.flatMap DirectoryRecord.encode).length = number 4 bytes (stop + 12) := by
    have hstops := hrecords.stops
    omega
  have hall : At bytes (number 4 bytes (stop + 16))
      (records.flatMap DirectoryRecord.encode ++ ending.encode) := by
    refine at_append.mpr ⟨hrecords.stand, ?_⟩
    rw [hfilled, hbounds]
    exact hstands
  have hfull := hall
  obtain ⟨front, rest, hlayout, hfront⟩ := hfull
  have hrest : rest = [] := by
    have htotal := congrArg List.length hlayout
    rw [List.length_append, List.length_append, List.length_append, hfilled,
      ending.length_encode, endSize, hfront] at htotal
    exact List.length_eq_zero_iff.mp (by omega)
  rw [hrest, List.append_nil] at hlayout
  refine ⟨front, ending, hlayout, hendingStart.trans hfront.symm, hendingSize.trans hfilled.symm,
    hrecords.perm hlength, fun other hother => ?_⟩
  rw [hfront, hendingSize, hbounds]
  exact hlast other hother

/-- The check behind the end record. -/
theorem validateCentralDirectory_eq {stop : ℕ} (hbytes : bytes.length < 2 ^ 63)
    (hroom : stop + 22 ≤ bytes.length) (hfind : findEndRecord bytes = .ok stop) :
    validateCentralDirectory bytes =
      if number 2 bytes (stop + 10) ≠ requiredFiles.length then
        refuse (.entryCount (number 2 bytes (stop + 10)))
      else if number 4 bytes (stop + 16) + number 4 bytes (stop + 12) ≠ stop then
        refuse (.invalidArchiveStructure "central directory bounds are inconsistent")
      else
        directoryEntries bytes stop (number 2 bytes (stop + 10)) (number 4 bytes (stop + 16), ∅) >>=
          fun state => if state.1 ≠ stop then refuse structureError else .ok () := by
  have htotal : field littleU16 bytes stop 10 = .ok (number 2 bytes (stop + 10)) :=
    field_ok hbytes (by omega)
  have hsize : field littleU32 bytes stop 12 = .ok (number 4 bytes (stop + 12)) :=
    field_ok hbytes (by omega)
  have hstart : field littleU32 bytes stop 16 = .ok (number 4 bytes (stop + 16)) :=
    field_ok hbytes (by omega)
  rw [validateCentralDirectory, hfind]
  change (field littleU16 bytes stop 10 >>= _) = _
  rw [htotal]
  refine if_congr Iff.rfl rfl ?_
  rw [hsize]
  change (field littleU32 bytes stop 16 >>= _) = _
  rw [hstart]
  rfl

theorem validateCentralDirectory_cases (hbytes : bytes.length < 2 ^ 63) :
    (validateCentralDirectory bytes = .ok () ∧
      ∃ front records ending, Packed bytes front records ending) ∨
    ((∃ error, validateCentralDirectory bytes = refuse error) ∧
      ∀ front records ending, ¬Packed bytes front records ending) := by
  rcases findEndRecord_cases hbytes with ⟨⟨error, hfind⟩, hnone⟩ | ⟨stop, hends, hlast, hfind⟩
  · refine .inr ⟨⟨error, by rw [validateCentralDirectory, hfind]; rfl⟩, fun front records ending h => ?_⟩
    exact hnone _ h.fields.ends
  have hroom := hends.le
  have hstop : ∀ {front records ending}, Packed bytes front records ending →
      front.length + ending.directorySize = stop :=
    fun h => (hlast _ h.fields.ends).antisymm (h.last stop hends)
  rcases checkEndRecord_cases stop hbytes hroom with ⟨hcheck, hfields⟩ | ⟨⟨error, hcheck⟩, hnot⟩
  case inr =>
    refine .inr ⟨⟨error, by rw [validateCentralDirectory, hfind, hcheck]; rfl⟩,
      fun front records ending h => hnot ?_⟩
    exact hstop h ▸ h.fields.fields
  rw [validateCentralDirectory_eq hbytes hroom (hfind.trans hcheck)]
  rw [endSize] at hroom
  split_ifs with hcount hbounds
  · refine .inr ⟨⟨_, rfl⟩, fun front records ending h => hcount ?_⟩
    exact hstop h ▸ h.fields.count
  · refine .inr ⟨⟨_, rfl⟩, fun front records ending h => hbounds ?_⟩
    have hfields' := h.fields
    rw [hstop h] at hfields'
    rw [hfields'.start, hfields'.size, h.start]
    exact hstop h
  · rw [not_not, length_requiredFiles] at hcount
    rw [not_not] at hbounds
    rw [hcount]
    have hpacked : ∀ {front records ending}, Packed bytes front records ending →
        records.length = 4 ∧ RecordsAt bytes stop (number 4 bytes (stop + 16)) ∅ records stop := by
      intro front records ending h
      have hfields' := h.fields
      have hrecords := h.recordsAt
      rw [hstop h] at hfields' hrecords
      rwa [hfields'.start, h.start]
    have hinside : stop ≤ bytes.length := by omega
    have hbefore : number 4 bytes (stop + 16) ≤ stop := by omega
    rcases directoryEntries_cases hbytes hinside 4 (number 4 bytes (stop + 16)) ∅ hbefore with
      ⟨next, names, hrun, records, hlength, hrecords⟩ | ⟨error, hrun⟩
    · rw [hrun]
      by_cases hnext : next = stop
      · obtain ⟨front, ending, h⟩ := packed_of_records hends hlast hfields hcount hbounds hlength
          (hnext ▸ hrecords)
        exact .inl ⟨if_neg (not_not.mpr hnext), front, records, ending, h⟩
      · refine .inr ⟨⟨_, if_pos hnext⟩, fun front records' ending h => hnext ?_⟩
        obtain ⟨hlength', hrecords'⟩ := hpacked h
        obtain ⟨names', hrun'⟩ := directoryEntries_records hbytes hinside _ _ _ hrecords'
        rw [hlength', hrun, Except.ok.injEq] at hrun'
        exact congrArg Prod.fst hrun'
    · refine .inr ⟨⟨error, by rw [hrun]; rfl⟩, fun front records ending h => ?_⟩
      obtain ⟨hlength, hrecords⟩ := hpacked h
      obtain ⟨names', hrun'⟩ := directoryEntries_records hbytes hinside _ _ _ hrecords
      rw [hlength, hrun] at hrun'
      cases hrun'

/-! The files. -/

variable {limits : PackageLimits} {files files' : FiniteMap String (List UInt8)}

/-- Files of an archive: under required names, none longer than its limit. -/
structure WithinLimits (limits : PackageLimits) (files : FiniteMap String (List UInt8)) : Prop where
  names : files.keys ⊆ requiredFiles.toFinset
  contents : ∀ name contents, files.get? name = some contents →
    contents.length ≤ entryLimit name limits

/-- An entry is refused or becomes a file of its own. -/
theorem archiveEntry_cases (item : Except String ZipEntry) (hfiles : WithinLimits limits files) :
    (∃ files', archiveEntry limits files item = .ok files' ∧ WithinLimits limits files' ∧
      files'.keys.card = files.keys.card + 1) ∨
      ∃ error, archiveEntry limits files item = refuse error := by
  cases item with
  | error error => exact .inr ⟨_, rfl⟩
  | ok entry =>
    cases hname : canonicalName entry.nameRaw with
    | none => exact .inr ⟨_, by rw [archiveEntry, hname]⟩
    | some name =>
      rcases htype : validateEntryType entry name with stop | ⟨⟨⟩⟩
      · refine .inr ?_
        rw [archiveEntry, hname]
        simp only
        rw [htype]
        rw [validateEntryType] at htype
        split_ifs at htype
        · cases htype
          exact ⟨_, rfl⟩
        · split at htype
          · cases htype
          · cases htype
          · cases htype
            exact ⟨_, rfl⟩
      · by_cases hsize : entryLimit name limits < entry.size
        · refine .inr ⟨.entryTooLarge name entry.size (entryLimit name limits), ?_⟩
          rw [archiveEntry, hname]
          simp only
          rw [htype]
          exact if_pos hsize
        · rw [archiveEntry, hname]
          simp only
          rw [htype]
          simp only [bind, Except.bind, if_neg hsize]
          cases entry.read (min (entryLimit name limits + 1) (2 ^ 64 - 1)) with
          | error source => exact .inr ⟨_, rfl⟩
          | ok contents =>
            simp only
            split_ifs with hlarge hseen
            · exact .inr ⟨_, rfl⟩
            · exact .inr ⟨_, rfl⟩
            · refine .inl ⟨_, rfl, ⟨?_, fun name' contents' hget => ?_⟩, ?_⟩
              · rw [FiniteMap.keys_insert]
                refine Finset.insert_subset ?_ hfiles.names
                exact List.mem_toFinset.mpr (canonicalName_eq_some.mp hname).1
              · rw [FiniteMap.get?_insert] at hget
                split_ifs at hget with hsame
                · cases hget
                  rw [hsame]
                  omega
                · exact hfiles.contents name' contents' hget
              · exact FiniteMap.card_keys_insert
                  (FiniteMap.contains_eq_false.mp (Bool.eq_false_iff.mpr hseen)) _

theorem archiveEntries_cases :
    ∀ (archive : List (Except String ZipEntry)) (files : FiniteMap String (List UInt8)),
      WithinLimits limits files →
      (∃ files', archive.foldlM (archiveEntry limits) files = .ok files' ∧ WithinLimits limits files' ∧
        files'.keys.card = files.keys.card + archive.length) ∨
        ∃ error, archive.foldlM (archiveEntry limits) files = refuse error := by
  intro archive
  induction archive with
  | nil => exact fun files hfiles => .inl ⟨files, rfl, hfiles, rfl⟩
  | cons item archive ih =>
    intro files hfiles
    rw [List.foldlM_cons]
    rcases archiveEntry_cases item hfiles with ⟨files', hrun, hfiles', hcard⟩ | ⟨error, hrun⟩
    · rw [hrun]
      rcases ih files' hfiles' with ⟨files'', hrest, hfiles'', hcard'⟩ | ⟨error, hrest⟩
      · refine .inl ⟨files'', hrest, hfiles'', ?_⟩
        rw [List.length_cons]
        omega
      · exact .inr ⟨error, hrest⟩
    · exact .inr ⟨error, by rw [hrun]; rfl⟩

end

/-- The check of the central directory accepts exactly the archives whose last end record lies
directly behind four records, one for each required file, which fill the directory from its start
to its end; whatever the bytes are it reads inside them and its sums do not overflow. Reading an
archive gives the four files, each within its limit, or an error. -/
theorem archive_directory_exact (bytes : List UInt8) (hbytes : bytes.length < 2 ^ 63) :
    (validateCentralDirectory bytes = .ok () ↔
      ∃ front records ending, Packed bytes front records ending) ∧
    (validateCentralDirectory bytes = .ok () ∨
      ∃ error, validateCentralDirectory bytes = refuse error) ∧
    ∀ zip limits, (∃ error, readArchive zip bytes limits = refuse error) ∨
      ∃ files, readArchive zip bytes limits = .ok files ∧
        (∃ front records ending, Packed bytes front records ending) ∧
        files.keys = requiredFiles.toFinset ∧
        ∀ name contents, files.get? name = some contents →
          contents.length ≤ entryLimit name limits := by
  have hcases := validateCentralDirectory_cases hbytes
  refine ⟨?_, ?_, fun zip limits => ?_⟩
  · rcases hcases with ⟨hok, hpacked⟩ | ⟨⟨error, herror⟩, hnone⟩
    · exact iff_of_true hok hpacked
    · refine iff_of_false (fun hok => ?_) fun ⟨front, records, ending, h⟩ =>
        hnone front records ending h
      rw [herror] at hok
      cases hok
  · rcases hcases with ⟨hok, -⟩ | ⟨herror, -⟩
    · exact .inl hok
    · exact .inr herror
  · rcases hcases with ⟨hok, hpacked⟩ | ⟨⟨error, herror⟩, -⟩
    · rw [readArchive, hok]
      dsimp only [bind, Except.bind]
      cases zip bytes with
      | error error => exact .inl ⟨_, rfl⟩
      | ok archive =>
        by_cases hcount : archive.length ≠ requiredFiles.length
        · exact .inl ⟨_, if_pos hcount⟩
        · simp only [if_neg hcount]
          rw [not_not, length_requiredFiles] at hcount
          have hempty : WithinLimits limits ∅ :=
            ⟨Finset.empty_subset _, fun _ _ hget => by cases hget⟩
          rcases archiveEntries_cases archive ∅ hempty with
            ⟨files, hrun, hfiles, hcard⟩ | ⟨error, hrun⟩
          · refine .inr ⟨files, hrun, hpacked, ?_, hfiles.contents⟩
            refine Finset.eq_of_subset_of_card_le hfiles.names ?_
            rw [hcard, hcount]
            decide
          · exact .inl ⟨error, hrun⟩
    · exact .inl ⟨error, by rw [readArchive, herror]; rfl⟩

namespace TestVectors

/-- A directory of four records behind five bytes. -/
def testArchive : List UInt8 :=
  [1, 2, 3, 4, 5] ++ requiredFiles.flatMap (fun name => entrySignature ++ .replicate 24 0 ++
    toLittle 2 (nameBytes name).length ++ toLittle 2 0 ++ toLittle 2 0 ++ .replicate 12 0 ++
    nameBytes name) ++ endSignature ++ toLittle 2 0 ++ toLittle 2 0 ++ toLittle 2 4 ++
    toLittle 2 4 ++ toLittle 4 227 ++ toLittle 4 5 ++ toLittle 2 0

theorem archive_directory_exact_test :
    (∃ front records ending, Packed testArchive front records ending) ∧
      ¬∃ front records ending, Packed (testArchive ++ [0]) front records ending := by
  constructor
  · exact (archive_directory_exact testArchive (by decide +kernel)).1.mp (by decide +kernel)
  · intro hpacked
    have hok := (archive_directory_exact (testArchive ++ [0]) (by decide +kernel)).1.mpr hpacked
    have hfails : (validateCentralDirectory (testArchive ++ [0])).isOk = false := by decide +kernel
    rw [hok] at hfails
    cases hfails

end TestVectors

end Package.Archive
