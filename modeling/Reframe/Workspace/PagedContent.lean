import Reframe.Lib.ByteVector
import Reframe.Lib.FiniteMap
import Reframe.Workspace.Blob

/-! The copy-on-write page overlay over a shared base blob, with its slice-index panics
explicit. `none` is always a panic, never an outcome of a well-formed overlay. -/
namespace Workspace
open ByteVector

def pageSize : ℕ := 4 * 1024

theorem pageSize_pos : 0 < pageSize := by decide

/-- A boxed `[u8; PAGE_SIZE]`. -/
def Page := {bytes : List UInt8 // bytes.length = pageSize}

namespace Page

def zero : Page := ⟨List.replicate pageSize 0, by simp⟩

/-- `page[pos..pos + src.len()].copy_from_slice(src)`. -/
def copyAt? (page : Page) (pos : ℕ) (src : List UInt8) : Option Page :=
  if h : pos + src.length ≤ pageSize then
    some ⟨splice page.1 pos src, by rw [length_splice (by rw [page.2]; exact h), page.2]⟩
  else none

def read (page : Page) (i : ℕ) : UInt8 := page.1.getD i 0

@[simp] theorem read_zero (i : ℕ) : zero.read i = 0 := getD_replicate_fill 0 pageSize i

/-- A copy that fits succeeds and changes exactly the bytes it covers. -/
theorem copyAt?_spec (page : Page) (pos : ℕ) (src : List UInt8)
    (h : pos + src.length ≤ pageSize) : ∃ page', page.copyAt? pos src = some page' ∧
      ∀ i, page'.read i =
        if pos ≤ i ∧ i < pos + src.length then src.getD (i - pos) 0 else page.read i := by
  refine ⟨_, dif_pos h, fun i => ?_⟩
  exact getD_splice 0 (by rw [page.2]; exact h) i

/-- `page[pos..].fill(0)`. -/
def zeroFrom (page : Page) (pos : ℕ) : Page :=
  ⟨resize 0 (resize 0 page.1 (min pos pageSize)) pageSize, length_resize _ _ _⟩

theorem read_zeroFrom (page : Page) (pos : ℕ) {i : ℕ} (hi : i < pageSize) :
    (page.zeroFrom pos).read i = if i < pos then page.read i else 0 := by
  unfold zeroFrom read
  rw [getD_resize, if_pos hi, getD_resize]
  by_cases h : i < pos
  · rw [if_pos h, if_pos (by omega)]
  · rw [if_neg h, if_neg (by omega)]

end Page

abbrev PageMap := FiniteMap ℕ Page

/-- The bytes of one overlay page that fall inside `[offset, last)`, copied to `output`. -/
def copyPage (pageIndex : ℕ) (page : Page) (offset last : ℕ) (output : List UInt8) :
    Option (List UInt8) :=
  let pageStart := pageIndex * pageSize
  let overlapStart := max offset pageStart
  let overlapEnd := min last (pageStart + pageSize)
  let destination := overlapStart - offset
  let source := overlapStart - pageStart
  if overlapStart ≤ overlapEnd then
    (slice? page.1 source (source + (overlapEnd - overlapStart))).bind
      (copyAt? output destination)
  else none

def copyPageList (offset last : ℕ) :
    List (ℕ × Page) → List UInt8 → Option (List UInt8)
  | [], output => some output
  | (pageIndex, page) :: rest, output =>
    (copyPage pageIndex page offset last output).bind (copyPageList offset last rest)

/-- One page copy changes exactly the window bytes that lie on that page. -/
theorem copyPage_spec (pageIndex : ℕ) (page : Page) {offset last : ℕ} {output : List UInt8}
    (hl : offset + output.length = last) (hlo : offset / pageSize ≤ pageIndex)
    (hhi : pageIndex * pageSize < last) : ∃ output',
      copyPage pageIndex page offset last output = some output' ∧
      output'.length = output.length ∧ ∀ k < output.length, output'.getD k 0 =
        if (offset + k) / pageSize = pageIndex then page.read ((offset + k) % pageSize)
        else output.getD k 0 := by
  have hsize := page.2
  have hoverlap : max offset (pageIndex * pageSize) ≤
      min last (pageIndex * pageSize + pageSize) := by
    unfold pageSize at *
    omega
  obtain ⟨out, hout, hlen, hread⟩ := copy_slice_spec 0 page.1 output
    (max offset (pageIndex * pageSize) - pageIndex * pageSize)
    (max offset (pageIndex * pageSize) - pageIndex * pageSize +
      (min last (pageIndex * pageSize + pageSize) - max offset (pageIndex * pageSize)))
    (max offset (pageIndex * pageSize) - offset) (by omega) (by omega) (by omega)
  refine ⟨out, by simpa only [copyPage, if_pos hoverlap] using hout, hlen, fun k hk => ?_⟩
  rw [hread]
  by_cases hp : (offset + k) / pageSize = pageIndex
  · rw [if_pos (by unfold pageSize at *; omega), if_pos hp, Page.read]
    congr 1
    unfold pageSize at *
    omega
  · rw [if_neg (by unfold pageSize at *; omega), if_neg hp]

/-- Copying a list of pages of the map, in any order, fills in each page that it mentions. -/
theorem copyPageList_spec (pages : PageMap) {offset last : ℕ} :
    ∀ (ps : List (ℕ × Page)) (output : List UInt8), offset + output.length = last →
      (∀ e ∈ ps, pages.get? e.1 = some e.2 ∧ offset / pageSize ≤ e.1 ∧
        e.1 * pageSize < last) →
      ∃ output', copyPageList offset last ps output = some output' ∧
        output'.length = output.length ∧ ∀ k < output.length, output'.getD k 0 =
          if (offset + k) / pageSize ∈ ps.map Prod.fst then
            ((pages.get? ((offset + k) / pageSize)).map
              fun page => page.read ((offset + k) % pageSize)).getD 0
          else output.getD k 0 := by
  intro ps
  induction ps with
  | nil => intro output _ _; exact ⟨output, rfl, rfl, fun k _ => by simp⟩
  | cons e ps ih =>
    intro output hl hps
    obtain ⟨hlook, hlo, hhi⟩ := hps e List.mem_cons_self
    obtain ⟨out₁, h₁, hlen₁, hout₁⟩ := copyPage_spec e.1 e.2 hl hlo hhi
    obtain ⟨out₂, h₂, hlen₂, hout₂⟩ := ih out₁ (by omega)
      fun e' he' => hps e' (List.mem_cons_of_mem _ he')
    refine ⟨out₂, by simp [copyPageList, h₁, h₂], by omega, fun k hk => ?_⟩
    rw [hout₂ k (by omega), hout₁ k hk]
    by_cases hin : (offset + k) / pageSize ∈ ps.map Prod.fst
    · rw [if_pos hin, if_pos (by rw [List.map_cons]; exact List.mem_cons_of_mem _ hin)]
    · rw [if_neg hin]
      by_cases he : (offset + k) / pageSize = e.1
      · rw [if_pos he, if_pos (by simp [he]), he, hlook]
        rfl
      · rw [if_neg he, if_neg (by simp only [List.map_cons, List.mem_cons]; tauto)]

variable [Blake3]

structure PagedContent where
  base : VerifiedBlob
  pages : PageMap
  len : ℕ
  baseVisibleLen : ℕ
  digest : Option Blake3.Digest

namespace PagedContent

def new (base : VerifiedBlob) : PagedContent :=
  ⟨base, ∅, base.bytes.length, base.bytes.length, none⟩

/-- The pages of `first..=last`, looked up one index at a time. -/
def requestedPages (c : PagedContent) (first last : ℕ) : List (ℕ × Page) :=
  (List.range' first (last - first + 1)).filterMap
    fun i => (c.pages.get? i).map fun page => (i, page)

/-- Both page-iteration strategies. The second one visits the map in its own order, which
for a hash map is unspecified; `copyPages_spec` does not depend on it. -/
def copyPages (c : PagedContent) (offset : ℕ) (output : List UInt8) : Option (List UInt8) :=
  let last := offset + output.length
  let firstPage := offset / pageSize
  let lastPage := (last - 1) / pageSize
  let requestedPages := lastPage - firstPage + 1
  if requestedPages ≤ c.pages.size then
    copyPageList offset last (c.requestedPages firstPage lastPage) output
  else
    copyPageList offset last
      (c.pages.toList.filter fun e => firstPage ≤ e.1 ∧ e.1 ≤ lastPage) output

/-- The window filled with zeros, then with the visible part of the base. -/
def baseWindow (c : PagedContent) (offset count : ℕ) : Option (List UInt8) :=
  let window := List.replicate count 0
  let baseEnd := min (offset + count) c.baseVisibleLen
  if offset < baseEnd then (slice? c.base.bytes offset baseEnd).bind (copyAt? window 0)
  else some window

/-- The number of bytes copied, with the whole output buffer after the copy. -/
def copyInto (c : PagedContent) (offset : ℕ) (output : List UInt8) :
    Option (ℕ × List UInt8) :=
  if c.len ≤ offset ∨ output = [] then some (0, output)
  else do
    let count := min output.length (c.len - offset)
    let window ← c.baseWindow offset count
    let window ← c.copyPages offset window
    some (count, window ++ output.drop count)

/-- `entry(page_index).or_insert_with(..)`: the page to write to, seeded from the visible base. -/
def pageForWrite (c : PagedContent) (pageIndex : ℕ) : Option Page :=
  match c.pages.get? pageIndex with
  | some page => some page
  | none =>
    let start := pageIndex * pageSize
    let last := min (start + pageSize) c.baseVisibleLen
    if start < last then (slice? c.base.bytes start last).bind (Page.zero.copyAt? 0)
    else some Page.zero

/-- One turn of the write loop copies at most to the end of a page. Every turn advances,
so `data.length` turns are enough. -/
def writeLoop (offset : ℕ) (data : List UInt8) :
    ℕ → ℕ → PagedContent → Option PagedContent
  | fuel, sourceOffset, c =>
    if sourceOffset < data.length then
      match fuel with
      | 0 => none
      | fuel + 1 => do
        let absolute := offset + sourceOffset
        let pageIndex := absolute / pageSize
        let inPage := absolute % pageSize
        let count := min (pageSize - inPage) (data.length - sourceOffset)
        let page ← c.pageForWrite pageIndex
        let chunk ← slice? data sourceOffset (sourceOffset + count)
        let page ← page.copyAt? inPage chunk
        writeLoop offset data fuel (sourceOffset + count)
          { c with pages := c.pages.insert pageIndex page }
    else some c

def write (c : PagedContent) (offset : ℕ) (data : List UInt8) : Option PagedContent := do
  let c ← writeLoop offset data data.length 0 c
  some { c with len := max c.len (offset + data.length), digest := none }

/-- `pages.retain(..)` followed by zeroing the tail of the page that `size` cuts. -/
def truncatePages (pages : PageMap) (size : ℕ) : PageMap :=
  let kept := pages.retain fun pageIndex _ => pageIndex * pageSize < size
  let tail := size % pageSize
  if tail ≠ 0 then
    match kept.get? (size / pageSize) with
    | some page => kept.insert (size / pageSize) (page.zeroFrom tail)
    | none => kept
  else kept

def resize (c : PagedContent) (size : ℕ) : PagedContent :=
  if size < c.len then
    { c with
      baseVisibleLen := min c.baseVisibleLen size
      pages := truncatePages c.pages size
      len := size
      digest := none }
  else { c with len := size, digest := none }

/-- The hashing loop: one page-sized read per turn, through one reused buffer. -/
def digestLoop (c : PagedContent) :
    ℕ → ℕ → List UInt8 → Blake3.Hasher → Option Blake3.Digest
  | fuel, offset, buffer, hasher =>
    if offset < c.len then
      match fuel with
      | 0 => none
      | fuel + 1 => do
        let (count, buffer) ← c.copyInto offset buffer
        let chunk ← slice? buffer 0 count
        digestLoop c fuel (offset + count) buffer (Blake3.update hasher chunk)
    else some (Blake3.finalize hasher)

def computeDigest (c : PagedContent) : Option (Blake3.Digest × PagedContent) :=
  match c.digest with
  | some digest => some (digest, c)
  | none => do
    let digest ← c.digestLoop c.len 0 (List.replicate pageSize 0) Blake3.new
    some (digest, { c with digest := some digest })

def materialize (c : PagedContent) : Option (List UInt8) := do
  let (_, bytes) ← c.copyInto 0 (List.replicate c.len 0)
  some bytes

/-- The byte at `i`: from the overlay page if there is one, else from the visible base. -/
def byteAt (c : PagedContent) (i : ℕ) : UInt8 :=
  match c.pages.get? (i / pageSize) with
  | some page => page.read (i % pageSize)
  | none => if i < c.baseVisibleLen then c.base.bytes.getD i 0 else 0

/-- The plain byte vector an overlay stands for. -/
def toBytes (c : PagedContent) : List UInt8 := (List.range c.len).map c.byteAt

/-- Bytes past the length are zero, also inside pages that reach beyond it: this is what
keeps truncated bytes from coming back when the file grows again. -/
structure WF (c : PagedContent) : Prop where
  base : c.base.Sound
  visible_base : c.baseVisibleLen ≤ c.base.bytes.length
  visible_len : c.baseVisibleLen ≤ c.len
  tail_zero : ∀ i, c.len ≤ i → c.byteAt i = 0
  digest : ∀ d, c.digest = some d → d = Blake3.hash c.toBytes

@[simp] theorem length_toBytes (c : PagedContent) : c.toBytes.length = c.len := by
  simp [toBytes]

theorem WF.getD_toBytes {c : PagedContent} (h : c.WF) (i : ℕ) :
    c.toBytes.getD i 0 = c.byteAt i := by
  rw [toBytes, getD_map_range]
  split
  · rfl
  · exact (h.tail_zero i (by omega)).symm

/-- A vector with the right length and the right reads is the overlay's. -/
theorem WF.toBytes_eq {c : PagedContent} (h : c.WF) {v : List UInt8} (hl : c.len = v.length)
    (hv : ∀ i, c.byteAt i = v.getD i 0) : c.toBytes = v := by
  apply ext_getD 0 (by rw [length_toBytes, hl])
  intro i _
  rw [h.getD_toBytes, hv]

theorem new_wf {base : VerifiedBlob} (h : base.Sound) : (new base).WF where
  base := h
  visible_base := le_rfl
  visible_len := le_rfl
  tail_zero i hi := by
    change base.bytes.length ≤ i at hi
    simp [byteAt, new, hi]
  digest d hd := by cases hd

theorem new_toBytes (base : VerifiedBlob) : (new base).toBytes = base.bytes := by
  apply (eq_map_range 0 rfl fun i hi => ?_).symm
  change i < base.bytes.length at hi
  simp [byteAt, new, hi]

theorem mem_requestedPages {c : PagedContent} {first last : ℕ} {e : ℕ × Page} :
    e ∈ c.requestedPages first last ↔
      c.pages.get? e.1 = some e.2 ∧ first ≤ e.1 ∧ e.1 < first + (last - first + 1) := by
  simp only [requestedPages, List.mem_filterMap, List.mem_range'_1, Option.map_eq_some_iff]
  constructor
  · rintro ⟨i, hi, page, hp, rfl⟩
    exact ⟨hp, hi⟩
  · rintro ⟨hp, hi⟩
    exact ⟨e.1, hi, e.2, hp, rfl⟩

/-- Whichever strategy is taken, every overlay page that meets the window is copied. -/
theorem copyPages_spec (c : PagedContent) (offset : ℕ) (output : List UInt8)
    (hpos : 0 < output.length) : ∃ output', c.copyPages offset output = some output' ∧
      output'.length = output.length ∧ ∀ k < output.length, output'.getD k 0 =
        match c.pages.get? ((offset + k) / pageSize) with
        | some page => page.read ((offset + k) % pageSize)
        | none => output.getD k 0 := by
  -- it is enough that the chosen list holds exactly the pages of the window
  have key : ∀ ps : List (ℕ × Page),
      (∀ e : ℕ × Page, e ∈ ps ↔ c.pages.get? e.1 = some e.2 ∧ offset / pageSize ≤ e.1 ∧
        e.1 ≤ (offset + output.length - 1) / pageSize) →
      ∃ output', copyPageList offset (offset + output.length) ps output = some output' ∧
        output'.length = output.length ∧ ∀ k < output.length, output'.getD k 0 =
          match c.pages.get? ((offset + k) / pageSize) with
          | some page => page.read ((offset + k) % pageSize)
          | none => output.getD k 0 := by
    intro ps hps
    obtain ⟨out, hout, hlen, hread⟩ := copyPageList_spec c.pages ps output rfl fun e he => by
      obtain ⟨h₁, h₂, h₃⟩ := (hps e).mp he
      exact ⟨h₁, h₂, by unfold pageSize at *; omega⟩
    refine ⟨out, hout, hlen, fun k hk => ?_⟩
    rw [hread k hk]
    cases hp : c.pages.get? ((offset + k) / pageSize) with
    | none =>
      rw [if_neg]
      intro hin
      obtain ⟨e, he, hk'⟩ := List.mem_map.mp hin
      rw [← hk', ((hps e).mp he).1] at hp
      cases hp
    | some page =>
      rw [if_pos]
      · rfl
      · exact List.mem_map.mpr ⟨(_, page), (hps (_, page)).mpr
          ⟨hp, Nat.div_le_div_right (by omega), Nat.div_le_div_right (by omega)⟩, rfl⟩
  unfold copyPages
  simp only
  split
  · apply key
    intro e
    rw [mem_requestedPages]
    unfold pageSize
    constructor <;> rintro ⟨h₁, h₂⟩ <;> exact ⟨h₁, by omega⟩
  · apply key
    intro e
    rw [List.mem_filter, FiniteMap.mem_toList]
    simp

theorem baseWindow_spec {c : PagedContent} (h : c.baseVisibleLen ≤ c.base.bytes.length)
    (offset count : ℕ) : ∃ window, c.baseWindow offset count = some window ∧
      window.length = count ∧ ∀ k < count, window.getD k 0 =
        if offset + k < c.baseVisibleLen then c.base.bytes.getD (offset + k) 0 else 0 := by
  unfold baseWindow
  simp only
  split
  next hb =>
    obtain ⟨out, hs, hlen, hread⟩ := copy_slice_spec (0 : UInt8) c.base.bytes
      (List.replicate count 0) offset (min (offset + count) c.baseVisibleLen) 0 (by omega) (by omega)
      (by rw [List.length_replicate]; omega)
    refine ⟨out, hs, by rw [hlen, List.length_replicate], fun k hk => ?_⟩
    rw [hread, getD_replicate_fill, Nat.sub_zero]
    by_cases hv : offset + k < c.baseVisibleLen
    · rw [if_pos (by omega), if_pos hv]
    · rw [if_neg (by omega), if_neg hv]
  next hb =>
    refine ⟨_, rfl, by simp, fun k hk => ?_⟩
    rw [getD_replicate_fill, if_neg (by omega)]

/-- A read returns the requested slice of the vector and leaves the rest of the buffer. -/
theorem copyInto_spec {c : PagedContent} (h : c.baseVisibleLen ≤ c.base.bytes.length)
    {offset : ℕ} {output : List UInt8} (ho : offset < c.len) (hne : output ≠ []) :
    c.copyInto offset output = some (min output.length (c.len - offset),
      ((List.range (min output.length (c.len - offset))).map fun k => c.byteAt (offset + k)) ++
        output.drop (min output.length (c.len - offset))) := by
  have hout : 0 < output.length := List.length_pos_of_ne_nil hne
  set count := min output.length (c.len - offset) with hcount
  obtain ⟨window, hw, hwlen, hwread⟩ := baseWindow_spec h offset count
  obtain ⟨out, hc, hlen, hread⟩ := c.copyPages_spec offset window
    (by omega)
  have hfinal : out = (List.range count).map fun k => c.byteAt (offset + k) := by
    apply eq_map_range 0 (by omega)
    intro k hk
    rw [hread k (by omega), byteAt, hwread k hk]
  unfold copyInto
  rw [if_neg (by simp only [not_or, not_le]; exact ⟨ho, hne⟩)]
  simp only [← hcount, hw, hc, hfinal, Option.bind_eq_bind, Option.bind_some]

theorem byteAt_insert (c : PagedContent) (pageIndex : ℕ) (page : Page) (i : ℕ) :
    ({ c with pages := c.pages.insert pageIndex page } : PagedContent).byteAt i =
      if i / pageSize = pageIndex then page.read (i % pageSize) else c.byteAt i := by
  unfold byteAt
  by_cases h : i / pageSize = pageIndex
  · simp only [h, FiniteMap.get?_insert_self, if_true]
  · simp only [FiniteMap.get?_insert_ne _ h, if_neg h]

/-- A page taken for writing already shows the current bytes of its range. -/
theorem pageForWrite_spec {c : PagedContent} (h : c.baseVisibleLen ≤ c.base.bytes.length)
    (pageIndex : ℕ) : ∃ page, c.pageForWrite pageIndex = some page ∧
      ∀ j < pageSize, page.read j = c.byteAt (pageIndex * pageSize + j) := by
  have hdiv : ∀ j < pageSize, (pageIndex * pageSize + j) / pageSize = pageIndex ∧
      (pageIndex * pageSize + j) % pageSize = j := by
    intro j hj
    unfold pageSize at *
    omega
  unfold pageForWrite
  cases hp : c.pages.get? pageIndex with
  | some page =>
    refine ⟨page, rfl, fun j hj => ?_⟩
    simp only [byteAt, (hdiv j hj).1, (hdiv j hj).2, hp]
  | none =>
    simp only
    split
    next hs =>
      have hlen : ((c.base.bytes.take (min (pageIndex * pageSize + pageSize) c.baseVisibleLen)).drop
          (pageIndex * pageSize)).length =
          min (pageIndex * pageSize + pageSize) c.baseVisibleLen - pageIndex * pageSize :=
        length_slice _ (by omega)
      obtain ⟨page, hpage, hread⟩ := Page.zero.copyAt?_spec 0
        ((c.base.bytes.take (min (pageIndex * pageSize + pageSize) c.baseVisibleLen)).drop
          (pageIndex * pageSize)) (by rw [hlen]; omega)
      refine ⟨page, by rw [slice?_eq_some (by omega) (by omega)]; exact hpage, fun j hj => ?_⟩
      rw [hread, hlen, Page.read_zero]
      simp only [byteAt, (hdiv j hj).1, hp, Nat.sub_zero]
      by_cases hv : pageIndex * pageSize + j < c.baseVisibleLen
      · rw [if_pos (by omega), if_pos hv, getD_slice 0 _ (by omega)]
      · rw [if_neg (by omega), if_neg hv]
    next hs =>
      refine ⟨Page.zero, rfl, fun j hj => ?_⟩
      simp only [Page.read_zero, byteAt, (hdiv j hj).1, hp]
      rw [if_neg (by omega)]

/-- The write loop stores the rest of the data and changes nothing but pages. -/
theorem writeLoop_spec (offset : ℕ) (data : List UInt8) :
    ∀ (fuel sourceOffset : ℕ) (c : PagedContent), data.length ≤ sourceOffset + fuel →
      c.baseVisibleLen ≤ c.base.bytes.length →
      ∃ pages, writeLoop offset data fuel sourceOffset c = some { c with pages := pages } ∧
        ∀ i, ({ c with pages := pages } : PagedContent).byteAt i =
          if offset + sourceOffset ≤ i ∧ i < offset + data.length then data.getD (i - offset) 0
          else c.byteAt i := by
  intro fuel
  induction fuel with
  | zero =>
    intro sourceOffset c hf _
    refine ⟨c.pages, by rw [writeLoop, if_neg (by omega)], fun i => ?_⟩
    rw [if_neg (by omega)]
  | succ fuel ih =>
    intro sourceOffset c hf hbase
    by_cases hlt : sourceOffset < data.length
    · set count := min (pageSize - (offset + sourceOffset) % pageSize)
        (data.length - sourceOffset) with hcount
      have hmod := Nat.mod_lt (offset + sourceOffset) pageSize_pos
      obtain ⟨page, hpage, hseed⟩ := pageForWrite_spec hbase ((offset + sourceOffset) / pageSize)
      have hlen : ((data.take (sourceOffset + count)).drop sourceOffset).length = count := by
        rw [length_slice _ (by omega)]
        omega
      obtain ⟨page', hcopy, hread⟩ := page.copyAt?_spec
        ((offset + sourceOffset) % pageSize)
        ((data.take (sourceOffset + count)).drop sourceOffset) (by rw [hlen]; omega)
      obtain ⟨pages, hloop, hbytes⟩ := ih (sourceOffset + count)
        { c with pages := c.pages.insert ((offset + sourceOffset) / pageSize) page' }
        (by omega) hbase
      refine ⟨pages, ?_, fun i => ?_⟩
      · rw [writeLoop, if_pos hlt]
        simp only [hpage, ← hcount, slice?_eq_some (show sourceOffset ≤ sourceOffset + count by omega)
          (show sourceOffset + count ≤ data.length by omega), hcopy, Option.bind_eq_bind,
          Option.bind_some]
        exact hloop
      · rw [hbytes i, byteAt_insert, hread, hlen]
        by_cases hi : i / pageSize = (offset + sourceOffset) / pageSize
        · have hpageByte : page.read (i % pageSize) = c.byteAt i := by
            rw [hseed _ (Nat.mod_lt _ pageSize_pos), ← hi, Nat.div_add_mod']
          simp only [if_pos hi, hpageByte]
          by_cases h₁ : offset + (sourceOffset + count) ≤ i ∧ i < offset + data.length
          · rw [if_pos h₁, if_pos (by omega)]
          · rw [if_neg h₁]
            by_cases h₂ : offset + sourceOffset ≤ i ∧ i < offset + data.length
            · rw [if_pos h₂, if_pos (by unfold pageSize at *; omega),
                getD_slice 0 data (by unfold pageSize at *; omega)]
              congr 1
              unfold pageSize at *
              omega
            · rw [if_neg h₂, if_neg (by unfold pageSize at *; omega)]
        · rw [if_neg hi]
          by_cases h₁ : offset + (sourceOffset + count) ≤ i ∧ i < offset + data.length
          · rw [if_pos h₁, if_pos (by omega)]
          · rw [if_neg h₁, if_neg (by unfold pageSize at *; omega)]
    · refine ⟨c.pages, by rw [writeLoop, if_neg hlt], fun i => ?_⟩
      rw [if_neg (by omega)]

/-- An overlay write is the write of the plain vector. -/
theorem WF.write {c : PagedContent} (h : c.WF) (offset : ℕ) {data : List UInt8}
    (hd : data ≠ []) : ∃ c', c.write offset data = some c' ∧ c'.WF ∧
      c'.toBytes = ByteVector.write 0 c.toBytes offset data := by
  obtain ⟨pages, hloop, hbytes⟩ := writeLoop_spec offset data data.length 0 c (by omega)
    h.visible_base
  set c' : PagedContent := { c with
    pages := pages, len := max c.len (offset + data.length), digest := none } with hc'
  have hread : ∀ i, c'.byteAt i = (ByteVector.write 0 c.toBytes offset data).getD i 0 := by
    intro i
    rw [getD_write, h.getD_toBytes]
    have hi := hbytes i
    rw [Nat.add_zero] at hi
    exact hi
  have hlen : c'.len = (ByteVector.write 0 c.toBytes offset data).length := by
    rw [length_write 0 _ _ hd, length_toBytes]
  have hw : c'.WF :=
    { base := h.base
      visible_base := h.visible_base
      visible_len := h.visible_len.trans (Nat.le_max_left _ _)
      tail_zero := fun i hi => by rw [hread, getD_of_length_le 0 (hlen ▸ hi)]
      digest := fun d hd => by cases hd }
  exact ⟨c', by simp [PagedContent.write, hloop, hc'], hw, hw.toBytes_eq hlen hread⟩

/-- After truncation every byte before the new size is kept and every later one is zero. -/
theorem byteAt_truncate (c : PagedContent) (size i : ℕ) :
    ({ c with
        baseVisibleLen := min c.baseVisibleLen size
        pages := truncatePages c.pages size } : PagedContent).byteAt i =
      if i < size then c.byteAt i else 0 := by
  have hmod := Nat.mod_lt i pageSize_pos
  -- the page of `i` after truncation
  have hpage : (truncatePages c.pages size).get? (i / pageSize) =
      ((c.pages.get? (i / pageSize)).filter fun _ => i / pageSize * pageSize < size).map
        fun page => if i / pageSize = size / pageSize ∧ size % pageSize ≠ 0
          then page.zeroFrom (size % pageSize) else page := by
    unfold truncatePages
    simp only
    split
    next ht =>
      simp only [FiniteMap.get?_retain]
      by_cases hi : i / pageSize = size / pageSize
      · rw [← hi]
        cases hp : (c.pages.get? (i / pageSize)).filter
            fun _ => decide (i / pageSize * pageSize < size) with
        | none => simp [FiniteMap.get?_retain, hp]
        | some page => simp [ht]
      · split
        · rw [FiniteMap.get?_insert_ne _ hi, FiniteMap.get?_retain]
          simp [hi]
        · rw [FiniteMap.get?_retain]
          simp [hi]
    next ht =>
      rw [FiniteMap.get?_retain]
      simp [ht]
  unfold byteAt
  simp only [hpage]
  cases hp : c.pages.get? (i / pageSize) with
  | none =>
    simp only [Option.filter_none, Option.map_none]
    by_cases hi : i < size
    · rw [if_pos hi]
      congr 1
      simp [hi]
    · rw [if_neg hi, if_neg (by omega)]
  | some page =>
    by_cases hk : i / pageSize * pageSize < size
    · simp only [Option.filter_some, hk, decide_true, if_true, Option.map_some]
      by_cases hcut : i / pageSize = size / pageSize ∧ size % pageSize ≠ 0
      · rw [if_pos hcut, Page.read_zeroFrom _ _ hmod]
        by_cases hi : i < size
        · rw [if_pos hi, if_pos (by unfold pageSize at *; omega)]
        · rw [if_neg hi, if_neg (by unfold pageSize at *; omega)]
      · rw [if_neg hcut, if_pos (by unfold pageSize at *; omega)]
    · simp only [Option.filter_some, hk, decide_false]
      have : ¬ i < size := by unfold pageSize at *; omega
      rw [if_neg this]
      simp; omega

/-- An overlay resize is the resize of the plain vector. -/
theorem WF.resize {c : PagedContent} (h : c.WF) (size : ℕ) : (c.resize size).WF ∧
    (c.resize size).toBytes = ByteVector.resize 0 c.toBytes size := by
  have hread : ∀ i, (c.resize size).byteAt i =
      (ByteVector.resize 0 c.toBytes size).getD i 0 := by
    intro i
    rw [getD_resize, h.getD_toBytes]
    unfold PagedContent.resize
    split
    · exact byteAt_truncate c size i
    next hs =>
      change c.byteAt i = _
      split
      · rfl
      · exact h.tail_zero i (by omega)
  have hlen : (c.resize size).len = size := by
    unfold PagedContent.resize
    split <;> rfl
  have hw : (c.resize size).WF := by
    refine ⟨?_, ?_, ?_, fun i hi => ?_, fun d hd => ?_⟩
    · unfold PagedContent.resize
      split <;> exact h.base
    · have := h.visible_base
      unfold PagedContent.resize
      split
      · exact (Nat.min_le_left _ _).trans this
      · exact this
    · have := h.visible_len
      unfold PagedContent.resize
      split
      · exact Nat.min_le_right _ _
      · simp only
        omega
    · rw [hread, getD_of_length_le 0 (by rw [length_resize]; omega)]
    · unfold PagedContent.resize at hd
      split at hd <;> cases hd
  exact ⟨hw, hw.toBytes_eq (by rw [hlen, length_resize]) hread⟩

/-- The hashing loop feeds the hasher the vector, page by page. -/
theorem digestLoop_spec {c : PagedContent} (h : c.baseVisibleLen ≤ c.base.bytes.length) :
    ∀ (fuel offset : ℕ) (buffer : List UInt8) (chunks : List (List UInt8)),
      c.len ≤ offset + fuel → offset ≤ c.len → buffer ≠ [] →
      chunks.flatten = (List.range offset).map c.byteAt →
      c.digestLoop fuel offset buffer (chunks.foldl Blake3.update Blake3.new) =
        some (Blake3.hash c.toBytes) := by
  intro fuel
  induction fuel with
  | zero =>
    intro offset buffer chunks hf ho _ hc
    have : offset = c.len := by omega
    rw [digestLoop, if_neg (by omega), Blake3.finalize_update, hc, this, toBytes]
  | succ fuel ih =>
    intro offset buffer chunks hf ho hb hc
    by_cases hlt : offset < c.len
    · have hpos : 0 < buffer.length := List.length_pos_of_ne_nil hb
      set count := min buffer.length (c.len - offset) with hcount
      set chunk := (List.range count).map fun k => c.byteAt (offset + k) with hchunk
      have hclen : chunk.length = count := by simp [hchunk]
      rw [digestLoop, if_pos hlt]
      simp only [copyInto_spec h hlt hb, ← hcount, ← hchunk, Option.bind_eq_bind,
        Option.bind_some]
      rw [slice?_eq_some (by omega) (by rw [List.length_append]; omega)]
      have htake : ((chunk ++ buffer.drop count).take count).drop 0 = chunk := by
        rw [List.drop_zero, ← hclen, List.take_left]
      simp only [htake, Option.bind_some]
      have hnext := ih (offset + count) (chunk ++ buffer.drop count) (chunks ++ [chunk])
        (by omega) (by omega) (List.ne_nil_of_length_pos (by rw [List.length_append]; omega)) (by
          rw [List.flatten_append, hc, List.flatten_singleton, List.range_add, List.map_append,
            List.map_map]
          rfl)
      rwa [List.foldl_append] at hnext
    · have : offset = c.len := by omega
      rw [digestLoop, if_neg hlt, Blake3.finalize_update, hc, this, toBytes]

/-- The digest is the one-shot digest of the vector, cached or not. -/
theorem WF.computeDigest {c : PagedContent} (h : c.WF) :
    ∃ c', c.computeDigest = some (Blake3.hash c.toBytes, c') ∧ c'.WF ∧ c'.toBytes = c.toBytes := by
  unfold PagedContent.computeDigest
  cases hd : c.digest with
  | some d => exact ⟨c, by rw [h.digest d hd], h, rfl⟩
  | none =>
    have hloop := digestLoop_spec h.visible_base c.len 0 (List.replicate pageSize 0) []
      (by omega) (by omega)
      (List.ne_nil_of_length_pos (by rw [List.length_replicate]; exact pageSize_pos)) rfl
    rw [List.foldl_nil] at hloop
    refine ⟨{ c with digest := some (Blake3.hash c.toBytes) }, by simp [hloop], ?_, rfl⟩
    exact
      { base := h.base
        visible_base := h.visible_base
        visible_len := h.visible_len
        tail_zero := h.tail_zero
        digest := fun d hd => (Option.some.inj hd).symm }

theorem WF.materialize {c : PagedContent} (h : c.WF) : c.materialize = some c.toBytes := by
  unfold PagedContent.materialize
  by_cases hlen : c.len = 0
  · simp [copyInto, hlen, toBytes]
  · rw [copyInto_spec h.visible_base (by omega) (by simpa using hlen)]
    simp [toBytes]

end PagedContent
end Workspace
