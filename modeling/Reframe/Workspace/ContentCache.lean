import Reframe.Lib.Lru
import Reframe.Lib.Run
import Reframe.Lib.SortedMap
import Reframe.Workspace.Blob

/-! The content cache: blobs by hash, and a queue of uses in which a record counts only while it
carries the generation of its entry. It is a list in the order of the last uses, with what is at its
front evicted first. -/
namespace Workspace

section

variable [Blake3]

def usizeMax : ℕ := 2 ^ 64 - 1

def saturatingAdd (a b : ℕ) : ℕ := min (a + b) usizeMax

structure CacheEntry where
  blob : VerifiedBlob
  generation : ℕ

structure CacheState where
  entries : FiniteMap String CacheEntry
  recency : List (String × ℕ)
  clock : ℕ
  bytes : ℕ
  pins : ℕ

inductive CacheOp where
  | get (hash : String)
  | insert (blob : VerifiedBlob)
  | pin
  | unpin

namespace CacheState

def empty : CacheState := ⟨∅, [], 0, 0, 0⟩

/-- `wrapping_add(1).max(1)`. -/
def tick (s : CacheState) : CacheState := { s with clock := max ((s.clock + 1) % 2 ^ 64) 1 }

def recencyGenerationsPerEntry : ℕ := 4
def recencyGenerationSlop : ℕ := 64

def maximumRecency (s : CacheState) : ℕ :=
  saturatingAdd (min (s.entries.size * recencyGenerationsPerEntry) usizeMax) recencyGenerationSlop

/-- The records that count, in the order of their generations. -/
def pruneRecency (s : CacheState) : CacheState :=
  if s.recency.length ≤ s.maximumRecency then s
  else
    { s with
      recency := SortedSet.sortByKey Prod.snd
        (s.entries.toList.map fun e => (e.1, e.2.generation)) }

def touch (s : CacheState) (hash : String) : CacheState :=
  let s := s.tick
  match s.entries.get? hash with
  | none => s
  | some entry =>
    pruneRecency { s with
      entries := s.entries.insert hash { entry with generation := s.clock }
      recency := s.recency ++ [(hash, s.clock)] }

/-- The loop of `evict_to` on the queue. -/
def evictFrom (capacity : ℕ) (s : CacheState) : List (String × ℕ) → CacheState
  | [] => { s with recency := [] }
  | (hash, generation) :: rest =>
    if s.bytes ≤ capacity then { s with recency := (hash, generation) :: rest }
    else match s.entries.get? hash with
      | none => evictFrom capacity s rest
      | some entry =>
        if entry.generation = generation then
          evictFrom capacity { s with
            entries := s.entries.erase hash
            bytes := s.bytes - entry.blob.bytes.length } rest
        else evictFrom capacity s rest

def evictTo (s : CacheState) (capacity : ℕ) : CacheState :=
  (s.evictFrom capacity s.recency).pruneRecency

variable (capacity : ℕ)

def get (s : CacheState) (hash : String) : CacheState × Option VerifiedBlob :=
  match s.entries.get? hash with
  | none => (s, none)
  | some entry => (s.touch hash, some entry.blob)

def insert (s : CacheState) (blob : VerifiedBlob) : CacheState × VerifiedBlob :=
  let hash := blob.hashHex
  match s.entries.get? hash with
  | some entry => (s.touch hash, entry.blob)
  | none =>
    let size := blob.bytes.length
    if capacity = 0 ∨ (size > capacity ∧ s.pins = 0) then (s, blob)
    else
      let s := s.tick
      let s := { s with
        bytes := saturatingAdd s.bytes size
        entries := s.entries.insert hash ⟨blob, s.clock⟩
        recency := s.recency ++ [(hash, s.clock)] }
      let s := if s.pins = 0 then s.evictTo capacity else s
      (s.pruneRecency, blob)

def pin (s : CacheState) : CacheState := { s with pins := saturatingAdd s.pins 1 }

/-- What dropping a pin does. -/
def unpin (s : CacheState) : CacheState :=
  let s := { s with pins := s.pins - 1 }
  if s.pins = 0 then s.evictTo capacity else s

/-- The blob that is handed out, if the call hands one out. -/
def step (s : CacheState) : CacheOp → CacheState × Option VerifiedBlob
  | .get hash => s.get hash
  | .insert blob => ((s.insert capacity blob).1, some (s.insert capacity blob).2)
  | .pin => (s.pin, none)
  | .unpin => (s.unpin capacity, none)

/-- What is cached and the blob that comes in are in memory at once. -/
def Fits (s : CacheState) : CacheOp → Prop
  | .insert blob => s.entries.get? blob.hashHex = none →
    (s.entries.toList.map fun e => e.2.blob.bytes.length).sum + blob.bytes.length < 2 ^ 64
  | _ => True

instance decidableFits (s : CacheState) : ∀ op, Decidable (s.Fits op)
  | .insert blob => inferInstanceAs (Decidable (s.entries.get? blob.hashHex = none → _))
  | .get _ => isTrue trivial
  | .pin => isTrue trivial
  | .unpin => isTrue trivial

end CacheState

/-- The cache as a list of the blobs from the least to the most recently used one. -/
structure LruCache where
  entries : List (String × VerifiedBlob)
  pins : ℕ

namespace LruCache

def empty : LruCache := ⟨[], 0⟩

def blobSize (blob : VerifiedBlob) : ℕ := blob.bytes.length

variable (capacity : ℕ)

def get (c : LruCache) (hash : String) : LruCache × Option VerifiedBlob :=
  match Lru.find c.entries hash with
  | none => (c, none)
  | some blob => ({ c with entries := Lru.use hash blob c.entries }, some blob)

/-- Eviction waits while something is pinned. -/
def fit (c : LruCache) : LruCache :=
  if c.pins = 0 then { c with entries := Lru.evict blobSize capacity c.entries } else c

/-- A blob that cannot fit is handed back and not kept. -/
def insert (c : LruCache) (blob : VerifiedBlob) : LruCache × VerifiedBlob :=
  match Lru.find c.entries blob.hashHex with
  | some known => ({ c with entries := Lru.use blob.hashHex known c.entries }, known)
  | none =>
    if capacity = 0 ∨ (blobSize blob > capacity ∧ c.pins = 0) then (c, blob)
    else (fit capacity { c with entries := Lru.use blob.hashHex blob c.entries }, blob)

def step (c : LruCache) : CacheOp → LruCache × Option VerifiedBlob
  | .get hash => c.get hash
  | .insert blob => ((c.insert capacity blob).1, some (c.insert capacity blob).2)
  | .pin => ({ c with pins := c.pins + 1 }, none)
  | .unpin => (fit capacity { c with pins := c.pins - 1 }, none)

end LruCache

/-- The entry a record of the queue stands for, if the entry was not used since. -/
def currentEntry (entries : FiniteMap String CacheEntry) (record : String × ℕ) :
    Option (String × VerifiedBlob) :=
  (entries.get? record.1).bind fun entry =>
    if entry.generation = record.2 then some (record.1, entry.blob) else none

/-- The entries in the order in which they were last used. -/
def inUse (entries : FiniteMap String CacheEntry) (recency : List (String × ℕ)) :
    List (String × VerifiedBlob) :=
  recency.filterMap (currentEntry entries)

/-- Every entry has its record, and the queue is in the order of the generations. -/
structure Queued (entries : FiniteMap String CacheEntry) (recency : List (String × ℕ))
    (clock : ℕ) : Prop where
  increasing : recency.Pairwise fun first second => first.2 < second.2
  past : ∀ record ∈ recency, record.2 ≤ clock
  queued : ∀ hash entry, entries.get? hash = some entry → (hash, entry.generation) ∈ recency

section

variable {entries : FiniteMap String CacheEntry} {recency : List (String × ℕ)} {clock : ℕ}
  {hash : String} {blob : VerifiedBlob}

theorem currentEntry_eq_some {record : String × ℕ} :
    currentEntry entries record = some (hash, blob) ↔
      record.1 = hash ∧ ∃ entry, entries.get? hash = some entry ∧ entry.generation = record.2 ∧
        entry.blob = blob := by
  rw [currentEntry, Option.bind_eq_some_iff]
  constructor
  · rintro ⟨entry, hget, hcurrent⟩
    split_ifs at hcurrent with hgeneration
    cases hcurrent
    exact ⟨rfl, entry, hget, hgeneration, rfl⟩
  · rintro ⟨rfl, entry, hget, hgeneration, rfl⟩
    exact ⟨entry, hget, if_pos hgeneration⟩

theorem mem_inUse (h : Queued entries recency clock) :
    (hash, blob) ∈ inUse entries recency ↔
      ∃ entry, entries.get? hash = some entry ∧ entry.blob = blob := by
  rw [inUse, List.mem_filterMap]
  constructor
  · rintro ⟨record, -, hcurrent⟩
    obtain ⟨-, entry, hget, -, hblob⟩ := currentEntry_eq_some.mp hcurrent
    exact ⟨entry, hget, hblob⟩
  · rintro ⟨entry, hget, hblob⟩
    exact ⟨_, h.queued hash entry hget, currentEntry_eq_some.mpr ⟨rfl, entry, hget, rfl, hblob⟩⟩

theorem nodup_inUse (h : Queued entries recency clock) :
    ((inUse entries recency).map Prod.fst).Nodup := by
  rw [List.Nodup, List.pairwise_map, inUse, List.pairwise_filterMap]
  refine h.increasing.imp fun hlt first hfirst second hsecond hkey => ?_
  obtain ⟨-, entry, hget, hgeneration, -⟩ := currentEntry_eq_some.mp hfirst
  obtain ⟨-, entry', hget', hgeneration', -⟩ := currentEntry_eq_some.mp hsecond
  rw [← hkey, hget] at hget'
  cases hget'
  rw [← hgeneration, ← hgeneration'] at hlt
  exact absurd hlt (lt_irrefl _)

theorem find_inUse (h : Queued entries recency clock) (hash : String) :
    Lru.find (inUse entries recency) hash = (entries.get? hash).map CacheEntry.blob := by
  cases hget : entries.get? hash with
  | none =>
    refine Lru.find_eq_none.mpr fun blob hmem => ?_
    obtain ⟨entry, hentry, -⟩ := (mem_inUse h).mp hmem
    rw [hget] at hentry
    cases hentry
  | some entry =>
    exact (Lru.find_eq_some (nodup_inUse h)).mpr ((mem_inUse h).mpr ⟨entry, hget, rfl⟩)

theorem entries_perm_inUse (h : Queued entries recency clock) :
    (entries.toList.map fun e => (e.1, e.2.blob)).Perm (inUse entries recency) := by
  have hkeys : ((entries.toList.map fun e => (e.1, e.2.blob)).map Prod.fst).Nodup := by
    rw [List.map_map]
    exact FiniteMap.toList_nodup_keys entries
  refine (List.perm_ext_iff_of_nodup hkeys.of_map (nodup_inUse h).of_map).mpr ?_
  rintro ⟨hash, blob⟩
  rw [mem_inUse h, List.mem_map]
  constructor
  · rintro ⟨⟨hash, entry⟩, hmem, heq⟩
    cases heq
    exact ⟨entry, FiniteMap.mem_toList.mp hmem, rfl⟩
  · rintro ⟨entry, hget, rfl⟩
    exact ⟨(hash, entry), FiniteMap.mem_toList.mpr hget, rfl⟩

/-- A use that is later than all in the queue. -/
theorem Queued.stamp (h : Queued entries recency clock) (hash : String) (blob : VerifiedBlob) :
    Queued (entries.insert hash ⟨blob, clock + 1⟩) (recency ++ [(hash, clock + 1)]) (clock + 1) where
  increasing := by
    refine List.pairwise_append.mpr ⟨h.increasing, List.pairwise_singleton _ _, ?_⟩
    intro record hrecord last hlast
    rw [List.mem_singleton.mp hlast]
    exact Nat.lt_succ_of_le (h.past record hrecord)
  past record hrecord := by
    rcases List.mem_append.mp hrecord with hrecord | hrecord
    · exact (h.past record hrecord).trans (Nat.le_succ _)
    · rw [List.mem_singleton.mp hrecord]
  queued hash' entry hget := by
    rw [FiniteMap.get?_insert] at hget
    split_ifs at hget with hsame
    · cases hget
      rw [hsame]
      exact List.mem_append_right _ List.mem_cons_self
    · exact List.mem_append_left _ (h.queued hash' entry hget)

theorem inUse_stamp (h : Queued entries recency clock) (hash : String) (blob : VerifiedBlob) :
    inUse (entries.insert hash ⟨blob, clock + 1⟩) (recency ++ [(hash, clock + 1)]) =
      Lru.use hash blob (inUse entries recency) := by
  have hlast : currentEntry (entries.insert hash ⟨blob, clock + 1⟩) (hash, clock + 1) =
      some (hash, blob) := by simp [currentEntry]
  have hbefore : ∀ record ∈ recency,
      currentEntry (entries.insert hash ⟨blob, clock + 1⟩) record =
        (currentEntry entries record).filter fun e => decide (e.1 ≠ hash) := by
    intro record hrecord
    have hpast := h.past record hrecord
    by_cases hsame : record.1 = hash
    · have hstale : clock + 1 ≠ record.2 := by omega
      cases hget : entries.get? hash with
      | none => simp [currentEntry, hsame, hget, hstale]
      | some entry =>
        by_cases hgeneration : entry.generation = record.2
        · simp [currentEntry, hsame, hget, hstale, hgeneration, Option.filter_some]
        · simp [currentEntry, hsame, hget, hstale, hgeneration]
    · have hother : (entries.insert hash ⟨blob, clock + 1⟩).get? record.1 = entries.get? record.1 :=
        FiniteMap.get?_insert_ne entries hsame _
      rw [currentEntry, hother, ← currentEntry]
      cases hcurrent : currentEntry entries record with
      | none => rfl
      | some e =>
        have hkey : record.1 = e.1 := (currentEntry_eq_some.mp hcurrent).1
        rw [hkey] at hsame
        rw [Option.filter_some, if_pos (by simpa using hsame)]
  rw [inUse, List.filterMap_append, List.filterMap_congr hbefore, Lru.use, inUse,
    List.filter_filterMap, List.filterMap_cons, hlast]
  rfl

/-- The queue rebuilt from the entries leaves out what does not count. -/
theorem sorted_eq_filter (h : Queued entries recency clock) :
    SortedSet.sortByKey Prod.snd (entries.toList.map fun e => (e.1, e.2.generation)) =
      recency.filter fun record => (currentEntry entries record).isSome := by
  have hkeys : ((entries.toList.map fun e => (e.1, e.2.generation)).map Prod.fst).Nodup := by
    rw [List.map_map]
    exact FiniteMap.toList_nodup_keys entries
  have hkept := h.increasing.filter fun record => (currentEntry entries record).isSome
  have hperm : (SortedSet.sortByKey Prod.snd
      (entries.toList.map fun e => (e.1, e.2.generation))).Perm
        (recency.filter fun record => (currentEntry entries record).isSome) := by
    refine (List.perm_insertionSort _ _).trans
      ((List.perm_ext_iff_of_nodup hkeys.of_map (hkept.imp fun hlt heq => ?_)).mpr ?_)
    · rw [heq] at hlt
      exact absurd hlt (lt_irrefl _)
    · rintro ⟨hash, generation⟩
      rw [List.mem_map, List.mem_filter, Option.isSome_iff_exists]
      constructor
      · rintro ⟨⟨hash, entry⟩, hmem, heq⟩
        cases heq
        have hget := FiniteMap.mem_toList.mp hmem
        exact ⟨h.queued hash entry hget, (hash, entry.blob),
          currentEntry_eq_some.mpr ⟨rfl, entry, hget, rfl, rfl⟩⟩
      · rintro ⟨-, ⟨hash', blob⟩, hcurrent⟩
        obtain ⟨rfl, entry, hget, rfl, -⟩ := currentEntry_eq_some.mp hcurrent
        exact ⟨(_, entry), FiniteMap.mem_toList.mpr hget, rfl⟩
  refine hperm.eq_of_pairwise ?_ (SortedSet.sortByKey_sorted Prod.snd _) (hkept.imp le_of_lt)
  intro first second hfirst hsecond hle hge
  have hinjective : ∀ first ∈ recency, ∀ second ∈ recency, first.2 = second.2 → first = second := by
    intro first hfirst second hsecond heq
    have hnodup : (recency.map Prod.snd).Nodup :=
      List.pairwise_map.mpr (h.increasing.imp ne_of_lt)
    exact List.inj_on_of_nodup_map hnodup hfirst hsecond heq
  exact hinjective first (List.mem_of_mem_filter (hperm.mem_iff.mp hfirst)) second
    (List.mem_of_mem_filter hsecond) (le_antisymm hle hge)

theorem inUse_filter (entries : FiniteMap String CacheEntry) (recency : List (String × ℕ)) :
    inUse entries (recency.filter fun record => (currentEntry entries record).isSome) =
      inUse entries recency := by
  rw [inUse, inUse, List.filterMap_filter]
  refine List.filterMap_congr fun record _ => ?_
  cases currentEntry entries record <;> rfl

theorem Queued.filter (h : Queued entries recency clock) :
    Queued entries (recency.filter fun record => (currentEntry entries record).isSome) clock where
  increasing := h.increasing.filter _
  past record hrecord := h.past record (List.mem_of_mem_filter hrecord)
  queued hash entry hget := by
    refine List.mem_filter.mpr ⟨h.queued hash entry hget, Option.isSome_iff_exists.mpr ?_⟩
    exact ⟨(hash, entry.blob), currentEntry_eq_some.mpr ⟨rfl, entry, hget, rfl, rfl⟩⟩

/-- A record that does not count can go. -/
theorem Queued.skip {record : String × ℕ} (h : Queued entries (record :: recency) clock)
    (hstale : currentEntry entries record = none) : Queued entries recency clock where
  increasing := h.increasing.of_cons
  past record' hrecord := h.past record' (List.mem_cons_of_mem _ hrecord)
  queued hash entry hget := by
    rcases List.mem_cons.mp (h.queued hash entry hget) with rfl | hmem
    · have hcurrent : currentEntry entries (hash, entry.generation) = some (hash, entry.blob) :=
        currentEntry_eq_some.mpr ⟨rfl, entry, hget, rfl, rfl⟩
      rw [hstale] at hcurrent
      cases hcurrent
    · exact hmem

/-- The first record that counts can go with its entry. -/
theorem Queued.drop {generation : ℕ} (h : Queued entries ((hash, generation) :: recency) clock) :
    Queued (entries.erase hash) recency clock where
  increasing := h.increasing.of_cons
  past record hrecord := h.past record (List.mem_cons_of_mem _ hrecord)
  queued hash' entry hget := by
    rw [FiniteMap.get?_erase] at hget
    split_ifs at hget with hsame
    rcases List.mem_cons.mp (h.queued hash' entry hget) with heq | hmem
    · cases heq
      exact absurd rfl hsame
    · exact hmem

theorem inUse_erase {generation : ℕ} {entry : CacheEntry}
    (h : Queued entries ((hash, generation) :: recency) clock)
    (hget : entries.get? hash = some entry) (hgeneration : entry.generation = generation) :
    inUse entries ((hash, generation) :: recency) =
      (hash, entry.blob) :: inUse (entries.erase hash) recency := by
  have hfirst : currentEntry entries (hash, generation) = some (hash, entry.blob) :=
    currentEntry_eq_some.mpr ⟨rfl, entry, hget, hgeneration, rfl⟩
  rw [inUse, List.filterMap_cons, hfirst]
  refine congrArg _ (List.filterMap_congr fun record hrecord => ?_)
  have hlater := List.rel_of_pairwise_cons h.increasing hrecord
  by_cases hsame : record.1 = hash
  · have hstale : entry.generation ≠ record.2 := by
      rw [hgeneration]
      exact ne_of_lt hlater
    simp [currentEntry, hsame, hget, hstale, FiniteMap.get?_erase]
  · simp [currentEntry, FiniteMap.get?_erase, hsame]

end

/-- The cache and the list agree after so many calls. -/
structure Tracks (calls : ℕ) (s : CacheState) (c : LruCache) : Prop where
  clock : s.clock ≤ calls
  pinned : c.pins ≤ calls
  queued : Queued s.entries s.recency s.clock
  inUse : inUse s.entries s.recency = c.entries
  bytes : s.bytes = Lru.total LruCache.blobSize c.entries
  pins : s.pins = c.pins
  named : ∀ hash entry, s.entries.get? hash = some entry → entry.blob.hashHex = hash

/-- The rule by which the queue is compacted. -/
def Compact (s : CacheState) : Prop := s.recency.length ≤ 4 * s.entries.size + 64

namespace Tracks

variable {calls : ℕ} {s : CacheState} {c : LruCache} {capacity : ℕ}

theorem find (h : Tracks calls s c) (hash : String) :
    Lru.find c.entries hash = (s.entries.get? hash).map CacheEntry.blob := by
  rw [← h.inUse, find_inUse h.queued]

theorem nodup (h : Tracks calls s c) : (c.entries.map Prod.fst).Nodup := by
  rw [← h.inUse]
  exact nodup_inUse h.queued

theorem perm (h : Tracks calls s c) : (s.entries.toList.map fun e => (e.1, e.2.blob)).Perm c.entries := by
  rw [← h.inUse]
  exact entries_perm_inUse h.queued

theorem bytes_eq (h : Tracks calls s c) :
    s.bytes = (s.entries.toList.map fun e => e.2.blob.bytes.length).sum := by
  rw [h.bytes, ← Lru.total_perm LruCache.blobSize h.perm, Lru.total, List.map_map]
  rfl

theorem pruneRecency (h : Tracks calls s c) : Tracks calls s.pruneRecency c := by
  rw [CacheState.pruneRecency]
  split_ifs
  · exact h
  · refine ⟨h.clock, h.pinned, ?_, ?_, h.bytes, h.pins, h.named⟩
    · dsimp only
      rw [sorted_eq_filter h.queued]
      exact h.queued.filter
    · dsimp only
      rw [sorted_eq_filter h.queued, inUse_filter]
      exact h.inUse

theorem evictFrom {recency : List (String × ℕ)} :
    ∀ {s : CacheState} {c : LruCache}, s.clock ≤ calls → c.pins ≤ calls →
      Queued s.entries recency s.clock →
      Workspace.inUse s.entries recency = c.entries →
      s.bytes = Lru.total LruCache.blobSize c.entries → s.pins = c.pins →
      (∀ hash entry, s.entries.get? hash = some entry → entry.blob.hashHex = hash) →
      Tracks calls (s.evictFrom capacity recency)
        { c with entries := Lru.evict LruCache.blobSize capacity c.entries } := by
  induction recency with
  | nil =>
    intro s c hclock hpinned hqueued hinUse hbytes hpins hnamed
    have hnil : c.entries = [] := by rw [← hinUse]; rfl
    rw [CacheState.evictFrom, hnil]
    exact ⟨hclock, hpinned, hqueued, rfl, by rw [hbytes, hnil]; rfl, hpins, hnamed⟩
  | cons record rest ih =>
    intro s c hclock hpinned hqueued hinUse hbytes hpins hnamed
    obtain ⟨hash, generation⟩ := record
    rw [CacheState.evictFrom]
    by_cases hfits : s.bytes ≤ capacity
    · rw [if_pos hfits, Lru.evict_of_fits _ _ (hbytes ▸ hfits)]
      exact ⟨hclock, hpinned, hqueued, hinUse, hbytes, hpins, hnamed⟩
    · rw [if_neg hfits]
      -- a record that no longer counts leaves the list as it is
      have hskip : currentEntry s.entries (hash, generation) = none →
          Tracks calls (s.evictFrom capacity rest)
            { c with entries := Lru.evict LruCache.blobSize capacity c.entries } := by
        intro hstale
        refine ih hclock hpinned (hqueued.skip hstale) ?_ hbytes hpins hnamed
        rw [← hinUse, Workspace.inUse, Workspace.inUse, List.filterMap_cons, hstale]
      cases hget : s.entries.get? hash with
      | none => exact hskip (by rw [currentEntry, hget]; rfl)
      | some entry =>
        dsimp only
        by_cases hgeneration : entry.generation = generation
        · rw [if_pos hgeneration]
          have hfirst := inUse_erase hqueued hget hgeneration
          rw [hinUse] at hfirst
          have htotal : s.bytes = entry.blob.bytes.length +
              Lru.total LruCache.blobSize (Workspace.inUse (s.entries.erase hash) rest) := by
            rw [hbytes, hfirst, Lru.total_cons]
            rfl
          have hevict : Lru.evict LruCache.blobSize capacity c.entries =
              Lru.evict LruCache.blobSize capacity
                (Workspace.inUse (s.entries.erase hash) rest) := by
            rw [hfirst, Lru.evict, if_neg]
            rw [← hfirst, ← hbytes]
            exact hfits
          rw [hevict]
          refine ih (c := ⟨Workspace.inUse (s.entries.erase hash) rest, c.pins⟩) hclock hpinned
            hqueued.drop rfl ?_ hpins fun hash' entry' hget' => ?_
          · dsimp only
            omega
          · exact hnamed hash' entry' (FiniteMap.get?_erase_some hget').2
        · rw [if_neg hgeneration]
          exact hskip (by rw [currentEntry, hget]; exact if_neg hgeneration)

theorem evictTo (h : Tracks calls s c) (capacity : ℕ) :
    Tracks calls (s.evictTo capacity)
      { c with entries := Lru.evict LruCache.blobSize capacity c.entries } :=
  (evictFrom h.clock h.pinned h.queued h.inUse h.bytes h.pins h.named).pruneRecency

/-- A use of an entry, old or new. -/
theorem stamp (h : Tracks calls s c) {hash : String} {blob : VerifiedBlob}
    (hnamed : blob.hashHex = hash) {bytes : ℕ}
    (hbytes : bytes = Lru.total LruCache.blobSize (Lru.use hash blob c.entries)) :
    Tracks (calls + 1)
      { s with
        entries := s.entries.insert hash ⟨blob, s.clock + 1⟩
        recency := s.recency ++ [(hash, s.clock + 1)]
        clock := s.clock + 1
        bytes }
      { c with entries := Lru.use hash blob c.entries } where
  clock := Nat.succ_le_succ h.clock
  pinned := h.pinned.trans (Nat.le_succ _)
  queued := h.queued.stamp hash blob
  inUse := by
    dsimp only
    rw [inUse_stamp h.queued, h.inUse]
  bytes := hbytes
  pins := h.pins
  named hash' entry hget := by
    rw [FiniteMap.get?_insert] at hget
    split_ifs at hget with hsame
    · cases hget
      rw [hsame]
      exact hnamed
    · exact h.named hash' entry hget

theorem tick_eq (h : Tracks calls s c) (hcalls : calls + 1 < 2 ^ 64) :
    s.tick = { s with clock := s.clock + 1 } := by
  have hclock := h.clock
  rw [CacheState.tick, Nat.mod_eq_of_lt (by omega), Nat.max_eq_left (by omega)]

theorem later (h : Tracks calls s c) : Tracks (calls + 1) s c :=
  ⟨h.clock.trans (Nat.le_succ _), h.pinned.trans (Nat.le_succ _), h.queued, h.inUse, h.bytes, h.pins,
    h.named⟩

theorem touch (h : Tracks calls s c) (hcalls : calls + 1 < 2 ^ 64) {hash : String}
    {entry : CacheEntry} (hget : s.entries.get? hash = some entry) :
    Tracks (calls + 1) (s.touch hash)
      { c with entries := Lru.use hash entry.blob c.entries } := by
  have hmem : (hash, entry.blob) ∈ c.entries := by
    rw [← h.inUse]
    exact (mem_inUse h.queued).mpr ⟨entry, hget, rfl⟩
  rw [CacheState.touch, h.tick_eq hcalls]
  dsimp only
  rw [hget]
  refine (h.stamp (h.named hash entry hget) ?_).pruneRecency
  rw [Lru.total_perm _ (Lru.use_perm h.nodup hmem), h.bytes]

theorem get (h : Tracks calls s c) (hcalls : calls + 1 < 2 ^ 64) (hash : String) :
    Tracks (calls + 1) (s.get hash).1 (c.get hash).1 ∧ (s.get hash).2 = (c.get hash).2 := by
  rw [CacheState.get, LruCache.get, h.find]
  cases hget : s.entries.get? hash with
  | none => exact ⟨h.later, rfl⟩
  | some entry => exact ⟨h.touch hcalls hget, rfl⟩

variable (capacity) in
theorem insert (h : Tracks calls s c) (hcalls : calls + 1 < 2 ^ 64) {blob : VerifiedBlob}
    (hfits : s.Fits (.insert blob)) :
    Tracks (calls + 1) (s.insert capacity blob).1 (c.insert capacity blob).1 ∧
      (s.insert capacity blob).2 = (c.insert capacity blob).2 := by
  rw [CacheState.insert, LruCache.insert, h.find]
  dsimp only
  cases hget : s.entries.get? blob.hashHex with
  | some entry => exact ⟨h.touch hcalls hget, rfl⟩
  | none =>
    have hsum : s.bytes + blob.bytes.length < 2 ^ 64 := by
      rw [h.bytes_eq]
      exact hfits hget
    have hnew : ∀ known, (blob.hashHex, known) ∉ c.entries := by
      intro known hmem
      rw [← h.inUse] at hmem
      obtain ⟨entry, hentry, -⟩ := (mem_inUse h.queued).mp hmem
      rw [hget] at hentry
      cases hentry
    have hbytes : saturatingAdd s.bytes blob.bytes.length =
        Lru.total LruCache.blobSize (Lru.use blob.hashHex blob c.entries) := by
      rw [Lru.total_use_new _ hnew, ← h.bytes, saturatingAdd, usizeMax, Nat.min_eq_left (by omega)]
      rfl
    have hsame : (capacity = 0 ∨ LruCache.blobSize blob > capacity ∧ c.pins = 0) ↔
        (capacity = 0 ∨ blob.bytes.length > capacity ∧ s.pins = 0) := by
      rw [h.pins]
      rfl
    dsimp only [Option.map_none]
    rw [LruCache.fit]
    by_cases hrefused : capacity = 0 ∨ blob.bytes.length > capacity ∧ s.pins = 0
    · rw [if_pos hrefused, if_pos (hsame.mpr hrefused)]
      exact ⟨h.later, rfl⟩
    · rw [if_neg hrefused, if_neg (mt hsame.mp hrefused), h.tick_eq hcalls]
      refine ⟨?_, rfl⟩
      have hstamp := h.stamp rfl hbytes
      by_cases hpins : s.pins = 0
      · rw [if_pos hpins, if_pos (h.pins ▸ hpins)]
        exact (hstamp.evictTo capacity).pruneRecency
      · rw [if_neg hpins, if_neg (h.pins ▸ hpins)]
        exact hstamp.pruneRecency

variable (capacity) in
theorem step (h : Tracks calls s c) (hcalls : calls + 1 < 2 ^ 64) {op : CacheOp}
    (hfits : s.Fits op) :
    Tracks (calls + 1) (s.step capacity op).1 (c.step capacity op).1 ∧
      (s.step capacity op).2 = (c.step capacity op).2 := by
  have hpinned := h.pinned
  cases op with
  | get hash => exact h.get hcalls hash
  | insert blob =>
    obtain ⟨htracks, hout⟩ := h.insert capacity hcalls hfits
    exact ⟨htracks, congrArg some hout⟩
  | pin =>
    refine ⟨⟨h.later.clock, Nat.succ_le_succ hpinned, h.queued, h.inUse, h.bytes, ?_, h.named⟩, rfl⟩
    rw [CacheState.step, CacheState.pin, saturatingAdd, usizeMax, h.pins,
      Nat.min_eq_left (by omega)]
    rfl
  | unpin =>
    have hdropped : Tracks (calls + 1) { s with pins := s.pins - 1 }
        { c with pins := c.pins - 1 } :=
      ⟨h.later.clock, (Nat.sub_le _ _).trans h.later.pinned, h.queued, h.inUse, h.bytes,
        congrArg (· - 1) h.pins, h.named⟩
    refine ⟨?_, rfl⟩
    rw [CacheState.step, LruCache.step, CacheState.unpin, LruCache.fit]
    dsimp only
    by_cases hlast : s.pins - 1 = 0
    · rw [if_pos hlast, if_pos (h.pins ▸ hlast)]
      exact hdropped.evictTo capacity
    · rw [if_neg hlast, if_neg (h.pins ▸ hlast)]
      exact hdropped

end Tracks

namespace CacheState

theorem compact_pruneRecency (s : CacheState) : Compact s.pruneRecency := by
  rw [pruneRecency]
  split_ifs with hshort
  · rw [maximumRecency, saturatingAdd, recencyGenerationsPerEntry, recencyGenerationSlop] at hshort
    rw [Compact]
    omega
  · rw [Compact]
    have hlength : (SortedSet.sortByKey Prod.snd
        (s.entries.toList.map fun e => (e.1, e.2.generation))).length = s.entries.size := by
      rw [SortedSet.sortByKey, List.length_insertionSort, List.length_map, FiniteMap.toList,
        List.length_map, FiniteMap.size]
    dsimp only
    rw [hlength]
    omega

theorem compact_touch {s : CacheState} (h : Compact s) (hash : String) :
    Compact (s.touch hash) := by
  rw [touch]
  cases s.tick.entries.get? hash with
  | none => exact h
  | some entry => exact compact_pruneRecency _

theorem compact_step {s : CacheState} (h : Compact s) (capacity : ℕ) (op : CacheOp) :
    Compact (s.step capacity op).1 := by
  cases op with
  | get hash =>
    rw [step, get]
    cases s.entries.get? hash with
    | none => exact h
    | some entry => exact compact_touch h hash
  | insert blob =>
    rw [step, insert]
    cases s.entries.get? blob.hashHex with
    | some entry => exact compact_touch h _
    | none =>
      dsimp only
      split_ifs
      · exact h
      · exact compact_pruneRecency _
      · exact compact_pruneRecency _
  | pin => exact h
  | unpin =>
    rw [step, unpin]
    dsimp only
    split_ifs
    · exact compact_pruneRecency _
    · exact h

end CacheState

namespace LruCache

/-- Nothing is over the capacity while nothing is pinned. -/
def Room (capacity : ℕ) (c : LruCache) : Prop :=
  c.pins = 0 → Lru.total blobSize c.entries ≤ capacity

variable {capacity : ℕ} {c : LruCache}

theorem room_fit (capacity : ℕ) (c : LruCache) : Room capacity (fit capacity c) := by
  rw [fit]
  split_ifs with hpins
  · exact fun _ => Lru.total_evict_le blobSize capacity c.entries
  · exact fun hnone => absurd hnone hpins

theorem room_use (h : Room capacity c) (hnodup : (c.entries.map Prod.fst).Nodup) {hash : String}
    {blob : VerifiedBlob} (hfind : Lru.find c.entries hash = some blob) :
    Room capacity { c with entries := Lru.use hash blob c.entries } := by
  intro hpins
  dsimp only
  rw [Lru.total_perm _ (Lru.use_perm hnodup ((Lru.find_eq_some hnodup).mp hfind))]
  exact h hpins

theorem room_step (h : Room capacity c) (hnodup : (c.entries.map Prod.fst).Nodup) (op : CacheOp) :
    Room capacity (c.step capacity op).1 := by
  cases op with
  | get hash =>
    rw [step, get]
    cases hfind : Lru.find c.entries hash with
    | none => exact h
    | some blob => exact room_use h hnodup hfind
  | insert blob =>
    rw [step, insert]
    cases hfind : Lru.find c.entries blob.hashHex with
    | some known => exact room_use h hnodup hfind
    | none =>
      dsimp only
      split_ifs
      · exact h
      · exact room_fit _ _
  | pin => exact fun hpins => absurd hpins (Nat.succ_ne_zero _)
  | unpin => exact room_fit _ _

theorem mem_fit {e : String × VerifiedBlob} (h : e ∈ (fit capacity c).entries) : e ∈ c.entries := by
  rw [fit] at h
  split_ifs at h
  · exact (Lru.evict_suffix blobSize capacity c.entries).mem h
  · exact h

theorem mem_use_find {hash : String} {blob : VerifiedBlob} {e : String × VerifiedBlob}
    (hnodup : (c.entries.map Prod.fst).Nodup) (hfind : Lru.find c.entries hash = some blob)
    (h : e ∈ Lru.use hash blob c.entries) : e ∈ c.entries :=
  (Lru.use_perm hnodup ((Lru.find_eq_some hnodup).mp hfind)).mem_iff.mp h

/-- An entry was there before, or is the blob that came in. -/
theorem mem_step (hnodup : (c.entries.map Prod.fst).Nodup) {op : CacheOp}
    {e : String × VerifiedBlob} (h : e ∈ (c.step capacity op).1.entries) :
    e ∈ c.entries ∨ op = .insert e.2 := by
  cases op with
  | get hash =>
    rw [step, get] at h
    cases hfind : Lru.find c.entries hash with
    | none =>
      rw [hfind] at h
      exact .inl h
    | some blob =>
      rw [hfind] at h
      exact .inl (mem_use_find hnodup hfind h)
  | insert blob =>
    rw [step, insert] at h
    cases hfind : Lru.find c.entries blob.hashHex with
    | some known =>
      rw [hfind] at h
      exact .inl (mem_use_find hnodup hfind h)
    | none =>
      rw [hfind] at h
      dsimp only at h
      split_ifs at h
      · exact .inl h
      · rcases Lru.mem_use.mp (mem_fit h) with rfl | ⟨hmem, -⟩
        · exact .inr rfl
        · exact .inl hmem
  | pin => exact .inl h
  | unpin => exact .inl (mem_fit (c := { c with pins := c.pins - 1 }) h)

end LruCache

/-- What the calls hand out. -/
def handedOut {σ : Type} (step : σ → CacheOp → σ × Option VerifiedBlob) :
    σ → List CacheOp → List (Option VerifiedBlob)
  | _, [] => []
  | s, op :: ops => (step s op).2 :: handedOut step (step s op).1 ops

theorem tracks_run (capacity : ℕ) (ops : List CacheOp) :
    ∀ {calls : ℕ} {s : CacheState} {c : LruCache} {done : List CacheOp},
      calls + ops.length < 2 ^ 64 →
      Run.Along CacheState.Fits (fun s op => (s.step capacity op).1) s ops →
      Tracks calls s c → Compact s → c.Room capacity →
      (∀ e ∈ c.entries, CacheOp.insert e.2 ∈ done) →
      handedOut (CacheState.step capacity) s ops = handedOut (LruCache.step capacity) c ops ∧
      ∃ calls', Tracks calls' (ops.foldl (fun s op => (s.step capacity op).1) s)
          (ops.foldl (fun c op => (c.step capacity op).1) c) ∧
        Compact (ops.foldl (fun s op => (s.step capacity op).1) s) ∧
        (ops.foldl (fun c op => (c.step capacity op).1) c).Room capacity ∧
        ∀ e ∈ (ops.foldl (fun c op => (c.step capacity op).1) c).entries,
          CacheOp.insert e.2 ∈ done ++ ops := by
  induction ops with
  | nil =>
    intro calls s c done _ _ htracks hcompact hroom hdone
    rw [List.append_nil]
    exact ⟨rfl, calls, htracks, hcompact, hroom, hdone⟩
  | cons op ops ih =>
    intro calls s c done hcalls hfits htracks hcompact hroom hdone
    rw [List.length_cons] at hcalls
    obtain ⟨hstep, hout⟩ := htracks.step capacity (by omega) hfits.1
    have hdone' : ∀ e ∈ (c.step capacity op).1.entries, CacheOp.insert e.2 ∈ done ++ [op] := by
      intro e he
      rcases LruCache.mem_step htracks.nodup he with hmem | rfl
      · exact List.mem_append_left _ (hdone e hmem)
      · exact List.mem_append_right _ List.mem_cons_self
    obtain ⟨houts, hrun⟩ := ih (by omega) hfits.2 hstep (CacheState.compact_step hcompact capacity op)
      (LruCache.room_step hroom htracks.nodup op) hdone'
    rw [List.append_assoc] at hrun
    exact ⟨by rw [handedOut, handedOut, hout, houts], hrun⟩

/-- Over any run of fewer than `2 ^ 64` calls the cache hands out what the list in the order of the
last uses does, and keeps what the list keeps. Its byte count is the sum of what it holds, and within
the capacity while nothing is pinned, a blob comes out under its own hash only after it was put in,
and the queue stays as short as the rule of its compaction has it. -/
theorem content_cache_lru (capacity : ℕ) (ops : List CacheOp) (hcalls : ops.length < 2 ^ 64)
    (hfits : Run.Along CacheState.Fits (fun s op => (s.step capacity op).1) .empty ops) :
    let s := ops.foldl (fun s op => (CacheState.step capacity s op).1) .empty
    let c := ops.foldl (fun c op => (LruCache.step capacity c op).1) .empty
    handedOut (CacheState.step capacity) .empty ops =
        handedOut (LruCache.step capacity) .empty ops ∧
      (s.entries.toList.map fun e => (e.1, e.2.blob)).Perm c.entries ∧
      s.bytes = (s.entries.toList.map fun e => e.2.blob.bytes.length).sum ∧
      (s.pins = 0 → s.bytes ≤ capacity) ∧
      (∀ hash blob, (s.get hash).2 = some blob →
        blob.hashHex = hash ∧ CacheOp.insert blob ∈ ops) ∧
      s.recency.length ≤ 4 * s.entries.size + 64 := by
  have hnone : Queued (∅ : FiniteMap String CacheEntry) [] 0 :=
    ⟨List.Pairwise.nil, fun _ h => (by cases h), fun _ _ h => (by cases h)⟩
  have hempty : Tracks 0 .empty .empty :=
    ⟨le_refl _, le_refl _, hnone, rfl, rfl, rfl, fun _ _ h => by cases h⟩
  have hnothing : ∀ e ∈ LruCache.empty.entries, CacheOp.insert e.2 ∈ ([] : List CacheOp) :=
    fun _ h => by cases h
  obtain ⟨houts, calls, htracks, hcompact, hroom, hdone⟩ := tracks_run capacity ops (by omega) hfits
    hempty (Nat.zero_le _) (fun _ => Nat.zero_le _) hnothing
  refine ⟨houts, htracks.perm, htracks.bytes_eq, fun hpins => ?_, fun hash blob hget => ?_, hcompact⟩
  · rw [htracks.bytes]
    exact hroom (htracks.pins ▸ hpins)
  · rw [CacheState.get] at hget
    cases hentry : (ops.foldl (fun s op => (CacheState.step capacity s op).1)
        CacheState.empty).entries.get? hash with
    | none =>
      rw [hentry] at hget
      cases hget
    | some entry =>
      rw [hentry] at hget
      cases hget
      have hfind := htracks.find hash
      rw [hentry] at hfind
      exact ⟨htracks.named hash entry hentry,
        hdone _ ((Lru.find_eq_some htracks.nodup).mp hfind)⟩

end

namespace TestVectors

/-- The first blob is used again before the third comes in. -/
def reusedFirst : List CacheOp :=
  [.insert (.new [0]), .insert (.new (closePayload "s")), .get (hexHash [0]),
    .insert (.new (closePayload "t"))]

theorem content_cache_lru_reused :
    handedOut (CacheState.step 50) .empty reusedFirst =
        handedOut (LruCache.step 50) .empty reusedFirst ∧
      (reusedFirst.foldl (fun s op => (CacheState.step 50 s op).1) .empty).bytes ≤ 50 := by
  have h := content_cache_lru 50 reusedFirst (by decide) (by decide +kernel)
  exact ⟨h.1, h.2.2.2.1 (by decide +kernel)⟩

/-- The second blob went, as the least recently used one. -/
example : ((reusedFirst.foldl (fun s op => (CacheState.step 50 s op).1) .empty).entries.keys) =
    {hexHash [0], hexHash (closePayload "t")} := by decide +kernel

end TestVectors
end Workspace
