import Reframe.Lib.PyText
import Reframe.Lib.Run

/-! How a spoken text is cut into chunks, and where the chunks stand in it. -/
namespace ReframeSpeech
open PyText Run

inductive ChunkingError where
  | valueError (message : String)
  deriving DecidableEq

/-- `[.!?;:]` -/
def isSentenceEnd (c : Char) : Bool := ".!?;:".toList.contains c

/-- The ends of the matches of `[.!?;:,]\s+`; `position` stands before the text, and `ended` says
whether a match is under way. -/
def punctuationEnds (position : ℕ) (afterMark inMatch : Bool) : Text → List ℕ
  | [] => if inMatch then [position] else []
  | c :: rest =>
    if isSpace c then punctuationEnds (position + 1) false (afterMark || inMatch) rest
    else
      let ends := punctuationEnds (position + 1) (isSentenceEnd c || c = ',') false rest
      if inMatch then position :: ends else ends

def conjunctions : List String :=
  [" and ", " but ", " so ", " then ", " because ", " while ", " which ", " that "]

def firstSplitIndex (text : Text) (maxChars : ℕ) : ℕ :=
  let window := text.take (maxChars + 1)
  let lowerBound := max 12 (maxChars / 3)
  let marked := (punctuationEnds 0 false false window).find? fun stop =>
    lowerBound ≤ stop && stop ≤ maxChars
  let conjunction := conjunctions.findSome? fun separator =>
    (rfind window separator.toList).filter fun index => lowerBound ≤ index
  let blank := (rfind window [' ']).filter fun index => lowerBound ≤ index
  (marked.or (conjunction.or blank)).getD maxChars

def firstFragment (text : Text) (maxChars : ℕ) : Text × Text :=
  if text.length ≤ maxChars then (text, [])
  else
    let splitAt := firstSplitIndex text maxChars
    (strip (text.take splitAt), strip (text.drop splitAt))

def splitIndex (text : Text) (maxChars : ℕ) : ℕ :=
  let window := text.take (maxChars + 1)
  let lowerBound := max 32 (maxChars / 3)
  let separated := [", ", " - ", " "].findSome? fun separator =>
    ((rfind window separator.toList).filter fun index => lowerBound ≤ index).map fun index =>
      if separator = ", " then index + 1 else index
  separated.getD maxChars

/-- The loop of `_split_long_fragment`. -/
def splitLoop (maxChars : ℕ) : ℕ → Text → Except (Stop ChunkingError) (List Text)
  | 0, _ => .error .exhausted
  | fuel + 1, remaining =>
    if maxChars < remaining.length then do
      let stop := splitIndex remaining maxChars
      let pieces ← splitLoop maxChars fuel (strip (remaining.drop stop))
      pure (strip (remaining.take stop) :: pieces)
    else pure (if remaining = [] then [] else [remaining])

def splitLongFragment (fuel : ℕ) (fragment : Text) (maxChars : ℕ) :
    Except (Stop ChunkingError) (List Text) := splitLoop maxChars fuel (strip fragment)

/-- `re.split(r"(?<=[.!?;:])\s+", text)`; `inGap` says whether a separator is under way, `ended`
whether the character before the text ends a sentence. -/
def splitSentences (inGap ended : Bool) : Text → List Text
  | [] => [[]]
  | c :: rest =>
    if isSpace c && inGap then splitSentences true false rest
    else if isSpace c && ended then [] :: splitSentences true false rest
    else push c (splitSentences false (isSentenceEnd c) rest)

/-- A piece is added to the current chunk if it fits. -/
def addPiece (maxChars : ℕ) (state : List Text × Text) (piece : Text) : List Text × Text :=
  let (chunks, current) := state
  if current = [] then (chunks, piece)
  else if current.length + 1 + piece.length ≤ maxChars then (chunks, current ++ ' ' :: piece)
  else (chunks ++ [current], piece)

def speechChunks (fuel : ℕ) (text : Text) (maxChars firstChunkChars : ℕ) :
    Except (Stop ChunkingError) (List Text) := do
  if maxChars < 1 then throw (.error (.valueError "max_chars must be at least 1"))
  if firstChunkChars < 1 then throw (.error (.valueError "first_chunk_chars must be at least 1"))
  let clean := joinWords (splitWords text)
  if clean = [] then return []
  let (first, remaining) := firstFragment clean firstChunkChars
  let chunks := if first ≠ [] then [first] else []
  let (chunks, current) ← (splitSentences false false remaining).foldlM (fun state sentence => do
    let pieces ← splitLongFragment fuel sentence maxChars
    pure (pieces.foldl (addPiece maxChars) state)) (chunks, [])
  return if current ≠ [] then chunks ++ [current] else chunks

/-- `_chunk_spans` from a cursor on. -/
def chunkSpans (text : Text) (cursor : ℕ) : List Text → List ℕ
  | [] => []
  | chunk :: chunks =>
    let index := (find text chunk cursor).getD cursor
    index :: chunkSpans text (index + chunk.length) chunks

/-! Where the cuts are made. -/

theorem rfind_window {text separator : Text} {maxChars lowerBound index : ℕ}
    (h : (rfind (text.take (maxChars + 1)) separator).filter (fun i => lowerBound ≤ i) = some index) :
    lowerBound ≤ index ∧ index + separator.length ≤ maxChars + 1 ∧
      separator <+: text.drop index := by
  obtain ⟨hfind, hlower⟩ := Option.filter_eq_some_iff.mp h
  refine ⟨of_decide_eq_true hlower, (rfind_le hfind).trans (List.length_take_le _ _),
    (rfind_starts hfind).trans ?_⟩
  rw [List.drop_take]
  exact List.take_prefix _ _

theorem firstSplitIndex_bounds (text : Text) {maxChars : ℕ} (h : 1 ≤ maxChars) :
    0 < firstSplitIndex text maxChars ∧ firstSplitIndex text maxChars ≤ maxChars := by
  have hlower : 0 < max 12 (maxChars / 3) := by omega
  rw [firstSplitIndex]
  cases hmarked : List.find? _ (punctuationEnds 0 false false (text.take (maxChars + 1))) with
  | some stop =>
    have hstop := List.find?_some hmarked
    rw [Bool.and_eq_true, decide_eq_true_eq, decide_eq_true_eq] at hstop
    exact ⟨hlower.trans_le hstop.1, hstop.2⟩
  | none =>
    rw [Option.none_or]
    cases hconjunction : List.findSome? _ _ with
    | some index =>
      obtain ⟨separator, hmem, hindex⟩ := List.exists_of_findSome?_eq_some hconjunction
      obtain ⟨hle, hlength, -⟩ := rfind_window hindex
      have hseparators : ∀ separator ∈ conjunctions, 1 ≤ separator.toList.length := by decide
      have hseparator := hseparators separator hmem
      exact ⟨hlower.trans_le hle, by simp only [Option.some_or, Option.getD_some]; omega⟩
    | none =>
      rw [Option.none_or]
      cases hblank : Option.filter _ _ with
      | some index =>
        obtain ⟨hle, hlength, -⟩ := rfind_window hblank
        exact ⟨hlower.trans_le hle, by simpa using hlength⟩
      | none => exact ⟨h, le_rfl⟩

/-- A long fragment is cut before a blank, or else at full length. -/
theorem splitIndex_cut (text : Text) {maxChars : ℕ} (h : 1 ≤ maxChars) :
    0 < splitIndex text maxChars ∧ splitIndex text maxChars ≤ maxChars ∧
      (splitIndex text maxChars = maxChars ∨
        ∃ rest, text.drop (splitIndex text maxChars) = ' ' :: rest) := by
  have hlower : 0 < max 32 (maxChars / 3) := by omega
  rw [splitIndex]
  cases hseparated : List.findSome? _ _ with
  | none => exact ⟨h, le_rfl, .inl rfl⟩
  | some stop =>
    obtain ⟨separator, hmem, hstop⟩ := List.exists_of_findSome?_eq_some hseparated
    obtain ⟨index, hindex, rfl⟩ := Option.map_eq_some_iff.mp hstop
    obtain ⟨hle, hlength, hstarts⟩ := rfind_window hindex
    rw [Option.getD_some]
    split_ifs with hcomma
    · rw [hcomma, show ", ".toList = [',', ' '] by decide] at hstarts hlength
      obtain ⟨rest, hrest⟩ := hstarts
      have hdrop : text.drop (index + 1) = ' ' :: rest := by
        rw [← List.drop_drop, ← hrest]
        rfl
      exact ⟨by omega, by simpa using hlength, .inr ⟨rest, hdrop⟩⟩
    · have hblank : ∃ more, separator.toList = ' ' :: more := by
        simp only [List.mem_cons, List.not_mem_nil, or_false] at hmem
        obtain rfl | rfl | rfl := hmem
        · exact (hcomma rfl).elim
        · exact ⟨['-', ' '], by decide⟩
        · exact ⟨[], by decide⟩
      obtain ⟨more, hmore⟩ := hblank
      rw [hmore] at hstarts hlength
      obtain ⟨rest, hrest⟩ := hstarts
      rw [List.length_cons] at hlength
      exact ⟨by omega, by omega, .inr ⟨more ++ rest, hrest.symm⟩⟩

/-! The pieces of a fragment. -/

structure IsPiece (maxChars : ℕ) (piece : Text) : Prop where
  spaced : SingleSpaced piece
  ne : piece ≠ []
  short : piece.length ≤ maxChars

/-- Only behind a piece of full length there may be no blank. -/
inductive Tight (maxChars : ℕ) : List Text → Text → Prop where
  | last {piece : Text} : IsPiece maxChars piece → Tight maxChars [piece] piece
  | blank {piece : Text} {pieces : List Text} {rest : Text} : IsPiece maxChars piece →
      Tight maxChars pieces rest → Tight maxChars (piece :: pieces) (piece ++ ' ' :: rest)
  | hard {piece : Text} {pieces : List Text} {rest : Text} : IsPiece maxChars piece →
      piece.length = maxChars → Tight maxChars pieces rest →
      Tight maxChars (piece :: pieces) (piece ++ rest)

variable {maxChars : ℕ}

theorem Tight.append_blank {ps qs : List Text} {s t : Text} (hps : Tight maxChars ps s)
    (hqs : Tight maxChars qs t) : Tight maxChars (ps ++ qs) (s ++ ' ' :: t) := by
  induction hps with
  | last hp => exact .blank hp hqs
  | blank hp _ ih =>
    rw [List.append_assoc, List.cons_append]
    exact .blank hp ih
  | hard hp hfull _ ih =>
    rw [List.append_assoc]
    exact .hard hp hfull ih

theorem splitLoop_tight (hmax : 1 ≤ maxChars) (n : ℕ) : ∀ {text : Text}, text.length ≤ n →
    SingleSpaced text → text ≠ [] → ∃ pieces, Tight maxChars pieces text ∧
      ∀ fuel, text.length ≤ fuel → splitLoop maxChars fuel text = .ok pieces := by
  induction n with
  | zero => exact fun hlength _ hne => (hne (List.length_eq_zero_iff.mp (by omega))).elim
  | succ n ih =>
    intro text hlength hspaced hne
    have hpos := List.length_pos_iff.mpr hne
    by_cases hlong : maxChars < text.length
    · obtain ⟨hstop, hstopLe, hwhere⟩ := splitIndex_cut text hmax
      obtain ⟨a, b, ha, hb, hsa, hsb, hnea, hneb, hlea, hlb, hcut⟩ :=
        hspaced.cut hstop (hstopLe.trans_lt hlong)
      obtain ⟨pieces, htight, hok⟩ := ih (by omega) hsb hneb
      refine ⟨a :: pieces, ?_, fun fuel hfuel => ?_⟩
      · have hpiece : IsPiece maxChars a := ⟨hsa, hnea, hlea.trans hstopLe⟩
        rcases hcut with hcut | ⟨hcut, hfull⟩
        · exact hcut ▸ .blank hpiece htight
        · refine hcut ▸ .hard hpiece (hfull.trans (hwhere.resolve_right ?_)) htight
          rintro ⟨rest, hrest⟩
          rw [← hfull, hcut, List.drop_left] at hrest
          rw [hrest] at hsb
          exact Bool.false_ne_true (hsb.head_not_space.symm.trans (by decide))
      · obtain ⟨fuel, rfl⟩ : ∃ m, fuel = m + 1 := ⟨fuel - 1, by omega⟩
        rw [splitLoop, if_pos hlong]
        dsimp only
        rw [hb, hok fuel (by omega), ha]
        rfl
    · refine ⟨[text], .last ⟨hspaced, hne, not_lt.mp hlong⟩, fun fuel hfuel => ?_⟩
      obtain ⟨fuel, rfl⟩ : ∃ m, fuel = m + 1 := ⟨fuel - 1, by omega⟩
      rw [splitLoop, if_neg hlong, if_neg hne]
      rfl

/-! The sentences. -/

/-- The text is the sentences with a blank between them. -/
inductive Sentences : List Text → Text → Prop where
  | last (sentence : Text) : Sentences [sentence] sentence
  | blank (sentence : Text) {sentences : List Text} {rest : Text} : Sentences sentences rest →
      Sentences (sentence :: sentences) (sentence ++ ' ' :: rest)

theorem Sentences.push {c : Char} {sentences : List Text} {text : Text}
    (h : Sentences sentences text) : Sentences (push c sentences) (c :: text) := by
  cases h with
  | last => exact .last (c :: text)
  | blank sentence h => exact .blank (c :: sentence) h

theorem splitSentences_sentences (text : Text) (hblanks : ∀ c ∈ text, isSpace c = true → c = ' ')
    (hapart : text.IsChain fun c d => ¬ (isSpace c = true ∧ isSpace d = true)) :
    ∀ {inGap ended : Bool}, (inGap = true → ∀ c ∈ text.head?, isSpace c = false) →
      Sentences (splitSentences inGap ended text) text := by
  induction text with
  | nil => exact fun _ => .last []
  | cons c rest ih =>
    intro inGap ended hgap
    rw [List.forall_mem_cons] at hblanks
    obtain ⟨hnext, hrest⟩ := List.isChain_cons.mp hapart
    rw [splitSentences]
    split_ifs with hinGap hended
    · rw [Bool.and_eq_true] at hinGap
      rw [hgap hinGap.2 c rfl] at hinGap
      cases hinGap.1
    · rw [Bool.and_eq_true] at hended
      obtain rfl := hblanks.1 hended.1
      exact .blank [] (ih hblanks.2 hrest fun _ d hd =>
        Bool.eq_false_iff.mpr fun hd' => hnext d hd ⟨hended.1, hd'⟩)
    · exact Sentences.push (ih hblanks.2 hrest fun h => (nomatch h))

/-- All pieces of the sentences, in the order in which they are joined again. -/
theorem Sentences.pieces (hmax : 1 ≤ maxChars) {sentences : List Text} {text : Text}
    (h : Sentences sentences text) : SingleSpaced text → text ≠ [] →
      ∃ pieces, Tight maxChars pieces text ∧ ∀ fuel, text.length ≤ fuel → ∀ state,
        sentences.foldlM (fun state sentence => do
          let pieces ← splitLongFragment fuel sentence maxChars
          pure (pieces.foldl (addPiece maxChars) state)) state =
            (.ok (pieces.foldl (addPiece maxChars) state) :
              Except (Stop ChunkingError) (List Text × Text)) := by
  have hone : ∀ {sentence : Text}, SingleSpaced sentence → sentence ≠ [] →
      ∃ pieces, Tight maxChars pieces sentence ∧ ∀ fuel, sentence.length ≤ fuel →
        splitLongFragment fuel sentence maxChars = .ok pieces := by
    intro sentence hspaced hne
    obtain ⟨pieces, htight, hok⟩ := splitLoop_tight hmax _ le_rfl hspaced hne
    refine ⟨pieces, htight, fun fuel hfuel => ?_⟩
    rw [splitLongFragment, strip_of_trimmed hspaced.trimmed]
    exact hok fuel hfuel
  induction h with
  | last sentence =>
    intro hspaced hne
    obtain ⟨pieces, htight, hok⟩ := hone hspaced hne
    refine ⟨pieces, htight, fun fuel hfuel state => ?_⟩
    rw [List.foldlM_cons, hok fuel hfuel]
    rfl
  | @blank sentence sentences rest _ ih =>
    intro hspaced _
    obtain ⟨hs, hs', hne, hne'⟩ := hspaced.of_blank
    obtain ⟨pieces, htight, hok⟩ := hone hs hne
    obtain ⟨more, htight', hok'⟩ := ih hs' hne'
    refine ⟨pieces ++ more, htight.append_blank htight', fun fuel hfuel state => ?_⟩
    rw [List.length_append, List.length_cons] at hfuel
    rw [List.foldlM_cons, hok fuel (by omega), List.foldl_append]
    exact hok' fuel (by omega) _

/-! The chunks. -/

/-- Pieces are joined only where a blank was. -/
theorem addPiece_tight {current : Text} {pieces : List Text} :
    ∀ {text : Text} (chunks : List Text), Tight maxChars (current :: pieces) text → ∃ more last,
      pieces.foldl (addPiece maxChars) (chunks, current) = (chunks ++ more, last) ∧ last ≠ [] ∧
        Tight maxChars (more ++ [last]) text := by
  induction pieces generalizing current with
  | nil =>
    intro text chunks h
    refine ⟨[], current, by simp, ?_, h⟩
    cases h with
    | last hp => exact hp.ne
    | blank hp h => exact hp.ne
    | hard hp hfull h => exact hp.ne
  | cons piece pieces ih =>
    intro text chunks h
    have hcurrent : IsPiece maxChars current := by
      cases h with
      | blank hp h => exact hp
      | hard hp hfull h => exact hp
    rw [List.foldl_cons, addPiece, if_neg hcurrent.ne]
    split_ifs with hfits
    · refine ih chunks ?_
      cases h with
      | hard hp hfull h => omega
      | blank hp h =>
        have hjoined : ∀ {p : Text}, IsPiece maxChars p → current.length + 1 + p.length ≤ maxChars →
            IsPiece maxChars (current ++ ' ' :: p) := fun hp' hle =>
          ⟨hp.spaced.join hp'.spaced hp.ne hp'.ne, by simp, by
            rw [List.length_append, List.length_cons]
            omega⟩
        cases h with
        | last hp' => exact .last (hjoined hp' hfits)
        | blank hp' h =>
          have hblank := Tight.blank (hjoined hp' hfits) h
          rwa [List.append_assoc, List.cons_append] at hblank
        | hard hp' hfull h =>
          have hpos := List.length_pos_iff.mpr hp.ne
          omega
    · cases h with
      | blank hp h =>
        obtain ⟨more, last, hfold, hne, htight⟩ := ih (chunks ++ [current]) h
        exact ⟨current :: more, last, by simpa using hfold, hne, .blank hp htight⟩
      | hard hp hfull h =>
        obtain ⟨more, last, hfold, hne, htight⟩ := ih (chunks ++ [current]) h
        exact ⟨current :: more, last, by simpa using hfold, hne, .hard hp hfull htight⟩

/-- The chunks stand in the text from a position on, with nothing or one blank between neighbours. -/
inductive Laid : ℕ → List Text → Text → List ℕ → Prop where
  | none (start : ℕ) : Laid start [] [] []
  | last (start : ℕ) (chunk : Text) : Laid start [chunk] chunk [start]
  | next (start : ℕ) (chunk : Text) {gap next : Text} {chunks : List Text} {rest : Text}
      {spans : List ℕ} : gap = [] ∨ gap = [' '] →
      Laid (start + chunk.length + gap.length) (next :: chunks) rest spans →
      Laid start (chunk :: next :: chunks) (chunk ++ (gap ++ rest)) (start :: spans)

theorem Tight.laid {pieces : List Text} {text : Text} (h : Tight maxChars pieces text) :
    ∀ start, ∃ spans, Laid start pieces text spans := by
  induction h with
  | last hp => exact fun start => ⟨_, .last start _⟩
  | @blank piece pieces rest hp h ih =>
    intro start
    obtain ⟨spans, hspans⟩ := ih (start + piece.length + [' '].length)
    obtain ⟨next, more, rfl⟩ : ∃ next more, pieces = next :: more := by cases h <;> exact ⟨_, _, rfl⟩
    exact ⟨_, .next start piece (.inr rfl) hspans⟩
  | @hard piece pieces rest hp hfull h ih =>
    intro start
    obtain ⟨spans, hspans⟩ := ih (start + piece.length + [].length)
    obtain ⟨next, more, rfl⟩ : ∃ next more, pieces = next :: more := by cases h <;> exact ⟨_, _, rfl⟩
    exact ⟨_, .next start piece (.inl rfl) hspans⟩

theorem Tight.isPiece {pieces : List Text} {text : Text} (h : Tight maxChars pieces text) :
    ∀ piece ∈ pieces, IsPiece maxChars piece := by
  induction h with
  | last hp => simpa using hp
  | blank hp _ ih => exact List.forall_mem_cons.mpr ⟨hp, ih⟩
  | hard hp _ _ ih => exact List.forall_mem_cons.mpr ⟨hp, ih⟩

/-- The cursor stands at the chunk, or at the blank before it. -/
def AtChunk (text : Text) (cursor start : ℕ) : Prop :=
  cursor = start ∨ cursor + 1 = start ∧ ∃ rest, text.drop cursor = ' ' :: rest

theorem find_chunk {text chunk rest : Text} {cursor start : ℕ} (hcursor : AtChunk text cursor start)
    (hchunk : SingleSpaced chunk) (hne : chunk ≠ []) (hdrop : text.drop start = chunk ++ rest) :
    find text chunk cursor = some start := by
  have hle : start ≤ text.length := by
    by_contra hlt
    rw [List.drop_eq_nil_of_le (by omega)] at hdrop
    exact hne (List.append_eq_nil_iff.mp hdrop.symm).1
  refine find_of_prefix (hdrop ▸ List.prefix_append chunk rest) ?_ hle fun j hj hlt => ?_
  · rcases hcursor with rfl | ⟨rfl, -⟩ <;> omega
  · rcases hcursor with rfl | ⟨rfl, blank, hblank⟩
    · omega
    · obtain rfl : j = cursor := by omega
      obtain ⟨c, more, rfl⟩ := List.exists_cons_of_ne_nil hne
      rw [hblank]
      intro hstarts
      obtain rfl := (List.cons_prefix_cons.mp hstarts).1
      exact Bool.false_ne_true (hchunk.head_not_space.symm.trans (by decide))

/-- The search from the end of one chunk on finds the next where it stands. -/
theorem Laid.chunkSpans_eq {text : Text} {start : ℕ} {chunks : List Text} {rest : Text}
    {spans : List ℕ} (h : Laid start chunks rest spans) :
    (∀ chunk ∈ chunks, SingleSpaced chunk ∧ chunk ≠ []) → text.drop start = rest →
      ∀ {cursor}, AtChunk text cursor start → chunkSpans text cursor chunks = spans := by
  induction h with
  | none start => exact fun _ _ _ _ => rfl
  | last start chunk =>
    intro hchunks hdrop cursor hcursor
    obtain ⟨hspaced, hne⟩ := hchunks chunk (List.mem_singleton_self _)
    rw [← List.append_nil chunk] at hdrop
    rw [chunkSpans, find_chunk hcursor hspaced hne hdrop]
    rfl
  | @next start chunk gap next chunks rest spans hgap h ih =>
    intro hchunks hdrop cursor hcursor
    rw [List.forall_mem_cons] at hchunks
    rw [chunkSpans, find_chunk hcursor hchunks.1.1 hchunks.1.2 hdrop]
    have hbehind : text.drop (start + chunk.length) = gap ++ rest := by
      rw [← List.drop_drop, hdrop, List.drop_left]
    have hrest : text.drop (start + chunk.length + gap.length) = rest := by
      rw [← List.drop_drop, hbehind, List.drop_left]
    refine congrArg (start :: ·) (ih hchunks.2 hrest ?_)
    rcases hgap with rfl | rfl
    · exact .inl rfl
    · exact .inr ⟨rfl, rest, hbehind⟩

/-- What the chunks of a normalized text are. -/
structure Chunked (clean : Text) (maxChars firstChunkChars : ℕ) (chunks : List Text) : Prop where
  /-- Together they are the text, each at its own position. -/
  laid : Laid 0 chunks clean (chunkSpans clean 0 chunks)
  nonempty : ∀ chunk ∈ chunks, chunk ≠ []
  trimmed : ∀ chunk ∈ chunks, Trimmed chunk
  first : ∀ chunk ∈ chunks.head?, chunk.length ≤ firstChunkChars
  others : ∀ chunk ∈ chunks.tail, chunk.length ≤ maxChars

variable {clean : Text} {firstChunkChars : ℕ}

theorem chunked_of_laid {chunks : List Text} (hlaid : ∃ spans, Laid 0 chunks clean spans)
    (hchunks : ∀ chunk ∈ chunks, SingleSpaced chunk ∧ chunk ≠ [])
    (hfirst : ∀ chunk ∈ chunks.head?, chunk.length ≤ firstChunkChars)
    (hothers : ∀ chunk ∈ chunks.tail, chunk.length ≤ maxChars) :
    Chunked clean maxChars firstChunkChars chunks := by
  obtain ⟨spans, hspans⟩ := hlaid
  refine ⟨?_, fun chunk h => (hchunks chunk h).2, fun chunk h => (hchunks chunk h).1.trimmed, hfirst,
    hothers⟩
  rwa [hspans.chunkSpans_eq hchunks rfl (.inl rfl)]

/-- A first chunk, and the chunks of what remains. -/
theorem chunked_cut {a b : Text} (ha : SingleSpaced a) (hne : a ≠ []) (hshort : a.length ≤ firstChunkChars)
    (hcut : clean = a ++ ' ' :: b ∨ clean = a ++ b) {chunks : List Text}
    (htight : Tight maxChars chunks b) : Chunked clean maxChars firstChunkChars (a :: chunks) := by
  obtain ⟨next, more, rfl⟩ : ∃ next more, chunks = next :: more := by
    cases htight <;> exact ⟨_, _, rfl⟩
  refine chunked_of_laid ?_ ?_ ?_ fun chunk h => (htight.isPiece chunk h).short
  · rcases hcut with rfl | rfl
    · obtain ⟨spans, hspans⟩ := htight.laid (0 + a.length + [' '].length)
      exact ⟨_, .next 0 a (.inr rfl) hspans⟩
    · obtain ⟨spans, hspans⟩ := htight.laid (0 + a.length + [].length)
      exact ⟨_, .next 0 a (.inl rfl) hspans⟩
  · rw [List.forall_mem_cons]
    exact ⟨⟨ha, hne⟩, fun chunk h => ⟨(htight.isPiece chunk h).spaced, (htight.isPiece chunk h).ne⟩⟩
  · rintro _ ⟨⟩
    exact hshort

/-- The chunks of every text are returned, and together they are the normalized text. -/
theorem speechChunks_chunked (text : Text) (maxChars firstChunkChars : ℕ) (hmax : 1 ≤ maxChars)
    (hfirst : 1 ≤ firstChunkChars) :
    ∃ chunks, (∀ fuel, (joinWords (splitWords text)).length ≤ fuel →
        speechChunks fuel text maxChars firstChunkChars = .ok chunks) ∧
      Chunked (joinWords (splitWords text)) maxChars firstChunkChars chunks := by
  have hclean := singleSpaced_splitWords text
  unfold speechChunks
  generalize joinWords (splitWords text) = clean at hclean ⊢
  simp only [if_neg hmax.not_gt, if_neg hfirst.not_gt]
  by_cases hempty : clean = []
  · refine ⟨[], fun fuel _ => by rw [if_pos hempty]; rfl, ?_⟩
    rw [hempty]
    exact chunked_of_laid ⟨_, .none 0⟩ (fun _ h => nomatch h) (fun _ h => nomatch h)
      fun _ h => nomatch h
  simp only [if_neg hempty]
  have hpos := List.length_pos_iff.mpr hempty
  by_cases hshort : clean.length ≤ firstChunkChars
  · refine ⟨[clean], fun fuel hfuel => ?_, chunked_of_laid ⟨_, .last 0 clean⟩ ?_ ?_ ?_⟩
    · obtain ⟨fuel, rfl⟩ : ∃ m, fuel = m + 1 := ⟨fuel - 1, by omega⟩
      rw [firstFragment, if_pos hshort]
      dsimp only
      rw [if_pos hempty]
      rfl
    · simpa using ⟨hclean, hempty⟩
    · rintro _ ⟨⟩
      exact hshort
    · exact fun _ h => nomatch h
  · obtain ⟨hstop, hstopLe⟩ := firstSplitIndex_bounds clean hfirst
    obtain ⟨a, b, ha, hb, hsa, hsb, hnea, hneb, hlea, hlb, hcut⟩ :=
      hclean.cut hstop (hstopLe.trans_lt (not_le.mp hshort))
    have hsentences : Sentences (splitSentences false false b) b :=
      splitSentences_sentences b hsb.blanks hsb.apart fun h => nomatch h
    obtain ⟨pieces, htight, hok⟩ := hsentences.pieces hmax hsb hneb
    obtain ⟨piece, pieces, rfl⟩ : ∃ p ps, pieces = p :: ps := by cases htight <;> exact ⟨_, _, rfl⟩
    obtain ⟨more, last, hfold, hlast, htight⟩ := addPiece_tight [a] htight
    refine ⟨a :: (more ++ [last]), fun fuel hfuel => ?_,
      chunked_cut hsa hnea (hlea.trans hstopLe) (hcut.imp_right And.left) htight⟩
    have hfragment : firstFragment clean firstChunkChars = (a, b) := by
      rw [firstFragment, if_neg hshort]
      exact Prod.ext ha hb
    rw [hfragment]
    dsimp only
    rw [if_pos hnea, hok fuel (by omega), List.foldl_cons, addPiece, if_pos rfl, hfold]
    change Except.ok (if last ≠ [] then ([a] ++ more) ++ [last] else [a] ++ more) = _
    rw [if_pos hlast, List.append_assoc]
    rfl

namespace TestVectors

/-- A word is cut at full length, and the next chunk begins in the middle of it. -/
theorem speechChunks_chunked_short :
    speechChunks 8 "abc  defgh".toList 3 4 = .ok ["abc".toList, "def".toList, "gh".toList] ∧
      ∃ chunks, (∀ fuel, (joinWords (splitWords "abc  defgh".toList)).length ≤ fuel →
          speechChunks fuel "abc  defgh".toList 3 4 = .ok chunks) ∧
        Chunked (joinWords (splitWords "abc  defgh".toList)) 3 4 chunks :=
  ⟨by decide +kernel, speechChunks_chunked _ 3 4 (by decide) (by decide)⟩

end TestVectors
end ReframeSpeech
