import Reframe.Lib.Backtrack
import Reframe.Lib.PyText

/-! A confirmed trigger phrase: the transcript is matched against the phrase and its aliases, and
what is said behind it is routed on. -/
namespace TriggerPhrases

open PyText Backtrack

/-- The characters beyond ASCII that a letter of a pattern stands for without regard to case. -/
def otherCases : Char → List Char
  | 'i' => ['İ', 'ı']
  | 's' => ['ſ']
  | 'k' => ['\u212a']
  | _ => []

/-- What Python takes from the Unicode tables. -/
class UnicodeTables where
  isalnum : Char → Bool
  /-- `str.lower`. -/
  lower : Text → Text
  /-- A letter of a pattern, and one of the text, under `re.IGNORECASE`. -/
  ignoreCase : Char → Char → Bool
  isalnum_ascii : ∀ c, c.toNat < 128 → isalnum c = c.isAlphanum
  isalnum_space : ∀ c, isSpace c = true → isalnum c = false
  isalnum_otherCases : ∀ p, ∀ c ∈ otherCases p, isalnum c = true
  lower_ascii : ∀ text, (∀ c ∈ text, c.toNat < 128 ∨ isSpace c = true) →
    lower text = text.map Char.toLower
  ignoreCase_ascii : ∀ p c, p.toNat < 128 →
    (ignoreCase p c = true ↔ c.toLower = p.toLower ∨ c ∈ otherCases p.toLower)

section Tables

variable [UnicodeTables]

open UnicodeTables

inductive TriggerKind where
  | wakeCommand
  | conversationOn
  deriving Repr, DecidableEq

structure TriggerPhraseDetection where
  kind : TriggerKind
  phrase : Text
  routedTranscript : Text
  deriving Repr, DecidableEq

def triggerPrefixAliases (phrase : Text) : List Text :=
  if phrase = "jarvis".toList then
    ["java", "java's", "javas", "javis", "jarivs", "jar vice", "jar vis", "jar viss", "jarvice",
      "jarviss", "jarvis's", "jarvus", "jervis", "jervus", "jervais", "charvis", "garvis",
      "travis"].map String.toList
  else if phrase = "conversation on".toList then
    ["conversation one", "conservation on", "conservation one"].map String.toList
  else []

def confirmedWakeResidues (phrase : Text) : List Text :=
  if phrase = "jarvis".toList then ["just".toList] else []

/-- `\w` -/
def isWordChar (c : Char) : Bool := isalnum c || c = '_'

/-- `[\W_]` -/
def isNonWord (c : Char) : Bool := !isWordChar c || c = '_'

/-- `[\s,.;:!?-]` -/
def isSeparator (c : Char) : Bool := isSpace c || ",.;:!?-".toList.contains c

/-- `\b` -/
def boundary (last : Option Char) (rest : Text) : Bool :=
  last.any isWordChar != rest.head?.any isWordChar

/-- `$` -/
def atEnd (_ : Option Char) (rest : Text) : Bool := rest = [] || rest = ['\n']

def wordItems (word : Text) : List (Item Char) := word.map fun p => .one (ignoreCase p)

/-- The words of a phrase, with `[\s,.;:!?-]+` between them. -/
def phraseItems : List Text → List (Item Char)
  | [] => []
  | [word] => wordItems word
  | word :: words =>
    wordItems word ++ .one isSeparator :: .many isSeparator :: phraseItems words

/-- What a pattern asks for up to the remainder, and the remainder. -/
structure PrefixPattern where
  trigger : List (Item Char)
  remainder : List (Item Char)

def remainderItems : List (Item Char) :=
  [.many isSeparator, .many (fun c => c ≠ '\n'), .assert atEnd]

def prefixPattern (words : List Text) : PrefixPattern where
  trigger := .many isSpace :: .many isNonWord :: (phraseItems words ++ [.assert boundary])
  remainder := remainderItems

/-- `pattern.match(transcript)`, the group `remainder` of it. -/
def PrefixPattern.matchRemainder (pattern : PrefixPattern) (transcript : Text) : Option Text :=
  capture pattern.trigger pattern.remainder transcript

def normalizePhrase (phrase : Text) : Text := joinWords (splitWords (lower phrase))

def prefixCandidates (normalizedPhrase : Text) : List Text :=
  normalizedPhrase :: triggerPrefixAliases normalizedPhrase

/-- The characters that `_clean_remainder` strips. -/
def isStripped (c : Char) : Bool := " \t\r\n,.;:!?-".toList.contains c

def cleanRemainder (value : Text) : Text := stripBy isStripped value

inductive TriggerError where
  | value (message : String)
  deriving Repr, DecidableEq

def compilePrefixPattern (phrase : Text) : Except TriggerError PrefixPattern :=
  let normalized := normalizePhrase phrase
  if normalized = [] then .error (.value "Trigger phrases cannot be empty.")
  else .ok (prefixPattern (splitWords normalized))

/-- The remainder behind the first of the candidates that the transcript starts with. -/
def matchFirst (transcript : Text) : List Text → Except TriggerError (Option Text)
  | [] => .ok none
  | candidate :: candidates => do
    let pattern ← compilePrefixPattern candidate
    match pattern.matchRemainder transcript with
    | some remainder => .ok (some remainder)
    | none => matchFirst transcript candidates

def matchConfirmed (transcript : Text) (kind : TriggerKind) (phrase : Text) :
    Except TriggerError (Option TriggerPhraseDetection) := do
  let normalized := normalizePhrase phrase
  match ← matchFirst transcript (prefixCandidates normalized) with
  | some remainder => return some ⟨kind, normalized, cleanRemainder remainder⟩
  | none =>
    if kind = .wakeCommand then
      match ← matchFirst transcript (confirmedWakeResidues normalized) with
      | some remainder => return some ⟨kind, normalized, cleanRemainder remainder⟩
      | none => return none
    else return none

/-! Characters. -/

section Ascii

omit [UnicodeTables]

theorem forall_ascii {P : Char → Prop} (h : ∀ n < 128, P (Char.ofNat n)) {c : Char}
    (hc : c.toNat < 128) : P c := Char.ofNat_toNat c ▸ h c.toNat hc

/-- A character of a phrase or an alias, once it is normalized. -/
def isTriggerChar (p : Char) : Bool := p.isLower || p.isDigit || p = '\''

theorem toLower_of_le {c : Char} (h : 128 ≤ c.toNat) : c.toLower = c := by
  unfold Char.toLower
  apply dif_neg
  rintro ⟨-, hle⟩
  have hnat : c.toNat ≤ 'Z'.toNat := UInt32.le_iff_toNat_le.mp hle
  have hZ : 'Z'.toNat = 90 := by decide
  omega

theorem isAlphanum_eq (c : Char) : c.isAlphanum = (c.isUpper || c.isLower || c.isDigit) := rfl

theorem toNat_lt_of_isAlphanum {c : Char} (h : c.isAlphanum = true) : c.toNat < 128 := by
  change (decide ('A'.val ≤ c.val ∧ c.val ≤ 'Z'.val) ||
    (decide ('a'.val ≤ c.val) && decide (c.val ≤ 'z'.val)) ||
      (decide ('0'.val ≤ c.val) && decide (c.val ≤ '9'.val))) = true at h
  simp only [Bool.or_eq_true, Bool.and_eq_true, decide_eq_true_eq, UInt32.le_iff_toNat_le] at h
  have hval : c.toNat = c.val.toNat := rfl
  have hconst : 'Z'.val.toNat = 90 ∧ 'z'.val.toNat = 122 ∧ '9'.val.toNat = 57 := by decide
  omega

theorem toNat_lt_of_toLower {c p : Char} (h : c.toLower = p) (hp : p.toNat < 128) :
    c.toNat < 128 := by
  by_contra hle
  rw [toLower_of_le (by omega)] at h
  exact hle (h ▸ hp)

theorem isTriggerChar_ascii {p : Char} (h : isTriggerChar p = true) : p.toNat < 128 := by
  simp only [isTriggerChar, Bool.or_eq_true, decide_eq_true_eq] at h
  rcases h with (h | h) | rfl
  · exact toNat_lt_of_isAlphanum (by simp [isAlphanum_eq, h])
  · exact toNat_lt_of_isAlphanum (by simp [isAlphanum_eq, h])
  · decide

theorem isTriggerChar_toLower {p : Char} (h : isTriggerChar p = true) : p.toLower = p :=
  forall_ascii (P := fun p => isTriggerChar p = true → p.toLower = p) (by decide)
    (isTriggerChar_ascii h) h

theorem isTriggerChar_of_isAlphanum {c : Char} (h : c.isAlphanum = true) :
    isTriggerChar c.toLower = true ∧ c.toLower.isAlphanum = true :=
  forall_ascii (P := fun c => c.isAlphanum = true → isTriggerChar c.toLower = true ∧
    c.toLower.isAlphanum = true) (by decide) (toNat_lt_of_isAlphanum h) h

theorem isAlphanum_of_toLower {c : Char} (h : c.toLower.isAlphanum = true) :
    c.isAlphanum = true :=
  forall_ascii (P := fun c => c.toLower.isAlphanum = true → c.isAlphanum = true) (by decide)
    (toNat_lt_of_toLower rfl (toNat_lt_of_isAlphanum h)) h

theorem le_of_mem_otherCases {p c : Char} (h : c ∈ otherCases p) : 128 ≤ c.toNat := by
  unfold otherCases at h
  split at h <;> simp only [List.mem_cons, List.not_mem_nil, or_false] at h
  · rcases h with rfl | rfl <;> decide
  · subst h
    decide
  · subst h
    decide

theorem isSpace_of_isAlphanum {c : Char} (h : c.isAlphanum = true) : isSpace c = false :=
  forall_ascii (P := fun c => c.isAlphanum = true → isSpace c = false) (by decide)
    (toNat_lt_of_isAlphanum h) h

theorem eq_quote_of_toLower {c : Char} (h : c.toLower = '\'') : c = '\'' :=
  forall_ascii (P := fun c => c.toLower = '\'' → c = '\'') (by decide)
    (toNat_lt_of_toLower h (by decide)) h

end Ascii

theorem isWordChar_of_isAlphanum {c : Char} (h : c.isAlphanum = true) : isWordChar c = true := by
  simp [isWordChar, isalnum_ascii c (toNat_lt_of_isAlphanum h), h]

theorem isWordChar_of_isSeparator {c : Char} (h : isSeparator c = true) : isWordChar c = false := by
  simp only [isSeparator, Bool.or_eq_true, List.contains_iff_mem] at h
  rcases h with h | h
  · have hne : c ≠ '_' := by
      rintro rfl
      revert h
      decide
    simp [isWordChar, isalnum_space c h, hne]
  · have hascii : ",.;:!?-".toList.all
        (fun d => d.toNat < 128 && !d.isAlphanum && d != '_') = true := by
      decide
    have hc := List.all_eq_true.mp hascii c h
    simp only [Bool.and_eq_true, decide_eq_true_eq, Bool.not_eq_true', bne_iff_ne] at hc
    obtain ⟨⟨hlt, halnum⟩, hne⟩ := hc
    simp [isWordChar, isalnum_ascii c hlt, halnum, hne]

theorem ignoreCase_spelled {p c : Char} (hp : isTriggerChar p = true)
    (hc : isTriggerChar c.toLower = true) : ignoreCase p c = true ↔ p = c.toLower := by
  rw [ignoreCase_ascii p c (isTriggerChar_ascii hp), isTriggerChar_toLower hp]
  constructor
  · rintro (h | h)
    · exact h.symm
    · have := le_of_mem_otherCases h
      have := toNat_lt_of_toLower rfl (isTriggerChar_ascii hc)
      omega
  · exact fun h => .inl h.symm

theorem isNonWord_of_ignoreCase {p c : Char} (hp : isTriggerChar p = true)
    (halnum : p.isAlphanum = true) (h : ignoreCase p c = true) : isNonWord c = false := by
  rw [ignoreCase_ascii p c (isTriggerChar_ascii hp), isTriggerChar_toLower hp] at h
  rcases h with rfl | h
  · have hc := isAlphanum_of_toLower halnum
    have hne : c ≠ '_' := by
      rintro rfl
      revert hc
      decide
    simp [isNonWord, isWordChar_of_isAlphanum hc, hne]
  · have hne : c ≠ '_' := by
      rintro rfl
      have := le_of_mem_otherCases h
      revert this
      decide
    simp [isNonWord, isWordChar, isalnum_otherCases _ c h, hne]

theorem ignoreCase_separator {p c : Char} (hp : isTriggerChar p = true)
    (hc : isSeparator c = true) : ignoreCase p c = false := by
  have hword := isWordChar_of_isSeparator hc
  rw [Bool.eq_false_iff]
  intro h
  simp only [isTriggerChar, Bool.or_eq_true, decide_eq_true_eq] at hp
  by_cases halnum : p.isAlphanum = true
  · have hnon := isNonWord_of_ignoreCase (by simpa [isTriggerChar] using hp) halnum h
    simp [isNonWord, hword] at hnon
  · obtain rfl : p = '\'' := by
      rcases hp with (hp | hp) | rfl
      · simp [isAlphanum_eq, hp] at halnum
      · simp [isAlphanum_eq, hp] at halnum
      · rfl
    rw [ignoreCase_ascii _ _ (by decide)] at h
    rcases h with h | h
    · obtain rfl := eq_quote_of_toLower h
      revert hc
      decide
    · revert h
      simp [otherCases]

theorem isNonWord_of_isSeparator {c : Char} (h : isSeparator c = true) : isNonWord c = true := by
  simp [isNonWord, isWordChar_of_isSeparator h]

theorem isSeparator_of_isNonWord_false {c : Char} (h : isNonWord c = false) :
    isSeparator c = false := by
  rw [Bool.eq_false_iff]
  intro hc
  rw [isNonWord_of_isSeparator hc] at h
  cases h

theorem isNonWord_of_isSpace {c : Char} (h : isSpace c = true) : isNonWord c = true :=
  isNonWord_of_isSeparator (by simp [isSeparator, h])

/-! Words. -/

/-- A word of a phrase or of an alias, normalized. -/
structure TriggerWord (word : Text) : Prop where
  chars : ∀ p ∈ word, isTriggerChar p = true
  head : ∀ p ∈ word.head?, p.isAlphanum = true
  last : ∀ p ∈ word.getLast?, p.isAlphanum = true
  ne_nil : word ≠ []

omit [UnicodeTables] in
theorem triggerWord_iff {word : Text} : TriggerWord word ↔
    (∀ p ∈ word, isTriggerChar p = true) ∧ (∀ p ∈ word.head?, p.isAlphanum = true) ∧
      (∀ p ∈ word.getLast?, p.isAlphanum = true) ∧ word ≠ [] :=
  ⟨fun h => ⟨h.chars, h.head, h.last, h.ne_nil⟩, fun ⟨hc, hh, hl, hn⟩ => ⟨hc, hh, hl, hn⟩⟩

instance (word : Text) : Decidable (TriggerWord word) :=
  decidable_of_iff (word.all isTriggerChar = true ∧ word.head?.all Char.isAlphanum = true ∧
    word.getLast?.all Char.isAlphanum = true ∧ word ≠ []) (by
      rw [triggerWord_iff, List.all_eq_true, Option.all_eq_true, Option.all_eq_true]
      rfl)

/-- How a word of a pattern ends against a spelled one: with it, before it, or not at all. -/
inductive WordOrder where
  | same
  | shorter (next : Char)
  | apart

def compareWord : Text → Text → WordOrder
  | [], [] => .same
  | [], c :: _ => .shorter c
  | _ :: _, [] => .apart
  | p :: word, c :: other => if p = c then compareWord word other else .apart

theorem ends_word {word : Text} (hword : ∀ p ∈ word, isTriggerChar p = true)
    (items : List (Item Char)) {spoken : Text} (hspoken : spoken.map Char.toLower = word)
    (rest : Text) (last : Option Char) :
    ends (wordItems word ++ items) (last, spoken ++ rest) =
      ends items (lastOf last spoken, rest) := by
  induction spoken generalizing word last with
  | nil =>
    subst hspoken
    rfl
  | cons c spoken ih =>
    subst hspoken
    rw [List.map_cons, List.forall_mem_cons] at hword
    have hc : ignoreCase c.toLower c = true := (ignoreCase_spelled hword.1 hword.1).mpr rfl
    have hrest := ih hword.2 rfl (some c)
    simp only [wordItems, List.map_cons, List.cons_append, ends_one_cons] at hrest ⊢
    rw [if_pos hc, hrest, lastOf_cons]

/-- Words that come apart are not taken for each other. -/
theorem ends_of_apart {word other : Text} (hword : ∀ p ∈ word, isTriggerChar p = true)
    (hother : ∀ p ∈ other, isTriggerChar p = true) (h : compareWord word other = .apart)
    (items : List (Item Char)) {spoken : Text} (hspoken : spoken.map Char.toLower = other)
    {rest : Text} (hrest : ∀ c ∈ rest.head?, isSeparator c = true) (last : Option Char) :
    ends (wordItems word ++ items) (last, spoken ++ rest) = [] := by
  induction spoken generalizing word other last with
  | nil =>
    subst hspoken
    cases word with
    | nil => exact nomatch h
    | cons p word =>
      cases rest with
      | nil => rfl
      | cons c rest =>
        have hc := ignoreCase_separator (hword p List.mem_cons_self) (hrest c rfl)
        simp [wordItems, hc]
  | cons c spoken ih =>
    subst hspoken
    cases word with
    | nil => exact nomatch h
    | cons p word =>
      rw [List.forall_mem_cons] at hword
      rw [List.map_cons, List.forall_mem_cons] at hother
      rw [List.map_cons, compareWord] at h
      have hiff := ignoreCase_spelled hword.1 hother.1
      by_cases hp : p = c.toLower
      · rw [if_pos hp] at h
        have htail := ih hword.2 hother.2 h rfl (some c)
        simp only [wordItems, List.map_cons, List.cons_append, ends_one_cons] at htail ⊢
        rw [if_pos (hiff.mpr hp), htail]
      · simp only [wordItems, List.map_cons, List.cons_append, ends_one_cons]
        exact if_neg fun hc => hp (hiff.mp hc)

omit [UnicodeTables] in
theorem of_compareWord_shorter {word other : Text} {next : Char}
    (h : compareWord word other = .shorter next) : ∃ more, other = word ++ next :: more := by
  induction word, other using compareWord.induct with
  | case1 => exact nomatch h
  | case2 c other =>
    obtain rfl := WordOrder.shorter.inj h
    exact ⟨other, rfl⟩
  | case3 => exact nomatch h
  | case4 p word other ih =>
    rw [compareWord, if_pos rfl] at h
    obtain ⟨more, rfl⟩ := ih h
    exact ⟨more, rfl⟩
  | case5 p word c other hne =>
    rw [compareWord, if_neg hne] at h
    exact nomatch h

omit [UnicodeTables] in
theorem of_compareWord_same {word other : Text} (h : compareWord word other = .same) :
    word = other := by
  induction word, other using compareWord.induct with
  | case1 => rfl
  | case2 => exact nomatch h
  | case3 => exact nomatch h
  | case4 p word other ih =>
    rw [compareWord, if_pos rfl] at h
    rw [ih h]
  | case5 p word c other hne =>
    rw [compareWord, if_neg hne] at h
    exact nomatch h

/-! Phrases. -/

/-- The words of a phrase as they are said: in any letter case, one or more separators between
them. -/
inductive Spelling : List Text → Text → Prop
  | last {word spoken : Text} (h : spoken.map Char.toLower = word) : Spelling [word] spoken
  | word {word next spoken gap rest : Text} {words : List Text}
      (h : spoken.map Char.toLower = word) (hne : gap ≠ [])
      (hgap : ∀ c ∈ gap, isSeparator c = true) (hrest : Spelling (next :: words) rest) :
      Spelling (word :: next :: words) (spoken ++ (gap ++ rest))

/-- What a pattern asks for behind a word. -/
def afterWord : List Text → List (Item Char)
  | [] => []
  | words => .one isSeparator :: .many isSeparator :: phraseItems words

theorem phraseItems_cons (word : Text) (words : List Text) :
    phraseItems (word :: words) = wordItems word ++ afterWord words := by
  cases words <;> simp [phraseItems, afterWord]

/-- A phrase begins with a letter or a digit. -/
theorem rejects_phraseItems {word : Text} {words : List Text} (hword : TriggerWord word)
    (items : List (Item Char)) :
    Rejects isNonWord (phraseItems (word :: words) ++ items) := by
  intro last c rest hc
  obtain ⟨p, word, rfl⟩ := List.exists_cons_of_ne_nil hword.ne_nil
  have hp : ignoreCase p c = false := by
    rw [Bool.eq_false_iff]
    intro h
    rw [isNonWord_of_ignoreCase (hword.chars p List.mem_cons_self) (hword.head p rfl) h] at hc
    cases hc
  simp [phraseItems_cons, wordItems, hp]

theorem rejects_separator {word : Text} {words : List Text} (hword : TriggerWord word)
    {items : List (Item Char)} : Rejects isSeparator (phraseItems (word :: words) ++ items) :=
  fun last c rest hc =>
    rejects_phraseItems hword items last c rest (isNonWord_of_isSeparator hc)

omit [UnicodeTables] in
theorem spelled_head {word spoken : Text} (hword : TriggerWord word)
    (h : spoken.map Char.toLower = word) : ∃ c more, spoken = c :: more ∧ c.isAlphanum = true := by
  cases spoken with
  | nil => exact (hword.ne_nil h.symm).elim
  | cons c more =>
    subst h
    exact ⟨c, more, rfl, isAlphanum_of_toLower (hword.head _ rfl)⟩

theorem Spelling.head {words : List Text} {spoken : Text} (h : Spelling words spoken)
    (hwords : ∀ word ∈ words, TriggerWord word) :
    ∃ c more, spoken = c :: more ∧ isNonWord c = false := by
  have hnon {c : Char} (hc : c.isAlphanum = true) : isNonWord c = false := by
    have hne : c ≠ '_' := by
      rintro rfl
      revert hc
      decide
    simp [isNonWord, isWordChar_of_isAlphanum hc, hne]
  cases h with
  | last h =>
    obtain ⟨c, more, rfl, hc⟩ := spelled_head (hwords _ List.mem_cons_self) h
    exact ⟨c, more, rfl, hnon hc⟩
  | word h _ _ _ =>
    obtain ⟨c, more, rfl, hc⟩ := spelled_head (hwords _ List.mem_cons_self) h
    exact ⟨c, _, rfl, hnon hc⟩

omit [UnicodeTables] in
theorem spelled_last {word spoken : Text} (hword : TriggerWord word)
    (h : spoken.map Char.toLower = word) : ∃ c, spoken.getLast? = some c ∧ c.isAlphanum = true := by
  have hne : spoken ≠ [] := by
    rintro rfl
    exact hword.ne_nil h.symm
  refine ⟨_, List.getLast?_eq_some_getLast hne, isAlphanum_of_toLower (hword.last _ ?_)⟩
  rw [← h, List.getLast?_map, List.getLast?_eq_some_getLast hne]
  rfl

theorem Spelling.lastOf {words : List Text} {spoken : Text} (h : Spelling words spoken)
    (hwords : ∀ word ∈ words, TriggerWord word) (last : Option Char) :
    (Backtrack.lastOf last spoken).any isWordChar = true := by
  induction h generalizing last with
  | last h =>
    obtain ⟨c, hc, halnum⟩ := spelled_last (hwords _ List.mem_cons_self) h
    simp [Backtrack.lastOf, hc, isWordChar_of_isAlphanum halnum]
  | word h hne hgap hrest ih =>
    rw [lastOf_append, lastOf_append]
    exact ih (List.forall_mem_cons.mp hwords).2 _

omit [UnicodeTables] in
/-- The separators between two words, all of them. -/
theorem ends_gap {gap rest : Text} (hne : gap ≠ []) (hgap : ∀ c ∈ gap, isSeparator c = true)
    (hrest : ∀ c ∈ rest.head?, isSeparator c = false) {items : List (Item Char)}
    (hitems : Rejects isSeparator items) (last : Option Char) :
    ends (.one isSeparator :: .many isSeparator :: items) (last, gap ++ rest) =
      ends items (Backtrack.lastOf last gap, rest) := by
  obtain ⟨c, gap, rfl⟩ := List.exists_cons_of_ne_nil hne
  rw [List.forall_mem_cons] at hgap
  have hdrop : rest.dropWhile isSeparator = rest ∧ rest.takeWhile isSeparator = [] := by
    cases rest with
    | nil => exact ⟨rfl, rfl⟩
    | cons d rest => simp [hrest d rfl]
  rw [List.cons_append, ends_one_cons, if_pos hgap.1, ends_many_of_rejects hitems,
    List.takeWhile_append_of_pos hgap.2, List.dropWhile_append_of_pos hgap.2, hdrop.1, hdrop.2,
    List.append_nil, lastOf_cons]

/-- A phrase takes its own spelling. -/
theorem ends_spelled {words : List Text} {spoken : Text} (h : Spelling words spoken)
    (hwords : ∀ word ∈ words, TriggerWord word) {rest : Text}
    (hrest : ∀ c ∈ rest.head?, isWordChar c = false) (last : Option Char) :
    ends (phraseItems words ++ [.assert boundary]) (last, spoken ++ rest) =
      [(Backtrack.lastOf last spoken, rest)] := by
  have hlast := h.lastOf hwords
  induction h generalizing last with
  | @last word spoken h =>
    have hboundary : boundary (Backtrack.lastOf last spoken) rest = true := by
      have hhead : rest.head?.any isWordChar = false := by
        cases hc : rest.head? with
        | none => rfl
        | some c => exact hrest c hc
      simp [boundary, hlast last, hhead]
    rw [phraseItems, ends_word (hwords word List.mem_cons_self).chars _ h, ends_assert,
      if_pos hboundary]
    rfl
  | @word word next spoken gap more words h hne hgap hmore ih =>
    have hwords' := (List.forall_mem_cons.mp hwords).2
    obtain ⟨c, tail, rfl, hc⟩ := hmore.head hwords'
    have hhead : ∀ d ∈ ((c :: tail) ++ rest).head?, isSeparator d = false := by
      intro d hd
      obtain rfl := Option.some.inj hd
      exact isSeparator_of_isNonWord_false hc
    rw [phraseItems_cons, List.append_assoc, List.append_assoc, List.append_assoc,
      ends_word (hwords word List.mem_cons_self).chars _ h]
    show ends (.one isSeparator :: .many isSeparator ::
      (phraseItems (next :: words) ++ [.assert boundary])) _ = _
    rw [ends_gap hne hgap hhead (rejects_separator (hwords' next List.mem_cons_self)),
      ih hwords' _ (hmore.lastOf hwords'), lastOf_append, lastOf_append]

/-- The two phrases are not taken for each other: they differ in a word, and neither word goes on
behind the other with an apostrophe. -/
def clear : List Text → List Text → Bool
  | word :: words, other :: others =>
    match compareWord word other with
    | .same => clear words others
    | .shorter next => next.isAlphanum
    | .apart => true
  | _, _ => false

/-- A word does not end where the spoken one goes on. -/
theorem ends_shorter {word start more : Text} {c : Char} (hword : TriggerWord word)
    (hstart : start.map Char.toLower = word) (hc : c.isAlphanum = true) (words : List Text)
    (last : Option Char) :
    ends (afterWord words ++ [.assert boundary]) (Backtrack.lastOf last start, c :: more) = [] := by
  have hboundary : boundary (Backtrack.lastOf last start) (c :: more) = false := by
    simp [boundary, (Spelling.last hstart).lastOf (by simpa using hword) last,
      isWordChar_of_isAlphanum hc]
  have hsep : isSeparator c = false := by
    rw [Bool.eq_false_iff]
    intro hsep
    have hword := isWordChar_of_isSeparator hsep
    rw [isWordChar_of_isAlphanum hc] at hword
    cases hword
  cases words with
  | nil => simp [afterWord, hboundary]
  | cons next words => simp [afterWord, hsep]

theorem ends_of_first_clear {word other : Text} (hword : TriggerWord word)
    (hother : TriggerWord other) {spoken rest : Text} (hspoken : spoken.map Char.toLower = other)
    (hrest : ∀ c ∈ rest.head?, isSeparator c = true) (hne : compareWord word other ≠ .same)
    (hnext : ∀ next, compareWord word other = .shorter next → next.isAlphanum = true)
    (words : List Text) (last : Option Char) :
    ends (phraseItems (word :: words) ++ [.assert boundary]) (last, spoken ++ rest) = [] := by
  rw [phraseItems_cons, List.append_assoc]
  cases horder : compareWord word other with
  | same => exact (hne horder).elim
  | apart => exact ends_of_apart hword.chars hother.chars horder _ hspoken hrest last
  | shorter next =>
    obtain ⟨more, rfl⟩ := of_compareWord_shorter horder
    obtain ⟨start, goes, rfl, hstart, hgoes⟩ := List.map_eq_append_iff.mp hspoken
    obtain ⟨c, goes, rfl, hc, -⟩ := List.map_eq_cons_iff.mp hgoes
    have hcnext : c.toLower.isAlphanum = true := hc ▸ hnext next horder
    rw [List.append_assoc, ends_word hword.chars _ hstart]
    exact ends_shorter hword hstart (isAlphanum_of_toLower hcnext) words last

theorem ends_of_clear {words others : List Text} {spoken : Text} (hspoken : Spelling others spoken)
    (hwords : ∀ word ∈ words, TriggerWord word) (hothers : ∀ word ∈ others, TriggerWord word)
    (h : clear words others = true) {rest : Text} (hrest : ∀ c ∈ rest.head?, isSeparator c = true)
    (last : Option Char) :
    ends (phraseItems words ++ [.assert boundary]) (last, spoken ++ rest) = [] := by
  induction hspoken generalizing words last with
  | @last other spoken hsame =>
    cases words with
    | nil => exact nomatch h
    | cons word words =>
      rw [clear] at h
      refine ends_of_first_clear (hwords word List.mem_cons_self) (hothers other List.mem_cons_self)
        hsame hrest (fun horder => ?_) (fun next horder => ?_) words last
      · rw [horder] at h
        cases words <;> exact nomatch h
      · rwa [horder] at h
  | @word other next spoken gap more others hsame hne hgap hmore ih =>
    cases words with
    | nil => exact nomatch h
    | cons word words =>
      rw [clear] at h
      rw [List.append_assoc]
      have hother := List.forall_mem_cons.mp hothers
      have hword := List.forall_mem_cons.mp hwords
      by_cases horder : compareWord word other = .same
      · obtain rfl := of_compareWord_same horder
        rw [horder] at h
        cases words with
        | nil => exact nomatch h
        | cons word' words =>
          obtain ⟨c, tail, rfl, hc⟩ := hmore.head hother.2
          have hhead : ∀ d ∈ ((c :: tail) ++ rest).head?, isSeparator d = false := by
            intro d hd
            obtain rfl := Option.some.inj hd
            exact isSeparator_of_isNonWord_false hc
          rw [phraseItems_cons, List.append_assoc, ends_word hword.1.chars _ hsame,
            List.append_assoc]
          show ends (.one isSeparator :: .many isSeparator ::
            (phraseItems (word' :: words) ++ [.assert boundary])) _ = _
          rw [ends_gap hne hgap hhead
            (rejects_separator (hword.2 word' List.mem_cons_self)), ih hword.2 hother.2 h]
      · refine ends_of_first_clear hword.1 hother.1 hsame ?_ horder (fun next horder => ?_) words
          last
        · obtain ⟨c, gap, rfl⟩ := List.exists_cons_of_ne_nil hne
          intro d hd
          obtain rfl := Option.some.inj hd
          exact hgap c List.mem_cons_self
        · rwa [horder] at h

/-! The remainder. -/

/-- What is routed on when nothing of the remainder is lost and nothing of the separators kept. -/
def stripSeparators (text : Text) : Text := stripBy isSeparator text

section Remainder

omit [UnicodeTables]

theorem isStripped_of_isAlphanum {c : Char} (h : c.isAlphanum = true) : isStripped c = false :=
  forall_ascii (P := fun c => c.isAlphanum = true → isStripped c = false) (by decide)
    (toNat_lt_of_isAlphanum h) h

theorem isSeparator_of_isStripped (c : Char) (h : isStripped c = true) : isSeparator c = true := by
  have hall : " \t\r\n,.;:!?-".toList.all isSeparator = true := by decide
  exact List.all_eq_true.mp hall c (List.contains_iff_mem.mp h)

theorem of_mem_ends_remainder {last : Option Char} {text : Text} {x : Position Char}
    (h : x ∈ ends remainderItems (last, text)) : ∃ gap line,
      text = gap ++ (line ++ x.2) ∧ (∀ c ∈ gap, isSeparator c = true) ∧ '\n' ∉ line ∧
        (x.2 = [] ∨ x.2 = ['\n']) := by
  simp only [remainderItems, ends_cons, List.mem_flatMap] at h
  obtain ⟨y, hy, z, hz, h⟩ := h
  obtain ⟨gap, hgapText, hgap, -⟩ := mem_runs.mp hy
  obtain ⟨line, hlineText, hline, -⟩ := mem_runs.mp hz
  have hend : atEnd z.1 z.2 = true ∧ x = z := by
    by_cases hz : atEnd z.1 z.2 = true
    · simpa [Item.ends, hz] using h
    · simp [Item.ends, hz] at h
  obtain ⟨hend, rfl⟩ := hend
  refine ⟨gap, line, by rw [hgapText, hlineText], hgap, fun hmem => ?_, by simpa [atEnd] using hend⟩
  simpa using hline _ hmem

theorem mem_ends_remainder {gap : Text} (line rest : Text) (hgap : ∀ c ∈ gap, isSeparator c = true)
    (hline : '\n' ∉ line) (hrest : rest = [] ∨ rest = ['\n']) (last : Option Char) :
    (lastOf (lastOf last gap) line, rest) ∈
      ends remainderItems (last, gap ++ (line ++ rest)) := by
  have hend : ∀ last, atEnd last rest = true := by
    intro last
    rcases hrest with rfl | rfl <;> simp [atEnd]
  simp only [remainderItems, ends_cons, List.mem_flatMap]
  refine ⟨(lastOf last gap, line ++ rest), mem_runs.mpr ⟨gap, rfl, hgap, rfl⟩,
    (lastOf (lastOf last gap) line, rest), mem_runs.mpr ⟨line, rfl, fun c hc => ?_, rfl⟩, ?_⟩
  · have hne : c ≠ '\n' := by
      rintro rfl
      exact hline hc
    simp [hne]
  · simp [Item.ends, hend]

/-- The remainder is one line, up to a line feed at its end and those among its first separators. -/
theorem ends_remainder_eq_nil_iff (last : Option Char) (text : Text) :
    ends remainderItems (last, text) = [] ↔ '\n' ∈ (text.dropWhile isSeparator).dropLast := by
  constructor
  · intro h
    by_contra hline
    have hgap : ∀ c ∈ text.takeWhile isSeparator, isSeparator c = true :=
      fun c hc => List.mem_takeWhile_imp hc
    have htext := List.takeWhile_append_dropWhile (p := isSeparator) (l := text)
    rcases List.eq_nil_or_concat' (text.dropWhile isSeparator) with hnil | ⟨line, c, hconcat⟩
    · have hmem := mem_ends_remainder [] [] hgap (by simp) (.inl rfl) last
      rw [hnil] at htext
      rw [List.append_nil, htext, h] at hmem
      exact nomatch hmem
    · rw [hconcat] at hline htext
      rw [List.dropLast_concat] at hline
      by_cases hc : c = '\n'
      · have hmem := mem_ends_remainder line [c] hgap hline (.inr (congrArg (fun c => [c]) hc)) last
        rw [htext, h] at hmem
        exact nomatch hmem
      · have hline' : '\n' ∉ line ++ [c] := by simp [hline, Ne.symm hc]
        have hmem := mem_ends_remainder (line ++ [c]) [] hgap hline' (.inl rfl) last
        rw [List.append_nil, htext, h] at hmem
        exact nomatch hmem
  · intro hline
    rw [List.eq_nil_iff_forall_not_mem]
    intro x hx
    obtain ⟨gap, line, rfl, hgap, hnot, hrest⟩ := of_mem_ends_remainder hx
    rw [List.dropWhile_append_of_pos hgap] at hline
    obtain ⟨before, hbefore⟩ := List.dropWhile_suffix (l := line ++ x.2) isSeparator
    have hmem : '\n' ∈ (line ++ x.2).dropLast := by
      rw [← hbefore]
      cases hdrop : (line ++ x.2).dropWhile isSeparator with
      | nil => simp [hdrop] at hline
      | cons c rest =>
        rw [hdrop] at hline
        rw [List.dropLast_append_of_ne_nil (List.cons_ne_nil _ _)]
        exact List.mem_append_right _ hline
    rcases hrest with hrest | hrest
    · rw [hrest, List.append_nil] at hmem
      exact hnot (List.mem_of_mem_dropLast hmem)
    · rw [hrest, List.dropLast_concat] at hmem
      exact hnot hmem

/-- However the remainder is taken, the same text is left of it. -/
theorem cleanRemainder_of_mem {last : Option Char} {text : Text} {x : Position Char}
    (h : x ∈ ends remainderItems (last, text)) :
    cleanRemainder (text.take (text.length - x.2.length)) = cleanRemainder text := by
  obtain ⟨gap, line, rfl, -, -, hrest⟩ := of_mem_ends_remainder h
  rw [← List.append_assoc, List.length_append, Nat.add_sub_cancel, List.take_left]
  rcases hrest with hrest | hrest
  · rw [hrest, List.append_nil]
  · rw [hrest]
    exact (stripBy_concat (by decide) _).symm

theorem cleaned_remainder (last : Option Char) (text : Text) :
    ((ends remainderItems (last, text)).map
        fun x => text.take (text.length - x.2.length)).head?.map cleanRemainder =
      if '\n' ∈ (text.dropWhile isSeparator).dropLast then none
      else some (cleanRemainder text) := by
  by_cases hline : '\n' ∈ (text.dropWhile isSeparator).dropLast
  · rw [(ends_remainder_eq_nil_iff last text).mpr hline, if_pos hline]
    rfl
  · obtain ⟨x, more, hx⟩ :=
      List.exists_cons_of_ne_nil (mt (ends_remainder_eq_nil_iff last text).mp hline)
    have hmem : x ∈ ends remainderItems (last, text) := hx ▸ List.mem_cons_self
    rw [hx, if_neg hline]
    exact congrArg some (cleanRemainder_of_mem hmem)

end Remainder

/-- The spaces and the other characters before the phrase are all taken. -/
theorem matchRemainder_eq {word : Text} (words : List Text) {lead spoken : Text} {c : Char}
    (hword : TriggerWord word) (hlead : ∀ c ∈ lead, isNonWord c = true)
    (hc : isNonWord c = false) :
    (prefixPattern (word :: words)).matchRemainder (lead ++ c :: spoken) =
      (captures (phraseItems (word :: words) ++ [.assert boundary]) remainderItems
        (lastOf none lead, c :: spoken)).head? := by
  have hdrop : (c :: spoken).dropWhile isNonWord = c :: spoken ∧
      (c :: spoken).takeWhile isNonWord = [] := by simp [hc]
  show capture (.many isSpace :: .many isNonWord :: _) remainderItems _ = _
  rw [capture_runs (fun _ h => isNonWord_of_isSpace h) (rejects_phraseItems hword _),
    List.takeWhile_append_of_pos hlead, List.dropWhile_append_of_pos hlead, hdrop.1, hdrop.2,
    List.append_nil]

/-- A pattern on the spelling of its own phrase. -/
theorem matchRemainder_spelled {words : List Text} {lead spoken rest : Text}
    (hwords : ∀ word ∈ words, TriggerWord word) (hspoken : Spelling words spoken)
    (hlead : ∀ c ∈ lead, isNonWord c = true) (hrest : ∀ c ∈ rest.head?, isWordChar c = false) :
    ((prefixPattern words).matchRemainder (lead ++ (spoken ++ rest))).map cleanRemainder =
      if '\n' ∈ (rest.dropWhile isSeparator).dropLast then none
      else some (cleanRemainder rest) := by
  obtain ⟨word, words, rfl⟩ : ∃ word words', words = word :: words' := by
    cases hspoken <;> exact ⟨_, _, rfl⟩
  obtain ⟨c, more, hhead, hc⟩ := hspoken.head hwords
  have hends := ends_spelled hspoken hwords hrest (lastOf none lead)
  rw [hhead, List.cons_append] at hends ⊢
  rw [matchRemainder_eq words (hwords word List.mem_cons_self) hlead hc, captures, hends,
    List.flatMap_singleton, cleaned_remainder]

/-- A pattern on the spelling of another phrase. -/
theorem matchRemainder_clear {words others : List Text} {lead spoken rest : Text}
    (hwords : ∀ word ∈ words, TriggerWord word) (hothers : ∀ word ∈ others, TriggerWord word)
    (hspoken : Spelling others spoken) (hclear : clear words others = true)
    (hlead : ∀ c ∈ lead, isNonWord c = true) (hrest : ∀ c ∈ rest.head?, isSeparator c = true) :
    (prefixPattern words).matchRemainder (lead ++ (spoken ++ rest)) = none := by
  obtain ⟨word, words, rfl⟩ : ∃ word words', words = word :: words' := by
    cases words with
    | nil => exact nomatch hclear
    | cons word words => exact ⟨word, words, rfl⟩
  obtain ⟨c, more, hhead, hc⟩ := hspoken.head hothers
  have hends := ends_of_clear hspoken hwords hothers hclear hrest (lastOf none lead)
  rw [hhead, List.cons_append] at hends ⊢
  rw [matchRemainder_eq words (hwords word List.mem_cons_self) hlead hc, captures, hends]
  rfl

/-! Normalized phrases. -/

structure TriggerPhrase (phrase : Text) : Prop where
  words : ∀ word ∈ splitWords phrase, TriggerWord word
  ne_nil : phrase ≠ []
  joined : joinWords (splitWords phrase) = phrase
  chars : ∀ c ∈ phrase, isTriggerChar c = true ∨ c = ' '

section Normalized

omit [UnicodeTables] in
theorem triggerPhrase_iff {phrase : Text} : TriggerPhrase phrase ↔
    (∀ word ∈ splitWords phrase, TriggerWord word) ∧ phrase ≠ [] ∧
      joinWords (splitWords phrase) = phrase ∧ ∀ c ∈ phrase, isTriggerChar c = true ∨ c = ' ' :=
  ⟨fun h => ⟨h.words, h.ne_nil, h.joined, h.chars⟩, fun ⟨hw, hn, hj, hc⟩ => ⟨hw, hn, hj, hc⟩⟩

instance (phrase : Text) : Decidable (TriggerPhrase phrase) :=
  decidable_of_iff ((∀ word ∈ splitWords phrase, TriggerWord word) ∧ phrase ≠ [] ∧
    joinWords (splitWords phrase) = phrase ∧
      phrase.all (fun c => isTriggerChar c || c = ' ') = true) (by
        rw [triggerPhrase_iff, List.all_eq_true]
        simp only [Bool.or_eq_true, decide_eq_true_eq])

theorem TriggerPhrase.normalizePhrase {phrase : Text} (h : TriggerPhrase phrase) :
    normalizePhrase phrase = phrase := by
  have hlower : lower phrase = phrase := by
    rw [lower_ascii phrase fun c hc => ?_]
    · have hfixed : ∀ c ∈ phrase, c.toLower = c := by
        intro c hc
        rcases h.chars c hc with hc | rfl
        · exact isTriggerChar_toLower hc
        · decide
      rw [List.map_congr_left hfixed, List.map_id']
    · rcases h.chars c hc with hc | rfl
      · exact .inl (isTriggerChar_ascii hc)
      · exact .inl (by decide)
  rw [TriggerPhrases.normalizePhrase, hlower, h.joined]

/-- What follows a candidate at the start of a transcript. -/
def heard (transcript candidate : Text) : Option Text :=
  (prefixPattern (splitWords candidate)).matchRemainder transcript

theorem matchFirst_eq {candidates : List Text} (h : ∀ c ∈ candidates, TriggerPhrase c)
    (transcript : Text) :
    matchFirst transcript candidates = .ok (candidates.findSome? (heard transcript)) := by
  induction candidates with
  | nil => rfl
  | cons c candidates ih =>
    rw [List.forall_mem_cons] at h
    have hcompile : compilePrefixPattern c = .ok (prefixPattern (splitWords c)) := by
      rw [compilePrefixPattern, h.1.normalizePhrase]
      exact if_neg h.1.ne_nil
    rw [matchFirst, hcompile]
    show (match heard transcript c with
      | some remainder => Except.ok (some remainder)
      | none => matchFirst transcript candidates) = _
    rw [List.findSome?_cons]
    cases heard transcript c with
    | none => exact ih h.2
    | some remainder => rfl

omit [UnicodeTables] in
theorem toLower_of_isSpace {c : Char} (h : isSpace c = true) : c.toLower = c := by
  by_cases hc : c.toNat < 128
  · exact forall_ascii (P := fun c => isSpace c = true → c.toLower = c) (by decide) hc h
  · exact toLower_of_le (by omega)

theorem isAlphanum_of_mem_splitWords {phrase : Text}
    (hphrase : ∀ c ∈ phrase, isSpace c = true ∨ c.isAlphanum = true) {word : Text}
    (hword : word ∈ splitWords (lower phrase)) {p : Char} (hp : p ∈ word) :
    isTriggerChar p = true ∧ p.isAlphanum = true := by
  have hspace := (isWord_of_mem_splitWords _ word hword).2 p hp
  have hmem := mem_of_mem_splitWords hword hp
  rw [lower_ascii phrase fun c hc => (hphrase c hc).symm.imp_left toNat_lt_of_isAlphanum,
    List.mem_map] at hmem
  obtain ⟨c, hc, rfl⟩ := hmem
  rcases hphrase c hc with hc | hc
  · rw [toLower_of_isSpace hc, hc] at hspace
    cases hspace
  · exact isTriggerChar_of_isAlphanum hc

theorem triggerPhrase_normalizePhrase {phrase : Text}
    (hphrase : ∀ c ∈ phrase, isSpace c = true ∨ c.isAlphanum = true)
    (hword : ∃ c ∈ phrase, c.isAlphanum = true) :
    TriggerPhrase (TriggerPhrases.normalizePhrase phrase) := by
  have hlower : lower phrase = phrase.map Char.toLower :=
    lower_ascii phrase fun c hc => (hphrase c hc).symm.imp_left toNat_lt_of_isAlphanum
  have hwords : ∀ word ∈ splitWords (lower phrase), TriggerWord word := fun word hw =>
    { chars := fun p hp => (isAlphanum_of_mem_splitWords hphrase hw hp).1
      head := fun p hp => (isAlphanum_of_mem_splitWords hphrase hw (List.mem_of_mem_head? hp)).2
      last := fun p hp => (isAlphanum_of_mem_splitWords hphrase hw (List.mem_of_mem_getLast? hp)).2
      ne_nil := (isWord_of_mem_splitWords _ word hw).1 }
  have hne : splitWords (lower phrase) ≠ [] := by
    obtain ⟨c, hc, halnum⟩ := hword
    have hmem : c.toLower ∈ lower phrase := hlower ▸ List.mem_map_of_mem hc
    exact splitWords_ne_nil hmem (isSpace_of_isAlphanum (isTriggerChar_of_isAlphanum halnum).2)
  have hsplit : splitWords (TriggerPhrases.normalizePhrase phrase) = splitWords (lower phrase) :=
    splitWords_joinWords (isWord_of_mem_splitWords _)
  refine ⟨by rwa [hsplit], joinWords_ne_nil (isWord_of_mem_splitWords _) hne,
    by rw [hsplit, TriggerPhrases.normalizePhrase], fun c hc => ?_⟩
  rcases mem_joinWords hc with rfl | ⟨word, hw, hc⟩
  · exact .inr rfl
  · exact .inl (isAlphanum_of_mem_splitWords hphrase hw hc).1

theorem quote_not_mem_normalizePhrase {phrase : Text}
    (hphrase : ∀ c ∈ phrase, isSpace c = true ∨ c.isAlphanum = true) :
    '\'' ∉ TriggerPhrases.normalizePhrase phrase := by
  intro h
  rcases mem_joinWords h with h | ⟨word, hw, h⟩
  · revert h
    decide
  · have halnum := (isAlphanum_of_mem_splitWords hphrase hw h).2
    revert halnum
    decide

end Normalized

/-! The candidates of a phrase. -/

/-- All the phrases that are tried. -/
def allCandidates (kind : TriggerKind) (phrase : Text) : List Text :=
  prefixCandidates phrase ++
    if kind = .wakeCommand then confirmedWakeResidues phrase else []

section Candidates

omit [UnicodeTables]

/-- What the list of the candidates has for one of them: no other is taken for it, but the name in a
possessive. -/
structure Candidate (all : List Text) (candidate : Text) : Prop where
  mem : candidate ∈ all
  phrases : ∀ other ∈ all, TriggerPhrase other
  others : ∀ other ∈ all, other = candidate ∨
    clear (splitWords other) (splitWords candidate) = true ∨ candidate = other ++ "'s".toList
  /-- The one that ends at the apostrophe is tried before it. -/
  possessive : '\'' ∈ candidate → ∃ base ∈ all, candidate = base ++ "'s".toList ∧
    splitWords base = [base] ∧ splitWords candidate = [candidate] ∧
      candidate ∉ all.takeWhile (· ≠ base)

theorem candidate_jarvis (kind : TriggerKind) :
    ∀ candidate ∈ prefixCandidates "jarvis".toList,
      Candidate (allCandidates kind "jarvis".toList) candidate := by
  intro candidate h
  have hphrases : ∀ other ∈ allCandidates kind "jarvis".toList, TriggerPhrase other := by
    cases kind <;> decide +kernel
  have hothers : ∀ candidate ∈ prefixCandidates "jarvis".toList,
      ∀ other ∈ allCandidates kind "jarvis".toList, other = candidate ∨
        clear (splitWords other) (splitWords candidate) = true ∨
          candidate = other ++ "'s".toList := by
    cases kind <;> decide +kernel
  have hpossessive : ∀ candidate ∈ prefixCandidates "jarvis".toList, '\'' ∈ candidate →
      ∃ base ∈ allCandidates kind "jarvis".toList, candidate = base ++ "'s".toList ∧
        splitWords base = [base] ∧ splitWords candidate = [candidate] ∧
          candidate ∉ (allCandidates kind "jarvis".toList).takeWhile (· ≠ base) := by
    cases kind <;> decide +kernel
  exact ⟨List.mem_append_left _ h, hphrases, hothers candidate h, hpossessive candidate h⟩

theorem candidate_conversation (kind : TriggerKind) :
    ∀ candidate ∈ prefixCandidates "conversation on".toList,
      Candidate (allCandidates kind "conversation on".toList) candidate := by
  intro candidate h
  have hall : allCandidates kind "conversation on".toList =
      prefixCandidates "conversation on".toList := by
    cases kind <;> decide
  rw [hall]
  have hphrases : ∀ other ∈ prefixCandidates "conversation on".toList, TriggerPhrase other := by
    decide +kernel
  have hothers : ∀ candidate ∈ prefixCandidates "conversation on".toList,
      ∀ other ∈ prefixCandidates "conversation on".toList, other = candidate ∨
        clear (splitWords other) (splitWords candidate) = true := by
    decide +kernel
  have hquote : ∀ candidate ∈ prefixCandidates "conversation on".toList, '\'' ∉ candidate := by
    decide +kernel
  exact ⟨h, hphrases, fun other hother => (hothers candidate h other hother).imp_right .inl,
    fun hmem => (hquote candidate h hmem).elim⟩

theorem candidate_of_mem {phrase : Text} (hphrase : TriggerPhrase phrase)
    (hquote : '\'' ∉ phrase) (kind : TriggerKind) {candidate : Text}
    (h : candidate ∈ prefixCandidates phrase) :
    Candidate (allCandidates kind phrase) candidate := by
  by_cases hjarvis : phrase = "jarvis".toList
  · subst hjarvis
    exact candidate_jarvis kind candidate h
  by_cases hconversation : phrase = "conversation on".toList
  · subst hconversation
    exact candidate_conversation kind candidate h
  · have halone : prefixCandidates phrase = [phrase] := by
      rw [prefixCandidates, triggerPrefixAliases, if_neg hjarvis, if_neg hconversation]
    have hall : allCandidates kind phrase = [phrase] := by
      rw [allCandidates, halone, confirmedWakeResidues, if_neg hjarvis, ite_self, List.append_nil]
    rw [halone, List.mem_singleton] at h
    subst h
    rw [hall]
    exact ⟨List.mem_cons_self, by simpa using hphrase, by simp, fun h => (hquote h).elim⟩

theorem findSome?_of_one {α β : Type} {f : α → Option β} {b : α} {xs : List α} (hb : b ∈ xs)
    (h : ∀ x ∈ xs, x = b ∨ f x = none) : xs.findSome? f = f b := by
  induction xs with
  | nil => exact nomatch hb
  | cons x xs ih =>
    rw [List.forall_mem_cons] at h
    rw [List.findSome?_cons]
    cases hfx : f x with
    | some y =>
      obtain rfl : x = b := h.1.resolve_right (by simp [hfx])
      exact hfx.symm
    | none =>
      rcases List.mem_cons.mp hb with rfl | hb
      · rw [hfx]
        refine List.findSome?_eq_none_iff.mpr fun y hy => ?_
        rcases h.2 y hy with rfl | hfy
        · exact hfx
        · exact hfy
      · exact ih hb h.2

/-- Two of a list alone can give a value: the first of them is asked first. -/
theorem findSome?_of_two {α β : Type} [DecidableEq α] {f : α → Option β} {a b : α} {xs : List α}
    (ha : a ∈ xs) (hb : b ∈ xs) (horder : b ∉ xs.takeWhile (· ≠ a))
    (h : ∀ x ∈ xs, x = a ∨ x = b ∨ f x = none) : xs.findSome? f = (f a).or (f b) := by
  cases hfa : f a with
  | none =>
    refine findSome?_of_one hb fun x hx => ?_
    rcases h x hx with rfl | hx
    · exact .inr hfa
    · exact hx
  | some y =>
    induction xs with
    | nil => exact nomatch ha
    | cons x xs ih =>
      rw [List.forall_mem_cons] at h
      rw [List.findSome?_cons]
      by_cases hx : x = a
      · rw [hx, hfa]
        rfl
      · rw [List.takeWhile_cons_of_pos (by simpa using hx), List.mem_cons, not_or] at horder
        have hnone : f x = none := (h.1.resolve_left hx).resolve_left (Ne.symm horder.1)
        rw [hnone]
        exact ih ((List.mem_cons.mp ha).resolve_left (Ne.symm hx))
          ((List.mem_cons.mp hb).resolve_left horder.1) horder.2 h.2

end Candidates

/-! What is routed on. -/

theorem matchConfirmed_eq {kind : TriggerKind} {phrase : Text}
    (h : ∀ c ∈ allCandidates kind (normalizePhrase phrase), TriggerPhrase c) (transcript : Text) :
    matchConfirmed transcript kind phrase =
      .ok (((allCandidates kind (normalizePhrase phrase)).findSome? (heard transcript)).map
        fun remainder => ⟨kind, normalizePhrase phrase, cleanRemainder remainder⟩) := by
  have hprefix : ∀ c ∈ prefixCandidates (normalizePhrase phrase), TriggerPhrase c :=
    fun c hc => h c (List.mem_append_left _ hc)
  have hresidue : kind = .wakeCommand →
      ∀ c ∈ confirmedWakeResidues (normalizePhrase phrase), TriggerPhrase c :=
    fun hkind c hc => h c (List.mem_append_right _ (by rwa [if_pos hkind]))
  rw [matchConfirmed, matchFirst_eq hprefix, allCandidates, List.findSome?_append]
  cases (prefixCandidates (normalizePhrase phrase)).findSome? (heard transcript) with
  | some remainder => rfl
  | none =>
    rw [Option.none_or]
    by_cases hkind : kind = .wakeCommand
    · simp only [if_pos hkind, matchFirst_eq (hresidue hkind)]
      cases (confirmedWakeResidues (normalizePhrase phrase)).findSome? (heard transcript) <;> rfl
    · simp only [if_neg hkind]
      rfl

section Heard

variable {all : List Text} {candidate lead spoken seps text : Text}

theorem heard_spelled (h : Candidate all candidate)
    (hspoken : Spelling (splitWords candidate) spoken)
    (hlead : ∀ c ∈ lead, isNonWord c = true) (hseps : ∀ c ∈ seps, isSeparator c = true)
    (hne : seps ≠ []) :
    (heard (lead ++ (spoken ++ (seps ++ text))) candidate).map cleanRemainder =
      if '\n' ∈ (text.dropWhile isSeparator).dropLast then none
      else some (cleanRemainder (seps ++ text)) := by
  obtain ⟨c, seps, rfl⟩ := List.exists_cons_of_ne_nil hne
  rw [heard, matchRemainder_spelled (h.phrases candidate h.mem).words hspoken hlead,
    List.dropWhile_append_of_pos hseps]
  rintro d hd
  obtain rfl := Option.some.inj hd
  exact isWordChar_of_isSeparator (hseps c List.mem_cons_self)

theorem heard_clear (h : Candidate all candidate) (hspoken : Spelling (splitWords candidate) spoken)
    (hlead : ∀ c ∈ lead, isNonWord c = true) (hseps : ∀ c ∈ seps, isSeparator c = true)
    (hne : seps ≠ []) {other : Text} (hother : other ∈ all)
    (hclear : clear (splitWords other) (splitWords candidate) = true) :
    heard (lead ++ (spoken ++ (seps ++ text))) other = none := by
  obtain ⟨c, seps, rfl⟩ := List.exists_cons_of_ne_nil hne
  refine matchRemainder_clear (h.phrases other hother).words (h.phrases candidate h.mem).words
    hspoken hclear hlead fun d hd => ?_
  obtain rfl := Option.some.inj hd
  exact hseps c List.mem_cons_self

/-- A possessive is heard as the name, with the rest of it in front of what follows. -/
theorem heard_base (h : Candidate all candidate) (hquote : '\'' ∈ candidate)
    (hspoken : Spelling (splitWords candidate) spoken)
    (hlead : ∀ c ∈ lead, isNonWord c = true) (rest : Text) (hrest : rest ≠ []) :
    ∃ base c, base ∈ all ∧ candidate = base ++ "'s".toList ∧
      candidate ∉ all.takeWhile (· ≠ base) ∧ c.isAlphanum = true ∧
      (heard (lead ++ (spoken ++ rest)) base).map cleanRemainder =
        if '\n' ∈ rest.dropLast then none else some (cleanRemainder ('\'' :: c :: rest)) := by
  obtain ⟨base, hbase, rfl, hsplit, hsplit', horder⟩ := h.possessive hquote
  rw [hsplit'] at hspoken
  obtain ⟨start, more, rfl, hstart, hmore⟩ : ∃ start more, spoken = start ++ more ∧
      start.map Char.toLower = base ∧ more.map Char.toLower = "'s".toList := by
    cases hspoken with
    | last h => exact List.map_eq_append_iff.mp h
  obtain ⟨q, c, rfl, hq, hc⟩ : ∃ q c, more = [q, c] ∧ q.toLower = '\'' ∧ c.toLower = 's' := by
    obtain ⟨q, more, rfl, hq, hmore⟩ := List.map_eq_cons_iff.mp hmore
    obtain ⟨c, more, rfl, hc, hmore⟩ := List.map_eq_cons_iff.mp hmore
    obtain rfl := List.map_eq_nil_iff.mp hmore
    exact ⟨q, c, rfl, hq, hc⟩
  obtain rfl := eq_quote_of_toLower hq
  have halnum : c.isAlphanum = true := isAlphanum_of_toLower (by rw [hc]; decide)
  refine ⟨base, c, hbase, rfl, horder, halnum, ?_⟩
  have hname : Spelling (splitWords base) start := hsplit ▸ .last hstart
  have hquote : isWordChar '\'' = false := by simp [isWordChar, isalnum_ascii]
  have hboundary : ∀ d ∈ ('\'' :: c :: rest).head?, isWordChar d = false := by
    rintro d hd
    obtain rfl := Option.some.inj hd
    exact hquote
  have hline : '\n' ∈ (('\'' :: c :: rest).dropWhile isSeparator).dropLast ↔
      '\n' ∈ rest.dropLast := by
    obtain ⟨d, rest, rfl⟩ := List.exists_cons_of_ne_nil hrest
    have hne : '\n' ≠ c := by
      rintro rfl
      revert halnum
      decide
    rw [List.dropWhile_cons_of_neg (by decide)]
    simp [hne]
  rw [List.append_assoc, heard]
  simp only [List.cons_append, List.nil_append]
  rw [matchRemainder_spelled (h.phrases base hbase).words hname hlead hboundary]
  simp only [hline]

/-- When the routed transcript is what was said behind the phrase, all of it and no more. -/
structure Routable (candidate seps text : Text) : Prop where
  /-- What follows is one line. -/
  oneLine : '\n' ∉ (text.dropWhile isSeparator).dropLast
  /-- The name in a possessive is not taken alone, for what follows the name is not one line. -/
  possessive : '\'' ∈ candidate → '\n' ∈ (seps ++ text).dropLast
  leading : ∀ c ∈ seps ++ text.takeWhile isSeparator, isStripped c = true
  trailing : ∀ c ∈ (text.dropWhile isSeparator).rtakeWhile isSeparator, isStripped c = true

omit [UnicodeTables] in
theorem cleanRemainder_eq_iff (hseps : ∀ c ∈ seps, isSeparator c = true) :
    cleanRemainder (seps ++ text) = stripSeparators text ↔
      (∀ c ∈ seps ++ text.takeWhile isSeparator, isStripped c = true) ∧
        ∀ c ∈ (text.dropWhile isSeparator).rtakeWhile isSeparator, isStripped c = true := by
  have h := stripBy_eq_iff isSeparator_of_isStripped (seps ++ text)
  rw [stripBy_append seps hseps, List.takeWhile_append_of_pos hseps,
    List.dropWhile_append_of_pos hseps] at h
  exact h

theorem cleaned_iff_of_plain (h : Candidate all candidate) (hquote : '\'' ∉ candidate)
    (hspoken : Spelling (splitWords candidate) spoken)
    (hlead : ∀ c ∈ lead, isNonWord c = true) (hseps : ∀ c ∈ seps, isSeparator c = true)
    (hne : seps ≠ []) :
    (all.findSome? (heard (lead ++ (spoken ++ (seps ++ text))))).map cleanRemainder =
      some (stripSeparators text) ↔ Routable candidate seps text := by
  have hone : all.findSome? (heard (lead ++ (spoken ++ (seps ++ text)))) =
      heard (lead ++ (spoken ++ (seps ++ text))) candidate := by
    refine findSome?_of_one h.mem fun other hother => ?_
    rcases h.others other hother with hsame | hclear | rfl
    · exact .inl hsame
    · exact .inr (heard_clear h hspoken hlead hseps hne hother hclear)
    · exact (hquote (by simp)).elim
  rw [hone, heard_spelled h hspoken hlead hseps hne]
  constructor
  · intro hsome
    split_ifs at hsome with hline
    obtain ⟨hleading, htrailing⟩ := (cleanRemainder_eq_iff hseps).mp (Option.some.inj hsome)
    exact ⟨hline, fun h => (hquote h).elim, hleading, htrailing⟩
  · intro hroutable
    rw [if_neg hroutable.oneLine]
    exact congrArg some
      ((cleanRemainder_eq_iff hseps).mpr ⟨hroutable.leading, hroutable.trailing⟩)

theorem cleaned_iff_of_possessive (h : Candidate all candidate) (hquote : '\'' ∈ candidate)
    (hspoken : Spelling (splitWords candidate) spoken)
    (hlead : ∀ c ∈ lead, isNonWord c = true) (hseps : ∀ c ∈ seps, isSeparator c = true)
    (hne : seps ≠ []) :
    (all.findSome? (heard (lead ++ (spoken ++ (seps ++ text))))).map cleanRemainder =
      some (stripSeparators text) ↔ Routable candidate seps text := by
  obtain ⟨base, c, hbase, hcandidate, horder, halnum, hheard⟩ :=
    heard_base h hquote hspoken hlead (seps ++ text) (by simp [hne])
  have htwo := findSome?_of_two hbase h.mem horder (f := heard (lead ++ (spoken ++ (seps ++ text))))
    fun other hother => by
      rcases h.others other hother with hsame | hclear | hother'
      · exact .inr (.inl hsame)
      · exact .inr (.inr (heard_clear h hspoken hlead hseps hne hother hclear))
      · exact .inl (List.append_cancel_right (hother'.symm.trans hcandidate))
  rw [htwo, Option.map_or, hheard, heard_spelled h hspoken hlead hseps hne]
  by_cases hline : '\n' ∈ (seps ++ text).dropLast
  · rw [if_pos hline, Option.none_or]
    constructor
    · intro hsome
      split_ifs at hsome with hone
      obtain ⟨hleading, htrailing⟩ := (cleanRemainder_eq_iff hseps).mp (Option.some.inj hsome)
      exact ⟨hone, fun _ => hline, hleading, htrailing⟩
    · intro hroutable
      rw [if_neg hroutable.oneLine]
      exact congrArg some
        ((cleanRemainder_eq_iff hseps).mpr ⟨hroutable.leading, hroutable.trailing⟩)
  · rw [if_neg hline, Option.some_or]
    constructor
    · -- the rest of the possessive makes the routed text longer than what is left of the other
      intro hsome
      have hhead : ∀ d ∈ ['\''].head?, isStripped d = false := by
        intro d hd
        obtain rfl := Option.some.inj hd
        decide
      have hlt := length_stripBy_lt isSeparator_of_isStripped hhead (List.cons_ne_nil _ _)
        (isStripped_of_isAlphanum halnum) (seps ++ text)
      rw [stripBy_append seps hseps] at hlt
      have hlength := congrArg List.length (Option.some.inj hsome)
      simp only [cleanRemainder, stripSeparators, List.singleton_append] at hlength hlt
      omega
    · exact fun hroutable => (hline (hroutable.possessive hquote)).elim

/-- Behind any spelling of a phrase or of one of its aliases, the remainder is routed on without
its separators exactly where it is routable. -/
theorem match_confirmed_exact {kind : TriggerKind} {phrase candidate lead spoken seps text : Text}
    (hphrase : ∀ c ∈ phrase, isSpace c = true ∨ c.isAlphanum = true)
    (hword : ∃ c ∈ phrase, c.isAlphanum = true)
    (hcandidate : candidate ∈ prefixCandidates (normalizePhrase phrase))
    (hspoken : Spelling (splitWords candidate) spoken)
    (hlead : ∀ c ∈ lead, isNonWord c = true)
    (hseps : ∀ c ∈ seps, isSeparator c = true) (hne : seps ≠ []) :
    matchConfirmed (lead ++ spoken ++ seps ++ text) kind phrase =
        .ok (some ⟨kind, normalizePhrase phrase, stripSeparators text⟩) ↔
      Routable candidate seps text := by
  have h := candidate_of_mem (triggerPhrase_normalizePhrase hphrase hword)
    (quote_not_mem_normalizePhrase hphrase) kind hcandidate
  have hiff : ((allCandidates kind (normalizePhrase phrase)).findSome?
      (heard (lead ++ (spoken ++ (seps ++ text))))).map cleanRemainder =
        some (stripSeparators text) ↔ Routable candidate seps text := by
    by_cases hquote : '\'' ∈ candidate
    · exact cleaned_iff_of_possessive h hquote hspoken hlead hseps hne
    · exact cleaned_iff_of_plain h hquote hspoken hlead hseps hne
  rw [← hiff, List.append_assoc, List.append_assoc, matchConfirmed_eq h.phrases]
  cases (allCandidates kind (normalizePhrase phrase)).findSome?
    (heard (lead ++ (spoken ++ (seps ++ text)))) <;> simp

end Heard

end Tables

/-! Runs. -/

namespace TestVectors

/-- ASCII, and the letters that are folded to it. -/
instance asciiTables : UnicodeTables where
  isalnum c := c.isAlphanum || ['\u0130', '\u0131', '\u017f', '\u212a'].contains c
  lower text := text.map Char.toLower
  ignoreCase p c := c.toLower = p.toLower || (otherCases p.toLower).contains c
  isalnum_ascii c hc := by
    have hle : ['\u0130', '\u0131', '\u017f', '\u212a'].all (128 ≤ ·.toNat) = true := by decide
    have hne : c ∉ ['\u0130', '\u0131', '\u017f', '\u212a'] := by
      intro hmem
      have := of_decide_eq_true (List.all_eq_true.mp hle c hmem)
      omega
    rw [Bool.or_eq_left_iff_imp, List.contains_iff_mem]
    exact fun hmem => (hne hmem).elim
  isalnum_space c hc := by
    have halnum : c.isAlphanum = false := by
      rw [Bool.eq_false_iff]
      intro halnum
      rw [isSpace_of_isAlphanum halnum] at hc
      cases hc
    have hother : ['\u0130', '\u0131', '\u017f', '\u212a'].all (!isSpace ·) = true := by decide
    rw [halnum, Bool.false_or, Bool.eq_false_iff, ne_eq, List.contains_iff_mem]
    intro hmem
    simpa [hc] using List.all_eq_true.mp hother c hmem
  isalnum_otherCases p c hc := by
    unfold otherCases at hc
    split at hc <;> simp only [List.mem_cons, List.not_mem_nil, or_false] at hc
    · rcases hc with rfl | rfl <;> decide
    · subst hc
      decide
    · subst hc
      decide
  lower_ascii _ _ := rfl
  ignoreCase_ascii p c _ := by simp

theorem forall_of_all {P : Char → Prop} [DecidablePred P] {text : Text}
    (h : text.all (fun c => decide (P c)) = true) : ∀ c ∈ text, P c :=
  fun c hc => of_decide_eq_true (List.all_eq_true.mp h c hc)

/-- An alias of two words, in other letter cases and with a comma between them. -/
theorem match_confirmed_jar_vice :
    matchConfirmed ("- ".toList ++ ("Jar".toList ++ (", ".toList ++ "VICE".toList)) ++
        ": ".toList ++ "open the door.".toList) .wakeCommand "Jarvis".toList =
      .ok (some ⟨.wakeCommand, normalizePhrase "Jarvis".toList,
        stripSeparators "open the door.".toList⟩) := by
  have hsplit : splitWords "jar vice".toList = ["jar".toList, "vice".toList] := by decide +kernel
  have hspoken : Spelling (splitWords "jar vice".toList)
      ("Jar".toList ++ (", ".toList ++ "VICE".toList)) := by
    rw [hsplit]
    exact .word (by decide +kernel) (by decide) (forall_of_all (by decide +kernel))
      (.last (by decide +kernel))
  have hroutable : Routable "jar vice".toList ": ".toList "open the door.".toList :=
    ⟨by decide +kernel, by decide +kernel, forall_of_all (by decide +kernel),
      forall_of_all (by decide +kernel)⟩
  exact (match_confirmed_exact (forall_of_all (by decide +kernel)) ⟨'J', by decide, by decide⟩
    (by decide +kernel) hspoken (forall_of_all (by decide +kernel))
    (forall_of_all (by decide +kernel)) (by decide)).mpr hroutable

/-- The name in a possessive alias is found first, and the end of it is routed on. -/
theorem match_confirmed_possessive :
    ¬ ∀ (kind : TriggerKind) (phrase candidate lead spoken seps text : Text),
      (∀ c ∈ phrase, isSpace c = true ∨ c.isAlphanum = true) →
      (∃ c ∈ phrase, c.isAlphanum = true) →
      candidate ∈ prefixCandidates (normalizePhrase phrase) →
      Spelling (splitWords candidate) spoken →
      (∀ c ∈ lead, isNonWord c = true) → (∀ c ∈ seps, isSeparator c = true) → seps ≠ [] →
      matchConfirmed (lead ++ spoken ++ seps ++ text) kind phrase =
        .ok (some ⟨kind, normalizePhrase phrase, stripSeparators text⟩) := by
  intro h
  have hspoken : Spelling (splitWords "java's".toList) "Java's".toList :=
    .last (by decide +kernel)
  have hexpected := h .wakeCommand "jarvis".toList "java's".toList [] "Java's".toList [' ']
    "open the door".toList (forall_of_all (by decide +kernel)) ⟨'j', by decide, by decide⟩
    (by decide +kernel) hspoken (forall_of_all (by decide +kernel))
    (forall_of_all (by decide +kernel)) (by decide)
  have hrun : matchConfirmed ([] ++ "Java's".toList ++ [' '] ++ "open the door".toList) .wakeCommand
      "jarvis".toList =
        .ok (some ⟨.wakeCommand, "jarvis".toList, "'s open the door".toList⟩) := by
    decide +kernel
  rw [hrun] at hexpected
  revert hexpected
  decide +kernel

/-- A second line is part of no remainder. -/
example : matchConfirmed "jarvis open\nfile".toList .wakeCommand "jarvis".toList = .ok none := by
  decide +kernel

/-- A no-break space is a separator that is not stripped. -/
example : matchConfirmed "jarvis\u00a0open".toList .wakeCommand "jarvis".toList =
    .ok (some ⟨.wakeCommand, "jarvis".toList, "\u00a0open".toList⟩) := by
  decide +kernel

end TestVectors

end TriggerPhrases
