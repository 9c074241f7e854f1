import Mathlib.Data.List.DropRight
import Mathlib.Data.List.Infix
import Mathlib.Tactic

/-! Python strings as lists of characters: white space, `strip`, `split`, `find` and `rfind`; and
`dict.fromkeys`. -/
namespace PyText

abbrev Text := List Char

/-- `str.isspace`, for one character. -/
def isSpace (c : Char) : Bool :=
  let n := c.toNat
  (9 ≤ n && n ≤ 13) || (28 ≤ n && n ≤ 32) || n = 0x85 || n = 0xa0 || n = 0x1680 ||
    (0x2000 ≤ n && n ≤ 0x200a) || n = 0x2028 || n = 0x2029 || n = 0x202f || n = 0x205f || n = 0x3000

def strip (text : Text) : Text := (text.dropWhile isSpace).rdropWhile isSpace

/-- Nothing to strip at either end. -/
def Trimmed (text : Text) : Prop :=
  (∀ c ∈ text.head?, isSpace c = false) ∧ ∀ c ∈ text.getLast?, isSpace c = false

instance (text : Text) : Decidable (Trimmed text) :=
  inferInstanceAs (Decidable ((∀ c ∈ text.head?, isSpace c = false) ∧
    ∀ c ∈ text.getLast?, isSpace c = false))

theorem trimmed_nil : Trimmed [] := ⟨fun _ h => (by cases h), fun _ h => by cases h⟩

theorem strip_of_trimmed {text : Text} (h : Trimmed text) : strip text = text := by
  cases text with
  | nil => rfl
  | cons c rest =>
    have hhead : isSpace c = false := h.1 c rfl
    have hlast : isSpace ((c :: rest).getLast (List.cons_ne_nil c rest)) = false :=
      h.2 _ (List.getLast?_eq_some_getLast _)
    rw [strip, List.dropWhile_cons_of_neg (by simp [hhead]), List.rdropWhile_eq_self_iff]
    intro _
    simp [hlast]

theorem trimmed_strip (text : Text) : Trimmed (strip text) := by
  constructor
  · intro c hc
    have hstarts : strip text <+: text.dropWhile isSpace := List.rdropWhile_prefix _ _
    have hne : strip text ≠ [] := by
      rintro hnil
      rw [hnil] at hc
      cases hc
    have hdrop : text.dropWhile isSpace ≠ [] :=
      fun hnil => hne (List.prefix_nil.mp (hnil ▸ hstarts))
    have hhead : (strip text).head hne = (text.dropWhile isSpace).head hdrop := hstarts.head hne
    rw [List.head?_eq_some_head hne, hhead, Option.mem_some_iff] at hc
    rw [← hc]
    exact List.head_dropWhile_not isSpace hdrop
  · intro c hc
    have hne : strip text ≠ [] := by
      rintro hnil
      rw [hnil] at hc
      cases hc
    rw [List.getLast?_eq_some_getLast hne, Option.mem_some_iff] at hc
    rw [← hc]
    exact Bool.eq_false_iff.mpr (List.rdropWhile_last_not isSpace _ hne)

@[simp] theorem strip_strip (text : Text) : strip (strip text) = strip text :=
  strip_of_trimmed (trimmed_strip text)

theorem strip_append_space {text : Text} (h : Trimmed text) (hne : text ≠ []) :
    strip (text ++ [' ']) = text := by
  obtain ⟨c, rest, rfl⟩ := List.exists_cons_of_ne_nil hne
  have hhead : isSpace c = false := h.1 c rfl
  rw [strip, List.cons_append, List.dropWhile_cons_of_neg (by simp [hhead]), ← List.cons_append,
    List.rdropWhile_concat_pos _ _ _ (by decide)]
  rw [← strip_of_trimmed h, strip, List.dropWhile_cons_of_neg (by simp [hhead])]
  exact List.rdropWhile_idempotent ..

theorem strip_cons_space {text : Text} (h : Trimmed text) : strip (' ' :: text) = text := by
  rw [strip, List.dropWhile_cons_of_pos (by decide)]
  exact strip_of_trimmed h

/-- The same on a `String`. -/
def stripText (text : String) : String := String.ofList (strip text.toList)

/-! Keys of a dictionary, in the order of insertion. -/

/-- `list(dict.fromkeys(keys))`: the first of each. -/
def fromKeys {κ : Type} [DecidableEq κ] : List κ → List κ
  | [] => []
  | key :: rest => key :: (fromKeys rest).filter (· ≠ key)

@[simp] theorem mem_fromKeys {κ : Type} [DecidableEq κ] {keys : List κ} {key : κ} :
    key ∈ fromKeys keys ↔ key ∈ keys := by
  induction keys with
  | nil => simp [fromKeys]
  | cons first rest ih =>
    simp only [fromKeys, List.mem_cons, List.mem_filter, ih]
    by_cases h : key = first <;> simp [h]

theorem fromKeys_of_nodup {κ : Type} [DecidableEq κ] {keys : List κ} (h : keys.Nodup) :
    fromKeys keys = keys := by
  induction keys with
  | nil => rfl
  | cons first rest ih =>
    have hfirst : first ∉ rest := (List.nodup_cons.mp h).1
    rw [fromKeys, ih (List.nodup_cons.mp h).2, List.filter_eq_self.mpr]
    intro key hkey
    exact decide_eq_true fun heq => hfirst (heq ▸ hkey)

/-! Words. -/

/-- One more character in front of the first word. -/
def push (c : Char) : List Text → List Text
  | [] => [[c]]
  | word :: words => (c :: word) :: words

/-- `str.split()`. -/
def splitWords : Text → List Text
  | [] => []
  | c :: rest =>
    if isSpace c then splitWords rest
    else if rest.head?.all isSpace then [c] :: splitWords rest
    else push c (splitWords rest)

/-- `" ".join(words)`. -/
def joinWords (words : List Text) : Text := [' '].intercalate words

@[simp] theorem joinWords_nil : joinWords [] = [] := rfl

@[simp] theorem joinWords_singleton (word : Text) : joinWords [word] = word := by
  simp [joinWords, List.intercalate]

theorem joinWords_cons_cons (word next : Text) (words : List Text) :
    joinWords (word :: next :: words) = word ++ ' ' :: joinWords (next :: words) := by
  simp [joinWords, List.intercalate]

theorem mem_joinWords {c : Char} {words : List Text} (h : c ∈ joinWords words) :
    c = ' ' ∨ ∃ word ∈ words, c ∈ word := by
  induction words with
  | nil => exact nomatch h
  | cons word words ih =>
    cases words with
    | nil => exact .inr ⟨word, List.mem_cons_self, by simpa using h⟩
    | cons next words =>
      rw [joinWords_cons_cons, List.mem_append, List.mem_cons] at h
      rcases h with h | h | h
      · exact .inr ⟨word, List.mem_cons_self, h⟩
      · exact .inl h
      · rcases ih h with h | ⟨w, hw, hc⟩
        · exact .inl h
        · exact .inr ⟨w, List.mem_cons_of_mem _ hw, hc⟩

def IsWord (word : Text) : Prop := word ≠ [] ∧ ∀ c ∈ word, isSpace c = false

theorem isWord_of_mem_push {c : Char} (hc : isSpace c = false) {words : List Text}
    (h : ∀ word ∈ words, IsWord word) : ∀ word ∈ push c words, IsWord word := by
  cases words with
  | nil => simpa [push, IsWord] using hc
  | cons word words =>
    rw [List.forall_mem_cons] at h
    rw [push, List.forall_mem_cons]
    exact ⟨⟨List.cons_ne_nil _ _, List.forall_mem_cons.mpr ⟨hc, h.1.2⟩⟩, h.2⟩

theorem isWord_of_mem_splitWords (text : Text) : ∀ word ∈ splitWords text, IsWord word := by
  induction text with
  | nil => exact fun _ h => nomatch h
  | cons c rest ih =>
    rw [splitWords]
    split_ifs with hc hend
    · exact ih
    · rw [List.forall_mem_cons]
      exact ⟨⟨List.cons_ne_nil _ _, by simpa using hc⟩, ih⟩
    · exact isWord_of_mem_push (by simpa using hc) ih

theorem splitWords_word {word rest : Text} (h : IsWord word) (hrest : rest.head?.all isSpace) :
    splitWords (word ++ rest) = word :: splitWords rest := by
  obtain ⟨hne, hchars⟩ := h
  induction word with
  | nil => exact (hne rfl).elim
  | cons c word ih =>
    have hc : isSpace c = false := hchars c List.mem_cons_self
    rw [List.cons_append, splitWords, if_neg (by simp [hc])]
    cases word with
    | nil => simp [hrest]
    | cons d word =>
      have hd : isSpace d = false := hchars d (by simp)
      rw [ih (List.cons_ne_nil _ _) fun e he => hchars e (List.mem_cons_of_mem _ he)]
      simp [hd, push]

theorem splitWords_joinWords {words : List Text} (h : ∀ word ∈ words, IsWord word) :
    splitWords (joinWords words) = words := by
  induction words with
  | nil => rfl
  | cons word words ih =>
    rw [List.forall_mem_cons] at h
    cases words with
    | nil =>
      have hword : splitWords (word ++ []) = word :: splitWords [] := splitWords_word h.1 rfl
      simpa [splitWords] using hword
    | cons next words =>
      have hspace : isSpace ' ' = true := by decide
      rw [joinWords_cons_cons, splitWords_word h.1 (by simp [hspace]), splitWords, if_pos hspace,
        ih h.2]

theorem mem_of_mem_push {c d : Char} {words : List Text} {word : Text} (hword : word ∈ push c words)
    (hd : d ∈ word) : d = c ∨ ∃ w ∈ words, d ∈ w := by
  cases words with
  | nil =>
    rw [push, List.mem_singleton] at hword
    subst hword
    exact .inl (List.mem_singleton.mp hd)
  | cons w words =>
    rw [push, List.mem_cons] at hword
    rcases hword with rfl | hword
    · rcases List.mem_cons.mp hd with rfl | hd
      · exact .inl rfl
      · exact .inr ⟨w, List.mem_cons_self, hd⟩
    · exact .inr ⟨word, List.mem_cons_of_mem _ hword, hd⟩

theorem mem_of_mem_splitWords {text : Text} : ∀ {word : Text} {c : Char},
    word ∈ splitWords text → c ∈ word → c ∈ text := by
  induction text with
  | nil => exact fun h => nomatch h
  | cons d rest ih =>
    intro word c hword hc
    rw [splitWords] at hword
    split_ifs at hword with hd hend
    · exact List.mem_cons_of_mem _ (ih hword hc)
    · rcases List.mem_cons.mp hword with rfl | hword
      · exact List.mem_cons.mpr (.inl (List.mem_singleton.mp hc))
      · exact List.mem_cons_of_mem _ (ih hword hc)
    · rcases mem_of_mem_push hword hc with rfl | ⟨w, hw, hcw⟩
      · exact List.mem_cons_self
      · exact List.mem_cons_of_mem _ (ih hw hcw)

theorem splitWords_ne_nil {text : Text} {c : Char} (hc : c ∈ text) (hspace : isSpace c = false) :
    splitWords text ≠ [] := by
  induction text with
  | nil => exact absurd hc List.not_mem_nil
  | cons d rest ih =>
    rw [splitWords]
    split_ifs with hd hend
    · refine ih ((List.mem_cons.mp hc).resolve_left ?_)
      rintro rfl
      exact Bool.false_ne_true (hspace.symm.trans hd)
    · exact List.cons_ne_nil _ _
    · cases splitWords rest <;> exact List.cons_ne_nil _ _

/-! Texts in which words are apart by one blank. -/

/-- No white space but blanks, never two of them together, and none at either end. -/
structure SingleSpaced (text : Text) : Prop where
  trimmed : Trimmed text
  blanks : ∀ c ∈ text, isSpace c = true → c = ' '
  apart : text.IsChain fun c d => ¬ (isSpace c = true ∧ isSpace d = true)

theorem singleSpaced_nil : SingleSpaced [] :=
  ⟨trimmed_nil, fun _ h => (nomatch h), List.isChain_nil⟩

/-- A part that is cut out without white space at its ends. -/
theorem SingleSpaced.part {text part : Text} (h : SingleSpaced text) (hpart : part <:+: text)
    (htrimmed : Trimmed part) : SingleSpaced part :=
  ⟨htrimmed, fun c hc => h.blanks c (hpart.subset hc), h.apart.infix hpart⟩

theorem IsWord.singleSpaced {word : Text} (h : IsWord word) : SingleSpaced word := by
  refine ⟨⟨fun c hc => h.2 c (List.mem_of_mem_head? hc),
    fun c hc => h.2 c (List.mem_of_mem_getLast? hc)⟩, fun c hc hspace => ?_, ?_⟩
  · rw [h.2 c hc] at hspace
    cases hspace
  · refine List.Pairwise.isChain (List.Pairwise.imp_of_mem (fun {c d} hc _ _ hspace => ?_)
      (List.pairwise_of_forall (R := fun _ _ => True) fun _ _ => trivial))
    rw [h.2 c hc] at hspace
    exact Bool.false_ne_true hspace.1

theorem SingleSpaced.join {a b : Text} (ha : SingleSpaced a) (hb : SingleSpaced b) (hne : a ≠ [])
    (hne' : b ≠ []) : SingleSpaced (a ++ ' ' :: b) := by
  refine ⟨⟨?_, ?_⟩, fun c hc hspace => ?_, ?_⟩
  · rw [List.head?_append_of_ne_nil _ hne]
    exact ha.trimmed.1
  · rw [List.getLast?_append_of_ne_nil _ (List.cons_ne_nil _ _), List.getLast?_cons_of_ne_nil hne']
    exact hb.trimmed.2
  · rcases List.mem_append.mp hc with hc | hc
    · exact ha.blanks c hc hspace
    · rcases List.mem_cons.mp hc with rfl | hc
      · rfl
      · exact hb.blanks c hc hspace
  · rw [List.isChain_append]
    refine ⟨ha.apart, ?_, fun c hc d hd => ?_⟩
    · rw [List.isChain_cons]
      refine ⟨fun d hd hspace => ?_, hb.apart⟩
      rw [hb.trimmed.1 d hd] at hspace
      exact Bool.false_ne_true hspace.2
    · intro hspace
      rw [ha.trimmed.2 c hc] at hspace
      exact Bool.false_ne_true hspace.1

theorem joinWords_ne_nil {words : List Text} (h : ∀ word ∈ words, IsWord word) (hne : words ≠ []) :
    joinWords words ≠ [] := by
  cases words with
  | nil => exact (hne rfl).elim
  | cons word words =>
    cases words with
    | nil =>
      rw [joinWords_singleton]
      exact (h word List.mem_cons_self).1
    | cons next words =>
      rw [joinWords_cons_cons]
      exact List.append_ne_nil_of_right_ne_nil _ (List.cons_ne_nil _ _)

theorem singleSpaced_joinWords {words : List Text} (h : ∀ word ∈ words, IsWord word) :
    SingleSpaced (joinWords words) := by
  induction words with
  | nil => exact singleSpaced_nil
  | cons word words ih =>
    rw [List.forall_mem_cons] at h
    cases words with
    | nil =>
      rw [joinWords_singleton]
      exact h.1.singleSpaced
    | cons next words =>
      rw [joinWords_cons_cons]
      exact h.1.singleSpaced.join (ih h.2) h.1.1 (joinWords_ne_nil h.2 (List.cons_ne_nil _ _))

theorem singleSpaced_splitWords (text : Text) : SingleSpaced (joinWords (splitWords text)) :=
  singleSpaced_joinWords (isWord_of_mem_splitWords text)

theorem SingleSpaced.head_not_space {c : Char} {rest : Text} (h : SingleSpaced (c :: rest)) :
    isSpace c = false := h.trimmed.1 c rfl

theorem SingleSpaced.last_not_space {c : Char} {start : Text} (h : SingleSpaced (start ++ [c])) :
    isSpace c = false := h.trimmed.2 c List.getLast?_concat

/-- A blank stands between two parts that are not empty. -/
theorem SingleSpaced.of_blank {a b : Text} (h : SingleSpaced (a ++ ' ' :: b)) :
    SingleSpaced a ∧ SingleSpaced b ∧ a ≠ [] ∧ b ≠ [] := by
  have hspace : isSpace ' ' = true := by decide
  have ha : a ≠ [] := by
    rintro rfl
    exact Bool.false_ne_true (h.head_not_space.symm.trans hspace)
  have hb : b ≠ [] := by
    rintro rfl
    exact Bool.false_ne_true (h.last_not_space.symm.trans hspace)
  have happart := List.isChain_append.mp h.apart
  have hright := List.isChain_cons.mp happart.2.1
  refine ⟨h.part (List.infix_append' [] a _) ⟨?_, fun c hc => ?_⟩,
    h.part (List.IsSuffix.isInfix ⟨a ++ [' '], by simp⟩) ⟨fun c hc => ?_, ?_⟩, ha, hb⟩
  · rw [← List.head?_append_of_ne_nil a ha]
    exact h.trimmed.1
  · exact Bool.eq_false_iff.mpr fun hc' => happart.2.2 c hc ' ' rfl ⟨hc', hspace⟩
  · exact Bool.eq_false_iff.mpr fun hc' => hright.1 c hc ⟨hspace, hc'⟩
  · have hlast := h.trimmed.2
    rw [List.getLast?_append_of_ne_nil _ (List.cons_ne_nil _ _), List.getLast?_cons_of_ne_nil hb]
      at hlast
    exact hlast

/-- A text is cut in two and both parts are stripped: a blank between them is lost, or nothing. -/
theorem SingleSpaced.cut {text : Text} (h : SingleSpaced text) {k : ℕ} (hk : 0 < k)
    (hlt : k < text.length) : ∃ a b, strip (text.take k) = a ∧ strip (text.drop k) = b ∧
      SingleSpaced a ∧ SingleSpaced b ∧ a ≠ [] ∧ b ≠ [] ∧ a.length ≤ k ∧ b.length < text.length ∧
      (text = a ++ ' ' :: b ∨ text = a ++ b ∧ a.length = k) := by
  have hne : text.take k ≠ [] := by
    rw [ne_eq, List.take_eq_nil_iff, not_or]
    exact ⟨hk.ne', List.ne_nil_of_length_pos (hk.trans hlt)⟩
  obtain ⟨start, x, hstart⟩ := (List.eq_nil_or_concat' _).resolve_left hne
  obtain ⟨y, rest, hrest⟩ := List.exists_cons_of_ne_nil (List.drop_eq_nil_iff.not.mpr hlt.not_ge)
  have htext : text = start ++ [x] ++ y :: rest := by
    rw [← hstart, ← hrest, List.take_append_drop]
  have hstartLength : (start ++ [x]).length = k := by
    rw [← hstart, List.length_take_of_le hlt.le]
  have hrestLength : (y :: rest).length = text.length - k := by rw [← hrest, List.length_drop]
  rw [List.length_append, List.length_singleton] at hstartLength
  rw [List.length_cons] at hrestLength
  rw [hstart, hrest]
  by_cases hx : isSpace x = true
  · obtain rfl := h.blanks x (by simp [htext]) hx
    rw [List.append_assoc] at htext
    obtain ⟨hss, hss', hne, hne'⟩ := SingleSpaced.of_blank (htext ▸ h)
    exact ⟨start, y :: rest, strip_append_space hss.trimmed hne, strip_of_trimmed hss'.trimmed, hss,
      hss', hne, hne', by omega, by rw [List.length_cons]; omega, .inl htext⟩
  by_cases hy : isSpace y = true
  · obtain rfl := h.blanks y (by simp [htext]) hy
    obtain ⟨hss, hss', hne, hne'⟩ := SingleSpaced.of_blank (htext ▸ h)
    exact ⟨start ++ [x], rest, strip_of_trimmed hss.trimmed, strip_cons_space hss'.trimmed, hss,
      hss', hne, hne', by rw [List.length_append, List.length_singleton]; omega, by omega,
      .inl htext⟩
  · have hleft : SingleSpaced (start ++ [x]) := by
      refine h.part ⟨[], y :: rest, by rw [List.nil_append, htext]⟩ ⟨fun c hc => ?_, fun c hc => ?_⟩
      · refine h.trimmed.1 c ?_
        rw [htext, List.head?_append_of_ne_nil _ (by simp)]
        exact hc
      · rw [List.getLast?_concat, Option.mem_some_iff] at hc
        exact hc ▸ Bool.eq_false_iff.mpr hx
    have hright : SingleSpaced (y :: rest) := by
      refine h.part ⟨start ++ [x], [], by rw [List.append_nil, htext]⟩
        ⟨fun c hc => ?_, fun c hc => ?_⟩
      · rw [List.head?_cons, Option.mem_some_iff] at hc
        exact hc ▸ Bool.eq_false_iff.mpr hy
      · refine h.trimmed.2 c ?_
        rw [htext, List.getLast?_append_of_ne_nil _ (List.cons_ne_nil _ _)]
        exact hc
    exact ⟨start ++ [x], y :: rest, strip_of_trimmed hleft.trimmed, strip_of_trimmed hright.trimmed,
      hleft, hright, by simp, List.cons_ne_nil _ _, by
        rw [List.length_append, List.length_singleton]; omega, by rw [List.length_cons]; omega,
      .inr ⟨htext, by rw [List.length_append, List.length_singleton]; omega⟩⟩

/-! Stripping the characters of a class. -/

def stripBy (p : Char → Bool) (text : Text) : Text := (text.dropWhile p).rdropWhile p

section StripBy

variable {p q : Char → Bool}

theorem dropWhile_eq_iff (hpq : ∀ c, p c = true → q c = true) (text : Text) :
    text.dropWhile p = text.dropWhile q ↔ ∀ c ∈ text.takeWhile q, p c = true := by
  induction text with
  | nil => simp
  | cons c rest ih =>
    by_cases hp : p c = true
    · simp [hp, hpq c hp, ih]
    by_cases hq : q c = true
    · have hne : c :: rest ≠ rest.dropWhile q := by
        intro h
        have hle := (List.dropWhile_suffix (l := rest) q).length_le
        rw [← h, List.length_cons] at hle
        omega
      simp [hp, hq, hne]
    · simp [hp, hq]

theorem rdropWhile_eq_iff (hpq : ∀ c, p c = true → q c = true) (text : Text) :
    text.rdropWhile p = text.rdropWhile q ↔ ∀ c ∈ text.rtakeWhile q, p c = true := by
  have h := dropWhile_eq_iff hpq text.reverse
  simpa [List.rdropWhile, List.rtakeWhile] using h

theorem dropWhile_dropWhile_of_imp (hpq : ∀ c, p c = true → q c = true) (text : Text) :
    (text.dropWhile p).dropWhile q = text.dropWhile q := by
  induction text with
  | nil => rfl
  | cons c rest ih =>
    by_cases hp : p c = true
    · simp [hp, hpq c hp, ih]
    · simp [hp]

theorem rdropWhile_cons_of_neg {c : Char} (hc : p c = false) (rest : Text) :
    ∃ more, (c :: rest).rdropWhile p = c :: more := by
  have hne : (c :: rest).rdropWhile p ≠ [] := by
    intro h
    have := List.rdropWhile_eq_nil_iff.mp h c List.mem_cons_self
    simp [hc] at this
  obtain ⟨d, more, hd⟩ := List.exists_cons_of_ne_nil hne
  have hprefix := List.rdropWhile_prefix p (c :: rest)
  rw [hd, List.cons_prefix_cons] at hprefix
  obtain ⟨rfl, -⟩ := hprefix
  exact ⟨more, hd⟩

/-- A narrower class strips as much as a wider one only where both ends have its characters
alone. -/
theorem stripBy_eq_iff (hpq : ∀ c, p c = true → q c = true) (text : Text) :
    stripBy p text = stripBy q text ↔ (∀ c ∈ text.takeWhile q, p c = true) ∧
      ∀ c ∈ (text.dropWhile q).rtakeWhile q, p c = true := by
  rw [← dropWhile_eq_iff hpq, ← rdropWhile_eq_iff hpq]
  unfold stripBy
  constructor
  · intro h
    have hdrop : text.dropWhile p = text.dropWhile q := by
      cases hp : text.dropWhile p with
      | nil => rw [← dropWhile_dropWhile_of_imp hpq, hp]; rfl
      | cons c rest =>
        have hpc : p c = false := by
          have := List.head?_dropWhile_not p text
          rwa [hp] at this
        have hq := dropWhile_dropWhile_of_imp hpq text
        rw [hp] at hq
        by_cases hqc : q c = true
        · obtain ⟨more, hmore⟩ := rdropWhile_cons_of_neg hpc rest
          rw [hp, hmore] at h
          have hprefix := List.rdropWhile_prefix q (text.dropWhile q)
          have hhead := List.head?_dropWhile_not q text
          rw [← h] at hprefix
          obtain ⟨tail, htail⟩ := hprefix
          rw [← htail] at hhead
          exact absurd hqc (by simpa using hhead)
        · rw [← hq, List.dropWhile_cons_of_neg hqc]
    exact ⟨hdrop, hdrop ▸ h⟩
  · rintro ⟨hdrop, h⟩
    rw [hdrop, h]

theorem stripBy_concat {c : Char} (hc : p c = true) (text : Text) :
    stripBy p (text ++ [c]) = stripBy p text := by
  unfold stripBy
  rw [List.dropWhile_append]
  split_ifs with h
  · rw [List.isEmpty_iff.mp h, List.dropWhile_cons_of_pos hc]
    rfl
  · exact List.rdropWhile_concat_pos _ _ _ hc

theorem stripBy_append (start : Text) (hstart : ∀ c ∈ start, p c = true) (text : Text) :
    stripBy p (start ++ text) = stripBy p text := by
  rw [stripBy, List.dropWhile_append_of_pos hstart, stripBy]

theorem length_rdropWhile_append (start text : Text) :
    (text.rdropWhile p).length ≤ ((start ++ text).rdropWhile p).length := by
  simp only [List.rdropWhile, List.reverse_append, List.dropWhile_append, List.length_reverse]
  split_ifs with h
  · simp [List.isEmpty_iff.mp h]
  · simp

theorem length_rdropWhile_le (hpq : ∀ c, p c = true → q c = true) (text : Text) :
    (text.rdropWhile q).length ≤ (text.rdropWhile p).length := by
  have h := (List.dropWhile_suffix (l := text.reverse.dropWhile p) q).length_le
  rw [dropWhile_dropWhile_of_imp hpq] at h
  simpa [List.rdropWhile] using h

theorem rdropWhile_append_of_last {c : Char} (hc : p c = false) (start rest : Text) :
    (start ++ c :: rest).rdropWhile p = start ++ c :: rest.rdropWhile p := by
  have hdrop : (c :: start.reverse).dropWhile p = c :: start.reverse :=
    List.dropWhile_cons_of_neg (by simp [hc])
  simp only [List.rdropWhile, List.reverse_append, List.reverse_cons, List.append_assoc,
    List.singleton_append, List.dropWhile_append, hdrop]
  split_ifs with h <;> simp_all

/-- What is stripped is shorter than a text that goes on from one that is not. -/
theorem length_stripBy_lt {c : Char} (hpq : ∀ c, p c = true → q c = true) {start : Text}
    (hstart : ∀ d ∈ start.head?, p d = false) (hne : start ≠ []) (hc : p c = false) (text : Text) :
    (stripBy q text).length < (stripBy p (start ++ c :: text)).length := by
  obtain ⟨d, start, rfl⟩ := List.exists_cons_of_ne_nil hne
  have hd := hstart d rfl
  have hdrop : ((d :: start) ++ c :: text).dropWhile p = (d :: start) ++ c :: text :=
    List.dropWhile_cons_of_neg (by simp [hd])
  rw [stripBy, stripBy, hdrop, rdropWhile_append_of_last hc]
  have hshort := length_rdropWhile_le hpq (text.dropWhile q)
  have hsplit := length_rdropWhile_append (p := p) (text.takeWhile q) (text.dropWhile q)
  rw [List.takeWhile_append_dropWhile] at hsplit
  simp only [List.length_append, List.length_cons]
  omega

end StripBy

/-! Searches. -/

/-- `text.find(part, start)`; no position is −1 in Python. -/
def find (text part : Text) (start : ℕ) : Option ℕ :=
  (List.range' start (text.length + 1 - start)).find? fun i => part.isPrefixOf (text.drop i)

/-- `text.rfind(part)`. -/
def rfind (text part : Text) : Option ℕ :=
  (List.range (text.length + 1)).reverse.find? fun i => part.isPrefixOf (text.drop i)

theorem rfind_starts {text part : Text} {i : ℕ} (h : rfind text part = some i) :
    part <+: text.drop i := by
  simpa using List.find?_some h

theorem rfind_le {text part : Text} {i : ℕ} (h : rfind text part = some i) :
    i + part.length ≤ text.length := by
  have hrange := List.mem_of_find?_eq_some h
  have hlength := (rfind_starts h).length_le
  rw [List.mem_reverse, List.mem_range] at hrange
  rw [List.length_drop] at hlength
  omega

/-- A part that stands at the start, or behind one character it does not begin with, is found. -/
theorem find_of_prefix {text part : Text} {start i : ℕ} (hi : part <+: text.drop i)
    (hstart : start ≤ i) (hle : i ≤ text.length)
    (hbefore : ∀ j, start ≤ j → j < i → ¬ part <+: text.drop j) :
    find text part start = some i := by
  rw [find, List.find?_range'_eq_some]
  refine ⟨List.isPrefixOf_iff_prefix.mpr hi, List.mem_range'_1.mpr ⟨hstart, by omega⟩,
    fun j hj hlt => ?_⟩
  rw [Bool.not_eq_true', Bool.eq_false_iff, ne_eq, List.isPrefixOf_iff_prefix]
  exact hbefore j hj hlt

end PyText
