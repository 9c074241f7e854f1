import Reframe.Lib.Run
import Reframe.Lib.SortedSet
import Reframe.Workspace.Path

/-! Scratch rules. The text of a rule is normalized, a literal rule is compiled together with a glob
for what lies below it, and reserved names are scratch at any depth. -/
namespace Workspace
open NormalizedPath

/-- The glob library with the options of `add_glob`: whether it accepts a glob and a set of them, and
what a glob matches. -/
structure Globset where
  /-- `cfg!(windows)`, which is passed on as `case_insensitive`. -/
  windows : Bool
  /-- The character that stands for it and its other cases. -/
  foldCase : Char → Char
  builds : String → Bool
  buildsSet : List String → Bool
  isMatch : String → String → Bool

inductive RuleError where
  | notContained (value : String)
  | invalidGlob (pattern : String)
  | invalidSet
  deriving DecidableEq

def SCRATCH_SEGMENTS : List String :=
  [".git", ".mypy_cache", ".nox", ".pytest_cache", ".reframe-memory", ".reframe-workspace",
    ".ruff_cache", ".tox", ".venv", "node_modules", "target", ".next", "dist", "build", ".cache",
    "__pycache__"]

def SCRATCH_PREFIXES : List String := [".reframe-memory*", ".reframe-workspace*"]

/-- What `scratch_rules` adds to the rules of the user. -/
def reservedRules : List String :=
  (SCRATCH_SEGMENTS ++ SCRATCH_PREFIXES).flatMap fun name =>
    ["**/" ++ name, "**/" ++ name ++ "/**"]

def isGlobChar (c : Char) : Bool := ['*', '?', '[', ']', '{', '}'].contains c

def hasGlobSyntax (value : String) : Bool := value.toList.any isGlobChar

/-- `value.replace('\\', "/")` -/
def slashes (value : String) : String :=
  String.ofList (value.toList.map fun c => if c = '\\' then '/' else c)

/-- `trim_start_matches("./")` -/
def trimDotSlash : List Char → List Char
  | '.' :: '/' :: rest => trimDotSlash rest
  | text => text

/-- The text of a rule when it is accepted. -/
def ruleText (value : String) : String := String.ofList (trimDotSlash (slashes value).toList)

def normalizeGlob (value : String) : Except RuleError String :=
  let normalized := slashes value
  if normalized = "" ∨ normalized.toList.head? = some '/' ∨ ".." ∈ splitPath normalized ∨
      ':' ∈ normalized.toList then
    .error (.notContained value)
  else .ok (ruleText value)

namespace Globset

variable (g : Globset)

def addGlob (globs : List String) (pattern : String) : Except RuleError (List String) :=
  if g.builds pattern then .ok (globs ++ [pattern]) else .error (.invalidGlob pattern)

/-- One round of the loop of `ScratchMatcher::compile`. -/
def addPattern (globs : List String) (pattern : String) : Except RuleError (List String) := do
  let normalized ← normalizeGlob pattern
  let globs ← g.addGlob globs normalized
  if hasGlobSyntax normalized then .ok globs else g.addGlob globs (normalized ++ "/**")

/-- `ScratchMatcher::compile`; a matcher is the set of its globs. -/
def compile (patterns : List String) : Except RuleError (List String) := do
  let globs ← patterns.foldlM g.addPattern []
  if g.buildsSet globs then .ok globs else .error .invalidSet

def matches_ (matcher : List String) (normalized : String) : Bool :=
  matcher.any fun glob => g.isMatch glob normalized

def scratchRules (paths : List String) : Except RuleError (List String) := do
  let rules ← paths.mapM normalizeGlob
  let rules := SortedSet.toSorted (rules ++ reservedRules).toFinset
  let _ ← g.compile rules
  .ok rules

end Globset

/-- The path that the components of a rule denote, whichever separator stands between them. -/
def denoted (rule : String) : Except PathError NormalizedPath := parseStr (slashes rule)

/-! What the glob library is relied on for. -/

/-- What globs compare: every character as it is, or with its case folded. -/
def Globset.fold (g : Globset) : Char → Char := if g.windows then g.foldCase else id

def Globset.folded (g : Globset) (text : String) : String := String.ofList (text.toList.map g.fold)

/-- A glob for one component: a name, or a name with `*` behind it. -/
def nameStem (name : String) : List Char :=
  if name.toList.getLast? = some '*' then name.toList.dropLast else name.toList

def Globset.nameMatches (g : Globset) (name word : String) : Bool :=
  if name.toList.getLast? = some '*' then
    ((nameStem name).map g.fold).isPrefixOf (word.toList.map g.fold)
  else g.folded word == g.folded name

def isNameGlob (name : String) : Bool :=
  nameStem name ≠ [] && (nameStem name).all fun c => c ≠ '/' && !isGlobChar c

def hasBackslash (text : String) : Bool := text.toList.contains '\\'

/-- The globs that the rules are made of, as documented, on workspace paths: a literal glob, `/**`
behind it for what lies below, and `**/` before a name for any depth. Folding case leaves the
separator to itself. -/
structure Globset.Lawful (g : Globset) : Prop where
  separator : ∀ c, g.foldCase c = '/' ↔ c = '/'
  literal : ∀ pattern (q : NormalizedPath), hasGlobSyntax pattern = false →
    hasBackslash pattern = false →
      (g.isMatch pattern q.asStr = true ↔ g.folded q.asStr = g.folded pattern)
  below : ∀ pattern (q : NormalizedPath), hasGlobSyntax pattern = false →
    hasBackslash pattern = false → pattern ≠ "" → (g.isMatch (pattern ++ "/**") q.asStr = true ↔
      hasPrefix (g.folded q.asStr) (g.folded pattern) = true)
  anyDepth : ∀ name (q : NormalizedPath), isNameGlob name = true → hasBackslash name = false →
    (g.isMatch ("**/" ++ name) q.asStr = true ↔
      ∃ part ∈ q.parts.getLast?, g.nameMatches name part.1 = true)
  anyDepthBelow : ∀ name (q : NormalizedPath), isNameGlob name = true → hasBackslash name = false →
    (g.isMatch ("**/" ++ name ++ "/**") q.asStr = true ↔
      ∃ part ∈ q.parts.dropLast, g.nameMatches name part.1 = true)

/-- A component that is scratch wherever it stands. -/
def Globset.isReserved (g : Globset) (part : String) : Bool :=
  SCRATCH_SEGMENTS.any (fun name => g.folded part == g.folded name) ||
    [".reframe-memory", ".reframe-workspace"].any fun start =>
      (start.toList.map g.fold).isPrefixOf (part.toList.map g.fold)

/-- What is asked of the rules made of a list of paths, and of their matcher. -/
structure Globset.RulesRight (g : Globset) (paths rules matcher : List String) : Prop where
  literal : ∀ path ∈ paths, hasGlobSyntax path = false → ∀ p, denoted path = .ok p →
    ∀ q : NormalizedPath, q.IsWithin p → g.matches_ matcher q.asStr = true
  reserved : ∀ q : NormalizedPath, (∃ part ∈ q.parts, g.isReserved part.1 = true) →
    g.matches_ matcher q.asStr = true
  order : ∀ paths' : List String, (∀ path, path ∈ paths' ↔ path ∈ paths) →
    g.scratchRules paths' = .ok rules

/-- A path in that of a literal rule whose text spells it, but for the case of letters where the
globs have none, or with a reserved component. -/
def Globset.Spelled (g : Globset) (paths : List String) (q : NormalizedPath) : Prop :=
  (∃ path ∈ paths, hasGlobSyntax path = false ∧
      ∃ p : NormalizedPath, g.folded (ruleText path) = g.folded p.asStr ∧ q.IsWithin p) ∨
    ∃ part ∈ q.parts, g.isReserved part.1 = true

/-- Every literal rule that denotes a path denotes one that is spelled. -/
def Globset.LiteralsSpelled (g : Globset) (paths : List String) : Prop :=
  ∀ path ∈ paths, hasGlobSyntax path = false → ∀ p, denoted path = .ok p → g.Spelled paths p

/-- A path that a rule of the user with glob characters matches. -/
def Globset.Globbed (g : Globset) (paths : List String) (q : NormalizedPath) : Prop :=
  ∃ path ∈ paths, hasGlobSyntax path = true ∧ g.isMatch (ruleText path) q.asStr = true

/-- No glob of the user matches what a literal rule denotes. -/
def Globset.GlobsApart (g : Globset) (paths : List String) : Prop :=
  ∀ path ∈ paths, hasGlobSyntax path = false → ∀ p, denoted path = .ok p → ¬g.Globbed paths p

/-! The text of a rule. -/

theorem toList_slashes (value : String) :
    (slashes value).toList = value.toList.map fun c => if c = '\\' then '/' else c := by
  rw [slashes, String.toList_ofList]

theorem toList_ruleText (value : String) :
    (ruleText value).toList = trimDotSlash (slashes value).toList := by
  rw [ruleText, String.toList_ofList]

theorem trimDotSlash_again (text : List Char) :
    trimDotSlash (trimDotSlash text) = trimDotSlash text := by
  fun_induction trimDotSlash text with
  | case1 rest ih => exact ih
  | case2 text h => rw [trimDotSlash.eq_def]; split <;> simp_all

theorem trimDotSlash_suffix (text : List Char) : trimDotSlash text <:+ text := by
  fun_induction trimDotSlash text with
  | case1 rest ih => exact ih.trans ⟨['.', '/'], rfl⟩
  | case2 text h => exact List.suffix_rfl

theorem any_trimDotSlash (text : List Char) :
    (trimDotSlash text).any isGlobChar = text.any isGlobChar := by
  fun_induction trimDotSlash text with
  | case1 rest ih => rw [ih, List.any_cons, List.any_cons]; rfl
  | case2 text h => rfl

theorem isGlobChar_slash (c : Char) : isGlobChar (if c = '\\' then '/' else c) = isGlobChar c := by
  split_ifs with h
  · rw [h]
    decide
  · rfl

theorem hasGlobSyntax_ruleText (value : String) :
    hasGlobSyntax (ruleText value) = hasGlobSyntax value := by
  rw [hasGlobSyntax, toList_ruleText, any_trimDotSlash, toList_slashes, List.any_map]
  exact congrArg (fun f => value.toList.any f) (funext isGlobChar_slash)

theorem backslash_notMem_ruleText (value : String) : '\\' ∉ (ruleText value).toList := by
  rw [toList_ruleText]
  intro h
  have hmem := (trimDotSlash_suffix _).subset h
  rw [toList_slashes, List.mem_map] at hmem
  obtain ⟨c, -, hc⟩ := hmem
  split_ifs at hc with heq
  · exact absurd hc (by decide)
  · exact heq hc

theorem hasBackslash_ruleText (value : String) : hasBackslash (ruleText value) = false := by
  rw [hasBackslash, Bool.eq_false_iff, ne_eq, List.contains_iff_mem]
  exact backslash_notMem_ruleText value

theorem slashes_of_notMem {value : String} (h : '\\' ∉ value.toList) : slashes value = value := by
  apply String.toList_injective
  rw [toList_slashes, List.map_congr_left (g := id) fun c hc => ?_, List.map_id]
  have hne : c ≠ '\\' := by
    rintro rfl
    exact h hc
  exact if_neg hne

/-- A rule that is read again keeps its text. -/
theorem ruleText_again (value : String) : ruleText (ruleText value) = ruleText value := by
  apply String.toList_injective
  rw [toList_ruleText, slashes_of_notMem (backslash_notMem_ruleText value), toList_ruleText,
    trimDotSlash_again]

theorem normalizeGlob_ok {value text : String} (h : normalizeGlob value = .ok text) :
    text = ruleText value := by
  rw [normalizeGlob] at h
  split_ifs at h
  exact (Except.ok.inj h).symm

theorem normalizeGlob_ne_empty {value text : String}
    (h : normalizeGlob (ruleText value) = .ok text) : ruleText value ≠ "" := by
  rintro hempty
  rw [hempty] at h
  cases h

/-! The globs of a matcher. -/

def patternGlobs (pattern : String) : List String :=
  if hasGlobSyntax pattern then [pattern] else [pattern, pattern ++ "/**"]

namespace Globset

variable {g : Globset}

theorem addGlob_ok {globs globs' : List String} {pattern : String}
    (h : g.addGlob globs pattern = .ok globs') : globs' = globs ++ [pattern] := by
  rw [addGlob] at h
  split_ifs at h
  exact (Except.ok.inj h).symm

theorem addPattern_ok {globs globs' : List String} {pattern : String}
    (h : g.addPattern globs pattern = .ok globs') :
    normalizeGlob pattern = .ok (ruleText pattern) ∧
      globs' = globs ++ patternGlobs (ruleText pattern) := by
  obtain ⟨text, htext, h⟩ := Run.bind_ok.mp h
  obtain ⟨middle, hmiddle, h⟩ := Run.bind_ok.mp h
  obtain rfl := normalizeGlob_ok htext
  obtain rfl := addGlob_ok hmiddle
  refine ⟨htext, ?_⟩
  rw [patternGlobs]
  split_ifs at h ⊢
  · exact (Except.ok.inj h).symm
  · rw [addGlob_ok h, List.append_assoc]
    rfl

theorem foldlM_addPattern_ok (patterns : List String) : ∀ {globs globs' : List String},
    patterns.foldlM g.addPattern globs = .ok globs' →
      (∀ pattern ∈ patterns, normalizeGlob pattern = .ok (ruleText pattern)) ∧
        globs' = globs ++ patterns.flatMap fun pattern => patternGlobs (ruleText pattern) := by
  induction patterns with
  | nil =>
    intro globs globs' h
    cases h
    exact ⟨fun _ h => (nomatch h), (List.append_nil globs).symm⟩
  | cons pattern patterns ih =>
    intro globs globs' h
    rw [List.foldlM_cons] at h
    obtain ⟨middle, hmiddle, h⟩ := Run.bind_ok.mp h
    obtain ⟨hfirst, rfl⟩ := addPattern_ok hmiddle
    obtain ⟨hrest, rfl⟩ := ih h
    rw [List.forall_mem_cons]
    exact ⟨⟨hfirst, hrest⟩, by rw [List.flatMap_cons, List.append_assoc]⟩

theorem compile_ok {patterns matcher : List String} (h : g.compile patterns = .ok matcher) :
    (∀ pattern ∈ patterns, normalizeGlob pattern = .ok (ruleText pattern)) ∧
      matcher = patterns.flatMap fun pattern => patternGlobs (ruleText pattern) := by
  obtain ⟨globs, hglobs, h⟩ := Run.bind_ok.mp h
  obtain ⟨hnormalized, rfl⟩ := foldlM_addPattern_ok patterns hglobs
  split_ifs at h
  exact ⟨hnormalized, (Except.ok.inj h).symm⟩

/-- Where the library builds every glob, only the check of the patterns rejects. -/
theorem foldlM_addPattern_isOk (hbuilds : ∀ pattern, g.builds pattern = true)
    {patterns : List String}
    (h : ∀ pattern ∈ patterns, normalizeGlob pattern = .ok (ruleText pattern)) :
    ∀ globs, ∃ globs', patterns.foldlM g.addPattern globs = .ok globs' := by
  induction patterns with
  | nil => exact fun globs => ⟨globs, rfl⟩
  | cons pattern patterns ih =>
    intro globs
    rw [List.forall_mem_cons] at h
    have hadd : ∀ globs pattern, g.addGlob globs pattern = .ok (globs ++ [pattern]) :=
      fun _ _ => if_pos (hbuilds _)
    obtain ⟨middle, hmiddle⟩ : ∃ middle, g.addPattern globs pattern = .ok middle := by
      rw [addPattern, h.1]
      dsimp only [bind, Except.bind]
      rw [hadd]
      dsimp only
      split
      · exact ⟨_, rfl⟩
      · exact ⟨_, hadd _ _⟩
    obtain ⟨globs', hglobs'⟩ := ih h.2 middle
    refine ⟨globs', ?_⟩
    rw [List.foldlM_cons, hmiddle]
    exact hglobs'

theorem mem_patternGlobs {glob pattern : String} : glob ∈ patternGlobs pattern ↔
    glob = pattern ∨ hasGlobSyntax pattern = false ∧ glob = pattern ++ "/**" := by
  rw [patternGlobs]
  split_ifs with h <;> simp [h]

end Globset

/-! The rules that are made of a list of paths. -/

theorem normalizeGlob_reservedRules : ∀ rule ∈ reservedRules,
    hasGlobSyntax rule = true ∧ normalizeGlob rule = .ok rule := by decide +kernel

theorem mapM_normalizeGlob_ok {paths : List String} : ∀ {texts : List String},
    paths.mapM normalizeGlob = .ok texts → texts = paths.map ruleText := by
  induction paths with
  | nil =>
    intro texts h
    cases h
    rfl
  | cons path paths ih =>
    intro texts h
    rw [List.mapM_cons] at h
    obtain ⟨text, htext, h⟩ := Run.bind_ok.mp h
    obtain ⟨texts, htexts, h⟩ := Run.bind_ok.mp h
    cases h
    rw [normalizeGlob_ok htext, ih htexts, List.map_cons]

theorem mapM_normalizeGlob_isOk {paths : List String} :
    paths.mapM normalizeGlob = .ok (paths.map ruleText) ↔
      ∀ path ∈ paths, normalizeGlob path = .ok (ruleText path) := by
  induction paths with
  | nil => exact iff_of_true rfl fun _ h => nomatch h
  | cons path paths ih =>
    rw [List.mapM_cons, List.forall_mem_cons, ← ih]
    constructor
    · intro h
      obtain ⟨text, htext, h⟩ := Run.bind_ok.mp h
      obtain ⟨texts, htexts, h⟩ := Run.bind_ok.mp h
      rw [htext, htexts, normalizeGlob_ok htext, mapM_normalizeGlob_ok htexts]
      exact ⟨rfl, rfl⟩
    · rintro ⟨hpath, hpaths⟩
      rw [hpath, hpaths]
      rfl

namespace Globset

variable {g : Globset} {paths rules : List String}

theorem scratchRules_ok (h : g.scratchRules paths = .ok rules) :
    (∀ path ∈ paths, normalizeGlob path = .ok (ruleText path)) ∧
      rules = SortedSet.toSorted (paths.map ruleText ++ reservedRules).toFinset ∧
        ∃ matcher, g.compile rules = .ok matcher := by
  obtain ⟨texts, htexts, h⟩ := Run.bind_ok.mp h
  obtain ⟨matcher, hmatcher, h⟩ := Run.bind_ok.mp h
  cases h
  obtain rfl := mapM_normalizeGlob_ok htexts
  exact ⟨mapM_normalizeGlob_isOk.mp htexts, rfl, matcher, hmatcher⟩

/-- Where the library builds everything, the paths are accepted whose texts normalize again. -/
theorem scratchRules_isOk_iff (hbuilds : ∀ pattern, g.builds pattern = true)
    (hbuildsSet : ∀ globs, g.buildsSet globs = true) :
    (∃ rules, g.scratchRules paths = .ok rules) ↔ ∀ path ∈ paths,
      normalizeGlob path = .ok (ruleText path) ∧
        normalizeGlob (ruleText path) = .ok (ruleText path) := by
  have hmem : ∀ rule, rule ∈ SortedSet.toSorted (paths.map ruleText ++ reservedRules).toFinset ↔
      (∃ path ∈ paths, ruleText path = rule) ∨ rule ∈ reservedRules := fun rule => by
    rw [SortedSet.mem_toSorted, List.mem_toFinset, List.mem_append, List.mem_map]
  constructor
  · rintro ⟨rules, h⟩ path hpath
    obtain ⟨hpaths, rfl, matcher, hmatcher⟩ := scratchRules_ok h
    have htext := (compile_ok hmatcher).1 _ ((hmem _).mpr (.inl ⟨path, hpath, rfl⟩))
    rw [ruleText_again] at htext
    exact ⟨hpaths path hpath, htext⟩
  · intro h
    have hrules : ∀ rule ∈ SortedSet.toSorted (paths.map ruleText ++ reservedRules).toFinset,
        normalizeGlob rule = .ok (ruleText rule) := by
      intro rule hrule
      rcases (hmem rule).mp hrule with ⟨path, hpath, rfl⟩ | hreserved
      · rw [ruleText_again]
        exact (h path hpath).2
      · have hrule' := (normalizeGlob_reservedRules rule hreserved).2
        rwa [← normalizeGlob_ok hrule']
    obtain ⟨globs, hglobs⟩ := foldlM_addPattern_isOk hbuilds hrules []
    refine ⟨SortedSet.toSorted (paths.map ruleText ++ reservedRules).toFinset, ?_⟩
    rw [scratchRules, mapM_normalizeGlob_isOk.mpr fun path hpath => (h path hpath).1]
    dsimp only [bind, Except.bind]
    rw [compile, hglobs]
    dsimp only [bind, Except.bind]
    rw [if_pos (hbuildsSet globs)]

/-- The same paths in another order, or more often, give the same rules. -/
theorem scratchRules_congr {paths' : List String} (h : g.scratchRules paths = .ok rules)
    (hsame : ∀ path, path ∈ paths' ↔ path ∈ paths) : g.scratchRules paths' = .ok rules := by
  obtain ⟨hnormalized, rfl, matcher, hmatcher⟩ := scratchRules_ok h
  have hset : (paths'.map ruleText ++ reservedRules).toFinset =
      (paths.map ruleText ++ reservedRules).toFinset := by
    ext rule
    simp only [List.mem_toFinset, List.mem_append, List.mem_map, hsame]
  have htexts := mapM_normalizeGlob_isOk.mpr fun path hpath =>
    hnormalized path ((hsame path).mp hpath)
  rw [scratchRules, htexts]
  dsimp only [bind, Except.bind]
  rw [hset, hmatcher]

theorem mem_scratchRules {rule : String} (h : g.scratchRules paths = .ok rules) :
    rule ∈ rules ↔ (∃ path ∈ paths, ruleText path = rule) ∨ rule ∈ reservedRules := by
  obtain ⟨-, rfl, -⟩ := scratchRules_ok h
  rw [SortedSet.mem_toSorted, List.mem_toFinset, List.mem_append, List.mem_map]

/-- The globs of the rules. -/
theorem mem_matcher {matcher : List String} (h : g.scratchRules paths = .ok rules)
    (hmatcher : g.compile rules = .ok matcher) {glob : String} : glob ∈ matcher ↔
      (∃ path ∈ paths, glob = ruleText path ∨
        hasGlobSyntax path = false ∧ glob = ruleText path ++ "/**") ∨ glob ∈ reservedRules := by
  obtain ⟨hnormalized, rfl⟩ := compile_ok hmatcher
  have htext : ∀ rule ∈ reservedRules, ruleText rule = rule := fun rule hrule =>
    (normalizeGlob_ok (normalizeGlob_reservedRules rule hrule).2).symm
  simp only [List.mem_flatMap, mem_scratchRules h, mem_patternGlobs, hasGlobSyntax_ruleText]
  constructor
  · rintro ⟨rule, ⟨path, hpath, rfl⟩ | hrule, hglob⟩
    · rw [ruleText_again, hasGlobSyntax_ruleText] at hglob
      exact .inl ⟨path, hpath, hglob⟩
    · rw [htext rule hrule, (normalizeGlob_reservedRules rule hrule).1] at hglob
      rcases hglob with rfl | ⟨hfalse, -⟩
      · exact .inr hrule
      · cases hfalse
  · rintro (⟨path, hpath, hglob⟩ | hrule)
    · refine ⟨ruleText path, .inl ⟨path, hpath, rfl⟩, ?_⟩
      rwa [ruleText_again, hasGlobSyntax_ruleText]
    · exact ⟨glob, .inr hrule, .inl (htext glob hrule).symm⟩

end Globset

/-! What the globs match. -/

theorem splitOn_map {f : Char → Char} (hf : ∀ c, f c = '/' ↔ c = '/') (text : List Char) :
    (text.map f).splitOn '/' = (text.splitOn '/').map (List.map f) := by
  induction text with
  | nil => rfl
  | cons c text ih =>
    rw [List.map_cons, List.splitOn_cons_eq_if_modifyHead, List.splitOn_cons_eq_if_modifyHead, ih]
    by_cases hc : c = '/'
    · rw [hc, (hf '/').mpr rfl, if_pos (beq_self_eq_true _), if_pos (beq_self_eq_true _)]
      rfl
    · rw [if_neg (by rwa [beq_iff_eq, hf]), if_neg (by rwa [beq_iff_eq])]
      obtain ⟨word, words, hwords⟩ := List.exists_cons_of_ne_nil (List.splitOn_ne_nil '/' text)
      rw [hwords]
      rfl

/-- The components of a path, each with its characters mapped. -/
theorem splitOn_map_asStr {f : Char → Char} (hf : ∀ c, f c = '/' ↔ c = '/') (q : NormalizedPath) :
    (q.asStr.toList.map f).splitOn '/' = q.parts.map fun part => part.1.toList.map f := by
  rw [splitOn_map hf, toList_asStr, List.splitOn_intercalate '/' (slash_notMem_parts q.parts)
    (by rw [Ne, List.map_eq_nil_iff]; exact q.nonempty), List.map_map]
  rfl

/-- A text whose components continue another is a path in that one. -/
theorem exists_of_prefix_map {f : Char → Char} (hf : ∀ c, f c = '/' ↔ c = '/') {q : NormalizedPath}
    {text : List Char} (h : text ++ ['/'] <+: q.asStr.toList.map f) :
    ∃ p : NormalizedPath, text = p.asStr.toList.map f ∧ q.IsWithin p := by
  obtain ⟨rest, hrest⟩ := h
  have hsplit := splitOn_map_asStr hf q
  rw [← hrest, List.append_assoc, List.singleton_append, List.splitOn_append_cons_self] at hsplit
  obtain ⟨parts, tail, hparts, htext, -⟩ := List.map_eq_append_iff.mp hsplit.symm
  have hne : parts ≠ [] := by
    rintro rfl
    exact List.splitOn_ne_nil '/' text htext.symm
  refine ⟨⟨parts, hne⟩, ?_, ?_⟩
  · have hsame : text.splitOn '/' = ((asStr ⟨parts, hne⟩).toList.map f).splitOn '/' := by
      rw [splitOn_map_asStr hf, ← htext]
    have hjoined := congrArg (List.intercalate ['/']) hsame
    rwa [List.intercalate_splitOn, List.intercalate_splitOn] at hjoined
  · rw [IsWithin, hparts]
    exact List.prefix_append _ _

/-- A text whose components continue another is that path or below it. -/
theorem exists_of_hasPrefix {q : NormalizedPath} {text : String}
    (h : hasPrefix q.asStr text = true) : ∃ p : NormalizedPath, text = p.asStr ∧ q.IsWithin p := by
  rw [hasPrefix, List.isPrefixOf_iff_prefix, ← List.map_id q.asStr.toList] at h
  obtain ⟨p, htext, hwithin⟩ := exists_of_prefix_map (f := id) (fun _ => Iff.rfl) h
  rw [List.map_id] at htext
  exact ⟨p, String.toList_injective htext, hwithin⟩

namespace Globset.Lawful

variable {g : Globset}

theorem fold_separator (hg : g.Lawful) (c : Char) : g.fold c = '/' ↔ c = '/' := by
  rw [fold]
  split_ifs
  · exact hg.separator c
  · rfl

/-- A literal rule covers what lies in a path that its text spells. -/
theorem literal_iff (hg : g.Lawful) {text : String} (hliteral : hasGlobSyntax text = false)
    (hslashes : hasBackslash text = false) (hne : text ≠ "") {q : NormalizedPath} :
    (g.isMatch text q.asStr = true ∨ g.isMatch (text ++ "/**") q.asStr = true) ↔
      ∃ p : NormalizedPath, g.folded text = g.folded p.asStr ∧ q.IsWithin p := by
  rw [hg.literal text q hliteral hslashes, hg.below text q hliteral hslashes hne]
  constructor
  · rintro (hsame | hbelow)
    · exact ⟨q, hsame.symm, .refl q⟩
    · rw [hasPrefix, List.isPrefixOf_iff_prefix, folded, folded, String.toList_ofList,
        String.toList_ofList] at hbelow
      obtain ⟨p, htext, hwithin⟩ := exists_of_prefix_map hg.fold_separator hbelow
      exact ⟨p, congrArg String.ofList htext, hwithin⟩
  · rintro ⟨p, htext, hwithin⟩
    rw [htext]
    rcases isWithin_iff.mp hwithin with rfl | hbelow
    · exact .inl rfl
    · have hprefix := hasPrefix_iff.mpr hbelow
      rw [hasPrefix, List.isPrefixOf_iff_prefix] at hprefix
      have hmapped := hprefix.map g.fold
      rw [List.map_append, List.map_singleton, (hg.fold_separator '/').mpr rfl] at hmapped
      rw [hasPrefix, List.isPrefixOf_iff_prefix, folded, folded, String.toList_ofList,
        String.toList_ofList]
      exact .inr hmapped

end Globset.Lawful

theorem exists_last_or_inner {α : Type} {P : α → Prop} {xs : List α} :
    ((∃ x ∈ xs.getLast?, P x) ∨ ∃ x ∈ xs.dropLast, P x) ↔ ∃ x ∈ xs, P x := by
  induction xs using List.reverseRecOn with
  | nil => simp
  | append_singleton xs x _ => simp [or_comm, or_and_right, exists_or]

theorem isNameGlob_reserved : ∀ name ∈ SCRATCH_SEGMENTS ++ SCRATCH_PREFIXES,
    isNameGlob name = true ∧ hasBackslash name = false := by decide +kernel

theorem Globset.isReserved_iff {g : Globset} {part : String} : g.isReserved part = true ↔
    ∃ name ∈ SCRATCH_SEGMENTS ++ SCRATCH_PREFIXES, g.nameMatches name part = true := by
  have hsegments : ∀ name ∈ SCRATCH_SEGMENTS,
      g.nameMatches name part = (g.folded part == g.folded name) := by
    have hplain : ∀ name ∈ SCRATCH_SEGMENTS, name.toList.getLast? ≠ some '*' := by decide +kernel
    intro name hname
    rw [nameMatches, if_neg (hplain name hname)]
  have hprefixes : ∀ start ∈ [".reframe-memory", ".reframe-workspace"],
      g.nameMatches (start ++ "*") part =
        (start.toList.map g.fold).isPrefixOf (part.toList.map g.fold) := by
    intro start _
    have hlast : (start ++ "*").toList.getLast? = some '*' := by simp
    rw [nameMatches, if_pos hlast, nameStem, if_pos hlast, String.toList_append]
    simp
  simp only [List.mem_append, or_and_right, exists_or]
  rw [isReserved, Bool.or_eq_true, List.any_eq_true, List.any_eq_true]
  refine or_congr ?_ ?_
  · exact exists_congr fun name => and_congr_right fun hname => by rw [hsegments name hname]
  · have hnames : SCRATCH_PREFIXES = [".reframe-memory", ".reframe-workspace"].map (· ++ "*") := by
      decide +kernel
    simp only [hnames, List.mem_map, exists_exists_and_eq_and]
    exact exists_congr fun start => and_congr_right fun hstart => by rw [hprefixes start hstart]

/-- The reserved rules match where a component is reserved. -/
theorem Globset.Lawful.reserved_iff {g : Globset} (hg : g.Lawful) {q : NormalizedPath} :
    (∃ glob ∈ reservedRules, g.isMatch glob q.asStr = true) ↔
      ∃ part ∈ q.parts, g.isReserved part.1 = true := by
  have hname : ∀ name ∈ SCRATCH_SEGMENTS ++ SCRATCH_PREFIXES,
      (g.isMatch ("**/" ++ name) q.asStr = true ∨
        g.isMatch ("**/" ++ name ++ "/**") q.asStr = true) ↔
        ∃ part ∈ q.parts, g.nameMatches name part.1 = true := by
    intro name hmem
    obtain ⟨hglob, hslashes⟩ := isNameGlob_reserved name hmem
    rw [hg.anyDepth name q hglob hslashes, hg.anyDepthBelow name q hglob hslashes,
      exists_last_or_inner]
  simp only [isReserved_iff, reservedRules, List.mem_flatMap, List.mem_cons, List.not_mem_nil,
    or_false]
  constructor
  · rintro ⟨glob, ⟨name, hmem, hglob⟩, hmatch⟩
    have hmatches : g.isMatch ("**/" ++ name) q.asStr = true ∨
        g.isMatch ("**/" ++ name ++ "/**") q.asStr = true := by
      rcases hglob with rfl | rfl
      · exact .inl hmatch
      · exact .inr hmatch
    obtain ⟨part, hpart, hpartName⟩ := (hname name hmem).mp hmatches
    exact ⟨part, hpart, name, hmem, hpartName⟩
  · rintro ⟨part, hpart, name, hmem, hpartName⟩
    rcases (hname name hmem).mpr ⟨part, hpart, hpartName⟩ with hmatch | hmatch
    · exact ⟨_, ⟨name, hmem, .inl rfl⟩, hmatch⟩
    · exact ⟨_, ⟨name, hmem, .inr rfl⟩, hmatch⟩

/-- What the matcher of accepted rules matches. -/
theorem Globset.Lawful.matches_iff {g : Globset} (hg : g.Lawful) {paths rules matcher : List String}
    (h : g.scratchRules paths = .ok rules) (hmatcher : g.compile rules = .ok matcher)
    {q : NormalizedPath} :
    g.matches_ matcher q.asStr = true ↔ g.Spelled paths q ∨ g.Globbed paths q := by
  have hne : ∀ path ∈ paths, ruleText path ≠ "" := fun path hpath =>
    normalizeGlob_ne_empty ((compile_ok hmatcher).1 _
      ((mem_scratchRules h).mpr (.inl ⟨path, hpath, rfl⟩)))
  have hhas := hasGlobSyntax_ruleText
  have hliteral_iff : ∀ path ∈ paths, hasGlobSyntax path = false →
      ((g.isMatch (ruleText path) q.asStr = true ∨
        g.isMatch (ruleText path ++ "/**") q.asStr = true) ↔
        ∃ p : NormalizedPath, g.folded (ruleText path) = g.folded p.asStr ∧ q.IsWithin p) :=
    fun path hpath hliteral =>
      hg.literal_iff (by rwa [hhas]) (hasBackslash_ruleText path) (hne path hpath)
  simp only [matches_, List.any_eq_true, mem_matcher h hmatcher]
  constructor
  · rintro ⟨glob, ⟨path, hpath, hglob⟩ | hreserved, hmatch⟩
    · cases hliteral : hasGlobSyntax path with
      | false =>
        refine .inl (.inl ⟨path, hpath, hliteral, (hliteral_iff path hpath hliteral).mp ?_⟩)
        rcases hglob with rfl | ⟨-, rfl⟩
        · exact .inl hmatch
        · exact .inr hmatch
      | true =>
        rcases hglob with rfl | ⟨hfalse, -⟩
        · exact .inr ⟨path, hpath, hliteral, hmatch⟩
        · rw [hliteral] at hfalse
          cases hfalse
    · exact .inl (.inr (hg.reserved_iff.mp ⟨glob, hreserved, hmatch⟩))
  · rintro ((⟨path, hpath, hliteral, hwithin⟩ | hreserved) | ⟨path, hpath, -, hmatch⟩)
    · rcases (hliteral_iff path hpath hliteral).mpr hwithin with hmatch | hmatch
      · exact ⟨_, .inl ⟨path, hpath, .inl rfl⟩, hmatch⟩
      · exact ⟨_, .inl ⟨path, hpath, .inr ⟨hliteral, rfl⟩⟩, hmatch⟩
    · obtain ⟨glob, hglob, hmatch⟩ := hg.reserved_iff.mpr hreserved
      exact ⟨glob, .inr hglob, hmatch⟩
    · exact ⟨_, .inl ⟨path, hpath, .inl rfl⟩, hmatch⟩

/-- With a path, everything below it is spelled. -/
theorem Globset.Spelled.within {g : Globset} {paths : List String} {p q : NormalizedPath}
    (h : g.Spelled paths p) (hq : q.IsWithin p) : g.Spelled paths q := by
  rcases h with ⟨path, hpath, hliteral, root, htext, hroot⟩ | ⟨part, hpart, hreserved⟩
  · exact .inl ⟨path, hpath, hliteral, root, htext, hq.trans hroot⟩
  · exact .inr ⟨part, hq.subset hpart, hreserved⟩

/-- Accepted rules do what is asked of them when every literal rule denotes a path that is spelled;
and only then, where no glob of the user takes over what a literal rule denotes. -/
theorem scratch_rules_right_iff (g : Globset) (hg : g.Lawful) (paths rules : List String)
    (h : g.scratchRules paths = .ok rules) :
    ∃ matcher, g.compile rules = .ok matcher ∧
      (g.LiteralsSpelled paths → g.RulesRight paths rules matcher) ∧
      (g.GlobsApart paths → (g.RulesRight paths rules matcher ↔ g.LiteralsSpelled paths)) := by
  obtain ⟨-, -, matcher, hmatcher⟩ := Globset.scratchRules_ok h
  have hmatches : ∀ q, g.matches_ matcher (asStr q) = true ↔
      g.Spelled paths q ∨ g.Globbed paths q := fun _ => hg.matches_iff h hmatcher
  have hright : g.LiteralsSpelled paths → g.RulesRight paths rules matcher := by
    intro hspelled
    refine ⟨?_, fun q hreserved => (hmatches q).mpr (.inl (.inr hreserved)),
      fun paths' hsame => Globset.scratchRules_congr h hsame⟩
    intro path hpath hliteral p hp q hq
    exact (hmatches q).mpr (.inl ((hspelled path hpath hliteral p hp).within hq))
  refine ⟨matcher, hmatcher, hright, fun hapart => ⟨fun hasked => ?_, hright⟩⟩
  intro path hpath hliteral p hp
  have hmatch := (hmatches p).mp (hasked.literal path hpath hliteral p hp p (.refl p))
  exact hmatch.resolve_right (hapart path hpath hliteral p hp)

namespace TestVectors

/-- Either build, with no case but that of the ASCII letters. -/
def asciiCase (windows : Bool) : Globset where
  windows
  foldCase := Char.toLower
  builds _ := true
  buildsSet _ := true
  isMatch _ _ := false

/-- Globs that are literal, or literal but for `**/` in front, `/**` behind, or a `*` at the end of
the one component between them. -/
def plainGlobs (windows : Bool) : Globset :=
  { asciiCase windows with
    isMatch := fun pattern text =>
      match pattern.toList.dropPrefix? ['*', '*', '/'] with
      | some rest =>
        match rest.dropSuffix? ['/', '*', '*'] with
        | some name => (splitPath text).dropLast.any
            ((asciiCase windows).nameMatches (String.ofList name))
        | none => (splitPath text).getLast?.any
            ((asciiCase windows).nameMatches (String.ofList rest))
      | none =>
        match pattern.toList.dropSuffix? ['/', '*', '*'] with
        | some start => hasPrefix ((asciiCase windows).folded text)
            ((asciiCase windows).folded (String.ofList start))
        | none => (asciiCase windows).folded text == (asciiCase windows).folded pattern }

theorem dropPrefix?_eq_none {xs part : List Char} (h : ¬ part <+: xs) :
    xs.dropPrefix? part = none := by
  refine Option.eq_none_iff_forall_ne_some.mpr fun rest hrest => h ?_
  obtain ⟨first, rfl, hfirst⟩ := List.dropPrefix?_eq_some_iff.mp hrest
  exact ⟨rest, by rw [eq_of_beq hfirst]⟩

theorem dropSuffix?_eq_none {xs part : List Char} (h : ¬ part <:+ xs) :
    xs.dropSuffix? part = none := by
  refine Option.eq_none_iff_forall_ne_some.mpr fun first hfirst => h ?_
  obtain ⟨rest, rfl, hrest⟩ := List.dropSuffix?_eq_some_iff.mp hfirst
  exact ⟨first, by rw [eq_of_beq hrest]⟩

theorem dropSuffix?_append (first part : List Char) :
    (first ++ part).dropSuffix? part = some first :=
  List.dropSuffix?_eq_some_iff.mpr ⟨part, rfl, beq_self_eq_true part⟩

theorem star_notMem {pattern : String} (h : hasGlobSyntax pattern = false) :
    '*' ∉ pattern.toList := fun hmem =>
  List.any_eq_false.mp h '*' hmem (by decide)

theorem slash_notMem_name {name : String} (h : isNameGlob name = true) : '/' ∉ name.toList := by
  rw [isNameGlob, Bool.and_eq_true, List.all_eq_true] at h
  have hstem : '/' ∉ nameStem name := fun hmem => absurd (h.2 '/' hmem) (by decide)
  rw [nameStem] at hstem
  split_ifs at hstem with hlast
  · rw [← List.dropLast_append_getLast? '*' hlast]
    simpa using hstem
  · exact hstem

theorem toLower_eq_slash (c : Char) : c.toLower = '/' ↔ c = '/' := by
  constructor
  · intro h
    unfold Char.toLower at h
    split at h
    next hupper =>
      have hval := congrArg (fun d : Char => d.val.toNat) h
      have hlow : 65 ≤ c.val.toNat := hupper.1
      have hhigh : c.val.toNat ≤ 90 := hupper.2
      simp only [UInt32.toNat_add] at hval
      have hslash : ('/' : Char).val.toNat = 47 := rfl
      have hshift : ('a'.val - 'A'.val).toNat = 32 := rfl
      rw [hslash, hshift] at hval
      omega
    next => exact h
  · rintro rfl
    rfl

theorem plainGlobs_lawful (windows : Bool) : (plainGlobs windows).Lawful where
  separator := toLower_eq_slash
  literal pattern q h _ := by
    have hstar := star_notMem h
    have hfront : pattern.toList.dropPrefix? ['*', '*', '/'] = none :=
      dropPrefix?_eq_none fun hpart => hstar (hpart.subset (by simp))
    have hbehind : pattern.toList.dropSuffix? ['/', '*', '*'] = none :=
      dropSuffix?_eq_none fun hpart => hstar (hpart.subset (by simp))
    simp only [plainGlobs, hfront, hbehind, beq_iff_eq]
    rfl
  below pattern q h _ hne := by
    have hfront : (pattern ++ "/**").toList.dropPrefix? ['*', '*', '/'] = none := by
      refine dropPrefix?_eq_none fun hpart => star_notMem h ?_
      obtain ⟨c, rest, hc⟩ := List.exists_cons_of_ne_nil (mt String.toList_eq_nil_iff.mp hne)
      rw [String.toList_append, hc, List.cons_append, List.cons_prefix_cons] at hpart
      rw [hc, hpart.1]
      exact List.mem_cons_self
    have hbehind : (pattern ++ "/**").toList.dropSuffix? ['/', '*', '*'] = some pattern.toList := by
      rw [String.toList_append]
      exact dropSuffix?_append _ _
    simp only [plainGlobs, hfront, hbehind, String.ofList_toList]
    rfl
  anyDepth name q h _ := by
    have hfront : ("**/" ++ name).toList.dropPrefix? ['*', '*', '/'] = some name.toList := by
      rw [String.toList_append]
      exact List.dropPrefix?_append_of_beq _ (by decide)
    have hbehind : name.toList.dropSuffix? ['/', '*', '*'] = none :=
      dropSuffix?_eq_none fun hpart => slash_notMem_name h (hpart.subset (by simp))
    simp only [plainGlobs, hfront, hbehind, String.ofList_toList, splitPath_asStr,
      List.getLast?_map, Option.any_map, Option.any_eq_true, Option.mem_def]
    rfl
  anyDepthBelow name q h _ := by
    have hfront : ("**/" ++ name ++ "/**").toList.dropPrefix? ['*', '*', '/'] =
        some (name ++ "/**").toList := by
      rw [String.append_assoc, String.toList_append]
      exact List.dropPrefix?_append_of_beq _ (by decide)
    have hbehind : (name ++ "/**").toList.dropSuffix? ['/', '*', '*'] = some name.toList := by
      rw [String.toList_append]
      exact dropSuffix?_append _ _
    simp only [plainGlobs, hfront, hbehind, String.ofList_toList, splitPath_asStr,
      ← List.map_dropLast, List.any_map, List.any_eq_true, Function.comp_apply]
    rfl

theorem plainGlobs_accepts (windows : Bool) (paths : List String)
    (h : ∀ path ∈ paths, normalizeGlob path = .ok (ruleText path) ∧
      normalizeGlob (ruleText path) = .ok (ruleText path)) :
    ∃ rules, (plainGlobs windows).scratchRules paths = .ok rules :=
  (Globset.scratchRules_isOk_iff (fun _ => rfl) fun _ => rfl).mpr h

theorem denoted_of_map {rule : String} (text : String) {p : NormalizedPath} (hp : denoted rule = .ok p)
    (h : (denoted rule).map asStr = .ok text) : p.asStr = text := by
  rw [hp] at h
  exact Except.ok.inj h

/-- A rule with `./` in front covers its path, and where case is ignored also the same with another
case and a separator behind it. -/
theorem scratch_rules_right_generated : ∃ rules matcher,
    (plainGlobs true).scratchRules ["./generated", "Generated/", "*.log"] = .ok rules ∧
      (plainGlobs true).compile rules = .ok matcher ∧
      (plainGlobs true).RulesRight ["./generated", "Generated/", "*.log"] rules matcher := by
  obtain ⟨rules, haccepted⟩ := plainGlobs_accepts true ["./generated", "Generated/", "*.log"]
    (by decide +kernel)
  obtain ⟨matcher, hmatcher, hright, -⟩ :=
    scratch_rules_right_iff (plainGlobs true) (plainGlobs_lawful true) _ _ haccepted
  have hspelled : ∀ p : NormalizedPath,
      (plainGlobs true).folded p.asStr = (plainGlobs true).folded "generated" →
      (plainGlobs true).Spelled ["./generated", "Generated/", "*.log"] p := by
    intro p hp
    have htext : ruleText "./generated" = "generated" := by decide +kernel
    exact .inl ⟨"./generated", List.mem_cons_self, by decide, p, by rw [htext, hp], .refl p⟩
  refine ⟨rules, matcher, haccepted, hmatcher, hright fun path hpath hliteral p hp => ?_⟩
  simp only [List.mem_cons, List.not_mem_nil, or_false] at hpath
  rcases hpath with rfl | rfl | rfl
  · refine hspelled p ?_
    rw [denoted_of_map "generated" hp (by decide +kernel)]
  · refine hspelled p ?_
    rw [denoted_of_map "Generated" hp (by decide +kernel)]
    decide +kernel
  · cases hliteral

/-- A separator behind a rule is kept, and the rule matches nothing. -/
theorem trailing_separator_matches_nothing : ∃ rules matcher,
    (plainGlobs false).scratchRules ["generated/"] = .ok rules ∧
      (plainGlobs false).compile rules = .ok matcher ∧
      (denoted "generated/").map asStr = .ok "generated" ∧
      (plainGlobs false).matches_ matcher "generated" = false ∧
      (plainGlobs false).matches_ matcher "generated/report.txt" = false ∧
      ¬(plainGlobs false).RulesRight ["generated/"] rules matcher := by
  have hspelled : ruleText "generated/" = "generated/" := by decide +kernel
  obtain ⟨rules, haccepted⟩ := plainGlobs_accepts false ["generated/"] (by decide +kernel)
  obtain ⟨-, -, matcher, hmatcher⟩ := Globset.scratchRules_ok haccepted
  have hglobs : ∀ text, (plainGlobs false).isMatch "generated/" text = false →
      (plainGlobs false).isMatch "generated//**" text = false →
      (∀ rule ∈ reservedRules, (plainGlobs false).isMatch rule text = false) →
      (plainGlobs false).matches_ matcher text = false := by
    intro text hrule hbelow hreserved
    refine List.any_eq_false.mpr fun glob hglob => ?_
    rw [Bool.not_eq_true]
    rcases (Globset.mem_matcher haccepted hmatcher).mp hglob with ⟨path, hpath, hglob⟩ | hglob
    · obtain rfl := List.mem_singleton.mp hpath
      rw [hspelled] at hglob
      rcases hglob with rfl | ⟨-, rfl⟩
      · exact hrule
      · exact hbelow
    · exact hreserved glob hglob
  have hfalse := hglobs "generated" (by decide) (by decide) (by decide +kernel)
  have hfalse' := hglobs "generated/report.txt" (by decide) (by decide) (by decide +kernel)
  have hdenoted : (denoted "generated/").map asStr = .ok "generated" := by decide +kernel
  refine ⟨rules, matcher, haccepted, hmatcher, hdenoted, hfalse, hfalse', fun hright => ?_⟩
  obtain ⟨p, hp, htext⟩ := Run.map_eq_ok.mp hdenoted
  have hmatch := hright.literal "generated/" (List.mem_singleton_self _) (by decide) p hp p
    (.refl p)
  rw [htext, hfalse] at hmatch
  cases hmatch

end TestVectors
end Workspace
