import Reframe.Lib.PyText
import Reframe.Lib.Run

/-! The condition of a memory search. A search is compiled into clauses of a SurrealQL query with
variables; the condition is compared with what the search asks of a node. -/
namespace ReframeMemory
open PyText

/-- `_clean_terms`. -/
def cleanTerms (terms : List String) : List String :=
  (terms.map stripText).filter fun term => decide (term ≠ "")

structure TagSearch where
  anyOf : List String
  allOf : List String
  noneOf : List String
  deriving DecidableEq

def TagSearch.build (anyOf allOf noneOf : List String) : TagSearch :=
  ⟨cleanTerms anyOf, cleanTerms allOf, cleanTerms noneOf⟩

structure StringSearch where
  contains : List String
  equals : List String
  deriving DecidableEq

def StringSearch.build (contains equals : List String) : StringSearch :=
  ⟨cleanTerms contains, cleanTerms equals⟩

/-- The mappings of a search are their items. -/
structure MemoryNodeSearch where
  tags : TagSearch
  strings : StringSearch
  stringFields : List String
  contentContains : List (String × List String)
  contentEquals : List (String × List String)
  deriving DecidableEq

inductive SearchError where
  | invalidContentField (field : String)
  | noContentField
  deriving DecidableEq

/-- `[A-Za-z_][A-Za-z0-9_]*`. -/
def isIdentifier : Text → Bool
  | [] => false
  | c :: rest => (c.isAlpha || c = '_') && rest.all fun c => c.isAlphanum || c = '_'

def isContentField (field : String) : Bool := (field.toList.splitOn '.').all isIdentifier

def validateContentField (field : String) : Except SearchError Unit :=
  if isContentField field then .ok () else .error (.invalidContentField field)

/-- `_clean_content_fields`. -/
def cleanContentFields (fields : List String) : Except SearchError (List String) := do
  let fields := fromKeys (cleanTerms fields)
  fields.forM validateContentField
  .ok fields

/-- A comparison of a content field with a variable. -/
inductive Test where
  | contains (field variableName : String)
  | equals (field variableName : String)
  deriving DecidableEq

inductive Clause where
  | anyTag (variableName : String)
  | allTags (variableName : String)
  | noTag (variableName : String)
  | oneOf (tests : List Test)
  deriving DecidableEq

inductive Binding where
  | tags (tags : List String)
  | text (text : String)
  deriving DecidableEq

structure QueryParts where
  clauses : List Clause
  bindings : List (String × Binding)
  deriving DecidableEq

def Test.sql : Test → String
  | .contains field name =>
    "string::contains(string::lowercase(<string>content." ++ field ++ "), $" ++ name ++ ")"
  | .equals field name => "content." ++ field ++ " = $" ++ name

def Clause.sql : Clause → String
  | .anyTag name => "array::len(array::intersect(tags, $" ++ name ++ ")) > 0"
  | .allTags name =>
    "array::len(array::intersect(tags, $" ++ name ++ ")) = array::len($" ++ name ++ ")"
  | .noTag name => "array::len(array::intersect(tags, $" ++ name ++ ")) = 0"
  | .oneOf tests => "(" ++ " OR ".intercalate (tests.map Test.sql) ++ ")"

/-- `where_sql`. -/
def QueryParts.whereSql (parts : QueryParts) : String :=
  if parts.clauses = [] then "" else "WHERE " ++ " AND ".intercalate (parts.clauses.map Clause.sql)

namespace QueryParts

def empty : QueryParts := ⟨[], []⟩

def bind (parts : QueryParts) (name : String) (value : Binding) : QueryParts :=
  { parts with bindings := parts.bindings ++ [(name, value)] }

def add (parts : QueryParts) (clause : Clause) : QueryParts :=
  { parts with clauses := parts.clauses ++ [clause] }

/-- The variables of some comparisons, and the clause that one of them holds. -/
def addTests (parts : QueryParts) (tests : List (Test × String × String)) : QueryParts where
  clauses := parts.clauses ++ [.oneOf (tests.map Prod.fst)]
  bindings := parts.bindings ++ tests.map fun test => (test.2.1, .text test.2.2)

end QueryParts

/-- A generated name: a prefix and two positions. -/
def numbered (stem : String) (index termIndex : ℕ) : String :=
  stem ++ toString index ++ "_" ++ toString termIndex

def addTagClauses (parts : QueryParts) (tags : TagSearch) : QueryParts :=
  let parts := if tags.anyOf ≠ [] then
    (parts.bind "tag_any_of" (.tags tags.anyOf)).add (.anyTag "tag_any_of") else parts
  let parts := if tags.allOf ≠ [] then
    (parts.bind "tag_all_of" (.tags tags.allOf)).add (.allTags "tag_all_of") else parts
  if tags.noneOf ≠ [] then
    (parts.bind "tag_none_of" (.tags tags.noneOf)).add (.noTag "tag_none_of") else parts

variable (lower : String → String)

def containsTest (stem field : String) (index : ℕ) (term : String × ℕ) : Test × String × String :=
  (.contains field (numbered stem index term.2), numbered stem index term.2, lower term.1)

def equalsTest (stem field : String) (index : ℕ) (value : String × ℕ) : Test × String × String :=
  (.equals field (numbered stem index value.2), numbered stem index value.2, value.1)

/-- The loop over the fields of a mapping, for either comparison. -/
def addFieldClauses (test : String → ℕ → String × ℕ → Test × String × String)
    (parts : QueryParts) (fields : List (String × List String)) : Except SearchError QueryParts :=
  fields.zipIdx.foldlM (fun parts item => do
    validateContentField item.1.1
    let cleanTerms := cleanTerms item.1.2
    if cleanTerms = [] then .ok parts
    else .ok (parts.addTests (cleanTerms.zipIdx.map (test item.1.1 item.2)))) parts

def addContentClauses (parts : QueryParts) (contentContains : List (String × List String)) :
    Except SearchError QueryParts :=
  addFieldClauses (containsTest lower "content_term_") parts contentContains

def addContentEqualsClauses (parts : QueryParts) (contentEquals : List (String × List String)) :
    Except SearchError QueryParts :=
  addFieldClauses (equalsTest "content_value_") parts contentEquals

def addStringSearchClause (parts : QueryParts) (strings : StringSearch) (fields : List String) :
    Except SearchError QueryParts := do
  let contains := cleanTerms strings.contains
  let equals := cleanTerms strings.equals
  if contains = [] ∧ equals = [] then .ok parts
  else
    let cleanFields ← cleanContentFields fields
    if cleanFields = [] then .error .noContentField
    else .ok (parts.addTests (cleanFields.zipIdx.flatMap fun field =>
      contains.zipIdx.map (containsTest lower "string_contains_" field.1 field.2) ++
        equals.zipIdx.map (equalsTest "string_equals_" field.1 field.2)))

def buildMemoryNodeWhere : Option MemoryNodeSearch → Except SearchError QueryParts
  | none => .ok .empty
  | some search => do
    let parts := addTagClauses .empty search.tags
    let parts ← addStringSearchClause lower parts search.strings search.stringFields
    let parts ← addContentClauses lower parts search.contentContains
    addContentEqualsClauses parts search.contentEquals

/-! What the condition means to the database. -/

structure SearchedNode (ν : Type) where
  tags : List String
  content : String → ν

/-- The operations of the query language on a value of a content field. -/
structure SurrealQl (ν : Type) where
  castString : ν → String
  lowercase : String → String
  sameString : ν → String → Bool

/-- `array::intersect`: the distinct common values. -/
def arrayIntersect (xs ys : List String) : List String := (xs.filter fun x => decide (x ∈ ys)).dedup

/-- `string::contains`. -/
def stringContains (text part : String) : Bool := decide (part.toList <:+: text.toList)

variable {ν : Type} (db : SurrealQl ν)

def SurrealQl.fieldContains (node : SearchedNode ν) (field term : String) : Bool :=
  stringContains (db.lowercase (db.castString (node.content field))) term

def SurrealQl.fieldEquals (node : SearchedNode ν) (field value : String) : Bool :=
  db.sameString (node.content field) value

/-- The value of a variable. -/
def lookup (bindings : List (String × Binding)) (name : String) : Option Binding :=
  (bindings.find? fun e => e.1 = name).map Prod.snd

def Test.holds (bindings : List (String × Binding)) (node : SearchedNode ν) : Test → Bool
  | .contains field name =>
    match lookup bindings name with
    | some (.text term) => db.fieldContains node field term
    | _ => false
  | .equals field name =>
    match lookup bindings name with
    | some (.text value) => db.fieldEquals node field value
    | _ => false

def Clause.holds (bindings : List (String × Binding)) (node : SearchedNode ν) : Clause → Bool
  | .anyTag name =>
    match lookup bindings name with
    | some (.tags tags) => decide (0 < (arrayIntersect node.tags tags).length)
    | _ => false
  | .allTags name =>
    match lookup bindings name with
    | some (.tags tags) => decide ((arrayIntersect node.tags tags).length = tags.length)
    | _ => false
  | .noTag name =>
    match lookup bindings name with
    | some (.tags tags) => decide ((arrayIntersect node.tags tags).length = 0)
    | _ => false
  | .oneOf tests => tests.any (Test.holds db bindings node)

def QueryParts.holds (parts : QueryParts) (node : SearchedNode ν) : Bool :=
  parts.clauses.all (Clause.holds db parts.bindings node)

/-! What a search asks of a node. -/

/-- The field holds one of the terms, up to case. -/
def ContainsOne (node : SearchedNode ν) (field : String) (terms : List String) : Prop :=
  ∃ term ∈ terms, db.fieldContains node field (lower term) = true

def EqualsOne (node : SearchedNode ν) (field : String) (values : List String) : Prop :=
  ∃ value ∈ values, db.fieldEquals node field value = true

structure MemoryNodeSearch.Fits (search : MemoryNodeSearch) (node : SearchedNode ν) : Prop where
  anyOf : search.tags.anyOf ≠ [] → ∃ tag ∈ search.tags.anyOf, tag ∈ node.tags
  allOf : ∀ tag ∈ search.tags.allOf, tag ∈ node.tags
  noneOf : ∀ tag ∈ search.tags.noneOf, tag ∉ node.tags
  strings : search.strings.contains ≠ [] ∨ search.strings.equals ≠ [] →
    ∃ field ∈ cleanTerms search.stringFields,
      ContainsOne lower db node field search.strings.contains ∨
        EqualsOne db node field search.strings.equals
  contentContains : ∀ item ∈ search.contentContains, cleanTerms item.2 ≠ [] →
    ContainsOne lower db node item.1 (cleanTerms item.2)
  contentEquals : ∀ item ∈ search.contentEquals, cleanTerms item.2 ≠ [] →
    EqualsOne db node item.1 (cleanTerms item.2)

theorem cleanTerms_cleanTerms (terms : List String) :
    cleanTerms (cleanTerms terms) = cleanTerms terms := by
  have hstrip : ∀ term ∈ cleanTerms terms, stripText term = term ∧ term ≠ "" := by
    intro term hterm
    obtain ⟨hmem, hne⟩ := List.mem_filter.mp hterm
    obtain ⟨raw, -, rfl⟩ := List.mem_map.mp hmem
    refine ⟨?_, of_decide_eq_true hne⟩
    rw [stripText, stripText, String.toList_ofList, strip_strip]
  rw [cleanTerms]
  rw [List.map_congr_left fun term hterm => (hstrip term hterm).1, List.map_id']
  exact List.filter_eq_self.mpr fun term hterm => decide_eq_true (hstrip term hterm).2

/-! The generated names. -/

theorem toList_numbered (stem : String) (index termIndex : ℕ) :
    (numbered stem index termIndex).toList =
      stem.toList ++ (Nat.toDigits 10 index ++ '_' :: Nat.toDigits 10 termIndex) := by
  simp [numbered, String.toList_append]

theorem toDigits_injective {m n : ℕ} (h : Nat.toDigits 10 m = Nat.toDigits 10 n) : m = n := by
  rw [← @Nat.ofDigitChars_ten_toDigits m, h, Nat.ofDigitChars_ten_toDigits]

theorem isDigit_toDigits {n : ℕ} : ∀ c ∈ Nat.toDigits 10 n, c.isDigit = true :=
  fun _ hc => Nat.isDigit_of_mem_toDigits (by decide) (by decide) hc

/-- What stands before a character that ends a run of characters is read back. -/
theorem append_cons_inj {p : Char → Bool} {xs ys us vs : List Char} {c d : Char}
    (hxs : ∀ a ∈ xs, p a = true) (hys : ∀ a ∈ ys, p a = true) (hc : p c = false)
    (hd : p d = false) (h : xs ++ c :: us = ys ++ d :: vs) : xs = ys ∧ us = vs := by
  have htake : ∀ {zs ws : List Char} {e : Char}, (∀ a ∈ zs, p a = true) → p e = false →
      (zs ++ e :: ws).takeWhile p = zs := by
    intro zs ws e hzs he
    rw [List.takeWhile_append_of_pos hzs, List.takeWhile_cons_of_neg (by simp [he]),
      List.append_nil]
  have hstart := congrArg (List.takeWhile p) h
  rw [htake hxs hc, htake hys hd] at hstart
  subst hstart
  exact ⟨rfl, (List.cons.inj (List.append_cancel_left h)).2⟩

/-- No digit stands in the name. -/
def Plain (name : String) : Prop := ∀ c ∈ name.toList, (!c.isDigit) = true

instance (name : String) : Decidable (Plain name) :=
  decidable_of_iff (name.toList.all (!·.isDigit) = true) List.all_eq_true

theorem numbered_ne_plain {name stem : String} (hname : Plain name) (index termIndex : ℕ) :
    numbered stem index termIndex ≠ name := by
  rintro rfl
  obtain ⟨d, ds, hdigits⟩ := List.exists_cons_of_ne_nil (Nat.toDigits_ne_nil (n := index) (b := 10))
  have hmem : d ∈ (numbered stem index termIndex).toList := by
    rw [toList_numbered, hdigits]
    exact List.mem_append_right _ List.mem_cons_self
  have hdigit : d.isDigit = true := isDigit_toDigits d (hdigits ▸ List.mem_cons_self)
  have hplain := hname d hmem
  rw [hdigit] at hplain
  cases hplain

theorem numbered_inj {stem stem' : String} (hstem : Plain stem) (hstem' : Plain stem')
    {i j i' j' : ℕ} (h : numbered stem i j = numbered stem' i' j') :
    stem = stem' ∧ i = i' ∧ j = j' := by
  have hlist := congrArg String.toList h
  rw [toList_numbered, toList_numbered] at hlist
  have hsplit : stem.toList = stem'.toList := by
    obtain ⟨d, ds, hd⟩ := List.exists_cons_of_ne_nil (Nat.toDigits_ne_nil (n := i) (b := 10))
    obtain ⟨e, es, he⟩ := List.exists_cons_of_ne_nil (Nat.toDigits_ne_nil (n := i') (b := 10))
    have hdigit : d.isDigit = true := isDigit_toDigits d (hd ▸ List.mem_cons_self)
    have hdigit' : e.isDigit = true := isDigit_toDigits e (he ▸ List.mem_cons_self)
    rw [hd, he, List.cons_append, List.cons_append] at hlist
    exact (append_cons_inj hstem hstem' (by simp [hdigit]) (by simp [hdigit']) hlist).1
  rw [hsplit] at hlist
  obtain ⟨hindex, hterm⟩ := append_cons_inj (p := Char.isDigit) isDigit_toDigits isDigit_toDigits
    (by decide) (by decide) (List.append_cancel_left hlist)
  exact ⟨String.toList_injective hsplit, toDigits_injective hindex, toDigits_injective hterm⟩

/-! What each step of the compiler adds to the condition. -/

theorem lookup_append_left {bindings more : List (String × Binding)} {name : String}
    (h : name ∈ bindings.map Prod.fst) : lookup (bindings ++ more) name = lookup bindings name := by
  rw [lookup, lookup, List.find?_append]
  obtain ⟨e, he, rfl⟩ := List.mem_map.mp h
  cases hfind : bindings.find? fun other => decide (other.1 = e.1) with
  | some found => rfl
  | none => exact (List.find?_eq_none.mp hfind e he (decide_eq_true rfl)).elim

theorem lookup_of_mem {bindings : List (String × Binding)}
    (hnodup : (bindings.map Prod.fst).Nodup) {name : String} {value : Binding}
    (h : (name, value) ∈ bindings) : lookup bindings name = some value := by
  cases hfind : bindings.find? fun e => decide (e.1 = name) with
  | none => exact (List.find?_eq_none.mp hfind _ h (decide_eq_true rfl)).elim
  | some found =>
    have hname : found.1 = name := of_decide_eq_true (List.find?_some hfind :)
    have hsame := List.inj_on_of_nodup_map hnodup (List.mem_of_find?_eq_some hfind) h hname
    rw [lookup, hfind, hsame]
    rfl

def Test.variableName : Test → String
  | .contains _ name => name
  | .equals _ name => name

/-- The variables that a clause reads. -/
def Clause.reads : Clause → List String
  | .anyTag name => [name]
  | .allTags name => [name]
  | .noTag name => [name]
  | .oneOf tests => tests.map Test.variableName

theorem Clause.holds_append {bindings more : List (String × Binding)} {node : SearchedNode ν}
    {clause : Clause} (h : ∀ name ∈ clause.reads, name ∈ bindings.map Prod.fst) :
    clause.holds db (bindings ++ more) node = clause.holds db bindings node := by
  cases clause with
  | anyTag name => rw [Clause.holds, Clause.holds, lookup_append_left (h name (by simp [reads]))]
  | allTags name => rw [Clause.holds, Clause.holds, lookup_append_left (h name (by simp [reads]))]
  | noTag name => rw [Clause.holds, Clause.holds, lookup_append_left (h name (by simp [reads]))]
  | oneOf tests =>
    rw [Clause.holds, Clause.holds, Bool.eq_iff_iff, List.any_eq_true, List.any_eq_true]
    refine exists_congr fun test => and_congr_right fun htest => ?_
    cases test with
    | contains field name =>
      rw [Test.holds, Test.holds, lookup_append_left (h name (List.mem_map_of_mem htest))]
    | equals field name =>
      rw [Test.holds, Test.holds, lookup_append_left (h name (List.mem_map_of_mem htest))]

/-- What has been compiled so far: its variables have names of their own, each clause reads variables
that are bound, and the condition is that of the specification. -/
structure Compiled (parts : QueryParts) (used : String → Prop)
    (asks : SearchedNode ν → Prop) : Prop where
  nodup : (parts.bindings.map Prod.fst).Nodup
  names : ∀ name ∈ parts.bindings.map Prod.fst, used name
  bound : ∀ clause ∈ parts.clauses, ∀ name ∈ clause.reads, name ∈ parts.bindings.map Prod.fst
  holds : ∀ node, parts.holds db node = true ↔ asks node

variable {db} {parts : QueryParts} {used : String → Prop} {asks : SearchedNode ν → Prop}

theorem compiled_empty (db : SurrealQl ν) : Compiled db .empty (fun _ => False) fun _ => True :=
  ⟨List.nodup_nil, fun _ h => (by cases h), fun _ h => (by cases h),
    fun _ => iff_of_true rfl trivial⟩

theorem Compiled.mono (h : Compiled db parts used asks) {used' : String → Prop}
    {asks' : SearchedNode ν → Prop} (hused : ∀ name, used name → used' name)
    (hasks : ∀ node, asks node ↔ asks' node) : Compiled db parts used' asks' :=
  ⟨h.nodup, fun name hname => hused name (h.names name hname), h.bound,
    fun node => (h.holds node).trans (hasks node)⟩

/-- One more clause with the variables it reads. -/
theorem Compiled.extend (h : Compiled db parts used asks) (more : List (String × Binding))
    (clause : Clause) (adds : SearchedNode ν → Prop) (hnodup : (more.map Prod.fst).Nodup)
    (hfresh : ∀ name ∈ more.map Prod.fst, ¬ used name)
    (hreads : ∀ name ∈ clause.reads, name ∈ more.map Prod.fst)
    (hholds : ((parts.bindings ++ more).map Prod.fst).Nodup → ∀ node,
      clause.holds db (parts.bindings ++ more) node = true ↔ adds node) :
    Compiled db ⟨parts.clauses ++ [clause], parts.bindings ++ more⟩
      (fun name => used name ∨ name ∈ more.map Prod.fst) fun node => asks node ∧ adds node := by
  have hall : ((parts.bindings ++ more).map Prod.fst).Nodup := by
    rw [List.map_append]
    refine h.nodup.append hnodup fun name hname hmore => hfresh name hmore (h.names name hname)
  refine ⟨hall, fun name hname => ?_, fun other hother name hname => ?_, fun node => ?_⟩
  · rw [List.map_append, List.mem_append] at hname
    exact hname.imp_left (h.names name)
  · rw [List.map_append, List.mem_append]
    rcases List.mem_append.mp hother with hother | hother
    · exact .inl (h.bound other hother name hname)
    · rw [List.mem_singleton.mp hother] at hname
      exact .inr (hreads name hname)
  · rw [← h.holds node, ← hholds hall node, QueryParts.holds, List.all_append, Bool.and_eq_true,
      List.all_cons, List.all_nil, Bool.and_true]
    refine and_congr_left fun _ => ?_
    rw [QueryParts.holds, List.all_eq_true, List.all_eq_true]
    exact forall₂_congr fun other hother => by rw [Clause.holds_append db (h.bound other hother)]

/-! The clauses on tags. -/

theorem mem_arrayIntersect {xs ys : List String} {x : String} :
    x ∈ arrayIntersect xs ys ↔ x ∈ xs ∧ x ∈ ys := by
  rw [arrayIntersect, List.mem_dedup, List.mem_filter, decide_eq_true_eq]

theorem length_arrayIntersect_pos {xs ys : List String} :
    0 < (arrayIntersect xs ys).length ↔ ∃ y ∈ ys, y ∈ xs := by
  rw [List.length_pos_iff_exists_mem]
  exact exists_congr fun y => by rw [mem_arrayIntersect, and_comm]

theorem length_arrayIntersect_eq_zero {xs ys : List String} :
    (arrayIntersect xs ys).length = 0 ↔ ∀ y ∈ ys, y ∉ xs := by
  rw [← Nat.le_zero, ← not_lt, length_arrayIntersect_pos]
  push Not
  rfl

/-- Repeated values are counted once among the common ones, but as often as they are listed. -/
theorem length_arrayIntersect_eq {xs ys : List String} :
    (arrayIntersect xs ys).length = ys.length ↔ ys.Nodup ∧ ∀ y ∈ ys, y ∈ xs := by
  have hnodup : (arrayIntersect xs ys).Nodup := List.nodup_dedup _
  have hsubset : arrayIntersect xs ys ⊆ ys := fun y hy => (mem_arrayIntersect.mp hy).2
  have hsubperm := hnodup.subperm hsubset
  constructor
  · intro hlength
    have hperm := hsubperm.perm_of_length_le hlength.ge
    exact ⟨hperm.nodup_iff.mp hnodup, fun y hy =>
      (mem_arrayIntersect.mp (hperm.mem_iff.mpr hy)).1⟩
  · rintro ⟨hys, hmem⟩
    have hback : ys ⊆ arrayIntersect xs ys := fun y hy => mem_arrayIntersect.mpr ⟨hmem y hy, hy⟩
    exact le_antisymm hsubperm.length_le (hys.subperm hback).length_le

/-- One clause on tags, which is left out when there is no tag. -/
theorem Compiled.addTags (h : Compiled db parts used asks) (tags : List String) (name : String)
    (clause : Clause) (adds : SearchedNode ν → Prop) (hreads : clause.reads = [name])
    (hfresh : ¬ used name) (hnone : tags = [] → ∀ node, adds node)
    (hholds : tags ≠ [] → ∀ bindings node, lookup bindings name = some (.tags tags) →
      (clause.holds db bindings node = true ↔ adds node)) :
    Compiled db (if tags ≠ [] then (parts.bind name (.tags tags)).add clause else parts)
      (fun other => used other ∨ other = name) fun node => asks node ∧ adds node := by
  split_ifs with htags
  · refine (h.extend [(name, .tags tags)] clause adds (List.nodup_singleton _)
      (fun other hother => ?_) (by simp [hreads]) fun hnodup node => ?_).mono
        (fun other hother => hother.imp_right fun hmem => ?_) fun _ => Iff.rfl
    · rw [List.mem_singleton.mp hother]
      exact hfresh
    · exact hholds htags _ node (lookup_of_mem hnodup (List.mem_append_right _ (List.mem_singleton_self _)))
    · exact List.mem_singleton.mp hmem
  · rw [not_not] at htags
    exact h.mono (fun _ => .inl) fun node => (and_iff_left (hnone htags node)).symm

def tagNames : List String := ["tag_any_of", "tag_all_of", "tag_none_of"]

theorem compiled_addTagClauses (db : SurrealQl ν) (tags : TagSearch) :
    Compiled db (addTagClauses .empty tags) (· ∈ tagNames) fun node =>
      ((tags.anyOf ≠ [] → ∃ tag ∈ tags.anyOf, tag ∈ node.tags) ∧
        (tags.allOf.Nodup ∧ ∀ tag ∈ tags.allOf, tag ∈ node.tags)) ∧
          ∀ tag ∈ tags.noneOf, tag ∉ node.tags := by
  have hany := (compiled_empty db).addTags tags.anyOf "tag_any_of" (.anyTag "tag_any_of")
    (fun node => tags.anyOf ≠ [] → ∃ tag ∈ tags.anyOf, tag ∈ node.tags) rfl not_false
    (fun hnil _ hne => (hne hnil).elim) fun hne bindings node hlookup => by
      rw [Clause.holds, hlookup, forall_prop_of_true hne]
      exact decide_eq_true_iff.trans length_arrayIntersect_pos
  have hall := hany.addTags tags.allOf "tag_all_of" (.allTags "tag_all_of")
    (fun node => tags.allOf.Nodup ∧ ∀ tag ∈ tags.allOf, tag ∈ node.tags) rfl (by simp)
    (fun hnil _ => by simp [hnil]) fun _ bindings node hlookup => by
      rw [Clause.holds, hlookup]
      exact decide_eq_true_iff.trans length_arrayIntersect_eq
  have hnone := hall.addTags tags.noneOf "tag_none_of" (.noTag "tag_none_of")
    (fun node => ∀ tag ∈ tags.noneOf, tag ∉ node.tags) rfl (by simp)
    (fun hnil _ => by simp [hnil]) fun _ bindings node hlookup => by
      rw [Clause.holds, hlookup]
      exact decide_eq_true_iff.trans length_arrayIntersect_eq_zero
  refine hnone.mono (fun name hname => ?_) fun node => by rw [true_and]
  simpa [tagNames, or_assoc] using hname

/-! The clauses on content fields. -/

/-- What a comparison asks, when its variable is bound to the text beside it. -/
def asksTest (db : SurrealQl ν) (node : SearchedNode ν) (test : Test × String × String) : Prop :=
  match test.1 with
  | .contains field _ => db.fieldContains node field test.2.2 = true
  | .equals field _ => db.fieldEquals node field test.2.2 = true

theorem Compiled.addTests (h : Compiled db parts used asks)
    (tests : List (Test × String × String)) (hnodup : (tests.map fun test => test.2.1).Nodup)
    (hfresh : ∀ test ∈ tests, ¬ used test.2.1)
    (hname : ∀ test ∈ tests, test.1.variableName = test.2.1) :
    Compiled db (parts.addTests tests) (fun name => used name ∨ ∃ test ∈ tests, test.2.1 = name)
      fun node => asks node ∧ ∃ test ∈ tests, asksTest db node test := by
  have hnames : (tests.map fun test => (test.2.1, Binding.text test.2.2)).map Prod.fst =
      tests.map fun test => test.2.1 := by
    rw [List.map_map]
    rfl
  refine (h.extend (tests.map fun test => (test.2.1, Binding.text test.2.2))
    (.oneOf (tests.map Prod.fst)) (fun node => ∃ test ∈ tests, asksTest db node test) (by rwa [hnames]) (fun name hmem => ?_)
    (fun name hread => ?_) fun hall node => ?_).mono (fun name => Or.imp_right fun hmem => ?_)
      fun _ => Iff.rfl
  · rw [hnames] at hmem
    obtain ⟨test, htest, rfl⟩ := List.mem_map.mp hmem
    exact hfresh test htest
  · obtain ⟨_, hmem, rfl⟩ := List.mem_map.mp hread
    obtain ⟨test, htest, rfl⟩ := List.mem_map.mp hmem
    rw [hnames, hname test htest]
    exact List.mem_map_of_mem htest
  · rw [Clause.holds, List.any_map, List.any_eq_true]
    refine exists_congr fun test => and_congr_right fun htest => ?_
    have hlookup := lookup_of_mem hall (List.mem_append_right parts.bindings
      (List.mem_map_of_mem (f := fun test => (test.2.1, Binding.text test.2.2)) htest))
    obtain ⟨comparison, name, value⟩ := test
    have hsame : comparison.variableName = name := hname _ htest
    cases comparison with
    | contains field other =>
      rw [show other = name from hsame, Function.comp_apply, Test.holds, hlookup]
      rfl
    | equals field other =>
      rw [show other = name from hsame, Function.comp_apply, Test.holds, hlookup]
      rfl
  · rw [hnames] at hmem
    exact List.mem_map.mp hmem

/-- The comparisons that are generated with a stem are named after the field and the term. -/
structure Numbers (test : String → ℕ → String × ℕ → Test × String × String) (stem : String) :
    Prop where
  variableName : ∀ field index term, (test field index term).1.variableName =
    numbered stem index term.2
  name : ∀ field index term, (test field index term).2.1 = numbered stem index term.2
  plain : Plain stem

theorem numbers_containsTest (lower : String → String) {stem : String} (h : Plain stem) :
    Numbers (containsTest lower stem) stem := ⟨fun _ _ _ => rfl, fun _ _ _ => rfl, h⟩

theorem numbers_equalsTest {stem : String} (h : Plain stem) : Numbers (equalsTest stem) stem :=
  ⟨fun _ _ _ => rfl, fun _ _ _ => rfl, h⟩

theorem Numbers.nodup {test : String → ℕ → String × ℕ → Test × String × String} {stem : String}
    (h : Numbers test stem) (field : String) (index : ℕ) (terms : List String) :
    ((terms.zipIdx.map (test field index)).map fun test => test.2.1).Nodup := by
  rw [List.map_map, show (fun test : Test × String × String => test.2.1) ∘ test field index =
    fun term => numbered stem index term.2 from funext (h.name field index)]
  have hindexes : (terms.zipIdx.map Prod.snd).Nodup := by
    rw [List.zipIdx_map_snd]
    exact List.nodup_range'
  rw [show (fun term : String × ℕ => numbered stem index term.2) = numbered stem index ∘ Prod.snd
    from rfl, ← List.map_map]
  exact hindexes.map fun i j hij => (numbered_inj h.plain h.plain hij).2.2

theorem exists_mem_zipIdx {α : Type} {P : α → Prop} {xs : List α} {n : ℕ} :
    (∃ x ∈ xs.zipIdx n, P x.1) ↔ ∃ x ∈ xs, P x := by
  constructor
  · rintro ⟨x, hx, hP⟩
    exact ⟨x.1, List.fst_mem_of_mem_zipIdx hx, hP⟩
  · rintro ⟨x, hx, hP⟩
    obtain ⟨i, hi, rfl⟩ := List.getElem_of_mem hx
    exact ⟨(xs[i], n + i), List.mk_add_mem_zipIdx_iff_getElem?.mpr (List.getElem?_eq_getElem hi), hP⟩

/-- The loop over the fields of a mapping asks for one of the terms of each field that has any. -/
theorem Compiled.addFieldClauses {test : String → ℕ → String × ℕ → Test × String × String}
    {stem : String} (htest : Numbers test stem) (hfresh : ∀ i j, ¬ used (numbered stem i j))
    (adds : SearchedNode ν → String → String → Prop)
    (hadds : ∀ node field index term, asksTest db node (test field index term) ↔
      adds node field term.1) {fields : List (String × List String)} {parts' : QueryParts}
    (h : Compiled db parts used asks) (hok : addFieldClauses test parts fields = .ok parts') :
    Compiled db parts' (fun name => used name ∨ ∃ i j, numbered stem i j = name) fun node =>
      asks node ∧ ∀ item ∈ fields, cleanTerms item.2 ≠ [] →
        ∃ term ∈ cleanTerms item.2, adds node item.1 term := by
  -- The names used so far have positions below the index of the next field.
  have hloop : ∀ (fields : List (String × List String)) (n : ℕ) (parts parts' : QueryParts)
      (asks : SearchedNode ν → Prop),
      Compiled db parts (fun name => used name ∨ ∃ i j, i < n ∧ numbered stem i j = name) asks →
      (fields.zipIdx n).foldlM (fun parts item => do
        validateContentField item.1.1
        let cleanTerms := cleanTerms item.1.2
        if cleanTerms = [] then .ok parts
        else .ok (parts.addTests (cleanTerms.zipIdx.map (test item.1.1 item.2)))) parts =
          Except.ok (ε := SearchError) parts' →
      Compiled db parts' (fun name => used name ∨ ∃ i j, numbered stem i j = name) fun node =>
        asks node ∧ ∀ item ∈ fields, cleanTerms item.2 ≠ [] →
          ∃ term ∈ cleanTerms item.2, adds node item.1 term := by
    intro fields
    induction fields with
    | nil =>
      intro n parts parts' asks h hok
      cases hok
      refine h.mono (fun name => Or.imp_right ?_) fun node => by simp
      rintro ⟨i, j, -, hname⟩
      exact ⟨i, j, hname⟩
    | cons item fields ih =>
      intro n parts parts' asks h hok
      rw [List.zipIdx_cons, List.foldlM_cons] at hok
      obtain ⟨middle, hstep, hrest⟩ := Run.bind_ok.mp hok
      obtain ⟨-, -, hstep⟩ := Run.bind_ok.mp hstep
      dsimp only at hstep
      split_ifs at hstep with hterms
      · cases hstep
        refine (ih (n + 1) _ _ _ (h.mono (fun name => Or.imp_right ?_) fun _ => Iff.rfl) hrest).mono
          (fun _ => id) fun node => ?_
        · rintro ⟨i, j, hi, hname⟩
          exact ⟨i, j, hi.trans n.lt_succ_self, hname⟩
        · rw [List.forall_mem_cons]
          simp [hterms]
      · cases hstep
        have hadded := h.addTests ((cleanTerms item.2).zipIdx.map (test item.1 n))
          (htest.nodup item.1 n _) (fun t ht => ?_) fun t ht => ?_
        · refine (ih (n + 1) _ _ _ (hadded.mono (fun name hname => ?_) fun _ => Iff.rfl) hrest).mono
            (fun _ => id) fun node => ?_
          · rcases hname with (hname | ⟨i, j, hi, hname⟩) | ⟨t, ht, hname⟩
            · exact .inl hname
            · exact .inr ⟨i, j, hi.trans n.lt_succ_self, hname⟩
            · obtain ⟨term, -, rfl⟩ := List.mem_map.mp ht
              exact .inr ⟨n, term.2, n.lt_succ_self, (htest.name item.1 n term).symm.trans hname⟩
          · rw [List.forall_mem_cons, forall_prop_of_true hterms, and_assoc]
            refine and_congr_right fun _ => and_congr_left fun _ => ?_
            rw [← exists_mem_zipIdx (n := 0) (P := adds node item.1)]
            simp only [List.mem_map, exists_exists_and_eq_and, hadds]
        · obtain ⟨term, -, rfl⟩ := List.mem_map.mp ht
          rw [htest.name]
          rintro (hused | ⟨i, j, hi, hname⟩)
          · exact hfresh _ _ hused
          · exact hi.ne (numbered_inj htest.plain htest.plain hname).2.1
        · obtain ⟨term, -, rfl⟩ := List.mem_map.mp ht
          rw [htest.variableName, htest.name]
  refine hloop fields 0 parts parts' asks (h.mono (fun _ => .inl) fun _ => Iff.rfl) ?_
  exact hok

theorem mem_cleanContentFields {fields cleanFields : List String}
    (h : cleanContentFields fields = .ok cleanFields) {field : String} :
    field ∈ cleanFields ↔ field ∈ cleanTerms fields := by
  obtain ⟨_, -, hfields⟩ := Run.bind_ok.mp h
  cases hfields
  exact mem_fromKeys

/-- The comparisons of one field in a string search. -/
def stringTests (lower : String → String) (contains equals : List String)
    (field : String × ℕ) : List (Test × String × String) :=
  contains.zipIdx.map (containsTest lower "string_contains_" field.1 field.2) ++
    equals.zipIdx.map (equalsTest "string_equals_" field.1 field.2)

theorem numbers_stringContains (lower : String → String) :
    Numbers (containsTest lower "string_contains_") "string_contains_" :=
  numbers_containsTest lower (by decide)

theorem numbers_stringEquals : Numbers (equalsTest "string_equals_") "string_equals_" :=
  numbers_equalsTest (by decide)

theorem mem_stringTests {lower : String → String} {contains equals : List String}
    {field : String × ℕ} {test : Test × String × String}
    (h : test ∈ stringTests lower contains equals field) : ∃ stem k,
      (stem = "string_contains_" ∨ stem = "string_equals_") ∧
        test.2.1 = numbered stem field.2 k ∧ test.1.variableName = test.2.1 := by
  rcases List.mem_append.mp h with h | h
  · obtain ⟨term, -, rfl⟩ := List.mem_map.mp h
    exact ⟨_, term.2, .inl rfl, rfl, rfl⟩
  · obtain ⟨value, -, rfl⟩ := List.mem_map.mp h
    exact ⟨_, value.2, .inr rfl, rfl, rfl⟩

theorem plain_stringStem {stem : String}
    (h : stem = "string_contains_" ∨ stem = "string_equals_") : Plain stem := by
  obtain rfl | rfl := h <;> decide

theorem nodup_stringTests (lower : String → String) (contains equals : List String)
    (field : String × ℕ) :
    ((stringTests lower contains equals field).map fun test => test.2.1).Nodup := by
  rw [stringTests, List.map_append]
  refine ((numbers_stringContains lower).nodup field.1 field.2 contains).append
    (numbers_stringEquals.nodup field.1 field.2 equals) fun name hname hname' => ?_
  obtain ⟨test, htest, rfl⟩ := List.mem_map.mp hname
  obtain ⟨term, -, rfl⟩ := List.mem_map.mp htest
  obtain ⟨test, htest, hsame⟩ := List.mem_map.mp hname'
  obtain ⟨value, -, rfl⟩ := List.mem_map.mp htest
  have hstems := (numbered_inj numbers_stringEquals.plain (numbers_stringContains lower).plain
    hsame).1
  exact absurd hstems (by decide)

theorem nodup_flatMap_stringTests (lower : String → String) (contains equals : List String)
    (fields : List String) :
    ((fields.zipIdx.flatMap (stringTests lower contains equals)).map fun test => test.2.1).Nodup := by
  rw [List.map_flatMap, List.nodup_flatMap]
  refine ⟨fun field _ => nodup_stringTests lower contains equals field, ?_⟩
  have hindexes : (fields.zipIdx.map Prod.snd).Nodup := by
    rw [List.zipIdx_map_snd]
    exact List.nodup_range'
  refine (List.pairwise_map.mp hindexes).imp fun {field field'} hne name hname hname' => ?_
  obtain ⟨test, htest, rfl⟩ := List.mem_map.mp hname
  obtain ⟨test', htest', hsame⟩ := List.mem_map.mp hname'
  obtain ⟨stem, k, hstem, hnumbered, -⟩ := mem_stringTests htest
  obtain ⟨stem', k', hstem', hnumbered', -⟩ := mem_stringTests htest'
  rw [hnumbered, hnumbered'] at hsame
  exact hne (numbered_inj (plain_stringStem hstem') (plain_stringStem hstem) hsame).2.1.symm

theorem Compiled.addStringSearchClause {lower : String → String} {strings : StringSearch}
    {fields : List String} {parts' : QueryParts}
    (hfresh : ∀ stem i j, (stem = "string_contains_" ∨ stem = "string_equals_") →
      ¬ used (numbered stem i j)) (h : Compiled db parts used asks)
    (hok : addStringSearchClause lower parts strings fields = .ok parts') :
    Compiled db parts' (fun name => used name ∨ ∃ stem i j,
      (stem = "string_contains_" ∨ stem = "string_equals_") ∧ numbered stem i j = name) fun node =>
        asks node ∧ (cleanTerms strings.contains ≠ [] ∨ cleanTerms strings.equals ≠ [] →
          ∃ field ∈ cleanTerms fields,
            ContainsOne lower db node field (cleanTerms strings.contains) ∨
              EqualsOne db node field (cleanTerms strings.equals)) := by
  rw [ReframeMemory.addStringSearchClause] at hok
  split_ifs at hok with hempty
  · cases hok
    refine h.mono (fun _ => .inl) fun node => (and_iff_left fun hne => ?_).symm
    exact (hne.elim (· hempty.1) (· hempty.2)).elim
  · obtain ⟨cleanFields, hfields, hok⟩ := Run.bind_ok.mp hok
    split_ifs at hok with hnone
    cases hok
    have hadded := h.addTests
      (cleanFields.zipIdx.flatMap
        (stringTests lower (cleanTerms strings.contains) (cleanTerms strings.equals)))
      (nodup_flatMap_stringTests lower _ _ cleanFields) (fun test htest => ?_) fun test htest => ?_
    · refine hadded.mono (fun name => Or.imp_right ?_) fun node => and_congr_right fun _ => ?_
      · rintro ⟨test, htest, rfl⟩
        obtain ⟨field, -, htest⟩ := List.mem_flatMap.mp htest
        obtain ⟨stem, k, hstem, hnumbered, -⟩ := mem_stringTests htest
        exact ⟨stem, field.2, k, hstem, hnumbered.symm⟩
      · rw [forall_prop_of_true (by tauto)]
        have hfield : ∀ field : String × ℕ,
            (∃ test ∈ stringTests lower (cleanTerms strings.contains) (cleanTerms strings.equals)
              field, asksTest db node test) ↔
            ContainsOne lower db node field.1 (cleanTerms strings.contains) ∨
              EqualsOne db node field.1 (cleanTerms strings.equals) := by
          intro field
          rw [ContainsOne, EqualsOne,
            ← exists_mem_zipIdx (n := 0)
              (P := fun term => db.fieldContains node field.1 (lower term) = true),
            ← exists_mem_zipIdx (n := 0) (P := fun value => db.fieldEquals node field.1 value = true)]
          simp only [stringTests, List.mem_append, List.mem_map, or_and_right, exists_or,
            exists_exists_and_eq_and, asksTest, containsTest, equalsTest]
        simp only [List.mem_flatMap]
        rw [← exists_congr fun field => and_congr_left fun _ => mem_cleanContentFields hfields,
          ← exists_mem_zipIdx (n := 0) (P := fun field =>
            ContainsOne lower db node field (cleanTerms strings.contains) ∨
              EqualsOne db node field (cleanTerms strings.equals))]
        simp only [← hfield]
        constructor
        · rintro ⟨test, ⟨field, hmem, htest⟩, hasks⟩
          exact ⟨field, hmem, test, htest, hasks⟩
        · rintro ⟨field, hmem, test, htest, hasks⟩
          exact ⟨test, ⟨field, hmem, htest⟩, hasks⟩
    · obtain ⟨field, -, htest⟩ := List.mem_flatMap.mp htest
      obtain ⟨stem, k, hstem, hnumbered, -⟩ := mem_stringTests htest
      rw [hnumbered]
      exact hfresh stem field.2 k hstem
    · obtain ⟨field, -, htest⟩ := List.mem_flatMap.mp htest
      obtain ⟨-, -, -, -, hname⟩ := mem_stringTests htest
      exact hname

/-- What a compiled search asks: what the search asks, of a search that repeats no tag. -/
theorem compiled_buildMemoryNodeWhere (db : SurrealQl ν) {a b c d e stringFields : List String}
    {contentContains contentEquals : List (String × List String)} {search : MemoryNodeSearch}
    (hsearch : search = ⟨.build a b c, .build d e, stringFields, contentContains, contentEquals⟩)
    {parts : QueryParts} (hok : buildMemoryNodeWhere lower (some search) = .ok parts) :
    ∃ used, Compiled db parts used fun node =>
      search.tags.allOf.Nodup ∧ search.Fits lower db node := by
  obtain ⟨withStrings, hstrings, hok⟩ := Run.bind_ok.mp hok
  obtain ⟨withContains, hcontains, hequals⟩ := Run.bind_ok.mp hok
  have htags := compiled_addTagClauses db search.tags
  have htagPlain : ∀ name ∈ tagNames, Plain name := by decide
  have hplain : Plain "content_term_" ∧ Plain "content_value_" := by decide
  have hstem : ∀ {stem}, stem = "string_contains_" ∨ stem = "string_equals_" →
      stem ≠ "content_term_" ∧ stem ≠ "content_value_" := by
    rintro stem (rfl | rfl) <;> decide
  have hwithStrings := htags.addStringSearchClause (fun stem i j _ hname =>
    numbered_ne_plain (htagPlain _ hname) i j rfl) hstrings
  have hwithContains := hwithStrings.addFieldClauses (numbers_containsTest lower hplain.1)
    (fun i j hname => ?_) (fun node field term => db.fieldContains node field (lower term) = true)
    (fun _ _ _ _ => Iff.rfl) hcontains
  · have hwithEquals := hwithContains.addFieldClauses (numbers_equalsTest hplain.2)
      (fun i j hname => ?_) (fun node field value => db.fieldEquals node field value = true)
      (fun _ _ _ _ => Iff.rfl) hequals
    · refine ⟨_, hwithEquals.mono (fun _ => id) fun node => ?_⟩
      have hclean : cleanTerms search.strings.contains = search.strings.contains ∧
          cleanTerms search.strings.equals = search.strings.equals := by
        subst hsearch
        exact ⟨cleanTerms_cleanTerms d, cleanTerms_cleanTerms e⟩
      rw [hclean.1, hclean.2]
      constructor
      · rintro ⟨⟨⟨⟨⟨hany, hnodup, hall⟩, hnone⟩, hstrings⟩, hcontains⟩, hequals⟩
        exact ⟨hnodup, hany, hall, hnone, hstrings, hcontains, hequals⟩
      · rintro ⟨hnodup, hany, hall, hnone, hstrings, hcontains, hequals⟩
        exact ⟨⟨⟨⟨⟨hany, hnodup, hall⟩, hnone⟩, hstrings⟩, hcontains⟩, hequals⟩
    · obtain (hname | ⟨stem, _, _, hstrings, hname⟩) | ⟨_, _, hname⟩ := hname
      · exact numbered_ne_plain (htagPlain _ hname) i j rfl
      · exact (hstem hstrings).2 (numbered_inj (plain_stringStem hstrings) hplain.2 hname).1
      · exact absurd (numbered_inj hplain.1 hplain.2 hname).1 (by decide)
  · obtain hname | ⟨stem, _, _, hstrings, hname⟩ := hname
    · exact numbered_ne_plain (htagPlain _ hname) i j rfl
    · exact (hstem hstrings).1 (numbered_inj (plain_stringStem hstrings) hplain.1 hname).1

/-- The compiled condition is what the search asks, except when a tag that every node must have is
listed twice: then no node meets the condition. The variables have distinct names. -/
theorem condition_exact_iff (lower : String → String) (db : SurrealQl ν)
    (a b c d e stringFields : List String)
    (contentContains contentEquals : List (String × List String)) (search : MemoryNodeSearch)
    (hsearch : search = ⟨.build a b c, .build d e, stringFields, contentContains, contentEquals⟩)
    (parts : QueryParts) (hok : buildMemoryNodeWhere lower (some search) = .ok parts) :
    (parts.bindings.map Prod.fst).Nodup ∧ ∀ node : SearchedNode ν,
      (parts.holds db node = true ↔ search.Fits lower db node) ↔
        (search.tags.allOf.Nodup ∨ ¬ search.Fits lower db node) := by
  obtain ⟨used, hcompiled⟩ := compiled_buildMemoryNodeWhere lower db hsearch hok
  refine ⟨hcompiled.nodup, fun node => ?_⟩
  rw [hcompiled.holds node]
  tauto

namespace TestVectors

/-- A database that lists the text of a content field under its name. -/
def plainDb : SurrealQl (Option String) where
  castString value := value.getD "NONE"
  lowercase := id
  sameString value text := decide (value = some text)

def lowerAscii (text : String) : String := String.ofList (text.toList.map Char.toLower)

def asciiDb : SurrealQl (Option String) := { plainDb with lowercase := lowerAscii }

/-- Every kind of term, with blanks around some, repeated terms and a field without terms. -/
def releaseSearch : MemoryNodeSearch where
  tags := .build [" plan", "work "] ["notes ", "work"] ["draft", " "]
  strings := .build [" Release", "release"] ["Beta 2 "]
  stringFields := ["title ", "title", "summary.text"]
  contentContains := [("title", [" "]), ("body", ["Ships", "ships "])]
  contentEquals := [("state", ["open", " open", "closed"])]

def releaseParts : QueryParts where
  clauses := [
    .anyTag "tag_any_of",
    .allTags "tag_all_of",
    .noTag "tag_none_of",
    .oneOf [
      .contains "title" "string_contains_0_0",
      .contains "title" "string_contains_0_1",
      .equals "title" "string_equals_0_0",
      .contains "summary.text" "string_contains_1_0",
      .contains "summary.text" "string_contains_1_1",
      .equals "summary.text" "string_equals_1_0"],
    .oneOf [.contains "body" "content_term_1_0", .contains "body" "content_term_1_1"],
    .oneOf [
      .equals "state" "content_value_0_0",
      .equals "state" "content_value_0_1",
      .equals "state" "content_value_0_2"]]
  bindings := [
    ("tag_any_of", .tags ["plan", "work"]),
    ("tag_all_of", .tags ["notes", "work"]),
    ("tag_none_of", .tags ["draft"]),
    ("string_contains_0_0", .text "release"),
    ("string_contains_0_1", .text "release"),
    ("string_equals_0_0", .text "Beta 2"),
    ("string_contains_1_0", .text "release"),
    ("string_contains_1_1", .text "release"),
    ("string_equals_1_0", .text "Beta 2"),
    ("content_term_1_0", .text "ships"),
    ("content_term_1_1", .text "ships"),
    ("content_value_0_0", .text "open"),
    ("content_value_0_1", .text "open"),
    ("content_value_0_2", .text "closed")]

def releaseNode (tags : List String) : SearchedNode (Option String) where
  tags := tags
  content field :=
    [("title", "Beta 2"), ("body", "It SHIPS in May"), ("state", "closed")].lookup field

/-- A draft with the same content is left out. -/
theorem condition_exact_release :
    buildMemoryNodeWhere lowerAscii (some releaseSearch) = .ok releaseParts ∧
      releaseSearch.Fits lowerAscii asciiDb (releaseNode ["work", "notes", "work"]) ∧
      ¬ releaseSearch.Fits lowerAscii asciiDb (releaseNode ["work", "notes", "draft"]) := by
  have hok : buildMemoryNodeWhere lowerAscii (some releaseSearch) = .ok releaseParts := by
    decide +kernel
  have hexact := (condition_exact_iff lowerAscii asciiDb _ _ _ _ _ _ _ _ releaseSearch rfl
    releaseParts hok).2
  have hnodup : releaseSearch.tags.allOf.Nodup := by decide +kernel
  refine ⟨hok, ((hexact _).mpr (.inl hnodup)).mp (by decide +kernel), fun hfits => ?_⟩
  exact absurd (((hexact _).mpr (.inl hnodup)).mpr hfits) (by decide +kernel)

def taggedNode : SearchedNode (Option String) := ⟨["work"], fun _ => none⟩

def taggedSearch (tags : List String) : MemoryNodeSearch :=
  ⟨.build [] tags [], .build [] [], [], [], []⟩

def taggedParts (tags : List String) : QueryParts :=
  ⟨[.allTags "tag_all_of"], [("tag_all_of", .tags tags)]⟩

/-- Both spellings of the tag are cleaned to the same one, which is then counted twice. -/
theorem repeated_tag_hides_node :
    buildMemoryNodeWhere id (some (taggedSearch ["work", " work"])) =
        .ok (taggedParts ["work", "work"]) ∧
      (taggedSearch ["work", " work"]).Fits id plainDb taggedNode ∧
      (taggedParts ["work", "work"]).holds plainDb taggedNode = false := by
  have htags : (taggedSearch ["work", " work"]).tags = ⟨[], ["work", "work"], []⟩ := by
    decide +kernel
  have hstrings : (taggedSearch ["work", " work"]).strings = ⟨[], []⟩ := by decide +kernel
  refine ⟨by decide +kernel, ?_, by decide +kernel⟩
  refine ⟨fun h => ?_, fun tag htag => ?_, fun tag htag => ?_, fun h => ?_, fun _ h => ?_,
    fun _ h => ?_⟩
  · rw [htags] at h
    exact (h rfl).elim
  · rw [htags] at htag
    simpa [taggedNode] using htag
  · rw [htags] at htag
    cases htag
  · rw [hstrings] at h
    exact (h.elim (· rfl) (· rfl)).elim
  · cases h
  · cases h

end TestVectors
end ReframeMemory
