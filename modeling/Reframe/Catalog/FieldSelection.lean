import Mathlib.Data.String.Basic
import Reframe.Catalog.Cursor
import Reframe.Lib.Merge
import Reframe.Lib.WireMessage

/-! Which fields of a type a projection keeps: requested paths, merged into a tree. -/
namespace StoreCatalog
open Merge WireFormat

/-- All of a message, or some of its fields, in order of their names. -/
inductive Selection where
  | all
  | fields (children : List (String × Selection))

namespace Selection

def isAll : Selection → Bool
  | .all => true
  | .fields _ => false

/-- `selected_field`. -/
def selectedField : Selection → String → Option Selection
  | .all, _ => some .all
  | .fields children, fieldName => find? fieldName children

/-- `insert_path`, for the segments that are left. -/
def insertPath : List String → Selection → Selection
  | [], _ => .all
  | _ :: _, .all => .all
  | segment :: segments, .fields children =>
    .fields (upsert (.fields []) segment (insertPath segments) children)

/-- What a projection meets along a path, one `selected_field` a step. -/
def selectedAt (selection : Selection) : List String → Option Selection
  | [] => some selection
  | segment :: segments =>
    (selection.selectedField segment).bind fun child => child.selectedAt segments

end Selection

/-- `path.split('.')`. -/
def splitPath (path : String) : List String := (path.toList.splitOn '.').map String.ofList

variable {μ : Type}

/-- The walk of `validate_path` down the fields of nested messages. -/
def validSegments (getFieldByName : μ → String → Option (Kind μ)) : μ → List String → Bool
  | _, [] => true
  | message, segment :: segments =>
    match getFieldByName message segment with
    | none => false
    | some kind =>
      match segments, kind with
      | [], _ => true
      | segments, .message nested => validSegments getFieldByName nested segments
      | _, _ => false

def validatePath (getFieldByName : μ → String → Option (Kind μ)) (root : μ)
    (path requestedTypeName : String) : Except CatalogError Unit :=
  if path = "" ∨ "" ∈ splitPath path then .error (.invalidFieldPath requestedTypeName path)
  else if validSegments getFieldByName root (splitPath path) then .ok ()
  else .error (.invalidFieldPath requestedTypeName path)

/-- The loop of `build_selection`. -/
def insertPaths (getFieldByName : μ → String → Option (Kind μ)) (root : μ)
    (requestedTypeName : String) : Selection → List String → Except CatalogError Selection
  | selection, [] => .ok selection
  | selection, path :: paths => do
    validatePath getFieldByName root path requestedTypeName
    insertPaths getFieldByName root requestedTypeName
      (selection.insertPath (splitPath path)) paths

def buildSelection (getFieldByName : μ → String → Option (Kind μ)) (root : μ)
    (paths : List String) (requestedTypeName : String) : Except CatalogError Selection :=
  insertPaths getFieldByName root requestedTypeName (.fields []) paths

/-! Paths in any order. -/

namespace Selection

theorem insertPath_comm (p : List String) : ∀ (q : List String) (s : Selection),
    insertPath q (insertPath p s) = insertPath p (insertPath q s) := by
  induction p with
  | nil =>
    intro q s
    cases q <;> simp [insertPath]
  | cons a p ih =>
    intro q s
    cases q with
    | nil => simp [insertPath]
    | cons b q =>
      cases s with
      | all => rfl
      | fields children =>
        simp only [insertPath, fields.injEq]
        by_cases hab : a = b
        · subst hab
          simp only [upsert_upsert_self, ih q]
        · exact upsert_comm _ _ _ hab children

theorem insertPath_insertPath (p : List String) : ∀ s : Selection,
    insertPath p (insertPath p s) = insertPath p s := by
  induction p with
  | nil => simp [insertPath]
  | cons a p ih =>
    intro s
    cases s with
    | all => rfl
    | fields children => simp only [insertPath, upsert_upsert_self, ih]

instance : RightCommutative fun (s : Selection) path => s.insertPath (splitPath path) :=
  ⟨fun s p q => insertPath_comm (splitPath p) (splitPath q) s⟩

@[simp] theorem selectedAt_all (p : List String) : Selection.all.selectedAt p = some .all := by
  induction p with
  | nil => rfl
  | cons segment p ih => simp [selectedAt, selectedField, ih]

theorem isSome_selectedAt_empty {p : List String} :
    ((Selection.fields []).selectedAt p).isSome ↔ p = [] := by
  cases p <;> simp [selectedAt, selectedField, find?]

/-- One more request selects what lies on it and what lies below it. -/
theorem isSome_selectedAt_insertPath (q : List String) : ∀ (p : List String) (s : Selection),
    ((insertPath q s).selectedAt p).isSome ↔ (s.selectedAt p).isSome ∨ q <+: p ∨ p <+: q := by
  induction q with
  | nil => simp [insertPath]
  | cons a q ih =>
    intro p s
    cases s with
    | all => simp [insertPath]
    | fields children =>
      cases p with
      | nil => simp [selectedAt]
      | cons b p =>
        simp only [insertPath, selectedAt, selectedField, find?_upsert, List.cons_prefix_cons]
        by_cases hab : b = a
        · subst hab
          cases hchild : find? b children with
          | none =>
            simp only [if_true, Option.getD_none, Option.bind_some, ih, Option.bind_none,
              isSome_selectedAt_empty]
            simp
            rintro rfl
            simp
          | some child => simp [ih]
        · simp [hab, Ne.symm hab]

/-- What a list of requests selects. -/
theorem isSome_selectedAt_foldl (paths : List String) : ∀ (s : Selection) (p : List String),
    ((paths.foldl (fun s path => s.insertPath (splitPath path)) s).selectedAt p).isSome ↔
      (s.selectedAt p).isSome ∨ ∃ path ∈ paths, splitPath path <+: p ∨ p <+: splitPath path := by
  induction paths with
  | nil => simp
  | cons path paths ih =>
    intro s p
    simp [ih, isSome_selectedAt_insertPath, or_assoc]

end Selection

/-- All requests are valid, and they are merged one after the other. -/
theorem insertPaths_eq_ok {getFieldByName : μ → String → Option (Kind μ)} {root : μ}
    {requestedTypeName : String} (paths : List String) : ∀ {s tree : Selection},
    insertPaths getFieldByName root requestedTypeName s paths = .ok tree ↔
      (∀ path ∈ paths, validatePath getFieldByName root path requestedTypeName = .ok ()) ∧
        tree = paths.foldl (fun s path => s.insertPath (splitPath path)) s := by
  induction paths with
  | nil => simp [insertPaths, eq_comm]
  | cons path paths ih =>
    intro s tree
    cases hpath : validatePath getFieldByName root path requestedTypeName with
    | error e => simp [insertPaths, hpath, bind, Except.bind]
    | ok u => simp [insertPaths, hpath, bind, Except.bind, ih]

/-- The tree depends on the set of the requested paths, and selects what lies on one of them or
below one. -/
theorem build_selection_canonical (getFieldByName : μ → String → Option (Kind μ)) (root : μ)
    (paths : List String) (requestedTypeName : String) :
    (∀ others, (∀ path, path ∈ others ↔ path ∈ paths) → ∀ tree,
      buildSelection getFieldByName root others requestedTypeName = .ok tree ↔
        buildSelection getFieldByName root paths requestedTypeName = .ok tree) ∧
    ∀ tree, buildSelection getFieldByName root paths requestedTypeName = .ok tree →
      ∀ p ≠ [], (tree.selectedAt p).isSome ↔
        ∃ path ∈ paths, splitPath path <+: p ∨ p <+: splitPath path := by
  constructor
  · intro others hsame tree
    unfold buildSelection
    rw [insertPaths_eq_ok, insertPaths_eq_ok, foldl_eq_of_same
      (fun s path => Selection.insertPath_insertPath (splitPath path) s) hsame]
    simp only [hsame]
  · intro tree htree p hp
    obtain ⟨-, rfl⟩ := (insertPaths_eq_ok paths).mp htree
    rw [Selection.isSome_selectedAt_foldl, Selection.isSome_selectedAt_empty]
    simp [hp]

namespace TestVectors

/-- One recursive message type, with a field `child` of its own type and a text. -/
def nodeField (_ : Unit) (name : String) : Option (Kind Unit) :=
  if name = "child" then some (.message ()) else if name = "label" then some .string else none

theorem buildSelection_child :
    buildSelection nodeField () ["child.label", "child"] "Node" =
      .ok (.fields [("child", .all)]) := by
  rfl

theorem build_selection_canonical_child :
    buildSelection nodeField () ["child", "child.label", "child"] "Node" =
        .ok (.fields [("child", .all)]) ∧
      ((Selection.fields [("child", .all)]).selectedAt ["child", "child"]).isSome :=
  have hsame : ∀ path, path ∈ ["child", "child.label", "child"] ↔
      path ∈ ["child.label", "child"] := fun path => by
    simp only [List.mem_cons, List.not_mem_nil, or_false]
    tauto
  ⟨((build_selection_canonical nodeField () ["child.label", "child"] "Node").1 _ hsame _).mpr
      buildSelection_child,
    ((build_selection_canonical nodeField () ["child.label", "child"] "Node").2 _
      buildSelection_child ["child", "child"] (by simp)).mpr
      ⟨"child", by simp, .inl (by decide +kernel)⟩⟩

end TestVectors
end StoreCatalog
