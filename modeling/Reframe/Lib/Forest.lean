import Reframe.Lib.FiniteMap
import Reframe.Lib.Run

/-! Forests given by the parent of each node, and the numbering of their nodes by a walk that keeps
its own stack: a node is numbered when it is entered, and its range ends when it is left. -/
namespace Forest
open Run (Stop)

variable {ν ε : Type*}

/-- The parents of a node end at a root. -/
inductive Rooted (parent : ν → Option ν) : ν → Prop
  | root {node : ν} : parent node = none → Rooted parent node
  | child {node above : ν} : parent node = some above → Rooted parent above → Rooted parent node

inductive Frame (ν : Type*) where
  | enter (node : ν)
  | exit (node : ν)
  deriving DecidableEq, Repr

structure NodeRange where
  start : ℕ
  stop : ℕ
  deriving DecidableEq, Repr

def Frame.entered? : Frame ν → Option ν
  | .enter node => some node
  | .exit _ => none

def Frame.left? : Frame ν → Option ν
  | .enter _ => none
  | .exit node => some node

/-- The nodes that a stack has still to enter. -/
def entering (stack : List (Frame ν)) : List ν := stack.filterMap Frame.entered?

/-- The nodes that a stack has still to leave. -/
def leaving (stack : List (Frame ν)) : List ν := stack.filterMap Frame.left?

@[simp] theorem entering_enter (node : ν) (stack : List (Frame ν)) :
    entering (.enter node :: stack) = node :: entering stack := rfl

@[simp] theorem entering_exit (node : ν) (stack : List (Frame ν)) :
    entering (.exit node :: stack) = entering stack := rfl

@[simp] theorem leaving_enter (node : ν) (stack : List (Frame ν)) :
    leaving (.enter node :: stack) = leaving stack := rfl

@[simp] theorem leaving_exit (node : ν) (stack : List (Frame ν)) :
    leaving (.exit node :: stack) = node :: leaving stack := rfl

@[simp] theorem entering_map_enter (nodes : List ν) (stack : List (Frame ν)) :
    entering (nodes.map .enter ++ stack) = nodes ++ entering stack := by
  induction nodes with
  | nil => rfl
  | cons node nodes ih => simp only [List.map_cons, List.cons_append, entering_enter, ih]

@[simp] theorem leaving_map_enter (nodes : List ν) (stack : List (Frame ν)) :
    leaving (nodes.map .enter ++ stack) = leaving stack := by
  induction nodes with
  | nil => rfl
  | cons node nodes ih => simp only [List.map_cons, List.cons_append, leaving_enter, ih]

variable [DecidableEq ν]

/-- The walk over a stack whose head is its top. It fails with `cycle` at a node entered twice and
at a position above `limit`, and panics when it leaves a node that it has not entered. -/
def numberNodes (children : ν → List ν) (cycle : ε) (limit : ℕ) :
    ℕ → List (Frame ν) → ℕ → FiniteMap ν NodeRange → Except (Stop ε) (FiniteMap ν NodeRange)
  | _, [], _, ranges => .ok ranges
  | 0, _ :: _, _, _ => .error .exhausted
  | fuel + 1, .enter node :: stack, position, ranges =>
    if ranges.contains node = true ∨ limit < position + 1 then .error (.error cycle)
    else
      numberNodes children cycle limit fuel
        ((children node).map .enter ++ .exit node :: stack) (position + 1)
        (ranges.insert node ⟨position, position⟩)
  | fuel + 1, .exit node :: stack, position, ranges =>
    match ranges.get? node with
    | none => .error .panic
    | some range =>
      numberNodes children cycle limit fuel stack position
        (ranges.insert node { range with stop := position })

/-- The children of a node are the nodes below it, each listed once. -/
structure Children (parent : ν → Option ν) (children : ν → List ν) (nodes : Finset ν) : Prop where
  mem_iff : ∀ above ∈ nodes, ∀ node,
    node ∈ children above ↔ node ∈ nodes ∧ parent node = some above
  nodup : ∀ above ∈ nodes, (children above).Nodup

/-- What the walk keeps: the nodes to enter are new and below numbered ones, and no node below a
numbered one is forgotten. -/
structure Walking (parent : ν → Option ν) (nodes : Finset ν) (stack : List (Frame ν))
    (ranges : FiniteMap ν NodeRange) : Prop where
  pending_nodup : (entering stack).Nodup
  pending : ∀ node ∈ entering stack, node ∈ nodes ∧ node ∉ ranges.keys
  numbered : ranges.keys ⊆ nodes
  above : ∀ node, node ∈ entering stack ∨ node ∈ ranges.keys →
    ∀ p, parent node = some p → p ∈ ranges.keys
  reached : ∀ node ∈ nodes, (∀ p, parent node = some p → p ∈ ranges.keys) →
    node ∈ ranges.keys ∨ node ∈ entering stack
  leaves : ∀ node ∈ leaving stack, node ∈ ranges.keys

section

variable {parent : ν → Option ν} {children : ν → List ν} {nodes : Finset ν}
  {stack : List (Frame ν)} {ranges : FiniteMap ν NodeRange} {node : ν}

theorem Walking.leave (h : Walking parent nodes (.exit node :: stack) ranges) (range : NodeRange) :
    Walking parent nodes stack (ranges.insert node range) := by
  have hkeys : (ranges.insert node range).keys = ranges.keys := by
    rw [FiniteMap.keys_insert]
    exact Finset.insert_eq_of_mem (h.leaves node List.mem_cons_self)
  obtain ⟨hnodup, hpending, hnumbered, habove, hreached, hleaves⟩ := h
  constructor
  · exact hnodup
  · rwa [hkeys]
  · rwa [hkeys]
  · rwa [hkeys]
  · rwa [hkeys]
  · rw [hkeys]
    exact fun other hother => hleaves other (List.mem_cons_of_mem _ hother)

theorem Walking.enter (hchildren : Children parent children nodes)
    (h : Walking parent nodes (.enter node :: stack) ranges) (range : NodeRange) :
    Walking parent nodes ((children node).map .enter ++ .exit node :: stack)
      (ranges.insert node range) := by
  obtain ⟨hnodes, hnew⟩ := h.pending node List.mem_cons_self
  obtain ⟨hnotMem, hrest⟩ := List.nodup_cons.mp h.pending_nodup
  have hkeys : (ranges.insert node range).keys = insert node ranges.keys := FiniteMap.keys_insert ..
  -- A child is new: what was entered or is pending lies below numbered nodes, and `node` is not one.
  have hchild : ∀ child ∈ children node, child ∉ node :: entering stack ∧ child ∉ ranges.keys := by
    intro child hmem
    have hparent := ((hchildren.mem_iff node hnodes child).mp hmem).2
    exact ⟨fun hpending => hnew (h.above child (.inl hpending) node hparent),
      fun hnumbered => hnew (h.above child (.inr hnumbered) node hparent)⟩
  have hentering : entering ((children node).map Frame.enter ++ .exit node :: stack) =
      children node ++ entering stack := by simp
  have hleaving : leaving ((children node).map Frame.enter ++ .exit node :: stack) =
      node :: leaving stack := by simp
  constructor
  · rw [hentering, List.nodup_append']
    exact ⟨hchildren.nodup node hnodes, hrest,
      fun child hmem hpending => (hchild child hmem).1 (List.mem_cons_of_mem _ hpending)⟩
  · rw [hentering, hkeys]
    intro other hother
    rw [Finset.mem_insert, not_or]
    rcases List.mem_append.mp hother with hmem | hpending
    · obtain ⟨hfresh, hunnumbered⟩ := hchild other hmem
      exact ⟨((hchildren.mem_iff node hnodes other).mp hmem).1,
        fun heq => hfresh (heq ▸ List.mem_cons_self), hunnumbered⟩
    · obtain ⟨hin, hunnumbered⟩ := h.pending other (List.mem_cons_of_mem _ hpending)
      exact ⟨hin, fun heq => hnotMem (heq ▸ hpending), hunnumbered⟩
  · rw [hkeys]
    exact Finset.insert_subset hnodes h.numbered
  · rw [hentering, hkeys]
    intro other hother p hp
    rw [Finset.mem_insert]
    rcases hother with hother | hother
    · rcases List.mem_append.mp hother with hmem | hpending
      · have hparent := ((hchildren.mem_iff node hnodes other).mp hmem).2
        exact .inl (Option.some.inj (hp.symm.trans hparent))
      · exact .inr (h.above other (.inl (List.mem_cons_of_mem _ hpending)) p hp)
    · rcases Finset.mem_insert.mp hother with rfl | hnumbered
      · exact .inr (h.above other (.inl List.mem_cons_self) p hp)
      · exact .inr (h.above other (.inr hnumbered) p hp)
  · rw [hentering, hkeys]
    intro other hin habove
    by_cases hparent : parent other = some node
    · exact .inr (List.mem_append_left _ ((hchildren.mem_iff node hnodes other).mpr ⟨hin, hparent⟩))
    · have hold : ∀ p, parent other = some p → p ∈ ranges.keys := fun p hp =>
        (Finset.mem_insert.mp (habove p hp)).resolve_left fun heq => hparent (heq ▸ hp)
      rcases h.reached other hin hold with hnumbered | hpending
      · exact .inl (Finset.mem_insert_of_mem hnumbered)
      · rcases List.mem_cons.mp hpending with rfl | hpending
        · exact .inl (Finset.mem_insert_self _ _)
        · exact .inr (List.mem_append_right _ hpending)
  · rw [hleaving, hkeys]
    intro other hother
    rcases List.mem_cons.mp hother with rfl | hleft
    · exact Finset.mem_insert_self _ _
    · exact Finset.mem_insert_of_mem (h.leaves other hleft)

/-- The steps left: every node is entered and left once. -/
def remaining (nodes : Finset ν) (stack : List (Frame ν)) (ranges : FiniteMap ν NodeRange) : ℕ :=
  2 * (nodes.card - ranges.keys.card) + (leaving stack).length

/-- With enough fuel the walk ends, with every node in reach numbered. -/
theorem numberNodes_ok (hchildren : Children parent children nodes) (cycle : ε) {limit : ℕ}
    (hlimit : nodes.card ≤ limit) :
    ∀ (fuel : ℕ) (stack : List (Frame ν)) (ranges : FiniteMap ν NodeRange),
      Walking parent nodes stack ranges → remaining nodes stack ranges ≤ fuel →
      ∃ ranges', numberNodes children cycle limit fuel stack ranges.keys.card ranges = .ok ranges' ∧
        Walking parent nodes [] ranges' := by
  intro fuel
  induction fuel with
  | zero =>
    intro stack ranges h hfuel
    cases stack with
    | nil => exact ⟨ranges, by rw [numberNodes], h⟩
    | cons frame stack =>
      cases frame with
      | enter node =>
        obtain ⟨hin, hnew⟩ := h.pending node List.mem_cons_self
        have hlt := Finset.card_lt_card
          (Finset.ssubset_iff_subset_ne.mpr ⟨h.numbered, fun heq => hnew (heq ▸ hin)⟩)
        simp only [remaining] at hfuel
        omega
      | exit node => simp [remaining] at hfuel
  | succ fuel ih =>
    intro stack ranges h hfuel
    cases stack with
    | nil => exact ⟨ranges, by rw [numberNodes], h⟩
    | cons frame stack =>
      cases frame with
      | enter node =>
        obtain ⟨hin, hnew⟩ := h.pending node List.mem_cons_self
        have hlt := Finset.card_lt_card
          (Finset.ssubset_iff_subset_ne.mpr ⟨h.numbered, fun heq => hnew (heq ▸ hin)⟩)
        have hnone : ranges.get? node = none := by
          rw [← Option.not_isSome_iff_eq_none, ← FiniteMap.mem_keys]
          exact hnew
        have hcard : (ranges.insert node ⟨ranges.keys.card, ranges.keys.card⟩).keys.card =
            ranges.keys.card + 1 := FiniteMap.card_keys_insert hnone _
        obtain ⟨ranges', hwalk, hend⟩ := ih _ _
          (h.enter hchildren ⟨ranges.keys.card, ranges.keys.card⟩) (by
            simp only [remaining, hcard, leaving_map_enter, leaving_exit, leaving_enter,
              List.length_cons] at hfuel ⊢
            omega)
        refine ⟨ranges', ?_, hend⟩
        rw [numberNodes, if_neg, ← hwalk, hcard]
        rw [FiniteMap.contains, hnone]
        simp only [Option.isSome_none, Bool.false_eq_true, false_or]
        omega
      | exit node =>
        obtain ⟨range, hget⟩ := FiniteMap.mem_keys_iff.mp (h.leaves node List.mem_cons_self)
        have hkeys : (ranges.insert node { range with stop := ranges.keys.card }).keys =
            ranges.keys := by
          rw [FiniteMap.keys_insert]
          exact Finset.insert_eq_of_mem (h.leaves node List.mem_cons_self)
        obtain ⟨ranges', hwalk, hend⟩ := ih _ _
          (h.leave { range with stop := ranges.keys.card }) (by
            simp only [remaining, hkeys, leaving_exit, List.length_cons] at hfuel ⊢
            omega)
        refine ⟨ranges', ?_, hend⟩
        rw [numberNodes]
        simp only [hget]
        rw [hkeys] at hwalk
        exact hwalk

/-- A walk that ends has numbered no more nodes than there are positions. -/
theorem numberNodes_card_le {cycle : ε} {limit : ℕ} :
    ∀ (fuel : ℕ) (stack : List (Frame ν)) (position : ℕ) (ranges ranges' : FiniteMap ν NodeRange),
      position ≤ limit → ranges.keys.card ≤ position →
      numberNodes children cycle limit fuel stack position ranges = .ok ranges' →
      ranges'.keys.card ≤ limit := by
  intro fuel
  induction fuel with
  | zero =>
    intro stack position ranges ranges' hlimit hcard h
    cases stack with
    | nil =>
      rw [numberNodes] at h
      cases h
      exact hcard.trans hlimit
    | cons frame stack =>
      rw [numberNodes] at h
      cases h
  | succ fuel ih =>
    intro stack position ranges ranges' hlimit hcard h
    cases stack with
    | nil =>
      rw [numberNodes] at h
      cases h
      exact hcard.trans hlimit
    | cons frame stack =>
      cases frame with
      | enter node =>
        rw [numberNodes] at h
        split_ifs at h with hstop
        refine ih _ _ _ _ (by omega) ?_ h
        rw [FiniteMap.keys_insert]
        exact (Finset.card_insert_le _ _).trans (by omega)
      | exit node =>
        rw [numberNodes] at h
        cases hget : ranges.get? node with
        | none =>
          rw [hget] at h
          cases h
        | some range =>
          rw [hget] at h
          refine ih _ _ _ _ hlimit ?_ h
          rw [FiniteMap.keys_insert, Finset.insert_eq_of_mem (FiniteMap.mem_keys_iff.mpr ⟨_, hget⟩)]
          exact hcard

variable (parent) in
/-- A walk that starts at the roots. -/
theorem walking_roots {roots : List ν} (hnodup : roots.Nodup)
    (hroots : ∀ node, node ∈ roots ↔ node ∈ nodes ∧ parent node = none) :
    Walking parent nodes (roots.map .enter) ∅ := by
  have hentering : entering (roots.map Frame.enter) = roots := by
    have := entering_map_enter roots []
    simpa [entering] using this
  have hleaving : leaving (roots.map Frame.enter) = [] := by
    have := leaving_map_enter roots []
    simpa [leaving] using this
  constructor
  · rwa [hentering]
  · rw [hentering]
    exact fun node hmem => ⟨((hroots node).mp hmem).1, Finset.notMem_empty _⟩
  · exact Finset.empty_subset _
  · rw [hentering]
    intro node hnode p hp
    rcases hnode with hmem | hnone
    · rw [((hroots node).mp hmem).2] at hp
      cases hp
    · exact absurd hnone (Finset.notMem_empty _)
  · rw [hentering]
    intro node hin habove
    cases hparent : parent node with
    | none => exact .inr ((hroots node).mpr ⟨hin, hparent⟩)
    | some p => exact absurd (habove p hparent) (Finset.notMem_empty _)
  · rw [hleaving]
    exact fun node hmem => nomatch hmem

/-- When the walk is over, every node whose parents end at a root is numbered. -/
theorem Walking.mem_of_rooted (h : Walking parent nodes [] ranges)
    (hclosed : ∀ node ∈ nodes, ∀ p, parent node = some p → p ∈ nodes)
    (hrooted : Rooted parent node) : node ∈ nodes → node ∈ ranges.keys := by
  induction hrooted with
  | @root node hparent =>
    intro hin
    exact (h.reached node hin (by rw [hparent]; exact fun _ hp => nomatch hp)).resolve_right nofun
  | @child node above hparent _ ih =>
    intro hin
    refine (h.reached node hin fun p hp => ?_).resolve_right nofun
    rw [hparent] at hp
    cases hp
    exact ih (hclosed node hin above hparent)

/-- The walk from the roots numbers all nodes of a forest. -/
theorem numberNodes_forest (hchildren : Children parent children nodes) (cycle : ε) {limit : ℕ}
    (hlimit : nodes.card ≤ limit) {roots : List ν} (hnodup : roots.Nodup)
    (hroots : ∀ node, node ∈ roots ↔ node ∈ nodes ∧ parent node = none)
    (hclosed : ∀ node ∈ nodes, ∀ p, parent node = some p → p ∈ nodes)
    (hrooted : ∀ node ∈ nodes, Rooted parent node) {fuel : ℕ} (hfuel : 2 * nodes.card ≤ fuel) :
    ∃ ranges, numberNodes children cycle limit fuel (roots.map .enter) 0 ∅ = .ok ranges ∧
      ranges.keys = nodes := by
  have hstart := walking_roots parent hnodup hroots
  have hleaving : leaving (roots.map Frame.enter) = [] := by
    have := leaving_map_enter roots []
    simpa [leaving] using this
  obtain ⟨ranges, hwalk, hend⟩ := numberNodes_ok hchildren cycle hlimit fuel _ ∅ hstart (by
    rw [remaining, hleaving]
    simp only [List.length_nil]
    omega)
  refine ⟨ranges, hwalk, Finset.Subset.antisymm hend.numbered fun node hin => ?_⟩
  exact hend.mem_of_rooted hclosed (hrooted node hin) hin

end

end Forest
