import Mathlib.Logic.Relation
import Reframe.Lib.Forest

/-! The ranges that a walk over a forest leaves behind: a node starts inside the range of another
exactly when it is that node or lies below it. -/
namespace Forest
open Relation (ReflTransGen)

variable {ν ε : Type*}

/-- The node is the other one, or lies below it. -/
def Within (parent : ν → Option ν) : ν → ν → Prop :=
  ReflTransGen fun node above => parent node = some above

theorem Within.mem {parent : ν → Option ν} {nodes : Finset ν} {node above : ν}
    (h : Within parent node above)
    (hparents : ∀ node ∈ nodes, ∀ p, parent node = some p → p ∈ nodes) (hnode : node ∈ nodes) :
    above ∈ nodes := by
  induction h with
  | refl => exact hnode
  | tail _ hparent ih => exact hparents _ ih _ hparent

/-- Everything over the exit of a node lies below that node, and its children are all over it. -/
def Nested (parent : ν → Option ν) : List (Frame ν) → Prop
  | [] => True
  | .enter node :: stack => (∀ above ∈ leaving stack, Within parent node above) ∧ Nested parent stack
  | .exit node :: stack =>
    (∀ above ∈ leaving stack, Within parent node above) ∧
      (∀ other ∈ entering stack, parent other ≠ some node) ∧ node ∉ leaving stack ∧
        Nested parent stack

section Stack

variable {parent : ν → Option ν} {stack : List (Frame ν)}

theorem nested_enters {nodes : List ν} : Nested parent (nodes.map .enter ++ stack) ↔
    (∀ node ∈ nodes, ∀ above ∈ leaving stack, Within parent node above) ∧ Nested parent stack := by
  induction nodes with
  | nil => simp
  | cons node nodes ih =>
    rw [List.map_cons, List.cons_append, Nested, ih, leaving_map_enter, List.forall_mem_cons,
      and_assoc]

end Stack

variable [DecidableEq ν]

/-- What a walk has numbered so far. A node that is still to be left has an open range: all nodes
numbered since lie below it. The range of any other node is final. -/
structure Ranged (parent : ν → Option ν) (nodes : Finset ν) (stack : List (Frame ν)) (position : ℕ)
    (ranges : FiniteMap ν NodeRange) : Prop where
  nested : Nested parent stack
  before : ∀ node range, ranges.get? node = some range → range.start < position
  order : ∀ node range above, ranges.get? node = some range → parent node = some above →
    ∃ outer, ranges.get? above = some outer ∧ outer.start < range.start
  since : ∀ above ∈ leaving stack, ∀ outer, ranges.get? above = some outer →
    ∀ node range, ranges.get? node = some range → outer.start ≤ range.start →
      Within parent node above
  inside : ∀ above outer, ranges.get? above = some outer → above ∉ leaving stack →
    ∀ node range, ranges.get? node = some range →
      (outer.start ≤ range.start ∧ range.start < outer.stop ↔ Within parent node above)
  stopped : ∀ above outer, ranges.get? above = some outer → above ∉ leaving stack →
    outer.stop ≤ position
  left : ∀ above ∈ ranges.keys, above ∉ leaving stack → ∀ node ∈ nodes, parent node = some above →
    node ∈ ranges.keys ∧ node ∉ leaving stack

section

variable {parent : ν → Option ν} {children : ν → List ν} {nodes : Finset ν}
  {stack : List (Frame ν)} {position : ℕ} {ranges : FiniteMap ν NodeRange} {node above : ν}

/-- Below a numbered node, numbers grow. -/
theorem Ranged.start_le (h : Ranged parent nodes stack position ranges)
    (hwithin : Within parent node above) : ∀ range, ranges.get? node = some range →
      ∃ outer, ranges.get? above = some outer ∧ outer.start ≤ range.start := by
  induction hwithin using ReflTransGen.head_induction_on with
  | refl => exact fun range hrange => ⟨range, hrange, le_rfl⟩
  | head hparent _ ih =>
    intro range hrange
    obtain ⟨middle, hmiddle, hlt⟩ := h.order _ range _ hrange hparent
    obtain ⟨outer, houter, hle⟩ := ih middle hmiddle
    exact ⟨outer, houter, by omega⟩

/-- Below a node with a final range, all nodes have one. -/
theorem Ranged.left_below (h : Ranged parent nodes stack position ranges)
    (hclosed : ∀ node ∈ nodes, ∀ p, parent node = some p → p ∈ nodes)
    (habove : above ∈ ranges.keys) (hleft : above ∉ leaving stack)
    (hwithin : Within parent node above) :
    node ∈ nodes → node ∈ ranges.keys ∧ node ∉ leaving stack := by
  induction hwithin using ReflTransGen.head_induction_on with
  | refl => exact fun _ => ⟨habove, hleft⟩
  | @head node middle hparent _ ih =>
    intro hnode
    obtain ⟨hnumbered, hmiddle⟩ := ih (hclosed node hnode middle hparent)
    exact h.left middle hnumbered hmiddle node hnode hparent

theorem Ranged.enter (hchildren : Children parent children nodes)
    (hclosed : ∀ node ∈ nodes, ∀ p, parent node = some p → p ∈ nodes)
    (hwalk : Walking parent nodes (.enter node :: stack) ranges)
    (h : Ranged parent nodes (.enter node :: stack) position ranges) :
    Ranged parent nodes ((children node).map .enter ++ .exit node :: stack) (position + 1)
      (ranges.insert node ⟨position, position⟩) := by
  obtain ⟨hin, hnew⟩ := hwalk.pending node List.mem_cons_self
  obtain ⟨habove, hnested⟩ := h.nested
  have hleaving : leaving ((children node).map Frame.enter ++ .exit node :: stack) =
      node :: leaving stack := by simp
  have hold : ∀ other ∈ leaving stack, other ∈ ranges.keys := hwalk.leaves
  have hget : ∀ {other : ν} {range : NodeRange},
      (ranges.insert node ⟨position, position⟩).get? other = some range →
        other = node ∧ range = ⟨position, position⟩ ∨ ranges.get? other = some range := by
    intro other range hrange
    rw [FiniteMap.get?_insert] at hrange
    split_ifs at hrange with heq
    · exact .inl ⟨heq, (Option.some.inj hrange).symm⟩
    · exact .inr hrange
  have hkeep : ∀ {other : ν} {range : NodeRange}, ranges.get? other = some range →
      (ranges.insert node ⟨position, position⟩).get? other = some range := by
    intro other range hrange
    rw [FiniteMap.get?_insert_ne _ _, hrange]
    rintro rfl
    exact hnew (FiniteMap.mem_keys_iff.mpr ⟨range, hrange⟩)
  have hnumbered : ∀ {other : ν} {range : NodeRange}, ranges.get? other = some range →
      other ∈ ranges.keys := fun hrange => FiniteMap.mem_keys_iff.mpr ⟨_, hrange⟩
  constructor
  · refine nested_enters.mpr ⟨fun child hchild outer houter => ?_, habove, fun other hother => ?_, ?_,
      hnested⟩
    · have hparent := ((hchildren.mem_iff node hin child).mp hchild).2
      rcases List.mem_cons.mp houter with rfl | houter
      · exact .single hparent
      · exact .head hparent (habove outer houter)
    · exact fun hparent => hnew (hwalk.above other (.inl (List.mem_cons_of_mem _ hother)) node hparent)
    · exact fun hmem => hnew (hold node hmem)
  · intro other range hrange
    rcases hget hrange with ⟨-, rfl⟩ | hrange
    · exact Nat.lt_succ_self position
    · exact (h.before other range hrange).trans (Nat.lt_succ_self position)
  · intro other range p hrange hparent
    rcases hget hrange with ⟨rfl, rfl⟩ | hrange
    · have hp := hwalk.above other (.inl List.mem_cons_self) p hparent
      obtain ⟨outer, houter⟩ := FiniteMap.mem_keys_iff.mp hp
      exact ⟨outer, hkeep houter, h.before p outer houter⟩
    · obtain ⟨outer, houter, hlt⟩ := h.order other range p hrange hparent
      exact ⟨outer, hkeep houter, hlt⟩
  · rw [hleaving]
    intro a ha outer houter c range hrange hle
    rcases hget houter with ⟨rfl, rfl⟩ | hnumA
    · rcases hget hrange with ⟨rfl, -⟩ | hnumC
      · exact .refl
      · exact absurd (h.before c range hnumC) (not_lt.mpr hle)
    · have ha' : a ∈ leaving stack := by
        refine (List.mem_cons.mp ha).resolve_left fun heq => hnew ?_
        exact heq ▸ hnumbered hnumA
      rcases hget hrange with ⟨rfl, -⟩ | hnumC
      · exact habove a ha'
      · exact h.since a ha' outer hnumA c range hnumC hle
  · rw [hleaving]
    intro a outer houter ha c range hrange
    rw [List.mem_cons, not_or] at ha
    have hnumA := (hget houter).resolve_left fun heq => ha.1 heq.1
    rcases hget hrange with ⟨rfl, rfl⟩ | hnumC
    · have hstop := h.stopped a outer hnumA ha.2
      refine iff_of_false (fun hinside => ?_) fun hwithin => ?_
      · exact absurd hinside.2 (not_lt.mpr hstop)
      · exact hnew (h.left_below hclosed (hnumbered hnumA) ha.2 hwithin hin).1
    · exact h.inside a outer hnumA ha.2 c range hnumC
  · rw [hleaving]
    intro a outer houter ha
    rw [List.mem_cons, not_or] at ha
    have hnumA := (hget houter).resolve_left fun heq => ha.1 heq.1
    exact (h.stopped a outer hnumA ha.2).trans (Nat.le_succ position)
  · rw [hleaving, FiniteMap.keys_insert]
    intro a hnum ha c hc hparent
    rw [List.mem_cons, not_or] at ha ⊢
    have hnum' := (Finset.mem_insert.mp hnum).resolve_left ha.1
    obtain ⟨hcnum, hcleft⟩ := h.left a hnum' ha.2 c hc hparent
    exact ⟨Finset.mem_insert_of_mem hcnum, fun heq => hnew (heq ▸ hcnum), hcleft⟩

theorem Ranged.leave (hwalk : Walking parent nodes (.exit node :: stack) ranges)
    (h : Ranged parent nodes (.exit node :: stack) position ranges) {range : NodeRange}
    (hrange : ranges.get? node = some range) :
    Ranged parent nodes stack position (ranges.insert node { range with stop := position }) := by
  obtain ⟨habove, hpending, hout, hnested⟩ := h.nested
  have hstart : ∀ {other : ν} {range' : NodeRange},
      (ranges.insert node { range with stop := position }).get? other = some range' →
        ∃ range₀, ranges.get? other = some range₀ ∧ range₀.start = range'.start := by
    intro other range' hrange'
    rw [FiniteMap.get?_insert] at hrange'
    split_ifs at hrange' with heq
    · cases hrange'
      exact ⟨range, heq ▸ hrange, rfl⟩
    · exact ⟨range', hrange', rfl⟩
  have hself : (ranges.insert node { range with stop := position }).get? node =
      some { range with stop := position } := FiniteMap.get?_insert_self ..
  have hkeys : (ranges.insert node { range with stop := position }).keys = ranges.keys := by
    rw [FiniteMap.keys_insert]
    exact Finset.insert_eq_of_mem (hwalk.leaves node List.mem_cons_self)
  have hleaving : ∀ {other : ν}, other ≠ node → other ∉ leaving stack →
      other ∉ leaving (.exit node :: stack) := by
    intro other hne hnot hmem
    exact (List.mem_cons.mp hmem).elim hne hnot
  constructor
  · exact hnested
  · intro other range' hrange'
    obtain ⟨range₀, hrange₀, heq⟩ := hstart hrange'
    exact heq ▸ h.before other range₀ hrange₀
  · intro other range' p hrange' hparent
    obtain ⟨range₀, hrange₀, heq⟩ := hstart hrange'
    obtain ⟨outer, houter, hlt⟩ := h.order other range₀ p hrange₀ hparent
    by_cases hp : p = node
    · subst hp
      rw [hrange, Option.some.injEq] at houter
      exact ⟨_, hself, by rw [← heq, houter]; exact hlt⟩
    · exact ⟨outer, by rw [FiniteMap.get?_insert_ne _ hp, houter], heq ▸ hlt⟩
  · intro a ha outer houter c range' hrange' hle
    obtain ⟨outer₀, houter₀, heq⟩ := hstart houter
    obtain ⟨range₀, hrange₀, heq'⟩ := hstart hrange'
    exact h.since a (List.mem_cons_of_mem _ ha) outer₀ houter₀ c range₀ hrange₀ (by omega)
  · intro a outer houter ha c range' hrange'
    obtain ⟨range₀, hrange₀, heq⟩ := hstart hrange'
    by_cases haNode : a = node
    · subst haNode
      rw [hself, Option.some.injEq] at houter
      subst houter
      constructor
      · rintro ⟨hle, -⟩
        exact h.since a List.mem_cons_self range hrange c range₀ hrange₀ (heq ▸ hle)
      · intro hwithin
        obtain ⟨outer₀, houter₀, hle⟩ := h.start_le hwithin range₀ hrange₀
        rw [hrange, Option.some.injEq] at houter₀
        subst houter₀
        exact ⟨heq ▸ hle, heq ▸ h.before c range₀ hrange₀⟩
    · rw [FiniteMap.get?_insert_ne _ haNode] at houter
      rw [← heq]
      exact h.inside a outer houter (hleaving haNode ha) c range₀ hrange₀
  · intro a outer houter ha
    by_cases haNode : a = node
    · subst haNode
      rw [hself, Option.some.injEq] at houter
      exact houter ▸ le_rfl
    · rw [FiniteMap.get?_insert_ne _ haNode] at houter
      exact h.stopped a outer houter (hleaving haNode ha)
  · rw [hkeys]
    intro a hnum ha c hc hparent
    by_cases haNode : a = node
    · subst haNode
      -- a child of the node that is left was entered over its exit, and has been left
      have hcnum : c ∈ ranges.keys := by
        have hknown : ∀ p, parent c = some p → p ∈ ranges.keys := by
          intro p hp
          rw [hparent] at hp
          cases hp
          exact hnum
        rcases hwalk.reached c hc hknown with hcnum | hpend
        · exact hcnum
        · exact absurd hparent (hpending c hpend)
      refine ⟨hcnum, fun hmem => ?_⟩
      obtain ⟨inner, hinner⟩ := FiniteMap.mem_keys_iff.mp hcnum
      obtain ⟨outer, houter, hlt⟩ := h.order c inner a hinner hparent
      obtain ⟨inner', hinner', hle⟩ := h.start_le (habove c hmem) outer houter
      rw [hinner, Option.some.injEq] at hinner'
      subst hinner'
      omega
    · obtain ⟨hcnum, hcleft⟩ := h.left a hnum (hleaving haNode ha) c hc hparent
      exact ⟨hcnum, fun hmem => hcleft (List.mem_cons_of_mem _ hmem)⟩

/-- A walk that ends leaves all ranges final. -/
theorem numberNodes_ranged (hchildren : Children parent children nodes)
    (hclosed : ∀ node ∈ nodes, ∀ p, parent node = some p → p ∈ nodes) {cycle : ε} {limit : ℕ} :
    ∀ (fuel : ℕ) (stack : List (Frame ν)) (position : ℕ) (ranges ranges' : FiniteMap ν NodeRange),
      Walking parent nodes stack ranges → Ranged parent nodes stack position ranges →
      numberNodes children cycle limit fuel stack position ranges = .ok ranges' →
      ∃ position', Walking parent nodes [] ranges' ∧ Ranged parent nodes [] position' ranges' := by
  intro fuel
  induction fuel with
  | zero =>
    intro stack position ranges ranges' hwalk h hok
    cases stack with
    | nil =>
      rw [numberNodes] at hok
      cases hok
      exact ⟨position, hwalk, h⟩
    | cons frame stack =>
      rw [numberNodes] at hok
      cases hok
  | succ fuel ih =>
    intro stack position ranges ranges' hwalk h hok
    cases stack with
    | nil =>
      rw [numberNodes] at hok
      cases hok
      exact ⟨position, hwalk, h⟩
    | cons frame stack =>
      cases frame with
      | enter node =>
        rw [numberNodes] at hok
        split_ifs at hok
        exact ih _ _ _ _ (hwalk.enter hchildren _) (h.enter hchildren hclosed hwalk) hok
      | exit node =>
        rw [numberNodes] at hok
        cases hget : ranges.get? node with
        | none =>
          rw [hget] at hok
          cases hok
        | some range =>
          rw [hget] at hok
          exact ih _ _ _ _ (hwalk.leave _) (h.leave hwalk hget) hok

/-- Where a walk ends, no node was waiting twice, or was numbered while it waited. -/
theorem numberNodes_fresh {cycle : ε} {limit : ℕ} :
    ∀ (fuel : ℕ) (stack : List (Frame ν)) (position : ℕ) (ranges ranges' : FiniteMap ν NodeRange),
      numberNodes children cycle limit fuel stack position ranges = .ok ranges' →
      (entering stack).Nodup ∧ ∀ node ∈ entering stack, node ∉ ranges.keys := by
  intro fuel
  induction fuel with
  | zero =>
    intro stack position ranges ranges' hok
    cases stack with
    | nil => exact ⟨List.nodup_nil, fun _ h => (List.not_mem_nil h).elim⟩
    | cons frame stack =>
      rw [numberNodes] at hok
      cases hok
  | succ fuel ih =>
    intro stack position ranges ranges' hok
    cases stack with
    | nil => exact ⟨List.nodup_nil, fun _ h => (List.not_mem_nil h).elim⟩
    | cons frame stack =>
      cases frame with
      | enter node =>
        rw [numberNodes] at hok
        split_ifs at hok with hstop
        obtain ⟨hnodup, hnew⟩ := ih _ _ _ _ hok
        rw [entering_map_enter, entering_exit] at hnodup hnew
        have hrest : ∀ other ∈ entering stack, other ∉ insert node ranges.keys := by
          intro other hother
          rw [← FiniteMap.keys_insert]
          exact hnew other (List.mem_append_right _ hother)
        simp only [Finset.mem_insert, not_or] at hrest
        rw [entering_enter, List.nodup_cons, List.forall_mem_cons]
        refine ⟨⟨fun hmem => (hrest node hmem).1 rfl, (List.nodup_append.mp hnodup).2.1⟩, ?_,
          fun other hother => (hrest other hother).2⟩
        rw [FiniteMap.mem_keys]
        exact fun hnumbered => hstop (.inl hnumbered)
      | exit node =>
        rw [numberNodes] at hok
        cases hget : ranges.get? node with
        | none =>
          rw [hget] at hok
          cases hok
        | some range =>
          rw [hget] at hok
          obtain ⟨hnodup, hnew⟩ := ih _ _ _ _ hok
          refine ⟨hnodup, fun other hother hnumbered => hnew other hother ?_⟩
          rw [FiniteMap.keys_insert]
          exact Finset.mem_insert_of_mem hnumbered

/-- The children of a node that is entered neither waited nor were numbered before. -/
theorem numberNodes_entered {cycle : ε} {limit : ℕ} :
    ∀ (fuel : ℕ) (stack : List (Frame ν)) (position : ℕ) (ranges ranges' : FiniteMap ν NodeRange),
      numberNodes children cycle limit fuel stack position ranges = .ok ranges' →
      node ∈ ranges'.keys → node ∉ ranges.keys →
      ∀ other, other ∈ entering stack ∨ other ∈ ranges.keys → other ∉ children node := by
  intro fuel
  induction fuel with
  | zero =>
    intro stack position ranges ranges' hok hend hstart
    cases stack with
    | nil =>
      rw [numberNodes] at hok
      cases hok
      exact absurd hend hstart
    | cons frame stack =>
      rw [numberNodes] at hok
      cases hok
  | succ fuel ih =>
    intro stack position ranges ranges' hok hend hstart
    cases stack with
    | nil =>
      rw [numberNodes] at hok
      cases hok
      exact absurd hend hstart
    | cons frame stack =>
      cases frame with
      | enter first =>
        rw [numberNodes] at hok
        split_ifs at hok with hstop
        by_cases hfirst : node = first
        · subst hfirst
          obtain ⟨hnodup, hnew⟩ := numberNodes_fresh _ _ _ _ _ hok
          rw [entering_map_enter, entering_exit] at hnodup hnew
          rw [FiniteMap.keys_insert] at hnew
          rintro other (hwaits | hnumbered) hchild
          · rcases List.mem_cons.mp hwaits with rfl | hwaits
            · exact hnew _ (List.mem_append_left _ hchild) (Finset.mem_insert_self _ _)
            · exact (List.nodup_append.mp hnodup).2.2 other hchild other hwaits rfl
          · exact hnew other (List.mem_append_left _ hchild) (Finset.mem_insert_of_mem hnumbered)
        · have hrest := ih _ _ _ _ hok hend (by
            rw [FiniteMap.keys_insert, Finset.mem_insert, not_or]
            exact ⟨hfirst, hstart⟩)
          rw [entering_map_enter, entering_exit, FiniteMap.keys_insert] at hrest
          rintro other (hwaits | hnumbered)
          · rcases List.mem_cons.mp hwaits with rfl | hwaits
            · exact hrest _ (.inr (Finset.mem_insert_self _ _))
            · exact hrest other (.inl (List.mem_append_right _ hwaits))
          · exact hrest other (.inr (Finset.mem_insert_of_mem hnumbered))
      | exit first =>
        rw [numberNodes] at hok
        cases hget : ranges.get? first with
        | none =>
          rw [hget] at hok
          cases hok
        | some range =>
          rw [hget] at hok
          have hkeys : (ranges.insert first { range with stop := position }).keys = ranges.keys := by
            rw [FiniteMap.keys_insert]
            exact Finset.insert_eq_of_mem (FiniteMap.mem_keys_iff.mpr ⟨range, hget⟩)
          have hrest := ih _ _ _ _ hok hend (hkeys ▸ hstart)
          rw [hkeys] at hrest
          exact hrest

/-- Over any lists of children the walk ends with nodes only, or meets a node a second time. -/
theorem numberNodes_total {cycle : ε} {limit : ℕ}
    (hchildren : ∀ node ∈ nodes, ∀ child ∈ children node, child ∈ nodes) :
    ∀ (fuel : ℕ) (stack : List (Frame ν)) (position : ℕ) (ranges : FiniteMap ν NodeRange),
      (∀ node ∈ entering stack, node ∈ nodes) → (∀ node ∈ leaving stack, node ∈ ranges.keys) →
      ranges.keys ⊆ nodes → remaining nodes stack ranges < fuel →
      (∃ ranges', numberNodes children cycle limit fuel stack position ranges = .ok ranges' ∧
        ranges'.keys ⊆ nodes) ∨
        numberNodes children cycle limit fuel stack position ranges = .error (.error cycle) := by
  intro fuel
  induction fuel with
  | zero => exact fun _ _ _ _ _ _ hfuel => absurd hfuel (Nat.not_lt_zero _)
  | succ fuel ih =>
    intro stack position ranges hwaiting hleaving hsubset hfuel
    cases stack with
    | nil => exact .inl ⟨ranges, by rw [numberNodes], hsubset⟩
    | cons frame stack =>
      cases frame with
      | enter node =>
        rw [numberNodes]
        split_ifs with hstop
        · exact .inr rfl
        · have hin := hwaiting node List.mem_cons_self
          have hnew : node ∉ ranges.keys := fun h => hstop (.inl (FiniteMap.mem_keys.mp h))
          have hlt := Finset.card_lt_card
            (Finset.ssubset_iff_subset_ne.mpr ⟨hsubset, fun heq => hnew (heq ▸ hin)⟩)
          apply ih
          · rw [entering_map_enter, entering_exit]
            intro other hother
            rcases List.mem_append.mp hother with hchild | hother
            · exact hchildren node hin other hchild
            · exact hwaiting other (List.mem_cons_of_mem _ hother)
          · rw [leaving_map_enter, leaving_exit, FiniteMap.keys_insert]
            intro other hother
            rcases List.mem_cons.mp hother with rfl | hother
            · exact Finset.mem_insert_self _ _
            · exact Finset.mem_insert_of_mem (hleaving other hother)
          · rw [FiniteMap.keys_insert]
            exact Finset.insert_subset hin hsubset
          · rw [remaining, FiniteMap.keys_insert, Finset.card_insert_of_notMem hnew,
              leaving_map_enter, leaving_exit, List.length_cons]
            rw [remaining, leaving_enter] at hfuel
            omega
      | exit node =>
        obtain ⟨range, hget⟩ := FiniteMap.mem_keys_iff.mp (hleaving node List.mem_cons_self)
        have hkeys : (ranges.insert node { range with stop := position }).keys = ranges.keys := by
          rw [FiniteMap.keys_insert]
          exact Finset.insert_eq_of_mem (hleaving node List.mem_cons_self)
        rw [numberNodes]
        simp only [hget]
        apply ih
        · exact hwaiting
        · rw [hkeys]
          exact fun other hother => hleaving other (List.mem_cons_of_mem _ hother)
        · rwa [hkeys]
        · rw [remaining, hkeys]
          rw [remaining, leaving_exit, List.length_cons] at hfuel
          omega

/-- Nothing is numbered where a walk starts. -/
theorem ranged_roots (parent : ν → Option ν) (nodes : Finset ν) (roots : List ν) :
    Ranged parent nodes (roots.map .enter) 0 ∅ := by
  have hnested : Nested parent (roots.map Frame.enter) := by
    have henters : Nested parent (roots.map Frame.enter ++ []) := nested_enters.mpr
      ⟨fun _ _ _ h => (List.not_mem_nil h).elim, trivial⟩
    rwa [List.append_nil] at henters
  constructor
  · exact hnested
  · exact fun _ _ h => (by cases h)
  · exact fun _ _ _ h => (by cases h)
  · exact fun _ _ _ h => (by cases h)
  · exact fun _ _ h => (by cases h)
  · exact fun _ _ h => (by cases h)
  · exact fun _ h => (Finset.notMem_empty _ h).elim

/-- A numbered node has its parents before it, and they end at a root. -/
theorem Ranged.rooted (h : Ranged parent nodes stack position ranges) (hnode : node ∈ ranges.keys) :
    Rooted parent node := by
  obtain ⟨range, hrange⟩ := FiniteMap.mem_keys_iff.mp hnode
  induction hn : range.start using Nat.strong_induction_on generalizing node range with
  | _ n ih =>
    cases hparent : parent node with
    | none => exact .root hparent
    | some above =>
      obtain ⟨outer, houter, hlt⟩ := h.order node range above hrange hparent
      exact .child hparent (ih outer.start (hn ▸ hlt) (FiniteMap.mem_keys_iff.mpr ⟨outer, houter⟩)
        outer houter rfl)

end

end Forest
