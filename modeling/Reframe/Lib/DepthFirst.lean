import Reframe.Lib.Run
import Mathlib.Data.Finset.Card
import Mathlib.Data.List.Infix
import Mathlib.Data.List.Nodup
import Mathlib.Logic.Relation
import Mathlib.Tactic.Common

/-! A depth-first walk that lists every node after its children and refuses cycles. -/
namespace DepthFirst
open Run Relation

section Graph

variable {α ε : Type} (children : α → List α)

def Edge (a b : α) : Prop := b ∈ children a

def Reached (roots : List α) (a : α) : Prop := ∃ root ∈ roots, ReflTransGen (Edge children) root a

/-- Every listed node stands after its children. -/
def Ordered (done : List α) : Prop :=
  ∀ before a after, done = before ++ a :: after → ∀ b ∈ children a, b ∈ before

variable {children}

theorem ordered_nil : Ordered children ([] : List α) :=
  fun before _ _ h => by simp at h

theorem Ordered.concat {done : List α} (h : Ordered children done) {a : α}
    (ha : ∀ b ∈ children a, b ∈ done) : Ordered children (done ++ [a]) := by
  intro before x after heq b hb
  rcases List.eq_nil_or_concat' after with rfl | ⟨after, y, rfl⟩
  · obtain ⟨rfl, hx⟩ := List.append_inj' heq rfl
    obtain rfl := (List.cons.inj hx).1
    exact ha b hb
  · rw [← List.cons_append, ← List.append_assoc] at heq
    exact h before x after (List.append_inj' heq rfl).1 b hb

theorem Ordered.initial {done done' : List α} (h : Ordered children done') (hstarts : done <+: done') :
    Ordered children done := by
  obtain ⟨rest, rfl⟩ := hstarts
  rintro before a after rfl
  exact h before a (after ++ rest) (by simp)

theorem Ordered.congr {children' : α → List α} {done : List α} (h : Ordered children done)
    (hsame : ∀ a ∈ done, children a = children' a) : Ordered children' done := by
  rintro before a after rfl b hb
  rw [← hsame a (by simp)] at hb
  exact h before a after rfl b hb

/-- A listed node is listed with all it leads to. -/
theorem Ordered.closed {done : List α} (h : Ordered children done) {a b : α} (ha : a ∈ done)
    (hab : ReflTransGen (Edge children) a b) : b ∈ done := by
  induction hab with
  | refl => exact ha
  | tail _ hedge ih =>
    obtain ⟨before, after, rfl⟩ := List.append_of_mem ih
    exact List.mem_append_left _ (h before _ after rfl _ hedge)

/-- No cycle leads through a listed node. -/
theorem Ordered.acyclic {done : List α} (h : Ordered children done) :
    ∀ {a}, a ∈ done → ¬ TransGen (Edge children) a a := by
  induction done using List.reverseRecOn with
  | nil => exact fun ha => nomatch ha
  | append_singleton done x ih =>
    have hdone := h.initial (List.prefix_append done [x])
    intro a ha hcycle
    -- What is listed before the last node leads to nothing but what is listed there.
    by_cases hmem : a ∈ done
    · exact ih hdone hmem hcycle
    · obtain rfl := (List.mem_append.mp ha).elim (absurd · hmem) List.mem_singleton.mp
      obtain ⟨b, hedge, hback⟩ := TransGen.head'_iff.mp hcycle
      exact hmem (hdone.closed (h done a [] rfl b hedge) hback)

variable (children) in
/-- What a visit has added. -/
structure Visited (stack done : List α) (roots : List α) (done' : List α) : Prop where
  extends_ : done <+: done'
  ordered : Ordered children done'
  nodup : done'.Nodup
  listed : ∀ a ∈ roots, a ∈ done'
  reached : ∀ a ∈ done', a ∈ done ∨ Reached children roots a
  apart : ∀ a ∈ stack, a ∉ done'

theorem foldlM_visited {step : List α → α → Except (Stop ε) (List α)} (stack : List α)
    (hstep : ∀ {done a done'}, Ordered children done → done.Nodup → (∀ x ∈ stack, x ∉ done) →
      step done a = .ok done' → Visited children stack done [a] done') :
    ∀ (roots : List α) {done done' : List α}, Ordered children done → done.Nodup →
      (∀ x ∈ stack, x ∉ done) → roots.foldlM step done = .ok done' →
      Visited children stack done roots done' := by
  intro roots
  induction roots with
  | nil =>
    intro done done' hordered hnodup hstack hok
    cases hok
    exact ⟨List.prefix_rfl, hordered, hnodup, fun _ h => (nomatch h), fun _ h => .inl h, hstack⟩
  | cons a roots ih =>
    intro done done' hordered hnodup hstack hok
    rw [List.foldlM_cons] at hok
    obtain ⟨middle, hmiddle, hok⟩ := Run.bind_ok.mp hok
    have hfirst := hstep hordered hnodup hstack hmiddle
    have hrest := ih hfirst.ordered hfirst.nodup hfirst.apart hok
    refine ⟨hfirst.extends_.trans hrest.extends_, hrest.ordered, hrest.nodup, ?_, ?_, hrest.apart⟩
    · rw [List.forall_mem_cons]
      exact ⟨hrest.extends_.subset (hfirst.listed a (List.mem_singleton_self a)), hrest.listed⟩
    · intro x hx
      rcases hrest.reached x hx with hx | ⟨root, hroot, hx⟩
      · refine (hfirst.reached x hx).imp_right ?_
        rintro ⟨root, hroot, hx⟩
        obtain rfl := List.mem_singleton.mp hroot
        exact ⟨root, List.mem_cons_self, hx⟩
      · exact .inr ⟨root, List.mem_cons_of_mem _ hroot, hx⟩

/-- A fold that fails fails at one of the items. -/
theorem foldlM_error {σ : Type} {step : σ → α → Except (Stop ε) σ} {why : Stop ε} :
    ∀ {items : List α} {s : σ}, items.foldlM step s = .error why →
      ∃ a ∈ items, ∃ s', step s' a = .error why := by
  intro items
  induction items with
  | nil => exact fun h => nomatch h
  | cons a items ih =>
    intro s h
    rw [List.foldlM_cons] at h
    cases hstep : step s a with
    | error why' =>
      rw [hstep] at h
      cases h
      exact ⟨a, List.mem_cons_self, s, hstep⟩
    | ok s' =>
      rw [hstep] at h
      obtain ⟨b, hb, s'', hs''⟩ := ih h
      exact ⟨b, List.mem_cons_of_mem a hb, s'', hs''⟩

/-- Steps that agree where the first does not run out of fuel. -/
theorem foldlM_mono {σ : Type} {step step' : σ → α → Except (Stop ε) σ}
    (hstep : ∀ s a, step s a ≠ .error .exhausted → step' s a = step s a) :
    ∀ {items : List α} {s : σ}, items.foldlM step s ≠ .error .exhausted →
      items.foldlM step' s = items.foldlM step s := by
  intro items
  induction items with
  | nil => exact fun _ => rfl
  | cons a items ih =>
    intro s h
    rw [List.foldlM_cons] at h
    have hfirst : step s a ≠ .error .exhausted := by
      intro hexhausted
      rw [hexhausted] at h
      exact h rfl
    rw [List.foldlM_cons, List.foldlM_cons, hstep s a hfirst]
    cases hs : step s a with
    | error why => rfl
    | ok s' =>
      rw [hs] at h
      exact ih h

end Graph

variable {α ε : Type} [DecidableEq α] (children : α → List α) (cycle : α → ε)

/-- `stack` holds the nodes whose children are being visited, `done` those that are listed. -/
def visit : ℕ → List α → List α → α → Except (Stop ε) (List α)
  | 0, _, _, _ => .error .exhausted
  | fuel + 1, stack, done, a =>
    if a ∈ done then .ok done
    else if a ∈ stack then .error (.error (cycle a))
    else ((children a).foldlM (visit fuel (a :: stack)) done).map (· ++ [a])

def visitAll (fuel : ℕ) (roots : List α) : Except (Stop ε) (List α) :=
  roots.foldlM (visit children cycle fuel []) []

variable {children} {cycle}

theorem visit_visited (fuel : ℕ) : ∀ {stack done : List α} {a : α} {done' : List α},
    Ordered children done → done.Nodup → (∀ x ∈ stack, x ∉ done) →
      visit children cycle fuel stack done a = .ok done' →
      Visited children stack done [a] done' := by
  induction fuel with
  | zero => exact fun _ _ _ h => nomatch h
  | succ fuel ih =>
    intro stack done a done' hordered hnodup hstack hok
    rw [visit] at hok
    split_ifs at hok with hdone hcycle
    · cases hok
      exact ⟨List.prefix_rfl, hordered, hnodup, by simpa using hdone, fun _ h => .inl h, hstack⟩
    · obtain ⟨middle, hmiddle, rfl⟩ := Run.map_eq_ok.mp hok
      have hstack' : ∀ x ∈ a :: stack, x ∉ done := List.forall_mem_cons.mpr ⟨hdone, hstack⟩
      have hvisited := foldlM_visited (a :: stack) (fun h h' h'' => ih h h' h'') (children a) hordered
        hnodup hstack' hmiddle
      have ha : a ∉ middle := hvisited.apart a List.mem_cons_self
      refine ⟨hvisited.extends_.trans (List.prefix_append _ _),
        hvisited.ordered.concat hvisited.listed, ?_, by simp, ?_, ?_⟩
      · exact hvisited.nodup.append (List.nodup_singleton a) (by simpa using ha)
      · intro x hx
        rcases List.mem_append.mp hx with hx | hx
        · refine (hvisited.reached x hx).imp_right ?_
          rintro ⟨b, hb, hx⟩
          exact ⟨a, List.mem_singleton_self a, .head hb hx⟩
        · exact .inr ⟨a, List.mem_singleton_self a, List.mem_singleton.mp hx ▸ .refl⟩
      · intro x hx hmem
        rcases List.mem_append.mp hmem with hmem | hmem
        · exact hvisited.apart x (List.mem_cons_of_mem a hx) hmem
        · exact hcycle (List.mem_singleton.mp hmem ▸ hx)

/-- More fuel does not change a result. -/
theorem visit_succ (fuel : ℕ) : ∀ {stack done : List α} {a : α},
    visit children cycle fuel stack done a ≠ .error .exhausted →
      visit children cycle (fuel + 1) stack done a = visit children cycle fuel stack done a := by
  induction fuel with
  | zero => exact fun h => (h rfl).elim
  | succ fuel ih =>
    intro stack done a h
    rw [visit] at h ⊢
    conv_rhs => rw [visit]
    split_ifs at h ⊢ with hdone hcycle
    · rfl
    · rfl
    · refine congrArg _ (foldlM_mono (fun done b hb => ih hb) fun hexhausted => h ?_)
      rw [hexhausted]
      rfl

theorem visitAll_succ {fuel : ℕ} {roots : List α}
    (h : visitAll children cycle fuel roots ≠ .error .exhausted) :
    visitAll children cycle (fuel + 1) roots = visitAll children cycle fuel roots :=
  foldlM_mono (fun _ _ hb => visit_succ fuel hb) h

theorem visitAll_of_le {fuel fuel' : ℕ} (hle : fuel ≤ fuel') {roots : List α}
    (h : visitAll children cycle fuel roots ≠ .error .exhausted) :
    visitAll children cycle fuel' roots = visitAll children cycle fuel roots := by
  induction fuel', hle using Nat.le_induction with
  | base => rfl
  | succ fuel' _ ih => rw [visitAll_succ (ih ▸ h), ih]

/-- The walk stops at a cycle that it has reached, unless the fuel is short. -/
theorem visit_error {nodes : Finset α} (hclosed : ∀ a ∈ nodes, ∀ b ∈ children a, b ∈ nodes)
    (fuel : ℕ) : ∀ {stack done : List α} {a : α} {why : Stop ε}, a ∈ nodes → stack.Nodup →
      (∀ x ∈ stack, x ∈ nodes ∧ TransGen (Edge children) x a) →
      nodes.card < fuel + stack.length → visit children cycle fuel stack done a = .error why →
      ∃ c, why = .error (cycle c) ∧ ReflTransGen (Edge children) a c ∧
        TransGen (Edge children) c c := by
  induction fuel with
  | zero =>
    intro stack done a why _ hnodup hstack hcard _
    have hle := Finset.card_le_card (s := stack.toFinset) (t := nodes) fun x hx =>
      (hstack x (List.mem_toFinset.mp hx)).1
    rw [List.toFinset_card_of_nodup hnodup] at hle
    omega
  | succ fuel ih =>
    intro stack done a why ha hnodup hstack hcard herror
    rw [visit] at herror
    split_ifs at herror with hdone hcycle
    · cases herror
      exact ⟨a, rfl, .refl, (hstack a hcycle).2⟩
    · cases hfold : (children a).foldlM (visit children cycle fuel (a :: stack)) done with
      | ok middle =>
        rw [hfold] at herror
        cases herror
      | error why' =>
        rw [hfold] at herror
        cases herror
        obtain ⟨b, hb, middle, hvisit⟩ := foldlM_error hfold
        have hpath : ∀ x ∈ a :: stack, x ∈ nodes ∧ TransGen (Edge children) x b := by
          rw [List.forall_mem_cons]
          exact ⟨⟨ha, .single hb⟩, fun x hx => ⟨(hstack x hx).1, (hstack x hx).2.tail hb⟩⟩
        obtain ⟨c, hwhy, hreach, hloop⟩ := ih (hclosed a ha b hb)
          (List.nodup_cons.mpr ⟨hcycle, hnodup⟩) hpath (by rw [List.length_cons]; omega) hvisit
        exact ⟨c, hwhy, .head hb hreach, hloop⟩

/-- The list of a whole walk. -/
theorem visitAll_ok {fuel : ℕ} {roots done : List α}
    (hok : visitAll children cycle fuel roots = .ok done) :
    Ordered children done ∧ done.Nodup ∧ ∀ a, a ∈ done ↔ Reached children roots a := by
  have hvisited := foldlM_visited [] (fun h h' h'' => visit_visited fuel h h' h'') roots ordered_nil
    List.nodup_nil (fun _ h => nomatch h) hok
  refine ⟨hvisited.ordered, hvisited.nodup, fun a => ⟨fun ha => ?_, ?_⟩⟩
  · exact (hvisited.reached a ha).resolve_left List.not_mem_nil
  · rintro ⟨root, hroot, ha⟩
    exact hvisited.ordered.closed (hvisited.listed root hroot) ha

theorem visitAll_error {nodes : Finset α} (hclosed : ∀ a ∈ nodes, ∀ b ∈ children a, b ∈ nodes)
    {fuel : ℕ} (hfuel : nodes.card < fuel) {roots : List α} (hroots : ∀ a ∈ roots, a ∈ nodes)
    {why : Stop ε} (herror : visitAll children cycle fuel roots = .error why) :
    ∃ c, why = .error (cycle c) ∧ Reached children roots c ∧ TransGen (Edge children) c c := by
  obtain ⟨a, ha, done, hvisit⟩ := foldlM_error herror
  obtain ⟨c, hwhy, hreach, hloop⟩ := visit_error hclosed fuel (hroots a ha) List.nodup_nil
    (fun _ h => nomatch h) hfuel hvisit
  exact ⟨c, hwhy, ⟨a, ha, hreach⟩, hloop⟩

/-- A walk that lists its nodes meets no cycle. -/
theorem visitAll_acyclic {fuel : ℕ} {roots done : List α}
    (hok : visitAll children cycle fuel roots = .ok done) {a : α}
    (ha : Reached children roots a) : ¬ TransGen (Edge children) a a := by
  obtain ⟨hordered, -, hmem⟩ := visitAll_ok hok
  exact hordered.acyclic ((hmem a).mpr ha)

/-- Nodes that come after their children are listed as they come. -/
theorem foldlM_visit_of_ordered (fuel : ℕ) (stack : List α) : ∀ (rest done : List α),
    Ordered children (done ++ rest) → (done ++ rest).Nodup → (∀ x ∈ stack, x ∉ rest) →
      rest.foldlM (visit children cycle (fuel + 2) stack) done = .ok (done ++ rest) := by
  intro rest
  induction rest with
  | nil => exact fun _ _ _ _ => by simp [pure, Except.pure]
  | cons a rest ih =>
    intro done hordered hnodup hstack
    have ha : a ∉ done := fun ha => (List.disjoint_of_nodup_append hnodup) ha List.mem_cons_self
    have hchildren : ∀ (bs : List α), (∀ b ∈ bs, b ∈ done) →
        bs.foldlM (visit children cycle (fuel + 1) (a :: stack)) done = .ok done := by
      intro bs
      induction bs with
      | nil => exact fun _ => rfl
      | cons b bs ihbs =>
        intro hbs
        rw [List.forall_mem_cons] at hbs
        rw [List.foldlM_cons, visit, if_pos hbs.1]
        exact ihbs hbs.2
    have hvisit : visit children cycle (fuel + 2) stack done a = .ok (done ++ [a]) := by
      rw [visit, if_neg ha, if_neg fun h => hstack a h List.mem_cons_self,
        hchildren _ fun b hb => hordered done a rest rfl b hb]
      rfl
    rw [List.foldlM_cons, hvisit]
    have hcons : done ++ a :: rest = done ++ [a] ++ rest := by simp
    rw [hcons] at hordered hnodup ⊢
    exact ih _ hordered hnodup fun x hx hmem => hstack x hx (List.mem_cons_of_mem a hmem)

theorem visitAll_of_ordered (fuel : ℕ) {nodes : List α} (hordered : Ordered children nodes)
    (hnodup : nodes.Nodup) : visitAll children cycle (fuel + 2) nodes = .ok nodes :=
  foldlM_visit_of_ordered fuel [] nodes [] hordered hnodup fun _ h => nomatch h

/-- A node above such a list comes last. -/
theorem visitAll_root (fuel : ℕ) {root : α} (hordered : Ordered children (children root))
    (hnodup : (children root).Nodup) (hroot : root ∉ children root) :
    visitAll children cycle (fuel + 3) [root] = .ok (children root ++ [root]) := by
  have hfold : (children root).foldlM (visit children cycle (fuel + 2) [root]) [] =
      .ok (children root) :=
    foldlM_visit_of_ordered fuel [root] (children root) [] hordered hnodup (by simpa using hroot)
  rw [visitAll, List.foldlM_cons, visit, if_neg List.not_mem_nil, if_neg List.not_mem_nil, hfold]
  rfl

end DepthFirst
