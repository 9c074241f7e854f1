import Mathlib.Algebra.BigOperators.Group.Finset.Basic
import Mathlib.Data.Fintype.Fin
import Mathlib.Tactic
import Reframe.Lib.Run
import Reframe.Lib.SortedMap

/-! Items loaded by workers that claim them from a shared counter, and their results put back in
order. -/
namespace Workspace
open Run (bind_ok)
open SortedSet

variable {T U E : Type} {workers : ℕ}

/-- Where a worker is in its loop. -/
inductive Worker (T U E : Type) where
  /-- Before `next.fetch_add`. -/
  | claiming
  /-- Before `load(item)`. -/
  | loading (index : ℕ) (item : T)
  /-- Before `completed.push`, under the lock; nothing panics while it is held. -/
  | pushing (index : ℕ) (result : Except E U)
  | stopped

def Worker.isStopped : Worker T U E → Bool
  | .stopped => true
  | _ => false

structure Pool (T U E : Type) (workers : ℕ) where
  next : ℕ
  completed : List (ℕ × Except E U)
  worker : Fin workers → Worker T U E

namespace Pool

def start : Pool T U E workers := ⟨0, [], fun _ => .claiming⟩

/-- One worker goes on by one shared access, or by loading its item. -/
def step (items : List T) (load : T → Except E U) (pool : Pool T U E workers) (i : Fin workers) :
    Pool T U E workers :=
  match pool.worker i with
  | .claiming =>
    match items[pool.next]? with
    | none => { pool with
        next := pool.next + 1, worker := Function.update pool.worker i .stopped }
    | some item => { pool with
        next := pool.next + 1, worker := Function.update pool.worker i (.loading pool.next item) }
  | .loading index item =>
    { pool with worker := Function.update pool.worker i (.pushing index (load item)) }
  | .pushing index result => { pool with
      completed := pool.completed ++ [(index, result)],
      worker := Function.update pool.worker i .claiming }
  | .stopped => pool

def run (items : List T) (load : T → Except E U) (pool : Pool T U E workers)
    (schedule : List (Fin workers)) : Pool T U E workers :=
  schedule.foldl (step items load) pool

/-- Every worker has been joined. -/
def finished (pool : Pool T U E workers) : Bool :=
  decide (∀ i, (pool.worker i).isStopped = true)

end Pool

/-- What is returned once the workers are joined; `anyhow` makes an error of a message. -/
def collectCompleted (anyhow : String → E) (items : List T) (completed : List (ℕ × Except E U)) :
    Except E (List U) :=
  if completed.length ≠ items.length then
    .error (anyhow "resident cold-load worker stopped before completing its queue")
  else ((sortByKey Prod.fst completed).map Prod.snd).mapM id

/-- The result under a schedule of the workers, once all of them have stopped. -/
def parallelMapOrdered (anyhow : String → E) (items : List T) (workers : ℕ)
    (load : T → Except E U) (schedule : List (Fin workers)) : Option (Except E (List U)) :=
  if items = [] then some (.ok [])
  else if workers ≤ 1 then some (items.mapM load)
  else
    let pool := Pool.run items load .start schedule
    if pool.finished then some (collectCompleted anyhow items pool.completed) else none

/-! Each index is claimed once. -/

/-- The results of the items in order, each with its index. -/
def indexedResults (items : List T) (load : T → Except E U) : List (ℕ × Except E U) :=
  items.mapIdx fun index item => (index, load item)

@[simp] theorem length_indexedResults (items : List T) (load : T → Except E U) :
    (indexedResults items load).length = items.length := by
  simp [indexedResults]

theorem indexedResults_getElem? (items : List T) (load : T → Except E U) (index : ℕ) :
    (indexedResults items load)[index]? = items[index]?.map fun item => (index, load item) := by
  simp [indexedResults]

/-- What a worker holds of an item that it has claimed and not pushed. -/
def Worker.share (load : T → Except E U) : Worker T U E → Multiset (ℕ × Except E U)
  | .loading index item => {(index, load item)}
  | .pushing index result => {(index, result)}
  | _ => 0

section

variable (load : T → Except E U) (index : ℕ)

@[simp] theorem Worker.share_claiming : (Worker.claiming : Worker T U E).share load = 0 := rfl

@[simp] theorem Worker.share_stopped : (Worker.stopped : Worker T U E).share load = 0 := rfl

@[simp] theorem Worker.share_loading (item : T) :
    (Worker.loading index item : Worker T U E).share load = {(index, load item)} := rfl

@[simp] theorem Worker.share_pushing (result : Except E U) :
    (Worker.pushing index result : Worker T U E).share load = {(index, result)} := rfl

end

namespace Pool

variable {items : List T} {load : T → Except E U} {pool : Pool T U E workers}

/-- What has been claimed is completed or held by one worker, and a worker stops only when nothing
is left to claim. -/
structure Claimed (items : List T) (load : T → Except E U) (pool : Pool T U E workers) : Prop where
  results : (pool.completed : Multiset (ℕ × Except E U)) + ∑ i, (pool.worker i).share load =
    ((indexedResults items load).take pool.next : Multiset (ℕ × Except E U))
  exhausted : ∀ i, (pool.worker i).isStopped = true → items.length ≤ pool.next

theorem claimed_start : Claimed items load (.start : Pool T U E workers) where
  results := by simp [start]
  exhausted i h := by simp [start, Worker.isStopped] at h

/-- What one worker gives up and gets. -/
theorem sum_share_update (w : Fin workers → Worker T U E) (i : Fin workers) (v : Worker T U E) :
    ∑ j, (Function.update w i v j).share load + (w i).share load =
      ∑ j, (w j).share load + v.share load := by
  have hother : ∀ j ∈ Finset.univ.erase i,
      (Function.update w i v j).share load = (w j).share load := fun j hj => by
    rw [Function.update_of_ne (Finset.ne_of_mem_erase hj)]
  rw [← Finset.add_sum_erase _ _ (Finset.mem_univ i),
    ← Finset.add_sum_erase _ (fun j => (w j).share load) (Finset.mem_univ i),
    Finset.sum_congr rfl hother, Function.update_self]
  abel

/-- A worker that goes on without stopping leaves the others as they are. -/
theorem isStopped_update {w : Fin workers → Worker T U E} {i j : Fin workers}
    {v : Worker T U E} (hv : v.isStopped = false)
    (h : (Function.update w i v j).isStopped = true) : (w j).isStopped = true := by
  by_cases hij : j = i
  · rw [hij, Function.update_self, hv] at h
    simp at h
  · rwa [Function.update_of_ne hij] at h

theorem Claimed.step (h : Claimed items load pool) (i : Fin workers) :
    Claimed items load (pool.step items load i) := by
  have hsum : ∀ v, ∑ j, (Function.update pool.worker i v j).share load +
      (pool.worker i).share load = ∑ j, (pool.worker j).share load + v.share load :=
    sum_share_update pool.worker i
  have hresults := h.results
  unfold Pool.step
  cases hw : pool.worker i with
  | claiming =>
    simp only [hw, Worker.share_claiming, add_zero] at hsum
    cases hitem : items[pool.next]? with
    | none =>
      have hle : items.length ≤ pool.next := List.getElem?_eq_none_iff.mp hitem
      refine ⟨?_, fun _ _ => Nat.le_succ_of_le hle⟩
      rw [List.take_of_length_le (by simpa using hle)] at hresults
      simp only [hsum, Worker.share_stopped, add_zero, hresults]
      rw [List.take_of_length_le (by simpa using Nat.le_succ_of_le hle)]
    | some item =>
      refine ⟨?_, fun j hj => Nat.le_succ_of_le (h.exhausted j (isStopped_update rfl hj))⟩
      have hget : (indexedResults items load)[pool.next]? = some (pool.next, load item) := by
        simp [indexedResults_getElem?, hitem]
      simp only [hsum, Worker.share_loading]
      rw [← add_assoc, hresults, List.take_add_one, hget, Option.toList_some, ← Multiset.coe_add,
        Multiset.coe_singleton]
  | loading index item =>
    refine ⟨?_, fun j hj => h.exhausted j (isStopped_update rfl hj)⟩
    have hsame := hsum (.pushing index (load item))
    simp only [hw, Worker.share_loading, Worker.share_pushing, add_left_inj] at hsame
    simp only [hsame, hresults]
  | pushing index result =>
    refine ⟨?_, fun j hj => h.exhausted j (isStopped_update rfl hj)⟩
    have hgiven := hsum .claiming
    simp only [hw, Worker.share_pushing, Worker.share_claiming, add_zero] at hgiven
    rw [← hresults, ← hgiven, ← Multiset.coe_add, Multiset.coe_singleton]
    abel
  | stopped => exact h

theorem Claimed.run (schedule : List (Fin workers)) : ∀ {pool : Pool T U E workers},
    Claimed items load pool → Claimed items load (pool.run items load schedule) := by
  induction schedule with
  | nil => exact fun h => h
  | cons i schedule ih => exact fun h => ih (h.step i)

/-- When all have stopped, each item has been completed once. -/
theorem Claimed.completed (h : Claimed items load pool) (hfinished : pool.finished = true)
    (hworkers : 0 < workers) : pool.completed.Perm (indexedResults items load) := by
  simp only [finished, decide_eq_true_eq] at hfinished
  have hnone : ∑ i, (pool.worker i).share load = 0 := Finset.sum_eq_zero fun i _ => by
    have hstopped := hfinished i
    cases hw : pool.worker i <;> simp [hw, Worker.isStopped] at hstopped
    rfl
  have hall : (indexedResults items load).length ≤ pool.next := by
    simpa using h.exhausted ⟨0, hworkers⟩ (hfinished _)
  have hresults := h.results
  rw [hnone, add_zero, List.take_of_length_le hall] at hresults
  exact Multiset.coe_eq_coe.mp hresults

/-! Each worker stops. -/

/-- How many turns a worker can still take. -/
def turnsLeft (items : List T) (pool : Pool T U E workers) (i : Fin workers) : ℕ :=
  match pool.worker i with
  | .claiming => 3 * (items.length - pool.next) + 1
  | .pushing _ _ => 3 * (items.length - pool.next) + 2
  | .loading _ _ => 3 * (items.length - pool.next) + 3
  | .stopped => 0

theorem turnsLeft_step_self (i : Fin workers) :
    (pool.step items load i).turnsLeft items i ≤ pool.turnsLeft items i - 1 := by
  unfold Pool.step turnsLeft
  cases hw : pool.worker i with
  | claiming =>
    cases hitem : items[pool.next]? with
    | none => simp
    | some item =>
      have hlt : pool.next < items.length := (List.getElem?_eq_some_iff.mp hitem).1
      simp only [Function.update_self]
      omega
  | loading index item => simp
  | pushing index result => simp
  | stopped => simp [hw]

theorem turnsLeft_step_le (i j : Fin workers) :
    (pool.step items load i).turnsLeft items j ≤ pool.turnsLeft items j := by
  by_cases hij : j = i
  · rw [hij]
    exact (turnsLeft_step_self i).trans (Nat.sub_le _ 1)
  · unfold Pool.step turnsLeft
    cases hw : pool.worker i with
    | claiming =>
      cases hitem : items[pool.next]? <;> simp only [Function.update_of_ne hij] <;>
        cases hj : pool.worker j <;> simp only [le_refl] <;> omega
    | loading index item => simp [Function.update_of_ne hij]
    | pushing index result => simp [Function.update_of_ne hij]
    | stopped => simp

/-- Each turn of a worker uses one up. -/
theorem turnsLeft_run (schedule : List (Fin workers)) (i : Fin workers) :
    ∀ pool : Pool T U E workers, (pool.run items load schedule).turnsLeft items i ≤
      pool.turnsLeft items i - schedule.count i := by
  induction schedule with
  | nil => exact fun pool => le_rfl
  | cons j schedule ih =>
    intro pool
    have hrest := ih (pool.step items load j)
    by_cases hij : i = j
    · subst hij
      have hself : (pool.step items load i).turnsLeft items i ≤ pool.turnsLeft items i - 1 :=
        turnsLeft_step_self i
      rw [List.count_cons_self]
      change (Pool.run items load _ schedule).turnsLeft items i ≤ _
      omega
    · have hle : (pool.step items load j).turnsLeft items i ≤ pool.turnsLeft items i :=
        turnsLeft_step_le j i
      rw [List.count_cons_of_ne (Ne.symm hij)]
      change (Pool.run items load _ schedule).turnsLeft items i ≤ _
      omega

theorem finished_run {schedule : List (Fin workers)}
    (hturns : ∀ i, 3 * items.length + 1 ≤ schedule.count i) :
    (Pool.run items load (.start : Pool T U E workers) schedule).finished = true := by
  simp only [finished, decide_eq_true_eq]
  intro i
  have hleft : (Pool.run items load (.start : Pool T U E workers) schedule).turnsLeft items i ≤
      (.start : Pool T U E workers).turnsLeft items i - schedule.count i :=
    turnsLeft_run schedule i .start
  have hturn := hturns i
  have hstart : (.start : Pool T U E workers).turnsLeft items i = 3 * items.length + 1 := rfl
  rw [hstart] at hleft
  unfold turnsLeft at hleft
  cases hw : (Pool.run items load (.start : Pool T U E workers) schedule).worker i with
  | stopped => rfl
  | claiming =>
    simp only [hw] at hleft
    omega
  | loading index item =>
    simp only [hw] at hleft
    omega
  | pushing index result =>
    simp only [hw] at hleft
    omega

end Pool

/-! The results in order. -/

theorem indexedResults_sorted (items : List T) (load : T → Except E U) :
    (indexedResults items load).Pairwise fun a b => a.1 ≤ b.1 := by
  rw [List.pairwise_iff_getElem]
  intro i j hi hj hij
  simpa [indexedResults] using hij.le

theorem map_snd_indexedResults (items : List T) (load : T → Except E U) :
    (indexedResults items load).map Prod.snd = items.map load := by
  apply List.ext_getElem?
  intro index
  rw [List.getElem?_map, indexedResults_getElem?, List.getElem?_map]
  cases items[index]? <;> rfl

/-- An index has one result. -/
theorem indexedResults_unique {items : List T} {load : T → Except E U} {a b : ℕ × Except E U}
    (ha : a ∈ indexedResults items load) (hb : b ∈ indexedResults items load) (h : a.1 = b.1) :
    a = b := by
  obtain ⟨i, hi, rfl⟩ := List.mem_mapIdx.mp ha
  obtain ⟨j, hj, rfl⟩ := List.mem_mapIdx.mp hb
  obtain rfl : i = j := h
  rfl

theorem sortByKey_completed {items : List T} {load : T → Except E U}
    {completed : List (ℕ × Except E U)} (h : completed.Perm (indexedResults items load)) :
    sortByKey Prod.fst completed = indexedResults items load := by
  have hperm : (sortByKey Prod.fst completed).Perm (indexedResults items load) :=
    (List.perm_insertionSort _ completed).trans h
  refine List.Perm.eq_of_pairwise (fun a b ha hb hab hba => ?_) (sortByKey_sorted _ completed)
    (indexedResults_sorted items load) hperm
  exact indexedResults_unique (hperm.mem_iff.mp ha) hb (le_antisymm hab hba)

theorem collectCompleted_eq (anyhow : String → E) {items : List T} {load : T → Except E U}
    {completed : List (ℕ × Except E U)} (h : completed.Perm (indexedResults items load)) :
    collectCompleted anyhow items completed = items.mapM load := by
  have hlength : completed.length = items.length := by simpa using h.length_eq
  simp only [collectCompleted, hlength, ne_eq, not_true_eq_false, if_false, sortByKey_completed h,
    map_snd_indexedResults, List.mapM_map, Function.comp_def, id_eq]

/-- All results in input order. -/
theorem mapM_eq_ok_iff {load : T → Except E U} (items : List T) : ∀ {us : List U},
    items.mapM load = .ok us ↔ List.Forall₂ (fun item u => load item = .ok u) items us := by
  induction items with
  | nil => simp [pure, Except.pure, eq_comm]
  | cons item items ih =>
    intro us
    simp only [List.mapM_cons, bind_ok, ih, List.forall₂_cons_left_iff, pure, Except.pure,
      Except.ok.injEq]
    constructor
    · rintro ⟨u, hu, rest, hrest, rfl⟩
      exact ⟨u, rest, hu, hrest, rfl⟩
    · rintro ⟨u, rest, hu, hrest, rfl⟩
      exact ⟨u, hu, rest, hrest, rfl⟩

/-- The error of the smallest failing index. -/
theorem mapM_eq_error_iff {load : T → Except E U} {e : E} (items : List T) :
    items.mapM load = .error e ↔ ∃ before item after, items = before ++ item :: after ∧
      load item = .error e ∧ ∀ earlier ∈ before, ∃ u, load earlier = .ok u := by
  induction items with
  | nil => simp [pure, Except.pure]
  | cons first items ih =>
    rw [List.mapM_cons]
    cases hfirst : load first with
    | error e' =>
      simp only [bind, Except.bind, Except.error.injEq]
      constructor
      · rintro rfl
        exact ⟨[], first, items, rfl, hfirst, by simp⟩
      · rintro ⟨before, item, after, hitems, hitem, hbefore⟩
        cases before with
        | nil =>
          obtain ⟨rfl, rfl⟩ : first = item ∧ items = after := by simpa using hitems
          exact Except.error.inj (hfirst.symm.trans hitem)
        | cons earlier before =>
          obtain rfl : first = earlier := by simpa using (List.cons.inj hitems).1
          obtain ⟨u, hu⟩ := hbefore first List.mem_cons_self
          simp [hfirst] at hu
    | ok u =>
      have hrest : (do
          let us ← items.mapM load
          (pure (u :: us) : Except E (List U))) = .error e ↔ items.mapM load = .error e := by
        cases items.mapM load <;> simp [bind, Except.bind, pure, Except.pure]
      refine hrest.trans (ih.trans ?_)
      constructor
      · rintro ⟨before, item, after, rfl, hitem, hbefore⟩
        refine ⟨first :: before, item, after, rfl, hitem, ?_⟩
        simpa using ⟨⟨u, hfirst⟩, hbefore⟩
      · rintro ⟨before, item, after, hitems, hitem, hbefore⟩
        cases before with
        | nil =>
          obtain ⟨rfl, rfl⟩ : first = item ∧ items = after := by simpa using hitems
          simp [hfirst] at hitem
        | cons earlier before =>
          exact ⟨before, item, after, (List.cons.inj hitems).2, hitem,
            fun x hx => hbefore x (List.mem_cons_of_mem _ hx)⟩

theorem parallelMapOrdered_eq {anyhow : String → E} {items : List T} {load : T → Except E U}
    {schedule : List (Fin workers)} {result : Except E (List U)}
    (h : parallelMapOrdered anyhow items workers load schedule = some result) :
    result = items.mapM load := by
  simp only [parallelMapOrdered] at h
  split_ifs at h with hnil hfew hfinished
  · simp [hnil, ← Option.some.inj h, pure, Except.pure]
  · exact (Option.some.inj h).symm
  · rw [← Option.some.inj h]
    exact collectCompleted_eq anyhow
      ((Pool.claimed_start.run schedule).completed hfinished (by omega))

/-- Whatever the schedule, what is returned is what a sequential map returns, and it is returned
once every worker has had its turns. -/
theorem parallel_map_ordered_sequential (anyhow : String → E) (items : List T) (workers : ℕ)
    (load : T → Except E U) (schedule : List (Fin workers)) :
    (∀ result, parallelMapOrdered anyhow items workers load schedule = some result →
      result = items.mapM load) ∧
    ((∀ i, 3 * items.length + 1 ≤ schedule.count i) →
      parallelMapOrdered anyhow items workers load schedule = some (items.mapM load)) ∧
    (∀ us, items.mapM load = .ok us ↔
      List.Forall₂ (fun item u => load item = .ok u) items us) ∧
    ∀ e, items.mapM load = .error e ↔ ∃ before item after, items = before ++ item :: after ∧
      load item = .error e ∧ ∀ earlier ∈ before, ∃ u, load earlier = .ok u := by
  refine ⟨fun result h => parallelMapOrdered_eq h, fun hturns => ?_,
    fun us => mapM_eq_ok_iff items, fun e => mapM_eq_error_iff items⟩
  have hreturns : ∃ result, parallelMapOrdered anyhow items workers load schedule = some result := by
    simp only [parallelMapOrdered]
    split_ifs with hnil hfew hfinished
    · exact ⟨_, rfl⟩
    · exact ⟨_, rfl⟩
    · exact ⟨_, rfl⟩
    · exact absurd (Pool.finished_run hturns) hfinished
  obtain ⟨result, hresult⟩ := hreturns
  rw [hresult, parallelMapOrdered_eq hresult]

namespace TestVectors

/-- The second and the fourth of four items fail. -/
def loadEven (item : ℕ) : Except String ℕ :=
  if item % 2 = 0 then .ok item else .error (if item = 1 then "first ordered failure" else "later")

theorem parallel_error_in_order :
    parallelMapOrdered id [0, 1, 2, 3] 2 loadEven (List.replicate 13 [1, 0]).flatten =
      some (.error "first ordered failure") :=
  (parallel_map_ordered_sequential id [0, 1, 2, 3] 2 loadEven _).2.1 (by decide)

end TestVectors
end Workspace
