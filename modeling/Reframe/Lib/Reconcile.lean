import Mathlib.Data.List.Basic
import Mathlib.Tactic

/-! Two keyed lists that are reconciled by key alone: requests that each take an element of their
key away, and elements that are left out where as many of their key are there. -/
namespace Reconcile

section Taking

variable {α β κ : Type} [DecidableEq κ] (keyOf : α → κ) (key : β → κ) (own ready : α → β → Bool)

/-- The first element of the request's key that it is ready for is taken, unless one of its own is
met before. -/
def take (a : α) : List β → List β
  | [] => []
  | b :: bs =>
    if key b ≠ keyOf a then b :: take a bs
    else if own a b then b :: bs
    else if ready a b then bs
    else b :: take a bs

def takeAll (as : List α) (bs : List β) : List β :=
  as.foldl (fun bs a => take keyOf key own ready a bs) bs

/-- A request takes such an element where it comes to it. -/
def Takes (a : α) (b : β) : Prop := own a b = false ∧ ready a b = true

/-- The first element that a request could stop at is its own. -/
def Untouched (a : α) (bs : List β) : Prop :=
  ∀ b ∈ bs.find? (fun b => key b = keyOf a ∧ (own a b = true ∨ ready a b = true)), own a b = true

/-- The requests for a key, in their order, and the elements of it go together: each element is one
that its request takes, and the requests that are left take nothing of the other elements. -/
structure Paired (as : List α) (others bs : List β) : Prop where
  enough : ∀ k, (bs.filter (key · = k)).length ≤ (as.filter (keyOf · = k)).length
  takes : ∀ k, ∀ p ∈ (as.filter (keyOf · = k)).zip (bs.filter (key · = k)), Takes own ready p.1 p.2
  untouched : ∀ k, ∀ a ∈ (as.filter (keyOf · = k)).drop (bs.filter (key · = k)).length,
    Untouched keyOf key own ready a others

variable {keyOf key own ready}

theorem take_sublist (a : α) (bs : List β) : (take keyOf key own ready a bs).Sublist bs := by
  induction bs with
  | nil => exact List.Sublist.slnil
  | cons b bs ih =>
    rw [take]
    split_ifs
    · exact ih.cons_cons b
    · exact List.Sublist.refl _
    · exact List.sublist_cons_self b bs
    · exact ih.cons_cons b

theorem takeAll_sublist (as : List α) : ∀ bs : List β,
    (takeAll keyOf key own ready as bs).Sublist bs := by
  induction as with
  | nil => exact fun bs => List.Sublist.refl bs
  | cons a as ih => exact fun bs => (ih _).trans (take_sublist a bs)

/-- Elements of other keys are passed by. -/
theorem take_append_of_key {a : α} {bs : List β} (h : ∀ b ∈ bs, key b ≠ keyOf a) (rest : List β) :
    take keyOf key own ready a (bs ++ rest) = bs ++ take keyOf key own ready a rest := by
  induction bs with
  | nil => rfl
  | cons b bs ih =>
    rw [List.forall_mem_cons] at h
    rw [List.cons_append, take, if_pos h.1, ih h.2, List.cons_append]

/-- So are those that the request is not ready for. -/
theorem take_append_of_not_ready {a : α} {rest : List β}
    (h : ∀ b ∈ rest, own a b = false ∧ ready a b = false) (bs : List β) :
    take keyOf key own ready a (bs ++ rest) = take keyOf key own ready a bs ++ rest := by
  induction bs with
  | nil =>
    show take keyOf key own ready a rest = rest
    induction rest with
    | nil => rfl
    | cons b rest ih =>
      rw [List.forall_mem_cons] at h
      simp [take, h.1.1, h.1.2, ih h.2]
  | cons b bs ih =>
    simp only [List.cons_append, take, ih]
    split_ifs <;> rfl

theorem takeAll_append_of_not_ready {as : List α} {rest : List β}
    (h : ∀ a ∈ as, ∀ b ∈ rest, own a b = false ∧ ready a b = false) : ∀ bs : List β,
    takeAll keyOf key own ready as (bs ++ rest) = takeAll keyOf key own ready as bs ++ rest := by
  induction as with
  | nil => exact fun bs => rfl
  | cons a as ih =>
    intro bs
    rw [List.forall_mem_cons] at h
    have htail := ih h.2 (take keyOf key own ready a bs)
    simp only [takeAll, List.foldl_cons] at htail ⊢
    rw [take_append_of_not_ready h.1, htail]

theorem take_eq_self {a : α} {bs : List β} (h : Untouched keyOf key own ready a bs) :
    take keyOf key own ready a bs = bs := by
  induction bs with
  | nil => rfl
  | cons b bs ih =>
    rw [take]
    split_ifs with hkey hown hready
    · rw [ih]
      rwa [Untouched, List.find?_cons_of_neg (by simp [hkey])] at h
    · rfl
    · have := h b (by rw [List.find?_cons_of_pos (by simp_all)]; rfl)
      exact absurd this hown
    · rw [ih]
      rwa [Untouched, List.find?_cons_of_neg (by simp [hown, hready])] at h

variable [DecidableEq β]

/-- An element that no request takes is not fewer for it. -/
theorem count_take {a : α} {b : β} (h : ¬ (key b = keyOf a ∧ Takes own ready a b)) (bs : List β) :
    (take keyOf key own ready a bs).count b = bs.count b := by
  induction bs with
  | nil => rfl
  | cons c bs ih =>
    rw [take]
    split_ifs with hkey hown hready
    · simp [List.count_cons, ih]
    · rfl
    · have hne : c ≠ b := by
        rintro rfl
        exact h ⟨by simpa using hkey, by simpa using hown, hready⟩
      simp [hne]
    · simp [List.count_cons, ih]

theorem count_takeAll {as : List α} {b : β}
    (h : ∀ a ∈ as, ¬ (key b = keyOf a ∧ Takes own ready a b)) : ∀ bs : List β,
    (takeAll keyOf key own ready as bs).count b = bs.count b := by
  induction as with
  | nil => exact fun bs => rfl
  | cons a as ih =>
    intro bs
    rw [List.forall_mem_cons] at h
    exact (ih h.2 _).trans (count_take h.1 bs)

/-- A request that is not left alone takes one element of its key. -/
theorem exists_count_lt {a : α} {bs : List β} (h : ¬ Untouched keyOf key own ready a bs) :
    ∃ b, key b = keyOf a ∧ (take keyOf key own ready a bs).count b < bs.count b := by
  induction bs with
  | nil => exact absurd (fun b hb => nomatch hb) h
  | cons c bs ih =>
    rw [take]
    split_ifs with hkey hown hready
    · obtain ⟨b, hb, hlt⟩ := ih fun hu => h (by
        rwa [Untouched, List.find?_cons_of_neg (by simp [hkey])])
      exact ⟨b, hb, by simpa [List.count_cons] using hlt⟩
    · refine absurd (fun b hb => ?_) h
      rw [List.find?_cons_of_pos (by simp_all)] at hb
      obtain rfl := Option.some.inj hb
      exact hown
    · exact ⟨c, by simpa using hkey, by simp⟩
    · obtain ⟨b, hb, hlt⟩ := ih fun hu => h (by
        rwa [Untouched, List.find?_cons_of_neg (by simp [hown, hready])])
      exact ⟨b, hb, by simpa [List.count_cons] using hlt⟩

omit [DecidableEq β] in
theorem paired_nil {others bs : List β} : Paired keyOf key own ready [] others bs ↔ bs = [] := by
  constructor
  · intro h
    cases bs with
    | nil => rfl
    | cons b bs =>
      have := h.enough (key b)
      simp at this
  · rintro rfl
    exact ⟨fun _ => by simp, fun _ => by simp, fun _ => by simp⟩

omit [DecidableEq β] in
/-- A request without an element of its key. -/
theorem paired_cons_of_nil {a : α} {as : List α} {others bs : List β}
    (hnil : bs.filter (key · = keyOf a) = []) :
    Paired keyOf key own ready (a :: as) others bs ↔
      Untouched keyOf key own ready a others ∧ Paired keyOf key own ready as others bs := by
  constructor
  · intro h
    refine ⟨h.untouched (keyOf a) a (by simp [hnil]), fun k => ?_, fun k p hp => ?_,
      fun k a' ha' => ?_⟩
    · by_cases hk : keyOf a = k
      · simp [← hk, hnil]
      · simpa [hk] using h.enough k
    · by_cases hk : keyOf a = k
      · simp [← hk, hnil] at hp
      · exact h.takes k p (by simpa [hk] using hp)
    · refine h.untouched k a' ?_
      by_cases hk : keyOf a = k
      · subst hk
        simpa [hnil] using .inr (by simpa [hnil] using ha')
      · simpa [hk] using ha'
  · rintro ⟨ha, h⟩
    refine ⟨fun k => ?_, fun k p hp => ?_, fun k a' ha' => ?_⟩
    · by_cases hk : keyOf a = k
      · simp [← hk, hnil]
      · simpa [hk] using h.enough k
    · by_cases hk : keyOf a = k
      · simp [← hk, hnil] at hp
      · exact h.takes k p (by simpa [hk] using hp)
    · by_cases hk : keyOf a = k
      · subst hk
        simp only [hnil, decide_true, List.filter_cons_of_pos, List.length_nil, List.drop_zero,
          List.mem_cons] at ha'
        rcases ha' with rfl | ha'
        · exact ha
        · exact h.untouched (keyOf a) a' (by simpa [hnil] using ha')
      · exact h.untouched k a' (by simpa [hk] using ha')

omit [DecidableEq β] in
/-- A request and the first element of its key. -/
theorem paired_cons_of_cons {a : α} {as : List α} {b : β} {others bs : List β} (rest : List β)
    (hcons : bs.filter (key · = keyOf a) = b :: rest.filter (key · = keyOf a))
    (hrest : ∀ k, keyOf a ≠ k → bs.filter (key · = k) = rest.filter (key · = k)) :
    Paired keyOf key own ready (a :: as) others bs ↔
      Takes own ready a b ∧ Paired keyOf key own ready as others rest := by
  constructor
  · intro h
    refine ⟨h.takes (keyOf a) (a, b) (by simp [hcons]), fun k => ?_, fun k p hp => ?_,
      fun k a' ha' => ?_⟩
    · have henough := h.enough k
      by_cases hk : keyOf a = k
      · subst hk
        simpa [hcons] using henough
      · simpa [hk, hrest k hk] using henough
    · refine h.takes k p ?_
      by_cases hk : keyOf a = k
      · subst hk
        simpa [hcons] using .inr hp
      · simpa [hk, hrest k hk] using hp
    · refine h.untouched k a' ?_
      by_cases hk : keyOf a = k
      · subst hk
        simpa [hcons] using ha'
      · simpa [hk, hrest k hk] using ha'
  · rintro ⟨hab, h⟩
    refine ⟨fun k => ?_, fun k p hp => ?_, fun k a' ha' => ?_⟩
    · have henough := h.enough k
      by_cases hk : keyOf a = k
      · subst hk
        simpa [hcons] using henough
      · simpa [hk, hrest k hk] using henough
    · by_cases hk : keyOf a = k
      · subst hk
        simp only [hcons, decide_true, List.filter_cons_of_pos, List.zip_cons_cons,
          List.mem_cons] at hp
        rcases hp with rfl | hp
        · exact hab
        · exact h.takes _ p hp
      · exact h.takes k p (by simpa [hk, hrest k hk] using hp)
    · refine h.untouched k a' ?_
      by_cases hk : keyOf a = k
      · subst hk
        simpa [hcons] using ha'
      · simpa [hk, hrest k hk] using ha'

/-- The other elements alone are left exactly where the requests and the elements before them are
paired, if what one request does not take no later one takes. -/
theorem takeAll_eq_iff {as : List α} (others : List β)
    (hlater : as.Pairwise fun a a' => ∀ b, key b = keyOf a → keyOf a' = keyOf a →
      ¬ Takes own ready a b → ¬ Takes own ready a' b) : ∀ bs : List β,
    takeAll keyOf key own ready as (bs ++ others) = others ↔
      Paired keyOf key own ready as others bs := by
  induction as with
  | nil =>
    intro bs
    rw [paired_nil]
    simp [takeAll]
  | cons a as ih =>
    intro bs
    rw [List.pairwise_cons] at hlater
    cases hfilter : bs.filter (key · = keyOf a) with
    | nil =>
      have hkey : ∀ b ∈ bs, key b ≠ keyOf a := by simpa using hfilter
      rw [paired_cons_of_nil hfilter, takeAll, List.foldl_cons, take_append_of_key hkey]
      by_cases hu : Untouched keyOf key own ready a others
      · rw [take_eq_self hu, and_iff_right hu]
        exact ih hlater.2 bs
      · refine iff_of_false (fun h => ?_) fun h => hu h.1
        -- an element of its key is missing, and those before the others are of other keys
        obtain ⟨b, hb, hlt⟩ := exists_count_lt hu
        have hle : (takeAll keyOf key own ready as
            (bs ++ take keyOf key own ready a others)).count b ≤
              (bs ++ take keyOf key own ready a others).count b :=
          (takeAll_sublist as _).count_le b
        have hzero : bs.count b = 0 := List.count_eq_zero.mpr fun hmem => hkey b hmem hb
        rw [takeAll, h, List.count_append, hzero] at hle
        omega
    | cons b rest =>
      obtain ⟨before, after, rfl, hbefore, hb, rfl⟩ := List.filter_eq_cons_iff.mp hfilter
      have hkey : ∀ c ∈ before, key c ≠ keyOf a := by simpa using hbefore
      have hkeyb : key b = keyOf a := by simpa using hb
      have hnone : before.filter (key · = keyOf a) = [] := by simpa using hbefore
      have hrest : (before ++ b :: after).filter (key · = keyOf a) =
          b :: (before ++ after).filter (key · = keyOf a) := by
        rw [hfilter, List.filter_append, hnone, List.nil_append]
      rw [paired_cons_of_cons (before ++ after) hrest fun k hk => by simp [hkeyb, hk]]
      rw [takeAll, List.foldl_cons, List.append_assoc, take_append_of_key hkey, List.cons_append]
      by_cases ht : Takes own ready a b
      · rw [take, if_neg (not_not.mpr hkeyb), if_neg (by simp [ht.1]), if_pos ht.2,
          ← List.append_assoc, and_iff_right ht]
        exact ih hlater.2 (before ++ after)
      · refine iff_of_false (fun h => ?_) fun h => ht h.1
        -- it stays to the end, beside any other like it
        have hstay : ∀ a' ∈ a :: as, ¬ (key b = keyOf a' ∧ Takes own ready a' b) := by
          intro a' ha' htakes
          rcases List.mem_cons.mp ha' with rfl | ha'
          · exact ht htakes.2
          · exact hlater.1 a' ha' b hkeyb (htakes.1.symm.trans hkeyb) ht htakes.2
        have hcount := count_takeAll hstay (before ++ b :: (after ++ others))
        rw [takeAll, List.foldl_cons, take_append_of_key hkey, h] at hcount
        simp only [List.count_append, List.count_cons_self] at hcount
        omega

end Taking

section Counting

variable {α κ : Type} [DecidableEq κ] (keyOf : α → κ)

/-- What is left when as many of each key are met first as are counted. -/
def unmatched (counts : κ → ℕ) : List α → List α
  | [] => []
  | a :: as =>
    if 0 < counts (keyOf a) then
      unmatched (Function.update counts (keyOf a) (counts (keyOf a) - 1)) as
    else a :: unmatched counts as

variable {keyOf}

theorem unmatched_sublist (as : List α) : ∀ counts : κ → ℕ,
    (unmatched keyOf counts as).Sublist as := by
  induction as with
  | nil => exact fun _ => List.Sublist.slnil
  | cons a as ih =>
    intro counts
    rw [unmatched]
    split_ifs
    · exact (ih _).cons a
    · exact (ih _).cons_cons a

theorem unmatched_append (as bs : List α) : ∀ counts : κ → ℕ,
    unmatched keyOf counts (as ++ bs) = unmatched keyOf counts as ++
      unmatched keyOf (fun k => counts k - (as.map keyOf).count k) bs := by
  induction as with
  | nil => exact fun counts => by simp [unmatched]
  | cons a as ih =>
    intro counts
    have hrest : (fun k => Function.update counts (keyOf a) (counts (keyOf a) - 1) k -
        (as.map keyOf).count k) = fun k => counts k - ((a :: as).map keyOf).count k := by
      funext k
      by_cases hk : k = keyOf a
      · subst hk
        simp
        omega
      · simp [Function.update_of_ne hk, Ne.symm hk]
    rw [List.cons_append, unmatched, unmatched]
    split_ifs with h
    · rw [ih, hrest]
    · have hzero : counts (keyOf a) = 0 := by omega
      have hsame : (fun k => counts k - (as.map keyOf).count k) =
          fun k => counts k - ((a :: as).map keyOf).count k := by
        funext k
        by_cases hk : k = keyOf a
        · simp [hk, hzero]
        · simp [Ne.symm hk]
      rw [ih, hsame, List.cons_append]

theorem unmatched_eq_nil_iff (as : List α) : ∀ counts : κ → ℕ,
    unmatched keyOf counts as = [] ↔ ∀ k, (as.map keyOf).count k ≤ counts k := by
  induction as with
  | nil => simp [unmatched]
  | cons a as ih =>
    intro counts
    rw [unmatched]
    split_ifs with h
    · rw [ih]
      refine forall_congr' fun k => ?_
      by_cases hk : k = keyOf a
      · subst hk
        simp only [Function.update_self, List.map_cons, List.count_cons_self]
        omega
      · simp [Function.update_of_ne hk, Ne.symm hk]
    · refine iff_of_false id fun hle => ?_
      have := hle (keyOf a)
      simp only [List.map_cons, List.count_cons_self] at this
      omega

theorem unmatched_eq_self_iff (as : List α) (counts : κ → ℕ) :
    unmatched keyOf counts as = as ↔ ∀ a ∈ as, counts (keyOf a) = 0 := by
  induction as with
  | nil => simp [unmatched]
  | cons a as ih =>
    rw [unmatched, List.forall_mem_cons]
    split_ifs with h
    · refine iff_of_false (fun heq => ?_) fun hzero => by omega
      have hle : (unmatched keyOf (Function.update counts (keyOf a) (counts (keyOf a) - 1))
          as).length ≤ as.length := (unmatched_sublist as _).length_le
      rw [heq, List.length_cons] at hle
      omega
    · rw [List.cons_inj_right, ih]
      exact (and_iff_right (by omega)).symm

/-- The second part is left exactly where the first is counted in full and nothing else is. -/
theorem unmatched_eq_right_iff {as bs : List α} (hdisjoint : ∀ a ∈ as, a ∉ bs) (counts : κ → ℕ) :
    unmatched keyOf counts (as ++ bs) = bs ↔
      (∀ k, (as.map keyOf).count k ≤ counts k) ∧
        ∀ b ∈ bs, counts (keyOf b) ≤ (as.map keyOf).count (keyOf b) := by
  rw [unmatched_append, ← unmatched_eq_nil_iff]
  have hself : unmatched keyOf (fun k => counts k - (as.map keyOf).count k) bs = bs ↔
      ∀ b ∈ bs, counts (keyOf b) ≤ (as.map keyOf).count (keyOf b) := by
    rw [unmatched_eq_self_iff]
    simp only [Nat.sub_eq_zero_iff_le]
  rw [← hself]
  constructor
  · intro h
    have hnil : unmatched keyOf counts as = [] := by
      rw [List.eq_nil_iff_forall_not_mem]
      intro a ha
      exact hdisjoint a ((unmatched_sublist as counts).subset ha)
        (h ▸ List.mem_append_left _ ha)
    rw [hnil, List.nil_append] at h
    exact ⟨hnil, h⟩
  · rintro ⟨hnil, h⟩
    rw [hnil, List.nil_append, h]

end Counting

end Reconcile
