import Mathlib.Data.List.Nodup
import Mathlib.Data.List.GetD
import Mathlib.Order.Defs.LinearOrder
import Mathlib.Tactic

/-! A listing read in pages, each one started after the last entry of the page before it. The order
in which the entries are listed may differ from the order in which they are compared with the
marker. -/
namespace MarkerPaging

variable {α : Type*} [LinearOrder α]

def afterMarker (marker : Option α) (entry : α) : Bool :=
  match marker with
  | none => true
  | some marker => decide (marker < entry)

/-- The entries of the pages from a marker on, and whether the last page holds all that is left. -/
def pages (entries : List α) (capacity : ℕ → ℕ) : ℕ → Option α → List α × Bool
  | 0, _ => ([], false)
  | count + 1, marker =>
    let rest := entries.filter (afterMarker marker)
    if rest.length ≤ capacity 0 then (rest, true)
    else
      let page := rest.take (capacity 0)
      let more := pages entries (fun i => capacity (i + 1)) count (page.getLast?.or marker)
      (page ++ more.1, more.2)

/-- How many entries fit the first pages. -/
def boundary (capacity : ℕ → ℕ) : ℕ → ℕ
  | 0 => 0
  | i + 1 => capacity 0 + boundary (fun i => capacity (i + 1)) i

/-- What is listed up to an offset is up to the marker, and what is listed later is after it. -/
def Splits (entries : List α) (offset : ℕ) : Prop :=
  ∀ marker ∈ (entries.take offset).getLast?,
    (∀ x ∈ entries.take offset, x ≤ marker) ∧ ∀ y ∈ entries.drop offset, marker < y

theorem splits_zero (entries : List α) : Splits entries 0 := by
  intro marker h
  rw [List.take_zero] at h
  cases h

theorem le_boundary (capacity : ℕ → ℕ) (i : ℕ) : capacity 0 ≤ boundary capacity (i + 1) :=
  Nat.le_add_right _ _

variable {entries : List α}

/-- After the marker of an offset that splits the listing comes the rest of it. -/
theorem filter_of_splits {offset : ℕ} (h : Splits entries offset) :
    entries.filter (afterMarker (entries.take offset).getLast?) = entries.drop offset := by
  cases hlast : (entries.take offset).getLast? with
  | none =>
    have hnil := List.getLast?_eq_none_iff.mp hlast
    have hall : entries = entries.drop offset := by
      conv_lhs => rw [← List.take_append_drop offset entries, hnil, List.nil_append]
    rw [← hall]
    exact List.filter_eq_self.mpr fun _ _ => rfl
  | some marker =>
    obtain ⟨hbefore, hafter⟩ := h marker hlast
    conv_lhs => rw [← List.take_append_drop offset entries]
    rw [List.filter_append]
    have hnone : (entries.take offset).filter (afterMarker (some marker)) = [] := by
      refine List.filter_eq_nil_iff.mpr fun x hx => ?_
      simpa [afterMarker] using hbefore x hx
    have hall : (entries.drop offset).filter (afterMarker (some marker)) = entries.drop offset := by
      refine List.filter_eq_self.mpr fun y hy => ?_
      simpa [afterMarker] using hafter y hy
    rw [hnone, hall, List.nil_append]

omit [LinearOrder α] in
/-- The marker after one more page. -/
theorem getLast?_page {offset size : ℕ} (hpos : 0 < size)
    (hmore : size < (entries.drop offset).length) (marker : Option α) :
    (((entries.drop offset).take size).getLast?).or marker =
      (entries.take (offset + size)).getLast? := by
  have hne : (entries.drop offset).take size ≠ [] := by
    rw [ne_eq, List.take_eq_nil_iff, not_or]
    refine ⟨hpos.ne', fun hnil => ?_⟩
    rw [hnil] at hmore
    exact absurd hmore (Nat.not_lt_zero _)
  rw [List.take_add, List.getLast?_append, List.getLast?_eq_some_getLast hne]
  rfl

/-- When every page ends where the listing splits, the pages read the rest of it. -/
theorem pages_of_splits (left : ℕ) :
    ∀ (capacity : ℕ → ℕ) (offset : ℕ), (∀ i, 0 < capacity i) → entries.length - offset ≤ left →
      (∀ i, offset + boundary capacity i < entries.length →
        Splits entries (offset + boundary capacity i)) → Splits entries offset →
      ∃ count, pages entries capacity count (entries.take offset).getLast? =
        (entries.drop offset, true) := by
  induction left with
  | zero =>
    intro capacity offset hpos hleft hsplits hoffset
    refine ⟨1, ?_⟩
    have hlength : (entries.drop offset).length ≤ capacity 0 := by
      rw [List.length_drop]
      omega
    rw [pages, filter_of_splits hoffset, if_pos hlength]
  | succ left ih =>
    intro capacity offset hpos hleft hsplits hoffset
    by_cases hlength : (entries.drop offset).length ≤ capacity 0
    · refine ⟨1, ?_⟩
      rw [pages, filter_of_splits hoffset, if_pos hlength]
    · have hmore := not_le.mp hlength
      rw [List.length_drop] at hmore
      have hnext : Splits entries (offset + capacity 0) := hsplits 1 (by simp [boundary]; omega)
      have hrest : ∀ i, offset + capacity 0 + boundary (fun i => capacity (i + 1)) i <
          entries.length →
            Splits entries (offset + capacity 0 + boundary (fun i => capacity (i + 1)) i) := by
        intro i hi
        rw [Nat.add_assoc] at hi ⊢
        exact hsplits (i + 1) hi
      have hshorter : entries.length - (offset + capacity 0) ≤ left := by
        have := hpos 0
        omega
      obtain ⟨count, hcount⟩ := ih (fun i => capacity (i + 1)) (offset + capacity 0)
        (fun i => hpos (i + 1)) hshorter hrest hnext
      refine ⟨count + 1, ?_⟩
      rw [pages, filter_of_splits hoffset, if_neg hlength]
      dsimp only
      rw [getLast?_page (hpos 0) (not_le.mp hlength), hcount, ← List.drop_drop,
        List.take_append_drop]

theorem mem_of_mem_pages (count : ℕ) :
    ∀ {capacity : ℕ → ℕ} {marker : Option α} {x : α},
      x ∈ (pages entries capacity count marker).1 → x ∈ entries := by
  induction count with
  | zero =>
    intro capacity marker x hx
    cases hx
  | succ count ih =>
    intro capacity marker x hx
    rw [pages] at hx
    split_ifs at hx with hlength
    · exact List.mem_of_mem_filter hx
    · rcases List.mem_append.mp hx with hx | hx
      · exact List.mem_of_mem_filter (List.mem_of_mem_take hx)
      · exact ih hx

/-- What is read from a marker on comes after it. -/
theorem lt_of_mem_pages (count : ℕ) :
    ∀ {capacity : ℕ → ℕ} {marker x : α}, (∀ i, 0 < capacity i) →
      x ∈ (pages entries capacity count (some marker)).1 → marker < x := by
  induction count with
  | zero =>
    intro capacity marker x _ hx
    cases hx
  | succ count ih =>
    intro capacity marker x hpos hx
    rw [pages] at hx
    split_ifs at hx with hlength
    · simpa [afterMarker] using (List.mem_filter.mp hx).2
    · have hpage : ∀ y ∈ (entries.filter (afterMarker (some marker))).take (capacity 0),
          marker < y := by
        intro y hy
        simpa [afterMarker] using (List.mem_filter.mp (List.mem_of_mem_take hy)).2
      rcases List.mem_append.mp hx with hx | hx
      · exact hpage x hx
      · have hne : (entries.filter (afterMarker (some marker))).take (capacity 0) ≠ [] := by
          rw [ne_eq, List.take_eq_nil_iff, not_or]
          refine ⟨(hpos 0).ne', fun hnil => hlength ?_⟩
          rw [hnil]
          exact Nat.zero_le _
        rw [List.getLast?_eq_some_getLast hne] at hx
        exact (hpage _ (List.getLast_mem hne)).trans (ih (fun i => hpos (i + 1)) hx)

/-- After a page that does not end where the listing splits, an entry is read again or is missed. -/
theorem splits_of_perm (hnodup : entries.Nodup) {capacity : ℕ → ℕ} {offset count : ℕ}
    (hpos : ∀ i, 0 < capacity i) {more : List α}
    (hpages : pages entries capacity count (entries.take offset).getLast? = (more, true))
    (hperm : (entries.take offset ++ more).Perm entries) : Splits entries offset := by
  intro marker hmarker
  rw [Option.mem_def] at hmarker
  rw [hmarker] at hpages
  have hapart : ∀ x ∈ entries.take offset, x ∉ more := by
    intro x hx hmore
    exact (List.nodup_append.mp (hperm.nodup_iff.mpr hnodup)).2.2 x hx x hmore rfl
  constructor
  · intro x hx
    by_contra hlt
    -- the first entry after the marker has been read before
    have hmem : x ∈ (entries.take offset).filter (afterMarker (some marker)) :=
      List.mem_filter.mpr ⟨hx, by simpa [afterMarker] using not_le.mp hlt⟩
    obtain ⟨first, rest, hfirst⟩ := List.exists_cons_of_ne_nil (List.ne_nil_of_mem hmem)
    have hfilter : entries.filter (afterMarker (some marker)) =
        first :: (rest ++ (entries.drop offset).filter (afterMarker (some marker))) := by
      conv_lhs => rw [← List.take_append_drop offset entries, List.filter_append, hfirst]
      rfl
    have hread : first ∈ more := by
      cases count with
      | zero => cases hpages
      | succ count =>
        rw [pages, hfilter] at hpages
        obtain ⟨size, hsize⟩ := Nat.exists_eq_succ_of_ne_zero (hpos 0).ne'
        split_ifs at hpages
        · rw [← (Prod.mk.inj hpages).1]
          exact List.mem_cons_self
        · rw [← (Prod.mk.inj hpages).1, hsize, List.take_succ_cons]
          exact List.mem_cons_self
    have hold : first ∈ entries.take offset :=
      List.mem_of_mem_filter (hfirst ▸ List.mem_cons_self)
    exact hapart first hold hread
  · intro y hy
    by_contra hle
    -- an entry before the marker is never read
    have hmem := hperm.mem_iff.mpr (List.mem_of_mem_drop hy)
    rcases List.mem_append.mp hmem with hold | hread
    · rw [← List.take_append_drop offset entries] at hnodup
      exact (List.nodup_append.mp hnodup).2.2 y hold y hy rfl
    · have hread' : y ∈ (pages entries capacity count (some marker)).1 := by rwa [hpages]
      exact hle (lt_of_mem_pages count hpos hread')

theorem boundaries_split (hnodup : entries.Nodup) (count : ℕ) :
    ∀ (capacity : ℕ → ℕ) (offset : ℕ) (more : List α), (∀ i, 0 < capacity i) →
      pages entries capacity count (entries.take offset).getLast? = (more, true) →
      (entries.take offset ++ more).Perm entries →
      ∀ i, offset + boundary capacity i < entries.length →
        Splits entries (offset + boundary capacity i) := by
  induction count with
  | zero =>
    intro capacity offset more _ hpages
    cases hpages
  | succ count ih =>
    intro capacity offset more hpos hpages hperm i hi
    have hoffset := splits_of_perm hnodup hpos hpages hperm
    cases i with
    | zero => exact hoffset
    | succ i =>
      rw [pages, filter_of_splits hoffset] at hpages
      split_ifs at hpages with hlength
      · rw [List.length_drop] at hlength
        have := le_boundary capacity i
        omega
      · dsimp only at hpages
        rw [getLast?_page (hpos 0) (not_le.mp hlength)] at hpages
        obtain ⟨hmore, hended⟩ := Prod.mk.inj hpages
        have hperm' : (entries.take (offset + capacity 0) ++
            (pages entries (fun i => capacity (i + 1)) count
              (entries.take (offset + capacity 0)).getLast?).1).Perm entries := by
          rw [← hmore, ← List.append_assoc, ← List.take_add] at hperm
          exact hperm
        have hnext := ih _ _ _ (fun i => hpos (i + 1)) (Prod.ext rfl hended) hperm' i
        rw [boundary, ← Nat.add_assoc] at hi ⊢
        exact hnext hi

/-- The pages read every entry once and come to an end exactly when each of them ends where the
listing splits. -/
theorem pages_perm_iff (hnodup : entries.Nodup) {capacity : ℕ → ℕ} (hpos : ∀ i, 0 < capacity i) :
    (∃ count read, pages entries capacity count none = (read, true) ∧ read.Perm entries) ↔
      ∀ i, boundary capacity i < entries.length → Splits entries (boundary capacity i) := by
  have hstart : (entries.take 0).getLast? = none := by
    rw [List.take_zero]
    rfl
  constructor
  · rintro ⟨count, read, hpages, hperm⟩ i hi
    have h := boundaries_split hnodup count capacity 0 read hpos (hstart ▸ hpages)
      (by rwa [List.take_zero, List.nil_append]) i
    rw [Nat.zero_add] at h
    exact h hi
  · intro hsplits
    obtain ⟨count, hcount⟩ := pages_of_splits entries.length capacity 0 hpos (Nat.sub_le _ _)
      (fun i hi => by
        rw [Nat.zero_add] at hi ⊢
        exact hsplits i hi) (splits_zero entries)
    exact ⟨count, entries, hstart ▸ hcount, List.Perm.refl _⟩

/-- In a sorted listing every page ends well. -/
theorem splits_of_sorted (hsorted : entries.Pairwise (· < ·)) (offset : ℕ) :
    Splits entries offset := by
  intro marker hmarker
  rw [← List.take_append_drop offset entries, List.pairwise_append] at hsorted
  obtain ⟨htake, -, hacross⟩ := hsorted
  obtain ⟨before, hbefore⟩ := List.getLast?_eq_some_iff.mp hmarker
  constructor
  · intro x hx
    rw [hbefore] at hx htake
    rcases List.mem_append.mp hx with hx | hx
    · exact ((List.pairwise_append.mp htake).2.2 x hx marker List.mem_cons_self).le
    · rw [List.mem_singleton.mp hx]
  · intro y hy
    exact hacross marker (List.mem_of_getLast? hmarker) y hy

/-- A page that ends among the leading entries ends well when they all come before the rest. -/
theorem splits_lead_iff {lead rest : List α} {marker : α} {offset : ℕ}
    (hlead : lead.Pairwise (· < ·)) (hmarker : (lead.take offset).getLast? = some marker)
    (hoffset : offset ≤ lead.length) :
    Splits (lead ++ rest) offset ↔ ∀ y ∈ rest, marker < y := by
  have hsplits := splits_of_sorted hlead offset marker hmarker
  rw [Splits, List.take_append_of_le_length hoffset, List.drop_append_of_le_length hoffset, hmarker]
  constructor
  · intro h y hy
    exact (h marker rfl).2 y (List.mem_append_right _ hy)
  · rintro h _ ⟨⟩
    refine ⟨hsplits.1, fun y hy => ?_⟩
    rcases List.mem_append.mp hy with hy | hy
    · exact hsplits.2 y hy
    · exact h y hy

/-- A page that ends among sorted entries ends well when the leading ones come before its last. -/
theorem splits_rest_iff {lead rest : List α} {n : ℕ} (hrest : rest.Pairwise (· < ·))
    (hn : n < rest.length) :
    Splits (lead ++ rest) (lead.length + (n + 1)) ↔ ∀ x ∈ lead, x ≤ rest[n] := by
  have hlast : (rest.take (n + 1)).getLast? = some rest[n] := by
    rw [List.take_succ_eq_append_getElem hn, List.getLast?_append]
    rfl
  have hsplits := splits_of_sorted hrest (n + 1) _ hlast
  rw [Splits, List.take_length_add_append, List.drop_length_add_append, List.getLast?_append, hlast]
  constructor
  · intro h x hx
    exact (h _ rfl).1 x (List.mem_append_left _ hx)
  · rintro h _ ⟨⟩
    refine ⟨fun x hx => ?_, hsplits.2⟩
    rcases List.mem_append.mp hx with hx | hx
    · exact h x hx
    · exact hsplits.1 x hx

end MarkerPaging
