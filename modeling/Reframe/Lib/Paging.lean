import Mathlib.Data.List.Infix
import Mathlib.Tactic
import Reframe.Lib.Run

/-! Listings read page by page: each page comes with the token of the next one, and following the
tokens reads the listing once. -/
namespace Paging
open Run (bind_eq_ok)

variable {ρ τ β ε : Type*}

/-- The pages for a list of requests, each at the token that the page before it gave. -/
def follow (fetch : ρ → τ → Except ε (List β × Option τ)) :
    τ → List ρ → Except ε (List (List β × Option τ))
  | _, [] => .ok []
  | token, request :: requests =>
    (fetch request token).bind fun page =>
      match page.2 with
      | none => .ok [page]
      | some next => (follow fetch next requests).bind fun pages => .ok (page :: pages)

/-- The last page has no token. -/
def Ended (pages : List (List β × Option τ)) : Prop :=
  ∃ page, pages.getLast? = some page ∧ page.2 = none

/-- A page at an offset holds the next items; its token, if there is one, stands for the offset
after them, which is further on and not the end. -/
structure PageAt (Points : τ → ℕ → Prop) (items : List β) (offset : ℕ)
    (page : List β × Option τ) : Prop where
  items_eq : page.1 = (items.drop offset).take page.1.length
  ends : page.2 = none → items.length ≤ offset + page.1.length
  continues : ∀ next, page.2 = some next →
    Points next (offset + page.1.length) ∧ page.1 ≠ [] ∧ offset + page.1.length < items.length

variable {fetch : ρ → τ → Except ε (List β × Option τ)}

/-- Following the tokens reads the items from the first offset on, in order and each once; it ends
when there are as many requests as items left. -/
theorem follow_reads (Points : τ → ℕ → Prop) (items : List β)
    (hfetch : ∀ request token offset page, Points token offset → fetch request token = .ok page →
      PageAt Points items offset page) :
    ∀ (requests : List ρ) (token : τ) (offset : ℕ) (pages : List (List β × Option τ)),
      Points token offset → follow fetch token requests = .ok pages →
      (pages.flatMap Prod.fst <+: items.drop offset) ∧
        (Ended pages → pages.flatMap Prod.fst = items.drop offset) ∧
        (items.length ≤ offset + requests.length → requests ≠ [] → Ended pages) := by
  intro requests
  induction requests with
  | nil =>
    intro token offset pages _ h
    cases h
    refine ⟨List.nil_prefix, ?_, fun _ hne => absurd rfl hne⟩
    rintro ⟨_, hlast, -⟩
    cases hlast
  | cons request requests ih =>
    intro token offset pages htoken h
    obtain ⟨page, hpage, h⟩ := bind_eq_ok.mp h
    obtain ⟨heq, hends, hcontinues⟩ := hfetch request token offset page htoken hpage
    obtain ⟨hits, next⟩ := page
    simp only at heq hends hcontinues
    cases next with
    | none =>
      cases h
      have hall : hits = items.drop offset := by
        have hlength := hends rfl
        rw [heq]
        exact List.take_of_length_le (by rw [List.length_drop]; omega)
      have hpages : [(hits, (none : Option τ))].flatMap Prod.fst = items.drop offset := by
        simpa using hall
      exact ⟨hpages ▸ List.prefix_rfl, fun _ => hpages, fun _ _ => ⟨_, rfl, rfl⟩⟩
    | some next =>
      obtain ⟨rest, hrest, hpages⟩ := bind_eq_ok.mp h
      cases hpages
      obtain ⟨hnext, hne, hlt⟩ := hcontinues next rfl
      obtain ⟨hleads, hdone, hreach⟩ := ih next _ rest hnext hrest
      have hsplit : items.drop offset = hits ++ items.drop (offset + hits.length) := by
        rw [← List.drop_drop]
        conv_lhs => rw [← List.take_append_drop hits.length (items.drop offset), ← heq]
      have hpos : 0 < hits.length := List.length_pos_of_ne_nil hne
      rw [List.flatMap_cons, hsplit]
      refine ⟨(List.prefix_append_right_inj hits).mpr hleads, fun hended => ?_, fun hlength _ => ?_⟩
      · rw [hdone]
        obtain ⟨last, hlast, hnone⟩ := hended
        cases rest with
        | nil =>
          cases hlast
          cases hnone
        | cons => exact ⟨last, by rwa [List.getLast?_cons_cons] at hlast, hnone⟩
      · rw [List.length_cons] at hlength
        have hrequests : requests ≠ [] := by
          rintro rfl
          simp only [List.length_nil] at hlength
          omega
        obtain ⟨last, hlast, hnone⟩ := hreach (by omega) hrequests
        cases rest with
        | nil => cases hlast
        | cons => exact ⟨last, by rwa [List.getLast?_cons_cons], hnone⟩

/-- Every page belongs to a request, and has what the page of that request has. -/
theorem follow_forall (P : ρ → List β × Option τ → Prop)
    (hfetch : ∀ request token page, fetch request token = .ok page → P request page) :
    ∀ (requests : List ρ) (token : τ) (pages : List (List β × Option τ)),
      follow fetch token requests = .ok pages →
      pages.length ≤ requests.length ∧ ∀ pair ∈ requests.zip pages, P pair.1 pair.2 := by
  intro requests
  induction requests with
  | nil =>
    intro token pages h
    cases h
    exact ⟨Nat.le_refl _, fun _ h => nomatch h⟩
  | cons request requests ih =>
    intro token pages h
    obtain ⟨page, hpage, h⟩ := bind_eq_ok.mp h
    have hP := hfetch request token page hpage
    obtain ⟨hits, next⟩ := page
    cases next with
    | none =>
      cases h
      refine ⟨by simp, fun pair hpair => ?_⟩
      rw [List.zip_cons_cons, List.zip_nil_right, List.mem_singleton] at hpair
      exact hpair ▸ hP
    | some next =>
      obtain ⟨rest, hrest, hpages⟩ := bind_eq_ok.mp h
      cases hpages
      obtain ⟨hlength, hall⟩ := ih next rest hrest
      rw [List.zip_cons_cons, List.forall_mem_cons, List.length_cons, List.length_cons]
      exact ⟨Nat.succ_le_succ hlength, hP, hall⟩

end Paging
