import Mathlib.Order.Basic
import Mathlib.Data.Set.Basic

/-! Revisions of an interface of named and numbered declarations. A revision may add declarations
and may retire some, but it keeps the name and the number of a retired one reserved for ever. -/

/-- Declarations told apart by their names and by their numbers, none of which is reserved. -/
structure NumberedInterface {δ ν κ : Type*} (name : δ → ν) (number : δ → κ) where
  declared : Set δ
  reservedNames : Set ν
  reservedNumbers : Set κ
  unique : ∀ d ∈ declared, ∀ e ∈ declared, name d = name e ∨ number d = number e → d = e
  unreserved : ∀ d ∈ declared, name d ∉ reservedNames ∧ number d ∉ reservedNumbers

namespace NumberedInterface

variable {δ ν κ : Type*} {name : δ → ν} {number : δ → κ}

def Retires (i : NumberedInterface name number) (d : δ) : Prop :=
  name d ∈ i.reservedNames ∧ number d ∈ i.reservedNumbers

/-- What a revision owes to the one before it: nothing is dropped, no reservation is given up, and
a declaration that must be there (`needed`) is not added. -/
structure Revises (needed : δ → Prop) (old new : NumberedInterface name number) : Prop where
  kept : ∀ d ∈ old.declared, d ∈ new.declared ∨ new.Retires d
  names : old.reservedNames ⊆ new.reservedNames
  numbers : old.reservedNumbers ⊆ new.reservedNumbers
  added : ∀ d ∈ new.declared, needed d →
    ∃ e ∈ old.declared, name e = name d ∨ number e = number d

variable {needed : δ → Prop} {i j k : NumberedInterface name number}

theorem Revises.refl (i : NumberedInterface name number) : Revises needed i i :=
  ⟨fun _ hd => .inl hd, subset_rfl, subset_rfl, fun d hd _ => ⟨d, hd, .inl rfl⟩⟩

/-- A retired declaration has nothing in common with a declared one. -/
theorem Retires.apart {d e : δ} (h : i.Retires d) (he : e ∈ i.declared) :
    ¬(name d = name e ∨ number d = number e) := by
  rintro (hname | hnumber)
  · exact (i.unreserved e he).1 (hname ▸ h.1)
  · exact (i.unreserved e he).2 (hnumber ▸ h.2)

/-- A declaration that shares its name or its number with an older one is the older one. -/
theorem Revises.eq_of_shared (h : Revises needed i j) {d e : δ} (hd : d ∈ i.declared)
    (he : e ∈ j.declared) (hshared : name d = name e ∨ number d = number e) : d = e := by
  rcases h.kept d hd with hkept | hretired
  · exact j.unique d hkept e he hshared
  · exact absurd hshared (hretired.apart he)

theorem Revises.trans (hij : Revises needed i j) (hjk : Revises needed j k) :
    Revises needed i k := by
  refine ⟨fun d hd => ?_, hij.names.trans hjk.names, hij.numbers.trans hjk.numbers,
    fun d hd hneeded => ?_⟩
  · rcases hij.kept d hd with hkept | hretired
    · exact hjk.kept d hkept
    · exact .inr ⟨hjk.names hretired.1, hjk.numbers hretired.2⟩
  · obtain ⟨e, he, hshared⟩ := hjk.added d hd hneeded
    obtain rfl := hjk.eq_of_shared he hd hshared
    exact hij.added e he hneeded

end NumberedInterface
