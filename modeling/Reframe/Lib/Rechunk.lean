import Mathlib.Data.List.Basic
import Mathlib.Tactic

/-! A machine that takes a stream in chunks of one size. Frames of any size go to a buffer, chunks
are taken from it until one of them gives an output, and a step may drop what is buffered. -/
namespace Rechunk

variable {α β ε σ τ : Type}

/-- The whole chunks of a stream, in order. -/
def chunks (size : ℕ) (xs : List α) : List (List α) :=
  (List.range (xs.length / size)).map fun i => (xs.drop (i * size)).take size

theorem chunks_of_lt {size : ℕ} {xs : List α} (h : xs.length < size) : chunks size xs = [] := by
  simp [chunks, Nat.div_eq_of_lt h]

theorem chunks_of_le {size : ℕ} (hpos : 0 < size) {xs : List α} (h : size ≤ xs.length) :
    chunks size xs = xs.take size :: chunks size (xs.drop size) := by
  have hlength : xs.length / size = (xs.drop size).length / size + 1 := by
    rw [List.length_drop, Nat.div_eq_sub_div hpos h]
  simp only [chunks, hlength, List.range_succ_eq_map, List.map_cons, List.map_map, zero_mul,
    List.drop_zero, Function.comp_def, List.drop_drop]
  congr 1
  apply List.map_congr_left
  intro i _
  simp [Nat.add_mul, Nat.add_comm]

theorem length_of_mem_chunks {size : ℕ} {xs chunk : List α} (h : chunk ∈ chunks size xs) :
    chunk.length = size := by
  simp only [chunks, List.mem_map, List.mem_range] at h
  obtain ⟨i, hi, rfl⟩ := h
  have hle : (i + 1) * size ≤ xs.length :=
    (Nat.mul_le_mul_right size hi).trans (Nat.div_mul_le_self _ _)
  rw [Nat.add_mul, one_mul] at hle
  simp only [List.length_take, List.length_drop]
  omega

theorem flatten_chunks {size : ℕ} (hpos : 0 < size) (xs : List α) :
    ∃ rest, rest.length < size ∧ xs = (chunks size xs).flatten ++ rest := by
  induction hn : xs.length using Nat.strong_induction_on generalizing xs with
  | _ n ih =>
    by_cases h : size ≤ xs.length
    · obtain ⟨rest, hrest, heq⟩ := ih (xs.drop size).length (by simp; omega) _ rfl
      refine ⟨rest, hrest, ?_⟩
      rw [chunks_of_le hpos h, List.flatten_cons, List.append_assoc, ← heq, List.take_append_drop]
    · exact ⟨xs, by omega, by simp [chunks_of_lt (by omega : xs.length < size)]⟩

/-! Feeding a list of inputs. -/

section Feed

def feed (take : τ → β → Option ε × τ) : τ → List β → List ε × τ
  | s, [] => ([], s)
  | s, x :: xs => ((take s x).1.toList ++ (feed take (take s x).2 xs).1,
      (feed take (take s x).2 xs).2)

variable {take : τ → β → Option ε × τ}

@[simp] theorem feed_nil (s : τ) : feed take s [] = ([], s) := rfl

theorem feed_append (s : τ) (xs ys : List β) : feed take s (xs ++ ys) =
    ((feed take s xs).1 ++ (feed take (feed take s xs).2 ys).1,
      (feed take (feed take s xs).2 ys).2) := by
  induction xs generalizing s with
  | nil => rfl
  | cons x xs ih => simp [feed, ih]

theorem feed_concat (s : τ) (xs : List β) (x : β) : feed take s (xs ++ [x]) =
    ((feed take s xs).1 ++ (take (feed take s xs).2 x).1.toList,
      (take (feed take s xs).2 x).2) := by
  simp [feed_append, feed]

/-- Feeding a machine that does the same in other states. -/
theorem feed_simulates {other : σ → β → Option ε × σ} {f : σ → τ}
    (h : ∀ s x, take (f s) x = ((other s x).1, f (other s x).2)) (s : σ) (xs : List β) :
    feed take (f s) xs = ((feed other s xs).1, f (feed other s xs).2) := by
  induction xs generalizing s with
  | nil => rfl
  | cons x xs ih => simp [feed, h, ih]

end Feed

/-! The machine. -/

structure Machine (α σ ε : Type) where
  size : ℕ
  size_pos : 0 < size
  step : σ → List α → Option ε × σ
  drops : σ → List α → Bool

namespace Machine

variable (m : Machine α σ ε)

/-- What is buffered behind the first chunk after it has been taken. -/
def rest (s : σ) (buffer : List α) : List α :=
  if m.drops s (buffer.take m.size) then [] else buffer.drop m.size

def loop : ℕ → σ × List α → Option ε × σ × List α
  | 0, s => (none, s)
  | fuel + 1, (s, buffer) =>
    if m.size ≤ buffer.length then
      match m.step s (buffer.take m.size) with
      | (some output, s') => (some output, s', m.rest s buffer)
      | (none, s') => loop fuel (s', m.rest s buffer)
    else (none, s, buffer)

/-- A frame is buffered and chunks are taken until one gives an output. -/
def accept (s : σ × List α) (frame : List α) : Option ε × σ × List α :=
  if frame = [] then (none, s) else m.loop (s.2 ++ frame).length (s.1, s.2 ++ frame)

/-- No step of the loop drops anything: where one drops the buffer, nothing is buffered. -/
def LoopKeeps : ℕ → σ × List α → Prop
  | 0, _ => True
  | fuel + 1, (s, buffer) => m.size ≤ buffer.length →
    (m.drops s (buffer.take m.size) = true → buffer.drop m.size = []) ∧
      ((m.step s (buffer.take m.size)).1 = none →
        LoopKeeps fuel ((m.step s (buffer.take m.size)).2, m.rest s buffer))

def Keeps : σ × List α → List (List α) → Prop
  | _, [] => True
  | s, frame :: frames => (frame ≠ [] → m.LoopKeeps (s.2 ++ frame).length (s.1, s.2 ++ frame)) ∧
      Keeps (m.accept s frame).2 frames

instance decidableLoopKeeps [DecidableEq α] [DecidableEq ε] :
    ∀ (fuel : ℕ) (s : σ × List α), Decidable (m.LoopKeeps fuel s)
  | 0, _ => isTrue trivial
  | fuel + 1, (s, buffer) =>
    have := decidableLoopKeeps fuel ((m.step s (buffer.take m.size)).2, m.rest s buffer)
    inferInstanceAs (Decidable (_ → (_ → _) ∧ (_ → _)))

instance decidableKeeps [DecidableEq α] [DecidableEq ε] :
    ∀ (s : σ × List α) (frames : List (List α)), Decidable (m.Keeps s frames)
  | _, [] => isTrue trivial
  | s, frame :: frames =>
    have := decidableKeeps (m.accept s frame).2 frames
    inferInstanceAs (Decidable ((_ → _) ∧ _))

variable {m}

theorem rest_eq {s : σ} {buffer : List α}
    (h : m.drops s (buffer.take m.size) = true → buffer.drop m.size = []) :
    m.rest s buffer = buffer.drop m.size := by
  rw [rest]
  split_ifs with hdrops
  · exact (h hdrops).symm
  · rfl

/-- The loop ends with an output or with less than a chunk. -/
theorem loop_done (fuel : ℕ) (s : σ × List α) (hfuel : s.2.length ≤ fuel)
    (hnone : (m.loop fuel s).1 = none) : (m.loop fuel s).2.2.length < m.size := by
  induction fuel generalizing s with
  | zero =>
    have := m.size_pos
    simp only [loop]
    omega
  | succ fuel ih =>
    obtain ⟨s, buffer⟩ := s
    rw [loop] at hnone ⊢
    split_ifs at hnone ⊢ with hle
    · have hpos := m.size_pos
      have hrest : (m.rest s buffer).length ≤ fuel := by
        simp only at hfuel
        rw [rest]
        split_ifs
        · simp
        · simp
          omega
      revert hnone
      rcases m.step s (buffer.take m.size) with ⟨_ | output, s'⟩
      · exact fun hnone => ih _ hrest hnone
      · simp
    · simpa using hle

/-- What the loop leaves gives the outputs that are still to come. -/
theorem feed_loop (fuel : ℕ) (s : σ) (buffer more : List α) (h : m.LoopKeeps fuel (s, buffer)) :
    (feed m.step s (chunks m.size (buffer ++ more))).1 =
      (m.loop fuel (s, buffer)).1.toList ++ (feed m.step (m.loop fuel (s, buffer)).2.1
        (chunks m.size ((m.loop fuel (s, buffer)).2.2 ++ more))).1 := by
  induction fuel generalizing s buffer with
  | zero => simp [loop]
  | succ fuel ih =>
    rw [loop]
    split_ifs with hle
    · obtain ⟨hdrops, hnext⟩ := h hle
      rw [rest_eq hdrops] at hnext ⊢
      have hchunks : chunks m.size (buffer ++ more) =
          buffer.take m.size :: chunks m.size (buffer.drop m.size ++ more) := by
        rw [chunks_of_le m.size_pos (by simp; omega), List.take_append_of_le_length hle,
          List.drop_append_of_le_length hle]
      rw [hchunks, feed]
      rcases hstep : m.step s (buffer.take m.size) with ⟨_ | output, s'⟩
      · rw [hstep] at hnext
        simpa using ih s' (buffer.drop m.size) (hnext rfl)
      · simp
    · simp

theorem feed_accept (s : σ × List α) (frame more : List α)
    (h : frame ≠ [] → m.LoopKeeps (s.2 ++ frame).length (s.1, s.2 ++ frame)) :
    (feed m.step s.1 (chunks m.size (s.2 ++ frame ++ more))).1 = (m.accept s frame).1.toList ++
      (feed m.step (m.accept s frame).2.1 (chunks m.size ((m.accept s frame).2.2 ++ more))).1 := by
  rw [accept]
  split_ifs with hframe
  · simp [hframe]
  · exact feed_loop _ s.1 (s.2 ++ frame) more (h hframe)

/-- Where nothing is dropped, the outputs are those of the chunks of the whole stream, but for those
of the chunks that are still buffered. -/
theorem feed_frames (s : σ × List α) (frames : List (List α)) (h : m.Keeps s frames) :
    (feed m.step s.1 (chunks m.size (s.2 ++ frames.flatten))).1 = (feed m.accept s frames).1 ++
      (feed m.step (feed m.accept s frames).2.1
        (chunks m.size (feed m.accept s frames).2.2)).1 := by
  induction frames generalizing s with
  | nil => simp
  | cons frame frames ih =>
    rw [List.flatten_cons, ← List.append_assoc, feed_accept s frame frames.flatten h.1, ih _ h.2,
      feed, List.append_assoc]

/-- A whole chunk is taken at once. -/
theorem accept_chunk (s : σ) {chunk : List α} (h : chunk.length = m.size) :
    m.accept (s, []) chunk = ((m.step s chunk).1, (m.step s chunk).2, []) := by
  have hpos := m.size_pos
  obtain ⟨fuel, hfuel⟩ : ∃ fuel, chunk.length = fuel + 1 := ⟨chunk.length - 1, by omega⟩
  have hne : chunk ≠ [] := List.ne_nil_of_length_pos (by omega)
  have hrest : m.rest s chunk = [] := by
    rw [rest]
    split_ifs
    · rfl
    · simp [h]
  have hloop : ∀ n s, m.loop n (s, []) = (none, s, []) := by
    intro n s
    cases n with
    | zero => rfl
    | succ n => simp [loop, hpos.ne']
  rw [accept, if_neg hne, List.nil_append, hfuel, loop, if_pos h.ge, List.take_of_length_le h.le,
    hrest]
  rcases m.step s chunk with ⟨_ | output, s'⟩
  · exact hloop fuel s'
  · rfl

theorem feed_chunks (s : σ) (cs : List (List α)) (h : ∀ chunk ∈ cs, chunk.length = m.size) :
    feed m.accept (s, []) cs = ((feed m.step s cs).1, (feed m.step s cs).2, []) := by
  induction cs generalizing s with
  | nil => rfl
  | cons chunk cs ih =>
    rw [List.forall_mem_cons] at h
    rw [feed, accept_chunk s h.1, ih _ h.2, feed]

/-- A stream in frames of any size, against the same stream chunk by chunk. -/
theorem feed_reframed (s : σ) (frames : List (List α)) (h : m.Keeps (s, []) frames) :
    (feed m.accept (s, []) (chunks m.size frames.flatten)).1 = (feed m.accept (s, []) frames).1 ++
      (feed m.accept ((feed m.accept (s, []) frames).2.1, [])
        (chunks m.size (feed m.accept (s, []) frames).2.2)).1 := by
  have hsize : ∀ xs : List α, ∀ chunk ∈ chunks m.size xs, chunk.length = m.size :=
    fun _ _ => length_of_mem_chunks
  rw [feed_chunks s _ (hsize _), feed_chunks _ _ (hsize _)]
  simpa using feed_frames (s, []) frames h

end Machine

end Rechunk
