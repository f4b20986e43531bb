import Cuore.Logbuf

/-!
# What `logbuf_write` stores

`logbuf_write` copies a string in two chunks, one from `write_pos` to the end of the buffer and the
rest to its beginning.  The second chunk is not cut again, so a string that needs a third turn is
written past the end of `logbuf_buffer`: the branch for `len >= LOGBUF_SIZE` comes after the copies
and moves the positions only.

`storesInside_iff` says how long a string may be, and `logbuf_write_inside_iff` that a sequence of
calls stores inside the buffer exactly when none of its strings is longer.
-/

namespace Cuore

namespace Logbuf

/-- The chunks that `logbuf_write` copies: where to, and how many characters. -/
def chunks (b : Logbuf) (str : List UInt8) : List (ℕ × ℕ) :=
  let len := str.length
  let spaceUntilEnd := logbufSize - b.writePos
  let firstChunk := if len < spaceUntilEnd then len else spaceUntilEnd
  let secondChunk := len - firstChunk
  if secondChunk > 0 then [(b.writePos, firstChunk), (0, secondChunk)]
  else [(b.writePos, firstChunk)]

/-- The indices of the bytes that `logbuf_write` stores. -/
def stores (b : Logbuf) (str : List UInt8) : Set ℕ :=
  {i | ∃ c ∈ b.chunks str, c.1 ≤ i ∧ i < c.1 + c.2}

/-- The bytes are stored in the buffer, and the positions are in it afterwards. -/
structure StoresInside (b : Logbuf) (str : List UInt8) : Prop where
  stores_lt : ∀ i ∈ b.stores str, i < logbufSize
  inRange : (b.write str).InRange

section Stores

variable {b : Logbuf} {s : List UInt8} {i : ℕ}

/-- A string that ends before the end of the buffer is one chunk. -/
lemma chunks_of_lt (h : s.length < logbufSize - b.writePos) :
    b.chunks s = [(b.writePos, s.length)] := by
  rw [chunks, if_pos h, Nat.sub_self, if_neg (lt_irrefl 0)]

/-- The indices behind `write_pos`, and those of the second chunk. -/
lemma mem_stores_of_le (h : logbufSize - b.writePos ≤ s.length) : i ∈ b.stores s ↔
    (b.writePos ≤ i ∧ i < b.writePos + (logbufSize - b.writePos)) ∨
      i < s.length - (logbufSize - b.writePos) := by
  simp only [stores, chunks, if_neg (not_lt.mpr h), Set.mem_ofPred]
  split_ifs with hsecond
  · simp
  · simp only [List.mem_singleton, exists_eq_left]
    omega

/-- **Nothing else is written**: where `logbuf_write` stores nothing, the buffer stays as it is. -/
lemma write_of_not_mem_stores (hi : i ∉ b.stores s) : (b.write s).buffer i = b.buffer i := by
  have hout : ∀ {buf : ℕ → UInt8} {pos n : ℕ} {t : List UInt8}, (pos, n) ∈ b.chunks s →
      t.length ≤ n → overwrite buf pos t i = buf i := by
    intro buf pos n t hmem ht
    have hnot : ¬ (pos ≤ i ∧ i < pos + n) := fun hin => hi ⟨(pos, n), hmem, hin⟩
    exact overwrite_of_outside (by omega)
  have hchunks : b.chunks s =
      let firstChunk := if s.length < logbufSize - b.writePos then s.length
        else logbufSize - b.writePos
      if s.length - firstChunk > 0 then [(b.writePos, firstChunk), (0, s.length - firstChunk)]
      else [(b.writePos, firstChunk)] := rfl
  rw [buffer_write_eq]
  dsimp only at hchunks ⊢
  generalize (if s.length < logbufSize - b.writePos then s.length
    else logbufSize - b.writePos) = firstChunk at hchunks ⊢
  split_ifs at hchunks ⊢ with hsecond
  · rw [hout (n := s.length - firstChunk) (by rw [hchunks]; simp) (by rw [List.length_drop]),
      hout (n := firstChunk) (by rw [hchunks]; simp) (List.length_take_le _ _)]
  · exact hout (n := firstChunk) (by rw [hchunks]; simp) (List.length_take_le _ _)

/-- **How long a string may be**: both turns of the ring, from `write_pos` on. -/
lemma storesInside_iff (h : b.InRange) :
    b.StoresInside s ↔ b.writePos + s.length ≤ 2 * logbufSize := by
  have hw := h.write_lt
  constructor
  · rintro ⟨hlt, -⟩
    by_contra hlong
    have hlast := hlt logbufSize ((mem_stores_of_le (by omega)).mpr (.inr (by omega)))
    exact absurd hlast (lt_irrefl _)
  · intro hlen
    refine ⟨fun i hi => ?_, h.write s⟩
    by_cases hfit : s.length < logbufSize - b.writePos
    · obtain ⟨c, hc, -, hlt⟩ := hi
      rw [chunks_of_lt hfit, List.mem_singleton] at hc
      subst hc
      exact hlt.trans_le (by dsimp only; omega)
    · rcases (mem_stores_of_le (not_lt.mp hfit)).mp hi with ⟨-, hlt⟩ | hlt <;> omega

end Stores

end Logbuf

/-- **`logbuf_write` stays in the ring** throughout a sequence of calls, with the positions,
exactly when no string is longer than what is left of two turns behind `write_pos`.  In any case
nothing but the bytes at the indices `stores` changes. -/
theorem logbuf_write_inside_iff (ops : List LogOp) :
    ((∀ p s q, ops = p ++ LogOp.write s :: q → (logRun p).StoresInside s) ↔
      ∀ p s q, ops = p ++ LogOp.write s :: q →
        (logRun p).writePos + s.length ≤ 2 * logbufSize) ∧
    ∀ p s q, ops = p ++ LogOp.write s :: q → ∀ i ∉ (logRun p).stores s,
      ((logRun p).write s).buffer i = (logRun p).buffer i :=
  ⟨forall₄_congr fun p _ _ _ => Logbuf.storesInside_iff (inRange_logRun p),
    fun _ _ _ _ _ => Logbuf.write_of_not_mem_stores⟩

/-- A string of two turns and one character, into the empty log. -/
theorem logbuf_write_past_end :
    ¬ ∀ ops p s q, ops = p ++ LogOp.write s :: q → (logRun p).StoresInside s := by
  intro hall
  have hlong := hall _ [] (List.replicate (2 * logbufSize + 1) 97) [] rfl
  rw [Logbuf.storesInside_iff (inRange_logRun []), List.length_replicate] at hlong
  exact absurd hlong (by decide)

end Cuore
