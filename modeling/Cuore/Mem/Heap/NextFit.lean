import Cuore.Mem.Heap.Run

/-!
# The next fit

What the search of `malloc` is for: a block that fits is found, wherever the search starts, and the
heap grows only when there is none.
-/

namespace Cuore

open Memory

/-- **The search is exhaustive.**  One pass, from any `last_fit`, ends, visits blocks of the list,
each at most once, and finds a block that fits if there is one; the answers of `heap_grow` do not
matter then. -/
theorem malloc_search_exhaustive {h : Heap} {L : List Block} (hr : BlockRep h L) (hs : Spread L)
    (size : ℕ) : ∃ found visited,
      searchTrace h.mem h.head (searchStart h) size word (searchStart h) false =
        some (found, visited) ∧
      searchFit h.mem h.head (searchStart h) size word (searchStart h) false = some found ∧
      visited.Nodup ∧ (∀ a ∈ visited, ∃ b ∈ L, b.addr = a) ∧
      (found ≠ 0 → ∃ b ∈ L, b.Fits size ∧ b.addr = found) ∧
      ((∃ b ∈ L, b.Fits size) →
        found ≠ 0 ∧ ∀ grants, mallocBlock size grants h = some (takeBlock h size found)) := by
  obtain ⟨⟨found, visited⟩, htrace, hsearched⟩ := searchTrace_spec hr hs size
  have hfit : searchFit h.mem h.head (searchStart h) size word (searchStart h) false =
      some found := by
    rw [← searchTrace_fst, htrace]
    rfl
  refine ⟨found, visited, htrace, hfit, hsearched.nodup hs, fun a ha => ?_, fun hne => ?_, ?_⟩
  · obtain ⟨V, hV, heq⟩ := hsearched.visited
    have heq : visited = V.map Block.addr := heq
    rw [heq] at ha
    obtain ⟨b, hb, rfl⟩ := List.mem_map.mp ha
    exact ⟨b, hV.subset hb, rfl⟩
  · rcases hsearched.found with ⟨hzero, -⟩ | ⟨b, hb, hbf, heq⟩
    · exact absurd hzero hne
    · exact ⟨b, hb, hbf, heq.symm⟩
  · rintro ⟨b, hb, hbf⟩
    rcases hsearched.found with ⟨-, hnone⟩ | ⟨c, hc, hcf, heq⟩
    · exact absurd hbf (hnone b hb)
    · obtain rfl : found = c.addr := heq
      exact ⟨(hs.pos hc).ne', fun grants => mallocBlock_found (hs.pos hc) hfit⟩

/-- The search starts at the last of three blocks, and wraps around to the first one, which was
freed. -/
theorem malloc_search_exhaustive_boot : ∃ (h : Heap) (L : List Block), BlockRep h L ∧
    h.lastFit ≠ 0 ∧ h.lastFit ≠ h.head ∧
    ∃ visited, searchTrace h.mem h.head (searchStart h) 208 word (searchStart h) false =
        some (0xFFFF800100000000, visited) ∧
      visited.Nodup ∧ (∀ a ∈ visited, ∃ b ∈ L, b.addr = a) ∧
      (∃ b ∈ L, b.Fits 208 ∧ b.addr = 0xFFFF800100000000) ∧
      ∀ grants, mallocBlock 208 grants h = some (takeBlock h 208 0xFFFF800100000000) := by
  obtain ⟨s, hrun, hs⟩ := @bootReplay_value HeapOp.Safe _ [.malloc 208 [], .malloc 7280 [],
    .malloc 560 [], .free 0xFFFF800100000030] _
    (fun s => (s.1.lastFit, s.1.head,
      searchFit s.1.mem s.1.head (searchStart s.1) 208 word (searchStart s.1) false))
    (0xFFFF800100001DA0, 0xFFFF800100000000, some 0xFFFF800100000000) (by decide +kernel)
  simp only [Prod.mk.injEq] at hs
  obtain ⟨hfit, hhead, hsearch⟩ := hs
  obtain ⟨rs, F, hh⟩ := hrun.inOrder
  obtain ⟨found, visited, htrace, hfound, hnodup, hvisited, hfits, htaken⟩ :=
    malloc_search_exhaustive hh.1.blocks hh.1.regions.spread 208
  obtain rfl := Option.some.inj (hsearch.symm.trans hfound)
  obtain ⟨b, hb, hbfits, hbaddr⟩ := hfits (by decide)
  exact ⟨s.1, _, hh.1.blocks, by rw [hfit]; decide, by rw [hfit, hhead]; decide, visited, htrace,
    hnodup, hvisited, ⟨b, hb, hbfits, hbaddr⟩, (htaken ⟨b, hb, hbfits⟩).2⟩

end Cuore
