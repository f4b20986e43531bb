import Cuore.Framework.Lcg
import Cuore.Framework.Scaling
import Cuore.Framework.Word

/-!
# Pseudo-random integers (`rand/swrand.c`)

`step_lcg_32` advances a 64-bit linear congruential generator and returns 32 bits of the new
state, xor-shifted and rotated by its five highest bits.  `randint` scales a draw into a range of
up to `2 ^ 32` values and rejects draws until the low half of the product reaches a threshold,
which it computes only if the low half is below the range.

`rejectBelow_eq` says that the threshold is `2 ^ 32` modulo the range for every range, and
`randint_eq` that the test in front of it decides nothing: `randint` returns the result of the
first accepted draw.  With the two, `card_scaled` is `randint_unbiased`, and `randint_terminates`
needs one draw that every range accepts.  `allOnes` is it; the state `allOnesState` puts it out,
and the generator has full period.
-/

namespace Cuore

/-! ## The generator -/

/-- `LCG_MULT`. -/
def lcgMult : ℕ := 6364136223846793005

/-- `LCG_INC`. -/
def lcgInc : ℕ := 1442695040888963407

/-- The assignment to `*seed` in `step_lcg_32`. -/
def lcgNext (seed : ℕ) : ℕ := wadd (wmul seed lcgMult) lcgInc

/-- What `step_lcg_32` returns from the new seed. -/
def lcgOut (seed : ℕ) : ℕ :=
  let xorshifted := (((seed >>> 18) ^^^ seed) >>> 27) % 2 ^ 32
  let rot := (seed >>> 59) % 2 ^ 32
  (xorshifted >>> rot) ||| ((xorshifted <<< (((2 ^ 32 - rot) % 2 ^ 32) &&& 31)) % 2 ^ 32)

/-- `step_lcg_32`: the draw and the seed behind it. -/
def stepLcg32 (seed : ℕ) : ℕ × ℕ := (lcgOut (lcgNext seed), lcgNext seed)

/-- `swrand32`. -/
def swrand32 (seed : ℕ) : ℕ × ℕ := stepLcg32 seed

/-! ## `randint` -/

/-- The threshold `t` of `randint`. -/
def rejectBelow (range : ℕ) : ℕ :=
  let t := wsub 0 range % 2 ^ 32
  if t ≥ range then
    let t := wsub t range % 2 ^ 32
    if t ≥ range then t % range else t
  else t

/-- The loop `while (l < t)`, with at most `fuel` further draws: the product `m` it leaves with,
and the seed. -/
def drawLoop (range t : ℕ) : ℕ → ℕ → ℕ → Option (ℕ × ℕ)
  | 0, seed, m => if m % 2 ^ 32 < t then none else some (m, seed)
  | fuel + 1, seed, m =>
    if m % 2 ^ 32 < t then
      let (x, seed) := swrand32 seed
      drawLoop range t fuel seed (wmul x range)
    else some (m, seed)

/-- The value returned for a product. -/
def drawResult (start m : ℕ) : ℕ := (start + (m >>> 32)) % 2 ^ 32

/-- `randint(seed, start, end)`: the value and the seed behind it. -/
def randint (fuel seed start stop : ℕ) : Option (ℕ × ℕ) :=
  let (start, stop) := if start > stop then (stop, start) else (start, stop)
  let range := wadd ((stop + (2 ^ 32 - start)) % 2 ^ 32) 1
  let (x, seed) := swrand32 seed
  let m := wmul x range
  let l := m % 2 ^ 32
  (if l < range then drawLoop range (rejectBelow range) fuel seed m else some (m, seed)).map
    fun (m, seed) => (drawResult start m, seed)

/-- A draw is accepted: the low half of the product reaches the threshold. -/
def AcceptedDraw (range x : ℕ) : Prop := ¬wmul x range % 2 ^ 32 < rejectBelow range

instance (range x : ℕ) : Decidable (AcceptedDraw range x) := inferInstanceAs (Decidable ¬_)

/-! ## The threshold -/

/-- **The threshold** is `2 ^ 32` modulo the range. -/
lemma rejectBelow_eq {range : ℕ} (hpos : 0 < range) (hle : range ≤ 2 ^ 32) :
    rejectBelow range = 2 ^ 32 % range := by
  have hneg : wsub 0 range % 2 ^ 32 = (2 ^ 32 - range) % 2 ^ 32 := by
    simp only [wsub, word]
    omega
  simp only [rejectBelow, hneg]
  rcases Nat.eq_or_lt_of_le hle with rfl | hlt
  · decide
  rw [Nat.mod_eq_of_lt (show 2 ^ 32 - range < 2 ^ 32 by omega)]
  by_cases honce : 2 ^ 32 - range ≥ range
  · have hsub : wsub (2 ^ 32 - range) range % 2 ^ 32 = 2 ^ 32 - range - range := by
      rw [wsub_of_le honce (by simp only [word]; omega)]
      omega
    have hfirst : 2 ^ 32 % range = (2 ^ 32 - range - range) % range := by
      rw [Nat.mod_eq_sub_mod hle, Nat.mod_eq_sub_mod honce]
    rw [if_pos honce, hsub, hfirst]
    split_ifs with htwice
    · rfl
    · exact (Nat.mod_eq_of_lt (by omega)).symm
  · rw [if_neg honce, Nat.mod_eq_sub_mod hle, Nat.mod_eq_of_lt (by omega)]

lemma wmul_draw {range x : ℕ} (hle : range ≤ 2 ^ 32) (hx : x < 2 ^ 32) :
    wmul x range = x * range :=
  wmul_of_lt ((Nat.mul_le_mul_left x hle).trans_lt (by simp only [word]; omega))

/-! ## The first accepted draw -/

section Loop

variable {range : ℕ}

/-- From a seed that has just been drawn from, the loop leaves at the first accepted draw. -/
lemma drawLoop_eq_some {fuel seed m seed' : ℕ}
    (h : drawLoop range (rejectBelow range) fuel seed (wmul (lcgOut seed) range) =
      some (m, seed')) :
    m = wmul (lcgOut seed') range ∧ AcceptedDraw range (lcgOut seed') ∧
      ∃ n, seed' = lcgNext^[n] seed ∧
        ∀ i < n, ¬AcceptedDraw range (lcgOut (lcgNext^[i] seed)) := by
  induction fuel generalizing seed with
  | zero =>
    rw [drawLoop] at h
    split_ifs at h with hlow
    cases h
    exact ⟨rfl, hlow, 0, rfl, fun i hi => absurd hi (by omega)⟩
  | succ fuel ih =>
    rw [drawLoop] at h
    split_ifs at h with hlow
    · obtain ⟨hm, haccept, n, hn, hbefore⟩ := ih h
      refine ⟨hm, haccept, n + 1, by rw [hn, Function.iterate_succ_apply], fun i hi => ?_⟩
      cases i with
      | zero => exact not_not_intro hlow
      | succ i =>
        rw [Function.iterate_succ_apply]
        exact hbefore i (by omega)
    · cases h
      exact ⟨rfl, hlow, 0, rfl, fun i hi => absurd hi (by omega)⟩

/-- A draw that is accepted at some point ends the loop. -/
lemma exists_drawLoop {n seed : ℕ} (h : AcceptedDraw range (lcgOut (lcgNext^[n] seed))) :
    ∃ fuel m seed', drawLoop range (rejectBelow range) fuel seed (wmul (lcgOut seed) range) =
      some (m, seed') := by
  induction n generalizing seed with
  | zero =>
    have hlow : ¬wmul (lcgOut seed) range % 2 ^ 32 < rejectBelow range := h
    exact ⟨0, _, _, by rw [drawLoop, if_neg hlow]⟩
  | succ n ih =>
    rw [Function.iterate_succ_apply] at h
    obtain ⟨fuel, m, seed', hloop⟩ := @ih (lcgNext seed) h
    by_cases hlow : wmul (lcgOut seed) range % 2 ^ 32 < rejectBelow range
    · exact ⟨fuel + 1, m, seed', by rw [drawLoop, if_pos hlow]; exact hloop⟩
    · exact ⟨0, _, _, by rw [drawLoop, if_neg hlow]⟩

end Loop

/-- **`randint` without its shortcut**: the pre-test accepts only draws that the loop accepts. -/
lemma randint_eq (fuel seed : ℕ) {start stop : ℕ} (hstart : start < 2 ^ 32)
    (hstop : stop < 2 ^ 32) :
    randint fuel seed start stop =
      (drawLoop (max start stop - min start stop + 1)
        (rejectBelow (max start stop - min start stop + 1)) fuel (lcgNext seed)
        (wmul (lcgOut (lcgNext seed)) (max start stop - min start stop + 1))).map
          fun (m, seed) => (drawResult (min start stop) m, seed) := by
  have hswap : (if start > stop then (stop, start) else (start, stop)) =
      (min start stop, max start stop) := by
    split_ifs with h
    · rw [min_eq_right h.le, max_eq_left h.le]
    · rw [min_eq_left (by omega), max_eq_right (by omega)]
  have hrange : wadd ((max start stop + (2 ^ 32 - min start stop)) % 2 ^ 32) 1 =
      max start stop - min start stop + 1 := by
    simp only [wadd, word]
    omega
  simp only [randint, hswap, hrange, swrand32, stepLcg32]
  split_ifs with hlow
  · rfl
  · have ht : rejectBelow (max start stop - min start stop + 1) =
        2 ^ 32 % (max start stop - min start stop + 1) :=
      rejectBelow_eq (by omega) (by omega)
    have hmod := Nat.mod_lt (2 ^ 32) (show 0 < max start stop - min start stop + 1 by omega)
    cases fuel <;> rw [drawLoop, if_neg (by omega)]

/-! ## Results -/

/-- What the generator puts out is one of the `2 ^ 32` draws. -/
lemma lcgOut_lt (seed : ℕ) : lcgOut seed < 2 ^ 32 := by
  refine Nat.or_lt_two_pow ?_ (Nat.mod_lt _ (by decide))
  rw [Nat.shiftRight_eq_div_pow]
  exact (Nat.div_le_self _ _).trans_lt (Nat.mod_lt _ (by decide))

/-- What a draw comes out as, between the bounds. -/
lemma drawResult_eq {low range x : ℕ} (hpos : 0 < range) (hle : range ≤ 2 ^ 32)
    (hlow : low + range ≤ 2 ^ 32) (hx : x < 2 ^ 32) :
    x * range / 2 ^ 32 < range ∧
      drawResult low (wmul x range) = low + x * range / 2 ^ 32 := by
  have hvalue : x * range / 2 ^ 32 < range := by
    rw [Nat.div_lt_iff_lt_mul (by decide), Nat.mul_comm]
    exact Nat.mul_lt_mul_of_pos_left hx hpos
  refine ⟨hvalue, ?_⟩
  rw [drawResult, wmul_draw hle hx, Nat.shiftRight_eq_div_pow]
  omega

/-- `randint` returns the result of the first accepted draw. -/
lemma randint_eq_some {fuel seed start stop value seed' : ℕ} (hstart : start < 2 ^ 32)
    (hstop : stop < 2 ^ 32) (h : randint fuel seed start stop = some (value, seed')) :
    AcceptedDraw (max start stop - min start stop + 1) (lcgOut seed') ∧
      value = drawResult (min start stop)
        (wmul (lcgOut seed') (max start stop - min start stop + 1)) ∧
      ∃ n, seed' = lcgNext^[n + 1] seed ∧ ∀ i < n,
        ¬AcceptedDraw (max start stop - min start stop + 1) (lcgOut (lcgNext^[i + 1] seed)) := by
  rw [randint_eq fuel seed hstart hstop] at h
  obtain ⟨⟨m, s⟩, hloop, hpair⟩ := Option.map_eq_some_iff.1 h
  cases hpair
  obtain ⟨hm, haccept, n, hn, hbefore⟩ := drawLoop_eq_some hloop
  exact ⟨haccept, by rw [hm], n, by rw [hn, Function.iterate_succ_apply], fun i hi => by
    rw [Function.iterate_succ_apply]; exact hbefore i hi⟩

/-- **`randint` is exactly unbiased.**  Of the `2 ^ 32` draws, equally many accepted ones come
out as each value between the two bounds, every accepted draw comes out between them, and what
`randint` returns is the result of the first accepted draw of the generator. -/
theorem randint_unbiased (start stop : ℕ) (hstart : start < 2 ^ 32) (hstop : stop < 2 ^ 32) :
    let low := min start stop
    let range := max start stop - low + 1
    (∀ k < range, ((Finset.range (2 ^ 32)).filter fun x =>
      AcceptedDraw range x ∧ drawResult low (wmul x range) = low + k).card = 2 ^ 32 / range) ∧
    (∀ x < 2 ^ 32, AcceptedDraw range x → low ≤ drawResult low (wmul x range) ∧
      drawResult low (wmul x range) ≤ max start stop) ∧
    ∀ fuel seed value seed', randint fuel seed start stop = some (value, seed') →
      AcceptedDraw range (lcgOut seed') ∧ value = drawResult low (wmul (lcgOut seed') range) ∧
      ∃ n, seed' = lcgNext^[n + 1] seed ∧
        ∀ i < n, ¬AcceptedDraw range (lcgOut (lcgNext^[i + 1] seed)) := by
  intro low range
  have hpos : 0 < range := Nat.succ_pos _
  have hle : range ≤ 2 ^ 32 := by omega
  have hresult : ∀ x < 2 ^ 32, x * range / 2 ^ 32 < range ∧
      drawResult low (wmul x range) = low + x * range / 2 ^ 32 := fun x hx =>
    drawResult_eq hpos hle (by omega) hx
  refine ⟨fun k hk => ?_, fun x hx _ => ?_, fun fuel seed value seed' h =>
    randint_eq_some hstart hstop h⟩
  · rw [← card_scaled hpos hk]
    refine congrArg Finset.card (Finset.filter_congr fun x hx => ?_)
    have hx := Finset.mem_range.1 hx
    rw [AcceptedDraw, rejectBelow_eq hpos hle, (hresult x hx).2, wmul_draw hle hx,
      Nat.add_left_cancel_iff]
  · obtain ⟨hvalue, heq⟩ := hresult x hx
    omega

/-- Ten values, and a call with the seed 1. -/
theorem randint_unbiased_ten :
    (∀ k < 10, ((Finset.range (2 ^ 32)).filter fun x =>
      AcceptedDraw 10 x ∧ drawResult 11 (wmul x 10) = 11 + k).card = 429496729) ∧
    (∀ x < 2 ^ 32, AcceptedDraw 10 x →
      11 ≤ drawResult 11 (wmul x 10) ∧ drawResult 11 (wmul x 10) ≤ 20) ∧
    ∃ value seed', randint 1 1 20 11 = some (value, seed') ∧ AcceptedDraw 10 (lcgOut seed') ∧
      value = drawResult 11 (wmul (lcgOut seed') 10) ∧ ∃ n, seed' = lcgNext^[n + 1] 1 ∧
        ∀ i < n, ¬AcceptedDraw 10 (lcgOut (lcgNext^[i + 1] 1)) := by
  obtain ⟨hcount, hbounds, hcall⟩ := randint_unbiased 20 11 (by decide) (by decide)
  obtain ⟨⟨value, seed'⟩, hrun⟩ : ∃ r, randint 1 1 20 11 = some r :=
    Option.isSome_iff_exists.mp (by decide +kernel)
  exact ⟨hcount, hbounds, value, seed', hrun, hcall 1 1 value seed' hrun⟩

/-! ## Termination -/

/-- The largest draw. -/
def allOnes : ℕ := 2 ^ 32 - 1

/-- A state that puts it out. -/
def allOnesState : ℕ := 2 ^ 59 - 2 ^ 41

lemma lcgOut_allOnesState : lcgOut allOnesState = allOnes := by decide

/-- Every range accepts the largest draw. -/
lemma accepted_allOnes {range : ℕ} (hpos : 0 < range) (hle : range ≤ 2 ^ 32) :
    AcceptedDraw range allOnes := by
  have hproduct : allOnes * range = (range - 1) * 2 ^ 32 + (2 ^ 32 - range) := by
    rw [allOnes]
    omega
  have hlow : allOnes * range % 2 ^ 32 = (2 ^ 32 - range) % 2 ^ 32 := by
    rw [hproduct, Nat.mul_add_mod']
  rw [AcceptedDraw, rejectBelow_eq hpos hle, wmul_draw hle (by decide), hlow]
  rcases Nat.eq_or_lt_of_le hle with rfl | hlt
  · decide
  have hmod := Nat.mod_lt (2 ^ 32) hpos
  by_cases honce : range ≤ 2 ^ 32 - range
  · omega
  · rw [Nat.mod_eq_sub_mod hle, Nat.mod_eq_of_lt (show 2 ^ 32 - range < range by omega)]
    omega

/-- The generator reduces at each step. -/
lemma lcgNext_eq : lcgNext = fun seed => affine lcgMult lcgInc seed % 2 ^ 64 := by
  funext seed
  rw [lcgNext, wadd, wmul, affine, Nat.mod_add_mod, Nat.mul_comm]

/-- **`randint` terminates** for every seed and all bounds: with enough fuel it returns what an
accepted draw of the generator comes out as, which is between the bounds. -/
theorem randint_terminates (seed start stop : ℕ) (hstart : start < 2 ^ 32)
    (hstop : stop < 2 ^ 32) :
    ∃ fuel value n, randint fuel seed start stop = some (value, lcgNext^[n + 1] seed) ∧
      AcceptedDraw (max start stop - min start stop + 1) (lcgOut (lcgNext^[n + 1] seed)) ∧
      value = drawResult (min start stop)
        (wmul (lcgOut (lcgNext^[n + 1] seed)) (max start stop - min start stop + 1)) ∧
      min start stop ≤ value ∧ value ≤ max start stop := by
  have hnext : lcgNext seed < 2 ^ 64 := wadd_lt _ _
  obtain ⟨n, hn⟩ := exists_iterate_mod (a := lcgMult) (c := lcgInc) (by decide) (by decide) 64
    hnext (show allOnesState < 2 ^ 64 by decide)
  rw [← lcgNext_eq] at hn
  have haccept : AcceptedDraw (max start stop - min start stop + 1)
      (lcgOut (lcgNext^[n] (lcgNext seed))) := by
    rw [hn, lcgOut_allOnesState]
    exact accepted_allOnes (by omega) (by omega)
  obtain ⟨fuel, m, seed', hloop⟩ := exists_drawLoop haccept
  obtain ⟨value, hvalue⟩ : ∃ value, randint fuel seed start stop = some (value, seed') :=
    ⟨_, by rw [randint_eq fuel seed hstart hstop, hloop, Option.map_some]⟩
  obtain ⟨hfirst, hresult, k, rfl, -⟩ := randint_eq_some hstart hstop hvalue
  obtain ⟨hlt, heq⟩ := drawResult_eq (Nat.succ_pos (max start stop - min start stop)) (by omega)
    (show min start stop + (max start stop - min start stop + 1) ≤ 2 ^ 32 by omega)
    (lcgOut_lt (lcgNext^[k + 1] seed))
  have hbounds : value = min start stop +
      lcgOut (lcgNext^[k + 1] seed) * (max start stop - min start stop + 1) / 2 ^ 32 :=
    hresult.trans heq
  rw [Nat.succ_eq_add_one] at hlt
  exact ⟨fuel, value, k, hvalue, hfirst, hresult, by omega, by omega⟩

/-- The whole range of 32 bits, from the largest seed. -/
theorem randint_terminates_full :
    ∃ fuel value n, randint fuel (2 ^ 64 - 1) 0 (2 ^ 32 - 1) =
        some (value, lcgNext^[n + 1] (2 ^ 64 - 1)) ∧
      AcceptedDraw (2 ^ 32) (lcgOut (lcgNext^[n + 1] (2 ^ 64 - 1))) ∧
      value = drawResult 0 (wmul (lcgOut (lcgNext^[n + 1] (2 ^ 64 - 1))) (2 ^ 32)) ∧
      0 ≤ value ∧ value ≤ 2 ^ 32 - 1 :=
  randint_terminates (2 ^ 64 - 1) 0 (2 ^ 32 - 1) (by decide) (by decide)

end Cuore
