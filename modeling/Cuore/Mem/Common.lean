import Cuore.Framework.Word

/-!
# Page sizes and address checks (`mem/mem.h`)
-/

namespace Cuore

/-- `PAGE_SIZE`. -/
def pageSize : ℕ := 4096

/-- `PAGE_SIZE_2MB`. -/
def pageSize2mb : ℕ := 0x200000

/-- `PAGE_SIZE_1GB`. -/
def pageSize1gb : ℕ := 0x40000000

/-- `ptr_is_canonical`: bits 56 to 63 are equal, as shifting left and back by seven bits with
sign extension tests it. -/
def ptrIsCanonical (addr : ℕ) : Bool :=
  let shifted := addr * 2 ^ 7 % word
  let extended := if shifted < 2 ^ 63 then shifted / 2 ^ 7 else shifted / 2 ^ 7 + (word - 2 ^ 57)
  addr == extended

/-- `range_is_safe`. -/
def rangeIsSafe (p n : ℕ) : Bool :=
  if n = 0 then true
  else
    let last := wsub (wadd p n) 1
    if last < p then false
    else if !ptrIsCanonical p || !ptrIsCanonical last then false
    else true

end Cuore
