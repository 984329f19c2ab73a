import Mathlib

/-! `rand` and `srand`. The program is stated over any deterministic generator
that `srand` resets; the one it is linked with is that of musl. -/

namespace BallController

abbrev Uint := BitVec 32

/-- `RAND_MAX` of musl's stdlib.h. -/
def randMax : Nat := 0x7fffffff

class Prng (G : Type) where
  srand : Uint → G
  rand : G → Nat × G
  rand_le : ∀ g, (rand g).1 ≤ randMax

/-- musl's src/prng/rand.c. -/
structure MuslRand where
  seed : BitVec 64
deriving DecidableEq, Repr

def MuslRand.next (g : MuslRand) : MuslRand := ⟨6364136223846793005#64 * g.seed + 1#64⟩

instance instPrngMuslRand : Prng MuslRand where
  srand s := ⟨(s - 1#32).zeroExtend 64⟩
  rand g := ((g.next.seed >>> 33).toNat, g.next)
  rand_le g := by
    have h := g.next.seed.isLt
    simp only [BitVec.toNat_ushiftRight, Nat.shiftRight_eq_div_pow, randMax]
    omega

/-- `(float)rand() / RAND_MAX`: a number of the unit interval. -/
def uniform {α G : Type} [Field α] [Prng G] (g : G) : α × G :=
  ((Prng.rand g).1 / randMax, (Prng.rand g).2)

theorem uniform_mem {α G : Type} [Field α] [LinearOrder α] [IsStrictOrderedRing α] [Prng G]
    (g : G) : 0 ≤ (uniform (α := α) g).1 ∧ (uniform (α := α) g).1 ≤ 1 := by
  have hle : ((Prng.rand g).1 : α) ≤ randMax := by exact_mod_cast Prng.rand_le g
  exact ⟨div_nonneg (Nat.cast_nonneg _) (Nat.cast_nonneg _), div_le_one_of_le₀ hle (Nat.cast_nonneg _)⟩

end BallController
