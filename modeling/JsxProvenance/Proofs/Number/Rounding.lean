import JsxProvenance.Number.Rounding
import Mathlib.Algebra.Group.Nat.Even
import Mathlib.Data.Nat.Dist

/-!
Rounding is correct: no number of the form `significand * 2 ^ exponent` with a significand
of at most 53 bits is nearer to a quotient than the one it is rounded to, and of two that are
equally near the one with the even significand is taken.

A quotient is rounded on the grid of multiples of one power of two, and on a grid this is
plain: all multiples at or below the quotient are further away than the last of them, all
above it further than the first. That the grid is enough is the point. It is chosen so that
the quotient has 53 bits in front of it, and then whatever is not on it lies below `2 ^ 52`
of its steps, which is on it and not beyond the quotient.

Distances between numbers and a quotient `num / den` are taken in units of `1 / den`, so
that they are natural numbers. Main statements: `Scaled.dist_nearest_le`,
`Scaled.even_nearest_of_tie`, and as consequences `Scaled.toNat_nearest_of_le` and
`Scaled.toNat_nearest_mono`.
-/

namespace JsxProvenance

section Quotient

variable {num den k : Nat}

/-- The distance of a multiple of `den` at or below a number. -/
theorem dist_mul_of_le (h : k ≤ num / den) :
    Nat.dist num (k * den) = num % den + (num / den - k) * den := by
  obtain ⟨steps, hsteps⟩ := Nat.exists_eq_add_of_le h
  have hnum : num = k * den + steps * den + num % den := by
    have hsplit := Nat.div_add_mod' num den
    rw [hsteps, Nat.add_mul] at hsplit
    omega
  have hbetween : num / den - k = steps := by omega
  rw [hbetween, Nat.dist]
  omega

/-- The distance of a multiple of `den` above a number. -/
theorem dist_mul_of_lt (hden : 0 < den) (h : num / den < k) :
    Nat.dist num (k * den) = (den - num % den) + (k - (num / den + 1)) * den := by
  obtain ⟨steps, rfl⟩ := Nat.exists_eq_add_of_lt h
  have hnum := Nat.div_add_mod' num den
  have hmod := Nat.mod_lt num hden
  have hmul : (num / den + steps + 1) * den = num / den * den + den + steps * den := by
    rw [Nat.add_right_comm, Nat.add_mul, Nat.add_mul, Nat.one_mul]
  have hbetween : num / den + steps + 1 - (num / den + 1) = steps := by omega
  rw [hbetween, hmul, Nat.dist]
  omega

theorem dist_below (num den : Nat) : Nat.dist num (num / den * den) = num % den := by
  rw [dist_mul_of_le (Nat.le_refl _), Nat.sub_self, Nat.zero_mul, Nat.add_zero]

theorem dist_above (num : Nat) (hden : 0 < den) :
    Nat.dist num ((num / den + 1) * den) = den - num % den := by
  rw [dist_mul_of_lt hden (Nat.lt_succ_self _), Nat.sub_self, Nat.zero_mul, Nat.add_zero]

/-- Only the two ends of the step that holds a quotient are within half a step of it. -/
theorem eq_or_eq_of_two_mul_dist_le (hden : 0 < den) (h : 2 * Nat.dist num (k * den) ≤ den) :
    k = num / den ∨ k = num / den + 1 := by
  have hmod := Nat.mod_lt num hden
  by_cases hk : k ≤ num / den
  · left
    apply Nat.le_antisymm hk
    apply Nat.le_of_not_lt
    intro hlt
    have hsteps := Nat.le_mul_of_pos_left den (Nat.sub_pos_of_lt hlt)
    rw [dist_mul_of_le hk] at h
    omega
  · right
    have hbeyond : num / den + 1 ≤ k := Nat.lt_of_not_le hk
    apply Nat.le_antisymm _ hbeyond
    apply Nat.le_of_not_lt
    intro hlt
    have hsteps := Nat.le_mul_of_pos_left den (Nat.sub_pos_of_lt hlt)
    rw [dist_mul_of_lt hden hbeyond] at h
    omega

/-- A quotient is rounded down if the rest is small, and up if it is large. A rest of one
half leads to the even of the two. -/
theorem roundDiv_cases (num den : Nat) :
    (roundDiv num den = num / den ∧ 2 * (num % den) ≤ den ∧
        (2 * (num % den) = den → num / den % 2 = 0)) ∨
      (roundDiv num den = num / den + 1 ∧ den ≤ 2 * (num % den) ∧
        (2 * (num % den) = den → num / den % 2 = 1)) := by
  rw [roundDiv]
  split
  · left
    omega
  · right
    omega

theorem le_roundDiv (num den : Nat) : num / den ≤ roundDiv num den := by
  rcases roundDiv_cases num den with ⟨h, _⟩ | ⟨h, _⟩ <;> omega

theorem roundDiv_le (num den : Nat) : roundDiv num den ≤ num / den + 1 := by
  rcases roundDiv_cases num den with ⟨h, _⟩ | ⟨h, _⟩ <;> omega

/-- How far rounding goes: to the nearer end of the step that holds the quotient. -/
theorem dist_roundDiv (num : Nat) (hden : 0 < den) :
    Nat.dist num (roundDiv num den * den) = min (num % den) (den - num % den) := by
  rcases roundDiv_cases num den with ⟨hround, hrest, _⟩ | ⟨hround, hrest, _⟩
  · rw [hround, dist_below]
    omega
  · rw [hround, dist_above num hden]
    omega

/-- No natural number is nearer to a quotient than the rounded one. -/
theorem dist_roundDiv_le (num : Nat) (hden : 0 < den) (k : Nat) :
    Nat.dist num (roundDiv num den * den) ≤ Nat.dist num (k * den) := by
  rw [dist_roundDiv num hden]
  by_cases hk : k ≤ num / den
  · rw [dist_mul_of_le hk]
    omega
  · rw [dist_mul_of_lt hden (Nat.lt_of_not_le hk)]
    omega

/-- If another natural number is as near, then it is the other end of the step, and the
rounded one is even. -/
theorem roundDiv_of_tie (hden : 0 < den) (hne : k ≠ roundDiv num den)
    (htie : Nat.dist num (k * den) = Nat.dist num (roundDiv num den * den)) :
    roundDiv num den % 2 = 0 ∧ k % 2 = 1 ∧ num / den ≤ k ∧ k ≤ num / den + 1 := by
  have hhalf : 2 * Nat.dist num (k * den) ≤ den := by
    rw [htie, dist_roundDiv num hden]
    omega
  rcases eq_or_eq_of_two_mul_dist_le hden hhalf with rfl | rfl
  · rcases roundDiv_cases num den with ⟨hround, _, _⟩ | ⟨hround, hrest, hodd⟩
    · exact absurd hround.symm hne
    · rw [hround, dist_below, dist_above num hden] at htie
      have hquotient := hodd (by omega)
      omega
  · rcases roundDiv_cases num den with ⟨hround, hrest, heven⟩ | ⟨hround, _, _⟩
    · rw [hround, dist_below, dist_above num hden] at htie
      have hquotient := heven (by omega)
      omega
    · exact absurd hround.symm hne

end Quotient

namespace Scaled

/-- The significand has all of its 53 bits. -/
def IsLong (x : Scaled) : Prop :=
  leastLong ≤ x.significand ∧ x.significand < 2 * leastLong

theorem toNat_eq (x : Scaled) : x.toNat = x.significand * 2 ^ x.exponent := rfl

section Grid

variable {num den : Nat}

theorem lt_of_exponentFor (n : Nat) : n < 2 * leastLong * 2 ^ exponentFor n := by
  have hlong : 2 * leastLong = 2 ^ 53 := rfl
  have hlog : n < 2 ^ (n.log2 + 1) := Nat.lt_log2_self
  rw [hlong, ← Nat.pow_add]
  apply Nat.lt_of_lt_of_le hlog
  apply Nat.pow_le_pow_right (by omega)
  rw [exponentFor]
  omega

theorem le_of_exponentFor_pos {n : Nat} (h : 0 < exponentFor n) :
    leastLong * 2 ^ exponentFor n ≤ n := by
  have hlong : leastLong = 2 ^ 52 := rfl
  have hzero : n ≠ 0 := by
    rintro rfl
    simp [exponentFor] at h
  have hlog : 2 ^ n.log2 ≤ n := Nat.log2_self_le hzero
  have hexponent : 52 + exponentFor n = n.log2 := by
    rw [exponentFor] at h ⊢
    omega
  rwa [hlong, ← Nat.pow_add, hexponent]

/-- On the grid that it is rounded on, a quotient has no more than 53 bits. -/
theorem div_grid_lt (num den : Nat) :
    num / (den * 2 ^ exponentFor (num / den)) < 2 * leastLong := by
  rw [← Nat.div_div_eq_div_mul]
  apply Nat.div_lt_of_lt_mul
  rw [Nat.mul_comm]
  exact lt_of_exponentFor _

/-- It has no fewer, unless the grid is that of all natural numbers. -/
theorem le_div_grid (h : 0 < exponentFor (num / den)) :
    leastLong ≤ num / (den * 2 ^ exponentFor (num / den)) := by
  rw [← Nat.div_div_eq_div_mul, Nat.le_div_iff_mul_le (Nat.two_pow_pos _)]
  exact le_of_exponentFor_pos h

theorem nearest_of_carry
    (h : roundDiv num (den * 2 ^ exponentFor (num / den)) = 2 * leastLong) :
    nearest num den = ⟨leastLong, exponentFor (num / den) + 1⟩ :=
  if_pos h

theorem nearest_of_no_carry
    (h : roundDiv num (den * 2 ^ exponentFor (num / den)) ≠ 2 * leastLong) :
    nearest num den =
      ⟨roundDiv num (den * 2 ^ exponentFor (num / den)), exponentFor (num / den)⟩ :=
  if_neg h

/-- The number that a quotient is rounded to is on the grid, also if the significand was
carried to a 54th bit. -/
theorem toNat_nearest (num den : Nat) :
    (nearest num den).toNat =
      roundDiv num (den * 2 ^ exponentFor (num / den)) * 2 ^ exponentFor (num / den) := by
  by_cases hcarry : roundDiv num (den * 2 ^ exponentFor (num / den)) = 2 * leastLong
  · rw [nearest_of_carry hcarry, hcarry, toNat_eq, Nat.pow_succ, Nat.mul_comm 2 leastLong,
      Nat.mul_assoc, Nat.mul_comm 2]
  · rw [nearest_of_no_carry hcarry, toNat_eq]

theorem significand_nearest_lt (num den : Nat) :
    (nearest num den).significand < 2 * leastLong := by
  have hlong : leastLong < 2 * leastLong := by decide
  by_cases hcarry : roundDiv num (den * 2 ^ exponentFor (num / den)) = 2 * leastLong
  · rw [nearest_of_carry hcarry]
    exact hlong
  · have hround := roundDiv_le num (den * 2 ^ exponentFor (num / den))
    have hgrid := div_grid_lt num den
    rw [nearest_of_no_carry hcarry]
    apply Nat.lt_of_le_of_ne _ hcarry
    exact Nat.le_trans hround hgrid

theorem isLong_nearest (h : 0 < exponentFor (num / den)) : (nearest num den).IsLong := by
  refine ⟨?_, significand_nearest_lt num den⟩
  by_cases hcarry : roundDiv num (den * 2 ^ exponentFor (num / den)) = 2 * leastLong
  · rw [nearest_of_carry hcarry]
  · rw [nearest_of_no_carry hcarry]
    exact Nat.le_trans (le_div_grid h) (le_roundDiv _ _)

theorem even_significand_nearest
    (h : Even (roundDiv num (den * 2 ^ exponentFor (num / den)))) :
    Even (nearest num den).significand := by
  have hlong : Even leastLong := by decide
  by_cases hcarry : roundDiv num (den * 2 ^ exponentFor (num / den)) = 2 * leastLong
  · rw [nearest_of_carry hcarry]
    exact hlong
  · rwa [nearest_of_no_carry hcarry]

/-- A number with a significand of at most 53 bits is on the grid, or so small that the
grid has all of its significands above it. -/
theorem on_grid_or_lt {x : Scaled} (hx : x.significand ≤ 2 * leastLong) (exponent : Nat) :
    (∃ k, x.toNat = k * 2 ^ exponent) ∨
      0 < exponent ∧ x.toNat < leastLong * 2 ^ exponent := by
  by_cases hcoarse : exponent ≤ x.exponent
  · left
    obtain ⟨more, hmore⟩ := Nat.exists_eq_add_of_le hcoarse
    refine ⟨x.significand * 2 ^ more, ?_⟩
    rw [toNat_eq, hmore, Nat.pow_add, Nat.mul_assoc, Nat.mul_comm (2 ^ exponent)]
  · have hbound : x.toNat ≤ leastLong * 2 ^ exponent := by
      calc x.toNat = x.significand * 2 ^ x.exponent := toNat_eq x
        _ ≤ 2 * leastLong * 2 ^ x.exponent := Nat.mul_le_mul_right _ hx
        _ = leastLong * 2 ^ (x.exponent + 1) := by
            rw [Nat.pow_succ, Nat.mul_comm 2 leastLong, Nat.mul_assoc, Nat.mul_comm 2]
        _ ≤ leastLong * 2 ^ exponent :=
            Nat.mul_le_mul_left _ (Nat.pow_le_pow_right (by omega) (by omega))
    rcases Nat.lt_or_eq_of_le hbound with hlt | heq
    · exact Or.inr ⟨by omega, hlt⟩
    · exact Or.inl ⟨leastLong, heq⟩

end Grid

section Nearest

variable {num den : Nat} {x : Scaled}

private theorem grid_mul (k exponent den : Nat) :
    k * 2 ^ exponent * den = k * (den * 2 ^ exponent) := by
  rw [Nat.mul_assoc, Nat.mul_comm den]

/-- A number below the grid's least long significand is further away than that is, and so
further than the rounded number. -/
theorem dist_nearest_lt (hden : 0 < den) (hexponent : 0 < exponentFor (num / den))
    (hx : x.toNat < leastLong * 2 ^ exponentFor (num / den)) :
    Nat.dist num ((nearest num den).toNat * den) < Nat.dist num (x.toNat * den) := by
  have hgrid : 0 < den * 2 ^ exponentFor (num / den) :=
    Nat.mul_pos hden (Nat.two_pow_pos _)
  have hbelow : leastLong * 2 ^ exponentFor (num / den) * den ≤ num := by
    rw [← Nat.le_div_iff_mul_le hden]
    exact le_of_exponentFor_pos hexponent
  have hfurther := Nat.mul_lt_mul_of_pos_right hx hden
  have hround := dist_roundDiv_le num hgrid leastLong
  rw [← grid_mul, ← grid_mul, ← toNat_nearest] at hround
  apply Nat.lt_of_le_of_lt hround
  rw [Nat.dist, Nat.dist]
  omega

/-- No number with a significand of at most 53 bits is nearer to a quotient than the one
it is rounded to. -/
theorem dist_nearest_le (num : Nat) (hden : 0 < den) (hx : x.significand ≤ 2 * leastLong) :
    Nat.dist num ((nearest num den).toNat * den) ≤ Nat.dist num (x.toNat * den) := by
  rcases on_grid_or_lt hx (exponentFor (num / den)) with ⟨k, hk⟩ | ⟨hexponent, hlt⟩
  · rw [toNat_nearest, hk, grid_mul, grid_mul]
    exact dist_roundDiv_le num (Nat.mul_pos hden (Nat.two_pow_pos _)) k
  · exact Nat.le_of_lt (dist_nearest_lt hden hexponent hlt)

/-- If another such number is as near to a quotient of more than 53 bits, then the number that
the quotient is rounded to has an even significand of 53 bits, and the other one has an odd
one. -/
theorem even_nearest_of_tie (hden : 0 < den) (hexponent : 0 < exponentFor (num / den))
    (hx : x.significand ≤ 2 * leastLong) (hne : x.toNat ≠ (nearest num den).toNat)
    (htie : Nat.dist num (x.toNat * den) = Nat.dist num ((nearest num den).toNat * den)) :
    (nearest num den).IsLong ∧ Even (nearest num den).significand ∧
      ∃ y : Scaled, y.toNat = x.toNat ∧ y.IsLong ∧ Odd y.significand := by
  have hgrid : 0 < den * 2 ^ exponentFor (num / den) :=
    Nat.mul_pos hden (Nat.two_pow_pos _)
  rcases on_grid_or_lt hx (exponentFor (num / den)) with ⟨k, hk⟩ | ⟨_, hlt⟩
  · rw [toNat_nearest, hk] at hne
    rw [toNat_nearest, hk, grid_mul, grid_mul] at htie
    have hsteps : k ≠ roundDiv num (den * 2 ^ exponentFor (num / den)) := by
      rintro rfl
      exact hne rfl
    obtain ⟨heven, hodd, hbelow, habove⟩ := roundDiv_of_tie hgrid hsteps htie
    refine ⟨isLong_nearest hexponent, even_significand_nearest (Nat.even_iff.mpr heven),
      ⟨k, exponentFor (num / den)⟩, hk.symm, ⟨?_, ?_⟩, Nat.odd_iff.mpr hodd⟩
    · exact Nat.le_trans (le_div_grid hexponent) hbelow
    · -- the end of the grid's last step is even, so it is not `k`
      have hlast := div_grid_lt num den
      dsimp only
      omega
  · have hfar := dist_nearest_lt hden hexponent hlt
    omega

/-- A natural number that fits in 53 bits, or is the first that does not, is not rounded. -/
theorem toNat_nearest_of_le {n : Nat} (h : n ≤ 2 * leastLong) : (nearest n 1).toNat = n := by
  have hself := dist_nearest_le n Nat.one_pos (x := ⟨n, 0⟩) h
  have hzero : Nat.dist n ((nearest n 1).toNat * 1) = 0 := by
    apply Nat.le_zero.mp
    apply Nat.le_trans hself
    simp [toNat_eq]
  rw [Nat.mul_one] at hzero
  exact (Nat.eq_of_dist_eq_zero hzero).symm

/-- So a natural number that is rounded has more bits than that. -/
theorem exponentFor_pos_of_rounded {n : Nat} (h : (nearest n 1).toNat ≠ n) :
    0 < exponentFor (n / 1) := by
  apply Nat.pos_of_ne_zero
  intro hzero
  have hshort := lt_of_exponentFor (n / 1)
  rw [hzero, Nat.div_one, Nat.pow_zero, Nat.mul_one] at hshort
  exact h (toNat_nearest_of_le (Nat.le_of_lt hshort))

/-- Rounding keeps the order. If a smaller quotient were rounded to a larger number, then
each of the two would be on the far side of the middle between these numbers. -/
theorem toNat_nearest_mono {num other : Nat} (hden : 0 < den) (h : num ≤ other) :
    (nearest num den).toNat ≤ (nearest other den).toNat := by
  rcases Nat.eq_or_lt_of_le h with rfl | hlt
  · exact Nat.le_refl _
  · apply Nat.le_of_not_lt
    intro hswap
    have hfits := fun quotient => Nat.le_of_lt (significand_nearest_lt quotient den)
    have hnum := dist_nearest_le num hden (hfits other)
    have hother := dist_nearest_le other hden (hfits num)
    have hapart := Nat.mul_lt_mul_of_pos_right hswap hden
    rw [Nat.dist, Nat.dist] at hnum hother
    omega

end Nearest

end Scaled

end JsxProvenance
