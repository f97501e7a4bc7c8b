/-! Rounding of exact quotients. A quotient goes to the nearest natural number and
an exact half to the even neighbour, so a quotient without remainder stays as it is. -/

namespace ScriptedArrays
namespace Rounding

/-- The natural number nearest to `n / d`; of two equally near ones the even one. -/
def nearest (n d : Nat) : Nat :=
  if 2 * (n % d) < d then n / d
  else if d < 2 * (n % d) then n / d + 1
  else n / d + n / d % 2

theorem floor_le_nearest (n d : Nat) : n / d ≤ nearest n d := by
  unfold nearest
  split
  · exact Nat.le_refl _
  · split
    · exact Nat.le_succ _
    · exact Nat.le_add_right _ _

theorem nearest_le_floor_succ (n d : Nat) : nearest n d ≤ n / d + 1 := by
  unfold nearest
  split
  · exact Nat.le_succ _
  · split
    · exact Nat.le_refl _
    · have := Nat.mod_lt (n / d) (y := 2) (by decide)
      omega

@[simp] theorem nearest_mul (n : Nat) {d : Nat} (hd : 0 < d) : nearest (n * d) d = n := by
  simp [nearest, hd]

@[simp] theorem nearest_one (n : Nat) : nearest n 1 = n := by
  simpa using nearest_mul n (d := 1) (by decide)

/-- The result is at most half a unit away from the quotient. -/
theorem two_mul_nearest_mul_le (n d : Nat) : 2 * (nearest n d * d) ≤ 2 * n + d := by
  have hn := Nat.div_add_mod n d
  have hc : n / d * d = d * (n / d) := Nat.mul_comm _ _
  unfold nearest
  split
  · omega
  · split
    · rw [Nat.add_mul]
      have := Nat.mod_le n d
      by_cases hd : d = 0
      · subst hd; simp
      · have := Nat.mod_lt n (Nat.pos_of_ne_zero hd)
        omega
    · have he : 2 * (n % d) = d := by omega
      have h2 := Nat.mod_lt (n / d) (y := 2) (by decide)
      have : n / d % 2 * d ≤ 1 * d := Nat.mul_le_mul_right d (by omega)
      rw [Nat.add_mul]
      omega

end Rounding
end ScriptedArrays
