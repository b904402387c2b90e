import Explorer.Core.Query

/-!
# Buckets of instants

Instants are whole numbers, and a bucket of length `len` begins at each
multiple of `len`. `trunc` is `date_trunc` in a time zone without offsets,
`series` is `generate_series`.

* `series_eq`: a series between two ends that are whole buckets apart.
* `trunc_mem_iff`: which instants fall into one of its buckets.
-/
namespace Explorer.Buckets

def trunc (len t : Int) : Int := t - t % len

/-- From `start` to `stop`, both included. -/
def series (start stop step : Int) : List Int :=
  (List.range ((stop - start) / step + 1).toNat).map fun i : Nat => start + i * step

variable {len : Int}

theorem trunc_eq_iff (hlen : 0 < len) {t b : Int} (hb : len ∣ b) : trunc len t = b ↔ b ≤ t ∧ t < b + len := by
  have hmod := Int.emod_lt_of_pos t hlen
  have hnonneg := Int.emod_nonneg t hlen.ne'
  unfold trunc
  constructor
  · intro h
    omega
  · rintro ⟨hle, hlt⟩
    obtain ⟨c, rfl⟩ := hb
    have hrest : (t - len * c) % len = t - len * c := Int.emod_eq_of_lt (by omega) (by omega)
    rw [Int.sub_mul_emod_self_left] at hrest
    omega

theorem dvd_trunc (len t : Int) : len ∣ trunc len t := Int.dvd_self_sub_emod

/-- `count + 1` buckets, the last of which begins at `stop`. -/
theorem series_eq (hlen : 0 < len) (stop : Int) (count : Nat) :
    series (stop - count * len) stop len =
      (List.range (count + 1)).map fun i : Nat => stop - count * len + i * len := by
  have hdiff : stop - (stop - count * len) = count * len := by omega
  rw [series, hdiff, Int.mul_ediv_cancel _ hlen.ne']
  rfl

theorem sorted (hlen : 0 < len) (start : Int) (count : Nat) :
    ((List.range count).map fun i : Nat => start + i * len).Pairwise (· < ·) := by
  rw [List.pairwise_map]
  refine List.pairwise_lt_range.imp fun {i j} hij => ?_
  have hij' : (i : Int) < j := by omega
  have := Int.mul_lt_mul_of_pos_right hij' hlen
  omega

/-- The buckets from `start` on cover the instants from `start` to the end of
the last. -/
theorem trunc_mem_iff (hlen : 0 < len) {start : Int} (hstart : len ∣ start) (count : Nat) (t : Int) :
    trunc len t ∈ ((List.range (count + 1)).map fun i : Nat => start + i * len) ↔
      start ≤ t ∧ t < start + count * len + len := by
  simp only [List.mem_map, List.mem_range]
  have hbucket : ∀ i : Nat, len ∣ start + i * len := fun i => Int.dvd_add hstart (Int.dvd_mul_left _ _)
  constructor
  · rintro ⟨i, hi, heq⟩
    obtain ⟨hle, hlt⟩ := (trunc_eq_iff hlen (hbucket i)).1 heq.symm
    have hfirst : 0 ≤ (i : Int) * len := Int.mul_nonneg (Int.natCast_nonneg i) hlen.le
    have hlast : (i : Int) * len ≤ count * len := Int.mul_le_mul_of_nonneg_right (by omega) hlen.le
    omega
  · rintro ⟨hle, hlt⟩
    have hdiv := Int.mul_ediv_add_emod (t - start) len
    have hmod := Int.emod_lt_of_pos (t - start) hlen
    have hnonneg := Int.emod_nonneg (t - start) hlen.ne'
    have hquot : 0 ≤ (t - start) / len := Int.ediv_nonneg (by omega) hlen.le
    have hi : (((t - start) / len).toNat : Int) = (t - start) / len := Int.toNat_of_nonneg hquot
    have hcomm := Int.mul_comm len ((t - start) / len)
    refine ⟨((t - start) / len).toNat, ?_, ?_⟩
    · have hbelow : (t - start) / len < count + 1 := by
        refine Int.ediv_lt_of_lt_mul hlen ?_
        have hexpand : ((count : Int) + 1) * len = count * len + len := by rw [Int.add_mul, Int.one_mul]
        omega
      omega
    · symm
      apply (trunc_eq_iff hlen (hbucket _)).2
      rw [hi]
      omega

end Explorer.Buckets
