import Mathlib.NumberTheory.Bertrand
import MessageCatalog.Catalog.Image

/-! The size of a hash table is a prime: trial division decides, and the search for a prime ends. -/
namespace MessageCatalog.Catalog

theorem hasDivisorFrom_iff (n d : ℕ) :
    hasDivisorFrom n d = true ↔ ∃ e, d ≤ e ∧ e % 2 = d % 2 ∧ e * e ≤ n ∧ e ∣ n := by
  induction d using hasDivisorFrom.induct n with
  | case1 d hd ih =>
    rw [hasDivisorFrom, if_pos hd, Bool.or_eq_true, ih, beq_iff_eq]
    constructor
    · rintro (h | ⟨e, he, hp, hs, hn⟩)
      · exact ⟨d, le_rfl, rfl, hd, Nat.dvd_of_mod_eq_zero h⟩
      · exact ⟨e, by omega, by omega, hs, hn⟩
    · rintro ⟨e, he, hp, hs, hn⟩
      by_cases h : e = d
      · exact Or.inl (Nat.mod_eq_zero_of_dvd (h ▸ hn))
      · exact Or.inr ⟨e, by omega, by omega, hs, hn⟩
  | case2 d hd =>
    rw [hasDivisorFrom, if_neg hd]
    refine ⟨by simp, ?_⟩
    rintro ⟨e, he, -, hs, -⟩
    exact absurd ((Nat.mul_le_mul he he).trans hs) hd

theorem hasDivisorFrom_three_iff {n : ℕ} (h : 3 ≤ n) (ho : n % 2 = 1) :
    hasDivisorFrom n 3 = true ↔ ¬n.Prime := by
  rw [hasDivisorFrom_iff]
  constructor
  · rintro ⟨e, he, -, hs, hn⟩ hp
    obtain rfl : e = n := ((Nat.dvd_prime_two_le hp (by omega)).mp hn)
    nlinarith
  · intro hp
    have hd := Nat.minFac_dvd n
    have hodd : n.minFac % 2 = 1 := by
      by_contra hne
      have h2 : 2 ∣ n := (Nat.dvd_of_mod_eq_zero (by omega)).trans hd
      omega
    have h2 := (Nat.minFac_prime (by omega : n ≠ 1)).two_le
    refine ⟨n.minFac, by omega, by omega, ?_, hd⟩
    rw [← pow_two]
    exact Nat.minFac_sq_le_self (by omega) hp

theorem hasDivisorFrom_three_eq_false_iff {n : ℕ} (h : 3 ≤ n) (ho : n % 2 = 1) :
    hasDivisorFrom n 3 = false ↔ n.Prime := by
  rw [← Bool.not_eq_true, hasDivisorFrom_three_iff h ho, not_not]

/-- A search for a prime that is given no budget: it ends at the first candidate without a smaller
odd divisor. -/
inductive EndsAt : ℕ → ℕ → Prop
  | found {candidate : ℕ} : hasDivisorFrom candidate 3 = false → EndsAt candidate candidate
  | next {candidate p : ℕ} : hasDivisorFrom candidate 3 = true → EndsAt (candidate + 2) p →
      EndsAt candidate p

/-- The search steps over composite numbers only, so it ends at the least prime. -/
theorem EndsAt.spec {candidate p : ℕ} (he : EndsAt candidate p) (h : 3 ≤ candidate)
    (ho : candidate % 2 = 1) :
    p.Prime ∧ candidate ≤ p ∧ ∀ q, q.Prime → candidate ≤ q → p ≤ q := by
  induction he with
  | @found candidate hd =>
    exact ⟨(hasDivisorFrom_three_eq_false_iff h ho).mp hd, le_rfl, fun q _ hq => hq⟩
  | @next candidate p hd _ ih =>
    rw [hasDivisorFrom_three_iff h ho] at hd
    obtain ⟨hp, hle, hleast⟩ := ih (by omega) (by omega)
    refine ⟨hp, by omega, fun q hq hcq => hleast q hq ?_⟩
    have hne : q ≠ candidate := fun he => hd (he ▸ hq)
    have hqo := hq.eq_two_or_odd
    omega

/-- A budget that reaches a prime is not used up. -/
theorem endsAt_primeFrom {candidate k p : ℕ} (h : 3 ≤ candidate) (ho : candidate % 2 = 1)
    (hp : p.Prime) (hlo : candidate ≤ p) (hhi : p ≤ candidate + 2 * k) :
    EndsAt candidate (primeFrom candidate k) := by
  induction k generalizing candidate with
  | zero =>
    obtain rfl : candidate = p := by omega
    exact .found ((hasDivisorFrom_three_eq_false_iff h ho).mpr hp)
  | succ k ih =>
    rw [primeFrom]
    split_ifs with hd
    · have hne : candidate ≠ p := by
        rintro rfl
        exact (hasDivisorFrom_three_iff h ho).mp hd hp
      have hpo := hp.eq_two_or_odd
      exact .next hd (ih (by omega) (by omega) (by omega) (by omega))
    · exact .found (Bool.eq_false_of_not_eq_true hd)

/-- The search starts at the first odd number, and by Bertrand's postulate it ends within its
budget. -/
theorem endsAt_nextPrime {n : ℕ} (h : 3 ≤ n) : EndsAt (n / 2 * 2 + 1) (nextPrime n) := by
  obtain ⟨p, hp, hlo, hhi⟩ := Nat.exists_prime_lt_and_le_two_mul n (by omega)
  have hstart : (if n % 2 = 0 then n + 1 else n) = n / 2 * 2 + 1 := by split_ifs <;> omega
  rw [nextPrime, hstart]
  exact endsAt_primeFrom (by omega) (by omega) hp (by omega) (by omega)

theorem nextPrime_spec {n : ℕ} (h : 3 ≤ n) :
    (nextPrime n).Prime ∧ n ≤ nextPrime n ∧ ∀ q, q.Prime → n ≤ q → nextPrime n ≤ q := by
  obtain ⟨hp, hle, hleast⟩ := (endsAt_nextPrime h).spec (by omega) (by omega)
  refine ⟨hp, by omega, fun q hq hnq => hleast q hq ?_⟩
  have hqo := hq.eq_two_or_odd
  omega

theorem isLeast_nextPrime {n : ℕ} (h : 3 ≤ n) : IsLeast {p | p.Prime ∧ n ≤ p} (nextPrime n) := by
  obtain ⟨hp, hle, hleast⟩ := nextPrime_spec h
  exact ⟨⟨hp, hle⟩, fun q hq => hleast q hq.1 hq.2⟩

theorem tableSize_prime (count : ℕ) : (tableSize count).Prime :=
  (nextPrime_spec (le_max_right _ _)).1

theorem le_tableSize (count : ℕ) : max (count * 4 / 3) 3 ≤ tableSize count :=
  (nextPrime_spec (le_max_right _ _)).2.1

theorem tableSize_le {count p : ℕ} (hp : p.Prime) (h : max (count * 4 / 3) 3 ≤ p) :
    tableSize count ≤ p :=
  (nextPrime_spec (le_max_right _ _)).2.2 p hp h

theorem two_lt_tableSize (count : ℕ) : 2 < tableSize count :=
  (le_max_right _ _).trans (le_tableSize count)

theorem count_lt_tableSize (count : ℕ) : count < tableSize count := by
  have h := le_tableSize count
  omega

end MessageCatalog.Catalog
