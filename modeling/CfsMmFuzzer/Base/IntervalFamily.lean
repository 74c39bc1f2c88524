-- SUMMARY: Families of disjoint intervals: when a range covered by several of them lies in one.
import CfsMmFuzzer.Base.WrapRange

/-!
# Families of intervals

A range may be covered cell by cell by intervals of a family without lying in
any single one. For disjoint intervals the difference is where they end: a
covered range lies in one interval exactly when none ends inside it.
-/

namespace IntervalFamily

open WrapRange

variable {ι : Type*} {s : Set ι} {lo hi : ι → Nat} {a m n : Nat}

/-- Every cell of the range belongs to some interval. -/
def Covered (s : Set ι) (lo hi : ι → Nat) (a n : Nat) : Prop :=
  ∀ x, a ≤ x → x < a + n → ∃ i ∈ s, lo i ≤ x ∧ x ≤ hi i

/-- All cells of the range belong to one interval. -/
def InOne (s : Set ι) (lo hi : ι → Nat) (a n : Nat) : Prop :=
  ∃ i ∈ s, Within (lo i) (hi i) a n

/-- Some interval has its last cell in the range, but not as the last of the range. -/
def EndsInside (s : Set ι) (hi : ι → Nat) (a n : Nat) : Prop :=
  ∃ i ∈ s, a ≤ hi i ∧ hi i + 1 < a + n

/-- No interval is empty, and no two of them have a cell in common. -/
structure Separate (s : Set ι) (lo hi : ι → Nat) : Prop where
  nonempty : ∀ i ∈ s, lo i ≤ hi i
  eq_of_mem : ∀ i ∈ s, ∀ j ∈ s, ∀ x, lo i ≤ x → x ≤ hi i → lo j ≤ x → x ≤ hi j → i = j

theorem InOne.covered (h : InOne s lo hi a n) : Covered s lo hi a n := by
  obtain ⟨i, his, hlo, hhi⟩ := h
  intro x hax hxn
  exact ⟨i, his, by omega, by omega⟩

theorem Covered.append (hm : Covered s lo hi a m) (hn : Covered s lo hi (a + m) n) :
    Covered s lo hi a (m + n) := by
  intro x hax hxn
  rcases Nat.lt_or_ge x (a + m) with hlt | hge
  · exact hm x hax hlt
  · exact hn x hge (by omega)

theorem InOne.not_endsInside (hsep : Separate s lo hi) (h : InOne s lo hi a n) :
    ¬ EndsInside s hi a n := by
  intro hends
  obtain ⟨i, his, hlo, hhi⟩ := h
  obtain ⟨j, hjs, haj, hjn⟩ := hends
  have hij : i = j :=
    hsep.eq_of_mem i his j hjs (hi j) (by omega) (by omega) (hsep.nonempty j hjs) (Nat.le_refl _)
  subst hij
  omega

/-- **A covered range lies in one interval exactly when none ends inside it.** -/
theorem Covered.inOne_iff (hsep : Separate s lo hi) (hn : 0 < n) (h : Covered s lo hi a n) :
    InOne s lo hi a n ↔ ¬ EndsInside s hi a n := by
  constructor
  · exact InOne.not_endsInside hsep
  · intro hends
    -- the interval of the first cell goes on to the last
    obtain ⟨i, his, hlo, hhi⟩ := h a (Nat.le_refl a) (by omega)
    refine ⟨i, his, hlo, ?_⟩
    by_contra hout
    exact hends ⟨i, his, hhi, by omega⟩

/-- Two ranges side by side lie in one interval together, if each lies in one,
exactly when no interval ends where they meet. -/
theorem InOne.append_iff (hsep : Separate s lo hi) (hm : 0 < m) (hn : 0 < n)
    (h₁ : InOne s lo hi a m) (h₂ : InOne s lo hi (a + m) n) :
    InOne s lo hi a (m + n) ↔ ¬ ∃ i ∈ s, hi i + 1 = a + m := by
  rw [(h₁.covered.append h₂.covered).inOne_iff hsep (by omega), not_iff_not]
  constructor
  · intro hends
    obtain ⟨i, his, hai, hin⟩ := hends
    refine ⟨i, his, ?_⟩
    have hout₁ : ¬ hi i + 1 < a + m :=
      fun hlt => h₁.not_endsInside hsep ⟨i, his, hai, hlt⟩
    have hout₂ : ¬ a + m ≤ hi i :=
      fun hle => h₂.not_endsInside hsep ⟨i, his, hle, by omega⟩
    omega
  · intro hseam
    obtain ⟨i, his, heq⟩ := hseam
    exact ⟨i, his, by omega, by omega⟩

end IntervalFamily
