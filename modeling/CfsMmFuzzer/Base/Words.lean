-- SUMMARY: Counting words over a finite alphabet: words in segments, and the words that take a machine along given labels.
import Mathlib.Algebra.BigOperators.Group.Finset.Basic
import Mathlib.Data.Int.CardIntervalMod
import Mathlib.Data.List.DropRight
import Mathlib.Data.Set.Card
import Mathlib.Data.Set.Finite.List
import Mathlib.SetTheory.Cardinal.Finite

/-!
# Counting words

Words of one length are counted by their first letter. Where the properties of a
word are those of its segments, the numbers multiply. A machine that puts a label
on each letter it reads, with as many letters for a label in every state, has a
number of words for a word of labels that does not depend on its state.
-/

namespace Words

variable {α β σ : Type*}

/-- The words of a length with a property. -/
def words (n : Nat) (P : List α → Prop) : Set (List α) := {w | w.length = n ∧ P w}

theorem finite_words [Finite α] (n : Nat) (P : List α → Prop) : (words n P).Finite :=
  (List.finite_length_eq α n).subset fun _ hw => hw.1

theorem words_congr {n : Nat} {P Q : List α → Prop} (h : ∀ w, w.length = n → (P w ↔ Q w)) :
    words n P = words n Q :=
  Set.ext fun _ => and_congr_right fun hw => h _ hw

/-- A word, by its first letter and its rest. -/
def wordsEquiv (n : Nat) (P : List α → Prop) :
    words (n + 1) P ≃ Σ a, words n fun w => P (a :: w) where
  toFun
    | ⟨[], hw⟩ => absurd hw.1 n.succ_ne_zero.symm
    | ⟨a :: w, hw⟩ => ⟨a, w, Nat.succ.inj hw.1, hw.2⟩
  invFun | ⟨a, w, hw⟩ => ⟨a :: w, congrArg Nat.succ hw.1, hw.2⟩
  left_inv
    | ⟨[], hw⟩ => absurd hw.1 n.succ_ne_zero.symm
    | ⟨_ :: _, _⟩ => rfl
  right_inv | ⟨_, _, _⟩ => rfl

theorem ncard_words_zero {P : List α → Prop} (h : P []) : (words 0 P).ncard = 1 := by
  rw [Set.ncard_eq_one]
  refine ⟨[], Set.ext fun w => ⟨fun hw => List.length_eq_zero_iff.mp hw.1, ?_⟩⟩
  rintro rfl
  exact ⟨rfl, h⟩

theorem ncard_words_one (P : List α → Prop) : (words 1 P).ncard = {a | P [a]}.ncard := by
  have himage : words 1 P = Set.image (fun a => [a]) {a | P [a]} := by
    ext w
    constructor
    · rintro ⟨hw, hP⟩
      obtain ⟨a, rfl⟩ := List.length_eq_one_iff.mp hw
      exact ⟨a, hP, rfl⟩
    · rintro ⟨a, hP, rfl⟩
      exact ⟨rfl, hP⟩
  rw [himage, Set.ncard_image_of_injective _ fun _ _ h => (List.cons.inj h).1]

/-- Functions that tell apart the same elements of a set have as many values on it. -/
theorem ncard_image_eq_of_iff {f : α → β} {g : α → σ} {s : Set α}
    (h : ∀ a ∈ s, ∀ b ∈ s, (f a = f b ↔ g a = g b)) :
    (Set.image f s).ncard = (Set.image g s).ncard := by
  refine Set.ncard_congr (fun _ hv => g hv.choose) ?_ ?_ ?_
  · intro v hv
    exact ⟨_, hv.choose_spec.1, rfl⟩
  · intro v w hv hw hvw
    rw [← hv.choose_spec.2, ← hw.choose_spec.2]
    exact (h _ hv.choose_spec.1 _ hw.choose_spec.1).mpr hvw
  · rintro _ ⟨a, ha, rfl⟩
    have hv : f a ∈ Set.image f s := ⟨a, ha, rfl⟩
    exact ⟨f a, hv, (h _ hv.choose_spec.1 _ ha).mp hv.choose_spec.2⟩

section Count

variable [Fintype α]

theorem ncard_words_succ (n : Nat) (P : List α → Prop) :
    (words (n + 1) P).ncard = ∑ a, (words n fun w => P (a :: w)).ncard := by
  have hfinite : ∀ a, Finite (words n fun w => P (a :: w)) := fun a => (finite_words n _).to_subtype
  simp only [← Nat.card_coe_set_eq]
  rw [Nat.card_congr (wordsEquiv n P), Nat.card_sigma]

theorem ncard_words_false (n : Nat) : (words n fun _ : List α => False).ncard = 0 := by
  rw [Set.ncard_eq_zero (finite_words n _)]
  exact Set.ext fun w => ⟨fun hw => hw.2, False.elim⟩

theorem ncard_words_true (n : Nat) :
    (words n fun _ : List α => True).ncard = Fintype.card α ^ n := by
  induction n with
  | zero => exact ncard_words_zero trivial
  | succ n ih =>
    rw [ncard_words_succ, Finset.sum_const_nat fun _ _ => ih, Finset.card_univ, Nat.pow_succ']

end Count

/-! ## Segments -/

theorem ncard_words_append (m n : Nat) (P Q : List α → Prop) :
    (words (m + n) fun w => P (w.take m) ∧ Q (w.drop m)).ncard =
      (words m P).ncard * (words n Q).ncard := by
  have himage : (words (m + n) fun w => P (w.take m) ∧ Q (w.drop m)) =
      Set.image (fun p => p.1 ++ p.2) (words m P ×ˢ words n Q) := by
    ext w
    constructor
    · rintro ⟨hw, hP, hQ⟩
      have hpre : (w.take m).length = m := List.length_take_of_le (by omega)
      have hpost : (w.drop m).length = n := by rw [List.length_drop, hw, Nat.add_sub_cancel_left]
      exact ⟨(w.take m, w.drop m), ⟨⟨hpre, hP⟩, ⟨hpost, hQ⟩⟩, List.take_append_drop m w⟩
    · rintro ⟨⟨u, v⟩, ⟨⟨rfl, hP⟩, ⟨hv, hQ⟩⟩, rfl⟩
      refine ⟨by rw [List.length_append, hv], ?_, ?_⟩
      · rwa [List.take_left]
      · rwa [List.drop_left]
  have hinj : Set.InjOn (fun p : List α × List α => p.1 ++ p.2) (words m P ×ˢ words n Q) := by
    rintro ⟨u, v⟩ ⟨⟨hu, -⟩, -⟩ ⟨u', v'⟩ ⟨⟨hu', -⟩, -⟩ h
    obtain ⟨rfl, rfl⟩ := List.append_inj h (hu.trans hu'.symm)
    rfl
  rw [himage, hinj.ncard_image, Set.ncard_prod]

/-- The first letters of a word, cut into segments, have the properties of the segments. -/
def Segments : List (Nat × (List α → Prop)) → List α → Prop
  | [], _ => True
  | (k, P) :: segments, w => P (w.take k) ∧ Segments segments (w.drop k)

/-- The segments are chosen one by one, and what follows them is free. -/
theorem ncard_segments [Fintype α] (segments : List (Nat × (List α → Prop))) (n : Nat) :
    (words ((segments.map Prod.fst).sum + n) (Segments segments)).ncard =
      (segments.map fun s => (words s.1 s.2).ncard).prod * Fintype.card α ^ n := by
  induction segments with
  | nil =>
    rw [List.map_nil, List.map_nil, List.sum_nil, List.prod_nil, Nat.zero_add, Nat.one_mul]
    exact ncard_words_true n
  | cons s segments ih =>
    rw [List.map_cons, List.map_cons, List.sum_cons, List.prod_cons, Nat.add_assoc, Nat.mul_assoc,
      ← ih]
    exact ncard_words_append s.1 _ s.2 (Segments segments)

/-! ## Residues -/

/-- The number of values below a bound with one residue. -/
def residues (bound modulus r : Nat) : Nat :=
  bound / modulus + if r < bound % modulus then 1 else 0

theorem ncard_residues {bound modulus r : Nat} (hr : r < modulus) :
    {v | v < bound ∧ v % modulus = r}.ncard = residues bound modulus r := by
  have hfilter : {v | v < bound ∧ v % modulus = r} =
      ((Finset.range bound).filter (· ≡ r [MOD modulus]) : Set Nat) := by
    ext v
    rw [Finset.mem_coe, Finset.mem_filter, Finset.mem_range, Nat.ModEq, Nat.mod_eq_of_lt hr]
    rfl
  rw [hfilter, Set.ncard_coe_finset, ← Nat.count_eq_card_filter_range,
    Nat.count_modEq_card _ (Nat.zero_lt_of_lt hr), Nat.mod_eq_of_lt hr, residues]

theorem residues_of_dvd {bound modulus r : Nat} (h : modulus ∣ bound) :
    residues bound modulus r = bound / modulus := by
  rw [residues, Nat.mod_eq_zero_of_dvd h, if_neg (Nat.not_lt_zero r), Nat.add_zero]

/-! ## Labels -/

section Labels

variable (step : σ → α → σ) (label : σ → α → β)

/-- The labels that a machine puts on a word. -/
def labels : σ → List α → List β
  | _, [] => []
  | s, a :: w => label s a :: labels (step s a) w

@[simp] theorem length_labels (s : σ) (w : List α) : (labels step label s w).length = w.length := by
  induction w generalizing s with
  | nil => rfl
  | cons a w ih => rw [labels, List.length_cons, ih, List.length_cons]

theorem rtake_cons {b : β} {bs : List β} {k : Nat} (h : k ≤ bs.length) :
    (b :: bs).rtake k = bs.rtake k := by
  rw [List.rtake, List.rtake, List.length_cons, Nat.succ_sub h, List.drop_succ_cons]

variable {step label}

theorem exists_of_mem_labels {s : σ} {w : List α} {b : β} (h : b ∈ labels step label s w) :
    ∃ s a, label s a = b := by
  induction w generalizing s with
  | nil => cases h
  | cons a w ih =>
    obtain hb | hb := List.mem_cons.mp h
    · exact ⟨s, a, hb.symm⟩
    · exact ih hb

variable [Fintype α] [DecidableEq β] {weight : β → Nat}

/-- The words with given labels. -/
theorem ncard_labels_eq (hweight : ∀ s b, {a | label s a = b}.ncard = weight b) (s : σ)
    (bs : List β) :
    (words bs.length fun w => labels step label s w = bs).ncard = (bs.map weight).prod := by
  induction bs generalizing s with
  | nil => exact ncard_words_zero rfl
  | cons b bs ih =>
    -- only the letters with the first label lead on
    have hletter : ∀ a, (words bs.length fun w => labels step label s (a :: w) = b :: bs).ncard =
        if label s a = b then (bs.map weight).prod else 0 := by
      intro a
      split
      case isTrue hb =>
        rw [← ih (step s a)]
        refine congrArg _ (words_congr fun w _ => ?_)
        rw [labels, List.cons.injEq, and_iff_right hb]
      case isFalse hb =>
        rw [← ncard_words_false (α := α) bs.length]
        refine congrArg _ (words_congr fun w _ => ?_)
        rw [labels, List.cons.injEq, iff_false]
        exact fun h => hb h.1
    have hcard : (Finset.univ.filter fun a => label s a = b).card = weight b := by
      rw [← hweight s b, ← Set.ncard_coe_finset, Finset.coe_filter_univ]
    rw [List.length_cons, ncard_words_succ, Finset.sum_congr rfl fun a _ => hletter a,
      ← Finset.sum_filter, Finset.sum_const_nat fun _ _ => rfl, hcard, List.map_cons,
      List.prod_cons]

/-- The words with given last labels: all letters before them are free. -/
theorem ncard_rtake_labels_eq (hweight : ∀ s b, {a | label s a = b}.ncard = weight b) (s : σ)
    (bs : List β) (n : Nat) :
    (words (n + bs.length) fun w => (labels step label s w).rtake bs.length = bs).ncard =
      Fintype.card α ^ n * (bs.map weight).prod := by
  induction n generalizing s with
  | zero =>
    rw [Nat.zero_add, Nat.pow_zero, Nat.one_mul, ← ncard_labels_eq hweight s bs]
    refine congrArg _ (words_congr fun w hw => ?_)
    rw [List.rtake, length_labels, hw, Nat.sub_self, List.drop_zero]
  | succ n ih =>
    have hletter : ∀ a, (words (n + bs.length) fun w =>
        (labels step label s (a :: w)).rtake bs.length = bs).ncard =
          Fintype.card α ^ n * (bs.map weight).prod := by
      intro a
      rw [← ih (step s a)]
      refine congrArg _ (words_congr fun w hw => ?_)
      rw [labels, rtake_cons (by rw [length_labels, hw]; exact Nat.le_add_left _ _)]
    rw [Nat.add_right_comm, ncard_words_succ, Finset.sum_const_nat fun a _ => hletter a,
      Finset.card_univ, Nat.pow_succ', Nat.mul_assoc]

end Labels

end Words
