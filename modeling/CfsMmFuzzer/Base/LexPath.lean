-- SUMMARY: Lexical path resolution over an arbitrary alphabet, and what a path that climbs at its end resolves to.
import Mathlib.Data.List.Infix
import Mathlib.Tactic.Common

/-!
# Lexical paths

A path is a character sequence, cut into components at a separator. Resolution
drops empty components and single dots and lets a double dot remove the
component before it; nothing is looked up.

The results are about paths `d ++ sep :: rest` below a directory `d` in which a
double dot can only be the last component. Such a path stays below `d` unless
`rest` *climbs*: unless it is a double dot behind nothing but empty components
and single dots.
-/

namespace LexPath

variable {α : Type*} [DecidableEq α] (sep dot : α)

def components (p : List α) : List (List α) := p.splitOn sep

/-- Apply one component to the resolved components so far, innermost first. -/
def step (stack : List (List α)) (c : List α) : List (List α) :=
  if c = [] ∨ c = [dot] then stack
  else if c = [dot, dot] then stack.tail
  else c :: stack

/-- The components of `p` after lexical normalisation. -/
def resolve (p : List α) : List (List α) :=
  ((components sep p).foldl (step dot) []).reverse

/-- The component is a name: neither empty nor made of one or two dots. -/
def IsName (c : List α) : Prop := ¬ (c = [] ∨ c = [dot]) ∧ c ≠ [dot, dot]

instance (c : List α) : Decidable (IsName dot c) := inferInstanceAs (Decidable (_ ∧ _))

/-- A double dot with nothing before it to remove. -/
def Climbs (cs : List (List α)) : Prop :=
  ∃ ds, cs = ds ++ [[dot, dot]] ∧ ∀ d ∈ ds, d = [] ∨ d = [dot]

variable {sep dot}

/-! ## Components -/

variable (sep) in
theorem components_ne_nil (p : List α) : components sep p ≠ [] := List.splitOn_ne_nil sep p

theorem components_append_cons (p q : List α) :
    components sep (p ++ sep :: q) = components sep p ++ components sep q :=
  List.splitOn_append_cons_self p q

variable (sep) in
theorem eq_sep_or_mem_of_mem {p : List α} {x : α} (h : x ∈ p) :
    x = sep ∨ ∃ c ∈ components sep p, x ∈ c := by
  induction p with
  | nil => simp at h
  | cons y p ih =>
      obtain ⟨d, ds, hds⟩ := List.exists_cons_of_ne_nil (components_ne_nil sep p)
      simp only [components] at hds ih ⊢
      simp only [List.splitOn_cons_eq_if_modifyHead, beq_iff_eq, hds]
      simp only [hds] at ih
      rcases List.mem_cons.mp h with rfl | h
      · by_cases hy : x = sep
        · exact .inl hy
        · exact .inr ⟨x :: d, by simp [hy], by simp⟩
      · rcases ih h with rfl | ⟨c, hc, hx⟩
        · exact .inl rfl
        · right
          split
          case isTrue => exact ⟨c, List.mem_cons_of_mem _ hc, hx⟩
          case isFalse =>
            rcases List.mem_cons.mp hc with rfl | hc
            · exact ⟨y :: c, by simp, List.mem_cons_of_mem _ hx⟩
            · exact ⟨c, by simp [hc], hx⟩

/-- A component before the last one stands in the path with a separator behind it. -/
theorem infix_of_components_eq {p c : List α} {xs ys : List (List α)} (hys : ys ≠ [])
    (h : components sep p = xs ++ c :: ys) : c ++ [sep] <:+: p := by
  have hp : [sep].intercalate (components sep p) = p := List.intercalate_splitOn sep
  rw [← hp, h]
  clear h hp
  induction xs with
  | nil =>
      rw [List.nil_append, List.intercalate_cons_of_ne_nil hys]
      exact (List.prefix_append _ _).isInfix
  | cons x xs ih =>
      rw [List.cons_append, List.intercalate_cons_of_ne_nil (by simp)]
      exact ih.trans (List.suffix_append _ _).isInfix

/-- A separator-free piece at the end of a path is the end of its last component. -/
theorem suffix_getLast_components {p c : List α} (hc : sep ∉ c) :
    c <:+ (components sep (p ++ c)).getLast (components_ne_nil sep _) := by
  induction p with
  | nil =>
      simp only [List.nil_append, components, List.splitOn_eq_singleton hc]
      exact List.suffix_rfl
  | cons x p ih =>
      simp only [List.cons_append]
      have hne := components_ne_nil sep (p ++ c)
      obtain ⟨d, ds, hds⟩ := List.exists_cons_of_ne_nil hne
      simp only [hds] at ih
      simp only [components] at hds
      simp only [components, List.splitOn_cons_eq_if_modifyHead, hds]
      split
      case isTrue =>
        rw [List.getLast_cons (by simp)]
        exact ih
      case isFalse =>
        simp only [List.modifyHead_cons]
        cases ds with
        | nil => exact ih.trans (List.suffix_cons x d)
        | cons d' ds => simpa using ih

/-! ## Resolution -/

theorem step_of_skip {stack : List (List α)} {c : List α} (h : c = [] ∨ c = [dot]) :
    step dot stack c = stack := if_pos h

theorem step_dotdot (stack : List (List α)) : step dot stack [dot, dot] = stack.tail := by
  simp [step]

theorem step_of_isName {stack : List (List α)} {c : List α} (h : IsName dot c) :
    step dot stack c = c :: stack := by
  rw [step, if_neg h.1, if_neg h.2]

/-- Components without a double dot only add names. -/
theorem foldl_step {cs : List (List α)} (h : [dot, dot] ∉ cs) (stack : List (List α)) :
    cs.foldl (step dot) stack = (cs.filter (IsName dot ·)).reverse ++ stack := by
  induction cs generalizing stack with
  | nil => simp
  | cons c cs ih =>
      simp only [List.mem_cons, not_or] at h
      rw [List.foldl_cons, ih h.2]
      by_cases hc : c = [] ∨ c = [dot]
      · rw [step_of_skip hc, List.filter_cons_of_neg (by simp [IsName, hc])]
      · have hname : IsName dot c := ⟨hc, Ne.symm h.1⟩
        rw [step_of_isName hname, List.filter_cons_of_pos (by simpa using hname)]
        simp

theorem resolve_append_cons (d rest : List α) :
    resolve sep dot (d ++ sep :: rest) =
      ((components sep rest).foldl (step dot) (resolve sep dot d).reverse).reverse := by
  rw [resolve, resolve, components_append_cons, List.foldl_append, List.reverse_reverse]

/-- A climbing path resolves to the parent of its directory. -/
theorem resolve_of_climbs {d rest : List α} (h : Climbs dot (components sep rest)) :
    resolve sep dot (d ++ sep :: rest) = (resolve sep dot d).dropLast := by
  obtain ⟨ds, hds, hskip⟩ := h
  have hno : [dot, dot] ∉ ds := fun hm => by simpa using hskip _ hm
  have hfilter : ds.filter (IsName dot ·) = [] := by
    rw [List.filter_eq_nil_iff]
    intro c hc
    simp [IsName, hskip c hc]
  rw [resolve_append_cons, hds, List.foldl_append, foldl_step hno, hfilter]
  simp [step_dotdot]

/-- When a double dot can only come last, a path that does not climb stays
below its directory. -/
theorem prefix_resolve_of_not_climbs {d rest : List α}
    (hno : [dot, dot] ∉ (components sep rest).dropLast)
    (h : ¬ Climbs dot (components sep rest)) :
    resolve sep dot d <+: resolve sep dot (d ++ sep :: rest) := by
  have hsplit := (List.dropLast_append_getLast (components_ne_nil sep rest)).symm
  generalize (components sep rest).getLast _ = c at hsplit
  generalize (components sep rest).dropLast = ds at hno hsplit
  rw [resolve_append_cons, hsplit, List.foldl_append, foldl_step hno]
  by_cases hc : c = [dot, dot]
  · subst hc
    simp only [List.foldl_cons, List.foldl_nil, step_dotdot]
    cases hnames : ds.filter (IsName dot ·) with
    | nil =>
        refine absurd ⟨ds, hsplit, fun d hd => ?_⟩ h
        by_contra hskip
        have hname : IsName dot d := ⟨hskip, fun he => hno (he ▸ hd)⟩
        have : d ∈ ds.filter (IsName dot ·) := List.mem_filter.mpr ⟨hd, by simpa using hname⟩
        simp [hnames] at this
    | cons x xs =>
        obtain ⟨ys, y, hy⟩ : ∃ ys y, x :: xs = ys ++ [y] :=
          ⟨_, _, (List.dropLast_append_getLast (List.cons_ne_nil x xs)).symm⟩
        rw [hy]
        simp
  · rw [foldl_step (by simpa using Ne.symm hc)]
    simp

end LexPath
