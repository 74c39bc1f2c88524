-- SUMMARY: The discipline of holding at most one handle at a time, and what follows for its acquisitions, uses and releases.
import Mathlib.Data.List.Nodup
import Mathlib.Tactic.Common

/-!
# One handle at a time

A trace of operations on handles, some of which are standard and always usable.
`Obeys` says that a trace acquires a handle only when it holds none, releases
only the one it holds, and uses no other but the standard ones. The lemmas read
the usual properties off it: never two at once, no double release, no use after
release.
-/

namespace OneHandle

variable {η : Type*}

inductive Op (η : Type*) where
  | acquire (h : η)
  | release (h : η)
  | use (h : η)

namespace Op

def acquired? : Op η → Option η
  | acquire h => some h
  | _ => none

def released? : Op η → Option η
  | release h => some h
  | _ => none

/-- The handles that are held after an operation. -/
def held [DecidableEq η] (handles : List η) : Op η → List η
  | acquire h => h :: handles
  | release h => handles.erase h
  | use _ => handles

end Op

def acquired (ops : List (Op η)) : List η := ops.filterMap Op.acquired?
def released (ops : List (Op η)) : List η := ops.filterMap Op.released?

/-- The handles that are acquired and not released. -/
def held [DecidableEq η] (ops : List (Op η)) : List η := ops.foldl Op.held []

/-- The trace leads from the handle that is held to that of the second state. -/
inductive Obeys (std : η → Prop) : Option η → List (Op η) → Option η → Prop where
  | nil {o : Option η} : Obeys std o [] o
  | acquire {h : η} {ops : List (Op η)} {o : Option η}
      (rest : Obeys std (some h) ops o) : Obeys std none (.acquire h :: ops) o
  | release {h : η} {ops : List (Op η)} {o : Option η}
      (rest : Obeys std none ops o) : Obeys std (some h) (.release h :: ops) o
  | useStd {h : η} {ops : List (Op η)} {o o' : Option η} (hh : std h)
      (rest : Obeys std o ops o') : Obeys std o (.use h :: ops) o'
  | useHeld {h : η} {ops : List (Op η)} {o : Option η}
      (rest : Obeys std (some h) ops o) : Obeys std (some h) (.use h :: ops) o

variable {std : η → Prop} {o o₁ o₂ : Option η} {ops ops' : List (Op η)} {h : η}

namespace Obeys

theorem append (h₁ : Obeys std o ops o₁) (h₂ : Obeys std o₁ ops' o₂) :
    Obeys std o (ops ++ ops') o₂ := by
  induction h₁ with
  | nil => exact h₂
  | acquire _ ih => exact acquire (ih h₂)
  | release _ ih => exact release (ih h₂)
  | useStd hh _ ih => exact useStd hh (ih h₂)
  | useHeld _ ih => exact useHeld (ih h₂)

theorem split (h : Obeys std o (ops ++ ops') o₂) :
    ∃ o₁, Obeys std o ops o₁ ∧ Obeys std o₁ ops' o₂ := by
  induction ops generalizing o with
  | nil => exact ⟨o, nil, h⟩
  | cons op ops ih =>
    cases h with
    | acquire rest =>
      obtain ⟨o₁, h₁, h₂⟩ := ih rest
      exact ⟨o₁, acquire h₁, h₂⟩
    | release rest =>
      obtain ⟨o₁, h₁, h₂⟩ := ih rest
      exact ⟨o₁, release h₁, h₂⟩
    | useStd hh rest =>
      obtain ⟨o₁, h₁, h₂⟩ := ih rest
      exact ⟨o₁, useStd hh h₁, h₂⟩
    | useHeld rest =>
      obtain ⟨o₁, h₁, h₂⟩ := ih rest
      exact ⟨o₁, useHeld h₁, h₂⟩

/-- What is acquired is released in the same order, but for the handle still held. -/
theorem acquired_eq (h : Obeys std o ops o₂) :
    o.toList ++ acquired ops = released ops ++ o₂.toList := by
  induction h with
  | @nil o => exact List.append_nil o.toList
  | acquire _ ih => exact ih
  | @release h _ _ _ ih => exact congrArg (h :: ·) ih
  | useStd _ _ ih => exact ih
  | useHeld _ ih => exact ih

/-- Only acquired handles are released. -/
theorem mem_acquired_of_mem_released (h₁ : Obeys std none ops o) (hmem : h ∈ released ops) :
    h ∈ acquired ops := by
  have heq : acquired ops = released ops ++ o.toList := h₁.acquired_eq
  rw [heq]
  exact List.mem_append_left _ hmem

/-- If every acquired handle is new, none is released twice. -/
theorem nodup_released (h : Obeys std none ops o) (hnew : (acquired ops).Nodup) :
    (released ops).Nodup := by
  have heq : acquired ops = released ops ++ o.toList := h.acquired_eq
  rw [heq] at hnew
  exact hnew.of_append_left

/-- If every acquired handle is new, the one that is held has not been released. -/
theorem not_mem_released (h₁ : Obeys std none ops (some h)) (hnew : (acquired ops).Nodup) :
    h ∉ released ops := by
  have heq : acquired ops = released ops ++ [h] := h₁.acquired_eq
  rw [heq] at hnew
  intro hmem
  exact (List.disjoint_of_nodup_append hnew) hmem (List.mem_singleton_self h)

section Held

variable [DecidableEq η]

theorem foldl_held (h : Obeys std o ops o₂) : ops.foldl Op.held o.toList = o₂.toList := by
  induction h with
  | nil => rfl
  | acquire _ ih => exact ih
  | release _ ih => simpa [Op.held] using ih
  | useStd _ _ ih => exact ih
  | useHeld _ ih => exact ih

theorem held_eq (h : Obeys std none ops o) : held ops = o.toList := h.foldl_held

/-- Never two at once. -/
theorem length_held_le (h : Obeys std none (ops ++ ops') o) : (held ops).length ≤ 1 := by
  obtain ⟨o₁, h₁, -⟩ := h.split
  rw [h₁.held_eq]
  cases o₁ <;> simp

/-- What is used is standard, or the one handle that is held. -/
theorem use_cases (h₁ : Obeys std none (ops ++ .use h :: ops') o) : std h ∨ held ops = [h] := by
  obtain ⟨o₁, hpre, hpost⟩ := h₁.split
  cases hpost with
  | useStd hh _ => exact .inl hh
  | useHeld _ => exact .inr hpre.held_eq

end Held

end Obeys

end OneHandle
