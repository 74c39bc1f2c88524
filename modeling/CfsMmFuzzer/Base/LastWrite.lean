-- SUMMARY: Runs of setters on a record: a field holds the last value that was set for it.
import Mathlib.Data.List.Induction
import Mathlib.Tactic.Common

/-!
# Last write

A record is changed by a run of calls, some of which set a given field, and the
others leave it alone, except for some that spoil it. As long as every spoiling
call is followed by one that sets the field, the field holds the last value that
was set, or its initial value where none was.
-/

namespace LastWrite

variable {σ α β : Type*}

/-- The last value that the calls set, or else `init`. -/
def lastSet (sel : α → Option β) (calls : List α) (init : β) : β :=
  (calls.filterMap sel).getLastD init

/-- Every spoiling call is followed by one that sets the field. -/
def Kept (sel : α → Option β) (spoils : α → Prop) (calls : List α) : Prop :=
  ∀ pre c post, calls = pre ++ c :: post → spoils c → ∃ d ∈ post, (sel d).isSome

variable {step : σ → α → σ} {get : σ → β} {sel : α → Option β} {spoils : α → Prop}

theorem lastSet_concat_of_some {calls : List α} {c : α} {v init : β} (h : sel c = some v) :
    lastSet sel (calls ++ [c]) init = v := by
  simp [lastSet, List.filterMap_append, h]

theorem lastSet_concat_of_none {calls : List α} {c : α} {init : β} (h : sel c = none) :
    lastSet sel (calls ++ [c]) init = lastSet sel calls init := by
  simp [lastSet, List.filterMap_append, h]

theorem lastSet_cons (sel : α → Option β) (c : α) (calls : List α) (init : β) :
    lastSet sel (c :: calls) init = lastSet sel calls ((sel c).getD init) := by
  cases hc : sel c with
  | none => rw [lastSet, List.filterMap_cons_none hc, lastSet, Option.getD_none]
  | some v =>
    rw [lastSet, List.filterMap_cons_some hc, lastSet, Option.getD_some, List.getLastD_cons]

theorem Kept.of_concat {calls : List α} {c : α} (h : Kept sel spoils (calls ++ [c]))
    (hc : sel c = none) : Kept sel spoils calls := by
  intro pre d post hcalls hspoils
  obtain ⟨e, he, hset⟩ := h pre d (post ++ [c]) (by simp [hcalls]) hspoils
  obtain hpost | hlast := List.mem_append.mp he
  · exact ⟨e, hpost, hset⟩
  · obtain rfl := List.mem_singleton.mp hlast
    rw [hc] at hset
    cases hset

theorem Kept.not_spoils_last {calls : List α} {c : α} (h : Kept sel spoils (calls ++ [c])) :
    ¬ spoils c := by
  intro hspoils
  obtain ⟨d, hd, -⟩ := h calls c [] rfl hspoils
  exact absurd hd List.not_mem_nil

/-- A field that no call spoils is kept. -/
theorem kept_of_not_spoils {calls : List α} (h : ∀ c ∈ calls, ¬ spoils c) :
    Kept sel spoils calls := by
  intro pre c post hcalls hspoils
  exact absurd hspoils (h c (by simp [hcalls]))

/-- A call that sets the field makes up for everything before it. -/
theorem kept_append_cons {pre post : List α} {d : α} (hset : (sel d).isSome)
    (hpost : ∀ c ∈ d :: post, ¬ spoils c) : Kept sel spoils (pre ++ d :: post) := by
  intro pre' c post' hcalls hspoils
  obtain ⟨mid, -, hmid⟩ | ⟨mid, -, hmid⟩ := List.append_eq_append_iff.mp hcalls
  · -- the spoiling call would be among the later ones
    exact absurd hspoils (hpost c (by simp [hmid]))
  · cases mid with
    | nil =>
      obtain ⟨rfl, -⟩ := List.cons.inj hmid
      exact absurd hspoils (hpost c List.mem_cons_self)
    | cons x mid =>
      obtain ⟨-, rfl⟩ := List.cons.inj hmid
      exact ⟨d, by simp, hset⟩

/-- **The field holds the last value set for it.** -/
theorem get_foldl {calls : List α} (hkept : Kept sel spoils calls)
    (hset : ∀ s, ∀ c ∈ calls, ∀ v, sel c = some v → get (step s c) = v)
    (hframe : ∀ s, ∀ c ∈ calls, sel c = none → ¬ spoils c → get (step s c) = get s) (s : σ) :
    get (calls.foldl step s) = lastSet sel calls (get s) := by
  induction calls using List.reverseRecOn with
  | nil => rfl
  | append_singleton calls c ih =>
    have hlast : c ∈ calls ++ [c] := by simp
    rw [List.foldl_append, List.foldl_cons, List.foldl_nil]
    cases hc : sel c with
    | some v => rw [lastSet_concat_of_some hc, hset _ c hlast v hc]
    | none =>
      rw [lastSet_concat_of_none hc, hframe _ c hlast hc hkept.not_spoils_last]
      exact ih (hkept.of_concat hc)
        (fun s d hd => hset s d (List.mem_append_left _ hd))
        (fun s d hd => hframe s d (List.mem_append_left _ hd))

/-- A field that nothing spoils holds the last value set for it. -/
theorem get_foldl_of_frame {calls : List α}
    (hset : ∀ s, ∀ c ∈ calls, ∀ v, sel c = some v → get (step s c) = v)
    (hframe : ∀ s, ∀ c ∈ calls, sel c = none → get (step s c) = get s) (s : σ) :
    get (calls.foldl step s) = lastSet sel calls (get s) := by
  have hkept : Kept sel (fun _ => False) calls := kept_of_not_spoils fun _ _ => not_false
  exact get_foldl hkept hset (fun s c hc hnone _ => hframe s c hc hnone) s

end LastWrite
