-- SUMMARY: A small command language with statuses, `return`, `exit` and errexit, its semantics, and rules for what a run does.
import Mathlib.Data.List.Basic
import Mathlib.Tactic.Common

/-!
# Shell commands

The commands of a script that runs under `set -e`. A command is evaluated in a
checked or an unchecked context: where it is checked, a simple command or a
function call that fails ends the script with its status. The left side of `||`
and the condition of an `if` are unchecked, and so is everything they call.

What the external commands do is a parameter. A run records each of them with
its context and its status.
-/

namespace Shell

/-! ## Syntax -/

/-- How a command ends. -/
inductive Outcome where
  | status (n : Nat)
  | returned (n : Nat)
  | exited (n : Nat)
  deriving DecidableEq, Repr

/-- Commands over the variables `σ` and the external commands `ε`. -/
inductive Cmd (σ ε : Type*) where
  | run (e : ε)
  /-- A command whose status is only stored: all of a pipeline but its last command. -/
  | capture (e : ε) (store : Nat → σ → σ)
  /-- A command of the shell itself: an assignment, a test, arithmetic. -/
  | builtin (f : σ → Nat × σ)
  | seq (a b : Cmd σ ε)
  | orElse (a b : Cmd σ ε)
  | ite (c a b : Cmd σ ε)
  /-- A function call. -/
  | call (body : Cmd σ ε)
  | ret (n : σ → Nat)
  | exit (n : Nat)
  /-- A command that depends on the variables. -/
  | dep (f : σ → Cmd σ ε)

namespace Cmd

variable {σ ε : Type*}

def assign (f : σ → σ) : Cmd σ ε := builtin fun s => (0, f s)
def test (p : σ → Bool) : Cmd σ ε := builtin fun s => (if p s then 0 else 1, s)
def skip : Cmd σ ε := assign id

/-- The lines of a body. Its status is that of the last one. -/
def block : List (Cmd σ ε) → Cmd σ ε
  | [] => skip
  | [c] => c
  | c :: cs => seq c (block cs)

theorem block_cons (a b : Cmd σ ε) (cs : List (Cmd σ ε)) :
    block (a :: b :: cs) = seq a (block (b :: cs)) := rfl

/-- `for x in xs; do body; done`. -/
def forEach {α : Type*} (xs : List α) (body : α → Cmd σ ε) : Cmd σ ε := block (xs.map body)

/-- What a loop inherits from its body. -/
theorem forEach_of_body {α : Type*} {xs : List α} {body : α → Cmd σ ε} {P : Cmd σ ε → Prop}
    (hskip : P skip) (hseq : ∀ a b, P a → P b → P (seq a b)) (h : ∀ x, P (body x)) :
    P (forEach xs body) := by
  unfold forEach
  induction xs with
  | nil => exact hskip
  | cons x xs ih =>
    cases xs with
    | nil => exact h x
    | cons y xs => exact hseq _ _ (h x) ih

/-- A command whose status is lost, as in `local x=$(e)`. -/
def discard (e : ε) : Cmd σ ε := capture e fun _ s => s

/-- `e || true`. -/
def ignore (e : ε) : Cmd σ ε := orElse (run e) skip

/-- The branch of a `case` that a word selects. -/
def select (word : String) (other : Cmd σ ε) : List (String × Cmd σ ε) → Cmd σ ε
  | [] => other
  | (pattern, c) :: branches => if word = pattern then c else select word other branches

/-- `case word in pattern) …;; *) other;; esac`, where the patterns are plain words. -/
def caseOf (word : σ → String) (branches : List (String × Cmd σ ε)) (other : Cmd σ ε) :
    Cmd σ ε :=
  dep fun s => select (word s) other branches

end Cmd

/-! ## Semantics -/

/-- An external command that was run. -/
structure Entry (ε : Type*) where
  cmd     : ε
  checked : Bool
  status  : Nat
  deriving DecidableEq, Repr

/-- What a run ends with. -/
structure Result (σ ε : Type*) where
  outcome : Outcome
  state   : σ
  trace   : List (Entry ε)

variable {σ ε : Type*}

/-- The later run after the earlier one. -/
def Result.andThen (r r' : Result σ ε) : Result σ ε := ⟨r'.outcome, r'.state, r.trace ++ r'.trace⟩

/-- The run after one more command. -/
def Result.after (r : Result σ ε) (x : Entry ε) : Result σ ε := { r with trace := x :: r.trace }

/-- A status of a simple command or of a call. -/
def settle (checked : Bool) (n : Nat) : Outcome :=
  if checked ∧ n ≠ 0 then .exited n else .status n

/-- The number that the command ends with. -/
def Outcome.code : Outcome → Nat
  | status n => n
  | returned n => n
  | exited n => n

/-- What a call makes of the outcome of the body. -/
def Outcome.atCall (checked : Bool) : Outcome → Outcome
  | status n => settle checked n
  | returned n => settle checked n
  | exited n => exited n

/-- The semantics of commands. -/
def eval (sem : ε → σ → Nat × σ) : Cmd σ ε → Bool → σ → Result σ ε
  | .run e, checked, s =>
      ⟨settle checked (sem e s).1, (sem e s).2, [⟨e, checked, (sem e s).1⟩]⟩
  | .capture e store, _, s =>
      ⟨.status 0, store (sem e s).1 (sem e s).2, [⟨e, false, (sem e s).1⟩]⟩
  | .builtin f, checked, s => ⟨settle checked (f s).1, (f s).2, []⟩
  | .seq a b, checked, s =>
      let r := eval sem a checked s
      match r.outcome with
      | .status _ => r.andThen (eval sem b checked r.state)
      | _ => r
  | .orElse a b, checked, s =>
      let r := eval sem a false s
      match r.outcome with
      | .status 0 => r
      | .status _ => r.andThen (eval sem b checked r.state)
      | _ => r
  | .ite c a b, checked, s =>
      let r := eval sem c false s
      match r.outcome with
      | .status 0 => r.andThen (eval sem a checked r.state)
      | .status _ => r.andThen (eval sem b checked r.state)
      | _ => r
  | .call body, checked, s =>
      let r := eval sem body checked s
      { r with outcome := r.outcome.atCall checked }
  | .ret n, _, s => ⟨.returned (n s), s, []⟩
  | .exit n, _, s => ⟨.exited n, s, []⟩
  | .dep f, checked, s => eval sem (f s) checked s

variable {sem sem' : ε → σ → Nat × σ} {a b c body : Cmd σ ε} {checked : Bool} {s : σ}

/-! ## Straight lines -/

theorem settle_checked (n : Nat) : settle true n = if n = 0 then .status 0 else .exited n := by
  by_cases h : n = 0 <;> simp [settle, h]

@[simp] theorem settle_unchecked (n : Nat) : settle false n = .status n := by simp [settle]

@[simp] theorem settle_zero : settle checked 0 = .status 0 := by simp [settle]

attribute [local simp] eval in
@[simp] theorem eval_assign (f : σ → σ) :
    eval sem (.assign f) checked s = ⟨.status 0, f s, []⟩ := by
  simp [Cmd.assign]

@[simp] theorem eval_skip : eval sem .skip checked s = ⟨.status 0, s, []⟩ := eval_assign id

@[simp] theorem code_settle (n : Nat) : (settle checked n).code = n := by
  unfold settle
  split_ifs <;> rfl

@[simp] theorem code_atCall (o : Outcome) : (o.atCall checked).code = o.code := by
  cases o with
  | status n => exact code_settle n
  | returned n => exact code_settle n
  | exited n => rfl

theorem eval_seq_of_status {n : Nat} (h : (eval sem a checked s).outcome = .status n) :
    eval sem (.seq a b) checked s =
      (eval sem a checked s).andThen (eval sem b checked (eval sem a checked s).state) := by
  simp [eval, h]

theorem eval_seq_of_exited {n : Nat} (h : (eval sem a checked s).outcome = .exited n) :
    eval sem (.seq a b) checked s = eval sem a checked s := by
  simp [eval, h]

theorem eval_ite_of_zero (h : (eval sem c false s).outcome = .status 0) :
    eval sem (.ite c a b) checked s =
      (eval sem c false s).andThen (eval sem a checked (eval sem c false s).state) := by
  simp [eval, h]

theorem eval_ite_of_succ {n : Nat} (h : (eval sem c false s).outcome = .status (n + 1)) :
    eval sem (.ite c a b) checked s =
      (eval sem c false s).andThen (eval sem b checked (eval sem c false s).state) := by
  simp [eval, h]

theorem eval_ite_test (p : σ → Bool) :
    eval sem (.ite (.test p) a b) checked s =
      if p s then eval sem a checked s else eval sem b checked s := by
  cases hp : p s <;> simp [eval, Cmd.test, hp, Result.andThen]

@[simp] theorem eval_exit (n : Nat) :
    eval sem (.exit n) checked s = ⟨.exited n, s, []⟩ := rfl

@[simp] theorem eval_ret (n : σ → Nat) :
    eval sem (.ret n) checked s = ⟨.returned (n s), s, []⟩ := rfl

theorem eval_dep (f : σ → Cmd σ ε) : eval sem (.dep f) checked s = eval sem (f s) checked s := rfl

theorem eval_call : eval sem (.call body) checked s =
    ⟨(eval sem body checked s).outcome.atCall checked, (eval sem body checked s).state,
      (eval sem body checked s).trace⟩ := rfl

theorem eval_ignore (e : ε) :
    eval sem (.ignore e) checked s = ⟨.status 0, (sem e s).2, [⟨e, false, (sem e s).1⟩]⟩ := by
  cases h : (sem e s).1 <;> simp [Cmd.ignore, eval, h, Result.andThen]

/-- The first line of a script decides how the rest is run. -/
theorem eval_seq : eval sem (.seq a b) checked s =
    match (eval sem a checked s).outcome with
    | .status _ => (eval sem a checked s).andThen (eval sem b checked (eval sem a checked s).state)
    | _ => eval sem a checked s := rfl

theorem eval_seq_assign (f : σ → σ) :
    eval sem (.seq (.assign f) b) checked s = eval sem b checked (f s) := by
  simp [eval_seq, Result.andThen]

theorem eval_seq_skip : eval sem (.seq .skip b) checked s = eval sem b checked s :=
  eval_seq_assign id

theorem eval_seq_exit (n : Nat) :
    eval sem (.seq (.exit n) b) checked s = ⟨.exited n, s, []⟩ := rfl

theorem eval_seq_dep (f : σ → Cmd σ ε) :
    eval sem (.seq (.dep f) b) checked s = eval sem (.seq (f s) b) checked s := rfl

theorem eval_seq_ite_test (p : σ → Bool) :
    eval sem (.seq (.ite (.test p) a b) c) checked s =
      if p s then eval sem (.seq a c) checked s else eval sem (.seq b c) checked s := by
  by_cases hp : p s <;> simp [eval_seq, eval_ite_test, hp]

theorem eval_seq_seq :
    eval sem (.seq (.seq a b) c) checked s = eval sem (.seq a (.seq b c)) checked s := by
  cases ha : (eval sem a checked s).outcome with
  | status n =>
    simp only [eval_seq, ha, Result.andThen]
    cases hb : (eval sem b checked (eval sem a checked s).state).outcome <;> simp [hb]
  | returned n => simp [eval_seq, ha]
  | exited n => simp [eval_seq, ha]

theorem eval_seq_run (e : ε) :
    eval sem (.seq (.run e) b) true s =
      if (sem e s).1 = 0 then
        (eval sem b true (sem e s).2).after ⟨e, true, 0⟩
      else ⟨.exited (sem e s).1, (sem e s).2, [⟨e, true, (sem e s).1⟩]⟩ := by
  by_cases h : (sem e s).1 = 0 <;> simp [eval, settle_checked, h, Result.andThen, Result.after]

theorem eval_seq_run_unchecked (e : ε) :
    eval sem (.seq (.run e) b) false s =
      (eval sem b false (sem e s).2).after ⟨e, false, (sem e s).1⟩ := by
  simp [eval, Result.andThen, Result.after]

theorem eval_seq_capture (e : ε) (store : Nat → σ → σ) :
    eval sem (.seq (.capture e store) b) checked s =
      (eval sem b checked (store (sem e s).1 (sem e s).2)).after ⟨e, false, (sem e s).1⟩ := by
  simp [eval, Result.andThen, Result.after]

theorem eval_if (p : Prop) [Decidable p] :
    eval sem (if p then a else b) checked s =
      if p then eval sem a checked s else eval sem b checked s := by
  split <;> rfl

theorem eval_seq_if (p : Prop) [Decidable p] :
    eval sem (.seq (if p then a else b) c) checked s =
      if p then eval sem (.seq a c) checked s else eval sem (.seq b c) checked s := by
  split <;> rfl

/-! ## What is run -/

/-- Every external command of `c` satisfies `p`. -/
def Cmd.All (p : ε → Prop) : Cmd σ ε → Prop
  | .run e => p e
  | .capture e _ => p e
  | .builtin _ => True
  | .seq a b => a.All p ∧ b.All p
  | .orElse a b => a.All p ∧ b.All p
  | .ite c a b => c.All p ∧ a.All p ∧ b.All p
  | .call body => body.All p
  | .ret _ => True
  | .exit _ => True
  | .dep f => ∀ s, (f s).All p

theorem Cmd.all_forEach {α : Type*} {xs : List α} {g : α → Cmd σ ε} {p : ε → Prop}
    (h : ∀ x, (g x).All p) : (Cmd.forEach xs g).All p :=
  forEach_of_body trivial (fun _ _ => And.intro) h

/-- A run of `c` records only commands of `c`. -/
theorem all_of_mem_trace {p : ε → Prop} (h : c.All p) {x : Entry ε}
    (hx : x ∈ (eval sem c checked s).trace) : p x.cmd := by
  induction c generalizing checked s with
  | run e =>
    obtain rfl := List.mem_singleton.mp hx
    exact h
  | capture e store =>
    obtain rfl := List.mem_singleton.mp hx
    exact h
  | builtin f => cases hx
  | seq a b iha ihb =>
    simp only [eval] at hx
    split at hx
    · obtain hx | hx := List.mem_append.mp hx
      · exact iha h.1 hx
      · exact ihb h.2 hx
    · exact iha h.1 hx
  | orElse a b iha ihb =>
    simp only [eval] at hx
    split at hx
    · exact iha h.1 hx
    · obtain hx | hx := List.mem_append.mp hx
      · exact iha h.1 hx
      · exact ihb h.2 hx
    · exact iha h.1 hx
  | ite c a b ihc iha ihb =>
    simp only [eval] at hx
    split at hx
    · obtain hx | hx := List.mem_append.mp hx
      · exact ihc h.1 hx
      · exact iha h.2.1 hx
    · obtain hx | hx := List.mem_append.mp hx
      · exact ihc h.1 hx
      · exact ihb h.2.2 hx
    · exact ihc h.1 hx
  | call body ih => exact ih h hx
  | ret n => cases hx
  | exit n => cases hx
  | dep f ih => exact ih s (h s) hx

/-! ## Failing stops the script -/

/-- A checked command that fails is the last one, and the script leaves with its status. -/
def Result.FailStop (r : Result σ ε) : Prop :=
  ∀ pre x post, r.trace = pre ++ x :: post → x.checked → x.status ≠ 0 →
    post = [] ∧ r.outcome = .exited x.status

theorem Result.FailStop.nil {o : Outcome} : (⟨o, s, []⟩ : Result σ ε).FailStop := by
  intro pre x post h
  simp at h

theorem Result.FailStop.andThen {r r' : Result σ ε} (h : r.FailStop) (h' : r'.FailStop) {n : Nat}
    (hr : r.outcome = .status n) : (r.andThen r').FailStop := by
  intro pre x post htrace hx hfail
  obtain ⟨mid, -, hmid⟩ | ⟨mid, hpre, hmid⟩ := List.append_eq_append_iff.mp htrace
  · exact h' mid x post hmid hx hfail
  · cases mid with
    | nil => exact h' [] x post hmid.symm hx hfail
    | cons y mid =>
      -- a failure of the earlier run would have ended it
      obtain ⟨rfl, -⟩ := List.cons.inj hmid
      have hexit := (h pre x mid hpre hx hfail).2
      rw [hr] at hexit
      cases hexit

theorem Result.FailStop.singleton {y : Entry ε} {o : Outcome}
    (h : y.checked → y.status ≠ 0 → o = .exited y.status) :
    (⟨o, s, [y]⟩ : Result σ ε).FailStop := by
  intro pre x post htrace hx hfail
  cases pre with
  | nil =>
    obtain ⟨rfl, rfl⟩ := List.cons.inj htrace
    exact ⟨rfl, h hx hfail⟩
  | cons z pre => simp at htrace

/-- **Errexit**: every run of every command is fail-stop. -/
theorem eval_failStop (c : Cmd σ ε) (checked : Bool) (s : σ) :
    (eval sem c checked s).FailStop := by
  induction c generalizing checked s with
  | run e => exact .singleton fun hchecked hfail => by simp_all [settle]
  | capture e store => exact .singleton nofun
  | builtin f => exact .nil
  | seq a b iha ihb =>
    simp only [eval]
    split
    · rename_i hr
      exact (iha checked s).andThen (ihb _ _) hr
    · exact iha checked s
  | orElse a b iha ihb =>
    simp only [eval]
    split
    · exact iha false s
    · rename_i hr
      exact (iha false s).andThen (ihb _ _) hr
    · exact iha false s
  | ite c a b ihc iha ihb =>
    simp only [eval]
    split
    · rename_i hr
      exact (ihc false s).andThen (iha _ _) hr
    · rename_i hr
      exact (ihc false s).andThen (ihb _ _) hr
    · exact ihc false s
  | call body ih =>
    intro pre x post h hx hfail
    obtain ⟨hpost, hexit⟩ := ih checked s pre x post h hx hfail
    exact ⟨hpost, by simp [eval, hexit, Outcome.atCall]⟩
  | ret n => exact .nil
  | exit n => exact .nil
  | dep f ih => exact ih s checked s

/-! ## Plain commands -/

/-- The command assigns only what keeps `I`, does not return, and leaves the script only with a
failure. -/
def Cmd.Plain (I : σ → Prop) : Cmd σ ε → Prop
  | .run _ => True
  | .capture _ store => ∀ n s, I s → I (store n s)
  | .builtin f => ∀ s, I s → I (f s).2
  | .seq a b => a.Plain I ∧ b.Plain I
  | .orElse a b => a.Plain I ∧ b.Plain I
  | .ite c a b => c.Plain I ∧ a.Plain I ∧ b.Plain I
  | .call body => body.Plain I
  | .ret _ => False
  | .exit n => n ≠ 0
  | .dep f => ∀ s, I s → (f s).Plain I

section Plain

variable {I : σ → Prop}

theorem Cmd.plain_skip : (Cmd.skip : Cmd σ ε).Plain I := fun _ hs => hs

theorem Cmd.plain_discard (e : ε) : (Cmd.discard e : Cmd σ ε).Plain I := fun _ _ hs => hs

theorem Cmd.plain_ignore (e : ε) : (Cmd.ignore e : Cmd σ ε).Plain I := ⟨trivial, plain_skip⟩

theorem Cmd.plain_forEach {α : Type*} {xs : List α} {g : α → Cmd σ ε} (h : ∀ x, (g x).Plain I) :
    (Cmd.forEach xs g).Plain I := forEach_of_body plain_skip (fun _ _ => And.intro) h

/-- The line is passed, or the script is left with a failure. -/
def Outcome.Passed : Outcome → Prop
  | status _ => True
  | returned _ => False
  | exited n => n ≠ 0

theorem passed_settle (n : Nat) : (settle checked n).Passed := by
  unfold settle
  split_ifs with h
  · exact h.2
  · exact trivial

/-- What a plain command keeps, and how it ends. -/
theorem Cmd.Plain.eval (hsem : ∀ e s, I s → I (sem e s).2) (hc : c.Plain I) (checked : Bool)
    (hs : I s) : I (eval sem c checked s).state ∧ (eval sem c checked s).outcome.Passed := by
  induction c generalizing checked s with
  | run e => exact ⟨hsem e s hs, passed_settle _⟩
  | capture e store => exact ⟨hc _ _ (hsem e s hs), trivial⟩
  | builtin f => exact ⟨hc s hs, passed_settle _⟩
  | seq a b iha ihb =>
    obtain ⟨hinv, hpassed⟩ := iha hc.1 checked hs
    simp only [Shell.eval]
    split
    · exact ihb hc.2 _ hinv
    · exact ⟨hinv, hpassed⟩
  | orElse a b iha ihb =>
    obtain ⟨hinv, hpassed⟩ := iha hc.1 false hs
    simp only [Shell.eval]
    split
    · exact ⟨hinv, hpassed⟩
    · exact ihb hc.2 _ hinv
    · exact ⟨hinv, hpassed⟩
  | ite c a b ihc iha ihb =>
    obtain ⟨hinv, hpassed⟩ := ihc hc.1 false hs
    simp only [Shell.eval]
    split
    · exact iha hc.2.1 _ hinv
    · exact ihb hc.2.2 _ hinv
    · exact ⟨hinv, hpassed⟩
  | call body ih =>
    obtain ⟨hinv, hpassed⟩ := ih hc checked hs
    refine ⟨hinv, ?_⟩
    rw [eval_call]
    cases ho : (Shell.eval sem body checked s).outcome with
    | status n => exact passed_settle n
    | returned n => exact passed_settle n
    | exited n => rwa [ho] at hpassed
  | ret n => exact hc.elim
  | exit n => exact ⟨hs, hc⟩
  | dep f ih => exact ih s (hc s hs) checked hs

/-- Whenever the line ends with 0, `Q` holds of the state. -/
def Certifies (sem : ε → σ → Nat × σ) (I : σ → Prop) (c : Cmd σ ε) (Q : σ → Prop) : Prop :=
  ∀ s, I s → (eval sem c true s).outcome.code = 0 → Q (eval sem c true s).state

/-- A plain line does not matter for what the rest certifies. -/
theorem Certifies.seq {Q : σ → Prop} (hsem : ∀ e s, I s → I (sem e s).2) (ha : a.Plain I)
    (hb : Certifies sem I b Q) : Certifies sem I (.seq a b) Q := by
  intro s hs hcode
  obtain ⟨hinv, hpassed⟩ := ha.eval hsem true hs
  cases ho : (eval sem a true s).outcome with
  | status n =>
    rw [eval_seq_of_status ho] at hcode ⊢
    exact hb _ hinv hcode
  | returned n =>
    rw [ho] at hpassed
    exact hpassed.elim
  | exited n =>
    rw [eval_seq_of_exited ho, ho] at hcode
    rw [ho] at hpassed
    exact absurd hcode hpassed

/-- An `if` before other lines, where the first branch may rely on the test. -/
theorem Certifies.seq_ite_test {p : σ → Bool} {Q : σ → Prop}
    (ha : Certifies sem (fun s => I s ∧ p s) (.seq a c) Q) (hb : Certifies sem I (.seq b c) Q) :
    Certifies sem I (.seq (.ite (.test p) a b) c) Q := by
  intro s hs hcode
  rw [eval_seq_ite_test] at hcode ⊢
  by_cases hp : p s
  · rw [if_pos hp] at hcode ⊢
    exact ha s ⟨hs, hp⟩ hcode
  · rw [if_neg hp] at hcode ⊢
    exact hb s hs hcode

end Plain

/-! ## Pre- and postconditions -/

section Triple

variable {β : Type*} {I : σ → Prop} {f : Entry ε → Option β} {V W : List β → Prop}
  {X : Nat → List β → Prop}

/-- From a state with `I` the line ends in one of two ways. It is passed, with status 0 where it is
checked; then it keeps `I`, and `V` holds of what `f` sees of its trace. Or the script is left with
a failure; then `X` holds of the status and of what is seen. -/
def Triple (sem : ε → σ → Nat × σ) (I : σ → Prop) (f : Entry ε → Option β) (checked : Bool)
    (c : Cmd σ ε) (V : List β → Prop) (X : Nat → List β → Prop) : Prop :=
  ∀ s, I s →
    (∃ n, (eval sem c checked s).outcome = .status n ∧ (checked → n = 0) ∧
      I (eval sem c checked s).state ∧ V ((eval sem c checked s).trace.filterMap f)) ∨
    ∃ n ≠ 0, (eval sem c checked s).outcome = .exited n ∧
      X n ((eval sem c checked s).trace.filterMap f)

namespace Triple

theorem mono {V' : List β → Prop} {X' : Nat → List β → Prop} (h : Triple sem I f checked c V X)
    (hV : ∀ v, V v → V' v) (hX : ∀ n v, X n v → X' n v) : Triple sem I f checked c V' X' := by
  intro s hs
  obtain ⟨n, hout, hn, hinv, htrace⟩ | ⟨n, hn, hout, htrace⟩ := h s hs
  · exact .inl ⟨n, hout, hn, hinv, hV _ htrace⟩
  · exact .inr ⟨n, hn, hout, hX _ _ htrace⟩

theorem run {e : ε} (hI : ∀ s, I s → I (sem e s).2)
    (hV : ∀ n, (checked → n = 0) → V (f ⟨e, checked, n⟩).toList)
    (hX : ∀ s n, (sem e s).1 = n → n ≠ 0 → checked → X n (f ⟨e, checked, n⟩).toList) :
    Triple sem I f checked (.run e) V X := by
  intro s hs
  have htrace : (eval sem (.run e) checked s).trace.filterMap f =
      (f ⟨e, checked, (sem e s).1⟩).toList := by
    cases hf : f ⟨e, checked, (sem e s).1⟩ <;> simp [eval, hf]
  by_cases h : checked = true ∧ (sem e s).1 ≠ 0
  · refine .inr ⟨(sem e s).1, h.2, if_pos h, ?_⟩
    rw [htrace]
    exact hX s _ rfl h.2 h.1
  · have hn : checked = true → (sem e s).1 = 0 := fun hc => not_not.mp fun h0 => h ⟨hc, h0⟩
    refine .inl ⟨(sem e s).1, if_neg h, hn, hI s hs, ?_⟩
    rw [htrace]
    exact hV _ hn

theorem capture {e : ε} {store : Nat → σ → σ} (h : ∀ s, I s → I (store (sem e s).1 (sem e s).2))
    (hV : ∀ n, V (f ⟨e, false, n⟩).toList) : Triple sem I f checked (.capture e store) V X := by
  intro s hs
  refine .inl ⟨0, rfl, fun _ => rfl, h s hs, ?_⟩
  have hV := hV (sem e s).1
  cases hf : f ⟨e, false, (sem e s).1⟩ <;> simpa [eval, hf] using hV

theorem ignore {e : ε} (h : ∀ s, I s → I (sem e s).2) (hf : ∀ n, f ⟨e, false, n⟩ = none) :
    Triple sem I f checked (.ignore e) (· = []) X := by
  intro s hs
  rw [eval_ignore]
  exact .inl ⟨0, rfl, fun _ => rfl, h s hs, by simp [hf]⟩

theorem assign {g : σ → σ} (h : ∀ s, I s → I (g s)) :
    Triple sem I f checked (.assign g) (· = []) X := by
  intro s hs
  rw [eval_assign]
  exact .inl ⟨0, rfl, fun _ => rfl, h s hs, rfl⟩

theorem skip : Triple sem I f checked .skip (· = []) X := assign fun _ hs => hs

theorem exit {n : Nat} (hn : n ≠ 0) (hX : X n []) : Triple sem I f checked (.exit n) V X :=
  fun _ _ => .inr ⟨n, hn, rfl, hX⟩

/-- The first line, and what follows it. -/
theorem seq {V' : List β → Prop} {Xa Xb : Nat → List β → Prop}
    (ha : Triple sem I f checked a V Xa) (hb : Triple sem I f checked b V' Xb)
    (hW : ∀ v v', V v → V' v' → W (v ++ v')) (hXa : ∀ n v, Xa n v → X n v)
    (hXb : ∀ n v v', V v → Xb n v' → X n (v ++ v')) : Triple sem I f checked (.seq a b) W X := by
  intro s hs
  obtain ⟨n, hout, -, hinv, htrace⟩ | ⟨n, hn, hout, htrace⟩ := ha s hs
  · rw [eval_seq_of_status hout]
    simp only [Result.andThen, List.filterMap_append]
    obtain ⟨m, hout', hm, hinv', htrace'⟩ | ⟨m, hm, hout', htrace'⟩ := hb _ hinv
    · exact .inl ⟨m, hout', hm, hinv', hW _ _ htrace htrace'⟩
    · exact .inr ⟨m, hm, hout', hXb _ _ _ htrace htrace'⟩
  · rw [eval_seq_of_exited hout]
    exact .inr ⟨n, hn, hout, hXa _ _ htrace⟩

/-- A line of which nothing is seen, before others. -/
theorem cons (ha : Triple sem I f checked a (· = []) X) (hb : Triple sem I f checked b V X) :
    Triple sem I f checked (.seq a b) V X :=
  ha.seq hb (by rintro _ v rfl hv; exact hv) (fun _ _ h => h) (by rintro n _ v rfl hv; exact hv)

/-- Lines of which nothing is seen unless they fail, after another. -/
theorem concat (ha : Triple sem I f checked a V X)
    (hb : Triple sem I f checked b (· = []) fun n v' => ∀ v, V v → X n (v ++ v')) :
    Triple sem I f checked (.seq a b) V X := by
  refine ha.seq hb ?_ (fun _ _ h => h) fun _ v _ hv hX => hX v hv
  rintro v _ hv rfl
  rwa [List.append_nil]

/-- Nothing is run after a line that leaves the script. -/
theorem seq_of_leaves (ha : Triple sem I f checked a (fun _ => False) X) :
    Triple sem I f checked (.seq a b) V X := by
  intro s hs
  obtain ⟨_, _, _, _, hfalse⟩ | ⟨n, hn, hout, htrace⟩ := ha s hs
  · exact hfalse.elim
  · rw [eval_seq_of_exited hout]
    exact .inr ⟨n, hn, hout, htrace⟩

/-- `a || true`, whatever the status of `a`. -/
theorem orElse_skip (ha : Triple sem I f false a V X) :
    Triple sem I f checked (.orElse a .skip) V X := by
  intro s hs
  obtain ⟨n, hout, -, hinv, htrace⟩ | ⟨n, hn, hout, htrace⟩ := ha s hs
  · left
    cases n with
    | zero =>
      simp only [eval, hout]
      exact ⟨0, rfl, fun _ => rfl, hinv, htrace⟩
    | succ n =>
      simp only [eval, hout, eval_skip, Result.andThen, List.append_nil]
      exact ⟨0, rfl, fun _ => rfl, hinv, htrace⟩
  · simp only [eval, hout]
    exact .inr ⟨n, hn, rfl, htrace⟩

/-- An `if` on a command, of which nothing is seen where it succeeds. -/
theorem ite_run {e : ε} (hI : ∀ s, I s → I (sem e s).2) (hf : f ⟨e, false, 0⟩ = none)
    (ha : Triple sem I f checked a V X)
    (hb : ∀ n ≠ 0, Triple sem I f checked b (fun v => V ((f ⟨e, false, n⟩).toList ++ v))
      fun m v => X m ((f ⟨e, false, n⟩).toList ++ v)) :
    Triple sem I f checked (.ite (.run e) a b) V X := by
  intro s hs
  cases hn : (sem e s).1 with
  | zero =>
    simp only [eval, hn, settle_zero, Result.andThen, List.filterMap_append, List.filterMap_cons,
      hf, List.filterMap_nil, List.nil_append]
    exact ha _ (hI s hs)
  | succ n =>
    have hseen : [⟨e, false, n + 1⟩].filterMap f = (f ⟨e, false, n + 1⟩).toList := by
      cases hf : f ⟨e, false, n + 1⟩ <;> simp [hf]
    simp only [eval, hn, settle_unchecked, Result.andThen, List.filterMap_append, hseen]
    exact hb (n + 1) n.succ_ne_zero _ (hI s hs)

theorem ite_test {p : σ → Bool} (ha : Triple sem I f checked a V X)
    (hb : Triple sem I f checked b V X) : Triple sem I f checked (.ite (.test p) a b) V X := by
  intro s hs
  rw [eval_ite_test]
  split
  · exact ha s hs
  · exact hb s hs

theorem dep {g : σ → Cmd σ ε} (h : ∀ s, I s → Triple sem I f checked (g s) V X) :
    Triple sem I f checked (.dep g) V X :=
  fun s hs => h s hs s hs

theorem caseOf {word : σ → String} {branches : List (String × Cmd σ ε)}
    (h : ∀ s, I s → Triple sem I f checked (Cmd.select (word s) b branches) V X) :
    Triple sem I f checked (.caseOf word branches b) V X := dep h

theorem call (h : Triple sem I f checked body V X) :
    Triple sem I f checked (.call body) V X := by
  intro s hs
  obtain ⟨n, hout, hn, hinv, htrace⟩ | ⟨n, hn, hout, htrace⟩ := h s hs
  · refine .inl ⟨n, ?_, hn, hinv, htrace⟩
    rw [eval_call, hout]
    exact if_neg fun h => h.2 (hn h.1)
  · exact .inr ⟨n, hn, by rw [eval_call, hout]; rfl, htrace⟩

theorem forEach {α : Type*} {xs : List α} {g : α → Cmd σ ε}
    (h : ∀ x, Triple sem I f checked (g x) (· = []) X) :
    Triple sem I f checked (.forEach xs g) (· = []) X :=
  Cmd.forEach_of_body (P := (Triple sem I f checked · (· = []) X)) skip (fun _ _ => cons) h

/-- The loop rule: from what is seen of one round to what is seen of `n` rounds, or of the rounds
before one that fails. -/
theorem replicate {R : Nat → List β → Prop} {Y : Nat → List β → Prop} (hnil : R 0 [])
    (happend : ∀ n v v', R 1 v → R n v' → R (n + 1) (v ++ v'))
    (hc : Triple sem I f checked c (R 1) Y) (n : Nat) :
    Triple sem I f checked (.block (.replicate n c)) (R n)
      fun k v => ∃ m < n, ∃ v₁ v₂, R m v₁ ∧ Y k v₂ ∧ v = v₁ ++ v₂ := by
  have hfirst : ∀ n k : Nat, ∀ v, Y k v → ∃ m < n + 1, ∃ v₁ v₂, R m v₁ ∧ Y k v₂ ∧ v = v₁ ++ v₂ :=
    fun n k v hv => ⟨0, n.succ_pos, [], v, hnil, hv, rfl⟩
  induction n with
  | zero => exact skip.mono (by rintro _ rfl; exact hnil) (fun _ _ h => h)
  | succ n ih =>
    cases n with
    | zero => exact hc.mono (fun _ h => h) (hfirst 0)
    | succ n =>
      refine hc.seq ih (happend (n + 1)) (hfirst (n + 1)) ?_
      rintro _ v _ hv ⟨m, hm, v₁, v₂, hv₁, hv₂, rfl⟩
      exact ⟨m + 1, Nat.succ_lt_succ hm, v ++ v₁, v₂, happend m v v₁ hv hv₁, hv₂,
        (List.append_assoc _ _ _).symm⟩

end Triple

end Triple

/-! ## Statuses that do not matter -/

/-- The status of a command in `p` is always ignored. Only commands in `q` are run in a condition,
on the left of another `||`, or to lose their status. -/
def Cmd.Tolerant (p q : ε → Prop) : Cmd σ ε → Prop
  | .run e => ¬ p e
  | .capture e _ => ¬ p e ∧ q e
  | .builtin _ => True
  | .seq a b => a.Tolerant p q ∧ b.Tolerant p q
  | .orElse a b =>
      (∃ e, p e ∧ a = .run e ∧ b = .skip) ∨ (a.All q ∧ a.Tolerant p q ∧ b.Tolerant p q)
  | .ite c a b => c.All q ∧ c.Tolerant p q ∧ a.Tolerant p q ∧ b.Tolerant p q
  | .call body => body.Tolerant p q
  | .ret _ => True
  | .exit _ => True
  | .dep f => ∀ s, (f s).Tolerant p q

section Tolerant

variable {p q : ε → Prop}

theorem Cmd.tolerant_ignore {e : ε} (h : p e) : (Cmd.ignore e : Cmd σ ε).Tolerant p q :=
  .inl ⟨e, h, rfl, rfl⟩

theorem Cmd.tolerant_forEach {α : Type*} {xs : List α} {g : α → Cmd σ ε}
    (h : ∀ x, (g x).Tolerant p q) : (Cmd.forEach xs g).Tolerant p q :=
  forEach_of_body trivial (fun _ _ => And.intro) h

/-- A test before two branches. -/
theorem Cmd.tolerant_ite_test {t : σ → Bool} (ha : a.Tolerant p q) (hb : b.Tolerant p q) :
    (Cmd.ite (.test t) a b).Tolerant p q := ⟨trivial, trivial, ha, hb⟩

/-- In a checked context only the commands in `p` and in `q` are run unchecked. -/
theorem Cmd.Tolerant.of_unchecked (h : c.Tolerant p q) {x : Entry ε}
    (hx : x ∈ (eval sem c true s).trace) (hchecked : x.checked = false) : p x.cmd ∨ q x.cmd := by
  induction c generalizing s with
  | run e =>
    obtain rfl := List.mem_singleton.mp hx
    cases hchecked
  | capture e store =>
    obtain rfl := List.mem_singleton.mp hx
    exact .inr h.2
  | builtin f => cases hx
  | seq a b iha ihb =>
    simp only [eval] at hx
    split at hx
    · obtain hx | hx := List.mem_append.mp hx
      · exact iha h.1 hx
      · exact ihb h.2 hx
    · exact iha h.1 hx
  | orElse a b _ ihb =>
    obtain ⟨e, he, rfl, rfl⟩ | ⟨hquery, -, hb⟩ := h
    · have hignore : x ∈ (eval sem (.ignore e) true s).trace := hx
      rw [eval_ignore] at hignore
      obtain rfl := List.mem_singleton.mp hignore
      exact .inl he
    · simp only [eval] at hx
      split at hx
      · exact .inr (all_of_mem_trace hquery hx)
      · obtain hx | hx := List.mem_append.mp hx
        · exact .inr (all_of_mem_trace hquery hx)
        · exact ihb hb hx
      · exact .inr (all_of_mem_trace hquery hx)
  | ite c a b _ iha ihb =>
    simp only [eval] at hx
    split at hx
    · obtain hx | hx := List.mem_append.mp hx
      · exact .inr (all_of_mem_trace h.1 hx)
      · exact iha h.2.2.1 hx
    · obtain hx | hx := List.mem_append.mp hx
      · exact .inr (all_of_mem_trace h.1 hx)
      · exact ihb h.2.2.2 hx
    · exact .inr (all_of_mem_trace h.1 hx)
  | call body ih => exact ih h hx
  | ret n => cases hx
  | exit n => cases hx
  | dep f ih => exact ih s (h s) hx

/-- Other statuses for the commands in `p` change neither the outcome nor the state. -/
theorem Cmd.Tolerant.same (hc : c.Tolerant p q) (hsem : ∀ e, ¬ p e → ∀ s, sem' e s = sem e s)
    (hstate : ∀ e s, (sem' e s).2 = (sem e s).2) (checked : Bool) (s : σ) :
    (eval sem' c checked s).outcome = (eval sem c checked s).outcome ∧
      (eval sem' c checked s).state = (eval sem c checked s).state := by
  induction c generalizing checked s with
  | run e => simp [eval, hsem e hc]
  | capture e store => simp [eval, hsem e hc.1]
  | builtin f => exact ⟨rfl, rfl⟩
  | seq a b iha ihb =>
    obtain ⟨hout, hst⟩ := iha hc.1 checked s
    cases ho : (eval sem a checked s).outcome with
    | status n =>
      rw [eval_seq_of_status (hout.trans ho), eval_seq_of_status ho]
      simp only [Result.andThen, hst]
      exact ihb hc.2 checked _
    | returned n => simp [eval, hout, ho, hst]
    | exited n => simp [eval, hout, ho, hst]
  | orElse a b iha ihb =>
    obtain ⟨e, -, rfl, rfl⟩ | ⟨-, ha, hb⟩ := hc
    · change (eval sem' (.ignore e) checked s).outcome = (eval sem (.ignore e) checked s).outcome ∧
        (eval sem' (.ignore e) checked s).state = (eval sem (.ignore e) checked s).state
      rw [eval_ignore, eval_ignore, hstate]
      exact ⟨rfl, rfl⟩
    · obtain ⟨hout, hst⟩ := iha ha false s
      cases ho : (eval sem a false s).outcome with
      | status n =>
        cases n with
        | zero => simp [eval, hout, ho, hst]
        | succ n =>
          simp only [eval, hout, ho, Result.andThen, hst]
          exact ihb hb checked _
      | returned n => simp [eval, hout, ho, hst]
      | exited n => simp [eval, hout, ho, hst]
  | ite c a b ihc iha ihb =>
    obtain ⟨hout, hst⟩ := ihc hc.2.1 false s
    cases ho : (eval sem c false s).outcome with
    | status n =>
      cases n with
      | zero =>
        rw [eval_ite_of_zero (hout.trans ho), eval_ite_of_zero ho]
        simp only [Result.andThen, hst]
        exact iha hc.2.2.1 checked _
      | succ n =>
        rw [eval_ite_of_succ (hout.trans ho), eval_ite_of_succ ho]
        simp only [Result.andThen, hst]
        exact ihb hc.2.2.2 checked _
    | returned n => simp [eval, hout, ho, hst]
    | exited n => simp [eval, hout, ho, hst]
  | call body ih =>
    obtain ⟨hout, hst⟩ := ih hc checked s
    simp [eval, hout, hst]
  | ret n => exact ⟨rfl, rfl⟩
  | exit n => exact ⟨rfl, rfl⟩
  | dep f ih => exact ih s (hc s) checked s

end Tolerant

end Shell
