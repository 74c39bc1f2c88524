-- SUMMARY: Command-line options: flags, options with a value and options that stop, the loop that parses them, and what it accepts.
import CfsMmFuzzer.Base.LastWrite

/-!
# Command-line options

The loop `while [[ $# -gt 0 ]]; do case $1 in … esac; done` over a table of
options. A flag takes one argument, an option with a value takes two, whatever
the second is, and an option that stops ends the program.

`Setting` is one use of an option. A command line is accepted when it is what
some list of settings is written as, and the list is unique.
-/

namespace Options

variable {σ α : Type*}

/-- What the branch of an option does. -/
inductive Kind (σ : Type*) where
  | flag (set : σ → σ)
  | value (set : String → σ → σ)
  | stop (status : Nat)

/-- The parsing loop: the variables, or the status that the program ends with. -/
def parse (table : String → Option (Kind σ)) : σ → List String → Except Nat σ
  | s, [] => .ok s
  | s, name :: rest =>
      match table name with
      | none => .error 1
      | some (.stop status) => .error status
      | some (.flag set) => parse table (set s) rest
      | some (.value set) =>
          match rest with
          | [] => .error 1  -- `shift 2` fails
          | v :: rest => parse table (set v s) rest

/-! ## Settings -/

/-- One use of an option that does not stop. -/
inductive Setting where
  | flag (name : String)
  | value (name v : String)
  deriving DecidableEq, Repr

namespace Setting

/-- How a setting is written. -/
def words : Setting → List String
  | flag name => [name]
  | value name v => [name, v]

/-- The option is in the table, and of this kind. -/
def Valid (table : String → Option (Kind σ)) : Setting → Prop
  | flag name => ∃ set, table name = some (.flag set)
  | value name _ => ∃ set, table name = some (.value set)

/-- What a setting does to the variables. -/
def apply (table : String → Option (Kind σ)) (s : σ) : Setting → σ
  | flag name => match table name with
      | some (.flag set) => set s
      | _ => s
  | value name v => match table name with
      | some (.value set) => set v s
      | _ => s

/-- The value that a setting gives the option `name`. -/
def valueOf? (name : String) : Setting → Option String
  | value name' v => if name' = name then some v else none
  | flag _ => none

/-- Whether a setting is the flag `name`. -/
def flagOf? (name : String) : Setting → Option Bool
  | flag name' => if name' = name then some true else none
  | value _ _ => none

end Setting

variable {table : String → Option (Kind σ)}

theorem parse_words_append {g : Setting} (h : g.Valid table) (s : σ) (args : List String) :
    parse table s (g.words ++ args) = parse table (g.apply table s) args := by
  cases g with
  | flag name =>
    obtain ⟨set, hset⟩ := h
    simp [Setting.words, Setting.apply, parse, hset]
  | value name v =>
    obtain ⟨set, hset⟩ := h
    simp [Setting.words, Setting.apply, parse, hset]

/-- What a list of settings is written as is accepted, with their effects in order. -/
theorem parse_flatMap_words {gs : List Setting} (h : ∀ g ∈ gs, g.Valid table) (s : σ) :
    parse table s (gs.flatMap Setting.words) = .ok (gs.foldl (Setting.apply table) s) := by
  induction gs generalizing s with
  | nil => simp [parse]
  | cons g gs ih =>
    obtain ⟨hg, hgs⟩ := List.forall_mem_cons.mp h
    rw [List.flatMap_cons, parse_words_append hg, ih hgs, List.foldl_cons]

/-- **What is accepted**: exactly what lists of settings are written as. -/
theorem parse_eq_ok_iff {s s' : σ} {args : List String} :
    parse table s args = .ok s' ↔
      ∃ gs : List Setting, (∀ g ∈ gs, g.Valid table) ∧ gs.flatMap Setting.words = args ∧
        gs.foldl (Setting.apply table) s = s' := by
  constructor
  · intro h
    fun_induction parse table s args with
    | case1 s =>
      obtain rfl := Except.ok.inj h
      exact ⟨[], by simp, rfl, rfl⟩
    | case2 s name rest hname => cases h
    | case3 s name rest status hname => cases h
    | case4 s name rest set hname ih =>
      obtain ⟨gs, hgs, rfl, rfl⟩ := ih h
      refine ⟨.flag name :: gs, ?_, rfl, by simp [Setting.apply, hname]⟩
      exact List.forall_mem_cons.mpr ⟨⟨set, hname⟩, hgs⟩
    | case5 s name set hname => cases h
    | case6 s name set hname v rest ih =>
      obtain ⟨gs, hgs, rfl, rfl⟩ := ih h
      refine ⟨.value name v :: gs, ?_, rfl, by simp [Setting.apply, hname]⟩
      exact List.forall_mem_cons.mpr ⟨⟨set, hname⟩, hgs⟩
  · rintro ⟨gs, hgs, rfl, rfl⟩
    exact parse_flatMap_words hgs s

/-- A command line is written in one way only. -/
theorem words_inj {gs gs' : List Setting} (hgs : ∀ g ∈ gs, g.Valid table)
    (hgs' : ∀ g ∈ gs', g.Valid table)
    (h : gs.flatMap Setting.words = gs'.flatMap Setting.words) : gs = gs' := by
  induction gs generalizing gs' with
  | nil =>
    cases gs' with
    | nil => rfl
    | cons g' gs' => cases g' <;> simp [Setting.words] at h
  | cons g gs ih =>
    cases gs' with
    | nil => cases g <;> simp [Setting.words] at h
    | cons g' gs' =>
      obtain ⟨hg, hrest⟩ := List.forall_mem_cons.mp hgs
      obtain ⟨hg', hrest'⟩ := List.forall_mem_cons.mp hgs'
      -- the name decides whether a value follows
      cases g with
      | flag name =>
        cases g' with
        | flag name' =>
          simp only [List.flatMap_cons, Setting.words, List.cons_append, List.nil_append,
            List.cons.injEq] at h
          rw [h.1, ih hrest hrest' h.2]
        | value name' v' =>
          obtain ⟨set, hset⟩ := hg
          obtain ⟨set', hset'⟩ := hg'
          simp [Setting.words] at h
          simp [← h.1, hset] at hset'
      | value name v =>
        cases g' with
        | flag name' =>
          obtain ⟨set, hset⟩ := hg
          obtain ⟨set', hset'⟩ := hg'
          simp [Setting.words] at h
          simp [← h.1, hset] at hset'
        | value name' v' =>
          simp only [List.flatMap_cons, Setting.words, List.cons_append, List.nil_append,
            List.cons.injEq] at h
          rw [h.1, h.2.1, ih hrest hrest' h.2.2]

/-- What is not accepted ends with status 1, or with that of an option that stops. -/
theorem parse_eq_error {s : σ} {args : List String} {status : Nat}
    (h : parse table s args = .error status) :
    status = 1 ∨ ∃ name ∈ args, table name = some (.stop status) := by
  fun_induction parse table s args with
  | case1 s => cases h
  | case2 s name rest hname => exact .inl (Except.error.inj h).symm
  | case3 s name rest status' hname =>
    obtain rfl := Except.error.inj h
    exact .inr ⟨name, List.mem_cons_self, hname⟩
  | case4 s name rest set hname ih =>
    refine (ih h).imp_right ?_
    rintro ⟨name', hmem, hstop⟩
    exact ⟨name', List.mem_cons_of_mem _ hmem, hstop⟩
  | case5 s name set hname => exact .inl (Except.error.inj h).symm
  | case6 s name set hname v rest ih =>
    refine (ih h).imp_right ?_
    rintro ⟨name', hmem, hstop⟩
    exact ⟨name', List.mem_cons_of_mem _ (List.mem_cons_of_mem _ hmem), hstop⟩

end Options
