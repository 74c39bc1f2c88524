-- SUMMARY: What a run of the fuzzing script does: its options, the checks before anything is run, one session, and any number of sessions.
import CfsMmFuzzer.Scripts.RunFuzzing

/-!
# Fuzzing sessions

Results about `run_fuzzing.sh` over any system: whatever the commands do, a run
ends with status 0, with the status of its fuzzer, or with a command of its trace
that failed.
-/

namespace CFS.Scripts

open Shell Cmd

variable {ω : Type*} {sys : System ω}

/-! ## The options -/

open Options (Setting)
open LastWrite (lastSet)

/-- The settings that the script knows. -/
def RunSetting : Setting → Prop
  | .flag name => name ∈ ["--cfs-mode", "--continuous"]
  | .value name _ =>
      name ∈ ["--target", "--fuzzer", "--time", "--memory", "--jobs", "--build-type"]

/-- The variables after a list of settings: the last one counts. -/
def RunVars.set (v : RunVars) (gs : List Setting) : RunVars :=
  { v with
    target := lastSet (Setting.valueOf? "--target") gs v.target
    fuzzer := lastSet (Setting.valueOf? "--fuzzer") gs v.fuzzer
    timeLimit := lastSet (Setting.valueOf? "--time") gs v.timeLimit
    memoryLimit := lastSet (Setting.valueOf? "--memory") gs v.memoryLimit
    parallelJobs := lastSet (Setting.valueOf? "--jobs") gs v.parallelJobs
    buildType := lastSet (Setting.valueOf? "--build-type") gs v.buildType
    cfsMode := lastSet (Setting.flagOf? "--cfs-mode") gs v.cfsMode
    continuousMode := lastSet (Setting.flagOf? "--continuous") gs v.continuousMode }

theorem valid_runOption_iff {g : Setting} : g.Valid runOption ↔ RunSetting g := by
  cases g with
  | flag name =>
    simp only [Setting.Valid, RunSetting]
    unfold runOption
    split <;> simp_all
  | value name v =>
    simp only [Setting.Valid, RunSetting]
    unfold runOption
    split <;> simp_all

theorem set_cons {g : Setting} (hg : RunSetting g) (gs : List Setting) (v : RunVars) :
    (g.apply runOption v).set gs = v.set (g :: gs) := by
  cases g with
  | flag name =>
    simp only [RunSetting, List.mem_cons, List.not_mem_nil, or_false] at hg
    obtain rfl | rfl := hg <;>
    simp [RunVars.set, Setting.apply, runOption, LastWrite.lastSet_cons, Setting.flagOf?,
      Setting.valueOf?]
  | value name x =>
    simp only [RunSetting, List.mem_cons, List.not_mem_nil, or_false] at hg
    obtain rfl | rfl | rfl | rfl | rfl | rfl := hg <;>
    simp [RunVars.set, Setting.apply, runOption, LastWrite.lastSet_cons, Setting.flagOf?,
      Setting.valueOf?]

theorem foldl_runOption {gs : List Setting} (hgs : ∀ g ∈ gs, RunSetting g) (v : RunVars) :
    gs.foldl (Setting.apply runOption) v = v.set gs := by
  induction gs generalizing v with
  | nil => rfl
  | cons g gs ih =>
    obtain ⟨hg, hrest⟩ := List.forall_mem_cons.mp hgs
    rw [List.foldl_cons, ih hrest, set_cons hg]

/-- **The options.** A command line is accepted exactly where it is what a list of settings is
written as. The list is unique, and each variable is the last value in it, or what the environment
or the default gave. -/
theorem parse_runOption_iff {v v' : RunVars} {args : List String} :
    Options.parse runOption v args = .ok v' ↔
      ∃! gs : List Setting, (∀ g ∈ gs, RunSetting g) ∧ gs.flatMap Setting.words = args ∧
        v.set gs = v' := by
  have hvalid : ∀ gs : List Setting,
      (∀ g ∈ gs, g.Valid runOption) ↔ ∀ g ∈ gs, RunSetting g := fun gs =>
    forall₂_congr fun g _ => valid_runOption_iff
  constructor
  · intro h
    obtain ⟨gs, hgs, rfl, rfl⟩ := Options.parse_eq_ok_iff.mp h
    refine ⟨gs, ⟨(hvalid gs).mp hgs, rfl, (foldl_runOption ((hvalid gs).mp hgs) v).symm⟩, ?_⟩
    rintro gs' ⟨hgs', hwords, -⟩
    exact Options.words_inj ((hvalid gs').mpr hgs') hgs hwords
  · rintro ⟨gs, ⟨hgs, rfl, rfl⟩, -⟩
    rw [← foldl_runOption hgs]
    exact Options.parse_flatMap_words ((hvalid gs).mpr hgs) v

/-! ## The checks before a session -/

/-- The targets and fuzzers that have a binary, and its name. -/
def binaries : List (String × String × String) := [
  ("mm_load", "libfuzzer", "mm_load_fuzzer"), ("mm_load", "afl", "mm_load_afl"),
  ("mm_load", "standalone", "mm_load_test"), ("mm_dump", "libfuzzer", "mm_dump_fuzzer"),
  ("mm_dump", "afl", "mm_dump_afl"), ("mm_dump", "standalone", "mm_dump_test")]

/-- The path of a binary. -/
def RunVars.binaryPath (v : RunVars) (name : String) : String := "bin/" ++ v.buildType ++ "/" ++ name

/-- The session has a binary, and it can be run. -/
def Ready (sys : System ω) (s : State RunVars ω) : Prop :=
  ∃ name, (s.vars.target, s.vars.fuzzer, name) ∈ binaries ∧
    sys.isFile s.world (s.vars.binaryPath name) ∧ sys.isExecutable s.world (s.vars.binaryPath name)

/-- The variables once the binary is selected. -/
def RunVars.select (v : RunVars) (name : String) : RunVars :=
  { v with fuzzerBin := v.binaryPath name, corpusDir := "corpus/" ++ v.target }

theorem binaries_unique {target fuzzer name name' : String}
    (h : (target, fuzzer, name) ∈ binaries) (h' : (target, fuzzer, name') ∈ binaries) :
    name = name' := by
  have hall : ∀ a ∈ binaries, ∀ b ∈ binaries, a.1 = b.1 → a.2.1 = b.2.1 → a.2.2 = b.2.2 := by
    decide
  exact hall _ h _ h' rfl rfl

theorem ready_iff {v : RunVars} {w : ω} {name : String}
    (hname : (v.target, v.fuzzer, name) ∈ binaries) :
    Ready sys ⟨v, w⟩ ↔ sys.isFile w (v.binaryPath name) ∧
      sys.isExecutable w (v.binaryPath name) := by
  constructor
  · rintro ⟨name', hname', hready⟩
    rwa [binaries_unique hname hname']
  · intro h
    exact ⟨name, hname, h⟩

/-- The checks with a binary to look for. -/
theorem eval_checkBinaries_of_mem {v : RunVars} {name : String}
    (hname : (v.target, v.fuzzer, name) ∈ binaries) (w : ω) :
    eval sys.sem (checkBinaries sys) true ⟨v, w⟩ =
      ⟨if sys.isFile w (v.binaryPath name) ∧ sys.isExecutable w (v.binaryPath name) then .status 0
        else .exited 1, ⟨v.select name, w⟩, []⟩ := by
  simp only [binaries, List.mem_cons, Prod.mk.injEq, List.not_mem_nil, or_false] at hname
  unfold checkBinaries selectBinary setFuzzerBin setVars testPath
  simp only [block, caseOf, eval_seq_dep, eval_seq_if, eval_seq_seq, eval_seq_ite_test,
    eval_seq_skip, eval_seq_exit, eval_seq_assign, select, eval_ite_test, eval_skip, eval_exit]
  obtain ⟨ht, hf, rfl⟩ | ⟨ht, hf, rfl⟩ | ⟨ht, hf, rfl⟩ | ⟨ht, hf, rfl⟩ | ⟨ht, hf, rfl⟩ |
    ⟨ht, hf, rfl⟩ := hname <;>
  simp only [ht, hf, RunVars.select, RunVars.binaryPath, String.reduceEq, String.reduceAppend,
      if_true, if_false] <;>
  split_ifs <;> simp_all

/-- No other target or fuzzer passes. -/
theorem eval_checkBinaries_of_not_mem {v : RunVars}
    (h : ∀ name, (v.target, v.fuzzer, name) ∉ binaries) (w : ω) :
    eval sys.sem (checkBinaries sys) true ⟨v, w⟩ = ⟨.exited 1, ⟨v, w⟩, []⟩ := by
  have hlib := h "mm_load_fuzzer"
  have hafl := h "mm_load_afl"
  have hstd := h "mm_load_test"
  have hlib' := h "mm_dump_fuzzer"
  have hafl' := h "mm_dump_afl"
  have hstd' := h "mm_dump_test"
  simp [binaries] at hlib hafl hstd hlib' hafl' hstd'
  unfold checkBinaries selectBinary setFuzzerBin setVars testPath
  simp only [block, caseOf, eval_seq_dep, eval_seq_if, eval_seq_seq, eval_seq_ite_test,
    eval_seq_skip, eval_seq_exit, eval_seq_assign, select, eval_ite_test, eval_skip, eval_exit]
  split_ifs <;> simp_all

theorem eval_checkBinaries_of_ready {v : RunVars} {w : ω} (h : Ready sys ⟨v, w⟩) :
    ∃ name, (v.target, v.fuzzer, name) ∈ binaries ∧
      eval sys.sem (checkBinaries sys) true ⟨v, w⟩ = ⟨.status 0, ⟨v.select name, w⟩, []⟩ := by
  obtain ⟨name, hname, hready⟩ := h
  exact ⟨name, hname, by rw [eval_checkBinaries_of_mem hname, if_pos hready]⟩

theorem eval_checkBinaries_of_not_ready {v : RunVars} {w : ω} (h : ¬ Ready sys ⟨v, w⟩) :
    ∃ v', eval sys.sem (checkBinaries sys) true ⟨v, w⟩ = ⟨.exited 1, ⟨v', w⟩, []⟩ := by
  by_cases hmem : ∃ name, (v.target, v.fuzzer, name) ∈ binaries
  · obtain ⟨name, hname⟩ := hmem
    rw [ready_iff hname] at h
    exact ⟨v.select name, by rw [eval_checkBinaries_of_mem hname, if_neg h]⟩
  · exact ⟨v, eval_checkBinaries_of_not_mem (not_exists.mp hmem) w⟩

/-- The script up to the end of its checks. -/
theorem runFuzzing_of_error {env : String → Option String} {args : List String} {n status : Nat}
    {w : ω} (h : Options.parse runOption (.initial env) args = .error status) :
    runFuzzing sys env args n w = ⟨.exited status, ⟨.initial env, w⟩, []⟩ := by
  simp [runFuzzing, runMain, eval_call, eval_dep, h, Outcome.atCall]

theorem runFuzzing_of_ok {env : String → Option String} {args : List String} {n : Nat}
    {w : ω} {v : RunVars} (h : Options.parse runOption (.initial env) args = .ok v) :
    runFuzzing sys env args n w = eval sys.sem (call (mainBody sys n)) true ⟨v, w⟩ := by
  simp [runFuzzing, runMain, eval_call, eval_dep, h, setVars, eval_seq_assign]

theorem runFuzzing_of_not_ready {env : String → Option String} {args : List String} {n : Nat}
    {w : ω} {v : RunVars} (h : Options.parse runOption (.initial env) args = .ok v)
    (hready : ¬ Ready sys ⟨v, w⟩) :
    ∃ v', runFuzzing sys env args n w = ⟨.exited 1, ⟨v', w⟩, []⟩ := by
  obtain ⟨v', hcheck⟩ := eval_checkBinaries_of_not_ready hready
  refine ⟨v', ?_⟩
  simp [runFuzzing_of_ok h, mainBody, block, eval_call, eval_seq, hcheck, Outcome.atCall]

/-- **Nothing is run before the checks.** A run whose command line is not accepted, or whose
binary cannot be run, changes nothing and fails, but for a request for help. -/
theorem runFuzzing_preflight (sys : System ω) (env : String → Option String) (args : List String)
    (n : Nat) (w : ω) :
    (∃ v, Options.parse runOption (.initial env) args = .ok v ∧ Ready sys ⟨v, w⟩) ∨
    ∃ v status, runFuzzing sys env args n w = ⟨.exited status, ⟨v, w⟩, []⟩ ∧
      (status = 1 ∨ status = 0 ∧ ("-h" ∈ args ∨ "--help" ∈ args)) := by
  cases hargs : Options.parse runOption (.initial env) args with
  | error status =>
    refine .inr ⟨_, status, runFuzzing_of_error hargs, ?_⟩
    refine (Options.parse_eq_error hargs).imp_right ?_
    rintro ⟨name, hmem, hstop⟩
    unfold runOption at hstop
    split at hstop <;> simp_all
  | ok v =>
    by_cases hready : Ready sys ⟨v, w⟩
    · exact .inl ⟨v, rfl, hready⟩
    · obtain ⟨v', hrun⟩ := runFuzzing_of_not_ready hargs hready
      exact .inr ⟨v', 1, hrun, .inl rfl⟩

/-! ## What is seen of a session -/

/-- The commands other than the fuzzers. -/
def External.isAuxiliary : External → Bool
  | .libfuzzer _ _ => false
  | .aflFuzz _ _ _ => false
  | .standalone _ => false
  | _ => true

/-- `command -v`. The script tests it, and leaves with status 1 where it fails. -/
def External.isLookup : External → Bool
  | .commandV _ => true
  | _ => false

/-- The command is no fuzzer, it failed, and for this the script leaves with status `m`. The failure
of a command that is run unchecked, as with `|| true`, is passed over. -/
def Stops (x : Entry External) (m : Nat) : Prop :=
  x.cmd.isAuxiliary ∧ x.status ≠ 0 ∧ (x.checked ∧ m = x.status ∨ x.cmd.isLookup ∧ m = 1)

/-- A fuzzer that ran, with its status, an analysis of its results, or the command that stopped the
script. -/
inductive Event where
  | fuzzed (status : Nat)
  | analysed
  | stopped (x : Entry External)
  deriving DecidableEq, Repr

/-- The summary is the first thing that `analyze_results` writes. -/
def eventOf (x : Entry External) : Option Event :=
  if x.cmd.isAuxiliary = false then some (.fuzzed x.status)
  else if x.status = 0 then
    match x.cmd with
    | .tee _ file => if file = "summary.txt" then some .analysed else none
    | _ => none
  else if x.checked ∨ x.cmd.isLookup then some (.stopped x) else none

/-- What is seen of a run. -/
def events {ν : Type*} (r : Result (State ν ω) External) : List Event := r.trace.filterMap eventOf

theorem eventOf_eq_stopped {x y : Entry External} (h : eventOf x = some (.stopped y)) : x = y := by
  unfold eventOf at h
  split_ifs at h with haux hzero hstop
  · cases h
  · split at h
    · split_ifs at h
      cases h
    · cases h
  · exact Event.stopped.inj (Option.some.inj h)

/-- The command that is seen to stop a run is one of the run. -/
theorem mem_trace_of_stopped {ν : Type*} {r : Result (State ν ω) External} {x : Entry External}
    (h : .stopped x ∈ events r) : x ∈ r.trace := by
  obtain ⟨y, hy, hseen⟩ := List.mem_filterMap.mp h
  exact eventOf_eq_stopped hseen ▸ hy

/-- The commands of which nothing is seen unless they stop the script. -/
def External.isQuiet : External → Bool
  | .tee _ file => file ≠ "summary.txt"
  | .commandV _ => false
  | e => e.isAuxiliary

theorem External.isAuxiliary_of_isQuiet {e : External} (he : e.isQuiet) : e.isAuxiliary := by
  cases e <;> simp_all [isQuiet, isAuxiliary]

theorem eventOf_quiet {e : External} (he : e.isQuiet) (checked : Bool) (n : Nat) :
    eventOf ⟨e, checked, n⟩ =
      if checked ∧ n ≠ 0 then some (.stopped ⟨e, checked, n⟩) else none := by
  have hlookup : e.isLookup = false := by cases e <;> simp_all [External.isQuiet, External.isLookup]
  have hsummary : ∀ dir, e ≠ .tee dir "summary.txt" := by
    rintro dir rfl
    simp [External.isQuiet] at he
  have haux := External.isAuxiliary_of_isQuiet he
  unfold eventOf
  by_cases hn : n = 0
  · cases e <;> simp_all [External.isAuxiliary]
  · simp [haux, hlookup, hn]

theorem eventOf_fuzzer {e : External} (he : e.isAuxiliary = false) (checked : Bool) (n : Nat) :
    eventOf ⟨e, checked, n⟩ = some (.fuzzed n) := if_pos he

/-- The choices that no line after the options changes. -/
def Chosen (v₀ : RunVars) (s : State RunVars ω) : Prop :=
  s.vars.fuzzer = v₀.fuzzer ∧ s.vars.continuousMode = v₀.continuousMode ∧
    s.vars.fuzzerBin = v₀.fuzzerBin

/-- Where a line may be passed with `V` seen of it, and left with `X`. -/
abbrev Spec (sys : System ω) (v₀ : RunVars) (checked : Bool) (c : Line RunVars ω)
    (V : List Event → Prop) (X : Nat → List Event → Prop) : Prop :=
  Triple sys.sem (Chosen v₀) eventOf checked c V X

variable {v₀ : RunVars} {checked : Bool} {X : Nat → List Event → Prop}

section Auxiliary

variable (hX : ∀ x m, Stops x m → X m [.stopped x])
include hX

theorem spec_run {e : External} (he : e.isQuiet) : Spec sys v₀ checked (run e) (· = []) X := by
  refine .run (fun _ hs => hs) (fun n hn => ?_) fun s n _ h0 hc => ?_
  · rw [eventOf_quiet he, if_neg fun h => h.2 (hn h.1)]
    rfl
  · rw [eventOf_quiet he, if_pos ⟨hc, h0⟩]
    exact hX _ n ⟨External.isAuxiliary_of_isQuiet he, h0, .inl ⟨hc, rfl⟩⟩

theorem spec_setupResultsDir : Spec sys v₀ checked (call (setupResultsDir sys)) (· = []) X :=
  .call (.cons (.assign fun _ hs => hs) (.dep fun _ _ => spec_run hX rfl))

theorem spec_setupCorpus : Spec sys v₀ checked (call (setupCorpus sys)) (· = []) X := by
  have hrun : ∀ {e : External}, e.isQuiet → Spec sys v₀ checked (run e) (· = []) X := spec_run hX
  have hmake : ∀ dir, Spec sys v₀ checked (makeSeeds dir) (· = []) X :=
    fun dir => .cons (hrun rfl) (.cons (hrun rfl) (hrun rfl))
  refine .call (.ite_test .skip (.cons (.dep fun _ _ => hrun rfl) (.caseOf fun _ _ => ?_)))
  simp only [select]
  split_ifs
  · exact hmake _
  · exact .ite_test (hmake _) .skip
  · exact .skip

/-- The analysis, with what is seen before it. -/
theorem spec_analyzeResults (hX' : ∀ x m, Stops x m → X m [.analysed, .stopped x]) :
    Spec sys v₀ true (call (analyzeResults sys)) (· = [.analysed]) X := by
  have hminimize : ∀ X, Spec sys v₀ true (minimizeCrashes sys) (· = []) X := by
    refine fun X => .dep fun _ _ => .forEach fun file => ?_
    refine .ite_test (.dep fun _ _ => .ignore (fun _ hs => hs) fun n => ?_) .skip
    rw [eventOf_quiet rfl]
    rfl
  have htee : ∀ dir, Spec sys v₀ true (run (.tee dir "summary.txt")) (· = [.analysed]) X := by
    refine fun dir => .run (fun _ hs => hs) (fun n hn => ?_) (fun s n hn h0 _ => ?_)
    · obtain rfl := hn rfl
      rfl
    · have hseen : eventOf ⟨.tee dir "summary.txt", true, n⟩ =
          some (.stopped ⟨.tee dir "summary.txt", true, n⟩) := by
        simp [eventOf, External.isAuxiliary, h0]
      rw [hseen]
      exact hX _ n ⟨rfl, h0, .inl ⟨rfl, rfl⟩⟩
  have htar : Spec sys v₀ true (withVars fun v => run (.tar v.resultsDir "logs.tar.gz")) (· = [])
      fun n v' => ∀ v, v = [.analysed] → X n (v ++ v') := by
    refine .dep fun _ _ => spec_run ?_ rfl
    rintro x m hx _ rfl
    exact hX' x m hx
  exact .call (.cons (.assign fun _ hs => hs) (.concat (.dep fun _ _ => htee _)
    (.cons (.ite_test (.ite_test (hminimize _) .skip) .skip) (.ite_test htar .skip))))

/-- The status of AFL is lost. -/
theorem spec_runAfl :
    Spec sys v₀ checked (call (runAfl sys)) (fun v => ∃ k, v = [.fuzzed k]) X := by
  have hafl : ∀ bin corpus output, Spec sys v₀ false
      (capture (.aflFuzz bin corpus output) fun _ s => s) (fun v => ∃ k, v = [.fuzzed k]) X :=
    fun _ _ _ => .capture (fun _ hs => hs) fun n => ⟨n, rfl⟩
  have hcopy : ∀ dir name target X, Spec sys v₀ checked
      (ignore (.copyFound dir name target)) (· = []) X :=
    fun _ _ _ _ => .ignore (fun _ hs => hs) fun n => by rw [eventOf_quiet rfl]; rfl
  have htee : ∀ dir, Spec sys v₀ false (run (.tee dir "logs/afl_session.log")) (· = [])
      fun n v' => ∀ v, (∃ k, v = [.fuzzed k]) → X n (v ++ v') :=
    fun _ => .run (fun _ hs => hs) (fun n _ => by rw [eventOf_quiet rfl]; rfl) nofun
  refine .call (.cons (.ite_run (fun _ hs => hs) rfl .skip fun n hn => ?_)
    (.cons (.dep fun _ _ => spec_run hX rfl) (.cons (.dep fun _ _ => spec_run hX rfl)
      (.concat (.dep fun _ _ => .orElse_skip ((hafl _ _ _).concat (htee _)))
        (.dep fun _ _ => .ite_test (.cons (hcopy _ _ _ _) (hcopy _ _ _ _)) .skip)))))
  have hseen : eventOf ⟨.commandV "afl-fuzz", false, n⟩ =
      some (.stopped ⟨.commandV "afl-fuzz", false, n⟩) := by
    simp [eventOf, External.isAuxiliary, External.isLookup, hn]
  rw [hseen]
  exact .exit Nat.one_ne_zero (hX _ 1 ⟨rfl, hn, .inr ⟨rfl, rfl⟩⟩)

end Auxiliary

/-! ## Fuzzers that give their status -/

/-- From variables with `I` the lines return a status, with `V` of it and of what is seen, or a
command stops the script before, with `E` of what is seen before it. -/
def Returns (sys : System ω) (v₀ : RunVars) (I : RunVars → Prop) (body : Line RunVars ω)
    (V : Nat → List Event → Prop) (E : List Event → Prop) : Prop :=
  ∀ checked s, Chosen v₀ s → I s.vars →
    (∃ k, (eval sys.sem body checked s).outcome = .returned k ∧
      Chosen v₀ (eval sys.sem body checked s).state ∧ V k (events (eval sys.sem body checked s))) ∨
    ∃ m ≠ 0, (eval sys.sem body checked s).outcome = .exited m ∧ ∃ x v, Stops x m ∧ E v ∧
      events (eval sys.sem body checked s) = v ++ [.stopped x]

namespace Returns

variable {I : RunVars → Prop} {V : Nat → List Event → Prop} {E : List Event → Prop}
  {body : Line RunVars ω} {fuzzer : RunVars → External} {P : Nat → Prop}

theorem ret {n : RunVars → Nat} (h : ∀ v, I v → V (n v) []) :
    Returns sys v₀ I (ret fun s => n s.vars) V E :=
  fun _ s hs hI => .inl ⟨n s.vars, rfl, hs, h _ hI⟩

/-- A quiet command in front. -/
theorem run_seq (hbody : Returns sys v₀ I body V E) (hE : E []) {e : RunVars → External}
    (he : ∀ v, (e v).isQuiet) :
    Returns sys v₀ I (.seq (withVars fun v => run (e v)) body) V E := by
  have hafter : ∀ {r : Result (State RunVars ω) External} {v n} {checked : Bool},
      (checked → n = 0) → events (r.after ⟨e v, checked, n⟩) = events r := fun h =>
    List.filterMap_cons_none (by rw [eventOf_quiet (he _), if_neg fun hstop => hstop.2 (h hstop.1)])
  intro checked s hs hI
  rw [withVars, eval_seq_dep]
  have hrest := hbody checked (sys.sem (e s.vars) s).2 hs hI
  cases checked with
  | false =>
    rw [eval_seq_run_unchecked, hafter fun h => (Bool.false_ne_true h).elim]
    exact hrest
  | true =>
    rw [eval_seq_run]
    split_ifs with hrun
    · rw [hafter fun _ => rfl]
      exact hrest
    · have hstops : Stops ⟨e s.vars, true, (sys.sem (e s.vars) s).1⟩ (sys.sem (e s.vars) s).1 :=
        ⟨External.isAuxiliary_of_isQuiet (he _), hrun, .inl ⟨rfl, rfl⟩⟩
      refine .inr ⟨_, hrun, rfl, _, [], hstops, hE, ?_⟩
      exact List.filterMap_cons_some (by rw [eventOf_quiet (he _), if_pos ⟨rfl, hrun⟩])

/-- The fuzzer in front. Its status is stored. -/
theorem capture_seq
    (hbody : ∀ k, Returns sys v₀ (·.exitCode = k) body (fun k' v => k' = k ∧ v = []) (· = []))
    (hfuzzer : ∀ v, (fuzzer v).isAuxiliary = false)
    (hP : ∀ s, Chosen v₀ s → P (sys.sem (fuzzer s.vars) s).1) :
    Returns sys v₀ (fun _ => True)
      (.seq (withVars fun v => capture (fuzzer v) fun n s => { s with vars.exitCode := n }) body)
      (fun k v => P k ∧ v = [.fuzzed k]) fun v => ∃ k, v <+: [.fuzzed k] := by
  have hafter : ∀ {r : Result (State RunVars ω) External} {v checked n},
      events (r.after ⟨fuzzer v, checked, n⟩) = .fuzzed n :: events r :=
    List.filterMap_cons_some (eventOf_fuzzer (hfuzzer _) _ _)
  intro checked s hs _
  rw [withVars, eval_seq_dep, eval_seq_capture, hafter]
  obtain ⟨k, hout, hchosen, rfl, hnil⟩ | ⟨m, hm, hout, x, _, hx, rfl, hstopped⟩ :=
    hbody (sys.sem (fuzzer s.vars) s).1 checked
      { (sys.sem (fuzzer s.vars) s).2 with vars.exitCode := (sys.sem (fuzzer s.vars) s).1 } hs rfl
  · exact .inl ⟨_, hout, hchosen, hP s hs, congrArg _ hnil⟩
  · exact .inr ⟨m, hm, hout, x, _, hx, ⟨_, List.prefix_rfl⟩, congrArg _ hstopped⟩

theorem loggedRun {log : String} (hfuzzer : ∀ v, (fuzzer v).isAuxiliary = false)
    (hP : ∀ s, Chosen v₀ s → P (sys.sem (fuzzer s.vars) s).1) :
    Returns sys v₀ (fun _ => True) (loggedRun fuzzer log)
      (fun k v => P k ∧ v = [.fuzzed k]) fun v => ∃ k, v <+: [.fuzzed k] := by
  have htail : ∀ k, Returns sys v₀ (·.exitCode = k) (Cmd.ret fun s => s.vars.exitCode)
      (fun k' v => k' = k ∧ v = []) (· = []) := fun k => .ret (by simp)
  refine .run_seq (.capture_seq (fun k => ?_) hfuzzer hP) ⟨0, List.nil_prefix⟩ fun _ => rfl
  exact .run_seq (.run_seq (htail k) rfl fun _ => rfl) rfl fun _ => rfl

theorem runLibfuzzer :
    Returns sys v₀ (fun _ => True) runLibfuzzer
      (fun k v => True ∧ v = [.fuzzed k]) fun v => ∃ k, v <+: [.fuzzed k] :=
  .run_seq (loggedRun (fun _ => rfl) fun _ _ => trivial) ⟨0, List.nil_prefix⟩ fun _ => rfl

theorem runStandalone (hP : ∀ w, P (sys.exec (.standalone v₀.fuzzerBin) w).1) :
    Returns sys v₀ (fun _ => True) runStandalone
      (fun k v => P k ∧ v = [.fuzzed k]) fun v => ∃ k, v <+: [.fuzzed k] := by
  refine loggedRun (fun _ => rfl) fun s hs => ?_
  have hbin : s.vars.fuzzerBin = v₀.fuzzerBin := hs.2.2
  rw [hbin]
  exact hP s.world

/-- A call of such lines: where it is checked, the script goes on with status 0 only. -/
theorem call (hbody : Returns sys v₀ (fun _ => True) body (fun k v => P k ∧ v = [.fuzzed k])
      fun v => ∃ k, v <+: [.fuzzed k])
    (hX : checked → ∀ n ≠ 0, P n → X n [.fuzzed n])
    (hX' : ∀ x m, Stops x m → ∀ k v, v <+: [.fuzzed k] → X m (v ++ [.stopped x])) :
    Spec sys v₀ checked (call body) (fun v => ∃ k, P k ∧ (checked → k = 0) ∧ v = [.fuzzed k])
      X := by
  intro s hs
  obtain ⟨k, hout, hchosen, hk, hevents⟩ | ⟨m, hm, hout, x, v, hx, ⟨k, hv⟩, hevents⟩ :=
    hbody checked s hs trivial
  · by_cases h : checked = true ∧ k ≠ 0
    · refine .inr ⟨k, h.2, ?_, ?_⟩
      · rw [eval_call, hout]
        exact if_pos h
      · exact (congrArg (X k) hevents).mpr (hX h.1 k h.2 hk)
    · have hzero : checked = true → k = 0 := fun hc => not_not.mp fun h0 => h ⟨hc, h0⟩
      refine .inl ⟨k, ?_, hzero, hchosen, k, hk, hzero, hevents⟩
      rw [eval_call, hout]
      exact if_neg h
  · refine .inr ⟨m, hm, by rw [eval_call, hout]; rfl, ?_⟩
    exact (congrArg (X m) hevents).mpr (hX' x m hx k v hv)

end Returns

/-! ## One session -/

/-- What is seen of a session that was completed: only the status of AFL does not count. -/
def Completed (v₀ : RunVars) (v : List Event) : Prop :=
  ∃ k, (v₀.fuzzer = "afl" ∨ k = 0) ∧ v = [.fuzzed k, .analysed]

/-- What is seen of a session that `x` stopped: it comes last, before or after the fuzzer, or with
the analysis done. -/
def StoppedBy (v₀ : RunVars) (x : Entry External) (v : List Event) : Prop :=
  ∃ done, ((∃ k, done <+: [.fuzzed k]) ∨ Completed v₀ done) ∧ v = done ++ [.stopped x]

theorem StoppedBy.mem_trace {ν : Type*} {r : Result (State ν ω) External} {x : Entry External}
    (h : StoppedBy v₀ x (events r)) : x ∈ r.trace := by
  obtain ⟨done, -, hevents⟩ := h
  exact mem_trace_of_stopped (hevents ▸ List.mem_concat_self)

/-- What is seen of a session that failed with status `n`: the fuzzer gave this status and was not
AFL, or another command stopped the script with it. -/
def Failed (v₀ : RunVars) (n : Nat) (v : List Event) : Prop :=
  (v₀.fuzzer ≠ "afl" ∧ v = [.fuzzed n]) ∨ ∃ x, Stops x n ∧ StoppedBy v₀ x v

theorem failed_of_stops {x : Entry External} {m k : Nat} {v : List Event} (hx : Stops x m)
    (hv : v <+: [.fuzzed k]) : Failed v₀ m (v ++ [.stopped x]) :=
  .inr ⟨x, hx, v, .inl ⟨k, hv⟩, rfl⟩

/-- Before the fuzzer. -/
theorem Stops.failed {x : Entry External} {m : Nat} (hx : Stops x m) :
    Failed v₀ m [.stopped x] := failed_of_stops (k := 0) hx List.nil_prefix

/-- A fuzzer that gives its status, in the single mode. -/
theorem Returns.spec {body : Line RunVars ω} {P : Nat → Prop}
    (hbody : Returns sys v₀ (fun _ => True) body (fun k v => P k ∧ v = [.fuzzed k])
      fun v => ∃ k, v <+: [.fuzzed k]) (hafl : v₀.fuzzer ≠ "afl") :
    Spec sys v₀ true (Cmd.call body) (fun v => P 0 ∧ v = [.fuzzed 0]) (Failed v₀) := by
  refine (hbody.call (X := Failed v₀) (fun _ n _ _ => .inl ⟨hafl, rfl⟩)
    fun x m hx k v hv => failed_of_stops hx hv).mono ?_ fun _ _ h => h
  rintro v ⟨k, hk, hzero, rfl⟩
  obtain rfl := hzero rfl
  exact ⟨hk, rfl⟩

theorem spec_fuzzOnce (hfuzzer : v₀.fuzzer ∈ ["libfuzzer", "afl", "standalone"]) :
    Spec sys v₀ true (fuzzOnce sys) (fun v => ∃ k, (v₀.fuzzer = "afl" ∨ k = 0) ∧ v = [.fuzzed k])
      (Failed v₀) := by
  have hzero : ∀ v, True ∧ v = [Event.fuzzed 0] →
      ∃ k, (v₀.fuzzer = "afl" ∨ k = 0) ∧ v = [.fuzzed k] := by
    rintro v ⟨-, rfl⟩
    exact ⟨0, .inr rfl, rfl⟩
  refine .caseOf fun s hs => ?_
  simp only [hs.1, select]
  split_ifs with hlib hafl hstandalone
  · exact (Returns.runLibfuzzer.spec (by rw [hlib]; decide)).mono hzero fun _ _ h => h
  · refine (spec_runAfl fun _ _ => Stops.failed).mono ?_ fun _ _ h => h
    rintro v ⟨k, rfl⟩
    exact ⟨k, .inl hafl, rfl⟩
  · exact ((Returns.runStandalone (P := fun _ => True) fun _ => trivial).spec hafl).mono hzero
      fun _ _ h => h
  · simp_all

/-- With a stand-alone binary that always fails, nothing follows it. -/
theorem spec_fuzzOnce_standalone {P : Nat → Prop} (hfuzzer : v₀.fuzzer = "standalone")
    (hbin : ∀ w, P (sys.exec (.standalone v₀.fuzzerBin) w).1) (hP : ¬ P 0) :
    Spec sys v₀ true (fuzzOnce sys) (fun _ => False) fun n v =>
      P n ∧ v = [.fuzzed n] ∨ ∃ x k done, Stops x n ∧ done <+: [.fuzzed k] ∧
        v = done ++ [.stopped x] := by
  refine .caseOf fun s hs => ?_
  simp only [hs.1, hfuzzer, select, String.reduceEq, if_true, if_false]
  refine ((Returns.runStandalone hbin).call (fun _ n _ hn => .inl ⟨hn, rfl⟩)
    fun x m hx k v hv => .inr ⟨x, k, v, hx, hv, rfl⟩).mono ?_ fun _ _ h => h
  rintro _ ⟨k, hk, hzero, -⟩
  exact hP (hzero rfl ▸ hk)

theorem spec_single (hfuzzer : v₀.fuzzer ∈ ["libfuzzer", "afl", "standalone"]) :
    Spec sys v₀ true
      (block [call (setupResultsDir sys), fuzzOnce sys, call (analyzeResults sys)])
      (Completed v₀) (Failed v₀) := by
  refine .cons (spec_setupResultsDir fun _ _ => Stops.failed)
    ((spec_fuzzOnce hfuzzer).seq
      (spec_analyzeResults (X := fun m v => ∃ x, Stops x m ∧
          (v = [.stopped x] ∨ v = [.analysed, .stopped x]))
        (fun x _ hx => ⟨x, hx, .inl rfl⟩) fun x _ hx => ⟨x, hx, .inr rfl⟩) ?_ (fun _ _ h => h) ?_)
  · rintro _ _ ⟨k, hk, rfl⟩ rfl
    exact ⟨k, hk, rfl⟩
  · rintro m _ _ ⟨k, hk, rfl⟩ ⟨x, hx, rfl | rfl⟩
    · exact failed_of_stops hx List.prefix_rfl
    · exact .inr ⟨x, hx, [.fuzzed k, .analysed], .inr ⟨k, hk, rfl⟩, rfl⟩

/-! ## Any number of sessions -/

theorem Ready.fuzzer_mem {s : State RunVars ω} (h : Ready sys s) :
    s.vars.fuzzer ∈ ["libfuzzer", "afl", "standalone"] := by
  have hall : ∀ b ∈ binaries, b.2.1 ∈ ["libfuzzer", "afl", "standalone"] := by decide
  obtain ⟨name, hname, -⟩ := h
  exact hall _ hname

/-- A script that is ready, by what its sessions do. -/
theorem runFuzzing_of_spec {env : String → Option String} {args : List String} {n : Nat} {w : ω}
    {v : RunVars} {V : List Event → Prop}
    (hargs : Options.parse runOption (.initial env) args = .ok v) (hready : Ready sys ⟨v, w⟩)
    (hX : ∀ x m, Stops x m → X m [.stopped x])
    (h : ∀ name, (v.target, v.fuzzer, name) ∈ binaries →
      Spec sys (v.select name) true (sessions sys n) V X) :
    ((runFuzzing sys env args n w).outcome = .status 0 ∧ V (events (runFuzzing sys env args n w))) ∨
      ∃ m ≠ 0, (runFuzzing sys env args n w).outcome = .exited m ∧
        X m (events (runFuzzing sys env args n w)) := by
  obtain ⟨name, hname, hcheck⟩ := eval_checkBinaries_of_ready hready
  have hmain : runFuzzing sys env args n w =
      eval sys.sem (call (.seq (call (setupCorpus sys)) (sessions sys n))) true
        ⟨v.select name, w⟩ := by
    rw [runFuzzing_of_ok hargs, mainBody, block_cons, eval_call,
      eval_seq_of_status (n := 0) (by rw [eval_call, hcheck]; rfl), eval_call, eval_call, hcheck]
    rfl
  rw [hmain]
  obtain ⟨m, hout, hm, -, hV⟩ | hfail :=
    Triple.call (.cons (spec_setupCorpus hX) (h name hname)) ⟨v.select name, w⟩ ⟨rfl, rfl, rfl⟩
  · exact .inl ⟨by rw [hout, hm rfl], hV⟩
  · exact .inr hfail

/-- The mode decides what the sessions are. -/
theorem spec_sessions {V : List Event → Prop} {n : Nat}
    (h : Spec sys v₀ true (if v₀.continuousMode then call (runContinuous sys n) else
      block [call (setupResultsDir sys), fuzzOnce sys, call (analyzeResults sys)]) V X) :
    Spec sys v₀ true (sessions sys n) V X := by
  intro s hs
  have hs' := h s hs
  rw [sessions, eval_ite_test, hs.2.1]
  rwa [eval_if] at hs'

/-- Out of the continuous mode the script is one session. -/
theorem runFuzzing_of_session {env : String → Option String} {args : List String} {n : Nat} {w : ω}
    {v : RunVars} {V : List Event → Prop}
    (hargs : Options.parse runOption (.initial env) args = .ok v) (hready : Ready sys ⟨v, w⟩)
    (hmode : v.continuousMode = false) (hX : ∀ x m, Stops x m → X m [.stopped x])
    (h : ∀ name, (v.target, v.fuzzer, name) ∈ binaries → Spec sys (v.select name) true
      (block [call (setupResultsDir sys), fuzzOnce sys, call (analyzeResults sys)]) V X) :
    ((runFuzzing sys env args n w).outcome = .status 0 ∧ V (events (runFuzzing sys env args n w))) ∨
      ∃ m ≠ 0, (runFuzzing sys env args n w).outcome = .exited m ∧
        X m (events (runFuzzing sys env args n w)) := by
  refine runFuzzing_of_spec hargs hready hX fun name hname => ?_
  have hmode' : (v.select name).continuousMode = false := hmode
  refine spec_sessions ?_
  rw [hmode', if_neg Bool.false_ne_true]
  exact h name hname

/-- What is seen of a script that is ready and runs one session. -/
theorem completed_or_failed {env : String → Option String} {args : List String} {w : ω}
    {v : RunVars} (hargs : Options.parse runOption (.initial env) args = .ok v)
    (hready : Ready sys ⟨v, w⟩) (hmode : v.continuousMode = false) (n : Nat) :
    ((runFuzzing sys env args n w).outcome = .status 0 ∧
      Completed v (events (runFuzzing sys env args n w))) ∨
    ∃ m ≠ 0, (runFuzzing sys env args n w).outcome = .exited m ∧
      Failed v m (events (runFuzzing sys env args n w)) :=
  runFuzzing_of_session hargs hready hmode (fun _ _ => Stops.failed)
    fun _ _ => spec_single hready.fuzzer_mem

/-- **One session.** Out of the continuous mode a script that is ready ends with status 0 exactly
after a completed session. Else it leaves with the status of its fuzzer, and the results are not
analysed, or a command of the run that is no fuzzer failed and stopped it. -/
theorem runFuzzing_single {env : String → Option String} {args : List String} {w : ω}
    {v : RunVars} (hargs : Options.parse runOption (.initial env) args = .ok v)
    (hready : Ready sys ⟨v, w⟩) (hmode : v.continuousMode = false) (n : Nat) :
    let r := runFuzzing sys env args n w
    (r.outcome = .status 0 ∧ Completed v (events r)) ∨
      ∃ m ≠ 0, r.outcome = .exited m ∧ ((v.fuzzer ≠ "afl" ∧ events r = [.fuzzed m]) ∨
        ∃ x ∈ r.trace, Stops x m ∧ StoppedBy v x (events r)) := by
  obtain hdone | ⟨m, hm, hout, hfuzzer | ⟨x, hx, hstopped⟩⟩ :=
    completed_or_failed hargs hready hmode n
  · exact .inl hdone
  · exact .inr ⟨m, hm, hout, .inl hfuzzer⟩
  · exact .inr ⟨m, hm, hout, .inr ⟨x, hstopped.mem_trace, hx, hstopped⟩⟩

theorem runFuzzing_single_ideal :
    let r := runFuzzing .ideal (fun _ => none) [] 0 ()
    let v := RunVars.initial fun _ => none
    (r.outcome = .status 0 ∧ Completed v (events r)) ∨
      ∃ m ≠ 0, r.outcome = .exited m ∧ ((v.fuzzer ≠ "afl" ∧ events r = [.fuzzed m]) ∨
        ∃ x ∈ r.trace, Stops x m ∧ StoppedBy v x (events r)) :=
  runFuzzing_single rfl ⟨"mm_load_fuzzer", by decide, rfl, rfl⟩ rfl 0

end CFS.Scripts
