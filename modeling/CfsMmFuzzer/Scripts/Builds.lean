-- SUMMARY: What a run of the build script certifies, how it verifies binaries, and which failures it ignores.
import CfsMmFuzzer.Scripts.BuildAll

/-!
# Builds

Results about `build_all.sh` over any system: what its verification counts with
and without errexit, what an exit with status 0 means for the file system, and
which commands may fail.
-/

namespace CFS.Scripts

open Shell Cmd

variable {ω : Type*} {sys : System ω}

/-! ## Verification -/

/-- The binary is there, and can be run. -/
def Usable (sys : System ω) (w : ω) (binary : String) : Prop :=
  sys.isFile w binary ∧ sys.isExecutable w binary

instance (sys : System ω) (w : ω) : DecidablePred (Usable sys w) := fun _ => instDecidableAnd

/-- The number of binaries that cannot be run. -/
def missing (sys : System ω) (w : ω) (binaries : List String) : Nat :=
  binaries.countP fun binary => ¬ Usable sys w binary

/-- The body of the loop of `verify_builds`. -/
def verifyBinary (sys : System ω) (binary : String) : Line BuildVars ω :=
  ite (test fun s => sys.isFile s.world binary)
    (ite (test fun s => sys.isExecutable s.world binary) skip countMissing)
    countMissing

/-- One binary: it is counted where it cannot be run. -/
theorem eval_verifyBinary (sys : System ω) (checked : Bool) (binary : String) (v : BuildVars)
    (w : ω) :
    eval sys.sem (verifyBinary sys binary) checked ⟨v, w⟩ =
      if Usable sys w binary then ⟨.status 0, ⟨v, w⟩, []⟩
      else ⟨settle checked (if v.missingCount = 0 then 1 else 0),
        ⟨{ v with missingCount := v.missingCount + 1 }, w⟩, []⟩ := by
  unfold verifyBinary Usable
  rw [eval_ite_test, eval_ite_test, eval_skip]
  split_ifs <;> simp_all [countMissing, eval]

theorem missing_cons (w : ω) (binary : String) (binaries : List String) :
    missing sys w (binary :: binaries) =
      (if Usable sys w binary then 0 else 1) + missing sys w binaries := by
  unfold missing
  rw [List.countP_cons, Nat.add_comm]
  split_ifs <;> simp_all

/-- Without errexit the loop counts all of them. -/
theorem eval_verifyLoop_unchecked (sys : System ω) (binaries : List String) (v : BuildVars)
    (w : ω) :
    ∃ n, eval sys.sem (forEach binaries (verifyBinary sys)) false ⟨v, w⟩ =
      ⟨.status n, ⟨{ v with missingCount := v.missingCount + missing sys w binaries }, w⟩, []⟩ := by
  induction binaries generalizing v with
  | nil => exact ⟨0, rfl⟩
  | cons binary binaries ih =>
    have hfirst : ∃ n, eval sys.sem (verifyBinary sys binary) false ⟨v, w⟩ =
        ⟨.status n, ⟨{ v with missingCount :=
          v.missingCount + if Usable sys w binary then 0 else 1 }, w⟩, []⟩ := by
      rw [eval_verifyBinary]
      by_cases h : Usable sys w binary
      · rw [if_pos h, if_pos h]
        exact ⟨0, rfl⟩
      · rw [if_neg h, if_neg h, settle_unchecked]
        exact ⟨_, rfl⟩
    obtain ⟨n, hfirst⟩ := hfirst
    rw [missing_cons, ← Nat.add_assoc]
    cases binaries with
    | nil => exact ⟨n, hfirst⟩
    | cons binary' binaries =>
      obtain ⟨m, hrest⟩ := ih
        { v with missingCount := v.missingCount + if Usable sys w binary then 0 else 1 }
      refine ⟨m, ?_⟩
      rw [forEach, List.map_cons, List.map_cons, block_cons, eval_seq_of_status (by rw [hfirst]),
        hfirst]
      exact congrArg (Result.andThen _) hrest

/-- With errexit the first one ends the script. -/
theorem eval_verifyLoop_checked (sys : System ω) (binaries : List String) {v : BuildVars}
    (hv : v.missingCount = 0) (w : ω) :
    eval sys.sem (forEach binaries (verifyBinary sys)) true ⟨v, w⟩ =
      if missing sys w binaries = 0 then ⟨.status 0, ⟨v, w⟩, []⟩
      else ⟨.exited 1, ⟨{ v with missingCount := 1 }, w⟩, []⟩ := by
  induction binaries with
  | nil => rfl
  | cons binary binaries ih =>
    have hfirst := eval_verifyBinary sys true binary v w
    rw [missing_cons]
    by_cases h : Usable sys w binary
    · rw [if_pos h] at hfirst
      rw [if_pos h, Nat.zero_add, ← ih]
      cases binaries with
      | nil => exact hfirst
      | cons binary' binaries =>
        rw [forEach, List.map_cons, List.map_cons, block_cons,
          eval_seq_of_status (by rw [hfirst]), hfirst]
        rfl
    · rw [if_neg h, if_pos hv, hv, settle_checked] at hfirst
      rw [if_neg h, if_neg (by simp)]
      cases binaries with
      | nil => exact hfirst
      | cons binary' binaries =>
        rw [forEach, List.map_cons, List.map_cons, block_cons,
          eval_seq_of_exited (by rw [hfirst]; rfl), hfirst]
        rfl

/-- **Verification.** Called from a condition, `verify_builds` counts every binary that cannot be
run. Called on its own, under errexit, it ends the script at the first, with a count of 1. -/
theorem eval_verifyBinaries (sys : System ω) (binaries : List String) (v : BuildVars) (w : ω) :
    eval sys.sem (verifyBinaries sys binaries) false ⟨v, w⟩ =
      ⟨.returned (if missing sys w binaries = 0 then 0 else 1),
        ⟨{ v with missingCount := missing sys w binaries }, w⟩, []⟩ ∧
    eval sys.sem (verifyBinaries sys binaries) true ⟨v, w⟩ =
      if missing sys w binaries = 0 then ⟨.returned 0, ⟨{ v with missingCount := 0 }, w⟩, []⟩
      else ⟨.exited 1, ⟨{ v with missingCount := 1 }, w⟩, []⟩ := by
  have hstart : ∀ checked, eval sys.sem (verifyBinaries sys binaries) checked ⟨v, w⟩ =
      eval sys.sem (.seq (forEach binaries (verifyBinary sys))
        (ite (test fun s => s.vars.missingCount = 0) (ret fun _ => 0) (ret fun _ => 1))) checked
        ⟨{ v with missingCount := 0 }, w⟩ := by
    intro checked
    rw [verifyBinaries, block_cons, setVars, eval_seq_assign]
    rfl
  constructor
  · obtain ⟨n, hloop⟩ := eval_verifyLoop_unchecked sys binaries
      { v with missingCount := 0 } w
    rw [hstart, eval_seq_of_status (by rw [hloop]), hloop, eval_ite_test]
    simp only [Nat.zero_add]
    split_ifs <;> simp_all [Result.andThen]
  · have hloop := eval_verifyLoop_checked sys binaries
      (v := { v with missingCount := 0 }) rfl w
    rw [hstart]
    by_cases h : missing sys w binaries = 0
    · rw [if_pos h] at hloop ⊢
      rw [eval_seq_of_status (by rw [hloop]), hloop, eval_ite_test]
      rfl
    · rw [if_neg h] at hloop ⊢
      rw [eval_seq_of_exited (by rw [hloop]), hloop]

/-! ## What an exit with status 0 means -/

theorem missing_eq_zero_iff {w : ω} {binaries : List String} :
    missing sys w binaries = 0 ↔ ∀ binary ∈ binaries, Usable sys w binary := by
  simp [missing, List.countP_eq_zero]

section Plain

variable {I : State BuildVars ω → Prop}

/-- The steps of a build assign nothing, and leave the script only with a failure. -/
theorem plain_makeAll : (makeAll : Line BuildVars ω).Plain I := fun _ _ => trivial

theorem plain_buildDefaults (env : String → Option String) :
    (buildDefaults env : Line BuildVars ω).Plain I := by
  refine ⟨?_, trivial⟩
  split
  · exact ⟨trivial, trivial, plain_skip⟩
  · exact plain_skip

theorem plain_recordBuildStat : (recordBuildStat : Line BuildVars ω).Plain I :=
  ⟨plain_discard _, trivial⟩

theorem plain_buildOptional (present : ω → Bool) (dir : String) :
    (buildOptional present dir).Plain I :=
  ⟨fun _ hs => hs, ⟨plain_discard _, trivial, plain_makeAll, trivial, plain_discard _,
    plain_recordBuildStat⟩, plain_skip⟩

theorem plain_checkCompiler : (checkCompiler : Line BuildVars ω).Plain I :=
  ⟨fun _ _ => ⟨trivial, plain_skip, Nat.one_ne_zero⟩, fun _ _ => plain_discard _, plain_discard _⟩

theorem plain_setupBuildEnv : (setupBuildEnv : Line BuildVars ω).Plain I := ⟨trivial, trivial⟩

theorem plain_buildCommonLibs : (buildCommonLibs : Line BuildVars ω).Plain I :=
  ⟨plain_discard _, trivial, fun _ _ => trivial, trivial, plain_discard _, plain_recordBuildStat⟩

theorem plain_buildMmLoad : (buildMmLoad : Line BuildVars ω).Plain I :=
  ⟨plain_discard _, trivial, plain_makeAll, fun _ _ => plain_ignore _, trivial, plain_discard _,
    plain_recordBuildStat⟩

theorem plain_buildOtherHarnesses : (buildOtherHarnesses sys).Plain I :=
  plain_forEach fun _ => plain_buildOptional _ _

theorem plain_cleanBuild : (cleanBuild sys).Plain I := by
  refine ⟨trivial, trivial, plain_ignore _, plain_ignore _, plain_ignore _, plain_ignore _,
    plain_ignore _, trivial, fun s _ => plain_forEach fun _ => ?_⟩
  exact ⟨fun _ hs => hs, ⟨trivial, plain_ignore _, trivial⟩, plain_skip⟩

theorem plain_buildMmDump : (buildMmDump sys).Plain I := plain_buildOptional _ _

theorem plain_buildUnitTests : (buildUnitTests sys).Plain I := plain_buildOptional _ _

theorem plain_buildIntegrationTests : (buildIntegrationTests sys).Plain I :=
  plain_buildOptional _ _

theorem plain_buildTargets : (buildTargets sys).Plain I := by
  refine ⟨fun _ hs => hs, fun s _ => ?_, plain_buildMmLoad, plain_buildMmDump,
    plain_buildOtherHarnesses, plain_buildUnitTests, plain_buildIntegrationTests⟩
  simp only [select]
  split_ifs
  · exact plain_buildMmLoad
  · exact plain_buildMmDump
  · exact plain_buildOtherHarnesses
  · exact plain_buildOtherHarnesses
  · exact Nat.one_ne_zero

end Plain

/-- The variables that decide what a run certifies are still those of `v`. -/
def Keeps (v : BuildVars) (s : State BuildVars ω) : Prop :=
  s.vars.buildType = v.buildType ∧ s.vars.createSeedsOnly = v.createSeedsOnly ∧
    s.vars.verifyOnly = v.verifyOnly

theorem Keeps.sem {v : BuildVars} (e : External) (s : State BuildVars ω) (hs : Keeps v s) :
    Keeps v (sys.sem e s).2 := hs

/-- What a run that ends with status 0 has seen, unless only seeds were wanted. -/
def Certified (sys : System ω) (v : BuildVars) (s : State BuildVars ω) : Prop :=
  v.createSeedsOnly ∨ ∀ binary ∈ v.requiredBinaries, Usable sys s.world binary

/-- A call of `verify_builds`. -/
theorem eval_call_verifyBuilds (sys : System ω) (checked : Bool) {v : BuildVars}
    {s : State BuildVars ω} (hs : Keeps v s) :
    ∃ n, eval sys.sem (call (verifyBuilds sys)) checked s =
      ⟨if ∀ binary ∈ v.requiredBinaries, Usable sys s.world binary then .status 0
        else settle checked 1, { s with vars.missingCount := n }, []⟩ := by
  have hbinaries : s.vars.requiredBinaries = v.requiredBinaries := by
    simp only [BuildVars.requiredBinaries, BuildVars.binDir, hs.1]
  obtain ⟨huncheck, hcheck⟩ := eval_verifyBinaries sys v.requiredBinaries s.vars s.world
  simp only [missing_eq_zero_iff] at huncheck hcheck
  rw [eval_call, verifyBuilds, withVars, eval_dep, hbinaries]
  by_cases h : ∀ binary ∈ v.requiredBinaries, Usable sys s.world binary
  · simp only [if_pos h] at huncheck hcheck ⊢
    cases checked with
    | false => exact ⟨_, by rw [huncheck]; rfl⟩
    | true => exact ⟨_, by rw [hcheck]; rfl⟩
  · simp only [if_neg h] at huncheck hcheck ⊢
    cases checked with
    | false => exact ⟨_, by rw [huncheck]; rfl⟩
    | true => exact ⟨_, by rw [hcheck]; rfl⟩

theorem certified_verifyBuilds (v : BuildVars) (c : Line BuildVars ω) :
    Certifies sys.sem (Keeps v) (seq (seq (call (verifyBuilds sys)) (exit 0)) c)
      (Certified sys v) := by
  intro s hs hout
  obtain ⟨n, hverify⟩ := eval_call_verifyBuilds sys true hs
  rw [eval_seq_seq] at hout ⊢
  by_cases h : ∀ binary ∈ v.requiredBinaries, Usable sys s.world binary
  · rw [if_pos h] at hverify
    rw [eval_seq_of_status (by rw [hverify]), hverify]
    exact .inr h
  · rw [if_neg h, settle_checked, if_neg Nat.one_ne_zero] at hverify
    rw [eval_seq_of_exited (by rw [hverify]), hverify] at hout
    exact absurd hout Nat.one_ne_zero

theorem certified_summary (v : BuildVars) :
    Certifies sys.sem (Keeps v) (ite (call (verifyBuilds sys)) skip (exit 1))
      (Certified sys v) := by
  intro s hs hout
  obtain ⟨n, hverify⟩ := eval_call_verifyBuilds sys false hs
  by_cases h : ∀ binary ∈ v.requiredBinaries, Usable sys s.world binary
  · rw [if_pos h] at hverify
    rw [eval_ite_of_zero (by rw [hverify]), hverify, eval_skip]
    exact .inr h
  · rw [if_neg h, settle_unchecked] at hverify
    rw [eval_ite_of_succ (by rw [hverify]), hverify, eval_exit] at hout
    exact absurd hout Nat.one_ne_zero

/-- What `main` does with the arguments certifies the binaries, unless only seeds were wanted. -/
theorem certified_buildBody (v : BuildVars) :
    Certifies sys.sem (Keeps v) (buildBody sys) (Certified sys v) := by
  have hskip : ∀ {c : Line BuildVars ω}, Certifies sys.sem (Keeps v) c (Certified sys v) →
      Certifies sys.sem (Keeps v) (seq skip c) (Certified sys v) := .seq Keeps.sem plain_skip
  have hrest : Certifies sys.sem (Keeps v)
      (block [call checkCompiler, call setupBuildEnv, call buildCommonLibs, buildTargets sys,
        ite (call (verifyBuilds sys)) skip (exit 1)]) (Certified sys v) :=
    .seq Keeps.sem plain_checkCompiler <| .seq Keeps.sem plain_setupBuildEnv <|
      .seq Keeps.sem plain_buildCommonLibs <| .seq Keeps.sem plain_buildTargets <|
        certified_summary v
  refine .seq Keeps.sem ⟨fun _ hs => hs, plain_cleanBuild, plain_skip⟩ ?_
  refine .seq_ite_test (fun s hs _ => ?_) (hskip (.seq_ite_test (fun s hs => ?_) (hskip hrest)))
  · have hseeds : s.vars.createSeedsOnly := hs.2
    exact .inl (hs.1.2.1 ▸ hseeds)
  · rw [block_cons, eval_seq_seq]
    exact Certifies.seq (a := call setupBuildEnv) Keeps.sem plain_setupBuildEnv
      (certified_verifyBuilds v _) s hs.1

/-- What `main` certifies, from the variables that it starts with. -/
theorem certified_buildMain (env : String → Option String) (cores : String) (args : List String) :
    Certifies sys.sem (fun s => s.vars = .initial env cores) (call (buildMain sys args)) fun s =>
      Options.parse buildOption (.initial env cores) args = .error 0 ∨
        ∃ v, Options.parse buildOption (.initial env cores) args = .ok v ∧ Certified sys v s := by
  intro s hs h
  unfold buildMain at h ⊢
  rw [eval_call, code_atCall, eval_dep, hs] at h
  rw [eval_call, eval_dep, hs]
  cases hargs : Options.parse buildOption (.initial env cores) args with
  | error status =>
    rw [hargs] at h
    exact .inl (congrArg Except.error h)
  | ok v =>
    simp only [hargs, setVars, eval_seq_assign] at h ⊢
    exact .inr ⟨v, rfl, certified_buildBody v ⟨v, s.world⟩ ⟨rfl, rfl, rfl⟩ h⟩

theorem certified_buildAll {env : String → Option String} {cores : String} {args : List String}
    {w : ω} (h : (buildAll sys env cores args w).outcome.code = 0) :
    Options.parse buildOption (.initial env cores) args = .error 0 ∨
      ∃ v, Options.parse buildOption (.initial env cores) args = .ok v ∧
        Certified sys v (buildAll sys env cores args w).state :=
  (certified_buildMain env cores args).seq (fun _ _ hs => hs) (plain_buildDefaults env)
    ⟨.initial env cores, w⟩ rfl h

/-- **What a build certifies.** If the script ends with status 0, then it has printed its help, or
it has only made seeds, or each required binary is there and can be run. This is so for every
system: nothing is assumed of `make`, or of the compiler. -/
theorem buildAll_certifies (sys : System ω) (env : String → Option String) (cores : String)
    (args : List String) (w : ω) (h : (buildAll sys env cores args w).outcome.code = 0) :
    Options.parse buildOption (.initial env cores) args = .error 0 ∨
      ∃ v, Options.parse buildOption (.initial env cores) args = .ok v ∧
        (v.createSeedsOnly ∨
          ∀ binary ∈ v.requiredBinaries,
            Usable sys (buildAll sys env cores args w).state.world binary) :=
  certified_buildAll h

theorem buildAll_certifies_ideal :
    Options.parse buildOption (.initial (fun _ => none) "4") ["--verify-only"] = .error 0 ∨
      ∃ v, Options.parse buildOption (.initial (fun _ => none) "4") ["--verify-only"] = .ok v ∧
        (v.createSeedsOnly ∨
          ∀ binary ∈ v.requiredBinaries, Usable .ideal
            (buildAll .ideal (fun _ => none) "4" ["--verify-only"] ()).state.world binary) :=
  buildAll_certifies .ideal _ _ _ () rfl

/-! ## Failures of commands -/

/-- The commands that the script runs as `… || true`, or with a warning. -/
def External.isOptional : External → Bool
  | .make goal _ => goal = "afl" || goal = "clean"
  | .findDelete _ => true
  | _ => false

/-- The commands that only answer a question. What they return is tested, or passed over, but for
the first `date`. -/
def External.isQuery : External → Bool
  | .commandV _ => true
  | .version _ => true
  | .head => true
  | .nproc => true
  | .sysctl _ => true
  | .date => true
  | _ => false

section Tolerant

/-- Of the commands that do something only the optional ones may fail. -/
abbrev Tolerates (c : Line BuildVars ω) : Prop := c.Tolerant (·.isOptional) (·.isQuery)

theorem tolerates_run {e : External} (he : e.isOptional = false) :
    Tolerates (run e : Line BuildVars ω) := by
  simp [Tolerant, he]

theorem tolerates_discard {e : External} (he : e.isOptional = false) (hquery : e.isQuery) :
    Tolerates (discard e : Line BuildVars ω) :=
  ⟨Bool.eq_false_iff.mp he, hquery⟩

theorem tolerates_date : Tolerates (discard .date : Line BuildVars ω) := tolerates_discard rfl rfl

theorem tolerates_buildDefaults (env : String → Option String) :
    Tolerates (buildDefaults env : Line BuildVars ω) := by
  refine ⟨?_, tolerates_run rfl⟩
  split
  · exact .inr ⟨rfl, tolerates_run rfl, .inr ⟨rfl, tolerates_run rfl, trivial⟩⟩
  · exact trivial

theorem tolerates_recordBuildStat : Tolerates (call recordBuildStat : Line BuildVars ω) :=
  ⟨tolerates_date, tolerates_run rfl⟩

theorem tolerates_makeAll : Tolerates (makeAll : Line BuildVars ω) := fun _ => tolerates_run rfl

theorem tolerates_buildOptional (present : ω → Bool) (dir : String) :
    Tolerates (buildOptional present dir) :=
  tolerant_ite_test
    ⟨tolerates_date, tolerates_run rfl, tolerates_makeAll, tolerates_run rfl, tolerates_date,
      tolerates_recordBuildStat⟩ trivial

theorem tolerates_setupBuildEnv : Tolerates (setupBuildEnv : Line BuildVars ω) :=
  ⟨tolerates_run rfl, tolerates_run rfl⟩

theorem tolerates_buildMmLoad : Tolerates (buildMmLoad : Line BuildVars ω) :=
  ⟨tolerates_date, tolerates_run rfl, tolerates_makeAll, fun _ => tolerant_ignore rfl,
    tolerates_run rfl, tolerates_date, tolerates_recordBuildStat⟩

theorem tolerates_buildOtherHarnesses : Tolerates (buildOtherHarnesses sys) :=
  tolerant_forEach fun _ => tolerates_buildOptional _ _

theorem tolerates_cleanBuild : Tolerates (cleanBuild sys) :=
  ⟨tolerates_run rfl, tolerates_run rfl, tolerant_ignore rfl, tolerant_ignore rfl,
    tolerant_ignore rfl, tolerant_ignore rfl, tolerant_ignore rfl, tolerates_run rfl,
    fun _ => tolerant_forEach fun _ => tolerant_ite_test
      ⟨tolerates_run rfl, tolerant_ignore rfl, tolerates_run rfl⟩ trivial⟩

/-- The verification runs no command, so it may stand in a condition. -/
theorem all_verifyBuilds : (verifyBuilds sys).All (·.isQuery) :=
  fun _ => ⟨trivial, all_forEach fun _ => ⟨trivial, ⟨trivial, trivial, trivial⟩, trivial⟩,
    trivial, trivial, trivial⟩

theorem tolerates_verifyBuilds : Tolerates (verifyBuilds sys) :=
  fun _ => ⟨trivial, tolerant_forEach fun _ => tolerant_ite_test
    (tolerant_ite_test trivial trivial) trivial, tolerant_ite_test trivial trivial⟩

theorem tolerates_checkCompiler : Tolerates (checkCompiler : Line BuildVars ω) :=
  ⟨fun _ => ⟨rfl, tolerates_run rfl, trivial, trivial⟩, fun _ => tolerates_discard rfl rfl,
    tolerates_discard rfl rfl⟩

theorem tolerates_buildCommonLibs : Tolerates (buildCommonLibs : Line BuildVars ω) :=
  ⟨tolerates_date, tolerates_run rfl, fun _ => tolerates_run rfl, tolerates_run rfl, tolerates_date,
    tolerates_recordBuildStat⟩

theorem tolerates_createSeeds : Tolerates (createSeeds : Line BuildVars ω) :=
  ⟨tolerates_run rfl, tolerates_run rfl, tolerates_run rfl⟩

theorem tolerates_buildTargets : Tolerates (buildTargets sys) := by
  have hdump : Tolerates (buildMmDump sys) := tolerates_buildOptional _ _
  have hunit : Tolerates (buildUnitTests sys) := tolerates_buildOptional _ _
  have hintegration : Tolerates (buildIntegrationTests sys) := tolerates_buildOptional _ _
  refine tolerant_ite_test (fun s => ?_)
    ⟨tolerates_buildMmLoad, hdump, tolerates_buildOtherHarnesses, hunit, hintegration⟩
  simp only [select]
  split_ifs
  · exact tolerates_buildMmLoad
  · exact hdump
  · exact tolerates_buildOtherHarnesses
  · exact tolerates_buildOtherHarnesses
  · exact trivial

theorem tolerates_buildAll (env : String → Option String) (args : List String) :
    Tolerates (seq (buildDefaults env) (call (buildMain sys args))) := by
  refine ⟨tolerates_buildDefaults env, fun s => ?_⟩
  dsimp only
  split
  · exact trivial
  · exact ⟨trivial, tolerant_ite_test tolerates_cleanBuild trivial,
      tolerant_ite_test ⟨tolerates_createSeeds, trivial⟩ trivial,
      tolerant_ite_test ⟨tolerates_setupBuildEnv, tolerates_verifyBuilds, trivial⟩ trivial,
      tolerates_checkCompiler, tolerates_setupBuildEnv, tolerates_buildCommonLibs,
      tolerates_buildTargets, all_verifyBuilds, tolerates_verifyBuilds, trivial, trivial⟩

end Tolerant

/-- **No failure is passed over.** A command that fails is the last one that the script runs, and
the script leaves with its status, unless it is optional (`make afl`, `make clean`, `find -delete`)
or only answers a question. -/
theorem buildAll_failStop (sys : System ω) (env : String → Option String) (cores : String)
    (args : List String) (w : ω) {pre post : List (Entry External)} {x : Entry External}
    (htrace : (buildAll sys env cores args w).trace = pre ++ x :: post) (hx : x.status ≠ 0)
    (hoptional : x.cmd.isOptional = false) (hquery : x.cmd.isQuery = false) :
    post = [] ∧ (buildAll sys env cores args w).outcome = .exited x.status := by
  refine eval_failStop _ _ _ pre x post htrace ?_ hx
  by_contra hchecked
  have hmem : x ∈ (buildAll sys env cores args w).trace := by
    rw [htrace]
    exact List.mem_append_right _ List.mem_cons_self
  obtain hoptional' | hquery' :=
    (tolerates_buildAll env args).of_unchecked hmem (Bool.eq_false_iff.mpr hchecked)
  · rw [hoptional] at hoptional'
    cases hoptional'
  · rw [hquery] at hquery'
    cases hquery'

/-- A system where no directory can be made. -/
def readOnly : System Unit :=
  { System.ideal with exec := fun e _ => (match e with | .mkdir _ => 1 | _ => 0, ()) }

theorem buildAll_failStop_readOnly :
    (buildAll readOnly (fun _ => none) "4" [] ()).outcome = .exited 1 :=
  have htrace : (buildAll readOnly (fun _ => none) "4" [] ()).trace =
      [⟨.nproc, false, 0⟩, ⟨.date, true, 0⟩, ⟨.commandV "clang", false, 0⟩,
        ⟨.version "clang", false, 0⟩, ⟨.head, false, 0⟩] ++
        ⟨.mkdir ["build/debug", "build/release"], true, 1⟩ :: [] :=
    rfl
  (buildAll_failStop readOnly _ _ _ () htrace Nat.one_ne_zero rfl rfl).2

/-- The system with other statuses for the optional commands. -/
def System.withStatuses (sys : System ω) (status : External → ω → Nat) : System ω :=
  { sys with exec := fun e w =>
      (if e.isOptional then status e w else (sys.exec e w).1, (sys.exec e w).2) }

/-- **Optional commands decide nothing.** The statuses of `make afl`, of `make clean` and of
`find -delete` change neither how the script ends nor the state it leaves. -/
theorem buildAll_withStatuses (sys : System ω) (status : External → ω → Nat)
    (env : String → Option String) (cores : String) (args : List String) (w : ω) :
    (buildAll (sys.withStatuses status) env cores args w).outcome =
        (buildAll sys env cores args w).outcome ∧
      (buildAll (sys.withStatuses status) env cores args w).state =
        (buildAll sys env cores args w).state := by
  have hsem : ∀ e : External, ¬ e.isOptional → ∀ s : State BuildVars ω,
      (sys.withStatuses status).sem e s = sys.sem e s := by
    intro e he s
    simp [System.sem, System.withStatuses, he]
  have hstate : ∀ (e : External) (s : State BuildVars ω),
      ((sys.withStatuses status).sem e s).2 = (sys.sem e s).2 := fun _ _ => rfl
  exact (tolerates_buildAll env args).same hsem hstate true ⟨.initial env cores, w⟩

end CFS.Scripts
