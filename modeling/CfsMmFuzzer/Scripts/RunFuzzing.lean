-- SUMMARY: The script that runs the fuzzers: its options, the checks before a session, the three fuzzers, the analysis of results, and both modes.
import CfsMmFuzzer.Base.Options
import CfsMmFuzzer.Scripts.System

/-!
# Running the fuzzers (`scripts/run_fuzzing.sh`)

One definition for each function of the script, in its order. Left out are the
messages with the commands that only serve them (`cat`, `basename`, `date`, and
`find | wc` for the number of seeds), and the limits that are passed on to the
fuzzers. A date or a count that the script uses is read off the world.
-/

namespace CFS.Scripts

open Shell Cmd

/-- The variables of the script, those local to `main` and to the functions included. -/
structure RunVars where
  target         : String
  fuzzer         : String
  timeLimit      : String
  memoryLimit    : String
  parallelJobs   : String
  buildType      : String
  cfsMode        : Bool
  continuousMode : Bool
  fuzzerBin      : String
  corpusDir      : String
  resultsDir     : String
  exitCode       : Nat
  crashCount     : Nat
  hangCount      : Nat
  deriving DecidableEq, Repr

/-- The variables before `main` parses the arguments, from what the environment sets. -/
def RunVars.initial (env : String → Option String) : RunVars where
  target := orDefault (env "TARGET") "mm_load"
  fuzzer := orDefault (env "FUZZER") "libfuzzer"
  timeLimit := orDefault (env "TIME_LIMIT") "300"
  memoryLimit := orDefault (env "MEMORY_LIMIT") "1024"
  parallelJobs := orDefault (env "PARALLEL_JOBS") "1"
  buildType := orDefault (env "BUILD_TYPE") "release"
  cfsMode := false
  continuousMode := false
  fuzzerBin := ""
  corpusDir := ""
  resultsDir := ""
  exitCode := 0
  crashCount := 0
  hangCount := 0

/-- The branches of the loop that parses the arguments. -/
def runOption : String → Option (Options.Kind RunVars)
  | "-h" => some (.stop 0)
  | "--help" => some (.stop 0)
  | "--target" => some (.value fun v s => { s with target := v })
  | "--fuzzer" => some (.value fun v s => { s with fuzzer := v })
  | "--time" => some (.value fun v s => { s with timeLimit := v })
  | "--memory" => some (.value fun v s => { s with memoryLimit := v })
  | "--jobs" => some (.value fun v s => { s with parallelJobs := v })
  | "--build-type" => some (.value fun v s => { s with buildType := v })
  | "--cfs-mode" => some (.flag fun s => { s with cfsMode := true })
  | "--continuous" => some (.flag fun s => { s with continuousMode := true })
  | _ => none

section Functions

variable {ω : Type*} (sys : System ω)

/-- `[ test "$path" ]`, where the path is made from the variables. -/
def testPath {ν : Type*} (look : ω → String → Bool) (path : ν → String) : Line ν ω :=
  test fun s => look s.world (path s.vars)

/-- `setup_results_dir`. -/
def setupResultsDir : Line RunVars ω :=
  block [
    assign fun s => { s with vars.resultsDir :=
      "results/" ++ s.vars.target ++ "_" ++ s.vars.fuzzer ++ "_" ++ sys.timestamp s.world },
    withVars fun v => run (.mkdir
      (["/crashes", "/hangs", "/queue", "/logs"].map (v.resultsDir ++ ·)))]

/-- `FUZZER_BIN="$BIN_DIR/name"`. -/
def setFuzzerBin (name : String) : Line RunVars ω :=
  setVars fun v => { v with fuzzerBin := "bin/" ++ v.buildType ++ "/" ++ name }

/-- The inner `case "$FUZZER"` of `check_binaries`. -/
def selectBinary (libfuzzer afl standalone : String) : Line RunVars ω :=
  caseOf (·.vars.fuzzer)
    [("libfuzzer", setFuzzerBin libfuzzer), ("afl", setFuzzerBin afl),
      ("standalone", setFuzzerBin standalone)]
    (exit 1)

/-- `check_binaries`. -/
def checkBinaries : Line RunVars ω :=
  block [
    caseOf (·.vars.target)
      [("mm_load", block [
          selectBinary "mm_load_fuzzer" "mm_load_afl" "mm_load_test",
          setVars fun v => { v with corpusDir := "corpus/mm_load" }]),
        ("mm_dump", block [
          selectBinary "mm_dump_fuzzer" "mm_dump_afl" "mm_dump_test",
          setVars fun v => { v with corpusDir := "corpus/mm_dump" }])]
      (exit 1),
    ite (testPath sys.isFile RunVars.fuzzerBin) skip (exit 1),
    ite (testPath sys.isExecutable RunVars.fuzzerBin) skip (exit 1)]

/-- `setup_corpus`. -/
def setupCorpus : Line RunVars ω :=
  ite (testPath sys.isDir RunVars.corpusDir) skip <| block [
    withVars fun v => run (.mkdir [v.corpusDir]),
    caseOf (·.vars.target)
      [("mm_load", makeSeeds "src/harnesses/mm_load"),
        ("mm_dump", ite (testPath sys.isFile fun _ => "src/harnesses/mm_dump/Makefile")
          (makeSeeds "src/harnesses/mm_dump") skip)]
      skip]

/-- What `run_libfuzzer` and `run_standalone` share: run the fuzzer into a log, and return its
status, from `PIPESTATUS`. -/
def loggedRun (fuzzer : RunVars → External) (log : String) : Line RunVars ω :=
  block [
    withVars fun v => run (.write v.resultsDir log),
    withVars fun v => capture (fuzzer v) fun n s => { s with vars.exitCode := n },
    withVars fun v => run (.teeAppend v.resultsDir log),
    withVars fun v => run (.append v.resultsDir log),
    ret fun s => s.vars.exitCode]

/-- `run_libfuzzer`. -/
def runLibfuzzer : Line RunVars ω :=
  block [
    withVars fun v => run (.tee v.resultsDir "logs/command.log"),
    loggedRun (fun v => .libfuzzer v.fuzzerBin v.corpusDir) "logs/session.log"]

/-- `run_afl`. -/
def runAfl : Line RunVars ω :=
  let aflOutput := fun v : RunVars => v.resultsDir ++ "/afl_output"
  block [
    ite (run (.commandV "afl-fuzz")) skip (exit 1),
    withVars fun v => run (.mkdir [aflOutput v]),
    withVars fun v => run (.tee v.resultsDir "logs/afl_command.log"),
    withVars fun v => orElse
      (seq (capture (.aflFuzz v.fuzzerBin v.corpusDir (aflOutput v)) fun _ s => s)
        (run (.tee v.resultsDir "logs/afl_session.log")))
      skip,
    withVars fun v => ite (testPath sys.isDir aflOutput)
      (block [
        ignore (.copyFound (aflOutput v) "crashes" v.resultsDir),
        ignore (.copyFound (aflOutput v) "hangs" v.resultsDir)])
      skip]

/-- `run_standalone`. -/
def runStandalone : Line RunVars ω :=
  loggedRun (fun v => .standalone v.fuzzerBin) "logs/standalone.log"

/-- The loop of `analyze_results` over the crash files. -/
def minimizeCrashes : Line RunVars ω :=
  dep fun s => forEach (sys.entries s.world (s.vars.resultsDir ++ "/crashes")) fun crashFile =>
    ite (testPath sys.isFile fun _ => crashFile)
      (withVars fun v => ignore (.minimizeCrash v.fuzzerBin crashFile)) skip

/-- `analyze_results`. -/
def analyzeResults : Line RunVars ω :=
  block [
    assign fun s => { s with
      vars.crashCount := sys.countFiles s.world (s.vars.resultsDir ++ "/crashes")
      vars.hangCount := sys.countFiles s.world (s.vars.resultsDir ++ "/hangs") },
    withVars fun v => run (.tee v.resultsDir "summary.txt"),
    ite (test fun s => s.vars.crashCount > 0)
      (ite (test fun s => s.vars.fuzzer = "libfuzzer" ∧ s.vars.crashCount < 10)
        (minimizeCrashes sys) skip)
      skip,
    ite (testPath sys.isDir fun v => v.resultsDir ++ "/logs")
      (withVars fun v => run (.tar v.resultsDir "logs.tar.gz")) skip]

/-- The body of the loop of `run_continuous`. -/
def continuousSession : Line RunVars ω :=
  block [
    call (setupResultsDir sys),
    caseOf (·.vars.fuzzer)
      [("libfuzzer", orElse (call runLibfuzzer) skip), ("afl", orElse (call (runAfl sys)) skip)]
      (exit 1),
    call (analyzeResults sys),
    run (.sleep 10)]

/-- `run_continuous`, up to its `n`-th session. -/
def runContinuous (n : Nat) : Line RunVars ω := block (List.replicate n (continuousSession sys))

/-- The `case "$FUZZER"` of the single mode. -/
def fuzzOnce : Line RunVars ω :=
  caseOf (·.vars.fuzzer)
    [("libfuzzer", call runLibfuzzer), ("afl", call (runAfl sys)),
      ("standalone", call runStandalone)]
    (exit 1)

/-- Both modes. The loop of the continuous mode is followed for `n` sessions. -/
def sessions (n : Nat) : Line RunVars ω :=
  ite (test fun s => s.vars.continuousMode)
    (call (runContinuous sys n))
    (block [call (setupResultsDir sys), fuzzOnce sys, call (analyzeResults sys)])

/-- What `main` does once the arguments are parsed. -/
def mainBody (n : Nat) : Line RunVars ω :=
  block [call (checkBinaries sys), call (setupCorpus sys), sessions sys n]

/-- `main`. -/
def runMain (args : List String) (n : Nat) : Line RunVars ω :=
  dep fun s => match Options.parse runOption s.vars args with
    | .error status => exit status
    | .ok vars => seq (setVars fun _ => vars) (mainBody sys n)

/-- The script, in an environment and a world. -/
def runFuzzing (env : String → Option String) (args : List String) (n : Nat) (w : ω) :
    Result (State RunVars ω) External :=
  eval sys.sem (call (runMain sys args n)) true ⟨RunVars.initial env, w⟩

end Functions

end CFS.Scripts
