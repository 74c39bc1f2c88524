-- SUMMARY: The build script: its options, the steps of a build, and the verification of what was built.
import CfsMmFuzzer.Base.Options
import CfsMmFuzzer.Scripts.System

/-!
# The build (`scripts/build_all.sh`)

One definition for each function of the script, in its order. Left out are the
variables that are exported to `make` through the environment, the messages,
`show_help` (which runs `cat`), and `print_build_summary`. The latter is run once
the binaries are verified, and whatever its commands return (`date`, `tail`,
`find`, `du`, `cut`, `basename`) is passed over.
-/

namespace CFS.Scripts

open Shell Cmd

/-- The variables of the script, with those local to `main` and to `verify_builds`. -/
structure BuildVars where
  buildType        : String
  cc               : String
  enableSanitizers : String
  enableCoverage   : String
  parallelJobs     : String
  verifyOnly       : Bool
  cleanFirst       : Bool
  createSeedsOnly  : Bool
  cfsMode          : Bool
  target           : String
  missingCount     : Nat
  deriving DecidableEq, Repr

/-- The variables before `main` parses the arguments. `cores` is what `buildDefaults` reads: the
output of `nproc`, or of `sysctl`, or 4. -/
def BuildVars.initial (env : String → Option String) (cores : String) : BuildVars where
  buildType := orDefault (env "BUILD_TYPE") "Release"
  cc := orDefault (env "CC") "clang"
  enableSanitizers := orDefault (env "ENABLE_SANITIZERS") "true"
  enableCoverage := orDefault (env "ENABLE_COVERAGE") "false"
  parallelJobs := orDefault (env "PARALLEL_JOBS") cores
  verifyOnly := false
  cleanFirst := false
  createSeedsOnly := false
  cfsMode := false
  target := ""
  missingCount := 0

/-- The branches of the loop that parses the arguments. -/
def buildOption : String → Option (Options.Kind BuildVars)
  | "-h" => some (.stop 0)
  | "--help" => some (.stop 0)
  | "--debug" => some (.flag fun s => { s with buildType := "Debug" })
  | "--release" => some (.flag fun s => { s with buildType := "Release" })
  | "--no-sanitizers" => some (.flag fun s => { s with enableSanitizers := "false" })
  | "--coverage" => some (.flag fun s => { s with enableCoverage := "true" })
  | "--verify-only" => some (.flag fun s => { s with verifyOnly := true })
  | "--clean" => some (.flag fun s => { s with cleanFirst := true })
  | "--create-seeds" => some (.flag fun s => { s with createSeedsOnly := true })
  | "--cfs-mode" => some (.flag fun s => { s with cfsMode := true })
  | "--target" => some (.value fun v s => { s with target := v })
  | _ => none

/-- The directory of the binaries: `bin/${BUILD_TYPE,,}`. Only ASCII letters are lowered here, while
bash lowers those of its locale. -/
def BuildVars.binDir (v : BuildVars) : String := "bin/" ++ v.buildType.toLower

/-- The variables that are set on the command line of `make`. -/
def BuildVars.makeSettings (v : BuildVars) : List String := [
  "BUILD_TYPE=" ++ v.buildType, "CC=" ++ v.cc, "ENABLE_SANITIZERS=" ++ v.enableSanitizers,
  "ENABLE_COVERAGE=" ++ v.enableCoverage]

section Functions

variable {ω : Type*} (sys : System ω)

/-- The commands before `main`: those for `PARALLEL_JOBS`, where the environment has none, and the
date for `START_TIME`. -/
def buildDefaults (env : String → Option String) : Line BuildVars ω :=
  block [
    if orDefault (env "PARALLEL_JOBS") "" = "" then
      orElse (run .nproc) (orElse (run (.sysctl "hw.ncpu")) skip)
    else skip,
    run .date]

/-- `record_build_stat`. -/
def recordBuildStat : Line BuildVars ω :=
  block [discard .date, run (.append "." "build_stats.log")]

/-- `check_compiler`. -/
def checkCompiler : Line BuildVars ω :=
  block [
    withVars fun v => ite (run (.commandV v.cc)) skip (exit 1),
    withVars fun v => discard (.version v.cc),
    discard .head]

/-- `setup_build_env`. -/
def setupBuildEnv : Line BuildVars ω :=
  block [run (.mkdir ["build/debug", "build/release"]), run (.mkdir ["bin/debug", "bin/release"])]

/-- `build_common_libs`. The dates are for its duration, as in the functions below. -/
def buildCommonLibs : Line BuildVars ω :=
  block [
    discard .date,
    run (.cd "src/common"),
    withVars fun v => run (.checkSyntax v.cc "utils.c"),
    run (.cd "-"),
    discard .date,
    call recordBuildStat]

/-- `make -j"$PARALLEL_JOBS" all …`. -/
def makeAll : Line BuildVars ω :=
  withVars fun v => run (.make "all" (("-j" ++ v.parallelJobs) :: v.makeSettings))

/-- `build_mm_load`. -/
def buildMmLoad : Line BuildVars ω :=
  block [
    discard .date,
    run (.cd "src/harnesses/mm_load"),
    makeAll,
    withVars fun v => ignore (.make "afl" v.makeSettings),
    run (.cd "-"),
    discard .date,
    call recordBuildStat]

/-- The optional parts of a build, each where it is `present`. -/
def buildOptional (present : ω → Bool) (dir : String) : Line BuildVars ω :=
  ite (test fun s => present s.world)
    (block [
      discard .date, run (.cd dir), makeAll, run (.cd "-"), discard .date, call recordBuildStat])
    skip

/-- `build_mm_dump`. -/
def buildMmDump : Line BuildVars ω :=
  buildOptional (sys.isFile · "src/harnesses/mm_dump/Makefile") "src/harnesses/mm_dump"

/-- `build_other_harnesses`. -/
def buildOtherHarnesses : Line BuildVars ω :=
  forEach ["mm_peek", "mm_fill"] fun harness =>
    buildOptional (sys.isFile · ("src/harnesses/" ++ harness ++ "/Makefile"))
      ("src/harnesses/" ++ harness)

/-- `build_unit_tests`. -/
def buildUnitTests : Line BuildVars ω :=
  buildOptional (fun w => sys.isDir w "tests/unit" && sys.isFile w "tests/unit/Makefile")
    "tests/unit"

/-- `build_integration_tests`. -/
def buildIntegrationTests : Line BuildVars ω :=
  buildOptional
    (fun w => sys.isDir w "tests/integration" && sys.isFile w "tests/integration/Makefile")
    "tests/integration"

/-- `((missing_count++))`. The status is that of the old value. -/
def countMissing : Line BuildVars ω :=
  builtin fun s => (if s.vars.missingCount = 0 then 1 else 0,
    { s with vars.missingCount := s.vars.missingCount + 1 })

/-- The loop of `verify_builds`, and what follows it. -/
def verifyBinaries (binaries : List String) : Line BuildVars ω :=
  block [
    setVars fun v => { v with missingCount := 0 },
    forEach binaries fun binary =>
      ite (test fun s => sys.isFile s.world binary)
        (ite (test fun s => sys.isExecutable s.world binary) skip countMissing)
        countMissing,
    ite (test fun s => s.vars.missingCount = 0) (ret fun _ => 0) (ret fun _ => 1)]

/-- `required_binaries`. -/
def BuildVars.requiredBinaries (v : BuildVars) : List String :=
  [v.binDir ++ "/mm_load_fuzzer", v.binDir ++ "/mm_load_test"]

/-- `verify_builds`. -/
def verifyBuilds : Line BuildVars ω := withVars fun v => verifyBinaries sys v.requiredBinaries

/-- `create_seeds`. -/
def createSeeds : Line BuildVars ω := makeSeeds "src/harnesses/mm_load"

/-- `clean_build`. -/
def cleanBuild : Line BuildVars ω :=
  block [
    run (.rm "build/"),
    run (.rm "bin/"),
    ignore (.findDelete "*.o"),
    ignore (.findDelete "*.a"),
    ignore (.findDelete "*.gcda"),
    ignore (.findDelete "*.gcno"),
    ignore (.findDelete "*.info"),
    run (.rm "build_stats.log"),
    dep fun s => forEach (sys.entries s.world "src/harnesses") fun harnessDir =>
      ite (test fun s => sys.isFile s.world (harnessDir ++ "/Makefile"))
        (block [run (.cd harnessDir), ignore (.make "clean" []), run (.cd "-")]) skip]

/-- The harnesses that `main` builds. -/
def buildTargets : Line BuildVars ω :=
  ite (test fun s => s.vars.target ≠ "")
    (caseOf (·.vars.target)
      [("mm_load", call buildMmLoad), ("mm_dump", call (buildMmDump sys)),
        ("mm_peek", call (buildOtherHarnesses sys)), ("mm_fill", call (buildOtherHarnesses sys))]
      (exit 1))
    (block [call buildMmLoad, call (buildMmDump sys), call (buildOtherHarnesses sys),
      call (buildUnitTests sys), call (buildIntegrationTests sys)])

/-- What `main` does once the arguments are parsed. -/
def buildBody : Line BuildVars ω :=
  block [
    ite (test fun s => s.vars.cleanFirst) (call (cleanBuild sys)) skip,
    ite (test fun s => s.vars.createSeedsOnly) (block [call createSeeds, exit 0]) skip,
    -- the script ends with `exit $?`, which is reached with status 0 only
    ite (test fun s => s.vars.verifyOnly)
      (block [call setupBuildEnv, call (verifyBuilds sys), exit 0]) skip,
    call checkCompiler,
    call setupBuildEnv,
    call buildCommonLibs,
    buildTargets sys,
    ite (call (verifyBuilds sys)) skip (exit 1)]

/-- `main`. -/
def buildMain (args : List String) : Line BuildVars ω :=
  dep fun s => match Options.parse buildOption s.vars args with
    | .error status => exit status
    | .ok vars => seq (setVars fun _ => vars) (buildBody sys)

/-- The script, in an environment and a world. -/
def buildAll (env : String → Option String) (cores : String) (args : List String) (w : ω) :
    Result (State BuildVars ω) External :=
  eval sys.sem (seq (buildDefaults env) (call (buildMain sys args))) true ⟨.initial env cores, w⟩

end Functions

end CFS.Scripts
