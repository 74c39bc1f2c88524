-- SUMMARY: What the scripts use of the system: the external commands they run and what they read of the file system.
import CfsMmFuzzer.Base.Shell

/-!
# The system under the scripts (`scripts/`)

A script runs external commands and looks at files. Neither is code of the
repository, so a `System` says what they do, over any type of worlds. The state
of a script is its variables and the world.
-/

namespace CFS.Scripts

open Shell

/-- The external commands of `run_fuzzing.sh` and `build_all.sh`, but for those that the models of
the scripts leave out by name. -/
inductive External where
  /-- `mkdir -p`. -/
  | mkdir (dirs : List String)
  | cd (dir : String)
  /-- `make`, with the variables that are set on its command line. -/
  | make (goal : String) (settings : List String)
  /-- `command -v`. -/
  | commandV (name : String)
  /-- `compiler --version`. -/
  | version (compiler : String)
  /-- `head -n1`, at the end of a pipeline. -/
  | head
  | nproc
  /-- `sysctl -n`. -/
  | sysctl (name : String)
  | date
  /-- `-Wall -Wextra -std=c99 -fsyntax-only`. -/
  | checkSyntax (compiler file : String)
  /-- `{ … } > dir/file`. -/
  | write (dir file : String)
  /-- `>> dir/file`. -/
  | append (dir file : String)
  /-- `tee dir/file`, at the end of a pipeline. -/
  | tee (dir file : String)
  /-- `tee -a dir/file`, at the end of a pipeline. -/
  | teeAppend (dir file : String)
  /-- A LibFuzzer binary on its corpus. -/
  | libfuzzer (bin corpus : String)
  /-- `timeout … afl-fuzz`. -/
  | aflFuzz (bin corpus output : String)
  /-- A stand-alone binary, without arguments. -/
  | standalone (bin : String)
  /-- `timeout 60s bin -minimize_crash=1`. -/
  | minimizeCrash (bin file : String)
  /-- `find dir -name … -type d -exec cp -r …`. -/
  | copyFound (dir name target : String)
  /-- `tar -czf`. -/
  | tar (dir archive : String)
  | sleep (seconds : Nat)
  /-- `rm`. -/
  | rm (path : String)
  /-- `find . -name … -delete`. -/
  | findDelete (pattern : String)
  deriving DecidableEq, Repr

/-- What the commands do to the world, and what the tests see of it. -/
structure System (ω : Type*) where
  exec         : External → ω → Nat × ω
  /-- `[ -f path ]`. -/
  isFile       : ω → String → Bool
  /-- `[ -d path ]`. -/
  isDir        : ω → String → Bool
  /-- `[ -x path ]`. -/
  isExecutable : ω → String → Bool
  /-- The entries of a directory, as `dir/*` expands to. -/
  entries      : ω → String → List String
  /-- `find dir -type f | wc -l`. -/
  countFiles   : ω → String → Nat
  /-- `date +%Y%m%d_%H%M%S`. -/
  timestamp    : ω → String

/-- A system with all files, where every command succeeds. -/
def System.ideal : System Unit where
  exec _ _ := (0, ())
  isFile _ _ := true
  isDir _ _ := true
  isExecutable _ _ := true
  entries _ _ := []
  countFiles _ _ := 0
  timestamp _ := "20250101_000000"

/-- The variables of a script, and the world. -/
@[ext]
structure State (ν ω : Type*) where
  vars  : ν
  world : ω

variable {ν ω : Type*}

/-- An external command leaves the variables of the script alone. -/
def System.sem (sys : System ω) (e : External) (s : State ν ω) : Nat × State ν ω :=
  ((sys.exec e s.world).1, { s with world := (sys.exec e s.world).2 })

/-- A line of a script. -/
abbrev Line (ν ω : Type*) := Cmd (State ν ω) External

/-- Assignments. -/
def setVars (f : ν → ν) : Line ν ω := .assign fun s => { s with vars := f s.vars }

/-- Lines that the variables take part in. -/
def withVars (f : ν → Line ν ω) : Line ν ω := .dep fun s => f s.vars

/-- `cd dir; make create-seeds; cd -`, in both scripts. -/
def makeSeeds (dir : String) : Line ν ω :=
  .block [.run (.cd dir), .run (.make "create-seeds" []), .run (.cd "-")]

/-- `${VAR:-default}`, where `value` is what the environment has for the variable. -/
def orDefault (value : Option String) (default : String) : String :=
  match value with
  | some v => if v = "" then default else v
  | none => default

end CFS.Scripts
