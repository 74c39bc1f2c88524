-- SUMMARY: A build followed by a fuzzing run, and a run of the stand-alone test of the load harness.
import CfsMmFuzzer.Load.Truncation
import CfsMmFuzzer.Scripts.Builds
import CfsMmFuzzer.Scripts.Sessions

/-!
# From a build to a session

What `build_all.sh` certifies is what `run_fuzzing.sh` looks for, where both have
the same directory. The program that is run without a fuzzer is the test of the
load harness, so the script and the model of this program meet here.
-/

namespace CFS.Scripts

open Shell Cmd

variable {ω : Type*} {sys : System ω}

/-! ## The same directory -/

/-- The binaries of the load harness that a build must produce. -/
def ofLoadHarness (v : RunVars) : Prop :=
  v.target = "mm_load" ∧ v.fuzzer ∈ ["libfuzzer", "standalone"]

theorem ready_of_usable {b : BuildVars} {v : RunVars} {w : ω}
    (hb : ∀ binary ∈ b.requiredBinaries, Usable sys w binary) (hv : ofLoadHarness v)
    (hdir : v.buildType = b.buildType.toLower) : Ready sys ⟨v, w⟩ := by
  obtain ⟨htarget, hfuzzer⟩ := hv
  have hpath : ∀ name, v.binaryPath name = b.binDir ++ ("/" ++ name) := by
    intro name
    rw [RunVars.binaryPath, hdir, BuildVars.binDir, String.append_assoc]
  simp only [BuildVars.requiredBinaries, List.mem_cons, List.not_mem_nil, or_false, forall_eq_or_imp,
    forall_eq] at hb
  simp only [List.mem_cons, List.not_mem_nil, or_false] at hfuzzer
  obtain hlib | hstandalone := hfuzzer
  · refine ⟨"mm_load_fuzzer", ?_, ?_⟩
    · rw [htarget, hlib]
      decide
    · rw [hpath]
      exact hb.1
  · refine ⟨"mm_load_test", ?_, ?_⟩
    · rw [htarget, hstandalone]
      decide
    · rw [hpath]
      exact hb.2

/-- In the world that a successful build leaves, a run for the load harness with the same directory
is past its checks. -/
theorem ready_after_build {env : String → Option String} {cores : String} {args : List String}
    {w : ω} {b : BuildVars} {v : RunVars}
    (hbuild : Options.parse buildOption (.initial env cores) args = .ok b)
    (hseeds : b.createSeedsOnly = false)
    (hcode : (buildAll sys env cores args w).outcome.code = 0)
    (hv : ofLoadHarness v) (hdir : v.buildType = b.buildType.toLower) :
    Ready sys ⟨v, (buildAll sys env cores args w).state.world⟩ := by
  obtain herror | ⟨b', hok, hcertified⟩ := certified_buildAll hcode
  · rw [hbuild] at herror
    cases herror
  · obtain rfl := Except.ok.inj (hbuild.symm.trans hok)
    obtain hseeds' | husable := hcertified
    · rw [hseeds] at hseeds'
      cases hseeds'
    · exact ready_of_usable husable hv hdir

/-- **A build, then a session.** After a successful build a run for the load harness in the same
directory is past its checks, and ends in one of three ways: the fuzzer succeeds and its results are
analysed, the script leaves with the status of the fuzzer, or a command of the run that is no fuzzer
failed and stopped it. -/
theorem runFuzzing_after_build {env env' : String → Option String} {cores : String}
    {args args' : List String} {w : ω} {b : BuildVars} {v : RunVars}
    (hbuild : Options.parse buildOption (.initial env cores) args = .ok b)
    (hseeds : b.createSeedsOnly = false)
    (hcode : (buildAll sys env cores args w).outcome.code = 0)
    (hrun : Options.parse runOption (.initial env') args' = .ok v) (hv : ofLoadHarness v)
    (hmode : v.continuousMode = false) (hdir : v.buildType = b.buildType.toLower) (n : Nat) :
    let w' := (buildAll sys env cores args w).state.world
    let r := runFuzzing sys env' args' n w'
    Ready sys ⟨v, w'⟩ ∧
      ((r.outcome = .status 0 ∧ events r = [.fuzzed 0, .analysed]) ∨
        ∃ m ≠ 0, r.outcome = .exited m ∧
          (events r = [.fuzzed m] ∨ ∃ x ∈ r.trace, Stops x m)) := by
  have hready := ready_after_build hbuild hseeds hcode hv hdir
  have hafl : v.fuzzer ≠ "afl" := by
    have hfuzzer := hv.2
    rintro hafl
    rw [hafl] at hfuzzer
    simp at hfuzzer
  refine ⟨hready, ?_⟩
  obtain ⟨hout, k, hk, hevents⟩ | ⟨m, hm, hout, ⟨-, hevents⟩ | ⟨x, hx, hstopped⟩⟩ :=
    completed_or_failed hrun hready hmode n
  · obtain rfl := hk.resolve_left hafl
    exact .inl ⟨hout, hevents⟩
  · exact .inr ⟨m, hm, hout, .inl hevents⟩
  · exact .inr ⟨m, hm, hout, .inr ⟨x, hstopped.mem_trace, hx⟩⟩

theorem runFuzzing_after_build_ideal :
    let w' := (buildAll .ideal (fun _ => none) "4" [] ()).state.world
    let r := runFuzzing .ideal (fun _ => none) [] 0 w'
    Ready .ideal ⟨.initial fun _ => none, w'⟩ ∧
      ((r.outcome = .status 0 ∧ events r = [.fuzzed 0, .analysed]) ∨
        ∃ m ≠ 0, r.outcome = .exited m ∧
          (events r = [.fuzzed m] ∨ ∃ x ∈ r.trace, Stops x m)) :=
  runFuzzing_after_build rfl rfl rfl rfl ⟨rfl, by decide⟩ rfl (by decide +kernel) 0

/-! ## The stand-alone test -/

/-- The status of a process whose `main` returns: the low byte. -/
def ExitsAs (main : Option Int32) (status : Nat) : Prop :=
  ∃ r, main = some r ∧ status = r.toUInt32.toNat % 256

/-- **The stand-alone test never passes.** Where the binary is the test of the load harness, on any
target, in any byte order and with any memory, a run with it fails, and its results are not
analysed. Where no other command of the run fails, the script leaves with its status, which is 1. -/
theorem runFuzzing_standalone {env : String → Option String} {args : List String} {w : ω}
    {v : RunVars} (hargs : Options.parse runOption (.initial env) args = .ok v)
    (hready : Ready sys ⟨v, w⟩) (htarget : v.target = "mm_load")
    (hfuzzer : v.fuzzer = "standalone") (hmode : v.continuousMode = false)
    (hbin : ∀ w, ∃ t e block, ExitsAs (MM.standaloneMain t e block)
      (sys.exec (.standalone (v.binaryPath "mm_load_test")) w).1) (n : Nat) :
    let r := runFuzzing sys env args n w
    ∃ m ≠ 0, r.outcome = .exited m ∧ .analysed ∉ events r ∧
      ((∀ x ∈ r.trace, x.cmd.isAuxiliary → x.status = 0) → m = 1 ∧ events r = [.fuzzed 1]) := by
  have hstatus : ∀ w, (sys.exec (.standalone (v.binaryPath "mm_load_test")) w).1 = 1 := by
    intro w
    obtain ⟨t, e, block, r, hmain, hr⟩ := hbin w
    rw [MM.standaloneMain_eq] at hmain
    obtain rfl := Option.some.inj hmain
    exact hr
  have hstops : ∀ x m, Stops x m → m = 1 ∧ [Event.stopped x] = [.fuzzed m] ∨
      ∃ y k done, Stops y m ∧ done <+: [Event.fuzzed k] ∧ [.stopped x] = done ++ [.stopped y] :=
    fun x _ hx => .inr ⟨x, 0, [], hx, List.nil_prefix, rfl⟩
  obtain ⟨-, hfalse⟩ | ⟨m, hm, hout, hX⟩ := runFuzzing_of_session (n := n) (V := fun _ => False)
      hargs hready hmode hstops fun name hname => by
    obtain rfl : name = "mm_load_test" := by
      rw [htarget, hfuzzer] at hname
      exact binaries_unique hname (by decide)
    exact .cons (spec_setupResultsDir hstops)
      (.seq_of_leaves (spec_fuzzOnce_standalone hfuzzer hstatus Nat.zero_ne_one))
  · exact hfalse.elim
  · obtain ⟨rfl, hevents⟩ | ⟨x, k, done, hx, hdone, hevents⟩ := hX
    · exact ⟨1, hm, hout, by simp [hevents], fun _ => ⟨rfl, hevents⟩⟩
    · have hmem : x ∈ (runFuzzing sys env args n w).trace :=
        mem_trace_of_stopped (hevents ▸ List.mem_concat_self)
      have hanalysed : .analysed ∉ events (runFuzzing sys env args n w) := by
        rw [hevents, List.mem_append, List.mem_singleton]
        rintro (hin | hin)
        · cases List.mem_singleton.mp (hdone.subset hin)
        · cases hin
      exact ⟨m, hm, hout, hanalysed, fun haux => absurd (haux x hmem hx.1) hx.2.1⟩

/-- A system where only the stand-alone binaries fail. -/
def failingTest : System Unit :=
  { System.ideal with exec := fun e _ => (if e.isAuxiliary then 0 else 1, ()) }

theorem runFuzzing_standalone_failingTest :
    let r := runFuzzing failingTest (fun _ => none) ["--fuzzer", "standalone"] 0 ()
    ∃ m ≠ 0, r.outcome = .exited m ∧ .analysed ∉ events r ∧
      ((∀ x ∈ r.trace, x.cmd.isAuxiliary → x.status = 0) → m = 1 ∧ events r = [.fuzzed 1]) :=
  runFuzzing_standalone rfl ⟨"mm_load_test", by decide, rfl, rfl⟩ rfl rfl rfl
    (fun _ => ⟨.x86, .little, none, 1, MM.standaloneMain_eq _ _ _, rfl⟩) 0

end CFS.Scripts
