-- SUMMARY: The log handle over whole runs: at most one open file, no double close, and no write to a closed file.
import CfsMmFuzzer.Base.LastWrite
import CfsMmFuzzer.Base.OneHandle
import CfsMmFuzzer.Base.Run
import CfsMmFuzzer.Common.Log

/-!
# The log handle

Calls of the three logging functions come in any order, and each `fopen` may
fail. The log file is the one handle of `OneHandle`, with `stdout` as the
standard handle: one step of the program obeys the discipline
(`obeys_step`), and so does every run.
-/

namespace CFS

open LastWrite OneHandle Run

/-! ## Calls -/

/-- A call, with what it finds outside. -/
inductive LogCall where
  | enableDebug (enable : Bool)
  | setLogFile (filename : Option CString) (opened : Option Nat)
  | logMessage (stamp : List UInt8) (level : CString) (message : List UInt8)

namespace LogCall

/-- For a call of `CFS_SetLogFile`, the file that it opens, if it opens one. -/
def logFile? : LogCall → Option (Option Stream)
  | .setLogFile (some _) opened => some (opened.map .file)
  | .setLogFile none _ => some none
  | _ => none

/-- The stream that `fopen` gives in a call. -/
def opened? (c : LogCall) : Option Stream := c.logFile?.join

end LogCall

def logStep (g : LogGlobals) : LogCall → LogGlobals × List LogEvent
  | .enableDebug enable => (CFS.enableDebug g enable, [])
  | .setLogFile filename opened => CFS.setLogFile g filename opened
  | .logMessage stamp level message => CFS.logMessage g stamp level message

/-- The globals and all effects of a sequence of calls from the start. -/
def logRun (calls : List LogCall) : LogGlobals × List LogEvent := run logStep .initial calls

/-! ## Events as operations on handles -/

def LogEvent.op : LogEvent → Op Stream
  | .fopen _ stream => .acquire stream
  | .fclose stream => .release stream
  | .write stream _ => .use stream
  | .fflush stream => .use stream

/-- The streams that the program has opened and not closed. -/
def openStreams (trace : List LogEvent) : List Stream := held (trace.map LogEvent.op)

/-- The streams that the program has closed, in order. -/
def closedStreams (trace : List LogEvent) : List Stream := released (trace.map LogEvent.op)

/-- The file that the program holds open. -/
def LogGlobals.file (g : LogGlobals) : Option Stream :=
  match g.logFile with
  | some (.file id) => some (.file id)
  | _ => none

/-- The trace obeys the discipline between two states. -/
def ObeysBetween (g : LogGlobals) (trace : List LogEvent) (g' : LogGlobals) : Prop :=
  Obeys (· = .stdout) g.file (trace.map LogEvent.op) g'.file

def NotStderr (g : LogGlobals) : Prop := g.logFile ≠ some .stderr

/-! ## One call -/

theorem ObeysBetween.append {g g₁ g₂ : LogGlobals} {trace trace' : List LogEvent}
    (h : ObeysBetween g trace g₁) (h' : ObeysBetween g₁ trace' g₂) :
    ObeysBetween g (trace ++ trace') g₂ := by
  unfold ObeysBetween
  rw [List.map_append]
  exact Obeys.append h h'

/-- Closing gives up the file that was open. -/
theorem obeys_closeLogFile {g : LogGlobals} (h : NotStderr g) :
    ObeysBetween g (closeLogFile g).2 (closeLogFile g).1 ∧ (closeLogFile g).1.file = none := by
  obtain ⟨debugEnabled, logFile⟩ := g
  match logFile with
  | none => exact ⟨.nil, rfl⟩
  | some .stdout => exact ⟨.nil, rfl⟩
  | some .stderr => exact absurd rfl h
  | some (.file id) => exact ⟨.release .nil, rfl⟩

theorem obeys_setLogFile {g : LogGlobals} (h : NotStderr g) (filename : Option CString)
    (opened : Option Nat) :
    ObeysBetween g (setLogFile g filename opened).2 (setLogFile g filename opened).1 := by
  obtain ⟨hclose, hfile⟩ := obeys_closeLogFile h
  -- a file is opened, or the log goes back to `stdout`
  have hopen : ∀ name id, ObeysBetween (closeLogFile g).1 [.fopen name (.file id)]
      { (closeLogFile g).1 with logFile := some (.file id) } := by
    intro name id
    unfold ObeysBetween
    rw [hfile]
    exact .acquire .nil
  have hstdout : ObeysBetween (closeLogFile g).1 []
      { (closeLogFile g).1 with logFile := some .stdout } := by
    unfold ObeysBetween
    rw [hfile]
    exact .nil
  have hback := hclose.append hstdout
  rw [List.append_nil] at hback
  match filename, opened with
  | some name, some id => exact hclose.append (hopen name id)
  | some _, none => exact hback
  | none, _ => exact hback

theorem obeys_logMessage {g : LogGlobals} (h : NotStderr g) (stamp : List UInt8) (level : CString)
    (message : List UInt8) :
    ObeysBetween g (logMessage g stamp level message).2 (logMessage g stamp level message).1 := by
  obtain ⟨debugEnabled, logFile⟩ := g
  cases debugEnabled with
  | false => exact .nil
  | true =>
    match logFile with
    | none => exact .useStd rfl (.useStd rfl (.useStd rfl (.useStd rfl .nil)))
    | some .stdout => exact .useStd rfl (.useStd rfl (.useStd rfl (.useStd rfl .nil)))
    | some .stderr => exact absurd rfl h
    | some (.file id) => exact .useHeld (.useHeld (.useHeld (.useHeld .nil)))

/-- One call obeys the discipline. -/
theorem obeys_step (g : LogGlobals) (c : LogCall) (h : NotStderr g) :
    ObeysBetween g (logStep g c).2 (logStep g c).1 := by
  cases c with
  | enableDebug enable => exact .nil
  | setLogFile filename opened => exact obeys_setLogFile h filename opened
  | logMessage stamp level message => exact obeys_logMessage h stamp level message

/-- The file that a call leaves open: a call of `CFS_SetLogFile` decides it anew. -/
theorem file_step (g : LogGlobals) (c : LogCall) :
    (logStep g c).1.file = c.logFile?.getD g.file := by
  match c with
  | .enableDebug _ => rfl
  | .setLogFile (some _) (some _) => rfl
  | .setLogFile (some _) none => rfl
  | .setLogFile none _ => rfl
  | .logMessage stamp level message =>
    obtain ⟨debugEnabled, logFile⟩ := g
    cases debugEnabled with
    | false => rfl
    | true => match logFile with
      | none => rfl
      | some .stdout => rfl
      | some .stderr => rfl
      | some (.file _) => rfl

/-- No call makes `stderr` the log file. -/
theorem notStderr_step (g : LogGlobals) (c : LogCall) (h : NotStderr g) :
    NotStderr (logStep g c).1 := by
  match c with
  | .enableDebug _ => exact h
  | .setLogFile (some _) (some _) => exact fun hlog => Stream.noConfusion (Option.some.inj hlog)
  | .setLogFile (some _) none => exact fun hlog => Stream.noConfusion (Option.some.inj hlog)
  | .setLogFile none _ => exact fun hlog => Stream.noConfusion (Option.some.inj hlog)
  | .logMessage stamp level message =>
    obtain ⟨debugEnabled, logFile⟩ := g
    cases debugEnabled with
    | false => exact h
    | true => match logFile with
      | none => exact fun hlog => Stream.noConfusion (Option.some.inj hlog)
      | some _ => exact h

/-! ## Runs -/

/-- Every run obeys the discipline. -/
theorem obeys_logRun (calls : List LogCall) :
    NotStderr (logRun calls).1 ∧
      ObeysBetween .initial (logRun calls).2 (logRun calls).1 :=
  run_rel (fun _ => .nil) (fun _ _ _ _ _ h h' => h.append h') notStderr_step obeys_step
    (show NotStderr .initial from nofun) calls

/-- The open file is that of the latest call of `CFS_SetLogFile`. -/
theorem file_logRun (calls : List LogCall) :
    (logRun calls).1.file = lastSet LogCall.logFile? calls none := by
  unfold logRun
  rw [run_fst]
  refine get_foldl_of_frame ?_ ?_ LogGlobals.initial
  · intro g c _ file hfile
    rw [file_step, hfile, Option.getD_some]
  · intro g c _ hnone
    rw [file_step, hnone, Option.getD_none]

/-- What one call acquires. -/
theorem acquired_step (g : LogGlobals) (c : LogCall) :
    (logStep g c).2.filterMap (fun event => event.op.acquired?) = c.opened?.toList := by
  have hclose : ∀ g, (closeLogFile g).2.filterMap (fun event => event.op.acquired?) = [] := by
    intro g
    obtain ⟨debugEnabled, logFile⟩ := g
    match logFile with
    | none => rfl
    | some .stdout => rfl
    | some .stderr => rfl
    | some (.file _) => rfl
  match c with
  | .enableDebug _ => rfl
  | .setLogFile (some name) (some id) =>
    have happend : (logStep g (.setLogFile (some name) (some id))).2 =
        (closeLogFile g).2 ++ [.fopen name (.file id)] := rfl
    rw [happend, List.filterMap_append, hclose]
    rfl
  | .setLogFile (some _) none => exact hclose g
  | .setLogFile none _ => exact hclose g
  | .logMessage stamp level message =>
    obtain ⟨debugEnabled, logFile⟩ := g
    cases debugEnabled <;> rfl

/-- The streams of the trace are those that `fopen` gave. -/
theorem acquired_logRun (calls : List LogCall) :
    acquired ((logRun calls).2.map LogEvent.op) = calls.filterMap LogCall.opened? := by
  unfold acquired
  rw [List.filterMap_map]
  exact filterMap_run acquired_step .initial calls

/-- The streams that `fopen` gives are neither `stdout` nor `stderr`. -/
theorem exists_file_of_opened {calls : List LogCall} {stream : Stream}
    (h : stream ∈ calls.filterMap LogCall.opened?) : ∃ id, stream = .file id := by
  obtain ⟨c, -, hc⟩ := List.mem_filterMap.mp h
  match c with
  | .setLogFile (some _) (some id) => exact ⟨id, (Option.some.inj hc).symm⟩

/-- The discipline of the log file in a reachable state, and along the trace
that leads there. -/
structure Disciplined (calls : List LogCall) (g : LogGlobals) (trace : List LogEvent) : Prop where
  logFile : g.logFile = none ∨ g.logFile = some .stdout ∨
    ∃ id, g.logFile = some (.file id) ∧ lastSet LogCall.logFile? calls none = some (.file id) ∧
      .file id ∉ closedStreams trace
  atMostOne : ∀ past future, trace = past ++ future → (openStreams past).length ≤ 1
  noLeak : openStreams trace = g.file.toList
  closedOnce : (closedStreams trace).Nodup
  standard : .stdout ∉ closedStreams trace ∧ .stderr ∉ closedStreams trace
  writes : ∀ past stream text future, trace = past ++ .write stream text :: future →
    stream = .stdout ∨ openStreams past = [stream]

/-- **The log handle over whole runs**, where each `fopen` that succeeds gives a
new stream. -/
theorem disciplined_logRun (calls : List LogCall)
    (hfresh : (calls.filterMap LogCall.opened?).Nodup) :
    Disciplined calls (logRun calls).1 (logRun calls).2 := by
  obtain ⟨hstderr, hobeys⟩ := obeys_logRun calls
  have hobeys' :
      Obeys (· = .stdout) none ((logRun calls).2.map LogEvent.op) (logRun calls).1.file := hobeys
  have hnew := hfresh
  rw [← acquired_logRun] at hnew
  have hfiles : ∀ stream ∈ closedStreams (logRun calls).2, ∃ id, stream = .file id := by
    intro stream hclosed
    have hacq := hobeys'.mem_acquired_of_mem_released hclosed
    rw [acquired_logRun] at hacq
    exact exists_file_of_opened hacq
  constructor
  case logFile =>
    match hlog : (logRun calls).1.logFile with
    | none => exact .inl rfl
    | some .stdout => exact .inr (.inl rfl)
    | some .stderr => exact absurd hlog hstderr
    | some (.file id) =>
      have hfile : (logRun calls).1.file = some (.file id) := by
        unfold LogGlobals.file
        rw [hlog]
      rw [hfile] at hobeys'
      exact .inr (.inr ⟨id, rfl, (file_logRun calls).symm.trans hfile,
        hobeys'.not_mem_released hnew⟩)
  case atMostOne =>
    intro past future htrace
    rw [htrace, List.map_append] at hobeys'
    exact hobeys'.length_held_le
  case noLeak => exact hobeys'.held_eq
  case closedOnce => exact hobeys'.nodup_released hnew
  case standard =>
    constructor
    · intro hclosed
      obtain ⟨id, hid⟩ := hfiles _ hclosed
      cases hid
    · intro hclosed
      obtain ⟨id, hid⟩ := hfiles _ hclosed
      cases hid
  case writes =>
    intro past stream text future htrace
    rw [htrace, List.map_append, List.map_cons] at hobeys'
    exact hobeys'.use_cases

/-- A file is opened and replaced, and the second `fopen` fails. -/
def replacedLog : List LogCall :=
  let name : CString := ⟨CString.ascii "fuzz.log", by decide⟩
  let level : CString := ⟨CString.ascii "INFO", by decide⟩
  [.enableDebug true, .setLogFile (some name) (some 0), .logMessage [] level [],
    .setLogFile (some name) none, .logMessage [] level [], .setLogFile (some name) (some 1)]

theorem disciplined_replacedLog :
    Disciplined replacedLog (logRun replacedLog).1 (logRun replacedLog).2 :=
  disciplined_logRun replacedLog (by decide)

end CFS
