-- SUMMARY: The debug log: its two globals, the functions that change them, and the effects on streams.
import CfsMmFuzzer.Base.CString

/-!
# The debug log (`utils.c`)

A function takes the globals to new globals and the list of its effects on
streams. What comes from outside is an argument: the stream that `fopen` gives,
and the formatted time and message.
-/

namespace CFS

/-- A `FILE *` that is not `NULL`. -/
inductive Stream where
  | stdout
  | stderr
  | file (id : Nat)
  deriving DecidableEq, Repr

/-- `g_debug_enabled` and `g_log_file`. -/
structure LogGlobals where
  debugEnabled : Bool
  logFile      : Option Stream
  deriving DecidableEq, Repr

/-- Their initialisers. -/
def LogGlobals.initial : LogGlobals := ⟨false, none⟩

/-- A call of the C library. A failed `fopen` has no effect. -/
inductive LogEvent where
  | fopen (filename : CString) (stream : Stream)
  | fclose (stream : Stream)
  | write (stream : Stream) (text : List UInt8)
  | fflush (stream : Stream)

/-- `CFS_EnableDebug`. -/
def enableDebug (g : LogGlobals) (enable : Bool) : LogGlobals := { g with debugEnabled := enable }

/-- The first half of `CFS_SetLogFile`. -/
def closeLogFile (g : LogGlobals) : LogGlobals × List LogEvent :=
  match g.logFile with
  | some stream =>
      if stream ≠ .stdout ∧ stream ≠ .stderr then
        ({ g with logFile := none }, [.fclose stream])
      else (g, [])
  | none => (g, [])

/-- `CFS_SetLogFile`. `opened` is the file that `fopen` gives, or `none` where it fails. -/
def setLogFile (g : LogGlobals) (filename : Option CString) (opened : Option Nat) :
    LogGlobals × List LogEvent :=
  let (g, closing) := closeLogFile g
  match filename with
  | some name =>
      match opened with
      | some id => ({ g with logFile := some (.file id) }, closing ++ [.fopen name (.file id)])
      | none => ({ g with logFile := some .stdout }, closing)
  | none => ({ g with logFile := some .stdout }, closing)

/-- `"[%04d-%02d-%02d %02d:%02d:%02d] [%s] "` where `stamp` is the time. -/
def logPreamble (stamp : List UInt8) (level : CString) : List UInt8 :=
  CString.ascii "[" ++ stamp ++ CString.ascii "] [" ++ level.chars ++ CString.ascii "] "

/-- `CFS_LogMessage`. `message` is what `format` and its arguments print. -/
def logMessage (g : LogGlobals) (stamp : List UInt8) (level : CString) (message : List UInt8) :
    LogGlobals × List LogEvent :=
  if !g.debugEnabled then (g, [])
  else
    let stream := g.logFile.getD .stdout
    ({ g with logFile := some stream },
      [.write stream (logPreamble stamp level), .write stream message,
        .write stream (CString.ascii "\n"), .fflush stream])

end CFS
