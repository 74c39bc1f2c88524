-- SUMMARY: What a debug build prints tells the status of every load, whatever the command holds.
import CfsMmFuzzer.Harness.Debug
import CfsMmFuzzer.Load.Iteration

/-!
# Transcripts

A debug build computes what a release build does. From the text that it prints for
a command, `diagnose` reads the status back. Names in the command may hold any
character, line breaks and whole messages included: the text still starts and ends
as only one status makes it start and end.
-/

namespace MM.Debug

open CString (ascii)
open Print (decimal hexLower unlines newline)

/-! ## Reading a transcript -/

/-- How the message that reports a status starts. -/
def reports : List (Message × Int32) :=
  [(errorPrint (ascii "Null command pointer"), OS.invalidPointer),
   (errorPrint (ascii "Invalid memory type: "), CFS.errorInvalidMemtype),
   (errorPrint (ascii "Invalid data size: "), CFS.errorInvalidSize),
   (errorPrint (ascii "Data size exceeds limit: "), CFS.errorInvalidSize),
   (errorPrint (ascii "Empty filename"), CFS.errorInvalidFile),
   (errorPrint (ascii "Path traversal detected in filename: "), CFS.errorInvalidFile),
   (errorPrint (ascii "Invalid memory region: addr="), CFS.errorInvalidAddr),
   (errorPrint (ascii "Address not properly aligned: "), CFS.errorAlignment),
   (infoPrint (ascii "MM Load simulation successful: "), CFE.success)]

/-- The status that a text reports at its start. -/
def readMessage (text : List UInt8) : Option Int32 :=
  reports.findSome? fun r => if r.1.isPrefixOf text then some r.2 else none

/-- What stands before the numeral at the end of a transcript. -/
def endings : List (List UInt8 × Int32) :=
  [(ascii ", size=", CFS.errorInvalidAddr),
   (ascii ": 0x", CFS.errorAlignment),
   (ascii " to 0x", CFE.success)]

def readEnding (text : List UInt8) : Option Int32 :=
  endings.findSome? fun r => if r.1.isSuffixOf text then some r.2 else none

/-- The status that a transcript reports at its end. -/
def readEnd (text : List UInt8) : Option Int32 :=
  readEnding (text.dropLast.rdropWhile fun c => decide (Hex.IsDigit c))

/-- The status that the transcript of one command reports. -/
def diagnose (text : List UInt8) : Option Int32 :=
  (readMessage text).or
    ((readMessage (text.drop (processing.length + 1))).or (readEnd text))

/-! ## Ends -/

section Ends

/-- A numeral and the line break behind it fall away. -/
theorem readEnd_append {digits : List UInt8} (h : ∀ c ∈ digits, Hex.IsDigit c) (text : List UInt8)
    {c : UInt8} (hc : ¬ Hex.IsDigit c) :
    readEnd (text ++ [c] ++ digits ++ [newline]) = readEnding (text ++ [c]) := by
  rw [readEnd, List.dropLast_concat, Print.rdropWhile_append fun d hd => decide_eq_true (h d hd),
    List.rdropWhile_concat_neg _ _ _ (by simpa using hc)]

variable (s : List UInt8)

theorem readEnding_size : readEnding (s ++ ascii ", size=") = some CFS.errorInvalidAddr := by
  simp only [readEnding, List.isSuffixOf, List.reverse_append]
  rfl

theorem readEnding_aligned : readEnding (s ++ ascii ": 0x") = some CFS.errorAlignment := by
  simp only [readEnding, List.isSuffixOf, List.reverse_append]
  rfl

theorem readEnding_success : readEnding (s ++ ascii " to 0x") = some CFE.success := by
  simp only [readEnding, List.isSuffixOf, List.reverse_append]
  rfl

theorem readEnd_size (n : Nat) : readEnd (s ++ ascii ", size=" ++ decimal n ++ [newline]) =
    some CFS.errorInvalidAddr := by
  have hlast : s ++ ascii ", size" ++ [0x3D] = s ++ ascii ", size=" := List.append_assoc ..
  rw [← hlast, readEnd_append (fun _ => Print.isDigit_of_mem_decimal) _ (by decide), hlast,
    readEnding_size]

theorem readEnd_hex08 (addr : UInt64) :
    readEnd (s ++ hex08 addr ++ [newline]) = readEnding (s ++ ascii "0x") := by
  have hend : s ++ ascii "0" ++ [0x78] = s ++ ascii "0x" := List.append_assoc ..
  have hlast : s ++ hex08 addr = s ++ ascii "0" ++ [0x78] ++ Hex.numeral 8 addr.toNat := by
    rw [hex08, hend, List.append_assoc]
  rw [hlast, readEnd_append (fun _ => Hex.isDigit_of_mem_numeral) _ (by decide), hend]

theorem readEnd_aligned (addr : UInt64) :
    readEnd (s ++ ascii ": " ++ hex08 addr ++ [newline]) = some CFS.errorAlignment := by
  rw [readEnd_hex08, List.append_assoc]
  exact readEnding_aligned s

theorem readEnd_success (addr : UInt64) :
    readEnd (s ++ ascii " to " ++ hex08 addr ++ [newline]) = some CFE.success := by
  rw [readEnd_hex08, List.append_assoc]
  exact readEnding_success s

end Ends

theorem readMessage_debugPrint (s : List UInt8) : readMessage (debugPrint s) = none := rfl

/-! ## One command -/

/-- Messages of one command that report a status, at their start or at their end. -/
inductive Reported (status : Int32) : List Message → Prop where
  | null {m : Message} (hread : ∀ r, readMessage (m ++ r) = some status) : Reported status [m]
  | refused {m : Message} (hread : ∀ r, readMessage (m ++ r) = some status) :
      Reported status [processing, m]
  | addressed {text : List UInt8} {m : Message} (hread : ∀ r, readMessage (m ++ r) = some status)
      (hend : ∀ before, readEnd (before ++ m ++ [newline]) = some status) :
      Reported status [processing, debugPrint text, m]

theorem diagnose_processing (m : Message) (r : List UInt8) :
    diagnose (processing ++ newline :: (m ++ r)) =
      (readMessage (m ++ r)).or (readEnd (processing ++ newline :: (m ++ r))) := by
  have hfirst : readMessage (processing ++ newline :: (m ++ r)) = none := rfl
  have hdrop : (processing ++ newline :: (m ++ r)).drop (processing.length + 1) = m ++ r := rfl
  rw [diagnose, hfirst, hdrop, Option.none_or]

theorem Reported.diagnose_eq {status : Int32} {messages : List Message}
    (h : Reported status messages) : diagnose (unlines messages) = some status := by
  cases h with
  | null hread =>
    rw [diagnose, Print.unlines_cons, hread, Option.some_or]
  | refused hread =>
    rw [Print.unlines_cons, Print.unlines_cons, diagnose_processing, hread, Option.some_or]
  | @addressed text m hread hend =>
    have htext : unlines [processing, debugPrint text, m] =
        processing ++ newline :: (debugPrint text ++ newline :: (m ++ [newline])) := by simp
    have hlast : processing ++ newline :: (debugPrint text ++ newline :: (m ++ [newline])) =
        (processing ++ newline :: (debugPrint text ++ [newline])) ++ m ++ [newline] := by simp
    have hsecond : readMessage (debugPrint text ++ newline :: (m ++ [newline])) = none := rfl
    rw [htext, diagnose_processing, hsecond, Option.none_or, hlast, hend]

/-- Message by message, the status is reported once. -/
theorem Reported.filterMap_eq {status : Int32} {messages : List Message}
    (h : Reported status messages) : messages.filterMap readMessage = [status] := by
  have hfirst : readMessage processing = none := rfl
  have hone {m : Message} (hread : ∀ r, readMessage (m ++ r) = some status) :
      [m].filterMap readMessage = [status] := by
    have hm : readMessage m = some status := List.append_nil m ▸ hread []
    rw [List.filterMap_cons_some hm, List.filterMap_nil]
  cases h with
  | null hread => exact hone hread
  | refused hread => rw [List.filterMap_cons_none hfirst, hone hread]
  | addressed hread _ =>
    rw [List.filterMap_cons_none hfirst, List.filterMap_cons_none (readMessage_debugPrint _),
      hone hread]

/-! ## Computations with messages -/

/-- The computation with messages has the result of the one without, and `P` holds of what
it prints. -/
def Follows (P : Int32 → List Message → Prop) (plain : Option Int32)
    (printing : Option (Int32 × List Message)) : Prop :=
  printing.map Prod.fst = plain ∧ ∀ r ∈ printing, P r.1 r.2

namespace Follows

variable {P : Int32 → List Message → Prop}

theorem some {status : Int32} {messages : List Message} (h : P status messages) :
    Follows P (some status) (some (status, messages)) :=
  ⟨rfl, fun _ hr => Option.some.inj hr ▸ h⟩

theorem ite {c : Prop} [Decidable c] {o₁ o₂ : Option Int32}
    {p₁ p₂ : Option (Int32 × List Message)} (h₁ : Follows P o₁ p₁) (h₂ : Follows P o₂ p₂) :
    Follows P (if c then o₁ else o₂) (if c then p₁ else p₂) := by
  split
  · exact h₁
  · exact h₂

/-- Both computations read the same string first. -/
theorem bind {α : Type} {o : Option α} {f : α → Option Int32}
    {g : α → Option (Int32 × List Message)} (h : ∀ a ∈ o, Follows P (f a) (g a)) :
    Follows P (o >>= f) (o >>= g) := by
  cases o with
  | none => exact ⟨rfl, fun _ hr => absurd hr (Option.not_mem_none _)⟩
  | some a => exact h a rfl

/-- The debug build resolves the address with a message of its own. -/
theorem resolve (t : CFS.Target) {dest : SymAddr} {f : UInt64 → Option Int32}
    {g : UInt64 × Message → Option (Int32 × List Message)}
    (h : ∀ addr text, ((∀ name ∈ dest.symName.cstring?, newline ∉ name.chars) → newline ∉ text) →
      Follows P (f addr) (g (addr, debugPrint text))) :
    Follows P (MM.resolveInline t dest >>= f) (resolveInline t dest >>= g) := by
  unfold resolveInline MM.resolveInline
  cases hname : dest.symName.cstring? with
  | none => exact ⟨rfl, fun _ hr => absurd hr (Option.not_mem_none _)⟩
  | some name =>
    rw [hname] at h
    simp only [Option.bind_eq_bind, Option.bind_some]
    split
    · refine h _ _ fun hclean => ?_
      have hsym := hclean name rfl
      simp +decide [hsym, Print.newline_not_mem_hexLower]
    · refine h _ _ fun _ => ?_
      simp +decide [Print.newline_not_mem_hexLower]

end Follows

theorem follows_reported (t : CFS.Target) (cmd : Option LoadMemFromFileCmd) :
    Follows Reported (MM.loadMemFromFileCmdSimulation t cmd)
      (loadMemFromFileCmdSimulation t cmd) := by
  cases cmd with
  | none => exact .some (.null fun _ => rfl)
  | some cmd =>
    refine .ite (.some (.refused fun _ => rfl)) ?_
    refine .ite (.some (.refused fun _ => rfl)) ?_
    refine .ite (.some (.refused fun _ => rfl)) (.bind fun fileName _ => ?_)
    refine .ite (.some (.refused fun _ => rfl)) ?_
    refine .ite (.some (.refused fun _ => rfl)) (.resolve t fun addr text _ => ?_)
    -- from here on the text of the second message may start like one that reports a status
    refine .ite (.some (.addressed (fun _ => rfl) fun before => ?_)) ?_
    · have htext := readEnd_size (before ++ errorPrint (ascii "Invalid memory region: addr=" ++
        hex08 addr)) cmd.numOfBytes.toNat
      simpa only [errorPrint, List.append_assoc] using htext
    refine .ite (.some (.addressed (fun _ => rfl) fun before => ?_)) ?_
    · have htext := readEnd_aligned (before ++ errorPrint (ascii "Address not properly aligned"))
        addr
      have hcolon : ascii "Address not properly aligned: " =
          ascii "Address not properly aligned" ++ ascii ": " := rfl
      simpa only [errorPrint, hcolon, List.append_assoc] using htext
    · refine .some (.addressed (fun _ => rfl) fun before => ?_)
      have htext := readEnd_success (before ++ infoPrint (ascii "MM Load simulation successful: " ++
        decimal cmd.numOfBytes.toNat ++ ascii " bytes from " ++ fileName.chars)) addr
      simpa only [infoPrint, List.append_assoc] using htext

theorem follows_lines (t : CFS.Target) {cmd : LoadMemFromFileCmd}
    (hsym : ∀ name ∈ cmd.destSymAddress.symName.cstring?, newline ∉ name.chars)
    (hfile : ∀ name ∈ cmd.fileName.cstring?, newline ∉ name.chars) :
    Follows (fun _ messages => ∀ m ∈ messages, newline ∉ m)
      (MM.loadMemFromFileCmdSimulation t (some cmd))
      (loadMemFromFileCmdSimulation t (some cmd)) := by
  have hdec := Print.newline_not_mem_decimal
  refine .ite (.some ?_) (.ite (.some ?_) (.ite (.some ?_) (.bind fun fileName hname => ?_)))
  · simp +decide [errorPrint, hdec]
  · simp +decide [errorPrint, hdec]
  · simp +decide [errorPrint, hdec]
  have hclean := hfile fileName hname
  refine .ite (.some ?_) (.ite (.some ?_) (.resolve t fun addr text htext => ?_))
  · simp +decide
  · simp +decide [errorPrint, hclean]
  have hsecond := htext hsym
  have hnum := Print.newline_not_mem_numeral
  refine .ite (.some ?_) (.ite (.some ?_) (.some ?_))
  · simp +decide [errorPrint, debugPrint, hex08, hsecond, hdec, hnum]
  · simp +decide [errorPrint, debugPrint, hex08, hsecond, hnum]
  · simp +decide [infoPrint, debugPrint, hex08, hsecond, hclean, hdec, hnum]

/-- **The transcript of a command.** For every command and no command, the debug build does
what the release build does, and its transcript tells the status. -/
theorem diagnose_simulation (t : CFS.Target) (cmd : Option LoadMemFromFileCmd) :
    (loadMemFromFileCmdSimulation t cmd).map Prod.fst = MM.loadMemFromFileCmdSimulation t cmd ∧
      (loadMemFromFileCmdSimulation t cmd).map (fun r => diagnose (unlines r.2)) =
        (MM.loadMemFromFileCmdSimulation t cmd).map some := by
  obtain ⟨hplain, hreported⟩ := follows_reported t cmd
  refine ⟨hplain, ?_⟩
  rw [← hplain, Option.map_map]
  exact Option.map_congr fun r hr => (hreported r hr).diagnose_eq

/-! ## Whole runs -/

theorem newline_not_mem_symbolAt (i : Fin CFS.numValidSymbols) :
    newline ∉ (symbolAt i).chars := by
  have hall : ∀ s ∈ CFS.validSymbols, newline ∉ s.chars := by decide +kernel
  exact hall _ (List.get_mem _ i)

theorem newline_not_mem_fileNameAt (i : Fin CFS.numValidPaths) :
    newline ∉ (fileNameAt i).chars := by
  have hall : ∀ path ∈ CFS.validPaths, newline ∉ (path.append testFile).chars := by
    decide +kernel
  exact hall _ (List.get_mem _ i)

theorem newline_not_mem_symName (c : Command) : newline ∉ c.symName.chars := by
  unfold Command.symName
  cases c.dest with
  | symbol i => exact newline_not_mem_symbolAt i
  | direct offset => exact List.not_mem_nil

/-- The message for a constructed packet reports no status and is one line. -/
theorem exists_constructed (t : CFS.Target) (c : Command) :
    ∃ text, constructed (c.toPacket t) = some (debugPrint text) ∧ newline ∉ debugPrint text := by
  have hdec := Print.newline_not_mem_decimal
  have hclean := newline_not_mem_fileNameAt c.path
  refine ⟨_, by rw [constructed, c.fileName_toPacket t]; rfl, ?_⟩
  simp +decide [debugPrint, hdec, hclean]

/-- One iteration prints lines, and one of them reports its status. -/
theorem exists_iteration (t : CFS.Target) (e : ByteOrder) (block : Option LoadMemFromFileCmd)
    (data : List UInt8) : ∃ result messages,
      fuzzerTestOneInput t e block data = some (result, messages) ∧
      MM.fuzzerTestOneInput t e block data = some result ∧
      (∀ m ∈ messages, newline ∉ m) ∧ messages.filterMap readMessage = result.2.toList := by
  by_cases hlen : data.length < sizeofLoadMemFromFileCmd
  · exact ⟨(0, none), [], if_pos hlen, if_pos hlen, by simp, rfl⟩
  cases block with
  | none =>
    refine ⟨(0, none), [], ?_, ?_, by simp, rfl⟩
    · rw [fuzzerTestOneInput, if_neg hlen, loadConstructPacket, MM.loadConstructPacket, if_neg hlen]
      rfl
    · rw [MM.fuzzerTestOneInput, if_neg hlen, MM.loadConstructPacket, if_neg hlen]
      rfl
  | some block =>
    have hpacket := loadConstructPacket_eq t e block (Nat.not_lt.mp hlen)
    generalize Command.ofInput e data = c at hpacket
    obtain ⟨text, hmessage, hline⟩ := exists_constructed t c
    obtain ⟨status, hsim, -, -⟩ := c.exists_simulation t
    obtain ⟨hplain, hreported⟩ := follows_reported t (some (c.toPacket t))
    obtain ⟨⟨status', messages⟩, hdebug, hstatus⟩ :=
      Option.map_eq_some_iff.mp (hplain.trans hsim)
    obtain rfl : status' = status := hstatus
    have hlines := follows_lines t
      (fun _ hname => Option.some.inj ((c.symName_toPacket t).symm.trans hname) ▸
        newline_not_mem_symName c)
      (fun _ hname => Option.some.inj ((c.fileName_toPacket t).symm.trans hname) ▸
        newline_not_mem_fileNameAt c.path)
    refine ⟨(0, some status'), debugPrint text :: messages, ?_, ?_, ?_, ?_⟩
    · rw [fuzzerTestOneInput, if_neg hlen, loadConstructPacket, hpacket]
      simp only [Option.bind_eq_bind, Option.bind_some, hmessage, hdebug, List.singleton_append]
    · rw [MM.fuzzerTestOneInput, if_neg hlen, hpacket]
      simp only [Option.bind_eq_bind, Option.bind_some, hsim]
    · exact List.forall_mem_cons.mpr ⟨hline, hlines.2 _ hdebug⟩
    · rw [List.filterMap_cons_none (readMessage_debugPrint text),
        (hreported _ hdebug).filterMap_eq]
      rfl

theorem exists_campaign (t : CFS.Target) (e : ByteOrder)
    (calls : List (Option LoadMemFromFileCmd × List UInt8)) : ∃ results messages,
      campaign t e calls = some (results, messages) ∧
      calls.mapM (fun call => MM.fuzzerTestOneInput t e call.1 call.2) = some results ∧
      (∀ m ∈ messages, newline ∉ m) ∧
      messages.filterMap readMessage = results.filterMap Prod.snd := by
  induction calls with
  | nil => exact ⟨[], [], rfl, rfl, by simp, rfl⟩
  | cons call calls ih =>
    obtain ⟨result, messages, hdebug, hplain, hlines, hread⟩ :=
      exists_iteration t e call.1 call.2
    obtain ⟨results, messages', hdebugs, hplains, hlines', hreads⟩ := ih
    refine ⟨result :: results, messages ++ messages', ?_, ?_, ?_, ?_⟩
    · rw [campaign, hdebug, hdebugs]
      rfl
    · rw [List.mapM_cons, hplain, hplains]
      rfl
    · intro m hm
      exact (List.mem_append.mp hm).elim (hlines m) (hlines' m)
    · rw [List.filterMap_append, hread, hreads]
      cases hstatus : result.2 with
      | none => rw [List.filterMap_cons_none hstatus, Option.toList_none, List.nil_append]
      | some status =>
        rw [List.filterMap_cons_some hstatus, Option.toList_some, List.singleton_append]

/-- **The log of a run.** However many inputs a fuzzer gives the debug build, the results
are those of the release build, and the lines of the log that report a status are the
statuses of the packets, in their order. -/
theorem log_campaign (t : CFS.Target) (e : ByteOrder)
    (calls : List (Option LoadMemFromFileCmd × List UInt8)) : ∃ results messages,
      campaign t e calls = some (results, messages) ∧
      calls.mapM (fun call => MM.fuzzerTestOneInput t e call.1 call.2) = some results ∧
      ((unlines messages).splitOn newline).filterMap readMessage = results.filterMap Prod.snd := by
  obtain ⟨results, messages, hdebug, hplain, hlines, hread⟩ := exists_campaign t e calls
  have hempty : readMessage [] = none := rfl
  refine ⟨results, messages, hdebug, hplain, ?_⟩
  rw [Print.splitOn_unlines hlines, List.filterMap_append, hread, List.filterMap_cons_none hempty,
    List.filterMap_nil, List.append_nil]

end MM.Debug
