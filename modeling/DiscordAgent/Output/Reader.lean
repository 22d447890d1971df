import DiscordAgent.Model.Reader

/-!
# What the reader thread completes

`_read_stdout` catches `JSONDecodeError` only. A line that is valid JSON but no
object, a line that `json.loads` gives up on, and bytes that do not decode all
end the thread before it calls `on_complete`.

* `Readable`: the reads that the loop gets over.
* `completes_iff`: `on_complete` is called once, with the exit code and the last
  result, exactly if every read is one of these.
* `completes_misses`: a worker that prints a number after its result.
-/

namespace DiscordAgent

namespace ClaudeProcess

/-! ## Specification -/

section Spec

variable (lib : JsonLib)

/-- The `result` of a line of output: only objects of type `result` have one. -/
def lineResult (line : String) : Option Json :=
  match lib.loads line with
  | .ok (.obj event) =>
    if (Dict.getD "type" .null event).isOneOf ["result"] then
      some (Dict.getD "result" (.str "") event)
    else none
  | _ => none

/-- The text is no JSON, or it is an object. -/
def Handled (line : String) : Prop :=
  (∃ message, lib.loads line = .error (.jsonDecodeError message)) ∨
    ∃ event, lib.loads line = .ok (.obj event)

/-- The line decodes, and it is blank or handled. -/
def Readable (r : StdoutRead) : Prop :=
  ∃ line, r.line = .ok line ∧ (Py.strip line = "" ∨ Handled lib (Py.strip line))

/-- The line that is kept of a read, `none` if it is blank. -/
def keptLine (r : StdoutRead) : Option String :=
  match r.line with
  | .ok line => if Py.strip line = "" then none else some (Py.strip line)
  | .error _ => none

/-- The result of the last line that has one, `none` if that is empty. -/
def lastResult (lines : List String) : Option Json :=
  (lines.filterMap (lineResult lib)).getLast?.filter Json.truthy

end Spec

variable {lib : JsonLib} {line : String} {lines : List String} {r : StdoutRead}
  {reads : List StdoutRead} {p : ClaudeProcess} {exitCode : ℤ}

/-! ## One line -/

theorem handleEvent_of_handled (h : Handled lib line) :
    handleEvent lib line = .ok (lineResult lib line) := by
  unfold handleEvent lineResult
  obtain ⟨message, hl⟩ | ⟨event, hl⟩ := h
  · rw [hl]
  · rw [hl]
    simp only [onEvent, resultOfEvent, getAttr, bind, Except.bind]
    split_ifs <;> rfl

theorem handleEvent_of_not_handled (h : ¬ Handled lib line) :
    ∃ e, handleEvent lib line = .error e := by
  unfold Handled at h
  unfold handleEvent
  cases hl : lib.loads line with
  | error e =>
    cases e with
    | jsonDecodeError message => exact absurd (.inl ⟨message, hl⟩) h
    | recursionError => exact ⟨_, rfl⟩
    | intDigits => exact ⟨_, rfl⟩
  | ok event =>
    cases event with
    | obj fields => exact absurd (.inr ⟨fields, hl⟩) h
    | _ => exact ⟨_, rfl⟩

theorem handleLine_of_readable (hline : r.line = .ok line) (h : Readable lib r) :
    handleLine lib line p = (.ok (), { p with
      outputLines := p.outputLines ++ (keptLine r).toList
      resultText := ((keptLine r).bind (lineResult lib)).getD p.resultText }) := by
  obtain ⟨line', hline', h⟩ := h
  rw [hline] at hline'
  cases hline'
  unfold handleLine keptLine
  rw [hline]
  by_cases hblank : Py.strip line = ""
  · simp [hblank]
  · have hhandled := h.resolve_left hblank
    simp only [hblank, if_false, handleEvent_of_handled hhandled, Option.toList_some,
      Option.bind_some]
    cases lineResult lib (Py.strip line) <;> rfl

theorem handleLine_of_not_readable (hline : r.line = .ok line) (h : ¬ Readable lib r) :
    ∃ e, handleLine lib line p =
      (.error e, { p with outputLines := p.outputLines ++ [Py.strip line] }) := by
  have hblank : Py.strip line ≠ "" := fun hb => h ⟨line, hline, .inl hb⟩
  obtain ⟨e, he⟩ := handleEvent_of_not_handled fun hh => h ⟨line, hline, .inr hh⟩
  refine ⟨e, ?_⟩
  unfold handleLine
  simp only [hblank, if_false, he]

/-! ## The loop -/

/-- What the loop leaves when it has read everything. -/
def afterLoop (lib : JsonLib) (reads : List StdoutRead) (p : ClaudeProcess) : ClaudeProcess :=
  { p with
    outputLines := p.outputLines ++ reads.filterMap keptLine
    resultText := (((reads.filterMap keptLine).filterMap (lineResult lib)).getLast?).getD
      p.resultText }

/-- By induction on the reads, for every `p`: the result so far is the last one. -/
theorem readLoop_of_readable (hstop : ∀ r ∈ reads, r.stop = false)
    (h : ∀ r ∈ reads, Readable lib r) :
    readLoop lib reads p = (.ok (), afterLoop lib reads p) := by
  induction reads generalizing p with
  | nil => simp [readLoop, afterLoop]
  | cons r reads ih =>
    obtain ⟨hr, hrest⟩ := List.forall_mem_cons.mp h
    obtain ⟨hnostop, hstop⟩ := List.forall_mem_cons.mp hstop
    obtain ⟨line, hline, -⟩ := id hr
    unfold readLoop
    rw [hline]
    simp only [hnostop, Bool.false_eq_true, if_false, handleLine_of_readable hline hr]
    rw [ih hstop hrest]
    unfold afterLoop
    cases hk : keptLine r with
    | none => simp [hk]
    | some kept =>
      cases hres : lineResult lib kept <;>
        simp [hk, hres, List.getLast?_cons]

theorem readLoop_of_not_readable (hstop : ∀ r ∈ reads, r.stop = false)
    (h : ¬ ∀ r ∈ reads, Readable lib r) :
    ∃ e q, readLoop lib reads p = (.error e, q) ∧ q.completions = p.completions := by
  induction reads generalizing p with
  | nil => exact absurd (List.forall_mem_nil _) h
  | cons r reads ih =>
    obtain ⟨hnostop, hstop⟩ := List.forall_mem_cons.mp hstop
    unfold readLoop
    cases hline : r.line with
    | error e => exact ⟨e, p, rfl, rfl⟩
    | ok line =>
      simp only [hnostop, Bool.false_eq_true, if_false]
      by_cases hr : Readable lib r
      · rw [handleLine_of_readable hline hr]
        have hrest : ¬ ∀ r ∈ reads, Readable lib r := fun hrest =>
          h (List.forall_mem_cons.mpr ⟨hr, hrest⟩)
        exact ih hstop hrest
      · obtain ⟨e, he⟩ := handleLine_of_not_readable (p := p) hline hr
        rw [he]
        exact ⟨e, _, rfl, rfl⟩

/-! ## The second pass -/

theorem handled_of_keptLine (h : Readable lib r) (hk : keptLine r = some line) :
    Handled lib line := by
  obtain ⟨text, hline, h⟩ := h
  unfold keptLine at hk
  rw [hline] at hk
  simp only at hk
  split_ifs at hk with hblank
  cases hk
  exact h.resolve_left hblank

theorem extractLoop_of_handled (h : ∀ line ∈ lines, Handled lib line) :
    extractLoop lib lines = .ok (lines.findSome? (lineResult lib)) := by
  induction lines with
  | nil => rfl
  | cons line lines ih =>
    obtain ⟨hline, hrest⟩ := List.forall_mem_cons.mp h
    unfold extractLoop
    rw [List.findSome?_cons]
    obtain ⟨message, hl⟩ | ⟨event, hl⟩ := hline
    · simp only [hl, lineResult, ih hrest]
    · simp only [hl, lineResult, resultOfEvent, getAttr, bind, Except.bind]
      split_ifs <;> simp [ih hrest]

/-- The last lines are tried first, so both passes find the same result. -/
theorem findSome?_reverse_lineResult :
    lines.reverse.findSome? (lineResult lib) =
      (lines.filterMap (lineResult lib)).getLast? := by
  rw [← List.head?_filterMap, List.filterMap_reverse, List.head?_reverse]

theorem extractResult_of_handled (h : ∀ line ∈ p.outputLines, Handled lib line) :
    extractResult lib p = (.ok (), { p with
      resultText := ((p.outputLines.filterMap (lineResult lib)).getLast?).getD p.resultText }) := by
  have hrev : ∀ line ∈ p.outputLines.reverse, Handled lib line := fun line hl =>
    h line (List.mem_reverse.mp hl)
  unfold extractResult
  rw [extractLoop_of_handled hrev, findSome?_reverse_lineResult]
  cases (p.outputLines.filterMap (lineResult lib)).getLast? <;> rfl

/-! ## The thread -/

/-- `result_text or None`. -/
theorem truthy_getD_iff (o : Option Json) :
    (if (o.getD (.str "")).truthy then some (o.getD (.str "")) else none) =
      o.filter Json.truthy := by
  cases o with
  | none => rfl
  | some v => simp [Option.filter_some]

/-- A process whose reader thread starts, with what the other thread reads. -/
def reading (stderrLines : List String) : ClaudeProcess := { stderrLines }

/-- The second pass finds what the first one has found. -/
theorem extractResult_afterLoop (h : ∀ r ∈ reads, Readable lib r) (stderrLines : List String)
    (code : Option ℤ) :
    extractResult lib { afterLoop lib reads (reading stderrLines) with exitCode := code } =
      (.ok (), { afterLoop lib reads (reading stderrLines) with exitCode := code }) := by
  have hhandled : ∀ line ∈ reads.filterMap keptLine, Handled lib line := by
    intro line hl
    obtain ⟨r, hr, hk⟩ := List.mem_filterMap.mp hl
    exact handled_of_keptLine (h r hr) hk
  rw [extractResult_of_handled hhandled]
  simp only [afterLoop, reading, List.nil_append]
  cases ((reads.filterMap keptLine).filterMap (lineResult lib)).getLast? <;> rfl

theorem readStdout_of_readable (hstop : ∀ r ∈ reads, r.stop = false)
    (h : ∀ r ∈ reads, Readable lib r) (stderrLines : List String) :
    ∃ limited, (readStdout lib reads exitCode (reading stderrLines)).2.completions =
      [⟨exitCode, lastResult lib (reads.filterMap keptLine), limited⟩] := by
  have hresult : (if (afterLoop lib reads (reading stderrLines)).resultText.truthy then
      some (afterLoop lib reads (reading stderrLines)).resultText else none) =
        lastResult lib (reads.filterMap keptLine) :=
    truthy_getD_iff _
  unfold readStdout
  rw [readLoop_of_readable hstop h]
  simp only [extractResult_afterLoop h, ite_self, hresult]
  exact ⟨_, rfl⟩

theorem readStdout_of_not_readable (hstop : ∀ r ∈ reads, r.stop = false)
    (h : ¬ ∀ r ∈ reads, Readable lib r) :
    (readStdout lib reads exitCode p).2.completions = p.completions := by
  obtain ⟨e, q, hloop, hq⟩ := readLoop_of_not_readable (p := p) hstop h
  unfold readStdout
  rw [hloop]
  exact hq

/-- A reader thread that is not stopped calls `on_complete` once, with the exit
    code and the last result, exactly if it can handle every line. -/
theorem completes_iff (lib : JsonLib) (reads : List StdoutRead) (exitCode : ℤ)
    (stderrLines : List String) (hstop : ∀ r ∈ reads, r.stop = false) :
    (∃ limited, (readStdout lib reads exitCode (reading stderrLines)).2.completions =
        [⟨exitCode, lastResult lib (reads.filterMap keptLine), limited⟩]) ↔
      ∀ r ∈ reads, Readable lib r := by
  constructor
  · rintro ⟨limited, hcomplete⟩
    by_contra h
    rw [readStdout_of_not_readable hstop h] at hcomplete
    cases hcomplete
  · intro h
    exact readStdout_of_readable hstop h stderrLines

/-! ## Two workers -/

/-- The event that reports the result `done`. -/
def doneLine : String := "\x7b\"type\": \"result\", \"result\": \"done\"\x7d"

/-- A `json` that knows this event and one number. -/
def doneLib : JsonLib where
  loads t :=
    if t = doneLine then .ok (.obj [("type", .str "result"), ("result", .str "done")])
    else if t = "4" then .ok (.int 4)
    else .error (.jsonDecodeError "Expecting value: line 1 column 1 (char 0)")
  repr _ := ""

theorem loads_doneLine : doneLib.loads (Py.strip (doneLine ++ "\n")) =
    .ok (.obj [("type", .str "result"), ("result", .str "done")]) := by
  have hline : Py.strip (doneLine ++ "\n") = doneLine := by decide
  rw [hline]
  simp [doneLib]

theorem loads_starting : doneLib.loads (Py.strip "Starting\n") =
    .error (.jsonDecodeError "Expecting value: line 1 column 1 (char 0)") := by
  have hline : Py.strip "Starting\n" = "Starting" := by decide
  have hdone : "Starting" ≠ doneLine := by decide
  rw [hline]
  simp [doneLib, hdone]

theorem completes_done : ∃ limited, (readStdout doneLib
    [⟨.ok "Starting\n", false⟩, ⟨.ok "\n", false⟩, ⟨.ok (doneLine ++ "\n"), false⟩] 0
      (reading [])).2.completions = [⟨0, some (.str "done"), limited⟩] :=
  (completes_iff doneLib _ 0 [] (by decide)).mpr
    (List.forall_mem_cons.mpr ⟨⟨"Starting\n", rfl, .inr (.inl ⟨_, loads_starting⟩)⟩,
      List.forall_mem_cons.mpr ⟨⟨"\n", rfl, .inl (by decide)⟩,
        List.forall_mem_singleton.mpr ⟨_, rfl, .inr (.inr ⟨_, loads_doneLine⟩)⟩⟩⟩)

/-- A worker prints a number after its result, and is never completed. -/
theorem completes_misses : ¬ ∀ (lib : JsonLib) (reads : List StdoutRead) (exitCode : ℤ)
    (stderrLines : List String), (∀ r ∈ reads, r.stop = false) →
    (∀ r ∈ reads, ∃ line, r.line = .ok line) →
    ∃ limited, (readStdout lib reads exitCode (reading stderrLines)).2.completions =
      [⟨exitCode, lastResult lib (reads.filterMap keptLine), limited⟩] := by
  intro h
  obtain ⟨limited, hcomplete⟩ := h doneLib
    [⟨.ok (doneLine ++ "\n"), false⟩, ⟨.ok "4\n", false⟩] 0 [] (by decide)
    (List.forall_mem_cons.mpr ⟨⟨_, rfl⟩, List.forall_mem_singleton.mpr ⟨_, rfl⟩⟩)
  have hnone : (readStdout doneLib [⟨.ok (doneLine ++ "\n"), false⟩, ⟨.ok "4\n", false⟩] 0
      (reading [])).2.completions = [] := by
    decide
  rw [hnone] at hcomplete
  cases hcomplete

end ClaudeProcess

end DiscordAgent
