import SourceScan.Proofs.Outcome
import SourceScan.Proofs.Pointing

/-!
# Proofs/Conversation.lean -- an input is answered line by line

A run without a file answers its input. Each line is a unit of its own, so what is printed for a line
depends on nothing but the line, and an input of whole lines is answered the same whatever comes
behind it. The answer to a line lists all its tokens or none, and every message in it is about the
first line of the unit, which has no other.

All this is about lines as they are handed over. That these are the lines of the input is assumed of
the reader, for the inputs in question (`ReadsLines`).

* `Answers render line printed`: what may be printed for a line.
* `answers_respondTo`: what is printed for a line without a newline is its answer.
* **`run_of_input`**: how a run over an input ends, what it prints for an input in two parts, and
  what it prints for an input of one line.
-/

namespace SourceScan

open Text

/-- An answer to a line: its tokens, one on a line, or none if a pass over the line fails; and its
    messages, under headers that name line 1 and the byte, counted from one, that a message is
    about. -/
structure Answers (render : Presentation) (line : List Char) (printed : Printed) : Prop where
  stdout_eq : printed.stdout = match (tokenize line .empty).2 with
    | some tokens => listing tokens
    | none => ""
  fails_iff : (tokenize line .empty).2 = none ↔
    anyError (tokenize line .empty).1.messages = true
  stderr_eq : printed.stderr =
    String.ofList (renderedAll (tokenize line .empty).1.messages "<repl>" line render)
  header_eq : ∀ m ∈ (tokenize line .empty).1.messages, ∃ strokes,
    m.header "<repl>" line =
      .styled .emphasis ("<repl>:1:".toList ++ Nat.toDigits 10 (m.position.start + 1)) :: strokes

/-- A message of a pass over a line is about a byte of it, and so about its first line. -/
theorem header_of_line {line : List Char} {m : Message} (h : '\n' ∉ line)
    (hm : m ∈ (tokenize line .empty).1.messages) : ∃ strokes, m.header "<repl>" line =
      .styled .emphasis ("<repl>:1:".toList ++ Nat.toDigits 10 (m.position.start + 1)) :: strokes := by
  have hadded : (tokenize line .empty).1.messages =
      Log.empty.messages ++ (tokenize line .empty).1.messages := rfl
  have hpoints := pointsInto_of_pointsAt (pointsAt_of_tokenize hadded hm)
  have hfirst : "<repl>".toList ++ [':'] ++ Nat.toDigits 10 1 ++ [':'] = "<repl>:1:".toList := by
    decide
  unfold Message.header
  rw [placeAt_of_notMem h (Nat.le_of_lt hpoints.start_lt), ← hfirst]
  exact ⟨_, rfl⟩

/-- **What is printed for a line is its answer.** -/
theorem answers_respondTo (render : Presentation) {line : List Char} (h : '\n' ∉ line) :
    Answers render line (respondTo render line) where
  stdout_eq := by
    have htokens : (respondTo render line).stdout =
        listing ((tokenize (String.ofList line).toList .empty).2.getD []) := rfl
    rw [htokens, String.toList_ofList]
    rcases (tokenize line .empty).2 with _ | tokens <;> rfl
  fails_iff := (disciplined_messages line).halts_iff
  stderr_eq := by
    have hrendered : (respondTo render line).stderr =
        (SourceUnit.ofSource "<repl>" (String.ofList line)).rendered render := rfl
    rw [hrendered, SourceUnit.rendered]
    show String.ofList (renderedAll (tokenize (String.ofList line).toList .empty).1.messages "<repl>"
      (String.ofList line).toList render) = _
    rw [String.toList_ofList]
  header_eq _ := header_of_line h

/-- A reader hands over the lines of an input without what ends them, and does not fail. -/
structure ReadsLines (reader : String → LinesRead) (input : String) : Prop where
  lines_eq : (reader input).lines = inputLines input.toList
  failure_eq : (reader input).failure = none

theorem readsLines_plainReader (input : String) : ReadsLines plainReader input :=
  ⟨rfl, rfl⟩

/-- A run over an input whose lines are handed over. -/
theorem runInput_of_readsLines {reader : String → LinesRead} {input : String}
    (h : ReadsLines reader input) (render : Presentation) :
    runInput reader render input = ⟨0, respondToAll render (inputLines input.toList)⟩ := by
  simp [runInput, LinesRead.report, h.lines_eq, h.failure_eq]

/-- What ends a line: a newline, which a carriage return ahead of it belongs to, or the end of the
    input. -/
def EndsLine (line ending : String) : Prop :=
  ending = "\n" ∧ line.toList.getLast? ≠ some '\r' ∨ ending = "\r\n" ∨ ending = "" ∧ line ≠ ""

/-- A line and its ending are an input of one line. -/
theorem inputLines_of_endsLine {line ending : String} (h : '\n' ∉ line.toList)
    (hends : EndsLine line ending) : inputLines (line ++ ending).toList = [line.toList] := by
  rw [String.toList_append]
  rcases hends with ⟨rfl, hreturn⟩ | rfl | ⟨rfl, hne⟩
  · have hline : withoutReturn line.toList = line.toList := if_neg hreturn
    rw [show "\n".toList = ['\n'] from rfl, inputLines_newline h, hline]
    rfl
  · have hline : '\n' ∉ line.toList ++ ['\r'] := by simpa using h
    rw [show "\r\n".toList = ['\r'] ++ ['\n'] from rfl, ← List.append_assoc,
      inputLines_newline hline, withoutReturn_append_return]
    rfl
  · rw [String.toList_empty, List.append_nil]
    exact inputLines_of_notMem h (by simpa using hne)

/-- **A run over an input** whose lines are handed over ends with code 0. Whole lines ahead of an
    input are answered as they are alone, and the input behind them is, too. A line that is not
    blank gets its answer. -/
theorem run_of_input {read : String → Except ReadFailure String} {reader : String → LinesRead}
    {terminal : Bool} {args : List String} {options : Options}
    (hargs : Options.ofArgs? args = some options) (hfile : options.file = none) :
    (∀ input, ReadsLines reader input → (run read reader terminal input args).code = 0) ∧
    (∀ front back : String, front = "" ∨ front.toList.getLast? = some '\n' →
      ReadsLines reader front → ReadsLines reader back → ReadsLines reader (front ++ back) →
      (run read reader terminal (front ++ back) args).printed =
        (run read reader terminal front args).printed.append
          (run read reader terminal back args).printed) ∧
    (∀ line ending : String, '\n' ∉ line.toList → EndsLine line ending →
      ReadsLines reader (line ++ ending) → isBlankLine line.toList = false →
      Answers (options.presentation terminal) line.toList
        (run read reader terminal (line ++ ending) args).printed) := by
  have hrun : ∀ input, ReadsLines reader input → run read reader terminal input args =
      ⟨0, respondToAll (options.presentation terminal) (inputLines input.toList)⟩ := by
    intro input hreads
    rw [run, hargs]
    simp only [hfile]
    exact runInput_of_readsLines hreads _
  refine ⟨fun input hreads => by rw [hrun input hreads], ?_, ?_⟩
  · intro front back hfront hreadsFront hreadsBack hreads
    rw [hrun _ hreads, hrun _ hreadsFront, hrun _ hreadsBack, String.toList_append,
      inputLines_append (hfront.imp_left fun h => h ▸ rfl)]
    exact respondToAll_append _ _ _
  · intro line ending h hends hreads hblank
    rw [hrun _ hreads, inputLines_of_endsLine h hends, respondToAll_singleton, respondUnlessBlank,
      if_neg (Bool.eq_false_iff.mp hblank)]
    exact answers_respondTo _ h

/-- A line that fails, ahead of one that ends in a carriage return and its newline. -/
theorem run_of_input_failing :
    Options.ofArgs? ["--color=always"] = some ⟨none, false, .text, .always, 0, false⟩ ∧
      (tokenize "'ab'".toList .empty).2 = none ∧
      (run (fun _ => .error .notFound) plainReader false "'ab'\na" ["--color=always"]).printed =
        (run (fun _ => .error .notFound) plainReader false "'ab'\n" ["--color=always"]).printed.append
          (run (fun _ => .error .notFound) plainReader false "a" ["--color=always"]).printed ∧
      Answers ⟨true, 0⟩ "'ab'".toList
        (run (fun _ => .error .notFound) plainReader false "'ab'\r\n" ["--color=always"]).printed := by
  have hargs : Options.ofArgs? ["--color=always"] =
      some ⟨none, false, .text, .always, 0, false⟩ := by decide +kernel
  have hreads := readsLines_plainReader
  obtain ⟨-, happend, hanswers⟩ :=
    @run_of_input (fun _ => .error .notFound) plainReader false _ _ hargs rfl
  refine ⟨hargs, by decide +kernel,
    happend "'ab'\n" "a" (.inr (by decide)) (hreads _) (hreads _) (hreads _), ?_⟩
  exact hanswers "'ab'" "\r\n" (by decide) (.inr (.inl rfl)) (hreads _) (by decide)

end SourceScan
