import SourceScan.History
import SourceScan.Program.Run
import SourceScan.Proofs.Discipline

/-!
# Proofs/Outcome.lean -- what comes of a pass

The outcome of a pass shows in several places: in the results of a unit, in what a scan gives, in
the code and the last line of a run. All of them are views of one pass, and they agree because a
pass that halts has reported exactly one error, its last message.

* `SourceUnit.Settled`: the results of a unit are those of a pass over its text, and they agree.
* **`settled_after`**: whatever has been done to a unit, it is settled after one more pass, and a
  second pass changes nothing.
* **`run_of_file`**: how a run over a readable file ends and what it prints.
-/

namespace SourceScan

open Text

/-! ## 1. One pass -/

/-- What a pass reports on its own is disciplined. -/
theorem disciplined_messages (source : List Char) :
    Disciplined (tokenize source .empty).2 (tokenize source .empty).1.messages := by
  obtain ⟨outcome, stop, added, hrun, hd⟩ := orderly_tokens (Bytes.of source) 0
  rw [tokenize, hrun]
  exact hd

/-- A disciplined call that halts has one error to count, any other call none. -/
theorem Disciplined.length_errors {α : Type} {outcome : Option α} {added : List Message}
    (h : Disciplined outcome added) :
    (added.filter fun m => m.severity.endsScan).length = if outcome.isSome then 0 else 1 := by
  have hnone : ∀ ms : List Message, (∀ w ∈ ms, w.severity = .warning) →
      ms.filter (fun m => m.severity.endsScan) = [] := by
    intro ms hms
    refine List.filter_eq_nil_iff.mpr fun w hw => ?_
    rw [hms w hw]
    exact Bool.false_ne_true
  cases outcome with
  | none =>
    obtain ⟨ws, e, rfl, he, hws⟩ := h.error_last rfl
    rw [List.filter_append, hnone ws hws, List.filter_cons, he]
    rfl
  | some a => rw [hnone added (h.only_warnings a rfl)]; rfl

/-! ## 2. Units -/

namespace SourceUnit

/-- The results of a unit are those of a pass over its text, and its fields agree about them. -/
structure Settled (u : SourceUnit) : Prop where
  eq_ofSource : u = .ofSource u.name u.source
  succeeded_iff : u.succeeded = true ↔ u.anyError = false
  tokens_eq_nil : u.succeeded = false → u.tokens = []
  error_last : u.succeeded = false → ∃ warnings error, u.messages = warnings ++ [error] ∧
    error.severity = .error ∧ ∀ w ∈ warnings, w.severity = .warning
  lineCount_eq : u.lineCount = u.source.toList.count '\n' + 1
  tokensOrMessages_eq : tokensOrMessages u.source.toList =
    if u.succeeded then .ok u.tokens else .error u.messages

/-- **After a pass a unit is settled.** -/
theorem settled_refresh (u : SourceUnit) : u.refresh.Settled := by
  have hd := disciplined_messages u.source.toList
  have hsome : u.refresh.succeeded = (tokenize u.source.toList .empty).2.isSome := rfl
  have hnone : u.refresh.succeeded = false → (tokenize u.source.toList .empty).2 = none :=
    fun h => Option.isSome_eq_false_iff.mp (hsome ▸ h) |> Option.isNone_iff_eq_none.mp
  refine ⟨rfl, ?_, fun h => ?_, fun h => hd.error_last (hnone h), rfl, ?_⟩
  · have hhalts := hd.halts_iff
    rw [hsome]
    change _ ↔ SourceScan.anyError (tokenize u.source.toList .empty).1.messages = false
    rw [← Bool.not_eq_true, ← hhalts, Option.isSome_iff_ne_none]
  · show (tokenize u.source.toList .empty).2.getD [] = []
    rw [hnone h]
    rfl
  · show tokensOrMessages u.source.toList = if (tokenize u.source.toList .empty).2.isSome
      then .ok ((tokenize u.source.toList .empty).2.getD [])
      else .error (tokenize u.source.toList .empty).1.messages
    rw [tokensOrMessages]
    rcases tokenize u.source.toList .empty with ⟨log, _ | tokens⟩ <;> rfl

/-- **Whatever has been done to a unit, one more pass settles it**: its results are those of a pass
    over the text it has got, all views of them agree, and another pass changes nothing. -/
theorem settled_after (u : SourceUnit) (steps : List UnitStep) :
    (u.after (steps ++ [.refresh])).Settled ∧
    (u.after (steps ++ [.refresh])).name = (u.after steps).name ∧
    (u.after (steps ++ [.refresh])).source = (u.after steps).source ∧
    (UnitStep.run (u.after steps) .refresh).1 = .flag (u.after (steps ++ [.refresh])).succeeded ∧
    u.after (steps ++ [.refresh, .refresh]) = u.after (steps ++ [.refresh]) := by
  have hlast : u.after (steps ++ [.refresh]) = (u.after steps).refresh :=
    after_append_singleton u steps .refresh
  have hagain : u.after (steps ++ [.refresh, .refresh]) = (u.after steps).refresh.refresh := by
    rw [← hlast, ← List.singleton_append, ← List.append_assoc]
    exact after_append_singleton u (steps ++ [.refresh]) .refresh
  rw [hagain, hlast]
  exact ⟨settled_refresh _, rfl, rfl, rfl, rfl⟩

/-- A unit with an error has one. -/
theorem errorCount_refresh (u : SourceUnit) (h : u.refresh.succeeded = false) :
    u.refresh.errorCount = 1 := by
  have hcount := (disciplined_messages u.source.toList).length_errors
  rw [show (tokenize u.source.toList .empty).2.isSome = false from h] at hcount
  exact hcount

end SourceUnit

/-! ## 3. Runs over a file -/

/-- A text is the content of its own bytes. -/
theorem decodeText_toUTF8 (content : String) : decodeText content.toUTF8 = .ok content := by
  have hread : String.fromUTF8? content.toUTF8 = some content := dif_pos content.isValidUTF8
  rw [decodeText, hread]

/-- The last line about a unit after a pass counts one error, if it counts any. -/
theorem errorSummary_ofSource {name source : String}
    (h : (SourceUnit.ofSource name source).succeeded = false) :
    errorSummary (.ofSource name source) = "Error: 1 error(s)\n" := by
  have hcount : (SourceUnit.ofSource name source).errorCount = 1 :=
    SourceUnit.errorCount_refresh _ h
  rw [errorSummary, hcount]
  rfl

/-- **A run over a readable file** ends with code 1 if a pass over its content records an error, and
    with 0 otherwise. The error is counted in the last line, behind the rendered messages in text
    format and alone in JSON format; tokens are listed only in text format, on request, and only if
    the code is 0. -/
theorem run_of_file {read : String → Except ReadFailure String} {reader : String → LinesRead}
    {terminal : Bool} {input : String} {args : List String} {options : Options}
    {path content : String}
    (hargs : Options.ofArgs? args = some options) (hfile : options.file = some path)
    (_hfancy : options.fancy = false) (hread : read path = decodeText content.toUTF8) :
    let outcome := run read reader terminal input args
    let u := SourceUnit.ofSource path content
    let ending := if outcome.code = 0 then "" else "Error: 1 error(s)\n"
    outcome.code = (if anyError (tokenize content.toList .empty).1.messages then 1 else 0) ∧
    outcome.printed = match options.format with
      | .text => ⟨if options.dumpTokens ∧ outcome.code = 0 then listing u.tokens else "",
          u.rendered (options.presentation terminal) ++ ending⟩
      | .json => ⟨u.dump ++ "\n", ending⟩ := by
  intro outcome u ending
  have houtcome : outcome = runFile options (options.presentation terminal) path (.ok content) := by
    show run read reader terminal input args = _
    rw [run, hargs]
    simp only [hfile, hread, decodeText_toUTF8]
  have hsettled : u.Settled := SourceUnit.settled_refresh (.fresh path content)
  have hrun : outcome = if u.succeeded then ⟨0, printedUnit options _ u⟩
      else ⟨1, (printedUnit options _ u).append ⟨"", errorSummary u⟩⟩ := houtcome
  have herrors : anyError (tokenize content.toList .empty).1.messages = u.anyError := rfl
  cases hsucceeded : u.succeeded with
  | true =>
    rw [hsucceeded, if_pos rfl] at hrun
    have hcode : outcome.code = 0 := congrArg Outcome.code hrun
    rw [herrors, hsettled.succeeded_iff.mp hsucceeded]
    refine ⟨hcode, ?_⟩
    rw [show ending = "" from if_pos hcode, hcode, hrun, printedUnit, hsucceeded]
    cases options.format <;> simp
  | false =>
    rw [hsucceeded, if_neg Bool.false_ne_true] at hrun
    have hcode : outcome.code = 1 := congrArg Outcome.code hrun
    have hany : u.anyError = true := by
      rw [← Bool.not_eq_false, ← hsettled.succeeded_iff, hsucceeded]
      exact Bool.false_ne_true
    rw [herrors, hany]
    refine ⟨hcode, ?_⟩
    rw [show ending = "Error: 1 error(s)\n" from if_neg (hcode ▸ Nat.one_ne_zero), hcode, hrun,
      errorSummary_ofSource hsucceeded, printedUnit, hsucceeded]
    cases options.format <;> simp [Printed.append]

/-- A file that holds a character literal out of range, and then an open string: a warning and an
    error, of which the error counts. -/
theorem run_of_file_warned :
    (SourceUnit.ofSource "a.dtn" "'\\999'\"").messages.map Message.severity = [.warning, .error] ∧
      run (fun _ => decodeText "'\\999'\"".toUTF8) plainReader false ""
          ["--dump-tokens", "--format=text", "a.dtn"] =
        ⟨1, "", (SourceUnit.ofSource "a.dtn" "'\\999'\"").rendered ⟨false, 0⟩ ++
          "Error: 1 error(s)\n"⟩ := by
  have hmessages : (SourceUnit.ofSource "a.dtn" "'\\999'\"").messages.map Message.severity =
      [.warning, .error] := by decide +kernel
  have hany : anyError (tokenize "'\\999'\"".toList .empty).1.messages = true := by decide +kernel
  have hargs : Options.ofArgs? ["--dump-tokens", "--format=text", "a.dtn"] =
      some ⟨some "a.dtn", true, .text, .auto, 0, false⟩ := by decide +kernel
  obtain ⟨hcode, hprinted⟩ := @run_of_file (fun _ => decodeText "'\\999'\"".toUTF8) plainReader
    false "" _ _ "a.dtn" "'\\999'\"" hargs rfl rfl rfl
  rw [hany, if_pos rfl] at hcode
  have hboth : ∀ (outcome : Outcome) printed, outcome.code = 1 → outcome.printed = printed →
      outcome = ⟨1, printed⟩ := by
    rintro ⟨code, printed⟩ _ rfl rfl
    rfl
  rw [hcode] at hprinted
  exact ⟨hmessages, hboth _ _ hcode hprinted⟩

end SourceScan
