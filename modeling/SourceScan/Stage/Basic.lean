import SourceScan.Stage.Fault

/-!
# Stage/Basic.lean -- a stage of scanning

A stage either has a result or fails with one fault; in both cases it may have warned before. So a
stage that fails reports exactly one error, behind all its warnings, and a stage that does not fail
reports none.

* `Stage α`: warnings and an outcome; stages are put in sequence by `>>=`, which joins the warnings.
* `Stage.bind_eq_ok`, `Stage.messages_bind_of_ok`: what stages in sequence come to and report.
* `Stage.messages`: what a stage reports.
* `Log.record`: a log after a stage, and the stage's result.
-/

namespace SourceScan

/-- What a stage of scanning comes to: its warnings, and a result or the failure. -/
structure Stage (α : Type) where
  warnings : List Oversize
  outcome : Except Failure α

namespace Stage

variable {α β : Type}

/-- A stage that fails. -/
def fail (fault : Fault) (position : Position) (stop : Nat) : Stage α :=
  ⟨[], .error ⟨fault, position, stop⟩⟩

/-- A stage that warns. -/
def warn (w : Oversize) : Stage Unit :=
  ⟨[w], .ok ()⟩

/-- A stage and one that goes on from its result; the second is not reached if the first fails. -/
def andThen (s : Stage α) (next : α → Stage β) : Stage β :=
  match s with
  | ⟨ws, .error h⟩ => ⟨ws, .error h⟩
  | ⟨ws, .ok a⟩ =>
    match next a with
    | ⟨ws', outcome⟩ => ⟨ws ++ ws', outcome⟩

instance : Monad Stage where
  pure a := ⟨[], .ok a⟩
  bind := andThen

@[simp] theorem pure_eq (a : α) : (pure a : Stage α) = ⟨[], .ok a⟩ := rfl

@[simp] theorem error_bind (ws : List Oversize) (h : Failure) (next : α → Stage β) :
    (⟨ws, .error h⟩ : Stage α) >>= next = ⟨ws, .error h⟩ := rfl

@[simp] theorem ok_bind (ws : List Oversize) (a : α) (next : α → Stage β) :
    (⟨ws, .ok a⟩ : Stage α) >>= next = ⟨ws ++ (next a).warnings, (next a).outcome⟩ := rfl

theorem andThen_assoc {γ : Type} (s : Stage α) (next : α → Stage β) (last : β → Stage γ) :
    (s >>= next) >>= last = s >>= fun a => next a >>= last := by
  obtain ⟨ws, outcome⟩ := s
  cases outcome with
  | error h => rfl
  | ok a =>
    rw [ok_bind, ok_bind]
    obtain ⟨ws', outcome⟩ := next a
    cases outcome with
    | error h => rfl
    | ok b => simp only [ok_bind, List.append_assoc]

instance : LawfulMonad Stage :=
  LawfulMonad.mk' Stage
    (fun s => by
      obtain ⟨ws, outcome⟩ := s
      cases outcome with
      | error h => rfl
      | ok a => exact congrArg (fun ws => (⟨ws, .ok a⟩ : Stage _)) (List.append_nil ws))
    (fun _ _ => rfl)
    andThen_assoc

theorem outcome_bind_of_ok {s : Stage α} {a : α} (h : s.outcome = .ok a) (next : α → Stage β) :
    (s >>= next).outcome = (next a).outcome := by
  obtain ⟨ws, outcome⟩ := s
  rw [show outcome = .ok a from h, ok_bind]

/-- **A result of two stages is one of the second, from the result of the first.** -/
theorem bind_eq_ok {s : Stage α} {next : α → Stage β} {b : β}
    (h : (s >>= next).outcome = .ok b) :
    ∃ a, s.outcome = .ok a ∧ (next a).outcome = .ok b := by
  obtain ⟨ws, outcome⟩ := s
  cases outcome with
  | error h' => cases h
  | ok a => exact ⟨a, rfl, h⟩

/-- The result, if the stage did not fail. -/
def result? (s : Stage α) : Option α :=
  s.outcome.toOption

/-- The messages a stage reports, in order: its warnings, and behind them the error if it fails. -/
def messages (s : Stage α) : List Message :=
  s.warnings.map Oversize.message ++
    match s.outcome with
    | .error h => [h.message]
    | .ok _ => []

theorem outcome_of_result? {s : Stage α} {a : α} (h : s.result? = some a) : s.outcome = .ok a := by
  obtain ⟨ws, outcome⟩ := s
  cases outcome with
  | error f => cases h
  | ok b => exact congrArg Except.ok (Option.some.inj h)

theorem result?_of_outcome {s : Stage α} {a : α} (h : s.outcome = .ok a) : s.result? = some a :=
  congrArg Except.toOption h

theorem outcome_of_result?_none {s : Stage α} (h : s.result? = none) :
    ∃ f, s.outcome = .error f := by
  obtain ⟨ws, outcome⟩ := s
  cases outcome with
  | error f => exact ⟨f, rfl⟩
  | ok a => cases h

theorem message_mem_of_error {s : Stage α} {f : Failure} (h : s.outcome = .error f) :
    f.message ∈ s.messages := by
  obtain ⟨ws, outcome⟩ := s
  obtain rfl : outcome = .error f := h
  exact List.mem_append_right _ (List.mem_singleton_self _)

/-- A stage that does not fail reports warnings only. -/
theorem severity_of_ok {s : Stage α} {a : α} {m : Message} (h : s.outcome = .ok a)
    (hm : m ∈ s.messages) : m.severity = .warning := by
  obtain ⟨ws, outcome⟩ := s
  obtain rfl : outcome = .ok a := h
  rw [messages, List.append_nil] at hm
  obtain ⟨w, -, rfl⟩ := List.mem_map.mp hm
  rfl

/-- What would come behind a stage that fails is not reached. -/
theorem bind_of_error {s : Stage α} {f : Failure} (h : s.outcome = .error f)
    (next : α → Stage α) : s >>= next = s := by
  obtain ⟨ws, outcome⟩ := s
  obtain rfl : outcome = .error f := h
  rfl

theorem result?_bind_of_ok {s : Stage α} {a : α} (h : s.outcome = .ok a) (next : α → Stage β) :
    (s >>= next).result? = (next a).result? := by
  rw [result?, outcome_bind_of_ok h, result?]

theorem result?_bind_pure (s : Stage α) (f : α → β) :
    (s >>= fun a => pure (f a)).result? = s.result?.map f := by
  obtain ⟨ws, outcome⟩ := s
  cases outcome <;> rfl

theorem messages_bind_of_ok {s : Stage α} {a : α} (h : s.outcome = .ok a) (next : α → Stage β) :
    (s >>= next).messages = s.messages ++ (next a).messages := by
  obtain ⟨ws, outcome⟩ := s
  obtain rfl : outcome = .ok a := h
  rw [ok_bind]
  simp only [messages, List.map_append, List.append_nil, List.append_assoc]

theorem messages_bind_pure (s : Stage α) (f : α → β) :
    (s >>= fun a => pure (f a)).messages = s.messages := by
  obtain ⟨ws, outcome⟩ := s
  cases outcome with
  | error h => rfl
  | ok a => rw [messages_bind_of_ok rfl]; exact List.append_nil _

end Stage

/-- A log after a stage, and the result of the stage. -/
def Log.record {α : Type} (log : Log) (s : Stage α) : Log × Option α :=
  (log.append s.messages, s.result?)

end SourceScan
