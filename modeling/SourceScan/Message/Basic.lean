import SourceScan.Message.Position

/-!
# Message/Basic.lean -- messages and the log they go to

* `Severity`: note, warning or error; only an error ends a scan.
* `Message`: one sentence about one position.
* `Log`: messages in the order in which they came. Nothing is taken out of a log.
-/

namespace SourceScan

/-- How grave a message is. -/
inductive Severity where
  | note
  | warning
  | error
deriving DecidableEq, Repr

namespace Severity

/-- The label of a severity. -/
def name : Severity → String
  | note => "note"
  | warning => "warning"
  | error => "error"

/-- Whether a scan ends with such a message. -/
def endsScan : Severity → Bool
  | error => true
  | _ => false

end Severity

/-- A sentence about a position. -/
structure Message where
  text : String
  severity : Severity
  position : Position
deriving DecidableEq, Repr

/-- Whether a list of messages holds an error. -/
def anyError (messages : List Message) : Bool :=
  messages.any fun m => m.severity.endsScan

/-- Messages in the order in which they came. -/
structure Log where
  messages : List Message
deriving DecidableEq, Repr

namespace Log

/-- The log without messages. -/
def empty : Log := ⟨[]⟩

/-- Add messages behind those of the log. -/
def append (log : Log) (messages : List Message) : Log :=
  ⟨log.messages ++ messages⟩

/-- Add one message. -/
def push (log : Log) (message : Message) : Log :=
  log.append [message]

/-- Add a warning. -/
def warn (log : Log) (text : String) (position : Position) : Log :=
  log.push ⟨text, .warning, position⟩

/-- Add an error. -/
def fail (log : Log) (text : String) (position : Position) : Log :=
  log.push ⟨text, .error, position⟩

/-- Whether the log holds an error. -/
def failed (log : Log) : Bool :=
  anyError log.messages

@[simp] theorem messages_append (log : Log) (messages : List Message) :
    (log.append messages).messages = log.messages ++ messages := rfl

end Log

end SourceScan
