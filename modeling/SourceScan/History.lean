import SourceScan.Json.Dump

/-!
# History.lean -- what is done to a unit

A unit is kept while it is worked on: it gets another name or another text, messages are added by
hand, passes are made, and its results are asked for in between.

* `UnitStep`: one thing done to a unit, and `UnitStep.run`: what it answers and leaves.
* `SourceUnit.after`: a unit after a history of steps.
-/

namespace SourceScan

/-- One thing done to a unit. -/
inductive UnitStep where
  | renew (name source : String)
  | setName (name : String)
  | setSource (source : String)
  | push (message : Message)
  | refresh
  | render (options : Presentation)
  | dump
deriving Repr

/-- What a step answers: nothing, whether a pass ended without an error, or a text. -/
inductive Reply where
  | nothing
  | flag (value : Bool)
  | text (value : String)
deriving DecidableEq, Repr

/-- Take a step. -/
def UnitStep.run (u : SourceUnit) : UnitStep → Reply × SourceUnit
  | renew name source => (.nothing, .fresh name source)
  | setName name => (.nothing, { u with name := name })
  | setSource source => (.nothing, { u with source := source })
  | push message => (.nothing, { u with messages := u.messages ++ [message] })
  | refresh => (.flag u.refresh.succeeded, u.refresh)
  | render options => (.text (u.rendered options), u)
  | dump => (.text u.dump, u)

/-- The unit after a history. -/
def SourceUnit.after (u : SourceUnit) (steps : List UnitStep) : SourceUnit :=
  steps.foldl (fun u step => (step.run u).2) u

/-- The last step is taken on what the others leave. -/
theorem SourceUnit.after_append_singleton (u : SourceUnit) (steps : List UnitStep)
    (step : UnitStep) : u.after (steps ++ [step]) = (step.run (u.after steps)).2 := by
  rw [after, List.foldl_append]
  rfl

end SourceScan
