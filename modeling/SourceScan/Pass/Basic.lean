import SourceScan.Stage.Fault

/-!
# Pass/Basic.lean -- going over a text with a log

A pass stands at an offset and writes to one log. Its parts hand both on to each other, and each
comes to a result or halts. Nothing in the type of a part says that one which halts has reported
why, or that it reported no more than one error.

* `Pass α`: from the progress made so far to the progress after it, and a result unless it halts.
* `Pass.fatal`, `Pass.warn`: the two ways to report.
* `Steps`, `Steps.all`: a step that is taken again until it is the last. A step that is not the last
  goes forward inside the text, so the steps come to an end.
-/

namespace SourceScan

/-- How far a pass has come: the offset it stands at, and its log. -/
structure Progress where
  offset : Nat
  log : Log
deriving DecidableEq, Repr

/-- A part of a pass. It has no result if it halts. -/
structure Pass (α : Type) where
  run : Progress → Option α × Progress

namespace Pass

variable {α β : Type}

/-- A part and one that goes on from its result; the second is not reached if the first halts. -/
def andThen (x : Pass α) (next : α → Pass β) : Pass β where
  run p :=
    match x.run p with
    | (some a, q) => (next a).run q
    | (none, q) => (none, q)

instance : Monad Pass where
  pure a := ⟨fun p => (some a, p)⟩
  bind := andThen

/-- The offset the pass stands at. -/
def offset : Pass Nat where
  run p := (some p.offset, p)

/-- Go to an offset. -/
def moveTo (target : Nat) : Pass Unit where
  run p := (some (), { p with offset := target })

/-- Report an oversize escape and go on. -/
def warn (w : Oversize) : Pass Unit where
  run p := (some (), { p with log := p.log.push w.message })

/-- Report a fault and halt. -/
def fatal (fault : Fault) (position : Position) : Pass α where
  run p := (none, { p with log := p.log.fail fault.text position })

@[simp] theorem run_pure (a : α) (p : Progress) : (pure a : Pass α).run p = (some a, p) := rfl

@[simp] theorem run_offset (p : Progress) : offset.run p = (some p.offset, p) := rfl

@[simp] theorem run_moveTo (target : Nat) (p : Progress) :
    (moveTo target).run p = (some (), ⟨target, p.log⟩) := rfl

@[simp] theorem run_warn (w : Oversize) (p : Progress) :
    (warn w).run p = (some (), ⟨p.offset, p.log.push w.message⟩) := rfl

@[simp] theorem run_fatal (fault : Fault) (position : Position) (p : Progress) :
    (fatal fault position : Pass α).run p = (none, ⟨p.offset, p.log.fail fault.text position⟩) := rfl

theorem run_bind (x : Pass α) (next : α → Pass β) (p : Progress) :
    (x >>= next).run p =
      match x.run p with
      | (some a, q) => (next a).run q
      | (none, q) => (none, q) := rfl

theorem run_bind_some {x : Pass α} {p q : Progress} {a : α} (h : x.run p = (some a, q))
    (next : α → Pass β) : (x >>= next).run p = (next a).run q := by
  rw [run_bind, h]

theorem run_bind_none {x : Pass α} {p q : Progress} (h : x.run p = (none, q))
    (next : α → Pass β) : (x >>= next).run p = (none, q) := by
  rw [run_bind, h]

/-- **A result of two parts is one of the second, from the result and progress of the first.** -/
theorem run_bind_eq_some {x : Pass α} {next : α → Pass β} {p q : Progress} {b : β}
    (h : (x >>= next).run p = (some b, q)) :
    ∃ a r, x.run p = (some a, r) ∧ (next a).run r = (some b, q) := by
  cases hx : x.run p with
  | mk result r =>
    cases result with
    | none =>
      rw [run_bind_none hx] at h
      cases h
    | some a =>
      rw [run_bind_some hx] at h
      exact ⟨a, r, rfl, h⟩

theorem andThen_pure (x : Pass α) : x >>= pure = x := by
  refine congrArg Pass.mk (funext fun p => ?_)
  show (x >>= pure).run p = x.run p
  rw [run_bind]
  rcases x.run p with ⟨_ | a, q⟩ <;> rfl

theorem andThen_assoc {γ : Type} (x : Pass α) (next : α → Pass β) (last : β → Pass γ) :
    (x >>= next) >>= last = x >>= fun a => next a >>= last := by
  refine congrArg Pass.mk (funext fun p => ?_)
  show ((x >>= next) >>= last).run p = (x >>= fun a => next a >>= last).run p
  rw [run_bind, run_bind, run_bind]
  rcases x.run p with ⟨_ | a, q⟩ <;> rfl

instance : LawfulMonad Pass :=
  LawfulMonad.mk' Pass andThen_pure (fun _ _ => rfl) andThen_assoc

end Pass

/-- A step over a text of `size` bytes. It yields some items, or nothing if it is the last; it never
    goes back, and one that is not the last begins inside the text and goes forward. -/
structure Steps (size : Nat) (α : Type) where
  step : Pass (Option (List α))
  le_of_last : ∀ {p q}, step.run p = (some none, q) → p.offset ≤ q.offset
  lt_of_items : ∀ {p q items}, step.run p = (some (some items), q) →
    p.offset < size ∧ p.offset < q.offset

namespace Steps

variable {size : Nat} {α : Type}

/-- The items of all steps from a point on. -/
def collect (s : Steps size α) (p : Progress) : Option (List α) × Progress :=
  match _h : s.step.run p with
  | (none, q) => (none, q)
  | (some none, q) => (some [], q)
  | (some (some items), q) =>
    match s.collect q with
    | (some rest, r) => (some (items ++ rest), r)
    | (none, r) => (none, r)
termination_by size - p.offset
decreasing_by
  have := s.lt_of_items _h
  omega

/-- All steps, the last included: the items of one behind those of another. -/
def all (s : Steps size α) : Pass (List α) where
  run := s.collect

/-- All steps are one step and then, unless it was the last, all steps. -/
theorem all_eq (s : Steps size α) :
    s.all = s.step >>= fun
      | none => pure []
      | some items => s.all >>= fun rest => pure (items ++ rest) := by
  have run_eq : ∀ p, s.all.run p = (s.step >>= fun
      | none => pure []
      | some items => s.all >>= fun rest => pure (items ++ rest)).run p := by
    intro p
    show s.collect p = _
    rw [collect]
    split
    · next q h => rw [Pass.run_bind_none h]
    · next q h => rw [Pass.run_bind_some h, Pass.run_pure]
    · next items q h =>
      rw [Pass.run_bind_some h, Pass.run_bind, show s.all.run q = s.collect q from rfl]
      rcases s.collect q with ⟨_ | rest, r⟩ <;> rfl
  exact congrArg Pass.mk (funext run_eq)

theorem run_all_none {s : Steps size α} {p q : Progress} (h : s.step.run p = (none, q)) :
    s.all.run p = (none, q) := by
  rw [all_eq]
  exact Pass.run_bind_none h _

theorem run_all_last {s : Steps size α} {p q : Progress} (h : s.step.run p = (some none, q)) :
    s.all.run p = (some [], q) := by
  rw [all_eq]
  exact Pass.run_bind_some h _

theorem run_all_items {s : Steps size α} {p q : Progress} {items : List α}
    (h : s.step.run p = (some (some items), q)) :
    s.all.run p = (s.all >>= fun rest => pure (items ++ rest)).run q :=
  (congrArg (fun x : Pass (List α) => x.run p) s.all_eq).trans (Pass.run_bind_some h _)

/-- All steps, if the next yields what becomes of a part's result. -/
theorem run_all_bind {β : Type} {s : Steps size α} {p : Progress} {x : Pass β}
    {items : β → List α} (h : s.step.run p = (x >>= fun a => pure (some (items a))).run p) :
    s.all.run p = (x >>= fun a => s.all >>= fun rest => pure (items a ++ rest)).run p := by
  cases hrun : x.run p with
  | mk result q =>
    cases result with
    | none =>
      rw [Pass.run_bind_none hrun] at h ⊢
      exact run_all_none h
    | some a =>
      rw [Pass.run_bind_some hrun] at h ⊢
      exact run_all_items h

/-- Steps do not go back. -/
theorem le_of_all (s : Steps size α) {p q : Progress} {items : List α}
    (h : s.all.run p = (some items, q)) : p.offset ≤ q.offset := by
  rw [all_eq] at h
  obtain ⟨result, r, hstep, hrest⟩ := Pass.run_bind_eq_some h
  cases result with
  | none =>
    cases hrest
    exact s.le_of_last hstep
  | some first =>
    obtain ⟨rest, t, hall, heq⟩ := Pass.run_bind_eq_some hrest
    have hlt := s.lt_of_items hstep
    cases heq
    have := s.le_of_all hall
    omega
termination_by size - p.offset

end Steps

end SourceScan
