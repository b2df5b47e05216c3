import Harmonia.Io.Gather
import Harmonia.Io.Honest

/-!
# Functions that write

An `async fn` that does nothing but write to one writer, by `write_all` and `copy_buf`, is the list of what it
still has to write. Whatever is pending in between, what the writer has taken and what is still to be written
make up what was to be written; and over a writer and readers that do not fail, the list is written.
-/

namespace Harmonia

/-- One thing to write. -/
inductive WriteStep (S : Type) where
  /-- `write_all`. -/
  | put (slice : Bytes)
  /-- `copy_buf`. -/
  | copy (reader : S)
  /-- An error is returned. -/
  | stop (error : IoError)

namespace WriteStep

variable {S W : Type}

section Polls

variable [AsyncBufRead S]

/-- A bound on the turns that a step takes. -/
def size : WriteStep S → Nat
  | put slice => slice.length + 1
  | copy reader => budget reader + 1
  | stop _ => 1

/-- A bound on the turns that steps take. -/
def sizes (steps : List (WriteStep S)) : Nat := (steps.map size).sum

/-- The error of `write_all` and `copy_buf` over a writer that takes nothing. -/
def takesNothing : IoError := ⟨.writeZero, "write zero"⟩

variable [AsyncWrite W]

/-- Take one step after the other until the writer or a reader is pending. -/
def pollSteps : Nat → List (WriteStep S) × W → Poll Unit × (List (WriteStep S) × W)
  | 0, this => (.panic, this)
  | _ + 1, ([], writer) => (.ready (), [], writer)
  | _ + 1, (stop error :: rest, writer) => (.error error, stop error :: rest, writer)
  | turns + 1, (put slice :: rest, writer) =>
    if slice = [] then pollSteps turns (rest, writer)
    else
      match pollWrite writer slice with
      | (.ready n, writer) =>
        if slice.length < n then (.panic, put slice :: rest, writer)
        else if n = 0 then (.error takesNothing, put slice :: rest, writer)
        else pollSteps turns (put (slice.drop n) :: rest, writer)
      | (.pending, writer) => (.pending, put slice :: rest, writer)
      | (.error error, writer) => (.error error, put slice :: rest, writer)
      | (.panic, writer) => (.panic, put slice :: rest, writer)
  | turns + 1, (copy reader :: rest, writer) =>
    match pollFillBuf reader with
    | (.ready buf, reader) =>
      if buf = [] then
        match pollFlush writer with
        | (.ready (), writer) => pollSteps turns (rest, writer)
        | (.pending, writer) => (.pending, copy reader :: rest, writer)
        | (.error error, writer) => (.error error, copy reader :: rest, writer)
        | (.panic, writer) => (.panic, copy reader :: rest, writer)
      else
        match pollWrite writer buf with
        | (.ready n, writer) =>
          if n = 0 then (.error takesNothing, copy reader :: rest, writer)
          else
            match consume reader n with
            | some reader => pollSteps turns (copy reader :: rest, writer)
            | none => (.panic, copy reader :: rest, writer)
        | (.pending, writer) => (.pending, copy reader :: rest, writer)
        | (.error error, writer) => (.error error, copy reader :: rest, writer)
        | (.panic, writer) => (.panic, copy reader :: rest, writer)
    | (.pending, reader) => (.pending, copy reader :: rest, writer)
    | (.error error, reader) => (.error error, copy reader :: rest, writer)
    | (.panic, reader) => (.panic, copy reader :: rest, writer)

/-- Poll the function. -/
def poll (this : List (WriteStep S) × W) : Poll Unit × (List (WriteStep S) × W) :=
  pollSteps (sizes this.1 + 1) this

end Polls

end WriteStep

namespace WriteStep

variable {S W : Type} [AsyncBufRead S] [LawfulBufRead S] [AsyncWrite W]

/-- What a step is to write. -/
def content : WriteStep S → Bytes
  | put slice => slice
  | copy reader => view.unread reader
  | stop _ => []

/-- What steps are to write. -/
def contents (steps : List (WriteStep S)) : Bytes := steps.flatMap content

/-- The reader of a step is sound. -/
def Valid : WriteStep S → Prop
  | copy reader => view.Valid reader
  | _ => True

/-- A step that does not fail by itself. -/
def Regular : WriteStep S → Prop
  | put _ => True
  | copy reader => view.Regular reader
  | stop _ => False

/-- Steps that are what they should be, and write these bytes. -/
structure Writing (bytes : Bytes) (steps : List (WriteStep S)) : Prop where
  /-- The readers are sound. -/
  valid : ∀ step ∈ steps, step.Valid
  /-- No step fails by itself. -/
  regular : ∀ step ∈ steps, step.Regular
  /-- What is written. -/
  joined : contents steps = bytes

/-- There is nothing to write. -/
theorem Writing.nil : Writing [] ([] : List (WriteStep S)) := ⟨List.forall_mem_nil _, List.forall_mem_nil _, rfl⟩

/-- One step and those behind it. -/
theorem Writing.cons {bytes : Bytes} {steps : List (WriteStep S)} (later : Writing bytes steps)
    (step : WriteStep S) (valid : step.Valid) (regular : step.Regular) :
    Writing (step.content ++ bytes) (step :: steps) := by
  refine ⟨List.forall_mem_cons.mpr ⟨valid, later.valid⟩, List.forall_mem_cons.mpr ⟨regular, later.regular⟩, ?_⟩
  rw [← later.joined]
  rfl

/-- What polling the steps does. -/
inductive Scripted (honesty : Honesty W) (steps : List (WriteStep S)) (this : W) :
    Poll Unit × (List (WriteStep S) × W) → Prop
  | ready {next : W} (sent : written next = written this ++ contents steps) (honest : honesty.Honest next) :
    Scripted honesty steps this (.ready (), [], next)
  | pending {steps' : List (WriteStep S)} {next : W}
    (sent : written next ++ contents steps' = written this ++ contents steps)
    (honest : honesty.Honest next) (valid : ∀ step ∈ steps', step.Valid) :
    Scripted honesty steps this (.pending, steps', next)
  | error {error : IoError} {state : List (WriteStep S) × W} : Scripted honesty steps this (.error error, state)

/-- Polling goes on where a turn has left it. -/
theorem Scripted.of_next {honesty : Honesty W} {steps steps' : List (WriteStep S)} {this next : W}
    {result : Poll Unit × (List (WriteStep S) × W)}
    (moved : written next ++ contents steps' = written this ++ contents steps)
    (later : Scripted honesty steps' next result) : Scripted honesty steps this result := by
  cases later with
  | ready sent honest => exact .ready (sent.trans moved) honest
  | pending sent honest valid => exact .pending (sent.trans moved) honest valid
  | error => exact .error

/-- Polling the steps. -/
theorem pollSteps_scripted (honesty : Honesty W) (turns : Nat) {steps : List (WriteStep S)} {this : W}
    (enough : sizes steps < turns) (honest : honesty.Honest this) (valid : ∀ step ∈ steps, step.Valid) :
    Scripted honesty steps this (pollSteps turns (steps, this)) := by
  induction turns generalizing steps this with
  | zero => exact absurd enough (Nat.not_lt_zero _)
  | succ turns ih =>
    cases steps with
    | nil => exact .ready (List.append_nil _).symm honest
    | cons step rest =>
      obtain ⟨sound, others⟩ := List.forall_mem_cons.mp valid
      have split : sizes (step :: rest) = step.size + sizes rest := rfl
      have all (step : WriteStep S) : contents (step :: rest) = step.content ++ contents rest := rfl
      cases step with
      | stop error => exact .error
      | put slice =>
        have length : (put slice : WriteStep S).size = slice.length + 1 := rfl
        rw [pollSteps]
        by_cases none : slice = []
        · rw [if_pos none]
          refine .of_next ?_ (ih (by omega) honest others)
          rw [none]
          rfl
        · rw [if_neg none]
          have wrote := honesty.wrote honest none
          generalize pollWrite this slice = result at wrote
          cases wrote with
          | @ready next n within taken honest =>
            simp only
            rw [if_neg (Nat.not_lt_of_le within)]
            by_cases zero : n = 0
            · rw [if_pos zero]
              exact .error
            · rw [if_neg zero]
              have shorter : (put (slice.drop n) : WriteStep S).size + n ≤ (put slice : WriteStep S).size := by
                show (slice.drop n).length + 1 + n ≤ slice.length + 1
                rw [List.length_drop]
                omega
              have fewer : sizes (put (slice.drop n) :: rest) < turns := by
                show (put (slice.drop n)).size + sizes rest < turns
                omega
              refine .of_next ?_ (ih fewer honest (List.forall_mem_cons.mpr ⟨trivial, others⟩))
              rw [taken, all, all, List.append_assoc, content, content, ← List.append_assoc (slice.take n),
                List.take_append_drop]
          | pending same honest => exact .pending (same ▸ rfl) honest valid
          | error => exact .error
      | copy reader =>
        have length : (copy reader : WriteStep S).size = budget reader + 1 := rfl
        rw [pollSteps]
        have filled := fills sound
        generalize pollFillBuf reader = result at filled
        cases filled with
        | @ready next kept regular same bounded ends =>
          have spent := kept.budget
          have still : (copy next : WriteStep S).content = (copy reader : WriteStep S).content := kept.unread
          simp only
          by_cases none : view.visible next = []
          · rw [if_pos none]
            have nothing : (copy next : WriteStep S).content = [] := by
              show view.unread next = []
              rw [View.unread, none, ends none, List.nil_append]
            have emptied := honesty.flushed honest
            generalize pollFlush this = below at emptied
            cases emptied with
            | @ready writer same' honest =>
              refine .of_next ?_ (ih (by omega) honest others)
              rw [same', all, ← still, nothing, List.nil_append]
            | @pending writer same' honest =>
              refine .pending ?_ honest (List.forall_mem_cons.mpr ⟨kept.valid, others⟩)
              rw [same', all, all, still]
            | error => exact .error
          · rw [if_neg none]
            have wrote := honesty.wrote honest none
            generalize pollWrite this (view.visible next) = below at wrote
            cases wrote with
            | @ready writer n within taken honest =>
              simp only
              by_cases zero : n = 0
              · rw [if_pos zero]
                exact .error
              · rw [if_neg zero]
                obtain ⟨after, took, valid', -, -, left, -, -, cost⟩ := consumes_unread kept.valid within
                rw [took]
                have fewer : sizes (copy after :: rest) < turns := by
                  show budget after + 1 + sizes rest < turns
                  omega
                refine .of_next ?_ (ih fewer honest (List.forall_mem_cons.mpr ⟨valid', others⟩))
                have begun : (view.visible next).take n = (view.unread next).take n := by
                  rw [View.unread, List.take_append_of_le_length within]
                rw [taken, all, all, ← still, content, content, left, begun, List.append_assoc,
                  ← List.append_assoc ((view.unread next).take n), List.take_append_drop]
            | @pending writer same' honest =>
              refine .pending ?_ honest (List.forall_mem_cons.mpr ⟨kept.valid, others⟩)
              rw [same', all, all, still]
            | error => exact .error
        | @pending next kept regular same less =>
          refine .pending ?_ honest (List.forall_mem_cons.mpr ⟨kept.valid, others⟩)
          rw [all, all, show (copy next : WriteStep S).content = _ from kept.unread]
          rfl
        | error => exact .error

/-! ## Steps that do not fail -/

variable [SteadyWrite W] [PatientWrite W] [LawfulPatience W]

/-- What polling steps that do not fail does, over a writer that does not fail. -/
inductive Runs (steps : List (WriteStep S)) (this : W) : Poll Unit × (List (WriteStep S) × W) → Prop
  | ready {next : W} (steady : Steady next) : Runs steps this (.ready (), [], next)
  | pending {steps' : List (WriteStep S)} {next : W} (steady : Steady next)
    (regular : ∀ step ∈ steps', step.Regular) (less : sizes steps' + turns next < sizes steps + turns this) :
    Runs steps this (.pending, steps', next)

omit [LawfulPatience W] in
/-- Polling goes on where a turn has left it. -/
theorem Runs.of_next {steps steps' : List (WriteStep S)} {this next : W}
    {result : Poll Unit × (List (WriteStep S) × W)}
    (spent : sizes steps' + turns next ≤ sizes steps + turns this) (later : Runs steps' next result) :
    Runs steps this result := by
  cases later with
  | ready steady => exact .ready steady
  | pending steady regular less => exact .pending steady regular (Nat.lt_of_lt_of_le less spent)

/-- Polling steps that do not fail. -/
theorem pollSteps_runs (rounds : Nat) {steps : List (WriteStep S)} {this : W} (enough : sizes steps < rounds)
    (steady : Steady this) (valid : ∀ step ∈ steps, step.Valid) (regular : ∀ step ∈ steps, step.Regular) :
    Runs steps this (pollSteps rounds (steps, this)) := by
  induction rounds generalizing steps this with
  | zero => exact absurd enough (Nat.not_lt_zero _)
  | succ rounds ih =>
    cases steps with
    | nil => exact .ready steady
    | cons step rest =>
      obtain ⟨sound, others⟩ := List.forall_mem_cons.mp valid
      obtain ⟨calm, calmer⟩ := List.forall_mem_cons.mp regular
      have split (step : WriteStep S) : sizes (step :: rest) = step.size + sizes rest := rfl
      have splits := split step
      cases step with
      | stop error => exact calm.elim
      | put slice =>
        have length : (put slice : WriteStep S).size = slice.length + 1 := rfl
        rw [pollSteps]
        by_cases none : slice = []
        · rw [if_pos none]
          exact .of_next (by omega) (ih (by omega) steady others calmer)
        · rw [if_neg none]
          have wrote := pollWrite_writes steady none
          generalize pollWrite this slice = result at wrote
          cases wrote with
          | @ready next n some within taken steady spent =>
            simp only
            rw [if_neg (Nat.not_lt_of_le within), if_neg (Nat.ne_of_gt some)]
            have shorter : (put (slice.drop n) : WriteStep S).size + n ≤ (put slice : WriteStep S).size := by
              show (slice.drop n).length + 1 + n ≤ slice.length + 1
              rw [List.length_drop]
              omega
            have splits' := split (put (slice.drop n))
            exact .of_next (by omega) (ih (by omega) steady (List.forall_mem_cons.mpr ⟨trivial, others⟩)
              (List.forall_mem_cons.mpr ⟨trivial, calmer⟩))
          | pending same steady less => exact .pending steady regular (by omega)
      | copy reader =>
        have length (reader : S) : (copy reader : WriteStep S).size = budget reader + 1 := rfl
        have before := length reader
        rw [pollSteps]
        have filled := fills sound
        generalize pollFillBuf reader = result at filled
        cases filled with
        | @ready next kept regular' same bounded ends =>
          have spent := kept.budget
          have calm' : ∀ step ∈ copy next :: rest, step.Regular :=
            List.forall_mem_cons.mpr ⟨regular' calm, calmer⟩
          have splits' := split (copy next)
          have middle := length next
          simp only
          by_cases none : view.visible next = []
          · rw [if_pos none]
            have settled := pollFlush_settles steady
            generalize pollFlush this = below at settled
            cases settled with
            | ready same' steady spent' => exact .of_next (by omega) (ih (by omega) steady others calmer)
            | pending same' steady less => exact .pending steady calm' (by omega)
          · rw [if_neg none]
            have wrote := pollWrite_writes steady none
            generalize pollWrite this (view.visible next) = below at wrote
            cases wrote with
            | @ready writer n some within taken steady spent' =>
              obtain ⟨after, took, valid', regular'', -, -, -, -, cost⟩ := consumes_unread kept.valid within
              simp only
              rw [if_neg (Nat.ne_of_gt some), took]
              have splits'' := split (copy after)
              have last := length after
              exact .of_next (by omega) (ih (by omega) steady (List.forall_mem_cons.mpr ⟨valid', others⟩)
                (List.forall_mem_cons.mpr ⟨regular'' (regular' calm), calmer⟩))
            | pending same' steady less => exact .pending steady calm' (by omega)
        | @pending next kept regular' same less =>
          have splits' := split (copy next)
          have middle := length next
          exact .pending steady (List.forall_mem_cons.mpr ⟨regular' calm, calmer⟩) (by omega)
        | error kept same irregular => exact absurd calm irregular

/-- Steps that do not fail are written, whatever is pending in between. -/
theorem await_poll {steps : List (WriteStep S)} {this : W} {patience : Nat}
    (patient : sizes steps + turns this < patience) (steady : Steady this)
    (valid : ∀ step ∈ steps, step.Valid) (regular : ∀ step ∈ steps, step.Regular) :
    ∃ next, await poll patience (steps, this) = (.ready (), [], next) ∧ Steady next ∧
      written next = written this ++ contents steps := by
  induction patience generalizing steps this with
  | zero => exact absurd patient (Nat.not_lt_zero _)
  | succ patience ih =>
    have scripted := pollSteps_scripted SteadyWrite.honesty _ (Nat.lt_succ_self (sizes steps)) steady valid
    have runs := pollSteps_runs _ (Nat.lt_succ_self (sizes steps)) steady valid regular
    rw [await, poll]
    generalize pollSteps (sizes steps + 1) (steps, this) = result at scripted runs
    cases scripted with
    | ready sent honest =>
      cases runs with
      | ready steady => exact ⟨_, rfl, steady, sent⟩
    | pending sent honest valid =>
      cases runs with
      | pending steady regular less =>
        obtain ⟨last, awaited, steady, done⟩ := ih (by omega) steady valid regular
        exact ⟨last, awaited, steady, done.trans sent⟩
    | error => cases runs

end WriteStep

end Harmonia
