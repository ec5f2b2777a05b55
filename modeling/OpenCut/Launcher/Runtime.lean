import OpenCut.Lib.Outcome
import OpenCut.Release.Version

/-!
# The runtime state of a cell

`internal/state/state.go`: which version of the product is active, which is the last good one and
which is a candidate for it. A candidate is prepared, and then confirmed or rolled back.
-/

namespace OpenCut

open Outcome

/-- `state.Runtime`. The empty text is no version. -/
structure RuntimeState where
  schema : Int
  generation : Nat
  active : Text
  candidate : Text
  lastGood : Text
  attempt : Nat
deriving DecidableEq

/-- Why a runtime state or a change of it is refused. -/
inductive RuntimeError
  | schema (schema : Int)
  | version
  | activeNotLastGood
  | candidatePending (candidate : Text)
  | notCandidate (version candidate : Text)
  | noCandidate

namespace RuntimeState

/-- `state.Empty`. -/
def empty : RuntimeState := ⟨1, 0, [], [], [], 0⟩

/-- Whether a field names no version, or one of the channel. -/
def validVersion (channel version : Text) : Bool :=
  version = [] || (parseVersionForChannel version channel).isSome

/-- `Runtime.Validate`. -/
def validate (runtime : RuntimeState) (channel : Text) : Except RuntimeError Unit := do
  ensure (runtime.schema = 1) (.schema runtime.schema)
  ensure (validVersion channel runtime.active ∧ validVersion channel runtime.candidate ∧
    validVersion channel runtime.lastGood) .version
  ensure (runtime.candidate ≠ [] ∨ runtime.active = runtime.lastGood) .activeNotLastGood

/-- `state.Load` of the state file. -/
def load (file : Option RuntimeState) (channel : Text) : Except RuntimeError RuntimeState :=
  match file with
  | none => .ok empty
  | some runtime => do
    runtime.validate channel
    return runtime

variable (current : RuntimeState) (channel : Text)

/-- `state.Prepare`. -/
def prepare (candidate : Text) : Except RuntimeError RuntimeState := do
  current.validate channel
  ensure (current.candidate = []) (.candidatePending current.candidate)
  ensure (parseVersionForChannel candidate channel).isSome .version
  return { current with
    generation := (current.generation + 1) % 2 ^ 64
    attempt := (current.attempt + 1) % 2 ^ 64
    candidate }

/-- `state.Confirm`. -/
def confirm (candidate : Text) : Except RuntimeError RuntimeState := do
  current.validate channel
  ensure (candidate ≠ [] ∧ current.candidate = candidate)
    (.notCandidate candidate current.candidate)
  return { current with
    generation := (current.generation + 1) % 2 ^ 64
    active := candidate, lastGood := candidate, candidate := [] }

/-- `state.Rollback`. -/
def rollback : Except RuntimeError RuntimeState := do
  current.validate channel
  ensure (current.candidate ≠ []) .noCandidate
  return { current with
    generation := (current.generation + 1) % 2 ^ 64
    candidate := [], active := current.lastGood }

end RuntimeState

end OpenCut
