import Mathlib.Data.List.SplitOn
import OpenCut.Domain.Edit

/-!
# Versions and paths

`internal/release/version.go`, `utils/target/target.go` and `path.Clean` of the Go library. A
version is `X.Y.Z-<channel>.N`; within a channel versions are ordered by their numbers
(`Version.compare`).
-/

namespace OpenCut

/-! ## Versions -/

/-- `Version`. -/
structure Version where
  major : Nat
  minor : Nat
  patch : Nat
  channel : Text
  number : Nat
deriving DecidableEq

/-- A character between `0` and `9`. -/
def isDecimal (c : Char) : Bool := '0' ≤ c && c ≤ '9'

/-- A character between `a` and `z`, or between `0` and `9`. -/
def isLowerAlphanumeric (c : Char) : Bool := ('a' ≤ c && c ≤ 'z') || isDecimal c

/-- A number `0|[1-9][0-9]*` of 64 bits. -/
def versionNumber? (t : Text) : Option Nat :=
  let value := t.foldl (fun n c => n * 10 + (c.toNat - '0'.toNat)) 0
  if t ≠ [] ∧ t.all isDecimal ∧ (t.head? ≠ some '0' ∨ t.length = 1) ∧ value < 2 ^ 64 then
    some value
  else none

/-- A channel `[a-z0-9](?:[a-z0-9-]*[a-z0-9])?`. -/
def versionChannel (t : Text) : Bool :=
  t.all (fun c => isLowerAlphanumeric c || c == '-') && t.head?.any isLowerAlphanumeric &&
    t.getLast?.any isLowerAlphanumeric

/-- `ParseVersion`: neither the numbers nor the channel have a point, and the numbers have no
    hyphen. -/
def parseVersion (value : Text) : Option Version := do
  let [x, y, z] := (value.takeWhile (· ≠ '-')).splitOn '.' | none
  let [channel, n] := ((value.dropWhile (· ≠ '-')).drop 1).splitOn '.' | none
  if '-' ∈ value ∧ versionChannel channel then
    return ⟨← versionNumber? x, ← versionNumber? y, ← versionNumber? z, channel, ← versionNumber? n⟩
  else none

/-- `ParseVersionForChannel`. -/
def parseVersionForChannel (value channel : Text) : Option Version :=
  (parseVersion value).filter fun version => version.channel == channel

/-- `Version.Compare`. -/
def Version.compare (v other : Version) : Ordering :=
  (Ord.compare v.major other.major).then <| (Ord.compare v.minor other.minor).then <|
    (Ord.compare v.patch other.patch).then <| (Ord.compare v.number other.number).then <|
      if v.channel < other.channel then .lt else if other.channel < v.channel then .gt else .eq

/-! ## Targets -/

/-- `target.Platform`. -/
inductive Platform
  | mac
  | win
  | linux
  | other (name : Text)
deriving DecidableEq

/-- `target.Arch`. -/
inductive Arch
  | arm64
  | x64
  | other (name : Text)
deriving DecidableEq

/-- `target.Target`. -/
structure Target where
  platform : Platform
  arch : Arch
deriving DecidableEq

/-- `Target.Validate`. -/
def Target.valid (target : Target) : Bool :=
  (target.platform == .mac || target.platform == .win || target.platform == .linux) &&
    (target.arch == .arm64 || target.arch == .x64)

/-! ## Paths -/

/-- The segments of a cleaned path, from the last, after one more segment. -/
def cleanSegment (rooted : Bool) (out : List Text) (segment : Text) : List Text :=
  if segment = [] ∨ segment = ['.'] then out
  else if segment = ['.', '.'] then
    match out with
    | [] => if rooted then [] else [segment]
    | last :: rest => if last = ['.', '.'] then segment :: out else rest
  else segment :: out

/-- `path.Clean`. -/
def pathClean (p : Text) : Text :=
  let rooted := p.head? == some '/'
  let joined := List.intercalate ['/'] ((p.splitOn '/').foldl (cleanSegment rooted) []).reverse
  if rooted then '/' :: joined else if joined = [] then ['.'] else joined

end OpenCut
