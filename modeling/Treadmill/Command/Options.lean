import Treadmill.Power

/-!
# Options

The command's arguments. Each is read in turn, and the first that decides the matter, be it wrong
or a question for the version, ends the reading.
-/

namespace Treadmill

/-- What the command is asked to do. -/
structure Options where
  sample : Bool := false
  seconds : Int := 5
  capacity : Nat := 100
  budget : Int := 1000000
  collect : Bool := false
  verbose : Bool := false
deriving DecidableEq

/-- What reading the arguments comes to. -/
inductive Request
  | run (options : Options)
  | version
  /-- An argument that is not known. -/
  | unknown
  /-- An option whose number is missing, is none or is out of range. -/
  | noNumber (option : String)
deriving DecidableEq

namespace Options

/-- The number that decimal digits stand for; there must be at least one. -/
def digits? (cs : List Char) : Option Nat :=
  if !cs.isEmpty && cs.all Char.isDigit then
    some (cs.foldl (fun n c => 10 * n + (c.toNat - '0'.toNat)) 0)
  else none

/-- A number that may have a plus sign in front. -/
def unsigned? (s : String) : Option Nat :=
  match s.toList with
  | '+' :: cs => digits? cs
  | cs => digits? cs

/-- A number that may have a sign in front. -/
def signed? (s : String) : Option Int :=
  match s.toList with
  | '-' :: cs => (digits? cs).map fun n => -n
  | '+' :: cs => (digits? cs).map fun n => n
  | cs => (digits? cs).map fun n => n

/-- A number in the range of a signed register of so many bits. -/
def signedIn? (bits : Nat) (s : String) : Option Int :=
  (signed? s).filter fun n => -2 ^ (bits - 1) ≤ n ∧ n < 2 ^ (bits - 1)

/-- A number in the range of an unsigned register of so many bits. -/
def unsignedIn? (bits : Nat) (s : String) : Option Nat :=
  (unsigned? s).filter fun n => n < 2 ^ bits

/-- Reads arguments on top of the options read so far. -/
def read (o : Options) : List String → Request
  | [] => .run o
  | "-s" :: rest => read { o with sample := true } rest
  | "-g" :: rest => read { o with collect := true } rest
  | "-v" :: rest => read { o with verbose := true } rest
  | "-V" :: _ => .version
  | ["-n"] => .noNumber "-n"
  | "-n" :: s :: rest =>
    match signedIn? 64 s with
    | some n => read { o with seconds := n } rest
    | none => .noNumber "-n"
  | ["-q"] => .noNumber "-q"
  | "-q" :: s :: rest =>
    match unsignedIn? 64 s with
    | some n => read { o with capacity := n } rest
    | none => .noNumber "-q"
  | ["-b"] => .noNumber "-b"
  | "-b" :: s :: rest =>
    match signedIn? 32 s with
    | some n => read { o with budget := n } rest
    | none => .noNumber "-b"
  | _ :: _ => .unknown

end Options

end Treadmill
