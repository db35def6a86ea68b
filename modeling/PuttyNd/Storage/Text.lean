import Mathlib.Algebra.Group.Int.Defs
import Mathlib.Algebra.GroupWithZero.Nat
import Mathlib.Data.Int.Notation
import Mathlib.Data.List.Basic

/-!
# Strings

A string is the list of its characters before the NUL.
-/

namespace PuttyNd.Storage

abbrev Text := List Char

instance lawfulBEq_text : @LawfulBEq (List Char) List.instBEq := inferInstance

/-- `strncmp`; only whether the result is not zero matters. -/
def strncmp (s t : Text) (n : ℕ) : Bool := s.take n != t.take n

/-- `strcspn`, with one character to stop at. -/
def strcspn (s : Text) (c : Char) : ℕ := (s.takeWhile (· != c)).length

/-- `sprintf` with `%d`. -/
def decimal : ℤ → Text
  | .ofNat n => Nat.toDigits 10 n
  | .negSucc n => '-' :: Nat.toDigits 10 (n + 1)

/-- `isspace` -/
def isspace (c : Char) : Bool := c == ' ' || ('\t' ≤ c && c ≤ '\r')

/-- A number that does not fit an `int` becomes the nearest one that does. -/
def clamp (n : ℤ) : Int32 := Int32.ofInt (max (-2 ^ 31) (min (2 ^ 31 - 1) n))

/-- The number that the digits at the front of `s` are. -/
def digits (s : Text) : ℤ := Nat.ofDigitChars 10 (s.takeWhile Char.isDigit) 0

/-- `atoi` -/
def atoi (s : Text) : Int32 :=
  match s.dropWhile isspace with
  | '-' :: s => clamp (-digits s)
  | '+' :: s => clamp (digits s)
  | s => clamp (digits s)

/-- `strrchr`: what is before the last `c`, if there is one. -/
def strrchr (c : Char) : Text → Option Text
  | [] => none
  | a :: s =>
    match strrchr c s with
    | some before => some (a :: before)
    | none => if a = c then some [] else none

/-- The lines that `fgetline` gives until it gives `NULL`, each with its newline. -/
def fgetlines : Text → List Text
  | [] => []
  | '\n' :: s => ['\n'] :: fgetlines s
  | c :: s =>
    match fgetlines s with
    | [] => [[c]]
    | line :: rest => (c :: line) :: rest

end PuttyNd.Storage
