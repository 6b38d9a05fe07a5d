import PodPlacement.Ledger
import PodPlacement.Text.Blank

/-! # Estimated run time

How long a pod is expected to run, from the number of epochs in its command and the CPU and GPUs it
requests. -/

namespace PodPlacement

namespace Estimate

/-- The number of epochs when no command token gives one. -/
def defaultEpochs : Int := 7

/-- The seconds of one epoch. -/
def secondsPerEpoch : Seconds := 30

/-- The seconds each requested core adds. -/
def secondsPerCpu : Seconds := 10

/-- The seconds each requested GPU adds. -/
def secondsPerGpu : Seconds := 20

/-- No pod runs for less than this. -/
def leastSeconds : Seconds := 30

/-- What a token that gives the number of epochs contains. -/
def epochsFlag : List Char := "--epochs=".toList

/-- The text occurs somewhere in the other one. -/
def occursIn (needle : List Char) : List Char → Bool
  | [] => needle.isEmpty
  | c :: cs => needle.isPrefixOf (c :: cs) || occursIn needle cs

/-- What follows the last `=`, or the whole text if there is none. -/
def afterLastEquals (cs : List Char) : List Char := (cs.reverse.takeWhile (· ≠ '=')).reverse

/-- Reads a decimal integer with an optional sign that fits in 64 bits. -/
def integer64? (cs : List Char) : Option Int :=
  let (negative, digits) := match cs with
    | '-' :: r => (true, r)
    | '+' :: r => (false, r)
    | r => (false, r)
  if digits.isEmpty || !digits.all Char.isDigit then none
  else
    let n : Int := Nat.ofDigitChars 10 digits 0
    let value := if negative then -n else n
    -- A number of more than 64 bits is as good as none.
    if -2 ^ 63 ≤ value ∧ value < 2 ^ 63 then some value else none

/-- The number of epochs a command token gives, if it gives one. -/
def epochsOfToken? (token : List Char) : Option Int :=
  if occursIn epochsFlag token then integer64? (trim (afterLastEquals token)) else none

/-- The number of epochs a command gives: that of the last token that gives one. -/
def epochs (command : List String) : Int :=
  ((command.filterMap fun token => epochsOfToken? token.toList).getLast?).getD defaultEpochs

/-- The estimated run time of a pod. -/
def runTime (requests : Resources) (command : List String) : Seconds :=
  (Binary64.ofInt (epochs command) * secondsPerEpoch + requests.cpu * secondsPerCpu +
    Binary64.ofNat requests.gpu.val * secondsPerGpu).maxNum leastSeconds

end Estimate

end PodPlacement
