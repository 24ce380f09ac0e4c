/-!
# Durations

A length of time, its shortest exact text in decimal units and its text in seconds.
-/

namespace Fieldmark

/-- A length of time in nanoseconds. -/
structure Duration where
  nanoseconds : Nat
  deriving DecidableEq, Repr

namespace Duration

instance : Add Duration := ⟨fun d e => ⟨d.nanoseconds + e.nanoseconds⟩⟩

instance : Max Duration := ⟨fun d e => ⟨max d.nanoseconds e.nanoseconds⟩⟩

def ofMilliseconds (n : Nat) : Duration := ⟨n * 1000000⟩

def ofSeconds (n : Nat) : Duration := ⟨n * 1000000000⟩

/-- A whole part and a fraction of `width` digits, written without the fraction's last zeros. -/
private def decimalText (whole fraction width : Nat) : String :=
  let digits := (toString fraction).toList
  let padded := List.replicate (width - digits.length) '0' ++ digits
  let kept := (padded.reverse.dropWhile (· == '0')).reverse
  if kept.isEmpty then toString whole else toString whole ++ "." ++ String.ofList kept

/-- A duration in the largest of the units `s`, `ms`, `µs`, `ns` of which it holds one. -/
def text (d : Duration) : String :=
  let n := d.nanoseconds
  if 1000000000 ≤ n then decimalText (n / 1000000000) (n % 1000000000) 9 ++ "s"
  else if 1000000 ≤ n then decimalText (n / 1000000) (n % 1000000) 6 ++ "ms"
  else if 1000 ≤ n then decimalText (n / 1000) (n % 1000) 3 ++ "µs"
  else toString n ++ "ns"

/-- A duration in seconds with two places, rounded to the nearest. -/
def secondsText (d : Duration) : String :=
  let hundredths := (d.nanoseconds + 5000000) / 10000000
  let places := toString (hundredths % 100)
  toString (hundredths / 100) ++ "." ++ (if places.length < 2 then "0" ++ places else places)

end Duration

end Fieldmark
