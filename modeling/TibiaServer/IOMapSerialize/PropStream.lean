import TibiaServer.Library.Bytes
/-!
# Property streams

What is left of a `PropStream` is a list of bytes.  A value that is not there as a whole is
not read, and the stream stays where it is.
-/

namespace TibiaServer.IOMapSerialize

open Library.Bytes

abbrev PropStream := List UInt8

namespace PropStream

/-- `read<T>` for an unsigned type of `w` bytes. -/
def read (w : ℕ) (stream : PropStream) : Option ℕ × PropStream :=
  if stream.length < w then (none, stream)
  else (some (ofBytes (stream.take w)), stream.drop w)

def readString (stream : PropStream) : Option (List UInt8) × PropStream :=
  match read 2 stream with
  | (none, stream) => (none, stream)
  | (some strLen, stream) =>
    if stream.length < strLen then (none, stream)
    else (some (stream.take strLen), stream.drop strLen)

def skip (n : ℕ) (stream : PropStream) : Bool × PropStream :=
  if stream.length < n then (false, stream) else (true, stream.drop n)

theorem length_read_le (w : ℕ) (stream : PropStream) :
    (read w stream).2.length ≤ stream.length := by
  unfold read
  split <;> simp

theorem length_readString_le (stream : PropStream) :
    (readString stream).2.length ≤ stream.length := by
  have hread := length_read_le 2 stream
  unfold readString
  split <;> rename_i heq <;> rw [heq] at hread
  · exact hread
  · split
    · exact hread
    · rw [List.length_drop]
      dsimp only at hread
      omega

theorem length_skip_le (n : ℕ) (stream : PropStream) :
    (skip n stream).2.length ≤ stream.length := by
  unfold skip
  split <;> simp

end PropStream

/-- `write<T>` for a type of `w` bytes. -/
def write (w n : ℕ) : List UInt8 := toBytes w n

def writeString (str : List UInt8) : List UInt8 :=
  if str.length > 65535 then write 2 0 else write 2 str.length ++ str

namespace PropStream

@[simp] theorem length_write (w n : ℕ) : (write w n).length = w := length_toBytes w n

theorem read_write (w n : ℕ) (rest : PropStream) :
    read w (write w n ++ rest) = (some (n % 256 ^ w), rest) := by
  have hlength : ¬ (write w n ++ rest).length < w := by
    rw [List.length_append, length_write]
    omega
  have htake : (write w n ++ rest).take w = write w n :=
    List.take_left' (length_write w n)
  have hdrop : (write w n ++ rest).drop w = rest := List.drop_left' (length_write w n)
  rw [read, if_neg hlength, htake, hdrop, write, ofBytes_toBytes]

theorem read_write_of_lt {w n : ℕ} (h : n < 256 ^ w) (rest : PropStream) :
    read w (write w n ++ rest) = (some n, rest) := by
  rw [read_write, Nat.mod_eq_of_lt h]

theorem readString_writeString {str : List UInt8} (h : str.length ≤ 65535) (rest : PropStream) :
    readString (writeString str ++ rest) = (some str, rest) := by
  have hlong : ¬ str.length > 65535 := by omega
  have hlength : ¬ (str ++ rest).length < str.length := by
    rw [List.length_append]
    omega
  rw [readString, writeString, if_neg hlong, List.append_assoc,
    read_write_of_lt (show str.length < 256 ^ 2 by omega)]
  dsimp only
  rw [if_neg hlength, List.take_left, List.drop_left]

end PropStream

end TibiaServer.IOMapSerialize
