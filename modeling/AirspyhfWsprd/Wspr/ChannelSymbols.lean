import AirspyhfWsprd.Wspr.Convolution
import AirspyhfWsprd.Wspr.Interleave
import AirspyhfWsprd.Wspr.Unpacking

/-!
`get_wspr_channel_symbols` of `wsprsim_utils.c`: the text of a message is packed into eleven
bytes, encoded, interleaved and joined with the synchronization vector. The core calls it
with each message it has printed, to subtract the signal.
-/

namespace AirspyhfWsprd.Wspr

open Library

/-- The synchronization vector -/
def pr3 : List UInt8 :=
  [1, 1, 0, 0, 0, 0, 0, 0, 1, 0, 0, 0, 1, 1, 1, 0, 0, 0, 1, 0,
   0, 1, 0, 1, 1, 1, 1, 0, 0, 0, 0, 0, 0, 0, 1, 0, 0, 1, 0, 1,
   0, 0, 0, 0, 0, 0, 1, 0, 1, 1, 0, 0, 1, 1, 0, 1, 0, 0, 0, 1,
   1, 0, 1, 0, 0, 0, 0, 1, 1, 0, 1, 0, 1, 0, 1, 0, 1, 0, 0, 1,
   0, 0, 1, 0, 1, 1, 0, 0, 0, 1, 1, 0, 1, 0, 1, 0, 0, 0, 1, 0,
   0, 0, 0, 0, 1, 0, 0, 1, 0, 0, 1, 1, 1, 0, 1, 1, 0, 0, 1, 1,
   0, 1, 0, 0, 0, 1, 1, 1, 0, 0, 0, 0, 0, 1, 0, 1, 0, 0, 1, 1,
   0, 0, 0, 0, 0, 0, 0, 1, 1, 0, 1, 0, 1, 1, 0, 0, 0, 1, 1, 0,
   0, 0]

/-- What brings the last digit of a power to 0, 3 or 7 -/
def nu : List Int := [0, -1, 1, 0, -1, 2, 1, 0, -1, 1]

/-- The power of a message with a slash or with brackets -/
def roundedPower (power : Int) : Int :=
  let power := if power < 0 then 0 else power
  let power := if power > 60 then 60 else power
  power + nu.getD (power % 10).toNat 0

/-- How the packing of a message ends: with a null pointer that is read through where a word
is missing, with a zero returned, or with the two numbers of the message. -/
inductive Packing where
  | fault
  | refused
  | packed (n : Nat) (m : Int)

def Packing.ofWords : Option (Nat × Int) → Packing
  | none => .fault
  | some (n, m) => .packed n m

/-- "Type 1 message: K9AN EN50 33". The locator is read from the message, up to the end of
the next word where it is too short. -/
def packType1 (message : CString) : Option (Nat × Int) := do
  let (callsign, rest) ← nextToken (bytes " ") message
  let (grid, rest) ← nextToken (bytes " ") rest
  let (powstr, behind) ← nextToken (bytes " ") rest
  let memory := grid ++ 0 :: (rest.takeWhile (· = 32) ++ powstr ++ 0 :: behind)
  some (packCall callsign, packGrid4Power (gridCodes memory) (atoi powstr))

/-- `grid6`: the locator with its first character behind the others -/
def rotatedGrid (grid : CString) : CString :=
  cstr (((grid.drop 1 ++ List.replicate 7 0).take 7).set 5 (grid.getD 0 0))

/-- "Type 3: <K1ABC> EN50WC 33" -/
def packType3 (message : CString) : Option (Nat × Int) := do
  let (callsign, rest) ← nextToken (bytes "<> ") message
  let (grid, rest) ← nextToken (bytes " ") rest
  let (powstr, _) ← nextToken (bytes " ") rest
  let ntype := -(roundedPower (atoi powstr) + 1)
  some (packCall (rotatedGrid grid), 128 * callHash callsign + ntype + 64)

/-- "Type 2: PJ4/K1ABC 37" -/
def packType2 (callsign rest : CString) : Option (Nat × Int) := do
  let (powstr, behind) ← nextToken (bytes " ") rest
  let memory := rest.takeWhile (· = 32) ++ powstr ++ 0 :: behind
  let (n1, ng, nadd) ← packPrefix callsign memory
  let ntype := roundedPower (atoi powstr) + 1 + nadd
  some (n1, 128 * ng + ntype + 64)

/-- "Use the presence and/or absence of "<" and "/" to decide what type of message." -/
def packMessage (message : CString) : Packing :=
  let i1 := strcspn message (bytes " ")
  let i2 := strcspn message (bytes "/")
  let i3 := strcspn message (bytes "<")
  let i4 := strcspn message (bytes ">")
  let mlen := message.length
  if 3 ≤ i1 ∧ i1 < 7 ∧ i2 = mlen ∧ i3 = mlen then .ofWords (packType1 message)
  else if i3 = 0 ∧ i4 < mlen then .ofWords (packType3 message)
  else if i2 < mlen then
    match nextToken (bytes " ") message with
    | none => .fault
    | some (callsign, rest) =>
        if i2 = 0 ∨ callsign.length < i2 then .refused else .ofWords (packType2 callsign rest)
  else .refused

/-- `symbols` of the data: the interleaved code symbols in the 2-bit, the synchronization
vector in the 1-bit. `tmp` is the array on the stack of `interleave`. -/
def channelSymbols (tmp data : List UInt8) : List UInt8 :=
  let channelbits := interleave tmp (encode data)
  (List.range 162).map fun i => 2 * channelbits.getD i 0 + pr3.getD i 0

/-- What `get_wspr_channel_symbols` leaves -/
inductive SymbolsResult where
  | fault
  | refused
  | sent (data symbols : List UInt8) (tables : HashTables)

/-- `get_wspr_channel_symbols`: the message is packed, encoded and interleaved, and merged with
the synchronization vector. The data is then unpacked with the tables of the decoder, which it
changes. -/
def getWsprChannelSymbols (tmp : List UInt8) (tables : HashTables) (rawmessage : CString) :
    SymbolsResult :=
  match packMessage (rawmessage.take 23) with
  | .fault => .fault
  | .refused => .refused
  | .packed n m =>
      let data := packData n m
      .sent data (channelSymbols tmp data) (unpk tables data).tables

/-- `count_hard_errors` of `wsprd.c`: where the received symbols, which are deinterleaved,
are on the other side of the symbols of a message -/
def countHardErrors (tmp symbols channelSymbols : List UInt8) : Nat :=
  let cw := deinterleave tmp ((List.range 162).map fun i =>
    if 2 ≤ channelSymbols.getD i 0 then 1 else 0)
  ((List.range 162).map fun i =>
    if (if 127 < symbols.getD i 0 then 1 else 0) = cw.getD i 0 then 0 else 1).sum

end AirspyhfWsprd.Wspr
