import Mathlib.Algebra.Ring.Nat
import Mathlib.Data.List.Basic
import Mathlib.Tactic.Common

/-!
Big-endian words in byte lists, reading from the front of a byte list, and
stores into a byte buffer at an offset. A buffer that was zeroed and is then
filled from the front always is the bytes stored so far followed by zeros.
-/

namespace AirspyhfWsprd.Library

/-- The two low bytes of a number, the higher one first. -/
def u16 (value : Nat) : List UInt8 := [UInt8.ofNat (value / 2 ^ 8), UInt8.ofNat value]

/-- The four low bytes of a number, the highest one first. -/
def u32 (value : Nat) : List UInt8 :=
  [UInt8.ofNat (value / 2 ^ 24), UInt8.ofNat (value / 2 ^ 16),
    UInt8.ofNat (value / 2 ^ 8), UInt8.ofNat value]

/-- The number a big-endian byte string stands for. -/
def bigEndian (data : List UInt8) : Nat :=
  data.foldl (fun value byte => value * 256 + byte.toNat) 0

@[simp] theorem u16_length (value : Nat) : (u16 value).length = 2 := rfl

@[simp] theorem u32_length (value : Nat) : (u32 value).length = 4 := rfl

theorem bigEndian_u16 {value : Nat} (h : value < 2 ^ 16) : bigEndian (u16 value) = value := by
  simp only [bigEndian, u16, List.foldl_cons, List.foldl_nil, UInt8.toNat_ofNat']
  omega

theorem bigEndian_u32 {value : Nat} (h : value < 2 ^ 32) : bigEndian (u32 value) = value := by
  simp only [bigEndian, u32, List.foldl_cons, List.foldl_nil, UInt8.toNat_ofNat']
  omega

/-- The first `count` bytes and the rest, if there are that many. -/
def readBytes (count : Nat) (input : List UInt8) : Option (List UInt8 × List UInt8) :=
  if count ≤ input.length then some (input.take count, input.drop count) else none

/-- A big-endian number of `width` bytes and the rest. -/
def readWord (width : Nat) (input : List UInt8) : Option (Nat × List UInt8) :=
  (readBytes width input).map fun (data, rest) => (bigEndian data, rest)

theorem readBytes_append {count : Nat} {data : List UInt8} (rest : List UInt8)
    (h : data.length = count) : readBytes count (data ++ rest) = some (data, rest) := by
  subst h
  simp [readBytes]

theorem readWord_u16 {value : Nat} (rest : List UInt8) (h : value < 2 ^ 16) :
    readWord 2 (u16 value ++ rest) = some (value, rest) := by
  simp only [readWord, readBytes_append rest (u16_length value), Option.map_some,
    bigEndian_u16 h]

theorem readWord_u32 {value : Nat} (rest : List UInt8) (h : value < 2 ^ 32) :
    readWord 4 (u32 value ++ rest) = some (value, rest) := by
  simp only [readWord, readBytes_append rest (u32_length value), Option.map_some,
    bigEndian_u32 h]

/-- The buffer after `data` was stored at `offset`. -/
def writeAt (buffer : List UInt8) (offset : Nat) (data : List UInt8) : List UInt8 :=
  buffer.take offset ++ data ++ buffer.drop (offset + data.length)

def zeros (count : Nat) : List UInt8 := List.replicate count 0

@[simp] theorem zeros_length (count : Nat) : (zeros count).length = count :=
  List.length_replicate

theorem zeros_append (a b : Nat) : zeros a ++ zeros b = zeros (a + b) :=
  List.replicate_append_replicate

/-- A buffer and a store pointer into it. -/
structure Cursor where
  buffer : List UInt8
  position : Nat

/-- Storing bytes where the pointer stands and moving it behind them. -/
def Cursor.write (c : Cursor) (data : List UInt8) : Cursor :=
  ⟨writeAt c.buffer c.position data, c.position + data.length⟩

/-- The pointer stands in a zeroed part of the buffer: `filled` lies before it,
`room` zero bytes lie behind it, and then the rest of the buffer. -/
structure Cursor.FilledTo (c : Cursor) (filled : List UInt8) (room : Nat)
    (rest : List UInt8) : Prop where
  buffer_eq : c.buffer = filled ++ zeros room ++ rest
  position_eq : c.position = filled.length

theorem filledTo_start (buffer : List UInt8) (count : Nat) :
    Cursor.FilledTo ⟨writeAt buffer 0 (zeros count), 0⟩ [] count (buffer.drop count) :=
  ⟨by simp [writeAt], rfl⟩

/-- Setting the pointer further on without a store leaves zero bytes behind. -/
theorem Cursor.FilledTo.jump {c : Cursor} {filled rest : List UInt8}
    {room count position : Nat} (h : c.FilledTo filled room rest)
    (hposition : position = filled.length + count) (hroom : count ≤ room) :
    Cursor.FilledTo ⟨c.buffer, position⟩ (filled ++ zeros count) (room - count) rest := by
  have hsplit : zeros room = zeros count ++ zeros (room - count) := by
    rw [zeros_append]
    congr 1
    omega
  refine ⟨?_, by simp only [hposition, List.length_append, zeros_length]⟩
  simp only [h.buffer_eq, hsplit, List.append_assoc]

/-- Code that stores these bytes at the pointer whenever there is room. -/
def Stores (code : Cursor → Cursor) (data : List UInt8) : Prop :=
  ∀ ⦃c : Cursor⦄ ⦃filled rest : List UInt8⦄ ⦃room : Nat⦄, c.FilledTo filled room rest →
    data.length ≤ room → (code c).FilledTo (filled ++ data) (room - data.length) rest

theorem stores_write (data : List UInt8) : Stores (fun c => c.write data) data := by
  intro c filled rest room h hroom
  obtain ⟨hbuffer, hposition⟩ := h
  have hdrop : (zeros room ++ rest).drop data.length =
      zeros (room - data.length) ++ rest := by
    rw [List.drop_append_of_le_length (by simpa using hroom)]
    simp [zeros]
  refine ⟨?_, by simp only [Cursor.write, hposition, List.length_append]⟩
  simp only [Cursor.write, writeAt, hbuffer, hposition, List.append_assoc, List.take_left,
    ← List.drop_drop, List.drop_left, hdrop]

theorem stores_nothing : Stores id [] := by
  intro c filled rest room h _
  simpa using h

theorem Stores.andThen {first second : Cursor → Cursor} {a b : List UInt8}
    (hfirst : Stores first a) (hsecond : Stores second b) :
    Stores (fun c => second (first c)) (a ++ b) := by
  intro c filled rest room h hroom
  rw [List.length_append] at hroom
  have hdone := hsecond (hfirst h (by omega)) (by omega)
  simpa only [List.append_assoc, List.length_append, Nat.sub_sub] using hdone

/-- A loop stores what its rounds store. -/
theorem stores_foldl {α : Type*} {code : Cursor → α → Cursor} {data : α → List UInt8}
    (items : List α) (hcode : ∀ item, Stores (code · item) (data item)) :
    Stores (fun c => items.foldl code c) (items.flatMap data) := by
  induction items with
  | nil => exact stores_nothing
  | cons item items ih => exact (hcode item).andThen ih

end AirspyhfWsprd.Library
