import AirspyhfWsprd.Library.CText
import Mathlib.Data.List.GetD

/-!
The hash of a callsign, from `nhash.c`. The function reads the key in words of 32 bits,
of 16 bits or one byte at a time, as the address of the key allows.
-/

namespace AirspyhfWsprd.Wspr

open Library

/-- The state of the hash -/
structure HashState where
  a : UInt32
  b : UInt32
  c : UInt32
  deriving DecidableEq

def rot (x k : UInt32) : UInt32 := x <<< k ||| x >>> (32 - k)

/-- `mix(a,b,c)`: six rounds of a subtraction, an exclusive or with a rotation and an addition,
all in 32 bits. -/
def HashState.mix (s : HashState) : HashState :=
  let a := s.a - s.c; let a := a ^^^ rot s.c 4; let c := s.c + s.b
  let b := s.b - a; let b := b ^^^ rot a 6; let a := a + c
  let c := c - b; let c := c ^^^ rot b 8; let b := b + a
  let a := a - c; let a := a ^^^ rot c 16; let c := c + b
  let b := b - a; let b := b ^^^ rot a 19; let a := a + c
  let c := c - b; let c := c ^^^ rot b 4; let b := b + a
  ⟨a, b, c⟩

/-- `final(a,b,c)`, the value of `c`; what it leaves in `a` and `b` is not used any more. -/
def HashState.final (s : HashState) : UInt32 :=
  let c := s.c ^^^ s.b; let c := c - rot s.b 14
  let a := s.a ^^^ c; let a := a - rot c 11
  let b := s.b ^^^ a; let b := b - rot a 25
  let c := c ^^^ b; let c := c - rot b 16
  let a := a ^^^ c; let a := a - rot c 4
  let b := b ^^^ a; let b := b - rot a 14
  let c := c ^^^ b; c - rot b 24

/-- How the key is read -/
inductive KeyAccess where
  | words
  | halfWords
  | bytes

/-- A byte of the memory that the key starts in. -/
def byteAt (memory : List UInt8) (i : Nat) : UInt32 := (memory.getD i 0).toUInt32

/-- A 16-bit word of it, on a machine with the low byte first. -/
def halfWordAt (memory : List UInt8) (i : Nat) : UInt32 :=
  byteAt memory (2 * i) + byteAt memory (2 * i + 1) <<< 8

/-- A 32-bit word of it -/
def wordAt (memory : List UInt8) (i : Nat) : UInt32 :=
  byteAt memory (4 * i) + byteAt memory (4 * i + 1) <<< 8 + byteAt memory (4 * i + 2) <<< 16 +
    byteAt memory (4 * i + 3) <<< 24

/-- "all but last block": twelve bytes are added to the state, read as words, half-words or
bytes as the address of the key allows. -/
def HashState.addBlock (s : HashState) (memory : List UInt8) : KeyAccess → HashState
  | .words => ⟨s.a + wordAt memory 0, s.b + wordAt memory 1, s.c + wordAt memory 2⟩
  | .halfWords =>
      ⟨s.a + (halfWordAt memory 0 + halfWordAt memory 1 <<< 16),
       s.b + (halfWordAt memory 2 + halfWordAt memory 3 <<< 16),
       s.c + (halfWordAt memory 4 + halfWordAt memory 5 <<< 16)⟩
  | .bytes =>
      ⟨s.a + byteAt memory 0 + byteAt memory 1 <<< 8 + byteAt memory 2 <<< 16 +
         byteAt memory 3 <<< 24,
       s.b + byteAt memory 4 + byteAt memory 5 <<< 8 + byteAt memory 6 <<< 16 +
         byteAt memory 7 <<< 24,
       s.c + byteAt memory 8 + byteAt memory 9 <<< 8 + byteAt memory 10 <<< 16 +
         byteAt memory 11 <<< 24⟩

/-- The addition of the case `i + 1` of the `switch` for single bytes -/
def HashState.addByte (s : HashState) (i : Nat) (k : UInt32) : HashState :=
  match i with
  | 0 => { s with a := s.a + k }
  | 1 => { s with a := s.a + k <<< 8 }
  | 2 => { s with a := s.a + k <<< 16 }
  | 3 => { s with a := s.a + k <<< 24 }
  | 4 => { s with b := s.b + k }
  | 5 => { s with b := s.b + k <<< 8 }
  | 6 => { s with b := s.b + k <<< 16 }
  | 7 => { s with b := s.b + k <<< 24 }
  | 8 => { s with c := s.c + k }
  | 9 => { s with c := s.c + k <<< 8 }
  | 10 => { s with c := s.c + k <<< 16 }
  | 11 => { s with c := s.c + k <<< 24 }
  | _ => s

/-- "all the case statements fall through" -/
def HashState.addBytes (memory : List UInt8) : (length : Nat) → HashState → HashState
  | 0, s => s
  | i + 1, s => addBytes memory i (s.addByte i (byteAt memory i))

/-- "handle the last (probably partial) block": a read of whole words goes beyond the key and
masks off what is not of it; the other reads stop at the end of the key. -/
def HashState.addLast (s : HashState) (memory : List UInt8) (length : Nat) : KeyAccess → HashState
  | .words =>
      match length with
      | 12 => ⟨s.a + wordAt memory 0, s.b + wordAt memory 1, s.c + wordAt memory 2⟩
      | 11 => ⟨s.a + wordAt memory 0, s.b + wordAt memory 1, s.c + (wordAt memory 2 &&& 0xffffff)⟩
      | 10 => ⟨s.a + wordAt memory 0, s.b + wordAt memory 1, s.c + (wordAt memory 2 &&& 0xffff)⟩
      | 9 => ⟨s.a + wordAt memory 0, s.b + wordAt memory 1, s.c + (wordAt memory 2 &&& 0xff)⟩
      | 8 => ⟨s.a + wordAt memory 0, s.b + wordAt memory 1, s.c⟩
      | 7 => ⟨s.a + wordAt memory 0, s.b + (wordAt memory 1 &&& 0xffffff), s.c⟩
      | 6 => ⟨s.a + wordAt memory 0, s.b + (wordAt memory 1 &&& 0xffff), s.c⟩
      | 5 => ⟨s.a + wordAt memory 0, s.b + (wordAt memory 1 &&& 0xff), s.c⟩
      | 4 => ⟨s.a + wordAt memory 0, s.b, s.c⟩
      | 3 => ⟨s.a + (wordAt memory 0 &&& 0xffffff), s.b, s.c⟩
      | 2 => ⟨s.a + (wordAt memory 0 &&& 0xffff), s.b, s.c⟩
      | 1 => ⟨s.a + (wordAt memory 0 &&& 0xff), s.b, s.c⟩
      | _ => s
  | .halfWords =>
      let first := halfWordAt memory 0 + halfWordAt memory 1 <<< 16
      let second := halfWordAt memory 2 + halfWordAt memory 3 <<< 16
      match length with
      | 12 => ⟨s.a + first, s.b + second, s.c + (halfWordAt memory 4 + halfWordAt memory 5 <<< 16)⟩
      | 11 => ⟨s.a + first, s.b + second, s.c + byteAt memory 10 <<< 16 + halfWordAt memory 4⟩
      | 10 => ⟨s.a + first, s.b + second, s.c + halfWordAt memory 4⟩
      | 9 => ⟨s.a + first, s.b + second, s.c + byteAt memory 8⟩
      | 8 => ⟨s.a + first, s.b + second, s.c⟩
      | 7 => ⟨s.a + first, s.b + byteAt memory 6 <<< 16 + halfWordAt memory 2, s.c⟩
      | 6 => ⟨s.a + first, s.b + halfWordAt memory 2, s.c⟩
      | 5 => ⟨s.a + first, s.b + byteAt memory 4, s.c⟩
      | 4 => ⟨s.a + first, s.b, s.c⟩
      | 3 => ⟨s.a + byteAt memory 2 <<< 16 + halfWordAt memory 0, s.b, s.c⟩
      | 2 => ⟨s.a + halfWordAt memory 0, s.b, s.c⟩
      | 1 => ⟨s.a + byteAt memory 0, s.b, s.c⟩
      | _ => s
  | .bytes => s.addBytes memory length

/-- The loop over the blocks of twelve bytes, with this many left at most. -/
def hashLoop (access : KeyAccess) :
    (left : Nat) → (memory : List UInt8) → (length : Nat) → HashState → UInt32
  | 0, _, _, s => s.c
  | left + 1, memory, length, s =>
      if 12 < length then
        hashLoop access left (memory.drop 12) (length - 12) (s.addBlock memory access).mix
      else if length = 0 then s.c
      else 32767 &&& (s.addLast memory length access).final

/-- `nhash(key, length, initval)` of the key that starts in this memory -/
def nhash (access : KeyAccess) (memory : List UInt8) (length : Nat) (initval : UInt32) : UInt32 :=
  let s := 0xdeadbeef + UInt32.ofNat length + initval
  hashLoop access (length + 1) memory length ⟨s, s, s⟩

theorem byteAt_lt (memory : List UInt8) (i : Nat) : (byteAt memory i).toNat < 256 := by
  rw [byteAt, UInt8.toNat_toUInt32]
  exact UInt8.toNat_lt _

theorem toNat_shift {x k : UInt32} (hk : k.toNat < 32) (hx : x.toNat * 2 ^ k.toNat < 2 ^ 32) :
    (x <<< k).toNat = x.toNat * 2 ^ k.toNat := by
  rw [UInt32.toNat_shiftLeft, Nat.mod_eq_of_lt hk, Nat.shiftLeft_eq, Nat.mod_eq_of_lt hx]

theorem wordAt_toNat (memory : List UInt8) (i : Nat) :
    (wordAt memory i).toNat = (byteAt memory (4 * i)).toNat +
      (byteAt memory (4 * i + 1)).toNat * 256 + (byteAt memory (4 * i + 2)).toNat * 65536 +
        (byteAt memory (4 * i + 3)).toNat * 16777216 := by
  have h0 := byteAt_lt memory (4 * i)
  have h1 := byteAt_lt memory (4 * i + 1)
  have h2 := byteAt_lt memory (4 * i + 2)
  have h3 := byteAt_lt memory (4 * i + 3)
  rw [wordAt, UInt32.toNat_add, UInt32.toNat_add, UInt32.toNat_add, toNat_shift (by decide),
    toNat_shift (by decide), toNat_shift (by decide)]
  all_goals simp only [UInt32.reduceToNat]
  all_goals omega

/-- The masks of the last word keep the bytes of the key. -/
theorem wordAt_and (memory : List UInt8) (i : Nat) :
    wordAt memory i &&& (0xff : UInt32) = byteAt memory (4 * i) ∧
      wordAt memory i &&& (0xffff : UInt32) =
        byteAt memory (4 * i + 1) <<< 8 + byteAt memory (4 * i) ∧
      wordAt memory i &&& (0xffffff : UInt32) = byteAt memory (4 * i + 2) <<< 16 +
        (byteAt memory (4 * i + 1) <<< 8 + byteAt memory (4 * i)) := by
  have h0 := byteAt_lt memory (4 * i)
  have h1 := byteAt_lt memory (4 * i + 1)
  have h2 := byteAt_lt memory (4 * i + 2)
  have hmask : ∀ n, (wordAt memory i).toNat &&& (2 ^ n - 1) = (wordAt memory i).toNat % 2 ^ n :=
    Nat.and_two_pow_sub_one_eq_mod _
  refine ⟨?_, ?_, ?_⟩ <;> apply UInt32.toNat_inj.mp
  · have hlow := hmask 8
    rw [wordAt_toNat] at hlow
    rw [UInt32.toNat_and, wordAt_toNat]
    exact hlow.trans (by omega)
  · have hlow := hmask 16
    rw [wordAt_toNat] at hlow
    rw [UInt32.toNat_and, wordAt_toNat, UInt32.toNat_add, toNat_shift (by decide)]
    · simp only [UInt32.reduceToNat]
      exact hlow.trans (by omega)
    · simp only [UInt32.reduceToNat]
      omega
  · have hlow := hmask 24
    rw [wordAt_toNat] at hlow
    rw [UInt32.toNat_and, wordAt_toNat, UInt32.toNat_add, UInt32.toNat_add,
      toNat_shift (by decide), toNat_shift (by decide)]
    · simp only [UInt32.reduceToNat]
      exact hlow.trans (by omega)
    all_goals
      simp only [UInt32.reduceToNat]
      omega

theorem halfWordAt_toNat (memory : List UInt8) (i : Nat) :
    (halfWordAt memory i).toNat =
      (byteAt memory (2 * i)).toNat + (byteAt memory (2 * i + 1)).toNat * 256 := by
  have h0 := byteAt_lt memory (2 * i)
  have h1 := byteAt_lt memory (2 * i + 1)
  rw [halfWordAt, UInt32.toNat_add, toNat_shift (by decide)]
  all_goals simp only [UInt32.reduceToNat]
  all_goals omega

/-- Two half words make a word. -/
theorem halfWordAt_add (memory : List UInt8) (i : Nat) :
    halfWordAt memory (2 * i) + halfWordAt memory (2 * i + 1) <<< 16 = wordAt memory i := by
  have h0 := byteAt_lt memory (4 * i)
  have h1 := byteAt_lt memory (4 * i + 1)
  have h2 := byteAt_lt memory (4 * i + 2)
  have h3 := byteAt_lt memory (4 * i + 3)
  have hfirst := halfWordAt_toNat memory (2 * i)
  have hsecond := halfWordAt_toNat memory (2 * i + 1)
  rw [show 2 * (2 * i) = 4 * i by omega] at hfirst
  rw [show 2 * (2 * i + 1) = 4 * i + 2 by omega,
    show 4 * i + 2 + 1 = 4 * i + 3 by omega] at hsecond
  apply UInt32.toNat_inj.mp
  rw [wordAt_toNat, UInt32.toNat_add, toNat_shift (by decide), hfirst, hsecond]
  all_goals simp only [UInt32.reduceToNat]
  all_goals omega

theorem add_wordAt (x : UInt32) (memory : List UInt8) (i : Nat) :
    x + wordAt memory i = x + byteAt memory (4 * i) + byteAt memory (4 * i + 1) <<< 8 +
      byteAt memory (4 * i + 2) <<< 16 + byteAt memory (4 * i + 3) <<< 24 := by
  rw [wordAt, ← UInt32.add_assoc, ← UInt32.add_assoc, ← UInt32.add_assoc]

theorem addBlock_eq (s : HashState) (memory : List UInt8) (access : KeyAccess) :
    s.addBlock memory access = s.addBlock memory .bytes := by
  have hwords : s.addBlock memory .words = s.addBlock memory .bytes := by
    rw [HashState.addBlock, HashState.addBlock, HashState.mk.injEq]
    exact ⟨add_wordAt s.a memory 0, add_wordAt s.b memory 1, add_wordAt s.c memory 2⟩
  cases access with
  | words => exact hwords
  | halfWords =>
      rw [← hwords, HashState.addBlock, HashState.addBlock, HashState.mk.injEq]
      exact ⟨congrArg (s.a + ·) (halfWordAt_add memory 0),
        congrArg (s.b + ·) (halfWordAt_add memory 1), congrArg (s.c + ·) (halfWordAt_add memory 2)⟩
  | bytes => rfl

theorem add_reversed (x first second third fourth : UInt32) :
    x + fourth + third + second + first = x + (first + second + third + fourth) := by
  ac_rfl

/-- Four bytes from the last one to the first are a word. -/
theorem addBytes_four (memory : List UInt8) (s : HashState) :
    s.addBytes memory 4 = ⟨s.a + wordAt memory 0, s.b, s.c⟩ := by
  rw [wordAt, ← add_reversed]
  simp only [HashState.addBytes, HashState.addByte, Nat.mul_zero, Nat.zero_add]

theorem addBytes_eight (memory : List UInt8) (s : HashState) :
    s.addBytes memory 8 = ⟨s.a + wordAt memory 0, s.b + wordAt memory 1, s.c⟩ := by
  rw [wordAt.eq_def memory 1, ← add_reversed, HashState.addBytes, HashState.addBytes,
    HashState.addBytes, HashState.addBytes, addBytes_four]
  simp only [HashState.addByte, Nat.mul_one, Nat.reduceAdd]

/-- The words of the last block, with their masks -/
theorem addLast_words (s : HashState) (memory : List UInt8) {length : Nat} (h : length ≤ 12) :
    s.addLast memory length .words = s.addBytes memory length := by
  obtain ⟨hbyte0, hhalf0, hthree0⟩ := wordAt_and memory 0
  obtain ⟨hbyte1, hhalf1, hthree1⟩ := wordAt_and memory 1
  obtain ⟨hbyte2, hhalf2, hthree2⟩ := wordAt_and memory 2
  match length, h with
  | 0, _ => simp only [HashState.addLast, HashState.addBytes]
  | 1, _ | 2, _ | 3, _ =>
      simp only [HashState.addLast, HashState.addBytes, HashState.addByte, hbyte0, hhalf0, hthree0,
        ← UInt32.add_assoc, Nat.mul_zero, Nat.zero_add]
  | 4, _ =>
      rw [addBytes_four]
      simp only [HashState.addLast]
  | 5, _ =>
      rw [HashState.addBytes, addBytes_four]
      simp only [HashState.addLast, HashState.addByte, hbyte1, Nat.mul_one]
  | 6, _ =>
      rw [HashState.addBytes, HashState.addBytes, addBytes_four]
      simp only [HashState.addLast, HashState.addByte, hhalf1, ← UInt32.add_assoc, Nat.mul_one,
        Nat.reduceAdd]
  | 7, _ =>
      rw [HashState.addBytes, HashState.addBytes, HashState.addBytes, addBytes_four]
      simp only [HashState.addLast, HashState.addByte, hthree1, ← UInt32.add_assoc, Nat.mul_one,
        Nat.reduceAdd]
  | 8, _ =>
      rw [addBytes_eight]
      simp only [HashState.addLast]
  | 9, _ =>
      rw [HashState.addBytes, addBytes_eight]
      simp only [HashState.addLast, HashState.addByte, hbyte2, Nat.reduceMul]
  | 10, _ =>
      rw [HashState.addBytes, HashState.addBytes, addBytes_eight]
      simp only [HashState.addLast, HashState.addByte, hhalf2, ← UInt32.add_assoc, Nat.reduceMul,
        Nat.reduceAdd]
  | 11, _ =>
      rw [HashState.addBytes, HashState.addBytes, HashState.addBytes, addBytes_eight]
      simp only [HashState.addLast, HashState.addByte, hthree2, ← UInt32.add_assoc, Nat.reduceMul,
        Nat.reduceAdd]
  | 12, _ =>
      rw [HashState.addBytes, HashState.addBytes, HashState.addBytes, HashState.addBytes,
        addBytes_eight, HashState.addLast, wordAt.eq_def memory 2, ← add_reversed]
      simp only [HashState.addByte, Nat.reduceMul, Nat.reduceAdd]
  | length + 13, h => omega

/-- The half words of the last block -/
theorem addLast_halfWords (s : HashState) (memory : List UInt8) (length : Nat) :
    s.addLast memory length .halfWords = s.addLast memory length .words := by
  have hword0 : halfWordAt memory 0 + halfWordAt memory 1 <<< 16 = wordAt memory 0 :=
    halfWordAt_add memory 0
  have hword1 : halfWordAt memory 2 + halfWordAt memory 3 <<< 16 = wordAt memory 1 :=
    halfWordAt_add memory 1
  have hword2 : halfWordAt memory 4 + halfWordAt memory 5 <<< 16 = wordAt memory 2 :=
    halfWordAt_add memory 2
  have hlow : ∀ i, byteAt memory (4 * i + 1) <<< 8 + byteAt memory (4 * i) =
      halfWordAt memory (2 * i) := by
    intro i
    rw [halfWordAt, UInt32.add_comm, ← Nat.mul_assoc]
  obtain ⟨hbyte0, hhalf0, hthree0⟩ := wordAt_and memory 0
  obtain ⟨hbyte1, hhalf1, hthree1⟩ := wordAt_and memory 1
  obtain ⟨hbyte2, hhalf2, hthree2⟩ := wordAt_and memory 2
  rw [hlow] at hhalf0 hhalf1 hhalf2 hthree0 hthree1 hthree2
  simp only [HashState.addLast, hword0, hword1, hword2, hbyte0, hhalf0, hthree0, hbyte1, hhalf1,
    hthree1, hbyte2, hhalf2, hthree2, UInt32.add_assoc, Nat.reduceMul]

theorem addLast_eq (s : HashState) (memory : List UInt8) (access : KeyAccess) {length : Nat}
    (h : length ≤ 12) : s.addLast memory length access = s.addBytes memory length := by
  cases access with
  | words => exact addLast_words s memory h
  | halfWords => rw [addLast_halfWords, addLast_words s memory h]
  | bytes => rfl

theorem byteAt_append {key : List UInt8} {i : Nat} (h : i < key.length) (trail : List UInt8) :
    byteAt (key ++ trail) i = byteAt key i := by
  rw [byteAt, byteAt, List.getD_append _ _ _ _ h]

theorem addBytes_append (trail : List UInt8) {key : List UInt8} {length : Nat}
    (h : length ≤ key.length) (s : HashState) :
    s.addBytes (key ++ trail) length = s.addBytes key length := by
  induction length generalizing s with
  | zero => rfl
  | succ i ih =>
      rw [HashState.addBytes, HashState.addBytes, byteAt_append (by omega), ih (by omega)]

theorem addBlock_append (trail : List UInt8) {key : List UInt8} (h : 12 ≤ key.length)
    (s : HashState) : s.addBlock (key ++ trail) .bytes = s.addBlock key .bytes := by
  have hbyte : ∀ i < 12, byteAt (key ++ trail) i = byteAt key i :=
    fun i hi => byteAt_append (by omega) trail
  rw [HashState.addBlock, HashState.addBlock, hbyte 0 (by decide), hbyte 1 (by decide),
    hbyte 2 (by decide), hbyte 3 (by decide), hbyte 4 (by decide), hbyte 5 (by decide),
    hbyte 6 (by decide), hbyte 7 (by decide), hbyte 8 (by decide), hbyte 9 (by decide),
    hbyte 10 (by decide), hbyte 11 (by decide)]

/-- The loop over blocks of twelve bytes gives the same with each way of reading, and the bytes
behind the key are masked away in the last block. -/
theorem hashLoop_eq (access : KeyAccess) (trail : List UInt8) (left : Nat) (key : List UInt8)
    (s : HashState) : hashLoop access left (key ++ trail) key.length s =
      hashLoop .bytes left key key.length s := by
  induction left generalizing key s with
  | zero => rfl
  | succ left ih =>
      simp only [hashLoop]
      split
      · next hblock =>
          have hdrop : (key ++ trail).drop 12 = key.drop 12 ++ trail :=
            List.drop_append_of_le_length hblock.le
          have hrest := ih (key.drop 12) (s.addBlock key .bytes).mix
          rw [List.length_drop] at hrest
          rw [addBlock_eq, addBlock_append trail hblock.le, hdrop, hrest]
      · next hlast =>
          rw [addLast_eq _ _ _ (not_lt.mp hlast), addBytes_append trail le_rfl,
            addLast_eq _ _ _ (not_lt.mp hlast)]

/-- **The hash is one of the key alone.** It does not depend on the width of the words that
the address of the key allows to read, nor on the memory behind the key that the reads of
whole words go into. -/
theorem nhash_access (access : KeyAccess) (key trail : List UInt8) (initval : UInt32) :
    nhash access (key ++ trail) key.length initval = nhash .bytes key key.length initval :=
  hashLoop_eq access trail _ _ _

theorem hashLoop_lt (access : KeyAccess) (left : Nat) (memory : List UInt8) {length : Nat}
    (s : HashState) (hpos : 0 < length) (hleft : length < left) :
    (hashLoop access left memory length s).toNat < 32768 := by
  induction left generalizing memory length s with
  | zero => omega
  | succ left ih =>
      simp only [hashLoop]
      split
      · exact ih _ _ (by omega) (by omega)
      · rw [if_neg hpos.ne', UInt32.toNat_and]
        exact Nat.lt_of_le_of_lt Nat.and_le_left (by decide)

/-- The hash of a key that is not empty is one of the places of the tables. -/
theorem nhash_lt (access : KeyAccess) (memory : List UInt8) {length : Nat} (hpos : 0 < length)
    (initval : UInt32) : (nhash access memory length initval).toNat < 32768 :=
  hashLoop_lt access _ memory _ hpos (Nat.lt_succ_self _)

end AirspyhfWsprd.Wspr
