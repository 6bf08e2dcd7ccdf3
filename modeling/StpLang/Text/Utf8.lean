/-!
Reading UTF-8.

`decode` reads a whole file. Bytes that are no UTF-8 are reported by a `Fault`:
the range of the bytes that were taken for one character, and why they are
none.

* `Lead.of?` tells how many bytes a first byte announces, and which second
  byte may follow it.
* `decode` stops at the first fault.
-/

namespace StpLang.Text

namespace Utf8

/-- Why bytes are not UTF-8. -/
inductive Reason where
  /-- No character starts with this byte. -/
  | start
  /-- A byte that should continue the character does not. -/
  | continuation
  /-- The bytes end within a character. -/
  | truncated
deriving DecidableEq, Repr

/-- Bytes that are not UTF-8: `count` of them from `offset` on. -/
structure Fault where
  /-- Where the faulty character starts. -/
  offset : Nat
  /-- Its first byte. -/
  first : UInt8
  /-- How many bytes belong to it. -/
  count : Nat
  /-- What is wrong with them. -/
  reason : Reason
deriving DecidableEq, Repr

/-- The wording of a reason. -/
def Reason.message : Reason → String
  | .start => "invalid start byte"
  | .continuation => "invalid continuation byte"
  | .truncated => "unexpected end of data"

/-- What a first byte announces. -/
structure Lead where
  /-- The bits that the first byte holds. -/
  bits : Nat
  /-- The number of bytes that follow. -/
  more : Nat
  /-- The least second byte. -/
  low : UInt8
  /-- The greatest second byte. -/
  high : UInt8

/-- What the byte `b` announces, if a character can start with it. The bounds
on the second byte leave out overlong forms, surrogates and numbers that are
too large. -/
def Lead.of? (b : UInt8) : Option Lead :=
  if b < 0x80 then some ⟨b.toNat, 0, 0x80, 0xbf⟩
  else if b < 0xc2 then none
  else if b < 0xe0 then some ⟨b.toNat - 0xc0, 1, 0x80, 0xbf⟩
  else if b = 0xe0 then some ⟨0, 2, 0xa0, 0xbf⟩
  else if b = 0xed then some ⟨0xd, 2, 0x80, 0x9f⟩
  else if b < 0xf0 then some ⟨b.toNat - 0xe0, 2, 0x80, 0xbf⟩
  else if b = 0xf0 then some ⟨0, 3, 0x90, 0xbf⟩
  else if b < 0xf4 then some ⟨b.toNat - 0xf0, 3, 0x80, 0xbf⟩
  else if b = 0xf4 then some ⟨4, 3, 0x80, 0x8f⟩
  else none

/-- What reading the bytes after the first one gives. -/
inductive Tail where
  /-- The number of the character, and the bytes behind it. -/
  | read (number : Nat) (rest : List UInt8)
  /-- A fault, after `good` bytes that fit. -/
  | broken (reason : Reason) (good : Nat)

/-- Reads `more` bytes of a character of which `number` is known so far. The
next byte lies between `low` and `high`, the later ones between `80` and
`bf`. -/
def tail (low high : UInt8) (number good : Nat) : Nat → List UInt8 → Tail
  | 0, bs => .read number bs
  | _ + 1, [] => .broken .truncated good
  | more + 1, b :: bs =>
    if low ≤ b && b ≤ high then
      tail 0x80 0xbf (number * 64 + (b.toNat - 0x80)) (good + 1) more bs
    else .broken .continuation good

/-- Reading a character only takes bytes away. -/
theorem length_le_of_tail_eq_read {low high : UInt8} {number good more n : Nat}
    {bs rest : List UInt8} (h : tail low high number good more bs = .read n rest) :
    rest.length ≤ bs.length := by
  induction more generalizing low high number good bs with
  | zero => cases bs <;> simp_all [tail]
  | succ more ih =>
    cases bs with
    | nil => simp [tail] at h
    | cons b bs =>
      rw [tail] at h
      split at h
      · exact Nat.le_succ_of_le (ih h)
      · simp at h

/-- Reads the bytes from `offset` on. -/
def decodeFrom (offset : Nat) : List UInt8 → Except Fault (List Char)
  | [] => .ok []
  | b :: bs =>
    match Lead.of? b with
    | none => .error ⟨offset, b, 1, .start⟩
    | some lead =>
      match h : tail lead.low lead.high lead.bits 1 lead.more bs with
      | .broken reason good => .error ⟨offset, b, good, reason⟩
      | .read number rest => do
        -- the rest is no longer than what follows the first byte
        have := length_le_of_tail_eq_read h
        return Char.ofNat number :: (← decodeFrom (offset + 1 + lead.more) rest)
termination_by bs => bs.length
decreasing_by simp; omega

/-- The text that the bytes write. -/
def decode (bytes : List UInt8) : Except Fault (List Char) :=
  decodeFrom 0 bytes

end Utf8

end StpLang.Text
