import Rivloom.Lib.Json

/-!
# SHA-256

The hash function of the modelled code, as the standard defines it: the message is
padded to whole blocks of 64 bytes, and each block is mixed into eight words of state
over 64 rounds. Nothing is assumed about it. Where a result needs two hashes to
differ, it says between which inputs no collision is assumed.
-/

namespace Rivloom

/-- 32 bytes. -/
abbrev Digest : Type := { l : List UInt8 // l.length = 32 }

namespace Sha256

/-- The round constants. -/
def roundConstants : List UInt32 :=
  [0x428a2f98, 0x71374491, 0xb5c0fbcf, 0xe9b5dba5, 0x3956c25b, 0x59f111f1, 0x923f82a4, 0xab1c5ed5,
    0xd807aa98, 0x12835b01, 0x243185be, 0x550c7dc3, 0x72be5d74, 0x80deb1fe, 0x9bdc06a7, 0xc19bf174,
    0xe49b69c1, 0xefbe4786, 0x0fc19dc6, 0x240ca1cc, 0x2de92c6f, 0x4a7484aa, 0x5cb0a9dc, 0x76f988da,
    0x983e5152, 0xa831c66d, 0xb00327c8, 0xbf597fc7, 0xc6e00bf3, 0xd5a79147, 0x06ca6351, 0x14292967,
    0x27b70a85, 0x2e1b2138, 0x4d2c6dfc, 0x53380d13, 0x650a7354, 0x766a0abb, 0x81c2c92e, 0x92722c85,
    0xa2bfe8a1, 0xa81a664b, 0xc24b8b70, 0xc76c51a3, 0xd192e819, 0xd6990624, 0xf40e3585, 0x106aa070,
    0x19a4c116, 0x1e376c08, 0x2748774c, 0x34b0bcb5, 0x391c0cb3, 0x4ed8aa4a, 0x5b9cca4f, 0x682e6ff3,
    0x748f82ee, 0x78a5636f, 0x84c87814, 0x8cc70208, 0x90befffa, 0xa4506ceb, 0xbef9a3f7, 0xc67178f2]

/-- The eight words of state. -/
structure State where
  a : UInt32
  b : UInt32
  c : UInt32
  d : UInt32
  e : UInt32
  f : UInt32
  g : UInt32
  h : UInt32

/-- The state before the first block. -/
def State.initial : State :=
  ⟨0x6a09e667, 0xbb67ae85, 0x3c6ef372, 0xa54ff53a, 0x510e527f, 0x9b05688c, 0x1f83d9ab, 0x5be0cd19⟩

/-- The sum of two states, word by word. -/
def State.add (s t : State) : State :=
  ⟨s.a + t.a, s.b + t.b, s.c + t.c, s.d + t.d, s.e + t.e, s.f + t.f, s.g + t.g, s.h + t.h⟩

/-- Rotate a word to the right. -/
def rotate (w n : UInt32) : UInt32 := (w >>> n) ||| (w <<< (32 - n))

/-- The four bytes of a word, the greatest first. -/
def bytesOfWord (w : UInt32) : List UInt8 :=
  [(w >>> 24).toUInt8, (w >>> 16).toUInt8, (w >>> 8).toUInt8, w.toUInt8]

/-- The words of bytes, four to each. -/
def wordsOfBytes : List UInt8 → List UInt32
  | w :: x :: y :: z :: rest =>
    ((w.toUInt32 <<< 24) ||| (x.toUInt32 <<< 16) ||| (y.toUInt32 <<< 8) ||| z.toUInt32) ::
      wordsOfBytes rest
  | _ => []

/-- The next word of the schedule from the sixteen before it, the latest first. -/
def nextWord : List UInt32 → UInt32
  | [_, w2, _, _, _, _, w7, _, _, _, _, _, _, _, w15, w16] =>
    let s0 := rotate w15 7 ^^^ rotate w15 18 ^^^ (w15 >>> 3)
    let s1 := rotate w2 17 ^^^ rotate w2 19 ^^^ (w2 >>> 10)
    w16 + s0 + w7 + s1
  | _ => 0

/-- One round, with the round's constant and its word of the schedule. -/
def round (s : State) (k w : UInt32) : State :=
  let s1 := rotate s.e 6 ^^^ rotate s.e 11 ^^^ rotate s.e 25
  let ch := (s.e &&& s.f) ^^^ (s.e.complement &&& s.g)
  let temp1 := s.h + s1 + ch + k + w
  let s0 := rotate s.a 2 ^^^ rotate s.a 13 ^^^ rotate s.a 22
  let maj := (s.a &&& s.b) ^^^ (s.a &&& s.c) ^^^ (s.b &&& s.c)
  ⟨temp1 + (s0 + maj), s.a, s.b, s.c, s.d + temp1, s.e, s.f, s.g⟩

/-- The rounds that are left, over the sixteen latest words of the schedule, the
earliest of them the next to use. -/
def rounds : List UInt32 → List UInt32 → State → State
  | [], _, s => s
  | k :: ks, window, s =>
    rounds ks (nextWord window :: window.dropLast) (round s k (window.getLast?.getD 0))

/-- Mix one block into the state. -/
def compress (s : State) (block : List UInt8) : State :=
  s.add (rounds roundConstants (wordsOfBytes block).reverse s)

/-- The message followed by its padding: a one bit, zeros up to the last eight bytes of
a block, and there the length in bits. -/
def pad (message : List UInt8) : List UInt8 :=
  let bits := 8 * message.length
  message ++ 0x80 :: List.replicate ((119 - message.length % 64) % 64) 0 ++
    bytesOfWord (UInt32.ofNat (bits / 2 ^ 32)) ++ bytesOfWord (UInt32.ofNat bits)

/-- Mix a number of blocks into the state. -/
def blocks : ℕ → List UInt8 → State → State
  | 0, _, s => s
  | n + 1, bytes, s => blocks n (bytes.drop 64) (compress s (bytes.take 64))

/-- The bytes of a state. -/
def State.bytes (s : State) : Digest :=
  ⟨bytesOfWord s.a ++ bytesOfWord s.b ++ bytesOfWord s.c ++ bytesOfWord s.d ++
    bytesOfWord s.e ++ bytesOfWord s.f ++ bytesOfWord s.g ++ bytesOfWord s.h, rfl⟩

/-- **The hash of bytes**: `Sha256::digest`. -/
def digest (bytes : ByteArray) : Digest :=
  let padded := pad bytes.data.toList
  (blocks (padded.length / 64) padded State.initial).bytes

end Sha256

/-- The digits `format!("{:x}")` writes for a hash. -/
def Digest.hex (d : Digest) : String :=
  String.ofList (d.val.flatMap fun b =>
    [(b.toNat / 16).digitChar, (b.toNat % 16).digitChar])

/-- A hexadecimal digit is a digit or a letter up to `f`. -/
theorem digitChar_hex {n : ℕ} (h : n < 16) :
    ((Nat.digitChar n).isDigit || ('a' ≤ Nat.digitChar n && Nat.digitChar n ≤ 'f')) = true ∧
      (Nat.digitChar n).utf8Size = 1 := by
  have hall : ∀ m : Fin 16,
      ((Nat.digitChar m).isDigit || ('a' ≤ Nat.digitChar m && Nat.digitChar m ≤ 'f')) = true ∧
        (Nat.digitChar m).utf8Size = 1 := by decide
  exact hall ⟨n, h⟩

/-- The digits of a byte are hexadecimal. -/
theorem hexDigits_hex (l : List UInt8) :
    let digits := l.flatMap fun b => [(b.toNat / 16).digitChar, (b.toNat % 16).digitChar]
    byteLength digits = 2 * l.length ∧
      digits.all (fun c => c.isDigit || ('a' ≤ c && c ≤ 'f')) = true := by
  induction l with
  | nil => exact ⟨rfl, rfl⟩
  | cons b l ih =>
    have hb : b.toNat < 256 := b.toNat_lt
    have h1 := digitChar_hex (n := b.toNat / 16) (by omega)
    have h2 := digitChar_hex (n := b.toNat % 16) (by omega)
    refine ⟨?_, ?_⟩
    · simp only [List.flatMap_cons, List.cons_append, List.nil_append]
      rw [byteLength_cons_one h1.2, byteLength_cons_one h2.2, ih.1, List.length_cons]
      omega
    · simp only [List.flatMap_cons, List.cons_append, List.nil_append, List.all_cons, ih.2,
        h1.1, h2.1, Bool.and_true]

/-- **A hash has 64 digits.** -/
theorem Digest.hex_spec (d : Digest) :
    d.hex.utf8ByteSize = 64 ∧
      d.hex.toList.all (fun c => c.isDigit || ('a' ≤ c && c ≤ 'f')) = true := by
  obtain ⟨hlength, hall⟩ := hexDigits_hex d.val
  rw [d.2] at hlength
  unfold Digest.hex
  rw [utf8ByteSize_ofList, hlength, String.toList_ofList]
  exact ⟨rfl, hall⟩

set_option maxRecDepth 20000 in
example : (Sha256.digest "abc".toUTF8).hex =
    "ba7816bf8f01cfea414140de5dae2223b00361a396177a9cb410ff61f20015ad" := by
  decide +kernel

end Rivloom
