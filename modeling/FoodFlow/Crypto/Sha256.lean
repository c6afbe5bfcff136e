import Mathlib.Data.List.Basic
import Mathlib.Algebra.Group.Nat.Defs

/-!
# SHA-256

The hash function of FIPS 180-4 on lists of bytes, and its hexadecimal digest:

* `Sha256.hexdigest` : the digest of a list of bytes;
* `Sha256.length_hexdigest`, `Sha256.nul_not_mem_hexdigest` : 64 characters, none of them 0.
-/

namespace FoodFlow

namespace Sha256

/-- A word. -/
abbrev Word := BitVec 32

/-- The round constants. -/
def roundConstants : List Word := [
  0x428a2f98, 0x71374491, 0xb5c0fbcf, 0xe9b5dba5, 0x3956c25b, 0x59f111f1, 0x923f82a4, 0xab1c5ed5,
  0xd807aa98, 0x12835b01, 0x243185be, 0x550c7dc3, 0x72be5d74, 0x80deb1fe, 0x9bdc06a7, 0xc19bf174,
  0xe49b69c1, 0xefbe4786, 0x0fc19dc6, 0x240ca1cc, 0x2de92c6f, 0x4a7484aa, 0x5cb0a9dc, 0x76f988da,
  0x983e5152, 0xa831c66d, 0xb00327c8, 0xbf597fc7, 0xc6e00bf3, 0xd5a79147, 0x06ca6351, 0x14292967,
  0x27b70a85, 0x2e1b2138, 0x4d2c6dfc, 0x53380d13, 0x650a7354, 0x766a0abb, 0x81c2c92e, 0x92722c85,
  0xa2bfe8a1, 0xa81a664b, 0xc24b8b70, 0xc76c51a3, 0xd192e819, 0xd6990624, 0xf40e3585, 0x106aa070,
  0x19a4c116, 0x1e376c08, 0x2748774c, 0x34b0bcb5, 0x391c0cb3, 0x4ed8aa4a, 0x5b9cca4f, 0x682e6ff3,
  0x748f82ee, 0x78a5636f, 0x84c87814, 0x8cc70208, 0x90befffa, 0xa4506ceb, 0xbef9a3f7, 0xc67178f2]

/-- The working variables, and the hash value between two blocks. -/
structure State where
  a : Word
  b : Word
  c : Word
  d : Word
  e : Word
  f : Word
  g : Word
  h : Word

/-- The initial hash value. -/
def initial : State := ⟨0x6a09e667, 0xbb67ae85, 0x3c6ef372, 0xa54ff53a, 0x510e527f, 0x9b05688c,
  0x1f83d9ab, 0x5be0cd19⟩

/-- Extend the message schedule, kept with its latest word first, by `n` words. -/
def extend : ℕ → List Word → List Word
  | 0, w => w
  | n + 1, w =>
    let w₁₅ := w.getD 14 0
    let w₂ := w.getD 1 0
    let s₀ := w₁₅.rotateRight 7 ^^^ w₁₅.rotateRight 18 ^^^ (w₁₅ >>> 3)
    let s₁ := w₂.rotateRight 17 ^^^ w₂.rotateRight 19 ^^^ (w₂ >>> 10)
    extend n ((w.getD 15 0 + s₀ + w.getD 6 0 + s₁) :: w)

/-- The message schedule of a block of 16 words. -/
def schedule (block : List Word) : List Word := (extend 48 block.reverse).reverse

/-- One round, with its constant and its word of the schedule. -/
def round (s : State) (kw : Word × Word) : State :=
  let S₁ := s.e.rotateRight 6 ^^^ s.e.rotateRight 11 ^^^ s.e.rotateRight 25
  let ch := (s.e &&& s.f) ^^^ (~~~s.e &&& s.g)
  let t₁ := s.h + S₁ + ch + kw.1 + kw.2
  let S₀ := s.a.rotateRight 2 ^^^ s.a.rotateRight 13 ^^^ s.a.rotateRight 22
  let maj := (s.a &&& s.b) ^^^ (s.a &&& s.c) ^^^ (s.b &&& s.c)
  ⟨t₁ + (S₀ + maj), s.a, s.b, s.c, s.d + t₁, s.e, s.f, s.g⟩

/-- The hash value after a further block. -/
def compress (s : State) (block : List Word) : State :=
  let s' := (roundConstants.zip (schedule block)).foldl round s
  ⟨s.a + s'.a, s.b + s'.b, s.c + s'.c, s.d + s'.d, s.e + s'.e, s.f + s'.f, s.g + s'.g, s.h + s'.h⟩

/-- The message with a bit 1, zeros, and its length in bits. -/
def pad (bytes : List ℕ) : List ℕ :=
  let n := bytes.length
  bytes ++ [128] ++ List.replicate ((119 - n % 64) % 64) 0 ++
    (List.range 8).map fun i => n * 8 / 256 ^ (7 - i) % 256

/-- The first `m` groups of `n` elements. -/
def groups {α : Type} (n : ℕ) : ℕ → List α → List (List α)
  | 0, _ => []
  | m + 1, l => l.take n :: groups n m (l.drop n)

/-- The words of a list of bytes. -/
def words (bytes : List ℕ) : List Word :=
  (groups 4 (bytes.length / 4) bytes).map fun w => BitVec.ofNat 32 (w.foldl (· * 256 + ·) 0)

/-- The digest of a list of bytes. -/
def digest (bytes : List ℕ) : State :=
  let w := words (pad bytes)
  (groups 16 (w.length / 16) w).foldl compress initial

/-- The hexadecimal digits of a word. -/
def hex (w : Word) : List Char :=
  (List.range 8).map fun i => Nat.digitChar (w.toNat / 16 ^ (7 - i) % 16)

/-- The hexadecimal digest of a list of bytes. -/
def hexdigest (bytes : List ℕ) : String :=
  let s := digest bytes
  String.ofList
    (hex s.a ++ hex s.b ++ hex s.c ++ hex s.d ++ hex s.e ++ hex s.f ++ hex s.g ++ hex s.h)

example : hexdigest [97, 98, 99] =
    "ba7816bf8f01cfea414140de5dae2223b00361a396177a9cb410ff61f20015ad" := by decide +kernel

theorem length_hex (w : Word) : (hex w).length = 8 := by simp [hex]

theorem length_hexdigest (bytes : List ℕ) : (hexdigest bytes).toList.length = 64 := by
  simp [hexdigest, length_hex]

theorem digitChar_ne_nul {n : ℕ} (h : n < 16) : Nat.digitChar n ≠ Char.ofNat 0 := by
  have all : ∀ n : Fin 16, Nat.digitChar n ≠ Char.ofNat 0 := by decide
  exact all ⟨n, h⟩

theorem nul_not_mem_hex (w : Word) : Char.ofNat 0 ∉ hex w := by
  intro hm
  obtain ⟨i, -, hi⟩ := List.mem_map.1 hm
  exact digitChar_ne_nul (Nat.mod_lt _ (by omega)) hi

theorem nul_not_mem_hexdigest (bytes : List ℕ) : Char.ofNat 0 ∉ (hexdigest bytes).toList := by
  simp [hexdigest, nul_not_mem_hex]

end Sha256

end FoodFlow
