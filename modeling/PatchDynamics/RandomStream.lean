/-!
# Random streams

A stream of random words: the ChaCha block function with eight rounds, run over a key of eight words
and a 64-bit block counter, block after block. A seed of 64 bits is stretched to a key by a
permuted congruential generator, one step for each word.
-/

namespace PatchDynamics

/-- The sixteen words that the block function works on. -/
abbrev ChaChaBlock := Vector UInt32 16

namespace ChaChaBlock

/-- `x` turned left by `n` bits. -/
def rotateLeft (x : UInt32) (n : UInt32) : UInt32 := (x <<< n) ||| (x >>> (32 - n))

/-- Mixes four of the words. -/
def quarterRound (a b c d : Fin 16) (s : ChaChaBlock) : ChaChaBlock :=
  let x₀ := s.get a
  let y₀ := s.get b
  let z₀ := s.get c
  let w₀ := s.get d
  let x₁ := x₀ + y₀
  let w₁ := rotateLeft (w₀ ^^^ x₁) 16
  let z₁ := z₀ + w₁
  let y₁ := rotateLeft (y₀ ^^^ z₁) 12
  let x₂ := x₁ + y₁
  let w₂ := rotateLeft (w₁ ^^^ x₂) 8
  let z₂ := z₁ + w₂
  let y₂ := rotateLeft (y₁ ^^^ z₂) 7
  (((s.set a x₂).set b y₂).set c z₂).set d w₂

/-- Two rounds: the four columns, then the four diagonals. -/
def doubleRound (s : ChaChaBlock) : ChaChaBlock :=
  let s := quarterRound 0 4 8 12 s
  let s := quarterRound 1 5 9 13 s
  let s := quarterRound 2 6 10 14 s
  let s := quarterRound 3 7 11 15 s
  let s := quarterRound 0 5 10 15 s
  let s := quarterRound 1 6 11 12 s
  let s := quarterRound 2 7 8 13 s
  quarterRound 3 4 9 14 s

/-- The words at the start: four constants, the key, the counter and two zeros. -/
def initial (key : Vector UInt32 8) (counter : UInt64) : ChaChaBlock :=
  #v[0x61707865, 0x3320646e, 0x79622d32, 0x6b206574,
    key[0], key[1], key[2], key[3], key[4], key[5], key[6], key[7],
    counter.toUInt32, (counter >>> 32).toUInt32, 0, 0]

/-- The block of a counter: eight rounds, and the words at the start added. -/
def block (key : Vector UInt32 8) (counter : UInt64) : ChaChaBlock :=
  let start := initial key counter
  Vector.zipWith (· + ·) (doubleRound (doubleRound (doubleRound (doubleRound start)))) start

end ChaChaBlock

/-- A place in a stream of random words. -/
structure RandomStream where
  /-- the key -/
  key : Vector UInt32 8
  /-- the counter of the next block -/
  counter : UInt64
  /-- words of the current block that have not been taken -/
  rest : List UInt32

namespace RandomStream

/-- One step of the generator that stretches seeds. -/
def seedStep (s : UInt64) : UInt64 := s * 6364136223846793005 + 11634580027462260723

/-- The word that a state of that generator gives. -/
def seedWord (s : UInt64) : UInt32 :=
  let mixed := (((s >>> 18) ^^^ s) >>> 27).toUInt32
  let turn := (s >>> 59).toUInt32
  (mixed >>> turn) ||| (mixed <<< ((32 - turn) &&& 31))

/-- The key of a seed. -/
def keyOfSeed (seed : UInt64) : Vector UInt32 8 :=
  let s₁ := seedStep seed
  let s₂ := seedStep s₁
  let s₃ := seedStep s₂
  let s₄ := seedStep s₃
  let s₅ := seedStep s₄
  let s₆ := seedStep s₅
  let s₇ := seedStep s₆
  let s₈ := seedStep s₇
  #v[seedWord s₁, seedWord s₂, seedWord s₃, seedWord s₄,
    seedWord s₅, seedWord s₆, seedWord s₇, seedWord s₈]

/-- The stream of a key, from its beginning. -/
def ofKey (key : Vector UInt32 8) : RandomStream := ⟨key, 0, []⟩

/-- The stream of a seed, from its beginning. -/
def ofSeed (seed : Nat) : RandomStream := ofKey (keyOfSeed (UInt64.ofNat seed))

/-- The next word. -/
def next (s : RandomStream) : UInt32 × RandomStream :=
  match s.rest with
  | w :: rest => (w, { s with rest := rest })
  | [] =>
    let words := ChaChaBlock.block s.key s.counter
    (words[0], ⟨s.key, s.counter + 1, words.toList.drop 1⟩)

/-- The next two words, the first one low. -/
def next64 (s : RandomStream) : UInt64 × RandomStream :=
  let (low, s) := s.next
  let (high, s) := s.next
  (low.toUInt64 ||| (high.toUInt64 <<< 32), s)

/-- A double from zero up to one, one excluded: fifty-two random bits behind the point. -/
def nextUnit (s : RandomStream) : Float × RandomStream :=
  let (w, s) := s.next64
  (Float.ofBits ((w >>> 12) ||| 0x3ff0000000000000) - 1, s)

end RandomStream

end PatchDynamics
