import RealTimeStreaming.Random.Source

/-! Random words from the ChaCha stream cipher with twelve rounds. The key comes from a
64-bit seed, spread over eight words by a permuted congruential generator; the words of
the generator are the words of its key stream, block after block. -/

namespace RealTimeStreaming.ChaCha

/-- The sixteen words that a block is made from. -/
abbrev Block := Vector UInt32 16

def rotateLeft (x : UInt32) (n : UInt32) : UInt32 :=
  x <<< n ||| x >>> (32 - n)

/-- Adds word `j` to word `i`, and the sum into word `k`, which is then rotated. -/
def mix (i j k : Fin 16) (n : UInt32) (s : Block) : Block :=
  let sum := s[i] + s[j]
  (s.set i sum).set k (rotateLeft (s[k] ^^^ sum) n)

def quarterRound (a b c d : Fin 16) (s : Block) : Block :=
  mix c d b 7 (mix a b d 8 (mix c d b 12 (mix a b d 16 s)))

/-- A round on the columns of the block and one on its diagonals. -/
def doubleRound (s : Block) : Block :=
  let s := quarterRound 3 7 11 15 (quarterRound 2 6 10 14 (quarterRound 1 5 9 13
    (quarterRound 0 4 8 12 s)))
  quarterRound 3 4 9 14 (quarterRound 2 7 8 13 (quarterRound 1 6 11 12
    (quarterRound 0 5 10 15 s)))

abbrev Key := Vector UInt32 8

/-- The words that every block starts with. -/
def fixed : Vector UInt32 4 :=
  #v[0x61707865, 0x3320646E, 0x79622D32, 0x6B206574]

/-- The block of a key and a number: four fixed words, the key, the number in two words,
and two words for a stream, which is always the first. -/
def start (key : Key) (number : UInt64) : Block :=
  fixed ++ key ++ (#v[number.toUInt32, (number >>> 32).toUInt32, 0, 0] : Vector UInt32 4)

/-- The words of a block: twelve rounds, and the start added. -/
def block (key : Key) (number : UInt64) : Block :=
  let s := start key number
  s.zipWith (· + ·) (Nat.repeat doubleRound 6 s)

/-- The key stream, word by word. -/
def word (key : Key) (n : Nat) : UInt32 :=
  (block key (n / 16).toUInt64).get ⟨n % 16, Nat.mod_lt n (by decide)⟩

/-! ### Keys from seeds -/

def seedStep (state : UInt64) : UInt64 :=
  state * 6364136223846793005 + 11634580027462260723

/-- The word that a state of the seed generator stands for. -/
def seedWord (state : UInt64) : UInt32 :=
  let x := ((state >>> 18 ^^^ state) >>> 27).toUInt32
  let n := (state >>> 59).toUInt32
  x >>> n ||| x <<< (32 - n)

def keyOfSeed (seed : UInt64) : Key :=
  Vector.ofFn fun i => seedWord (Nat.repeat seedStep (i.val + 1) seed)

end RealTimeStreaming.ChaCha

namespace RealTimeStreaming.RandomSource

/-- The source of a seed. -/
def ofSeed (seed : UInt64) : RandomSource :=
  { word := ChaCha.word (ChaCha.keyOfSeed seed) }

end RealTimeStreaming.RandomSource
