/-!
# The random stream

The words of the ChaCha stream cipher with twelve rounds, block after block, under a key that is
spread from a 64-bit seed.
-/

namespace Twofold.Chance

/-- The sixteen words of a block. -/
abbrev Block := Vector UInt32 16

namespace Block

/-- Rotates the bits of a word to the left. -/
def rotate (w n : UInt32) : UInt32 := (w <<< n) ||| (w >>> (32 - n))

/-- Mixes four words of a block. -/
def quarterRound (s : Block) (a b c d : Fin 16) : Block :=
  let wa := s[a] + s[b]
  let wd := rotate (s[d] ^^^ wa) 16
  let wc := s[c] + wd
  let wb := rotate (s[b] ^^^ wc) 12
  let wa := wa + wb
  let wd := rotate (wd ^^^ wa) 8
  let wc := wc + wd
  let wb := rotate (wb ^^^ wc) 7
  (((s.set a wa).set b wb).set c wc).set d wd

/-- Mixes the columns and then the diagonals. -/
def doubleRound (s : Block) : Block :=
  let s := s.quarterRound 0 4 8 12
  let s := s.quarterRound 1 5 9 13
  let s := s.quarterRound 2 6 10 14
  let s := s.quarterRound 3 7 11 15
  let s := s.quarterRound 0 5 10 15
  let s := s.quarterRound 1 6 11 12
  let s := s.quarterRound 2 7 8 13
  s.quarterRound 3 4 9 14

/-- Six double rounds. -/
def rounds (s : Block) : Block :=
  s.doubleRound.doubleRound.doubleRound.doubleRound.doubleRound.doubleRound

end Block

/-- The state of the cipher before the rounds: its constants, the key, the number of the block, and
an empty nonce. -/
def initialBlock (key : Vector UInt32 8) (counter : UInt64) : Block :=
  #v[0x61707865, 0x3320646e, 0x79622d32, 0x6b206574,
     key[0], key[1], key[2], key[3], key[4], key[5], key[6], key[7],
     counter.toUInt32, (counter >>> 32).toUInt32, 0, 0]

/-- A block of the stream. -/
def streamBlock (key : Vector UInt32 8) (counter : UInt64) : Block :=
  let s := initialBlock key counter
  s.rounds.zipWith (· + ·) s

/-- A place in the stream: the key, the next block, and what is left of the current one. -/
structure Keystream where
  key : Vector UInt32 8
  counter : UInt64
  pending : List UInt32

namespace Keystream

/-- A step of the generator that spreads the seed. -/
def spreadStep (state : UInt64) : UInt64 := state * 6364136223846793005 + 11634580027462260723

/-- The word that a state of that generator gives. -/
def spreadWord (state : UInt64) : UInt32 :=
  let x := (((state >>> 18) ^^^ state) >>> 27).toUInt32
  let n := (state >>> 59).toUInt32
  (x >>> n) ||| (x <<< ((32 - n) % 32))

/-- The key for a seed. -/
def keyOfSeed (seed : UInt64) : Vector UInt32 8 :=
  let s₁ := spreadStep seed
  let s₂ := spreadStep s₁
  let s₃ := spreadStep s₂
  let s₄ := spreadStep s₃
  let s₅ := spreadStep s₄
  let s₆ := spreadStep s₅
  let s₇ := spreadStep s₆
  let s₈ := spreadStep s₇
  #v[spreadWord s₁, spreadWord s₂, spreadWord s₃, spreadWord s₄,
     spreadWord s₅, spreadWord s₆, spreadWord s₇, spreadWord s₈]

/-- The start of the stream for a seed. -/
def ofSeed (seed : UInt64) : Keystream := ⟨keyOfSeed seed, 0, []⟩

/-- The next word. -/
def next (s : Keystream) : UInt32 × Keystream :=
  match s.pending with
  | w :: pending => (w, { s with pending })
  | [] =>
    let block := streamBlock s.key s.counter
    (block[0], { s with counter := s.counter + 1, pending := block.toList.tail })

/-- The next two words as one number, the first one in the low half. -/
def next64 (s : Keystream) : UInt64 × Keystream :=
  let (low, s) := s.next
  let (high, s) := s.next
  (high.toUInt64 <<< 32 ||| low.toUInt64, s)

end Keystream

end Twofold.Chance
