import MeshFlow.Number.Convert
import MeshFlow.Random.ChaCha

set_option autoImplicit false

/-!
# The random generator of a build pass

A stream of words read off successive ChaCha blocks. The key comes from a 64-bit seed by eight
steps of a congruential generator whose output is permuted.
-/
namespace MeshFlow.Random

structure Generator where
  key : Key
  nextBlock : UInt64
  pending : List UInt32

def seedStep (state : UInt64) : UInt64 × UInt32 :=
  let state := state * 6364136223846793005 + 11634580027462260723
  let mixed := (((state >>> 18) ^^^ state) >>> 27).toUInt32
  let turn := (state >>> 59).toUInt32
  (state, if turn = 0 then mixed else (mixed >>> turn) ||| (mixed <<< (32 - turn)))

def keyOfSeed (seed : UInt64) : Key :=
  let (s, a) := seedStep seed
  let (s, b) := seedStep s
  let (s, c) := seedStep s
  let (s, d) := seedStep s
  let (s, e) := seedStep s
  let (s, f) := seedStep s
  let (s, g) := seedStep s
  let (_, h) := seedStep s
  #v[a, b, c, d, e, f, g, h]

namespace Generator

def ofSeed (seed : UInt64) : Generator := ⟨keyOfSeed seed, 0, []⟩

/-- The next word of the stream; a new block is made when the last one is used up. -/
def next (g : Generator) : UInt32 × Generator :=
  match g.pending with
  | word :: rest => (word, { g with pending := rest })
  | [] =>
    let words := block g.key g.nextBlock
    (words[0], ⟨g.key, g.nextBlock + 1, words.toList.drop 1⟩)

/-- A multiple of `2 ^ -24` in `[0, 1)`, from the upper bits of one word. -/
def unit (g : Generator) : Float32 × Generator :=
  let (word, rest) := g.next
  (Number.single false (word >>> 8).toNat (-24), rest)

end Generator
end MeshFlow.Random
