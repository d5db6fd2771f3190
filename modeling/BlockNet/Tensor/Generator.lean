import BlockNet.Fault
/-! # Streams of random numbers

A generator is a 64-bit state that advances by a fixed step, and a draw is a mix of the state.
So the draws ahead can be read off directly: `drawAt` looks ahead and `skip` moves on.

The stream that decides which shares of attention are kept is the Mersenne twister: a sequence of
32-bit words in which each word from the 625th on follows from three earlier ones. What is drawn
is a word of the sequence after a mix that spreads its bits. -/

namespace BlockNet

/-- The state of a stream of draws. -/
structure Generator where
  state : UInt64
  deriving DecidableEq, Repr

namespace Generator

/-- The step between two states. -/
def stride : UInt64 := 0x9E3779B97F4A7C15

/-- The number of different draws, `2 ^ 24`. -/
def range : Nat := 0x1000000

/-- The 24 bits drawn at a state. -/
def mix (state : UInt64) : Nat :=
  let z := (state ^^^ (state >>> 30)) * 0xBF58476D1CE4E5B9
  let z := (z ^^^ (z >>> 27)) * 0x94D049BB133111EB
  ((z ^^^ (z >>> 31)) >>> 40).toNat

/-- The stream of a seed, which counts modulo `2 ^ 64`. -/
def seeded (seed : Int) : Generator := ⟨UInt64.ofInt seed⟩

/-- The stream after `n` draws. -/
def skip (g : Generator) (n : Nat) : Generator := ⟨g.state + stride * UInt64.ofNat n⟩

/-- The draw after `n` others, a number below `range`. -/
def drawAt (g : Generator) (n : Nat) : Nat := mix (g.skip (n + 1)).state

/-- A whole number in `[low, low + span)` from the draw after `n` others. -/
def integerAt (g : Generator) (low span : Nat) (n : Nat) : Nat := low + g.drawAt n % span

end Generator

/-- A computation that draws from a stream. Its draws stay used when it fails. -/
abbrev Draws (α : Type) := ExceptT Fault (StateM Generator) α

namespace Twister

/-- The number of words that a seed spells out. -/
def degree : Nat := 624

/-- The first words of the sequence. -/
def start (seed : UInt32) : Array UInt32 :=
  (degree - 1).fold (fun k _ xs =>
    let x : UInt32 := xs.getD k 0
    xs.push ((x ^^^ (x >>> 30)) * 0x6c078965 + UInt32.ofNat (k + 1))) #[seed]

/-- The word `degree` places after place `k`. -/
def next (xs : Array UInt32) (k : Nat) : UInt32 :=
  let y := (xs.getD k 0 &&& 0x80000000) ||| (xs.getD (k + 1) 0 &&& 0x7fffffff)
  xs.getD (k + 397) 0 ^^^ (y >>> 1) ^^^ (if y % 2 = 1 then 0x9908b0df else 0)

/-- The sequence of a seed up to `count` words after the first ones. -/
def sequence (seed : UInt32) (count : Nat) : Array UInt32 :=
  count.fold (fun k _ xs => xs.push (next xs k)) (start seed)

/-- The word drawn from a word of the sequence. -/
def temper (y : UInt32) : UInt32 :=
  let y := y ^^^ (y >>> 11)
  let y := y ^^^ ((y <<< 7) &&& 0x9d2c5680)
  let y := y ^^^ ((y <<< 15) &&& 0xefc60000)
  y ^^^ (y >>> 18)

/-- The number of different draws, `2 ^ 53`. -/
def range : Nat := 0x20000000000000

/-- The first `count` draws of a seed, each from two words: whole numbers below `range`. -/
def draws (seed : UInt32) (count : Nat) : Array Nat :=
  let words := sequence seed (2 * count)
  let word := fun k => (temper (words.getD (degree + k) 0)).toNat
  Array.ofFn fun i : Fin count => (word (2 * i) * 0x100000000 + word (2 * i + 1)) % range

end Twister

end BlockNet
