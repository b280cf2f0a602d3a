import PhpSyntax.Regex.Encoding
import PhpSyntax.Regex.Syntax
import PhpSyntax.Source.Text
import Std.Data.HashMap

namespace PhpSyntax.Regex

/-- The states of an automaton, and the bytes that their transitions take besides. -/
structure Size where
  states : Nat
  extra : Nat

namespace Size

def zero : Size := ⟨0, 0⟩

def bytes (s : Size) : Nat :=
  32 * s.states + s.extra

/-- One more state, with `extra` bytes of transitions. -/
def state (s : Size) (extra : Nat) : Size :=
  ⟨s.states + 1, s.extra + extra⟩

def limit : Nat := 10485760

def tooLarge (s : Size) : Bool :=
  limit < s.bytes

/-- Grows `n` times, unless the limit is passed before. -/
def times (grow : Size → Size) : Nat → Size → Size
  | 0, s => s
  | n + 1, s => if s.tooLarge then s else times grow n (grow s)

end Size

def mix (h : UInt64) (n : Nat) : UInt64 :=
  (h ^^^ n.toUInt64) * 1099511628211

def hashOf (ns : List Nat) : UInt64 :=
  ns.foldl mix 14695981039346656037

/-- An automaton that grows by states which are shared as long as they are known: each place of the
table keeps the state that was put there last. -/
structure Shared (κ : Type) where
  size : Size
  places : Nat
  table : Std.HashMap Nat (κ × Nat)

namespace Shared

variable {κ : Type} [DecidableEq κ]

def start (size : Size) (places : Nat) : Shared κ :=
  ⟨size, places, ∅⟩

/-- The number of the state with the given key, which is a new one if it is not known. -/
def state (sh : Shared κ) (key : κ) (numbers : List Nat) (extra : Nat) : Nat × Shared κ :=
  let place := (hashOf numbers).toNat % sh.places
  match sh.table[place]?.filter (·.1 = key) with
  | some (_, id) => (id, sh)
  | none =>
    let id := sh.size.states
    (id, { sh with size := sh.size.state extra, table := sh.table.insert place (key, id) })

end Shared

/-- Sequences in a row with the same first byte range, each group with what follows that range. -/
def byHead : List (List ByteRange) → List (ByteRange × List (List ByteRange))
  | [] => []
  | [] :: rest => byHead rest
  | (r :: tail) :: rest =>
    match byHead rest with
    | (q, tails) :: groups =>
      if r = q then (q, tail :: tails) :: groups else (r, [tail]) :: (q, tails) :: groups
    | [] => [(r, [tail])]

/-- The state from which sequences lead to `target`; `depth` bounds their length. -/
def stateOf (target : Nat) : Nat → List (List ByteRange) → Shared (List (ByteRange × Nat)) →
    Nat × Shared (List (ByteRange × Nat))
  | 0, _, sh => (target, sh)
  | depth + 1, sequences, sh =>
    let (edges, sh) := (byHead sequences).foldl (fun (edges, sh) (r, tails) =>
      let (next, sh) :=
        if tails.all (·.isEmpty) then (target, sh) else stateOf target depth tails sh
      ((r, next) :: edges, sh)) ([], sh)
    let edges := edges.reverse
    sh.state edges (edges.flatMap fun (r, next) => [r.1, r.2, next]) (8 * edges.length)

def sequencesOf (s : CharSet) : List (List ByteRange) :=
  s.ranges.flatMap fun (lo, hi) => byteRanges lo hi

def growSetForward (set : CharSet) (s : Size) : Size :=
  (stateOf s.states 4 (sequencesOf set) (.start (s.state 0) 10000)).2.size

/-- Backward, sequences share what they begin with. -/
def growSetBackward (set : CharSet) (s : Size) : Size :=
  let target := s.states + 1
  let shared : Shared (Nat × ByteRange) := .start ((s.state 0).state 0) 1000
  ((sequencesOf set).foldl (fun sh sequence =>
    let (_, sh) := sequence.foldl (fun (target, sh) r =>
      sh.state (target, r) [target, r.1, r.2] 0) (target, sh)
    { sh with size := ⟨sh.size.states, sh.size.extra + 4⟩ }) shared).size

def growSet (back : Bool) (set : CharSet) (s : Size) : Size :=
  if set.isAscii then (s.state 0).state (8 * set.ranges.length)
  else if back then growSetBackward set s
  else growSetForward set s

/-- The words up to each empty one, and behind the last. -/
def chunks : List (List Nat) → List (List (List Nat))
  | [] => [[]]
  | [] :: rest => [] :: chunks rest
  | w :: rest =>
    match chunks rest with
    | c :: cs => (w :: c) :: cs
    | [] => [[w]]

/-- Adds a word to those with the same first byte. -/
def addWord (groups : List (Nat × List (List Nat))) : List Nat → List (Nat × List (List Nat))
  | [] => groups
  | b :: tail =>
    if (groups.lookup b).isSome then
      groups.map fun (c, tails) => (c, if b = c then tails ++ [tail] else tails)
    else groups ++ [(b, [tail])]

/-- A tree of words, in which an empty word ends a match between others; `fuel` bounds the length of
the words. -/
def growWords : Nat → List (List Nat) → Size → Size
  | 0, _, s => s
  | fuel + 1, words, s =>
    if words.all (·.isEmpty) then s
    else
      let (ends, words) := words.span (·.isEmpty)
      let cs := chunks (ends.take 1 ++ words)
      let s := cs.foldl (fun s chunk =>
        let groups := chunk.foldl addWord []
        let s := groups.foldl (fun s (_, tails) => growWords fuel tails s) s
        match groups.length with
        | 0 => s
        | 1 => s.state 0
        | n => s.state (8 * n)) s
      s.state (4 * (cs.filter (!·.isEmpty)).length + 4 * (cs.length - 1))

def bytesOf (cs : List Char) : List Nat :=
  cs.flatMap fun c => encode c.toNat

/-- The bytes of the alternatives of a choice between texts. -/
def words? (back : Bool) (r : Regex) : Option (List (List Nat)) :=
  r.branches.mapM fun
    | .text cs => some (if back then (bytesOf cs).reverse else bytesOf cs)
    | _ => none

/-- Where a regex stands: by itself or as the first alternative of a choice, as its second, or as a
later one. -/
inductive Slot where
  | first
  | second
  | later

namespace Slot

def next : Slot → Slot
  | first => second
  | _ => later

/-- What an alternative adds to the choice: the second one makes it a choice. -/
def close : Slot → Size → Size
  | first, s => s
  | second, s => (s.state 8).state 0
  | later, s => ⟨s.states, s.extra + 4⟩

end Slot

/-- The size of an automaton to which a regex is added. -/
def grow (back : Bool) : Regex → Slot → Size → Size
  | .empty, slot, s => slot.close (s.state 0)
  | .text cs, slot, s => slot.close ⟨s.states + byteLength cs, s.extra⟩
  | .set cs, slot, s => slot.close (growSet back cs s)
  | .anchor _, slot, s => slot.close (s.state 0)
  | .seq a b, slot, s =>
    slot.close (if back then grow back a .first (grow back b .first s)
      else grow back b .first (grow back a .first s))
  | .alt a b, slot, s =>
    match slot, words? back (.alt a b) with
    | .first, some words => growWords ((words.map (·.length)).foldl max 0 + 1) words (s.state 0)
    | _, _ => grow back b slot.next (slot.close (grow back a .first s))
  | .rounds least most _ body, slot, s =>
    let once := grow back body .first
    slot.close <|
      match least, most with
      | 0, some 1 => (once (s.state 8)).state 0
      | 0, none =>
        if body.takesSome then once (s.state 8) else (((once s).state 8).state 8).state 0
      | n, none => (Size.times once n s).state 8
      | n, some m =>
        if n = m then Size.times once n s
        else
          let s := if n = 0 then s.state 0 else Size.times once n s
          Size.times (fun s => once (s.state 8)) (m - n) (s.state 0)
  | .group _ body, slot, s =>
    slot.close (if back then grow back body .first s
      else (grow back body .first (s.state 0)).state 0)

/-- The size of a regex with what leads to the place where it matches. -/
def size (back : Bool) (r : Regex) : Size :=
  let held := if back then r.endsText else r.startsText
  let s := if held then Size.zero.state 0 else ((Size.zero.state 8).state 0).state 8
  (if back then grow back r .first s else grow back (.group 0 r) .first s).state 0

/-- More than a regex takes either way, found without writing it out. -/
def estimate : Regex → Nat
  | .empty => 50
  | .text cs => 100 * byteLength cs
  | .set s => 200 + 4000 * s.ranges.length
  | .anchor _ => 50
  | .seq a b => a.estimate + b.estimate
  | .alt a b => a.estimate + b.estimate + 100
  | .rounds least most _ body => (most.getD (least + 1)) * (body.estimate + 50) + 200
  | .group _ body => body.estimate + 100

def fits (r : Regex) : Bool :=
  r.estimate + 500 ≤ Size.limit || !((r.size false).tooLarge || (r.size true).tooLarge)

end PhpSyntax.Regex
