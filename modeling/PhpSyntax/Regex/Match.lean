import PhpSyntax.Regex.Program
import PhpSyntax.Source.Text

namespace PhpSyntax.Regex

/-- What a group covered: the text from its start on, and the number of its bytes. -/
structure Capture where
  rest : List Char
  length : Nat

def Capture.text (c : Capture) : String :=
  pushBytes "" c.length c.rest

/-- A place in the text, with the number of bytes behind it. -/
structure Place where
  before : Option Char
  rest : List Char
  left : Nat

namespace Place

def start (cs : List Char) (left : Nat) : Place :=
  ⟨none, cs, left⟩

def advance (p : Place) (c : Char) (cs : List Char) : Place :=
  ⟨some c, cs, p.left - c.utf8Size⟩

def upTo (p q : Place) : Capture :=
  ⟨p.rest, p.left - q.left⟩

end Place

def wordAt (ascii : Bool) (c : Option Char) : Bool :=
  c.any fun c => Unicode.isWord c && (!ascii || c.toNat ≤ 0x7F)

namespace Place

def meets (p : Place) : Anchor → Bool
  | .textStart => p.before.isNone
  | .textEnd => p.rest.isEmpty
  | .lineStart returns =>
    p.before.all (· == '\n') ||
      (returns && p.before == some '\r' && p.rest.head? != some '\n')
  | .lineEnd returns =>
    match p.rest.head? with
    | none => true
    | some c => if c = '\n' then !(returns && p.before == some '\r') else returns && c == '\r'
  | .word ascii edge => edge.holds (wordAt ascii p.before) (wordAt ascii p.rest.head?)

/-- Whether a place meets an anchor whatever comes behind it. -/
def meetsEarly (p : Place) : Anchor → Bool
  | .textStart => p.before.isNone
  | .lineStart _ => p.before.all (· == '\n')
  | .word ascii .startHalf => !wordAt ascii p.before
  | _ => false

end Place

/-- Where a thread began, the groups that it is in, and what the groups that it left covered. -/
structure Trace where
  origin : Place
  opened : List (Nat × Place)
  closed : List (Nat × Capture)

namespace Trace

def startingAt (p : Place) : Trace :=
  ⟨p, [], []⟩

def openGroup (t : Trace) (index : Nat) (p : Place) : Trace :=
  { t with opened := (index, p) :: t.opened }

def closeGroup (t : Trace) (index : Nat) (p : Place) : Trace :=
  match t.opened.lookup index with
  | some origin =>
    { t with
      opened := t.opened.filter (·.1 != index)
      closed := (index, origin.upTo p) :: t.closed.filter (·.1 != index) }
  | none => t

end Trace

structure Thread where
  step : Nat
  trace : Trace

/-- Numbers below a bound that have been seen since the last `clear`, which are those with the stamp
of now. -/
structure Seen where
  stamps : Array Nat
  now : Nat

namespace Seen

def none (bound : Nat) : Seen :=
  ⟨Array.replicate bound 0, 1⟩

def clear (s : Seen) : Seen :=
  { s with now := s.now + 1 }

def has (s : Seen) (n : Nat) : Bool :=
  s.stamps.getD n 0 == s.now

def add (s : Seen) (n : Nat) : Seen :=
  { s with stamps := s.stamps.setIfInBounds n s.now }

end Seen

/-- The threads at a place, last first, and the steps they have been through there. -/
structure Front where
  threads : List Thread
  seen : Seen

namespace Program

/-- Follows threads through the steps that take nothing; `fuel` bounds their number. Threads that
check something stay, whether it holds or not. -/
def follow (prog : Program) (holds : Anchor → Bool) (p : Place) :
    Nat → List Thread → Front → Front
  | 0, _, f => f
  | _ + 1, [], f => f
  | fuel + 1, t :: todo, f =>
    if f.seen.has t.step then follow prog holds p fuel todo f
    else
      let ⟨threads, seen⟩ := f
      let seen := seen.add t.step
      match prog.steps[t.step]? with
      | some (.fork first second) =>
        follow prog holds p fuel (⟨first, t.trace⟩ :: ⟨second, t.trace⟩ :: todo) ⟨threads, seen⟩
      | some (.check a next) =>
        follow prog holds p fuel (if holds a then ⟨next, t.trace⟩ :: todo else todo)
          ⟨t :: threads, seen⟩
      | some (.openGroup index next) =>
        follow prog holds p fuel (⟨next, t.trace.openGroup index p⟩ :: todo) ⟨threads, seen⟩
      | some (.closeGroup index next) =>
        follow prog holds p fuel (⟨next, t.trace.closeGroup index p⟩ :: todo) ⟨threads, seen⟩
      | some (.take ..) => follow prog holds p fuel todo ⟨t :: threads, seen⟩
      | some .accept => follow prog holds p fuel todo ⟨t :: threads, seen⟩
      | none => follow prog holds p fuel todo ⟨threads, seen⟩

def enter (prog : Program) (holds : Anchor → Bool) (p : Place) (f : Front) (t : Thread) : Front :=
  prog.follow holds p (2 * prog.steps.size + 2) [t] f

/-- What is known to hold at a place, with a look `ahead` or without one. -/
def known (ahead : Bool) (p : Place) (a : Anchor) : Bool :=
  if ahead then p.meets a else p.meetsEarly a

/-- Settles what was left open about a place, if some thread waits for it. -/
def settle (prog : Program) (ahead : Bool) (p : Place) (f : Front) : Front :=
  let waits (t : Thread) : Bool :=
    match prog.steps[t.step]? with
    | some (.check a _) => p.meets a && !p.meetsEarly a
    | _ => false
  if !ahead && f.threads.any waits then
    f.threads.reverse.foldl (prog.enter p.meets p) ⟨[], f.seen.clear⟩
  else f

/-- A match: where it begins and ends, and what its groups covered. -/
structure Match where
  trace : Trace
  stop : Place

/-- The threads in front of the first one that accepts, in their order, and that one. -/
def accepted (prog : Program) : List Thread → List Thread × Option Thread
  | [] => ([], none)
  | t :: ts =>
    match prog.steps[t.step]? with
    | some .accept => ([], some t)
    | _ =>
      let (front, found) := accepted prog ts
      (t :: front, found)

/-- The threads behind a character. -/
def advance (prog : Program) (ahead : Bool) (c : Char) (p : Place) (threads : List Thread)
    (seen : Seen) : Front :=
  let pass (f : Front) (t : Thread) : Front :=
    match prog.steps[t.step]? with
    | some (.take s next) =>
      if s.has c then prog.enter (known ahead p) p f ⟨next, t.trace⟩ else f
    | _ => f
  threads.foldl pass ⟨[], seen⟩

/-- How a search ends. -/
inductive Outcome where
  | done (m : Option Match)
  /-- Word boundaries cannot be told without looking ahead. -/
  | undecided

/-- Lets threads read on, as long as more than `left` bytes are left. The threads that accept give
way to those in front of them. With `again`, new threads begin as long as nothing matched. -/
def read (prog : Program) (ahead again : Bool) (left : Nat) :
    List Char → Place → Front → Option Match → Outcome
  | [], p, f, best =>
    match prog.accepted (prog.settle ahead p f).threads.reverse with
    | (_, some t) => .done (some ⟨t.trace, p⟩)
    | (_, none) => .done best
  | c :: cs, p, f, best =>
    if f.threads.isEmpty && !(again && best.isNone) then .done best
    else if !ahead && prog.seesWords && 0x7F < c.toNat then .undecided
    else
      let ⟨threads, seen⟩ := prog.settle ahead p f
      let (threads, found) := prog.accepted threads.reverse
      let best := match found with
        | some t => some ⟨t.trace, p⟩
        | none => best
      if p.left ≤ left then .done best
      else
        let p := p.advance c cs
        let f := prog.advance ahead c p threads seen.clear
        let f := if again && best.isNone then
            prog.enter (known ahead p) p f ⟨prog.start, .startingAt p⟩
          else f
        read prog ahead again left cs p f best

/-- Searches from a place on: the leftmost match and, of those, the preferred one. -/
def searchFrom (prog : Program) (ahead again : Bool) (left : Nat) (p : Place) : Outcome :=
  let f := prog.enter (known ahead p) p ⟨[], .none prog.steps.size⟩
    ⟨prog.start, .startingAt p⟩
  prog.read ahead again left p.rest p f none

/-- A match: the bytes up to its end, its text, and what its groups covered. -/
structure Found where
  stop : Nat
  whole : Capture
  groups : List (Nat × Capture)

def foundIn (size : Nat) : Outcome → Option Found
  | .done (some m) =>
    some ⟨size - m.stop.left, m.trace.origin.upTo m.stop, m.trace.closed⟩
  | _ => none

/-- The leftmost match in a text of `size` bytes. Word boundaries beyond ASCII are found looking
ahead, and so are `groups`, between the ends of the match. -/
def find? (prog : Program) (groups : Bool) (cs : List Char) (size : Nat) : Option Found :=
  let again := !prog.startsText
  let p := Place.start cs size
  match prog.searchFrom false again 0 p with
  | .undecided => foundIn size (prog.searchFrom true again 0 p)
  | .done (some m) =>
    if groups && prog.hasGroups then
      foundIn size (prog.searchFrom true false m.stop.left m.trace.origin)
    else foundIn size (.done (some m))
  | .done none => none

/-- What a match as a whole (number 0) or one of its groups covered; nothing if a group had no part
in the match. -/
def Found.text (f : Found) (index : Nat) : String :=
  if index = 0 then f.whole.text else ((f.groups.lookup index).map Capture.text).getD ""

end Program

end PhpSyntax.Regex
