import PhpSyntax.Proofs.Peg.Reading
import PhpSyntax.Proofs.Regex.Greedy

namespace PhpSyntax

open Regex (Onward Place)
open Regex.Program (Match)

/-- The match in progress that a search begins with at the start of a text. -/
def Regex.Program.Match.starting (cs : List Char) : Match :=
  ⟨.startingAt (.start cs (byteLength cs)), .start cs (byteLength cs)⟩

namespace Regex

theorem Place.past_left (p : Place) (front : List Char) :
    (p.past front).left = p.left - byteLength front := by
  induction front generalizing p with
  | nil => rfl
  | cons c front ih =>
    rw [past, ih, byteLength]
    exact Nat.sub_sub ..

section Onward

variable {cs front : List Char} {m : Match} (h : Onward (.starting cs) front m)

include h

theorem Onward.text : cs = front ++ m.stop.rest :=
  h.rest

theorem Onward.left : m.stop.left = byteLength m.stop.rest := by
  rw [h.stop, Place.past_left]
  show byteLength cs - byteLength front = _
  rw [congrArg byteLength h.text, byteLength_append, h.stop]
  exact Nat.add_sub_cancel_left ..

theorem Onward.taken : byteLength cs - m.stop.left = byteLength front := by
  rw [h.left, congrArg byteLength h.text, byteLength_append, Nat.add_sub_cancel]

theorem Onward.covered : (m.trace.origin.upTo m.stop).text = String.ofList front := by
  rw [h.origin, Capture.text]
  show pushBytes "" (byteLength cs - m.stop.left) cs = _
  rw [h.taken]
  conv_lhs => rw [h.text]
  exact pushBytes_append front m.stop.rest

end Onward

end Regex

namespace Peg

section Lexemes

variable {l : Lexeme} {r : Regex} (hl : l.program = .ofRegex (.seq (.anchor .textStart) r))
  (hr : r.productive = true) {cs front : List Char} {m : Match}

include hl hr

theorem Lexeme.find?_eq (groups : Bool) (cs : List Char) :
    l.program.find? groups cs (byteLength cs) =
      Regex.Program.foundIn (byteLength cs) (.done (r.explore (.starting cs)).head?) := by
  have hexplore : (Regex.seq (.anchor .textStart) r).explore (.starting cs) =
      r.explore (.starting cs) := List.flatMap_singleton ..
  have hproductive : (Regex.seq (.anchor .textStart) r).productive = true := hr
  rw [hl, ← hexplore]
  exact Regex.Program.find?_eq hproductive rfl groups cs

theorem Lexeme.matchAt?_none (h : r.explore (.starting cs) = []) :
    l.matchAt? cs (byteLength cs) = none := by
  rw [matchAt?, Lexeme.find?_eq hl hr, h]
  rfl

theorem Lexeme.matchAt?_head (hgroup : l.group = 0)
    (hm : (r.explore (.starting cs)).head? = some m) (hon : Onward (.starting cs) front m) :
    l.matchAt? cs (byteLength cs) =
      some (byteLength front, l.transform.apply (String.ofList front)) := by
  rw [matchAt?, Lexeme.find?_eq hl hr, hm, hgroup]
  simp only [Regex.Program.foundIn, Option.map_some, Regex.Program.Found.text, if_true,
    hon.taken, hon.covered]

theorem Lexeme.matchLength?_none (h : r.explore (.starting cs) = []) :
    l.matchLength? cs (byteLength cs) = none := by
  rw [matchLength?, Lexeme.find?_eq hl hr, h]
  rfl

theorem Lexeme.matchLength?_head (hm : (r.explore (.starting cs)).head? = some m)
    (hon : Onward (.starting cs) front m) :
    l.matchLength? cs (byteLength cs) = some (byteLength front) := by
  rw [matchLength?, Lexeme.find?_eq hl hr, hm]
  exact congrArg some hon.taken

end Lexemes

namespace Terminal

variable {t : Terminal} {r : Regex}
  (ht : t.program? = some (.ofRegex (.seq (.anchor .textStart) r))) (hr : r.productive = true)
  {cs : List Char}

include ht hr

theorem takes_none (h : r.explore (.starting cs) = []) : t.Takes cs none := by
  rintro l hl rfl
  exact Lexeme.matchAt?_none (Option.some.inj (hl.symm.trans ht)) hr h

theorem takes_of_head? (hgroup : t.group = 0) {m : Match} {front : List Char}
    (hm : (r.explore (.starting cs)).head? = some m) (hon : Onward (.starting cs) front m) :
    t.Takes cs (some (byteLength front, t.transform.apply (String.ofList front))) := by
  rintro l hl rfl
  exact Lexeme.matchAt?_head (Option.some.inj (hl.symm.trans ht)) hr hgroup hm hon

theorem takes_of_prefers (hgroup : t.group = 0) {front rest : List Char}
    (h : Regex.Prefers r.explore front rest) :
    t.Takes (front ++ rest) (some (byteLength front, t.transform.apply (String.ofList front))) := by
  obtain ⟨m, hm, hon⟩ := h (.starting (front ++ rest)) rfl
  exact takes_of_head? ht hr hgroup hm hon

end Terminal

end Peg

end PhpSyntax
