import PhpSyntax.Proofs.Peg.Matches

namespace PhpSyntax.Peg

namespace Pattern

variable {τ ρ : Type}

mutual

/-- The rules that a pattern calls, and whether they skip trivia. -/
def calls : Pattern τ ρ → Bool → List (ρ × Bool)
  | .terminal _, _ | .scan _, _ | .endOfInput, _ => []
  | .rule r, skip => [(r, skip)]
  | .sequence components, skip => componentCalls components skip
  | .choice alternatives, skip => allCalls alternatives skip
  | .repetition item none _ _, skip => calls item skip
  | .repetition item (some separator) _ _, skip => calls item skip ++ calls separator skip
  | .optional p, skip => calls p skip
  | .ahead _ p, skip => calls p skip
  | .trivia skip p, _ => calls p skip
  | .silent p, skip => calls p skip

def componentCalls : List (Component (Pattern τ ρ)) → Bool → List (ρ × Bool)
  | [], _ => []
  | ⟨_, _, p⟩ :: rest, skip => calls p skip ++ componentCalls rest skip

def allCalls : List (Pattern τ ρ) → Bool → List (ρ × Bool)
  | [], _ => []
  | p :: rest, skip => calls p skip ++ allCalls rest skip

end

end Pattern

section Calls

section Rounds

variable {item item' : Nat → Matched → Prop} {separator separator' : Option (Nat → Matched → Prop)}
  (hitem : ∀ o m, item o m → item' o m)
  (hseparator : Option.Rel (fun p q => ∀ o m, p o m → q o m) separator separator')

include hseparator

theorem Rounds.Next.imp {rs : Rounds} {next : Nat} (h : rs.Next separator next) :
    rs.Next separator' next := by
  cases h with
  | leading hfirst =>
    refine .leading (hfirst.imp_left ?_)
    rintro rfl
    cases hseparator
    rfl
  | separated hp hitems hm =>
    subst hp
    cases hseparator with
    | some himp => exact .separated rfl hitems (himp _ _ hm)

include hitem

theorem Rounds.Grown.imp {offset : Nat} {rs : Rounds} (h : rs.Grown item separator offset) :
    rs.Grown item' separator' offset := by
  induction h with
  | start => exact .start
  | more _ hnext hm hempty ih =>
    refine ih.more (hnext.imp hseparator) (hitem _ _ hm) fun hstop => ?_
    obtain ⟨hitems, hsome⟩ := hempty hstop
    refine ⟨hitems, ?_⟩
    rintro rfl
    cases hseparator
    exact hsome rfl

theorem MatchesRounds.of_calls {least offset : Nat} {m : Matched}
    (h : MatchesRounds item separator least offset m) :
    MatchesRounds item' separator' least offset m := by
  obtain ⟨rs, stop, hgrown, hstop, hm⟩ := h
  exact ⟨rs, stop, hgrown.imp hitem hseparator,
    hstop.imp_right (And.imp_right (·.imp hseparator)), hm⟩

end Rounds

variable {skipped : Option Lexeme} {text : Text} {calls calls' : Calls}

mutual

/-- A match is made of the matches of those rules only that its pattern calls. -/
theorem Matches.of_calls : (p : PatternDef) → {trivia : Bool} →
    (∀ c ∈ p.calls trivia, ∀ offset m, calls c.1 c.2 offset m → calls' c.1 c.2 offset m) →
    ∀ {offset m}, Matches skipped text calls p trivia offset m →
      Matches skipped text calls' p trivia offset m
  | .terminal _, _, _, _, _, h | .scan _, _, _, _, _, h | .endOfInput, _, _, _, _, h => h
  | .rule r, trivia, himp, offset, m, h => himp (r, trivia) (List.mem_singleton_self _) offset m h
  | .sequence cs, trivia, himp, offset, m, h => by
    obtain ⟨ps, hps, rfl⟩ := h
    exact ⟨ps, MatchesParts.of_calls cs himp hps, rfl⟩
  | .choice ps, trivia, himp, offset, m, h => MatchesOne.of_calls ps himp h
  | .repetition item none _ _, trivia, himp, offset, m, h =>
    MatchesRounds.of_calls (fun _ _ => Matches.of_calls item himp) .none h
  | .repetition item (some separator) _ _, trivia, himp, offset, m, h => by
    obtain ⟨himp, himp'⟩ := List.forall_mem_append.1 himp
    exact MatchesRounds.of_calls (fun _ _ => Matches.of_calls item himp)
      (.some fun _ _ => Matches.of_calls separator himp') h
  | .optional p, trivia, himp, offset, m, h => Or.imp_left (Matches.of_calls p himp) h
  | .ahead negated p, trivia, himp, offset, m, h =>
    And.imp_left (fun hahead hneg => (hahead hneg).imp fun _ => Matches.of_calls p himp) h
  | .trivia skip p, trivia, himp, offset, m, h =>
    Matches.of_calls p (show ∀ c ∈ p.calls skip, _ from himp) h
  | .silent p, trivia, himp, offset, m, h =>
    Exists.imp (fun _ => And.imp_left (Matches.of_calls p himp)) h

theorem MatchesParts.of_calls : (cs : List ComponentDef) → {trivia : Bool} →
    (∀ c ∈ Pattern.componentCalls cs trivia, ∀ offset m, calls c.1 c.2 offset m →
      calls' c.1 c.2 offset m) →
    ∀ {ps ps'}, MatchesParts skipped text calls cs trivia ps ps' →
      MatchesParts skipped text calls' cs trivia ps ps'
  | [], _, _, _, _, h => h
  | ⟨field, capture, p⟩ :: rest, trivia, himp, ps, ps', h => by
    obtain ⟨himp, himp'⟩ := List.forall_mem_append.1 himp
    obtain ⟨m, hm, h⟩ := h
    exact ⟨m, Matches.of_calls p himp hm, MatchesParts.of_calls rest himp' h⟩

theorem MatchesOne.of_calls : (ps : List PatternDef) → {trivia : Bool} →
    (∀ c ∈ Pattern.allCalls ps trivia, ∀ offset m, calls c.1 c.2 offset m →
      calls' c.1 c.2 offset m) →
    ∀ {offset m}, MatchesOne skipped text calls ps trivia offset m →
      MatchesOne skipped text calls' ps trivia offset m
  | [], _, _, _, _, h => h
  | p :: rest, trivia, himp, offset, m, h => by
    obtain ⟨himp, himp'⟩ := List.forall_mem_append.1 himp
    exact Or.imp (Matches.of_calls p himp) (MatchesOne.of_calls rest himp') h

end

end Calls

end PhpSyntax.Peg
