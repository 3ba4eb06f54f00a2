import LatinToScript.Proofs.Grammar.InStep

/-!
# Places play no part in parsing

Tokens of the same kinds keep in step, whatever their places are. So they are the same program, or they have
the same fault, and a fault that has a place is at a token (`Program.ofTokens_places`).
-/

namespace LatinToScript

variable {r : Position → Position → Prop}

/-- Tokens that are alike keep in step. -/
lemma inStep_tokensAlike : InStep r (TokensAlike r) where
  nil := by
    rintro us ⟨⟩
    rfl
  cons := by
    rintro t ts us (_ | ⟨head, tail⟩)
    exact ⟨_, _, rfl, head, .inl tail, fun _ => tail⟩

namespace Grammar

variable {ts us : List Token} {room : Nat}

/-- Tokens that are alike are the same statements, or they have the same fault at related places. -/
lemma statements_alike (alike : TokensAlike r ts us) :
    ResultsAlike (ParseError.Alike r) Eq (statements room ts) (statements room us) :=
  statements_inStep inStep_tokensAlike (.inl alike)

/-- A fault in some tokens is a fault at a related place in tokens that are alike. -/
lemma statements_fault_alike {e : ParseError} (alike : TokensAlike r ts us)
    (eq : statements room ts = .error e) :
    ∃ f, statements room us = .error f ∧ ParseError.Alike r e f :=
  (eq ▸ statements_alike alike).exists_error

end Grammar

/-! ## Programs -/

/-- The place of a fault is that of a token. -/
lemma Program.exists_token_of_fault {ts : List Token} {e : ParseError} {p : Position}
    (eq : Program.ofTokens ts = .error e) (place : e.position? = some p) :
    ∃ t ∈ ts, t.position = p := by
  -- Parsing keeps every relation between places, also the one that only holds for those of the tokens.
  have alike : TokensAlike (fun p _ => ∃ t ∈ ts, t.position = p) ts ts :=
    List.forall₂_same.mpr fun t mem => ⟨rfl, t, mem, rfl⟩
  rw [Program.ofTokens_eq_error_iff_statements] at eq
  obtain ⟨f, _, faults⟩ := Grammar.statements_fault_alike alike eq
  obtain ⟨_, found⟩ := faults.exists_rel place
  exact found

/-- Places of two tokens that stand at the same index of two lists. -/
def SameIndex (ts us : List Token) (p q : Position) : Prop :=
  ∃ (i : Nat) (t u : Token), ts[i]? = some t ∧ us[i]? = some u ∧ t.position = p ∧ u.position = q

/-- Tokens of the same kinds are alike, and the places of those with the same index are related. -/
lemma tokensAlike_of_kinds_eq {ts us : List Token} (same : kinds ts = kinds us) :
    TokensAlike (SameIndex ts us) ts us := by
  have length : ts.length = us.length := by
    simpa only [kinds, List.length_map] using congrArg List.length same
  refine List.forall₂_iff_get.mpr ⟨length, fun i lt lu => ?_⟩
  have kind : (kinds ts)[i]? = (kinds us)[i]? := by rw [same]
  simp only [kinds, List.getElem?_map, List.getElem?_eq_getElem lt, List.getElem?_eq_getElem lu,
    Option.map_some, Option.some.injEq] at kind
  exact ⟨kind, i, ts[i], us[i], List.getElem?_eq_getElem lt, List.getElem?_eq_getElem lu, rfl, rfl⟩

/-- Tokens of the same kinds are the same program, or they have the same fault. A fault that has a place
is at the same index in both, so its place is that of a token. -/
theorem Program.ofTokens_places (ts us : List Token) (same : kinds ts = kinds us) :
    (∀ p, Program.ofTokens ts = .ok p ↔ Program.ofTokens us = .ok p) ∧
    (∀ e, Program.ofTokens ts = .error e →
      ∃ f, Program.ofTokens us = .error f ∧ ParseError.Alike (SameIndex ts us) e f) ∧
    ∀ e p, Program.ofTokens ts = .error e → e.position? = some p → ∃ t ∈ ts, t.position = p := by
  refine ⟨?_, ?_, fun e p eq place => exists_token_of_fault eq place⟩
  · intro p
    rw [Program.ofTokens, Program.ofTokens, ofTokensWithin_eq_ok_iff, ofTokensWithin_eq_ok_iff, same]
  · intro e eq
    rw [ofTokens_eq_error_iff_statements] at eq
    obtain ⟨f, eqf, alike⟩ := Grammar.statements_fault_alike (tokensAlike_of_kinds_eq same) eq
    exact ⟨f, ofTokens_eq_error_iff_statements.mpr eqf, alike⟩

/-- A loop whose condition is a lone name, with its tokens at some places. -/
def lonelyCondition (keyword name brace : Position) : List Token :=
  [⟨.keyword (.control .dum), keyword⟩, ⟨.name "a", name⟩, ⟨.opening .brace, brace⟩]

/-- The fault of a loop without a condition is at its keyword, in one line as in three. -/
theorem Program.ofTokens_places_lonelyCondition :
    ∃ e f, Program.ofTokens (lonelyCondition ⟨0, 1, 1⟩ ⟨4, 1, 5⟩ ⟨6, 1, 7⟩) = .error e ∧
      Program.ofTokens (lonelyCondition ⟨9, 2, 1⟩ ⟨13, 3, 1⟩ ⟨15, 4, 1⟩) = .error f ∧
      e.position? = some ⟨0, 1, 1⟩ ∧ f = .missingCondition .dum ⟨9, 2, 1⟩ := by
  have eq : (Program.ofTokens (lonelyCondition ⟨0, 1, 1⟩ ⟨4, 1, 5⟩ ⟨6, 1, 7⟩)).map (fun _ => ()) =
      .error (.missingCondition .dum ⟨0, 1, 1⟩) := by decide +kernel
  cases result : Program.ofTokens (lonelyCondition ⟨0, 1, 1⟩ ⟨4, 1, 5⟩ ⟨6, 1, 7⟩) with
  | ok p =>
    rw [result] at eq
    cases eq
  | error e =>
    rw [result] at eq
    cases eq
    obtain ⟨_, faults, _⟩ := Program.ofTokens_places
      (lonelyCondition ⟨0, 1, 1⟩ ⟨4, 1, 5⟩ ⟨6, 1, 7⟩) (lonelyCondition ⟨9, 2, 1⟩ ⟨13, 3, 1⟩ ⟨15, 4, 1⟩) rfl
    obtain ⟨f, eqf, alike⟩ := faults _ result
    cases alike with
    | missingCondition rel =>
      obtain ⟨i, t, u, gett, getu, place, rfl⟩ := rel
      rcases i with _ | _ | _ | i
      · cases getu
        exact ⟨_, _, rfl, eqf, rfl, rfl⟩
      -- The other tokens of the first list stand at other places.
      all_goals
        cases gett
      all_goals
        cases place

end LatinToScript
