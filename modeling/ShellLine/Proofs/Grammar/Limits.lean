import ShellLine.Proofs.Grammar.Acceptance
import ShellLine.Proofs.Grammar.Completion

/-! # The limit on nesting

A limit of as many levels as there are tokens is no limit at all: `unlimited_iff`. A lower one cuts
off the trees with more levels and nothing else, and what is not a tree stays none.
-/

namespace ShellLine

open Cursor Grammar

/-- What the tokens come to under every limit that is large enough. -/
def Unlimited (tokens : List Token) (outcome : Except StructuralFault Node) : Prop :=
  ∃ bound : Int, ∀ limit ≥ bound, parse tokens limit = outcome

/-- The limit on nesting was reached. -/
def TooDeep (outcome : Except StructuralFault Node) : Prop :=
  ∃ fault, outcome = .error fault ∧ fault.kind = .nestingTooDeep

theorem parse_eq_error_iff {tokens : List Token} {limit : Int} {fault : StructuralFault} :
    parse tokens limit = .error fault ↔
      ∃ after, Grammar.parse.run (Cursor.ofTokens tokens limit) = .error fault after := by
  rw [parse]
  cases Grammar.parse.run (Cursor.ofTokens tokens limit) <;> simp

/-- Two lists of tokens that are the same inside a view, under two limits. -/
def sideBySide {first second : List Token} {low high : Int} (sight : LowerSet Nat)
    (same : ∀ pos ∈ sight, (withoutComments second)[pos]? = (withoutComments first)[pos]?)
    (limits : low ≤ high) : View where
  relabel := id
  first := (withoutComments first).toArray
  second := (withoutComments second).toArray
  low := low
  high := high
  sight := sight
  alike := Token.alike_refl
  agree pos seen := by
    rw [Option.map_id, id, List.getElem?_toArray, List.getElem?_toArray]
    exact same pos seen
  limits := limits

/-- What the parser comes to on one of the lists inside the view, it comes to on the other one. -/
theorem sideBySide_meets {first second : List Token} {low high : Int} (sight : LowerSet Nat)
    (same : ∀ pos ∈ sight, (withoutComments second)[pos]? = (withoutComments first)[pos]?)
    (limits : low ≤ high) (start : 0 ∈ sight)
    (mixed : (Cursor.ofTokens first low).commentOnly = false)
    (mixed' : (Cursor.ofTokens second high).commentOnly = false) :
    (sideBySide sight same limits).Meets 0 (Grammar.parse.run (Cursor.ofTokens first low))
      (Grammar.parse.run (Cursor.ofTokens second high)) := by
  have abreast : (sideBySide sight same limits).Abreast 0 (Cursor.ofTokens first low)
      (Cursor.ofTokens second high) := ⟨rfl, rfl, rfl, rfl, rfl, rfl, start, le_refl 0⟩
  exact parse_agrees mixed mixed' abreast

/-- Under a higher limit the parser comes to the same, unless the lower one is reached. -/
theorem parse_eq_of_le {tokens : List Token} {low high : Int} (limits : low ≤ high) :
    parse tokens low = parse tokens high ∨ TooDeep (parse tokens low) := by
  by_cases kept : withoutComments tokens = []
  · exact .inl (by rw [parse_of_comments kept, parse_of_comments kept])
  have meets := sideBySide_meets ⊤ (fun _ _ => rfl) limits trivial
    (commentOnly_ofTokens low kept) (commentOnly_ofTokens high kept)
  unfold TooDeep
  rw [parse, parse]
  cases ran : Grammar.parse.run (Cursor.ofTokens tokens low) with
  | ok tree after =>
    rw [ran] at meets
    obtain ⟨after', ran', _⟩ := meets trivial
    rw [ran']
    exact .inl rfl
  | error fault after =>
    rw [ran] at meets
    obtain ⟨deep, _⟩ | ⟨after', ran', _⟩ := meets trivial
    · exact .inr ⟨fault, rfl, deep⟩
    · rw [ran']
      exact .inl (congrArg _ fault.map_id.symm)

/-- A limit of as many levels as there are tokens is not reached. -/
theorem not_tooDeep {tokens : List Token} {limit : Int} (enough : tokens.length ≤ limit) :
    ¬ TooDeep (parse tokens limit) := by
  rintro ⟨fault, failed, deep⟩
  by_cases kept : withoutComments tokens = []
  · rw [parse_of_comments kept] at failed
    split at failed <;> cases failed
    cases deep
  · obtain ⟨after, ran⟩ := parse_eq_error_iff.mp failed
    obtain ⟨used, _, stuck, _⟩ := parse_stuck (commentOnly_ofTokens limit kept) ran
    have narrow := stuck.room deep
    have ahead := congrArg List.length stuck.ahead
    have fewer : (withoutComments tokens).length ≤ tokens.length := List.length_filter_le ..
    rw [rest_ofTokens, List.length_append] at ahead
    rw [room_ofTokens] at narrow
    omega

/-- The tokens come to something under all limits that are large enough. -/
theorem unlimited_iff {tokens : List Token} {outcome : Except StructuralFault Node} :
    Unlimited tokens outcome ↔ parse tokens tokens.length = outcome := by
  have same {limit : Int} (enough : tokens.length ≤ limit) :
      parse tokens tokens.length = parse tokens limit :=
    (parse_eq_of_le enough).resolve_right (not_tooDeep (le_refl _))
  constructor
  · rintro ⟨bound, all⟩
    rw [same (le_max_left _ bound)]
    exact all _ (le_max_right _ bound)
  · rintro rfl
    exact ⟨tokens.length, fun limit enough => (same enough).symm⟩

/-- The trees under a limit are those without one that have no more levels. -/
theorem parse_eq_ok_iff_unlimited {tokens : List Token} {limit : Int} {tree : Node} :
    parse tokens limit = .ok tree ↔
      Unlimited tokens (.ok tree) ∧ tree.levels ≤ limit.toNat := by
  rw [unlimited_iff]
  by_cases kept : withoutComments tokens = []
  · rw [parse_of_comments kept, parse_of_comments kept, iff_self_and]
    intro parsed
    split at parsed <;> cases parsed
    exact Nat.zero_le _
  · rw [parse_eq_ok_iff kept, parse_eq_ok_iff kept]
    refine ⟨fun ⟨phrase, fits⟩ => ⟨⟨phrase, ?_⟩, fits⟩, fun ⟨⟨phrase, _⟩, fits⟩ => ⟨phrase, fits⟩⟩
    have levels := phrase.levels_le
    have fewer : (withoutComments tokens).length ≤ tokens.length := List.length_filter_le ..
    omega

/-- A limit on nesting cuts off what is too deep and nothing else. -/
theorem parse_limited {tokens : List Token} {limit : Int} (natural : 0 ≤ limit) :
    (∃ outcome, Unlimited tokens outcome) ∧
    (∀ tree, parse tokens limit = .ok tree ↔ Unlimited tokens (.ok tree) ∧ tree.levels ≤ limit) ∧
    (∀ tree, Unlimited tokens (.ok tree) → limit < tree.levels → TooDeep (parse tokens limit)) ∧
    (∀ fault, Unlimited tokens (.error fault) →
      parse tokens limit = .error fault ∨ TooDeep (parse tokens limit)) ∧
    ∀ higher ≥ limit, ∀ tree, parse tokens limit = .ok tree → parse tokens higher = .ok tree := by
  have accepted tree : parse tokens limit = .ok tree ↔
      Unlimited tokens (.ok tree) ∧ tree.levels ≤ limit := by
    rw [parse_eq_ok_iff_unlimited]
    exact and_congr_right fun _ => by omega
  have compared {outcome : Except StructuralFault Node} (unlimited : Unlimited tokens outcome) :
      parse tokens limit = outcome ∨ TooDeep (parse tokens limit) := by
    obtain ⟨bound, all⟩ := unlimited
    rw [← all _ (le_max_right limit bound)]
    exact parse_eq_of_le (le_max_left limit bound)
  refine ⟨⟨_, unlimited_iff.mpr rfl⟩, accepted, fun tree unlimited deep => ?_,
    fun fault => compared, fun higher above tree parsed => ?_⟩
  · refine (compared unlimited).resolve_left fun parsed => ?_
    have fits := ((accepted tree).mp parsed).2
    omega
  · rw [parse_eq_ok_iff_unlimited] at parsed ⊢
    exact ⟨parsed.1, by omega⟩

/-- The tokens of `x "a$b"`, whose variable is on the second level. -/
theorem tooDeep_variable :
    TooDeep
      (parse
        [⟨.literal, "x", none, false, false⟩, ⟨.symbol, "\"", none, false, false⟩,
          ⟨.fragment, "a", none, false, false⟩, ⟨.symbol, "$", none, false, false⟩,
          ⟨.identifier, "b", none, false, false⟩, ⟨.fragment, "", none, false, false⟩,
          ⟨.symbol, "\"", none, false, false⟩] 1) :=
  (parse_limited (by decide : (0 : Int) ≤ 1)).2.2.1
    (.command (some (.literal "x")) [.quote "\"" [.string "a", .identifier "b", .string ""]] [] [])
    (unlimited_iff.mpr rfl) (by decide)

end ShellLine
