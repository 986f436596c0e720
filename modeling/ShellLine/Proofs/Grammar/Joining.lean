import ShellLine.Proofs.Grammar.Spelling

/-! # Lists joined to lists

A semicolon between two lists sets their pipelines side by side, and a pipe makes one pipeline of
the last of the first list and the first of the second one: `parse_join`. It rests on
`ItemsPhrase.exists_last`: in the place of the last pipeline of a list there may stand any list.
-/

namespace ShellLine

open Alphabet

namespace Node

/-! ## Pipelines and stages of a tree -/

/-- The pipelines of a list. -/
def items : Node → List Node
  | .sequence items => items
  | item => [item]

/-- The list of some pipelines. A pipeline alone stands for itself. -/
def ofItems : List Node → Node
  | [item] => item
  | items => .sequence items

/-- The stages of a pipeline, from left to right. -/
def stages : Node → List Node
  | .pipe left right => left.stages ++ [right]
  | stage => [stage]

/-- More stages at the end of a pipeline. -/
theorem stages_foldl_pipe (first : Node) (more : List Node) :
    (more.foldl .pipe first).stages = first.stages ++ more := by
  induction more generalizing first with
  | nil => simp
  | cons stage rest ih => simp [ih, stages]

theorem levelsAll_items (node : Node) : levelsAll node.items = node.levels := by
  cases node <;> simp [items, levels, levelsAll]

theorem levelsAll_stages (node : Node) : levelsAll node.stages = node.levels := by
  cases node with
  | pipe left right =>
    simp only [stages, levelsAll_append, levelsAll_stages left, levels, levelsAll, Nat.max_zero]
  | _ => simp [stages, levels, levelsAll]

theorem levels_ofItems {items : List Node} (some : items ≠ []) :
    (ofItems items).levels = levelsAll items := by
  cases items with
  | nil => exact absurd rfl some
  | cons first rest => cases rest <;> simp [ofItems, levels, levelsAll]

end Node

namespace Grammar

open Node

/-! ## Lists as the lists of their pipelines -/

/-- pipeline (`;` pipeline)* `;`?. -/
inductive ItemsPhrase : List Token → List Node → Prop
  | mk {ts us : List Token} {first : Node} {rest : List Node} :
      PipelinePhrase ts first → TailPhrase us rest → ItemsPhrase (ts ++ us) (first :: rest)

/-- A pipeline is no list of several ones. -/
theorem PipelinePhrase.items_eq {used : List Token} {node : Node}
    (phrase : PipelinePhrase used node) : node.items = [node] := by
  cases phrase.wellFormed with
  | command tree => cases tree <;> rfl
  | pipe => rfl

theorem CommandPhrase.stages_eq {used : List Token} {node : Node}
    (phrase : CommandPhrase used node) : node.stages = [node] := by
  cases phrase <;> rfl

/-- A list is made up of its pipelines. -/
theorem ListPhrase.items {used : List Token} {node : Node} (phrase : ListPhrase used node) :
    ItemsPhrase used node.items := by
  cases phrase with
  | single phrase tail =>
    rw [phrase.items_eq]
    exact .mk phrase tail
  | sequence phrase tail => exact .mk phrase tail

/-- Pipelines make up the list of them. -/
theorem ItemsPhrase.list {used : List Token} {items : List Node} :
    ItemsPhrase used items → ListPhrase used (ofItems items)
  | @ItemsPhrase.mk _ _ _ [] phrase tail => .single phrase tail
  | @ItemsPhrase.mk _ _ _ (_ :: _) phrase tail => .sequence phrase tail

theorem ItemsPhrase.exists_first {used : List Token} {items : List Node} :
    ItemsPhrase used items → ∃ ts us first rest, used = ts ++ us ∧ items = first :: rest ∧
      PipelinePhrase ts first ∧ TailPhrase us rest
  | .mk phrase tail => ⟨_, _, _, _, rfl, rfl, phrase, tail⟩

theorem ItemsPhrase.ne_nil {used : List Token} {items : List Node}
    (phrases : ItemsPhrase used items) : items ≠ [] := by
  obtain ⟨_, _, _, _, _, rfl, _, _⟩ := phrases.exists_first
  exact List.cons_ne_nil _ _

/-- A pipeline in front of a list. -/
theorem ItemsPhrase.cons {separator : Token} {ts us : List Token} {item : Node} {items : List Node}
    (phrase : PipelinePhrase ts item) (mark : separator.isMark semicolon)
    (phrases : ItemsPhrase us items) : ItemsPhrase (ts ++ separator :: us) (item :: items) := by
  cases phrases with
  | mk first tail => exact .mk phrase (.cons mark first tail)

theorem TailPhrase.exists_last {used : List Token} {rest : List Node} :
    TailPhrase used rest → (∀ last ∈ used.getLast?, last.isMark semicolon = false) →
    ∀ {ts : List Token} {first : Node}, PipelinePhrase ts first →
    ∃ before us init last, ts ++ used = before ++ us ∧ first :: rest = init ++ [last] ∧
      PipelinePhrase us last ∧ ∀ {us' items}, ItemsPhrase us' items →
        ItemsPhrase (before ++ us') (init ++ items)
  | .nil, _, ts, first, phrase => ⟨[], ts, [], first, by simp, rfl, phrase, id⟩
  | .trailing mark, unfinished, _, _, _ => by simp [mark] at unfinished
  | @TailPhrase.cons separator ts' us' _ _ mark next tail, unfinished, ts, first, phrase => by
    have unfinished' : ∀ last ∈ us'.getLast?, last.isMark semicolon = false := by
      intro last final
      apply unfinished
      rw [← List.cons_append, List.getLast?_append, final, Option.some_or]
      rfl
    obtain ⟨before, us, init, last, split, items, final, replace⟩ :=
      tail.exists_last unfinished' next
    refine ⟨ts ++ separator :: before, us, first :: init, last, by simp [split], by simp [items],
      final, fun phrases => ?_⟩
    simpa using ItemsPhrase.cons phrase mark (replace phrases)

/-- Any list may stand in the place of the last pipeline of a list that no semicolon ends. -/
theorem ItemsPhrase.exists_last {used : List Token} {items : List Node}
    (phrases : ItemsPhrase used items)
    (unfinished : ∀ last ∈ used.getLast?, last.isMark semicolon = false) :
    ∃ before us init last, used = before ++ us ∧ items = init ++ [last] ∧
      PipelinePhrase us last ∧ ∀ {us' items'}, ItemsPhrase us' items' →
        ItemsPhrase (before ++ us') (init ++ items') := by
  cases phrases with
  | @mk ts us _ _ phrase tail =>
    refine tail.exists_last (fun last final => unfinished last ?_) phrase
    rw [List.getLast?_append, final, Option.some_or]
    rfl

/-- A pipe between two pipelines makes one of them. -/
theorem PipelinePhrase.append {bar : Token} {ts us : List Token} {left right : Node}
    (mark : bar.isMark pipe) (phrase : PipelinePhrase ts left) (more : PipelinePhrase us right) :
    PipelinePhrase (ts ++ bar :: us) (right.stages.foldl .pipe left) := by
  cases phrase with
  | mk command stages =>
    cases more with
    | mk command' stages' =>
      have joined := stages.append (.cons mark command' stages')
      rw [stages_foldl_pipe, command'.stages_eq]
      simpa [List.foldl_append] using PipelinePhrase.mk command joined

end Grammar

open Grammar Node

/-! ## Joined lists of tokens -/

theorem parse_eq_ok_of_items {tokens : List Token} {maxDepth : Int} {items : List Node}
    (kept : withoutComments tokens ≠ []) (phrases : ItemsPhrase (withoutComments tokens) items)
    (fits : levelsAll items ≤ maxDepth.toNat) : parse tokens maxDepth = .ok (ofItems items) :=
  (parse_eq_ok_iff kept).mpr ⟨phrases.list, by rwa [levels_ofItems phrases.ne_nil]⟩

/-- The pipelines of two lists side by side, under the limit that both of them keep to. -/
theorem parse_append_cons {first second : List Token} {separator : Token} {maxDepth : Int}
    {items : List Node} (mark : separator.kind = .symbol)
    (phrases : ItemsPhrase (withoutComments first ++ separator :: withoutComments second) items)
    (fits : levelsAll items ≤ maxDepth.toNat) :
    parse (first ++ separator :: second) maxDepth = .ok (ofItems items) := by
  have kept : withoutComments (first ++ separator :: second) =
      withoutComments first ++ separator :: withoutComments second := by
    rw [withoutComments_append, withoutComments_cons (by simp [mark])]
  refine parse_eq_ok_of_items ?_ (by rwa [kept]) fits
  rw [kept]
  exact List.append_ne_nil_of_right_ne_nil _ (List.cons_ne_nil _ _)

/-- A semicolon between two lists sets their pipelines side by side, and a pipe joins the last
pipeline of the first list to the stages of the first pipeline of the second one. -/
theorem parse_join {first second : List Token} {maxDepth : Int} {left right : Node}
    (leftKept : ∃ token ∈ first, token.kind ≠ .comment)
    (rightKept : ∃ token ∈ second, token.kind ≠ .comment)
    (parsedLeft : parse first maxDepth = .ok left)
    (parsedRight : parse second maxDepth = .ok right)
    (unfinished : ∀ last ∈ (withoutComments first).getLast?, last.isMark semicolon = false) :
    (∀ separator : Token, separator.isMark semicolon →
      parse (first ++ separator :: second) maxDepth = .ok (ofItems (left.items ++ right.items))) ∧
    ∃ init last next rest, left.items = init ++ [last] ∧ right.items = next :: rest ∧
      ∀ bar : Token, bar.isMark pipe → parse (first ++ bar :: second) maxDepth =
        .ok (ofItems (init ++ next.stages.foldl .pipe last :: rest)) := by
  rw [parse_eq_ok_iff (withoutComments_ne_nil leftKept)] at parsedLeft
  rw [parse_eq_ok_iff (withoutComments_ne_nil rightKept)] at parsedRight
  obtain ⟨leftPhrase, leftFits⟩ := parsedLeft
  obtain ⟨rightPhrase, rightFits⟩ := parsedRight
  rw [← levelsAll_items] at leftFits rightFits
  obtain ⟨before, us, init, last, split, leftItems, final, replace⟩ :=
    leftPhrase.items.exists_last unfinished
  obtain ⟨ts, vs, next, rest, split', rightItems, phrase, tail⟩ := rightPhrase.items.exists_first
  rw [leftItems] at leftFits ⊢
  rw [rightItems] at rightFits
  simp only [levelsAll_append, levelsAll] at leftFits rightFits
  constructor
  · intro separator mark
    refine parse_append_cons (kind_of_isMark mark) ?_ ?_
    · rw [split, List.append_assoc, List.append_assoc]
      exact replace (.cons final mark rightPhrase.items)
    · simp only [levelsAll_append, levelsAll, rightItems]
      omega
  · refine ⟨init, last, next, rest, rfl, rightItems, fun bar mark => ?_⟩
    refine parse_append_cons (kind_of_isMark mark) ?_ ?_
    · have joined := ItemsPhrase.mk (final.append mark phrase) tail
      rw [split, split']
      simpa using replace joined
    · simp only [levelsAll_append, levelsAll, levels_foldl_pipe, levelsAll_stages]
      omega

/-- `a;b` and `c|d`, with a semicolon and with a pipe between them. -/
theorem join_words :
    let simple (text : String) : Node := .command (some (.literal text)) [] [] []
    let first : List Token := [.word "a", .ofMark semicolon, .word "b"]
    let second : List Token := [.word "c", .ofMark pipe, .word "d"]
    parse (first ++ .ofMark semicolon :: second) =
        .ok (.sequence [simple "a", simple "b", .pipe (simple "c") (simple "d")]) ∧
      parse (first ++ .ofMark pipe :: second) =
        .ok (.sequence [simple "a", .pipe (.pipe (simple "b") (simple "c")) (simple "d")]) := by
  intro simple first second
  have leftParsed : parse first = .ok (.sequence [simple "a", simple "b"]) := rfl
  have rightParsed : parse second = .ok (.pipe (simple "c") (simple "d")) := rfl
  obtain ⟨besides, init, last, next, rest, leftItems, rightItems, piped⟩ :=
    parse_join ⟨.word "a", by simp [first], by decide⟩ ⟨.word "c", by simp [second], by decide⟩
      leftParsed rightParsed (by decide)
  obtain ⟨rfl, rfl⟩ : init = [simple "a"] ∧ last = simple "b" := by
    have split : [simple "a"] ++ [simple "b"] = init ++ [last] := leftItems
    simpa [eq_comm] using List.append_inj' split rfl
  obtain ⟨rfl, rfl⟩ : next = .pipe (simple "c") (simple "d") ∧ rest = [] := by
    simpa [items, eq_comm] using rightItems
  exact ⟨besides _ (isMark_ofMark _ _), piped _ (isMark_ofMark _ _)⟩

end ShellLine
