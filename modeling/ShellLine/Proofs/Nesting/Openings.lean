import Mathlib.Data.List.Forall2
import ShellLine.Proofs.Nesting.Enclosure
import ShellLine.Proofs.Nesting.Unclosed
import ShellLine.Proofs.Scanner.Sigils
import ShellLine.Proofs.Scanner.Strictness

/-! # Where open groups were opened

Each context on the stack stands for a parenthesis that is still to be closed, and carries the
position that is reported if it never is. Between tokens that is the position of the sigil in front
of the parenthesis, or of the parenthesis itself where there is none. In quoted text it is the
position of the quote, since what is put on the stack there is the quote to be resumed: `Recorded`.
`dangling_reported` says what this comes to where a line leaves groups open.
-/

namespace ShellLine

open Alphabet Text

/-! ## Open groups -/

/-- The parentheses that are still to be closed, innermost first. -/
def openGroups (opened : List Token) : List Token :=
  opened.filter (·.isMark openParen)

section Groups

variable {opened : List Token} {token : Token}

theorem openGroups_cons_of_pos (opens : token.isMark openParen) :
    openGroups (token :: opened) = token :: openGroups opened := by
  simp [openGroups, opens]

theorem openGroups_cons_of_neg (noGroup : token.isMark openParen = false) :
    openGroups (token :: opened) = openGroups opened := by
  simp [openGroups, noGroup]

theorem openGroups_of_openParen (opens : token.isMark openParen) :
    openGroups (unclosedAfter opened token) = token :: openGroups opened := by
  rw [unclosedAfter_of_openParen opens, openGroups_cons_of_pos opens]

/-- A closing parenthesis closes the innermost group. -/
theorem openGroups_of_closeParen (closes : token.isMark closeParen) :
    openGroups (unclosedAfter opened token) = (openGroups opened).tail := by
  rw [unclosedAfter_of_closeParen closes]
  induction opened with
  | nil => rfl
  | cons first rest ih =>
    cases opens : first.isMark openParen with
    | true =>
      have erased : (first :: rest).eraseP (·.isMark openParen) = rest :=
        List.eraseP_cons_of_pos opens
      rw [erased, openGroups_cons_of_pos opens, List.tail_cons]
    | false =>
      have kept : (first :: rest).eraseP (·.isMark openParen) =
          first :: rest.eraseP (·.isMark openParen) := List.eraseP_cons_of_neg (by simp [opens])
      rw [kept, openGroups_cons_of_neg opens, openGroups_cons_of_neg opens, ih]

/-- No other token opens or closes a group. -/
theorem openGroups_of_ne (noOpening : token.isMark openParen = false)
    (noClosing : token.isMark closeParen = false) :
    openGroups (unclosedAfter opened token) = openGroups opened := by
  unfold unclosedAfter
  split
  case isFalse => simp [noOpening, noClosing]
  case isTrue opens =>
    split
    case isFalse => exact openGroups_cons_of_neg noOpening
    case isTrue same =>
      cases opened with
      | nil => rfl
      | cons first rest =>
        have same : first.isSymbol [token.value] := by simpa using same
        have noGroup : first.isMark openParen = false := by
          rw [Bool.eq_false_iff]
          intro group
          rw [not_closesQuote opens group (by decide)] at same
          cases same
        exact (openGroups_cons_of_neg noGroup).symm

end Groups

/-! ## What the stack remembers -/

/-- The context that a parenthesis was opened in, with the tokens so far, newest first. -/
inductive Recorded (emitted : List Token) (outer : ScanContext) (paren : Token) : Prop
  /-- After a sigil in quoted text the quote is to be resumed. -/
  | quoted {newer older : List Token} {mark : Token} :
      outer.mode = .quote → emitted = newer ++ paren :: mark :: older → mark.isMark sigil →
      mark.endPos = paren.pos → Recorded emitted outer paren
  /-- After a sigil between tokens its position is to be reported. -/
  | substitution {newer older : List Token} {mark : Token} :
      outer.mode ≠ .quote → outer.opened = mark.pos → emitted = newer ++ paren :: mark :: older →
      mark.isMark sigil → mark.endPos = paren.pos → Recorded emitted outer paren
  /-- Without a sigil it is that of the parenthesis. -/
  | bare {newer older : List Token} :
      outer.mode ≠ .quote → outer.opened = paren.pos → emitted = newer ++ paren :: older →
      (∀ mark ∈ older.head?, mark.isMark sigil → mark.endPos ≠ paren.pos) →
      Recorded emitted outer paren

/-- Later tokens do not matter. -/
theorem Recorded.mono {emitted later : List Token} {outer : ScanContext} {paren : Token}
    (recorded : Recorded emitted outer paren) (grown : emitted <:+ later) :
    Recorded later outer paren := by
  obtain ⟨more, rfl⟩ := grown
  cases recorded with
  | quoted quote split sigil adjoins =>
    exact .quoted quote (by rw [split, ← List.append_assoc]) sigil adjoins
  | substitution noQuote same split sigil adjoins =>
    exact .substitution noQuote same (by rw [split, ← List.append_assoc]) sigil adjoins
  | bare noQuote same split apart =>
    exact .bare noQuote same (by rw [split, ← List.append_assoc]) apart

namespace Scanner

/-- The parentheses that the tokens so far leave open, innermost first. -/
def groups (s : Scanner) : List Token :=
  openGroups (unclosed s.tokens)

/-- Each context on the stack was put there for a parenthesis that is open. -/
def Recalls (s : Scanner) (stack : List ScanContext) : Prop :=
  List.Forall₂ (Recorded s.emitted) stack s.groups

/-- The contexts on the stack stand for the open groups. After a sigil the one on top waits for a
parenthesis that may still come. -/
def Records (s : Scanner) : Prop :=
  match s.context.mode with
  | .substitution => ∃ outer rest mark older, s.stack = outer :: rest ∧ s.Recalls rest ∧
      s.emitted = mark :: older ∧ mark.isMark sigil ∧ (outer.mode ≠ .quote → outer.opened = mark.pos)
  | _ => s.Recalls s.stack

variable {s after : Scanner} {stack : List ScanContext} {text : List Char} {stop : Nat} {c : Char}

theorem Recalls.grow (recalls : s.Recalls stack) (grown : s.emitted <:+ after.emitted)
    (same : after.groups = s.groups) : after.Recalls stack := by
  rw [Recalls, same]
  exact recalls.imp fun _ _ recorded => recorded.mono grown

theorem Records.inMode (mode : ScanMode) (inMode : s.context.mode = mode)
    (apart : mode ≠ .substitution) (recalls : s.Recalls s.stack) : s.Records := by
  unfold Records
  split
  case h_1 name => exact absurd (inMode.symm.trans name) apart
  case h_2 => exact recalls

theorem Records.recalls (records : s.Records) (noName : s.context.mode ≠ .substitution) :
    s.Recalls s.stack := by
  unfold Records at records
  split at records
  case h_1 name => exact absurd name noName
  case h_2 => exact records

/-! ## Single tokens -/

theorem groups_emit {token : Token} (noOpening : token.isMark openParen = false)
    (noClosing : token.isMark closeParen = false) : (s.emit token).groups = s.groups := by
  rw [groups, unclosed_emit, openGroups_of_ne noOpening noClosing, groups]

theorem groups_emit_ofMark {pos : Option Int} (apart : c ≠ openParen ∧ c ≠ closeParen) :
    (s.emit (.ofMark c pos)).groups = s.groups :=
  groups_emit (isMark_of_isMark (isMark_ofMark c pos) apart.1)
    (isMark_of_isMark (isMark_ofMark c pos) apart.2)

theorem groups_endFragment {pos : Int} (apart : c ≠ openParen ∧ c ≠ closeParen) :
    (s.endFragment c pos).groups = s.groups := by
  rw [endFragment, groups_emit_ofMark apart, groups, s.unclosed_flush_of_kind (by decide), groups]

theorem groups_settle (coherent : s.Coherent) : s.settle.groups = s.groups := by
  rw [groups, unclosed_settle coherent, groups]

theorem Recalls.emit_ofMark {pos : Option Int} (recalls : s.Recalls stack)
    (apart : c ≠ openParen ∧ c ≠ closeParen) : (s.emit (.ofMark c pos)).Recalls stack :=
  recalls.grow (List.suffix_cons ..) (groups_emit_ofMark apart)

/-- A parenthesis comes with the context on top of the stack. -/
theorem Recalls.emit_openParen {pos : Int} {outer : ScanContext} (recalls : s.Recalls stack)
    (recorded : Recorded (.ofMark openParen pos :: s.emitted) outer (.ofMark openParen pos)) :
    (s.emit (.ofMark openParen pos)).Recalls (outer :: stack) := by
  rw [Recalls, groups, unclosed_emit, openGroups_of_openParen (isMark_ofMark ..)]
  exact .cons recorded (recalls.imp fun _ _ earlier => earlier.mono (List.suffix_cons ..))

theorem stack_pop (s : Scanner) : s.pop.stack = s.stack.tail := by
  unfold pop
  split
  case h_1 empty => rw [empty, List.tail_nil]
  case h_2 stack => rw [stack, List.tail_cons]

theorem Recalls.emit_closeParen {pos : Option Int} (recalls : s.Recalls stack) :
    (s.emit (.ofMark closeParen pos)).Recalls stack.tail := by
  rw [Recalls, groups, unclosed_emit, openGroups_of_closeParen (isMark_ofMark ..), ← groups]
  rw [Recalls] at recalls
  generalize s.groups = parens at recalls ⊢
  cases recalls with
  | nil => exact .nil
  | cons _ others => exact others.imp fun _ _ earlier => earlier.mono (List.suffix_cons ..)

/-! ## Whole steps -/

/-- What settles a token takes a context off the stack that no parenthesis has come for. -/
theorem Records.settle (records : s.Records) (coherent : s.Coherent) :
    s.settle.Recalls s.settle.stack := by
  have same := groups_settle coherent
  by_cases mode : s.context.mode = .substitution
  · simp only [Records, mode] at records
    obtain ⟨outer, rest, mark, older, stack, recalls, _⟩ := records
    have popped : s.settle.stack = rest := by
      rw [settle_of_substitution mode, stack_pop, flushName_stack, stack, List.tail_cons]
    rw [popped]
    exact recalls.grow s.suffix_settle same
  · have kept : s.settle.stack = s.stack := by
      unfold Scanner.settle
      split
      case h_4 name => exact absurd name mode
      all_goals rfl
    rw [kept]
    exact (records.recalls mode).grow s.suffix_settle same

theorem Recalls.pop (recalls : s.Recalls s.stack.tail)
    (resumable : ∀ outer ∈ s.stack, outer.Resumable) : s.pop.Records := by
  have same : s.pop.groups = s.groups := by rw [groups, tokens, pop_emitted, ← tokens, groups]
  refine .inMode _ rfl (resumable_pop resumable).apart ?_
  rw [stack_pop]
  exact recalls.grow (pop_emitted s ▸ List.suffix_rfl) same

theorem Recalls.stepStart (recalls : s.Recalls s.stack) (settled : Settled text s.emitted)
    (resumable : ∀ outer ∈ s.stack, outer.Resumable) (found : text[stop]? = some c)
    (next : Option Char) : (s.stepStart next c stop).Records := by
  refine s.stepStart_cases next c stop ?blank ?escape ?quote ?operator ?assign ?symbol ?comment
    ?sigil ?opening ?closing ?star ?word
  case blank => exact fun _ => .inMode .start rfl (by decide) recalls
  case escape => exact fun _ => .inMode .literal rfl (by decide) recalls
  case operator => exact fun _ => .inMode .operator rfl (by decide) recalls
  case comment => exact fun _ => .inMode .comment rfl (by decide) recalls
  case star => exact fun _ => .inMode .wildcard rfl (by decide) recalls
  case word => exact fun _ _ _ _ _ => .inMode .literal rfl (by decide) recalls
  case quote =>
    intro mark
    have apart := ne_of_mem_of_not_mem mark (show openParen ∉ quoteMarks by decide)
    have other := ne_of_mem_of_not_mem mark (show closeParen ∉ quoteMarks by decide)
    exact .inMode .quote rfl (by decide) (recalls.emit_ofMark ⟨apart, other⟩)
  case assign =>
    intro _
    have sign := s.isMark_assignToken next stop
    have same : (s.emit (s.assignToken next stop)).groups = s.groups :=
      groups_emit (isMark_of_isMark sign (by decide)) (isMark_of_isMark sign (by decide))
    exact .inMode .start rfl (by decide) (recalls.grow (List.suffix_cons ..) same)
  case symbol =>
    intro symbol _
    have apart := ne_of_mem_of_not_mem symbol (show openParen ∉ plainSymbols by decide)
    have other := ne_of_mem_of_not_mem symbol (show closeParen ∉ plainSymbols by decide)
    exact .inMode .start rfl (by decide) (recalls.emit_ofMark ⟨apart, other⟩)
  case sigil =>
    rintro rfl
    exact ⟨.group stop, s.stack, _, s.emitted, rfl, recalls.emit_ofMark (by decide), rfl,
      isMark_ofMark .., fun _ => rfl⟩
  case opening =>
    rintro rfl
    have apart : ∀ mark ∈ s.emitted.head?, mark.isMark sigil → mark.endPos ≠ some (stop : Int) := by
      intro mark newest isSigil stands
      obtain ⟨pos, placed, none⟩ := settled.alone mark newest isSigil
      have ends : mark.endPos = some ((pos + 1 : Nat) : Int) := by
        simp [Token.endPos, placed, (Token.isMark_iff.mp isSigil).2]
      obtain rfl : stop = pos + 1 := by
        rw [ends, Option.some_inj] at stands
        omega
      rw [found] at none
      exact absurd none (by decide)
    have recorded : Recorded (.ofMark openParen (stop : Int) :: s.emitted) (.group stop)
        (.ofMark openParen (stop : Int)) :=
      .bare (show ScanMode.start ≠ .quote by decide) rfl (List.nil_append _).symm apart
    exact .inMode .start rfl (by decide) (recalls.emit_openParen recorded)
  case closing =>
    rintro rfl
    have closed : (s.emit (.ofMark closeParen (stop : Int))).Recalls s.stack.tail :=
      recalls.emit_closeParen
    exact closed.pop resumable

theorem Recalls.stepQuote (recalls : s.Recalls s.stack) (quote : s.context.IsQuote) {pos : Int} :
    (s.stepQuote c pos).Records := by
  have afterText (apart : c ≠ openParen ∧ c ≠ closeParen) : (s.endFragment c pos).Recalls s.stack :=
    recalls.grow ((List.suffix_cons ..).trans (List.suffix_cons ..)) (groups_endFragment apart)
  refine s.stepQuote_cases c pos ?escape ?sigil ?text ?closing
  case escape => exact fun _ => .inMode .quote quote.1 (by decide) recalls
  case text => exact fun _ _ _ => .inMode .quote quote.1 (by decide) recalls
  case sigil =>
    rintro rfl
    exact ⟨s.context, s.stack, _, _, rfl, afterText (by decide), rfl, isMark_ofMark ..,
      fun noQuote => absurd quote.1 noQuote⟩
  case closing =>
    intro same
    obtain ⟨mark, member, delimiter⟩ := quote.2
    obtain rfl : c = mark := String.singleton_inj.mp (same.trans delimiter)
    have apart := ne_of_mem_of_not_mem member (show openParen ∉ quoteMarks by decide)
    have other := ne_of_mem_of_not_mem member (show closeParen ∉ quoteMarks by decide)
    exact .inMode .start rfl (by decide) (afterText ⟨apart, other⟩)

/-- What comes before a character that settles a token is settled. -/
theorem Adjoins.settle (adjoins : s.Adjoins text stop) (coherent : s.Coherent)
    (found : text[stop]? = some c) (apart : s.continues c = false) :
    Settled text s.settle.emitted := by
  by_cases mode : s.context.mode = .substitution
  · rw [Adjoins, if_pos mode] at adjoins
    refine adjoins.settle mode fun empty => ?_
    simpa [found, continues, mode, empty, introduces] using apart
  · rw [Adjoins, if_neg mode] at adjoins
    exact adjoins.settle coherent mode

/-- A group right after its sigil takes the context that has been waiting for it. -/
theorem Records.openSubshell (records : s.Records) (adjoins : s.Adjoins text stop)
    (mode : s.context.mode = .substitution) (empty : s.buffer = "") :
    (s.openSubshell openParen stop).Records := by
  simp only [Records, mode] at records
  obtain ⟨outer, rest, mark, older, stack, recalls, emitted, isSigil, opened⟩ := records
  rw [Adjoins, if_pos mode] at adjoins
  obtain ⟨same, _, pos, newest, _, placed, _, ⟨_, rfl⟩ | ⟨name, _⟩⟩ := adjoins
  case inr => exact absurd empty name
  obtain ⟨rfl, -⟩ := List.cons_eq_cons.mp (emitted.symm.trans newest)
  have adjoined : mark.endPos = some ((pos + 1 : Nat) : Int) := by
    simp [Token.endPos, placed, (Token.isMark_iff.mp isSigil).2]
  have recorded : Recorded (.ofMark openParen ((pos + 1 : Nat) : Int) :: s.emitted) outer
      (.ofMark openParen ((pos + 1 : Nat) : Int)) := by
    rw [emitted]
    by_cases quote : outer.mode = .quote
    · exact .quoted quote (List.nil_append _).symm isSigil adjoined
    · exact .substitution quote (opened quote) (List.nil_append _).symm isSigil adjoined
  refine .inMode .start rfl (by decide) ?_
  change (s.emit (.ofMark openParen ((pos + 1 : Nat) : Int))).Recalls s.stack
  rw [stack]
  exact recalls.emit_openParen recorded

theorem Records.congr (records : s.Records) (emitted : after.emitted = s.emitted)
    (context : after.context = s.context) (stack : after.stack = s.stack) : after.Records := by
  unfold Records Recalls groups tokens at records ⊢
  rwa [emitted, context, stack]

/-- A step keeps the stack and the open groups together. -/
theorem Records.step (records : s.Records) (adjoins : s.Adjoins text stop) (coherent : s.Coherent)
    (found : text[stop]? = some c) (next : Option Char) : (s.step next c stop).Records := by
  refine coherent.step_cases_apart ?escaped ?goesOn ?start ?quote ?comment
  case escaped => exact fun _ => records.congr rfl rfl rfl
  case goesOn =>
    intro plain goesOn
    refine step_cases_of_continues next plain goesOn ?keep ?escape ?star ?double ?subshell
    case keep => exact fun _ => records.congr rfl rfl rfl
    case escape => exact fun _ _ => records.congr rfl rfl rfl
    case star =>
      intro mode _
      exact .inMode .wildcard rfl (by decide) (records.recalls (by simp [mode]))
    case double =>
      intro mode same
      have doubled : (s.keep c stop).buffer ∈ redirectOperators :=
        coherent.operator_of_double mode same
      have kept : ((s.keep c stop).flush .symbol).groups = s.groups := by
        rw [groups, unclosed_flush_operator doubled]
        rfl
      have recalls := records.recalls (by simp [mode])
      exact .inMode .start rfl (by decide) (recalls.grow (List.suffix_cons ..) kept)
    case subshell =>
      rintro mode rfl empty
      exact records.openSubshell adjoins mode empty
  case start =>
    intro plain apart _ _
    have settled := adjoins.settle coherent found apart
    obtain ⟨later, _⟩ := coherent.settle plain
    exact (records.settle coherent).stepStart settled later.resumable found next
  case quote => exact fun _ _ quote => (records.settle coherent).stepQuote quote
  case comment =>
    intro _ mode
    have recalls := records.recalls (by simp [mode])
    unfold stepComment
    split
    case isTrue =>
      have kept : (s.flush .comment).groups = s.groups := by
        rw [groups, s.unclosed_flush_of_kind (by decide), groups]
      exact .inMode .start rfl (by decide) (recalls.grow (List.suffix_cons ..) kept)
    case isFalse => exact records.congr rfl rfl rfl

/-- Reading a piece of a text from a fresh start keeps them together. -/
theorem records_run {start : Nat} {read : List Char} (ahead : read <+: text.drop start) :
    (({} : Scanner).run start read).Records := by
  refine (coherent_fresh.run_induction_within
    (motive := fun before s => s.Adjoins text (start + before.length) ∧ s.Records)
    start read none ⟨?_, ?_⟩ ?_).2.2
  · exact .inMode .start rfl (by decide) ⟨.nil, by simp⟩
  · exact .inMode .start rfl (by decide) .nil
  · rintro before s c rest split coherent ⟨adjoins, records⟩
    have found : text[start + before.length]? = some c := by
      obtain ⟨more, same⟩ := ahead
      rw [← List.getElem?_drop, ← same, split]
      simp
    rw [List.length_append]
    exact ⟨adjoins.step coherent found _, records.step adjoins coherent found _⟩

/-- The end of a text keeps them together as well. -/
theorem Records.complete (records : s.Records) (coherent : s.Coherent) :
    s.complete.Recalls s.complete.stack := by
  unfold Scanner.complete
  split
  case isTrue mode =>
    have kept : (s.flush .comment).groups = s.groups := by
      rw [groups, s.unclosed_flush_of_kind (by decide), groups]
    exact (records.recalls (by simp [mode])).grow (List.suffix_cons ..) kept
  case isFalse => exact records.settle coherent

/-- Dangling contexts are found in the same way by strict reading. -/
theorem Coherent.finish_of_dangling (coherent : s.Coherent) {strictComments : Bool} {count : Nat}
    {opened : Option Int}
    (dangling : (s.finish strictComments).2 = some (.danglingContext count opened)) :
    (s.finish false).2 = some (.danglingContext count opened) := by
  cases strictComments with
  | false => exact dangling
  | true =>
    by_cases comment : s.context.mode = .comment
    · rw [finish_strict_of_comment comment] at dangling
      cases dangling
    · rwa [← coherent.finish_strict_of_ne comment]

end Scanner

theorem Encloses.exists_cons {outer : ScanContext} {rest : List ScanContext} {opened : List Token}
    (encloses : Encloses (outer :: rest) opened) :
    ∃ innermost around, opened = innermost :: around ∧ innermost.isMark openParen := by
  cases encloses with
  | group _ opens _ => exact ⟨_, _, rfl, opens⟩
  | quoted _ opens _ => exact ⟨_, _, rfl, opens⟩

/-! ## What is reported -/

/-- The symbol whose position is reported for an open parenthesis, by the tokens before it and by the
symbols that are open around it. -/
inductive ReportedAt (before around : List Token) (paren : Token) : Token → Prop
  /-- The sigil right before the parenthesis, between tokens. -/
  | substitution {mark : Token} :
      mark ∈ before.getLast? → mark.isMark sigil → mark.endPos = paren.pos →
      (∀ outer ∈ around.head?, outer.isMark openParen) → ReportedAt before around paren mark
  /-- The parenthesis itself, if no sigil is right before it. -/
  | bare :
      (∀ mark ∈ before.getLast?, mark.isMark sigil → mark.endPos ≠ paren.pos) →
      (∀ outer ∈ around.head?, outer.isMark openParen) → ReportedAt before around paren paren
  /-- The mark of the quote that the sigil and the parenthesis stand in. -/
  | quoted {mark quote : Token} :
      mark ∈ before.getLast? → mark.isMark sigil → mark.endPos = paren.pos →
      quote ∈ around.head? → quote.isSymbol (quoteMarks.map String.singleton) →
      ReportedAt before around paren quote

/-- A length is no dangling context. -/
theorem lengthFault_ne_dangling (tokenizer : Tokenizer) (count : Nat) (opened : Option Int) :
    tokenizer.lengthFault ≠ some (.danglingContext count opened) := by
  intro long
  obtain ⟨limit, _, fault⟩ := Option.bind_eq_some_iff.mp long
  split at fault <;> cases fault

/-- Whatever the options are, a dangling context is one of the whole line. -/
theorem finish_of_dangling {line : String} {strictComments : Bool} {maxLength : Option Int}
    {count : Nat} {opened : Option Int}
    (ran : tokenize line strictComments maxLength = .error (.danglingContext count opened)) :
    ((Scanner.ofText line.toList).finish false).2 = some (.danglingContext count opened) := by
  have coherent := Scanner.coherent_ofText line.toList
  rw [tokenize_limited] at ran
  split at ran
  case h_1 fault long =>
    obtain rfl : fault = .danglingContext count opened := Except.error.inj ran
    exact absurd long (lengthFault_ne_dangling _ count opened)
  case h_2 =>
    rw [tokenize_eq] at ran
    split at ran
    case h_1 last fault ended =>
      obtain rfl : fault = .danglingContext count opened := Except.error.inj ran
      exact coherent.finish_of_dangling (congrArg Prod.snd ended)
    case h_2 => cases ran

/-- A mark that reading a line leaves stands in it. -/
theorem getElem?_of_mem_leftover {line : String} {token : Token} {mark : Char}
    (member : token ∈ leftover line) (found : token.isMark mark) :
    ∃ pos : Nat, token.pos = some (pos : Int) ∧ line.toList[pos]? = some mark := by
  obtain ⟨before, after, split, pos⟩ := exists_split_of_mem_leftover member
  refine ⟨before.length, pos, ?_⟩
  rw [split, (Token.isMark_iff.mp found).2]
  simp

/-- The position on the stack is that of the symbol to be reported. -/
theorem Recorded.reportedAt {emitted around : List Token} {stack : List ScanContext}
    {outer : ScanContext} {paren : Token} (recorded : Recorded emitted outer paren)
    (encloses : Encloses (outer :: stack) (paren :: around)) (resumable : outer.Resumable) :
    ∃ before after reported, emitted.reverse = before ++ paren :: after ∧
      ReportedAt before around paren reported ∧ outer.opened = reported.pos := by
  have turned {newer older : List Token} (split : emitted = newer ++ paren :: older) :
      emitted.reverse = older.reverse ++ paren :: newer.reverse := by
    simp [split]
  have last (mark : Token) (older : List Token) : mark ∈ (mark :: older).reverse.getLast? := by
    simp
  cases encloses with
  | group noQuote _ inner =>
    cases recorded with
    | quoted quote _ _ _ => exact absurd quote noQuote
    | substitution _ opened split isSigil adjoins =>
      exact ⟨_, _, _, turned split, .substitution (last _ _) isSigil adjoins inner.head, opened⟩
    | bare _ opened split apart =>
      exact ⟨_, _, paren, turned split, .bare (by simpa using apart) inner.head, opened⟩
  | quoted quote _ inner =>
    have isQuote : outer.IsQuote :=
      resumable.resolve_left fun start => absurd (quote.symm.trans start) (by decide)
    cases recorded with
    | quoted _ split isSigil adjoins =>
      refine ⟨_, _, outer.openingMark, turned split, ?_, rfl⟩
      exact .quoted (last _ _) isSigil adjoins rfl isQuote.opensQuote
    | substitution noQuote _ _ _ _ => exact absurd quote noQuote
    | bare noQuote _ _ _ => exact absurd quote noQuote

/-- What is reported is a sigil, a parenthesis or a quote mark. -/
theorem ReportedAt.exists_mark {before around : List Token} {paren reported : Token}
    (found : ReportedAt before around paren reported) (opens : paren.isMark openParen) :
    (reported ∈ before ∨ reported ∈ paren :: around) ∧
      ∃ mark ∈ sigil :: openParen :: quoteMarks, reported.isMark mark := by
  cases found with
  | substitution last isSigil _ _ =>
    exact ⟨.inl (List.mem_of_getLast? last), sigil, by simp, isSigil⟩
  | bare _ _ => exact ⟨.inr List.mem_cons_self, openParen, by simp, opens⟩
  | quoted _ _ _ first isQuote =>
    obtain ⟨symbol, mark, member, value⟩ := opensQuote_iff.mp isQuote
    refine ⟨.inr (List.mem_cons_of_mem _ (List.mem_of_mem_head? first)), mark, ?_,
      Token.isMark_iff.mpr ⟨symbol, value⟩⟩
    exact List.mem_cons_of_mem _ (List.mem_cons_of_mem _ member)

/-- A dangling context is the one on top of the stack where a text ends outside of quotes. -/
theorem Scanner.Coherent.exists_top_of_dangling {s : Scanner} (coherent : s.Coherent) {count : Nat}
    {opened : Option Int} (ended : (s.finish false).2 = some (.danglingContext count opened)) :
    s.complete.context.mode ≠ .quote ∧
      ∃ outer rest, s.complete.stack = outer :: rest ∧ outer.opened = opened := by
  have closed : s.complete.context.mode ≠ .quote := by
    intro quote
    rw [coherent.finish_of_quote quote] at ended
    cases ended
  rw [(coherent.finish_of_closed closed).2] at ended
  obtain ⟨outer, top, same⟩ := Option.map_eq_some_iff.mp ended
  obtain ⟨rest, stack⟩ := List.head?_eq_some_iff.mp top
  exact ⟨closed, outer, rest, stack, (LexicalFault.danglingContext.inj same).2⟩

/-- The position of a dangling context is that of the symbol to be reported for the innermost open
parenthesis. -/
theorem exists_reportedAt {line : String} {count : Nat} {opened : Option Int}
    (ended : ((Scanner.ofText line.toList).finish false).2 = some (.danglingContext count opened)) :
    ∃ before paren after around reported,
      leftover line = before ++ paren :: after ∧ unclosed (leftover line) = paren :: around ∧
      paren.isMark openParen ∧ ReportedAt before around paren reported ∧ opened = reported.pos := by
  have coherent := Scanner.coherent_ofText line.toList
  have nests : (Scanner.ofText line.toList).Nests := Scanner.nests_run ..
  obtain ⟨closed, outer, rest, stack, rfl⟩ := coherent.exists_top_of_dangling ended
  have recalls := (Scanner.records_run (strip_prefix_drop line.toList)).complete coherent
  have encloses := nests.encloses_complete coherent closed
  rw [← Scanner.ofText, stack] at recalls
  rw [stack] at encloses
  obtain ⟨paren, others, recorded, _, groups⟩ := List.forall₂_cons_left_iff.mp recalls
  obtain ⟨innermost, around, unclosed, opens⟩ := encloses.exists_cons
  obtain rfl : paren = innermost := by
    rw [Scanner.groups, unclosed, openGroups_cons_of_pos opens] at groups
    exact (List.cons.inj groups).1.symm
  rw [unclosed] at encloses
  have resumable : outer.Resumable :=
    coherent.resumable outer (Scanner.mem_stack_of_complete (stack ▸ List.mem_cons_self))
  obtain ⟨before, after, reported, split, found, same⟩ := recorded.reportedAt encloses resumable
  rw [leftover_eq_complete]
  exact ⟨before, paren, after, around, reported, split, unclosed, opens, found, same⟩

/-- A dangling context is reported for the innermost open parenthesis: at the sigil right before it,
or at the parenthesis itself if there is none. In quoted text it is reported at the quote mark
instead. -/
theorem dangling_reported {line : String} {strictComments : Bool} {maxLength : Option Int}
    {fault : LexicalFault} (ran : tokenize line strictComments maxLength = .error fault)
    (dangling : fault.kind = .danglingContext) :
    ∃ before paren after around reported,
      leftover line = before ++ paren :: after ∧
      unclosed (leftover line) = paren :: around ∧ paren.isMark openParen ∧
      ReportedAt before around paren reported ∧
      ∃ pos : Nat, ∃ mark, fault.diagnostic.pos = some (pos : Int) ∧
        reported.pos = some (pos : Int) ∧ reported.isMark mark ∧ line.toList[pos]? = some mark := by
  obtain ⟨count, opened, rfl⟩ : ∃ count opened, fault = .danglingContext count opened := by
    cases fault with
    | danglingContext count opened => exact ⟨count, opened, rfl⟩
    | _ => cases dangling
  obtain ⟨before, paren, after, around, reported, split, unclosed, opens, found, rfl⟩ :=
    exists_reportedAt (finish_of_dangling ran)
  obtain ⟨member, mark, _, isMark⟩ := found.exists_mark opens
  have inLine : reported ∈ leftover line := by
    rcases member with earlier | opened
    · rw [split]
      exact List.mem_append_left _ earlier
    · exact mem_of_mem_unclosed (unclosed ▸ opened)
  obtain ⟨pos, placed, stands⟩ := getElem?_of_mem_leftover inLine isMark
  exact ⟨before, paren, after, around, reported, split, unclosed, opens, found, pos, mark, placed,
    placed, isMark, stands⟩

/-- The group of `a "$b" $(c (d)` is reported at its sigil. -/
theorem dangling_substitution :
    tokenize "a \"$b\" $(c (d)" = .error (.danglingContext 1 (some 7)) ∧
      ∃ before paren after around reported,
        leftover "a \"$b\" $(c (d)" = before ++ paren :: after ∧
        unclosed (leftover "a \"$b\" $(c (d)") = paren :: around ∧ paren.isMark openParen ∧
        ReportedAt before around paren reported ∧ reported.pos = some 7 := by
  have ran : tokenize "a \"$b\" $(c (d)" = .error (.danglingContext 1 (some 7)) := rfl
  obtain ⟨before, paren, after, around, reported, split, innermost, opens, found, pos, _, same,
    placed, _⟩ := dangling_reported ran rfl
  exact ⟨ran, before, paren, after, around, reported, split, innermost, opens, found,
    placed.trans same.symm⟩

/-- The group of `"x$(ls` is reported at the quote, two characters before its sigil. -/
theorem dangling_in_quote :
    tokenize "\"x$(ls" = .error (.danglingContext 1 (some 0)) ∧
      "\"x$(ls".toList[0]? = some '"' ∧ "\"x$(ls".toList[2]? = some sigil ∧
      "\"x$(ls".toList[3]? = some openParen :=
  ⟨rfl, rfl, rfl, rfl⟩

end ShellLine
