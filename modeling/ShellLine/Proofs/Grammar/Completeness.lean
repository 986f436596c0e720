import ShellLine.Proofs.Grammar.Soundness

/-! # Phrases are read

Wherever a phrase stands in front of what may follow it, the rule for it reads exactly that phrase,
if the limit on nesting leaves room for its levels.
-/

namespace ShellLine.Grammar

open Alphabet Cursor

/-- Lists of up to so many tokens are read whenever there is room for their levels and a closing
parenthesis or nothing follows. -/
def CompleteList (list : Reading Node) (bound : Nat) : Prop :=
  ∀ ⦃cursor used later tree⦄, cursor.rest = used ++ later → cursor.rest.length ≤ bound →
    ListPhrase used tree → tree.levels ≤ cursor.room →
    Ends [closeParen] later.head? → Reads list cursor used tree

theorem exists_of_atAssignment {cursor : Cursor} {leading : Bool}
    (found : cursor.atAssignment leading) :
    ∃ name sign later, cursor.rest = name :: sign :: later ∧ name.kind = .literal ∧
      assigns (some sign) ∧ (leading → Text.isVariableName name.value) := by
  cases ahead : cursor.rest with
  | nil => simp [atAssignment, current_eq_head?, ahead] at found
  | cons name rest =>
    cases rest with
    | nil => simp [atAssignment, current_eq_head?, peek_eq_getElem?, ahead] at found
    | cons sign later => exact ⟨name, sign, later, rfl, (atAssignment_iff ahead).mp found⟩

theorem not_atAssignment_of_kind {cursor : Cursor} {token : Token} {later : List Token}
    {leading : Bool} (ahead : cursor.rest = token :: later) (kind : token.kind ≠ .literal) :
    cursor.atAssignment leading = false := by
  rw [Bool.eq_false_iff]
  intro found
  obtain ⟨name, sign, others, ahead', word, _⟩ := exists_of_atAssignment found
  obtain ⟨rfl, _⟩ := List.cons.inj (ahead.symm.trans ahead')
  exact kind word

theorem AssignmentPhrase.atAssignment {cursor : Cursor} {used later : List Token}
    {next : Option Token} {node : Node} {leading : Bool} (phrase : AssignmentPhrase used next node)
    (ahead : cursor.rest = used ++ later)
    (named : leading → ∀ name value, node = .assign name value → Text.isVariableName name) :
    cursor.atAssignment leading := by
  cases phrase with
  | bare word assigned _ =>
    exact (atAssignment_iff ahead).mpr ⟨word, assigned, fun leads => named leads _ _ rfl⟩
  | valued word assigned _ _ =>
    exact (atAssignment_iff ahead).mpr ⟨word, assigned, fun leads => named leads _ _ rfl⟩

theorem RedirectPhrase.atRedirect {cursor : Cursor} {used later : List Token} {node : Node}
    (leading : Bool) (phrase : RedirectPhrase used node) (ahead : cursor.rest = used ++ later) :
    cursor.atAssignment leading = false ∧ cursor.atRedirect := by
  cases phrase with
  | mk redirects _ =>
    refine ⟨not_atAssignment_of_kind ahead (by simp [kind_of_isSymbol redirects]), ?_⟩
    simpa [Cursor.atRedirect, atSymbol, current_of_rest ahead] using redirects

theorem not_atRedirect_of_isMark {cursor : Cursor} {token : Token} {mark : Char}
    (found : token.isMark mark) (apart : String.singleton mark ∉ redirectOperators)
    (current : cursor.current = some token) : cursor.atRedirect = false := by
  simpa only [Cursor.atRedirect, atSymbol, current, Option.any_some] using
    isSymbol_of_isMark found (by decide) apart

/-- A quote has its marks around a first text and the parts after it. -/
theorem QuotePhrase.exists_parts {used : List Token} {node : Node}
    (phrase : QuotePhrase used node) : ∃ opening text closing inner parts,
      used = opening :: text :: (inner ++ [closing]) ∧
      opening.isSymbol (quoteMarks.map String.singleton) ∧ text.kind = .fragment ∧
      InterpolationsPhrase inner parts ∧ closing.isSymbol [opening.value] ∧
      node.levels = Node.levelsInQuote parts + 1 ∧
      ∀ found, quoteParts found = parts → quoteNode opening.value text.value found = node := by
  cases phrase with
  | plain opens fragment closes =>
    refine ⟨_, _, _, [], [], rfl, opens, fragment, .nil, closes, rfl, fun found same => ?_⟩
    cases found with
    | nil => rfl
    | cons first rest => simp [quoteParts] at same
  | mixed opens fragment phrases nonempty closes =>
    refine ⟨_, _, _, _, _, rfl, opens, fragment, phrases, closes, rfl, fun found same => ?_⟩
    cases found with
    | nil => exact absurd same.symm nonempty
    | cons first rest =>
      rw [← same]
      rfl

theorem fragment_complete {cursor : Cursor} {opening text : Token} {later : List Token}
    (ahead : cursor.rest = text :: later) (fragment : text.kind = .fragment) :
    Reads (Grammar.fragment opening) cursor [text] text.value := by
  apply Reads.get_bind
  simp only [current_of_rest ahead, fragment, ↓reduceIte]
  exact .bind rfl ahead (.consume ahead) fun _ _ _ => .pure _

section Rules

variable {list : Reading Node} {bound : Nat} (sound : SoundList list)
  (complete : CompleteList list bound) {cursor : Cursor} {used later : List Token} {node : Node}
include complete

theorem substitution_complete (phrase : SubstitutionPhrase used node)
    (ahead : cursor.rest = used ++ later) (short : cursor.rest.length ≤ bound + 1)
    (fits : node.levels ≤ cursor.room) : Reads (substitution list) cursor used node := by
  cases phrase with
  | @name opening name mark named =>
    refine .bind List.singleton_append.symm ahead (.consume ahead) fun start took aheadName => ?_
    refine .nested (took.room_eq.symm ▸ fits) (.get_bind ?_)
    have current : start.deeper.current = some name := current_of_rest aheadName
    simp only [current, named, ↓reduceIte]
    exact .bind rfl aheadName (.consume aheadName) fun _ _ _ => .pure _
  | @subshell opening paren closing body tree mark parenMark inner closingMark =>
    simp only [Node.levels] at fits
    refine .bind List.singleton_append.symm ahead (.consume ahead) fun start took aheadParen => ?_
    refine .nested (by rw [took.room_eq]; omega) (.get_bind ?_)
    have current : start.deeper.current = some paren := current_of_rest aheadParen
    simp only [current, kind_of_isMark parenMark, parenMark, reduceCtorEq, ↓reduceIte]
    refine .bind List.singleton_append.symm aheadParen (.consume aheadParen)
      fun bodyStart tookParen aheadBody => ?_
    have aheadBody : bodyStart.rest = body ++ (closing :: later) := by simpa using aheadBody
    have fitsBody : tree.levels ≤ bodyStart.room := by
      rw [tookParen.room_eq, room_deeper, took.room_eq]
      omega
    have shortBody : bodyStart.rest.length ≤ bound := by
      simp only [ahead, aheadBody, List.length_cons, List.length_append] at short ⊢
      omega
    have readBody := complete aheadBody shortBody inner fitsBody (by simpa [Ends] using closingMark)
    refine .bind rfl (by simpa using aheadBody) readBody fun bodyEnd _ aheadClosing => .get_bind ?_
    have closes : bodyEnd.atMark closeParen := by
      simpa [atMark, current_of_rest aheadClosing] using closingMark
    simp only [closes, ↓reduceIte]
    exact .bind rfl aheadClosing (.consume aheadClosing) fun _ _ _ => .pure _

theorem interpolation_complete {opening text : Token}
    (opens : opening.isSymbol (quoteMarks.map String.singleton))
    (phrase : SubstitutionPhrase used node) (fragment : text.kind = .fragment)
    (ahead : cursor.rest = used ++ text :: later) (short : cursor.rest.length ≤ bound + 1)
    (fits : node.levels ≤ cursor.room) :
    Reads (interpolation list opening) cursor (used ++ [text]) (some (node, text.value)) := by
  obtain ⟨first, rest, rfl, mark⟩ := phrase.exists_sigil
  apply Reads.get_bind
  have inside := not_closesQuote opens mark (by decide)
  simp only [current_of_rest ahead, inside, mark, Bool.false_eq_true, ↓reduceIte]
  refine .bind rfl (by simpa using ahead)
    (substitution_complete complete phrase ahead short fits) fun middle took aheadText => ?_
  exact .bind rfl aheadText (fragment_complete aheadText fragment) fun _ _ _ => .pure _

omit complete in
theorem interpolation_stops {opening closing : Token} (closes : closing.isSymbol [opening.value])
    (ahead : cursor.rest = closing :: later) :
    (interpolation list opening).run cursor = .ok none cursor := by
  simp [interpolation, current_of_rest ahead, closes]

theorem interpolations_complete {opening closing : Token}
    (opens : opening.isSymbol (quoteMarks.map String.singleton))
    (closes : closing.isSymbol [opening.value]) :
    {used : List Token} → {parts : List Node} → InterpolationsPhrase used parts →
    ∀ {cursor : Cursor}, cursor.rest = used ++ closing :: later →
    cursor.rest.length ≤ bound + 1 → Node.levelsInQuote parts ≤ cursor.room →
    ∃ found after, parts = quoteParts found ∧
      Iterates (interpolation list opening) cursor found after ∧ cursor.Took used after
  | _, _, .nil, cursor, ahead, _, _ =>
    ⟨[], cursor, rfl, .stop (interpolation_stops closes ahead), .refl cursor⟩
  | _, _, @InterpolationsPhrase.cons text first rest inner parts phrase fragment phrases, cursor,
      ahead, short, fits => by
    rw [phrase.levelsInQuote_cons] at fits
    have ahead' : cursor.rest = first ++ text :: (rest ++ closing :: later) := by simpa using ahead
    obtain ⟨middle, ran, took⟩ := interpolation_complete complete opens phrase fragment ahead' short
      (by omega)
    have aheadRest : middle.rest = rest ++ closing :: later := took.rest_eq (by simpa using ahead')
    obtain ⟨found, after, same, iterates, tookRest⟩ := interpolations_complete opens closes phrases
      aheadRest (Nat.le_trans took.length_le short) (by rw [took.room_eq]; omega)
    exact ⟨(inner, text.value) :: found, after, by rw [same, quoteParts_cons],
      .more ran iterates, by simpa using took.trans tookRest⟩

include sound

theorem quote_complete (phrase : QuotePhrase used node) (ahead : cursor.rest = used ++ later)
    (short : cursor.rest.length ≤ bound + 1) (fits : node.levels ≤ cursor.room) :
    Reads (quote list) cursor used node := by
  obtain ⟨opening, text, closing, inner, parts, rfl, opens, fragment, phrases, closes, levels,
    same⟩ := phrase.exists_parts
  refine .bind List.singleton_append.symm ahead (.consume ahead) fun start took aheadText => ?_
  refine .nested (by rw [took.room_eq]; omega) ?_
  refine .bind List.singleton_append.symm aheadText (fragment_complete aheadText fragment)
    fun first tookText aheadParts => ?_
  have aheadParts : first.rest = inner ++ closing :: later := by simpa using aheadParts
  have shortParts := Nat.le_trans tookText.length_le (Nat.le_trans took.length_le short)
  have fitsParts : Node.levelsInQuote parts ≤ first.room := by
    rw [tookText.room_eq, room_deeper, took.room_eq]
    omega
  obtain ⟨found, after, rfl, iterates, tookParts⟩ :=
    interpolations_complete complete opens closes phrases aheadParts shortParts fitsParts
  rw [← same found rfl]
  have many := (many_run_eq_ok (interpolation_dwindles sound)).mpr iterates
  refine .bind rfl (by simpa using aheadParts) ⟨after, many, tookParts⟩
    fun last _ aheadClosing => .get_bind ?_
  simp only [current_of_rest aheadClosing]
  exact .bind rfl aheadClosing (.consume aheadClosing) fun _ _ _ => .pure _

theorem value_complete (phrase : ValuePhrase used node) (ahead : cursor.rest = used ++ later)
    (short : cursor.rest.length ≤ bound + 1) (fits : node.levels ≤ cursor.room) :
    Reads (value list) cursor used (some node) := by
  apply Reads.get_bind
  cases phrase with
  | word word =>
    simp only [current_of_rest ahead, word, ↓reduceIte]
    exact .bind rfl ahead (.consume ahead) fun _ _ _ => .pure _
  | wildcard wildcard =>
    simp only [current_of_rest ahead, Token.isWord, wildcard, reduceCtorEq, beq_iff_eq, or_self,
      Bool.or_eq_true, ↓reduceIte]
    exact .bind rfl ahead (.consume ahead) fun _ _ _ => .pure _
  | substitution phrase =>
    have read := substitution_complete complete phrase ahead short fits
    obtain ⟨first, rest, rfl, mark⟩ := phrase.exists_sigil
    have symbol := kind_of_isMark mark
    simp only [current_of_rest ahead, isWord_of_symbol symbol, symbol, mark, reduceCtorEq,
      Bool.false_eq_true, ↓reduceIte]
    exact .bind (List.append_nil _).symm ahead read fun _ _ _ => .pure _
  | quote phrase =>
    have read := quote_complete sound complete phrase ahead short fits
    obtain ⟨opening, _, _, _, _, rfl, opens, _⟩ := phrase.exists_parts
    have symbol := kind_of_isSymbol opens
    have noSigil : opening.isMark sigil = false := by
      rw [Bool.eq_false_iff]
      exact fun mark => by simp [not_opensQuote mark (by decide)] at opens
    simp only [current_of_rest ahead, isWord_of_symbol symbol, symbol, noSigil, opens, reduceCtorEq,
      Bool.false_eq_true, ↓reduceIte]
    exact .bind (List.append_nil _).symm ahead read fun _ _ _ => .pure _

omit sound complete in
theorem value_stops (apart : startsValue cursor.current = false) :
    (value list).run cursor = .ok none cursor := by
  cases current : cursor.current with
  | none => simp [value, current]
  | some token =>
    rw [current] at apart
    simp only [startsValue, Option.any_some, Bool.or_eq_false_iff, beq_eq_false_iff_ne] at apart
    simp [value, current, apart]

theorem assignment_complete (phrase : AssignmentPhrase used later.head? node)
    (ahead : cursor.rest = used ++ later) (short : cursor.rest.length ≤ bound + 1)
    (fits : node.levels ≤ cursor.room) : Reads (assignment list) cursor used node := by
  cases phrase with
  | @bare name sign _ word assigned nothing =>
    refine .bind List.singleton_append.symm ahead (.consume ahead) fun start _ aheadSign => ?_
    refine .bind (List.append_nil _).symm aheadSign (.consume aheadSign) fun last _ aheadLast => ?_
    by_cases joined : sign.joinedRight
    · have apart : startsValue last.current = false := by
        rw [current_eq_head?, aheadLast]
        simpa [joined] using nothing
      simp only [joined, ↓reduceIte]
      exact .bind rfl aheadLast ⟨last, value_stops apart, .refl last⟩ fun _ _ _ => .pure _
    · simp only [joined, Bool.false_eq_true, ↓reduceIte]
      exact .pure _
  | @valued name sign ts _ target word assigned joined phrase =>
    refine .bind List.singleton_append.symm ahead (.consume ahead) fun start tookName aheadSign => ?_
    refine .bind List.singleton_append.symm aheadSign (.consume aheadSign)
      fun last tookSign aheadValue => ?_
    have took := tookName.trans tookSign
    have read := value_complete sound complete phrase aheadValue (Nat.le_trans took.length_le short)
      (took.room_eq ▸ fits)
    simp only [joined, ↓reduceIte]
    exact .bind (List.append_nil _).symm aheadValue read fun _ _ _ => .pure _

theorem redirect_complete (phrase : RedirectPhrase used node)
    (ahead : cursor.rest = used ++ later) (short : cursor.rest.length ≤ bound + 1)
    (fits : node.levels ≤ cursor.room) : Reads (redirect list) cursor used node := by
  cases phrase with
  | @mk operator ts target redirects phrase =>
    refine .bind List.singleton_append.symm ahead (.consume ahead) fun start took aheadValue => ?_
    have read := value_complete sound complete phrase aheadValue (Nat.le_trans took.length_le short)
      (took.room_eq ▸ fits)
    exact .bind (List.append_nil _).symm aheadValue read fun _ _ _ => .pure _

theorem argument_complete (phrase : ArgumentPhrase used later.head? node)
    (ahead : cursor.rest = used ++ later) (short : cursor.rest.length ≤ bound + 1)
    (fits : node.levels ≤ cursor.room) : Reads (argument list) cursor used (some node) := by
  apply Reads.get_bind
  cases phrase with
  | assignment phrase =>
    have assigned : cursor.atAssignment false := phrase.atAssignment ahead nofun
    simp only [assigned, ↓reduceIte]
    have read := assignment_complete sound complete phrase ahead short fits
    exact .bind (List.append_nil _).symm ahead read fun _ _ _ => .pure _
  | @sign token _ mark =>
    have apart : cursor.atAssignment false = false :=
      not_atAssignment_of_kind ahead (by simp [kind_of_isMark mark])
    have found : cursor.atMark assign := by simpa [atMark, current_of_rest ahead] using mark
    simp only [apart, found, Bool.false_eq_true, ↓reduceIte]
    exact .bind rfl ahead (.consume ahead) fun _ _ _ => .pure _
  | value phrase alone =>
    obtain ⟨first, rest, rfl, starts, single⟩ := phrase.exists_first
    have apart : cursor.atAssignment false = false := by
      rw [Bool.eq_false_iff]
      intro assigned
      obtain ⟨name, sign, others, ahead', word, assigns, _⟩ := exists_of_atAssignment assigned
      obtain ⟨rfl, rest'⟩ := List.cons.inj (ahead.symm.trans ahead')
      obtain rfl := single word
      obtain rfl : later = sign :: others := rest'
      exact alone ⟨⟨first, rfl, word⟩, assigns⟩
    have noSign : cursor.atMark assign = false := by
      rw [Bool.eq_false_iff]
      intro found
      exact not_startsValue_of_isMark (isMark_of_atMark found (current_of_rest ahead)) (by decide)
        (by decide) starts
    simp only [apart, noSign, Bool.false_eq_true, ↓reduceIte]
    exact value_complete sound complete phrase ahead short fits

/-! ## Leading parts -/

theorem leadingAssignment_complete {name : String} {target : Option Node}
    (phrase : AssignmentPhrase used later.head? (.assign name target))
    (named : Text.isVariableName name) (ahead : cursor.rest = used ++ later)
    (short : cursor.rest.length ≤ bound + 1) (fits : (Node.assign name target).levels ≤ cursor.room) :
    Reads (leadingPart list) cursor used (some (.assignment (.assign name target))) := by
  have assigned : cursor.atAssignment true :=
    phrase.atAssignment ahead fun _ _ _ same => by cases same; exact named
  apply Reads.get_bind
  simp only [assigned, ↓reduceIte]
  have read := assignment_complete sound complete phrase ahead short fits
  exact .bind (List.append_nil _).symm ahead read fun _ _ _ => .pure _

theorem leadingRedirect_complete (phrase : RedirectPhrase used node)
    (ahead : cursor.rest = used ++ later) (short : cursor.rest.length ≤ bound + 1)
    (fits : node.levels ≤ cursor.room) :
    Reads (leadingPart list) cursor used (some (.redirect node)) := by
  have read := redirect_complete sound complete phrase ahead short fits
  obtain ⟨apart, found⟩ := phrase.atRedirect true ahead
  apply Reads.get_bind
  simp only [apart, found, Bool.false_eq_true, ↓reduceIte]
  exact .bind (List.append_nil _).symm ahead read fun _ _ _ => .pure _

theorem leadingParts_complete
    (stops : ∀ cursor, cursor.rest = later → (leadingPart list).run cursor = .ok none cursor) :
    {used : List Token} → {redirects assignments : List Node} →
    LeadingPhrase used later.head? redirects assignments →
    ∀ {cursor : Cursor}, cursor.rest = used ++ later → cursor.rest.length ≤ bound + 1 →
    Node.levelsAll redirects ≤ cursor.room → Node.levelsAll assignments ≤ cursor.room →
    ∃ parts after, Iterates (leadingPart list) cursor parts after ∧ cursor.Took used after ∧
      parts.filterMap (·.argument?) = [] ∧ parts.filterMap (·.redirect?) = redirects ∧
      parts.filterMap (·.assignment?) = assignments ∧ (parts = [] → used = [])
  | _, _, _, .nil, cursor, ahead, _, _, _ =>
    ⟨[], cursor, .stop (stops cursor ahead), .refl cursor, rfl, rfl, rfl, fun _ => rfl⟩
  | _, _, _, @LeadingPhrase.assignment ts us _ name target _ _ phrase named phrases, cursor, ahead,
      short, redirectsFit, assignmentsFit => by
    obtain ⟨fits, othersFit⟩ := Nat.max_le.mp assignmentsFit
    have ahead' : cursor.rest = ts ++ (us ++ later) := by rw [ahead, List.append_assoc]
    obtain ⟨middle, ran, took⟩ := leadingAssignment_complete sound complete
      (by rwa [List.head?_append]) named ahead' short fits
    obtain ⟨parts, after, iterates, tookRest, noArguments, sameRedirects, sameAssignments, _⟩ :=
      leadingParts_complete stops phrases (took.rest_eq ahead') (Nat.le_trans took.length_le short)
        (by rwa [took.room_eq]) (by rwa [took.room_eq])
    exact ⟨_, after, .more ran iterates, took.trans tookRest, noArguments, sameRedirects,
      congrArg _ sameAssignments, nofun⟩
  | _, _, _, @LeadingPhrase.redirect ts us _ node _ _ phrase phrases, cursor, ahead,
      short, redirectsFit, assignmentsFit => by
    obtain ⟨fits, othersFit⟩ := Nat.max_le.mp redirectsFit
    have ahead' : cursor.rest = ts ++ (us ++ later) := by rw [ahead, List.append_assoc]
    obtain ⟨middle, ran, took⟩ := leadingRedirect_complete sound complete phrase ahead' short fits
    obtain ⟨parts, after, iterates, tookRest, noArguments, sameRedirects, sameAssignments, _⟩ :=
      leadingParts_complete stops phrases (took.rest_eq ahead') (Nat.le_trans took.length_le short)
        (by rwa [took.room_eq]) (by rwa [took.room_eq])
    exact ⟨_, after, .more ran iterates, took.trans tookRest, noArguments,
      congrArg _ sameRedirects, sameAssignments, nofun⟩

/-! ## Commands -/

omit sound in
theorem head_complete (phrase : HeadPhrase used later.head? node)
    (ahead : cursor.rest = used ++ later) (short : cursor.rest.length ≤ bound + 1)
    (fits : node.levels ≤ cursor.room) : Reads (head list) cursor used (some node) := by
  apply Reads.get_bind
  cases phrase with
  | word word _ =>
    simp only [current_of_rest ahead, word, ↓reduceIte]
    exact .bind rfl ahead (.consume ahead) fun _ _ _ => .pure _
  | substitution phrase =>
    have read := substitution_complete complete phrase ahead short fits
    obtain ⟨first, rest, rfl, mark⟩ := phrase.exists_sigil
    simp only [current_of_rest ahead, isWord_of_symbol (kind_of_isMark mark), mark,
      Bool.false_eq_true, ↓reduceIte]
    exact .bind (List.append_nil _).symm ahead read fun _ _ _ => .pure _

omit sound complete in
/-- Leading parts stop where neither an assignment nor a redirect comes next. -/
theorem leadingPart_stops (apart : cursor.atAssignment true = false)
    (noRedirect : cursor.atRedirect = false) :
    (leadingPart list).run cursor = .ok none cursor := by
  simp [leadingPart, apart, noRedirect]

omit sound complete in
/-- Leading parts stop at the head. -/
theorem leadingPart_stops_at_head (phrase : HeadPhrase used later.head? node)
    (ahead : cursor.rest = used ++ later) :
    (leadingPart list).run cursor = .ok none cursor := by
  cases phrase with
  | @word token _ word alone =>
    refine leadingPart_stops (Bool.eq_false_iff.mpr fun assigned => ?_)
      (Bool.eq_false_iff.mpr fun found => ?_)
    · obtain ⟨name, sign, others, ahead', literal, assigns, named⟩ :=
        exists_of_atAssignment assigned
      obtain ⟨rfl, rest⟩ := List.cons.inj (ahead.symm.trans ahead')
      obtain rfl : later = sign :: others := rest
      exact alone ⟨literal, named rfl, assigns⟩
    · have redirects : token.isSymbol redirectOperators := by
        simpa [atRedirect, atSymbol, current_of_rest ahead] using found
      simp [isWord_of_symbol (kind_of_isSymbol redirects)] at word
  | substitution phrase =>
    obtain ⟨first, rest, rfl, mark⟩ := phrase.exists_sigil
    exact leadingPart_stops (not_atAssignment_of_kind ahead (by simp [kind_of_isMark mark]))
      (not_atRedirect_of_isMark mark (by decide) (current_of_rest ahead))

omit sound complete in
/-- Arguments stop where no word and no mark that starts one comes next. -/
theorem argument_stops {token : Token} (ahead : cursor.rest = token :: later)
    (symbol : token.kind = .symbol)
    (apart : token.value ∉ (assign :: sigil :: quoteMarks).map String.singleton) :
    (argument list).run cursor = .ok none cursor := by
  have noAssignment : cursor.atAssignment false = false :=
    not_atAssignment_of_kind ahead (by simp [symbol])
  simp only [List.map_cons, List.mem_cons, not_or] at apart
  have noSign : cursor.atMark assign = false := by
    simp [atMark, current_of_rest ahead, Token.isMark, Token.isSymbol, apart]
  have nothing : startsValue cursor.current = false := by
    simp [startsValue, current_of_rest ahead, isWord_of_symbol symbol, symbol, Token.isMark,
      Token.isSymbol, apart, quoteMarks] at apart ⊢
    simp [apart]
  simp [argument, noAssignment, noSign, value_stops nothing]

omit sound complete in
/-- Nothing of a command goes on at a mark that ends it. -/
theorem Ends.stops (ends : Ends [pipe, semicolon, closeParen] cursor.current) :
    (leadingPart list).run cursor = .ok none cursor ∧ (head list).run cursor = .ok none cursor ∧
      (trailingPart list).run cursor = .ok none cursor := by
  cases ahead : cursor.rest with
  | nil =>
    have empty : cursor.remaining = 0 := by rw [remaining_eq_length, ahead, List.length_nil]
    refine ⟨leadingPart_exhausted cursor empty, ?_, trailingPart_exhausted cursor empty⟩
    simp [head, current_of_exhausted empty]
  | cons token rest =>
    have current := current_of_rest ahead
    obtain ⟨mark, member, found⟩ := ends token current
    obtain ⟨symbol, value⟩ := Token.isMark_iff.mp found
    have apart : mark ∉ assign :: sigil :: quoteMarks ∧
        String.singleton mark ∉ redirectOperators := by
      simp only [List.mem_cons, List.not_mem_nil, or_false] at member
      rcases member with rfl | rfl | rfl <;> decide
    have noRedirect := not_atRedirect_of_isMark found apart.2 current
    have noHead : token.isMark sigil = false :=
      isMark_of_isMark found (by rintro rfl; exact apart.1 (by simp))
    refine ⟨leadingPart_stops (not_atAssignment_of_kind ahead (by simp [symbol])) noRedirect, ?_, ?_⟩
    · simp [head, current, isWord_of_symbol symbol, noHead]
    · have noArgument : (argument list).run cursor = .ok none cursor :=
        argument_stops ahead symbol (by
          rw [value, List.mem_map]
          rintro ⟨other, among, same⟩
          exact apart.1 (String.singleton_inj.mp same ▸ among))
      simp [trailingPart, noArgument, noRedirect]

theorem trailingArgument_complete (phrase : ArgumentPhrase used later.head? node)
    (ahead : cursor.rest = used ++ later) (short : cursor.rest.length ≤ bound + 1)
    (fits : node.levels ≤ cursor.room) :
    Reads (trailingPart list) cursor used (some (.argument node)) := by
  have read := argument_complete sound complete phrase ahead short fits
  exact .bind (List.append_nil _).symm ahead read fun _ _ _ => .pure _

theorem trailingRedirect_complete (phrase : RedirectPhrase used node)
    (ahead : cursor.rest = used ++ later) (short : cursor.rest.length ≤ bound + 1)
    (fits : node.levels ≤ cursor.room) :
    Reads (trailingPart list) cursor used (some (.redirect node)) := by
  have read := redirect_complete sound complete phrase ahead short fits
  obtain ⟨_, found⟩ := phrase.atRedirect false ahead
  have nothing : (argument list).run cursor = .ok none cursor := by
    cases phrase with
    | @mk operator _ _ redirects _ =>
      have disjoint : ∀ value ∈ redirectOperators,
          value ∉ (assign :: sigil :: quoteMarks).map String.singleton := by decide
      refine argument_stops ahead (kind_of_isSymbol redirects) (disjoint _ ?_)
      simpa [Token.isSymbol, kind_of_isSymbol redirects, redirectOperators] using redirects
  refine .bind (List.nil_append _).symm ahead ⟨cursor, nothing, .refl cursor⟩
    fun middle took aheadMiddle => .get_bind ?_
  obtain ⟨rfl⟩ : middle = cursor := took.2
  simp only [found, ↓reduceIte]
  exact .bind (List.append_nil _).symm ahead read fun _ _ _ => .pure _

theorem trailingParts_complete (ends : Ends [pipe, semicolon, closeParen] later.head?) :
    {used : List Token} → {args redirects : List Node} → TrailingPhrase used args redirects →
    ∀ {cursor : Cursor}, cursor.rest = used ++ later → cursor.rest.length ≤ bound + 1 →
    Node.levelsAll args ≤ cursor.room → Node.levelsAll redirects ≤ cursor.room →
    ∃ parts after, Iterates (trailingPart list) cursor parts after ∧ cursor.Took used after ∧
      parts.filterMap (·.argument?) = args ∧ parts.filterMap (·.redirect?) = redirects ∧
      parts.filterMap (·.assignment?) = []
  | _, _, _, .nil, cursor, ahead, _, _, _ =>
    have ends : Ends [pipe, semicolon, closeParen] cursor.current := by
      rwa [current_eq_head?, ahead]
    ⟨[], cursor, .stop ends.stops.2.2, .refl cursor, rfl, rfl, rfl⟩
  | _, _, _, @TrailingPhrase.argument ts us node _ _ phrase phrases, cursor, ahead, short,
      argumentsFit, redirectsFit => by
    obtain ⟨fits, othersFit⟩ := Nat.max_le.mp argumentsFit
    have ahead' : cursor.rest = ts ++ (us ++ later) := by rw [ahead, List.append_assoc]
    obtain ⟨middle, ran, took⟩ := trailingArgument_complete sound complete
      (by rw [List.head?_append]; exact phrase.milder (ends.milder_or _)) ahead' short fits
    obtain ⟨parts, after, iterates, tookRest, sameArguments, sameRedirects, noAssignments⟩ :=
      trailingParts_complete ends phrases (took.rest_eq ahead') (Nat.le_trans took.length_le short)
        (by rwa [took.room_eq]) (by rwa [took.room_eq])
    exact ⟨_, after, .more ran iterates, took.trans tookRest, congrArg _ sameArguments,
      sameRedirects, noAssignments⟩
  | _, _, _, @TrailingPhrase.redirect ts us node _ _ phrase phrases, cursor, ahead, short,
      argumentsFit, redirectsFit => by
    obtain ⟨fits, othersFit⟩ := Nat.max_le.mp redirectsFit
    have ahead' : cursor.rest = ts ++ (us ++ later) := by rw [ahead, List.append_assoc]
    obtain ⟨middle, ran, took⟩ := trailingRedirect_complete sound complete phrase ahead' short fits
    obtain ⟨parts, after, iterates, tookRest, sameArguments, sameRedirects, noAssignments⟩ :=
      trailingParts_complete ends phrases (took.rest_eq ahead') (Nat.le_trans took.length_le short)
        (by rwa [took.room_eq]) (by rwa [took.room_eq])
    exact ⟨_, after, .more ran iterates, took.trans tookRest, sameArguments,
      congrArg _ sameRedirects, noAssignments⟩

theorem command_complete (phrase : CommandPhrase used node) (ahead : cursor.rest = used ++ later)
    (short : cursor.rest.length ≤ bound + 1) (fits : node.levels ≤ cursor.room)
    (ends : Ends [pipe, semicolon, closeParen] later.head?) :
    Reads (command list) cursor used node := by
  cases phrase with
  | @headed ts us vs name args leadingRedirects trailingRedirects assignments leading head
      trailing =>
    simp only [Node.levels, Node.levelsOption, Node.levelsAll_append] at fits
    have aheadLeading : cursor.rest = ts ++ (us ++ (vs ++ later)) := by simpa using ahead
    have headNext : HeadPhrase us (vs ++ later).head? name := by
      rw [List.head?_append]
      exact head.milder (ends.milder_or _)
    have leadingNext : LeadingPhrase ts (us ++ (vs ++ later)).head? leadingRedirects assignments := by
      rwa [List.head?_append, Option.or_of_isSome (by simp [head.ne_nil])]
    obtain ⟨parts, start, iterates, tookLeading, noArguments, rfl, rfl, _⟩ :=
      leadingParts_complete sound complete
        (fun _ aheadHead => leadingPart_stops_at_head headNext aheadHead) leadingNext aheadLeading
        short (by omega) (by omega)
    have readLeading := Reads.many (leadingPart_dwindles sound) iterates tookLeading
    refine .bind rfl (by simpa using ahead) readLeading fun middle took aheadHead => ?_
    have aheadHead : middle.rest = us ++ (vs ++ later) := by simpa using aheadHead
    have shortHead := Nat.le_trans took.length_le short
    have readHead := head_complete complete headNext aheadHead shortHead (by rw [took.room_eq]; omega)
    refine .bind rfl (by simpa using aheadHead) readHead fun last tookHead aheadTrailing => ?_
    have sameRoom : last.room = cursor.room := tookHead.room_eq.trans took.room_eq
    obtain ⟨others, after, trailingIterates, tookTrailing, rfl, rfl, noAssignments⟩ :=
      trailingParts_complete sound complete ends trailing aheadTrailing
        (Nat.le_trans tookHead.length_le shortHead) (by omega) (by omega)
    have readTrailing := Reads.many (trailingPart_dwindles sound) trailingIterates tookTrailing
    refine .bind (List.append_nil _).symm aheadTrailing readTrailing fun _ _ _ => ?_
    rw [← assemble_append noArguments noAssignments]
    exact .pure _
  | @headless _ redirects assignments leading nonempty =>
    simp only [Node.levels] at fits
    obtain ⟨parts, start, iterates, tookLeading, noArguments, rfl, rfl, empty⟩ :=
      leadingParts_complete sound complete (fun stop aheadStop => (Ends.stops (by
        rwa [current_eq_head?, aheadStop])).1) (leading.milder ends.milder) ahead short (by omega)
        (by omega)
    have readLeading := Reads.many (leadingPart_dwindles sound) iterates tookLeading
    refine .bind (List.append_nil _).symm ahead readLeading fun middle took aheadEnd => ?_
    have endsHere : Ends [pipe, semicolon, closeParen] middle.current := by
      rwa [current_eq_head?, aheadEnd]
    refine .bind rfl aheadEnd ⟨middle, endsHere.stops.2.1, .refl middle⟩ fun _ _ _ => ?_
    have some : parts.isEmpty = false := by
      rw [Bool.eq_false_iff, ne_eq, List.isEmpty_iff]
      exact fun none => nonempty (empty none)
    simp only [some, Bool.false_eq_true, ↓reduceIte, assemble_headless noArguments]
    exact .pure _

/-! ## Pipelines and lists -/

omit sound complete in
/-- Stages stop at a mark that ends a pipeline. -/
theorem nextStage_stops (ends : Ends [semicolon, closeParen] cursor.current) :
    (nextStage list).run cursor = .ok none cursor := by
  have apart : cursor.atMark pipe = false := by
    cases current : cursor.current with
    | none => simp [atMark, current]
    | some token =>
      obtain ⟨mark, member, found⟩ := ends token current
      have different : mark ≠ pipe := by
        rintro rfl
        revert member
        decide
      simpa [atMark, current] using isMark_of_isMark found different
  simp [nextStage, apart]

theorem nextStage_complete {bar : Token} (mark : bar.isMark pipe) (phrase : CommandPhrase used node)
    (ahead : cursor.rest = bar :: (used ++ later)) (short : cursor.rest.length ≤ bound + 1)
    (fits : node.levels ≤ cursor.room) (ends : Ends [pipe, semicolon, closeParen] later.head?) :
    Reads (nextStage list) cursor (bar :: used) (some node) := by
  have found : cursor.atMark pipe := by simpa [atMark, current_of_rest ahead] using mark
  apply Reads.get_bind
  simp only [found, ↓reduceIte]
  refine .bind List.singleton_append.symm ahead (.consume ahead) fun start took aheadCommand => ?_
  have read := command_complete sound complete phrase aheadCommand
    (Nat.le_trans took.length_le short) (by rwa [took.room_eq]) ends
  exact .bind (List.append_nil _).symm aheadCommand read fun _ _ _ => .pure _

theorem stages_complete (ends : Ends [semicolon, closeParen] later.head?) :
    {used : List Token} → {stages : List Node} → StagesPhrase used stages →
    ∀ {cursor : Cursor}, cursor.rest = used ++ later → cursor.rest.length ≤ bound + 1 →
    Node.levelsAll stages ≤ cursor.room →
    ∃ after, Iterates (nextStage list) cursor stages after ∧ cursor.Took used after
  | _, _, .nil, cursor, ahead, _, _ =>
    have ends : Ends [semicolon, closeParen] cursor.current := by rwa [current_eq_head?, ahead]
    ⟨cursor, .stop (nextStage_stops ends), .refl cursor⟩
  | _, _, @StagesPhrase.cons bar ts us _ _ mark phrase phrases, cursor, ahead, short, fit => by
    obtain ⟨fits, othersFit⟩ := Nat.max_le.mp fit
    have ahead' : cursor.rest = bar :: (ts ++ (us ++ later)) := by simpa using ahead
    obtain ⟨middle, ran, took⟩ := nextStage_complete sound complete mark phrase ahead' short fits
      (phrases.ends ends)
    obtain ⟨after, iterates, tookRest⟩ := stages_complete ends phrases (took.rest_eq ahead')
      (Nat.le_trans took.length_le short) (by rwa [took.room_eq])
    exact ⟨after, .more ran iterates, took.trans tookRest⟩

theorem pipeline_complete (phrase : PipelinePhrase used node) (ahead : cursor.rest = used ++ later)
    (short : cursor.rest.length ≤ bound + 1) (fits : node.levels ≤ cursor.room)
    (ends : Ends [semicolon, closeParen] later.head?) :
    Reads (pipeline list) cursor used node := by
  cases phrase with
  | @mk ts us first stages phrase phrases =>
    rw [Node.levels_foldl_pipe] at fits
    obtain ⟨firstFits, othersFit⟩ := Nat.max_le.mp fits
    have ahead' : cursor.rest = ts ++ (us ++ later) := by rw [ahead, List.append_assoc]
    refine .bind rfl ahead (command_complete sound complete phrase ahead' short firstFits
      (phrases.ends ends)) fun middle took aheadStages => ?_
    obtain ⟨after, iterates, tookStages⟩ := stages_complete sound complete ends phrases aheadStages
      (Nat.le_trans took.length_le short) (by rwa [took.room_eq])
    have readStages := Reads.many (nextStage_dwindles sound) iterates tookStages
    exact .bind (List.append_nil _).symm aheadStages readStages fun _ _ _ => .pure _

theorem nextPipeline_complete {separator : Token} (mark : separator.isMark semicolon)
    (phrase : PipelinePhrase used node) (ahead : cursor.rest = separator :: (used ++ later))
    (short : cursor.rest.length ≤ bound + 1) (fits : node.levels ≤ cursor.room)
    (ends : Ends [semicolon, closeParen] later.head?) :
    Reads (nextPipeline list) cursor (separator :: used) (some node) := by
  have found : cursor.atMark semicolon := by simpa [atMark, current_of_rest ahead] using mark
  apply Reads.get_bind
  simp only [found, ↓reduceIte]
  refine .bind List.singleton_append.symm ahead (.consume ahead) fun start took aheadPipeline =>
    .get_bind ?_
  have goesOn : (start.current.isNone || start.atMark closeParen) = false := by
    obtain ⟨first, rest, rfl, apart⟩ := phrase.opens
    have current : start.current = some first := current_of_rest aheadPipeline
    simpa [atMark, current] using apart closeParen (by decide)
  simp only [goesOn, Bool.false_eq_true, ↓reduceIte]
  have read := pipeline_complete sound complete phrase aheadPipeline
    (Nat.le_trans took.length_le short) (by rwa [took.room_eq]) ends
  exact .bind (List.append_nil _).symm aheadPipeline read fun _ _ _ => .pure _

omit sound complete in
/-- Pipelines stop at what ends the list, after a semicolon that separates nothing. -/
theorem nextPipeline_stops (phrase : TailPhrase used []) (ahead : cursor.rest = used ++ later)
    (ends : Ends [closeParen] later.head?) : Reads (nextPipeline list) cursor used none := by
  have closes : ∀ {cursor : Cursor}, cursor.rest = later →
      (cursor.current.isNone || cursor.atMark closeParen) = true := by
    intro cursor ahead
    cases current : cursor.current with
    | none => rfl
    | some token =>
      rw [current_eq_head?, ahead] at current
      simpa [atMark, current_eq_head?, ahead, current, Ends] using ends token current
  cases phrase with
  | nil =>
    rw [List.nil_append] at ahead
    have apart : cursor.atMark semicolon = false := by
      cases current : cursor.current with
      | none => simp [atMark, current]
      | some token =>
        rw [current_eq_head?, ahead] at current
        obtain ⟨mark, member, found⟩ := ends token current
        obtain rfl := List.mem_singleton.mp member
        rw [atMark, current_eq_head?, ahead, current]
        exact isMark_of_isMark found (by decide)
    exact ⟨cursor, by simp [nextPipeline, apart], .refl cursor⟩
  | @trailing separator mark =>
    have found : cursor.atMark semicolon := by simpa [atMark, current_of_rest ahead] using mark
    apply Reads.get_bind
    simp only [found, ↓reduceIte]
    refine .bind rfl ahead (.consume ahead) fun start _ aheadEnd => .get_bind ?_
    simp only [closes aheadEnd, ↓reduceIte]
    exact .pure _

theorem tail_complete (ends : Ends [closeParen] later.head?) :
    {used : List Token} → {items : List Node} → TailPhrase used items →
    ∀ {cursor : Cursor}, cursor.rest = used ++ later → cursor.rest.length ≤ bound + 1 →
    Node.levelsAll items ≤ cursor.room →
    ∃ after, Iterates (nextPipeline list) cursor items after ∧ cursor.Took used after
  | _, _, .nil, cursor, ahead, _, _ => by
    obtain ⟨after, ran, took⟩ := nextPipeline_stops .nil ahead ends
    exact ⟨after, .stop ran, took⟩
  | _, _, .trailing mark, cursor, ahead, _, _ => by
    obtain ⟨after, ran, took⟩ := nextPipeline_stops (.trailing mark) ahead ends
    exact ⟨after, .stop ran, took⟩
  | _, _, @TailPhrase.cons separator ts us _ _ mark phrase phrases, cursor, ahead, short, fit => by
    obtain ⟨fits, othersFit⟩ := Nat.max_le.mp fit
    have ahead' : cursor.rest = separator :: (ts ++ (us ++ later)) := by simpa using ahead
    obtain ⟨middle, ran, took⟩ := nextPipeline_complete sound complete mark phrase ahead' short fits
      (phrases.ends ends)
    obtain ⟨after, iterates, tookRest⟩ := tail_complete ends phrases (took.rest_eq ahead')
      (Nat.le_trans took.length_le short) (by rwa [took.room_eq])
    exact ⟨after, .more ran iterates, took.trans tookRest⟩

theorem sequence_complete : CompleteList (sequence list) (bound + 1) := by
  intro cursor used later tree ahead short phrase fits ends
  obtain ⟨ts, us, first, rest, rfl, firstPhrase, tail, rfl, levels⟩ := phrase.exists_items
  rw [levels] at fits
  obtain ⟨firstFits, othersFit⟩ := Nat.max_le.mp fits
  have ahead' : cursor.rest = ts ++ (us ++ later) := by rw [ahead, List.append_assoc]
  refine .bind rfl ahead (pipeline_complete sound complete firstPhrase ahead' short firstFits
    (tail.ends ends)) fun middle took aheadTail => ?_
  obtain ⟨after, iterates, tookTail⟩ := tail_complete sound complete ends tail aheadTail
    (Nat.le_trans took.length_le short) (by rwa [took.room_eq])
  have readTail := Reads.many (nextPipeline_dwindles sound) iterates tookTail
  exact .bind (List.append_nil _).symm aheadTail readTail fun _ _ _ => .pure _

end Rules

/-- With a level for each token that is left, lists of them are read. -/
theorem listWithin_complete (levels : Nat) : CompleteList (listWithin levels) levels := by
  induction levels with
  | zero =>
    intro cursor used later tree ahead short phrase _ _
    obtain ⟨_, _, _, _, rfl, phrase, _⟩ := phrase.exists_items
    obtain ⟨first, rest, rfl, _⟩ := phrase.opens
    simp [ahead] at short
  | succ levels ih => exact sequence_complete (listWithin_sound levels) ih

end ShellLine.Grammar
