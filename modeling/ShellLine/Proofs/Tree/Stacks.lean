import Mathlib.Data.List.Basic
import ShellLine.Tree.Drawing

/-! # Taking drawings apart

What leads to a part of a drawing and what sets in its further lines begin differently, so that a
stack shows the parts that it is made of: `stack_injective`. Lines without newlines can be told from
each other in one text: `intercalate_newline_inj`.
-/

namespace ShellLine

/-! ## Codes -/

/-- None of the texts begins with another one. -/
def PrefixFree (codes : List String) : Prop :=
  ∀ first ∈ codes, ∀ second ∈ codes, first.toList <+: second.toList → first = second

instance (codes : List String) : Decidable (PrefixFree codes) :=
  inferInstanceAs (Decidable (∀ first ∈ codes, ∀ second ∈ codes, _ → _))

/-- In front of a text a code can be told from the text. -/
theorem PrefixFree.cancel {codes : List String} (free : PrefixFree codes) {first second : String}
    (known : first ∈ codes) (known' : second ∈ codes) {text text' : String}
    (same : first ++ text = second ++ text') : first = second ∧ text = text' := by
  have lists : first.toList ++ text.toList = second.toList ++ text'.toList := by
    rw [← String.toList_append, same, String.toList_append]
  have equal : first = second := by
    have begins : first.toList <+: second.toList ++ text'.toList := lists ▸ List.prefix_append ..
    rcases List.prefix_or_prefix_of_prefix begins (List.prefix_append ..) with shorter | longer
    · exact free first known second known' shorter
    · exact (free second known' first known longer).symm
  subst equal
  exact ⟨rfl, (String.append_right_inj first).mp same⟩

namespace Drawing

/-! ## Taking a stack apart -/

/-- What stands in front of the lines of a part. -/
def insets : List String := [branch, lastBranch, rule, gap]

theorem prefixFree_insets : PrefixFree insets := by decide

/-- The first line, if there is one, is the first one of a part. -/
def Connected (lines : Drawing) : Prop :=
  ∀ line ∈ lines.head?, ∃ connector ∈ [branch, lastBranch], ∃ text, line = connector ++ text

/-- A line that is set in is the first one of no part. -/
theorem Connected.ne_inset {lines more : Drawing} {text : String} (connected : Connected lines)
    {inset : String} (known : inset ∈ [rule, gap]) : lines ≠ (inset ++ text) :: more := by
  rintro rfl
  obtain ⟨connector, leads, text', same⟩ := connected _ rfl
  have member : inset ∈ insets := List.mem_append_right [branch, lastBranch] known
  have member' : connector ∈ insets := List.mem_append_left [rule, gap] leads
  obtain ⟨rfl, -⟩ := prefixFree_insets.cancel member member' same
  have apart : ∀ connector ∈ [branch, lastBranch], connector ∉ [rule, gap] := by decide
  exact apart inset leads known

/-- The lines that are set in end where the next part starts. -/
theorem map_append_inj {inset : String} (known : inset ∈ [rule, gap]) {first second : Drawing}
    {lines lines' : Drawing} (connected : Connected lines) (connected' : Connected lines')
    (same : first.map (inset ++ ·) ++ lines = second.map (inset ++ ·) ++ lines') :
    first = second ∧ lines = lines' := by
  induction first generalizing second with
  | nil =>
    cases second with
    | nil => exact ⟨rfl, same⟩
    | cons line rest => exact absurd same (connected.ne_inset known)
  | cons line rest ih =>
    cases second with
    | nil => exact absurd same.symm (connected'.ne_inset known)
    | cons line' rest' =>
      obtain ⟨head, tail⟩ := List.cons_eq_cons.mp same
      obtain ⟨rfl, equal⟩ := ih tail
      rw [(String.append_right_inj inset).mp head]
      exact ⟨rfl, equal⟩

/-- A part ends where the next one starts. -/
theorem attach_append_inj {connector inset : String} (known : inset ∈ [rule, gap])
    {part part' lines lines' : Drawing} (some : part ≠ []) (some' : part' ≠ [])
    (connected : Connected lines) (connected' : Connected lines')
    (same : attach connector inset part ++ lines = attach connector inset part' ++ lines') :
    part = part' ∧ lines = lines' := by
  obtain ⟨first, rest, rfl⟩ := List.exists_cons_of_ne_nil some
  obtain ⟨first', rest', rfl⟩ := List.exists_cons_of_ne_nil some'
  obtain ⟨head, tail⟩ := List.cons_eq_cons.mp same
  obtain ⟨rfl, equal⟩ := map_append_inj known connected connected' tail
  rw [(String.append_right_inj connector).mp head]
  exact ⟨rfl, equal⟩

/-- Every part has a line. -/
def Proper (parts : List Drawing) : Prop :=
  ∀ part ∈ parts, part ≠ []

theorem head?_attach (connector inset : String) {part : Drawing} (some : part ≠ [])
    (more : Drawing) :
    ∃ text, (attach connector inset part ++ more).head? = Option.some (connector ++ text) := by
  obtain ⟨first, rest, rfl⟩ := List.exists_cons_of_ne_nil some
  exact ⟨first, rfl⟩

theorem connected_stack {parts : List Drawing} (proper : Proper parts) :
    Connected (stack parts) := by
  intro line first
  cases parts with
  | nil => cases first
  | cons part rest =>
    have some : part ≠ [] := proper part List.mem_cons_self
    cases rest with
    | nil =>
      obtain ⟨text, head⟩ := head?_attach lastBranch gap some []
      rw [List.append_nil] at head
      exact ⟨lastBranch, by decide, text, Option.some.inj (first.symm.trans head)⟩
    | cons next rest =>
      obtain ⟨text, head⟩ := head?_attach branch rule some (stack (next :: rest))
      exact ⟨branch, by decide, text, Option.some.inj (first.symm.trans head)⟩

/-- The last part is led to in a way of its own. -/
theorem stack_singleton_ne {last part next : Drawing} {rest : List Drawing} (some : last ≠ [])
    (some' : part ≠ []) : stack [last] ≠ stack (part :: next :: rest) := by
  intro same
  obtain ⟨text, head⟩ := head?_attach lastBranch gap some []
  obtain ⟨text', head'⟩ := head?_attach branch rule some' (stack (next :: rest))
  rw [List.append_nil] at head
  have lines : lastBranch ++ text = branch ++ text' := by
    have heads := congrArg List.head? same
    rw [stack, stack, head, head'] at heads
    exact Option.some.inj heads
  have equal := (prefixFree_insets.cancel (by decide) (by decide) lines).1
  exact absurd equal (by decide)

theorem stack_ne_nil {part : Drawing} {rest : List Drawing} (some : part ≠ []) :
    stack (part :: rest) ≠ [] := by
  obtain ⟨first, more, rfl⟩ := List.exists_cons_of_ne_nil some
  cases rest <;> exact List.cons_ne_nil _ _

/-- A stack shows the parts that it is made of. -/
theorem stack_injective {parts parts' : List Drawing} (proper : Proper parts)
    (proper' : Proper parts') (same : stack parts = stack parts') : parts = parts' := by
  induction parts generalizing parts' with
  | nil =>
    cases parts' with
    | nil => rfl
    | cons part rest => exact absurd same.symm (stack_ne_nil (proper' part List.mem_cons_self))
  | cons part rest ih =>
    have some : part ≠ [] := proper part List.mem_cons_self
    have later : Proper rest := fun other member => proper other (List.mem_cons_of_mem _ member)
    cases parts' with
    | nil => exact absurd same (stack_ne_nil some)
    | cons part' rest' =>
      have some' : part' ≠ [] := proper' part' List.mem_cons_self
      have later' : Proper rest' := fun other member =>
        proper' other (List.mem_cons_of_mem _ member)
      cases rest with
      | nil =>
        cases rest' with
        | nil =>
          have ends : Connected [] := fun _ first => by cases first
          have lines : attach lastBranch gap part ++ [] = attach lastBranch gap part' ++ [] := by
            rw [List.append_nil, List.append_nil]
            exact same
          rw [(attach_append_inj (by decide) some some' ends ends lines).1]
        | cons => exact absurd same (stack_singleton_ne some some')
      | cons =>
        cases rest' with
        | nil => exact absurd same.symm (stack_singleton_ne some' some)
        | cons =>
          obtain ⟨rfl, below⟩ := attach_append_inj (by decide) some some' (connected_stack later)
            (connected_stack later') same
          rw [ih later later' below]

theorem block_injective {label label' : String} {parts parts' : List Drawing}
    (proper : Proper parts) (proper' : Proper parts')
    (same : block label parts = block label' parts') :
    label = label' ∧ parts = parts' := by
  obtain ⟨head, tail⟩ := List.cons_eq_cons.mp same
  exact ⟨head, stack_injective proper proper' tail⟩

/-- Whether a block is left out shows in the label of what comes next. -/
theorem optionalBlock_append_inj {label : String} {parts parts' : List Drawing}
    (proper : Proper parts) (proper' : Proper parts') {next next' : Drawing}
    {more more' : List Drawing}
    (apart : next.head? ≠ some label) (apart' : next'.head? ≠ some label)
    (same : optionalBlock label parts ++ next :: more =
      optionalBlock label parts' ++ next' :: more') :
    parts = parts' ∧ next = next' ∧ more = more' := by
  cases parts with
  | nil =>
    cases parts' with
    | nil => exact ⟨rfl, List.cons_eq_cons.mp same⟩
    | cons part' rest' =>
      obtain ⟨rfl, -⟩ := List.cons_eq_cons.mp same
      exact absurd rfl apart
  | cons part rest =>
    cases parts' with
    | nil =>
      obtain ⟨rfl, -⟩ := List.cons_eq_cons.mp same
      exact absurd rfl apart'
    | cons part' rest' =>
      obtain ⟨blocks, others⟩ := List.cons_eq_cons.mp same
      exact ⟨(block_injective proper proper' blocks).2, List.cons_eq_cons.mp others⟩

/-! ## Lines as one text -/

/-- No line has a newline in it. -/
def Lined (lines : Drawing) : Prop :=
  ∀ line ∈ lines, '\n' ∉ line.toList

/-- Lines without newlines can be told from each other in one text. -/
theorem intercalate_newline_inj {lines lines' : Drawing} (some : lines ≠ []) (some' : lines' ≠ [])
    (lined : Lined lines) (lined' : Lined lines')
    (same : "\n".intercalate lines = "\n".intercalate lines') : lines = lines' := by
  have cut {lines : Drawing} (some : lines ≠ []) (lined : Lined lines) :
      ("\n".intercalate lines).toList.splitOn '\n' = lines.map String.toList := by
    rw [String.toList_intercalate]
    exact List.splitOn_intercalate '\n' (by simpa [Lined] using lined) (by simpa using some)
  have lists : lines.map String.toList = lines'.map String.toList := by
    rw [← cut some lined, same, cut some' lined']
  exact List.map_injective_iff.mpr (fun _ _ => String.toList_inj.mp) lists

theorem lined_attach {connector inset : String} (known : connector ∈ insets)
    (known' : inset ∈ insets)
    {part : Drawing} (lined : Lined part) : Lined (attach connector inset part) := by
  have plain : ∀ inset ∈ insets, '\n' ∉ inset.toList := by decide
  have joined {inset line : String} (known : inset ∈ insets) (inLine : '\n' ∉ line.toList) :
      '\n' ∉ (inset ++ line).toList := by
    rw [String.toList_append, List.mem_append]
    exact not_or.mpr ⟨plain inset known, inLine⟩
  cases part with
  | nil => exact lined
  | cons first rest =>
    obtain ⟨inLine, others⟩ := List.forall_mem_cons.mp lined
    refine List.forall_mem_cons.mpr ⟨joined known inLine, fun line member => ?_⟩
    obtain ⟨inner, inside, rfl⟩ := List.mem_map.mp member
    exact joined known' (others inner inside)

theorem lined_stack {parts : List Drawing} (each : ∀ part ∈ parts, Lined part) :
    Lined (stack parts) := by
  fun_induction stack parts with
  | case1 => exact List.forall_mem_nil _
  | case2 last => exact lined_attach (by decide) (by decide) (each last List.mem_cons_self)
  | case3 part next rest ih =>
    obtain ⟨first, others⟩ := List.forall_mem_cons.mp each
    exact List.forall_mem_append.mpr ⟨lined_attach (by decide) (by decide) first, ih others⟩

theorem lined_block {label : String} (inLine : '\n' ∉ label.toList) {parts : List Drawing}
    (each : ∀ part ∈ parts, Lined part) : Lined (block label parts) :=
  List.forall_mem_cons.mpr ⟨inLine, lined_stack each⟩

theorem lined_optionalBlock {label : String} (inLine : '\n' ∉ label.toList) {parts : List Drawing}
    (each : ∀ part ∈ parts, Lined part) : ∀ part ∈ optionalBlock label parts, Lined part := by
  unfold optionalBlock
  split
  case isTrue => exact List.forall_mem_nil _
  case isFalse => exact List.forall_mem_cons.mpr ⟨lined_block inLine each, List.forall_mem_nil _⟩

theorem lined_pipeline {stages : List Drawing} (each : ∀ stage ∈ stages, Lined stage) :
    Lined (pipeline stages) := by
  unfold pipeline
  split
  case h_1 stage => exact each stage List.mem_cons_self
  case h_2 => exact lined_block (by decide) each

end Drawing

end ShellLine
