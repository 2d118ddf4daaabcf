import ImageAudit.Proofs.Shell.Token
import ImageAudit.Shell.Command

/-!
# Commands between operators

The simple commands of a row of tokens are its longest runs of words. An operator between two rows
parts their commands, and an operator between two lines, with a space on either side, parts
everything: tokens, commands and calls of package managers.

* `splitCommands_eq_iff` says what the simple commands are.
* `tokenize_sequenced` says what two lines make that an operator joins.
-/

namespace ImageAudit.Shell

open Text

/-! ## Runs of words -/

/-- The longest runs of words in a row of tokens. -/
inductive AreCommands : List Token → List (List Text) → Prop where
  | none (ops : List Operator) : AreCommands (ops.map .operator) []
  | command (ops : List Operator) {words : List Text} {rest : List Token} {cs : List (List Text)}
      (some_word : words ≠ []) (ends : ∀ w, rest.head? ≠ some (.word w))
      (others : AreCommands rest cs) :
      AreCommands (ops.map .operator ++ words.map .word ++ rest) (words :: cs)

theorem splitCommandsFrom_operator (op : Operator) (ts : List Token) :
    splitCommandsFrom (.operator op :: ts) = ([], splitCommands ts) := rfl

theorem splitCommands_of_command {ts : List Token} {c : List Text} {cs : List (List Text)}
    (split : splitCommandsFrom ts = (c, cs)) :
    splitCommands ts = if c.isEmpty then cs else c :: cs := by
  rw [splitCommands, split]

namespace AreCommands

variable {ts rest : List Token} {words : List Text} {cs : List (List Text)}

theorem operator (op : Operator) (commands : AreCommands ts cs) :
    AreCommands (.operator op :: ts) cs := by
  cases commands with
  | none ops => exact .none (op :: ops)
  | command ops some_word ends others => exact .command (op :: ops) some_word ends others

theorem words_append (words : List Text) (ends : ∀ w, rest.head? ≠ some (.word w))
    (others : AreCommands rest cs) :
    AreCommands (words.map .word ++ rest) (if words.isEmpty then cs else words :: cs) := by
  cases words with
  | nil => exact others
  | cons w words => exact .command [] (List.cons_ne_nil w words) ends others

end AreCommands

/-- The command in progress takes all words at the front; the others are those of the rest. -/
theorem exists_of_splitCommandsFrom {ts : List Token} {words : List Text} {cs : List (List Text)}
    (split : splitCommandsFrom ts = (words, cs)) :
    ∃ rest, ts = words.map .word ++ rest ∧ (∀ w, rest.head? ≠ some (.word w)) ∧
      AreCommands rest cs := by
  induction ts generalizing words cs with
  | nil =>
    cases split
    exact ⟨[], rfl, fun _ => nofun, .none []⟩
  | cons t ts ih =>
    rcases here : splitCommandsFrom ts with ⟨words', cs'⟩
    obtain ⟨rest, rfl, ends, others⟩ := ih here
    cases t with
    | word w =>
      rw [splitCommandsFrom, here] at split
      cases split
      exact ⟨rest, rfl, ends, others⟩
    | operator op =>
      -- The run that ends here becomes the first of the others.
      rw [splitCommandsFrom_operator, splitCommands_of_command here] at split
      cases split
      exact ⟨_, rfl, fun _ => nofun, .operator op (.words_append words' ends others)⟩

theorem splitCommandsFrom_words (words : List Text) {rest : List Token}
    (ends : ∀ w, rest.head? ≠ some (.word w)) :
    splitCommandsFrom (words.map .word ++ rest) = (words, splitCommands rest) := by
  induction words with
  | nil =>
    cases rest with
    | nil => rfl
    | cons t rest =>
      cases t with
      | word w => exact absurd rfl (ends w)
      | operator op => rfl
  | cons w words ih => rw [List.map_cons, List.cons_append, splitCommandsFrom, ih]

theorem AreCommands.splitCommands_eq {ts : List Token} {cs : List (List Text)}
    (commands : AreCommands ts cs) : splitCommands ts = cs := by
  have passed (ops : List Operator) (ts : List Token) :
      splitCommands (ops.map .operator ++ ts) = splitCommands ts := by
    induction ops with
    | nil => rfl
    | cons op ops ih => exact ih
  induction commands with
  | none ops =>
    have := passed ops []
    rwa [List.append_nil] at this
  | @command ops words rest cs some_word ends others ih =>
    have split := splitCommandsFrom_words words ends
    rw [List.append_assoc, passed, splitCommands_of_command split, ih,
      if_neg fun none => some_word (List.isEmpty_iff.1 none)]

/-- A row of tokens has one list of commands: its longest runs of words. -/
theorem splitCommands_eq_iff {ts : List Token} {cs : List (List Text)} :
    splitCommands ts = cs ↔ AreCommands ts cs := by
  constructor
  · rintro rfl
    rcases here : splitCommandsFrom ts with ⟨words, cs⟩
    obtain ⟨rest, rfl, ends, others⟩ := exists_of_splitCommandsFrom here
    rw [splitCommands_of_command here]
    exact .words_append words ends others
  · exact AreCommands.splitCommands_eq

/-! ## Two lines with an operator between them -/

theorem splitCommandsFrom_append (ta tb : List Token) (op : Operator) :
    splitCommandsFrom (ta ++ .operator op :: tb) =
      ((splitCommandsFrom ta).1, (splitCommandsFrom ta).2 ++ splitCommands tb) := by
  induction ta with
  | nil => rfl
  | cons t ta ih =>
    rcases here : splitCommandsFrom ta with ⟨words, cs⟩
    rw [here] at ih
    cases t with
    | word w => rw [List.cons_append, splitCommandsFrom, splitCommandsFrom, ih, here]
    | operator op' =>
      rw [List.cons_append, splitCommandsFrom_operator, splitCommandsFrom_operator,
        splitCommands_of_command ih, splitCommands_of_command here]
      split <;> rfl

theorem splitCommands_append (ta tb : List Token) (op : Operator) :
    splitCommands (ta ++ .operator op :: tb) = splitCommands ta ++ splitCommands tb := by
  rcases here : splitCommandsFrom ta with ⟨words, cs⟩
  rw [splitCommands_of_command (splitCommandsFrom_append ta tb op), here,
    splitCommands_of_command here]
  split <;> rfl

/-- Two lines with an operator between them, and a space on either side of it. -/
def sequenced (a : Text) (op : Operator) (b : Text) : Text := a ++ ' ' :: (op.text ++ ' ' :: b)

theorem tokenize_operator (op : Operator) : tokenize op.text = .ok [.operator op] := by
  cases op <;> rfl

theorem tokenize_sequenced {a : Text} {ta : List Token} (accepted : tokenize a = .ok ta)
    (settled : a.getLast? ≠ some '\\') (op : Operator) (b : Text) :
    tokenize (sequenced a op b) = (tokenize b).map fun tb => ta ++ .operator op :: tb := by
  have settled_operator : op.text.getLast? ≠ some '\\' := by cases op <;> decide
  rw [sequenced, tokenize_append_space accepted settled (by decide),
    tokenize_append_space (tokenize_operator op) settled_operator (by decide), map_map]
  rfl

/-- An operator between two lines parts them: the tokens, commands and calls of package managers are
those of the one and then those of the other, and what is wrong with the second line is wrong with
both. Nothing that the first line quotes or escapes reaches the second, provided that no backslash
at its end takes the space along. -/
theorem sequenced_parts {a : Text} {ta : List Token} (accepted : tokenize a = .ok ta)
    (settled : a.getLast? ≠ some '\\') (op : Operator) (b : Text) :
    (tokenize (sequenced a op b) = (tokenize b).map fun tb => ta ++ .operator op :: tb) ∧
      (∃ ca, commands a = .ok ca ∧
        commands (sequenced a op b) = (commands b).map fun cb => ca ++ cb) ∧
      ∃ pa, packageCalls a = .ok pa ∧
        packageCalls (sequenced a op b) = (packageCalls b).map fun pb => pa ++ pb := by
  have tokens := tokenize_sequenced accepted settled op b
  have commands_a : commands a = .ok (splitCommands ta) := by rw [commands, accepted]; rfl
  have commands_both :
      commands (sequenced a op b) = (commands b).map fun cb => splitCommands ta ++ cb := by
    rw [commands, tokens, commands, map_map, map_map]
    congr 1
    funext tb
    exact splitCommands_append ta tb op
  refine ⟨tokens, ⟨_, commands_a, commands_both⟩, (splitCommands ta).filterMap packageCall?, ?_, ?_⟩
  · rw [packageCalls, commands_a]
    rfl
  · rw [packageCalls, commands_both, packageCalls, map_map, map_map]
    congr 1
    funext cb
    exact List.filterMap_append

/-- Quoted operators and an escaped blank in the first line, an open quotation mark in the second
one. -/
theorem sequenced_parts_of_quotes :
    let a := "apt-get install 'a && b' c\\ ".toList
    packageCalls a = .ok [⟨.aptGet, some .install, ["a && b".toList, "c ".toList]⟩] ∧
      packageCalls (sequenced a .or "apk add d".toList) =
        .ok [⟨.aptGet, some .install, ["a && b".toList, "c ".toList]⟩,
          ⟨.apk, some .install, ["d".toList]⟩] ∧
      tokenize (sequenced a .and "echo \x22".toList) = .error (.unterminatedQuote doubleQuote) := by
  intro a
  have accepted : tokenize a = .ok [.word "apt-get".toList, .word "install".toList,
    .word "a && b".toList, .word "c ".toList] := rfl
  obtain ⟨-, -, calls, calls_a, both⟩ :=
    sequenced_parts accepted (by decide) .or "apk add d".toList
  refine ⟨rfl, ?_, (sequenced_parts accepted (by decide) .and "echo \x22".toList).1.trans rfl⟩
  cases calls_a
  exact both.trans rfl

/-- A backslash at the end of the first line takes the space along. -/
example : tokenize (sequenced "a\\".toList .sequence "b".toList) =
    .ok [.word "a ".toList, .operator .sequence, .word "b".toList] := rfl

end ImageAudit.Shell
