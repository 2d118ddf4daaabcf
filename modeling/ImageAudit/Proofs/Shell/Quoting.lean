import ImageAudit.Proofs.Shell.Command

/-!
# Writing tokens

A row of tokens can be written as a line for the shell: every word in single quotation marks, where
a mark of its own stands escaped between two quoted parts, every operator as it is, and a space
between each two.

* `rendered` writes a row of tokens, `tokenize_rendered` says that it is read back.
-/

namespace ImageAudit.Shell

open Text

/-- A character within single quotation marks; a mark of this sort is left outside them. -/
def quotedChar (c : Char) : Text :=
  if c = singleQuote then [singleQuote, '\\', singleQuote, singleQuote] else [c]

/-- A word in single quotation marks. -/
def quoted (w : Text) : Text := singleQuote :: (w.flatMap quotedChar ++ [singleQuote])

/-- A token as it is written. -/
def Token.rendered : Token → Text
  | word w => quoted w
  | operator op => op.text

/-- Tokens as they are written, with a space between each two. -/
def rendered (ts : List Token) : Text := join [' '] (ts.map Token.rendered)

theorem Scanned.extend_comp (t u : Text) : extend t ∘ extend u = extend (t ++ u) := by
  funext s
  simp [extend]

theorem scan_singleQuote (r : Text) :
    scan .plain (singleQuote :: r) = (scan .single r).map (Scanned.extend []) := by
  cases r <;> rfl

/-- What stands between the marks of a quoted word is read as the word, behind what has been read of
it before. -/
theorem scan_quoted (before w : Text) :
    (scan .single (w.flatMap quotedChar ++ [singleQuote])).map (Scanned.extend before) =
      .ok (some (before ++ w), []) := by
  induction w generalizing before with
  | nil => rfl
  | cons c w ih =>
    rw [List.flatMap_cons, List.append_assoc]
    by_cases mark : c = singleQuote
    · subst mark
      -- The quoted part ends, an escaped mark follows, and the next part begins.
      calc (scan .single (singleQuote :: '\\' :: singleQuote :: singleQuote ::
              (w.flatMap quotedChar ++ [singleQuote]))).map (Scanned.extend before)
          = (((scan .single (w.flatMap quotedChar ++ [singleQuote])).map (Scanned.extend [])).map
              (Scanned.extend [singleQuote])).map (Scanned.extend before) := by
            rw [← scan_singleQuote, scan, if_pos rfl]
            rfl
        _ = .ok (some (before ++ singleQuote :: w), []) := by
            rw [map_map, map_map, Scanned.extend_comp, Scanned.extend_comp, ih, List.append_nil,
              List.append_assoc]
            rfl
    · rw [quotedChar, if_neg mark, List.singleton_append, scan, if_neg mark, map_map,
        Scanned.extend_comp, ih, List.append_assoc]
      rfl

theorem tokenize_token (t : Token) : tokenize t.rendered = .ok [t] := by
  cases t with
  | word w =>
    show (scan .plain (quoted w)).map Scanned.tokens = _
    rw [quoted, scan_singleQuote, scan_quoted]
    rfl
  | operator op => exact tokenize_operator op

theorem getLast?_token (t : Token) : t.rendered.getLast? ≠ some '\\' := by
  cases t with
  | word w =>
    have mark : singleQuote ≠ '\\' := by decide
    simpa [Token.rendered, quoted, List.getLast?_cons] using mark
  | operator op => cases op <;> decide

theorem tokenize_rendered (ts : List Token) : tokenize (rendered ts) = .ok ts := by
  induction ts with
  | nil => rfl
  | cons t ts ih =>
    cases ts with
    | nil => simpa [rendered, join] using tokenize_token t
    | cons u us =>
      have cut : rendered (t :: u :: us) = t.rendered ++ ' ' :: rendered (u :: us) := by
        simp [rendered, join]
      rw [cut, tokenize_append_space (tokenize_token t) (getLast?_token t) (by decide), ih]
      rfl

/-- Tokens that are written down are read back, whatever characters the words hold, and the commands
in what is written are the longest runs of words among them. -/
theorem rendered_inverse (ts : List Token) :
    tokenize (rendered ts) = .ok ts ∧ commands (rendered ts) = .ok (splitCommands ts) ∧
      ∀ cs, splitCommands ts = cs ↔ AreCommands ts cs := by
  have read := tokenize_rendered ts
  refine ⟨read, ?_, fun cs => splitCommands_eq_iff⟩
  rw [commands, read]
  rfl

/-- An empty word is a word, and operators at the ends or next to each other part nothing. -/
example :
    let ts : List Token := [.operator .and, .word [], .word "it's;".toList, .operator .sequence,
      .operator .background, .word "\\\n".toList, .operator .pipe]
    rendered ts = "&& '' 'it'\\''s;' ; & '\\\n' |".toList ∧
      splitCommands ts = [[[], "it's;".toList], ["\\\n".toList]] := by
  decide

end ImageAudit.Shell
