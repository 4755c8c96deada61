import XQuerySyntax.Lexeme.Scanned

/-!
Text between tokens: blanks and nested comments. A comment ends where as many closers as openers
have been read.
-/

namespace XQuerySyntax

/-- The text behind the closer that balances `depth + 1` openers, if there is one. -/
def skipCommentBody : Nat → List Char → Option (List Char)
  | _, [] => none
  | depth, '(' :: ':' :: cs => skipCommentBody (depth + 1) cs
  | 0, ':' :: ')' :: cs => some cs
  | depth + 1, ':' :: ')' :: cs => skipCommentBody depth cs
  | depth, _ :: cs => skipCommentBody depth cs

theorem length_of_skipCommentBody {depth : Nat} {text rest : List Char}
    (h : skipCommentBody depth text = some rest) : rest.length < text.length := by
  fun_induction skipCommentBody depth text with
  | case1 => cases h
  | case2 depth cs ih => have := ih h; simp only [List.length_cons]; omega
  | case3 cs => cases h; simp only [List.length_cons]; omega
  | case4 depth cs ih => have := ih h; simp only [List.length_cons]; omega
  | case5 depth c cs _ _ _ ih => have := ih h; simp only [List.length_cons]; omega

/-- Whether a comment begins here. -/
def startsComment : List Char → Bool
  | '(' :: ':' :: _ => true
  | _ => false

/-- Whether there is anything to skip here: a blank, or a comment where comments are allowed. -/
def startsTrivia (comments : Bool) (text : List Char) : Bool :=
  text.head?.any isBlank || (comments && startsComment text)

/-- A comment with its delimiters. An open comment is an error at its opener. -/
def scanComment (text : List Char) : Scanned String :=
  if startsComment text then
    match skipCommentBody 0 (text.drop 2) with
    | some rest => .found (String.ofList (text.take (text.length - rest.length))) rest
    | none => .faulty (.unterminated "comment") text
  else .absent

/-- Skips blanks, and comments too if they are allowed. Always found unless a comment is open. -/
def scanTrivia (comments : Bool) (text : List Char) : Scanned Unit :=
  let rest := text.dropWhile isBlank
  if comments && startsComment rest then
    match h : skipCommentBody 0 (rest.drop 2) with
    | some rest' =>
      have : rest'.length < text.length := by
        have h₁ := length_of_skipCommentBody h
        have h₂ : (text.dropWhile isBlank).length ≤ text.length :=
          (List.dropWhile_sublist isBlank).length_le
        simp only [List.length_drop, rest] at h₁
        omega
      scanTrivia comments rest'
    | none => .faulty (.unterminated "comment") rest
  else .found () rest
termination_by text.length

end XQuerySyntax
