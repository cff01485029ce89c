/-
Malm.Lib.PosixShell — how a POSIX shell cuts a text into words and removes the quoting.

A word keeps each of its characters with its role: a quoting mark, or a character that is
bare, inside of double quotes, or quoted. An expansion can begin at no quoted one. A text
that ends inside of quotes has no words.
-/
import Malm.Lib.Transducer

namespace PosixShell

open Transducer

/-! ## 1. Words -/

inductive Role where
  | mark
  | bare
  | double
  | quoted
deriving DecidableEq

structure Piece where
  character : Char
  role : Role
deriving DecidableEq

inductive Token where
  | word (pieces : List Piece)
  | operator (character : Char)
deriving DecidableEq

def quoteRemoval (word : List Piece) : List Char :=
  (word.filter fun piece => piece.role ≠ .mark).map Piece.character

/-- A character at which an expansion can begin. -/
def Piece.expands (piece : Piece) : Bool :=
  match piece.role with
  | .mark => false
  | .quoted => false
  | .double => piece.character ∈ ['$', '\x60']
  | .bare => piece.character ∈ ['$', '\x60', '~', '*', '?', '[']

theorem quoteRemoval_append (first second : List Piece) :
    quoteRemoval (first ++ second) = quoteRemoval first ++ quoteRemoval second := by
  simp [quoteRemoval]

theorem quoteRemoval_bare (text : List Char) :
    quoteRemoval (text.map fun character => ⟨character, .bare⟩) = text := by
  induction text with
  | nil => rfl
  | cons character rest ih => simpa [quoteRemoval] using ih

/-! ## 2. Tokens -/

/-- The tokenizer is between words, in a comment, or behind the pieces of a word. -/
inductive State where
  | between
  | comment
  | plain (pieces : List Piece)
  | escaped (pieces : List Piece)
  | single (pieces : List Piece)
  | double (pieces : List Piece)
  | doubleEscaped (pieces : List Piece)
deriving DecidableEq

def isBlank (character : Char) : Bool := character ∈ [' ', '\t']

/-- A character of an operator, or the end of a line. -/
def isOperator (character : Char) : Bool :=
  character ∈ ['|', '&', ';', '<', '>', '(', ')', '\n']

def wordStep (pieces : List Piece) (character : Char) : Move State Token :=
  if character = '\x5c' then .go (.escaped pieces) []
  else if character = '\x27' then .go (.single (pieces ++ [⟨character, .mark⟩])) []
  else if character = '\x22' then .go (.double (pieces ++ [⟨character, .mark⟩])) []
  else .go (.plain (pieces ++ [⟨character, .bare⟩])) []

def step : State → Char → Move State Token
  | .between, character =>
    if isBlank character then .go .between []
    else if isOperator character then .go .between [.operator character]
    else if character = '#' then .go .comment []
    else wordStep [] character
  | .comment, character =>
    if character = '\n' then .go .between [.operator character] else .go .comment []
  | .plain pieces, character =>
    if isBlank character then .go .between [.word pieces]
    else if isOperator character then .go .between [.word pieces, .operator character]
    else wordStep pieces character
  | .escaped pieces, character =>
    -- A backslash before the end of a line continues the line.
    if character = '\n' then .go (if pieces = [] then .between else .plain pieces) []
    else .go (.plain (pieces ++ [⟨'\x5c', .mark⟩, ⟨character, .quoted⟩])) []
  | .single pieces, character =>
    if character = '\x27' then .go (.plain (pieces ++ [⟨character, .mark⟩])) []
    else .go (.single (pieces ++ [⟨character, .quoted⟩])) []
  | .double pieces, character =>
    if character = '\x22' then .go (.plain (pieces ++ [⟨character, .mark⟩])) []
    else if character = '\x5c' then .go (.doubleEscaped pieces) []
    else .go (.double (pieces ++ [⟨character, .double⟩])) []
  | .doubleEscaped pieces, character =>
    if character = '\n' then .go (.double pieces) []
    else if character ∈ ['$', '\x60', '\x22', '\x5c'] then
      .go (.double (pieces ++ [⟨'\x5c', .mark⟩, ⟨character, .quoted⟩])) []
    else .go (.double (pieces ++ [⟨'\x5c', .quoted⟩, ⟨character, .double⟩])) []

def finish : State → Option (List Token)
  | .between => some []
  | .comment => some []
  | .plain pieces => some [.word pieces]
  | _ => none

def tokenize (text : List Char) : Option (List Token) :=
  (feed step .between text).bind fun last => (finish last.1).map (last.2 ++ ·)

variable {text : List Char} {character : Char}

theorem tokenize_word {pieces : List Piece}
    (h : feed step .between text = some (.plain pieces, [])) :
    tokenize text = some [.word pieces] := by
  simp [tokenize, h, finish]

/-! ## 3. Runs inside of a word -/

def isOrdinary (character : Char) : Bool :=
  !isBlank character && !isOperator character && character ∉ ['\x5c', '\x27', '\x22', '#']

theorem wordStep_of_ordinary (h : isOrdinary character = true) (pieces : List Piece) :
    wordStep pieces character = .go (.plain (pieces ++ [⟨character, .bare⟩])) [] := by
  simp only [isOrdinary, Bool.and_eq_true, decide_eq_true_eq, List.mem_cons, List.not_mem_nil,
    or_false, not_or] at h
  simp [wordStep, h.2]

theorem step_plain_of_ordinary (h : isOrdinary character = true) (pieces : List Piece) :
    step (.plain pieces) character = .go (.plain (pieces ++ [⟨character, .bare⟩])) [] := by
  have hword := wordStep_of_ordinary h pieces
  simp only [isOrdinary, Bool.and_eq_true, Bool.not_eq_true'] at h
  simp [step, h.1, hword]

theorem step_between_of_ordinary (h : isOrdinary character = true) :
    step .between character = .go (.plain [⟨character, .bare⟩]) [] := by
  have hword := wordStep_of_ordinary h []
  simp only [isOrdinary, Bool.and_eq_true, Bool.not_eq_true', decide_eq_true_eq, List.mem_cons,
    not_or] at h
  simp [step, h.1, h.2, hword]

theorem feed_plain (h : ∀ character ∈ text, isOrdinary character = true) (pieces : List Piece) :
    feed step (.plain pieces) text =
      some (.plain (pieces ++ text.map fun character => ⟨character, .bare⟩), []) := by
  induction text generalizing pieces with
  | nil => simp
  | cons character rest ih =>
    have hstep := step_plain_of_ordinary (h character (by simp)) pieces
    rw [feed_cons hstep, ih fun other hother => h other (by simp [hother])]
    simp

/-- **A text of ordinary characters is one bare word.** -/
theorem feed_bare (hne : text ≠ []) (h : ∀ character ∈ text, isOrdinary character = true) :
    feed step .between text =
      some (.plain (text.map fun character => ⟨character, .bare⟩), []) := by
  cases text with
  | nil => exact absurd rfl hne
  | cons character rest =>
    have hstep := step_between_of_ordinary (h character (by simp))
    rw [feed_cons hstep, feed_plain fun other hother => h other (by simp [hother])]
    simp

/-- A text that keeps the tokenizer in single quotes, for each of its characters. -/
theorem feed_single {escape : Char → List Char} {pieces : Char → List Piece}
    (h : ∀ character before, feed step (.single before) (escape character) =
      some (.single (before ++ pieces character), [])) (before : List Piece) :
    feed step (.single before) (text.flatMap escape) =
      some (.single (before ++ text.flatMap pieces), []) := by
  induction text generalizing before with
  | nil => simp
  | cons character rest ih =>
    have hrun := feed_append (h character before) (ih (before ++ pieces character))
    simpa using hrun

end PosixShell
