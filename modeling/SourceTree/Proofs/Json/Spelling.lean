import SourceTree.Json.Lexeme

/-!
How the words of JSON may be spelled. `Spells` says which texts spell a list of words: white
space may stand between any two of them, and a character of a string may be written in
several ways. The scanner reads each such text as those words.
-/
namespace SourceTree.Json

/-! ### Spellings -/

/-- The ways to write one place of a string. -/
inductive Piece.Spelled : Piece → List Char → Prop where
  | plain {c : Char} (quote : c ≠ '"') (backslash : c ≠ '\\') (visible : 0x20 ≤ c.toNat) :
      Spelled (.char c) [c]
  | short {letter c : Char} (h : shortEscape? letter = some c) : Spelled (.char c) ['\\', letter]
  | code {a b c d : Char} {i j k l : Nat} (ha : hexValue? a = some i) (hb : hexValue? b = some j)
      (hc : hexValue? c = some k) (hd : hexValue? d = some l) :
      Spelled (.code (16 * (16 * (16 * i + j) + k) + l)) ['\\', 'u', a, b, c, d]

/-- The inside of a string. -/
inductive SpelledPieces : List Piece → List Char → Prop where
  | nil : SpelledPieces [] []
  | cons {piece : Piece} {pieces : List Piece} {chars rest : List Char}
      (first : piece.Spelled chars) (tail : SpelledPieces pieces rest) :
      SpelledPieces (piece :: pieces) (chars ++ rest)

/-- Reads on in a number. -/
def NumberPart.run : NumberPart → List Char → Option NumberPart
  | part, [] => some part
  | part, c :: rest => (part.step c).bind fun part => part.run rest

/-- A complete number. -/
def isNumber : List Char → Bool
  | [] => false
  | c :: rest =>
    ((if c = '-' then some .minus else NumberPart.minus.step c).bind
      fun part => part.run rest).any NumberPart.mayEnd

/-- The ways to write a word. -/
inductive Lexeme.Spelled : Lexeme → List Char → Prop where
  | openBrace : Spelled .openBrace ['\x7b']
  | closeBrace : Spelled .closeBrace ['\x7d']
  | openBracket : Spelled .openBracket ['[']
  | closeBracket : Spelled .closeBracket [']']
  | colon : Spelled .colon [':']
  | comma : Spelled .comma [',']
  | null : Spelled .null ['n', 'u', 'l', 'l']
  | true : Spelled .true ['t', 'r', 'u', 'e']
  | false : Spelled .false ['f', 'a', 'l', 's', 'e']
  | number {chars : List Char} (h : isNumber chars = Bool.true) :
      Spelled (.number (String.ofList chars)) chars
  | string {pieces : List Piece} {chars : List Char} (h : SpelledPieces pieces chars) :
      Spelled (.string ((decode pieces).map String.ofList)) ('"' :: (chars ++ ['"']))

def isNumberChar (c : Char) : Bool :=
  NumberPart.isDigit c || NumberPart.isMark c || c == '.' || c == '+' || c == '-'

/-- No number reaches into this text. -/
def Apart (text : List Char) : Prop := ∀ c ∈ text.head?, isNumberChar c = false

def Lexeme.isNumber : Lexeme → Bool
  | .number _ => Bool.true
  | _ => Bool.false

/-- The text spells these words. -/
inductive Spells : List Char → List Lexeme → Prop where
  | nil : Spells [] []
  | space {c : Char} {text : List Char} {lexemes : List Lexeme} (h : isSpace c = true)
      (rest : Spells text lexemes) : Spells (c :: text) lexemes
  | word {lexeme : Lexeme} {chars text : List Char} {lexemes : List Lexeme}
      (h : lexeme.Spelled chars) (apart : lexeme.isNumber = true → Apart text)
      (rest : Spells text lexemes) : Spells (chars ++ text) (lexeme :: lexemes)

/-! ### Reading them -/

theorem scanFrom_cons {scan next : Scan} {done lexemes : List Lexeme} {c : Char} {rest : List Char}
    (h : scan.step c = some (next, lexemes)) :
    scanFrom scan done (c :: rest) = scanFrom next (lexemes.reverse ++ done) rest := by
  rw [scanFrom, h]

/-- A scan that can end where it is leaves a word behind and goes on in a gap. -/
theorem scanFrom_ended {scan : Scan} {lexeme : Lexeme} (hfinish : scan.finish = some [lexeme])
    {rest : List Char}
    (hstep : ∀ c ∈ rest.head?, scan.step c =
      (start c).map fun (scan, lexemes) => (scan, lexeme :: lexemes)) (done : List Lexeme) :
    scanFrom scan done rest = scanFrom .gap (lexeme :: done) rest := by
  cases rest with
  | nil =>
    rw [scanFrom, scanFrom, hfinish]
    simp [Scan.finish]
  | cons c rest =>
    rw [scanFrom, scanFrom, hstep c rfl, Scan.step]
    cases start c <;> simp

theorem scanFrom_word (lexeme : Lexeme) (letters : List Char) (done : List Lexeme)
    (rest : List Char) :
    scanFrom (.word letters lexeme) done (letters ++ rest) =
      scanFrom .gap (lexeme :: done) rest := by
  induction letters with
  | nil => exact scanFrom_ended rfl (fun _ _ => rfl) done
  | cons letter letters ih =>
    have hstep : (Scan.word (letter :: letters) lexeme).step letter =
        some (.word letters lexeme, []) := by simp [Scan.step]
    rw [List.cons_append, scanFrom_cons hstep]
    exact ih

theorem isNumberChar_of_step {part next : NumberPart} {c : Char} (h : part.step c = some next) :
    isNumberChar c = true := by
  cases hc : isNumberChar c with
  | true => rfl
  | false =>
    simp only [isNumberChar, Bool.or_eq_false_iff, beq_eq_false_iff_ne] at hc
    obtain ⟨⟨⟨⟨hdigit, hmark⟩, hpoint⟩, hplus⟩, hminus⟩ := hc
    have hzero : c ≠ '0' := by
      rintro rfl
      exact absurd hdigit (by decide)
    cases part <;> simp [NumberPart.step, hdigit, hmark, hpoint, hplus, hminus, hzero] at h

theorem scanFrom_number {part last : NumberPart} {chars : List Char}
    (hrun : part.run chars = some last) (hend : last.mayEnd = true) {rest : List Char}
    (apart : Apart rest) (read : List Char) (done : List Lexeme) :
    scanFrom (.number part read) done (chars ++ rest) =
      scanFrom .gap (.number (String.ofList (read.reverse ++ chars)) :: done) rest := by
  induction chars generalizing part read with
  | nil =>
    obtain rfl : part = last := Option.some.inj hrun
    rw [List.append_nil, List.nil_append]
    refine scanFrom_ended (by simp [Scan.finish, hend]) ?_ done
    intro c hc
    have hstop : part.step c = none := by
      cases hs : part.step c with
      | none => rfl
      | some next => exact absurd (isNumberChar_of_step hs) (by simp [apart c hc])
    simp [Scan.step, hstop, hend]
  | cons c chars ih =>
    obtain ⟨next, hnext, hrest⟩ := Option.bind_eq_some_iff.mp hrun
    have hstep : (Scan.number part read).step c = some (.number next (c :: read), []) := by
      simp [Scan.step, hnext]
    rw [List.cons_append, scanFrom_cons hstep]
    have := ih hrest (c :: read)
    simpa using this

theorem scanFrom_piece {piece : Piece} {chars : List Char} (h : piece.Spelled chars)
    (read : List Piece) (done : List Lexeme) (rest : List Char) :
    scanFrom (.string read) done (chars ++ rest) =
      scanFrom (.string (piece :: read)) done rest := by
  cases h with
  | @plain c quote backslash visible =>
    have hstep : (Scan.string read).step c = some (.string (.char c :: read), []) := by
      simp [Scan.step, quote, backslash, Nat.not_lt.mpr visible]
    exact scanFrom_cons hstep
  | @short letter c h =>
    have hletter : letter ≠ 'u' := by
      rintro rfl
      exact nomatch h
    have hopen : (Scan.string read).step '\\' = some (.escape read, []) := by simp [Scan.step]
    have hstep : (Scan.escape read).step letter = some (.string (.char c :: read), []) := by
      simp [Scan.step, hletter, h]
    rw [List.cons_append, scanFrom_cons hopen, List.cons_append, scanFrom_cons hstep]
    rfl
  | @code a b c d i j k l ha hb hc hd =>
    have hopen : (Scan.string read).step '\\' = some (.escape read, []) := by simp [Scan.step]
    have hhex : (Scan.escape read).step 'u' = some (.hex 3 0 read, []) := by simp [Scan.step]
    have hfirst : (Scan.hex 3 0 read).step a = some (.hex 2 i read, []) := by
      simp [Scan.step, ha]
    have hsecond : (Scan.hex 2 i read).step b = some (.hex 1 (16 * i + j) read, []) := by
      simp [Scan.step, hb]
    have hthird : (Scan.hex 1 (16 * i + j) read).step c =
        some (.hex 0 (16 * (16 * i + j) + k) read, []) := by
      simp [Scan.step, hc]
    have hlast : (Scan.hex 0 (16 * (16 * i + j) + k) read).step d =
        some (.string (.code (16 * (16 * (16 * i + j) + k) + l) :: read), []) := by
      simp [Scan.step, hd]
    simp only [List.cons_append, List.nil_append]
    rw [scanFrom_cons hopen, scanFrom_cons hhex, scanFrom_cons hfirst, scanFrom_cons hsecond,
      scanFrom_cons hthird, scanFrom_cons hlast]
    rfl

theorem scanFrom_pieces {pieces : List Piece} {chars : List Char} (h : SpelledPieces pieces chars)
    (read : List Piece) (done : List Lexeme) (rest : List Char) :
    scanFrom (.string read) done (chars ++ '"' :: rest) =
      scanFrom .gap (.string ((decode (read.reverse ++ pieces)).map String.ofList) :: done)
        rest := by
  induction h generalizing read with
  | nil =>
    have hstep : (Scan.string read).step '"' =
        some (.gap, [.string ((decode read.reverse).map String.ofList)]) := by simp [Scan.step]
    rw [List.nil_append, scanFrom_cons hstep, List.append_nil]
    rfl
  | @cons piece pieces chars tail first _ ih =>
    rw [List.append_assoc, scanFrom_piece first, ih (piece :: read), List.reverse_cons,
      List.append_assoc, List.singleton_append]

theorem start_of_step {c : Char} {part : NumberPart} (h : NumberPart.minus.step c = some part) :
    start c = some (.number part [c], []) := by
  have hspace : isSpace c = false := by
    cases hs : isSpace c with
    | false => rfl
    | true =>
      simp only [isSpace, Bool.or_eq_true, beq_iff_eq] at hs
      rcases hs with ((rfl | rfl) | rfl) | rfl <;> exact nomatch h
  rw [start, hspace, if_neg Bool.false_ne_true, h, Option.map_some]
  -- no other word starts with a digit
  all_goals
    rintro rfl
    exact nomatch h

/-- The scanner reads a word in any of its spellings. -/
theorem scanFrom_lexeme {lexeme : Lexeme} {chars : List Char} (h : lexeme.Spelled chars)
    {text : List Char} (apart : lexeme.isNumber = true → Apart text) (done : List Lexeme) :
    scanFrom .gap done (chars ++ text) = scanFrom .gap (lexeme :: done) text := by
  cases h with
  | openBrace | closeBrace | openBracket | closeBracket | colon | comma => rfl
  | null => exact scanFrom_word .null ['u', 'l', 'l'] done text
  | true => exact scanFrom_word .true ['r', 'u', 'e'] done text
  | false => exact scanFrom_word .false ['a', 'l', 's', 'e'] done text
  | number h =>
    cases chars with
    | nil => exact nomatch h
    | cons c chars =>
      obtain ⟨last, hlast, hend⟩ := (Option.any_eq_true _ _).mp h
      obtain ⟨part, hpart, hrun⟩ := Option.bind_eq_some_iff.mp hlast
      have hstep : Scan.gap.step c = some (.number part [c], []) := by
        rw [Scan.step]
        by_cases hc : c = '-'
        · subst hc
          obtain rfl : NumberPart.minus = part := Option.some.inj hpart
          rfl
        · rw [if_neg hc] at hpart
          exact start_of_step hpart
      rw [List.cons_append, scanFrom_cons hstep, List.reverse_nil, List.nil_append,
        scanFrom_number hrun hend (apart rfl)]
      rfl
  | @string pieces chars h =>
    have hstep : Scan.gap.step '"' = some (.string [], []) := rfl
    rw [List.cons_append, scanFrom_cons hstep, List.append_assoc, List.singleton_append,
      scanFrom_pieces h]
    rfl

theorem scanFrom_of_spells {text : List Char} {lexemes : List Lexeme} (h : Spells text lexemes)
    (done : List Lexeme) : scanFrom .gap done text = some (done.reverse ++ lexemes) := by
  induction h generalizing done with
  | nil => simp [scanFrom, Scan.finish]
  | @space c text lexemes h _ ih =>
    have hstep : Scan.gap.step c = some (.gap, []) := by simp [Scan.step, start, h]
    rw [scanFrom_cons hstep]
    exact ih done
  | @word lexeme chars text lexemes h apart _ ih =>
    rw [scanFrom_lexeme h apart, ih, List.reverse_cons, List.append_assoc, List.singleton_append]

/-- A text is read as the words that it spells. -/
theorem lexemes?_of_spells {text : String} {lexemes : List Lexeme}
    (h : Spells text.toList lexemes) : lexemes? text = some lexemes :=
  scanFrom_of_spells h []

end SourceTree.Json
