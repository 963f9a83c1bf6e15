import Lox.CommandLine
import Lox.Proofs.Execution.EchoedLine
import Lox.Proofs.Lexical.Faults

/-!
# Sessions of piped lines

A session reads its input in lines, which are what stands between line feeds (`textLines`), and it
runs the lines before the first one that ends it (`linesTaken`). Each line is answered with a new
state and with reports, and `answers` does so for one line after the other.

A line of white space is skipped. If it is blank, that is only a shortcut, because such a line is a
program without statements (`run_blank_line`). But there is white space that separates no lexemes.
A line of white space with some of that would be rejected, with an error for each such character
(`run_strange_line`), and so skipping it is more than a shortcut (`no_break_space_is_skipped`).

`session_answers_lines` says that a session answers all lines but those.
-/

set_option autoImplicit false
set_option relaxedAutoImplicit false

namespace Lox

/-- A line without the carriage return before its line feed. -/
def withoutReturn (line : List UInt8) : List UInt8 :=
  if line.getLast? = some 13 then line.dropLast else line

/-- What stands before each line feed, and what stands behind the last one unless it is nothing. -/
def bytesBetweenFeeds (bytes : List UInt8) : List (List UInt8) :=
  let pieces := bytes.splitOn 10
  pieces.dropLast.map withoutReturn ++ pieces.getLast?.toList.filter (!·.isEmpty)

/-- The lines of some bytes, and `none` for a line that is not the UTF-8 form of a text. -/
def textLines (bytes : ByteArray) : List (Option String) :=
  (bytesBetweenFeeds bytes.toList).map fun line ↦ String.fromUTF8? line.toByteArray

theorem withoutReturn_reverse (start : List UInt8) :
    withoutReturn start.reverse
      = (if start.head? = some 13 then start.tail else start).reverse := by
  rw [withoutReturn, List.getLast?_reverse]
  split
  · rw [List.dropLast_reverse]
  · rfl

theorem linesAfter_eq (start bytes : List UInt8) :
    linesAfter start bytes =
      let pieces := (bytes.splitOn 10).modifyHead (start.reverse ++ ·)
      pieces.dropLast.map withoutReturn ++ pieces.getLast?.toList.filter (!·.isEmpty) := by
  induction bytes generalizing start with
  | nil =>
    cases start with
    | nil => rfl
    | cons byte start => simp [linesAfter]
  | cons byte others ih =>
    obtain ⟨piece, pieces, hpieces⟩ :=
      List.exists_cons_of_ne_nil (List.splitOn_ne_nil (10 : UInt8) others)
    rw [linesAfter, List.splitOn_cons_eq_if_modifyHead]
    by_cases hfeed : byte = 10
    · rw [if_pos hfeed, if_pos (beq_iff_eq.mpr hfeed), ih, hpieces]
      simp [withoutReturn_reverse]
    · rw [if_neg hfeed, if_neg (mt beq_iff_eq.mp hfeed), ih, hpieces]
      simp

theorem linesOfBytes_eq_textLines (bytes : ByteArray) : linesOfBytes bytes = textLines bytes := by
  rw [linesOfBytes, linesAfter_eq, textLines, bytesBetweenFeeds]
  obtain ⟨piece, pieces, hpieces⟩ :=
    List.exists_cons_of_ne_nil (List.splitOn_ne_nil (10 : UInt8) bytes.toList)
  rw [hpieces]
  rfl

/-- The state after a line and the reports about it, unless the bound is exhausted. -/
def answer (bound : Nat) (line : String) (interpreter : Interpreter) :
    Option (Interpreter × List Report) :=
  match (runLine bound line).run interpreter with
  | .done _ next => some (next, [])
  | .failed error next => some (next, Report.ofSourceError error)
  | .exhausted => none

/-- The state after some lines, one after the other, and all reports about them in order. -/
def answers (bound : Nat) : List String → Interpreter → Option (Interpreter × List Report)
  | [], interpreter => some (interpreter, [])
  | line :: others, interpreter =>
    match answer bound line interpreter with
    | some (next, reports) =>
      (answers bound others next).map fun (final, more) ↦ (final, reports ++ more)
    | none => none

/-- Whether a session goes on with a line: it does unless the line is no text or says that the
session is over. -/
def goesOn : Option String → Bool
  | some line => !isFarewell line
  | none => false

/-- The lines before the first one that ends a session. -/
def linesTaken (lines : List (Option String)) : List String :=
  (lines.takeWhile goesOn).reduceOption

/-- What comes out of a session that was ended by the first line for which it does not go on. Only a
line that is no text makes it fail. -/
def transcriptOf (lines : List (Option String)) : Interpreter × List Report → Transcript
  | (final, reports) =>
    match lines.find? (!goesOn ·) with
    | some none => ⟨66, final.output, reports ++ [.failedInput Report.invalidText]⟩
    | _ => ⟨0, final.output, reports⟩

/-- A line of white space that is skipped although some of its characters separate no lexemes. -/
def isStrange (line : String) : Bool := trimmed line = "" && !line.toList.all isBlank

/-! ### White space -/

/-- If trimming leaves nothing of a line, then it has nothing but white space: what is left without
that at the start would begin with something else. -/
theorem isWhiteSpace_of_trimmed_eq {line : String} (hline : trimmed line = "") :
    ∀ character ∈ line.toList, isWhiteSpace character := by
  simp only [trimmed, ← String.ofList_nil, String.ofList_inj, List.reverse_eq_nil_iff,
    List.dropWhile_eq_nil_iff, List.mem_reverse] at hline
  cases hstart : line.toList.dropWhile isWhiteSpace with
  | nil => exact List.dropWhile_eq_nil_iff.mp hstart
  | cons first tail =>
    have hfirst := List.head_dropWhile_not isWhiteSpace (l := line.toList) (by simp [hstart])
    simp only [hstart, List.head_cons] at hfirst
    rw [hstart] at hline
    cases hfirst.symm.trans (hline first List.mem_cons_self)

/-- The codes of all white space. -/
def whiteSpaceCodes : List Nat :=
  List.range' 0x09 5 ++ List.range' 0x2000 11
    ++ [0x20, 0x85, 0xA0, 0x1680, 0x2028, 0x2029, 0x202F, 0x205F, 0x3000]

theorem mem_whiteSpaceCodes {character : Char} (hspace : isWhiteSpace character) :
    character.toNat ∈ whiteSpaceCodes := by
  simp only [isWhiteSpace, Bool.or_eq_true, Bool.and_eq_true, decide_eq_true_eq,
    List.contains_iff_mem] at hspace
  simp only [whiteSpaceCodes, List.mem_append, List.mem_range'_1]
  rcases hspace with (⟨hfrom, hto⟩ | ⟨hfrom, hto⟩) | hmem
  · exact .inl (.inl ⟨hfrom, by omega⟩)
  · exact .inl (.inr ⟨hfrom, by omega⟩)
  · exact .inr hmem

/-- White space stands in no lexeme and opens no comment. -/
theorem startsLexeme_of_isWhiteSpace {character : Char} (hspace : isWhiteSpace character) :
    startsLexeme character = false := by
  have hcodes : ∀ code ∈ whiteSpaceCodes, startsLexeme (Char.ofNat code) = false := by decide
  have hcharacter := hcodes _ (mem_whiteSpaceCodes hspace)
  rwa [Char.ofNat_toNat] at hcharacter

/-- A text of white space is wrong where it is not blank, and nowhere else. -/
theorem cause_faults_white_space {text : List Char}
    (htext : ∀ character ∈ text, isWhiteSpace character) (offset : Nat) :
    (Region.code.faults offset text).map SyntaxError.cause
      = (text.filter (!isBlank ·)).map .unexpectedCharacter := by
  induction text generalizing offset with
  | nil => rfl
  | cons first text ih =>
    obtain ⟨hfirst, htext⟩ := List.forall_mem_cons.mp htext
    have hstarts := startsLexeme_of_isWhiteSpace hfirst
    have hquote : first ≠ '"' := by
      rintro rfl
      cases hstarts
    have hslash : first ≠ '/' := by
      rintro rfl
      cases hstarts
    cases hblank : isBlank first with
    | true =>
      have hgap : Gap text [first] := .blank hblank .nil
      rw [← List.singleton_append, Region.faults_gap hgap, ih htext]
      simp [hblank]
    | false =>
      rw [Region.faults_stray hquote (fun hboth ↦ hslash hboth.1) hblank hstarts, List.map_cons,
        ih htext]
      simp [hblank]

theorem gap_of_all_isBlank {text : List Char} (hblank : text.all isBlank = true) : Gap [] text := by
  induction text with
  | nil => exact .nil
  | cons first text ih =>
    obtain ⟨hfirst, htext⟩ := Bool.and_eq_true_iff.mp hblank
    exact .blank hfirst (ih htext)

/-- A blank line is a program without statements. -/
theorem ofSource_of_all_isBlank {line : String} (hblank : line.toList.all isBlank = true) :
    Program.ofSource line = .ok [] := by
  have hdecomposes : Decomposes true 0 line.toList _ := .finish (gap_of_all_isBlank hblank)
  have htokens : Token.ofSource line = .ok ([] ++ [_]) :=
    ofSource_eq_ok_iff_decomposes.mpr hdecomposes
  have hnone : Grammar.Program true [] [] := ⟨[], by simp, rfl, rfl⟩
  obtain ⟨program, hprogram, htrees⟩ := exists_ofSource_of_program htokens hnone
  rw [Stmt.eraseSpansAll_eq_map, List.map_eq_nil_iff] at htrees
  rw [hprogram, htrees]

/-- A blank line does nothing. -/
theorem run_blank_line {line : String} (hblank : line.toList.all isBlank = true) (bound : Nat)
    (interpreter : Interpreter) :
    (runLine (bound + 1) line).run interpreter = .done () interpreter := by
  rw [runLine, Program.ofLine, ofSource_of_all_isBlank hblank]
  rfl

/-- A line that is wrong somewhere cannot be made a program by a semicolon behind it. -/
theorem ofLine_of_faults {line : String} (hne : Region.code.faults 0 line.toList ≠ []) :
    Program.ofLine line = .error (Region.code.faults 0 line.toList) := by
  have htokens := ofSource_eq_error_iff.mpr ⟨rfl, hne⟩
  have hrejected : Program.ofSource line = .error (Region.code.faults 0 line.toList) := by
    rw [Program.ofSource, htokens]
    rfl
  refine ofLine_of_rejected hrejected (.inr ?_)
  rintro ⟨tree, lexemes, stop, hread, -⟩
  cases htokens.symm.trans hread

/-- A line of white space that is not blank is rejected for each character that is not, and nothing
is run. -/
theorem run_strange_line {line : String} (hstrange : isStrange line = true) :
    ∃ errors, errors ≠ [] ∧ errors.map SyntaxError.cause
        = (line.toList.filter (!isBlank ·)).map .unexpectedCharacter ∧
      ∀ bound interpreter,
        (runLine bound line).run interpreter = .failed (.unreadable errors) interpreter := by
  obtain ⟨htrimmed, hsome⟩ := Bool.and_eq_true_iff.mp hstrange
  have hspace := isWhiteSpace_of_trimmed_eq (of_decide_eq_true htrimmed)
  have hcauses := cause_faults_white_space hspace 0
  have hne : Region.code.faults 0 line.toList ≠ [] := by
    intro hnil
    rw [hnil] at hcauses
    have hnone := List.filter_eq_nil_iff.mp (List.map_eq_nil_iff.mp hcauses.symm)
    have hall : line.toList.all isBlank = true := List.all_eq_true.mpr (by simpa using hnone)
    rw [hall] at hsome
    cases hsome
  refine ⟨_, hne, hcauses, fun bound interpreter ↦ ?_⟩
  rw [runLine, ofLine_of_faults hne]
  rfl

/-! ### Sessions -/

theorem answer_blank_line {line : String} (hblank : line.toList.all isBlank = true) (bound : Nat)
    (interpreter : Interpreter) : answer (bound + 1) line interpreter = some (interpreter, []) := by
  rw [answer, run_blank_line hblank]

/-- The lines of a session that is not over. -/
theorem linesTaken_cons {line : String} (hgoes : goesOn (some line) = true)
    (others : List (Option String)) :
    linesTaken (some line :: others) = line :: linesTaken others := by
  rw [linesTaken, List.takeWhile_cons_of_pos hgoes]
  rfl

theorem transcriptOf_cons {line : Option String} (hgoes : goesOn line = true)
    (others : List (Option String)) : transcriptOf (line :: others) = transcriptOf others := by
  funext ⟨final, reports⟩
  rw [transcriptOf, List.find?_cons_of_neg (by simp [hgoes]), transcriptOf]

theorem precededBy_transcriptOf (lines : List (Option String)) (reports : List Report)
    (session : Interpreter × List Report) : (transcriptOf lines session).precededBy reports
      = transcriptOf lines (session.1, reports ++ session.2) := by
  simp only [transcriptOf]
  split <;> simp [Transcript.precededBy]

/-- A session answers its lines, but for the strange ones. -/
theorem runLines_eq_answers (bound : Nat) (lines : List (Option String))
    (interpreter : Interpreter) : runLines (bound + 1) interpreter lines
      = (answers (bound + 1) ((linesTaken lines).filter (!isStrange ·)) interpreter).map
          (transcriptOf lines) := by
  induction lines generalizing interpreter with
  | nil => rfl
  | cons line others ih =>
    cases line with
    | none => rfl
    | some line =>
      cases hgoes : goesOn (some line) with
      | false =>
        have hfarewell : isFarewell line = true := by simpa [goesOn] using hgoes
        have hnone : linesTaken (some line :: others) = [] := by
          rw [linesTaken, List.takeWhile_cons_of_neg (by simp [hgoes])]
          rfl
        rw [runLines, if_pos hfarewell, hnone]
        simp [answers, transcriptOf, hgoes]
      | true =>
        have hfarewell : ¬ isFarewell line = true := by simpa [goesOn] using hgoes
        rw [runLines, if_neg hfarewell, linesTaken_cons hgoes, transcriptOf_cons hgoes]
        by_cases htrimmed : trimmed line = ""
        · rw [if_pos htrimmed, ih]
          cases hstrange : isStrange line with
          | true => rw [List.filter_cons_of_neg (by simp [hstrange])]
          | false =>
            have hblank : line.toList.all isBlank = true := by
              simpa [isStrange, htrimmed] using hstrange
            rw [List.filter_cons_of_pos (by simp [hstrange]), answers, answer_blank_line hblank]
            simp
        · have hstrange : isStrange line = false := by simp [isStrange, htrimmed]
          rw [if_neg htrimmed, List.filter_cons_of_pos (by simp [hstrange]), answers, answer]
          cases (runLine (bound + 1) line).run interpreter with
          | done => simp [ih]
          | failed error next => simp [ih, Function.comp_def, precededBy_transcriptOf]
          | exhausted => rfl

/-- A session answers the lines before the first one that ends it, one after the other, but for the
strange ones. The other lines of white space would do nothing, while the strange ones would be
rejected and do nothing besides. -/
theorem session_answers_lines (bound : Nat) (now : Instant)
    (read : String → Except String ByteArray) (input : ByteArray) :
    (Command.session.perform (bound + 1) now read input
      = (answers (bound + 1) ((linesTaken (textLines input)).filter (!isStrange ·))
          (.standard now)).map (transcriptOf (textLines input))) ∧
    ∀ line, trimmed line = "" →
      (isStrange line = false → ∀ bound interpreter,
        (runLine (bound + 1) line).run interpreter = .done () interpreter) ∧
      (isStrange line = true → ∃ errors, errors ≠ [] ∧ errors.map SyntaxError.cause
          = (line.toList.filter (!isBlank ·)).map .unexpectedCharacter ∧
        ∀ bound interpreter,
          (runLine bound line).run interpreter = .failed (.unreadable errors) interpreter) := by
  refine ⟨?_, fun line htrimmed ↦ ⟨fun hplain ↦ ?_, run_strange_line⟩⟩
  · rw [Command.perform, linesOfBytes_eq_textLines, runLines_eq_answers]
  · have hblank : line.toList.all isBlank = true := by simpa [isStrange, htrimmed] using hplain
    exact run_blank_line hblank

/-- A no-break space is skipped as white space, while as a line it is rejected, because it separates
no lexemes. -/
theorem no_break_space_is_skipped :
    let line := "\u00a0"
    let error : SyntaxError := ⟨.unexpectedCharacter '\u00a0', ⟨0, 2⟩⟩
    linesTaken (textLines line.toUTF8) = [line] ∧ trimmed line = "" ∧
      ∀ bound now read,
        Command.session.perform (bound + 1) now read line.toUTF8 = some ⟨0, "", []⟩ ∧
        (answers (bound + 1) [line] (.standard now)).map (transcriptOf (textLines line.toUTF8))
          = some ⟨0, "", [.syntaxError (.ofError error)]⟩ ∧
        ∀ interpreter, (runLine (bound + 1) line).run interpreter
          = .failed (.unreadable [error]) interpreter := by
  intro line error
  have hlines : textLines line.toUTF8 = [some line] := by decide +kernel
  have htrimmed : trimmed line = "" := by decide +kernel
  have hgoes : goesOn (some line) = true := by decide +kernel
  have hfaults : Region.code.faults 0 line.toList = [error] := by decide +kernel
  have hread : Program.ofLine line = .error [error] := by
    rw [ofLine_of_faults (by simp [hfaults]), hfaults]
  have hrun (bound : Nat) (interpreter : Interpreter) :
      (runLine bound line).run interpreter = .failed (.unreadable [error]) interpreter := by
    rw [runLine, hread]
    rfl
  refine ⟨by rw [hlines, linesTaken_cons hgoes]; rfl, htrimmed, fun bound now read ↦
    ⟨?_, ?_, hrun _⟩⟩
  · have hfarewell : ¬ isFarewell line = true := by simpa [goesOn] using hgoes
    rw [Command.perform, linesOfBytes_eq_textLines, hlines, runLines, if_neg hfarewell,
      if_pos htrimmed]
    rfl
  · rw [hlines, transcriptOf_cons hgoes, answers, answer, hrun]
    rfl

end Lox
