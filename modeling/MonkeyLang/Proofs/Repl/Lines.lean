import Mathlib.Data.List.Basic
import Mathlib.Data.List.TakeWhile
import MonkeyLang.Eval.Fuel
import MonkeyLang.Proofs.Repl.Transcript

/-!
# Lines — the loop over a text

A text is taken apart at its line feeds, and the loop answers the lines before the first one that
is empty.  Without persistence each answer depends on its line alone.  With it a line that has
syntax errors leaves the state of the loop as it was, so the other answers are the same with the
line and without.
-/

namespace MonkeyLang
namespace Repl

open Text

/-! ## A text by its lines -/

section Cutting

variable {α : Type}

/-- Put something before the first of several pieces; it is a piece of its own if there is
none. -/
def prepend (front : List α) : List (List α) → List (List α)
  | [] => [front]
  | piece :: pieces => (front ++ piece) :: pieces

theorem prepend_append (front more : List α) (pieces : List (List α)) :
    prepend (front ++ more) pieces = prepend front (prepend more pieces) := by
  cases pieces with
  | nil => rfl
  | cons piece pieces => simp [prepend]

theorem map_prepend {β : Type} (f : List α → List β)
    (hf : ∀ as as', f (as ++ as') = f as ++ f as') (front : List α) (pieces : List (List α)) :
    (prepend front pieces).map f = prepend (f front) (pieces.map f) := by
  cases pieces with
  | nil => rfl
  | cons piece pieces => simp [prepend, hf]

end Cutting

/-- The lines of a text, each with the line feed that ends it; the last may have none. -/
def cutLines : List Char → List (List Char)
  | [] => []
  | c :: cs => if c = '\n' then [c] :: cutLines cs else prepend [c] (cutLines cs)

def textLines (text : String) : List String :=
  (cutLines text.toList).map String.ofList

theorem lines_cons_of_ne {b : UInt8} (h : b ≠ 10) (bs : List UInt8) :
    lines (b :: bs) = prepend [b] (lines bs) := by
  rw [lines, if_neg h]
  cases lines bs <;> rfl

theorem lines_append_of_not_mem {front : List UInt8} (h : 10 ∉ front) (hNonempty : front ≠ [])
    (bs : List UInt8) : lines (front ++ bs) = prepend front (lines bs) := by
  induction front with
  | nil => exact absurd rfl hNonempty
  | cons b front ih =>
      have hb : b ≠ 10 := fun hEq => h (hEq ▸ List.mem_cons_self)
      have hFront : 10 ∉ front := fun hMem => h (List.mem_cons_of_mem b hMem)
      rw [List.cons_append, lines_cons_of_ne hb]
      by_cases hMore : front = []
      · rw [hMore, List.nil_append]
      · rw [ih hFront hMore, ← prepend_append, List.singleton_append]

theorem lines_flatMap (cs : List Char) :
    lines (cs.flatMap String.utf8EncodeChar) =
      (cutLines cs).map (List.flatMap String.utf8EncodeChar) := by
  induction cs with
  | nil => rfl
  | cons c cs ih =>
      rw [List.flatMap_cons, cutLines]
      by_cases hBreak : c = '\n'
      · subst hBreak
        have hByte : String.utf8EncodeChar '\n' = [10] := by decide
        rw [if_pos rfl, hByte, List.singleton_append, lines, if_pos rfl, ih, List.map_cons,
          List.flatMap_singleton, hByte]
      · have hNonempty : String.utf8EncodeChar c ≠ [] := String.utf8EncodeChar_ne_nil
        rw [if_neg hBreak, lines_append_of_not_mem (newline_not_mem hBreak) hNonempty, ih,
          map_prepend _ (fun _ _ => List.flatMap_append), List.flatMap_singleton]

/-- The lines of the bytes of a text are the bytes of its lines. -/
theorem lines_bytes (text : String) : lines (bytes text) = (textLines text).map bytes := by
  have hBytes : bytes ∘ String.ofList = List.flatMap String.utf8EncodeChar := by
    funext cs
    rw [Function.comp_apply, bytes_eq_flatMap, String.toList_ofList]
  rw [bytes_eq_flatMap, lines_flatMap, textLines, List.map_map, hBytes]

/-- The line is ended by a line feed and holds no other. -/
def Ended (line : String) : Prop :=
  ∃ front : String, '\n' ∉ front.toList ∧ line = front ++ "\n"

theorem cutLines_append {front : List Char} (h : '\n' ∉ front) (cs : List Char) :
    cutLines (front ++ '\n' :: cs) = (front ++ ['\n']) :: cutLines cs := by
  induction front with
  | nil => rw [List.nil_append, cutLines, if_pos rfl, List.nil_append]
  | cons c front ih =>
      have hc : c ≠ '\n' := fun hEq => h (hEq ▸ List.mem_cons_self)
      have hFront : '\n' ∉ front := fun hMem => h (List.mem_cons_of_mem c hMem)
      rw [List.cons_append, cutLines, if_neg hc, ih hFront]
      rfl

theorem cutLines_of_not_mem {cs : List Char} (h : '\n' ∉ cs) (hNonempty : cs ≠ []) :
    cutLines cs = [cs] := by
  induction cs with
  | nil => exact absurd rfl hNonempty
  | cons c cs ih =>
      have hc : c ≠ '\n' := fun hEq => h (hEq ▸ List.mem_cons_self)
      have hMore : '\n' ∉ cs := fun hMem => h (List.mem_cons_of_mem c hMem)
      rw [cutLines, if_neg hc]
      by_cases hEnd : cs = []
      · rw [hEnd]
        rfl
      · rw [ih hMore hEnd]
        rfl

theorem Ended.textLines_append {line : String} (h : Ended line) (rest : String) :
    textLines (line ++ rest) = line :: textLines rest := by
  rcases h with ⟨front, hFront, rfl⟩
  have hText : (front ++ "\n" ++ rest).toList = front.toList ++ '\n' :: rest.toList := by
    simp [String.toList_append]
  rw [textLines, hText, cutLines_append hFront, List.map_cons]
  congr 1
  rw [String.ofList_append, String.ofList_toList]

theorem textLines_join_append {ls : List String} (h : ∀ line ∈ ls, Ended line) (rest : String) :
    textLines (String.join ls ++ rest) = ls ++ textLines rest := by
  induction ls with
  | nil => simp [String.join]
  | cons line ls ih =>
      rw [List.forall_mem_cons] at h
      rw [String.join_cons, String.append_assoc, h.1.textLines_append, ih h.2, List.cons_append]

/-! ## The lines that are answered -/

/-- The lines of a text before the first one that is empty up to line breaks. -/
def spoken (input : String) : List String :=
  (textLines input).takeWhile (trimmed · ≠ "")

theorem Ended.spoken_append {line : String} (h : Ended line) (hSpeaks : trimmed line ≠ "")
    (rest : String) : spoken (line ++ rest) = line :: spoken rest := by
  rw [spoken, h.textLines_append, List.takeWhile_cons_of_pos (by simpa using hSpeaks)]
  rfl

theorem spoken_join_append {ls : List String}
    (h : ∀ line ∈ ls, Ended line ∧ trimmed line ≠ "") (rest : String) :
    spoken (String.join ls ++ rest) = ls ++ spoken rest := by
  rw [spoken, textLines_join_append fun line hMem => (h line hMem).1,
    List.takeWhile_append_of_pos fun line hMem => by simpa using (h line hMem).2]
  rfl

theorem spoken_of_not_mem {line : String} (h : '\n' ∉ line.toList) (hSpeaks : trimmed line ≠ "") :
    spoken line = [line] := by
  have hNonempty : line.toList ≠ [] := by
    intro hNil
    rw [String.toList_eq_nil_iff.1 hNil] at hSpeaks
    exact hSpeaks rfl
  have hLines : textLines line = [line] := by
    rw [textLines, cutLines_of_not_mem h hNonempty, List.map_singleton, String.ofList_toList]
  rw [spoken, hLines, List.takeWhile_cons_of_pos (by simpa using hSpeaks), List.takeWhile_nil]

theorem stops_dropWhile (ls : List String) :
    Stops ((ls.dropWhile (trimmed · ≠ "")).map bytes) .finished := by
  induction ls with
  | nil => exact .endOfInput
  | cons line ls ih =>
      by_cases hSpeaks : trimmed line = ""
      · rw [List.dropWhile_cons_of_neg (by simpa using hSpeaks)]
        exact .emptyLine hSpeaks
      · rw [List.dropWhile_cons_of_pos (by simpa using hSpeaks)]
        exact ih

/-- Where the loop stops in the lines of a text, the next line is empty. -/
theorem Stops.takeWhile_eq_nil {ls : List String} {ending : Ending}
    (h : Stops (ls.map bytes) ending) :
    ending = .finished ∧ ls.takeWhile (trimmed · ≠ "") = [] := by
  cases ls with
  | nil =>
      cases h
      exact ⟨rfl, rfl⟩
  | cons line ls =>
      generalize hBytes : (line :: ls).map bytes = rest at h
      cases h with
      | endOfInput => cases hBytes
      | @emptyLine line' rest hEmpty =>
          have hLine : line = line' := bytes_injective (List.cons.inj hBytes).1
          subst hLine
          exact ⟨rfl, List.takeWhile_cons_of_neg (by simpa using hEmpty)⟩
      | @notUtf8 line' rest hNone =>
          rw [← (List.cons.inj hBytes).1, fromUTF8?_bytes] at hNone
          cases hNone

/-- On a text the loop answers exactly the lines before the first empty one. -/
theorem start_eq_some_iff {fuel : Nat} {persist : Bool} {input : String} {ending : Ending}
    {out : Sink} :
    start fuel persist (bytes input) (Sink.ofRoom none) = some (ending, out) ↔
      ending = .finished ∧ ∃ replies last,
        Answers fuel (State.start persist) (spoken input) replies last ∧
        out = ⟨bytes (transcript replies), none⟩ := by
  rw [start, lines_bytes]
  constructor
  · intro h
    rcases exists_answers h with ⟨answered, replies, last, rest, hLines, hAnswers, hStops⟩
    have hConverse := converse_of_answers hAnswers hStops (Sink.ofRoom none)
    rw [← hLines, h] at hConverse
    cases hConverse
    rcases List.map_eq_append_iff.1 hLines with ⟨before, after, hCut, hBefore, rfl⟩
    have hEq : before = answered := List.map_injective_iff.2 (fun _ _ => bytes_injective) hBefore
    subst hEq
    rcases hStops.takeWhile_eq_nil with ⟨rfl, hNil⟩
    have hSpoken : spoken input = before := by
      rw [spoken, hCut, List.takeWhile_append_of_pos
        (fun line hMem => by simpa using hAnswers.speaks line hMem), hNil, List.append_nil]
    exact ⟨rfl, replies, last, hSpoken ▸ hAnswers, rfl⟩
  · rintro ⟨rfl, replies, last, hAnswers, rfl⟩
    have hLines : (textLines input).map bytes = (spoken input).map bytes ++
        ((textLines input).dropWhile (trimmed · ≠ "")).map bytes := by
      rw [spoken, ← List.map_append, List.takeWhile_append_dropWhile]
    rw [hLines, converse_of_answers hAnswers (stops_dropWhile _)]
    rfl

/-- The loop comes to the end of a text and has written `text` then. -/
def Writes (persist : Bool) (input text : String) : Prop :=
  ∃ fuel, start fuel persist (bytes input) (Sink.ofRoom none) =
    some (.finished, ⟨bytes text, none⟩)

theorem writes_iff {persist : Bool} {input text : String} :
    Writes persist input text ↔ ∃ fuel replies last,
      Answers fuel (State.start persist) (spoken input) replies last ∧
      text = transcript replies := by
  constructor
  · rintro ⟨fuel, h⟩
    rcases start_eq_some_iff.1 h with ⟨-, replies, last, hAnswers, hOut⟩
    exact ⟨fuel, replies, last, hAnswers, bytes_injective (congrArg Sink.taken hOut)⟩
  · rintro ⟨fuel, replies, last, hAnswers, rfl⟩
    exact ⟨fuel, start_eq_some_iff.2 ⟨rfl, replies, last, hAnswers, rfl⟩⟩

/-! ## Lines on their own -/

/-- The answer to a line in a scope of its own. -/
def lineReply (fuel : Nat) (line : String) : Option String :=
  match parse? (trimmed line) with
  | .error errors => some (parseAnswer errors)
  | .ok p => (evalFresh fuel p).map resultAnswer

/-- A loop that is not persistent answers each line on its own. -/
theorem answer_of_not_persist {st : State} (h : st.persist = false) (fuel : Nat) (line : String) :
    answer fuel st (trimmed line) = (lineReply fuel line).map fun reply => .answer reply st := by
  unfold answer lineReply
  cases parse? (trimmed line) with
  | error errors => rfl
  | ok p =>
      simp only [h, Bool.false_eq_true, if_false, Option.map_map]
      rfl

theorem lineReply_of_le {n m : Nat} (h : n ≤ m) {line reply : String}
    (hReply : lineReply n line = some reply) : lineReply m line = some reply := by
  unfold lineReply at hReply ⊢
  split at hReply
  · exact hReply
  · rcases Option.map_eq_some_iff.1 hReply with ⟨result, hEval, rfl⟩
    rw [evalFresh_of_le h hEval]
    rfl

/-- Evaluated on its own, the line has this answer. -/
def Replies (line reply : String) : Prop :=
  ∃ fuel, lineReply fuel line = some reply

theorem Answers.replies {fuel : Nat} {st last : State} {lines replies : List String}
    (h : Answers fuel st lines replies last) (hPersist : st.persist = false) :
    last = st ∧ List.Forall₂ Replies lines replies := by
  induction h with
  | nil => exact ⟨rfl, .nil⟩
  | cons _ hReply _ ih =>
      rw [answer_of_not_persist hPersist] at hReply
      rcases Option.map_eq_some_iff.1 hReply with ⟨reply, hLine, hTurn⟩
      cases hTurn
      rcases ih hPersist with ⟨rfl, hReplies⟩
      exact ⟨rfl, .cons ⟨_, hLine⟩ hReplies⟩

/-- Some fuel is enough for all lines, if each has an answer on its own. -/
theorem exists_answers_of_replies {st : State} (hPersist : st.persist = false)
    {lines replies : List String} (h : List.Forall₂ Replies lines replies)
    (hSpeaks : ∀ line ∈ lines, trimmed line ≠ "") : ∃ fuel, Answers fuel st lines replies st := by
  induction h with
  | nil => exact ⟨0, .nil⟩
  | @cons line reply lines replies hReply _ ih =>
      rw [List.forall_mem_cons] at hSpeaks
      rcases hReply with ⟨n, hLine⟩
      rcases ih hSpeaks.2 with ⟨m, hRest⟩
      have hAnswer : answer (max n m) st (trimmed line) = some (.answer reply st) := by
        rw [answer_of_not_persist hPersist, lineReply_of_le (Nat.le_max_left n m) hLine]
        rfl
      exact ⟨max n m, .cons hSpeaks.1 hAnswer (hRest.of_le (Nat.le_max_right n m))⟩

theorem writes_join_append {lines : List String} {rest text : String}
    (h : ∀ line ∈ lines, Ended line ∧ trimmed line ≠ "") :
    Writes false (String.join lines ++ rest) text ↔
      ∃ replies tail, List.Forall₂ Replies lines replies ∧ Writes false rest tail ∧
        text = exchanges replies ++ tail := by
  simp only [writes_iff, spoken_join_append h]
  constructor
  · rintro ⟨fuel, replies, last, hAnswers, rfl⟩
    rcases hAnswers.of_append with ⟨next, before, after, rfl, hBefore, hAfter⟩
    rcases hBefore.replies rfl with ⟨rfl, hReplies⟩
    exact ⟨before, transcript after, hReplies, ⟨fuel, after, last, hAfter, rfl⟩,
      transcript_append before after⟩
  · rintro ⟨replies, tail, hReplies, ⟨m, after, last, hAfter, rfl⟩, rfl⟩
    have hPersist : (State.start false).persist = false := rfl
    rcases exists_answers_of_replies hPersist hReplies (fun line hMem => (h line hMem).2) with
      ⟨n, hBefore⟩
    exact ⟨max n m, replies ++ after, last,
      (hBefore.of_le (Nat.le_max_left n m)).append (hAfter.of_le (Nat.le_max_right n m)),
      (transcript_append replies after).symm⟩

/-! ## Lines that do not parse -/

theorem answer_of_errors {line : String} {errors : List SyntaxError}
    (h : parse? (trimmed line) = .error errors) (fuel : Nat) (st : State) :
    answer fuel st (trimmed line) = some (.answer (parseAnswer errors) st) := by
  simp only [answer, h]

theorem trimmed_ne_of_errors {line : String} {errors : List SyntaxError}
    (h : parse? (trimmed line) = .error errors) : trimmed line ≠ "" := by
  intro hEmpty
  rw [hEmpty] at h
  have hParse : parse? "" = .ok ⟨[]⟩ := by with_unfolding_all rfl
  rw [hParse] at h
  cases h

/-- The answers with a line that leaves the state as it is are those without it and its own. -/
theorem answers_insert_iff {st last : State} {lines lines' replies : List String}
    {line reply : String} {fuel : Nat} (hSpeaks : trimmed line ≠ "")
    (hReply : ∀ st, answer fuel st (trimmed line) = some (.answer reply st)) :
    Answers fuel st (lines ++ line :: lines') replies last ↔
      ∃ next before after, replies = before ++ reply :: after ∧
        Answers fuel st lines before next ∧ Answers fuel next lines' after last := by
  constructor
  · intro h
    rcases h.of_append with ⟨next, before, after, rfl, hBefore, hAfter⟩
    cases hAfter with
    | cons _ hLine hRest =>
        rw [hReply] at hLine
        cases hLine
        exact ⟨next, before, _, rfl, hBefore, hRest⟩
  · rintro ⟨next, before, after, rfl, hBefore, hAfter⟩
    exact hBefore.append (.cons hSpeaks (hReply next) hAfter)

theorem transcript_insert (before after : List String) (reply : String) :
    transcript (before ++ reply :: after) =
      exchanges before ++ (prompt ++ reply ++ transcript after) := by
  rw [transcript_append]
  simp only [transcript, exchanges, String.append_assoc]

/-- The loop writes a prompt and an answer for every line of a text before the first empty one, and
one prompt more.  Without persistence the answer to a line is that to the line alone, wherever it
stands.  With it a line that has syntax errors keeps the state, and what is written with the line is
what is written without it and, in its place, a prompt and the errors. -/
theorem writes_by_lines :
    (∀ (fuel : Nat) (persist : Bool) (input : String) (ending : Ending) (out : Sink),
      start fuel persist (bytes input) (Sink.ofRoom none) = some (ending, out) ↔
        ending = .finished ∧ ∃ replies last,
          Answers fuel (State.start persist) (spoken input) replies last ∧
          out = ⟨bytes (transcript replies), none⟩) ∧
    (∀ (lines : List String) (rest text : String),
      (∀ line ∈ lines, Ended line ∧ trimmed line ≠ "") →
        (Writes false (String.join lines ++ rest) text ↔
          ∃ replies tail, List.Forall₂ Replies lines replies ∧ Writes false rest tail ∧
            text = exchanges replies ++ tail)) ∧
    ∀ (lines : List String) (line rest text : String) (errors : List SyntaxError),
      (∀ line ∈ lines, Ended line ∧ trimmed line ≠ "") →
      parse? (trimmed line) = .error errors →
      (Ended line ∨ '\n' ∉ line.toList ∧ rest = "") →
        (∀ fuel st, answer fuel st (trimmed line) = some (.answer (parseAnswer errors) st)) ∧
        (Writes true (String.join lines ++ (line ++ rest)) text ↔
          ∃ fuel replies next tail, Answers fuel (State.start true) lines replies next ∧
            text = exchanges replies ++ (prompt ++ parseAnswer errors ++ tail) ∧
            Writes true (String.join lines ++ rest) (exchanges replies ++ tail)) := by
  refine ⟨fun _ _ _ _ _ => start_eq_some_iff, fun _ _ _ h => writes_join_append h, ?_⟩
  intro lines line rest text errors hLines hErrors hLine
  refine ⟨answer_of_errors hErrors, ?_⟩
  have hSpeaks := trimmed_ne_of_errors hErrors
  have hSpoken : spoken (line ++ rest) = line :: spoken rest := by
    rcases hLine with hEnded | ⟨hOpen, rfl⟩
    · exact hEnded.spoken_append hSpeaks rest
    · rw [String.append_empty, spoken_of_not_mem hOpen hSpeaks]
      rfl
  simp only [writes_iff, spoken_join_append hLines, hSpoken,
    answers_insert_iff hSpeaks (answer_of_errors hErrors _)]
  constructor
  · rintro ⟨fuel, _, last, ⟨next, before, after, rfl, hBefore, hAfter⟩, rfl⟩
    exact ⟨fuel, before, next, transcript after, hBefore, transcript_insert before after _,
      fuel, before ++ after, last, hBefore.append hAfter, (transcript_append before after).symm⟩
  · rintro ⟨n, before, next, tail, hBefore, rfl, m, replies, last, hAnswers, hText⟩
    rcases hAnswers.of_append with ⟨next', before', after, rfl, hBefore', hAfter⟩
    rcases hBefore.unique hBefore' with ⟨rfl, rfl⟩
    rw [transcript_append, String.append_right_inj] at hText
    exact ⟨m, _, last, ⟨next, before, after, rfl, hBefore', hAfter⟩, by
      rw [hText, transcript_insert]⟩

/-- A line that ends in a carriage return and a line feed, before a last line with no line feed, and
a closing bracket alone between a binding and its use. -/
theorem writes_by_lines_sample :
    Writes false "1\r\n2" ">> 1\n>> 2\n>> " ∧
    ∃ errors, parse? ")" = .error errors ∧
      Writes true "let a = 2;\n)\r\na"
        (">> 2\n" ++ (prompt ++ parseAnswer errors ++ ">> 2\n>> ")) := by
  constructor
  · have hLines : ∀ line ∈ ["1\r\n"], Ended line ∧ trimmed line ≠ "" := by
      rw [List.forall_mem_singleton]
      exact ⟨⟨"1\r", by decide, rfl⟩, by decide⟩
    have hReply : Replies "1\r\n" "1\n" := ⟨9, by with_unfolding_all rfl⟩
    have hRest : Writes false "2" ">> 2\n>> " := ⟨9, by with_unfolding_all rfl⟩
    exact (writes_by_lines.2.1 ["1\r\n"] "2" _ hLines).2
      ⟨["1\n"], ">> 2\n>> ", .cons hReply .nil, hRest, by decide⟩
  · have hLines : ∀ line ∈ ["let a = 2;\n"], Ended line ∧ trimmed line ≠ "" := by
      rw [List.forall_mem_singleton]
      exact ⟨⟨"let a = 2;", by decide, rfl⟩, by decide⟩
    have hTrimmed : trimmed ")\r\n" = ")" := by decide
    have hErrors : ∃ errors, parse? ")" = .error errors := ⟨_, by with_unfolding_all rfl⟩
    rcases hErrors with ⟨errors, hErrors⟩
    have hBind : ∃ next, Answers 9 (State.start true) ["let a = 2;\n"] ["2\n"] next :=
      ⟨_, .cons (by decide) (by with_unfolding_all rfl) .nil⟩
    have hRest : Writes true "let a = 2;\na" ">> 2\n>> 2\n>> " := ⟨9, by with_unfolding_all rfl⟩
    have hFirst : exchanges ["2\n"] = ">> 2\n" := by decide
    rcases hBind with ⟨next, hBind⟩
    exact ⟨errors, hErrors, (writes_by_lines.2.2 ["let a = 2;\n"] ")\r\n" "a" _ errors hLines
      (hTrimmed ▸ hErrors) (.inl ⟨")\r", by decide, rfl⟩)).2.2
      ⟨9, ["2\n"], next, ">> 2\n>> ", hBind, by rw [hFirst], hRest⟩⟩

end Repl
end MonkeyLang
