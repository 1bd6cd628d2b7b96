import Mathlib.Data.List.Basic
import MonkeyLang.Eval.Fuel
import MonkeyLang.Proofs.Text.Encoding
import MonkeyLang.Repl.Basic

/-!
# Transcript — what the loop writes

Line by line the loop writes a prompt and a reply, and at its end a last prompt.  Everything that
is written behind a failure of the writer is lost, and nothing else is: the loop ends as if the
whole transcript had been offered to the writer in one piece (`converse_of_answers`).  So a writer
with limited room takes the front of what an unlimited one takes, to the last byte that fits.
-/

namespace MonkeyLang
namespace Repl

open Text

/-! ## Replies -/

/-- A prompt and a reply for every line that is answered. -/
def exchanges : List String → String
  | [] => ""
  | reply :: replies => prompt ++ reply ++ exchanges replies

/-- What the loop writes for the lines that it answers. -/
def transcript (replies : List String) : String :=
  exchanges replies ++ prompt

theorem exchanges_append (replies more : List String) :
    exchanges (replies ++ more) = exchanges replies ++ exchanges more := by
  induction replies with
  | nil => simp [exchanges]
  | cons reply replies ih => simp [exchanges, ih, String.append_assoc]

theorem transcript_append (replies more : List String) :
    transcript (replies ++ more) = exchanges replies ++ transcript more := by
  simp only [transcript, exchanges_append, String.append_assoc]

/-- The lines are answered in order, each with a reply, from the state `st` on. -/
inductive Answers (fuel : Nat) : State → List String → List String → State → Prop
  | nil {st : State} : Answers fuel st [] [] st
  | cons {st next last : State} {line reply : String} {lines replies : List String}
      (hSpeaks : trimmed line ≠ "")
      (hReply : answer fuel st (trimmed line) = some (.answer reply next))
      (hRest : Answers fuel next lines replies last) :
      Answers fuel st (line :: lines) (reply :: replies) last

/-- How the loop ends before it answers a further line: nothing is left of the input, or the next
line is empty up to line breaks, or it is no UTF-8. -/
inductive Stops : List (List UInt8) → Ending → Prop
  | endOfInput : Stops [] .finished
  | emptyLine {line : String} {rest : List (List UInt8)} (h : trimmed line = "") :
      Stops (bytes line :: rest) .finished
  | notUtf8 {line : List UInt8} {rest : List (List UInt8)}
      (h : String.fromUTF8? ⟨line.toArray⟩ = none) : Stops (line :: rest) .notUtf8

theorem Answers.append {fuel : Nat} {st next last : State}
    {lines lines' replies replies' : List String}
    (h : Answers fuel st lines replies next) (h' : Answers fuel next lines' replies' last) :
    Answers fuel st (lines ++ lines') (replies ++ replies') last := by
  induction h with
  | nil => exact h'
  | cons hSpeaks hReply _ ih => exact .cons hSpeaks hReply (ih h')

theorem Answers.of_append {fuel : Nat} {st last : State} {lines lines' replies : List String}
    (h : Answers fuel st (lines ++ lines') replies last) :
    ∃ next before after, replies = before ++ after ∧ Answers fuel st lines before next ∧
      Answers fuel next lines' after last := by
  induction lines generalizing st replies with
  | nil => exact ⟨st, [], replies, rfl, .nil, h⟩
  | cons line lines ih =>
      cases h with
      | cons hSpeaks hReply hRest =>
          rcases ih hRest with ⟨next, before, after, rfl, hBefore, hAfter⟩
          exact ⟨next, _, after, rfl, .cons hSpeaks hReply hBefore, hAfter⟩

theorem Answers.speaks {fuel : Nat} {st last : State} {lines replies : List String}
    (h : Answers fuel st lines replies last) : ∀ line ∈ lines, trimmed line ≠ "" := by
  induction h with
  | nil => exact List.forall_mem_nil _
  | cons hSpeaks _ _ ih => exact List.forall_mem_cons.2 ⟨hSpeaks, ih⟩

/-! ## One line -/

theorem turn_bytes (fuel : Nat) (st : State) (line : String) :
    turn fuel st (bytes line) =
      if trimmed line = "" then some .stop else answer fuel st (trimmed line) := by
  simp only [turn, fromUTF8?_bytes, String.isEmpty_iff]

theorem turn_of_none {fuel : Nat} {st : State} {line : List UInt8}
    (h : String.fromUTF8? ⟨line.toArray⟩ = none) : turn fuel st line = some .notUtf8 := by
  simp only [turn, h]

/-- A line that is not empty is answered, if its evaluation ends. -/
theorem exists_of_answer {fuel : Nat} {st : State} {source : String} {t : Turn}
    (h : answer fuel st source = some t) : ∃ reply next, t = .answer reply next := by
  unfold answer at h
  split at h
  · cases h
    exact ⟨_, _, rfl⟩
  · split at h
    · rcases Option.map_eq_some_iff.1 h with ⟨_, _, rfl⟩
      exact ⟨_, _, rfl⟩
    · rcases Option.map_eq_some_iff.1 h with ⟨_, _, rfl⟩
      exact ⟨_, _, rfl⟩

/-! ## More fuel -/

theorem answer_of_le {n m : Nat} (h : n ≤ m) {st : State} {source : String} {t : Turn}
    (hAnswer : answer n st source = some t) : answer m st source = some t := by
  unfold answer at hAnswer ⊢
  split at hAnswer
  · exact hAnswer
  · split at hAnswer
    · rcases Option.map_eq_some_iff.1 hAnswer with ⟨end_, hEval, rfl⟩
      rw [if_pos ‹_›, eval_of_le h hEval]
      rfl
    · rcases Option.map_eq_some_iff.1 hAnswer with ⟨result, hEval, rfl⟩
      rw [if_neg ‹_›, evalFresh_of_le h hEval]
      rfl

theorem Answers.of_le {n m : Nat} (h : n ≤ m) {st last : State} {lines replies : List String}
    (hAnswers : Answers n st lines replies last) : Answers m st lines replies last := by
  induction hAnswers with
  | nil => exact .nil
  | cons hSpeaks hReply _ ih => exact .cons hSpeaks (answer_of_le h hReply) ih

/-- The replies do not depend on the fuel, once it is enough for all of them. -/
theorem Answers.unique {n m : Nat} {st last last' : State} {lines replies replies' : List String}
    (h : Answers n st lines replies last) (h' : Answers m st lines replies' last') :
    replies = replies' ∧ last = last' := by
  replace h := h.of_le (Nat.le_max_left n m)
  replace h' := h'.of_le (Nat.le_max_right n m)
  induction h generalizing replies' last' with
  | nil =>
      cases h'
      exact ⟨rfl, rfl⟩
  | cons _ hReply _ ih =>
      cases h' with
      | cons _ hReply' hRest' =>
          rw [hReply] at hReply'
          cases hReply'
          rcases ih hRest' with ⟨rfl, rfl⟩
          exact ⟨rfl, rfl⟩

/-! ## Writing piece by piece -/

/-- Go on with a sink that took everything; the loop is over if it did not. -/
def onceWritten (written : Bool × Sink) (go : Sink → Option (Ending × Sink)) :
    Option (Ending × Sink) :=
  match written with
  | (true, out) => go out
  | (false, out) => some (.writerFailed, out)

theorem writeText_append (s t : String) (out : Sink) (go : Sink → Option (Ending × Sink)) :
    onceWritten (out.writeText (s ++ t)) go =
      onceWritten (out.writeText s) fun out => onceWritten (out.writeText t) go := by
  change onceWritten (out.write (bytes (s ++ t))) go =
    onceWritten (out.write (bytes s)) fun out => onceWritten (out.write (bytes t)) go
  rw [bytes_append, Sink.write_append]
  rcases out.write (bytes s) with ⟨_ | _, out⟩ <;> rfl

theorem converse_eq (fuel : Nat) (st : State) (ls : List (List UInt8)) (out : Sink) :
    converse fuel st ls out =
      onceWritten (out.writeText prompt) fun out =>
        match ls with
        | [] => some (.finished, out)
        | l :: ls =>
            match turn fuel st l with
            | none => none
            | some .stop => some (.finished, out)
            | some .notUtf8 => some (.notUtf8, out)
            | some (.answer reply next) =>
                onceWritten (out.writeText reply) fun out => converse fuel next ls out := by
  rw [converse.eq_def]
  rcases out.writeText prompt with ⟨_ | _, out⟩
  · rfl
  · cases ls with
    | nil => rfl
    | cons l ls =>
        simp only [onceWritten]
        rcases turn fuel st l with _ | ⟨_ | _ | _⟩
        · rfl
        · simp only
          rcases out.writeText _ with ⟨_ | _, out⟩ <;> rfl
        · rfl
        · rfl

theorem converse_of_reply {fuel : Nat} {st next : State} {line reply : String}
    {ls : List (List UInt8)} (hSpeaks : trimmed line ≠ "")
    (hReply : answer fuel st (trimmed line) = some (.answer reply next)) (out : Sink) :
    converse fuel st (bytes line :: ls) out =
      onceWritten (out.writeText (prompt ++ reply)) fun out => converse fuel next ls out := by
  rw [converse_eq, writeText_append]
  simp only [turn_bytes, if_neg hSpeaks, hReply]

theorem converse_of_stops {fuel : Nat} {rest : List (List UInt8)} {ending : Ending}
    (h : Stops rest ending) (st : State) (out : Sink) :
    converse fuel st rest out =
      onceWritten (out.writeText prompt) fun out => some (ending, out) := by
  rw [converse_eq]
  cases h with
  | endOfInput => rfl
  | emptyLine hEmpty => simp only [turn_bytes, if_pos hEmpty]
  | notUtf8 hNone => simp only [turn_of_none hNone]

/-! ## The whole loop -/

/-- The loop ends as if its transcript were offered to the sink in one piece. -/
theorem converse_of_answers {fuel : Nat} {st last : State} {lines replies : List String}
    {rest : List (List UInt8)} {ending : Ending} (h : Answers fuel st lines replies last)
    (hStops : Stops rest ending) (out : Sink) :
    converse fuel st (lines.map bytes ++ rest) out =
      onceWritten (out.writeText (transcript replies)) fun out => some (ending, out) := by
  induction h generalizing out with
  | nil =>
      rw [List.map_nil, List.nil_append, converse_of_stops hStops, transcript, exchanges,
        String.empty_append]
  | @cons st next last line reply lines replies hSpeaks hReply _ ih =>
      have hText : transcript (reply :: replies) = prompt ++ reply ++ transcript replies := by
        simp only [transcript, exchanges, String.append_assoc]
      rw [List.map_cons, List.cons_append, converse_of_reply hSpeaks hReply, hText,
        writeText_append (prompt ++ reply)]
      simp only [ih]

/-- If everything is taken, the loop comes to its end over the lines that it answers. -/
theorem exists_answers {fuel : Nat} {st : State} {ls : List (List UInt8)} {taken : List UInt8}
    {ending : Ending} {out : Sink} (h : converse fuel st ls ⟨taken, none⟩ = some (ending, out)) :
    ∃ lines replies last rest, ls = lines.map bytes ++ rest ∧
      Answers fuel st lines replies last ∧ Stops rest ending := by
  induction ls generalizing st taken with
  | nil =>
      rw [converse_of_stops .endOfInput] at h
      cases h
      exact ⟨[], [], st, [], rfl, .nil, .endOfInput⟩
  | cons l ls ih =>
      cases hText : String.fromUTF8? ⟨l.toArray⟩ with
      | none =>
          rw [converse_of_stops (.notUtf8 hText)] at h
          cases h
          exact ⟨[], [], st, l :: ls, rfl, .nil, .notUtf8 hText⟩
      | some line =>
          have hBytes := eq_bytes_of_fromUTF8? hText
          subst hBytes
          by_cases hEmpty : trimmed line = ""
          · rw [converse_of_stops (.emptyLine hEmpty)] at h
            cases h
            exact ⟨[], [], st, bytes line :: ls, rfl, .nil, .emptyLine hEmpty⟩
          · cases hAnswer : answer fuel st (trimmed line) with
            | none =>
                rw [converse_eq] at h
                simp [turn_bytes, hEmpty, hAnswer, onceWritten, Sink.writeText, Sink.write] at h
            | some t =>
                rcases exists_of_answer hAnswer with ⟨reply, next, rfl⟩
                rw [converse_of_reply hEmpty hAnswer] at h
                rcases ih h with ⟨lines, replies, last, rest, rfl, hAnswers, hStops⟩
                exact ⟨line :: lines, reply :: replies, last, rest, rfl,
                  .cons hEmpty hAnswer hAnswers, hStops⟩

theorem Stops.ne_writerFailed {rest : List (List UInt8)} {ending : Ending}
    (h : Stops rest ending) : ending ≠ .writerFailed := by
  cases h <;> nofun

/-- A loop whose writer takes everything ends over the lines that it answered, and every line
before one that is no UTF-8 is among them.  With less room the writer takes what fits of the same
bytes, and the loop fails exactly if there is too little of it. -/
theorem start_of_room {fuel : Nat} {persist : Bool} {input : List UInt8} {ending : Ending}
    {out : Sink} (h : start fuel persist input (Sink.ofRoom none) = some (ending, out)) :
    (∃ answered replies last rest, lines input = answered.map bytes ++ rest ∧
      Answers fuel (State.start persist) answered replies last ∧ Stops rest ending ∧
      out.taken = bytes (transcript replies)) ∧
    ∀ room, ∃ ending' out',
      start fuel persist input (Sink.ofRoom (some room)) = some (ending', out') ∧
      out'.taken = out.taken.take (min room out.taken.length) ∧
      (ending' = .writerFailed ↔ room < out.taken.length) ∧
      (¬ room < out.taken.length → ending' = ending) := by
  rcases exists_answers h with ⟨answered, replies, last, rest, hLines, hAnswers, hStops⟩
  have hConverse : ∀ sink, start fuel persist input sink =
      onceWritten (sink.writeText (transcript replies)) fun out => some (ending, out) := by
    intro sink
    rw [start, hLines]
    exact converse_of_answers hAnswers hStops sink
  have hOut : out.taken = bytes (transcript replies) := by
    rw [hConverse] at h
    cases h
    rfl
  refine ⟨⟨answered, replies, last, rest, hLines, hAnswers, hStops, hOut⟩, fun room => ?_⟩
  rw [hConverse, hOut]
  generalize transcript replies = text
  change ∃ ending' out', onceWritten ((Sink.ofRoom (some room)).write (bytes text))
    (fun out => some (ending, out)) = some (ending', out') ∧ _
  by_cases hFits : (bytes text).length ≤ room
  · have hWrite : (Sink.ofRoom (some room)).write (bytes text) =
        (true, ⟨bytes text, some (room - (bytes text).length)⟩) := by
      simp [Sink.write, Sink.ofRoom, hFits]
    have hMin : min room (bytes text).length = (bytes text).length := Nat.min_eq_right hFits
    rw [hWrite, hMin, List.take_length]
    refine ⟨ending, _, rfl, rfl, ?_, fun _ => rfl⟩
    exact ⟨fun hFailed => absurd hFailed hStops.ne_writerFailed, fun hLess => by omega⟩
  · have hWrite : (Sink.ofRoom (some room)).write (bytes text) =
        (false, ⟨(bytes text).take room, some 0⟩) := by
      simp [Sink.write, Sink.ofRoom, hFits]
    have hLess : room < (bytes text).length := Nat.lt_of_not_le hFits
    have hMin : min room (bytes text).length = room := Nat.min_eq_left (Nat.le_of_lt hLess)
    rw [hWrite, hMin]
    refine ⟨.writerFailed, _, rfl, rfl, ⟨fun _ => hLess, fun _ => rfl⟩, ?_⟩
    exact fun hNot => absurd hLess hNot

/-- A line with an answer, a line that is no UTF-8, and a line behind it; a writer with room for six
bytes is cut inside the second prompt. -/
theorem start_of_room_cut_prompt :
    start 9 true [49, 10, 255, 10, 50] (Sink.ofRoom none) =
        some (.notUtf8, ⟨bytes ">> 1\n>> ", none⟩) ∧
      ∃ ending out, start 9 true [49, 10, 255, 10, 50] (Sink.ofRoom (some 6)) = some (ending, out) ∧
        out.taken = bytes ">> 1\n>" ∧ ending = .writerFailed := by
  have hRun : start 9 true [49, 10, 255, 10, 50] (Sink.ofRoom none) =
      some (.notUtf8, ⟨bytes ">> 1\n>> ", none⟩) := by
    with_unfolding_all rfl
  rcases (start_of_room hRun).2 6 with ⟨ending, out, hShort, hTaken, hFails, -⟩
  refine ⟨hRun, ending, out, hShort, ?_, hFails.2 (by decide +kernel)⟩
  rw [hTaken]
  decide +kernel

end Repl
end MonkeyLang
