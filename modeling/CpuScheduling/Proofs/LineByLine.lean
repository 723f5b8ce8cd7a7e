import CpuScheduling.Proofs.LineGrammar
/-!
Texts line by line. A newline parts what stands before it from what stands behind it, a return
before it changes nothing, and each line that is not silent is a job or a skipped line.
-/
namespace CpuScheduling

namespace Text

/-- A text with a return before every newline. -/
def withReturns (text : List Char) : List Char :=
  text.flatMap fun c => if c = '\n' then ['\r', '\n'] else [c]

theorem withReturns_of_line {line : List Char} (inside : '\n' ∉ line) :
    withReturns line = line := by
  have kept : line.flatMap (fun c => if c = '\n' then ['\r', '\n'] else [c]) =
      line.flatMap fun c => [c] :=
    List.flatMap_congr fun c member => if_neg (ne_of_mem_of_not_mem member inside)
  rw [withReturns, kept, List.flatMap_singleton']

theorem withReturns_line_append {line : List Char} (inside : '\n' ∉ line) (rest : List Char) :
    withReturns (line ++ '\n' :: rest) = line ++ (['\r', '\n'] ++ withReturns rest) := by
  have parted : withReturns (line ++ '\n' :: rest) =
      withReturns line ++ (['\r', '\n'] ++ withReturns rest) := by
    simp only [withReturns, List.flatMap_append, List.flatMap_cons, if_true]
  rw [parted, withReturns_of_line inside]

/-- A text is a line without newline, or such a line, a newline and a text. -/
theorem line_induction {motive : List Char → Prop}
    (last : ∀ line : List Char, '\n' ∉ line → motive line)
    (newline : ∀ line rest : List Char, '\n' ∉ line → motive rest →
      motive (line ++ '\n' :: rest)) (text : List Char) : motive text := by
  by_cases inside : '\n' ∈ text
  · obtain ⟨line, rest, whole, before⟩ := List.eq_append_cons_of_mem inside
    have shorter : rest.length < text.length := by
      rw [whole, List.length_append, List.length_cons]
      omega
    rw [whole]
    exact newline line rest before (line_induction last newline rest)
  · exact last text inside
termination_by text.length

end Text

open Text (withReturns)

namespace Workload

theorem said_withReturns (text : List Char) : said (withReturns text) = said text := by
  induction text using Text.line_induction with
  | last line inside => rw [Text.withReturns_of_line inside]
  | newline line rest inside ih =>
    rw [Text.withReturns_line_append inside, said_line inside .returned, ih,
      ← said_line inside .newline]
    rfl

/-- Each line says one thing or is silent. -/
theorem length_filterMap_readLine (lines : List (List Char)) :
    (lines.filterMap readLine).length = lines.countP fun line => decide (¬ Silent line) := by
  rw [List.length_filterMap_eq_countP]
  refine List.countP_congr fun line _ => ?_
  rw [Option.isSome_iff_ne_none, ne_eq, readLine_eq_none_iff, decide_eq_true_eq]

/-- Each thing said is a job or skipped. -/
theorem length_jobs_add_skipped (text : List Char) :
    (ofText text).jobs.length + (ofText text).skipped = (said text).length := by
  rw [jobs_ofText, skipped_ofText, List.length_filterMap_eq_countP,
    List.length_eq_countP_add_countP (fun outcome : Except LineFault Job => outcome.isOk)]
  congr 1
  · refine List.countP_congr fun outcome _ => ?_
    cases outcome <;> rfl
  · refine List.countP_congr fun outcome _ => ?_
    simp

/-- A newline parts a text in two that are read one after the other, returns before newlines change
nothing, and every line that is not silent is a job or is skipped; lines may be counted by their
endings or as what stands between newlines. -/
theorem ofText_line_by_line (text rest : List Char) :
    (ofText (text ++ '\n' :: rest)).jobs = (ofText text).jobs ++ (ofText rest).jobs ∧
      (ofText (text ++ '\n' :: rest)).skipped = (ofText text).skipped + (ofText rest).skipped ∧
      (ofText (withReturns text)).jobs = (ofText text).jobs ∧
      (ofText (withReturns text)).skipped = (ofText text).skipped ∧
      (ofText text).jobs.length + (ofText text).skipped =
        (text.splitOn '\n').countP (fun line => decide (¬ Silent line)) ∧
      (ofText text).jobs.length + (ofText text).skipped =
        (Text.lines text).countP fun line => decide (¬ Silent line) := by
  have parted := said_append_newline text rest
  refine ⟨?_, ?_, ?_, ?_, ?_, ?_⟩
  · rw [jobs_ofText, parted, List.filterMap_append, ← jobs_ofText, ← jobs_ofText]
  · rw [skipped_ofText, parted, List.countP_append, ← skipped_ofText, ← skipped_ofText]
  · rw [jobs_ofText, said_withReturns, ← jobs_ofText]
  · rw [skipped_ofText, said_withReturns, ← skipped_ofText]
  · rw [length_jobs_add_skipped, ← length_filterMap_readLine]
    rfl
  · rw [length_jobs_add_skipped, ← length_filterMap_readLine, filterMap_readLine_lines]

/-- A return that ends no line is a blank among others. -/
example : (ofText "1 0\r2 \r\n\r3 1 4\r".toList).jobs = [⟨1, 0, 2, 0⟩, ⟨3, 1, 4, 0⟩] := by
  decide +kernel

end Workload
end CpuScheduling
