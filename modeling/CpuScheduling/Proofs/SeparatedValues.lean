import CpuScheduling.Proofs.Characters
/-!
Separated values. All fields that the statistics publish, and all their names, are free of commas,
quotes and line ends. So any writer that leaves such fields as they are writes the three datasets as
blocks of lines, which can be found again, each line with its fields.
-/
namespace CpuScheduling.Report
open Text (Lacks)

/-! What is asked of a writer. -/

/-- A field that needs no quotes. -/
structure Plain (field : String) : Prop where
  comma : Lacks ',' field
  quote : Lacks '"' field
  newline : Lacks '\n' field
  carriageReturn : Lacks '\r' field

/-- A record of two or more fields that need no quotes. -/
def Regular (fields : List String) : Prop := 1 < fields.length ∧ ∀ field ∈ fields, Plain field

instance (field : String) : Decidable (Plain field) :=
  decidable_of_iff (Lacks ',' field ∧ Lacks '"' field ∧ Lacks '\n' field ∧ Lacks '\r' field)
    ⟨fun ⟨comma, quote, newline, carriageReturn⟩ => ⟨comma, quote, newline, carriageReturn⟩,
      fun plain => ⟨plain.comma, plain.quote, plain.newline, plain.carriageReturn⟩⟩

instance (fields : List String) : Decidable (Regular fields) :=
  inferInstanceAs (Decidable (1 < fields.length ∧ ∀ field ∈ fields, Plain field))

/-- The fields of a record as they are, a comma between two. -/
def csvLine (fields : List String) : String := ",".intercalate fields

/-- What is asked of a writer: the names of the fields are a record before the first row, and a
record of fields that need no quotes has them as they are, and a newline behind. -/
structure CsvWriter.Lawful (w : CsvWriter) : Prop where
  text_eq : ∀ {names : List String} {rows : List (List String)}, rows ≠ [] →
    w.text names rows = String.join ((names :: rows).map w.record)
  record_eq : ∀ {fields : List String}, Regular fields → w.record fields = csvLine fields ++ "\n"

/-- Records of fields that need no quotes are lines. -/
theorem CsvWriter.Lawful.text_of_regular {w : CsvWriter} (lawful : w.Lawful) {names : List String}
    {rows : List (List String)} (some_row : rows ≠ [])
    (regular : ∀ record ∈ names :: rows, Regular record) :
    w.text names rows = Text.unlines ((names :: rows).map csvLine) := by
  have records : (names :: rows).map w.record = (names :: rows).map fun r => csvLine r ++ "\n" :=
    List.map_congr_left fun record member => lawful.record_eq (regular record member)
  rw [lawful.text_eq some_row, records, Text.unlines, List.map_map]
  rfl

theorem quotedField_of_plain {field : String} (plain : Plain field) :
    quotedField field = field := by
  refine if_neg fun reserved => ?_
  obtain ⟨c, inside, reserved⟩ := List.any_eq_true.1 reserved
  simp only [isReserved, List.contains_iff_mem, List.mem_cons, List.not_mem_nil,
    or_false] at reserved
  rcases reserved with rfl | rfl | rfl | rfl
  · exact plain.comma inside
  · exact plain.quote inside
  · exact plain.newline inside
  · exact plain.carriageReturn inside

theorem Regular.line_ne_empty {fields : List String} (regular : Regular fields) :
    csvLine fields ≠ "" := by
  obtain ⟨wide, -⟩ := regular
  match fields with
  | [] | [_] => simp at wide
  | a :: b :: rest =>
    rw [csvLine, String.intercalate_cons_cons]
    simp

theorem lawful_sparingWriter : sparingWriter.Lawful where
  text_eq some_row := if_neg some_row
  record_eq := by
    intro fields regular
    have kept : fields.map quotedField = fields := by
      rw [List.map_congr_left fun field member => quotedField_of_plain (regular.2 field member),
        List.map_id']
    show recordText fields = _
    rw [recordText, kept]
    exact congrArg (· ++ "\n") (if_neg regular.line_ne_empty)

/-! Fields. -/

theorem plain_of_numeric {field : String} (numeric : Text.Numeric field) : Plain field where
  comma := numeric.lacks (by decide)
  quote := numeric.lacks (by decide)
  newline := numeric.lacks (by decide)
  carriageReturn := numeric.lacks (by decide)

theorem plain_repr (n : Nat) : Plain n.repr := plain_of_numeric (Text.numeric_repr n)

theorem plain_intRepr (v : Int) : Plain v.repr := plain_of_numeric (Text.numeric_intRepr v)

theorem plain_fixed (x : Float) : Plain (Decimal.fixed places x) :=
  plain_of_numeric (Decimal.numeric_fixed _ _)

theorem plain_notApplicable : Plain notApplicable := by decide

theorem plain_timeField (time : Option Nat) : Plain (timeField time) := by
  cases time with
  | none => exact plain_notApplicable
  | some t => exact plain_repr t

theorem regular_processFields (p : ProcessStatistics) : Regular (processFields p) :=
  ⟨by simp [processFields], by simp [processFields, plain_repr, plain_intRepr, plain_timeField]⟩

theorem regular_cpuFields (c : CpuStatistics) : Regular (cpuFields c) :=
  ⟨by simp [cpuFields], by simp [cpuFields, plain_repr, plain_fixed]⟩

theorem regular_averageFields (a : Option Averages) : Regular (averageFields a) := by
  cases a with
  | none => decide
  | some a => exact ⟨by simp [averageFields], by simp [averageFields, plain_fixed]⟩

theorem forall_datasets {s : Statistics} {P : Dataset → Prop} : (∀ d ∈ datasets s, P d) ↔
    P (processDataset s) ∧ P (cpuDataset s) ∧ P (averageDataset s) := by
  rw [datasets, List.forall_mem_cons, List.forall_mem_cons, List.forall_mem_singleton]

theorem regular_dataset {names : List String} {α : Type} {row : α → List String} {l : List α}
    (header : Regular names) (each : ∀ a, Regular (row a)) :
    ∀ record ∈ names :: l.map row, Regular record := by
  rw [List.forall_mem_cons, List.forall_mem_map]
  exact ⟨header, fun a _ => each a⟩

/-- No field that is published needs quotes, and no name of one. -/
theorem regular_datasets (s : Statistics) :
    ∀ d ∈ datasets s, ∀ record ∈ d.names :: d.rows, Regular record := by
  simp only [forall_datasets, processDataset, cpuDataset, averageDataset]
  refine ⟨regular_dataset (by decide) regular_processFields,
    regular_dataset (by decide) regular_cpuFields, List.forall_mem_cons.2 ⟨by decide, ?_⟩⟩
  exact List.forall_mem_singleton.2 (regular_averageFields s.averages)

/-- The fields of a line are what stood between its commas. -/
theorem splitOn_csvLine {fields : List String} (regular : Regular fields) :
    (csvLine fields).toList.splitOn ',' = fields.map String.toList := by
  obtain ⟨wide, plain⟩ := regular
  have some_field : fields ≠ [] := List.ne_nil_of_length_pos (Nat.zero_lt_of_lt wide)
  have comma : ",".toList = [','] := rfl
  rw [csvLine, String.toList_intercalate, comma]
  refine List.splitOn_intercalate ',' ?_ (by simpa using some_field)
  rw [List.forall_mem_map]
  exact fun field member => (plain field member).comma

/-! Lines. -/

/-- A line that is neither empty nor broken. -/
def Solid (line : String) : Prop := line.toList ≠ [] ∧ Lacks '\n' line

instance (line : String) : Decidable (Solid line) := inferInstanceAs (Decidable (_ ∧ _))

theorem Regular.solid {fields : List String} (regular : Regular fields) :
    Solid (csvLine fields) :=
  ⟨mt String.toList_eq_nil_iff.1 regular.line_ne_empty,
    Text.lacks_intercalate (by decide) fun field member => (regular.2 field member).newline⟩

/-- The lines of a dataset that has rows: its title, the names of its fields, and its rows. -/
def Dataset.lines (d : Dataset) : List String := d.title :: (d.names :: d.rows).map csvLine

theorem solid_lines (s : Statistics) : ∀ d ∈ datasets s, ∀ line ∈ d.lines, Solid line := by
  have titles : ∀ d ∈ datasets s, Solid d.title :=
    forall_datasets.2 ⟨(by decide : Solid "Process Stats (CSV):"),
      (by decide : Solid "CPU Stats (CSV):"), (by decide : Solid "Average Stats (CSV):")⟩
  intro d member
  rw [Dataset.lines, List.forall_mem_cons, List.forall_mem_map]
  exact ⟨titles d member, fun fields inside => (regular_datasets s d member fields inside).solid⟩

theorem Dataset.text_eq {w : CsvWriter} (lawful : w.Lawful) {d : Dataset} (some_row : d.rows ≠ [])
    (regular : ∀ record ∈ d.names :: d.rows, Regular record) :
    d.text w = Text.unlines ("" :: d.lines) := by
  rw [Dataset.text, lawful.text_of_regular some_row regular, ← String.toList_inj, Dataset.lines,
    Text.toList_unlines_cons, Text.toList_unlines_cons]
  simp

theorem csvBy_eq {w : CsvWriter} (lawful : w.Lawful) {s : Statistics}
    (some_row : ∀ d ∈ datasets s, d.rows ≠ []) :
    csvBy w s = Text.unlines (((datasets s).map Dataset.lines).flatMap ("" :: ·)) := by
  have texts : (datasets s).map (·.text w) =
      (datasets s).map fun d => Text.unlines ("" :: d.lines) :=
    List.map_congr_left fun d member =>
      Dataset.text_eq lawful (some_row d member) (regular_datasets s d member)
  rw [csvBy, texts, Text.join_map_unlines, List.flatMap_map]

/-! Blocks of lines. -/

/-- Lines that no empty line parts. -/
def paragraphs (lines : List (List Char)) : List (List (List Char)) :=
  (lines.splitOnP (·.isEmpty)).filter fun lines => !lines.isEmpty

theorem splitOnP_isEmpty_append {block : List (List Char)}
    (full : ∀ line ∈ block, line.isEmpty = false) (rest : List (List Char)) :
    (block ++ [] :: rest).splitOnP (·.isEmpty) = block :: rest.splitOnP (·.isEmpty) :=
  List.splitOnP_append_cons_of_forall_mem full _ rfl rest

theorem splitOnP_isEmpty_cons (rest : List (List Char)) :
    ([] :: rest).splitOnP (·.isEmpty) = [] :: rest.splitOnP (·.isEmpty) :=
  have nothing : ∀ line ∈ ([] : List (List Char)), line.isEmpty = false := by simp
  splitOnP_isEmpty_append nothing rest

/-- Blocks of full lines, an empty line before each and one behind the last. -/
theorem splitOnP_isEmpty_flatMap {blocks : List (List (List Char))}
    (full : ∀ block ∈ blocks, ∀ line ∈ block, line.isEmpty = false) :
    (blocks.flatMap ([] :: ·) ++ [[]]).splitOnP (·.isEmpty) = [] :: (blocks ++ [[]]) := by
  induction blocks with
  | nil => rfl
  | cons block blocks ih =>
    obtain ⟨first, others⟩ := List.forall_mem_cons.1 full
    -- what follows the block begins with an empty line too
    obtain ⟨rest, follows⟩ : ∃ rest, blocks.flatMap ([] :: ·) ++ [[]] = [] :: rest := by
      cases blocks <;> exact ⟨_, rfl⟩
    have parted := ih others
    rw [follows, splitOnP_isEmpty_cons] at parted
    rw [List.flatMap_cons, List.append_assoc, follows, List.cons_append, splitOnP_isEmpty_cons,
      splitOnP_isEmpty_append first, (List.cons.inj parted).2, List.cons_append]

/-- Blocks of solid lines, an empty line before each, are found again. -/
theorem paragraphs_splitOn {blocks : List (List String)}
    (solid : ∀ block ∈ blocks, ∀ line ∈ block, Solid line) (filled : ∀ block ∈ blocks, block ≠ []) :
    paragraphs ((Text.unlines (blocks.flatMap ("" :: ·))).toList.splitOn '\n') =
      blocks.map (·.map String.toList) := by
  have unbroken : ∀ line ∈ blocks.flatMap ("" :: ·), Lacks '\n' line := by
    intro line member
    obtain ⟨block, inside, here⟩ := List.mem_flatMap.1 member
    rcases List.mem_cons.1 here with rfl | here
    · exact List.not_mem_nil
    · exact (solid block inside line here).2
  have lines : (blocks.flatMap ("" :: ·)).map String.toList =
      (blocks.map (·.map String.toList)).flatMap ([] :: ·) := by
    rw [List.map_flatMap, List.flatMap_map]
    rfl
  have full : ∀ block ∈ blocks.map (·.map String.toList), ∀ line ∈ block,
      line.isEmpty = false := by
    simp only [List.forall_mem_map]
    exact fun block inside line here => List.isEmpty_eq_false_iff.2 (solid block inside line here).1
  have kept : (blocks.map (·.map String.toList)).filter (fun lines => !lines.isEmpty) =
      blocks.map (·.map String.toList) := by
    refine List.filter_eq_self.2 ?_
    rw [List.forall_mem_map]
    intro block inside
    simpa using filled block inside
  rw [Text.splitOn_unlines unbroken, paragraphs, lines, splitOnP_isEmpty_flatMap full,
    List.filter_cons_of_neg (by simp), List.filter_append, kept]
  exact List.append_nil _

/-- The datasets are found again in the text of any lawful writer. -/
theorem paragraphs_csvBy {w : CsvWriter} (lawful : w.Lawful) {s : Statistics}
    (some_row : ∀ d ∈ datasets s, d.rows ≠ []) :
    paragraphs ((csvBy w s).toList.splitOn '\n') =
      (datasets s).map fun d => d.lines.map String.toList := by
  rw [csvBy_eq lawful some_row, paragraphs_splitOn, List.map_map]
  · rfl
  · rw [List.forall_mem_map]
    exact solid_lines s
  · rw [List.forall_mem_map]
    exact fun d _ => List.cons_ne_nil _ _

end CpuScheduling.Report
