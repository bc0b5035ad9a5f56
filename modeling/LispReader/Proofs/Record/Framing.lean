import LispReader.Proofs.Host.World
import LispReader.Proofs.Record.Lines

/-!
Lines of an output. A line that is written for a value has no line break in it, of whatever kind, so
the output falls apart into the lines that were put there, one for each value. If one value cannot
be written, nothing is put there.
-/

namespace LispReader

namespace Text

/-- The lines of a text. A line break ends a line, and so does a carriage return together with the
line feed behind it. What stands behind the last line break is a line if there is anything. -/
def splitLines : List Char → List (List Char)
  | [] => []
  | '\r' :: '\n' :: rest => [] :: splitLines rest
  | c :: rest =>
    if isLineBreak c then [] :: splitLines rest
    else
      match splitLines rest with
      | [] => [[c]]
      | line :: others => (c :: line) :: others

theorem splitLines_cons {c : Char} (h : isLineBreak c = false) {rest line : List Char}
    {others : List (List Char)} (hRest : splitLines rest = line :: others) :
    splitLines (c :: rest) = (c :: line) :: others := by
  rw [splitLines.eq_def]
  split
  · next hText => cases hText
  · next hText =>
      obtain ⟨rfl, -⟩ := List.cons.inj hText
      cases h
  · next hText =>
      obtain ⟨rfl, rfl⟩ := List.cons.inj hText
      simp [h, hRest]

/-- A text without line breaks is a line in front of a line feed. -/
theorem splitLines_append_newline {line : List Char} (h : ∀ c ∈ line, isLineBreak c = false)
    (rest : List Char) : splitLines (line ++ '\n' :: rest) = line :: splitLines rest := by
  induction line with
  | nil => rfl
  | cons c line ih =>
      obtain ⟨hFirst, hOthers⟩ := List.forall_mem_cons.1 h
      exact splitLines_cons hFirst (ih hOthers)

theorem splitLines_flatMap {lines : List (List Char)}
    (h : ∀ line ∈ lines, ∀ c ∈ line, isLineBreak c = false) :
    splitLines (lines.flatMap fun line => line ++ ['\n']) = lines := by
  induction lines with
  | nil => rfl
  | cons line others ih =>
      obtain ⟨hLine, hOthers⟩ := List.forall_mem_cons.1 h
      rw [List.flatMap_cons, List.append_assoc, List.singleton_append,
        splitLines_append_newline hLine, ih hOthers]

end Text

/-- No printable ASCII character is a line break. -/
theorem Json.IsPlainChar.isLineBreak_eq {c : Char} (h : IsPlainChar c) :
    Text.isLineBreak c = false := by
  obtain ⟨hLow, hHigh⟩ := h
  simp only [Text.isLineBreak, Bool.or_eq_false_iff, Bool.and_eq_false_iff,
    decide_eq_false_iff_not, beq_eq_false_iff_ne]
  omega

namespace Record

open Json (WriteFault IsPlain IsPlainChar mapM_eq_ok_iff_forall₂)

theorem toList_join_lines (lines : List String) :
    (String.join (lines.map fun line => line ++ "\n")).toList =
      (lines.map String.toList).flatMap fun line => line ++ ['\n'] := by
  simp [String.toList_join, List.flatMap_map]

/-- The lines of values are printable ASCII, and what they are joined to falls apart into them. -/
theorem splitLines_text {values : List Value} {lines : Lines}
    (h : encodeLines values = .ok lines) :
    lines.count = values.length ∧
    (∀ c ∈ lines.text.toList, IsPlainChar c ∨ c = '\n') ∧
    ∃ texts, List.Forall₂ (fun value text => encode {} value false = .ok text) values texts ∧
      Text.splitLines lines.text.toList = texts.map String.toList := by
  obtain ⟨texts, hTexts, rfl⟩ := encodeLines_eq_ok_iff.1 h
  have hPlain : ∀ line ∈ texts.map String.toList, IsPlain line := by
    intro line hLine
    obtain ⟨text, hText, rfl⟩ := List.mem_map.1 hLine
    obtain ⟨value, -, hValue⟩ := Json.exists_of_mem_mapM (mapM_eq_ok_iff_forall₂.2 hTexts) hText
    exact plain_encode value false text hValue
  refine ⟨hTexts.length_eq.symm, ?_, texts, hTexts, ?_⟩
  · intro c hc
    rw [toList_join_lines] at hc
    obtain ⟨line, hLine, hMem⟩ := List.mem_flatMap.1 hc
    rcases List.mem_append.1 hMem with hMem | hMem
    · exact .inl (hPlain line hLine c hMem)
    · exact .inr (List.mem_singleton.1 hMem)
  · rw [toList_join_lines]
    apply Text.splitLines_flatMap
    intro line hLine c hc
    exact (hPlain line hLine c hc).isLineBreak_eq

/-- Where there are no lines, one of the values cannot be written. -/
theorem encodeLines_eq_error_cases {values : List Value} {fault : WriteFault}
    (h : encodeLines values = .error fault) :
    ∃ value ∈ values, encode {} value false = .error fault := by
  unfold encodeLines at h
  cases hTexts : values.mapM fun value => encode {} value false with
  | ok texts =>
      rw [hTexts] at h
      cases h
  | error other =>
      rw [hTexts] at h
      cases h
      exact Json.exists_of_mapM_eq_error hTexts

theorem exists_encode_of_encodeLines {values : List Value} {lines : Lines}
    (h : encodeLines values = .ok lines) :
    ∀ value ∈ values, ∃ text, encode {} value false = .ok text := by
  obtain ⟨texts, hTexts, -⟩ := encodeLines_eq_ok_iff.1 h
  clear h
  induction hTexts with
  | nil => exact List.forall_mem_nil _
  | cons hText _ ih => exact List.forall_mem_cons.2 ⟨⟨_, hText⟩, ih⟩

/-- Lines are put behind what has been written before. -/
theorem run_forM_writeOutput (lines : List String) (world : World) :
    (lines.forM fun line => do
      World.host.writeOutput line
      World.host.writeOutput "\n" : StateM World Unit).run world =
        ((), { world with
          output := world.output ++ String.join (lines.map fun line => line ++ "\n") }) := by
  induction lines generalizing world with
  | nil =>
      have hNothing : world.output ++ String.join [] = world.output := by simp
      rw [List.map_nil, hNothing]
      rfl
  | cons line rest ih =>
      have hLine : (do
          World.host.writeOutput line
          World.host.writeOutput "\n" : StateM World Unit).run world =
            ((), { world with output := world.output ++ line ++ "\n" }) := rfl
      apply (World.run_bind_of_run hLine _).trans
      rw [ih, List.map_cons, String.join_cons]
      simp only [String.append_assoc]

/-- What is handed over to an output is the lines, or nothing. -/
theorem run_emitLines (values : List Value) (world : World) :
    (emitLines World.host.writeOutput values).run world =
      match encodeLines values with
      | .error fault => (.error fault, world)
      | .ok lines => (.ok lines.count, { world with output := world.output ++ lines.text }) := by
  unfold emitLines encodeLines
  cases values.mapM fun value => encode {} value false with
  | error fault => rfl
  | ok lines =>
      simp only
      rw [World.run_bind_of_run (run_forM_writeOutput lines world)]
      rfl

/-- Values are handed over if every one of them can be written, and otherwise nothing is. What is
handed over is printable ASCII but for the line feeds, and it falls apart at its line breaks, of
whatever kind, into the texts of the values. -/
theorem emitLines_all_or_nothing (values : List Value) (world : World) :
    let result := (emitLines World.host.writeOutput values).run world
    ((∃ fault, result.1 = .error fault) ↔
      ∃ value ∈ values, ∃ fault, encode {} value false = .error fault) ∧
    (∀ fault, result.1 = .error fault → encodeLines values = .error fault ∧ result.2 = world) ∧
    ∀ count, result.1 = .ok count → count = values.length ∧
      ∃ lines texts, encodeLines values = .ok lines ∧
        result.2 = { world with output := world.output ++ lines.text } ∧
        (∀ c ∈ lines.text.toList, IsPlainChar c ∨ c = '\n') ∧
        List.Forall₂ (fun value text => encode {} value false = .ok text) values texts ∧
        Text.splitLines lines.text.toList = texts.map String.toList := by
  intro result
  have hResult := run_emitLines values world
  change result = _ at hResult
  cases hLines : encodeLines values with
  | error fault =>
      rw [hLines] at hResult
      obtain ⟨value, hValue, hFault⟩ := encodeLines_eq_error_cases hLines
      rw [hResult]
      refine ⟨⟨fun _ => ⟨value, hValue, fault, hFault⟩, fun _ => ⟨fault, rfl⟩⟩, ?_, ?_⟩
      · rintro _ ⟨⟩
        exact ⟨rfl, rfl⟩
      · rintro _ ⟨⟩
  | ok lines =>
      rw [hLines] at hResult
      have hWritten := exists_encode_of_encodeLines hLines
      obtain ⟨hCount, hPlain, texts, hTexts, hSplit⟩ := splitLines_text hLines
      rw [hResult]
      refine ⟨⟨?_, ?_⟩, ?_, ?_⟩
      · rintro ⟨_, ⟨⟩⟩
      · rintro ⟨value, hValue, fault, hFault⟩
        obtain ⟨text, hText⟩ := hWritten value hValue
        rw [hText] at hFault
        cases hFault
      · rintro _ ⟨⟩
      · rintro _ ⟨⟩
        exact ⟨hCount, lines, texts, rfl, rfl, hPlain, hTexts, hSplit⟩

/-- A whole number that is too long keeps everything from being handed over. A line separator is
escaped, so it ends no line, and the key of an entry may be a number. -/
theorem emitLines_all_or_nothing_of_separator :
    let world : World := { tree := ⟨[]⟩, directory := .root, output := "x" }
    let long : Value := .token (.integer (.int (10 ^ Decimal.digitLimit)))
    let broken := (emitLines World.host.writeOutput [.null, long]).run world
    let whole := (emitLines World.host.writeOutput
      [.text "\u2028", .mapping [(.int 1, .null)]]).run world
    broken.1 = .error .tooLong ∧ broken.2 = world ∧ whole.1 = .ok 2 ∧
      ∃ text, whole.2.output = "x" ++ text ∧
        Text.splitLines text.toList =
          ["\"\\u2028\"".toList, "\x7b\"1\": null\x7d".toList] := by
  intro world long broken whole
  have hLong : encode {} long false = .error .tooLong :=
    encode_integer_eq_error rfl Decimal.not_isShort_ten_pow false
  have hNull : encode {} .null false = .ok "null" := rfl
  obtain ⟨hFails, hNothing, -⟩ := emitLines_all_or_nothing [.null, long] world
  have hBroken : broken.1 = .error .tooLong := by
    obtain ⟨fault, hFault⟩ := hFails.2 ⟨long, by simp, _, hLong⟩
    obtain ⟨value, hValue, hRefused⟩ := encodeLines_eq_error_cases (hNothing fault hFault).1
    obtain rfl | rfl : value = .null ∨ value = long := by simpa using hValue
    · cases hNull.symm.trans hRefused
    · rw [Except.error.inj (hRefused.symm.trans hLong)] at hFault
      exact hFault
  have hWhole : whole.1 = .ok 2 := rfl
  obtain ⟨-, -, hLines⟩ :=
    emitLines_all_or_nothing [.text "\u2028", .mapping [(.int 1, .null)]] world
  obtain ⟨-, lines, texts, -, hOutput, -, hTexts, hSplit⟩ := hLines 2 hWhole
  have hSeparator : encode {} (.text "\u2028") false = .ok "\"\\u2028\"" := rfl
  have hMapping : encode {} (.mapping [(.int 1, .null)]) false =
      .ok "\x7b\"1\": null\x7d" := rfl
  refine ⟨hBroken, (hNothing _ hBroken).2, hWhole, lines.text, by rw [hOutput], ?_⟩
  obtain ⟨first, others, hFirst, hOthers, rfl⟩ := List.forall₂_cons_left_iff.1 hTexts
  obtain ⟨second, none, hSecond, hNone, rfl⟩ := List.forall₂_cons_left_iff.1 hOthers
  obtain rfl := List.forall₂_nil_left_iff.1 hNone
  rw [hSeparator] at hFirst
  rw [hMapping] at hSecond
  cases hFirst
  cases hSecond
  exact hSplit

end Record

end LispReader
