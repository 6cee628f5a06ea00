import AirspyhfWsprd.Bands.AdviceSafety
import Mathlib.Data.List.Forall2

/-!
What the WSPR advisor takes from the database's rows. It reads rows until it has four
candidates or the text ends; every row it reads has to be right, and each gives the first
candidate of its band, once.
-/

namespace AirspyhfWsprd.Bands

open Library

/-- The length of the line that begins here: up to a newline, or to the end of the text. -/
def lineLength (text : CString) : Nat := (text.idxOf? '\n'.toUInt8).getD text.length

/-- The text behind the line's newline, if it has one. -/
def nextLine (text : CString) : CString :=
  match text.idxOf? '\n'.toUInt8 with
  | none => text.drop (lineLength text)
  | some newline => text.drop (newline + 1)

theorem nextLine_length {text : CString} (h : text ≠ []) :
    (nextLine text).length < text.length := by
  have hpos := List.length_pos_iff.mpr h
  rw [nextLine, lineLength]
  split
  · rename_i hnone
    rw [hnone, Option.getD_none, List.length_drop]
    omega
  · rw [List.length_drop]
    omega

/-- The loop of `wspr_advisor_parse_response` from this line on, and what is done behind it: what
it returns, and the plan it leaves. -/
def wsprAdvisorLines (candidates ranked : WsprHopPlan) (line : CString) : Bool × WsprHopPlan :=
  if hloop : line ≠ [] ∧ ranked.bands.length < advisorResultBands then
    if lineLength line = 0 ∨ 128 ≤ lineLength line then (false, .empty)
    else
      match scanAdvisorRow (line.take (lineLength line)) with
      | none => (false, .empty)
      | some (databaseBand, stations, spots) =>
          if stations = 0 ∨ spots = 0 then (false, .empty)
          else
            wsprAdvisorLines candidates
              (rankBand candidates ranked databaseBand (Nat.lt_of_lt_of_le hloop.2 (by decide)))
              (nextLine line)
  else if ranked.bands.length < 2 then (false, .empty)
  else (true, ranked)
  termination_by line.length
  decreasing_by exact nextLine_length hloop.1

/-- `wspr_advisor_parse_response`: what it returns, and what it leaves in `*ranked`. -/
def wsprAdvisorParseInto (candidates : WsprHopPlan) (response : CString) : Bool × WsprHopPlan :=
  wsprAdvisorLines candidates .empty response

theorem lineLength_le (text : CString) : lineLength text ≤ text.length := by
  rw [lineLength]
  cases hnewline : text.idxOf? '\n'.toUInt8 with
  | none => exact Nat.le_refl _
  | some newline =>
      obtain ⟨hlt, -⟩ := List.idxOf?_eq_some_iff.mp hnewline
      exact hlt.le

theorem separated_lines {text : CString} (h : text ≠ []) :
    separated '\n'.toUInt8 text =
      text.take (lineLength text) :: separated '\n'.toUInt8 (nextLine text) := by
  by_cases hnewline : '\n'.toUInt8 ∈ text
  · obtain ⟨row, rest, rfl, hrow⟩ := List.eq_append_cons_of_mem hnewline
    rw [separated_cons hrow, nextLine, lineLength, idxOf?_behind hrow]
    simp
  · have hnone := List.idxOf?_eq_none_iff.mpr hnewline
    rw [separated_one hnewline h, nextLine, lineLength, hnone]
    simp [separated]

/-- The plan that is left behind the rows. -/
def rowsOutcome : Option WsprHopPlan → Bool × WsprHopPlan
  | none => (false, .empty)
  | some ranked => if ranked.bands.length < 2 then (false, .empty) else (true, ranked)

/-- The loop over the text is the loop over its rows. -/
theorem wsprAdvisorLines_eq (candidates ranked : WsprHopPlan) (text : CString) :
    wsprAdvisorLines candidates ranked text =
      rowsOutcome (wsprAdvisorLoop candidates ranked (separated '\n'.toUInt8 text)) := by
  induction hlength : text.length using Nat.strong_induction_on generalizing ranked text with
  | _ length ih =>
      rw [wsprAdvisorLines]
      split
      · rename_i hloop
        have hrow : (text.take (lineLength text)).length = lineLength text :=
          List.length_take_of_le (lineLength_le text)
        rw [separated_lines hloop.1, wsprAdvisorLoop, dif_pos hloop.2, hrow]
        split
        · rfl
        cases scanAdvisorRow (text.take (lineLength text)) with
        | none => rfl
        | some fields =>
            obtain ⟨databaseBand, stations, spots⟩ := fields
            dsimp only
            split
            · rfl
            · exact ih _ (hlength ▸ nextLine_length hloop.1) _ _ rfl
      · rename_i hloop
        by_cases htext : text = []
        · rw [htext]
          rfl
        · have hcount : ¬ ranked.bands.length < advisorResultBands := fun h => hloop ⟨htext, h⟩
          rw [separated_lines htext, wsprAdvisorLoop, dif_neg hcount]
          rfl

/-- The plan of `wsprAdvisorParseResponse` is the one that is left when the parser returns
true. -/
theorem wsprAdvisorParseResponse_eq (candidates : WsprHopPlan) (response : CString) :
    wsprAdvisorParseResponse candidates response =
      if (wsprAdvisorParseInto candidates response).1 then
        some (wsprAdvisorParseInto candidates response).2
      else none := by
  rw [wsprAdvisorParseResponse, wsprAdvisorParseInto, wsprAdvisorLines_eq]
  cases wsprAdvisorLoop candidates .empty (separated '\n'.toUInt8 response) with
  | none => rfl
  | some ranked =>
      dsimp only [rowsOutcome]
      split
      · rfl
      · rfl

/-- A row that is accepted, with its band: neither empty nor too long for its buffer, in the
format of `sscanf`, and with two counts that are not zero. -/
def RowGives (row : CString) (databaseBand : Int32) : Prop :=
  row ≠ [] ∧ row.length < 128 ∧
    ∃ stations spots, scanAdvisorRow row = some (databaseBand, stations, spots) ∧
      stations ≠ 0 ∧ spots ≠ 0

/-- The different candidates of these bands, in the order in which they first appear. -/
def collected (candidates : WsprHopPlan) (databaseBands : List Int32) : List WsprHopBand :=
  (databaseBands.filterMap fun databaseBand =>
    candidates.bands.find? (·.databaseBand == databaseBand)).eraseDups

/-- Behind rows that gave the bands `seen`, the first rows are accepted and give these bands, and
no more rows are read: the rows end there or there are four candidates, which there were not
behind any earlier row. -/
structure RowsRead (candidates : WsprHopPlan) (seen : List Int32) (rows : List CString)
    (databaseBands : List Int32) : Prop where
  accepted : List.Forall₂ RowGives (rows.take databaseBands.length) databaseBands
  stopped : databaseBands.length = rows.length ∨
    advisorResultBands ≤ (collected candidates (seen ++ databaseBands)).length
  reading : ∀ count < databaseBands.length,
    (collected candidates (seen ++ databaseBands.take count)).length < advisorResultBands

theorem eraseDups_concat {α : Type*} [DecidableEq α] (list : List α) (a : α) :
    (list ++ [a]).eraseDups = if a ∈ list then list.eraseDups else list.eraseDups ++ [a] := by
  rw [List.eraseDups_append, List.removeAll, List.filter_cons, List.filter_nil]
  by_cases hmem : a ∈ list
  · rw [if_neg (by simpa using hmem), if_pos hmem, List.eraseDups_nil, List.append_nil]
  · rw [if_pos (by simpa using hmem), if_neg hmem, List.eraseDups_cons, List.filter_nil,
      List.eraseDups_nil]

section Rows

variable {candidates ranked plan : WsprHopPlan}

theorem mem_collected {databaseBands : List Int32} {band : WsprHopBand} :
    band ∈ collected candidates databaseBands ↔
      ∃ databaseBand ∈ databaseBands,
        candidates.bands.find? (·.databaseBand == databaseBand) = some band := by
  rw [collected, List.mem_eraseDups, List.mem_filterMap]

/-- A candidate has been collected when the plan contains its band. -/
theorem planContains_collected (hcandidates : (candidates.bands.map (·.databaseBand)).Nodup)
    {seen : List Int32} (hranked : ranked.bands = collected candidates seen)
    {databaseBand : Int32} {band : WsprHopBand}
    (hfound : candidates.bands.find? (·.databaseBand == databaseBand) = some band) :
    planContainsDatabaseBand ranked databaseBand = true ↔ band ∈ collected candidates seen := by
  have hband : band.databaseBand = databaseBand :=
    beq_iff_eq.mp (List.find?_some (p := fun band : WsprHopBand =>
      band.databaseBand == databaseBand) hfound)
  rw [planContainsDatabaseBand, List.any_eq_true, hranked]
  constructor
  · rintro ⟨other, hother, hsame⟩
    obtain ⟨_, -, hfind⟩ := mem_collected.mp hother
    have hequal : other = band := List.inj_on_of_nodup_map hcandidates
      (List.mem_of_find?_eq_some hfind) (List.mem_of_find?_eq_some hfound)
      ((beq_iff_eq.mp hsame).trans hband.symm)
    rwa [← hequal]
  · intro hmem
    exact ⟨band, hmem, beq_iff_eq.mpr hband⟩

/-- The loop over the candidates adds what one more row gives. -/
theorem rankBand_collected (hcandidates : (candidates.bands.map (·.databaseBand)).Nodup)
    {seen : List Int32} (hranked : ranked.bands = collected candidates seen)
    (databaseBand : Int32) (hroom : ranked.bands.length < wsprMaxHopBands) :
    (rankBand candidates ranked databaseBand hroom).bands =
      collected candidates (seen ++ [databaseBand]) := by
  rw [rankBand, collected, List.filterMap_append, List.filterMap_cons, List.filterMap_nil]
  cases hfound : candidates.bands.find? (·.databaseBand == databaseBand) with
  | none =>
      dsimp only
      rw [List.append_nil, hranked, collected]
  | some band =>
      have hcontains := planContains_collected hcandidates hranked hfound
      rw [collected, List.mem_eraseDups] at hcontains
      dsimp only
      rw [eraseDups_concat, if_congr hcontains.symm rfl rfl]
      split
      · rw [hranked, collected]
      · rw [WsprHopPlan.bands_add, hranked, collected]

theorem rowsRead_nil_iff {seen : List Int32} {rows : List CString} :
    RowsRead candidates seen rows [] ↔
      rows = [] ∨ advisorResultBands ≤ (collected candidates seen).length := by
  constructor
  · intro h
    have hstopped := h.stopped
    rw [List.append_nil, List.length_nil, eq_comm, List.length_eq_zero_iff] at hstopped
    exact hstopped
  · intro h
    refine ⟨List.Forall₂.nil, ?_, fun count hcount => absurd hcount (Nat.not_lt_zero count)⟩
    rw [List.append_nil, List.length_nil, eq_comm, List.length_eq_zero_iff]
    exact h

/-- When rows are read, the first gives its band, and the others are read with that band among
the ones seen. No row is read once four candidates have been collected. -/
theorem rowsRead_cons_iff {seen : List Int32} {row : CString} {rows : List CString}
    {databaseBand : Int32} {bands : List Int32} :
    RowsRead candidates seen (row :: rows) (databaseBand :: bands) ↔
      RowGives row databaseBand ∧ (collected candidates seen).length < advisorResultBands ∧
        RowsRead candidates (seen ++ [databaseBand]) rows bands := by
  have hseen (bands : List Int32) :
      seen ++ databaseBand :: bands = seen ++ [databaseBand] ++ bands := by simp
  constructor
  · intro h
    obtain ⟨hgives, haccepted⟩ := List.forall₂_cons.mp h.accepted
    have hfirst := h.reading 0 (Nat.zero_lt_succ _)
    rw [List.take_zero, List.append_nil] at hfirst
    refine ⟨hgives, hfirst, haccepted, ?_, fun count hcount => ?_⟩
    · have hstopped := h.stopped
      rwa [hseen, List.length_cons, List.length_cons, Nat.succ_inj] at hstopped
    · have hreading := h.reading (count + 1) (Nat.succ_lt_succ hcount)
      rwa [List.take_succ_cons, hseen] at hreading
  · rintro ⟨hgives, hfirst, haccepted, hstopped, hreading⟩
    refine ⟨List.Forall₂.cons hgives haccepted, ?_, fun count hcount => ?_⟩
    · rwa [hseen, List.length_cons, List.length_cons, Nat.succ_inj]
    · cases count with
      | zero => rwa [List.take_zero, List.append_nil]
      | succ count =>
          rw [List.take_succ_cons, hseen]
          exact hreading count (Nat.lt_of_succ_lt_succ hcount)

/-- The loop, behind rows that gave these bands. -/
theorem wsprAdvisorLoop_some_iff (hcandidates : (candidates.bands.map (·.databaseBand)).Nodup)
    {seen : List Int32} (hranked : ranked.bands = collected candidates seen)
    {rows : List CString} :
    wsprAdvisorLoop candidates ranked rows = some plan ↔
      ∃ bands, RowsRead candidates seen rows bands ∧
        plan.bands = collected candidates (seen ++ bands) := by
  induction rows generalizing ranked seen with
  | nil =>
      constructor
      · intro hloop
        obtain rfl := Option.some.inj hloop
        refine ⟨[], rowsRead_nil_iff.mpr (Or.inl rfl), ?_⟩
        rw [List.append_nil, hranked]
      · rintro ⟨bands, hread, hplan⟩
        have haccepted := hread.accepted
        rw [List.take_nil] at haccepted
        obtain rfl := List.forall₂_nil_left_iff.mp haccepted
        rw [List.append_nil, ← hranked] at hplan
        exact congrArg some (WsprHopPlan.ext_bands hplan.symm)
  | cons row rows ih =>
      rw [wsprAdvisorLoop]
      by_cases hcount : ranked.bands.length < advisorResultBands
      · rw [dif_pos hcount]
        constructor
        · intro hloop
          split at hloop
          · cases hloop
          rename_i hlength
          split at hloop
          · cases hloop
          rename_i databaseBand stations spots hscan
          split at hloop
          · cases hloop
          rename_i hzero
          obtain ⟨bands, hread, hplan⟩ :=
            (ih (rankBand_collected hcandidates hranked databaseBand _)).mp hloop
          rw [not_or] at hlength hzero
          have hgives : RowGives row databaseBand :=
            ⟨fun hempty => hlength.1 (List.length_eq_zero_iff.mpr hempty),
              Nat.not_le.mp hlength.2, stations, spots, hscan, hzero.1, hzero.2⟩
          refine ⟨databaseBand :: bands, rowsRead_cons_iff.mpr ⟨hgives, hranked ▸ hcount, hread⟩,
            ?_⟩
          rw [hplan, List.append_assoc, List.singleton_append]
        · rintro ⟨bands, hread, hplan⟩
          cases bands with
          | nil =>
              rcases rowsRead_nil_iff.mp hread with hrows | hfull
              · cases hrows
              · exact absurd (hranked ▸ hcount) (Nat.not_lt.mpr hfull)
          | cons databaseBand bands =>
              obtain ⟨hgives, -, hrest⟩ := rowsRead_cons_iff.mp hread
              obtain ⟨hne, hlt, stations, spots, hscan, hstations, hspots⟩ := hgives
              have hlength : ¬ (row.length = 0 ∨ 128 ≤ row.length) := by
                rw [List.length_eq_zero_iff]
                exact not_or.mpr ⟨hne, Nat.not_le.mpr hlt⟩
              rw [if_neg hlength, hscan]
              dsimp only
              rw [if_neg (not_or.mpr ⟨hstations, hspots⟩),
                ih (rankBand_collected hcandidates hranked databaseBand _)]
              refine ⟨bands, hrest, ?_⟩
              rw [hplan, List.append_assoc, List.singleton_append]
      · rw [dif_neg hcount]
        have hfull := Nat.not_lt.mp hcount
        constructor
        · intro hloop
          obtain rfl := Option.some.inj hloop
          refine ⟨[], rowsRead_nil_iff.mpr (Or.inr (hranked ▸ hfull)), ?_⟩
          rw [List.append_nil, hranked]
        · rintro ⟨bands, hread, hplan⟩
          cases bands with
          | nil =>
              rw [List.append_nil, ← hranked] at hplan
              exact congrArg some (WsprHopPlan.ext_bands hplan.symm)
          | cons databaseBand bands =>
              obtain ⟨-, hfirst, -⟩ := rowsRead_cons_iff.mp hread
              exact absurd (hranked ▸ hfirst) hcount

/-- A further row adds at most one candidate: the first of its band, when no row before gave
that band. -/
theorem collected_concat_length (seen : List Int32) (databaseBand : Int32) :
    (collected candidates (seen ++ [databaseBand])).length ≤
      (collected candidates seen).length + 1 := by
  rw [collected, List.filterMap_append, List.filterMap_cons, List.filterMap_nil]
  cases candidates.bands.find? (·.databaseBand == databaseBand) with
  | none =>
      dsimp only
      rw [List.append_nil]
      exact Nat.le_succ _
  | some band =>
      dsimp only
      rw [eraseDups_concat]
      split
      · exact Nat.le_succ _
      · rw [List.length_append, List.length_singleton]
        exact Nat.le_refl _

theorem RowsRead.collected_length {rows : List CString} {bands : List Int32}
    (h : RowsRead candidates [] rows bands) :
    (collected candidates bands).length ≤ advisorResultBands := by
  rcases List.eq_nil_or_concat bands with rfl | ⟨front, last, rfl⟩
  · exact Nat.zero_le _
  · rw [List.concat_eq_append]
    have hfront := h.reading front.length (by simp)
    rw [List.nil_append, List.concat_eq_append, List.take_left] at hfront
    exact (collected_concat_length front last).trans hfront

/-- The parser, when rows that give two candidates are read. -/
theorem RowsRead.parsed (hcandidates : (candidates.bands.map (·.databaseBand)).Nodup)
    {response : CString} {bands : List Int32}
    (h : RowsRead candidates [] (separated '\n'.toUInt8 response) bands)
    (hcount : 2 ≤ (collected candidates bands).length) :
    wsprAdvisorParseInto candidates response =
      (true, ⟨collected candidates bands, h.collected_length.trans (by decide)⟩) := by
  have hempty : WsprHopPlan.empty.bands = collected candidates [] := rfl
  have hloop : wsprAdvisorLoop candidates .empty (separated '\n'.toUInt8 response) =
      some ⟨collected candidates bands, h.collected_length.trans (by decide)⟩ :=
    (wsprAdvisorLoop_some_iff hcandidates hempty).mpr ⟨bands, h, rfl⟩
  rw [wsprAdvisorParseInto, wsprAdvisorLines_eq, hloop, rowsOutcome,
    if_neg (Nat.not_lt.mpr hcount)]

end Rows

/-- `wspr_advisor_parse_response` accepts a response when the rows it reads are right and give
at least two candidates, and leaves the candidates they give. -/
theorem wsprAdvisorParseInto_accepts {candidates : WsprHopPlan}
    (hcandidates : (candidates.bands.map (·.databaseBand)).Nodup) (response : CString) :
    ((wsprAdvisorParseInto candidates response).1 = true ↔
        ∃ bands, RowsRead candidates [] (separated '\n'.toUInt8 response) bands ∧
          2 ≤ (collected candidates bands).length) ∧
      ∀ bands, RowsRead candidates [] (separated '\n'.toUInt8 response) bands →
        2 ≤ (collected candidates bands).length →
          (wsprAdvisorParseInto candidates response).2.bands = collected candidates bands ∧
            (collected candidates bands).length ≤ advisorResultBands := by
  refine ⟨⟨fun haccept => ?_, fun ⟨bands, hread, hcount⟩ => ?_⟩, fun bands hread hcount => ?_⟩
  · have hempty : WsprHopPlan.empty.bands = collected candidates [] := rfl
    rw [wsprAdvisorParseInto, wsprAdvisorLines_eq] at haccept
    cases hloop : wsprAdvisorLoop candidates .empty (separated '\n'.toUInt8 response) with
    | none =>
        rw [hloop] at haccept
        cases haccept
    | some plan =>
        obtain ⟨bands, hread, hplan⟩ := (wsprAdvisorLoop_some_iff hcandidates hempty).mp hloop
        rw [hloop, rowsOutcome] at haccept
        refine ⟨bands, hread, ?_⟩
        rw [List.nil_append] at hplan
        rw [← hplan]
        by_contra hfew
        rw [if_pos (Nat.not_le.mp hfew)] at haccept
        cases haccept
  · rw [hread.parsed hcandidates hcount]
  · rw [hread.parsed hcandidates hcount]
    exact ⟨rfl, hread.collected_length⟩

/-- Two rows in the order of the hop plan are accepted. -/
theorem exampleRows_accepted :
    (wsprAdvisorParseInto examplePlan (bytes "7\t12\t30\n28 2 2\n")).1 = true ∧
      ∃ bands,
        RowsRead examplePlan [] (separated '\n'.toUInt8 (bytes "7\t12\t30\n28 2 2\n")) bands ∧
          (wsprAdvisorParseInto examplePlan (bytes "7\t12\t30\n28 2 2\n")).2.bands =
            collected examplePlan bands := by
  have hdistinct : (examplePlan.bands.map (·.databaseBand)).Nodup := by decide
  obtain ⟨hiff, hbands⟩ :=
    wsprAdvisorParseInto_accepts hdistinct (bytes "7\t12\t30\n28 2 2\n")
  have haccept : (wsprAdvisorParseInto examplePlan (bytes "7\t12\t30\n28 2 2\n")).1 = true := by
    decide +kernel
  obtain ⟨bands, hread, hcount⟩ := hiff.mp haccept
  exact ⟨haccept, bands, hread, (hbands bands hread hcount).1⟩

end AirspyhfWsprd.Bands
