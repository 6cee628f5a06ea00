import AirspyhfWsprd.Bands.MonitorCounting
import AirspyhfWsprd.Library.Ranking

/-!
The recommendation that the parser makes of the counts: at most four of the bands, those
with the most monitors first.
-/

namespace AirspyhfWsprd.Bands

open Library

/-- The places of the counts that are not 0. -/
def monitoredPlaces (counts : List UInt64) : List Nat :=
  (List.range counts.length).filter fun place => 0 < (counts.getD place 0).toNat

/-- The place has the larger count, or the same count and is not behind the other. -/
def ranksBefore (counts : List UInt64) (place other : Nat) : Bool :=
  (counts.getD other 0).toNat < (counts.getD place 0).toNat ||
    (counts.getD place 0).toNat == (counts.getD other 0).toNat && place ≤ other

/-- At most four places, the largest count first and the earlier place among equals. -/
def monitorRanking (counts : List UInt64) : List Nat :=
  ((monitoredPlaces counts).mergeSort (ranksBefore counts)).take advisorResultBands

variable {candidates : WsprHopPlan} {counts : List UInt64}

theorem ranksBefore_iff {place other : Nat} :
    ranksBefore counts place other = true ↔
      (counts.getD other 0).toNat < (counts.getD place 0).toNat ∨
        (counts.getD place 0).toNat = (counts.getD other 0).toNat ∧ place ≤ other := by
  simp only [ranksBefore, Bool.or_eq_true, Bool.and_eq_true, decide_eq_true_eq, beq_iff_eq]

theorem ranksBefore_trans (counts : List UInt64) (a b c : Nat) :
    ranksBefore counts a b = true → ranksBefore counts b c = true →
      ranksBefore counts a c = true := by
  rw [ranksBefore_iff, ranksBefore_iff, ranksBefore_iff]
  omega

theorem ranksBefore_total (counts : List UInt64) (a b : Nat) :
    (ranksBefore counts a b || ranksBefore counts b a) = true := by
  rw [Bool.or_eq_true, ranksBefore_iff, ranksBefore_iff]
  omega

theorem ranksBefore_antisymm (counts : List UInt64) (a b : Nat) :
    ranksBefore counts a b = true → ranksBefore counts b a = true → a = b := by
  rw [ranksBefore_iff, ranksBefore_iff]
  omega

theorem mem_monitoredPlaces {place : Nat} :
    place ∈ monitoredPlaces counts ↔ 0 < (counts.getD place 0).toNat := by
  rw [monitoredPlaces, List.mem_filter, List.mem_range, decide_eq_true_iff, and_iff_right_iff_imp]
  intro hpos
  apply Nat.lt_of_not_le
  intro hlength
  rw [List.getD_eq_getElem?_getD, List.getElem?_eq_none hlength] at hpos
  exact Nat.lt_irrefl 0 hpos

/-- What one pass over the counts knows in front of a place: the best place that is not
selected, or that there is none. -/
def PassBest (counts : List UInt64) (selected : List Nat) (start bestCount : Nat) :
    Option Nat → Prop
  | none => bestCount = 0 ∧
      ∀ place < start, place ∉ selected → (counts.getD place 0).toNat = 0
  | some best => best < start ∧ best ∉ selected ∧ (counts.getD best 0).toNat = bestCount ∧
      0 < bestCount ∧ ∀ place < start, place ∉ selected → ranksBefore counts best place = true

/-- A candidate with more monitors than the best so far becomes the best so far. -/
theorem PassBest.better {selected : List Nat} {start bestCount : Nat} {best : Option Nat}
    (h : PassBest counts selected start bestCount best) (hnew : start ∉ selected)
    (hbetter : bestCount < (counts.getD start 0).toNat) :
    PassBest counts selected (start + 1) (counts.getD start 0).toNat (some start) := by
  refine ⟨Nat.lt_succ_self start, hnew, rfl, Nat.zero_lt_of_lt hbetter, fun place hplace hsel => ?_⟩
  rw [ranksBefore_iff]
  rcases Nat.lt_succ_iff_lt_or_eq.mp hplace with hbefore | rfl
  · cases best with
    | none =>
        have hzero := h.2 place hbefore hsel
        omega
    | some best =>
        have hrank := ranksBefore_iff.mp (h.2.2.2.2 place hbefore hsel)
        have hcount := h.2.2.1
        omega
  · exact Or.inr ⟨rfl, Nat.le_refl place⟩

/-- A candidate that was selected before, or has no more monitors than the best so far, leaves
the best as it is. Of two with the same count the first stays, which makes ties follow the
order of the plan. -/
theorem PassBest.same {selected : List Nat} {start bestCount : Nat} {best : Option Nat}
    (h : PassBest counts selected start bestCount best)
    (hworse : ¬ (start ∉ selected ∧ bestCount < (counts.getD start 0).toNat)) :
    PassBest counts selected (start + 1) bestCount best := by
  have hstart (hsel : start ∉ selected) : (counts.getD start 0).toNat ≤ bestCount :=
    Nat.le_of_not_lt fun hlt => hworse ⟨hsel, hlt⟩
  cases best with
  | none =>
      refine ⟨h.1, fun place hplace hsel => ?_⟩
      rcases Nat.lt_succ_iff_lt_or_eq.mp hplace with hbefore | rfl
      · exact h.2 place hbefore hsel
      · exact Nat.eq_zero_of_le_zero (h.1 ▸ hstart hsel)
  | some best =>
      obtain ⟨hlt, hnew, hcount, hpos, hbest⟩ := h
      refine ⟨Nat.lt_succ_of_lt hlt, hnew, hcount, hpos, fun place hplace hsel => ?_⟩
      rcases Nat.lt_succ_iff_lt_or_eq.mp hplace with hbefore | rfl
      · exact hbest place hbefore hsel
      · have hle := hstart hsel
        rw [ranksBefore_iff]
        omega

/-- One pass over the counts ends with the first of the candidates with the most monitors among
those that are not selected. -/
theorem bestCandidate_passBest {selected : List Nat} {start : Nat} {bestCount : UInt64}
    {best : Option Nat} (h : PassBest counts selected start bestCount.toNat best)
    (hstart : start ≤ counts.length) :
    ∃ count, PassBest counts selected counts.length count
      (bestCandidate selected start best bestCount (counts.drop start)) := by
  rcases Nat.lt_or_eq_of_le hstart with hlt | rfl
  · have hhead : counts.getD start 0 = counts[start] := by
      rw [List.getD_eq_getElem?_getD, List.getElem?_eq_getElem hlt, Option.getD_some]
    rw [List.drop_eq_getElem_cons hlt, bestCandidate, ← hhead]
    split
    · rename_i hbetter
      exact bestCandidate_passBest
        (h.better hbetter.1 (UInt64.lt_iff_toNat_lt.mp hbetter.2)) hlt
    · rename_i hworse
      exact bestCandidate_passBest
        (h.same fun hbetter => hworse (hbetter.imp_right UInt64.lt_iff_toNat_lt.mpr)) hlt
  · rw [List.drop_length]
    exact ⟨bestCount.toNat, h⟩
  termination_by counts.length - start

/-- The passes select the best places, until there is no room or no place left. -/
theorem bestCandidates_bestFirst (room : Nat) {selected : List Nat}
    (h : BestFirst (ranksBefore counts) (monitoredPlaces counts) selected) :
    BestFirst (ranksBefore counts) (monitoredPlaces counts)
        (bestCandidates counts room selected) ∧
      ((bestCandidates counts room selected).length = selected.length + room ∨
        ∀ place ∈ monitoredPlaces counts, place ∈ bestCandidates counts room selected) := by
  induction room generalizing selected with
  | zero => exact ⟨h, Or.inl rfl⟩
  | succ room ih =>
      have hpass : PassBest counts selected 0 (0 : UInt64).toNat none := ⟨rfl, nofun⟩
      obtain ⟨count, hbest⟩ := bestCandidate_passBest hpass (Nat.zero_le _)
      rw [List.drop_zero] at hbest
      have hinside {place : Nat} (hplace : place ∈ monitoredPlaces counts) :
          place < counts.length := List.mem_range.mp (List.mem_of_mem_filter hplace)
      rw [bestCandidates]
      split
      · rename_i hnone
        rw [hnone] at hbest
        refine ⟨h, Or.inr fun place hplace => Decidable.of_not_not fun hsel => ?_⟩
        have hpos := mem_monitoredPlaces.mp hplace
        rw [hbest.2 place (hinside hplace) hsel] at hpos
        exact Nat.lt_irrefl 0 hpos
      · rename_i best hsome
        rw [hsome] at hbest
        obtain ⟨-, hnew, hcount, hpos, hfirst⟩ := hbest
        obtain ⟨hselection, hend⟩ := ih (h.add (mem_monitoredPlaces.mpr (hcount ▸ hpos)) hnew
          fun place hplace hsel => hfirst place (hinside hplace) hsel)
        refine ⟨hselection, hend.imp_left fun hlength => ?_⟩
        rw [hlength, List.length_append, List.length_singleton]
        omega

/-- The repeated passes of the source select what the ranking of the abstract layer selects:
the head of the candidates sorted by their counts. -/
theorem bestCandidates_eq (counts : List UInt64) :
    bestCandidates counts advisorResultBands [] = monitorRanking counts := by
  have hnodup : (monitoredPlaces counts).Nodup := List.nodup_range.filter _
  obtain ⟨hbest, hend⟩ := bestCandidates_bestFirst advisorResultBands
    (bestFirst_nil (ranksBefore counts) (monitoredPlaces counts))
  rw [List.length_nil, Nat.zero_add] at hend
  rw [monitorRanking]
  rcases hend with hfull | hall
  · have htake := hbest.eq_take (ranksBefore_trans counts) (ranksBefore_total counts)
      (ranksBefore_antisymm counts) hnodup
    rwa [hfull] at htake
  · have hsort := hbest.eq_mergeSort (ranksBefore_trans counts) (ranksBefore_total counts)
      (ranksBefore_antisymm counts) hnodup hall
    have hlength := bestCandidates_length counts advisorResultBands []
    rw [List.length_nil, Nat.zero_add, hsort] at hlength
    rw [List.take_of_length_le hlength]
    exact hsort

theorem mem_monitorRanking {place : Nat} (h : place ∈ monitorRanking counts) :
    place < counts.length := by
  rw [monitorRanking] at h
  have hplace := List.mem_mergeSort.mp (List.mem_of_mem_take h)
  exact List.mem_range.mp (List.mem_of_mem_filter hplace)

/-- Places inside the plan each have a band. -/
theorem map_some_filterMap_places (bands : List WsprHopBand) {places : List Nat}
    (hplaces : ∀ place ∈ places, place < bands.length) :
    (places.filterMap (bands[·]?)).map some = places.map (bands[·]?) := by
  induction places with
  | nil => rfl
  | cons place places ih =>
      have hband := List.getElem?_eq_getElem (hplaces place List.mem_cons_self)
      rw [List.filterMap_cons_some hband, List.map_cons, List.map_cons, hband,
        ih fun other hother => hplaces other (List.mem_cons_of_mem place hother)]

theorem length_filterMap_places (bands : List WsprHopBand) {places : List Nat}
    (hplaces : ∀ place ∈ places, place < bands.length) :
    (places.filterMap (bands[·]?)).length = places.length := by
  have hlength := congrArg List.length (map_some_filterMap_places bands hplaces)
  rwa [List.length_map, List.length_map] at hlength

theorem rankMonitors_bands (candidates : WsprHopPlan) (counts : List UInt64) :
    (rankMonitors candidates counts).bands =
      (monitorRanking counts).filterMap (candidates.bands[·]?) :=
  congrArg (List.filterMap (candidates.bands[·]?)) (bestCandidates_eq counts)

theorem length_le_commaJoined {texts : List CString} (htexts : ∀ text ∈ texts, text ≠ []) :
    texts.length ≤ (commaJoined texts).length := by
  induction texts with
  | nil => exact Nat.le_refl 0
  | cons text rest ih =>
      have hrest := ih fun other hother => htexts other (List.mem_cons_of_mem text hother)
      have htext := List.length_pos_iff.mpr (htexts text List.mem_cons_self)
      cases rest with
      | nil => exact htext
      | cons next texts =>
          simp only [commaJoined, List.length_append, List.length_cons] at hrest ⊢
          omega

/-- No band has more monitors than the response has characters. -/
theorem MonitorResponse.monitorCount_le (response : MonitorResponse) (band : WsprHopBand) :
    response.monitorCount band ≤ response.text.length := by
  have hcount : response.monitorCount band ≤ response.objects.length := List.countP_le_length
  have hobjects : (response.objects.map (·.text)).length ≤
      (commaJoined (response.objects.map (·.text))).length := by
    apply length_le_commaJoined
    intro text htext
    obtain ⟨object, -, rfl⟩ := List.mem_map.mp htext
    exact List.append_ne_nil_of_right_ne_nil _ (List.cons_ne_nil _ _)
  rw [List.length_map] at hobjects
  simp only [MonitorResponse.text, monitorArrayText, List.length_append, List.length_cons]
  omega

/-- Each band's count is the number of the objects that monitor it, up to the largest
`unsigned long`, which no text in memory exceeds. The parser accepts when two bands have a
monitor, and recommends the bands with the most monitors. -/
theorem monitors_counted_and_ranked (hplan : PlanBuilt ft8BandFrequencies candidates)
    (response : MonitorResponse) :
    ∃ counts, monitorCounts candidates response.text = some counts ∧
      counts.map (·.toNat) =
        candidates.bands.map (fun band => min (response.monitorCount band) (2 ^ 64 - 1)) ∧
      (response.text.length < 2 ^ 64 →
        counts.map (·.toNat) = candidates.bands.map response.monitorCount) ∧
      (ft8MonitorParseResponse candidates response.text).map (·.bands) =
        if (monitorRanking counts).length < 2 then none
        else some ((monitorRanking counts).filterMap (candidates.bands[·]?)) := by
  have hcounts := monitorCounts_response hplan response
  refine ⟨_, hcounts, ?_, fun hfits => ?_, ?_⟩
  · rw [List.map_map]
    exact List.map_congr_left fun band _ => toNat_tally _
  · rw [List.map_map]
    refine List.map_congr_left fun band _ => (toNat_tally _).trans ?_
    have hcount := response.monitorCount_le band
    omega
  · let counts := candidates.bands.map fun band => tally (response.monitorCount band)
    have hlength : (rankMonitors candidates counts).bands.length =
        (monitorRanking counts).length := by
      rw [rankMonitors_bands]
      apply length_filterMap_places
      intro place hplace
      have hinside := mem_monitorRanking hplace
      rwa [List.length_map] at hinside
    rw [ft8MonitorParseResponse, hcounts]
    dsimp only
    rw [hlength, ← rankMonitors_bands]
    split
    · rfl
    · rfl

def noBlank : Blank := ⟨[], nofun⟩

/-- A member without blanks. -/
def exampleMember (content : MonitorContent) : MonitorMember :=
  ⟨content, noBlank, noBlank, noBlank, noBlank⟩

theorem isalnum_plain : ∀ c, isalnum c = true →
    (c ≠ quote ∧ c ≠ backslash) ∧ c ≠ ','.toUInt8 ∧ isspace c = false :=
  forall_byte (by decide +kernel)

def exampleName (name : CString) (hname : name.all isalnum = true) : ListedName :=
  have hplain := fun c hc => isalnum_plain c (List.all_eq_true.mp hname c hc)
  { before := noBlank
    name := name
    after := noBlank
    escapeFree := fun c hc => (hplain c hc).1
    one := fun hc => (hplain _ hc).2.1 rfl
    first := fun c hc => (hplain c (List.mem_of_mem_head? hc)).2.2
    last := fun c hc => (hplain c (List.mem_of_mem_getLast? hc)).2.2 }

/-- `"bands":"20m,40m"` -/
def exampleBands : MonitorMember :=
  exampleMember (.bands [exampleName (bytes "20m") rfl, exampleName (bytes "40m") rfl] (by decide))

/-- `"frequency":7074000` -/
def exampleFrequency : MonitorMember :=
  exampleMember (.frequency (bytes "7074000") (by decide)
    (List.all_eq_true.mp rfl) (by decide))

/-- `"note":"]\\""` -/
def exampleNote : MonitorMember :=
  exampleMember (.other (bytes "note") (by decide) (by decide) (by decide)
    (.string (bytes "]\\\"") (.plain (by decide) (by decide) (.escaped .nil))))

/-- `{"activeReceiver":[{"note":"]\\"","bands":"20m,40m"},{"frequency":7074000}]}` -/
def exampleMonitors : MonitorResponse where
  preamble := bytes "\x7b"
  beforeColon := noBlank
  beforeArray := noBlank
  inside := noBlank
  objects :=
    [⟨noBlank, noBlank, [exampleNote, exampleBands], by decide, noBlank⟩,
      ⟨noBlank, noBlank, [exampleFrequency], by decide, noBlank⟩]
  rest := bytes "\x7d"
  first := by decide

def exampleFt8Plan : WsprHopPlan where
  bands := [⟨bytes "20m", 14074000, 14⟩, ⟨bytes "10m", 28074000, 28⟩, ⟨bytes "40m", 7074000, 7⟩]
  fits := by decide

/-- `20m,10m,40m`: one monitor of 20 m, none of 10 m, two of 40 m. -/
theorem twoMonitors_counted_and_ranked :
    ∃ counts, monitorCounts exampleFt8Plan exampleMonitors.text = some counts ∧
      counts.map (·.toNat) = [1, 0, 2] := by
  have hplan : ft8HopPlanParse (bytes "20m,10m,40m") = some exampleFt8Plan := by decide
  obtain ⟨counts, hcounts, -, hexact, -⟩ :=
    monitors_counted_and_ranked (hopPlanParse_built hplan).1 exampleMonitors
  exact ⟨counts, hcounts, (hexact (by decide)).trans (by decide)⟩

/-- What a recommendation of candidates is worth: the candidates at these places, with
what the others have been counted. -/
structure Recommended (candidates : WsprHopPlan) (counts : List UInt64) (ranked : WsprHopPlan)
    (places : List Nat) : Prop where
  bands : ranked.bands.map some = places.map (candidates.bands[·]?)
  twoToFour : 2 ≤ places.length ∧ places.length ≤ 4
  distinct : places.Nodup
  ordered : places.Pairwise fun place next =>
    counts.getD next 0 < counts.getD place 0 ∨
      counts.getD next 0 = counts.getD place 0 ∧ place < next
  monitored : ∀ place ∈ places, 0 < counts.getD place 0
  leftOut : ∀ other < candidates.bands.length, other ∉ places →
    counts.getD other 0 = 0 ∨
      places.length = 4 ∧
        ∃ last ∈ places.getLast?, counts.getD other 0 ≤ counts.getD last 0

theorem countFirst_length (matching : WsprHopBand → Bool) (bands : List WsprHopBand)
    (counts : List UInt64) : (countFirst matching bands counts).length = counts.length := by
  fun_induction countFirst matching bands counts with
  | case1 band bands count counts hmatch => rw [List.length_cons, List.length_cons]
  | case2 band bands count counts hmatch ih => rw [List.length_cons, List.length_cons, ih]
  | case3 bands counts hshort => rfl

theorem countMonitorBands_length (candidates : WsprHopPlan) (value : CString)
    (counts : List UInt64) :
    (countMonitorBands candidates value counts).length = counts.length := by
  rw [countMonitorBands]
  induction separated ','.toUInt8 value generalizing counts with
  | nil => rfl
  | cons field fields ih => rw [List.foldl_cons, ih, countFirst_length]

/-- An object changes the counts but not how many there are, so an index of the counts stays
one of a candidate. -/
theorem countMonitorObject_length {object after : CString} {counts next : List UInt64}
    (h : countMonitorObject candidates object after counts = some next) :
    next.length = counts.length := by
  unfold countMonitorObject at h
  split at h
  · cases h
  · split at h
    · cases h
    split at h
    · cases h
    split at h
    · cases h
    · exact Option.some.inj h ▸ countMonitorBands_length _ _ _
  · split at h
    · exact Option.some.inj h ▸ rfl
    split at h
    · cases h
    split at h
    · cases h
    · exact Option.some.inj h ▸ countFirst_length _ _ _

theorem monitorLoop_length {after text : CString} {counts next : List UInt64}
    (h : monitorLoop candidates after text counts = some next) : next.length = counts.length := by
  fun_induction monitorLoop candidates after text counts with
  | case1 text counts hend => exact Option.some.inj h ▸ rfl
  | case2 => cases h
  | case3 => cases h
  | case4 text counts c rest hobject object behind hend counted hcounted ih =>
      rw [ih h, countMonitorObject_length hcounted]

theorem monitorCounts_length {response : CString}
    (h : monitorCounts candidates response = some counts) :
    counts.length = candidates.bands.length := by
  simp only [monitorCounts, Option.bind_eq_bind, Option.bind_eq_some_iff] at h
  obtain ⟨position, -, position, -, position, -, ⟨array, behind⟩, -, hloop⟩ := h
  rw [monitorLoop_length hloop, List.length_map]

theorem length_monitoredPlaces (counts : List UInt64) :
    (monitoredPlaces counts).length = counts.countP (0 < ·) := by
  have hplaces : counts = (List.range counts.length).map (counts.getD · 0) := by
    apply List.ext_getElem
    · rw [List.length_map, List.length_range]
    · intro place hplace _
      rw [List.getElem_map, List.getElem_range, List.getElem_eq_getD 0]
  rw [monitoredPlaces, ← List.countP_eq_length_filter]
  conv_rhs => rw [hplaces, List.countP_map]
  exact List.countP_congr fun place _ => by
    simp only [Function.comp_apply, decide_eq_true_eq, UInt64.lt_iff_toNat_lt, UInt64.toNat_zero]

theorem length_monitorRanking (counts : List UInt64) :
    (monitorRanking counts).length = min advisorResultBands (counts.countP (0 < ·)) := by
  rw [monitorRanking, List.length_take, List.length_mergeSort, length_monitoredPlaces]

theorem length_rankMonitors (hlength : counts.length = candidates.bands.length) :
    (rankMonitors candidates counts).bands.length = (monitorRanking counts).length := by
  rw [rankMonitors_bands]
  exact length_filterMap_places _ fun place hplace => hlength ▸ mem_monitorRanking hplace

theorem monitorRanking_bestFirst (counts : List UInt64) :
    BestFirst (ranksBefore counts) (monitoredPlaces counts) (monitorRanking counts) ∧
      ((monitorRanking counts).length = advisorResultBands ∨
        ∀ place ∈ monitoredPlaces counts, place ∈ monitorRanking counts) := by
  have hbest := bestCandidates_bestFirst advisorResultBands
    (bestFirst_nil (ranksBefore counts) (monitoredPlaces counts))
  rwa [bestCandidates_eq, List.length_nil, Nat.zero_add] at hbest

/-- A ranking with two bands or more is the recommendation: the bands with the most monitors,
best first, those without any monitor left out, and no more than four. -/
theorem rankMonitors_recommended (hlength : counts.length = candidates.bands.length)
    (htwo : 2 ≤ (rankMonitors candidates counts).bands.length) :
    Recommended candidates counts (rankMonitors candidates counts) (monitorRanking counts) := by
  obtain ⟨hbest, hend⟩ := monitorRanking_bestFirst counts
  rw [length_rankMonitors hlength] at htwo
  have hfour : (monitorRanking counts).length ≤ 4 := List.length_take_le _ _
  constructor
  · rw [rankMonitors_bands]
    exact map_some_filterMap_places _ fun place hplace => hlength ▸ mem_monitorRanking hplace
  · exact ⟨htwo, hfour⟩
  · exact hbest.distinct
  · refine (hbest.ordered.and hbest.distinct).imp fun {place next} h => ?_
    have hrank := ranksBefore_iff.mp h.1
    have hne := h.2
    rw [UInt64.lt_iff_toNat_lt, ← UInt64.toNat_inj]
    omega
  · intro place hplace
    exact UInt64.lt_iff_toNat_lt.mpr (mem_monitoredPlaces.mp (hbest.chosen place hplace))
  · intro other hother hleft
    rcases hend with hfull | hall
    · rcases Nat.eq_zero_or_pos (counts.getD other 0).toNat with hzero | hpos
      · exact Or.inl (UInt64.toNat_inj.mp hzero)
      have hne : monitorRanking counts ≠ [] := List.ne_nil_of_length_pos (by omega)
      refine Or.inr ⟨hfull, _, List.getLast?_eq_some_getLast hne, UInt64.le_iff_toNat_le.mpr ?_⟩
      have hrank := ranksBefore_iff.mp (hbest.before _ (List.getLast_mem hne) other
        (mem_monitoredPlaces.mpr hpos) hleft)
      omega
    · refine Or.inl (UInt64.toNat_inj.mp (Nat.eq_zero_of_not_pos fun hpos => hleft ?_))
      exact hall other (mem_monitoredPlaces.mpr hpos)

/-- A recommendation holds the most monitored candidates, and the parser makes one when the
scan of the response counts monitors for two candidates. Among candidates with the same count
the order is the one of the hop plan. -/
theorem recommendation_most_monitored (candidates : WsprHopPlan) (response : CString) :
    (∀ ranked, ft8MonitorParseResponse candidates response = some ranked →
      ∃ counts places, monitorCounts candidates response = some counts ∧
        counts.length = candidates.bands.length ∧ Recommended candidates counts ranked places) ∧
    ∀ counts, monitorCounts candidates response = some counts →
      ((ft8MonitorParseResponse candidates response).isSome ↔ 2 ≤ counts.countP (0 < ·)) := by
  constructor
  · intro ranked hranked
    rw [ft8MonitorParseResponse] at hranked
    split at hranked
    · cases hranked
    · rename_i counts hcounts
      dsimp only at hranked
      split at hranked
      · cases hranked
      · rename_i htwo
        have hlength := monitorCounts_length hcounts
        refine ⟨counts, monitorRanking counts, hcounts, hlength, ?_⟩
        rw [← Option.some.inj hranked]
        exact rankMonitors_recommended hlength (Nat.le_of_not_lt htwo)
  · intro counts hcounts
    have hlength := length_rankMonitors (monitorCounts_length hcounts)
    rw [length_monitorRanking] at hlength
    rw [ft8MonitorParseResponse, hcounts]
    dsimp only
    rw [hlength]
    have hfour : advisorResultBands = 4 := rfl
    split
    · simp only [Option.isSome_none, Bool.false_eq_true, false_iff]
      omega
    · simp only [Option.isSome_some, true_iff]
      omega

/-- Two bands have a monitor, so they are recommended. -/
theorem twoMonitors_recommended :
    ∃ ranked counts places,
      ft8MonitorParseResponse exampleFt8Plan exampleMonitors.text = some ranked ∧
        monitorCounts exampleFt8Plan exampleMonitors.text = some counts ∧
        Recommended exampleFt8Plan counts ranked places := by
  have hplan : ft8HopPlanParse (bytes "20m,10m,40m") = some exampleFt8Plan := by decide
  have hscanned := monitorCounts_response (hopPlanParse_built hplan).1 exampleMonitors
  obtain ⟨hranking, haccepts⟩ :=
    recommendation_most_monitored exampleFt8Plan exampleMonitors.text
  obtain ⟨ranked, hranked⟩ :=
    Option.isSome_iff_exists.mp ((haccepts _ hscanned).mpr (by decide))
  obtain ⟨counts, places, hcounts, -, hplaces⟩ := hranking ranked hranked
  exact ⟨ranked, counts, places, hranked, hcounts, hplaces⟩

end AirspyhfWsprd.Bands
