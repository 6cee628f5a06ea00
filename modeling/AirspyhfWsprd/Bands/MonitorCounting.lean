import AirspyhfWsprd.Bands.MonitorText
import AirspyhfWsprd.Library.PrintedText

/-!
How many monitors a response lists for each band of the plan. A monitor's list of bands
counts for each of them, and its frequency where it has no list.
-/

namespace AirspyhfWsprd.Bands

open Library

/-- From the band's number of megahertz to the next one; 10 m is two megahertz wide. -/
def inBand (frequency : Nat) (band : WsprHopBand) : Bool :=
  let lower := band.databaseBand.toInt * 1000000
  let upper := if band.databaseBand = 28 then 30000000 else lower + 1000000
  lower ≤ frequency && (frequency : Int) < upper

/-- The member is a list of bands with this band's name in it. -/
def MonitorContent.names (band : WsprHopBand) : MonitorContent → Bool
  | .bands names _ => names.any (·.name == band.name)
  | .frequency _ _ _ _ | .other _ _ _ _ _ => false

/-- The member is a frequency in this band. -/
def MonitorContent.locates (band : WsprHopBand) : MonitorContent → Bool
  | .frequency digits _ _ _ => inBand (digitsValue 10 digits) band
  | .bands _ _ | .other _ _ _ _ _ => false

def MonitorObject.hasBands (object : MonitorObject) : Bool :=
  object.members.any (·.content.key == bytes "bands")

/-- A monitor's list of bands counts. Its frequency counts where it has no list. -/
def MonitorObject.monitors (band : WsprHopBand) (object : MonitorObject) : Bool :=
  if object.hasBands then object.members.any (·.content.names band)
  else object.members.any (·.content.locates band)

/-- How many of the objects monitor the band. -/
def MonitorResponse.monitorCount (response : MonitorResponse) (band : WsprHopBand) : Nat :=
  response.objects.countP (·.monitors band)

/-- In the table the names are not empty, and the bands are two megahertz apart. -/
theorem ft8BandFrequencies_apart :
    ∀ entry ∈ ft8BandFrequencies, entry.canonicalName ≠ [] ∧
      ∀ other ∈ ft8BandFrequencies, entry.canonicalName ≠ other.canonicalName →
        entry.databaseBand.toInt + 2 ≤ other.databaseBand.toInt ∨
          other.databaseBand.toInt + 2 ≤ entry.databaseBand.toInt := by
  decide

/-- The limits of the table's bands do not wrap. -/
theorem ft8BandFrequencies_limits :
    ∀ entry ∈ ft8BandFrequencies,
      ((UInt64.ofInt entry.databaseBand.toInt * 1000000).toNat : Int) =
        entry.databaseBand.toInt * 1000000 ∧
      ((UInt64.ofInt entry.databaseBand.toInt * 1000000 + 1000000).toNat : Int) =
        entry.databaseBand.toInt * 1000000 + 1000000 := by
  decide

variable {candidates : WsprHopPlan} {bands : List WsprHopBand}

theorem PlanBuilt.name_ne_nil (hplan : PlanBuilt ft8BandFrequencies candidates)
    {band : WsprHopBand} (hband : band ∈ candidates.bands) : band.name ≠ [] := by
  obtain ⟨entry, hentry, rfl⟩ := hplan.listed band hband
  exact (ft8BandFrequencies_apart entry hentry).1

/-- For a band of the plan the comparison of the source, in megahertz and with unsigned
integers, is the membership in the band's range of frequencies. -/
theorem PlanBuilt.inDatabaseBand_eq (hplan : PlanBuilt ft8BandFrequencies candidates)
    {band : WsprHopBand} (hband : band ∈ candidates.bands) (frequency : UInt64) :
    inDatabaseBand frequency band = inBand frequency.toNat band := by
  obtain ⟨entry, hentry, rfl⟩ := hplan.listed band hband
  obtain ⟨hlower, hupper⟩ := ft8BandFrequencies_limits entry hentry
  have hwide : ((30000000 : UInt64).toNat : Int) = 30000000 := rfl
  rw [inDatabaseBand, inBand, BandFrequency.hopBand]
  dsimp only
  congr 1
  · rw [decide_eq_decide, UInt64.le_iff_toNat_le, ← Int.ofNat_le, hlower]
  · rw [decide_eq_decide, UInt64.lt_iff_toNat_lt, ← Int.ofNat_lt]
    split
    · rw [hwide]
    · rw [hupper]

theorem inBand_bounds {frequency : Nat} {band : WsprHopBand} (h : inBand frequency band = true) :
    band.databaseBand.toInt * 1000000 ≤ frequency ∧
      (frequency : Int) < (band.databaseBand.toInt + 2) * 1000000 := by
  rw [inBand, Bool.and_eq_true] at h
  have hlower := of_decide_eq_true h.1
  have hupper := of_decide_eq_true h.2
  refine ⟨hlower, ?_⟩
  split at hupper
  · rename_i hwide
    rw [hwide]
    exact hupper
  · omega

/-- A frequency lies in one band of the plan at most. -/
theorem PlanBuilt.inBand_one (hplan : PlanBuilt ft8BandFrequencies candidates)
    (frequency : Nat) :
    candidates.bands.Pairwise fun band other =>
      inBand frequency band = true → inBand frequency other = false := by
  have hnames : candidates.bands.Pairwise fun band other => band.name ≠ other.name :=
    List.pairwise_map.mp hplan.distinct
  refine hnames.imp_of_mem fun {band other} hband hother hne hin => ?_
  obtain ⟨entry, hentry, rfl⟩ := hplan.listed band hband
  obtain ⟨otherEntry, hotherEntry, rfl⟩ := hplan.listed other hother
  have hapart := (ft8BandFrequencies_apart entry hentry).2 otherEntry hotherEntry hne
  have hbounds := inBand_bounds hin
  rw [Bool.eq_false_iff]
  intro hother
  have hotherBounds := inBand_bounds hother
  simp only [BandFrequency.hopBand] at hbounds hotherBounds
  omega

/-- `if (counts[index] != ULONG_MAX) counts[index]++` -/
def increment (count : UInt64) : UInt64 := if count ≠ 2 ^ 64 - 1 then count + 1 else count

/-- A count of this many. -/
def tally (n : Nat) : UInt64 := UInt64.ofNat (min n (2 ^ 64 - 1))

theorem tally_fits (n : Nat) : min n (2 ^ 64 - 1) < UInt64.size := by
  rw [UInt64.size]
  omega

theorem toNat_tally (n : Nat) : (tally n).toNat = min n (2 ^ 64 - 1) :=
  UInt64.toNat_ofNat_of_lt' (tally_fits n)

/-- A counter that stops at its largest value holds the tally of one more monitor after one
more increment. -/
theorem increment_tally (n : Nat) : increment (tally n) = tally (n + 1) := by
  have hfull : ((2 ^ 64 - 1 : UInt64)).toNat = 2 ^ 64 - 1 := by decide +kernel
  have hone : (1 : UInt64).toNat = 1 := rfl
  rw [increment]
  split
  · rename_i hroom
    rw [Ne, ← UInt64.toNat_inj, toNat_tally, hfull] at hroom
    rw [← UInt64.toNat_inj, UInt64.toNat_add, hone, toNat_tally, toNat_tally]
    omega
  · rename_i hfullCount
    rw [Ne, not_not, ← UInt64.toNat_inj, toNat_tally, hfull] at hfullCount
    rw [← UInt64.toNat_inj, toNat_tally, toNat_tally]
    omega

/-- With one matching band at most, the first is the only one. -/
theorem countFirst_map {matching : WsprHopBand → Bool}
    (hone : bands.Pairwise fun band other => matching band = true → matching other = false)
    (count : WsprHopBand → UInt64) :
    countFirst matching bands (bands.map count) =
      bands.map fun band => if matching band then increment (count band) else count band := by
  induction bands with
  | nil => rfl
  | cons band rest ih =>
      obtain ⟨hband, hrest⟩ := List.pairwise_cons.mp hone
      rw [List.map_cons, List.map_cons, countFirst]
      split
      · rename_i hmatch
        congr 1
        refine List.map_congr_left fun other hother => ?_
        rw [hband other hother hmatch, if_neg Bool.false_ne_true]
      · rw [ih hrest]

/-- Distinct names: each band is counted once if its name is among them. -/
theorem countFirst_names (hbands : (bands.map (·.name)).Nodup) {names : List CString}
    (hnames : names.Nodup) (count : WsprHopBand → UInt64) :
    names.foldl (fun counts name => countFirst (fun band => band.name == name) bands counts)
        (bands.map count) =
      bands.map fun band =>
        if band.name ∈ names then increment (count band) else count band := by
  induction names generalizing count with
  | nil => exact List.map_congr_left fun band _ => (if_neg List.not_mem_nil).symm
  | cons name names ih =>
      obtain ⟨hname, hrest⟩ := List.nodup_cons.mp hnames
      have hone : bands.Pairwise fun band other =>
          (band.name == name) = true → (other.name == name) = false := by
        refine (List.pairwise_map.mp hbands).imp fun {band other} hne heq => ?_
        rw [beq_iff_eq] at heq
        exact beq_eq_false_iff_ne.mpr fun hother => hne (heq.trans hother.symm)
      rw [List.foldl_cons, countFirst_map hone, ih hrest]
      refine List.map_congr_left fun band _ => ?_
      rcases Decidable.em (band.name = name) with heq | hne
      · rw [if_neg (heq ▸ hname), if_pos (beq_iff_eq.mpr heq),
          if_pos (heq ▸ List.mem_cons_self)]
      · have hmem : band.name ∈ name :: names ↔ band.name ∈ names := by
          rw [List.mem_cons, or_iff_right hne]
        rw [if_neg (mt beq_iff_eq.mp hne)]
        exact (if_congr hmem rfl rfl).symm

/-- The loop visits the fields that were joined. An empty last field is not visited, which
makes no difference to a step that an empty field leaves where it is. -/
theorem foldl_separated {β : Type*} (step : β → CString → β)
    (hempty : ∀ state, step state [] = state) {fields : List CString}
    (hfields : ∀ field ∈ fields, ','.toUInt8 ∉ field) (state : β) :
    (separated ','.toUInt8 (commaJoined fields)).foldl step state = fields.foldl step state := by
  induction fields generalizing state with
  | nil => rfl
  | cons field rest ih =>
      have hfield := hfields field List.mem_cons_self
      have hrest := fun state =>
        ih (fun other hother => hfields other (List.mem_cons_of_mem field hother)) state
      cases rest with
      | nil =>
          rcases Decidable.em (field = []) with rfl | hne
          · exact (hempty state).symm
          · rw [commaJoined, separated_one hfield hne]
      | cons next fields =>
          rw [commaJoined, separated_cons hfield, List.foldl_cons, hrest]
          rfl

theorem ListedName.text_one (listed : ListedName) : ','.toUInt8 ∉ listed.text := by
  have hcomma : isspace ','.toUInt8 = false := by decide
  have hblank (blank : Blank) : ','.toUInt8 ∉ blank.val :=
    fun h => Bool.false_ne_true (hcomma.symm.trans (blank.property _ h))
  rw [ListedName.text, List.mem_append, List.mem_append]
  exact not_or.mpr ⟨not_or.mpr ⟨hblank _, listed.one⟩, hblank _⟩

/-- The white space around a name in a monitor's list of bands is cut off, and the name itself
has none at its ends. -/
theorem ListedName.trimmed_text (listed : ListedName) : trimmed listed.text = listed.name := by
  rw [trimmed, ListedName.text, List.append_assoc,
    List.dropWhile_append_of_pos listed.before.property]
  rcases hname : listed.name with _ | ⟨c, rest⟩
  · have hafter : listed.after.val.dropWhile isspace = [] :=
      List.dropWhile_eq_nil_iff.mpr listed.after.property
    rw [List.nil_append, hafter, List.rdropWhile_nil]
  · have hfirst : isspace c = false := listed.first c (hname ▸ rfl)
    rw [List.cons_append, List.dropWhile_cons_of_neg (Bool.eq_false_iff.mp hfirst),
      ← List.cons_append, ← hname]
    have hdropped : listed.after.val.rdropWhile isspace = [] :=
      List.rdropWhile_eq_nil_iff.mpr listed.after.property
    rw [List.rdropWhile, List.reverse_append, List.dropWhile_append_of_pos
      fun d hd => listed.after.property d (List.mem_reverse.mp hd)]
    have hlast : listed.name.rdropWhile isspace = listed.name :=
      List.rdropWhile_eq_self_iff.mpr fun hne => Bool.eq_false_iff.mp
        (listed.last _ (List.getLast?_eq_some_getLast hne))
    exact hlast

theorem countFirst_none {matching : WsprHopBand → Bool}
    (hnone : ∀ band ∈ bands, matching band = false) (counts : List UInt64) :
    countFirst matching bands counts = counts := by
  induction bands generalizing counts with
  | nil => rfl
  | cons band rest ih =>
      cases counts with
      | nil => rfl
      | cons count counts =>
          rw [countFirst, if_neg (Bool.eq_false_iff.mp (hnone band List.mem_cons_self)),
            ih fun other hother => hnone other (List.mem_cons_of_mem band hother)]

/-- A list of bands adds one to the count of each band of the plan that it names, and to no
other count. The names of a list are different, so no band is counted twice for one monitor. -/
theorem countMonitorBands_listed (hplan : PlanBuilt ft8BandFrequencies candidates)
    {names : List ListedName} (hdistinct : (names.map (·.name)).Nodup)
    (count : WsprHopBand → UInt64) :
    countMonitorBands candidates (commaJoined (names.map (·.text)))
        (candidates.bands.map count) =
      candidates.bands.map fun band =>
        if names.any (·.name == band.name) then increment (count band) else count band := by
  have hempty (counts : List UInt64) :
      countFirst (fun band => band.name == trimmed []) candidates.bands counts = counts :=
    countFirst_none (fun band hband => beq_eq_false_iff_ne.mpr (hplan.name_ne_nil hband)) counts
  have hfields : ∀ field ∈ names.map (·.text), ','.toUInt8 ∉ field := by
    intro field hfield
    obtain ⟨listed, -, rfl⟩ := List.mem_map.mp hfield
    exact listed.text_one
  have hnames := countFirst_names hplan.distinct hdistinct count
  rw [List.foldl_map] at hnames
  rw [countMonitorBands, foldl_separated _ hempty hfields, List.foldl_map]
  simp only [ListedName.trimmed_text]
  rw [hnames]
  refine List.map_congr_left fun band _ => ?_
  have hmem : band.name ∈ names.map (·.name) ↔ names.any (·.name == band.name) = true := by
    simp only [List.mem_map, List.any_eq_true, beq_iff_eq]
  exact if_congr hmem rfl rfl

/-- A test that only members with this key pass is the test of the member with this key. -/
theorem MonitorObject.any_eq (object : MonitorObject) {member : MonitorMember}
    (hmember : member ∈ object.members) (test : MonitorContent → Bool)
    (htest : ∀ content, test content = true → content.key = member.content.key) :
    object.members.any (fun other => test other.content) = test member.content := by
  rw [Bool.eq_iff_iff, List.any_eq_true]
  constructor
  · rintro ⟨other, hother, hpasses⟩
    have hsame := List.inj_on_of_nodup_map object.distinct hother hmember
      (htest other.content hpasses)
    exact hsame ▸ hpasses
  · exact fun hpasses => ⟨member, hmember, hpasses⟩

theorem MonitorContent.key_of_names {band : WsprHopBand} (content : MonitorContent)
    (h : content.names band = true) : content.key = bytes "bands" := by
  cases content with
  | bands => rfl
  | frequency => cases h
  | other => cases h

theorem MonitorContent.key_of_locates {band : WsprHopBand} (content : MonitorContent)
    (h : content.locates band = true) : content.key = bytes "frequency" := by
  cases content with
  | bands => cases h
  | frequency => rfl
  | other => cases h

theorem bands_ne_frequency : bytes "bands" ≠ bytes "frequency" := by decide

theorem MonitorContent.eq_bands {content : MonitorContent} (h : content.key = bytes "bands") :
    ∃ names distinct, content = .bands names distinct := by
  cases content with
  | bands names distinct => exact ⟨names, distinct, rfl⟩
  | frequency => exact absurd h.symm bands_ne_frequency
  | other key escapeFree notBands => exact absurd h notBands

theorem MonitorContent.eq_frequency {content : MonitorContent}
    (h : content.key = bytes "frequency") :
    ∃ digits hne decimal fits, content = .frequency digits hne decimal fits := by
  cases content with
  | bands => exact absurd h bands_ne_frequency
  | frequency digits hne decimal fits => exact ⟨digits, hne, decimal, fits, rfl⟩
  | other key escapeFree notBands notFrequency => exact absurd h notFrequency

/-- The counts with this object's bands counted. -/
def MonitorObject.counted (object : MonitorObject) (count : WsprHopBand → UInt64)
    (band : WsprHopBand) : UInt64 :=
  if object.monitors band then increment (count band) else count band

/-- A monitor with a list of bands counts for the bands of its list; its frequency, where it
has one, is not looked at. -/
theorem countMonitorObject_bands (hplan : PlanBuilt ft8BandFrequencies candidates)
    {object : MonitorObject} (hbands : object.hasBands = true) (after : CString)
    (count : WsprHopBand → UInt64) :
    countMonitorObject candidates object.body after (candidates.bands.map count) =
      some (candidates.bands.map (object.counted count)) := by
  obtain ⟨member, hmember, hbeq⟩ := List.any_eq_true.mp hbands
  have hkey : member.content.key = bytes "bands" := beq_iff_eq.mp hbeq
  obtain ⟨names, distinct, hcontent⟩ := MonitorContent.eq_bands hkey
  obtain ⟨rest, -, hvalue⟩ := jsonObjectValue_present hmember object.distinct
  have htext : member.content.value.text =
      quote :: (commaJoined (names.map (·.text)) ++ [quote]) := by
    rw [hcontent]
    rfl
  rw [hkey, ← jsonObjectValue_body, htext, List.cons_append, List.append_assoc,
    List.singleton_append] at hvalue
  have hfree := listedNames_escapeFree names
  have hspan : (commaJoined (names.map (·.text)) ++ quote :: (member.afterValue.val ++ rest)).span
      (· != quote) =
        (commaJoined (names.map (·.text)), quote :: (member.afterValue.val ++ rest)) := by
    apply span_word (fun c hc => bne_iff_ne.mpr (hfree c hc).1)
    intro c hc
    rw [← Option.some.inj hc, bne_self_eq_false]
  have hbackslash : backslash ∉ commaJoined (names.map (·.text)) :=
    fun h => (hfree backslash h).2 rfl
  rw [countMonitorObject, hvalue]
  dsimp only
  rw [if_neg (not_not.mpr rfl), hspan]
  dsimp only
  rw [if_neg hbackslash, countMonitorBands_listed hplan distinct]
  congr 1
  refine List.map_congr_left fun band _ => ?_
  have hany := object.any_eq hmember (MonitorContent.names band)
    fun content h => (content.key_of_names h).trans hkey.symm
  rw [MonitorObject.counted, MonitorObject.monitors, if_pos hbands, hany, hcontent]
  rfl

theorem jsonObjectValue_noBands {object : MonitorObject} (hbands : object.hasBands = false) :
    jsonObjectValue (bytes "bands") object.body = none := by
  rw [jsonObjectValue_body]
  apply jsonObjectValue_absent
  intro member hmember hkey
  exact List.any_eq_false.mp hbands member hmember (beq_iff_eq.mpr hkey)

/-- A monitor's frequency adds one to the count of each band of the plan that the frequency
lies in. -/
theorem countMonitorFrequency_map (hplan : PlanBuilt ft8BandFrequencies candidates)
    {frequency : Nat} (fits : frequency < 2 ^ 64) (count : WsprHopBand → UInt64) :
    countMonitorFrequency candidates (UInt64.ofNat frequency) (candidates.bands.map count) =
      candidates.bands.map fun band =>
        if inBand frequency band then increment (count band) else count band := by
  have hin : ∀ band ∈ candidates.bands,
      inDatabaseBand (UInt64.ofNat frequency) band = inBand frequency band := by
    intro band hband
    rw [hplan.inDatabaseBand_eq hband, UInt64.toNat_ofNat_of_lt' fits]
  have hone : candidates.bands.Pairwise fun band other =>
      inDatabaseBand (UInt64.ofNat frequency) band = true →
        inDatabaseBand (UInt64.ofNat frequency) other = false := by
    refine (hplan.inBand_one frequency).imp_of_mem fun {band other} hband hother h => ?_
    rw [hin band hband, hin other hother]
    exact h
  rw [countMonitorFrequency, countFirst_map hone]
  refine List.map_congr_left fun band hband => ?_
  rw [hin band hband]

/-- Behind a number stands a blank, a comma or the closing brace. -/
theorem EndsMember.not_digit {rest : CString} (hends : EndsMember rest) (blank : Blank)
    (after : CString) :
    ∀ c ∈ (blank.val ++ (rest ++ '}'.toUInt8 :: after)).head?, isdigit c = false := by
  intro c hc
  rcases hblank : blank.val with _ | ⟨d, text⟩
  · rw [hblank, List.nil_append] at hc
    rcases hends with rfl | ⟨next, rfl⟩
    · rw [← Option.some.inj hc]
      decide
    · rw [← Option.some.inj hc]
      decide
  · rw [hblank, List.cons_append] at hc
    rw [← Option.some.inj hc]
    exact isspace_not_isdigit (blank.property d (hblank ▸ List.mem_cons_self))

/-- A monitor without a list of bands counts for the bands its frequency lies in. The number
ends where the member does, so nothing of what follows it is read. -/
theorem countMonitorObject_frequency (hplan : PlanBuilt ft8BandFrequencies candidates)
    {object : MonitorObject} (hbands : object.hasBands = false) {member : MonitorMember}
    (hmember : member ∈ object.members) (hkey : member.content.key = bytes "frequency")
    (after : CString) (count : WsprHopBand → UInt64) :
    countMonitorObject candidates object.body ('}'.toUInt8 :: after)
        (candidates.bands.map count) =
      some (candidates.bands.map (object.counted count)) := by
  obtain ⟨digits, hne, decimal, fits, hcontent⟩ := MonitorContent.eq_frequency hkey
  obtain ⟨rest, hends, hvalue⟩ := jsonObjectValue_present hmember object.distinct
  have htext : member.content.value.text = digits := by
    rw [hcontent]
    rfl
  rw [hkey, ← jsonObjectValue_body, htext] at hvalue
  let behind := member.afterValue.val ++ (rest ++ '}'.toUInt8 :: after)
  have hnumber : strtoul (digits ++ (member.afterValue.val ++ rest) ++ '}'.toUInt8 :: after) =
      some (UInt64.ofNat (digitsValue 10 digits), false, behind) := by
    rw [List.append_assoc, List.append_assoc]
    exact strtoul_digits hne decimal fits (hends.not_digit member.afterValue after)
  -- The number ends inside the object.
  have hinside : ¬ ((false : Bool) = true ∨ behind.length < ('}'.toUInt8 :: after).length) := by
    simp only [behind, List.length_append, Bool.false_eq_true, false_or]
    omega
  rw [countMonitorObject, jsonObjectValue_noBands hbands]
  dsimp only
  rw [hvalue]
  dsimp only
  rw [hnumber]
  dsimp only
  rw [if_neg hinside, countMonitorFrequency_map hplan fits]
  congr 1
  refine List.map_congr_left fun band _ => ?_
  have hany := object.any_eq hmember (MonitorContent.locates band)
    fun content h => (content.key_of_locates h).trans hkey.symm
  rw [MonitorObject.counted, MonitorObject.monitors, if_neg (Bool.eq_false_iff.mp hbands), hany,
    hcontent]
  rfl

/-- What one monitor's object adds to the counts, whichever of the two members it has and
wherever they stand among its members. -/
theorem countMonitorObject_body (hplan : PlanBuilt ft8BandFrequencies candidates)
    (object : MonitorObject) (after : CString) (count : WsprHopBand → UInt64) :
    countMonitorObject candidates object.body ('}'.toUInt8 :: after)
        (candidates.bands.map count) =
      some (candidates.bands.map (object.counted count)) := by
  rcases hbands : object.hasBands
  · rcases Decidable.em (∃ member ∈ object.members, member.content.key = bytes "frequency")
      with ⟨member, hmember, hkey⟩ | hnone
    · exact countMonitorObject_frequency hplan hbands hmember hkey after count
    · have habsent : jsonObjectValue (bytes "frequency") object.body = none := by
        rw [jsonObjectValue_body]
        exact jsonObjectValue_absent fun member hmember hkey => hnone ⟨member, hmember, hkey⟩
      rw [countMonitorObject, jsonObjectValue_noBands hbands]
      dsimp only
      rw [habsent]
      dsimp only
      congr 1
      refine List.map_congr_left fun band _ => ?_
      have hany : object.members.any (·.content.locates band) = false :=
        List.any_eq_false.mpr fun member hmember h =>
          hnone ⟨member, hmember, member.content.key_of_locates h⟩
      rw [MonitorObject.counted, MonitorObject.monitors, if_neg (Bool.eq_false_iff.mp hbands),
        hany, if_neg Bool.false_ne_true]
  · exact countMonitorObject_bands hplan hbands _ count

/-- The loop depends on its text from the first brace on. -/
theorem monitorLoop_eq (candidates : WsprHopPlan) (after text : CString) (counts : List UInt64) :
    monitorLoop candidates after text counts =
      match text.dropWhile (· != '{'.toUInt8) with
      | [] => some counts
      | _ :: rest =>
          match jsonObjectEnd rest with
          | none => none
          | some (object, behind) =>
              match countMonitorObject candidates object ('}'.toUInt8 :: (behind ++ after)) counts
                with
              | none => none
              | some counts => monitorLoop candidates after behind counts := by
  rw [monitorLoop]
  split
  · rename_i hnil
    rw [hnil]
  · rename_i c rest hcons
    rw [hcons]
    dsimp only
    split
    · rename_i hend
      rw [hend]
    · rename_i object behind hend
      generalize jsonObjectEnd rest = result at hend ⊢
      subst hend
      rfl

theorem monitorLoop_skip (candidates : WsprHopPlan) (after : CString) {front : CString}
    (hfront : ∀ c ∈ front, c ≠ '{'.toUInt8) (text : CString) (counts : List UInt64) :
    monitorLoop candidates after (front ++ text) counts =
      monitorLoop candidates after text counts := by
  rw [monitorLoop_eq, monitorLoop_eq candidates after text,
    List.dropWhile_append_of_pos fun c hc => bne_iff_ne.mpr (hfront c hc)]

/-- The loop over the array takes one object off the text and goes on behind it with the counts
that the object gives. -/
theorem monitorLoop_object (hplan : PlanBuilt ft8BandFrequencies candidates) (after : CString)
    (object : MonitorObject) (text : CString) (count : WsprHopBand → UInt64) :
    monitorLoop candidates after (object.text ++ text) (candidates.bands.map count) =
      monitorLoop candidates after text (candidates.bands.map (object.counted count)) := by
  have hblank (blank : Blank) : ∀ c ∈ blank.val, c ≠ '{'.toUInt8 :=
    fun c hc => unmarked_ne (blank.unmarked c hc) rfl
  rw [MonitorObject.text, List.append_assoc, monitorLoop_skip _ _ (hblank object.before),
    monitorLoop_eq, List.cons_append, List.append_assoc,
    List.dropWhile_cons_of_neg (by decide)]
  dsimp only
  rw [List.cons_append, jsonObjectEnd_body]
  dsimp only
  rw [countMonitorObject_body hplan]
  exact monitorLoop_skip _ _ (hblank object.after) _ _

theorem counted_tally (object : MonitorObject) (count : WsprHopBand → Nat) :
    object.counted (fun band => tally (count band)) =
      fun band => tally (count band + if object.monitors band then 1 else 0) := by
  funext band
  rw [MonitorObject.counted, increment_tally]
  split
  · rfl
  · rfl

/-- Every object of the array is counted, behind any counts. -/
theorem monitorLoop_objects (hplan : PlanBuilt ft8BandFrequencies candidates) (after : CString)
    (objects : List MonitorObject) (count : WsprHopBand → Nat) :
    monitorLoop candidates after (commaJoined (objects.map (·.text)))
        (candidates.bands.map fun band => tally (count band)) =
      some (candidates.bands.map fun band =>
        tally (count band + objects.countP (·.monitors band))) := by
  induction objects generalizing count with
  | nil =>
      rw [monitorLoop_eq]
      rfl
  | cons object objects ih =>
      have hrest := ih fun band => count band + if object.monitors band then 1 else 0
      have hcount (band : WsprHopBand) :
          (count band + if object.monitors band then 1 else 0) +
              objects.countP (·.monitors band) =
            count band + (object :: objects).countP (·.monitors band) := by
        rw [List.countP_cons]
        omega
      simp only [hcount] at hrest
      cases objects with
      | nil =>
          rw [List.map_singleton, commaJoined, ← List.append_nil object.text,
            monitorLoop_object hplan, counted_tally]
          exact hrest
      | cons next objects =>
          have hcomma : ∀ c ∈ [','.toUInt8], c ≠ '{'.toUInt8 := by
            intro c hc
            rw [List.mem_singleton.mp hc]
            decide
          rw [List.map_cons, List.map_cons, commaJoined, monitorLoop_object hplan, counted_tally,
            ← List.singleton_append, monitorLoop_skip _ _ hcomma]
          exact hrest

/-- The counts after a whole response are the tallies of the monitors of each band, for any
array of monitors, any order of their members and any white space around them. -/
theorem monitorCounts_response (hplan : PlanBuilt ft8BandFrequencies candidates)
    (response : MonitorResponse) :
    monitorCounts candidates response.text =
      some (candidates.bands.map fun band => tally (response.monitorCount band)) := by
  have hkey : strstr activeReceiverKey response.text =
      some (activeReceiverKey ++ monitorArrayText response.beforeColon response.beforeArray
        response.inside response.objects response.rest) :=
    strstr_first (List.prefix_append _ _) response.first
  have hcolon : isspace ':'.toUInt8 = false := by decide
  have hbracket : isspace '['.toUInt8 = false := by decide
  have hinside : ∀ c ∈ response.inside.val, c ≠ '{'.toUInt8 :=
    fun c hc => unmarked_ne (response.inside.unmarked c hc) rfl
  have hloop := monitorLoop_objects hplan (']'.toUInt8 :: response.rest) response.objects
    fun _ => 0
  simp only [Nat.zero_add] at hloop
  rw [monitorCounts]
  change (strstr activeReceiverKey response.text).bind _ = _
  rw [hkey, Option.bind_some]
  change (skipCharacter ':'.toUInt8
    (List.drop activeReceiverKey.length (activeReceiverKey ++ _))).bind _ = _
  rw [List.drop_left, monitorArrayText, skipCharacter, skipSpace_blank, skipSpace_cons hcolon]
  dsimp only
  rw [if_pos rfl, Option.bind_some]
  change (skipCharacter '['.toUInt8 _).bind _ = _
  rw [skipCharacter, skipSpace_blank, skipSpace_cons hbracket]
  dsimp only
  rw [if_pos rfl, Option.bind_some]
  change (jsonArrayEnd _).bind _ = _
  rw [jsonArrayEnd_objects, Option.bind_some]
  dsimp only
  rw [monitorLoop_skip _ _ hinside]
  exact hloop

end AirspyhfWsprd.Bands
